import Mathlib.Data.List.ReduceOption
import IocpRuntime.Transport.SendQueue

namespace IocpRuntime.Proofs.SendFifo
open Lib Transport Transport.SendQueue

variable {bytes : Nat} {q : SendQueue} {segment : Segment} {gather : SendGather}

structure WellFormed (q : SendQueue) : Prop where
  unfinished : ∀ batch ∈ q.batches, batch.nextSegment < batch.segments.length
  remaining : ∀ segment ∈ q.pending, segment.offset < segment.buffer.length
  items : q.itemCount = q.pending.length
  bytes : q.queuedBytes = q.unsent.length
  itemsBound : q.itemCount ≤ q.maximumItems
  bytesBound : q.queuedBytes ≤ q.maximumBytes

def octetsOf (segments : List Segment) : Octets := segments.flatMap Segment.unsent

@[simp] theorem octetsOf_nil : octetsOf [] = [] := rfl

@[simp] theorem octetsOf_cons (segment : Segment) :
    octetsOf (segment :: segments) = segment.unsent ++ octetsOf segments := by
  simp [octetsOf]

@[simp] theorem octetsOf_append :
    octetsOf (first ++ second) = octetsOf first ++ octetsOf second := by
  simp [octetsOf]

theorem unsent_eq : q.unsent = octetsOf q.pending := rfl

@[simp] theorem Segment.unsent_length (segment : Segment) :
    segment.unsent.length = segment.buffer.length - segment.offset := by
  simp [Segment.unsent]

theorem WellFormed.of_create {items : Nat} (h : SendQueue.create items bytes = .ok q) : WellFormed q := by
  unfold SendQueue.create at h
  split at h
  · cases h
  · cases h
    constructor <;> simp [SendQueue.pending, SendQueue.unsent]

theorem WellFormed.clear : WellFormed q.clear := by
  constructor <;> simp [SendQueue.clear, SendQueue.pending, SendQueue.unsent]

/-- A queue without octets has no batch. -/
theorem WellFormed.empty_iff (h : WellFormed q) : q.empty = true ↔ q.unsent = [] := by
  constructor
  · intro he
    have hb : q.batches = [] := by simpa [SendQueue.empty] using he
    simp [SendQueue.unsent, SendQueue.pending, hb]
  · intro hu
    cases hb : q.batches with
    | nil => simp [SendQueue.empty, hb]
    | cons batch batches =>
      have hm : batch ∈ q.batches := by simp [hb]
      have hne := h.unfinished batch hm
      have hp : batch.segments[batch.nextSegment] ∈ q.pending :=
        List.mem_flatMap.mpr ⟨batch, hm, List.mem_drop_iff_getElem.mpr ⟨0, by omega, by simp⟩⟩
      have hle := h.remaining _ hp
      have hn := (List.flatMap_eq_nil_iff.mp hu) _ hp
      have hl := congrArg List.length hn
      simp only [Segment.unsent_length, List.length_nil] at hl
      omega

section Push

@[simp] theorem segmentsOf_nil : segmentsOf [] = [] := rfl

@[simp] theorem segmentsOf_null : segmentsOf (none :: buffers) = segmentsOf buffers := by
  simp [segmentsOf]

theorem segmentsOf_some : segmentsOf (some buffer :: buffers) =
      if buffer = [] then segmentsOf buffers else ⟨buffer, 0⟩ :: segmentsOf buffers := by
  by_cases hb : buffer = [] <;> simp [segmentsOf, hb]

theorem octetsOf_segmentsOf (segments : List Octets) :
    octetsOf (segmentsOf (segments.map some)) = segments.flatten := by
  induction segments with
  | nil => rfl
  | cons segment segments ih =>
    rw [List.map_cons, segmentsOf_some]
    split
    · rename_i he
      simpa [he] using ih
    · simp [ih, Segment.unsent]

theorem segmentsOf_remaining
    (h : segment ∈ segmentsOf buffers) : segment.offset < segment.buffer.length := by
  simp only [segmentsOf, List.mem_map, List.mem_filter, decide_eq_true_eq] at h
  obtain ⟨buffer, ⟨-, hne⟩, rfl⟩ := h
  exact List.length_pos_iff.mpr hne

/-- What admission counts: the non-empty buffers, within what the queue has room for. -/
theorem admission_some (hi : items ≤ q.maximumItems - q.itemCount)
    (hb : bytes ≤ q.maximumBytes - q.queuedBytes)
    (h : q.admission buffers items bytes = some counted) :
    counted.1 = items + (segmentsOf buffers).length ∧
      counted.2 = bytes + (octetsOf (segmentsOf buffers)).length ∧
      counted.1 ≤ q.maximumItems - q.itemCount ∧ counted.2 ≤ q.maximumBytes - q.queuedBytes := by
  induction buffers generalizing items bytes with
  | nil =>
    cases h
    exact ⟨rfl, rfl, hi, hb⟩
  | cons buffer buffers ih =>
    cases buffer with
    | none => cases h
    | some buffer =>
      rw [SendQueue.admission] at h
      rw [segmentsOf_some]
      split at h
      · rename_i he
        rw [if_pos he]
        exact ih hi hb h
      · rename_i he
        rw [if_neg he]
        split at h
        · cases h
        · split at h
          · cases h
          · obtain ⟨h1, h2, h3, h4⟩ := ih (by omega) (by omega) h
            refine ⟨?_, ?_, h3, h4⟩
            · simp only [h1, List.length_cons]
              omega
            · simp only [h2, octetsOf_cons, List.length_append, Segment.unsent_length]
              omega

theorem pending_push (q : SendQueue) (segments : List Segment) (items bytes : Nat) :
    ({ q with
        batches := q.batches ++ [⟨segments, 0⟩]
        itemCount := items
        queuedBytes := bytes } : SendQueue).pending = q.pending ++ segments := by
  simp [SendQueue.pending, Batch.pending]

/-- An admitted batch goes to the back as a whole; a refused one changes nothing. -/
theorem WellFormed.push (h : WellFormed q) : WellFormed (q.tryPushBatch buffers).2 ∧
      (q.tryPushBatch buffers).2.unsent =
        q.unsent ++ (if (q.tryPushBatch buffers).1 then octetsOf (segmentsOf buffers) else []) := by
  unfold SendQueue.tryPushBatch
  cases ha : q.admission buffers 0 0 with
  | none => exact ⟨h, by simp⟩
  | some counted =>
    obtain ⟨h1, h2, h3, h4⟩ := admission_some (Nat.zero_le _) (Nat.zero_le _) ha
    have hi := h.itemsBound
    have hby := h.bytesBound
    dsimp only
    split
    · rename_i hz
      have hn : segmentsOf buffers = [] := List.length_eq_zero_iff.mp (by omega)
      exact ⟨h, by simp [hn]⟩
    · rename_i hso
      have hp := pending_push q (segmentsOf buffers) (q.itemCount + counted.1)
        (q.queuedBytes + counted.2)
      refine ⟨⟨?_, ?_, ?_, ?_, ?_, ?_⟩, ?_⟩
      · intro batch hb
        rcases List.mem_append.mp hb with hb | hb
        · exact h.unfinished batch hb
        · cases List.mem_singleton.mp hb
          change 0 < (segmentsOf buffers).length
          omega
      · intro segment hs
        rw [hp] at hs
        rcases List.mem_append.mp hs with hs | hs
        · exact h.remaining segment hs
        · exact segmentsOf_remaining hs
      · rw [hp, List.length_append, ← h.items]
        dsimp only
        omega
      · rw [unsent_eq, hp, octetsOf_append, List.length_append, ← unsent_eq, ← h.bytes]
        dsimp only
        omega
      · dsimp only
        omega
      · dsimp only
        omega
      · rw [unsent_eq, hp, octetsOf_append, ← unsent_eq]
        simp

end Push

section Gather

variable {maximumSegments maximumBytes : Nat}

/-- A gather within its limits, each slice with octets in it. -/
structure Gathered (maximumSegments maximumBytes : Nat) (gather : SendGather) : Prop where
  slices : gather.slices.length ≤ maximumSegments
  bytes : gather.totalBytes ≤ maximumBytes
  total : gather.totalBytes = gather.octets.length
  nonempty : ∀ slice ∈ gather.slices, slice.octets ≠ []

def Full (maximumSegments maximumBytes : Nat) (gather : SendGather) : Prop :=
  gather.slices.length = maximumSegments ∨ gather.totalBytes = maximumBytes

/-- What gathering segments adds: a piece of their front, all of them unless a limit is met. -/
structure Takes (maximumSegments maximumBytes : Nat) (segments : List Segment)
    (before after : SendGather) : Prop extends Gathered maximumSegments maximumBytes after where
  front : after.octets <+: before.octets ++ octetsOf segments
  whole : Full maximumSegments maximumBytes after ∨
    after.octets = before.octets ++ octetsOf segments

theorem Gathered.nothing (maximumSegments maximumBytes : Nat) :
    Gathered maximumSegments maximumBytes {} := by
  constructor <;> simp [SendGather.octets]

theorem Gathered.full (h : Gathered maximumSegments maximumBytes gather)
    (hl : ¬(gather.slices.length < maximumSegments ∧ gather.totalBytes < maximumBytes)) :
    Full maximumSegments maximumBytes gather := by
  have hs := h.slices
  have hb := h.bytes
  unfold Full
  omega

theorem gatherSegments_full (h : Full maximumSegments maximumBytes gather) :
    gatherSegments maximumSegments maximumBytes segments gather = gather := by
  cases segments with
  | nil => rfl
  | cons segment segments =>
    rw [gatherSegments, if_neg]
    rintro ⟨hs, hb⟩
    rcases h with h | h <;> omega

/-- The gather with one more slice, of `bytes` octets of `segment`. -/
def withSlice (gather : SendGather) (segment : Segment) (bytes : Nat) : SendGather :=
  { slices := gather.slices ++ [⟨segment.buffer, segment.offset, bytes⟩]
    totalBytes := gather.totalBytes + bytes }

@[simp] theorem withSlice_octets (segment : Segment) :
    (withSlice gather segment bytes).octets = gather.octets ++ segment.unsent.take bytes := by
  simp [withSlice, SendGather.octets, SendSlice.octets, Segment.unsent]

theorem Gathered.slice (h : Gathered maximumSegments maximumBytes gather)
    (segment : Segment) (bytes : Nat) (hsl : gather.slices.length < maximumSegments)
    (hr : gather.totalBytes + bytes ≤ maximumBytes) (hp : 0 < bytes)
    (hb : bytes ≤ segment.unsent.length) :
    Gathered maximumSegments maximumBytes (withSlice gather segment bytes) where
  slices := by
    simp only [withSlice, List.length_append, List.length_singleton]
    omega
  bytes := hr
  total := by
    rw [withSlice_octets, List.length_append, List.length_take, ← h.total]
    simp only [withSlice]
    omega
  nonempty := by
    intro slice hs
    rcases List.mem_append.mp hs with hs | hs
    · exact h.nonempty slice hs
    · cases List.mem_singleton.mp hs
      change segment.unsent.take bytes ≠ []
      rw [← List.length_pos_iff, List.length_take]
      omega

theorem gatherSegments_takes (h : Gathered maximumSegments maximumBytes gather)
    (hse : ∀ segment ∈ segments, segment.offset < segment.buffer.length) :
    Takes maximumSegments maximumBytes segments gather
      (gatherSegments maximumSegments maximumBytes segments gather) := by
  induction segments generalizing gather with
  | nil => exact ⟨h, by simp [gatherSegments], .inr (by simp [gatherSegments])⟩
  | cons segment segments ih =>
    rw [gatherSegments]
    split
    · rename_i hl
      obtain ⟨hsl, hb⟩ := hl
      have hlf := hse segment List.mem_cons_self
      have hle := Segment.unsent_length segment
      let bytes := min (segment.buffer.length - segment.offset) (maximumBytes - gather.totalBytes)
      have hn := h.slice segment bytes hsl (by omega) (by omega) (by omega)
      change Takes _ _ _ _ (gatherSegments _ _ segments (withSlice gather segment bytes))
      by_cases hcut : bytes = segment.unsent.length
      · -- the segment is taken in full and the loop goes on
        have ht := ih hn (fun s hs => hse s (List.mem_cons_of_mem _ hs))
        have ho : (withSlice gather segment bytes).octets = gather.octets ++ segment.unsent := by
          rw [withSlice_octets, hcut, List.take_length]
        refine ⟨ht.toGathered, ?_, ?_⟩
        · simpa [ho] using ht.front
        · simpa [ho] using ht.whole
      · -- the segment is cut at the octet limit, which ends the loop
        have hf : Full maximumSegments maximumBytes (withSlice gather segment bytes) := by
          right
          simp only [withSlice]
          omega
        rw [gatherSegments_full hf]
        refine ⟨hn, ?_, .inl hf⟩
        rw [withSlice_octets, octetsOf_cons, List.prefix_append_right_inj]
        exact (List.take_prefix _ _).trans (List.prefix_append _ _)
    · rename_i hl
      exact ⟨h, List.prefix_append _ _, .inl (h.full hl)⟩

theorem gatherBatches_takes {batches : List Batch}
    (h : Gathered maximumSegments maximumBytes gather)
    (hse : ∀ segment ∈ batches.flatMap Batch.pending, segment.offset < segment.buffer.length) :
    Takes maximumSegments maximumBytes (batches.flatMap Batch.pending) gather
      (gatherBatches maximumSegments maximumBytes batches gather) := by
  induction batches generalizing gather with
  | nil => exact ⟨h, by simp [gatherBatches], .inr (by simp [gatherBatches])⟩
  | cons batch batches ih =>
    rw [List.flatMap_cons] at hse ⊢
    have hb := gatherSegments_takes h (fun s hs => hse s (List.mem_append_left _ hs))
    rw [gatherBatches]
    split
    · rename_i hf
      refine ⟨hb.toGathered, ?_, .inl hf⟩
      rw [octetsOf_append, ← List.append_assoc]
      exact hb.front.trans (List.prefix_append _ _)
    · rename_i hf
      have ho := hb.whole.resolve_left hf
      have ht := ih hb.toGathered (fun s hs => hse s (List.mem_append_right _ hs))
      refine ⟨ht.toGathered, ?_, ?_⟩
      · simpa [ho] using ht.front
      · simpa [ho] using ht.whole

/-- A gather of a queue with octets is a non-empty piece of its front. -/
theorem WellFormed.gathers (h : WellFormed q) (hs : 0 < maximumSegments)
    (hb : 0 < maximumBytes) (he : q.empty = false) :
    Gathered maximumSegments maximumBytes (q.gather maximumSegments maximumBytes) ∧
      (q.gather maximumSegments maximumBytes).octets <+: q.unsent ∧
      (q.gather maximumSegments maximumBytes).octets ≠ [] := by
  have ht := gatherBatches_takes (Gathered.nothing maximumSegments maximumBytes) h.remaining
  have hg : q.gather maximumSegments maximumBytes =
      gatherBatches maximumSegments maximumBytes q.batches {} := by
    rw [SendQueue.gather, if_neg]
    simp only [he, Bool.false_eq_true, or_false, not_or]
    omega
  rw [hg]
  refine ⟨ht.toGathered, ht.front, ?_⟩
  rcases ht.whole with (hsli | hto) | hall
  · obtain ⟨slice, hsl⟩ := List.exists_mem_of_length_pos (hsli ▸ hs)
    intro hn
    exact ht.nonempty slice hsl (List.flatMap_eq_nil_iff.mp hn slice hsl)
  · rw [← List.length_pos_iff, ← ht.total, hto]
    exact hb
  · intro hn
    have hu : q.unsent = [] := by
      rw [hall] at hn
      exact (List.append_eq_nil_iff.mp hn).2
    rw [h.empty_iff.mpr hu] at he
    cases he

end Gather

section Consume

def advanced (segment : Segment) (n : Nat) : Segment :=
  { segment with offset := segment.offset + n }

@[simp] theorem advanced_unsent (segment : Segment) :
    (advanced segment n).unsent = segment.unsent.drop n := by
  simp [advanced, Segment.unsent]

/-- A queue whose front segment has moved on by `n` octets, and has left the queue
if these were its last. -/
structure Advances (q next : SendQueue) (segment : Segment) (rest : List Segment) (n : Nat) :
    Prop where
  maximumItems : next.maximumItems = q.maximumItems
  maximumBytes : next.maximumBytes = q.maximumBytes
  unfinished : ∀ batch ∈ next.batches, batch.nextSegment < batch.segments.length
  bytes : next.queuedBytes = q.queuedBytes - n
  pending :
    (n = segment.unsent.length ∧ next.pending = rest ∧ next.itemCount = q.itemCount - 1) ∨
      (n < segment.unsent.length ∧ next.pending = advanced segment n :: rest ∧
        next.itemCount = q.itemCount)

theorem Advances.unsent (h : Advances q next segment rest n) (hp : q.pending = segment :: rest) :
    next.unsent = q.unsent.drop n := by
  rw [unsent_eq, unsent_eq, hp, octetsOf_cons]
  rcases h.pending with ⟨hn, hr, -⟩ | ⟨hn, hr, -⟩
  · rw [hr, hn, List.drop_left]
  · rw [hr, octetsOf_cons, advanced_unsent, List.drop_append_of_le_length (by omega)]

theorem WellFormed.advance (h : WellFormed q) (hp : q.pending = segment :: rest)
    (ha : Advances q next segment rest n) : WellFormed next := by
  have hr : ∀ s ∈ rest, s.offset < s.buffer.length :=
    fun s hs => h.remaining s (by simp [hp, hs])
  have hi := h.items
  have hb := h.bytes
  have hit := h.itemsBound
  have hby := h.bytesBound
  rw [hp, List.length_cons] at hi
  have hc : next.queuedBytes = next.unsent.length := by
    rw [ha.unsent hp, List.length_drop, ha.bytes, hb]
  have hm := ha.maximumItems
  have hma := ha.maximumBytes
  have hq := ha.bytes
  rcases ha.pending with ⟨hn, hre, hco⟩ | ⟨hn, hre, hco⟩
  · exact ⟨ha.unfinished, hre ▸ hr, by rw [hre]; omega, hc, by omega, by omega⟩
  · refine ⟨ha.unfinished, ?_, by rw [hre, List.length_cons]; omega, hc, by omega, by omega⟩
    intro s hs
    rw [hre] at hs
    rcases List.mem_cons.mp hs with rfl | hs
    · rw [Segment.unsent_length] at hn
      simp only [advanced]
      omega
    · exact hr s hs

/-- The front segment of a queue with batches, before the segments behind it. -/
theorem WellFormed.front (h : WellFormed q) {batches : List Batch}
    (hb : q.batches = batch :: batches) :
    ∃ segment, batch.segments[batch.nextSegment]? = some segment ∧
      q.pending = segment :: (batch.segments.drop (batch.nextSegment + 1) ++
        batches.flatMap Batch.pending) := by
  have hn := h.unfinished batch (by simp [hb])
  refine ⟨_, List.getElem?_eq_getElem hn, ?_⟩
  rw [SendQueue.pending, hb, List.flatMap_cons, Batch.pending,
    List.drop_eq_getElem_cons hn, List.cons_append]

theorem drop_set_self {segments : List Segment} (h : i < segments.length) (segment : Segment) :
    (segments.set i segment).drop i = segment :: segments.drop (i + 1) := by
  rw [List.drop_eq_getElem_cons (by simpa using h), List.getElem_set_self,
    List.drop_set_of_lt (Nat.lt_succ_self i)]

/-- A round of consuming advances the front segment by at least one octet. -/
theorem WellFormed.consumeFront (h : WellFormed q) (he : q.empty = false) (hby : 0 < bytes) :
    ∃ round segment rest, q.consumeFront bytes = some round ∧ q.pending = segment :: rest ∧
      0 < round.consumed ∧ round.consumed ≤ bytes ∧
      Advances q round.queue segment rest round.consumed := by
  cases hba : q.batches with
  | nil => simp [SendQueue.empty, hba] at he
  | cons batch batches =>
    obtain ⟨segment, hs, hp⟩ := h.front hba
    have hle := h.remaining segment (by simp [hp])
    have hl := Segment.unsent_length segment
    have hn := h.unfinished batch (by simp [hba])
    have hu : ∀ b ∈ batches, b.nextSegment < b.segments.length :=
      fun b hb => h.unfinished b (by simp [hba, hb])
    rw [SendQueue.consumeFront, hba]
    dsimp only
    rw [hs]
    dsimp only
    split
    · rename_i hd
      refine ⟨_, segment, _, rfl, hp, by dsimp only; omega, by dsimp only; omega, rfl, rfl,
        ?_, rfl, .inl ⟨by dsimp only; omega, ?_, rfl⟩⟩
      · intro b hb
        dsimp only at hb
        split at hb
        · exact hu b hb
        · rename_i hm
          rcases List.mem_cons.mp hb with rfl | hb
          · simp only [List.length_set] at hm ⊢
            omega
          · exact hu b hb
      · dsimp only [SendQueue.pending]
        split
        · rename_i hend
          rw [List.length_set] at hend
          simp [hend]
        · simp [Batch.pending, List.drop_set_of_lt]
    · rename_i hm
      refine ⟨_, segment, _, rfl, hp, by dsimp only; omega, by dsimp only; omega, rfl, rfl,
        ?_, rfl, .inr ⟨by dsimp only; omega, ?_, rfl⟩⟩
      · intro b hb
        rcases List.mem_cons.mp hb with rfl | hb
        · simpa using hn
        · exact hu b hb
      · simp [SendQueue.pending, Batch.pending, drop_set_self hn, advanced]

theorem consumeLoop_drops (h : WellFormed q) (hr : bytes ≤ rounds) (hb : bytes ≤ q.queuedBytes) :
    WellFormed (consumeLoop rounds q bytes completed).1 ∧
      (consumeLoop rounds q bytes completed).1.unsent = q.unsent.drop bytes := by
  induction rounds generalizing q bytes completed with
  | zero =>
    have hz : bytes = 0 := by omega
    exact ⟨h, by simp [consumeLoop, hz]⟩
  | succ rounds ih =>
    rw [consumeLoop]
    split
    · rename_i hz
      exact ⟨h, by simp [hz]⟩
    · rename_i hs
      have he : q.empty = false := by
        rw [Bool.eq_false_iff, Ne, h.empty_iff, ← List.length_eq_zero_iff, ← h.bytes]
        omega
      obtain ⟨round, segment, rest, hro, hp, hpr, hm, ha⟩ :=
        h.consumeFront he (Nat.pos_of_ne_zero hs)
      have hq := ha.bytes
      have hr' : bytes - round.consumed ≤ rounds := by omega
      have hb' : bytes - round.consumed ≤ round.queue.queuedBytes := by omega
      obtain ⟨hwe, hu⟩ := ih (h.advance hp ha) hr' hb'
      rw [hro]
      refine ⟨hwe, hu.trans ?_⟩
      rw [ha.unsent hp, List.drop_drop]
      congr 1
      omega

/-- Consuming drops exactly the octets reported, or refuses and changes nothing. -/
theorem WellFormed.consume (h : WellFormed q) (n : Nat) :
    (n = 0 ∨ q.unsent.length < n) ∧ q.consume n = (.invalid, q) ∨
      (0 < n ∧ n ≤ q.unsent.length) ∧ (q.consume n).1 ≠ .invalid ∧
        WellFormed (q.consume n).2 ∧ (q.consume n).2.unsent = q.unsent.drop n := by
  have he := h.empty_iff
  have hb := h.bytes
  rw [← List.length_eq_zero_iff] at he
  rw [SendQueue.consume]
  split
  · rename_i hr
    refine .inl ⟨?_, rfl⟩
    rw [he] at hr
    omega
  · rename_i ht
    rw [not_or, not_or, he] at ht
    obtain ⟨hwe, hu⟩ := consumeLoop_drops h (Nat.le_refl n) (by omega)
    refine .inr ⟨by omega, ?_, hwe, hu⟩
    dsimp only
    split <;> simp

end Consume

end IocpRuntime.Proofs.SendFifo
