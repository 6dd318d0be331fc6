import IocpRuntime.Lib.Runs
import IocpRuntime.Proofs.SendFifo

namespace IocpRuntime.Proofs.SendQueueRuns
open Lib Transport Transport.SendQueue Proofs.SendFifo

inductive Operation where
  | tryPush (buffer : SharedSendBuffer)
  | tryPushBatch (buffers : List SharedSendBuffer)
  | gather (maximumSegments maximumBytes : Nat)
  | consume (transferredBytes : Nat)
  | clear
  deriving DecidableEq, Repr

def step (q : SendQueue) : Operation → SendQueue
  | .tryPush buffer => (q.tryPush buffer).2
  | .tryPushBatch buffers => (q.tryPushBatch buffers).2
  | .gather _ _ => q
  | .consume transferredBytes => (q.consume transferredBytes).2
  | .clear => q.clear

def segments (q : SendQueue) : List Segment := q.batches.flatMap Batch.segments

structure Sound (q : SendQueue) : Prop where
  queuedBytes : q.queuedBytes = (octetsOf (segments q)).length
  itemCount : q.itemCount = (segments q).countP (fun segment => segment.offset < segment.buffer.length)
  bytesBound : q.queuedBytes ≤ q.maximumBytes
  itemsBound : q.itemCount ≤ q.maximumItems
  progress : ∀ batch ∈ q.batches, ∃ segment, batch.segments[batch.nextSegment]? = some segment ∧
    segment.offset < segment.buffer.length

/-- What lies before the mark of a batch has been sent. -/
def Sent (q : SendQueue) : Prop :=
  ∀ batch ∈ q.batches, ∀ segment ∈ batch.segments.take batch.nextSegment,
    segment.offset = segment.buffer.length

variable {q : SendQueue}

theorem Sent.push (h : Sent q) : Sent (q.tryPushBatch buffers).2 := by
  unfold SendQueue.tryPushBatch
  cases q.admission buffers 0 0 with
  | none => exact h
  | some counted =>
    dsimp only
    split
    · exact h
    · intro batch hb segment hs
      rcases List.mem_append.mp hb with hb | hb
      · exact h batch hb segment hs
      · cases List.mem_singleton.mp hb
        cases hs

theorem Sent.consumeFront {round : Round} (h : Sent q)
    (hr : q.consumeFront bytes = some round) : Sent round.queue := by
  unfold SendQueue.consumeFront at hr
  split at hr
  · cases hr
  · rename_i batch batches hba
    have hre : ∀ b ∈ batches, ∀ segment ∈ b.segments.take b.nextSegment,
        segment.offset = segment.buffer.length :=
      fun b hb => h b (by simp [hba, hb])
    have hf := h batch (by simp [hba])
    split at hr
    · cases hr
    · rename_i segment hs
      have hn := (List.getElem?_eq_some_iff.mp hs).1
      dsimp only at hr
      split at hr
      · rename_i hd
        cases hr
        intro b hb
        dsimp only at hb
        split at hb
        · exact hre b hb
        · rcases List.mem_cons.mp hb with rfl | hb
          · -- the segment just sent joins those before the mark
            intro other ho
            dsimp only at ho
            rw [List.take_add_one, List.take_set_of_le (Nat.le_refl _),
              List.getElem?_set_self hn] at ho
            rcases List.mem_append.mp ho with ho | ho
            · exact hf other ho
            · cases List.mem_singleton.mp ho
              exact hd
          · exact hre b hb
      · cases hr
        intro b hb
        rcases List.mem_cons.mp hb with rfl | hb
        · dsimp only
          rw [List.take_set_of_le (Nat.le_refl _)]
          exact hf
        · exact hre b hb

theorem Sent.consumeLoop (h : Sent q) : Sent (consumeLoop rounds q bytes completed).1 := by
  induction rounds generalizing q bytes completed with
  | zero => exact h
  | succ rounds ih =>
    rw [SendQueue.consumeLoop]
    split
    · exact h
    · split
      · exact h
      · rename_i round hr
        exact ih (h.consumeFront hr)

theorem Sent.consume (h : Sent q) : Sent (q.consume bytes).2 := by
  unfold SendQueue.consume
  split
  · exact h
  · exact h.consumeLoop

theorem Sent.step (h : Sent q) : Sent (step q operation) := by
  cases operation with
  | tryPush buffer => exact h.push
  | tryPushBatch buffers => exact h.push
  | gather maximumSegments maximumBytes => exact h
  | consume bytes => exact h.consume
  | clear =>
    intro batch hb
    cases hb

theorem octetsOf_sent
    (h : ∀ segment ∈ sent, segment.offset = segment.buffer.length) : octetsOf sent = [] := by
  apply List.flatMap_eq_nil_iff.mpr
  intro segment hs
  rw [Segment.unsent, h segment hs, List.drop_length]

/-- What a queue has left is what all its segments have left. -/
theorem Sent.octets (h : Sent q) : octetsOf (segments q) = q.unsent := by
  unfold segments SendQueue.unsent SendQueue.pending
  unfold Sent at h
  generalize q.batches = batches at h
  induction batches with
  | nil => rfl
  | cons batch batches ih =>
    have hba := octetsOf_sent (h batch List.mem_cons_self)
    have hr := ih (fun b hb => h b (List.mem_cons_of_mem _ hb))
    have hs : octetsOf batch.segments = octetsOf batch.pending := by
      rw [← List.take_append_drop batch.nextSegment batch.segments, octetsOf_append, hba,
        List.nil_append]
      rfl
    rw [List.flatMap_cons, octetsOf_append, hr, hs, List.flatMap_cons, List.flatMap_append]
    rfl

theorem Sent.unfinished (h : Sent q)
    (hr : ∀ segment ∈ q.pending, segment.offset < segment.buffer.length) :
    (segments q).countP (fun segment => segment.offset < segment.buffer.length) = q.pending.length := by
  unfold SendQueue.pending at hr ⊢
  unfold segments
  unfold Sent at h
  generalize q.batches = batches at h hr
  induction batches with
  | nil => rfl
  | cons batch batches ih =>
    rw [List.flatMap_cons] at hr ⊢
    have hre := ih (fun b hb => h b (List.mem_cons_of_mem _ hb))
      (fun s hs => hr s (List.mem_append_right _ hs))
    have hn : (batch.segments.take batch.nextSegment).countP
        (fun segment => segment.offset < segment.buffer.length) = 0 := by
      apply List.countP_eq_zero.mpr
      intro segment hse
      simp [h batch List.mem_cons_self segment hse]
    have hall : batch.pending.countP (fun segment => segment.offset < segment.buffer.length) =
        batch.pending.length := by
      apply List.countP_eq_length.mpr
      intro segment hse
      simpa using hr segment (List.mem_append_left _ hse)
    have hsp : batch.segments = batch.segments.take batch.nextSegment ++ batch.pending :=
      (List.take_append_drop _ _).symm
    rw [List.countP_append, hre, List.flatMap_cons, List.length_append, hsp, List.countP_append,
      hn, hall, Nat.zero_add]

theorem Sound.of_wellFormed (h : WellFormed q) (hs : Sent q) : Sound q where
  queuedBytes := h.bytes.trans (congrArg List.length hs.octets.symm)
  itemCount := h.items.trans (hs.unfinished h.remaining).symm
  bytesBound := h.bytesBound
  itemsBound := h.itemsBound
  progress := by
    intro batch hb
    have hn := h.unfinished batch hb
    refine ⟨_, List.getElem?_eq_getElem hn, h.remaining _ ?_⟩
    apply List.mem_flatMap.mpr
    exact ⟨batch, hb, List.mem_drop_iff_getElem.mpr ⟨0, by omega, by simp⟩⟩

theorem length_segmentsOf :
    (segmentsOf buffers).length = (buffers.reduceOption.filter (· ≠ [])).length := by
  rw [segmentsOf, List.length_map]

theorem octetsOf_fresh : octetsOf (segmentsOf buffers) = buffers.reduceOption.flatten := by
  induction buffers with
  | nil => rfl
  | cons buffer buffers ih =>
    cases buffer with
    | none => rw [segmentsOf_null, List.reduceOption_cons_of_none, ih]
    | some buffer =>
      rw [segmentsOf_some, List.reduceOption_cons_of_some, List.flatten_cons]
      split
      · rename_i he
        rw [he, List.nil_append, ih]
      · rw [octetsOf_cons, ih]
        rfl

/-- A batch is refused for a null segment or for a limit, and for nothing else. -/
theorem admission_none_iff
    (hi : items ≤ q.maximumItems - q.itemCount) (hb : bytes ≤ q.maximumBytes - q.queuedBytes) :
    q.admission buffers items bytes = none ↔ none ∈ buffers ∨
      q.maximumItems - q.itemCount < items + (segmentsOf buffers).length ∨
      q.maximumBytes - q.queuedBytes < bytes + (octetsOf (segmentsOf buffers)).length := by
  induction buffers generalizing items bytes with
  | nil =>
    simp only [SendQueue.admission, segmentsOf_nil, octetsOf_nil, List.length_nil, List.not_mem_nil]
    simp
    omega
  | cons buffer buffers ih =>
    cases buffer with
    | none => simp [SendQueue.admission]
    | some buffer =>
      rw [SendQueue.admission, segmentsOf_some]
      split
      · simp [ih hi hb]
      · rename_i hs
        simp only [List.mem_cons, reduceCtorEq, false_or, List.length_cons, octetsOf_cons,
          List.length_append, Segment.unsent_length, Nat.sub_zero]
        split
        · simp only [true_iff]
          right
          left
          omega
        · split
          · simp only [true_iff]
            right
            right
            omega
          · rw [ih (by omega) (by omega), Nat.add_right_comm, Nat.add_assoc, Nat.add_assoc]

theorem tryPushBatch_refused :
    (q.tryPushBatch buffers).1 = false ↔ q.admission buffers 0 0 = none := by
  unfold SendQueue.tryPushBatch
  cases q.admission buffers 0 0 with
  | none => simp
  | some counted =>
    dsimp only
    split <;> simp

/-- The segments of an admitted batch, each with nothing sent, go behind the others. -/
theorem segments_push (h : (q.tryPushBatch buffers).1 = true) :
    segments (q.tryPushBatch buffers).2 = segments q ++ segmentsOf buffers := by
  unfold SendQueue.tryPushBatch at h ⊢
  cases ha : q.admission buffers 0 0 with
  | none =>
    rw [ha] at h
    cases h
  | some counted =>
    obtain ⟨hi, -⟩ := admission_some (Nat.zero_le _) (Nat.zero_le _) ha
    dsimp only
    split
    · rename_i hz
      have hn : segmentsOf buffers = [] := List.length_eq_zero_iff.mp (by omega)
      rw [hn, List.append_nil]
    · simp [segments]

def unsentOctets (q : SendQueue) : Octets := octetsOf (segments q)

/-- A batch is appended as a whole, without its empty segments, or refused. -/
structure Pushes (before : SendQueue) (buffers : List SharedSendBuffer) (admitted : Bool)
    (after : SendQueue) : Prop where
  refused : admitted = false ↔ none ∈ buffers ∨
    before.maximumItems < before.itemCount + (buffers.reduceOption.filter (· ≠ [])).length ∨
    before.maximumBytes < before.queuedBytes + buffers.reduceOption.flatten.length
  unchanged : admitted = false → after = before
  appended : admitted = true → segments after =
    segments before ++ (buffers.reduceOption.filter (· ≠ [])).map (fun buffer => ⟨buffer, 0⟩)

/-- A gather is a piece of the front, within its limits. -/
structure Gathers (before : SendQueue) (maximumSegments maximumBytes : Nat) (gather : SendGather) :
    Prop where
  slices : gather.slices.length ≤ maximumSegments
  octets : gather.octets.length ≤ maximumBytes
  total : gather.totalBytes = gather.octets.length
  front : gather.octets <+: unsentOctets before
  some : 0 < maximumSegments → 0 < maximumBytes → unsentOctets before ≠ [] → gather.octets ≠ []

structure Consumes (before : SendQueue) (bytes : Nat) (result : SendConsumeResult)
    (after : SendQueue) : Prop where
  invalid : result = .invalid ↔ ¬ (0 < bytes ∧ bytes ≤ before.queuedBytes)
  unchanged : result = .invalid → after = before
  dropped : result ≠ .invalid → unsentOctets after = (unsentOctets before).drop bytes

def Lawful (before : SendQueue) : Operation → Prop
  | .tryPush buffer => Pushes before [buffer] (before.tryPush buffer).1 (before.tryPush buffer).2
  | .tryPushBatch buffers =>
    Pushes before buffers (before.tryPushBatch buffers).1 (before.tryPushBatch buffers).2
  | .gather maximumSegments maximumBytes =>
    Gathers before maximumSegments maximumBytes (before.gather maximumSegments maximumBytes)
  | .consume bytes => Consumes before bytes (before.consume bytes).1 (before.consume bytes).2
  | .clear => before.clear.empty = true ∧ unsentOctets before.clear = []

theorem pushes (h : WellFormed q) (buffers : List SharedSendBuffer) :
    Pushes q buffers (q.tryPushBatch buffers).1 (q.tryPushBatch buffers).2 where
  refused := by
    have hi := h.itemsBound
    have hb := h.bytesBound
    rw [tryPushBatch_refused, admission_none_iff (Nat.zero_le _) (Nat.zero_le _),
      length_segmentsOf, octetsOf_fresh]
    refine or_congr_right (or_congr ?_ ?_) <;> omega
  unchanged := by
    intro hr
    rw [tryPushBatch_refused] at hr
    unfold SendQueue.tryPushBatch
    rw [hr]
  appended := segments_push

theorem gathers (h : WellFormed q) (hse : Sent q) (maximumSegments maximumBytes : Nat) :
    Gathers q maximumSegments maximumBytes (q.gather maximumSegments maximumBytes) := by
  have hu : unsentOctets q = q.unsent := hse.octets
  by_cases hn : maximumSegments = 0 ∨ maximumBytes = 0 ∨ q.empty = true
  · have hga : q.gather maximumSegments maximumBytes = {} := if_pos hn
    rw [hga]
    refine ⟨Nat.zero_le _, Nat.zero_le _, rfl, List.nil_prefix, ?_⟩
    intro hs hb hl
    rcases hn with hn | hn | he
    · omega
    · omega
    · exact absurd (h.empty_iff.mp he) (hu ▸ hl)
  · rw [not_or, not_or, Bool.not_eq_true] at hn
    obtain ⟨hg, hf, hso⟩ := h.gathers (Nat.pos_of_ne_zero hn.1) (Nat.pos_of_ne_zero hn.2.1) hn.2.2
    refine ⟨hg.slices, hg.total ▸ hg.bytes, hg.total, ?_, ?_⟩
    · rw [hu]
      exact hf
    · exact fun _ _ _ => hso

theorem consumes (h : WellFormed q) (hs : Sent q) (bytes : Nat) :
    Consumes q bytes (q.consume bytes).1 (q.consume bytes).2 := by
  have hb := h.bytes
  rcases h.consume bytes with ⟨hr, hi⟩ | ⟨hr, hv, hwe, hd⟩
  · rw [hi]
    refine ⟨?_, fun _ => rfl, fun hne => absurd rfl hne⟩
    simp only [true_iff]
    omega
  · refine ⟨?_, fun hi => absurd hi hv, ?_⟩
    · simp only [hv, false_iff, not_not]
      omega
    · intro _
      rw [unsentOctets, hs.consume.octets, hd, unsentOctets, hs.octets]

theorem lawful (h : WellFormed q) (hs : Sent q) : Lawful q operation := by
  cases operation with
  | tryPush buffer => exact pushes h [buffer]
  | tryPushBatch buffers => exact pushes h buffers
  | gather maximumSegments maximumBytes => exact gathers h hs maximumSegments maximumBytes
  | consume bytes => exact consumes h hs bytes
  | clear => exact ⟨rfl, rfl⟩

theorem wellFormed_step (h : WellFormed q) : WellFormed (step q operation) := by
  cases operation with
  | tryPush buffer => exact h.push.1
  | tryPushBatch buffers => exact h.push.1
  | gather maximumSegments maximumBytes => exact h
  | consume bytes =>
    rcases h.consume bytes with ⟨-, hi⟩ | ⟨-, -, hwe, -⟩
    · simp only [step, hi]
      exact h
    · exact hwe
  | clear => exact WellFormed.clear

abbrev Call := Runs.Event SendQueue Operation

def admitted (q : SendQueue) : Operation → Octets
  | .tryPush buffer => if (q.tryPush buffer).1 then buffer.getD [] else []
  | .tryPushBatch buffers => if (q.tryPushBatch buffers).1 then buffers.reduceOption.flatten else []
  | _ => []

def removed (q : SendQueue) : Operation → Nat
  | .consume bytes => if (q.consume bytes).1 = .invalid then 0 else bytes
  | .clear => (unsentOctets q).length
  | _ => 0

theorem unsent_push (h : WellFormed q) (buffers : List SharedSendBuffer) :
    unsentOctets (q.tryPushBatch buffers).2 = unsentOctets q ++
      if (q.tryPushBatch buffers).1 then buffers.reduceOption.flatten else [] := by
  have hp := pushes h buffers
  split
  · rename_i ha
    rw [unsentOctets, segments_push ha, octetsOf_append, octetsOf_fresh]
    rfl
  · rename_i hr
    rw [hp.unchanged (Bool.not_eq_true _ ▸ hr), List.append_nil]

theorem unsent_step (h : WellFormed q) (hs : Sent q) : unsentOctets (step q operation) =
      (unsentOctets q ++ admitted q operation).drop (removed q operation) := by
  cases operation with
  | tryPush buffer =>
    have hp := unsent_push h [buffer]
    have hone : [buffer].reduceOption.flatten = buffer.getD [] := by
      cases buffer <;> simp
    rw [hone] at hp
    exact hp
  | tryPushBatch buffers => exact unsent_push h buffers
  | gather maximumSegments maximumBytes => exact (List.append_nil _).symm
  | consume bytes =>
    have hc := consumes h hs bytes
    simp only [step, admitted, removed, List.append_nil]
    split
    · rename_i hi
      rw [hc.unchanged hi, List.drop_zero]
    · rename_i hv
      exact hc.dropped hv
  | clear =>
    simp only [step, admitted, removed, List.append_nil, List.drop_length]
    rfl

theorem removed_le (h : WellFormed q) (hs : Sent q) :
    removed q operation ≤ (unsentOctets q).length := by
  cases operation with
  | consume bytes =>
    have hr := (consumes h hs bytes).invalid
    have hb := (Sound.of_wellFormed h hs).queuedBytes
    simp only [removed]
    split
    · exact Nat.zero_le _
    · rename_i hv
      rw [hr, not_not] at hv
      exact hb ▸ hv.2
  | clear => exact Nat.le_refl _
  | tryPush buffer => exact Nat.zero_le _
  | tryPushBatch buffers => exact Nat.zero_le _
  | gather maximumSegments maximumBytes => exact Nat.zero_le _

/-- A queue holds the octets admitted and not consumed, and every call kept the laws of a bounded
queue. -/
theorem send_queue_is_bounded_fifo {maximumItems maximumBytes : Nat}
    (h : SendQueue.create maximumItems maximumBytes = .ok q) (operations : List Operation) :
    let calls := Runs.history step q operations
    let s := Runs.final step q operations
    Sound s ∧
    unsentOctets s = (calls.flatMap (fun call => admitted call.before call.input)).drop
      (calls.map (fun call => removed call.before call.input)).sum ∧
    ∀ call ∈ calls, Lawful call.before call.input := by
  have hstart : WellFormed q ∧ Sent q := by
    refine ⟨WellFormed.of_create h, ?_⟩
    unfold SendQueue.create at h
    split at h
    · cases h
    · cases h
      intro batch hbatch
      cases hbatch
  have hkeep : ∀ q operation, WellFormed q ∧ Sent q →
      WellFormed (step q operation) ∧ Sent (step q operation) :=
    fun q operation hq => ⟨wellFormed_step hq.1, hq.2.step⟩
  have hempty : unsentOctets q = [] := by
    unfold SendQueue.create at h
    split at h <;> cases h
    rfl
  have hreached : ∀ operations, WellFormed (Runs.final step q operations) ∧
      Sent (Runs.final step q operations) :=
    Runs.final_invariant (motive := fun q => WellFormed q ∧ Sent q) hstart hkeep
  refine ⟨.of_wellFormed (hreached operations).1 (hreached operations).2, ?_, ?_⟩
  · have hrun := Runs.fifo_run hkeep (fun q operation hq => unsent_step hq.1 hq.2)
      (fun q operation hq => removed_le hq.1 hq.2) hstart operations
    rwa [hempty, List.nil_append] at hrun
  · intro call hcall
    obtain ⟨first, rest, -, hbefore⟩ := Runs.history_split hcall
    rw [hbefore]
    exact lawful (hreached first).1 (hreached first).2

/-- Three octets of a batch of two segments are consumed. -/
theorem send_queue_is_bounded_fifo_partial : ∃ q, SendQueue.create 4 16 = .ok q ∧
    unsentOctets (Runs.final step q [.tryPushBatch [some [1, 2], some [], some [3, 4]],
      .gather 2 3, .consume 3, .tryPush none, .tryPush (some [5])]) = [4, 5] :=
  ⟨_, rfl, (@send_queue_is_bounded_fifo _ 4 16 rfl [.tryPushBatch [some [1, 2], some [], some [3, 4]],
    .gather 2 3, .consume 3, .tryPush none, .tryPush (some [5])]).2.1.trans (by decide +kernel)⟩

end IocpRuntime.Proofs.SendQueueRuns
