import IocpRuntime.Lib.BoundedStore
import IocpRuntime.Proofs.RingContents

namespace IocpRuntime.Proofs.RingQueue
open Lib Lib.BoundedStore Buffer RingReceiveBuffer Proofs.RingContents

/-- Both receive buffers double their capacity until it suffices or would pass the maximum. -/
def doubling : Growth where
  next maximum required capacity := max (nextCapacity maximum required required capacity) required
  available capacity := decide (capacity < 2 ^ 63)
  bounded hcapacity hrequired :=
    ⟨Nat.le_max_right _ _, Nat.le_trans (le_nextCapacity hcapacity) (Nat.le_max_left _ _),
      Nat.max_le.mpr ⟨nextCapacity_le hcapacity, hrequired⟩⟩

theorem available_iff : doubling.available capacity = true ↔ capacity < 2 ^ 63 :=
  decide_eq_true_iff

def answer : Reply → Answer
  | .status .ready => .ready
  | .status .limitExceeded => .limitExceeded
  | .done => .done
  | .thrown _ => .thrown

def store (r : RingReceiveBuffer) : Store UInt8 where
  held := r.contents
  capacity := r.storage.length
  maximum := r.maximumCapacity.toNat
  within := r.length_contents.le.trans r.stored
  limited := r.limited

def seen (outcome : Reply × RingReceiveBuffer) : Answer × Store UInt8 :=
  (answer outcome.1, store outcome.2)

/-- Filling the writable places is not seen: no octet is held there. -/
def request (r : RingReceiveBuffer) : Operation → Request UInt8
  | .append bytes => .append bytes
  | .ensureWritable minimumBytes => .ensure minimumBytes
  | .fill bytes => .other (answer (Reply.ofDone r (r.fill bytes)).1)
  | .commit bytes => .commit r.writableOctets bytes
  | .consume bytes => .consume bytes
  | .clear => .clear

variable {r : RingReceiveBuffer}

theorem room_store : (store r).room = r.writableBytes := by
  simp only [Store.room, store, length_contents, writableBytes]

theorem grow_seen (hr : r.readableBytes ≤ capacity) (hpos : 0 < capacity)
    (hl : capacity ≤ r.maximumCapacity.toNat)
    (hh : grown.held = r.contents) (hc : grown.capacity = capacity)
    (hm : grown.maximum = r.maximumCapacity.toNat) :
    seen (Reply.ofStatus r ((r.grow capacity hr hpos hl).map (fun r => (.ready, r)))) =
      if doubling.available capacity then (.ready, grown) else (.thrown, store r) := by
  rcases Nat.lt_or_ge capacity (2 ^ 63) with hsi | hsi
  · obtain ⟨next, hg, hco, hk, -, hle⟩ :=
      @grow_contents r capacity hr hpos hl hsi
    have hs : store next = grown :=
      Store.ext (hco.trans hh.symm) (hle.trans hc.symm) ((congrArg UInt64.toNat hk).trans hm.symm)
    rw [hg, if_pos (available_iff.mpr hsi), ← hs]
    rfl
  · have hg : r.grow capacity hr hpos hl =
        .error (.lengthError "cannot create std::vector larger than max_size()") := dif_pos hsi
    rw [hg, if_neg (fun h => absurd (available_iff.mp h) (Nat.not_lt.mpr hsi))]
    rfl

theorem ensureWritable_seen :
    seen (Reply.ofStatus r (r.ensureWritable count)) = (store r).ensure doubling count := by
  have hs := r.stored
  have hli := r.limited
  have hh : (store r).held.length = r.readableBytes := r.length_contents
  have hm : (store r).maximum = r.maximumCapacity.toNat := rfl
  unfold ensureWritable Store.ensure
  simp only [room_store, hh]
  split
  · rfl
  · split
    · rename_i hl
      rw [dif_pos (by omega)]
      rfl
    · rename_i hl
      rw [dif_neg (by omega)]
      exact grow_seen _ _ _ rfl rfl rfl

theorem ensureWritable_room
    (h : r.ensureWritable count = .ok (.ready, next)) : count ≤ next.writableBytes := by
  have hs := ensure_spec doubling (store r) count
  rw [← ensureWritable_seen, h] at hs
  generalize ho : seen (Reply.ofStatus r (.ok (.ready, next))) = outcome at hs
  cases hs with
  | ready grown hh hm hc hr hl =>
    cases ho
    rwa [room_store] at hr
  | limitExceeded => cases ho
  | thrown => cases ho

theorem append_seen :
    seen (Reply.ofStatus r (r.append bytes)) = (store r).append doubling bytes := by
  unfold append Store.append
  rw [← ensureWritable_seen]
  cases he : r.ensureWritable bytes.length with
  | error error => rfl
  | ok outcome =>
    obtain ⟨status, next⟩ := outcome
    cases status with
    | limitExceeded => rfl
    | ready =>
      have hr := ensureWritable_room he
      have hf : bytes.length ≤ (store next).room := room_store.symm ▸ hr
      have hs : store (next.write bytes hr) = (store next).push bytes hf :=
        Store.ext (write_contents hr) (next.length_copyFrom hr) rfl
      have hse : seen (Reply.ofStatus r (.ok (.ready, next))) = (.ready, store next) := rfl
      simp only [hse, dif_pos hr, hf, and_self, dite_true, ← hs]
      rfl

theorem writableOctets_eq :
    r.writableOctets = Circular.window r.storage r.writeOffset r.writableBytes := by
  rw [Circular.window_split r.writeOffset_lt.le r.writableBytes_le]
  unfold writableOctets writableSequence
  split
  · rename_i hf
    simp [hf]
  · rw [MutableBufferSequence.segments_ofViews, List.flatMap_append, Span.read_add, Span.read_add]
    rfl

theorem length_writableOctets : r.writableOctets.length = r.writableBytes := by
  rw [writableOctets_eq, Circular.length_window r.writableBytes_le]

/-- The ring once around, from the first readable octet on. -/
theorem contents_writableOctets :
    r.contents ++ r.writableOctets = Circular.window r.storage r.readOffset r.storage.length := by
  have hall : r.readableBytes + r.writableBytes = r.storage.length := Nat.add_sub_of_le r.stored
  rw [writableOctets_eq, contents, writeOffset, Circular.window_append hall.le, hall]

theorem fill_ok (h : bytes.length ≤ r.writableBytes) :
    ∃ next, r.fill bytes = .ok next ∧ next.contents = r.contents ∧
      next.writableOctets = bytes ++ r.writableOctets.drop bytes.length ∧
      next.storage.length = r.storage.length ∧ next.maximumCapacity = r.maximumCapacity := by
  have hst := r.stored
  have hrm : r.readableBytes + bytes.length ≤ r.storage.length := by
    unfold writableBytes at h
    omega
  have hc := r.copyFrom_writableSequence h
  have hfi : ∃ next, r.fill bytes = .ok next ∧ next.storage = r.copyFrom bytes ∧
      next.readOffset = r.readOffset ∧ next.readableBytes = r.readableBytes ∧
      next.maximumCapacity = r.maximumCapacity := by
    unfold fill
    split
    · rename_i he
      cases hc.symm.trans he
    · rename_i storage hs
      cases hc.symm.trans hs
      exact ⟨_, rfl, rfl, rfl, rfl, rfl⟩
  obtain ⟨next, hn, hs, ho, hr, hm⟩ := hfi
  have hl : next.storage.length = r.storage.length := hs ▸ r.length_copyFrom h
  have hf : min (min r.writableBytes (r.storage.length - r.writeOffset)) bytes.length =
      min bytes.length (r.storage.length - r.writeOffset) := by omega
  -- both rings once around
  have hro : next.contents ++ next.writableOctets =
      r.contents ++ (bytes ++ r.writableOctets.drop bytes.length) := by
    rw [contents_writableOctets, hl, hs, ho, copyFrom, hf,
      Circular.window_overwrite r.within hrm (Nat.le_refl _) (rfl : r.writeOffset = _) rfl, ← contents_writableOctets,
      ← contents, ← List.drop_drop, ← r.length_contents, List.drop_left, List.append_assoc]
  have hb := List.append_inj hro (by rw [length_contents, length_contents, hr])
  exact ⟨next, hn, hb.1, hb.2, hl, hm⟩

theorem fill_long (h : r.writableBytes < bytes.length) : ∃ error, r.fill bytes = .error error := by
  have hl : bytes.length > r.writableSequence.size := (size_writableSequence r).symm ▸ h
  unfold fill
  split
  · exact ⟨_, rfl⟩
  · rename_i storage hs
    rw [MutableBufferSequence.copyFrom, if_pos hl] at hs
    cases hs

theorem commit_ok (h : count ≤ r.writableBytes) :
    ∃ next, r.commit count = .ok next ∧ next.contents = r.contents ++ r.writableOctets.take count ∧
      next.writableOctets = r.writableOctets.drop count ∧ next.storage = r.storage ∧
      next.maximumCapacity = r.maximumCapacity := by
  have hc : ∃ next, r.commit count = .ok next ∧ next.storage = r.storage ∧
      next.readOffset = r.readOffset ∧ next.readableBytes = r.readableBytes + count ∧
      next.maximumCapacity = r.maximumCapacity :=
    ⟨_, dif_neg (Nat.not_lt.mpr h), rfl, rfl, rfl, rfl⟩
  obtain ⟨next, hn, hs, ho, hr, hm⟩ := hc
  have hro : next.contents ++ next.writableOctets =
      (r.contents ++ r.writableOctets.take count) ++ r.writableOctets.drop count := by
    rw [contents_writableOctets, hs, ho, ← contents_writableOctets, List.append_assoc,
      List.take_append_drop]
  have hl : next.contents.length = (r.contents ++ r.writableOctets.take count).length := by
    rw [length_contents, hr, List.length_append, length_contents, List.length_take,
      length_writableOctets, Nat.min_eq_left h]
  have hb := List.append_inj hro hl
  exact ⟨next, hn, hb.1, hb.2, hs, hm⟩

theorem consume_storage (h : r.consume count = .ok next) : next.storage = r.storage := by
  unfold consume at h
  split at h
  · cases h
  · split at h <;> cases h <;> rfl

/-- Every call of the ring is seen as a request of the queue. -/
theorem perform_seen (r : RingReceiveBuffer) (operation : Operation) :
    seen (r.perform operation) = (store r).perform doubling (request r operation) := by
  cases operation with
  | append bytes => exact append_seen
  | ensureWritable count => exact ensureWritable_seen
  | fill bytes =>
    simp only [perform, request, Store.perform, seen]
    congr 1
    rcases Nat.lt_or_ge r.writableBytes bytes.length with hlo | hf
    · obtain ⟨error, hfi⟩ := fill_long hlo
      rw [hfi]
      rfl
    · obtain ⟨next, hfi, hc, -, hl, hm⟩ := fill_ok hf
      rw [hfi]
      exact Store.ext hc hl (congrArg UInt64.toNat hm)
  | commit count =>
    simp only [perform, request, Store.perform, Store.commit, room_store]
    split
    · rename_i hf
      obtain ⟨next, hcm, hc, -, hs, hm⟩ := commit_ok hf
      rw [hcm]
      refine Prod.ext rfl (Store.ext hc ?_ (congrArg UInt64.toNat hm))
      exact congrArg List.length hs
    · rename_i hlo
      rw [commit, dif_pos (Nat.lt_of_not_le hlo)]
      rfl
  | consume count =>
    have hh : (store r).held.length = r.readableBytes := r.length_contents
    simp only [perform, request, Store.perform, Store.consume, hh]
    split
    · rename_i hf
      obtain ⟨next, hco, hc, hm⟩ := consume_contents hf
      rw [hco]
      refine Prod.ext rfl (Store.ext hc ?_ (congrArg UInt64.toNat hm))
      exact congrArg List.length (consume_storage hco)
    · rename_i hlo
      rw [consume, if_pos (Nat.lt_of_not_le hlo)]
      rfl
  | clear =>
    refine Prod.ext rfl (Store.ext ?_ rfl rfl)
    exact (List.drop_eq_nil_of_le (Nat.le_refl _)).symm

theorem spans_disjoint (hr : readable ∈ r.readableSpans)
    (hwr : writable ∈ r.writableSequence.segments) (place : Nat) :
    ¬ (readable.Holds place ∧ writable.Holds place) := by
  have hwi := r.within
  have hs := r.stored
  have hwra := Circular.wrap_once (show r.readOffset + r.readableBytes < 2 * r.storage.length by omega)
  unfold readableSpans at hr
  unfold writableSequence at hwr
  split at hr
  · cases hr
  · split at hwr
    · cases hwr
    · simp only [writableBytes, writeOffset, Span.Holds] at *
      rcases Span.mem_add hr with rfl | rfl <;>
        rcases Span.mem_add hwr with rfl | rfl <;> dsimp only <;> omega

theorem add_read {storage : Octets} {segment : Span}
    (h : segment.offset + segment.length ≤ storage.length) :
    BufferSequence.add (segments.map (Span.read storage)) (segment.read storage) =
      (Span.add segments segment).map (Span.read storage) := by
  have hl : (segment.read storage).length = segment.length := by
    rw [Span.read, List.length_take, List.length_drop]
    omega
  unfold BufferSequence.add Span.add
  by_cases he : segment.length = 0
  · rw [if_pos he, if_pos (List.eq_nil_of_length_eq_zero (hl.trans he))]
  · rw [if_neg he, if_neg (fun hnil => he (by rw [← hl, hnil]; rfl)), List.map_append]
    rfl

theorem read_readableSpans (r : RingReceiveBuffer) :
    r.readableSpans.map (Span.read r.storage) = r.readableSequence.segments := by
  have hwi := r.within
  have hs := r.stored
  unfold readableSpans readableSequence
  split
  · rfl
  · dsimp only
    rw [← add_read (by dsimp only; omega), ← add_read (by dsimp only; omega)]
    rfl

def step (r : RingReceiveBuffer) (operation : Operation) : RingReceiveBuffer :=
  (r.perform operation).2

abbrev Call := Runs.Event RingReceiveBuffer Operation

def committed (call : Call) : Octets :=
  match call.input, (call.before.perform call.input).1 with
  | .append bytes, .status .ready => bytes
  | .commit count, .done => call.before.writableOctets.take count
  | _, _ => []

def released (call : Call) : Nat :=
  match call.input, (call.before.perform call.input).1 with
  | .consume count, .done => count
  | .clear, _ => call.before.readableBytes
  | _, _ => 0

theorem added_seen :
    (store call.before).added doubling (request call.before call.input) = committed call := by
  obtain ⟨before, input⟩ := call
  have hs := congrArg Prod.fst (perform_seen before input)
  cases input with
  | append bytes =>
    have ha : answer (before.perform (.append bytes)).1 =
        ((store before).append doubling bytes).1 := hs
    simp only [request, Store.added, committed, ← ha]
    cases (before.perform (.append bytes)).1 with
    | status status => cases status <;> rfl
    | done => rfl
    | thrown error => rfl
  | commit count =>
    simp only [request, Store.added, committed, room_store]
    split
    · rename_i hf
      obtain ⟨next, hc, -⟩ := commit_ok hf
      simp only [perform, hc, Reply.ofDone]
    · rename_i hl
      simp only [perform, commit, dif_pos (Nat.lt_of_not_le hl), Reply.ofDone]
  | ensureWritable count => rfl
  | fill bytes => rfl
  | consume count => rfl
  | clear => rfl

theorem removed_seen :
    (store call.before).removed (request call.before call.input) = released call := by
  obtain ⟨before, input⟩ := call
  cases input with
  | consume count =>
    have hh : (store before).held.length = before.readableBytes := before.length_contents
    simp only [request, Store.removed, released, hh]
    split
    · rename_i hf
      obtain ⟨next, hc, -⟩ := consume_contents hf
      simp only [perform, hc, Reply.ofDone]
    · rename_i hl
      simp only [perform, consume, if_pos (Nat.lt_of_not_le hl), Reply.ofDone]
  | clear => exact before.length_contents
  | append bytes => rfl
  | ensureWritable count => rfl
  | fill bytes => rfl
  | commit count => rfl

theorem step_seen (r : RingReceiveBuffer) (operation : Operation) :
    store (step r operation) = BoundedStore.step doubling (store r) (request r operation) :=
  congrArg Prod.snd (perform_seen r operation)

/-- What a ring holds after a run of calls. -/
theorem contents_run (r : RingReceiveBuffer) (operations : List Operation) :
    (Runs.final step r operations).contents =
      (r.contents ++ (Runs.history step r operations).flatMap committed).drop
        ((Runs.history step r operations).map released).sum := by
  obtain ⟨hh, hf⟩ := Runs.run_simulation step_seen r operations
  have hrun := held_run doubling (store r)
    (((Runs.history step r operations).map (Runs.Event.seen store request)).map Runs.Event.input)
  rw [hh, hf, List.flatMap_map, List.map_map] at hrun
  simp only [Function.comp_def, Runs.Event.seen, added_seen, removed_seen] at hrun
  exact hrun

def requested : Operation → Option Nat
  | .append bytes => some bytes.length
  | .ensureWritable count => some count
  | _ => none

/-- What one call does, with the reply it comes back with and the ring it leaves. -/
structure Lawful (before : RingReceiveBuffer) (operation : Operation) (reply : Reply)
    (after : RingReceiveBuffer) : Prop where
  capacity : before.storage.length ≤ after.storage.length ∧
    after.storage.length ≤ after.maximumCapacity.toNat ∧
    after.maximumCapacity = before.maximumCapacity
  limit : reply = .status .limitExceeded ↔ ∃ count, requested operation = some count ∧
    before.maximumCapacity.toNat < before.readableBytes + count
  limited : reply = .status .limitExceeded → after = before
  ready : ∀ count, requested operation = some count →
    before.readableBytes + count ≤ before.maximumCapacity.toNat →
    (count ≤ before.writableBytes ∨ doubling.next before.maximumCapacity.toNat
      (before.readableBytes + count) before.storage.length < 2 ^ 63) → reply = .status .ready
  commitThrows : ∀ count, operation = .commit count →
    ((∃ error, reply = .thrown error) ↔ before.writableSequence.size < count)
  consumeThrows : ∀ count, operation = .consume count →
    ((∃ error, reply = .thrown error) ↔ before.readableBytes < count)
  thrown : (∃ error, reply = .thrown error) → after = before
  room : ∀ count, operation = .ensureWritable count → reply = .status .ready →
    count ≤ after.writableSequence.size
  apart : ∀ readable ∈ after.readableSpans, ∀ writable ∈ after.writableSequence.segments,
    ∀ place, ¬ (readable.Holds place ∧ writable.Holds place)
  filled : ∀ bytes, operation = .fill bytes → reply = .done →
    after.writableOctets = bytes ++ before.writableOctets.drop bytes.length
  rest : ∀ count, operation = .commit count → reply = .done →
    after.writableOctets = before.writableOctets.drop count

theorem ensureWritable_kept
    (h : r.ensureWritable count = .ok (.limitExceeded, next)) : next = r := by
  unfold ensureWritable at h
  split at h
  · cases h
  · split at h
    · cases h
      rfl
    · dsimp only at h
      generalize r.grow _ _ _ _ = grown at h
      cases grown <;> cases h

theorem perform_limitExceeded
    (h : (r.perform operation).1 = .status .limitExceeded) : (r.perform operation).2 = r := by
  cases operation with
  | append bytes =>
    simp only [perform, append] at h ⊢
    cases he : r.ensureWritable bytes.length with
    | error error => rfl
    | ok outcome =>
      obtain ⟨status, next⟩ := outcome
      cases status with
      | limitExceeded => exact ensureWritable_kept he
      | ready =>
        simp only [he] at h
        split at h <;> cases h
  | ensureWritable count =>
    simp only [perform] at h ⊢
    cases he : r.ensureWritable count with
    | error error => rfl
    | ok outcome =>
      obtain ⟨status, next⟩ := outcome
      cases status with
      | limitExceeded => exact ensureWritable_kept he
      | ready =>
        rw [he] at h
        cases h
  | fill bytes => exact absurd h (Reply.ofDone_ne_status _ _ _)
  | commit count => exact absurd h (Reply.ofDone_ne_status _ _ _)
  | consume count => exact absurd h (Reply.ofDone_ne_status _ _ _)
  | clear => cases h

theorem perform_thrown
    (h : (r.perform operation).1 = .thrown error) : (r.perform operation).2 = r := by
  cases operation with
  | append bytes => exact Reply.ofStatus_thrown h
  | ensureWritable count => exact Reply.ofStatus_thrown h
  | fill bytes => exact Reply.ofDone_thrown h
  | commit count => exact Reply.ofDone_thrown h
  | consume count => exact Reply.ofDone_thrown h
  | clear => cases h

theorem answer_status : reply = .status status ↔ answer reply = answer (.status status) := by
  cases reply with
  | status given => cases given <;> cases status <;> simp [answer]
  | done => cases status <;> simp [answer]
  | thrown error => cases status <;> simp [answer]

theorem answer_thrown : (∃ error, reply = .thrown error) ↔ answer reply = .thrown := by
  cases reply with
  | status status => cases status <;> simp [answer]
  | done => simp [answer]
  | thrown error => simp [answer]

theorem requested_seen (h : requested operation = some count) :
    answer (r.perform operation).1 = ((store r).ensure doubling count).1 := by
  have hs : answer (r.perform operation).1 = _ := congrArg Prod.fst (perform_seen r operation)
  cases operation with
  | append bytes =>
    cases h
    exact hs.trans (append_answer doubling (store r))
  | ensureWritable count =>
    cases h
    exact hs
  | _ => cases h

theorem limitExceeded_iff :
    (r.perform operation).1 = .status .limitExceeded ↔ ∃ count, requested operation = some count ∧
      r.maximumCapacity.toNat < r.readableBytes + count := by
  have hh : (store r).held.length = r.readableBytes := r.length_contents
  cases hq : requested operation with
  | some count =>
    rw [answer_status, requested_seen hq]
    exact (ensure_full_iff doubling (store r)).trans (by rw [hh]; simp [store])
  | none => cases operation <;> simp_all [requested, perform, Reply.ofDone_ne_status]

theorem ready_within (hq : requested operation = some count)
    (hl : r.readableBytes + count ≤ r.maximumCapacity.toNat)
    (ha : count ≤ r.writableBytes ∨
      doubling.next r.maximumCapacity.toNat (r.readableBytes + count) r.storage.length < 2 ^ 63) :
    (r.perform operation).1 = .status .ready := by
  rw [← r.length_contents] at hl ha
  rw [answer_status, requested_seen hq]
  exact ensure_ready doubling (store r) hl (by rwa [room_store, available_iff])

theorem commit_thrown_iff :
    (∃ error, (r.perform (.commit count)).1 = .thrown error) ↔ r.writableBytes < count := by
  have hs : answer (r.perform (.commit count)).1 = _ := congrArg Prod.fst (perform_seen r _)
  rw [answer_thrown, hs, request, Store.perform, Store.commit, ← room_store]
  split <;> simp <;> omega

theorem consume_thrown_iff :
    (∃ error, (r.perform (.consume count)).1 = .thrown error) ↔ r.readableBytes < count := by
  have hs : answer (r.perform (.consume count)).1 = _ := congrArg Prod.fst (perform_seen r _)
  have hh : (store r).held.length = r.readableBytes := r.length_contents
  rw [answer_thrown, hs, request, Store.perform, Store.consume, hh]
  split <;> simp <;> omega

theorem filled_places (h : (r.perform (.fill bytes)).1 = .done) :
    (r.perform (.fill bytes)).2.writableOctets = bytes ++ r.writableOctets.drop bytes.length := by
  simp only [perform] at h ⊢
  rcases Nat.lt_or_ge r.writableBytes bytes.length with hl | hfi
  · obtain ⟨error, hf⟩ := fill_long hl
    rw [hf] at h
    cases h
  · obtain ⟨next, hf, -, hp, -⟩ := fill_ok hfi
    rw [hf]
    exact hp

theorem committed_places (h : (r.perform (.commit count)).1 = .done) :
    (r.perform (.commit count)).2.writableOctets = r.writableOctets.drop count := by
  simp only [perform] at h ⊢
  rcases Nat.lt_or_ge r.writableBytes count with hl | hf
  · rw [commit, dif_pos hl] at h
    cases h
  · obtain ⟨next, hc, -, hp, -⟩ := commit_ok hf
    rw [hc]
    exact hp

theorem perform_lawful (r : RingReceiveBuffer) (operation : Operation) :
    Lawful r operation (r.perform operation).1 (r.perform operation).2 where
  capacity := by
    have hc := perform_capacity doubling (store r) (request r operation)
    rw [← perform_seen] at hc
    exact ⟨hc.1, RingReceiveBuffer.limited _, UInt64.toNat_inj.mp hc.2⟩
  limit := limitExceeded_iff
  limited := perform_limitExceeded
  ready := fun _ => ready_within
  commitThrows := by
    rintro count rfl
    rw [size_writableSequence]
    exact commit_thrown_iff
  consumeThrows := by
    rintro count rfl
    exact consume_thrown_iff
  thrown := by
    rintro ⟨error, h⟩
    exact perform_thrown h
  room := by
    rintro count rfl hr
    rw [size_writableSequence]
    simp only [perform] at hr ⊢
    cases he : r.ensureWritable count with
    | error error =>
      rw [he] at hr
      cases hr
    | ok outcome =>
      obtain ⟨status, next⟩ := outcome
      rw [he] at hr
      cases hr
      exact ensureWritable_room he
  apart := fun readable hre writable hwr => spans_disjoint hre hwr
  filled := by
    rintro bytes rfl hd
    exact filled_places hd
  rest := by
    rintro count rfl hd
    exact committed_places hd

/-- The views hold the committed octets not consumed, and each call kept the laws of a queue. -/
theorem ring_is_bounded_queue {initial maximum : UInt64} (h : create initial maximum = .ok r)
    (operations : List Operation) :
    let calls := Runs.history step r operations
    let s := Runs.final step r operations
    let octets := (calls.flatMap committed).drop (calls.map released).sum
    s.readableSequence.bytes = octets ∧
    s.readableSpans.map (Span.read s.storage) = s.readableSequence.segments ∧
    (∀ index, s.readableSequence.byteAt index = match octets[index]? with
      | some octet => .ok octet
      | none => .error (.outOfRange "BufferSequence byte index가 범위를 벗어났습니다")) ∧
    (∀ offset count, s.readableSequence.copyTo offset count =
      if offset + count ≤ octets.length then .ok (slice octets offset (offset + count))
      else .error (.outOfRange "BufferSequence copy 범위가 readable byte를 넘습니다")) ∧
    s.storage.length ≤ maximum.toNat ∧
    ∀ call ∈ calls, Lawful call.before call.input (call.before.perform call.input).1
      (call.after step) := by
  intro calls s octets
  obtain ⟨hempty, hmaximum⟩ := create_contents h
  have hoctets : s.readableSequence.bytes = octets := by
    have hrun := contents_run r operations
    rwa [hempty, List.nil_append, ← bytes_readableSequence] at hrun
  have hkept : s.maximumCapacity = maximum := hmaximum ▸
    Runs.final_invariant (motive := fun s => s.maximumCapacity = r.maximumCapacity) rfl
      (fun s operation hs => (perform_lawful s operation).capacity.2.2.trans hs) operations
  refine ⟨hoctets, read_readableSpans s, ?_, ?_, hkept ▸ s.limited, ?_⟩
  · intro index
    rw [← hoctets]
    rcases Nat.lt_or_ge index s.readableSequence.bytes.length with hinside | houtside
    · rw [BufferSequence.byteAt_eq _ _ hinside, List.getElem?_eq_getElem hinside]
    · rw [BufferSequence.byteAt, if_pos (by rw [BufferSequence.size_eq]; exact houtside),
        List.getElem?_eq_none houtside]
  · intro offset count
    rw [← hoctets]
    split
    · rename_i hinside
      exact BufferSequence.copyTo_eq _ _ _ hinside
    · rename_i houtside
      exact BufferSequence.copyTo_outside _ _ _ (Nat.lt_of_not_le houtside)
  · exact fun call _ => perform_lawful call.before call.input

/-- A ring of four octets grows to eight and wraps around. -/
theorem ring_is_bounded_queue_small : ∃ r, create 4 8 = .ok r ∧
    (r.perform (.append [1, 2, 3, 4, 5])).1 = .status .ready ∧
    let s := Runs.final step r [.append [1, 2, 3, 4, 5], .consume 4, .fill [6, 7, 8, 9], .commit 4]
    s.readableSequence.bytes = [5, 6, 7, 8, 9] ∧ s.storage = [9, 2, 3, 4, 5, 6, 7, 8] := by
  have h := @ring_is_bounded_queue _ 4 8 rfl
    [.append [1, 2, 3, 4, 5], .consume 4, .fill [6, 7, 8, 9], .commit 4]
  refine ⟨_, rfl, ?_, h.1.trans (by decide +kernel), by decide +kernel⟩
  exact (h.2.2.2.2.2 _ List.mem_cons_self).ready 5 rfl (by decide +kernel) (.inr (by decide +kernel))

end IocpRuntime.Proofs.RingQueue
