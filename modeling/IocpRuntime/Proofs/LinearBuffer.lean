import IocpRuntime.Buffer.ReceiveBuffer
import IocpRuntime.Proofs.RingQueue

namespace IocpRuntime.Proofs.LinearBuffer
open Lib Lib.BoundedStore Buffer ReceiveBuffer
open Proofs.RingQueue (doubling available_iff answer answer_thrown)

inductive Call where
  | append (bytes : Octets)
  | ensureWritable (minimumBytes : Nat)
  | consume (bytes : Nat)
  | clear
  deriving DecidableEq, Repr

def linear (b : ReceiveBuffer) : Call → Reply × ReceiveBuffer
  | .append bytes => b.append bytes
  | .ensureWritable minimumBytes => b.ensureWritable minimumBytes
  | .consume bytes => Reply.ofDone b (b.consume bytes)
  | .clear => (.done, b.clear)

def ring (r : RingReceiveBuffer) : Call → Reply × RingReceiveBuffer
  | .append bytes => r.perform (.append bytes)
  | .ensureWritable minimumBytes => r.perform (.ensureWritable minimumBytes)
  | .consume bytes => r.perform (.consume bytes)
  | .clear => r.perform .clear

def request : Call → Request UInt8
  | .append bytes => .append bytes
  | .ensureWritable minimumBytes => .ensure minimumBytes
  | .consume bytes => .consume bytes
  | .clear => .clear

def store (b : ReceiveBuffer) : Store UInt8 where
  held := b.readableView
  capacity := b.storage.length
  maximum := b.maximumCapacity.toNat
  within := b.length_readableView.le.trans b.readableBytes_le
  limited := b.limited

def seen (outcome : Reply × ReceiveBuffer) : Answer × Store UInt8 :=
  (answer outcome.1, store outcome.2)

variable {b : ReceiveBuffer}

theorem compact_store : store b.compact = store b := by
  refine Store.ext ?_ b.length_moved rfl
  have hv : b.compact.readableView =
      (Circular.overwrite b.storage 0 b.readableView).take b.readableBytes := rfl
  simp only [store, hv, Circular.overwrite, List.take_zero, List.nil_append]
  exact List.take_left' b.length_readableView

theorem resize_seen (hr : b.storage.length ≤ capacity) (hl : capacity ≤ b.maximumCapacity.toNat)
    (hh : grown.held = b.readableView) (hc : grown.capacity = capacity)
    (hm : grown.maximum = b.maximumCapacity.toNat) :
    seen (Reply.ofStatus b ((b.resize capacity hr hl).map (fun b => (.ready, b)))) =
      if doubling.available capacity then (.ready, grown) else (.thrown, store b) := by
  have ho := b.ordered
  have hwi := b.within
  unfold resize
  split
  · rename_i hs
    rw [if_neg (fun h => absurd (available_iff.mp h) (Nat.not_lt.mpr hs))]
    rfl
  · rename_i hs
    rw [if_pos (available_iff.mpr (Nat.lt_of_not_le hs))]
    refine Prod.ext rfl (Store.ext ?_ ?_ hm.symm)
    · rw [hh]
      have hla : b.readableBytes ≤ (b.storage.drop b.readOffset).length := by
        rw [List.length_drop, readableBytes]
        omega
      have hv : ((b.storage ++ List.replicate (capacity - b.storage.length) (0 : UInt8)).drop
          b.readOffset).take b.readableBytes = b.readableView := by
        rw [List.drop_append_of_le_length (by omega), List.take_append_of_le_length hla]
        rfl
      exact hv
    · rw [hc]
      exact (List.length_append.trans (by rw [List.length_replicate])).trans (Nat.add_sub_of_le hr)

theorem enlarge_seen (hs : store b = s)
    (h : required ≤ b.maximumCapacity.toNat) (hh : grown.held = s.held)
    (hc : grown.capacity = doubling.next s.maximum required s.capacity)
    (hm : grown.maximum = s.maximum) : seen (b.enlarge required h) =
      if doubling.available (doubling.next s.maximum required s.capacity) then (.ready, grown)
      else (.thrown, s) := by
  subst hs
  exact resize_seen _ _ hh hc hm

theorem room_compact (b : ReceiveBuffer) : b.compact.writableBytes = (store b).room := by
  simp only [writableBytes, compact, length_moved, Store.room, store, length_readableView]

theorem room_front (h : b.readOffset = 0) : b.writableBytes = (store b).room := by
  simp [writableBytes, Store.room, store, length_readableView, readableBytes, h]

theorem writableBytes_le_room (b : ReceiveBuffer) : b.writableBytes ≤ (store b).room := by
  simp only [writableBytes, Store.room, store, length_readableView, readableBytes]
  omega

theorem ensureWritable_seen : seen (b.ensureWritable count) = (store b).ensure doubling count := by
  have hr := b.readableBytes_le
  have hl := b.limited
  have hh : (store b).held.length = b.readableBytes := b.length_readableView
  have hro : (store b).room = b.storage.length - b.readableBytes := by
    rw [Store.room, hh]
    rfl
  have hm : (store b).maximum = b.maximumCapacity.toNat := rfl
  have ht := writableBytes_le_room b
  unfold ReceiveBuffer.ensureWritable Store.ensure
  simp only [hh]
  split
  · rw [if_pos (by omega)]
    rfl
  · split
    · rw [if_neg (by omega), dif_pos (by omega)]
      rfl
    · rename_i hli
      rw [dif_neg (by omega)]
      have hc := room_compact b
      split
      · split
        · rw [if_pos (by omega)]
          exact congrArg (Prod.mk Answer.ready) compact_store
        · rw [if_neg (by omega)]
          exact enlarge_seen compact_store _ rfl rfl rfl
      · rename_i hf
        have hall := room_front (Decidable.not_not.mp hf)
        rw [if_neg (by omega)]
        exact enlarge_seen rfl _ rfl rfl rfl

theorem enlarge_room (h : b.writeOffset + count ≤ b.maximumCapacity.toNat)
    (hr : (b.enlarge (b.writeOffset + count) h).1 = .status .ready) :
    count ≤ (b.enlarge (b.writeOffset + count) h).2.writableBytes := by
  unfold enlarge resize at hr ⊢
  dsimp only at hr ⊢
  split
  · rename_i hs
    rw [dif_pos hs] at hr
    cases hr
  · have hre := Nat.le_max_right (nextCapacity b.maximumCapacity.toNat (b.writeOffset + count)
      (b.writeOffset + count) b.storage.length) (b.writeOffset + count)
    simp only [Except.map, Reply.ofStatus, writableBytes, List.length_append, List.length_replicate]
    omega

theorem ensureWritable_room (h : (b.ensureWritable count).1 = .status .ready) :
    count ≤ (b.ensureWritable count).2.writableBytes := by
  unfold ReceiveBuffer.ensureWritable at h ⊢
  split
  · assumption
  · rename_i ht
    rw [if_neg ht] at h
    split
    · rename_i hl
      rw [dif_pos hl] at h
      cases h
    · rename_i hl
      rw [dif_neg hl] at h
      split
      · rename_i ho
        rw [if_pos ho] at h
        split
        · assumption
        · rename_i hs
          rw [if_neg hs] at h
          exact @enlarge_room b.compact count _ h
      · rename_i ho
        rw [if_neg ho] at h
        have hf : b.readableBytes = b.writeOffset := by
          rw [readableBytes, Decidable.not_not.mp ho, Nat.sub_zero]
        simp only [hf] at h ⊢
        exact enlarge_room _ h

theorem write_store (h : bytes.length ≤ b.writableBytes) (hr : bytes.length ≤ (store b).room) :
    store (b.write bytes h) = (store b).push bytes hr := by
  have ho := b.ordered
  have hwi := b.within
  have hfi : b.writeOffset + bytes.length ≤ b.storage.length := by
    unfold writableBytes at h
    omega
  refine Store.ext ?_ (Circular.length_overwrite hfi) rfl
  have hc : b.writeOffset + bytes.length - b.readOffset = b.readableBytes + bytes.length := by
    unfold readableBytes
    omega
  have hv : ((Circular.overwrite b.storage b.writeOffset bytes).drop b.readOffset).take
      (b.writeOffset + bytes.length - b.readOffset) = b.readableView ++ bytes := by
    have hf : (b.storage.take b.writeOffset).drop b.readOffset = b.readableView :=
      List.drop_take
    have hl : (b.readableView ++ bytes).length = b.readableBytes + bytes.length := by
      rw [List.length_append, length_readableView]
    rw [Circular.overwrite, List.append_assoc,
      List.drop_append_of_le_length (by rw [List.length_take]; omega), hf, ← List.append_assoc,
      hc, ← hl, List.take_left]
  exact hv

theorem append_seen : seen (b.append bytes) = (store b).append doubling bytes := by
  have hf := @ensureWritable_room b bytes.length
  unfold ReceiveBuffer.append Store.append
  rw [← ensureWritable_seen]
  generalize b.ensureWritable bytes.length = outcome at hf
  obtain ⟨reply, next⟩ := outcome
  cases reply with
  | done => rfl
  | thrown error => rfl
  | status status =>
    cases status with
    | limitExceeded => rfl
    | ready =>
      have ht : bytes.length ≤ next.writableBytes := hf rfl
      have hr := Nat.le_trans ht (writableBytes_le_room next)
      have hs : store (if bytes = [] then next else next.write bytes ht) =
          (store next).push bytes hr := by
        split
        · rename_i he
          subst he
          exact Store.ext (List.append_nil _).symm rfl rfl
        · exact write_store ht hr
      have hse : seen (Reply.status .ready, next) = (.ready, store next) := rfl
      simp only [hse, ht, hr, and_self, dite_true, ← hs]
      rfl

theorem consume_seen : seen (Reply.ofDone b (b.consume count)) = (store b).consume count := by
  have ho := b.ordered
  have hh : (store b).held.length = b.readableBytes := b.length_readableView
  rw [ReceiveBuffer.consume, Store.consume, hh]
  rcases Nat.lt_or_ge b.readableBytes count with hl | hf
  · rw [dif_pos hl, if_neg (Nat.not_le.mpr hl)]
    rfl
  · rw [dif_neg (Nat.not_lt.mpr hf), if_pos hf]
    split
    · rename_i hall
      refine Prod.ext rfl (Store.ext ?_ rfl rfl)
      refine (List.drop_eq_nil_of_le ?_).symm
      rw [hh, readableBytes]
      omega
    · refine Prod.ext rfl (Store.ext ?_ rfl rfl)
      have hv : (b.storage.drop (b.readOffset + count)).take
          (b.writeOffset - (b.readOffset + count)) = b.readableView.drop count := by
        rw [readableView, List.drop_take, List.drop_drop, readableBytes, Nat.sub_sub]
      exact hv

/-- Every call of the linear buffer is seen as a request of the queue. -/
theorem linear_seen : seen (linear b call) = (store b).perform doubling (request call) := by
  cases call with
  | append bytes => exact append_seen
  | ensureWritable count => exact ensureWritable_seen
  | consume count => exact consume_seen
  | clear =>
    refine Prod.ext rfl (Store.ext ?_ rfl rfl)
    exact (List.drop_eq_nil_of_le (Nat.le_refl _)).symm

theorem ring_seen :
    RingQueue.seen (ring r call) = (RingQueue.store r).perform doubling (request call) := by
  cases call <;> exact RingQueue.perform_seen r _

structure Observation where
  answer : Answer
  octets : Octets
  capacity : Nat
  deriving DecidableEq, Repr

def linearRun : ReceiveBuffer → List Call → List Observation
  | _, [] => []
  | b, call :: calls =>
    let (reply, next) := linear b call
    ⟨answer reply, next.readableView, next.storage.length⟩ :: linearRun next calls

def ringRun : RingReceiveBuffer → List Call → List Observation
  | _, [] => []
  | r, call :: calls =>
    let (reply, next) := ring r call
    ⟨answer reply, next.readableSequence.bytes, next.storage.length⟩ :: ringRun next calls

/-- Two buffers that are one queue answer alike, and stay so. -/
theorem runs_alike (h : store b = RingQueue.store r)
    (calls : List Call) : linearRun b calls = ringRun r calls := by
  induction calls generalizing b r with
  | nil => rfl
  | cons call calls ih =>
    have hb : seen (linear b call) = RingQueue.seen (ring r call) := by
      rw [linear_seen, ring_seen, h]
    have ha : answer (linear b call).1 = answer (ring r call).1 := congrArg Prod.fst hb
    have hs : store (linear b call).2 = RingQueue.store (ring r call).2 := congrArg Prod.snd hb
    have hh : (linear b call).2.readableView = (ring r call).2.contents := congrArg Store.held hs
    have hc : (linear b call).2.storage.length = (ring r call).2.storage.length :=
      congrArg Store.capacity hs
    simp only [linearRun, ringRun, ha, hh, hc, ih hs, RingReceiveBuffer.bytes_readableSequence]

/-- Buffers of the same capacities are refused alike, and give the same answers to every run. -/
theorem buffers_interchangeable (initial maximum : UInt64) :
    (∃ first second, ReceiveBuffer.create initial maximum = .error first ∧
      RingReceiveBuffer.create initial maximum = .error second) ∨
    ∃ b r, ReceiveBuffer.create initial maximum = .ok b ∧
      RingReceiveBuffer.create initial maximum = .ok r ∧
      b.readableView = r.readableSequence.bytes ∧ b.storage.length = r.storage.length ∧
      ∀ calls, linearRun b calls = ringRun r calls := by
  unfold ReceiveBuffer.create RingReceiveBuffer.create
  split
  · exact .inl ⟨_, _, rfl, rfl⟩
  · split
    · exact .inl ⟨_, _, rfl, rfl⟩
    · split
      · exact .inl ⟨_, _, rfl, rfl⟩
      · refine .inr ⟨_, _, rfl, rfl, rfl, rfl, ?_⟩
        exact runs_alike (Store.ext rfl rfl rfl)

end IocpRuntime.Proofs.LinearBuffer
