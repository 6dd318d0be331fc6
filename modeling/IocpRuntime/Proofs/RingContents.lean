import IocpRuntime.Buffer.RingReceiveBuffer

namespace IocpRuntime.Proofs.RingContents
open Lib Buffer RingReceiveBuffer

variable {r : RingReceiveBuffer}

theorem create_contents (h : create initial maximum = .ok r) :
    r.contents = [] ∧ r.maximumCapacity = maximum := by
  unfold create at h
  split at h
  · cases h
  · split at h
    · cases h
    · split at h
      · cases h
      · cases h
        exact ⟨rfl, rfl⟩

/-- A process that holds at most `2 ^ 62` octets at once never asks for a larger vector than
there can be. -/
theorem nextCapacity_small (hn : next < 2 ^ 63)
    (hr : required ≤ 2 ^ 62) : nextCapacity maximum required rounds next < 2 ^ 63 := by
  induction rounds generalizing next with
  | zero => exact hn
  | succ rounds ih =>
    unfold nextCapacity
    split
    · split
      · omega
      · exact ih (by omega)
    · exact hn

theorem grow_contents (hs : capacity < 2 ^ 63) :
    ∃ grown, r.grow capacity hr hpos hli = .ok grown ∧ grown.contents = r.contents ∧
      grown.maximumCapacity = r.maximumCapacity ∧ grown.readableBytes = r.readableBytes ∧
      grown.storage.length = capacity := by
  have hl : (r.contents ++ List.replicate (capacity - r.readableBytes) (0 : UInt8)).length =
      capacity := by
    rw [List.length_append, length_contents, List.length_replicate]
    omega
  refine ⟨_, dif_neg (Nat.not_le.mpr hs), ?_, rfl, rfl, ?_⟩
  · simp only [contents, Circular.window, List.rotate_zero, bytes_readableSequence]
    exact List.take_left' r.length_contents
  · simp only [bytes_readableSequence]
    exact hl

/-- Room is found up to the limit. -/
theorem ensureWritable_ready (hli : r.readableBytes + minimum ≤ r.maximumCapacity.toNat)
    (hme : r.readableBytes + minimum ≤ 2 ^ 62) :
    ∃ grown, r.ensureWritable minimum = .ok (.ready, grown) ∧ grown.contents = r.contents ∧
      grown.maximumCapacity = r.maximumCapacity ∧ grown.readableBytes = r.readableBytes ∧
      minimum ≤ grown.writableBytes := by
  unfold ensureWritable
  split
  · rename_i hwr
    exact ⟨r, rfl, rfl, rfl, rfl, hwr⟩
  · split
    · omega
    · have hs : max (nextCapacity r.maximumCapacity.toNat (r.readableBytes + minimum)
          (r.readableBytes + minimum) r.storage.length) (r.readableBytes + minimum) < 2 ^ 63 :=
        Nat.max_lt.mpr ⟨nextCapacity_small r.addressable hme, by omega⟩
      obtain ⟨grown, hg, hc, hm, hr, hl⟩ := grow_contents hs
      refine ⟨grown, congrArg (Except.map _) hg, hc, hm, hr, ?_⟩
      rw [writableBytes, hl, hr]
      have hmax := Nat.le_max_right (nextCapacity r.maximumCapacity.toNat (r.readableBytes + minimum)
        (r.readableBytes + minimum) r.storage.length) (r.readableBytes + minimum)
      omega

theorem write_contents (h : bytes.length ≤ r.writableBytes) :
    (r.write bytes h).contents = r.contents ++ bytes := by
  have hs := r.stored
  have hr : r.readableBytes + bytes.length ≤ r.storage.length := by
    simp only [writableBytes] at h
    omega
  refine Circular.window_write r.within hr rfl ?_
  simp only [writableBytes, writeOffset] at h ⊢
  omega

theorem append_ready (hl : r.readableBytes + bytes.length ≤ r.maximumCapacity.toNat)
    (hme : r.readableBytes + bytes.length ≤ 2 ^ 62) :
    ∃ next, r.append bytes = .ok (.ready, next) ∧ next.contents = r.contents ++ bytes ∧
      next.maximumCapacity = r.maximumCapacity := by
  obtain ⟨grown, he, hc, hm, hr, hwr⟩ :=
    ensureWritable_ready hl hme
  refine ⟨grown.write bytes hwr, ?_, ?_, hm⟩
  · simp only [append, he, dif_pos hwr]
  · rw [write_contents, hc]

theorem append_full (h : r.maximumCapacity.toNat < r.readableBytes + bytes.length) :
    r.append bytes = .ok (.limitExceeded, r) := by
  have hl := r.limited
  have hs := r.stored
  have he : r.ensureWritable bytes.length = .ok (.limitExceeded, r) := by
    unfold ensureWritable
    rw [dif_neg (by simp only [writableBytes]; omega), dif_pos (by omega)]
  simp only [append, he]

theorem append_limitExceeded (h : r.append bytes = .ok (.limitExceeded, next)) :
    r.maximumCapacity.toNat < r.readableBytes + bytes.length := by
  unfold append at h
  split at h
  · cases h
  · rename_i he
    unfold ensureWritable at he
    split at he
    · cases he
    · split at he
      · omega
      · dsimp only at he
        generalize r.grow _ _ _ _ = grown at he
        cases grown <;> cases he
  · split at h <;> cases h

theorem consume_contents (h : count ≤ r.readableBytes) :
    ∃ next, r.consume count = .ok next ∧ next.contents = r.contents.drop count ∧
      next.maximumCapacity = r.maximumCapacity := by
  unfold consume
  rw [if_neg (Nat.not_lt.mpr h)]
  split
  · rename_i hall
    refine ⟨_, rfl, ?_, rfl⟩
    rw [hall, List.drop_eq_nil_of_le r.length_contents.le]
    rfl
  · exact ⟨_, rfl, Circular.window_drop h r.stored, rfl⟩

end IocpRuntime.Proofs.RingContents
