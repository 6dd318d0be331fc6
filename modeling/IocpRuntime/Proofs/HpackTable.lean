import IocpRuntime.Http2.Hpack
import IocpRuntime.Lib.BoundedTable

namespace IocpRuntime.Proofs.HpackTable
open Lib.BoundedTable Http2

/-- The size counter is exact and the table fits its limit. -/
structure Sized (codec : HpackCodec) : Prop where
  counter : codec.dynamicTableSize = total entrySize codec.dynamicTable
  within : total entrySize codec.dynamicTable ≤ codec.currentDynamicTableLimit
  allowed : codec.currentDynamicTableLimit ≤ codec.options.maximumDynamicTableSize

theorem create_sized : Sized (HpackCodec.create options) :=
  ⟨rfl, Nat.zero_le _, Nat.le_refl _⟩

theorem total_dropLast (h : table.getLast? = some e) :
    total entrySize table = total entrySize table.dropLast + entrySize e := by
  have hs := congrArg (total entrySize) (List.dropLast_append_getLast? e h)
  simpa [total_append] using hs.symm

/-- Popping until the counter fits leaves the longest prefix that fits. -/
theorem evictLoop_eq (hr : table.length ≤ rounds) :
    HpackCodec.evictLoop limit rounds table (total entrySize table) =
      (trim entrySize limit table, total entrySize (trim entrySize limit table)) := by
  induction rounds generalizing table with
  | zero =>
    have hnil : table = [] := List.length_eq_zero_iff.mp (by omega)
    subst table
    rfl
  | succ rounds ih =>
    unfold HpackCodec.evictLoop
    by_cases hfit : total entrySize table > limit
    · rw [if_pos hfit]
      cases hl : table.getLast? with
      | none =>
        rw [List.getLast?_eq_none_iff.mp hl]
        rfl
      | some e =>
        have ht := total_dropLast hl
        dsimp only
        rw [show total entrySize table - entrySize e = total entrySize table.dropLast by omega,
          ih (by rw [List.length_dropLast]; omega), trim_dropLast entrySize hfit]
    · rw [if_neg hfit, trim_of_le entrySize (by omega)]

theorem evict_eq (codec : HpackCodec)
    (h : codec.dynamicTableSize = total entrySize codec.dynamicTable) :
    codec.evictDynamicTable = { codec with
      dynamicTable := trim entrySize codec.currentDynamicTableLimit codec.dynamicTable
      dynamicTableSize :=
        total entrySize (trim entrySize codec.currentDynamicTableLimit codec.dynamicTable) } := by
  simp only [HpackCodec.evictDynamicTable, h, evictLoop_eq (Nat.le_refl _)]

/-- `AddDynamicEntry` is the bounded push. -/
theorem add_eq (hs : Sized codec) :
    codec.addDynamicEntry name value = { codec with
      dynamicTable := push entrySize codec.currentDynamicTableLimit ⟨name, value⟩ codec.dynamicTable
      dynamicTableSize := total entrySize (push entrySize codec.currentDynamicTableLimit
        ⟨name, value⟩ codec.dynamicTable) } := by
  unfold HpackCodec.addDynamicEntry push
  dsimp only
  split
  · rfl
  · rw [evict_eq]
    rw [hs.counter, total_cons, Nat.add_comm]

theorem add_sized (hs : Sized codec) : Sized (codec.addDynamicEntry name value) := by
  rw [add_eq hs]
  exact ⟨rfl, total_push_le _, hs.allowed⟩

/-- An accepted `SetDynamicTableSize` trims to the new limit and remembers to announce it. -/
theorem set_size_eq (hs : Sized codec) (h : newSize ≤ codec.options.maximumDynamicTableSize) :
    codec.setDynamicTableSize newSize = .ok { codec with
      dynamicTable := trim entrySize newSize codec.dynamicTable
      dynamicTableSize := total entrySize (trim entrySize newSize codec.dynamicTable)
      currentDynamicTableLimit := newSize
      pendingTableSizeUpdate := some newSize } := by
  unfold HpackCodec.setDynamicTableSize HpackCodec.resized
  rw [if_neg (by omega), evict_eq]
  exact hs.counter

theorem set_size_sized (hs : Sized codec)
    (h : codec.setDynamicTableSize newSize = .ok codec') : Sized codec' := by
  by_cases hle : newSize ≤ codec.options.maximumDynamicTableSize
  · rw [set_size_eq hs hle] at h
    cases h
    exact ⟨rfl, total_trim_le _ _ _, hle⟩
  · simp [HpackCodec.setDynamicTableSize, Nat.lt_of_not_le hle] at h

end IocpRuntime.Proofs.HpackTable
