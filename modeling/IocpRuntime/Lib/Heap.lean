import Mathlib.Order.Basic

/-! Binary heaps with their least key in front, as lists of keys in the order of the array. -/

namespace IocpRuntime.Lib

def IsHeap {κ : Type} [LE κ] (keys : List κ) : Prop :=
  ∀ i : Fin keys.length, keys.get ⟨(i - 1) / 2, by omega⟩ ≤ keys.get i

instance {κ : Type} [LE κ] [DecidableLE κ] (keys : List κ) : Decidable (IsHeap keys) :=
  inferInstanceAs (Decidable (∀ _ : Fin keys.length, _))

/-- No key is before the front one. -/
theorem IsHeap.front_le {κ : Type} [Preorder κ] {front key : κ} {keys : List κ}
    (h : IsHeap (front :: keys)) (hk : key ∈ front :: keys) : front ≤ key := by
  obtain ⟨⟨i, hi⟩, rfl⟩ := List.get_of_mem hk
  clear hk
  -- up from parent to parent
  induction i using Nat.strongRecOn with
  | _ i ih =>
    rcases Nat.eq_zero_or_pos i with rfl | hp
    · exact le_refl _
    · exact (ih ((i - 1) / 2) (by omega) (by omega)).trans (h ⟨i, hi⟩)

end IocpRuntime.Lib
