import Mathlib.Algebra.Order.BigOperators.Group.List
import Mathlib.Algebra.Order.Ring.Nat
import Mathlib.Data.List.AList

/-! Finite maps under insertion and erasure, as seen by their entries. -/

namespace IocpRuntime.Lib.Maps

variable {κ β : Type} [DecidableEq κ] {map : AList (fun _ : κ => β)}

theorem of_lookup_erase (h : (map.erase key).lookup other = some found) :
    other ≠ key ∧ map.lookup other = some found := by
  by_cases hk : other = key
  · subst hk
    rw [AList.lookup_erase] at h
    cases h
  · exact ⟨hk, by rwa [AList.lookup_erase_ne hk] at h⟩

theorem of_lookup_insert (h : (map.insert key value).lookup other = some found) :
    other = key ∧ found = value ∨ other ≠ key ∧ map.lookup other = some found := by
  by_cases hk : other = key
  · subst hk
    rw [AList.lookup_insert] at h
    exact Or.inl ⟨rfl, (Option.some.inj h).symm⟩
  · exact Or.inr ⟨hk, by rwa [AList.lookup_insert_ne hk] at h⟩

theorem lookup_insert_ne_none (h : (map.lookup other).isSome) :
    (map.insert key value).lookup other ≠ none := by
  by_cases hk : other = key
  · rw [hk, AList.lookup_insert]
    exact Option.some_ne_none _
  · rw [AList.lookup_insert_ne hk]
    exact Option.isSome_iff_ne_none.mp h

theorem eq_of_lookup_erase (h : (map.lookup other).isSome)
    (hg : (map.erase key).lookup other = none) : other = key := by
  by_contra hne
  rw [AList.lookup_erase_ne hne] at hg
  rw [hg] at h
  cases h

/-- A map is no longer than another one that has all its keys, but for some. -/
theorem length_le_of_keys {a b : AList (fun _ : κ => β)} (more : List κ)
    (h : ∀ key value, a.lookup key = some value → key ∈ more ∨ (b.lookup key).isSome) :
    a.entries.length ≤ more.length + b.entries.length := by
  have hk : a.keys ⊆ more ++ b.keys := by
    intro key hkey
    obtain ⟨value, hv⟩ := Option.isSome_iff_exists.mp (AList.lookup_isSome.mpr hkey)
    rcases h key value hv with hm | hb
    · exact List.mem_append_left _ hm
    · exact List.mem_append_right _ (AList.lookup_isSome.mp hb)
  have hl := (List.subperm_of_subset a.keys_nodup hk).length_le
  simpa [AList.keys, List.keys] using hl

/-- A quantity of the values, summed over the map. -/
def total (measure : β → Nat) (map : AList (fun _ : κ => β)) : Nat :=
  (map.entries.map fun entry => measure entry.2).sum

theorem le_total {measure : β → Nat} (h : map.lookup key = some found) :
    measure found ≤ total measure map := by
  have hmem : (⟨key, found⟩ : Sigma fun _ : κ => β) ∈ map.entries := AList.mem_lookup_iff.mp h
  exact List.le_sum_of_mem (List.mem_map.mpr ⟨_, hmem, rfl⟩)

theorem total_le {measure : β → Nat}
    (h : ∀ key value, map.lookup key = some value → measure value ≤ bound) :
    total measure map ≤ map.entries.length * bound := by
  have hall : ∀ size ∈ map.entries.map (fun entry => measure entry.2), size ≤ bound := by
    intro size hs
    obtain ⟨entry, he, rfl⟩ := List.mem_map.mp hs
    exact h entry.1 entry.2 (AList.mem_lookup_iff.mpr he)
  have hsum := List.sum_le_card_nsmul _ bound hall
  simpa [total] using hsum

end IocpRuntime.Lib.Maps
