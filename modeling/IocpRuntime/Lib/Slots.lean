import Mathlib.Data.List.Perm.Basic

/-! A list of slots, such as the threads of a pool, of which one changes. -/

namespace IocpRuntime.Lib.Slots

variable {α β : Type} {slots : List α}

theorem filterMap_perm (f : α → Option β) (h : slots[index]? = some old) :
    (slots.filterMap f).Perm ((f old).toList ++ (slots.eraseIdx index).filterMap f) := by
  obtain ⟨hi, rfl⟩ := List.getElem?_eq_some_iff.mp h
  have hp := (List.getElem_cons_eraseIdx_perm hi).symm.filterMap f
  cases hf : f slots[index] with
  | none => simpa [hf] using hp
  | some value => simpa [hf] using hp

theorem filterMap_set_perm (f : α → Option β) (h : slots[index]? = some old) (new : α) :
    ((slots.set index new).filterMap f).Perm
      ((f new).toList ++ (slots.eraseIdx index).filterMap f) := by
  obtain ⟨hi, -⟩ := List.getElem?_eq_some_iff.mp h
  have hp := (List.set_perm_cons_eraseIdx hi new).filterMap f
  cases hf : f new with
  | none => simpa [hf] using hp
  | some value => simpa [hf] using hp

theorem length_filterMap_set (f : α → Option β) (h : slots[index]? = some old) (new : α) :
    ((slots.set index new).filterMap f).length + (f old).toList.length =
      (slots.filterMap f).length + (f new).toList.length := by
  rw [(filterMap_perm f h).length_eq, (filterMap_set_perm f h new).length_eq, List.length_append,
    List.length_append]
  omega

theorem countP_set (p : α → Bool) (h : slots[index]? = some old) (new : α) :
    (slots.set index new).countP p + (p old).toNat = slots.countP p + (p new).toNat := by
  obtain ⟨hi, rfl⟩ := List.getElem?_eq_some_iff.mp h
  have hb := (List.getElem_cons_eraseIdx_perm hi).countP_eq p
  have ha := (List.set_perm_cons_eraseIdx hi new).countP_eq p
  rw [List.countP_cons] at hb ha
  have hold : (if p slots[index] then 1 else 0) = (p slots[index]).toNat := by
    cases p slots[index] <;> rfl
  have hnew : (if p new then 1 else 0) = (p new).toNat := by
    cases p new <;> rfl
  omega

end IocpRuntime.Lib.Slots
