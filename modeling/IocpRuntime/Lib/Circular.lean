import Mathlib.Data.List.Rotate

/-! A list used as a circular store: its items are read from some place on, and around the
end of the list. -/

namespace IocpRuntime.Lib.Circular

variable {α : Type}

def window (items : List α) (start count : Nat) : List α := (items.rotate start).take count

/-- The items from `start` on give way to others. -/
def overwrite (items : List α) (start : Nat) (data : List α) : List α :=
  items.take start ++ data ++ items.drop (start + data.length)

@[simp] theorem window_zero : window items start 0 = [] := rfl

theorem length_window (h : count ≤ items.length) : (window items start count).length = count := by
  rw [window, List.length_take, List.length_rotate, Nat.min_eq_left h]

theorem window_split (hs : start ≤ items.length) (hc : count ≤ items.length) :
    window items start count = (items.drop start).take (min count (items.length - start)) ++
        items.take (count - min count (items.length - start)) := by
  rw [window, List.rotate_eq_drop_append_take hs, List.take_append, List.length_drop]
  rcases Nat.le_total count (items.length - start) with h | h
  · rw [Nat.min_eq_left h, Nat.sub_self, Nat.sub_eq_zero_of_le h, List.take_zero, List.take_zero]
  · rw [Nat.min_eq_right h, List.take_take, Nat.min_eq_left (by omega)]
    congr 1
    rw [List.take_of_length_le (by rw [List.length_drop]; exact h),
      List.take_of_length_le (by rw [List.length_drop])]

theorem window_drop (ht : taken ≤ count) (hc : count ≤ items.length) :
    window items ((start + taken) % items.length) (count - taken) =
      (window items start count).drop taken := by
  have hl : taken ≤ (items.rotate start).length := by
    rw [List.length_rotate]
    omega
  rw [window, window, List.rotate_mod, ← List.rotate_rotate,
    List.rotate_eq_drop_append_take hl, List.drop_take,
    List.take_append_of_le_length (by rw [List.length_drop, List.length_rotate]; omega)]

theorem getElem?_window (hi : index < count) (hc : count ≤ items.length) :
    (window items start count)[index]? = items[(index + start) % items.length]? := by
  rw [window, List.getElem?_take_of_lt hi, List.getElem?_rotate (by omega)]

@[simp] theorem overwrite_nil : overwrite items start [] = items := by
  simp [overwrite]

theorem length_overwrite (h : start + data.length ≤ items.length) :
    (overwrite items start data).length = items.length := by
  simp only [overwrite, List.length_append, List.length_take, List.length_drop]
  omega

theorem getElem?_overwrite (h : start + data.length ≤ items.length) :
    (overwrite items start data)[index]? =
      if start ≤ index ∧ index < start + data.length then data[index - start]? else items[index]? := by
  have ht : (items.take start).length = start := by
    rw [List.length_take]
    omega
  rw [overwrite, List.append_assoc]
  rcases Nat.lt_or_ge index start with hb | hf
  · rw [List.getElem?_append_left (by omega), List.getElem?_take_of_lt hb, if_neg (by omega)]
  · rw [List.getElem?_append_right (by omega), ht]
    rcases Nat.lt_or_ge index (start + data.length) with hin | hbe
    · rw [List.getElem?_append_left (by omega), if_pos ⟨hf, hin⟩]
    · rw [List.getElem?_append_right (by omega), List.getElem?_drop, if_neg (by omega)]
      congr 1
      omega

theorem wrap_once (h : place < 2 * length) : (place < length ∧ place % length = place) ∨
      (length ≤ place ∧ place % length = place - length) := by
  rcases Nat.lt_or_ge place length with hlt | hge
  · exact .inl ⟨hlt, Nat.mod_eq_of_lt hlt⟩
  · refine .inr ⟨hge, ?_⟩
    rw [Nat.mod_eq_sub_mod hge, Nat.mod_eq_of_lt (by omega)]

theorem window_take (h : count ≤ total) :
    (window items start total).take count = window items start count := by
  rw [window, window, List.take_take, Nat.min_eq_left h]

theorem window_append (hm : count + more ≤ items.length) :
    window items start count ++ window items ((start + count) % items.length) more =
      window items start (count + more) := by
  have hr : window items ((start + count) % items.length) more =
      (window items start (count + more)).drop count := by
    rw [← window_drop (Nat.le_add_right count more) hm, Nat.add_sub_cancel_left]
  rw [hr, ← window_take (Nat.le_add_right count more), List.take_append_drop]

/-- Items written behind a window, in at most two pieces, change nothing else. -/
theorem window_overwrite (hs : start < items.length)
    (hr : count + data.length ≤ total) (ht : total ≤ items.length)
    (hpl : place = (start + count) % items.length)
    (hf : first = min data.length (items.length - place)) :
    window (overwrite (overwrite items place (data.take first)) 0 (data.drop first)) start total =
      window items start count ++ data ++ (window items start total).drop (count + data.length) := by
  have hwr := wrap_once (show start + count < 2 * items.length by omega)
  rw [← hpl] at hwr
  have hone : place + (data.take first).length ≤ items.length := by
    rw [List.length_take]
    omega
  have htwo : 0 + (data.drop first).length ≤ (overwrite items place (data.take first)).length := by
    rw [length_overwrite hone, List.length_drop]
    omega
  have hl : (overwrite (overwrite items place (data.take first)) 0 (data.drop first)).length =
      items.length := by
    rw [length_overwrite htwo, length_overwrite hone]
  have hwi : (window items start count).length = count := length_window (by omega)
  have hwh : (window items start total).length = total := length_window ht
  apply List.ext_getElem?
  intro index
  rcases Nat.lt_or_ge index total with hi | hb
  · rw [getElem?_window hi (by omega), hl, getElem?_overwrite htwo, getElem?_overwrite hone,
      List.append_assoc]
    have hp := wrap_once (show index + start < 2 * items.length by omega)
    have hold : (window items start total)[index]? = items[(index + start) % items.length]? :=
      getElem?_window hi ht
    generalize (index + start) % items.length = position at hp hold
    simp only [List.length_take, List.length_drop, Nat.zero_le, true_and, Nat.zero_add, Nat.sub_zero]
    rcases Nat.lt_or_ge index count with hbe | hnew
    · -- none of the places written to is in the window
      rw [List.getElem?_append_left (by omega), getElem?_window hbe (by omega), if_neg (by omega),
        if_neg (by omega)]
      rcases hp with ⟨hlt, rfl⟩ | ⟨hge, rfl⟩
      · rw [Nat.mod_eq_of_lt hlt]
      · rw [Nat.mod_eq_sub_mod hge, Nat.mod_eq_of_lt (by omega)]
    · rw [List.getElem?_append_right (by omega), hwi]
      rcases Nat.lt_or_ge (index - count) data.length with hd | hbh
      · rw [List.getElem?_append_left hd]
        rcases Nat.lt_or_ge (index - count) first with hpi | hpi
        · rw [if_neg (by omega), if_pos (by omega), List.getElem?_take_of_lt (by omega)]
          congr 1
          omega
        · rw [if_pos (by omega), List.getElem?_drop]
          congr 1
          omega
      · -- nor is any of those behind the data
        have hsa : count + data.length + (index - count - data.length) = index := by omega
        rw [List.getElem?_append_right hbh, if_neg (by omega), if_neg (by omega),
          List.getElem?_drop, hsa, hold]
  · rw [List.getElem?_eq_none (by rw [length_window (by omega)]; exact hb),
      List.getElem?_eq_none (by simp only [List.length_append, List.length_drop, hwi, hwh]; omega)]

theorem window_write (hs : start < items.length)
    (hr : count + data.length ≤ items.length) (hp : place = (start + count) % items.length)
    (hf : first = min data.length (items.length - place)) :
    window (overwrite (overwrite items place (data.take first)) 0 (data.drop first)) start
      (count + data.length) = window items start count ++ data := by
  rw [window_overwrite hs (Nat.le_refl _) hr hp hf,
    List.drop_eq_nil_of_le (length_window hr).le, List.append_nil]

end IocpRuntime.Lib.Circular
