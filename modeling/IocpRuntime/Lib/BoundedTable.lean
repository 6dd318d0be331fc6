import Mathlib.Algebra.BigOperators.Group.List.Basic
import Mathlib.Algebra.Order.Ring.Nat

/-! A first-in first-out table with a byte budget, newest entry first: entries
are dropped from the old end until the sizes of the rest fit the limit. -/

namespace IocpRuntime.Lib.BoundedTable

variable {α : Type} (size : α → Nat)

def total (entries : List α) : Nat := (entries.map size).sum

/-- The longest prefix whose sizes fit the limit. -/
def trim : Nat → List α → List α
  | _, [] => []
  | limit, e :: entries => if size e ≤ limit then e :: trim (limit - size e) entries else []

/-- An entry larger than the limit empties the table and is not added. -/
def push (limit : Nat) (e : α) (entries : List α) : List α :=
  if size e > limit then [] else trim size limit (e :: entries)

@[simp] theorem total_nil : total size ([] : List α) = 0 := rfl

@[simp] theorem total_cons (e : α) (entries : List α) :
    total size (e :: entries) = size e + total size entries := by
  simp [total]

theorem total_append : total size (a ++ b) = total size a + total size b := by
  simp [total]

theorem trim_prefix_self (limit : Nat) (entries : List α) :
    trim size limit entries <+: entries := by
  induction entries generalizing limit with
  | nil => simp [trim]
  | cons e entries ih =>
    unfold trim
    split
    · exact List.cons_prefix_cons.mpr ⟨rfl, ih _⟩
    · exact List.nil_prefix

theorem total_trim_le (limit : Nat) (entries : List α) :
    total size (trim size limit entries) ≤ limit := by
  induction entries generalizing limit with
  | nil => simp [trim]
  | cons e entries ih =>
    unfold trim
    split
    · have := ih (limit - size e)
      simp only [total_cons]
      omega
    · simp

theorem trim_of_le (h : total size entries ≤ limit) : trim size limit entries = entries := by
  induction entries generalizing limit with
  | nil => rfl
  | cons e entries ih =>
    simp only [total_cons] at h
    rw [trim, if_pos (by omega), ih (by omega)]

/-- Trimming is monotone in the limit and in the table. -/
theorem trim_mono (hl : small ≤ large) (hp : a <+: b) :
    trim size small a <+: trim size large b := by
  induction a generalizing small large b with
  | nil => simp [trim]
  | cons e a ih =>
    obtain ⟨tail, rfl⟩ := hp
    rw [List.cons_append, trim, trim]
    split
    · rename_i hs
      rw [if_pos (by omega)]
      exact List.cons_prefix_cons.mpr ⟨rfl, ih (by omega) (List.prefix_append a tail)⟩
    · exact List.nil_prefix

/-- Dropping the oldest entry of a table that does not fit changes nothing. -/
theorem trim_dropLast (h : limit < total size entries) :
    trim size limit entries.dropLast = trim size limit entries := by
  induction entries generalizing limit with
  | nil => simp at h
  | cons e entries ih =>
    simp only [total_cons] at h
    by_cases hs : size e ≤ limit
    · cases entries with
      | nil => simp at h; omega
      | cons d entries =>
        rw [List.dropLast_cons_cons, trim, trim, if_pos hs, if_pos hs, ih (by omega)]
    · cases entries with
      | nil => simp [trim, hs]
      | cons d entries => rw [List.dropLast_cons_cons, trim, trim, if_neg hs, if_neg hs]

theorem total_push_le : total size (push size limit e entries) ≤ limit := by
  unfold push
  split
  · simp
  · exact total_trim_le size limit _

/-- Inserting one entry keeps the table with the smaller limit a prefix of the other. -/
theorem push_mono (hl : small ≤ large) (hp : a <+: b) : push size small e a <+: push size large e b := by
  unfold push
  by_cases hs : size e > small
  · rw [if_pos hs]
    exact List.nil_prefix
  · rw [if_neg hs, if_neg (by omega)]
    exact trim_mono size hl (List.cons_prefix_cons.mpr ⟨rfl, hp⟩)

/-- Of two tables fed the same entries, the one with the smaller limit is a prefix. -/
def Aligned (limit : Nat) (a : List α) (limit' : Nat) (b : List α) : Prop :=
  (limit ≤ limit' ∧ a <+: b) ∨ (limit' ≤ limit ∧ b <+: a)

theorem Aligned.push (h : Aligned limit a limit' b) :
    Aligned limit (push size limit e a) limit' (push size limit' e b) := by
  rcases h with ⟨hl, hp⟩ | ⟨hl, hp⟩
  · exact Or.inl ⟨hl, push_mono size hl hp⟩
  · exact Or.inr ⟨hl, push_mono size hl hp⟩

theorem Aligned.trim (h : Aligned limit a limit' b) : Aligned n (trim size n a) n (trim size n b) := by
  rcases h with ⟨_, hp⟩ | ⟨_, hp⟩
  · exact Or.inl ⟨Nat.le_refl n, trim_mono size (Nat.le_refl n) hp⟩
  · exact Or.inr ⟨Nat.le_refl n, trim_mono size (Nat.le_refl n) hp⟩

theorem Aligned.get (h : Aligned limit a limit' b) {i : Nat} (ha : a[i]? = some x) (hb : b[i]? = some y) : x = y := by
  rcases h with ⟨_, tail, rfl⟩ | ⟨_, tail, rfl⟩
  · have hi : i < a.length := (List.getElem?_eq_some_iff.mp ha).1
    rw [List.getElem?_append_left hi, ha] at hb
    exact Option.some.inj hb
  · have hi : i < b.length := (List.getElem?_eq_some_iff.mp hb).1
    rw [List.getElem?_append_left hi, hb] at ha
    exact (Option.some.inj ha).symm

end IocpRuntime.Lib.BoundedTable
