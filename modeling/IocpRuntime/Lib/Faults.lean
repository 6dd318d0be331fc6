import Mathlib.Data.List.Basic

/-! Computations over memory. They return, throw, or fault: touch an element that is
not there, or take more from an unsigned number than it holds. -/

namespace IocpRuntime.Lib.Faults

variable {ε α β γ δ : Type}

/-- The result of a run; `none` is a fault. -/
abbrev Checked (ε α : Type) := ExceptT ε Option α

def fault : Checked ε α := ExceptT.mk none

def fetch (items : List α) (index : Nat) : Checked ε α :=
  match items[index]? with
  | some item => pure item
  | none => fault

def span (items : List α) (offset length : Nat) : Checked ε (List α) :=
  if offset + length ≤ items.length then pure ((items.drop offset).take length) else fault

def minus (a b : Nat) : Checked ε Nat := if b ≤ a then pure (a - b) else fault

theorem fetch_eq (h : items[index]? = some item) :
    (fetch items index : Checked ε α) = pure item := by
  rw [fetch, h]

theorem fetch_lt (h : index < items.length) :
    (fetch items index : Checked ε α) = pure items[index] :=
  fetch_eq (List.getElem?_eq_getElem h)

theorem span_eq (h : offset + length ≤ items.length) :
    (span items offset length : Checked ε (List α)) = pure ((items.drop offset).take length) :=
  if_pos h

theorem minus_eq (h : b ≤ a) : (minus a b : Checked ε Nat) = pure (a - b) := if_pos h

/-- Does not fault, throws what the other throws, and returns something related. -/
inductive Follows (R : α → β → Prop) : Checked ε α → Except ε β → Prop
  | returns {a : α} {b : β} (related : R a b) : Follows R (pure a) (pure b)
  | throws (e : ε) : Follows R (throw e) (throw e)

theorem Follows.bind (h : Follows R x y)
    (hf : ∀ a b, R a b → Follows S (f a) (g b)) : Follows S (x >>= f) (y >>= g) := by
  cases h with
  | returns related => exact hf _ _ related
  | throws e => exact .throws e

theorem Follows.ite [Decidable p] (h : p → Follows R x y) (h' : ¬p → Follows R x' y') :
    Follows R (if p then x else x') (if p then y else y') := by
  split
  · exact h ‹_›
  · exact h' ‹_›

theorem Follows.mono (h : Follows R x y) (hr : ∀ a b, R a b → R' a b) :
    Follows R' x y := by
  cases h with
  | returns related => exact .returns (hr _ _ related)
  | throws e => exact .throws e

end IocpRuntime.Lib.Faults
