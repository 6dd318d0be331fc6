import IocpRuntime.Proofs.HuffmanEncoding

namespace IocpRuntime.Proofs.HuffmanTree
open Lib.Bits Http2 HuffmanEncoding

def child : HuffmanTree → Bool → HuffmanTree
  | .missing, _ => .missing
  | .node _ left right, bit => if bit then right else left

def below (tree : HuffmanTree) (path : List Bool) : HuffmanTree := path.foldl child tree

def value : HuffmanTree → Option Nat
  | .missing => none
  | .node value _ _ => value

@[simp] theorem value_missing : value .missing = none := rfl

@[simp] theorem value_node : value (.node v left right) = v := rfl

@[simp] theorem below_nil : below tree [] = tree := rfl

@[simp] theorem below_cons : below tree (bit :: path) = below (child tree bit) path := rfl

theorem below_append : below tree (a ++ b) = below (below tree a) b := List.foldl_append

@[simp] theorem below_missing : below .missing path = .missing := by
  induction path with
  | nil => rfl
  | cons bit path ih => exact ih

/-- Inserting a code sets the value at its end and no other. -/
theorem value_insert (tree : HuffmanTree) (bits path : List Bool) (symbol : Nat) :
    value (below (tree.insert bits symbol) path) =
      if path = bits then some symbol else value (below tree path) := by
  fun_induction HuffmanTree.insert tree bits symbol generalizing path with
  | case1 =>
    cases path with
    | nil => rfl
    | cons bit path => cases bit <;> simp [child]
  | case2 =>
    cases path with
    | nil => rfl
    | cons bit path => simp [child]
  | case3 bits symbol ih | case4 bits symbol ih =>
    cases path with
    | nil => simp
    | cons bit path => cases bit <;> simp [child, ih]
  | case5 _ _ _ bits symbol ih | case6 _ _ _ bits symbol ih =>
    cases path with
    | nil => simp
    | cons bit path => cases bit <;> simp [child, ih]

theorem below_insert {bits : List Bool} (h : below (tree.insert bits symbol) path ≠ .missing) :
    path <+: bits ∨ below tree path ≠ .missing := by
  fun_induction HuffmanTree.insert tree bits symbol generalizing path with
  | case1 =>
    cases path with
    | nil => exact .inl List.nil_prefix
    | cons bit path => cases bit <;> simp [child] at h
  | case2 =>
    cases path with
    | nil => exact .inl List.nil_prefix
    | cons bit path => exact .inr h
  | case3 bits symbol ih | case4 bits symbol ih =>
    cases path with
    | nil => exact .inl List.nil_prefix
    | cons bit path => cases bit <;> simp_all [child]
  | case5 _ _ _ bits symbol ih | case6 _ _ _ bits symbol ih =>
    cases path with
    | nil => exact .inl List.nil_prefix
    | cons bit path => cases bit <;> simp_all [child]

/-- Every value stands at the end of its symbol's own code. -/
theorem value_buildTree (h : value (below (buildTree codes first tree) path) = some symbol) :
    value (below tree path) = some symbol ∨
      ∃ i word bits, codes[i]? = some (word, bits) ∧ symbol = first + i ∧ path = msb word bits := by
  induction codes generalizing first tree with
  | nil => exact .inl h
  | cons entry codes ih =>
    obtain ⟨word, bits⟩ := entry
    rcases ih h with hv | ⟨i, word', bits', hi, hs, hp⟩
    · by_cases hz : bits = 0
      · exact .inl (by simpa [hz] using hv)
      · rw [if_neg hz, value_insert, codeBits_eq] at hv
        split at hv
        · rename_i hpa
          cases hv
          exact .inr ⟨0, word, bits, rfl, rfl, hpa⟩
        · exact .inl hv
    · exact .inr ⟨i + 1, word', bits', by simpa using hi, by omega, hp⟩

/-- Below every node except the root there is a value. -/
def Fruitful (tree : HuffmanTree) : Prop :=
  ∀ path, path ≠ [] → below tree path ≠ .missing →
    ∃ rest symbol, value (below tree (path ++ rest)) = some symbol

theorem insert_fruitful (h : Fruitful tree) (bits : List Bool)
    (symbol : Nat) : Fruitful (tree.insert bits symbol) := by
  intro path hne hp
  rcases below_insert hp with ⟨rest, hr⟩ | hold
  · exact ⟨rest, symbol, by rw [value_insert, if_pos hr]⟩
  · obtain ⟨rest, other, hv⟩ := h path hne hold
    by_cases hs : path ++ rest = bits
    · exact ⟨rest, symbol, by rw [value_insert, if_pos hs]⟩
    · exact ⟨rest, other, by rw [value_insert, if_neg hs, hv]⟩

theorem buildTree_fruitful (h : Fruitful tree) : Fruitful (buildTree codes first tree) := by
  induction codes generalizing first tree with
  | nil => exact h
  | cons entry codes ih =>
    obtain ⟨word, bits⟩ := entry
    apply ih
    split
    · exact h
    · exact insert_fruitful h _ _

theorem below_empty (h : path ≠ []) : below (.node none .missing .missing) path = .missing := by
  cases path with
  | nil => exact absurd rfl h
  | cons bit path => cases bit <;> simp [child]

theorem kCodes_length : kCodes.length = 257 := by decide +kernel

theorem value_code
    (h : value (below huffmanTree path) = some symbol) : symbol < 257 ∧ path = code symbol := by
  rcases value_buildTree h with hr | ⟨i, word, bits, hi, rfl, rfl⟩
  · by_cases hnil : path = []
    · subst hnil
      cases hr
    · rw [below_empty hnil] at hr
      cases hr
  · obtain ⟨hlt, -⟩ := List.getElem?_eq_some_iff.mp hi
    refine ⟨by rw [kCodes_length] at hlt; omega, ?_⟩
    rw [code, List.getD_eq_getElem?_getD, Nat.zero_add, hi]
    rfl

theorem huffmanTree_fruitful : Fruitful huffmanTree := by
  apply buildTree_fruitful
  intro path hne hp
  exact absurd (below_empty hne) hp

/-- The symbol at the end of a path that meets no value before it. -/
def lands : HuffmanTree → List Bool → Option Nat
  | .node value _ _, [] => value
  | .node none left right, bit :: path => lands (if bit then right else left) path
  | _, _ => none

theorem lands_spec (h : lands tree path = some symbol) : value (below tree path) = some symbol ∧
      ∀ p, p <+: path → p ≠ path → value (below tree p) = none := by
  fun_induction lands tree path with
  | case1 => exact ⟨h, fun p hp hne => absurd (List.prefix_nil.mp hp) hne⟩
  | case2 left right bit path ih =>
    obtain ⟨hv, hb⟩ := ih h
    refine ⟨hv, fun p hp hne => ?_⟩
    cases p with
    | nil => rfl
    | cons b p =>
      obtain ⟨rfl, ht⟩ := List.cons_prefix_cons.mp hp
      exact hb p ht (fun heq => hne (by rw [heq]))
  | case3 => cases h

/-- Every symbol is at the end of its code, but the word of 220 starts with the code of 49. -/
theorem code_lands (symbol : Nat) (h : symbol < 257) (hne : symbol ≠ 220) :
    lands huffmanTree (code symbol) = some symbol := by
  have key : ∀ symbol < 257, symbol ≠ 220 → lands huffmanTree (code symbol) = some symbol := by
    decide +kernel
  exact key symbol h hne

theorem code_prefix : code 49 <+: code 220 := by decide

end IocpRuntime.Proofs.HuffmanTree
