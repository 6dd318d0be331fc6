import Mathlib.Data.List.TakeWhile
import IocpRuntime.Lib.Octets

/-! Where an octet or a text stands first. -/

namespace IocpRuntime.Lib

theorem find_split (hs : s.drop start = a ++ c :: b) (ha : c ∉ a) :
    find s c start = some (a.length + start) := by
  unfold find
  have hf : (a ++ c :: b).findIdx? (· == c) = some a.length := by
    rw [List.findIdx?_append, List.findIdx?_eq_none_iff.mpr]
    · simp [List.findIdx?_cons]
    · intro x hx
      exact beq_eq_false_iff_ne.mpr (fun heq => ha (heq ▸ hx))
  rw [hs, hf]
  rfl

theorem find_absent (hs : c ∉ s.drop start) : find s c start = none := by
  unfold find
  rw [List.findIdx?_eq_none_iff.mpr]
  · rfl
  · intro x hx
    exact beq_eq_false_iff_ne.mpr (fun heq => hs (heq ▸ hx))

/-- A text is cut at the first such octet, or has none. -/
theorem find_cut (s : Octets) (c : UInt8) : (find s c = none ∧ c ∉ s) ∨
      ∃ a b, s = a ++ c :: b ∧ c ∉ a ∧ find s c = some a.length := by
  by_cases hc : c ∈ s
  · obtain ⟨a, b, rfl, ha⟩ := List.eq_append_cons_of_mem hc
    exact .inr ⟨a, b, rfl, ha, find_split (List.drop_zero ..) ha⟩
  · exact .inl ⟨find_absent (by simpa using hc), hc⟩

theorem find_around :
    (find s c = none ∧ s.takeWhile (· ≠ c) = s ∧ (s.dropWhile (· ≠ c)).drop 1 = []) ∨
      ∃ i, find s c = some i ∧ s.takeWhile (· ≠ c) = s.take i ∧
        (s.dropWhile (· ≠ c)).drop 1 = s.drop (i + 1) := by
  have hp : ∀ a : Octets, c ∉ a → ∀ x ∈ a, decide (x ≠ c) = true :=
    fun a ha x hx => decide_eq_true fun he => ha (he ▸ hx)
  rcases find_cut s c with ⟨hf, hc⟩ | ⟨a, b, rfl, ha, hf⟩
  · refine .inl ⟨hf, List.takeWhile_eq_self_iff.mpr (hp s hc), ?_⟩
    rw [List.dropWhile_eq_nil_iff.mpr (hp s hc), List.drop_nil]
  · refine .inr ⟨a.length, hf, ?_, ?_⟩
    · rw [List.takeWhile_append_of_pos (hp a ha), List.take_left]
      simp
    · rw [List.dropWhile_append_of_pos (hp a ha), ← List.drop_drop, List.drop_left]
      simp

/-- Where a text stands first in another. -/
def search (needle : Octets) : Octets → Option Nat
  | [] => if needle = [] then some 0 else none
  | c :: s => if needle.isPrefixOf (c :: s) then some 0 else (search needle s).map (· + 1)

theorem search_absent (h : ¬ needle <:+: s) : search needle s = none := by
  induction s with
  | nil =>
    have hn : needle ≠ [] := fun hn => h (hn ▸ List.infix_rfl)
    simp [search, hn]
  | cons c s ih =>
    rw [List.infix_cons_iff, not_or] at h
    simp [search, h.1, ih h.2]

end IocpRuntime.Lib
