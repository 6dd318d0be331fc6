import IocpRuntime.Http.SimpleTemplate
import IocpRuntime.Proofs.QueryStrings

namespace IocpRuntime.Proofs.TemplateText
open Lib Http QueryStrings
open Http.SimpleTemplate (opening closing)

inductive Part where
  | literal (text : Octets)
  | placeholder (key : Octets)

def Part.source : Part → Octets
  | .literal text => text
  | .placeholder key => opening ++ (key ++ closing)

/-- No brace pair opens in the text, nor at its end. -/
def Plain (text : Octets) : Prop := ¬ opening <:+: text ∧ text.getLast? ≠ some 123

/-- The placeholders are for keys that are `used`. -/
def Part.WellFormed (used : Octets → Prop) : Part → Prop
  | .literal text => Plain text
  | .placeholder key => 123 ∉ key ∧ 125 ∉ key ∧ used key

def Part.filled (values : Octets → Octets) : Part → Octets
  | .literal text => text
  | .placeholder key => values key

abbrev Setting := Octets × Octets

def setAll (source : Octets) (calls : List Setting) : SimpleTemplate :=
  calls.foldl (fun t call => t.set call.1 call.2) { source }

theorem plain_cons : Plain (c :: text) ↔ (c = 123 → text.head?.any (· ≠ 123)) ∧ Plain text := by
  unfold Plain
  cases text with
  | nil => simp [opening, List.infix_cons_iff]
  | cons d text => simp [opening, List.infix_cons_iff]; tauto

theorem Plain.append (h : Plain a) (hb : Plain b) : Plain (a ++ b) := by
  induction a with
  | nil => exact hb
  | cons c a ih =>
    obtain ⟨hc, ha⟩ := plain_cons.mp h
    refine plain_cons.mpr ⟨fun he => ?_, ih ha⟩
    cases a <;> simp_all

theorem Plain.search_opening (h : Plain text) :
    search opening (text ++ (opening ++ rest)) = some text.length := by
  induction text with
  | nil => simp [search, opening]
  | cons c text ih =>
    obtain ⟨hc, ht⟩ := plain_cons.mp h
    have hn : ¬ opening <+: c :: (text ++ (opening ++ rest)) := by
      intro hp
      obtain ⟨he, hp⟩ := List.cons_prefix_cons.mp hp
      have hd := hc he.symm
      cases text <;> simp_all
    simp [search, hn, ih ht]

theorem search_closing (h : 125 ∉ key) :
    search closing (key ++ (closing ++ rest)) = some key.length := by
  induction key with
  | nil => simp [search, closing]
  | cons c key ih =>
    rw [List.mem_cons, not_or] at h
    have hn : ¬ closing <+: c :: (key ++ (closing ++ rest)) := by simp [closing, h.1]
    simp [search, hn, ih h.2]

theorem drop_past (a b : Octets) (hm : mark.length = 2) :
    (a ++ (mark ++ b)).drop (a.length + 2) = b := by
  rw [← List.drop_drop, List.drop_left, ← hm, List.drop_left]

theorem round_placeholder (hp : Plain text) (hk : 125 ∉ key) :
    SimpleTemplate.renderRounds values (rounds + 1)
        (text ++ (opening ++ (key ++ (closing ++ rest)))) =
      text ++ ((values.lookup key).getD [] ++ SimpleTemplate.renderRounds values rounds rest) := by
  simp only [SimpleTemplate.renderRounds, hp.search_opening, search_closing hk, List.take_left,
    drop_past text _ (rfl : opening.length = 2), drop_past key _ (rfl : closing.length = 2),
    List.append_assoc]
  rw [drop_past text _ (rfl : opening.length = 2), List.take_left]

theorem rounds_parts {parts : List Part} (h : ∀ part ∈ parts, part.WellFormed used)
    (hp : Plain text) (hr : (parts.flatMap Part.source).length < rounds) :
    SimpleTemplate.renderRounds values rounds (text ++ parts.flatMap Part.source) =
      text ++ parts.flatMap (Part.filled fun key => (values.lookup key).getD []) := by
  induction parts generalizing text rounds with
  | nil =>
    obtain ⟨rounds, rfl⟩ := Nat.exists_eq_add_one.mpr hr
    simp [SimpleTemplate.renderRounds, search_absent hp.1]
  | cons part parts ih =>
    rw [List.forall_mem_cons] at h
    rw [List.flatMap_cons, List.length_append] at hr
    cases part with
    | literal next =>
      simpa [Part.source, Part.filled] using
        ih h.2 (hp.append h.1) (Nat.lt_of_le_of_lt (Nat.le_add_left _ _) hr)
    | placeholder key =>
      obtain ⟨rounds, rfl⟩ := Nat.exists_eq_add_one.mpr (Nat.zero_lt_of_lt hr)
      have hl : (parts.flatMap Part.source).length < rounds := by
        simp only [Part.source, opening, List.length_append, List.length_cons] at hr
        omega
      have hn : Plain [] := by simp [Plain, opening]
      simpa [Part.source, Part.filled, round_placeholder hp h.1.2.1] using ih h.2 hn hl

theorem set_all (calls : List Setting) (t : SimpleTemplate) :
    let next := calls.foldl (fun t call => t.set call.1 call.2) t
    next.source = t.source ∧
      ∀ key, next.values.lookup key = (t.values.lookup key).or (calls.lookup key) := by
  induction calls generalizing t with
  | nil => simp
  | cons call calls ih =>
    obtain ⟨hs, hl⟩ := ih (t.set call.1 call.2)
    refine ⟨hs, fun key => (hl key).trans ?_⟩
    rw [SimpleTemplate.set, lookup_emplace, Option.or_assoc, List.lookup_cons]
    by_cases hk : key = call.1
    · simp [hk]
    · simp [hk, beq_eq_false_iff_ne.mpr hk]

theorem render_setAll {parts : List Part} (h : ∀ part ∈ parts, part.WellFormed used) :
    (setAll (parts.flatMap Part.source) calls).render =
      parts.flatMap (Part.filled fun key => (calls.lookup key).getD []) := by
  obtain ⟨hs, hl⟩ := set_all calls { source := parts.flatMap Part.source }
  have hn : Plain [] := by simp [Plain, opening]
  rw [SimpleTemplate.render, setAll, hs]
  refine (rounds_parts h hn (Nat.lt_succ_self _)).trans ?_
  simp [hl]

/-- A template is rendered with the last `Set` of each key in use, if none got another value first.
-/
theorem render_latest_iff (calls : List Setting) (used : Octets → Prop) :
    (∀ parts : List Part, (∀ part ∈ parts, part.WellFormed used) →
        (setAll (parts.flatMap Part.source) calls).render =
          parts.flatMap (Part.filled fun key => (calls.reverse.lookup key).getD [])) ↔
      ∀ key, used key → 123 ∉ key → 125 ∉ key →
        (calls.lookup key).getD [] = (calls.reverse.lookup key).getD [] := by
  constructor
  · intro hrender key hused hopen hclose
    have hformed : ∀ part ∈ [Part.placeholder key], part.WellFormed used := by
      simp [Part.WellFormed, hopen, hclose, hused]
    have heq := (render_setAll hformed).symm.trans (hrender _ hformed)
    simpa [Part.filled] using heq
  · intro hsame parts hformed
    rw [render_setAll hformed]
    refine List.flatMap_congr fun part hpart => ?_
    cases part with
    | literal text => rfl
    | placeholder key =>
      obtain ⟨hopen, hclose, hused⟩ := hformed _ hpart
      exact hsame key hused hopen hclose

/-- The second value of a key is lost. -/
theorem second_set_ignored :
    let calls : List Setting := [(octets "k", octets "1"), (octets "k", octets "2")]
    let parts := [Part.placeholder (octets "k")]
    (setAll (parts.flatMap Part.source) calls).render = octets "1" ∧
      parts.flatMap (Part.filled fun key => (calls.reverse.lookup key).getD []) = octets "2" := by
  decide

end IocpRuntime.Proofs.TemplateText
