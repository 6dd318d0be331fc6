import IocpRuntime.Webapp.Board

namespace IocpRuntime.Proofs.PageText
open Lib Webapp

/-- Every entity of a text undone once, from the left. -/
def undoRounds : Nat → Octets → Octets
  | 0, text => text
  | _, [] => []
  | rounds + 1, c :: text =>
    match entities.find? fun entity => entity.2.isPrefixOf (c :: text) with
    | some entity => entity.1 :: undoRounds rounds ((c :: text).drop entity.2.length)
    | none => c :: undoRounds rounds text

def undo (text : Octets) : Octets := undoRounds text.length text

/-- No markup: no `<`, `>` or quote, and every `&` begins an entity. -/
structure Escaped (text : Octets) : Prop where
  plain : ∀ c ∈ text, c ≠ 60 ∧ c ≠ 62 ∧ c ≠ 34
  entity : ∀ rest, 38 :: rest <:+ text → ∃ entity ∈ entities, entity.2 <+: 38 :: rest

def special (c : UInt8) : Bool := (entities.lookup c).isSome

theorem special_cases (h : special c = true) : c = 60 ∨ c = 62 ∨ c = 38 ∨ c = 34 := by
  have hall : ∀ n : Fin 256, special (UInt8.ofNat n) = true → UInt8.ofNat n = 60 ∨
      UInt8.ofNat n = 62 ∨ UInt8.ofNat n = 38 ∨ UInt8.ofNat n = 34 := by decide +kernel
  simpa using hall ⟨c.toNat, c.toNat_lt⟩ (by simpa using h)

theorem plain_ne (h : special c = false) : c ≠ 38 ∧ c ≠ 60 ∧ c ≠ 62 ∧ c ≠ 34 := by
  refine ⟨?_, ?_, ?_, ?_⟩ <;> (rintro rfl; cases h)

theorem escapeOctet_plain (h : special c = false) : escapeOctet c = [c] := by
  rw [escapeOctet, Option.isSome_eq_false_iff.mp h |> Option.isNone_iff_eq_none.mp]

set_option maxRecDepth 2000 in
/-- No other entity begins inside it, and it is undone to the character, whatever follows. -/
theorem escapeOctet_special (h : special c = true) : ∃ d tail, escapeOctet c = 38 :: d :: tail ∧
    (∀ d' ∈ d :: tail, special d' = false) ∧ (c, 38 :: d :: tail) ∈ entities ∧
    ∀ rounds text,
      undoRounds (rounds + 1) (38 :: d :: tail ++ text) = c :: undoRounds rounds text := by
  rcases special_cases h with rfl | rfl | rfl | rfl
  · exact ⟨108, octets "t;", rfl, by decide, by decide, fun _ _ => rfl⟩
  · exact ⟨103, octets "t;", rfl, by decide, by decide, fun _ _ => rfl⟩
  · exact ⟨97, octets "mp;", rfl, by decide, by decide, fun _ _ => rfl⟩
  · exact ⟨113, octets "uot;", rfl, by decide, by decide, fun _ _ => rfl⟩

theorem undoRounds_escape (h : (htmlEscape text).length ≤ rounds) :
    undoRounds rounds (htmlEscape text) = text := by
  induction text generalizing rounds with
  | nil => cases rounds <;> rfl
  | cons c text ih =>
    rw [htmlEscape, List.flatMap_cons, ← htmlEscape] at h ⊢
    cases hs : special c with
    | true =>
      obtain ⟨d, tail, he, -, -, hu⟩ := escapeOctet_special hs
      rw [he] at h ⊢
      obtain ⟨rounds, rfl⟩ : ∃ n, rounds = n + 1 := ⟨rounds - 1, by simp at h; omega⟩
      rw [hu, ih (by simp at h; omega)]
    | false =>
      rw [escapeOctet_plain hs, List.singleton_append] at h ⊢
      obtain ⟨rounds, rfl⟩ : ∃ n, rounds = n + 1 := ⟨rounds - 1, by simp at h; omega⟩
      have hf : entities.find? (fun entity => entity.2.isPrefixOf (c :: htmlEscape text)) = none := by
        simp [entities, octets, Ne.symm (plain_ne hs).1]
      rw [undoRounds, hf]
      exact congrArg (List.cons c) (ih (by simpa using h))

theorem undo_escape : undo (htmlEscape text) = text := undoRounds_escape (Nat.le_refl _)

theorem suffix_behind (h : ∀ d ∈ tail, special d = false) (hs : 38 :: rest <:+ tail ++ text) :
    38 :: rest <:+ text := by
  induction tail with
  | nil => exact hs
  | cons d tail ih =>
    rw [List.forall_mem_cons] at h
    rcases List.suffix_cons_iff.mp hs with hs | hs
    · exact absurd (List.cons.inj hs).1.symm (plain_ne h.1).1
    · exact ih h.2 hs

theorem htmlEscape_escaped (text : Octets) : Escaped (htmlEscape text) := by
  induction text with
  | nil => exact ⟨by simp [htmlEscape], by simp [htmlEscape]⟩
  | cons c text ih =>
    rw [htmlEscape, List.flatMap_cons, ← htmlEscape]
    cases hs : special c with
    | true =>
      obtain ⟨d, tail, he, ht, hm, -⟩ := escapeOctet_special hs
      rw [he]
      constructor
      · refine List.forall_mem_cons.mpr ⟨by decide, List.forall_mem_append.mpr ⟨?_, ih.plain⟩⟩
        exact fun d hd => (plain_ne (ht d hd)).2
      · intro rest hr
        rcases List.suffix_cons_iff.mp hr with hr | hr
        · exact ⟨_, hm, hr ▸ List.prefix_append (38 :: d :: tail) _⟩
        · exact ih.entity rest (suffix_behind ht hr)
    | false =>
      rw [escapeOctet_plain hs]
      refine ⟨List.forall_mem_cons.mpr ⟨(plain_ne hs).2, ih.plain⟩, fun rest hr => ?_⟩
      exact ih.entity rest (suffix_behind (by simpa using hs) hr)

/-- Every special character makes the text longer. -/
theorem htmlEscape_length (text : Octets) : text.length ≤ (htmlEscape text).length ∧
    ((htmlEscape text).length ≤ text.length → ∀ c ∈ text, special c = false) := by
  induction text with
  | nil => simp [htmlEscape]
  | cons c text ih =>
    rw [htmlEscape, List.flatMap_cons, ← htmlEscape, List.length_append, List.length_cons,
      List.forall_mem_cons]
    cases hs : special c with
    | true =>
      obtain ⟨d, tail, he, -⟩ := escapeOctet_special hs
      simp only [he, List.length_cons]
      omega
    | false =>
      rw [escapeOctet_plain hs, List.length_singleton]
      exact ⟨by omega, fun h => ⟨rfl, ih.2 (by omega)⟩⟩

theorem htmlEscape_eq_self : htmlEscape text = text ↔ ∀ c ∈ text, special c = false := by
  refine ⟨fun h => (htmlEscape_length text).2 (by rw [h]), fun h => ?_⟩
  rw [htmlEscape, List.flatMap_congr fun c hc => escapeOctet_plain (h c hc), List.flatMap_singleton']

/-- The pages show no markup of the user, and the text as it was submitted exactly if it has nothing
to escape. -/
theorem escaped_once_iff (nextPostId : Nat) (title content author : Octets) (post : Post)
    (hpost : createPost nextPostId title content author = .ok post) :
    (∀ field ∈ detailFields post ++ boardFields post, Escaped field) ∧
      ((detailFields post).map undo = [title, author, content] ∧
          (boardFields post).map undo = [title, author] ↔
        ∀ c ∈ title ++ content, special c = false) := by
  unfold createPost at hpost
  split at hpost
  · cases hpost
  · cases hpost
    constructor
    · simp [detailFields, boardFields, htmlEscape_escaped]
    · simp only [detailFields, boardFields, List.map_cons, List.map_nil, undo_escape, List.cons.injEq,
        htmlEscape_eq_self, List.forall_mem_append, true_and, and_true]
      exact ⟨And.left, fun h => ⟨h, h.1⟩⟩

set_option maxRecDepth 2000 in
theorem escaped_once_iff_plain : ∃ post,
    createPost 1 (octets "hello") (octets "all is well") (octets "a<b") = .ok post ∧
      (detailFields post).map undo = [octets "hello", octets "a<b", octets "all is well"] := by
  have hpost : createPost 1 (octets "hello") (octets "all is well") (octets "a<b") = .ok ⟨1, _, _, _⟩ := rfl
  exact ⟨_, hpost, ((escaped_once_iff _ _ _ _ _ hpost).2.mpr (by decide)).1⟩

/-- A title with a `<` is shown with the entity for it. -/
theorem title_escaped_twice : ∃ post,
    createPost 1 (octets "a<b") (octets "hello") (octets "me") = .ok post ∧
      (detailFields post).map undo = [octets "a&lt;b", octets "me", octets "hello"] :=
  ⟨_, rfl, by decide +kernel⟩

end IocpRuntime.Proofs.PageText
