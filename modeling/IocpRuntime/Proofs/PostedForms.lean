import IocpRuntime.Webapp.WriteForm

namespace IocpRuntime.Proofs.PostedForms
open Lib Webapp

def verbatim (c : UInt8) : Bool :=
  (48 ≤ c && c ≤ 57) || (65 ≤ c && c ≤ 90) || (97 ≤ c && c ≤ 122) || c ∈ octets "*-._"

/-- The hexadecimal digits of a number below 16, in either case. -/
def digits (n : Nat) : Octets :=
  if n < 10 then [.ofNat (48 + n)] else [.ofNat (87 + n), .ofNat (55 + n)]

/-- The encodings of a text as application/x-www-form-urlencoded. -/
inductive Encodes : Octets → Octets → Prop
  | nil : Encodes [] []
  | verbatim (kept : verbatim c = true) (rest : Encodes text coded) : Encodes (c :: text) (c :: coded)
  | space (rest : Encodes text coded) : Encodes (32 :: text) (43 :: coded)
  | escaped (other : verbatim c = false) (high : x ∈ digits (c.toNat / 16))
      (low : y ∈ digits (c.toNat % 16)) (rest : Encodes text coded) :
      Encodes (c :: text) (37 :: x :: y :: coded)

set_option maxRecDepth 4000 in
theorem digit_value (h : n < 16) (hx : x ∈ digits n) :
    hexValue x = .ofNat n ∧ x ≠ 38 ∧ x ≠ 43 ∧ x ≠ 61 := by
  have hall : ∀ n : Fin 16, ∀ x ∈ digits n, hexValue x = .ofNat n ∧ x ≠ 38 ∧ x ≠ 43 ∧ x ≠ 61 := by
    decide
  exact hall ⟨n, h⟩ x hx

theorem octet_of_digits (c : UInt8) :
    UInt8.ofNat (c.toNat / 16) <<< 4 ||| UInt8.ofNat (c.toNat % 16) = c := by
  have hall : ∀ n : Fin 256,
      UInt8.ofNat (n.val / 16) <<< 4 ||| UInt8.ofNat (n.val % 16) = .ofNat n := by
    decide +kernel
  simpa using hall ⟨c.toNat, c.toNat_lt⟩

theorem verbatim_separators (h : verbatim c = true) : c ≠ 37 ∧ c ≠ 38 ∧ c ≠ 43 ∧ c ≠ 61 := by
  refine ⟨?_, ?_, ?_, ?_⟩ <;> rintro rfl <;> exact absurd h (by decide)

theorem decode_other (h : c ≠ 37) (rest : Octets) :
    percentDecode (c :: rest) = c :: percentDecode rest := by
  rcases rest with _ | ⟨x, _ | ⟨y, rest⟩⟩
  · rfl
  · rfl
  · rw [percentDecode, if_neg h]

/-- An encoding has no separator in it, and is decoded to the text. -/
theorem Encodes.decoded (h : Encodes text coded) :
    percentDecode (plusToSpace coded) = text ∧ ∀ c ∈ coded, c ≠ 38 ∧ c ≠ 61 := by
  induction h with
  | nil => exact ⟨rfl, nofun⟩
  | @verbatim c _ _ kept _ ih =>
    obtain ⟨h37, h38, h43, h61⟩ := verbatim_separators kept
    refine ⟨?_, List.forall_mem_cons.mpr ⟨⟨h38, h61⟩, ih.2⟩⟩
    rw [plusToSpace, List.map_cons, if_neg h43, decode_other h37]
    exact congrArg _ ih.1
  | space _ ih =>
    refine ⟨?_, List.forall_mem_cons.mpr ⟨by decide, ih.2⟩⟩
    rw [plusToSpace, List.map_cons, if_pos rfl, decode_other (by decide)]
    exact congrArg _ ih.1
  | @escaped c x y _ _ _ high low _ ih =>
    obtain ⟨hx, hx38, hx43, hx61⟩ := digit_value (by have := c.toNat_lt; omega) high
    obtain ⟨hy, hy38, hy43, hy61⟩ := digit_value (Nat.mod_lt _ (by decide)) low
    constructor
    · rw [plusToSpace, List.map_cons, List.map_cons, List.map_cons, if_neg (by decide), if_neg hx43,
        if_neg hy43, percentDecode, if_pos rfl, hx, hy, octet_of_digits]
      exact congrArg _ ih.1
    · simp only [List.forall_mem_cons]
      exact ⟨by decide, ⟨hx38, hx61⟩, ⟨hy38, hy61⟩, ih.2⟩

/-- A text that ends in an octet it has nowhere else, and that does not stand before it. -/
theorem search_text (hf : last ∉ front) (ha : last ∉ before) :
    search (front ++ [last]) (before ++ (front ++ last :: rest)) = some before.length := by
  induction before with
  | nil => cases front <;> simp [search]
  | cons c before ih =>
    rw [List.mem_cons, not_or] at ha
    have hn : ¬ front ++ [last] <+: c :: (before ++ (front ++ last :: rest)) := by
      intro hp
      have hs : front ++ [last] <+: (c :: before) ++ front :=
        List.prefix_of_prefix_length_le hp ⟨last :: rest, by simp⟩ (by simp)
      have hm := hs.subset (List.mem_append_right _ (List.mem_singleton_self last))
      simp [ha, hf] at hm
    simp [search, hn, ih ha.2]

theorem search_skip (h : d ∉ skipped) :
    search (d :: needle) (skipped ++ s) = (search (d :: needle) s).map (· + skipped.length) := by
  induction skipped with
  | nil => simp
  | cons c skipped ih =>
    rw [List.mem_cons, not_or] at h
    simp [search, h.1, ih h.2, Function.comp_def, Nat.add_assoc]

/-- What an encoded form says is what the handler passes to `CreatePost`. -/
theorem posted_form_decoded (title content first second : Octets) (htitle : title ≠ [])
    (hcontent : content ≠ []) (hfirst : Encodes title first) (hsecond : Encodes content second)
    (loadSession : Octets → Octets) (session : Octets)
    (hsession : session ≠ [] ∧ loadSession session ≠ []) :
    handleWrite loadSession session
        (octets "title=" ++ first ++ octets "&content=" ++ second) =
      .createPost title content (loadSession session) := by
  obtain ⟨hdf, hnf⟩ := hfirst.decoded
  obtain ⟨hds, -⟩ := hsecond.decoded
  have hb : octets "title=" ++ first ++ octets "&content=" ++ second =
      octets "title=" ++ (first ++ 38 :: (octets "content" ++ 61 :: second)) := by
    simp only [List.append_assoc]
    rfl
  rw [hb]
  generalize hbo : octets "title=" ++ (first ++ 38 :: (octets "content" ++ 61 :: second)) = body
  have ht : search (octets "title=") body = some 0 := by
    have hs : search (octets "title" ++ [61]) ([] ++ (octets "title" ++ 61 :: body.drop 6)) = some 0 :=
      search_text (by decide) nofun
    rw [← hbo] at hs ⊢
    exact hs
  have hd : body.drop 6 = first ++ 38 :: (octets "content" ++ 61 :: second) := by
    rw [← hbo]
    rfl
  have hf : find body 38 6 = some (first.length + 6) := find_split hd fun h => (hnf 38 h).1 rfl
  have hc : search (octets "content=") body = some (first.length + 1 + 6) := by
    have hs : search (octets "content" ++ [61])
        ((first ++ [38]) ++ (octets "content" ++ 61 :: second)) = some (first ++ [38]).length :=
      search_text (by decide) (by simpa using fun h => (hnf 61 h).2 rfl)
    rw [List.append_assoc] at hs
    rw [← hbo]
    refine (search_skip (d := 99) (by decide)).trans ((congrArg _ hs).trans ?_)
    simp [octets]
  have hdc : body.drop (first.length + 1 + 6 + 8) = second := by
    rw [show first.length + 1 + 6 + 8 = 6 + (first.length + 9) by omega, ← List.drop_drop, hd,
      ← List.drop_drop, List.drop_left]
    rfl
  simp [handleWrite, hsession, ht, hc, hf, hdc, slice, hd, hdf, hds, htitle, hcontent]

/-- The text `a+b` as the title, with a small and a capital digit in the codes. -/
theorem posted_form_decoded_escapes :
    handleWrite (fun _ => octets "admin") (octets "7f")
        (octets "title=" ++ octets "a%2bb" ++ octets "&content=" ++ octets "+%3D") =
      .createPost (octets "a+b") (octets " =") (octets "admin") :=
  posted_form_decoded _ _ _ _ (by decide) (by decide)
    (.verbatim rfl (.escaped rfl (by decide) (by decide) (.verbatim rfl .nil)))
    (.space (.escaped rfl (by decide) (by decide) .nil)) _ _ (by decide)

end IocpRuntime.Proofs.PostedForms
