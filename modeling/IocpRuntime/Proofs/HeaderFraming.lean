import IocpRuntime.Proofs.ParserSteps
import Mathlib.Algebra.BigOperators.Group.List.Basic

namespace IocpRuntime.Proofs.HeaderFraming
open Lib Http HttpRequestParser ParserSteps

variable {t t' : HeaderTally} {headers : List HttpHeader}
  {options : HttpParserOptions}

def named (text : String) (h : HttpHeader) : Bool := decide (h.name = octets text)

inductive Framing where
  | chunked
  | length (octets : Nat)
  deriving DecidableEq, Repr

def headed (options : HttpParserOptions) (headers : List HttpHeader) : HttpRequestParser where
  options := options
  state := .headers
  request := { headers := headers }

def decision (options : HttpParserOptions) (headers : List HttpHeader) : Option Framing :=
  match (headed options headers).finalizeHeaders with
  | .error _ => none
  | .ok p => some (if p.hasChunked then .chunked else .length p.contentLength)

def codings (headers : List HttpHeader) : List Octets :=
  (headers.filter (named "transfer-encoding")).flatMap fun h =>
    (listElements (trimOptionalWhitespace h.value)).filter (fun coding => coding ≠ [])

/-- The decision does not depend on the order; accepted is at most one length, or the one coding. -/
def Unambiguous (options : HttpParserOptions) (headers : List HttpHeader) : Prop :=
  (∀ headers', headers'.Perm headers → decision options headers' = decision options headers) ∧
    ∀ framing, decision options headers = some framing →
      (headers.countP (named "transfer-encoding") = 0 ∧
        headers.countP (named "content-length") ≤ 1) ∨
      (headers.countP (named "content-length") = 0 ∧ codings headers = [octets "chunked"])

def lengthOf (h : HttpHeader) : Nat :=
  if named "content-length" h then
    (parseDecimalSize (trimOptionalWhitespace h.value)).getD 0
  else 0

def Valid (h : HttpHeader) : Prop :=
  (named "host" h = true → h.value ≠ []) ∧
    (named "content-length" h = true →
      (parseDecimalSize (trimOptionalWhitespace h.value)).isSome = true) ∧
    (named "transfer-encoding" h = true →
      headerContainsToken (trimOptionalWhitespace h.value) (octets "chunked") = true)

/-- No Transfer-Encoding comes behind a Content-Length; `seen` lengths came before. -/
def Ordered : Nat → List HttpHeader → Prop
  | _, [] => True
  | seen, h :: headers =>
    (named "transfer-encoding" h = true → seen = 0) ∧
      Ordered (seen + if named "content-length" h then 1 else 0) headers

structure Added (t : HeaderTally) (h : HttpHeader) (t' : HeaderTally) : Prop where
  hosts : t'.hostCount = t.hostCount + if named "host" h then 1 else 0
  lengths : t'.contentLengthCount =
    t.contentLengthCount + if named "content-length" h then 1 else 0
  chunked : t'.hasChunked = (t.hasChunked || named "transfer-encoding" h)
  length : t'.contentLength = if named "content-length" h then lengthOf h else t.contentLength

theorem named_other (text : String) (hn : h.name = octets other)
    (hne : octets other ≠ octets text) : named text h = false := by
  unfold named
  rw [hn]
  exact decide_eq_false hne

theorem named_self (hn : h.name = octets text) : named text h = true :=
  decide_eq_true hn

theorem named_ne (hn : h.name ≠ octets text) : named text h = false :=
  decide_eq_false hn

/-- The three names the decision looks at, and all the others. -/
theorem add_host (hn : h.name = octets "host") : t.add h = if h.value = [] then .error .missingHost
      else .ok { t with hostCount := t.hostCount + 1 } := by
  unfold HeaderTally.add
  rw [if_pos hn]

theorem add_length (hn : h.name = octets "content-length") :
    t.add h = match parseDecimalSize (trimOptionalWhitespace h.value) with
      | none => .error .invalidContentLength
      | some parsed => .ok { t with
          contentLengthCount := t.contentLengthCount + 1
          contentLength := parsed } := by
  have hh : h.name ≠ octets "host" := by rw [hn]; decide
  exact (if_neg hh).trans (if_pos hn)

theorem add_coding (hn : h.name = octets "transfer-encoding") :
    t.add h = if t.contentLengthCount > 0 then .error .invalidContentLength
      else if !headerContainsToken (trimOptionalWhitespace h.value) (octets "chunked") then
        .error .unsupportedTransferEncoding
      else .ok { t with hasChunked := true } := by
  unfold HeaderTally.add
  rw [if_neg (by rw [hn]; decide), if_neg (by rw [hn]; decide), if_pos hn]

theorem add_other (h1 : h.name ≠ octets "host")
    (h2 : h.name ≠ octets "content-length") (h3 : h.name ≠ octets "transfer-encoding") :
    ∃ t', t.add h = .ok t' ∧ t'.hostCount = t.hostCount ∧
      t'.contentLengthCount = t.contentLengthCount ∧ t'.hasChunked = t.hasChunked ∧
      t'.contentLength = t.contentLength := by
  unfold HeaderTally.add
  rw [if_neg h1, if_neg h2, if_neg h3]
  split
  · exact ⟨_, rfl, rfl, rfl, rfl, rfl⟩
  split
  · exact ⟨_, rfl, rfl, rfl, rfl, rfl⟩
  · exact ⟨t, rfl, rfl, rfl, rfl, rfl⟩

theorem add_ok (hv : Valid h) (ho : named "transfer-encoding" h = true → t.contentLengthCount = 0) :
    ∃ t', t.add h = .ok t' ∧ Added t h t' := by
  obtain ⟨hh, hl, hc⟩ := hv
  by_cases h1 : h.name = octets "host"
  · have hn2 := named_other "content-length" h1 (by decide)
    have hn3 := named_other "transfer-encoding" h1 (by decide)
    refine ⟨_, (add_host h1).trans (if_neg (hh (named_self h1))), ?_⟩
    exact ⟨by rw [named_self h1]; rfl, by rw [hn2]; rfl, by rw [hn3, Bool.or_false],
      by rw [hn2]; rfl⟩
  have hn1 := named_ne h1
  by_cases h2 : h.name = octets "content-length"
  · have hn3 := named_other "transfer-encoding" h2 (by decide)
    obtain ⟨parsed, hp⟩ := Option.isSome_iff_exists.mp (hl (named_self h2))
    refine ⟨{ t with contentLengthCount := t.contentLengthCount + 1, contentLength := parsed },
      by rw [add_length h2, hp], ?_⟩
    exact ⟨by rw [hn1]; rfl, by rw [named_self h2]; rfl, by rw [hn3, Bool.or_false],
      by rw [lengthOf, named_self h2, hp]; rfl⟩
  have hn2 := named_ne h2
  by_cases h3 : h.name = octets "transfer-encoding"
  · have hz : ¬ t.contentLengthCount > 0 := by rw [ho (named_self h3)]; exact Nat.lt_irrefl 0
    refine ⟨{ t with hasChunked := true },
      by rw [add_coding h3, if_neg hz, hc (named_self h3)]; rfl, ?_⟩
    exact ⟨by rw [hn1]; rfl, by rw [hn2]; rfl, by rw [named_self h3, Bool.or_true],
      by rw [hn2]; rfl⟩
  have hn3 := named_ne h3
  obtain ⟨t', hadd, hosts, lengths, chunked, length⟩ := add_other h1 h2 h3
  exact ⟨t', hadd, by rw [hn1]; exact hosts, by rw [hn2]; exact lengths,
    by rw [hn3, Bool.or_false]; exact chunked, by rw [hn2]; exact length⟩

theorem add_valid (hadd : t.add h = .ok t') :
    Valid h ∧ (named "transfer-encoding" h = true → t.contentLengthCount = 0) := by
  refine ⟨⟨?_, ?_, ?_⟩, ?_⟩
  · intro hn he
    rw [add_host (of_decide_eq_true hn), if_pos he] at hadd
    cases hadd
  · intro hn
    rw [add_length (of_decide_eq_true hn)] at hadd
    cases hp : parseDecimalSize (trimOptionalWhitespace h.value) with
    | none =>
      rw [hp] at hadd
      cases hadd
    | some parsed => rfl
  · intro hn
    rw [add_coding (of_decide_eq_true hn)] at hadd
    split at hadd
    · cases hadd
    split at hadd
    · cases hadd
    · rename_i _ ht
      simpa using ht
  · intro hn
    rw [add_coding (of_decide_eq_true hn)] at hadd
    split at hadd
    · cases hadd
    · rename_i hz
      exact Nat.eq_zero_of_not_pos hz

/-- The tally behind a list of accepted headers. The lengths are added up; the
sum is the last one where there is at most one. -/
structure Totals (t : HeaderTally) (headers : List HttpHeader) (t' : HeaderTally) : Prop where
  hosts : t'.hostCount = t.hostCount + headers.countP (named "host")
  lengths : t'.contentLengthCount = t.contentLengthCount + headers.countP (named "content-length")
  chunked : t'.hasChunked = (t.hasChunked || headers.any (named "transfer-encoding"))
  length : (t.contentLengthCount = 0 → t.contentLength = 0) → t'.contentLengthCount ≤ 1 →
    t'.contentLength = t.contentLength + (headers.map lengthOf).sum

theorem lengthOf_none
    (h : headers.countP (named "content-length") = 0) : (headers.map lengthOf).sum = 0 := by
  refine List.sum_eq_zero ?_
  intro n hn
  obtain ⟨header, hmem, rfl⟩ := List.mem_map.mp hn
  unfold lengthOf
  rw [if_neg]
  exact List.countP_eq_zero.mp h header hmem

theorem Added.cons
    (ha : Added t h t') (hs : Totals t' headers t'') : Totals t (h :: headers) t'' where
  hosts := by
    rw [hs.hosts, ha.hosts, List.countP_cons]
    omega
  lengths := by
    rw [hs.lengths, ha.lengths, List.countP_cons]
    omega
  chunked := by rw [hs.chunked, ha.chunked, List.any_cons, Bool.or_assoc]
  length := by
    intro hst hone
    have hc := hs.lengths
    have had := ha.lengths
    have hl := ha.length
    rw [List.map_cons, List.sum_cons]
    by_cases hn : named "content-length" h = true
    · -- the one length of the list: none came before, none follows
      rw [if_pos hn] at had hl
      have hr : headers.countP (named "content-length") = 0 := by omega
      have hb : t.contentLength = 0 := hst (by omega)
      rw [hs.length (fun hz => by omega) hone, hl, lengthOf_none hr, hb]
      omega
    · rw [if_neg hn] at had hl
      have hze : lengthOf h = 0 := if_neg hn
      rw [hs.length (fun hz => hl.trans (hst (by omega))) hone, hl, hze, Nat.zero_add]

theorem fold_ok (hv : ∀ h ∈ headers, Valid h) (ho : Ordered t.contentLengthCount headers) :
    ∃ t', headers.foldlM HeaderTally.add t = .ok t' ∧ Totals t headers t' := by
  induction headers generalizing t with
  | nil => exact ⟨t, rfl, rfl, rfl, (Bool.or_false _).symm, fun _ _ => rfl⟩
  | cons h headers ih =>
    obtain ⟨mid, hadd, ha⟩ := add_ok (hv h List.mem_cons_self) ho.1
    obtain ⟨t', hf, ht⟩ := ih (fun x hx => hv x (List.mem_cons_of_mem _ hx)) (ha.lengths ▸ ho.2)
    refine ⟨t', ?_, ha.cons ht⟩
    rw [List.foldlM_cons, hadd]
    exact hf

theorem fold_valid (h : headers.foldlM HeaderTally.add t = .ok t') :
    (∀ h ∈ headers, Valid h) ∧ Ordered t.contentLengthCount headers := by
  induction headers generalizing t with
  | nil => exact ⟨(fun _ hx => by cases hx), trivial⟩
  | cons header headers ih =>
    rw [List.foldlM_cons] at h
    cases hadd : t.add header with
    | error e =>
      rw [hadd] at h
      cases h
    | ok mid =>
      rw [hadd] at h
      obtain ⟨hv, hf⟩ := add_valid hadd
      obtain ⟨mid', hadd', ha⟩ := add_ok hv hf
      cases hadd.symm.trans hadd'
      obtain ⟨hr, ho⟩ := ih h
      refine ⟨?_, hf, ha.lengths ▸ ho⟩
      intro x hx
      rcases List.mem_cons.mp hx with rfl | hx
      · exact hv
      · exact hr x hx

/-- The checks that look at the headers in no particular order. -/
structure Passes (options : HttpParserOptions) (headers : List HttpHeader) : Prop where
  valid : ∀ h ∈ headers, Valid h
  host : headers.countP (named "host") = 1
  lengths : headers.countP (named "content-length") ≤ 1
  limited : (headers.map lengthOf).sum ≤ options.maximumBodyBytes.toNat

theorem Passes.perm
    (h : Passes options headers) (hp : headers'.Perm headers) : Passes options headers' where
  valid := fun x hx => h.valid x (hp.mem_iff.mp hx)
  host := (hp.countP_eq _).trans h.host
  lengths := (hp.countP_eq _).le.trans h.lengths
  limited := (hp.map lengthOf).sum_eq.le.trans h.limited

def framingOf (headers : List HttpHeader) : Framing :=
  if headers.any (named "transfer-encoding") then .chunked
  else .length (headers.map lengthOf).sum

theorem framingOf_perm (hp : headers'.Perm headers) : framingOf headers' = framingOf headers := by
  have hany : headers'.any (named "transfer-encoding") = headers.any (named "transfer-encoding") := by
    rw [Bool.eq_iff_iff, List.any_eq_true, List.any_eq_true]
    simp only [hp.mem_iff]
  unfold framingOf
  rw [hany, (hp.map lengthOf).sum_eq]

theorem check_passes (host : t.hostCount = 1) (lengths : t.contentLengthCount ≤ 1)
    (limited : t.contentLength ≤ options.maximumBodyBytes.toNat) : t.check options = .ok t := by
  unfold HeaderTally.check
  rw [if_neg (by omega), if_neg (by omega), if_neg (by omega), if_neg (by omega)]

theorem decision_accepts (h : Passes options headers) (ho : Ordered 0 headers) :
    decision options headers = some (framingOf headers) := by
  obtain ⟨t, hf, ht⟩ := fold_ok (t := (headed options headers).tally) h.valid ho
  have hh : t.hostCount = 1 := by
    rw [ht.hosts, h.host]
    rfl
  have hl : t.contentLengthCount ≤ 1 := by
    rw [ht.lengths]
    exact (Nat.zero_add _).le.trans h.lengths
  have hle : t.contentLength = (headers.map lengthOf).sum := by
    rw [ht.length (fun _ => rfl) hl]
    exact Nat.zero_add _
  have hc : t.hasChunked = headers.any (named "transfer-encoding") := by
    rw [ht.chunked]
    exact Bool.false_or _
  have hch := check_passes hh hl (hle.le.trans h.limited)
  unfold decision finalizeHeaders
  rw [show (headed options headers).request.headers = headers from rfl, hf]
  dsimp only [bind, Except.bind]
  rw [show (headed options headers).options = options from rfl, hch]
  dsimp only [pure, Except.pure]
  rw [hc, hle]
  rfl

theorem decision_some (h : decision options headers = some framing) :
    Passes options headers ∧ Ordered 0 headers := by
  unfold decision at h
  cases hfin : (headed options headers).finalizeHeaders with
  | error e =>
    rw [hfin] at h
    cases h
  | ok p =>
    obtain ⟨t, hf, hc, -⟩ := finalizeHeaders_ok hfin
    obtain ⟨-, hh, hl, hli⟩ := check_ok hc
    obtain ⟨hv, ho⟩ := fold_valid hf
    obtain ⟨t', hf', ht⟩ := fold_ok hv ho
    cases hf.symm.trans hf'
    refine ⟨⟨hv, ?_, ?_, ?_⟩, ho⟩
    · rw [ht.hosts] at hh
      exact (Nat.zero_add _).symm.trans hh
    · rw [ht.lengths] at hl
      exact (Nat.zero_add _).symm.le.trans hl
    · rw [ht.length (fun _ => rfl) hl] at hli
      exact (Nat.zero_add _).symm.le.trans hli

theorem ordered_append : Ordered seen (a ++ b) ↔
      Ordered seen a ∧ Ordered (seen + a.countP (named "content-length")) b := by
  induction a generalizing seen with
  | nil => exact ⟨fun h => ⟨trivial, h⟩, fun h => h.2⟩
  | cons h a ih =>
    have hc : seen + (h :: a).countP (named "content-length") =
        seen + (if named "content-length" h then 1 else 0) + a.countP (named "content-length") := by
      rw [List.countP_cons]
      omega
    rw [hc]
    simp only [List.cons_append, Ordered, ih]
    exact and_assoc.symm

theorem ordered_uncoded
    (h : headers.countP (named "transfer-encoding") = 0) : Ordered seen headers := by
  induction headers generalizing seen with
  | nil => exact trivial
  | cons header headers ih =>
    have hno := List.countP_eq_zero.mp h
    refine ⟨fun hn => absurd hn (hno header List.mem_cons_self), ih ?_⟩
    exact List.countP_eq_zero.mpr (fun x hx => hno x (List.mem_cons_of_mem _ hx))

theorem ordered_unsized (h : headers.countP (named "content-length") = 0) : Ordered 0 headers := by
  induction headers with
  | nil => exact trivial
  | cons header headers ih =>
    have hn := List.countP_eq_zero.mp h
    refine ⟨fun _ => rfl, ?_⟩
    rw [if_neg (hn header List.mem_cons_self)]
    exact ih (List.countP_eq_zero.mpr (fun x hx => hn x (List.mem_cons_of_mem _ hx)))

/-- A list with both kinds of header can be put in an order that is accepted and
in one that is not. -/
theorem both_orders (hco : headers.countP (named "transfer-encoding") ≠ 0)
    (hl : headers.countP (named "content-length") ≠ 0) :
    ∃ first last, first.Perm headers ∧ last.Perm headers ∧ Ordered 0 first ∧ ¬ Ordered 0 last := by
  let coded := headers.filter (named "transfer-encoding")
  let others := headers.filter (fun h => !named "transfer-encoding" h)
  have hp : (coded ++ others).Perm headers := List.filter_append_perm _ _
  have hu : coded.countP (named "content-length") = 0 := by
    refine List.countP_eq_zero.mpr ?_
    intro h hm hn
    have hna := of_decide_eq_true (List.mem_filter.mp hm).2
    rw [named_other "content-length" hna (by decide)] at hn
    cases hn
  have hun : others.countP (named "transfer-encoding") = 0 := by
    refine List.countP_eq_zero.mpr ?_
    intro h hm hn
    have hnot := (List.mem_filter.mp hm).2
    rw [hn] at hnot
    cases hnot
  have hs : others.countP (named "content-length") ≠ 0 := by
    have hsum := hp.countP_eq (named "content-length")
    rw [List.countP_append, hu, Nat.zero_add] at hsum
    rw [hsum]
    exact hl
  refine ⟨coded ++ others, others ++ coded, hp, List.perm_append_comm.trans hp, ?_, ?_⟩
  · rw [ordered_append, hu]
    exact ⟨ordered_unsized hu, ordered_uncoded hun⟩
  · rw [ordered_append]
    rintro ⟨-, hb⟩
    cases hc : coded with
    | nil => exact hco (by rw [List.countP_eq_length_filter]; exact congrArg List.length hc)
    | cons h rest =>
      have hmem : h ∈ coded := by
        rw [hc]
        exact List.mem_cons_self
      rw [hc] at hb
      have hz := hb.1 (List.mem_filter.mp hmem).2
      omega

/-- Framing is unambiguous exactly when no list passes with a Transfer-Encoding next to a
Content-Length or with codings besides `chunked`. -/
theorem framing_unambiguous_iff (options : HttpParserOptions) (headers : List HttpHeader) :
    Unambiguous options headers ↔
      (Passes options headers → headers.countP (named "transfer-encoding") ≠ 0 →
        headers.countP (named "content-length") = 0 ∧ codings headers = [octets "chunked"]) := by
  constructor
  · rintro ⟨horder, hform⟩ hpasses hcoding
    by_cases hlength : headers.countP (named "content-length") = 0
    · have haccepts := decision_accepts hpasses (ordered_unsized hlength)
      rcases hform _ haccepts with ⟨hnone, -⟩ | hone
      · exact absurd hnone hcoding
      · exact hone
    · obtain ⟨first, last, hfirst, hlast, hyes, hno⟩ := both_orders hcoding hlength
      have haccepts := decision_accepts (hpasses.perm hfirst) hyes
      rw [horder first hfirst, ← horder last hlast] at haccepts
      exact absurd (decision_some haccepts).2 hno
  · intro hsafe
    have hordered : ∀ headers', headers'.Perm headers → Passes options headers →
        Ordered 0 headers' := by
      intro headers' hp hpasses
      by_cases hcoding : headers.countP (named "transfer-encoding") = 0
      · exact ordered_uncoded ((hp.countP_eq _).trans hcoding)
      · exact ordered_unsized ((hp.countP_eq _).trans (hsafe hpasses hcoding).1)
    refine ⟨?_, ?_⟩
    · intro headers' hp
      by_cases hpasses : Passes options headers
      · rw [decision_accepts hpasses (hordered headers (.refl _) hpasses),
          decision_accepts (hpasses.perm hp) (hordered headers' hp hpasses), framingOf_perm hp]
      · have hnone : ∀ list : List HttpHeader, list.Perm headers → decision options list = none := by
          intro list hl
          refine Option.eq_none_iff_forall_ne_some.mpr ?_
          intro framing hd
          exact hpasses ((decision_some hd).1.perm hl.symm)
        rw [hnone headers' hp, hnone headers (.refl _)]
    · intro framing hd
      have hpasses := (decision_some hd).1
      by_cases hcoding : headers.countP (named "transfer-encoding") = 0
      · exact Or.inl ⟨hcoding, hpasses.lengths⟩
      · exact Or.inr (hsafe hpasses hcoding)

def twoFramings : List HttpHeader :=
  [⟨octets "host", octets "a"⟩, ⟨octets "transfer-encoding", octets "chunked"⟩,
    ⟨octets "content-length", octets "5"⟩]

def twoCodings : List HttpHeader :=
  [⟨octets "host", octets "a"⟩, ⟨octets "transfer-encoding", octets "gzip, chunked"⟩]

theorem framing_ambiguous : ¬ Unambiguous {} twoFramings ∧ ¬ Unambiguous {} twoCodings := by
  refine ⟨?_, ?_⟩
  · rintro ⟨horder, -⟩
    have hperm : [twoFramings[0], twoFramings[2], twoFramings[1]].Perm twoFramings :=
      .cons _ (.swap _ _ _)
    have hsame := horder _ hperm
    exact absurd hsame (by decide +kernel)
  · rintro ⟨-, hform⟩
    have haccepts : decision {} twoCodings = some .chunked := by decide +kernel
    rcases hform _ haccepts with ⟨hnone, -⟩ | ⟨-, hcodings⟩
    · exact absurd hnone (by decide +kernel)
    · exact absurd hcodings (by decide +kernel)

end IocpRuntime.Proofs.HeaderFraming
