import IocpRuntime.Proofs.ParserSteps

namespace IocpRuntime.Proofs.ParserSafety
open Lib Buffer Http HttpRequestParser ParserSteps

inductive Reachable : HttpRequestParser → Prop
  | create {options : HttpParserOptions} {p : HttpRequestParser}
      (created : HttpRequestParser.create options = .ok p) : Reachable p
  | parse {p : HttpRequestParser} (before : Reachable p) (input : BufferSequence) :
      Reachable (p.parse input).1
  | reset {p : HttpRequestParser} (before : Reachable p) : Reachable p.reset

theorem create_sound {options : HttpParserOptions}
    (h : HttpRequestParser.create options = .ok p) : Sound p := by
  unfold HttpRequestParser.create at h
  split at h
  · cases h
  · cases h
    exact Sound.reset { options := options }

theorem Ended.sound (h : Live input p) (he : Ended input p out) : Sound out.1 := by
  have ht := h.turned
  cases he with
  | returned last =>
    rw [last] at ht
    cases ht with
    | done _ sound => exact sound
  | thrown last =>
    rw [last] at ht
    cases ht with
    | thrown _ sound _ => exact sound

theorem entered (h : Sound p) (hl : p.state ≠ .error)
    (hi : ¬ (input.size < p.scanOffset ∨ input.size < p.lineStart)) : Live input p := by
  rw [BufferSequence.size_eq] at hi
  exact ⟨h, hl, by omega⟩

theorem parse_sound (h : Sound p) : Sound (p.parse input).1 := by
  by_cases hl : p.state = .error
  · rw [parse, if_pos hl]
    exact h
  by_cases hi : input.size < p.scanOffset ∨ input.size < p.lineStart
  · rw [parse, if_neg hl, if_pos hi]
    exact h.fail
  · have hen := entered h hl hi
    obtain ⟨q, hr, he⟩ := parse_ends hen
    exact Ended.sound (hen.reaches hr) he

theorem reachable_sound (h : Reachable p) : Sound p := by
  induction h with
  | create created => exact create_sound created
  | parse _ input ih => exact parse_sound ih
  | reset _ _ => exact Sound.reset _

/-- A state the loop of `Parse` comes through. -/
def InLoop (input : BufferSequence) (p q : HttpRequestParser) : Prop :=
  p.state ≠ .error ∧ ¬ (input.size < p.scanOffset ∨ input.size < p.lineStart) ∧
    Relation.ReflTransGen (Goes input) p q

/-- `Parse` returns a result, and none of its rounds shrinks the body. A read
outside the input would throw. -/
def Behaves (p : HttpRequestParser) (input : BufferSequence) : Prop :=
  (∃ q result, p.parse input = (q, .returned result)) ∧
    ∀ q r, InLoop input p q → Goes input q r → q.request.body <+: r.request.body

/-- `Parse` behaves unless its loop comes to a chunk whose end wraps around
while both wrapped sums pass their checks. -/
theorem parse_behaves_iff {p : HttpRequestParser} (h : Reachable p) (input : BufferSequence) :
    Behaves p input ↔ ∀ q, InLoop input p q → ¬ Overflowing q input := by
  have hs := reachable_sound h
  constructor
  · rintro ⟨⟨r, result, hparse⟩, -⟩ q ⟨hlive, hi, hr⟩ hov
    have hentered := entered hs hlive hi
    have hq := hentered.reaches hr
    obtain ⟨hstate, hover, hinput, hmax⟩ := hov
    obtain ⟨s, e, hthrown, -⟩ := chunkThrown_thrown hq.sound hstate hover
    have hstep : q.step input = .thrown s e := by
      rw [step_chunkBody hstate, chunkBody_overflows hq.sound hstate hq.inside hover,
        if_neg (Nat.not_lt.mpr hinput), if_neg (Nat.not_lt.mpr hmax), hthrown]
    cases hparse.symm.trans (parse_eq hentered hr (.thrown hstep))
  · intro hno
    refine ⟨?_, ?_⟩
    · by_cases hlive : p.state = .error
      · exact ⟨_, _, by rw [parse, if_pos hlive]⟩
      by_cases hi : input.size < p.scanOffset ∨ input.size < p.lineStart
      · exact ⟨_, _, by rw [parse, if_neg hlive, if_pos hi]⟩
      have hentered := entered hs hlive hi
      obtain ⟨q, hr, he⟩ := parse_ends hentered
      generalize p.parse input = out at he
      cases he with
      | returned last => exact ⟨_, _, rfl⟩
      | thrown last =>
        have ht := (hentered.reaches hr).turned
        rw [last] at ht
        cases ht with
        | thrown _ _ overflow => exact absurd overflow (hno q ⟨hlive, hi, hr⟩)
    · rintro q r ⟨hlive, hi, hr⟩ hg
      have ht := ((entered hs hlive hi).reaches hr).turned
      rw [hg] at ht
      cases ht with
      | next _ _ _ _ body _ => exact body

def fresh : HttpRequestParser := { options := {} }

theorem fresh_created : HttpRequestParser.create {} = .ok fresh := by decide

def textOf (text : Octets) (h : text.length + 0 < 2 ^ 63) : BufferSequence :=
  BufferSequence.ofViews text [] h

def wrappingChunk : BufferSequence := textOf (octets
  "POST / HTTP/1.1\r\nHost: a\r\nTransfer-Encoding: chunked\r\n\r\n1\r\nA\r\nFFFFFFFFFFFFFFFF\r\nX")
  (by decide)

theorem parse_behaves_iff_fresh : Reachable fresh ∧ (Behaves fresh wrappingChunk ↔
      ∀ q, InLoop wrappingChunk fresh q → ¬ Overflowing q wrappingChunk) :=
  ⟨.create fresh_created, parse_behaves_iff (.create fresh_created) wrappingChunk⟩

/-- The body is resized to nothing and the copy is refused. -/
theorem parse_misbehaves : Reachable fresh ∧ ¬ Behaves fresh wrappingChunk := by
  refine ⟨.create fresh_created, ?_⟩
  rintro ⟨⟨q, result, hparse⟩, -⟩
  have hthrown : (fresh.parse wrappingChunk).2 =
      .thrown (.outOfRange "BufferSequence copy 범위가 readable byte를 넘습니다") := by
    decide +kernel
  rw [hparse] at hthrown
  cases hthrown

end IocpRuntime.Proofs.ParserSafety
