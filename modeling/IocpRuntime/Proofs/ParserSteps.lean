import IocpRuntime.Http.Parser
import IocpRuntime.Lib.Lines
import Mathlib.Logic.Relation

namespace IocpRuntime.Proofs.ParserSteps
open Lib Lib.Lines Buffer Http HttpRequestParser

variable {byte : UInt8}

def found (p : HttpRequestParser) (bytes : Octets) : Scan → HttpRequestParser × LineResult
  | .paused seen => ({ p with scanOffset := p.lineStart + seen }, {})
  | .line length =>
    ({ p with scanOffset := p.lineStart + length + 2, lineStart := p.lineStart + length + 2 },
      { status := .complete, value := slice bytes p.lineStart (p.lineStart + length) })
  | .malformed => (p, { status := .error })
  | .tooLong => (p, { status := .limitExceeded })

def scanned (p : HttpRequestParser) (bytes : Octets) : Scan :=
  scan p.lineLimit (p.scanOffset - p.lineStart) (bytes.drop p.scanOffset)

theorem readLineLoop_eq (p : HttpRequestParser) (input : BufferSequence) (limit rounds index : Nat)
    (hl : p.lineStart ≤ index) (hi : index ≤ input.bytes.length)
    (hr : input.bytes.length - index ≤ rounds) :
    p.readLineLoop input limit rounds index =
      .ok (found p input.bytes (scan limit (index - p.lineStart) (input.bytes.drop index))) := by
  have hend : ∀ i, p.lineStart ≤ i → p.lineStart + (i - p.lineStart) = i := fun i h => by omega
  induction rounds generalizing index with
  | zero =>
    have he : index = input.bytes.length := by omega
    subst he
    rw [List.drop_length]
    simp only [readLineLoop, scan, found, BufferSequence.size_eq]
    rw [hend _ hl]
  | succ rounds ih =>
    by_cases hlt : index < input.bytes.length
    · rw [List.drop_eq_getElem_cons hlt]
      have hat := input.byteAt_eq index hlt
      generalize input.bytes[index] = c at hat ⊢
      have hgo : index < input.size := by rw [BufferSequence.size_eq]; exact hlt
      rw [readLineLoop, if_pos hgo, hat]
      simp only [bind, Except.bind, pure, Except.pure]
      by_cases h10 : c = 10
      · rw [if_pos h10, h10, (Stop.bareLf _).scan]
        rfl
      by_cases h13 : c = 13
      · rw [if_neg h10, if_pos h13, h13, BufferSequence.size_eq]
        by_cases hla : index + 1 ≥ input.bytes.length
        · rw [if_pos hla, List.drop_eq_nil_of_le hla, Stop.lastCr.scan]
          simp only [found]
          rw [hend _ hl]
        · have hn : index + 1 < input.bytes.length := by omega
          rw [if_neg hla, List.drop_eq_getElem_cons hn, input.byteAt_eq _ hn]
          dsimp only
          generalize input.bytes[index + 1] = d
          by_cases hd : d = 10
          · subst hd
            rw [if_neg (not_not_intro rfl)]
            by_cases hlim : index - p.lineStart > limit
            · rw [if_pos hlim, (Stop.longLine _ hlim).scan]
              rfl
            · rw [if_neg hlim, (Stop.line _ (Nat.le_of_not_lt hlim)).scan]
              have hc := input.copyTo_eq p.lineStart (index - p.lineStart) (by omega)
              simp only [found, hend _ hl] at hc ⊢
              by_cases hz : index - p.lineStart = 0
              · have he : slice input.bytes p.lineStart index = [] := by simp [slice, hz]
                rw [if_pos hz, he]
              · rw [if_neg hz, hc]
          · rw [if_pos hd, (Stop.bareCr _ hd).scan]
            rfl
      rw [if_neg h10, if_neg h13, scan_octet ⟨h13, h10⟩]
      by_cases hlim : index - p.lineStart + 1 > limit
      · rw [if_pos hlim, if_pos hlim]
        rfl
      · rw [if_neg hlim, if_neg hlim, ih (index + 1) (by omega) hlt (by omega)]
        congr 3
        omega
    · have he : index = input.bytes.length := by omega
      subst he
      rw [readLineLoop, if_neg (by rw [BufferSequence.size_eq]; omega), List.drop_length]
      simp only [scan, found, BufferSequence.size_eq, pure, Except.pure]
      rw [hend _ hl]

def AtLine (p : HttpRequestParser) : Prop :=
  p.state = .requestLine ∨ p.state = .headers ∨ p.state = .chunkHead ∨ p.state = .chunkTrailer

theorem not_atLine (h : p.state = .body ∨ p.state = .chunkBody) : ¬ AtLine p := by
  unfold AtLine
  rcases h with h | h
  all_goals
    rw [h]
    rintro (hc | hc | hc | hc)
    all_goals cases hc

theorem step_line (hs : AtLine p)
    (hl : p.lineStart ≤ p.scanOffset) (hi : p.scanOffset ≤ input.bytes.length) :
    p.step input = (found p input.bytes (scanned p input.bytes)).1.onLine input
      (found p input.bytes (scanned p input.bytes)).2 := by
  have hr := readLineLoop_eq p input p.lineLimit (input.size - p.scanOffset) p.scanOffset hl hi
    (by rw [BufferSequence.size_eq])
  unfold HttpRequestParser.step
  rw [readLine, hr]
  rcases hs with h | h | h | h
  all_goals rw [h]; rfl

theorem step_body {p : HttpRequestParser} (h : p.state = .body) :
    p.step input = p.onBody input := by
  unfold HttpRequestParser.step
  rw [h]

theorem step_chunkBody {p : HttpRequestParser}
    (h : p.state = .chunkBody) : p.step input = p.onChunkBody input := by
  unfold HttpRequestParser.step
  rw [h]

theorem step_chunkEnd {p : HttpRequestParser}
    (h : p.state = .chunkEnd) : p.step input = p.complete input := by
  unfold HttpRequestParser.step
  rw [h]

def Shape (p : HttpRequestParser) : Prop :=
  match p.state with
  | .requestLine | .headers =>
    p.request.body = [] ∧ p.contentLength = 0 ∧ p.hasChunked = false
  | .body => p.hasChunked = false ∧ p.contentLength ≠ 0 ∧ p.contentLength < 2 ^ 64
  | .chunkHead | .chunkTrailer | .chunkEnd =>
    p.hasChunked = true ∧ p.request.body.length ≤ p.lineStart
  | .chunkBody => p.hasChunked = true ∧ p.request.body.length ≤ p.lineStart ∧
      p.lineStart = p.scanOffset ∧ p.chunkBodyOffset = p.scanOffset ∧
      0 < p.chunkSize ∧ p.chunkSize < 2 ^ 64
  | .error => True

section ShapeOf
theorem shape_requestLine (h : p.state = .requestLine) :
    Shape p ↔ p.request.body = [] ∧ p.contentLength = 0 ∧ p.hasChunked = false := by
  unfold Shape
  rw [h]

theorem shape_headers (h : p.state = .headers) :
    Shape p ↔ p.request.body = [] ∧ p.contentLength = 0 ∧ p.hasChunked = false := by
  unfold Shape
  rw [h]

theorem shape_body (h : p.state = .body) :
    Shape p ↔ p.hasChunked = false ∧ p.contentLength ≠ 0 ∧ p.contentLength < 2 ^ 64 := by
  unfold Shape
  rw [h]

theorem shape_chunkBody (h : p.state = .chunkBody) :
    Shape p ↔ p.hasChunked = true ∧ p.request.body.length ≤ p.lineStart ∧
      p.lineStart = p.scanOffset ∧ p.chunkBodyOffset = p.scanOffset ∧
      0 < p.chunkSize ∧ p.chunkSize < 2 ^ 64 := by
  unfold Shape
  rw [h]

theorem shape_chunk (h : p.state = .chunkHead ∨ p.state = .chunkTrailer ∨ p.state = .chunkEnd) :
    Shape p ↔ p.hasChunked = true ∧ p.request.body.length ≤ p.lineStart := by
  unfold Shape
  rcases h with h | h | h
  all_goals rw [h]

end ShapeOf

structure Sound (p : HttpRequestParser) : Prop where
  line : p.lineStart ≤ p.scanOffset
  small : p.scanOffset < 2 ^ 63
  headerBytes : p.headerBytes ≤ p.options.maximumHeaderBytes.toNat
  shape : Shape p

theorem Sound.fail (h : Sound p) :
    Sound { p with state := .error, lastError := error } :=
  ⟨h.line, h.small, h.headerBytes, trivial⟩

theorem Sound.reset (p : HttpRequestParser) : Sound p.reset :=
  ⟨Nat.le_refl _, (show 0 < 2 ^ 63 by decide), Nat.zero_le _, rfl, rfl, rfl⟩

theorem Shape.moved (hs : AtLine p) (h : Shape p)
    (state : q.state = p.state) (request : q.request = p.request)
    (length : q.contentLength = p.contentLength) (chunked : q.hasChunked = p.hasChunked)
    (line : p.lineStart ≤ q.lineStart) : Shape q := by
  rcases hs with hs | hs | hs | hs
  · rw [shape_requestLine hs] at h
    rwa [shape_requestLine (state.trans hs), request, length, chunked]
  · rw [shape_headers hs] at h
    rwa [shape_headers (state.trans hs), request, length, chunked]
  · rw [shape_chunk (Or.inl hs)] at h
    rw [shape_chunk (Or.inl (state.trans hs)), request, chunked]
    exact ⟨h.1, Nat.le_trans h.2 line⟩
  · rw [shape_chunk (Or.inr (Or.inl hs))] at h
    rw [shape_chunk (Or.inr (Or.inl (state.trans hs))), request, chunked]
    exact ⟨h.1, Nat.le_trans h.2 line⟩

inductive Paused (bytes : Octets) (p : HttpRequestParser) : HttpRequestParser → Prop
  | line (reads : AtLine p) {n : Nat} (scans : scanned p bytes = .paused n) :
      Paused bytes p { p with scanOffset := p.lineStart + n }
  | data (reads : ¬ AtLine p) : Paused bytes p p

structure Read (p q : HttpRequestParser) (line : LineResult) (bytes : Octets) : Prop where
  sound : Sound q
  inside : q.scanOffset ≤ bytes.length
  state : q.state = p.state
  request : q.request = p.request
  options : q.options = p.options
  headerBytes : q.headerBytes = p.headerBytes
  forward : p.scanOffset ≤ q.scanOffset
  taken : line.status = .complete → p.scanOffset + 2 ≤ q.scanOffset ∧ q.lineStart = q.scanOffset
  kept : line.status ≠ .complete → line.value = []
  still : line.status = .limitExceeded → q.scanOffset = p.scanOffset
  waits : line.status = .incomplete → Paused bytes p q

theorem scanned_paused (hl : p.lineStart ≤ p.scanOffset) (hi : p.scanOffset ≤ bytes.length)
    (h : scanned p bytes = .paused n) :
    p.scanOffset ≤ p.lineStart + n ∧ p.lineStart + n ≤ bytes.length := by
  obtain ⟨hle, hge, -⟩ := scan_resume [] h
  rw [List.length_drop] at hge
  omega

theorem scanned_line (hl : p.lineStart ≤ p.scanOffset) (hi : p.scanOffset ≤ bytes.length)
    (h : scanned p bytes = .line n) :
    p.scanOffset ≤ p.lineStart + n ∧ p.lineStart + n + 2 ≤ bytes.length := by
  obtain ⟨text, more, hd, -, hn, -⟩ := scan_line h
  have hlen := congrArg List.length hd
  simp only [List.length_drop, List.length_append, List.length_cons] at hlen
  omega

theorem read_found {input : BufferSequence} (h : Sound p) (hs : AtLine p)
    (hi : p.scanOffset ≤ input.bytes.length) :
    Read p (found p input.bytes (scanned p input.bytes)).1
      (found p input.bytes (scanned p input.bytes)).2 input.bytes := by
  have hsi := input.bytes_lt
  cases hsc : scanned p input.bytes with
  | paused n =>
    obtain ⟨hf, hto⟩ := scanned_paused h.line hi hsc
    refine ⟨⟨?_, ?_, h.headerBytes, ?_⟩, hto, rfl, rfl, rfl, rfl, hf, nofun,
      (fun _ => rfl), nofun, fun _ => .line hs hsc⟩
    · exact Nat.le_trans h.line hf
    · exact Nat.lt_of_le_of_lt hto hsi
    · exact h.shape.moved hs rfl rfl rfl rfl (Nat.le_refl _)
  | line n =>
    obtain ⟨hf, hto⟩ := scanned_line h.line hi hsc
    refine ⟨⟨Nat.le_refl _, ?_, h.headerBytes, ?_⟩, hto, rfl, rfl, rfl, rfl, ?_,
      fun _ => ⟨Nat.add_le_add_right hf 2, rfl⟩, (fun hc => absurd rfl hc),
      nofun, nofun⟩
    · exact Nat.lt_of_le_of_lt hto hsi
    · refine h.shape.moved hs rfl rfl rfl rfl ?_
      exact Nat.le_trans h.line (Nat.le_trans hf (Nat.le_add_right _ _))
    · exact Nat.le_trans hf (Nat.le_add_right _ _)
  | malformed => exact ⟨h, hi, rfl, rfl, rfl, rfl, Nat.le_refl _, nofun,
      (fun _ => rfl), (fun _ => rfl), nofun⟩
  | tooLong => exact ⟨h, hi, rfl, rfl, rfl, rfl, Nat.le_refl _, nofun,
      (fun _ => rfl), (fun _ => rfl), nofun⟩

/-- A chunk whose end lies beyond `SIZE_MAX`, so that the wrapped sums pass both
checks of the chunk state. -/
def Overflowing (p : HttpRequestParser) (input : BufferSequence) : Prop :=
  p.state = .chunkBody ∧ 2 ^ 64 ≤ p.chunkBodyOffset + p.chunkSize + 2 ∧
    p.chunkBodyOffset + p.chunkSize + 2 - 2 ^ 64 ≤ input.bytes.length ∧
    wrap (p.request.body.length + p.chunkSize) ≤ p.options.maximumBodyBytes.toNat

def Beyond (p : HttpRequestParser) : Prop := p.state ≠ .requestLine ∧ p.state ≠ .headers

theorem beyond_of (state : ParserState) (hs : p.state = state)
    (h : state ≠ .requestLine ∧ state ≠ .headers) : Beyond p := by
  rwa [← hs] at h

structure Moved (p q : HttpRequestParser) : Prop where
  options : q.options = p.options
  later : Beyond p → Beyond q
  flush : AtLine q → q.lineStart = q.scanOffset

inductive Said (bytes : Octets) (p q : HttpRequestParser) : HttpParseStatus → Prop
  | waits (paused : Paused bytes p q) : Said bytes p q .incomplete
  | announces (live : q.state ≠ .error) (forward : p.scanOffset + 2 ≤ q.scanOffset)
      (moved : Moved p q) (head : ¬ Beyond p) (body : Beyond q) : Said bytes p q .headersComplete
  | completes (place : p.state = .headers ∨ p.state = .body ∨ p.state = .chunkEnd) :
      Said bytes p q .complete
  | refuses : Said bytes p q .error

inductive Turned (input : BufferSequence) (p : HttpRequestParser) : Turn → Prop
  | next {q : HttpRequestParser} (sound : Sound q) (inside : q.scanOffset ≤ input.bytes.length)
      (live : q.state ≠ .error)
      (progress : p.scanOffset + 2 ≤ q.scanOffset ∨
        (p.state = .chunkTrailer ∧ q.state = .chunkEnd ∧ q.scanOffset = p.scanOffset))
      (body : p.request.body <+: q.request.body) (moved : Moved p q) : Turned input p (.next q)
  | done {q : HttpRequestParser} (result : HttpParseResult) (sound : Sound q)
      (inside : q.scanOffset ≤ input.bytes.length)
      (said : Said input.bytes p q result.status) : Turned input p (.done q result)
  | thrown {q : HttpRequestParser} (e : Thrown) (sound : Sound q)
      (overflow : Overflowing p input) : Turned input p (.thrown q e)

theorem Turned.fail (h : Sound q) (hi : q.scanOffset ≤ input.bytes.length) :
    Turned input p (q.fail error) :=
  .done _ h.fail hi .refuses

theorem Moved.ofHead (hp : p.state = .requestLine ∨ p.state = .headers)
    (options : q.options = p.options) (flush : q.lineStart = q.scanOffset) : Moved p q := by
  refine ⟨options, fun hb => ?_, fun _ => flush⟩
  rcases hp with hp | hp
  · exact absurd hp hb.1
  · exact absurd hp hb.2

theorem Moved.ofBody (options : q.options = p.options)
    (hq : Beyond q) (flush : AtLine q → q.lineStart = q.scanOffset) : Moved p q :=
  ⟨options, fun _ => hq, flush⟩

theorem parseRequestLine_keeps {request request' : HttpRequest}
    (h : parseRequestLine request line = .ok request') :
    request'.body = request.body ∧ request'.headers = request.headers := by
  unfold parseRequestLine at h
  split at h
  · cases h
  split at h
  · cases h
  dsimp only at h
  split_ifs at h
  cases h
  exact ⟨rfl, rfl⟩

theorem parseHeaderLine_keeps {request request' : HttpRequest}
    (h : parseHeaderLine request line = .ok request') :
    request'.body = request.body ∧ request'.headers.length = request.headers.length + 1 := by
  unfold parseHeaderLine at h
  split at h
  · cases h
  dsimp only at h
  split_ifs at h
  cases h
  simp

theorem offset_le (h : low ≤ byte ∧ byte ≤ high) : (byte - low).toNat ≤ high.toNat - low.toNat := by
  rw [UInt8.toNat_sub_of_le _ _ h.1]
  exact Nat.sub_le_sub_right (UInt8.le_iff_toNat_le.mp h.2) _

theorem hexDigit_lt (h : hexDigit byte = some digit) : digit < 16 := by
  unfold hexDigit at h
  split at h
  · rename_i hd
    cases h
    have hle : (byte - 48).toNat ≤ 9 := offset_le hd
    omega
  · split at h
    · rename_i hl
      cases h
      have hle : (byte - 97).toNat ≤ 5 := offset_le hl
      omega
    · split at h
      · rename_i hu
        cases h
        have hle : (byte - 65).toNat ≤ 5 := offset_le hu
        omega
      · cases h

theorem hexStep_lt (h : hexStep parsed byte = some size) :
    size = parsed * 16 + size % 16 ∧ size < 2 ^ 64 := by
  unfold hexStep at h
  split at h
  · cases h
  obtain ⟨digit, hd, rfl⟩ := Option.map_eq_some_iff.mp h
  have := hexDigit_lt hd
  omega

theorem parseHexSize_lt (h : parseHexSize value = some size) : size < 2 ^ 64 := by
  have hf : ∀ (value : Octets) (parsed : Nat), parsed < 2 ^ 64 →
      value.foldlM hexStep parsed = some size → size < 2 ^ 64 := by
    intro value
    induction value with
    | nil =>
      intro parsed hp h
      cases h
      exact hp
    | cons byte value ih =>
      intro parsed hp h
      obtain ⟨mid, hmid, hr⟩ := Option.bind_eq_some_iff.mp h
      exact ih mid (hexStep_lt hmid).2 hr
  unfold parseHexSize at h
  split at h
  · cases h
  · exact hf value 0 (by decide) h

structure Finalized (p q : HttpRequestParser) : Prop where
  options : q.options = p.options
  lineStart : q.lineStart = p.lineStart
  scanOffset : q.scanOffset = p.scanOffset
  headerBytes : q.headerBytes = p.headerBytes
  body : q.request.body = p.request.body
  headers : q.request.headers = p.request.headers
  limited : q.contentLength ≤ p.options.maximumBodyBytes.toNat

theorem check_ok {t t' : HeaderTally} {options : HttpParserOptions}
    (h : t.check options = .ok t') : t' = t ∧ t.hostCount = 1 ∧ t.contentLengthCount ≤ 1 ∧
      t.contentLength ≤ options.maximumBodyBytes.toNat := by
  unfold HeaderTally.check at h
  repeat' split at h
  all_goals cases h
  refine ⟨rfl, ?_, ?_, ?_⟩
  all_goals omega

theorem finalizeHeaders_ok {p q : HttpRequestParser} (h : p.finalizeHeaders = .ok q) :
    ∃ t, p.request.headers.foldlM HeaderTally.add p.tally = .ok t ∧
      t.check p.options = .ok t ∧
      q = { p with
        contentLength := t.contentLength
        hasChunked := t.hasChunked
        expectContinue := t.expectContinue
        request := { p.request with keepAlive := !t.connectionClose } } := by
  unfold finalizeHeaders at h
  generalize p.request.headers.foldlM HeaderTally.add p.tally = tally at h ⊢
  cases tally with
  | error e => cases h
  | ok t =>
    dsimp only [bind, Except.bind] at h
    cases hc : t.check p.options with
    | error e =>
      rw [hc] at h
      cases h
    | ok t' =>
      rw [hc] at h
      cases h
      obtain ⟨rfl, -⟩ := check_ok hc
      exact ⟨t', rfl, hc, rfl⟩

theorem finalized (h : p.finalizeHeaders = .ok q) : Finalized p q := by
  obtain ⟨t, -, hc, rfl⟩ := finalizeHeaders_ok h
  obtain ⟨-, -, -, hl⟩ := check_ok hc
  exact ⟨rfl, rfl, rfl, rfl, rfl, rfl, hl⟩

/-- `Complete` copies nothing for a chunked body or an empty one. -/
theorem complete_taken {p : HttpRequestParser} (h : p.contentLength = 0 ∨ p.hasChunked = true) :
    p.complete input = .done p.reset {
      status := .complete
      consumedBytes := if p.hasChunked then p.scanOffset else p.bodyOffset + p.contentLength
      request := p.request } := by
  unfold complete
  rw [if_neg]
  rintro ⟨hlen, hc⟩
  rcases h with h | h
  · exact hlen h
  · rw [h] at hc
    cases hc

theorem complete_copied {p : HttpRequestParser}
    (hlen : p.contentLength ≠ 0) (hc : p.hasChunked = false)
    (hf : p.bodyOffset + p.contentLength ≤ input.bytes.length) :
    p.complete input = .done p.reset {
      status := .complete
      consumedBytes := p.bodyOffset + p.contentLength
      request := { p.request with
        body := slice input.bytes p.bodyOffset (p.bodyOffset + p.contentLength) } } := by
  have hs := input.bytes_lt
  unfold complete
  rw [if_pos ⟨hlen, hc⟩, resize, if_neg (by omega), input.copyTo_eq _ _ hf, hc]
  rfl

section Rounds
variable {p q : HttpRequestParser}

theorem turned_requestLine (hp : p.state = .requestLine) (hr : Read p q line input.bytes) :
    Turned input p (q.onRequestLine line) := by
  unfold onRequestLine
  cases hli : line.status with
  | incomplete => exact .done _ hr.sound hr.inside (.waits (hr.waits hli))
  | limitExceeded => exact .fail hr.sound hr.inside
  | error => exact .fail hr.sound hr.inside
  | complete =>
    dsimp only
    cases hpa : parseRequestLine q.request line.value with
    | error e => exact .fail hr.sound hr.inside
    | ok request =>
      obtain ⟨hb, -⟩ := parseRequestLine_keeps hpa
      obtain ⟨he, hl, hch⟩ :=
        (shape_requestLine (hr.state.trans hp)).mp hr.sound.shape
      refine .next ⟨hr.sound.line, hr.sound.small, hr.sound.headerBytes, ?_⟩ hr.inside
        nofun (Or.inl (hr.taken hli).1) ?_
        (.ofHead (Or.inl hp) hr.options (hr.taken hli).2)
      · exact (shape_headers rfl).mpr ⟨hb.trans he, hl, hch⟩
      · rw [← hr.request, he]
        exact List.nil_prefix

/-- Where `Complete` is called with no octets to copy, it returns. -/
theorem turned_taken (hp : p.state = .headers ∨ p.state = .body ∨ p.state = .chunkEnd)
    (h : q.contentLength = 0 ∨ q.hasChunked = true) : Turned input p (q.complete input) := by
  rw [complete_taken h]
  exact .done _ (Sound.reset q) (Nat.zero_le _) (.completes hp)

theorem turned_enterBody (hs : p.state = .headers) (ho : q.options = p.options)
    (hf : q.lineStart = q.scanOffset) (hi : q.scanOffset ≤ input.bytes.length)
    (hby : q.headerBytes ≤ q.options.maximumHeaderBytes.toNat)
    (hpr : p.scanOffset + 2 ≤ q.scanOffset) (hbo : q.request.body = [])
    (hp : p.request.body = []) (hli : q.contentLength < 2 ^ 64) :
    Turned input p (q.enterBody input) := by
  have hsm := Nat.lt_of_le_of_lt hi input.bytes_lt
  unfold enterBody
  dsimp only
  by_cases hz : (!q.hasChunked && q.contentLength == 0) = true
  · rw [if_pos hz]
    simp only [Bool.and_eq_true, beq_iff_eq] at hz
    exact turned_taken (Or.inl hs) (Or.inl hz.2)
  rw [if_neg hz]
  -- the parser that goes on to the body, and what it can be
  generalize hnew : ({ q with
    bodyOffset := q.scanOffset
    expectContinueSent := q.expectContinueSent || (q.expectContinue && !q.expectContinueSent)
    state := if q.hasChunked then .chunkHead else .body } : HttpRequestParser) = new
  have hg : Sound new ∧ new.state ≠ .error ∧ Beyond new ∧
      new.scanOffset = q.scanOffset ∧ Moved p new := by
    subst hnew
    cases hch : q.hasChunked with
    | true =>
      refine ⟨⟨hf.le, hsm, hby, (shape_chunk (Or.inl rfl)).mpr ⟨rfl, ?_⟩⟩,
        nofun, (beyond_of .chunkHead rfl (by decide)), rfl,
        .ofHead (Or.inr hs) ho hf⟩
      rw [hbo]
      exact Nat.zero_le _
    | false =>
      refine ⟨⟨hf.le, hsm, hby, (shape_body rfl).mpr ⟨rfl, ?_, hli⟩⟩,
        nofun, (beyond_of .body rfl (by decide)), rfl,
        .ofHead (Or.inr hs) ho hf⟩
      intro hl
      rw [hch, hl] at hz
      exact hz rfl
  obtain ⟨hso, hlv, hbe, hsa, hm⟩ := hg
  split
  · refine .done _ hso (hsa ▸ hi) (.announces hlv (hsa ▸ hpr) hm ?_ hbe)
    exact fun hb => hb.2 hs
  · refine .next hso (hsa ▸ hi) hlv (Or.inl (hsa ▸ hpr)) ?_ hm
    rw [hp]
    exact List.nil_prefix

theorem turned_takeHeaderLine (hs : Sound q) (hst : p.state = .headers)
    (hq : q.state = .headers) (ho : q.options = p.options)
    (hfl : q.lineStart = q.scanOffset) (hi : q.scanOffset ≤ input.bytes.length)
    (hpr : p.scanOffset + 2 ≤ q.scanOffset)
    (hp : p.request.body = []) : Turned input p (q.takeHeaderLine input value) := by
  obtain ⟨he, hl, hch⟩ := (shape_headers hq).mp hs.shape
  unfold takeHeaderLine
  split
  · cases hfin : q.finalizeHeaders with
    | error e => exact .fail hs hi
    | ok r =>
      have hf := finalized hfin
      refine turned_enterBody hst (hf.options.trans ho) ?_ ?_ ?_ ?_ (hf.body.trans he) hp ?_
      · rw [hf.lineStart, hf.scanOffset]
        exact hfl
      · rw [hf.scanOffset]
        exact hi
      · rw [hf.headerBytes, hf.options]
        exact hs.headerBytes
      · rw [hf.scanOffset]
        exact hpr
      · exact Nat.lt_of_le_of_lt hf.limited (UInt64.toNat_lt _)
  split
  · exact .fail hs hi
  split
  · exact .fail hs hi
  · rename_i request hpa
    refine .next ⟨hs.line, hs.small, hs.headerBytes, ?_⟩ hi ?_ (Or.inl hpr) ?_
      (.ofHead (Or.inr hst) ho hfl)
    · refine (shape_headers ?_).mpr ⟨(parseHeaderLine_keeps hpa).1.trans he, hl, hch⟩
      exact hq
    · intro hc
      cases hq.symm.trans hc
    · rw [hp]
      exact List.nil_prefix

theorem turned_headers (hp : p.state = .headers) (hr : Read p q line input.bytes) :
    Turned input p (q.onHeaderLine input line) := by
  have hs := hr.state.trans hp
  have hsh := (shape_headers hs).mp hr.sound.shape
  unfold onHeaderLine
  cases hl : line.status with
  | incomplete => exact .done _ hr.sound hr.inside (.waits (hr.waits hl))
  | limitExceeded => exact .fail hr.sound hr.inside
  | error => exact .fail hr.sound hr.inside
  | complete =>
    dsimp only
    split
    · exact .fail hr.sound hr.inside
    rename_i hro
    have hb : q.headerBytes + (line.value.length + 2) ≤ q.options.maximumHeaderBytes.toNat := by
      have := hr.sound.headerBytes
      omega
    refine turned_takeHeaderLine ?_ hp ?_ ?_ ?_ ?_ ?_ ?_
    · refine ⟨hr.sound.line, hr.sound.small, hb, (shape_headers ?_).mpr hsh⟩
      exact hs
    · exact hs
    · exact hr.options
    · exact (hr.taken hl).2
    · exact hr.inside
    · exact (hr.taken hl).1
    · rw [← hr.request]
      exact hsh.1

theorem turned_chunkHead (hp : p.state = .chunkHead) (hr : Read p q line input.bytes) :
    Turned input p (q.onChunkHead line) := by
  obtain ⟨hch, hb⟩ := (shape_chunk (Or.inl (hr.state.trans hp))).mp hr.sound.shape
  unfold onChunkHead
  cases hl : line.status with
  | incomplete => exact .done _ hr.sound hr.inside (.waits (hr.waits hl))
  | error => exact .fail hr.sound hr.inside
  | limitExceeded =>
    rw [hr.kept (by rw [hl]; exact nofun)]
    exact .fail hr.sound hr.inside
  | complete =>
    obtain ⟨hpr, hs⟩ := hr.taken hl
    dsimp only
    cases hhex : parseHexSize (skipChunkExtension line.value) with
    | none => exact .fail hr.sound hr.inside
    | some size =>
      have hpre : p.request.body <+: q.request.body := hr.request ▸ List.prefix_rfl
      dsimp only
      by_cases hz : size = 0
      · rw [if_pos hz]
        refine .next ⟨hr.sound.line, hr.sound.small, hr.sound.headerBytes, ?_⟩ hr.inside
          nofun (Or.inl hpr) hpre
          (.ofBody hr.options (beyond_of .chunkTrailer rfl (by decide)) fun _ => hs)
        exact (shape_chunk (Or.inr (Or.inl rfl))).mpr ⟨hch, hb⟩
      · rw [if_neg hz]
        refine .next ⟨hr.sound.line, hr.sound.small, hr.sound.headerBytes, ?_⟩ hr.inside
          nofun (Or.inl hpr) hpre
          (.ofBody hr.options (beyond_of .chunkBody rfl (by decide)) fun _ => hs)
        exact (shape_chunkBody rfl).mpr ⟨hch, hb, hs, rfl, Nat.pos_of_ne_zero hz,
          parseHexSize_lt hhex⟩

theorem turned_chunkTrailer (hp : p.state = .chunkTrailer)
    (hr : Read p q line input.bytes) : Turned input p (q.onChunkTrailer line) := by
  have hs := hr.state.trans hp
  have hsh := (shape_chunk (Or.inr (Or.inl hs))).mp hr.sound.shape
  have hpr : p.request.body <+: q.request.body := hr.request ▸ List.prefix_rfl
  have hend : Sound { q with state := .chunkEnd } :=
    ⟨hr.sound.line, hr.sound.small, hr.sound.headerBytes,
      (shape_chunk (Or.inr (Or.inr rfl))).mpr hsh⟩
  have hm : Moved p { q with state := .chunkEnd } := by
    refine .ofBody hr.options (beyond_of .chunkEnd rfl (by decide)) ?_
    rintro (hc | hc | hc | hc)
    all_goals cases hc
  unfold onChunkTrailer
  cases hl : line.status with
  | incomplete => exact .done _ hr.sound hr.inside (.waits (hr.waits hl))
  | error => exact .fail hr.sound hr.inside
  | limitExceeded =>
    rw [hr.kept (by rw [hl]; exact nofun)]
    exact .next hend hr.inside nofun (Or.inr ⟨hp, rfl, hr.still hl⟩) hpr hm
  | complete =>
    dsimp only
    split
    · exact .next hend hr.inside nofun (Or.inl (hr.taken hl).1) hpr hm
    · refine .next hr.sound hr.inside ?_ (Or.inl (hr.taken hl).1) hpr
        (.ofBody hr.options (beyond_of _ hs (by decide)) fun _ => (hr.taken hl).2)
      intro hc
      cases hs.symm.trans hc

theorem turned_body (hs : Sound p) (hp : p.state = .body)
    (hi : p.scanOffset ≤ input.bytes.length) : Turned input p (p.onBody input) := by
  obtain ⟨hc, hl, -⟩ := (shape_body hp).mp hs.shape
  have hat := not_atLine (Or.inl hp)
  unfold onBody
  split
  · exact .fail hs hi
  split
  · exact .done _ hs hi (.waits (.data hat))
  · rename_i hf
    rw [BufferSequence.size_eq] at hf
    rw [complete_copied hl hc (Nat.le_of_not_lt hf)]
    exact .done _ (Sound.reset p) (Nat.zero_le _) (.completes (Or.inr (Or.inl hp)))

theorem resize_grown (h : body.length + count < 2 ^ 63) :
    ∃ resized, resize body (body.length + count) = .ok resized ∧ resized.take body.length = body := by
  refine ⟨body ++ List.replicate count 0, ?_, List.take_left⟩
  rw [resize, if_neg (Nat.not_le.mpr h), List.take_of_length_le (Nat.le_add_right _ _),
    Nat.add_sub_cancel_left]

theorem resize_length (h : resize body size = .ok resized) :
    resized.length = size ∧ size < 2 ^ 63 := by
  unfold resize at h
  split at h
  · cases h
  · rename_i hs
    cases h
    rw [List.length_append, List.length_take, List.length_replicate]
    omega

def chunkTaken (p : HttpRequestParser) (bytes : Octets) : HttpRequestParser :=
  let data := slice bytes p.chunkBodyOffset (p.chunkBodyOffset + p.chunkSize)
  { p with
    request := { p.request with body := p.request.body ++ data }
    scanOffset := p.chunkBodyOffset + p.chunkSize + 2
    lineStart := p.chunkBodyOffset + p.chunkSize + 2
    state := .chunkHead }

/-- A chunk that ends within `SIZE_MAX`: wait, refuse, or take it. -/
theorem chunkBody_fits (hs : Sound p) (hp : p.state = .chunkBody)
    (hi : p.scanOffset ≤ input.bytes.length)
    (hf : p.chunkBodyOffset + p.chunkSize + 2 < 2 ^ 64) :
    p.onChunkBody input =
      if input.bytes.length < p.chunkBodyOffset + p.chunkSize + 2 then .done p {}
      else if p.request.body.length + p.chunkSize > p.options.maximumBodyBytes.toNat then
        p.fail .bodyTooLarge
      else .next (chunkTaken p input.bytes) := by
  obtain ⟨-, hb, hl, ho, -, -⟩ := (shape_chunkBody hp).mp hs.shape
  have hsi := input.bytes_lt
  have hend : wrap (p.chunkBodyOffset + p.chunkSize + 2) = p.chunkBodyOffset + p.chunkSize + 2 :=
    Nat.mod_eq_of_lt hf
  have hsum : wrap (p.request.body.length + p.chunkSize) = p.request.body.length + p.chunkSize :=
    Nat.mod_eq_of_lt (by omega)
  unfold onChunkBody
  dsimp only
  rw [hend, hsum, BufferSequence.size_eq]
  split
  · rfl
  rename_i hin
  split
  · rfl
  obtain ⟨resized, hr, ht⟩ : ∃ resized,
      resize p.request.body (p.request.body.length + p.chunkSize) = .ok resized ∧
        resized.take p.request.body.length = p.request.body :=
    resize_grown (by omega)
  rw [hr, input.copyTo_eq _ _ (by omega)]
  dsimp only
  rw [ht]
  rfl

def chunkThrown (p : HttpRequestParser) : Turn :=
  match resize p.request.body (wrap (p.request.body.length + p.chunkSize)) with
  | .error e => .thrown p e
  | .ok resized => .thrown { p with request := { p.request with body := resized } }
      (.outOfRange "BufferSequence copy 범위가 readable byte를 넘습니다")

/-- A chunk that ends beyond `SIZE_MAX`: wait, refuse, or throw. -/
theorem chunkBody_overflows (hs : Sound p) (hp : p.state = .chunkBody)
    (hi : p.scanOffset ≤ input.bytes.length)
    (hov : 2 ^ 64 ≤ p.chunkBodyOffset + p.chunkSize + 2) :
    p.onChunkBody input =
      if input.bytes.length < p.chunkBodyOffset + p.chunkSize + 2 - 2 ^ 64 then .done p {}
      else if wrap (p.request.body.length + p.chunkSize) > p.options.maximumBodyBytes.toNat then
        p.fail .bodyTooLarge
      else chunkThrown p := by
  obtain ⟨-, -, -, ho, -, hc⟩ := (shape_chunkBody hp).mp hs.shape
  have hsi := input.bytes_lt
  have hend : wrap (p.chunkBodyOffset + p.chunkSize + 2) =
      p.chunkBodyOffset + p.chunkSize + 2 - 2 ^ 64 := by
    unfold wrap
    omega
  have hco := input.copyTo_outside p.chunkBodyOffset p.chunkSize (by omega)
  unfold onChunkBody chunkThrown
  cases hr : resize p.request.body (wrap (p.request.body.length + p.chunkSize)) with
  | error e => simp only [hend, hr, BufferSequence.size_eq]
  | ok resized => simp only [hend, hr, hco, BufferSequence.size_eq]

theorem chunkThrown_thrown (hs : Sound p) (hp : p.state = .chunkBody)
    (hov : 2 ^ 64 ≤ p.chunkBodyOffset + p.chunkSize + 2) :
    ∃ q e, chunkThrown p = .thrown q e ∧ Sound q := by
  obtain ⟨hc, hb, hln, ho, hpos, hch⟩ := (shape_chunkBody hp).mp hs.shape
  unfold chunkThrown
  cases hr : resize p.request.body (wrap (p.request.body.length + p.chunkSize)) with
  | error e => exact ⟨p, e, rfl, hs⟩
  | ok resized =>
    obtain ⟨hl, hli⟩ := resize_length hr
    refine ⟨_, _, rfl, hs.line, hs.small, hs.headerBytes, (shape_chunkBody ?_).mpr ?_⟩
    · exact hp
    · refine ⟨hc, ?_, hln, ho, hpos, hch⟩
      unfold wrap at hl hli
      dsimp only
      omega

theorem turned_chunkBody (hs : Sound p) (hp : p.state = .chunkBody)
    (hi : p.scanOffset ≤ input.bytes.length) : Turned input p (p.onChunkBody input) := by
  obtain ⟨hch, hb, hl, ho, hpos, hchu⟩ := (shape_chunkBody hp).mp hs.shape
  have hat := not_atLine (Or.inr hp)
  have hsi := input.bytes_lt
  rcases Nat.lt_or_ge (p.chunkBodyOffset + p.chunkSize + 2) (2 ^ 64) with hf | hov
  · rw [chunkBody_fits hs hp hi hf]
    split
    · exact .done _ hs hi (.waits (.data hat))
    split
    · exact .fail hs hi
    · rename_i hin _
      refine .next ⟨Nat.le_refl _, ?_, hs.headerBytes, ?_⟩ (Nat.le_of_not_lt hin) ?_
        (Or.inl ?_) (List.prefix_append _ _)
        (.ofBody rfl (beyond_of .chunkHead rfl (by decide)) fun _ => rfl)
      · exact Nat.lt_of_le_of_lt (Nat.le_of_not_lt hin) hsi
      · refine (shape_chunk (Or.inl rfl)).mpr ⟨hch, ?_⟩
        unfold chunkTaken
        dsimp only
        rw [List.length_append, slice_length _ _ _ (by omega)]
        omega
      · exact fun hc => by cases (show ParserState.chunkHead = .error from hc)
      · unfold chunkTaken
        dsimp only
        omega
  · rw [chunkBody_overflows hs hp hi hov]
    split
    · exact .done _ hs hi (.waits (.data hat))
    split
    · exact .fail hs hi
    · rename_i hin hmax
      obtain ⟨q, e, ht, hq⟩ := chunkThrown_thrown hs hp hov
      rw [ht]
      exact .thrown e hq ⟨hp, hov, Nat.le_of_not_lt hin, Nat.le_of_not_lt hmax⟩

/-- Every round of the loop. -/
theorem step_turned (hs : Sound p) (hl : p.state ≠ .error)
    (hi : p.scanOffset ≤ input.bytes.length) : Turned input p (p.step input) := by
  have hr := fun h => @read_found p input hs h hi
  cases hp : p.state with
  | requestLine =>
    have hat : AtLine p := Or.inl hp
    rw [step_line hat hs.line hi, onLine, (hr hat).state, hp]
    exact turned_requestLine hp (hr hat)
  | headers =>
    have hat : AtLine p := Or.inr (Or.inl hp)
    rw [step_line hat hs.line hi, onLine, (hr hat).state, hp]
    exact turned_headers hp (hr hat)
  | chunkHead =>
    have hat : AtLine p := Or.inr (Or.inr (Or.inl hp))
    rw [step_line hat hs.line hi, onLine, (hr hat).state, hp]
    exact turned_chunkHead hp (hr hat)
  | chunkTrailer =>
    have hat : AtLine p := Or.inr (Or.inr (Or.inr hp))
    rw [step_line hat hs.line hi, onLine, (hr hat).state, hp]
    exact turned_chunkTrailer hp (hr hat)
  | body =>
    rw [step_body hp]
    exact turned_body hs hp hi
  | chunkBody =>
    rw [step_chunkBody hp]
    exact turned_chunkBody hs hp hi
  | chunkEnd =>
    rw [step_chunkEnd hp]
    exact turned_taken (Or.inr (Or.inr hp))
      (Or.inr ((shape_chunk (Or.inr (Or.inr hp))).mp hs.shape).1)
  | error => exact absurd hp hl

end Rounds

/-- Where steps are unique, so is the end they come to. -/
theorem ends_same {α : Type} {r : α → α → Prop} {a b c : α} (hr : Relator.RightUnique r)
    (hab : Relation.ReflTransGen r a b) (hac : Relation.ReflTransGen r a c)
    (hb : ∀ d, ¬ r b d) (hc : ∀ d, ¬ r c d) : b = c := by
  rcases Relation.ReflTransGen.total_of_right_unique hr hab hac with h | h
  · rcases Relation.ReflTransGen.cases_head h with rfl | ⟨d, hd, -⟩
    · rfl
    · exact absurd hd (hb d)
  · rcases Relation.ReflTransGen.cases_head h with rfl | ⟨d, hd, -⟩
    · rfl
    · exact absurd hd (hc d)

section Runs
structure Live (input : BufferSequence) (p : HttpRequestParser) : Prop where
  sound : Sound p
  live : p.state ≠ .error
  inside : p.scanOffset ≤ input.bytes.length

theorem Live.data (h : Live input p) (hat : ¬ AtLine p) :
    p.state = .body ∨ p.state = .chunkBody ∨ p.state = .chunkEnd := by
  have hl := h.live
  unfold AtLine at hat
  cases hs : p.state <;> simp_all

def Goes (input : BufferSequence) (p q : HttpRequestParser) : Prop := p.step input = .next q

theorem Live.turned (h : Live input p) : Turned input p (p.step input) :=
  step_turned h.sound h.live h.inside

theorem Live.goes (h : Live input p) (hg : Goes input p q) : Live input q := by
  have ht := h.turned
  rw [hg] at ht
  cases ht with
  | next sound inside live => exact ⟨sound, live, inside⟩

theorem Live.reaches (h : Live input p) (hr : Relation.ReflTransGen (Goes input) p q) :
    Live input q := by
  induction hr with
  | refl => exact h
  | tail _ hg ih => exact ih.goes hg

def rank (size : Nat) (p : HttpRequestParser) : Nat :=
  2 * (size - p.scanOffset) + if p.state = .chunkEnd then 0 else 1

theorem Live.rank_lt (h : Live input p) (hg : Goes input p q) :
    rank input.bytes.length q < rank input.bytes.length p := by
  have ht := h.turned
  rw [hg] at ht
  cases ht with
  | next _ _ _ progress =>
    unfold rank
    rcases progress with hp | ⟨hp, hq, hs⟩
    · have hle : (if q.state = .chunkEnd then 0 else 1) ≤ 1 := by
        split
        · exact Nat.zero_le _
        · exact Nat.le_refl _
      have := h.inside
      omega
    · rw [if_pos hq, if_neg (by rw [hp]; exact nofun), hs]
      omega

inductive Ended (input : BufferSequence) (p : HttpRequestParser) :
    HttpRequestParser × Outcome → Prop
  | returned {q : HttpRequestParser} {result : HttpParseResult}
      (last : p.step input = .done q result) : Ended input p (q, .returned result)
  | thrown {q : HttpRequestParser} {e : Thrown} (last : p.step input = .thrown q e) :
      Ended input p (q, .thrown e)

/-- The rounds of the loop suffice. -/
theorem loop_ends (h : Live input p) (hr : rank input.bytes.length p < rounds) :
    ∃ q, Relation.ReflTransGen (Goes input) p q ∧ Ended input q (loop input rounds p) := by
  induction rounds generalizing p with
  | zero => exact absurd hr (Nat.not_lt_zero _)
  | succ rounds ih =>
    rw [loop]
    cases hs : p.step input with
    | next q =>
      obtain ⟨r, hre, hend⟩ := ih (h.goes hs)
        (Nat.lt_of_lt_of_le (h.rank_lt hs) (Nat.le_of_lt_succ hr))
      exact ⟨r, .head hs hre, hend⟩
    | done q result => exact ⟨p, .refl, .returned hs⟩
    | thrown q e => exact ⟨p, .refl, .thrown hs⟩

theorem parse_ends (h : Live input p) :
    ∃ q, Relation.ReflTransGen (Goes input) p q ∧ Ended input q (p.parse input) := by
  have hl := h.sound.line
  have hi := h.inside
  unfold parse
  rw [if_neg h.live, BufferSequence.size_eq, if_neg (by omega)]
  refine loop_ends h ?_
  unfold rank
  split
  · omega
  · omega

theorem goes_unique : Relator.RightUnique (Goes input) := by
  intro p q r hq hr
  cases hq.symm.trans hr
  rfl

theorem Ended.not_goes (h : Ended input p out) : ¬ Goes input p q := by
  intro hg
  cases h with
  | returned last => cases last.symm.trans hg
  | thrown last => cases last.symm.trans hg

theorem Ended.unique (h : Ended input p out) (h' : Ended input p out') : out = out' := by
  cases h with
  | returned last =>
    cases h' with
    | returned last' =>
      cases last.symm.trans last'
      rfl
    | thrown last' => cases last.symm.trans last'
  | thrown last =>
    cases h' with
    | returned last' => cases last.symm.trans last'
    | thrown last' =>
      cases last.symm.trans last'
      rfl

/-- The loop has one way to go, so its last round decides the call. -/
theorem parse_eq (h : Live input p)
    (hr : Relation.ReflTransGen (Goes input) p q) (he : Ended input q out) :
    p.parse input = out := by
  obtain ⟨q', hr', he'⟩ := parse_ends h
  cases ends_same goes_unique hr hr' (fun _ => he.not_goes) (fun _ => he'.not_goes)
  exact he'.unique he

end Runs

end IocpRuntime.Proofs.ParserSteps
