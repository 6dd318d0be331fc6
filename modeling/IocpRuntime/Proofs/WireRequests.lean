import Mathlib.Data.List.DropRight
import IocpRuntime.Lib.Search
import IocpRuntime.Proofs.ChunkedFraming
import IocpRuntime.Proofs.MessageCalls

namespace IocpRuntime.Proofs.WireRequests
open Lib Lib.Lines Buffer Http HttpRequestParser ParserSteps ParserSegments
open HeaderFraming ChunkedFraming MessageCalls
open Relation

variable {options : HttpParserOptions}

section Wire

structure FieldLine where
  name : Octets
  value : Octets
  filled : name ≠ []
  token : ∀ c ∈ name, isTokenCharacter c = true
  text : ∀ c ∈ value, c = 9 ∨ (32 ≤ c ∧ c ≠ 127)

def FieldLine.line (f : FieldLine) : Octets := f.name ++ 58 :: f.value

def FieldLine.header (f : FieldLine) : HttpHeader :=
  ⟨lowercase f.name, trimOptionalWhitespace f.value⟩

/-- A chunk with the line in front of it: a hexadecimal size, and perhaps extensions. -/
structure Chunk where
  line : Octets
  data : Octets
  filled : data ≠ []
  clean : Clean line
  size : SizeLine line data.length
  short : line.length ≤ 256

structure LastChunk where
  line : Octets
  clean : Clean line
  size : SizeLine line 0
  short : line.length ≤ 256

inductive Content where
  /-- Framed by a Content-Length, or empty without one. -/
  | plain (body : Octets)
  | chunked (chunks : List Chunk) (last : LastChunk)

def Content.body : Content → Octets
  | .plain body => body
  | .chunked chunks _ => chunks.flatMap Chunk.data

def chunksThen (chunks : List Chunk) (last : LastChunk) : Octets :=
  chunks.foldr (fun chunk rest => lineThen chunk.line (lineThen chunk.data rest))
    (lineThen last.line (lineThen [] []))

def Content.encode : Content → Octets
  | .plain body => body
  | .chunked chunks last => chunksThen chunks last

def fieldsThen (fields : List FieldLine) (rest : Octets) : Octets :=
  fields.foldr (fun field rest => lineThen field.line rest) (lineThen [] rest)

def decimalStep (n : Nat) (c : UInt8) : Option Nat :=
  ((octets "0123456789").idxOf? c).map (fun digit => n * 10 + digit)

def Decimal (text : Octets) (n : Nat) : Prop := text ≠ [] ∧ text.foldlM decimalStep 0 = some n

/-- The headers frame the content: no coding and at most one length, which is the right one,
or no length and the coding `chunked`. -/
def Framed (headers : List HttpHeader) : Content → Prop
  | .plain body =>
    headers.countP (named "transfer-encoding") = 0 ∧
      headers.countP (named "content-length") ≤ 1 ∧
      (headers.countP (named "content-length") = 0 → body = []) ∧
      ∀ h ∈ headers, named "content-length" h = true → Decimal h.value body.length
  | .chunked _ _ =>
    headers.countP (named "content-length") = 0 ∧
      0 < headers.countP (named "transfer-encoding") ∧
      ∀ h ∈ headers, named "transfer-encoding" h = true →
        octets "chunked" ∈ listElements h.value

/-- Without a length and a coding there is no content. -/
theorem framed_empty (hc : headers.countP (named "transfer-encoding") = 0)
    (hl : headers.countP (named "content-length") = 0) : Framed headers (.plain []) :=
  ⟨hc, hl.le.trans (Nat.zero_le 1), fun _ => rfl,
    fun h hh hn => absurd hn (List.countP_eq_zero.mp hl h hh)⟩

structure WireRequest where
  method : Octets
  target : Octets
  fields : List FieldLine
  content : Content
  method_filled : method ≠ []
  method_token : ∀ c ∈ method, isTokenCharacter c = true
  origin : target.head? = some 47
  target_text : ∀ c ∈ target, c ≠ 32 ∧ c ≠ 35 ∧ c ≠ 13 ∧ c ≠ 10
  host : (fields.map FieldLine.header).countP (named "host") = 1
  host_filled : ∀ f ∈ fields, named "host" f.header = true → f.header.value ≠ []
  framed : Framed (fields.map FieldLine.header) content
  /-- As every object in memory. -/
  addressable : (lineThen (method ++ 32 :: (target ++ 32 :: octets "HTTP/1.1"))
    (fieldsThen fields content.encode)).length < 2 ^ 63

namespace WireRequest

variable (r : WireRequest)

def headers : List HttpHeader := r.fields.map FieldLine.header

def startLine : Octets := r.method ++ 32 :: (r.target ++ 32 :: octets "HTTP/1.1")

def encode : Octets := lineThen r.startLine (fieldsThen r.fields r.content.encode)

def headerBytes : Nat := (fieldsThen r.fields []).length

def closes : Bool :=
  r.headers.any (fun h => named "connection" h && headerContainsToken h.value (octets "close"))

def request : HttpRequest where
  method := parseMethod r.method
  methodText := r.method
  target := r.target
  path := r.target.takeWhile (· ≠ 63)
  query := (r.target.dropWhile (· ≠ 63)).drop 1
  headers := r.headers
  body := r.content.body
  keepAlive := !r.closes

structure Within (options : HttpParserOptions) : Prop where
  line : r.startLine.length ≤ options.maximumRequestLineBytes.toNat
  header : r.headerBytes ≤ options.maximumHeaderBytes.toNat
  count : r.fields.length ≤ options.maximumHeaderCount.toNat
  body : r.content.body.length ≤ options.maximumBodyBytes.toNat

end WireRequest

end Wire

section Lines

theorem token_ne (hc : isTokenCharacter c = true) (hx : isTokenCharacter x = false) : c ≠ x := by
  rintro rfl
  cases hc.symm.trans hx

/-- A request line is read as it was written. -/
theorem parseRequestLine_startLine (r : WireRequest) :
    parseRequestLine {} r.startLine = .ok {
      method := parseMethod r.method
      methodText := r.method
      target := r.target
      path := r.target.takeWhile (· ≠ 63)
      query := (r.target.dropWhile (· ≠ 63)).drop 1 } := by
  have hm : (32 : UInt8) ∉ r.method := fun h => token_ne (r.method_token _ h) (by decide) rfl
  have ht : (32 : UInt8) ∉ r.target := fun h => (r.target_text _ h).1 rfl
  have hd : r.startLine.drop (r.method.length + 1) = r.target ++ 32 :: octets "HTTP/1.1" := by
    rw [WireRequest.startLine, ← List.drop_drop, List.drop_left]
    rfl
  have hv : r.startLine.drop (r.target.length + (r.method.length + 1) + 1) = octets "HTTP/1.1" := by
    rw [Nat.add_comm r.target.length, Nat.add_assoc, ← List.drop_drop, hd, ← List.drop_drop,
      List.drop_left]
    rfl
  have hfi : find r.startLine 32 0 = some (r.method.length + 0) :=
    find_split (by rw [List.drop_zero]; rfl) hm
  have hse := find_split hd ht
  have hth : find r.startLine 32 (r.target.length + (r.method.length + 1) + 1) = none := by
    apply find_absent
    rw [hv]
    decide
  have hsl : slice r.startLine (r.method.length + 1) (r.target.length + (r.method.length + 1)) =
      r.target := by
    rw [slice, hd, Nat.add_sub_cancel, List.take_left]
  have hta : r.startLine.take r.method.length = r.method := List.take_left
  have hl : r.startLine.length = r.method.length + (r.target.length + 10) := by
    simp only [WireRequest.startLine, List.length_append, List.length_cons]
    rfl
  have hf : r.method.length ≠ 0 := mt List.length_eq_zero_iff.mp r.method_filled
  have hso : r.target ≠ [] := by
    intro hnil
    have ho := r.origin
    rw [hnil] at ho
    cases ho
  have hsh : find r.target 35 = none :=
    find_absent (fun h => (r.target_text _ (List.mem_of_mem_drop h)).2.1 rfl)
  have hs : r.target.takeWhile (· ≠ 63) ≠ [] := by
    cases ht : r.target with
    | nil => exact absurd ht hso
    | cons c rest =>
      have ho := r.origin
      rw [ht] at ho
      cases ho
      rw [List.takeWhile_cons_of_pos (by decide)]
      exact List.cons_ne_nil _ _
  have hlen : r.target.length ≠ 0 := mt List.length_eq_zero_iff.mp hso
  unfold parseRequestLine
  rw [hfi]
  dsimp only [Nat.add_zero]
  rw [hse]
  dsimp only
  rw [hth, hv, hta, hsl, hsh, r.origin, if_neg, if_neg, if_neg, if_neg]
  · rcases find_around with ⟨hn, hp, hq⟩ | ⟨i, hfo, hp, hq⟩
    · rw [hn]
      dsimp only
      rw [hp, if_neg hso, hq]
    · rw [hfo]
      dsimp only
      rw [hp] at hs
      rw [if_neg hs, hp, hq]
  · rintro (h | h | h)
    · exact hso h
    · exact h rfl
    · cases h
  · exact fun h => h rfl
  · rw [List.all_eq_true.mpr r.method_token]
    decide
  · rintro (h | h | h | h)
    · exact hf h
    · omega
    · omega
    · cases h

theorem FieldLine.clean (f : FieldLine) : Clean f.line := by
  intro c hc
  rcases List.mem_append.mp hc with hn | hv
  · have ht := f.token c hn
    exact ⟨token_ne ht (by decide), token_ne ht (by decide)⟩
  · rcases List.mem_cons.mp hv with rfl | hv
    · decide
    · rcases f.text c hv with rfl | ⟨hc, -⟩
      · decide
      · constructor
        · rintro rfl
          revert hc
          decide
        · rintro rfl
          revert hc
          decide

theorem mem_trim (h : c ∈ trimOptionalWhitespace value) : c ∈ value := by
  unfold trimOptionalWhitespace at h
  have h1 := List.dropWhile_suffix _ |>.subset (List.mem_reverse.mp h)
  exact List.dropWhile_suffix _ |>.subset (List.mem_reverse.mp h1)

/-- A header line adds its header. -/
theorem parseHeaderLine_line (request : HttpRequest) (f : FieldLine) :
    parseHeaderLine request f.line = .ok { request with headers := request.headers ++ [f.header] } := by
  have hn : (58 : UInt8) ∉ f.name := fun h => token_ne (f.token _ h) (by decide) rfl
  have hco : find f.line 58 0 = some (f.name.length + 0) :=
    find_split (by rw [List.drop_zero]; rfl) hn
  have ht : f.line.take f.name.length = f.name := List.take_left
  have hdr : f.line.drop (f.name.length + 1) = f.value := by
    rw [FieldLine.line, ← List.drop_drop, List.drop_left]
    rfl
  have hte : (trimOptionalWhitespace f.value).any
      (fun byte => (byte < 0x20 && byte != 9) || byte == 0x7f) = false := by
    rw [List.any_eq_false]
    intro c hc
    rcases f.text c (mem_trim hc) with rfl | ⟨hc, hd⟩
    · decide
    · have hnot : ¬ c < 32 := UInt8.not_lt.mpr hc
      simp [hnot, hd]
  unfold parseHeaderLine
  rw [hco]
  dsimp only [Nat.add_zero]
  rw [ht, hdr, if_neg (mt List.length_eq_zero_iff.mp f.filled), List.all_eq_true.mpr f.token, hte]
  rfl

end Lines

section Numbers

theorem parseHexSize_line (h : SizeLine line size) (hsi : size < 2 ^ 64) :
    parseHexSize (skipChunkExtension line) = some size := by
  rw [skipChunkExtension_eq]
  exact parseHexSize_iff.mpr ⟨h.1, h.2, hsi⟩

theorem decimal_digit : (octets "0123456789").idxOf? c =
    if c < 48 ∨ c > 57 then none else some (c - 48).toNat := by
  have hall : ∀ n : Fin 256, (octets "0123456789").idxOf? (UInt8.ofNat n) =
      if UInt8.ofNat n < 48 ∨ UInt8.ofNat n > 57 then none
      else some (UInt8.ofNat n - 48).toNat := by decide +kernel
  have hc := hall ⟨c.toNat, c.toNat_lt⟩
  rwa [UInt8.ofNat_toNat] at hc

theorem decimalDigit_iff : decimalDigit n c = some m ↔ decimalStep n c = some m ∧ m < 2 ^ 64 := by
  unfold decimalDigit decimalStep
  rw [decimal_digit]
  split
  · simp
  · rename_i hr
    have hlt := c.toNat_lt
    have hs : (c - 48).toNat < 2 ^ 64 := Nat.lt_trans (c - 48).toNat_lt (by decide)
    simp only [Option.map_some, Option.ite_none_left_eq_some, Option.some.injEq]
    omega

theorem parseDecimalSize_iff : parseDecimalSize text = some size ↔ Decimal text size ∧ size < 2 ^ 64 := by
  rw [parseDecimalSize, Option.ite_none_left_eq_some, Decimal, and_assoc]
  refine and_congr_right fun _ => foldlM_iff ?_ (fun _ _ _ => decimalDigit_iff) (by decide)
  intro n c m hs
  obtain ⟨digit, -, rfl⟩ := Option.map_eq_some_iff.mp hs
  omega

def Hexadecimal (text : Octets) (n : Nat) : Prop := text ≠ [] ∧ text.foldlM digitStep 0 = some n

/-- Both parsers accept the numbers below `2 ^ 64` and nothing else, and stay within the word. -/
theorem size_parsers_exact (value : Octets) :
    (∀ size, parseDecimalSize value = some size ↔ Decimal value size ∧ size < 2 ^ 64) ∧
      (∀ size, parseHexSize value = some size ↔ Hexadecimal value size ∧ size < 2 ^ 64) ∧
      ∀ parsed c next,
        (decimalDigit parsed c = some next ↔ decimalStep parsed c = some next ∧ next < 2 ^ 64) ∧
        (hexStep parsed c = some next ↔ digitStep parsed c = some next ∧ next < 2 ^ 64) := by
  refine ⟨fun _ => parseDecimalSize_iff, fun _ => ?_, fun _ _ _ => ⟨decimalDigit_iff, hexStep_iff⟩⟩
  rw [parseHexSize_iff, Hexadecimal, and_assoc]

theorem trim_trim :
    trimOptionalWhitespace (trimOptionalWhitespace value) = trimOptionalWhitespace value := by
  have hp : trimOptionalWhitespace value <+: value.dropWhile isBlank :=
    List.rdropWhile_prefix isBlank _
  have hr : (trimOptionalWhitespace value).rdropWhile isBlank = trimOptionalWhitespace value :=
    List.rdropWhile_idempotent isBlank _
  have hl : (trimOptionalWhitespace value).dropWhile isBlank = trimOptionalWhitespace value := by
    cases ht : trimOptionalWhitespace value with
    | nil => rfl
    | cons c rest =>
      rw [ht] at hp
      obtain ⟨more, hm⟩ := hp
      have hh := List.head?_dropWhile_not isBlank value
      rw [← hm] at hh
      exact List.dropWhile_cons_of_neg (Bool.eq_false_iff.mp hh)
  conv_lhs => rw [trimOptionalWhitespace, hl]
  exact hr

end Numbers

section Head

def Content.length : Content → Nat
  | .plain body => body.length
  | .chunked _ _ => 0

def Content.coded : Content → Bool
  | .plain _ => false
  | .chunked _ _ => true

theorem add_close {t t' : HeaderTally} (hadd : t.add h = .ok t') :
    t'.connectionClose = (t.connectionClose ||
      (named "connection" h && headerContainsToken h.value (octets "close"))) := by
  have ho : ∀ {other : String}, h.name = octets other → octets other ≠ octets "connection" →
      (named "connection" h && headerContainsToken h.value (octets "close")) = false := by
    intro other hna hne
    rw [named_other "connection" hna hne, Bool.false_and]
  unfold HeaderTally.add at hadd
  split at hadd
  · rename_i hna
    split at hadd
    · cases hadd
    · cases hadd
      rw [ho hna (by decide), Bool.or_false]
  split at hadd
  · rename_i hna
    split at hadd
    · cases hadd
    · cases hadd
      rw [ho hna (by decide), Bool.or_false]
  split at hadd
  · rename_i hna
    split at hadd
    · cases hadd
    · split at hadd
      · cases hadd
      · cases hadd
        rw [ho hna (by decide), Bool.or_false]
  split at hadd
  · rename_i hna
    cases hadd
    rw [named_self hna, Bool.true_and]
  · rename_i hna
    have hn : named "connection" h = false := named_ne hna
    split at hadd
    · cases hadd
      rw [hn, Bool.false_and, Bool.or_false]
    · cases hadd
      rw [hn, Bool.false_and, Bool.or_false]

theorem fold_close {headers : List HttpHeader}
    (h : headers.foldlM HeaderTally.add t = .ok t') :
    t'.connectionClose = (t.connectionClose || headers.any (fun h =>
      named "connection" h && headerContainsToken h.value (octets "close"))) := by
  induction headers generalizing t with
  | nil =>
    cases h
    exact (Bool.or_false _).symm
  | cons header headers ih =>
    rw [List.foldlM_cons] at h
    cases hadd : t.add header with
    | error e =>
      rw [hadd] at h
      cases h
    | ok mid =>
      rw [hadd] at h
      rw [ih h, add_close hadd, List.any_cons, Bool.or_assoc]

theorem lengths_sum {headers : List HttpHeader}
    (h : ∀ header ∈ headers, named "content-length" header = true → lengthOf header = n) :
    (headers.map lengthOf).sum = headers.countP (named "content-length") * n := by
  induction headers with
  | nil => rw [List.countP_nil, Nat.zero_mul]; rfl
  | cons header headers ih =>
    rw [List.map_cons, List.sum_cons, ih (fun x hx => h x (List.mem_cons_of_mem _ hx)),
      List.countP_cons]
    by_cases hn : named "content-length" header = true
    · rw [h header List.mem_cons_self hn, if_pos hn, Nat.add_mul, Nat.one_mul, Nat.add_comm]
    · rw [lengthOf, if_neg hn, if_neg hn, Nat.zero_add, Nat.add_zero]

variable (r : WireRequest)

theorem mem_headers (hmem : h ∈ r.headers) : trimOptionalWhitespace h.value = h.value := by
  obtain ⟨f, -, rfl⟩ := List.mem_map.mp hmem
  exact trim_trim

theorem headers_passes (hb : r.content.body.length < 2 ^ 64)
    (hl : r.content.body.length ≤ options.maximumBodyBytes.toNat) :
    Passes options r.headers ∧ Ordered 0 r.headers ∧
      (r.headers.map lengthOf).sum = r.content.length ∧
      r.headers.any (named "transfer-encoding") = r.content.coded := by
  have hfr := r.framed
  have hh : ∀ h ∈ r.headers, named "host" h = true → h.value ≠ [] := by
    intro h hmem
    obtain ⟨f, hf, rfl⟩ := List.mem_map.mp hmem
    exact r.host_filled f hf
  cases hc : r.content with
  | plain body =>
    rw [hc] at hfr hb hl
    obtain ⟨hun, hone, he, hle⟩ := hfr
    have hp : ∀ h ∈ r.headers, named "content-length" h = true →
        parseDecimalSize (trimOptionalWhitespace h.value) = some body.length := by
      intro h hmem hn
      rw [mem_headers r hmem]
      exact parseDecimalSize_iff.mpr ⟨hle h hmem hn, hb⟩
    have hsum : (r.headers.map lengthOf).sum = body.length := by
      rw [lengths_sum (n := body.length)]
      · have hcn : r.headers.countP (named "content-length") = 0 ∨
            r.headers.countP (named "content-length") = 1 := Nat.le_one_iff_eq_zero_or_eq_one.mp hone
        rcases hcn with hz | hs
        · rw [he hz]
          exact Nat.mul_zero _
        · rw [hs, Nat.one_mul]
      · intro h hmem hn
        rw [lengthOf, if_pos hn, hp h hmem hn]
        rfl
    have hno := List.countP_eq_zero.mp hun
    refine ⟨⟨fun h hmem => ⟨hh h hmem, fun hn => ?_, fun hn => ?_⟩, r.host, hone, ?_⟩,
      ordered_uncoded hun, hsum, ?_⟩
    · rw [hp h hmem hn]
      rfl
    · exact absurd hn (hno h hmem)
    · rw [hsum]
      exact hl
    · exact List.any_eq_false.mpr hno
  | chunked chunks last =>
    rw [hc] at hfr
    obtain ⟨hu, hso, hco⟩ := hfr
    have hno := List.countP_eq_zero.mp hu
    refine ⟨⟨fun h hmem => ⟨hh h hmem, fun hn => ?_, fun hn => ?_⟩, r.host, ?_, ?_⟩,
      ordered_unsized hu, lengthOf_none hu, ?_⟩
    · exact absurd hn (hno h hmem)
    · rw [mem_headers r hmem]
      exact List.contains_iff_mem.mpr (hco h hmem hn)
    · exact Nat.le_trans hu.le (Nat.zero_le _)
    · exact Nat.le_trans (lengthOf_none hu).le (Nat.zero_le _)
    · obtain ⟨h, hmem, hn⟩ := List.countP_pos_iff.mp hso
      exact List.any_eq_true.mpr ⟨h, hmem, hn⟩

/-- What `FinalizeHeaders` makes of the headers. -/
theorem finalizeHeaders_request {p : HttpRequestParser} (hh : p.request.headers = r.headers)
    (hle : p.contentLength = 0) (hc : p.hasChunked = false)
    (hb : r.content.body.length < 2 ^ 64)
    (hli : r.content.body.length ≤ p.options.maximumBodyBytes.toNat) :
    ∃ expects, p.finalizeHeaders = .ok { p with
      contentLength := r.content.length
      hasChunked := r.content.coded
      expectContinue := expects
      request := { p.request with keepAlive := !r.closes } } := by
  obtain ⟨hp, ho, hsum, hcd⟩ := headers_passes r hb hli
  obtain ⟨t, hf, ht⟩ := fold_ok (t := p.tally) hp.valid ho
  have hho : t.hostCount = 1 := by
    rw [ht.hosts, hp.host]
    rfl
  have hl : t.contentLengthCount ≤ 1 := by
    rw [ht.lengths]
    exact (Nat.zero_add _).le.trans hp.lengths
  have hs : t.contentLength = r.content.length := by
    rw [ht.length (fun _ => hle) hl, hsum]
    exact (congrArg (· + _) hle).trans (Nat.zero_add _)
  have hco : t.hasChunked = r.content.coded := by
    rw [ht.chunked, hcd]
    exact (congrArg (· || _) hc).trans (Bool.false_or _)
  have hcl : t.connectionClose = r.closes := by
    rw [fold_close hf]
    exact Bool.false_or _
  have hch := check_passes hho hl (hs.le.trans (hsum.symm.le.trans hp.limited))
  refine ⟨t.expectContinue, ?_⟩
  unfold finalizeHeaders
  rw [hh, hf]
  dsimp only [bind, Except.bind]
  rw [hch]
  dsimp only [pure, Except.pure]
  rw [hs, hco, hcl]

end Head

section Reading
variable {p q : HttpRequestParser} {text rest : Octets}

structure Before (w : BufferSequence) (p : HttpRequestParser) (rest : Octets) : Prop where
  live : Live w p
  flush : p.lineStart = p.scanOffset
  rest : w.bytes.drop p.scanOffset = rest

def behind (p : HttpRequestParser) (text : Octets) : HttpRequestParser :=
  { p with scanOffset := p.scanOffset + text.length + 2, lineStart := p.scanOffset + text.length + 2 }

theorem Before.reads (h : Before w p (lineThen text rest)) (hat : AtLine p) (hc : Clean text)
    (hl : text.length ≤ p.lineLimit) :
    p.step w = (behind p text).onLine w { status := .complete, value := text } := by
  have hs : scanned p w.bytes = .line text.length := by
    rw [scanned, h.rest, h.flush, Nat.sub_self, lineThen,
      scan_text hc (Or.inr ((Nat.zero_add _).le.trans hl)), Nat.zero_add]
    exact (Stop.line rest hl).scan
  have hv : slice w.bytes p.lineStart (p.lineStart + text.length) = text := by
    rw [slice, h.flush, h.rest, Nat.add_sub_cancel_left, lineThen, List.take_left]
  rw [step_line hat h.live.sound.line h.live.inside, hs]
  simp only [found, hv]
  rw [h.flush]
  rfl

theorem Before.next (h : Before w p (lineThen text rest)) (hm : Moves w p q)
    (hs : q.scanOffset = p.scanOffset + text.length + 2) (hl : q.lineStart = q.scanOffset) :
    Before w q rest := by
  refine ⟨(moves_live h.live hm).1, hl, ?_⟩
  rw [hs, Nat.add_assoc, ← List.drop_drop, h.rest, lineThen, ← List.drop_drop, List.drop_left]
  rfl

def begun (r : WireRequest) : HttpRequest where
  method := parseMethod r.method
  methodText := r.method
  target := r.target
  path := r.target.takeWhile (· ≠ 63)
  query := (r.target.dropWhile (· ≠ 63)).drop 1

theorem startLine_clean (r : WireRequest) : Clean r.startLine := by
  intro c hc
  rcases List.mem_append.mp hc with hm | hc
  · have ht := r.method_token c hm
    exact ⟨token_ne ht (by decide), token_ne ht (by decide)⟩
  rcases List.mem_cons.mp hc with rfl | hc
  · decide
  rcases List.mem_append.mp hc with hta | hc
  · exact (r.target_text c hta).2.2
  · have hv : ∀ c ∈ 32 :: octets "HTTP/1.1", c ≠ 13 ∧ c ≠ 10 := forall_octets (by decide)
    exact hv c hc

theorem reads_start (h : Before w p (lineThen r.startLine rest))
    (hs : p.state = .requestLine) (hr : p.request = {})
    (hli : r.startLine.length ≤ p.options.maximumRequestLineBytes.toNat) :
    Moves w p { behind p r.startLine with request := begun r, state := .headers } := by
  have hl : r.startLine.length ≤ p.lineLimit := by
    rw [lineLimit, hs]
    exact hli
  have hp : parseRequestLine (behind p r.startLine).request r.startLine = .ok (begun r) := by
    rw [show (behind p r.startLine).request = {} from hr]
    exact parseRequestLine_startLine r
  refine Or.inl ?_
  rw [h.reads (Or.inl hs) (startLine_clean r) hl, onLine,
    show (behind p r.startLine).state = .requestLine from hs]
  dsimp only
  rw [onRequestLine]
  dsimp only
  rw [hp]

def withField (p : HttpRequestParser) (f : FieldLine) : HttpRequestParser :=
  { behind p f.line with
    headerBytes := p.headerBytes + (f.line.length + 2)
    request := { p.request with headers := p.request.headers ++ [f.header] } }

theorem takeHeaderLine_line (p : HttpRequestParser) (f : FieldLine)
    (hc : p.request.headers.length < p.options.maximumHeaderCount.toNat) :
    p.takeHeaderLine w f.line = .next { p with
      request := { p.request with headers := p.request.headers ++ [f.header] } } := by
  have hf : f.line ≠ [] := fun hnil => List.cons_ne_nil _ _ (List.append_eq_nil_iff.mp hnil).2
  rw [takeHeaderLine, if_neg hf, if_neg (by omega), parseHeaderLine_line]

theorem reads_field (h : Before w p (lineThen f.line rest)) (hs : p.state = .headers)
    (hb : p.headerBytes + (f.line.length + 2) ≤ p.options.maximumHeaderBytes.toNat)
    (hc : p.request.headers.length < p.options.maximumHeaderCount.toNat) :
    Moves w p (withField p f) := by
  have hl : f.line.length ≤ p.lineLimit := by
    rw [lineLimit, hs]
    dsimp only
    omega
  refine Or.inl ?_
  rw [h.reads (Or.inr (Or.inl hs)) f.clean hl, onLine,
    show (behind p f.line).state = .headers from hs]
  dsimp only
  rw [onHeaderLine]
  dsimp only
  rw [if_neg (by simp only [behind]; omega)]
  exact takeHeaderLine_line _ f hc

/-- All header lines are read. -/
theorem reads_fields (h : Before w p (fieldsThen fields rest)) (hs : p.state = .headers)
    (hb : p.headerBytes + (fieldsThen fields []).length ≤ p.options.maximumHeaderBytes.toNat)
    (hc : p.request.headers.length + fields.length ≤ p.options.maximumHeaderCount.toNat) :
    ReflTransGen (Moves w) p (fields.foldl withField p) ∧
      Before w (fields.foldl withField p) (lineThen [] rest) ∧
      (fields.foldl withField p).headerBytes + 2 ≤
        (fields.foldl withField p).options.maximumHeaderBytes.toNat := by
  induction fields generalizing p with
  | nil => exact ⟨.refl, h, hb⟩
  | cons f fields ih =>
    have hl : (fieldsThen (f :: fields) []).length =
        f.line.length + 2 + (fieldsThen fields []).length := by
      simp only [fieldsThen, List.foldr_cons, lineThen, List.length_append, List.length_cons]
      omega
    rw [hl] at hb
    rw [List.length_cons] at hc
    have hm : Moves w p (withField p f) := reads_field h hs (by omega) (by omega)
    have hn : Before w (withField p f) (fieldsThen fields rest) := h.next hm rfl rfl
    obtain ⟨hr, hbe, hro⟩ := ih hn hs (by simp only [withField]; dsimp only [behind]; omega)
      (by simp only [withField, List.length_append, List.length_singleton]; dsimp only [behind]; omega)
    exact ⟨.head hm hr, hbe, hro⟩

def Finds (w : BufferSequence) (p : HttpRequestParser) (request : HttpRequest) : Prop :=
  ∃ q result, ReflTransGen (Moves w) p q ∧ q.step w = .done q.reset result ∧
    result.status = .complete ∧ result.request = request ∧ result.consumedBytes = w.bytes.length

theorem Finds.later {request : HttpRequest} (hr : ReflTransGen (Moves w) p q)
    (h : Finds w q request) : Finds w p request := by
  obtain ⟨q', result, hr', hre⟩ := h
  exact ⟨q', result, hr.trans hr', hre⟩

section Contents
def sized (p : HttpRequestParser) (text : Octets) (size : Nat) : HttpRequestParser :=
  { behind p text with
    chunkSize := size
    chunkBodyOffset := p.scanOffset + text.length + 2
    state := if size = 0 then .chunkTrailer else .chunkBody }

theorem reads_size (h : Before w p (lineThen text rest)) (hs : p.state = .chunkHead)
    (hc : Clean text) (hsi : SizeLine text size) (hsh : text.length ≤ 256)
    (hb : size < 2 ^ 64) : Moves w p (sized p text size) := by
  have hl : text.length ≤ p.lineLimit := by
    rw [lineLimit, hs]
    exact hsh
  refine Or.inl ?_
  rw [h.reads (Or.inr (Or.inr (Or.inl hs))) hc hl, onLine,
    show (behind p text).state = .chunkHead from hs]
  dsimp only
  rw [onChunkHead]
  dsimp only
  rw [parseHexSize_line hsi hb]
  rfl

/-- The end of a chunked message: the last chunk and the empty line. -/
theorem reads_last (h : Before w p (chunksThen [] last)) (hs : p.state = .chunkHead) :
    Finds w p p.request := by
  have hsi : Moves w p (sized p last.line 0) :=
    reads_size h hs last.clean last.size last.short (by decide)
  have ht : Before w (sized p last.line 0) (lineThen [] []) := h.next hsi rfl rfl
  have he : Moves w (sized p last.line 0)
      { behind (sized p last.line 0) [] with state := .chunkEnd } := by
    refine Or.inl ?_
    rw [ht.reads (Or.inr (Or.inr (Or.inr rfl))) (fun _ hc => by cases hc) (Nat.zero_le _)]
    rfl
  have hend := ht.next he rfl rfl
  have hch := ((shape_chunk (Or.inr (Or.inr rfl))).mp hend.live.sound.shape).1
  refine ⟨_, _, .head hsi (.single he), step_ended rfl hch, rfl, rfl, ?_⟩
  have hr := congrArg List.length hend.rest
  have hi := hend.live.inside
  rw [List.length_drop, List.length_nil] at hr
  dsimp only at hr hi ⊢
  omega

/-- The chunks are read one after the other. -/
theorem reads_chunks (h : Before w p (chunksThen chunks last)) (hs : p.state = .chunkHead)
    (hli : p.request.body.length + (chunks.flatMap Chunk.data).length ≤
      p.options.maximumBodyBytes.toNat) :
    Finds w p { p.request with body := p.request.body ++ chunks.flatMap Chunk.data } := by
  induction chunks generalizing p with
  | nil =>
    rw [List.flatMap_nil, List.append_nil]
    exact reads_last h hs
  | cons chunk chunks ih =>
    have hpos : 0 < chunk.data.length := List.length_pos_of_ne_nil chunk.filled
    have hb := w.bytes_lt
    have hln : Before w p (lineThen chunk.line (lineThen chunk.data (chunksThen chunks last))) := h
    have hl := congrArg List.length hln.rest
    have hi := h.live.inside
    simp only [List.length_drop, lineThen, List.length_append, List.length_cons] at hl
    rw [List.flatMap_cons, List.length_append] at hli
    have hsi : Moves w p (sized p chunk.line chunk.data.length) :=
      reads_size hln hs chunk.clean chunk.size chunk.short (by omega)
    have hd := hln.next hsi rfl rfl
    have hst : (sized p chunk.line chunk.data.length).state = .chunkBody :=
      if_neg (Nat.pos_iff_ne_zero.mp hpos)
    have hsl : slice w.bytes (p.scanOffset + chunk.line.length + 2)
        (p.scanOffset + chunk.line.length + 2 + chunk.data.length) = chunk.data := by
      rw [slice, Nat.add_sub_cancel_left]
      exact (congrArg (List.take _) hd.rest).trans List.take_left
    have ht : Moves w (sized p chunk.line chunk.data.length)
        (chunkTaken (sized p chunk.line chunk.data.length) w.bytes) := by
      refine Or.inl ?_
      rw [step_chunkBody hst, chunkBody_fits hd.live.sound hst hd.live.inside
        (by simp only [sized]; omega), if_neg, if_neg]
      · simp only [sized, behind]
        omega
      · simp only [sized, behind]
        omega
    have hn : Before w (chunkTaken (sized p chunk.line chunk.data.length) w.bytes)
        (chunksThen chunks last) := hd.next ht rfl rfl
    have hbo : (chunkTaken (sized p chunk.line chunk.data.length) w.bytes).request =
        { p.request with body := p.request.body ++ chunk.data } := by
      simp only [chunkTaken, sized, behind, hsl]
    have hf := ih hn rfl (by
      rw [hbo]
      simp only [chunkTaken, sized, behind, List.length_append]
      omega)
    rw [hbo] at hf
    rw [List.flatMap_cons, ← List.append_assoc]
    exact hf.later (.head hsi (.single ht))

theorem reads_body (h : Before w p body) (hs : p.state = .body)
    (hl : p.contentLength = body.length) (ho : p.bodyOffset = p.scanOffset) :
    Finds w p { p.request with body := body } := by
  obtain ⟨hc, hf, -⟩ := (shape_body hs).mp h.live.sound.shape
  have hb := w.bytes_lt
  have hi := h.live.inside
  have hr := congrArg List.length h.rest
  rw [List.length_drop] at hr
  have hsl : slice w.bytes p.bodyOffset (p.bodyOffset + p.contentLength) = body := by
    rw [slice, ho, h.rest, Nat.add_sub_cancel_left, hl, List.take_length]
  have hst : p.step w = .done p.reset {
      status := .complete
      consumedBytes := p.bodyOffset + p.contentLength
      request := { p.request with body := body } } := by
    rw [step_body hs, onBody, BufferSequence.size_eq, if_neg (by omega), if_neg (by omega),
      complete_copied hf hc (by omega), hsl]
  exact ⟨p, _, .refl, hst, rfl, rfl, by dsimp only; omega⟩

def entered (p : HttpRequestParser) : HttpRequestParser :=
  { p with
    bodyOffset := p.scanOffset
    expectContinueSent := p.expectContinueSent || (p.expectContinue && !p.expectContinueSent)
    state := if p.hasChunked then .chunkHead else .body }

theorem enterBody_leads (hb : p.hasChunked = true ∨ p.contentLength ≠ 0) :
    Leads (p.enterBody w) (entered p) := by
  have hnot : ¬ (!p.hasChunked && p.contentLength == 0) = true := by
    simp only [Bool.and_eq_true, Bool.not_eq_true', beq_iff_eq]
    rintro ⟨hc, hz⟩
    rcases hb with h | h
    · cases h.symm.trans hc
    · exact h hz
  unfold enterBody
  dsimp only
  rw [if_neg hnot]
  split
  · exact Or.inr ⟨_, rfl, rfl⟩
  · exact Or.inl rfl

theorem enterBody_taken (hc : p.hasChunked = false) (hl : p.contentLength = 0) :
    p.enterBody w = .done p.reset {
      status := .complete
      consumedBytes := p.scanOffset
      request := p.request } := by
  unfold enterBody
  dsimp only
  rw [if_pos (by rw [hc, hl]; rfl), complete_taken (by exact Or.inl hl)]
  simp only [hc, hl, Bool.false_eq_true, if_false, Nat.add_zero]
  rfl

def headRead (p : HttpRequestParser) (r : WireRequest) (expects : Bool) : HttpRequestParser :=
  { behind p [] with
    headerBytes := p.headerBytes + 2
    contentLength := r.content.length
    hasChunked := r.content.coded
    expectContinue := expects
    request := { p.request with keepAlive := !r.closes } }

theorem step_head (h : Before w p (lineThen [] rest)) (hs : p.state = .headers)
    (hh : p.request.headers = r.headers)
    (hb : p.headerBytes + 2 ≤ p.options.maximumHeaderBytes.toNat)
    (hbo : r.content.body.length < 2 ^ 64)
    (hli : r.content.body.length ≤ p.options.maximumBodyBytes.toNat) :
    ∃ expects, p.step w = (headRead p r expects).enterBody w := by
  obtain ⟨-, hl, hch⟩ := (shape_headers hs).mp h.live.sound.shape
  obtain ⟨expects, hf⟩ := finalizeHeaders_request r
    (p := { behind p [] with headerBytes := p.headerBytes + 2 }) hh hl hch hbo hli
  refine ⟨expects, ?_⟩
  rw [h.reads (Or.inr (Or.inl hs)) (fun _ hc => by cases hc) (Nat.zero_le _), onLine,
    show (behind p []).state = .headers from hs]
  dsimp only
  rw [onHeaderLine]
  dsimp only [List.length_nil]
  rw [if_neg (by simp only [behind]; omega), takeHeaderLine, if_pos rfl]
  simp only [behind, List.length_nil, Nat.zero_add, Nat.add_zero] at hf ⊢
  rw [hf]
  rfl

/-- The head is complete, and the body follows. -/
theorem reads_head {r : WireRequest} (h : Before w p (lineThen [] r.content.encode))
    (hs : p.state = .headers) (hh : p.request.headers = r.headers)
    (hby : p.headerBytes + 2 ≤ p.options.maximumHeaderBytes.toNat)
    (hl : r.content.body.length ≤ p.options.maximumBodyBytes.toNat) :
    Finds w p { p.request with body := r.content.body, keepAlive := !r.closes } := by
  obtain ⟨hem, -, -⟩ := (shape_headers hs).mp h.live.sound.shape
  have hbo := p.options.maximumBodyBytes.toNat_lt
  obtain ⟨expects, hste⟩ := step_head h hs hh hby (by omega) hl
  have hm : (headRead p r expects).hasChunked = true ∨ (headRead p r expects).contentLength ≠ 0 →
      Moves w p (entered (headRead p r expects)) := by
    intro hbd
    rw [Moves, hste]
    exact enterBody_leads hbd
  cases hc : r.content with
  | plain body =>
    by_cases hnil : body = []
    · have ht : p.step w = .done p.reset {
          status := .complete
          consumedBytes := p.scanOffset + 2
          request := { p.request with keepAlive := !r.closes } } := by
        rw [hste, enterBody_taken]
        · rfl
        · rw [headRead, hc]
          rfl
        · rw [headRead, hc, hnil]
          rfl
      refine ⟨p, _, .refl, ht, rfl, ?_, ?_⟩
      · dsimp only [Content.body]
        rw [hnil, hem]
      · have hr := congrArg List.length h.rest
        have hi := h.live.inside
        rw [hc, hnil] at hr
        rw [List.length_drop] at hr
        dsimp only [lineThen, Content.encode, List.length_nil, List.nil_append, List.length_cons] at hr ⊢
        omega
    · have he := hm (by
        rw [headRead, hc]
        exact Or.inr (mt List.length_eq_zero_iff.mp hnil))
      have hb : Before w (entered (headRead p r expects)) body := by
        have hn := h.next he rfl rfl
        rw [hc] at hn
        exact hn
      have hst : (entered (headRead p r expects)).state = .body := by
        rw [entered, headRead, hc]
        rfl
      have hle : (entered (headRead p r expects)).contentLength = body.length := by
        rw [entered, headRead, hc]
        rfl
      exact (reads_body hb hst hle rfl).later (.single he)
  | chunked chunks last =>
    have he := hm (by
      rw [headRead, hc]
      exact Or.inl rfl)
    have hb : Before w (entered (headRead p r expects)) (chunksThen chunks last) := by
      have hn := h.next he rfl rfl
      rw [hc] at hn
      exact hn
    have hst : (entered (headRead p r expects)).state = .chunkHead := by
      rw [entered, headRead, hc]
      rfl
    have hf := (reads_chunks hb hst (by
      rw [hc] at hl
      simp only [entered, headRead, behind, hem, List.length_nil, Nat.zero_add]
      exact hl)).later (.single he)
    simp only [entered, headRead, hem, List.nil_append] at hf
    exact hf

end Contents

section Requests
variable {r : WireRequest}

theorem fold_request (fields : List FieldLine) (p : HttpRequestParser) :
    (fields.foldl withField p).request =
        { p.request with headers := p.request.headers ++ fields.map FieldLine.header } ∧
      (fields.foldl withField p).state = p.state ∧
      (fields.foldl withField p).options = p.options := by
  induction fields generalizing p with
  | nil => exact ⟨by rw [List.map_nil, List.append_nil]; rfl, rfl, rfl⟩
  | cons f fields ih =>
    obtain ⟨hr, hs, ho⟩ := ih (withField p f)
    refine ⟨?_, hs, ho⟩
    rw [List.foldl_cons, hr, List.map_cons]
    simp [withField]

/-- The parser finds a request that is within its limits. -/
theorem finds_request (hwi : r.Within options)
    (hw : w.bytes = r.encode) : Finds w (start options) r.request := by
  have hb : Before w (start options) (lineThen r.startLine
      (fieldsThen r.fields r.content.encode)) := ⟨start_live, rfl, hw⟩
  have hs := reads_start hb rfl rfl hwi.line
  have hfi := hb.next hs rfl rfl
  obtain ⟨hre, hend, hro⟩ := reads_fields hfi rfl
    (by simp only [behind, start, Nat.zero_add]; exact hwi.header)
    (by simp only [behind, start, begun, List.length_nil, Nat.zero_add]; exact hwi.count)
  obtain ⟨hr, hst, ho⟩ := fold_request r.fields
    { behind (start options) r.startLine with request := begun r, state := .headers }
  have hh : (r.fields.foldl withField { behind (start options) r.startLine with
      request := begun r, state := .headers }).request.headers = r.headers := by
    rw [hr]
    rfl
  have hf := reads_head hend hst hh hro (by rw [ho]; exact hwi.body)
  rw [hr] at hf
  exact hf.later (.head hs hre)

/-- A request within the limits is one message. -/
theorem whole_request (hwi : r.Within options) (hw : w.bytes = r.encode) : Whole options w r.request := by
  obtain ⟨q, result, hr, hste, hs, hre, hco⟩ := finds_request hwi hw
  have hst : Stopped w q (q.reset, .returned result) := by
    refine .returned hste ?_
    rw [hs]
    exact nofun
  rw [Whole, drive, call_eq start_live hr hst]
  simp [settled, hs, hre, hco]

end Requests

end Reading

end IocpRuntime.Proofs.WireRequests
