import Mathlib.Data.Nat.Digits.Defs
import IocpRuntime.Proofs.Pipelining
import IocpRuntime.Proofs.UploadFeeds

namespace IocpRuntime.Proofs.SameRequests
open Lib Http Http2 HeaderFraming WireRequests

section Requests

/-- No control characters, and no blanks around the text. -/
structure Plain (text : Octets) : Prop where
  printed : ∀ c ∈ text, 32 ≤ c ∧ c ≠ 127
  front : text.head? ≠ some 32
  back : text.getLast? ≠ some 32

/-- Headers that a connection uses for itself, or that only one of the protocols has. -/
def reserved : List Octets :=
  [octets "host", octets "content-length", octets "transfer-encoding", octets "connection",
    octets "expect"]

structure PlainHeader where
  name : Octets
  value : Octets
  filled : name ≠ []
  token : ∀ c ∈ name, isTokenCharacter c = true
  lower : ∀ c ∈ name, ¬ (65 ≤ c ∧ c ≤ 90)
  free : name ∉ reserved
  plain : Plain value

def PlainHeader.header (h : PlainHeader) : HttpHeader := ⟨h.name, h.value⟩

/-- A request that both protocols can carry. -/
structure PortableRequest where
  method : Octets
  target : Octets
  authority : Octets
  headers : List PlainHeader
  body : Octets
  supported : parseMethod method ≠ .unsupported
  origin : target.head? = some 47
  target_text : ∀ c ∈ target, 32 < c ∧ c ≠ 127 ∧ c ≠ 35
  authority_filled : authority ≠ []
  authority_plain : Plain authority

/-- The same request, but for its ids and its length header. -/
structure SameRequest (first second : HttpRequest) : Prop where
  method : first.method = second.method
  methodText : first.methodText = second.methodText
  target : first.target = second.target
  path : first.path = second.path
  query : first.query = second.query
  body : first.body = second.body
  headers : first.headers.filter (fun h => !named "content-length" h) =
    second.headers.filter (fun h => !named "content-length" h)

variable (q : PortableRequest)

def PortableRequest.delivered : List HttpHeader :=
  ⟨octets "host", q.authority⟩ :: q.headers.map PlainHeader.header

def PortableRequest.request (connectionId requestId : Nat) : HttpRequest where
  method := parseMethod q.method
  methodText := q.method
  target := q.target
  path := q.target.takeWhile (· ≠ 63)
  query := (q.target.dropWhile (· ≠ 63)).drop 1
  headers := q.delivered
  body := q.body
  connectionId := connectionId
  requestId := requestId

theorem PlainHeader.not_named (h : PlainHeader) {name : String} (hn : octets name ∈ reserved) :
    named name h.header = false := by
  apply decide_eq_false
  intro heq
  have hs : h.name = octets name := heq
  rw [← hs] at hn
  exact h.free hn

theorem delivered_unframed :
    q.delivered.filter (fun h => !named "content-length" h) = q.delivered := by
  rw [List.filter_eq_self]
  intro h hmem
  rcases List.mem_cons.mp hmem with rfl | hmem
  · rfl
  · obtain ⟨field, -, rfl⟩ := List.mem_map.mp hmem
    rw [field.not_named (by decide)]
    rfl

end Requests

section Fields
variable (q : PortableRequest)

def PortableRequest.fields : List HttpHeader :=
  [⟨octets ":method", q.method⟩, ⟨octets ":path", q.target⟩, ⟨octets ":authority", q.authority⟩] ++
    q.headers.map PlainHeader.header

/-- No name of a regular header starts with a colon. -/
theorem PlainHeader.regular (h : PlainHeader) : h.name.head? ≠ some 58 := by
  intro hc
  exact absurd (h.token 58 (List.mem_of_mem_head? hc)) (by decide)

theorem add_regular (a : Assembly) (h : PlainHeader) :
    a.add h.header = some { a with
      request := { a.request with headers := a.request.headers ++ [h.header] }
      sawRegularHeader := true } := by
  have hp : ∀ name : Octets, name.head? = some 58 → h.name ≠ name := by
    intro name hn heq
    exact h.regular (heq ▸ hn)
  have hco : (h.name.head? == some 58) = false := beq_eq_false_iff_ne.mpr h.regular
  have hl : h.name.any (fun c => 65 ≤ c && c ≤ 90) = false := by
    rw [List.any_eq_false]
    intro c hc
    simpa using h.lower c hc
  simp [Assembly.add, PlainHeader.header, h.filled, hco, hl,
    hp (octets ":method") rfl, hp (octets ":path") rfl,
    hp (octets ":authority") rfl, hp (octets ":scheme") rfl]

theorem fold_regular (headers : List PlainHeader) (a : Assembly) :
    ∃ seen, (headers.map PlainHeader.header).foldlM Assembly.add a = some { a with
      request := { a.request with
        headers := a.request.headers ++ headers.map PlainHeader.header }
      sawRegularHeader := seen } := by
  induction headers generalizing a with
  | nil => exact ⟨a.sawRegularHeader, by simp⟩
  | cons h headers ih =>
    obtain ⟨seen, hs⟩ := ih { a with
      request := { a.request with headers := a.request.headers ++ [h.header] }
      sawRegularHeader := true }
    refine ⟨seen, ?_⟩
    rw [List.map_cons, List.foldlM_cons, add_regular]
    dsimp only [bind, Option.bind]
    rw [hs, List.append_assoc]
    rfl

theorem fold_line (id : UInt32) : [⟨octets ":method", q.method⟩, ⟨octets ":path", q.target⟩,
      ⟨octets ":authority", q.authority⟩].foldlM Assembly.add
        { request := { connectionId := connectionId, requestId := id.toNat } } =
      some { request := { q.request connectionId id.toNat with
               headers := [⟨octets "host", q.authority⟩]
               body := [] }
             hasMethod := true
             hasPath := true } := by
  have hn : octets ":path" ≠ octets ":method" ∧ octets ":authority" ≠ octets ":method" ∧
      octets ":authority" ≠ octets ":path" := by
    decide
  have hh : (octets ":method").head? = some 58 ∧ (octets ":path").head? = some 58 ∧
      (octets ":authority").head? = some 58 := by
    decide
  have hf : octets ":method" ≠ [] ∧ octets ":path" ≠ [] ∧ octets ":authority" ≠ [] := by
    decide
  unfold PortableRequest.request
  rcases find_around with ⟨hno, hp, hq⟩ | ⟨i, hfo, hp, hq⟩
  · rw [hp, hq]
    simp [Assembly.add, hn, hh, hf, hno]
  · rw [hp, hq]
    simp [Assembly.add, hn, hh, hf, hfo]

theorem assemble_fields (id : UInt32) :
    ∃ a, assembleRequest connectionId id q.fields = some a ∧ a.complete = true ∧
      a.request = { q.request connectionId id.toNat with body := [] } := by
  obtain ⟨seen, hh⟩ := fold_regular q.headers
    { request := { q.request connectionId id.toNat with
        headers := [⟨octets "host", q.authority⟩]
        body := [] }
      hasMethod := true
      hasPath := true }
  refine ⟨{
    request := { q.request connectionId id.toNat with body := [] }
    hasMethod := true
    hasPath := true
    sawRegularHeader := seen }, ?_, ?_, rfl⟩
  · rw [assembleRequest, PortableRequest.fields, List.foldlM_append, fold_line]
    exact hh
  · simpa [Assembly.complete, PortableRequest.request] using q.supported

end Fields

section Lines
/-- Framed by its length, which may stand anywhere; names may have capitals, values blanks. -/
structure Encodes (q : PortableRequest) (r : WireRequest) : Prop where
  method : r.method = q.method
  target : r.target = q.target
  headers : r.headers.filter (fun h => !named "content-length" h) = q.delivered
  content : r.content = .plain q.body

/-- The HTTP/1.1 session dispatches the request that is meant, with a length. -/
theorem Encodes.same (h : Encodes q r) :
    SameRequest (SessionFeeds.numbered firstId count r.request) (q.request secondId requestId) where
  method := congrArg parseMethod h.method
  methodText := h.method
  target := h.target
  path := by
    change r.target.takeWhile _ = q.target.takeWhile _
    rw [h.target]
  query := by
    change (r.target.dropWhile _).drop 1 = (q.target.dropWhile _).drop 1
    rw [h.target]
  body := congrArg Content.body h.content
  headers := h.headers.trans (delivered_unframed q).symm

end Lines

section Encoding

theorem dropWhile_plain {text : Octets} (hp : ∀ c ∈ text, 32 ≤ c ∧ c ≠ 127)
    (hf : text.head? ≠ some 32) : text.dropWhile isBlank = text := by
  cases text with
  | nil => rfl
  | cons c text =>
    have hs : c ≠ 32 := fun h => hf (congrArg some h)
    have htab : c ≠ 9 := by
      rintro rfl
      exact absurd (hp 9 List.mem_cons_self).1 (by decide)
    have hb : isBlank c = false := by simp [isBlank, hs, htab]
    exact List.dropWhile_cons_of_neg (by rw [hb]; exact Bool.false_ne_true)

/-- A blank in front of the text is trimmed away, and nothing else. -/
theorem Plain.trimmed (h : Plain text) :
    trimOptionalWhitespace (32 :: text) = text := by
  have hba : text.reverse.dropWhile isBlank = text.reverse :=
    dropWhile_plain (fun c hc => h.printed c (List.mem_reverse.mp hc))
      (by rw [List.head?_reverse]; exact h.back)
  have hb : (32 :: text).dropWhile isBlank = text.dropWhile isBlank :=
    List.dropWhile_cons_of_pos (by decide)
  rw [trimOptionalWhitespace, hb, dropWhile_plain h.printed h.front, hba, List.reverse_reverse]

theorem Plain.line (h : Plain text) : ∀ c ∈ (32 : UInt8) :: text, c = 9 ∨ (32 ≤ c ∧ c ≠ 127) := by
  intro c hc
  rcases List.mem_cons.mp hc with rfl | hc
  · exact Or.inr (by decide)
  · exact Or.inr (h.printed c hc)

def PlainHeader.line (h : PlainHeader) : FieldLine :=
  ⟨h.name, 32 :: h.value, h.filled, h.token, h.plain.line⟩

theorem PlainHeader.line_header (h : PlainHeader) : h.line.header = h.header := by
  have hl : lowercase h.name = h.name := by
    conv_rhs => rw [← List.map_id h.name]
    exact List.map_congr_left (fun c hc => if_neg (h.lower c hc))
  rw [FieldLine.header, PlainHeader.line, hl, h.plain.trimmed]
  rfl

def decimal (n : Nat) : Octets :=
  if n = 0 then [48] else (Nat.digits 10 n).reverse.map (fun digit => UInt8.ofNat (48 + digit))

theorem decimalStep_digit : ∀ digit < 10, ∀ n,
    decimalStep n (UInt8.ofNat (48 + digit)) = some (n * 10 + digit) := by
  have hd : ∀ digit < 10, (octets "0123456789").idxOf? (UInt8.ofNat (48 + digit)) = some digit := by
    decide
  intro digit hdi n
  rw [decimalStep, hd digit hdi]
  rfl

theorem foldlM_digits (hdi : ∀ digit ∈ digits, digit < 10) :
    (digits.reverse.map (fun digit => UInt8.ofNat (48 + digit))).foldlM decimalStep 0 =
      some (Nat.ofDigits 10 digits) := by
  induction digits with
  | nil => rfl
  | cons digit digits ih =>
    rw [List.reverse_cons, List.map_append, List.foldlM_append,
      ih (fun d hd => hdi d (List.mem_cons_of_mem _ hd)), Nat.ofDigits_cons]
    simp only [List.map_cons, List.map_nil, List.foldlM_cons, List.foldlM_nil, bind, Option.bind,
      decimalStep_digit digit (hdi digit List.mem_cons_self)]
    rw [Nat.mul_comm, Nat.add_comm]
    rfl

theorem decimal_decimal : Decimal (decimal n) n := by
  by_cases hz : n = 0
  · rw [decimal, if_pos hz, hz]
    exact ⟨by decide, by decide⟩
  · rw [decimal, if_neg hz]
    refine ⟨?_, ?_⟩
    · simpa [Nat.digits_eq_nil_iff_eq_zero] using hz
    · rw [foldlM_digits (fun digit hd => Nat.digits_lt_base (by decide) hd), Nat.ofDigits_digits]

theorem decimal_digits (h : c ∈ decimal n) : 48 ≤ c ∧ c ≤ 57 := by
  have ho : ∀ digit < 10, (48 : UInt8) ≤ UInt8.ofNat (48 + digit) ∧
      UInt8.ofNat (48 + digit) ≤ (57 : UInt8) := by
    decide
  unfold decimal at h
  split at h
  · rw [List.mem_singleton.mp h]
    decide
  · obtain ⟨digit, hd, rfl⟩ := List.mem_map.mp h
    exact ho digit (Nat.digits_lt_base (by decide) (List.mem_reverse.mp hd))

theorem decimal_plain : Plain (decimal n) := by
  have hs : (32 : UInt8) ∉ decimal n := fun h => absurd (decimal_digits h).1 (by decide)
  refine ⟨?_, ?_, ?_⟩
  · intro c hc
    obtain ⟨hlow, hh⟩ := decimal_digits hc
    refine ⟨UInt8.le_trans (by decide) hlow, ?_⟩
    rintro rfl
    exact absurd hh (by decide)
  · exact fun h => hs (List.mem_of_mem_head? h)
  · exact fun h => hs (List.mem_of_mem_getLast? h)

variable (q : PortableRequest)

theorem host_filled : octets "Host" ≠ [] := by decide

theorem host_token : ∀ c ∈ octets "Host", isTokenCharacter c = true := forall_octets (by decide)

def PortableRequest.hostLine : FieldLine :=
  ⟨octets "Host", 32 :: q.authority, host_filled, host_token, q.authority_plain.line⟩

def PortableRequest.lengthLine : FieldLine :=
  ⟨octets "Content-Length", 32 :: decimal q.body.length, by decide, forall_octets (by decide),
    decimal_plain.line⟩

def PortableRequest.length : HttpHeader := ⟨octets "content-length", decimal q.body.length⟩

def PortableRequest.lines : List FieldLine :=
  q.hostLine :: (q.headers.map PlainHeader.line ++ [q.lengthLine])

theorem lines_headers : q.lines.map FieldLine.header = q.delivered ++ [q.length] := by
  have hh : q.hostLine.header = ⟨octets "host", q.authority⟩ := by
    rw [FieldLine.header, PortableRequest.hostLine, q.authority_plain.trimmed]
    rfl
  have hl : q.lengthLine.header = q.length := by
    rw [FieldLine.header, PortableRequest.lengthLine, decimal_plain.trimmed]
    rfl
  have ho : (q.headers.map PlainHeader.line).map FieldLine.header =
      q.headers.map PlainHeader.header := by
    rw [List.map_map]
    exact List.map_congr_left (fun h _ => h.line_header)
  rw [PortableRequest.lines, List.map_cons, List.map_append, hh, ho, List.map_singleton, hl]
  rfl

/-- A supported method is one of seven words. -/
theorem supported_word (h : parseMethod method ≠ .unsupported) :
    method ≠ [] ∧ ∀ c ∈ method, isTokenCharacter c = true := by
  have hwo : method ∈ [octets "GET", octets "POST", octets "PUT", octets "DELETE",
      octets "PATCH", octets "HEAD", octets "OPTIONS"] := by
    by_contra hn
    simp only [List.mem_cons, List.not_mem_nil, or_false, not_or] at hn
    exact h (by simp [parseMethod, hn])
  have hall : ∀ word ∈ [octets "GET", octets "POST", octets "PUT", octets "DELETE",
      octets "PATCH", octets "HEAD", octets "OPTIONS"],
      word ≠ [] ∧ word.all isTokenCharacter = true := by
    decide
  exact (hall method hwo).imp_right List.all_eq_true.mp

/-- Which lines have a reserved name. -/
theorem count_lines (hn : octets name ∈ reserved) :
    (q.lines.map FieldLine.header).countP (named name) =
      (if octets "host" = octets name then 1 else 0) +
        if octets "content-length" = octets name then 1 else 0 := by
  have ho : (q.headers.map PlainHeader.header).countP (named name) = 0 := by
    rw [List.countP_eq_zero]
    intro h hh
    obtain ⟨field, -, rfl⟩ := List.mem_map.mp hh
    rw [field.not_named hn]
    exact Bool.false_ne_true
  rw [lines_headers, List.countP_append, PortableRequest.delivered, List.countP_cons, ho,
    List.countP_singleton, Nat.zero_add]
  exact congrArg₂ (· + ·) (if_congr decide_eq_true_iff rfl rfl) (if_congr decide_eq_true_iff rfl rfl)

theorem mem_lines (hna : octets name ∈ reserved)
    (hmem : h ∈ q.lines.map FieldLine.header) (hn : named name h = true) :
    h = ⟨octets "host", q.authority⟩ ∨ h = q.length := by
  rw [lines_headers] at hmem
  rcases List.mem_append.mp hmem with hmem | hmem
  · rcases List.mem_cons.mp hmem with rfl | hmem
    · exact Or.inl rfl
    · obtain ⟨field, -, rfl⟩ := List.mem_map.mp hmem
      rw [field.not_named hna] at hn
      cases hn
  · exact Or.inr (List.mem_singleton.mp hmem)

def PortableRequest.encode : Octets :=
  Lines.lineThen (q.method ++ 32 :: (q.target ++ 32 :: octets "HTTP/1.1")) (fieldsThen q.lines q.body)

def PortableRequest.encoding (haddressable : q.encode.length < 2 ^ 63) : WireRequest where
  method := q.method
  target := q.target
  fields := q.lines
  content := .plain q.body
  method_filled := (supported_word q.supported).1
  method_token := (supported_word q.supported).2
  origin := q.origin
  target_text := by
    intro c hc
    obtain ⟨hprinted, -, hsharp⟩ := q.target_text c hc
    refine ⟨?_, hsharp, ?_, ?_⟩
    · rintro rfl
      exact absurd hprinted (by decide)
    · rintro rfl
      exact absurd hprinted (by decide)
    · rintro rfl
      exact absurd hprinted (by decide)
  host := count_lines q (by decide)
  host_filled := by
    intro f hf hnamed
    rcases mem_lines q (by decide) (List.mem_map_of_mem hf) hnamed with hhost | hlength
    · rw [hhost]
      exact q.authority_filled
    · rw [hlength] at hnamed
      cases hnamed
  framed := by
    refine ⟨count_lines q (by decide), (count_lines q (by decide)).le, ?_, ?_⟩
    · intro hnone
      rw [count_lines q (by decide)] at hnone
      cases hnone
    · intro h hmem hnamed
      rcases mem_lines q (by decide) hmem hnamed with hhost | hlength
      · rw [hhost] at hnamed
        cases hnamed
      · rw [hlength]
        exact decimal_decimal
  addressable := haddressable

/-- It is an encoding in the sense above, with Host first. -/
theorem encoding_encodes (ha : q.encode.length < 2 ^ 63) : Encodes q (q.encoding ha) where
  method := rfl
  target := rfl
  headers := by
    change (q.lines.map FieldLine.header).filter _ = _
    rw [lines_headers, List.filter_append, delivered_unframed]
    exact List.append_nil _
  content := rfl

end Encoding

section Router
/-- Requests that leave the connection open, and one behind them. -/
theorem served_behind (connectionId maximum count : Nat) (earlier : List HttpRequest)
    (ho : ∀ request ∈ earlier, request.keepAlive = true)
    (ha : count + earlier.length < maximum) (request : HttpRequest) :
    ∃ requests : List HttpRequest, requests.length = earlier.length ∧
      SessionFeeds.served connectionId maximum count (earlier ++ [request]) =
        requests ++ [SessionFeeds.numbered connectionId (count + earlier.length) request] := by
  induction earlier generalizing count with
  | nil =>
    refine ⟨[], rfl, ?_⟩
    rw [List.nil_append, SessionFeeds.served, SessionFeeds.served, ite_self]
    rfl
  | cons next earlier ih =>
    rw [List.length_cons] at ha
    obtain ⟨requests, hl, hs⟩ := ih (count + 1)
      (fun request h => ho request (List.mem_cons_of_mem _ h)) (by omega)
    have ho : SessionFeeds.closing maximum count next = false := by
      have hnot : ¬ count + 1 ≥ maximum := by omega
      simp [SessionFeeds.closing, ho next List.mem_cons_self, hnot]
    refine ⟨SessionFeeds.numbered connectionId count next :: requests, ?_, ?_⟩
    · rw [List.length_cons, List.length_cons, hl]
    · rw [List.cons_append, SessionFeeds.served, ho, if_neg Bool.false_ne_true, hs,
        List.length_cons, Nat.add_assoc, Nat.add_comm 1]
      rfl

/-- Over HTTP/1.1, behind others that leave the connection open, in any segments that fit. -/
structure SentFirst (q : PortableRequest) (options : HttpSessionOptions) (s : HttpSession)
    (earlier : List WireRequest) (segments : List Octets) : Prop where
  earlier_within : ∀ r ∈ earlier, r.Within options.parser
  earlier_open : ∀ r ∈ earlier, r.closes = false
  allowed : earlier.length < options.maximumRequestsPerConnection.toNat
  encoded : ∃ r, Encodes q r ∧ r.Within options.parser ∧
    segments.flatten = (earlier ++ [r]).flatMap WireRequest.encode
  fits : ∀ event ∈ Runs.history SessionFeeds.fedSession s segments, event.before.stopped = false →
    SessionFeeds.Fits event.before event.input

/-- Over HTTP/2, on a stream there is room for, with any block that decodes to the fields, any
frames and any pieces that fit. -/
structure SentSecond (q : PortableRequest) (e : Endpoint) (id : UInt32) (pieces : List Octets) :
    Prop where
  clear : e.receiveBuffer = []
  encoded : ∃ first fragments parts,
    RequestUploads.Upload e.session (FrameRoundTrip.foldedId id) first fragments parts q.fields ∧
      parts.flatten = q.body ∧
      (∀ piece ∈ first :: (fragments ++ parts), piece.length < 2 ^ 24) ∧
      pieces.flatten = (RequestUploads.requestFrames id first fragments parts).flatMap Frame.octets
  buffered : SessionSegments.buffered UploadFeeds.quiet e pieces = true

theorem SentFirst.dispatched (h : SentFirst q options s earlier segments)
    (hc : HttpSession.create connectionId options = .ok s) :
    ∃ requests r, requests.length = earlier.length ∧ Encodes q r ∧
      (Runs.history SessionFeeds.fedSession s segments).flatMap SessionFeeds.dispatchedBy =
        requests ++ [SessionFeeds.numbered connectionId earlier.length r.request] := by
  obtain ⟨r, he, hwi, hse⟩ := h.encoded
  have hall : ∀ r' ∈ earlier ++ [r], r'.Within options.parser := by
    intro r' hr'
    rcases List.mem_append.mp hr' with hr' | hr'
    · exact h.earlier_within r' hr'
    · rw [List.mem_singleton.mp hr']
      exact hwi
  have ho : ∀ request ∈ earlier.map WireRequest.request, request.keepAlive = true := by
    intro request hre
    obtain ⟨r', hr', rfl⟩ := List.mem_map.mp hre
    exact congrArg not (h.earlier_open r' hr')
  obtain ⟨requests, hl, hs⟩ := served_behind connectionId
    options.maximumRequestsPerConnection.toNat 0 (earlier.map WireRequest.request) ho
    (by rw [Nat.zero_add, List.length_map]; exact h.allowed) r.request
  rw [List.length_map, Nat.zero_add] at hs
  refine ⟨requests, r, hl.trans (List.length_map _), he, ?_⟩
  rw [(Pipelining.pipeline_run hc _ hall segments hse h.fits).1, List.map_append, ← hs]
  rfl

theorem SentSecond.dispatched {id : UInt32}
    (h : SentSecond q e id pieces) (hh : SessionRuns.Healthy e.session) :
    (e.feeds UploadFeeds.quiet pieces).session.dispatched = e.session.dispatched ++
      [q.request e.session.connectionId (FrameRoundTrip.foldedId id).toNat] := by
  obtain ⟨first, fragments, parts, hu, hb, hf, hp⟩ := h.encoded
  obtain ⟨a, ha, hc, hr⟩ := assemble_fields q (FrameRoundTrip.foldedId id)
  rw [UploadFeeds.upload_fed hh h.clear hu ha hc hf hp h.buffered, hr, hb]
  rfl

/-- Both sessions dispatch the request, and what they dispatch is the same. The HTTP/2 session may
have been through anything. -/
theorem same_request_dispatched {firstId secondId : Nat} {options : HttpSessionOptions}
    {config : H2ConnectionConfig} {s : HttpSession} {e : Endpoint}
    (hfirst : HttpSession.create firstId options = .ok s)
    (hsecond : Endpoint.create secondId config = .ok e) {earlier : List WireRequest}
    {segments : List Octets} (hsent : SentFirst q options s earlier segments)
    (inputs : List Endpoint.Input) {id : UInt32} {pieces : List Octets}
    (hsent' : SentSecond q (Runs.final Endpoint.handle e inputs) id pieces) :
    ∃ requests one two, requests.length = earlier.length ∧
      (Runs.history SessionFeeds.fedSession s segments).flatMap SessionFeeds.dispatchedBy =
        requests ++ [one] ∧
      ((Runs.final Endpoint.handle e inputs).feeds UploadFeeds.quiet pieces).session.dispatched =
        (Runs.final Endpoint.handle e inputs).session.dispatched ++ [two] ∧
      SameRequest one two := by
  obtain ⟨requests, r, hlength, hencodes, hone⟩ := hsent.dispatched hfirst
  obtain ⟨haccepted, rfl⟩ := FeedRuns.of_endpoint_create hsecond
  have htwo := hsent'.dispatched (FeedRuns.endpoint_reached secondId haccepted inputs)
  exact ⟨requests, _, _, hlength, hone, htwo, hencodes.same⟩

def post : PortableRequest where
  method := octets "POST"
  target := octets "/a?c"
  authority := octets "h"
  headers := [⟨octets "x-a", octets "1", by decide, forall_octets (by decide),
    forall_octets (by decide), by decide, ⟨forall_octets (by decide), by decide, by decide⟩⟩]
  body := octets "hi"
  supported := by decide
  origin := by decide
  target_text := forall_octets (by decide)
  authority_filled := by decide
  authority_plain := ⟨forall_octets (by decide), by decide, by decide⟩

def greeting : List Endpoint.Input :=
  [.feed (StreamEnds.clientOctets [SessionRuns.settingsFrame]) UploadFeeds.quiet]

def postBlock : Octets := [0x83, 0x04, 4, 47, 97, 63, 99, 0x01, 1, 104, 0x00, 3, 120, 45, 97, 1, 49]

def postPieces : List Octets :=
  let octets := (RequestUploads.requestFrames 1 (postBlock.take 5) [postBlock.drop 5]
    [[104], [105]]).flatMap Frame.octets
  [octets.take 20, octets.drop 20]

theorem post_sent : SentSecond post
    (Runs.final Endpoint.handle (FeedRuns.endpoint 8 {} (by decide)) greeting) 1 postPieces where
  clear := by decide +kernel
  encoded := by
    refine ⟨postBlock.take 5, [postBlock.drop 5], [[104], [105]], ?_, by decide, by decide,
      by decide +kernel⟩
    exact {
      opens := ⟨by decide +kernel, by decide +kernel, by decide +kernel, by decide +kernel,
        by decide +kernel, by decide +kernel, by decide +kernel⟩
      block := by decide +kernel
      decoded := by decide +kernel
      data := by decide +kernel
      own := ⟨by decide +kernel, by decide +kernel, trivial⟩
      shared := ⟨by decide +kernel, by decide +kernel, trivial⟩
      body := by decide +kernel }
  buffered := by decide +kernel

theorem post_addressable : post.encode.length < 2 ^ 63 := by decide +kernel

def postSegments : List Octets :=
  [Pipelining.upload.encode ++ post.encode.take 10, post.encode.drop 10]

theorem same_request_dispatched_post : ∃ s, HttpSession.create 7 {} = .ok s ∧
    let e := Runs.final Endpoint.handle (FeedRuns.endpoint 8 {} (by decide)) greeting
    ∃ requests one two, requests.length = 1 ∧
      (Runs.history SessionFeeds.fedSession s postSegments).flatMap SessionFeeds.dispatchedBy =
        requests ++ [one] ∧
      (e.feeds UploadFeeds.quiet postPieces).session.dispatched = e.session.dispatched ++ [two] ∧
      SameRequest one two := by
  obtain ⟨s, hcreate⟩ : ∃ s, HttpSession.create 7 {} = .ok s :=
    Pipelining.create_exists (by decide) (by decide) (by decide) (by decide) (by decide) (by decide)
      (by decide)
  have hearlier : Pipelining.upload.Within {} := ⟨by decide, by decide, by decide, by decide⟩
  have hwithin : (post.encoding post_addressable).Within {} :=
    ⟨by decide +kernel, by decide +kernel, by decide +kernel, by decide +kernel⟩
  have hall : ∀ r ∈ [Pipelining.upload, post.encoding post_addressable], r.Within {} := by
    intro r hr
    simp only [List.mem_cons, List.not_mem_nil, or_false] at hr
    rcases hr with rfl | rfl
    · exact hearlier
    · exact hwithin
  have hsegments : postSegments.flatten =
      [Pipelining.upload, post.encoding post_addressable].flatMap WireRequest.encode := by
    simp only [postSegments, List.flatten_cons, List.flatten_nil, List.append_nil, List.append_assoc,
      List.take_append_drop, List.flatMap_cons, List.flatMap_nil]
    rfl
  have hsent : SentFirst post {} s [Pipelining.upload] postSegments := {
    earlier_within := fun r hr => hall r (List.mem_cons.mpr (Or.inl (List.mem_singleton.mp hr)))
    earlier_open := by
      intro r hr
      rw [List.mem_singleton.mp hr]
      decide
    allowed := by decide
    encoded := ⟨_, encoding_encodes post post_addressable, hwithin, hsegments⟩
    fits := Pipelining.pipeline_fits hcreate _ hall _ hsegments (by decide +kernel) (by decide +kernel) }
  exact ⟨s, hcreate, same_request_dispatched hcreate (FeedRuns.endpoint_create_eq 8 (by decide)) hsent
    greeting post_sent⟩

def blankGet : Octets := octets "GET / HTTP/1.1\r\nHost:  h\r\nContent-Length: 0\r\n\r\n"

def blankPieces : List Octets :=
  [(RequestUploads.requestFrames 1 [0x82, 0x84, 0x01, 2, 32, 104] [] []).flatMap Frame.octets]

def smallBuffer : HttpSessionOptions := { initialBufferBytes := 64, maximumBufferBytes := 64 }

/-- The authority ` h`: `ParseHeaderLine` trims its blank, HTTP/2 delivers it. -/
theorem blank_authority_differs :
    let e := Runs.final Endpoint.handle (FeedRuns.endpoint 8 {} (by decide)) greeting
    ∃ s one two, HttpSession.create 7 smallBuffer = .ok s ∧
      (Runs.history SessionFeeds.fedSession s [blankGet]).flatMap SessionFeeds.dispatchedBy = [one] ∧
      (e.feeds UploadFeeds.quiet blankPieces).session.dispatched = [two] ∧
      two.headers = [⟨octets "host", octets " h"⟩] ∧ ¬ SameRequest one two := by
  intro e
  have hone : ((HttpSession.create 7 smallBuffer).toOption.map fun s =>
      ((Runs.history SessionFeeds.fedSession s [blankGet]).flatMap
        SessionFeeds.dispatchedBy).map HttpRequest.headers) =
      some [[⟨octets "host", octets "h"⟩, ⟨octets "content-length", octets "0"⟩]] := by
    decide +kernel
  have htwo : (e.feeds UploadFeeds.quiet blankPieces).session.dispatched.map HttpRequest.headers =
      [[⟨octets "host", octets " h"⟩]] := by
    decide +kernel
  obtain ⟨s, hcreate, hone⟩ := HttpSession.exists_created hone
  obtain ⟨one, hfirst, hone⟩ := List.map_eq_singleton_iff.mp hone
  obtain ⟨two, hsecond, htwo⟩ := List.map_eq_singleton_iff.mp htwo
  refine ⟨s, one, two, hcreate, hfirst, hsecond, htwo, ?_⟩
  intro same
  have hheaders := same.headers
  rw [hone, htwo] at hheaders
  exact absurd hheaders (by decide)

end Router

end IocpRuntime.Proofs.SameRequests
