import IocpRuntime.Buffer.Sequence
import IocpRuntime.Http.Message

namespace IocpRuntime.Http
open Lib Buffer

/-- A `std::size_t` sum. -/
def wrap (n : Nat) : Nat := n % 2 ^ 64

structure HttpParserOptions where
  maximumRequestLineBytes : UInt64 := 8 * 1024
  maximumHeaderBytes : UInt64 := 32 * 1024
  maximumHeaderCount : UInt64 := 64
  maximumBodyBytes : UInt64 := 1024 * 1024
  deriving DecidableEq, Repr

inductive HttpParseStatus where
  | incomplete | complete | headersComplete | error
  deriving DecidableEq, Repr

inductive HttpParseError where
  | none | invalidLineEnding | requestLineTooLarge | invalidRequestLine | unsupportedVersion
  | invalidTarget | headerTooLarge | tooManyHeaders | invalidHeader | missingHost
  | duplicateHost | invalidContentLength | duplicateContentLength
  | unsupportedTransferEncoding | bodyTooLarge
  deriving DecidableEq, Repr

structure HttpParseResult where
  status : HttpParseStatus := .incomplete
  error : HttpParseError := .none
  consumedBytes : Nat := 0
  request : HttpRequest := {}
  expectContinue : Bool := false
  deriving DecidableEq, Repr

/-- `std::isalnum` in the default locale, and the other token characters. -/
def isTokenCharacter (value : UInt8) : Bool :=
  (48 ≤ value && value ≤ 57) || (65 ≤ value && value ≤ 90) || (97 ≤ value && value ≤ 122) ||
    (octets "!#$%&'*+-.^_`|~").contains value

def isBlank (value : UInt8) : Bool := value == 32 || value == 9

def trimOptionalWhitespace (value : Octets) : Octets :=
  ((value.dropWhile isBlank).reverse.dropWhile isBlank).reverse

/-- The elements `HeaderContainsToken` compares: the text between commas,
trimmed and in lower case. -/
def listElements (value : Octets) : List Octets :=
  (value.splitOn 44).map (fun element => lowercase (trimOptionalWhitespace element))

def headerContainsToken (value expected : Octets) : Bool := (listElements value).contains expected

def decimalDigit (parsed : Nat) (character : UInt8) : Option Nat :=
  if character < 48 ∨ character > 57 then none
  else
    let digit := (character - 48).toNat
    if parsed > (2 ^ 64 - 1 - digit) / 10 then none else some (parsed * 10 + digit)

def parseDecimalSize (value : Octets) : Option Nat :=
  if value = [] then none else value.foldlM decimalDigit 0

def hexDigit (byte : UInt8) : Option Nat :=
  if 48 ≤ byte ∧ byte ≤ 57 then some (byte - 48).toNat
  else if 97 ≤ byte ∧ byte ≤ 102 then some ((byte - 97).toNat + 10)
  else if 65 ≤ byte ∧ byte ≤ 70 then some ((byte - 65).toNat + 10)
  else none

def hexStep (parsed : Nat) (byte : UInt8) : Option Nat :=
  if parsed > (2 ^ 64 - 1) / 16 then none
  else (hexDigit byte).map (fun digit => parsed * 16 + digit)

def parseHexSize (value : Octets) : Option Nat :=
  if value = [] then none else value.foldlM hexStep 0

def skipChunkExtension (value : Octets) : Octets :=
  match find value 59 with
  | some semi => value.take semi
  | none => value

/-- `ParseRequestLine` on `request_`; an error is the argument of its `Fail`. -/
def parseRequestLine (request : HttpRequest) (line : Octets) :
    Except HttpParseError HttpRequest :=
  match find line 32 with
  | none => .error .invalidRequestLine
  | some firstSpace =>
    match find line 32 (firstSpace + 1) with
    | none => .error .invalidRequestLine
    | some secondSpace =>
      let method := line.take firstSpace
      let target := slice line (firstSpace + 1) secondSpace
      let query := find target 63
      let path := match query with
        | some query => target.take query
        | none => target
      if firstSpace = 0 ∨ secondSpace = firstSpace + 1 ∨ secondSpace + 1 ≥ line.length ∨
          (find line 32 (secondSpace + 1)).isSome then .error .invalidRequestLine
      else if !method.all isTokenCharacter then .error .invalidRequestLine
      else if line.drop (secondSpace + 1) ≠ octets "HTTP/1.1" then .error .unsupportedVersion
      else if target = [] ∨ target.head? ≠ some 47 ∨ (find target 35).isSome then
        .error .invalidTarget
      else if path = [] then .error .invalidTarget
      else .ok { request with
        method := parseMethod method
        methodText := method
        target := target
        path := path
        query := match query with
          | some query => target.drop (query + 1)
          | none => request.query }

def parseHeaderLine (request : HttpRequest) (line : Octets) : Except HttpParseError HttpRequest :=
  match find line 58 with
  | none => .error .invalidHeader
  | some colon =>
    let name := line.take colon
    let value := trimOptionalWhitespace (line.drop (colon + 1))
    if colon = 0 then .error .invalidHeader
    else if !name.all isTokenCharacter then .error .invalidHeader
    else if value.any (fun byte => (byte < 0x20 && byte != 9) || byte == 0x7f) then
      .error .invalidHeader
    else .ok { request with headers := request.headers ++ [⟨lowercase name, value⟩] }

inductive ParserState where
  | requestLine | headers | body | chunkHead | chunkBody | chunkTrailer | chunkEnd | error
  deriving DecidableEq, Repr

structure HttpRequestParser where
  options : HttpParserOptions
  state : ParserState := .requestLine
  request : HttpRequest := {}
  lineStart : Nat := 0
  scanOffset : Nat := 0
  headerBytes : Nat := 0
  contentLength : Nat := 0
  bodyOffset : Nat := 0
  chunkSize : Nat := 0
  chunkBodyOffset : Nat := 0
  hasChunked : Bool := false
  expectContinue : Bool := false
  expectContinueSent : Bool := false
  lastError : HttpParseError := .none
  deriving DecidableEq, Repr

/-- What the loop of `FinalizeHeaders` keeps. -/
structure HeaderTally where
  hostCount : Nat := 0
  contentLengthCount : Nat := 0
  connectionClose : Bool := false
  contentLength : Nat
  hasChunked : Bool
  expectContinue : Bool
  deriving DecidableEq, Repr

def HeaderTally.add (t : HeaderTally) (header : HttpHeader) : Except HttpParseError HeaderTally :=
  if header.name = octets "host" then
    if header.value = [] then .error .missingHost
    else .ok { t with hostCount := t.hostCount + 1 }
  else if header.name = octets "content-length" then
    match parseDecimalSize (trimOptionalWhitespace header.value) with
    | none => .error .invalidContentLength
    | some parsed => .ok { t with
        contentLengthCount := t.contentLengthCount + 1
        contentLength := parsed }
  else if header.name = octets "transfer-encoding" then
    if t.contentLengthCount > 0 then .error .invalidContentLength
    else if !headerContainsToken (trimOptionalWhitespace header.value) (octets "chunked") then
      .error .unsupportedTransferEncoding
    else .ok { t with hasChunked := true }
  else if header.name = octets "connection" then
    .ok { t with
      connectionClose := t.connectionClose || headerContainsToken header.value (octets "close") }
  else if header.name = octets "expect" then
    .ok { t with expectContinue := headerContainsToken header.value (octets "100-continue") }
  else .ok t

/-- The checks of `FinalizeHeaders` behind its loop. -/
def HeaderTally.check (t : HeaderTally) (options : HttpParserOptions) :
    Except HttpParseError HeaderTally :=
  if t.hostCount = 0 then .error .missingHost
  else if t.hostCount > 1 then .error .duplicateHost
  else if t.contentLengthCount > 1 then .error .duplicateContentLength
  else if t.contentLength > options.maximumBodyBytes.toNat then .error .bodyTooLarge
  else .ok t

inductive LineStatus where
  | incomplete | complete | error | limitExceeded
  deriving DecidableEq, Repr

structure LineResult where
  status : LineStatus := .incomplete
  value : Octets := []
  deriving DecidableEq, Repr

/-- One round of the loop in `Parse`: `continue`, `return`, or an exception that
leaves the parser as it is at that point. -/
inductive Turn where
  | next (parser : HttpRequestParser)
  | done (parser : HttpRequestParser) (result : HttpParseResult)
  | thrown (parser : HttpRequestParser) (exception : Thrown)
  deriving DecidableEq, Repr

/-- How a call of `Parse` ends; `running` says that the rounds did not suffice. -/
inductive Outcome where
  | returned (result : HttpParseResult)
  | thrown (exception : Thrown)
  | running
  deriving DecidableEq, Repr

/-- `std::vector::resize`, whose `max_size` is `PTRDIFF_MAX`. -/
def resize (body : Octets) (size : Nat) : Except Thrown Octets :=
  if size ≥ 2 ^ 63 then .error (.lengthError "vector::_M_default_append")
  else .ok (body.take size ++ List.replicate (size - body.length) 0)

namespace HttpRequestParser

def create (options : HttpParserOptions) : Except Thrown HttpRequestParser :=
  if options.maximumRequestLineBytes = 0 ∨ options.maximumHeaderBytes < 2 ∨
      options.maximumHeaderCount = 0 then
    .error (.invalidArgument "HTTP request line/header limit은 유효한 양수여야 합니다")
  else .ok { options := options }

def reset (p : HttpRequestParser) : HttpRequestParser := { options := p.options }

def fail (p : HttpRequestParser) (error : HttpParseError) : Turn :=
  .done { p with state := .error, lastError := error } { status := .error, error := error }

/-- The loop of `ReadLine`. The line start is never behind the scan offset. -/
def readLineLoop (p : HttpRequestParser) (input : BufferSequence) (maximumBytes : Nat) :
    Nat → Nat → Except Thrown (HttpRequestParser × LineResult)
  | 0, _ => .ok ({ p with scanOffset := input.size }, {})
  | rounds + 1, index =>
    if index < input.size then do
      let character ← input.byteAt index
      if character = 10 then return (p, { status := .error })
      else if character = 13 then
        if index + 1 ≥ input.size then return ({ p with scanOffset := index }, {})
        else do
          let next ← input.byteAt (index + 1)
          if next ≠ 10 then return (p, { status := .error })
          else
            let lineBytes := index - p.lineStart
            if lineBytes > maximumBytes then return (p, { status := .limitExceeded })
            else do
              let line ← if lineBytes = 0 then pure [] else input.copyTo p.lineStart lineBytes
              return ({ p with scanOffset := index + 2, lineStart := index + 2 },
                { status := .complete, value := line })
      else if index - p.lineStart + 1 > maximumBytes then return (p, { status := .limitExceeded })
      else readLineLoop p input maximumBytes rounds (index + 1)
    else return ({ p with scanOffset := input.size }, {})

def readLine (p : HttpRequestParser) (input : BufferSequence) (maximumBytes : Nat) :
    Except Thrown (HttpRequestParser × LineResult) :=
  p.readLineLoop input maximumBytes (input.size - p.scanOffset) p.scanOffset

/-- The counters of `FinalizeHeaders` and the members it writes to. -/
def tally (p : HttpRequestParser) : HeaderTally where
  contentLength := p.contentLength
  hasChunked := p.hasChunked
  expectContinue := p.expectContinue

def finalizeHeaders (p : HttpRequestParser) : Except HttpParseError HttpRequestParser := do
  let t ← p.request.headers.foldlM HeaderTally.add p.tally
  let t ← t.check p.options
  return { p with
    contentLength := t.contentLength
    hasChunked := t.hasChunked
    expectContinue := t.expectContinue
    request := { p.request with keepAlive := !t.connectionClose } }

def complete (p : HttpRequestParser) (input : BufferSequence) : Turn :=
  let consumedBytes := if p.hasChunked then p.scanOffset else p.bodyOffset + p.contentLength
  if p.contentLength ≠ 0 ∧ p.hasChunked = false then
    match resize p.request.body p.contentLength with
    | .error e => .thrown p e
    | .ok resized =>
      match input.copyTo p.bodyOffset p.contentLength with
      | .error e => .thrown { p with request := { p.request with body := resized } } e
      | .ok body => .done p.reset {
          status := .complete
          consumedBytes := consumedBytes
          request := { p.request with body := body } }
  else .done p.reset {
    status := .complete
    consumedBytes := consumedBytes
    request := p.request }

def onRequestLine (p : HttpRequestParser) (line : LineResult) : Turn :=
  match line.status with
  | .incomplete => .done p {}
  | .limitExceeded => p.fail .requestLineTooLarge
  | .error => p.fail .invalidLineEnding
  | .complete =>
    match parseRequestLine p.request line.value with
    | .error e => p.fail e
    | .ok request => .next { p with request := request, state := .headers }

/-- Behind `FinalizeHeaders`. The first time the client expects it, the header result is returned.
-/
def enterBody (p : HttpRequestParser) (input : BufferSequence) : Turn :=
  let announce := p.expectContinue && !p.expectContinueSent
  let p := { p with
    bodyOffset := p.scanOffset
    expectContinueSent := p.expectContinueSent || announce }
  if !p.hasChunked && p.contentLength == 0 then p.complete input
  else
    let p := { p with state := if p.hasChunked then .chunkHead else .body }
    if announce then
      .done p { status := .headersComplete, consumedBytes := p.scanOffset, expectContinue := true }
    else .next p

/-- A header line within the limits; the empty one ends the head. -/
def takeHeaderLine (p : HttpRequestParser) (input : BufferSequence) (value : Octets) : Turn :=
  if value = [] then
    match p.finalizeHeaders with
    | .error e => p.fail e
    | .ok p => p.enterBody input
  else if p.request.headers.length ≥ p.options.maximumHeaderCount.toNat then
    p.fail .tooManyHeaders
  else
    match parseHeaderLine p.request value with
    | .error e => p.fail e
    | .ok request => .next { p with request := request }

def onHeaderLine (p : HttpRequestParser) (input : BufferSequence) (line : LineResult) : Turn :=
  match line.status with
  | .incomplete => .done p {}
  | .limitExceeded => p.fail .headerTooLarge
  | .error => p.fail .invalidLineEnding
  | .complete =>
    let wireLineBytes := line.value.length + 2
    if wireLineBytes > p.options.maximumHeaderBytes.toNat - p.headerBytes then
      p.fail .headerTooLarge
    else
      takeHeaderLine { p with headerBytes := p.headerBytes + wireLineBytes } input line.value

def onBody (p : HttpRequestParser) (input : BufferSequence) : Turn :=
  if p.bodyOffset > 2 ^ 64 - 1 - p.contentLength then p.fail .bodyTooLarge
  else if input.size < p.bodyOffset + p.contentLength then .done p {}
  else p.complete input

/-- A line over the limit has no case here: its empty value is no size. -/
def onChunkHead (p : HttpRequestParser) (line : LineResult) : Turn :=
  match line.status with
  | .incomplete => .done p {}
  | .error => p.fail .invalidLineEnding
  | _ =>
    match parseHexSize (skipChunkExtension line.value) with
    | none => p.fail .invalidContentLength
    | some size => .next { p with
        chunkSize := size
        chunkBodyOffset := p.scanOffset
        state := if size = 0 then .chunkTrailer else .chunkBody }

/-- Both sums wrap, and nothing looks at the two octets behind the data. -/
def onChunkBody (p : HttpRequestParser) (input : BufferSequence) : Turn :=
  let chunkEnd := wrap (p.chunkBodyOffset + p.chunkSize + 2)
  let bodyStart := p.request.body.length
  if input.size < chunkEnd then .done p {}
  else if wrap (bodyStart + p.chunkSize) > p.options.maximumBodyBytes.toNat then
    p.fail .bodyTooLarge
  else
    match resize p.request.body (wrap (bodyStart + p.chunkSize)) with
    | .error e => .thrown p e
    | .ok resized =>
      match input.copyTo p.chunkBodyOffset p.chunkSize with
      | .error e => .thrown { p with request := { p.request with body := resized } } e
      | .ok data => .next { p with
          request := { p.request with body := resized.take bodyStart ++ data }
          scanOffset := chunkEnd
          lineStart := chunkEnd
          state := .chunkHead }

/-- A line over the limit has no case here either: its value is empty, and an
empty line ends the trailer. -/
def onChunkTrailer (p : HttpRequestParser) (line : LineResult) : Turn :=
  match line.status with
  | .incomplete => .done p {}
  | .error => p.fail .invalidLineEnding
  | _ => .next (if line.value = [] then { p with state := .chunkEnd } else p)

def lineLimit (p : HttpRequestParser) : Nat :=
  match p.state with
  | .requestLine => p.options.maximumRequestLineBytes.toNat
  | .headers => p.options.maximumHeaderBytes.toNat - p.headerBytes
  | .chunkTrailer => p.options.maximumHeaderBytes.toNat
  | _ => 256

def onLine (p : HttpRequestParser) (input : BufferSequence) (line : LineResult) : Turn :=
  match p.state with
  | .requestLine => p.onRequestLine line
  | .headers => p.onHeaderLine input line
  | .chunkTrailer => p.onChunkTrailer line
  | _ => p.onChunkHead line

/-- The body of the loop in `Parse`. No branch is for the error state. -/
def step (p : HttpRequestParser) (input : BufferSequence) : Turn :=
  match p.state with
  | .requestLine | .headers | .chunkHead | .chunkTrailer =>
    match p.readLine input p.lineLimit with
    | .error e => .thrown p e
    | .ok (p, line) => p.onLine input line
  | .body => p.onBody input
  | .chunkBody => p.onChunkBody input
  | .chunkEnd => p.complete input
  | .error => .next p

def loop (input : BufferSequence) : Nat → HttpRequestParser → HttpRequestParser × Outcome
  | 0, p => (p, .running)
  | rounds + 1, p =>
    match p.step input with
    | .next p => loop input rounds p
    | .done p result => (p, .returned result)
    | .thrown p e => (p, .thrown e)

/-- `Parse`. A round that goes on takes octets or leaves the trailer. -/
def parse (p : HttpRequestParser) (input : BufferSequence) : HttpRequestParser × Outcome :=
  if p.state = .error then (p, .returned { status := .error, error := p.lastError })
  else if input.size < p.scanOffset ∨ input.size < p.lineStart then
    ({ p with state := .error, lastError := .invalidRequestLine },
      .returned { status := .error, error := .invalidRequestLine })
  else loop input (2 * input.size + 2) p

end HttpRequestParser

end IocpRuntime.Http
