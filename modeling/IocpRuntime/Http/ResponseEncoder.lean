import IocpRuntime.Http.Parser

/-! The encoder of HTTP/1.1 responses: a head of lines that end in CRLF, and the body as it is. -/

namespace IocpRuntime.Http
open Lib Buffer

structure HttpResponseEncoderOptions where
  serverName : Octets := octets "iocp-http-runtime"
  maximumHeaderBytes : UInt64 := 32 * 1024
  deriving DecidableEq, Repr

structure EncodedHttpResponse where
  head : Octets
  body : Octets
  closeConnection : Bool := false
  deriving DecidableEq, Repr

def defaultReasonPhrase (statusCode : UInt16) : Octets :=
  match statusCode.toNat with
  | 200 => octets "OK"
  | 400 => octets "Bad Request"
  | 404 => octets "Not Found"
  | 405 => octets "Method Not Allowed"
  | 413 => octets "Payload Too Large"
  | 414 => octets "URI Too Long"
  | 431 => octets "Request Header Fields Too Large"
  | 500 => octets "Internal Server Error"
  | 503 => octets "Service Unavailable"
  | _ => octets "Unknown"

def isForbidden (byte : UInt8) : Bool := (byte < 0x20 && byte != 9) || byte == 0x7f

def validateHeader (header : HttpHeader) : Except Thrown Unit :=
  if header.name = [] then
    .error (.invalidArgument "HTTP response header 이름은 비어 있을 수 없습니다")
  else if !header.name.all isTokenCharacter then
    .error (.invalidArgument "HTTP response header 이름이 token 규칙을 위반합니다")
  else if header.value.any isForbidden then
    .error (.invalidArgument "HTTP response header 값에 금지된 문자가 있습니다")
  else .ok ()

def headerLine (header : HttpHeader) : Octets :=
  header.name ++ octets ": " ++ header.value ++ octets "\r\n"

def hasName (headers : List HttpHeader) (name : Octets) : Bool :=
  headers.any (fun header => lowercase header.name == name)

/-- The first loop of `Encode`: it checks every header, and writes those that it does not
replace. -/
def headerLines : List HttpHeader → Except Thrown Octets
  | [] => .ok []
  | header :: headers => do
    validateHeader header
    let rest ← headerLines headers
    let name := lowercase header.name
    if name = octets "content-length" ∨ name = octets "connection" then return rest
    else return headerLine header ++ rest

def statusLine (statusCode : UInt16) (reason : Octets) : Octets :=
  octets "HTTP/1.1 " ++ octets (toString statusCode.toNat) ++ octets " " ++ reason ++ octets "\r\n"

/-- The lines that `Encode` adds behind the headers of the response. -/
def trailingLines (serverName : Octets) (response : HttpResponse) : Octets :=
  (if hasName response.headers (octets "server") then []
    else octets "Server: " ++ serverName ++ octets "\r\n") ++
  (if hasName response.headers (octets "transfer-encoding") then
      octets "Transfer-Encoding: chunked\r\n"
    else octets "Content-Length: " ++ octets (toString response.body.length) ++ octets "\r\n") ++
  (if response.closeConnection then octets "Connection: close\r\n"
    else octets "Connection: keep-alive\r\n") ++
  octets "\r\n"

def reasonOf (response : HttpResponse) : Octets :=
  if response.reasonPhrase = [] then defaultReasonPhrase response.statusCode
  else response.reasonPhrase

/-- The constructor of an encoder, which is its options. -/
def createEncoder (options : HttpResponseEncoderOptions) :
    Except Thrown HttpResponseEncoderOptions :=
  if options.serverName.isEmpty || options.maximumHeaderBytes == 0 then
    .error (.invalidArgument "HTTP response encoder 설정이 유효하지 않습니다")
  else .ok options

def encode (options : HttpResponseEncoderOptions) (response : HttpResponse) :
    Except Thrown EncodedHttpResponse := do
  if response.statusCode < 100 ∨ response.statusCode > 599 then
    throw (.invalidArgument "HTTP response status code는 100..599 범위여야 합니다")
  let reason := reasonOf response
  if 13 ∈ reason ∨ 10 ∈ reason then
    throw (.invalidArgument "HTTP reason phrase에 줄바꿈을 사용할 수 없습니다")
  let lines ← headerLines response.headers
  let head := statusLine response.statusCode reason ++ lines ++
    trailingLines options.serverName response
  if head.length > options.maximumHeaderBytes.toNat then
    throw (.lengthError "HTTP response header가 설정된 상한을 넘습니다")
  return { head, body := response.body, closeConnection := response.closeConnection }

/-- What a response is encoded as. -/
structure Encoded (options : HttpResponseEncoderOptions) (response : HttpResponse)
    (encoded : EncodedHttpResponse) (lines : Octets) : Prop where
  reason : 13 ∉ reasonOf response ∧ 10 ∉ reasonOf response
  checked : headerLines response.headers = .ok lines
  head : encoded.head = statusLine response.statusCode (reasonOf response) ++ lines ++
    trailingLines options.serverName response
  fits : encoded.head.length ≤ options.maximumHeaderBytes.toNat
  body : encoded.body = response.body

theorem encode_encoded (h : encode options response = .ok encoded) :
    ∃ lines, Encoded options response encoded lines := by
  unfold encode at h
  simp only [bind, Except.bind, throw, throwThe, MonadExceptOf.throw, pure, Except.pure] at h
  split at h
  · cases h
  · split at h
    · cases h
    · rename_i hr
      split at h
      · cases h
      · rename_i lines hl
        split at h
        · cases h
        · rename_i hf
          cases h
          exact ⟨lines, not_or.mp hr, hl, rfl, Nat.not_lt.mp hf, rfl⟩

theorem Encoded.head_ne_nil (h : Encoded options response encoded lines) : encoded.head ≠ [] := by
  simp [h.head, statusLine, octets]

end IocpRuntime.Http
