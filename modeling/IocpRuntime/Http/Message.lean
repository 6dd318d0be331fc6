import IocpRuntime.Lib.Octets

namespace IocpRuntime.Http
open Lib

inductive HttpMethod where
  | get | post | put | delete | patch | head | options | unsupported
  deriving DecidableEq, Repr

structure HttpHeader where
  name : Octets
  value : Octets
  deriving DecidableEq, Repr

structure HttpRequest where
  method : HttpMethod := .unsupported
  methodText : Octets := []
  target : Octets := []
  path : Octets := []
  query : Octets := []
  headers : List HttpHeader := []
  body : Octets := []
  keepAlive : Bool := true
  requestId : Nat := 0
  connectionId : Nat := 0
  deriving DecidableEq, Repr

structure HttpResponse where
  statusCode : UInt16 := 200
  reasonPhrase : Octets := []
  headers : List HttpHeader := []
  body : Octets := []
  closeConnection : Bool := false
  deriving DecidableEq, Repr

def parseMethod (value : Octets) : HttpMethod :=
  if value = octets "GET" then .get
  else if value = octets "POST" then .post
  else if value = octets "PUT" then .put
  else if value = octets "DELETE" then .delete
  else if value = octets "PATCH" then .patch
  else if value = octets "HEAD" then .head
  else if value = octets "OPTIONS" then .options
  else .unsupported

/-- `std::tolower` in the default locale. -/
def toLower (c : UInt8) : UInt8 := if 65 ≤ c ∧ c ≤ 90 then c + 32 else c

/-- `Lowercase`, which the parser and the outbound scheduler each define. -/
def lowercase (value : Octets) : Octets := value.map toLower

end IocpRuntime.Http
