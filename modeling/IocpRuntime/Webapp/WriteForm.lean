import IocpRuntime.Lib.Search

namespace IocpRuntime.Webapp
open Lib

def hexValue (h : UInt8) : UInt8 :=
  if 48 ≤ h ∧ h ≤ 57 then h - 48
  else if 97 ≤ h ∧ h ≤ 102 then h - 97 + 10
  else if 65 ≤ h ∧ h ≤ 70 then h - 65 + 10
  else 0

/-- The decoding loop on what stands from its index on; an escape is replaced by one octet. -/
def percentDecode : Octets → Octets
  | c :: x :: y :: rest =>
    if c = 37 then (hexValue x <<< 4 ||| hexValue y) :: percentDecode rest
    else c :: percentDecode (x :: y :: rest)
  | rest => rest

def plusToSpace (text : Octets) : Octets := text.map fun c => if c = 43 then 32 else c

inductive WriteReply where
  | login
  | form
  | createPost (title content author : Octets)
  deriving DecidableEq

/-- The handler of POST /write, up to the call of `CreatePost`. -/
def handleWrite (loadSession : Octets → Octets) (session body : Octets) : WriteReply :=
  if session.isEmpty || (loadSession session).isEmpty then .login
  else
    let title := match search (octets "title=") body with
      | some eq => slice body (eq + 6) ((find body 38 (eq + 6)).getD body.length)
      | none => []
    let content := match search (octets "content=") body with
      | some eq => body.drop (eq + 8)
      | none => []
    let title := percentDecode (plusToSpace title)
    let content := percentDecode (plusToSpace content)
    if title.isEmpty || content.isEmpty then .form
    else .createPost title content (loadSession session)

end IocpRuntime.Webapp
