import IocpRuntime.Buffer.Sequence

/-! The posts of the board. -/

namespace IocpRuntime.Webapp
open Lib Buffer

/-- The four characters that `HtmlEscape` replaces, with what it puts in their place. -/
def entities : List (UInt8 × Octets) :=
  [(60, octets "&lt;"), (62, octets "&gt;"), (38, octets "&amp;"), (34, octets "&quot;")]

def escapeOctet (c : UInt8) : Octets :=
  match entities.lookup c with
  | some entity => entity
  | none => [c]

def htmlEscape (value : Octets) : Octets := value.flatMap escapeOctet

/-- A post without its date, which is no text of the user. -/
structure Post where
  id : Nat
  title : Octets
  author : Octets
  content : Octets
  deriving DecidableEq

/-- `CreatePost`, with the next number of its counter. -/
def createPost (nextPostId : Nat) (title content author : Octets) : Except Thrown Post :=
  if title.isEmpty || content.isEmpty then
    .error (.invalidArgument "제목과 내용은 비워둘 수 없습니다")
  else .ok {
    id := nextPostId
    title := htmlEscape title
    author := author
    content := htmlEscape content }

/-- The texts that `HandlePostDetail` sets in its page, for a post that the database gives back as
it was added: `InsertPost` writes the texts into a statement, where a quote would end them. -/
def detailFields (post : Post) : List Octets :=
  [htmlEscape post.title, htmlEscape post.author, htmlEscape post.content]

/-- The texts of a post in the list of `HandleBoardPage`. -/
def boardFields (post : Post) : List Octets := [htmlEscape post.title, htmlEscape post.author]

end IocpRuntime.Webapp
