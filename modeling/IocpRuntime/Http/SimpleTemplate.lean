import IocpRuntime.Http.QueryParams
import IocpRuntime.Lib.Search

namespace IocpRuntime.Http
open Lib

structure SimpleTemplate where
  source : Octets
  values : StringMap := ∅

namespace SimpleTemplate

def opening : Octets := [123, 123]

def closing : Octets := [125, 125]

def set (t : SimpleTemplate) (key value : Octets) : SimpleTemplate :=
  { t with values := emplace t.values key value }

/-- The loop of `Render` on the rest of the source; a round takes at least four octets of it. -/
def renderRounds (values : StringMap) : Nat → Octets → Octets
  | 0, _ => []
  | rounds + 1, rest =>
    match search opening rest with
    | none => rest
    | some first =>
      let inside := rest.drop (first + 2)
      match search closing inside with
      | none => rest
      | some last =>
        rest.take first ++ (values.lookup (inside.take last)).getD [] ++
          renderRounds values rounds (inside.drop (last + 2))

def render (t : SimpleTemplate) : Octets := renderRounds t.values (t.source.length + 1) t.source

end SimpleTemplate

end IocpRuntime.Http
