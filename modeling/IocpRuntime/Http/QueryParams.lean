import Mathlib.Data.List.AList
import IocpRuntime.Lib.Octets

namespace IocpRuntime.Http
open Lib

/-- `std::unordered_map<std::string, std::string>`. -/
abbrev StringMap := AList (fun _ : Octets => Octets)

/-- `emplace`: a key that is there keeps its value. -/
def emplace (map : StringMap) (key value : Octets) : StringMap :=
  if (map.lookup key).isSome then map else map.insert key value

/-- The loop of `QueryParams`; a round takes at least one octet off `remaining`. -/
def queryRounds : Nat → Octets → StringMap → StringMap
  | 0, _, params => params
  | rounds + 1, remaining, params =>
    if remaining = [] then params
    else
      let eq := find remaining 61
      let amp := find remaining 38
      let segmentEnd := amp.getD remaining.length
      let key := match eq with
        | some eq => remaining.take eq
        | none => remaining
      let val := match eq with
        | some eq => if eq < segmentEnd then slice remaining (eq + 1) segmentEnd else []
        | none => []
      let params := emplace params key val
      match amp with
      | none => params
      | some amp => queryRounds rounds (remaining.drop (amp + 1)) params

def queryParams (query : Octets) : StringMap := queryRounds query.length query ∅

end IocpRuntime.Http
