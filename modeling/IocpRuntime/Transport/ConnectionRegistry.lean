import IocpRuntime.Buffer.Sequence

/-! The registry of the active connections. A hash map is the list of its entries; each function
is what the source does while it holds the registry's mutex. -/

namespace IocpRuntime.Transport
open Buffer

structure ConnectionRegistry (α : Type) where
  next : UInt64 := 1
  entries : List (UInt64 × α) := []
  totalAdded : UInt64 := 0
  totalRemoved : UInt64 := 0
  deriving DecidableEq, Repr

namespace ConnectionRegistry

variable {α : Type} (r : ConnectionRegistry α)

def nextId : UInt64 × ConnectionRegistry α := (r.next, { r with next := r.next + 1 })

def contains (id : UInt64) : Bool := r.entries.any (fun entry => entry.1 == id)

/-- `id` is the id of the connection. -/
def add (id : UInt64) (connection : Option α) : Except Thrown (ConnectionRegistry α) :=
  match connection with
  | none => .error (.invalidArgument "registry에 null connection을 추가할 수 없습니다")
  | some connection =>
    if r.contains id then .error (.logicError "같은 connection id가 registry에 이미 존재합니다")
    else
      .ok { r with entries := r.entries ++ [(id, connection)], totalAdded := r.totalAdded + 1 }

def remove (id : UInt64) : Bool × ConnectionRegistry α :=
  if r.contains id then
    (true, { r with
      entries := r.entries.filter (fun entry => entry.1 != id)
      totalRemoved := r.totalRemoved + 1 })
  else (false, r)

/-- The snapshot of `Connections`; the order of a hash map is not specified. -/
def connections : List α := r.entries.map Prod.snd

/-- What `WaitEmpty` waits for. -/
def empty : Bool := r.entries.isEmpty

end ConnectionRegistry

end IocpRuntime.Transport
