import IocpRuntime.Buffer.Sequence
import IocpRuntime.Lib.Heap

/-! The timer service: its heap of deadlines, the threads that schedule and cancel, and the
worker. The source counts both identifiers and ticks of its clock in 64 bits; here neither is
bounded, so runs of 2^64 timers, or past the end of the clock, are left out. -/

namespace IocpRuntime.Timers
open Buffer Lib

/-- A callback is the one of its identifier; a cancelled entry has none. -/
structure Entry where
  deadline : Int
  id : Nat
  callback : Bool
  deriving DecidableEq, Repr

structure TimerService where
  heap : List Entry := []
  nextId : Nat := 1
  stopped : Bool := false
  deriving DecidableEq, Repr

namespace TimerService

variable (t : TimerService)

/-- What `Schedule` does before it takes the lock; the entry is pushed under the lock. -/
def schedule (now duration : Int) (callback : Bool) : Except Thrown (Entry × TimerService) :=
  if !callback then .error (.invalidArgument "TimerService callback must not be empty")
  else .ok (⟨now + duration, t.nextId, callback⟩, { t with nextId := t.nextId + 1 })

/-- The first entry with the identifier loses its callback and keeps its place. -/
def mute (id : Nat) : List Entry → Option (List Entry)
  | [] => none
  | entry :: heap =>
    if entry.id = id then some ({ entry with callback := false } :: heap)
    else (mute id heap).map (entry :: ·)

def cancel (id : Nat) : Bool × TimerService :=
  match mute id t.heap with
  | some heap => (true, { t with heap })
  | none => (false, t)

def activeCount : Nat := t.heap.length

end TimerService

/-- The worker waits, has taken an entry out of the heap, or runs its callback. -/
inductive Worker where
  | waiting
  | taken (entry : Entry)
  | calling
  deriving DecidableEq, Repr

/-- The `Schedule` calls that wait for the lock, and a record of what was done: `started` has the
time of the call, `discarded` the timers that `Stop` cleared. -/
structure TimerSystem where
  service : TimerService := {}
  clock : Int := 0
  calls : List Entry := []
  worker : Worker := .waiting
  joined : Bool := false
  scheduled : List Entry := []
  taken : List Entry := []
  started : List (Entry × Int) := []
  cancelled : List Nat := []
  discarded : List Nat := []
  deriving DecidableEq, Repr

/-- `Schedule` is `schedule`, at a clock it has read, and `push`; `Reschedule` is `cancel` and these
two; `Stop` is `stop` and `clear`; the worker is the rest. The arrangement of a heap is free. -/
inductive TimerAction where
  | tick (now : Int)
  | schedule (now duration : Int) (callback : Bool)
  | push (entry : Entry) (arranged : List Entry)
  | cancel (id : Nat)
  | take (arranged : List Entry)
  | call
  | returned
  | stop
  | clear
  deriving DecidableEq, Repr

namespace TimerSystem

def Arranged (arranged entries : List Entry) : Prop :=
  arranged.Perm entries ∧ IsHeap (arranged.map Entry.deadline)

instance (arranged entries : List Entry) : Decidable (Arranged arranged entries) :=
  inferInstanceAs (Decidable (_ ∧ _))

/-- A step that cannot be taken changes nothing. -/
def step (s : TimerSystem) : TimerAction → TimerSystem
  | .tick now => { s with clock := max s.clock now }
  | .schedule now duration callback =>
    match s.service.schedule now duration callback with
    | .ok (entry, service) =>
      if now ≤ s.clock then { s with service, calls := entry :: s.calls } else s
    | .error _ => s
  | .push entry arranged =>
    if entry ∈ s.calls ∧ Arranged arranged (entry :: s.service.heap) then
      { s with
        service := { s.service with heap := arranged }
        calls := s.calls.erase entry
        scheduled := entry :: s.scheduled }
    else s
  | .cancel id =>
    match s.service.cancel id with
    | (true, service) => { s with service, cancelled := id :: s.cancelled }
    | (false, _) => s
  | .take arranged =>
    match s.service.heap with
    | front :: rest =>
      if s.worker = .waiting ∧ s.service.stopped = false ∧ front.deadline ≤ s.clock ∧
          Arranged arranged rest then
        { s with
          service := { s.service with heap := arranged }
          worker := if front.callback then .taken front else .waiting
          taken := front :: s.taken }
      else s
    | [] => s
  | .call =>
    match s.worker with
    | .taken entry => { s with worker := .calling, started := (entry, s.clock) :: s.started }
    | _ => s
  | .returned => if s.worker = .calling then { s with worker := .waiting } else s
  | .stop => { s with service := { s.service with stopped := true } }
  | .clear =>
    if s.service.stopped ∧ s.worker = .waiting ∧ s.joined = false then
      { s with
        service := { s.service with heap := [] }
        joined := true
        discarded := s.service.heap.map Entry.id ++ s.discarded }
    else s

/-- The timers scheduled and neither taken, cancelled nor discarded. -/
def outstanding (s : TimerSystem) : Nat :=
  s.scheduled.countP fun entry =>
    entry.id ∉ s.taken.map Entry.id ∧ entry.id ∉ s.cancelled ∧ entry.id ∉ s.discarded

end TimerSystem

end IocpRuntime.Timers
