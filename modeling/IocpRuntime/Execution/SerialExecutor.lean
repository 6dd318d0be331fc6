import IocpRuntime.Execution.Executor

/-! An executor that runs its tasks one after the other on another executor. `Post` submits
one call of `Drain` to the underlying executor, which takes the tasks from the queue until
it is empty. -/

namespace IocpRuntime.Execution
open Buffer

structure SerialExecutor (τ : Type) extends TaskQueue τ where
  drainScheduled : Bool := false
  deriving DecidableEq, Repr

/-- A call of `Drain` is run later, or before `Accepted` is answered (`InlineExecutor`), or throws.
-/
inductive Underlying where
  | answers (status : SubmitStatus)
  | runsInline
  | throws (exception : Thrown)
  deriving DecidableEq, Repr

/-- A call of `Drain` that was accepted and has not returned. -/
structure DrainCall (τ : Type) where
  /-- The task it runs, if it has taken one. -/
  executing : Option τ := none
  /-- It runs inside the `Post` that submitted it, under the mutex. -/
  inline : Bool := false
  deriving DecidableEq, Repr

structure Posted (τ : Type) where
  result : Except Thrown SubmitStatus
  executor : SerialExecutor τ
  drain : Option (DrainCall τ) := none

def Posted.accepted {τ : Type} (posted : Posted τ) : Bool :=
  match posted.result with
  | .ok .accepted => true
  | _ => false

namespace SerialExecutor

variable {τ : Type} (e : SerialExecutor τ)

def create (underlying : Bool) (maximumPendingTasks : Nat) : Except Thrown (SerialExecutor τ) :=
  if !underlying then
    .error (.invalidArgument "SerialExecutor에는 underlying executor가 필요합니다")
  else if maximumPendingTasks = 0 then
    .error (.invalidArgument "serial executor queue 상한은 1 이상이어야 합니다")
  else .ok { maximumPendingTasks }

/-- The executor with its task withdrawn after the underlying executor has refused. -/
def withdraw : SerialExecutor τ :=
  { e with toTaskQueue := e.toTaskQueue.popBack, drainScheduled := false }

def post (task : Option τ) (underlying : Underlying) : Posted τ :=
  match task with
  | none => { result := .error emptyTask, executor := e }
  | some task =>
    if e.admission ≠ .accepted then { result := .ok e.admission, executor := e }
    else
      let e := { e with toTaskQueue := e.toTaskQueue.pushBack task }
      if e.drainScheduled then { result := .ok .accepted, executor := e }
      else
        let e := { e with drainScheduled := true }
        match underlying with
        | .answers .accepted => { result := .ok .accepted, executor := e, drain := some {} }
        | .runsInline =>
          { result := .ok .accepted, executor := e, drain := some { inline := true } }
        | .answers .saturated => { result := .ok .saturated, executor := e.withdraw }
        | .answers .stopped =>
          { result := .ok .stopped, executor := { e.withdraw with state := .stopped } }
        | .throws exception => { result := .error exception, executor := e.withdraw }

def stop (mode : StopMode) : SerialExecutor τ :=
  if e.state = .stopped then e
  else
    { e with toTaskQueue := (e.toTaskQueue.requestStop mode).moveToStoppedIfDrainedLocked }

/-- The section at the top of the loop of `Drain`: the task it runs next, or it returns. -/
def drain : Option τ × SerialExecutor τ :=
  match e.popFront with
  | none =>
    (none, { e with
      toTaskQueue := e.toTaskQueue.moveToStoppedIfDrainedLocked, drainScheduled := false })
  | some (task, q) => (some task, { e with toTaskQueue := q })

/-- The section of `Drain` after a task has returned. -/
def drained : SerialExecutor τ :=
  { e with toTaskQueue := e.toTaskQueue.complete.moveToStoppedIfDrainedLocked }

end SerialExecutor

/-- A serial executor with its calls of `Drain` between two sections. -/
structure Serialising (τ : Type) where
  executor : SerialExecutor τ
  drains : List (DrainCall τ) := []
  deriving DecidableEq, Repr

inductive SerialAction (τ : Type) where
  | post (task : Option τ) (underlying : Underlying)
  | stop (mode : StopMode)
  | drain (index : Nat)
  deriving DecidableEq, Repr

namespace Serialising

variable {τ : Type} (s : Serialising τ)

/-- While a `Post` holds the recursive mutex, only its `Drain` and the task that runs can enter. -/
def enters : SerialAction τ → Bool
  | .drain index =>
    !s.drains.any DrainCall.inline || (s.drains[index]?.any DrainCall.inline)
  | _ =>
    match s.drains.find? DrainCall.inline with
    | none => true
    | some call => call.executing.isSome

def drainStep (index : Nat) (call : DrainCall τ) : Serialising τ :=
  match call.executing with
  | some _ =>
    { executor := s.executor.drained, drains := s.drains.set index { call with executing := none } }
  | none =>
    match s.executor.drain with
    | (some task, executor) =>
      { executor, drains := s.drains.set index { call with executing := some task } }
    | (none, executor) => { executor, drains := s.drains.eraseIdx index }

/-- A section some thread runs next; a thread that cannot enter the mutex waits. -/
def step (action : SerialAction τ) : Serialising τ :=
  if !s.enters action then s
  else
    match action with
    | .post task underlying =>
      { executor := (s.executor.post task underlying).executor
        drains := s.drains ++ (s.executor.post task underlying).drain.toList }
    | .stop mode => { s with executor := s.executor.stop mode }
    | .drain index =>
      match s.drains[index]? with
      | none => s
      | some call => s.drainStep index call

end Serialising

end IocpRuntime.Execution
