import IocpRuntime.Buffer.Sequence

/-! Executors of tasks. `TaskQueue` is what the executors with a queue of their own have
in common; each function is what the source does while it holds the mutex. -/

namespace IocpRuntime.Execution
open Buffer

inductive SubmitStatus where
  | accepted
  | stopped
  | saturated
  deriving DecidableEq, Repr

inductive StopMode where
  | drain
  | cancelPending
  deriving DecidableEq, Repr

inductive ExecutionState where
  | running
  | stopping
  | stopped
  deriving DecidableEq, Repr

/-- An empty `std::function` is refused by every executor. -/
def emptyTask : Thrown := .invalidArgument "executor task는 비어 있을 수 없습니다"

structure TaskQueue (τ : Type) where
  maximumPendingTasks : Nat
  tasks : List τ := []
  state : ExecutionState := .running
  stopMode : StopMode := .drain
  runningTasks : Nat := 0
  completedTasks : Nat := 0
  cancelledTasks : Nat := 0
  deriving DecidableEq, Repr

namespace TaskQueue

variable {τ : Type} (q : TaskQueue τ)

/-- The answer to a submission, before the task is queued. -/
def admission : SubmitStatus :=
  if q.state ≠ .running then .stopped
  else if q.tasks.length ≥ q.maximumPendingTasks then .saturated
  else .accepted

def pushBack (task : τ) : TaskQueue τ := { q with tasks := q.tasks ++ [task] }

def popBack : TaskQueue τ := { q with tasks := q.tasks.dropLast }

/-- The front task, and the queue while it runs. -/
def popFront : Option (τ × TaskQueue τ) :=
  match q.tasks with
  | [] => none
  | task :: rest => some (task, { q with tasks := rest, runningTasks := q.runningTasks + 1 })

def complete : TaskQueue τ :=
  { q with runningTasks := q.runningTasks - 1, completedTasks := q.completedTasks + 1 }

/-- The part of `Stop` that all these executors share; the first mode stays unless
`CancelPending` follows. -/
def requestStop (mode : StopMode) : TaskQueue τ :=
  let q :=
    if q.state = .running then { q with state := .stopping, stopMode := mode }
    else if mode = .cancelPending then { q with stopMode := .cancelPending }
    else q
  if q.stopMode = .cancelPending then
    { q with cancelledTasks := q.cancelledTasks + q.tasks.length, tasks := [] }
  else q

def moveToStoppedIfDrainedLocked : TaskQueue τ :=
  if q.state = .stopping ∧ q.tasks = [] ∧ q.runningTasks = 0 then { q with state := .stopped }
  else q

end TaskQueue

/-- An executor whose tasks run when a caller asks for it. -/
abbrev ManualExecutor (τ : Type) := TaskQueue τ

namespace ManualExecutor

variable {τ : Type}

def create (maximumPendingTasks : Nat) : Except Thrown (ManualExecutor τ) :=
  if maximumPendingTasks = 0 then
    .error (.invalidArgument "manual executor queue 상한은 1 이상이어야 합니다")
  else .ok { maximumPendingTasks }

def post (e : ManualExecutor τ) (task : Option τ) :
    Except Thrown SubmitStatus × ManualExecutor τ :=
  match task with
  | none => (.error emptyTask, e)
  | some task => (.ok e.admission, if e.admission = .accepted then e.pushBack task else e)

/-- The first section of `RunOne`: the task it runs, if there is one. -/
def runOne (e : ManualExecutor τ) : Option τ × ManualExecutor τ :=
  match e.popFront with
  | none => (none, e.moveToStoppedIfDrainedLocked)
  | some (task, e) => (some task, e)

/-- The second section of `RunOne`, after the task has returned. -/
def ranOne (e : ManualExecutor τ) : ManualExecutor τ := e.complete.moveToStoppedIfDrainedLocked

def stop (e : ManualExecutor τ) (mode : StopMode) : ManualExecutor τ :=
  if e.state = .stopped then e else (e.requestStop mode).moveToStoppedIfDrainedLocked

end ManualExecutor

end IocpRuntime.Execution
