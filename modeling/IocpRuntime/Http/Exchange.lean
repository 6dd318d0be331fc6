import IocpRuntime.Http.Session
import IocpRuntime.Lib.Runs

/-! A session and the tasks that it has posted. The thread that calls `Feed` and the executor
take turns; the executor runs the tasks one by one, in the order in which it accepted them. -/

namespace IocpRuntime.Http
open Lib Buffer Execution

/-- A task that the executor has accepted. -/
inductive PostedTask where
  | respond (request : HttpRequest) (closeConnection : Bool)
  | fail (requestId : Nat) (response : HttpResponse)
  deriving DecidableEq, Repr

/-- A response given to the sender, and its request; an error answers the one being read. -/
structure Sent where
  requestId : Nat
  interim : Bool
  response : HttpResponse
  deriving DecidableEq, Repr

/-- Where the thread is that calls `Feed`. -/
inductive Place where
  | outside
  | feeding (dispatchedNow : Nat)
  | returned (status : ProtocolFeedStatus)
  | thrown (exception : Thrown)
  deriving DecidableEq, Repr

structure Exchange where
  session : HttpSession
  place : Place := .outside
  tasks : List PostedTask := []
  sent : List Sent := []

namespace Exchange

def answer (router : HttpRouter) : PostedTask → Sent
  | .respond request closeConnection =>
    ⟨request.requestId, false, router.respond request closeConnection⟩
  | .fail requestId response => ⟨requestId, false, response⟩

def perform (requestId : Nat) (x : Exchange) : Effect → Exchange
  | .send response => { x with sent := x.sent ++ [⟨requestId, true, response⟩] }
  | .dispatch request closeConnection =>
    { x with tasks := x.tasks ++ [.respond request closeConnection] }
  | .fail response => { x with tasks := x.tasks ++ [.fail requestId response] }

/-- A part of `Feed` is executed. -/
def take (x : Exchange) : Round → Exchange
  | .goesOn s dispatchedNow effects =>
    effects.foldl (perform x.session.nextRequestId)
      { x with session := s, place := .feeding dispatchedNow }
  | .returns s result effects =>
    effects.foldl (perform x.session.nextRequestId)
      { x with session := s, place := .returned result.status }
  | .throws s e => { x with session := s, place := .thrown e }

inductive Action where
  /-- `Feed` is called. The executor answers the task that is posted, if there is one. -/
  | feed (bytes : Octets) (submit : SubmitStatus)
  /-- The next round of its loop. -/
  | round (submit : SubmitStatus)
  /-- The first task is run. -/
  | runTask
  deriving DecidableEq, Repr

def feed (x : Exchange) (bytes : Octets) (submit : SubmitStatus) : Exchange :=
  match x.place with
  | .feeding _ => x
  | .outside | .returned _ | .thrown _ => x.take (x.session.enter bytes submit)

def round (x : Exchange) (submit : SubmitStatus) : Exchange :=
  match x.place with
  | .feeding dispatchedNow => x.take (x.session.round dispatchedNow submit)
  | .outside | .returned _ | .thrown _ => x

def runTask (router : HttpRouter) (x : Exchange) : Exchange :=
  match x.tasks with
  | [] => x
  | task :: tasks => { x with tasks := tasks, sent := x.sent ++ [answer router task] }

def step (router : HttpRouter) (x : Exchange) : Action → Exchange
  | .feed bytes submit => x.feed bytes submit
  | .round submit => x.round submit
  | .runTask => x.runTask router

abbrev Event := Runs.Event Exchange Action

end Exchange

end IocpRuntime.Http
