import IocpRuntime.Http.Exchange
import IocpRuntime.Http2.Frames
import IocpRuntime.Protocol.PrefaceProtocolBootstrap

/-! The receive handlers of the two servers on a connection that speaks HTTP/1.1: they feed
what arrives to the session and close the connection on some results. -/

namespace IocpRuntime.Server
open Lib Http Execution Protocol

inductive ServerKind where
  | httpServer (enableHttp2 : Bool)
  | webAppServer
  deriving DecidableEq, Repr

/-- The results on which the handler calls `BeginClose`. -/
def ServerKind.closesOn : ServerKind → ProtocolFeedStatus → Bool
  | .httpServer _, .executorStopped | .httpServer _, .executorSaturated
  | .httpServer _, .handlerNotFound | .httpServer _, .closeRequired | .httpServer _, .stopped => true
  | .httpServer _, .ready | .httpServer _, .bufferLimitExceeded | .httpServer _, .protocolError => false
  | .webAppServer, status => decide (status ≠ .ready)

/-- The session that the handler feeds. -/
inductive Front where
  | http1
  | detecting (pending : Octets)
  /-- The HTTP/2 session has been selected. -/
  | http2
  deriving DecidableEq, Repr

inductive Handler where
  | idle
  /-- In the handler, with the calls of `Feed` that are left if the result is `Ready`. -/
  | calling (segments : List Octets)
  deriving DecidableEq, Repr

structure Connection where
  exchange : Exchange
  front : Front
  handler : Handler := .idle
  /-- `BeginClose` was called, by anyone. -/
  closing : Bool := false
  /-- The tasks whose response could not be encoded. -/
  lost : List PostedTask := []

namespace Connection

def create (kind : ServerKind) (session : HttpSession) : Connection where
  exchange := { session := session }
  front := if kind = .httpServer true then .detecting [] else .http1

/-- The tasks whose response has not been handed to the connection. -/
def owed (c : Connection) : List PostedTask := c.lost ++ c.exchange.tasks

inductive Action where
  /-- The connection delivers a segment. -/
  | receive (bytes : Octets)
  /-- The handler calls `Feed`. -/
  | feed (submit : SubmitStatus)
  | round (submit : SubmitStatus)
  /-- The handler looks at the result and returns. -/
  | leave
  /-- The first task is run; `Encode` may throw. -/
  | runTask (encoded : Bool)
  /-- The peer, the transport, a timer or `Stop` closes the connection. -/
  | close
  deriving DecidableEq, Repr

def enterHandler (c : Connection) (segments : List Octets) : Connection :=
  { c with
    front := .http1
    handler := .calling segments
    exchange := { c.exchange with place := .outside } }

/-- A segment is delivered to a connection that is not closing. -/
def receive (c : Connection) (bytes : Octets) : Connection :=
  match c.handler, c.closing with
  | .idle, false =>
    match c.front with
    | .http1 => c.enterHandler [bytes]
    | .detecting pending =>
      match detect Http2.kPreface pending bytes with
      | .undecided pending => { c with front := .detecting pending }
      | .fallback pending remaining => c.enterHandler (selectedSegments pending remaining)
      | .matched _ _ => { c with front := .http2 }
    | .http2 => c
  | _, _ => c

def feed (c : Connection) (submit : SubmitStatus) : Connection :=
  match c.handler, c.exchange.place with
  | .calling (segment :: segments), .outside | .calling (segment :: segments), .returned .ready =>
    { c with handler := .calling segments, exchange := c.exchange.feed segment submit }
  | _, _ => c

/-- The handler is done with its calls of `Feed`, and this is the last result. -/
def result (c : Connection) : Option ProtocolFeedStatus :=
  match c.handler, c.exchange.place with
  | .calling [], .returned status => some status
  | .calling (_ :: _), .returned status => if status = .ready then none else some status
  | _, _ => none

/-- The handler calls `BeginClose`. -/
def closes (kind : ServerKind) (c : Connection) : Bool := c.result.any kind.closesOn

def leave (kind : ServerKind) (c : Connection) : Connection :=
  match c.result with
  | some _ => { c with handler := .idle, closing := c.closing || c.closes kind }
  | none =>
    match c.handler, c.exchange.place with
    -- an exception leaves the handler, and the connection closes itself
    | .calling _, .thrown _ => { c with handler := .idle, closing := true }
    | _, _ => c

/-- A response that cannot be encoded closes the connection. -/
def runTask (router : HttpRouter) (c : Connection) (encoded : Bool) : Connection :=
  if encoded then { c with exchange := c.exchange.runTask router }
  else
    match c.exchange.tasks with
    | [] => c
    | task :: tasks =>
      { c with
        exchange := { c.exchange with tasks := tasks }
        lost := c.lost ++ [task]
        closing := true }

def step (kind : ServerKind) (router : HttpRouter) (c : Connection) : Action → Connection
  | .receive bytes => c.receive bytes
  | .feed submit => c.feed submit
  | .round submit => { c with exchange := c.exchange.round submit }
  | .leave => c.leave kind
  | .runTask encoded => c.runTask router encoded
  | .close => { c with closing := true }

abbrev Event := Runs.Event Connection Action

end Connection

end IocpRuntime.Server
