import IocpRuntime.Buffer.RingReceiveBuffer
import IocpRuntime.Http.Parser
import IocpRuntime.Http.Router

/-! One connection's HTTP/1.1 session: `Feed` appends to the receive buffer and parses and
dispatches what is complete. The executor answers every task that is posted. -/

namespace IocpRuntime.Http
open Lib Buffer Execution

structure HttpSessionOptions where
  initialBufferBytes : UInt64 := 4096
  maximumBufferBytes : UInt64 := 2 * 1024 * 1024
  maximumRequestsPerConnection : UInt64 := 100
  parser : HttpParserOptions := {}
  deriving DecidableEq, Repr

structure HttpSession where
  receiveBuffer : RingReceiveBuffer
  parser : HttpRequestParser
  maximumRequestsPerConnection : UInt64
  connectionId : Nat
  nextRequestId : Nat := 1
  stopped : Bool := false
  lastParseError : HttpParseError := .none
  requestsDispatched : Nat := 0
  /-- Set by the timer, where one is installed. -/
  parserTimedOut : Bool := false

/-- What a session makes others do. -/
inductive Effect where
  /-- The response sender is called on the thread of `Feed`. -/
  | send (response : HttpResponse)
  /-- The executor has accepted the task of a request. -/
  | dispatch (request : HttpRequest) (closeConnection : Bool)
  /-- The executor has accepted the task of an error response. -/
  | fail (response : HttpResponse)
  deriving DecidableEq, Repr

/-- A part of `Feed`: it goes on with the next round of its loop, returns, or is left by an
exception. -/
inductive Round where
  | goesOn (s : HttpSession) (dispatchedNow : Nat) (effects : List Effect)
  | returns (s : HttpSession) (result : ProtocolFeedResult) (effects : List Effect)
  | throws (s : HttpSession) (exception : Thrown)

/-- How a call of `Feed` ends; `running` says that the rounds did not suffice. -/
inductive FeedOutcome where
  | returned (result : ProtocolFeedResult)
  | thrown (exception : Thrown)
  | running
  deriving DecidableEq, Repr

namespace HttpSession

def create (connectionId : Nat) (options : HttpSessionOptions) : Except Thrown HttpSession := do
  let receiveBuffer ← RingReceiveBuffer.create options.initialBufferBytes options.maximumBufferBytes
  let parser ← HttpRequestParser.create options.parser
  if options.maximumRequestsPerConnection = 0 then
    throw (.invalidArgument "maximum HTTP requests per connection must be positive")
  return {
    receiveBuffer := receiveBuffer
    parser := parser
    maximumRequestsPerConnection := options.maximumRequestsPerConnection
    connectionId := connectionId }

theorem create_eq {connectionId : Nat} {options : HttpSessionOptions} {s : HttpSession}
    (h : create connectionId options = .ok s) :
    ∃ receiveBuffer parser,
      RingReceiveBuffer.create options.initialBufferBytes options.maximumBufferBytes =
        .ok receiveBuffer ∧
      HttpRequestParser.create options.parser = .ok parser ∧
      options.maximumRequestsPerConnection ≠ 0 ∧
      s = {
        receiveBuffer := receiveBuffer
        parser := parser
        maximumRequestsPerConnection := options.maximumRequestsPerConnection
        connectionId := connectionId } := by
  unfold create at h
  cases hr : RingReceiveBuffer.create options.initialBufferBytes options.maximumBufferBytes with
  | error e =>
    rw [hr] at h
    cases h
  | ok receiveBuffer =>
    rw [hr] at h
    cases hp : HttpRequestParser.create options.parser with
    | error e =>
      rw [hp] at h
      cases h
    | ok parser =>
      rw [hp] at h
      dsimp only [bind, Except.bind] at h
      split at h
      · cases h
      · rename_i hm
        cases h
        exact ⟨receiveBuffer, parser, rfl, rfl, hm, rfl⟩

theorem exists_created {α : Type} {connectionId : Nat} {options : HttpSessionOptions}
    {f : HttpSession → α} {value : α}
    (h : (create connectionId options).toOption.map f = some value) :
    ∃ s, create connectionId options = .ok s ∧ f s = value := by
  cases hc : create connectionId options with
  | error e =>
    rw [hc] at h
    cases h
  | ok s =>
    rw [hc] at h
    cases h
    exact ⟨s, rfl, rfl⟩

def statusCodeFor : HttpParseError → UInt16
  | .requestLineTooLarge | .invalidTarget => 414
  | .headerTooLarge | .tooManyHeaders => 431
  | .bodyTooLarge => 413
  | .none | .invalidLineEnding | .invalidRequestLine | .unsupportedVersion | .invalidHeader
  | .missingHost | .duplicateHost | .invalidContentLength | .duplicateContentLength
  | .unsupportedTransferEncoding => 400

def toFeedStatus : HttpDispatchStatus → ProtocolFeedStatus
  | .accepted => .ready
  | .executorStopped => .executorStopped
  | .executorSaturated => .executorSaturated

/-- `PostErrorResponse`, with the status `Feed` returns where the task is accepted. -/
def postErrorResponse (s : HttpSession) (statusCode : UInt16) (message : String)
    (dispatchedNow : Nat) (accepted : ProtocolFeedStatus) (submit : SubmitStatus) : Round :=
  let response := { makeTextResponse statusCode (octets message) with closeConnection := true }
  match submit with
  | .accepted =>
    .returns s ⟨accepted, dispatchedNow, s.receiveBuffer.readableBytes⟩ [.fail response]
  | .stopped => .returns s ⟨.executorStopped, dispatchedNow, s.receiveBuffer.readableBytes⟩ []
  | .saturated => .returns s ⟨.executorSaturated, dispatchedNow, s.receiveBuffer.readableBytes⟩ []

def enter (s : HttpSession) (bytes : Octets) (submit : SubmitStatus) : Round :=
  if s.parserTimedOut then
    .returns { s with stopped := true } ⟨.stopped, 0, s.receiveBuffer.readableBytes⟩ []
  else if s.stopped then .returns s ⟨.stopped, 0, s.receiveBuffer.readableBytes⟩ []
  else
    match s.receiveBuffer.append bytes with
    | .error e => .throws s e
    | .ok (.limitExceeded, _) =>
      postErrorResponse { s with stopped := true } 413 "payload too large\n" 0 .bufferLimitExceeded
        submit
    | .ok (.ready, receiveBuffer) => .goesOn { s with receiveBuffer := receiveBuffer } 0 []

/-- A request is off the buffer. -/
def dispatch (s : HttpSession) (request : HttpRequest) (dispatchedNow : Nat)
    (submit : SubmitStatus) : Round :=
  let requestsDispatched := s.requestsDispatched + 1
  let request := { request with requestId := s.nextRequestId, connectionId := s.connectionId }
  let closeConnection := !request.keepAlive ||
    decide (requestsDispatched ≥ s.maximumRequestsPerConnection.toNat)
  let s := { s with requestsDispatched := requestsDispatched, nextRequestId := s.nextRequestId + 1 }
  let status := toDispatchStatus submit
  if status ≠ .accepted then
    .returns { s with stopped := true }
      ⟨toFeedStatus status, dispatchedNow, s.receiveBuffer.readableBytes⟩ []
  else if closeConnection then
    .returns { s with stopped := true } ⟨.ready, dispatchedNow + 1, s.receiveBuffer.readableBytes⟩
      [.dispatch request closeConnection]
  else .goesOn s (dispatchedNow + 1) [.dispatch request closeConnection]

/-- What `Feed` does with a result of the parser. -/
def onParsed (s : HttpSession) (parsed : HttpParseResult) (dispatchedNow : Nat)
    (submit : SubmitStatus) : Round :=
  match parsed.status with
  | .headersComplete =>
    .goesOn s dispatchedNow
      (if parsed.expectContinue then [.send (makeTextResponse 100 [] (octets "text/plain"))] else [])
  | .incomplete => .returns s ⟨.ready, dispatchedNow, s.receiveBuffer.readableBytes⟩ []
  | .error =>
    postErrorResponse { s with stopped := true, lastParseError := parsed.error }
      (statusCodeFor parsed.error) "invalid HTTP request\n" dispatchedNow .protocolError submit
  | .complete =>
    match s.receiveBuffer.consume parsed.consumedBytes with
    | .error e => .throws s e
    | .ok receiveBuffer =>
      dispatch { s with receiveBuffer := receiveBuffer } parsed.request dispatchedNow submit

def round (s : HttpSession) (dispatchedNow : Nat) (submit : SubmitStatus) : Round :=
  match s.parser.parse s.receiveBuffer.readableSequence with
  | (parser, .returned parsed) => onParsed { s with parser := parser } parsed dispatchedNow submit
  | (parser, .thrown e) => .throws { s with parser := parser } e
  | (parser, .running) => .goesOn { s with parser := parser } dispatchedNow []

/-- A session, how a call of `Feed` on it has ended, and its effects. -/
structure Fed where
  session : HttpSession
  outcome : FeedOutcome
  effects : List Effect := []

/-- The rounds that follow. `submit` answers the tasks of the connection one by one. -/
def loop (submit : Nat → SubmitStatus) : Nat → HttpSession → Nat → Fed
  | 0, s, _ => ⟨s, .running, []⟩
  | rounds + 1, s, dispatchedNow =>
    match s.round dispatchedNow (submit s.requestsDispatched) with
    | .goesOn s dispatchedNow effects =>
      let fed := loop submit rounds s dispatchedNow
      { fed with effects := effects ++ fed.effects }
    | .returns s result effects => ⟨s, .returned result, effects⟩
    | .throws s e => ⟨s, .thrown e, []⟩

/-- `Feed`. A round that goes on takes a request off the buffer or is the first to come to
the body of one. -/
def feed (submit : Nat → SubmitStatus) (s : HttpSession) (bytes : Octets) : Fed :=
  match s.enter bytes (submit s.requestsDispatched) with
  | .goesOn s dispatchedNow effects =>
    let fed := loop submit (2 * s.receiveBuffer.readableBytes + 2) s dispatchedNow
    { fed with effects := effects ++ fed.effects }
  | .returns s result effects => ⟨s, .returned result, effects⟩
  | .throws s e => ⟨s, .thrown e, []⟩

end HttpSession

end IocpRuntime.Http
