import IocpRuntime.Transport.SendQueue

/-! A TCP connection over overlapped socket calls. Each function below is what the
source does while it holds the connection's mutex; `Running` adds what happens
between these sections: operations the system has not completed, receive handlers
that have not returned and removals from the registry that are still to be made. -/

namespace IocpRuntime.Transport
open Lib Buffer

inductive ConnectionState where
  | active
  | closing
  | closed
  deriving DecidableEq, Repr

inductive CloseReason where
  | none
  | localShutdown
  | peerClosed
  | receiveError
  | sendError
  | sendQueueOverflow
  | handlerError
  | protocolClose
  deriving DecidableEq, Repr

inductive SendStatus where
  | accepted
  | closed
  | queueOverflow
  | startFailed
  deriving DecidableEq, Repr

structure ConnectionOptions where
  maximumSendQueueItems : Nat := 64
  maximumSendQueueBytes : Nat := 1024 * 1024
  receiveChunkBytes : Nat := 4096
  maximumGatherSegmentsPerOperation : Nat := 16
  maximumGatherBytesPerOperation : Nat := 64 * 1024
  maximumOutboundBatchSegments : Nat := 16
  deriving DecidableEq, Repr

/-- A receive into a buffer of a given size, or a send of gathered slices. -/
inductive Operation where
  | receive (storageBytes : Nat)
  | send (gather : SendGather)
  deriving DecidableEq, Repr

/-- The code of a socket call that failed at once. -/
abbrev WinsockError := { code : Nat // code ≠ 0 }

def wsaEInval : Nat := 10022
def wsaEAlready : Nat := 10037
def wsaEShutdown : Nat := 10058

structure TcpConnection where
  id : UInt64
  receiveChunkBytes : Nat
  maximumGatherSegmentsPerOperation : Nat
  maximumGatherBytesPerOperation : Nat
  maximumOutboundBatchSegments : Nat
  sendQueue : SendQueue
  state : ConnectionState := .active
  closeReason : CloseReason := .none
  outstandingOperations : Nat := 0
  receiveInFlight : Bool := false
  sendInFlight : Bool := false
  closeAfterSend : Bool := false
  receivedBytes : UInt64 := 0
  sentBytes : UInt64 := 0
  deriving DecidableEq, Repr

/-- What posting an operation leaves: the code returned, and the operation if the
system has taken it. -/
structure Posting where
  connection : TcpConnection
  error : Nat := 0
  posted : Option Operation := none

/-- What a section leaves for the code that runs after the mutex is released. -/
structure Outcome where
  connection : TcpConnection
  posted : Option Operation := none
  removeFromRegistry : Bool := false
  deliver : Bool := false

namespace TcpConnection

/-- A check of the constructor. -/
def throwIf (bad : Prop) [Decidable bad] (what : String) : Except Thrown Unit :=
  if bad then .error (.invalidArgument what) else .ok ()

def create (id : UInt64) (socket logger receiveHandler : Bool) (options : ConnectionOptions) :
    Except Thrown TcpConnection := do
  let sendQueue ← SendQueue.create options.maximumSendQueueItems options.maximumSendQueueBytes
  throwIf (id = 0) "connection id는 0일 수 없습니다"
  throwIf (!socket) "TcpConnection에는 유효한 socket이 필요합니다"
  throwIf (!logger) "TcpConnection에는 Logger가 필요합니다"
  throwIf (!receiveHandler) "TcpConnection에는 receive handler가 필요합니다"
  throwIf (options.receiveChunkBytes = 0 ∨ options.receiveChunkBytes > 2 ^ 32 - 1)
    "receive chunk bytes는 1..ULONG_MAX 범위여야 합니다"
  throwIf (options.maximumGatherSegmentsPerOperation = 0 ∨
      options.maximumGatherSegmentsPerOperation > 2 ^ 32 - 1)
    "gather segment 상한은 1..DWORD_MAX 범위여야 합니다"
  throwIf (options.maximumGatherBytesPerOperation = 0 ∨
      options.maximumGatherBytesPerOperation > 2 ^ 32 - 1)
    "gather byte 상한은 1..ULONG_MAX 범위여야 합니다"
  throwIf (options.maximumOutboundBatchSegments = 0)
    "outbound batch segment 상한은 1 이상이어야 합니다"
  throwIf (options.maximumGatherSegmentsPerOperation > sendQueue.maximumItems ∨
      options.maximumOutboundBatchSegments > sendQueue.maximumItems)
    "gather/batch segment 상한은 send queue item 상한 이하여야 합니다"
  throwIf (options.maximumGatherBytesPerOperation > sendQueue.maximumBytes)
    "gather byte 상한은 send queue byte 상한 이하여야 합니다"
  return {
    id
    receiveChunkBytes := options.receiveChunkBytes
    maximumGatherSegmentsPerOperation := options.maximumGatherSegmentsPerOperation
    maximumGatherBytesPerOperation := options.maximumGatherBytesPerOperation
    maximumOutboundBatchSegments := options.maximumOutboundBatchSegments
    sendQueue }

/-- The code for an operation that is refused before the system is asked. -/
def refusal (c : TcpConnection) : Nat := if c.state = .active then wsaEAlready else wsaEShutdown

/-- `native` is the error of `WSARecv` if the call failed at once. -/
def postReceiveLocked (c : TcpConnection) (native : Option WinsockError) : Posting :=
  if c.state ≠ .active ∨ c.receiveInFlight then { connection := c, error := c.refusal }
  else
    let c := { c with
      outstandingOperations := c.outstandingOperations + 1, receiveInFlight := true }
    match native with
    | some error =>
      { connection := { c with
          outstandingOperations := c.outstandingOperations - 1, receiveInFlight := false }
        error := error }
    | none => { connection := c, posted := some (.receive c.receiveChunkBytes) }

def postSendLocked (c : TcpConnection) (native : Option WinsockError) : Posting :=
  if c.state ≠ .active ∨ c.sendInFlight ∨ c.sendQueue.empty then
    { connection := c, error := c.refusal }
  else
    let gather := c.sendQueue.gather c.maximumGatherSegmentsPerOperation
      c.maximumGatherBytesPerOperation
    if gather.empty then { connection := c, error := wsaEInval }
    else
      let c := { c with
        outstandingOperations := c.outstandingOperations + 1, sendInFlight := true }
      match native with
      | some error =>
        { connection := { c with
            outstandingOperations := c.outstandingOperations - 1, sendInFlight := false }
          error := error }
      | none => { connection := c, posted := some (.send gather) }

/-- Only the first call has an effect. -/
def beginCloseLocked (c : TcpConnection) (reason : CloseReason) : TcpConnection :=
  if c.state ≠ .active then c
  else { c with state := .closing, closeReason := reason, closeAfterSend := false }

def moveToClosedIfDrainedLocked (c : TcpConnection) : Bool × TcpConnection :=
  if c.state = .closing ∧ c.outstandingOperations = 0 then
    (true, { c with state := .closed, sendQueue := c.sendQueue.clear })
  else (false, c)

/-- The end of a section: the connection is closed once nothing is outstanding. -/
def drain (c : TcpConnection) (posted : Option Operation := none) : Outcome :=
  { connection := c.moveToClosedIfDrainedLocked.2
    removeFromRegistry := c.moveToClosedIfDrainedLocked.1
    posted }

def beginClose (c : TcpConnection) (reason : CloseReason) : Outcome :=
  (c.beginCloseLocked reason).drain

/-- A posting made under the mutex: an error closes the connection. -/
def afterPosting (posting : Posting) (reason : CloseReason) : Outcome :=
  if posting.error ≠ 0 then (posting.connection.beginCloseLocked reason).drain posting.posted
  else { connection := posting.connection, posted := posting.posted }

def start (c : TcpConnection) (native : Option WinsockError) : Outcome :=
  afterPosting (c.postReceiveLocked native) .receiveError

/-- `Start` returns whether the first receive was posted. -/
def started (c : TcpConnection) (native : Option WinsockError) : Bool :=
  (c.postReceiveLocked native).error = 0

/-- `native` is the error of `WSASend` if the call failed at once. -/
def sendBatchInternal (c : TcpConnection) (segments : List Octets) (closeAfterSend : Bool)
    (native : Option WinsockError) : SendStatus × Outcome :=
  let segmentCount := segments.countP (· ≠ [])
  if segmentCount = 0 then
    (.accepted, if closeAfterSend then c.beginClose .protocolClose else { connection := c })
  else if c.state ≠ .active ∨ c.closeAfterSend then (.closed, { connection := c })
  else if segmentCount > c.maximumOutboundBatchSegments then
    (.queueOverflow, c.beginClose .sendQueueOverflow)
  else
    let pushed := c.sendQueue.tryPushBatch ((segments.filter (· ≠ [])).map some)
    let c := { c with sendQueue := pushed.2 }
    if !pushed.1 then (.queueOverflow, c.beginClose .sendQueueOverflow)
    else
      let c := { c with closeAfterSend := closeAfterSend }
      if c.sendInFlight then (.accepted, { connection := c })
      else
        let posting := c.postSendLocked native
        (if posting.error ≠ 0 then .startFailed else .accepted, afterPosting posting .sendError)

/-- The source asks for the state before each close, as `beginCloseLocked` does. -/
def onReceiveComplete (c : TcpConnection) (storageBytes : Nat) (transferredBytes : UInt32)
    (failed : Bool) : Outcome :=
  let c := { c with
    outstandingOperations := c.outstandingOperations - 1, receiveInFlight := false }
  if failed then (c.beginCloseLocked .receiveError).drain
  else if transferredBytes = 0 then (c.beginCloseLocked .peerClosed).drain
  else if transferredBytes.toNat > storageBytes then (c.beginCloseLocked .receiveError).drain
  else if c.state = .active then
    let c := { c with receivedBytes := c.receivedBytes + transferredBytes.toUInt64 }
    { c.drain with deliver := true }
  else c.drain

/-- The second section of `OnReceiveComplete`, after the receive handler has returned. -/
def postNextReceive (c : TcpConnection) (native : Option WinsockError) : Outcome :=
  if c.state = .active then afterPosting (c.postReceiveLocked native) .receiveError
  else { connection := c }

def onSendComplete (c : TcpConnection) (transferredBytes : UInt32) (submittedBytes : Nat)
    (failed : Bool) (native : Option WinsockError) : Outcome :=
  let c := { c with
    outstandingOperations := c.outstandingOperations - 1, sendInFlight := false }
  if failed then (c.beginCloseLocked .sendError).drain
  else if c.state = .active then
    if transferredBytes = 0 ∨ transferredBytes.toNat > submittedBytes then
      (c.beginCloseLocked .sendError).drain
    else
      let consumed := c.sendQueue.consume transferredBytes.toNat
      let c := { c with sendQueue := consumed.2 }
      if consumed.1 = .invalid then (c.beginCloseLocked .sendError).drain
      else
        let c := { c with sentBytes := c.sentBytes + transferredBytes.toUInt64 }
        if !c.sendQueue.empty then
          let posting := c.postSendLocked native
          (if posting.error ≠ 0 then posting.connection.beginCloseLocked .sendError
            else posting.connection).drain posting.posted
        else if c.closeAfterSend then (c.beginCloseLocked .protocolClose).drain
        else c.drain
  else c.drain

/-- The completion of an operation goes to the handler of its kind. -/
def onComplete (c : TcpConnection) (operation : Operation) (transferredBytes : UInt32)
    (failed : Bool) (native : Option WinsockError) : Outcome :=
  match operation with
  | .receive storageBytes => c.onReceiveComplete storageBytes transferredBytes failed
  | .send gather => c.onSendComplete transferredBytes gather.totalBytes failed native

end TcpConnection

/-- A connection between two sections. -/
structure Running where
  connection : TcpConnection
  /-- Operations the system has taken and whose completion has not been processed. -/
  operations : List Operation := []
  /-- Receive handlers that have been called and have not returned. -/
  handlers : Nat := 0
  /-- Calls that have closed the connection and still have to remove it. -/
  removals : Nat := 0
  /-- Removals from the registry made so far. -/
  removed : Nat := 0
  deriving DecidableEq, Repr

/-- The last parameter of an action that posts is the error of the socket call if it failed. -/
inductive Action where
  | start (native : Option WinsockError)
  | sendBatch (segments : List Octets) (closeAfterSend : Bool) (native : Option WinsockError)
  | beginClose (reason : CloseReason)
  | complete (index : Nat) (transferredBytes : UInt32) (failed : Bool)
      (native : Option WinsockError)
  | handled (threw : Bool) (native : Option WinsockError)
  | remove
  deriving DecidableEq, Repr

namespace Running

/-- What the thread takes over when it enters its section. -/
def enter (s : Running) : Action → Running
  | .complete index _ _ _ => { s with operations := s.operations.eraseIdx index }
  | .handled _ _ => { s with handlers := s.handlers - 1 }
  | .remove =>
    if s.removals = 0 then s
    else { s with removals := s.removals - 1, removed := s.removed + 1 }
  | _ => s

/-- What the section of an action does; an action that has nothing to act on does nothing. -/
def outcome (s : Running) : Action → Outcome
  | .start native => s.connection.start native
  | .sendBatch segments closeAfterSend native =>
    (s.connection.sendBatchInternal segments closeAfterSend native).2
  | .beginClose reason => s.connection.beginClose reason
  | .complete index transferredBytes failed native =>
    match s.operations[index]? with
    | some operation => s.connection.onComplete operation transferredBytes failed native
    | none => { connection := s.connection }
  | .handled threw native =>
    if s.handlers = 0 then { connection := s.connection }
    else if threw then s.connection.beginClose .handlerError
    else s.connection.postNextReceive native
  | .remove => { connection := s.connection }

def absorb (s : Running) (outcome : Outcome) : Running :=
  { s with
    connection := outcome.connection
    operations := s.operations ++ outcome.posted.toList
    handlers := s.handlers + outcome.deliver.toNat
    removals := s.removals + outcome.removeFromRegistry.toNat }

def step (s : Running) (action : Action) : Running := (s.enter action).absorb (s.outcome action)

end Running

end IocpRuntime.Transport
