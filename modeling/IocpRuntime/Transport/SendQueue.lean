import IocpRuntime.Buffer.Sequence

/-! The bounded queue of outbound segments of one connection. -/

namespace IocpRuntime.Transport
open Lib Buffer

/-- A shared immutable buffer; `none` is a null pointer. -/
abbrev SharedSendBuffer := Option Octets

/-- A range of one buffer. -/
structure SendSlice where
  buffer : Octets
  offset : Nat
  size : Nat
  deriving DecidableEq, Repr

def SendSlice.octets (slice : SendSlice) : Octets :=
    (slice.buffer.drop slice.offset).take slice.size

/-- The slices submitted by one send, with their total size. -/
structure SendGather where
  slices : List SendSlice := []
  totalBytes : Nat := 0
  deriving DecidableEq, Repr

def SendGather.empty (gather : SendGather) : Bool := gather.slices.isEmpty

def SendGather.octets (gather : SendGather) : Octets := gather.slices.flatMap SendSlice.octets

inductive SendConsumeResult where
  | progress
  | itemCompleted
  | invalid
  deriving DecidableEq, Repr

/-- A queued buffer and how much of it has been sent. -/
structure SendQueue.Segment where
  buffer : Octets
  offset : Nat
  deriving DecidableEq, Repr

/-- Segments admitted together; those before `nextSegment` have been sent. -/
structure SendQueue.Batch where
  segments : List SendQueue.Segment
  nextSegment : Nat
  deriving DecidableEq, Repr

structure SendQueue where
  maximumItems : Nat
  maximumBytes : Nat
  batches : List SendQueue.Batch := []
  itemCount : Nat := 0
  queuedBytes : Nat := 0
  deriving DecidableEq, Repr

namespace SendQueue

def create (maximumItems maximumBytes : Nat) : Except Thrown SendQueue :=
  if maximumItems = 0 ∨ maximumBytes = 0 then
    .error (.invalidArgument "send queue item/byte 상한은 1 이상이어야 합니다")
  else .ok { maximumItems, maximumBytes }

def Segment.unsent (segment : Segment) : Octets := segment.buffer.drop segment.offset

/-- The segments of a batch that have not been sent in full. -/
def Batch.pending (batch : Batch) : List Segment := batch.segments.drop batch.nextSegment

def pending (q : SendQueue) : List Segment := q.batches.flatMap Batch.pending

/-- The octets the queue stands for. -/
def unsent (q : SendQueue) : Octets := q.pending.flatMap Segment.unsent

def empty (q : SendQueue) : Bool := q.batches.isEmpty

/-- The admission loop: the items and octets the batch adds, or a refusal. -/
def admission (q : SendQueue) : List SharedSendBuffer → Nat → Nat → Option (Nat × Nat)
  | [], batchItems, batchBytes => some (batchItems, batchBytes)
  | none :: _, _, _ => none
  | some buffer :: buffers, batchItems, batchBytes =>
    if buffer = [] then q.admission buffers batchItems batchBytes
    else if batchItems = q.maximumItems - q.itemCount then none
    else if buffer.length > q.maximumBytes - q.queuedBytes - batchBytes then none
    else q.admission buffers (batchItems + 1) (batchBytes + buffer.length)

/-- The non-empty buffers of a batch, each with nothing sent. -/
def segmentsOf (buffers : List SharedSendBuffer) : List Segment :=
  (buffers.reduceOption.filter (· ≠ [])).map (⟨·, 0⟩)

def tryPushBatch (q : SendQueue) (buffers : List SharedSendBuffer) : Bool × SendQueue :=
  match q.admission buffers 0 0 with
  | none => (false, q)
  | some (batchItems, batchBytes) =>
    if batchItems = 0 then (true, q)
    else
      (true, { q with
        batches := q.batches ++ [⟨segmentsOf buffers, 0⟩]
        itemCount := q.itemCount + batchItems
        queuedBytes := q.queuedBytes + batchBytes })

def tryPush (q : SendQueue) (buffer : SharedSendBuffer) : Bool × SendQueue :=
  q.tryPushBatch [buffer]

section Gather

variable (maximumSegments maximumBytes : Nat)

/-- The inner loop of `Gather`, over the segments of one batch. -/
def gatherSegments : List Segment → SendGather → SendGather
  | [], gather => gather
  | segment :: segments, gather =>
    if gather.slices.length < maximumSegments ∧ gather.totalBytes < maximumBytes then
      let remaining := segment.buffer.length - segment.offset
      let bytes := min remaining (maximumBytes - gather.totalBytes)
      gatherSegments segments
        { slices := gather.slices ++ [⟨segment.buffer, segment.offset, bytes⟩]
          totalBytes := gather.totalBytes + bytes }
    else gather

def gatherBatches : List Batch → SendGather → SendGather
  | [], gather => gather
  | batch :: batches, gather =>
    let next := gatherSegments maximumSegments maximumBytes batch.pending gather
    if next.slices.length = maximumSegments ∨ next.totalBytes = maximumBytes then next
    else gatherBatches batches next

def gather (q : SendQueue) : SendGather :=
  if maximumSegments = 0 ∨ maximumBytes = 0 ∨ q.empty then {}
  else gatherBatches maximumSegments maximumBytes q.batches {}

end Gather

/-- What one round of the loop of `Consume` leaves. -/
structure Round where
  queue : SendQueue
  consumed : Nat
  completed : Bool

/-- One round of the loop of `Consume`, at the front segment. -/
def consumeFront (q : SendQueue) (bytesToConsume : Nat) : Option Round :=
  match q.batches with
  | [] => none
  | batch :: batches =>
    match batch.segments[batch.nextSegment]? with
    | none => none
    | some segment =>
      let remaining := segment.buffer.length - segment.offset
      let consumed := min bytesToConsume remaining
      let segment := { segment with offset := segment.offset + consumed }
      let batch := { batch with segments := batch.segments.set batch.nextSegment segment }
      let q := { q with queuedBytes := q.queuedBytes - consumed }
      if segment.offset = segment.buffer.length then
        let batch := { batch with nextSegment := batch.nextSegment + 1 }
        some {
          queue := { q with
            itemCount := q.itemCount - 1
            batches := if batch.nextSegment = batch.segments.length then batches
              else batch :: batches }
          consumed, completed := true }
      else some { queue := { q with batches := batch :: batches }, consumed, completed := false }

/-- The loop of `Consume`. A round takes at least one octet, so as many rounds as
there are octets to consume are enough. -/
def consumeLoop : Nat → SendQueue → Nat → Bool → SendQueue × Bool
  | 0, q, _, completedSegment => (q, completedSegment)
  | rounds + 1, q, bytesToConsume, completedSegment =>
    if bytesToConsume = 0 then (q, completedSegment)
    else
      match q.consumeFront bytesToConsume with
      | none => (q, completedSegment)
      | some round =>
        consumeLoop rounds round.queue (bytesToConsume - round.consumed)
          (completedSegment || round.completed)

/-- The front of the queue is a segment of which nothing has been sent. -/
def frontUntouched (q : SendQueue) : Bool :=
  match q.batches with
  | [] => true
  | batch :: _ => (batch.segments[batch.nextSegment]?).any (·.offset = 0)

def consume (q : SendQueue) (transferredBytes : Nat) : SendConsumeResult × SendQueue :=
  if q.empty ∨ transferredBytes = 0 ∨ transferredBytes > q.queuedBytes then (.invalid, q)
  else
    let (next, completedSegment) := consumeLoop transferredBytes q transferredBytes false
    (if completedSegment && next.frontUntouched then .itemCompleted else .progress, next)

def clear (q : SendQueue) : SendQueue := { q with batches := [], itemCount := 0, queuedBytes := 0 }

end SendQueue

end IocpRuntime.Transport
