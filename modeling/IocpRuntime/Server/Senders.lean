import IocpRuntime.Http2.Frames
import IocpRuntime.Server.Configuration

/-! What the server gives its sessions to send with: the response sender of HTTP/1.1 and the
frame sender of HTTP/2. A connection whose `SendBatch` overflowed or did not start has left
`Active`, so the `BeginClose` that follows finds nothing to do, whatever comes in between. -/

namespace IocpRuntime.Server
open Lib Http Http2 Transport

/-- The head and the body of a response are two segments of one batch. -/
def responseBatch (encoded : EncodedHttpResponse) : List Octets :=
  if encoded.body.isEmpty then [encoded.head] else [encoded.head, encoded.body]

/-- What both senders do with the status of a batch. -/
def afterSending (s : Running) (status : SendStatus) : Running :=
  if status = .startFailed ∨ status = .queueOverflow then s.step (.beginClose .sendError) else s

/-- The response sender; there is no status if the response cannot be encoded. -/
def sendResponse (encoder : HttpResponseEncoderOptions) (s : Running) (response : HttpResponse)
    (native : Option WinsockError) : Option SendStatus × Running :=
  match encode encoder response with
  | .error _ => (none, s.step (.beginClose .handlerError))
  | .ok encoded =>
    let segments := responseBatch encoded
    let status := (s.connection.sendBatchInternal segments encoded.closeConnection native).1
    (some status,
      afterSending (s.step (.sendBatch segments encoded.closeConnection native)) status)

/-- The frame sender: each frame is a batch of its own. -/
def sendFrame (s : Running) (frame : Frame) (native : Option WinsockError) : SendStatus × Running :=
  let status := (s.connection.sendBatchInternal [frame.octets] false native).1
  (status, afterSending (s.step (.sendBatch [frame.octets] false native)) status)

/-- A frame that is handed over, and what happens to the connection before the next one. -/
structure Handover where
  frame : Frame
  native : Option WinsockError := none
  meanwhile : List Action := []

/-- `SendFrames`, with the status of each frame. -/
def sendFrames (s : Running) : List Handover → List SendStatus × Running
  | [] => ([], s)
  | handover :: handovers =>
    let (status, sent) := sendFrame s handover.frame handover.native
    let (statuses, done) := sendFrames (handover.meanwhile.foldl Running.step sent) handovers
    (status :: statuses, done)

end IocpRuntime.Server
