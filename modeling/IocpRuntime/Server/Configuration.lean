import IocpRuntime.Http.ResponseEncoder
import IocpRuntime.Http.Session
import IocpRuntime.Transport.TcpConnection

/-! The options of the HTTP server, and `Validate`. Numbers of type `size_t` are `UInt64`s. -/

namespace IocpRuntime.Server
open Lib Buffer Http Transport

structure ListenerOptions where
  address : Octets := octets "127.0.0.1"
  port : UInt16 := 0
  backlog : Int := 2147483647
  deriving DecidableEq, Repr

structure HttpServerOptions where
  ioWorkerCount : UInt64 := 2
  applicationWorkerCount : UInt64 := 2
  maximumApplicationTasks : UInt64 := 1024
  maximumConnectionTasks : UInt64 := 128
  enableHttp2 : Bool := true
  listener : ListenerOptions := {}
  connection : ConnectionOptions := { maximumSendQueueBytes := 2 * 1024 * 1024 }
  session : HttpSessionOptions := {}
  encoder : HttpResponseEncoderOptions := {}
  /-- In milliseconds. -/
  shutdownTimeout : Int := 10000
  deriving DecidableEq, Repr

structure HttpApplicationOptions where
  server : HttpServerOptions := { listener := { port := 8080 } }
  deriving DecidableEq, Repr

/-- A check of `Validate` that throws. -/
def refuse (condition : Bool) (what : String) : Except Thrown Unit :=
  if condition then .error (.invalidArgument what) else .ok ()

theorem refuse_bind {next : Unit → Except Thrown Unit} :
    (refuse condition what >>= next) = .ok () ↔ condition = false ∧ next () = .ok () := by
  cases condition <;> simp [refuse, bind, Except.bind]

def validate (options : HttpApplicationOptions) : Except Thrown Unit := do
  let server := options.server
  let connection := server.connection
  let session := server.session
  let parser := session.parser
  let encoder := server.encoder
  refuse (server.listener.address.isEmpty || decide (server.listener.backlog ≤ 0) ||
      server.ioWorkerCount == 0 || server.applicationWorkerCount == 0 ||
      server.maximumApplicationTasks == 0 || server.maximumConnectionTasks == 0)
    "HTTP server worker, queue, and listener values must be positive"
  refuse (connection.maximumSendQueueItems == 0 || connection.maximumSendQueueBytes == 0 ||
      connection.receiveChunkBytes == 0 || connection.maximumGatherSegmentsPerOperation == 0 ||
      connection.maximumGatherBytesPerOperation == 0 ||
      connection.maximumOutboundBatchSegments == 0 ||
      decide (connection.maximumGatherSegmentsPerOperation > connection.maximumSendQueueItems) ||
      decide (connection.maximumOutboundBatchSegments > connection.maximumSendQueueItems) ||
      decide (connection.maximumGatherBytesPerOperation > connection.maximumSendQueueBytes))
    "HTTP transport queue and gather limits are inconsistent"
  refuse (session.initialBufferBytes == 0 ||
      decide (session.initialBufferBytes > session.maximumBufferBytes) ||
      session.maximumRequestsPerConnection == 0 || parser.maximumRequestLineBytes == 0 ||
      decide (parser.maximumHeaderBytes < 2) || parser.maximumHeaderCount == 0)
    "HTTP parser and session limits are inconsistent"
  -- the sum may wrap, which the next check looks for first
  let fixedRequestBytes := parser.maximumRequestLineBytes + parser.maximumHeaderBytes
  refuse (decide (fixedRequestBytes < parser.maximumRequestLineBytes) ||
      decide (parser.maximumBodyBytes > 18446744073709551615 - fixedRequestBytes) ||
      decide (session.maximumBufferBytes < fixedRequestBytes + parser.maximumBodyBytes))
    "HTTP receive buffer cannot hold the configured request limits"
  refuse (encoder.serverName.isEmpty || encoder.maximumHeaderBytes == 0 ||
      decide (encoder.maximumHeaderBytes.toNat > connection.maximumSendQueueBytes) ||
      decide (parser.maximumBodyBytes.toNat >
        connection.maximumSendQueueBytes - encoder.maximumHeaderBytes.toNat))
    "HTTP response limits exceed the send queue capacity"
  refuse (decide (server.shutdownTimeout ≤ 0)) "HTTP shutdown timeout must be positive"

/-- The limits of the receiving side that `Validate` has checked. -/
structure ReceiveLimits (session : HttpSessionOptions) : Prop where
  initial_pos : session.initialBufferBytes ≠ 0
  initial_le : session.initialBufferBytes ≤ session.maximumBufferBytes
  requests_pos : session.maximumRequestsPerConnection ≠ 0
  line_pos : session.parser.maximumRequestLineBytes ≠ 0
  header_two : ¬ session.parser.maximumHeaderBytes < 2
  count_pos : session.parser.maximumHeaderCount ≠ 0
  room : session.parser.maximumRequestLineBytes.toNat + session.parser.maximumHeaderBytes.toNat +
    session.parser.maximumBodyBytes.toNat ≤ session.maximumBufferBytes.toNat

/-- The check of the sums is exact. -/
theorem sum_room {line header body buffer : UInt64}
    (h : (decide (line + header < line) || decide (body > 18446744073709551615 - (line + header)) ||
      decide (buffer < line + header + body)) = false) :
    line.toNat + header.toNat + body.toNat ≤ buffer.toNat := by
  simp only [Bool.or_eq_false_iff, decide_eq_false_iff_not, gt_iff_lt, UInt64.lt_iff_toNat_lt,
    UInt64.toNat_add, Nat.not_lt] at h
  obtain ⟨⟨hwr, hbo⟩, hb⟩ := h
  have hl := line.toNat_lt
  have hh := header.toNat_lt
  have hmax : (18446744073709551615 : UInt64).toNat = 2 ^ 64 - 1 := rfl
  have hsum : (line.toNat + header.toNat) % 2 ^ 64 = line.toNat + header.toNat := by
    omega
  have hle : line + header ≤ 18446744073709551615 := by
    rw [UInt64.le_iff_toNat_le, hmax]
    exact Nat.le_pred_of_lt (line + header).toNat_lt
  rw [UInt64.toNat_sub_of_le _ _ hle, UInt64.toNat_add, hsum, hmax] at hbo
  rw [hsum] at hb
  omega

theorem validate_receiveLimits {options : HttpApplicationOptions} (h : validate options = .ok ()) :
    ReceiveLimits options.server.session := by
  unfold validate at h
  simp only [refuse_bind] at h
  obtain ⟨-, -, hl, hro, -⟩ := h
  simp only [Bool.or_eq_false_iff, beq_eq_false_iff_ne, decide_eq_false_iff_not] at hl
  obtain ⟨⟨⟨⟨⟨hi, hle⟩, hr⟩, hli⟩, hh⟩, hc⟩ := hl
  exact ⟨hi, UInt64.not_lt.mp hle, hr, hli, hh, hc, sum_room hro⟩

/-- The limits of the sending side that `Validate` has checked. -/
structure SendLimits (server : HttpServerOptions) : Prop where
  batch_pos : 0 < server.connection.maximumOutboundBatchSegments
  batch_le : server.connection.maximumOutboundBatchSegments ≤ server.connection.maximumSendQueueItems
  room : server.encoder.maximumHeaderBytes.toNat + server.session.parser.maximumBodyBytes.toNat ≤
    server.connection.maximumSendQueueBytes

theorem validate_sendLimits (h : validate options = .ok ()) : SendLimits options.server := by
  unfold validate at h
  simp only [refuse_bind] at h
  obtain ⟨-, hq, -, -, hr, -⟩ := h
  simp only [Bool.or_eq_false_iff, beq_eq_false_iff_ne, decide_eq_false_iff_not] at hq hr
  obtain ⟨⟨⟨⟨-, hb⟩, -⟩, hle⟩, -⟩ := hq
  obtain ⟨⟨-, hh⟩, hbo⟩ := hr
  exact ⟨Nat.pos_of_ne_zero hb, Nat.not_lt.mp hle, by omega⟩

example : validate {} = .ok () := by decide

end IocpRuntime.Server
