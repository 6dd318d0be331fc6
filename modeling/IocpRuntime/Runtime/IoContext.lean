import IocpRuntime.Buffer.Sequence

/-! The completion port and its workers. Packets are handed out in the order they were
posted, each to one worker, and posting a packet does not fail. -/

namespace IocpRuntime.Execution
open Buffer

/-- A task, the request to stop, or the completion of an I/O operation. -/
inductive Packet (τ : Type) where
  | task (carried : τ)
  | stop
  | native
  deriving DecidableEq, Repr

def Packet.task? {τ : Type} : Packet τ → Option τ
  | .task carried => some carried
  | _ => none

structure IoContext (τ : Type) where
  workerCount : Nat
  stopping : Bool := false
  port : List (Packet τ) := []
  deriving DecidableEq, Repr

namespace IoContext

variable {τ : Type} (c : IoContext τ)

def create (workerCount : Nat) (logger : Bool) : Except Thrown (IoContext τ) :=
  if workerCount = 0 then .error (.invalidArgument "IOCP worker 수는 1 이상이어야 합니다")
  else if !logger then .error (.invalidArgument "IoContext에는 Logger가 필요합니다")
  else .ok { workerCount }

/-- A task packet and the stop packets are posted under one lock. -/
def postTask (task : τ) : Bool × IoContext τ :=
  if c.stopping then (false, c) else (true, { c with port := c.port ++ [.task task] })

/-- One stop packet for each worker; only the first call has an effect. -/
def stop : IoContext τ :=
  if c.stopping then c
  else { c with stopping := true, port := c.port ++ List.replicate c.workerCount .stop }

end IoContext

end IocpRuntime.Execution
