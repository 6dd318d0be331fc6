import Mathlib.Data.List.Perm.Basic
import IocpRuntime.Lib.Drain
import IocpRuntime.Lib.Runs
import IocpRuntime.Transport.TcpConnection

namespace IocpRuntime.Proofs.ConnectionLifecycle
open Lib Transport Lib.Drain

def phase : ConnectionState → Phase
  | .active => .opened
  | .closing => .draining
  | .closed => .ended

@[simp] theorem phase_opened : phase state = .opened ↔ state = .active := by
  cases state <;> simp [phase]

@[simp] theorem phase_ended : phase state = .ended ↔ state = .closed := by
  cases state <;> simp [phase]

def resource (c : TcpConnection) (announced : Nat) : Resource CloseReason :=
  ⟨phase c.state, c.outstandingOperations, c.closeReason, announced⟩

def isReceive : Operation → Bool
  | .receive _ => true
  | .send _ => false

def isSend : Operation → Bool
  | .receive _ => false
  | .send _ => true

structure Counted (outstanding : Nat) (receiveInFlight sendInFlight : Bool)
    (operations : List Operation) : Prop where
  outstanding : outstanding = operations.length
  receives : operations.countP isReceive = receiveInFlight.toNat
  sends : operations.countP isSend = sendInFlight.toNat

def Counts (c : TcpConnection) (operations : List Operation) : Prop :=
  Counted c.outstandingOperations c.receiveInFlight c.sendInFlight operations

theorem Counts.nothing (h : Counts c operations) :
    Counts c (operations ++ (none : Option Operation).toList) := by
  simpa using h

theorem length_by_kind (operations : List Operation) :
    operations.length = operations.countP isReceive + operations.countP isSend := by
  induction operations with
  | nil => rfl
  | cons operation operations ih =>
    cases operation <;> simp only [List.length_cons, List.countP_cons, isReceive, isSend, ih] <;>
      simp <;> omega

section Postings

variable (c : TcpConnection) (native : Option WinsockError)

theorem refusal_ne_zero : c.refusal ≠ 0 := by
  unfold TcpConnection.refusal
  split <;> decide

theorem wsaEInval_ne_zero : wsaEInval ≠ 0 := by decide

/-- A receive is posted by an active connection that has none, or nothing happens. -/
theorem postReceiveLocked_cases :
    ((c.postReceiveLocked native).connection = c ∧ (c.postReceiveLocked native).posted = none ∧
        (c.postReceiveLocked native).error ≠ 0) ∨
      (c.state = .active ∧ c.receiveInFlight = false ∧
        c.postReceiveLocked native =
          { connection := { c with
              outstandingOperations := c.outstandingOperations + 1, receiveInFlight := true }
            posted := some (.receive c.receiveChunkBytes) }) := by
  unfold TcpConnection.postReceiveLocked
  split
  · exact .inl ⟨rfl, rfl, refusal_ne_zero c⟩
  · rename_i hf
    rw [not_or, not_not, Bool.not_eq_true] at hf
    obtain ⟨ha, hi⟩ := hf
    cases native with
    | some error => exact .inl ⟨by simp [← hi], rfl, error.property⟩
    | none => exact .inr ⟨ha, hi, rfl⟩

def nextGather : SendGather :=
  c.sendQueue.gather c.maximumGatherSegmentsPerOperation c.maximumGatherBytesPerOperation

/-- A send is posted by an active connection that has octets and no send, or nothing happens. -/
theorem postSendLocked_cases :
    ((c.postSendLocked native).connection = c ∧ (c.postSendLocked native).posted = none ∧
        (c.postSendLocked native).error ≠ 0) ∨
      (c.state = .active ∧ c.sendInFlight = false ∧ c.sendQueue.empty = false ∧
        c.postSendLocked native =
          { connection := { c with
              outstandingOperations := c.outstandingOperations + 1, sendInFlight := true }
            posted := some (.send (nextGather c)) }) := by
  unfold TcpConnection.postSendLocked
  split
  · exact .inl ⟨rfl, rfl, refusal_ne_zero c⟩
  · rename_i hf
    rw [not_or, not_or, not_not, Bool.not_eq_true, Bool.not_eq_true] at hf
    obtain ⟨ha, hi, hwa⟩ := hf
    dsimp only
    split
    · exact .inl ⟨rfl, rfl, wsaEInval_ne_zero⟩
    · cases native with
      | some error => exact .inl ⟨by simp [← hi], rfl, error.property⟩
      | none => exact .inr ⟨ha, hi, hwa, rfl⟩

end Postings

section Equations

variable (c : TcpConnection)

def receiveDone : TcpConnection :=
  { c with outstandingOperations := c.outstandingOperations - 1, receiveInFlight := false }

def received (transferredBytes : UInt32) : TcpConnection :=
  { receiveDone c with receivedBytes := c.receivedBytes + transferredBytes.toUInt64 }

theorem onReceiveComplete_eq : c.onReceiveComplete storageBytes transferredBytes failed =
      if failed then (receiveDone c).beginClose .receiveError
      else if transferredBytes = 0 then (receiveDone c).beginClose .peerClosed
      else if transferredBytes.toNat > storageBytes then (receiveDone c).beginClose .receiveError
      else if c.state = .active then { (received c transferredBytes).drain with deliver := true }
      else (receiveDone c).drain := rfl

def pushed (segments : List Octets) : Bool × SendQueue :=
  c.sendQueue.tryPushBatch ((segments.filter (· ≠ [])).map some)

def extended (segments : List Octets) (closeAfterSend : Bool) : TcpConnection :=
  { c with sendQueue := (pushed c segments).2, closeAfterSend := closeAfterSend }

theorem sendBatchInternal_eq : c.sendBatchInternal segments closeAfterSend native =
      if segments.countP (· ≠ []) = 0 then
        (.accepted, if closeAfterSend then c.beginClose .protocolClose else { connection := c })
      else if c.state ≠ .active ∨ c.closeAfterSend then (.closed, { connection := c })
      else if segments.countP (· ≠ []) > c.maximumOutboundBatchSegments then
        (.queueOverflow, c.beginClose .sendQueueOverflow)
      else if !(pushed c segments).1 then
        (.queueOverflow, (extended c segments c.closeAfterSend).beginClose .sendQueueOverflow)
      else if c.sendInFlight then (.accepted, { connection := extended c segments closeAfterSend })
      else
        (if ((extended c segments closeAfterSend).postSendLocked native).error ≠ 0 then .startFailed
          else .accepted,
          TcpConnection.afterPosting ((extended c segments closeAfterSend).postSendLocked native)
            .sendError) := rfl

def sendDone : TcpConnection :=
  { c with outstandingOperations := c.outstandingOperations - 1, sendInFlight := false }

def consumed (transferredBytes : UInt32) : TcpConnection :=
  { sendDone c with sendQueue := (c.sendQueue.consume transferredBytes.toNat).2 }

def spent (transferredBytes : UInt32) : TcpConnection :=
  { consumed c transferredBytes with sentBytes := c.sentBytes + transferredBytes.toUInt64 }

/-- The rest of the section of a completed send, once it has been counted. -/
def goesOn (transferredBytes : UInt32) (native : Option WinsockError) : Outcome :=
  if !(spent c transferredBytes).sendQueue.empty then
    (if ((spent c transferredBytes).postSendLocked native).error ≠ 0 then
        ((spent c transferredBytes).postSendLocked native).connection.beginCloseLocked .sendError
      else ((spent c transferredBytes).postSendLocked native).connection).drain
      ((spent c transferredBytes).postSendLocked native).posted
  else if c.closeAfterSend then (spent c transferredBytes).beginClose .protocolClose
  else (spent c transferredBytes).drain

theorem onSendComplete_eq : c.onSendComplete transferredBytes submittedBytes failed native =
      if failed then (sendDone c).beginClose .sendError
      else if c.state = .active then
        if transferredBytes = 0 ∨ transferredBytes.toNat > submittedBytes then
          (sendDone c).beginClose .sendError
        else if (c.sendQueue.consume transferredBytes.toNat).1 = .invalid then
          (consumed c transferredBytes).beginClose .sendError
        else goesOn c transferredBytes native
      else (sendDone c).drain := rfl

end Equations

/-- What a connection does under its mutex before the section ends. -/
structure Works (c next : TcpConnection) (posted : Option Operation) : Prop where
  steps : ∀ announced, Steps (resource c announced) (resource next announced)
  counted : ∀ operations, Counts c operations → Counts next (operations ++ posted.toList)
  quiet : c.state ≠ .active → posted = none

structure Section (c : TcpConnection) (outcome : Outcome) : Prop where
  steps : ∀ announced, Steps (resource c announced)
    (resource outcome.connection (announced + outcome.removeFromRegistry.toNat))
  counted : ∀ operations, Counts c operations →
    Counts outcome.connection (operations ++ outcome.posted.toList)
  quiet : c.state ≠ .active → outcome.posted = none

variable {c next : TcpConnection}

theorem Works.refl (c : TcpConnection) : Works c c none :=
  ⟨fun _ => .refl, fun _ h => h.nothing, fun _ => rfl⟩

theorem beginCloseLocked_steps :
    Steps (resource c announced) (resource (c.beginCloseLocked reason) announced) := by
  unfold TcpConnection.beginCloseLocked
  split
  · exact .refl
  · rename_i ha
    rw [not_not] at ha
    exact .single (Step.stop (phase_opened.mpr ha) reason)

theorem Works.close (h : Works c next posted) : Works c (next.beginCloseLocked reason) posted := by
  refine ⟨fun n => (h.steps n).trans beginCloseLocked_steps, ?_, h.quiet⟩
  intro operations hc
  have hn := h.counted operations hc
  unfold TcpConnection.beginCloseLocked
  split
  · exact hn
  · exact hn

theorem Works.drain (h : Works c next posted) : Section c (next.drain posted) := by
  unfold TcpConnection.drain TcpConnection.moveToClosedIfDrainedLocked
  split
  · rename_i hd
    obtain ⟨hc, hz⟩ := hd
    have hp : phase next.state = .draining := by rw [hc]; rfl
    exact ⟨fun n => (h.steps n).tail (Step.settle hp hz), h.counted, h.quiet⟩
  · exact ⟨h.steps, h.counted, h.quiet⟩

theorem Works.keep (h : Works c next posted) :
    Section c { connection := next, posted := posted } :=
  ⟨h.steps, h.counted, h.quiet⟩

theorem Works.postReceive :
    Works c (c.postReceiveLocked native).connection (c.postReceiveLocked native).posted := by
  rcases postReceiveLocked_cases c native with ⟨hsa, hn, -⟩ | ⟨ha, hi, hp⟩
  · rw [hsa, hn]
    exact .refl c
  · rw [hp]
    refine ⟨fun _ => .single (Step.work (phase_opened.mpr ha)), ?_, absurd ha⟩
    intro operations hc
    obtain ⟨ho, hr, hs⟩ := hc
    rw [hi] at hr
    constructor
    · simp [ho]
    · simp [isReceive, hr]
    · simp [isSend, hs]

theorem Works.postSend :
    Works c (c.postSendLocked native).connection (c.postSendLocked native).posted := by
  rcases postSendLocked_cases c native with ⟨hsa, hn, -⟩ | ⟨ha, hi, -, hp⟩
  · rw [hsa, hn]
    exact .refl c
  · rw [hp]
    refine ⟨fun _ => .single (Step.work (phase_opened.mpr ha)), ?_, absurd ha⟩
    intro operations hc
    obtain ⟨ho, hr, hs⟩ := hc
    rw [hi] at hs
    constructor
    · simp [ho]
    · simp [isReceive, hr]
    · simp [isSend, hs]

theorem afterPosting_section (h : Works c posting.connection posting.posted) :
    Section c (TcpConnection.afterPosting posting reason) := by
  unfold TcpConnection.afterPosting
  split
  · exact h.close.drain
  · exact h.keep

theorem start_section : Section c (c.start native) :=
  afterPosting_section (.postReceive)

theorem beginClose_section (c : TcpConnection) (reason : CloseReason) :
    Section c (c.beginClose reason) :=
  ((Works.refl c).close).drain

theorem postNextReceive_section : Section c (c.postNextReceive native) := by
  unfold TcpConnection.postNextReceive
  split
  · exact start_section
  · exact (Works.refl c).keep

/-- The queue and the flag that a batch changes are no part of the lifecycle. -/
theorem Section.of_extended
    (h : Section (extended c segments closeAfterSend) outcome) : Section c outcome :=
  ⟨h.steps, h.counted, h.quiet⟩

theorem sendBatchInternal_section :
    Section c (c.sendBatchInternal segments closeAfterSend native).2 := by
  rw [sendBatchInternal_eq]
  split
  · dsimp only
    split
    · exact beginClose_section c .protocolClose
    · exact (Works.refl c).keep
  · split
    · exact (Works.refl c).keep
    · split
      · exact beginClose_section c .sendQueueOverflow
      · split
        · exact .of_extended (beginClose_section _ .sendQueueOverflow)
        · split
          · exact .of_extended (Works.refl (extended c segments closeAfterSend)).keep
          · exact .of_extended (afterPosting_section (.postSend))

section Completions

theorem Counts.receiveDone (h : Counts c (.receive storageBytes :: operations)) :
    Counts (receiveDone c) operations := by
  obtain ⟨ho, hr, hs⟩ := h
  have hf := c.receiveInFlight.toNat_le
  simp only [List.length_cons, List.countP_cons, isReceive, isSend] at ho hr hs
  refine ⟨?_, ?_, hs⟩
  · simp only [ConnectionLifecycle.receiveDone]
    omega
  · simp only [ConnectionLifecycle.receiveDone, Bool.toNat_false]
    simp only [if_true] at hr
    omega

theorem Counts.sendDone (h : Counts c (.send gather :: operations)) :
    Counts (sendDone c) operations := by
  obtain ⟨ho, hr, hs⟩ := h
  have hf := c.sendInFlight.toNat_le
  simp only [List.length_cons, List.countP_cons, isReceive, isSend] at ho hr hs
  refine ⟨?_, hr, ?_⟩
  · simp only [ConnectionLifecycle.sendDone]
    omega
  · simp only [ConnectionLifecycle.sendDone, Bool.toNat_false]
    simp only [if_true] at hs
    omega

theorem onReceiveComplete_section :
    Section (receiveDone c) (c.onReceiveComplete storageBytes transferredBytes failed) := by
  rw [onReceiveComplete_eq]
  split
  · exact beginClose_section _ .receiveError
  · split
    · exact beginClose_section _ .peerClosed
    · split
      · exact beginClose_section _ .receiveError
      · split
        · -- the octets received are no part of the lifecycle
          have hd := (Works.refl (received c transferredBytes)).drain
          exact ⟨hd.steps, hd.counted, hd.quiet⟩
        · exact (Works.refl (receiveDone c)).drain

theorem goesOn_section (c : TcpConnection) (transferredBytes : UInt32)
    (native : Option WinsockError) :
    Section (spent c transferredBytes) (goesOn c transferredBytes native) := by
  unfold goesOn
  split
  · split
    · exact (Works.postSend.close).drain
    · exact Works.postSend.drain
  · split
    · exact beginClose_section _ .protocolClose
    · exact (Works.refl _).drain

theorem onSendComplete_section :
    Section (sendDone c) (c.onSendComplete transferredBytes submittedBytes failed native) := by
  rw [onSendComplete_eq]
  split
  · exact beginClose_section _ .sendError
  · split
    · split
      · exact beginClose_section _ .sendError
      · -- nor are the queue and the count of octets sent
        split
        · have hc := beginClose_section (consumed c transferredBytes) .sendError
          exact ⟨hc.steps, hc.counted, hc.quiet⟩
        · have hs := goesOn_section c transferredBytes native
          exact ⟨hs.steps, hs.counted, hs.quiet⟩
    · exact (Works.refl (sendDone c)).drain

end Completions

section Steps

variable (s : Running) (action : Action)

theorem onComplete_steps : Steps (resource c announced)
      (resource (c.onComplete operation transferredBytes failed native).connection
        (announced + (c.onComplete operation transferredBytes failed native).removeFromRegistry.toNat)) := by
  cases operation with
  | receive storageBytes =>
    have hd : Step (resource c announced) (resource (receiveDone c) announced) := .finish _
    exact .head hd (onReceiveComplete_section.steps announced)
  | send gather =>
    have hd : Step (resource c announced) (resource (sendDone c) announced) := .finish _
    exact .head hd (onSendComplete_section.steps announced)

theorem onComplete_counted (h : Counts c (operation :: operations)) :
    Counts (c.onComplete operation transferredBytes failed native).connection
      (operations ++ (c.onComplete operation transferredBytes failed native).posted.toList) := by
  cases operation with
  | receive storageBytes =>
    exact onReceiveComplete_section.counted _ h.receiveDone
  | send gather =>
    exact onSendComplete_section.counted _ h.sendDone

theorem onComplete_quiet (h : c.state ≠ .active) :
    (c.onComplete operation transferredBytes failed native).posted = none := by
  cases operation with
  | receive storageBytes =>
    exact onReceiveComplete_section.quiet h
  | send gather =>
    exact onSendComplete_section.quiet h

/-- An action completes one of the posted operations, or is a section of the connection
as it is. -/
inductive Enters : Prop
  | completes {operation : Operation} {transferredBytes : UInt32} {failed : Bool}
      {native : Option WinsockError}
      (taken : s.operations.Perm (operation :: (s.enter action).operations))
      (outcome : s.outcome action = s.connection.onComplete operation transferredBytes failed native)
  | other (operations : (s.enter action).operations = s.operations)
      (outcome : Section s.connection (s.outcome action))

theorem enters : Enters s action := by
  cases action with
  | start native => exact .other rfl start_section
  | sendBatch segments closeAfterSend native =>
    exact .other rfl sendBatchInternal_section
  | beginClose reason => exact .other rfl (beginClose_section _ reason)
  | complete index transferredBytes failed native =>
    cases ho : s.operations[index]? with
    | none =>
      have hi := List.getElem?_eq_none_iff.mp ho
      refine .other (List.eraseIdx_of_length_le hi) ?_
      simp only [Running.outcome, ho]
      exact (Works.refl _).keep
    | some operation =>
      obtain ⟨hi, rfl⟩ := List.getElem?_eq_some_iff.mp ho
      have hou : s.outcome (.complete index transferredBytes failed native) =
          s.connection.onComplete s.operations[index] transferredBytes failed native := by
        simp only [Running.outcome, ho]
      exact .completes (List.getElem_cons_eraseIdx_perm hi).symm hou
  | handled threw native =>
    refine .other rfl ?_
    simp only [Running.outcome]
    split
    · exact (Works.refl _).keep
    · split
      · exact beginClose_section _ .handlerError
      · exact postNextReceive_section
  | remove =>
    refine .other ?_ (Works.refl _).keep
    simp only [Running.enter]
    split <;> rfl

theorem outcome_quiet (h : s.connection.state ≠ .active) : (s.outcome action).posted = none := by
  rcases enters s action with ⟨-, ho⟩ | ⟨-, ho⟩
  · rw [ho]
    exact onComplete_quiet h
  · exact ho.quiet h

theorem Counted.perm {outstanding : Nat} (hp : operations.Perm reordered)
    (h : Counted outstanding receiveInFlight sendInFlight operations) :
    Counted outstanding receiveInFlight sendInFlight reordered where
  outstanding := h.outstanding.trans hp.length_eq
  receives := (hp.countP_eq _).symm.trans h.receives
  sends := (hp.countP_eq _).symm.trans h.sends

theorem step_counted (h : Counts s.connection s.operations) :
    Counts (s.step action).connection (s.step action).operations := by
  change Counts (s.outcome action).connection
    ((s.enter action).operations ++ (s.outcome action).posted.toList)
  rcases enters s action with ⟨ht, ho⟩ | ⟨hs, ho⟩
  · rw [ho]
    exact onComplete_counted (Counted.perm ht h)
  · rw [hs]
    exact ho.counted _ h

/-- Calls that will remove the connection from its registry, and those that have. -/
def announced : Nat := s.removals + s.removed

theorem enter_announced : announced (s.enter action) = announced s := by
  cases action with
  | remove =>
    simp only [Running.enter]
    split
    · rfl
    · simp only [announced]
      omega
  | _ => rfl

/-- Every action is a run of the draining machine. -/
theorem step_steps : Steps (resource s.connection (announced s))
      (resource (s.step action).connection (announced (s.step action))) := by
  have ha : announced (s.step action) =
      announced s + (s.outcome action).removeFromRegistry.toNat := by
    rw [← enter_announced s action]
    simp only [announced, Running.step, Running.absorb]
    omega
  rw [ha]
  change Steps _ (resource (s.outcome action).connection _)
  rcases enters s action with ⟨-, ho⟩ | ⟨-, ho⟩
  · rw [ho]
    exact onComplete_steps
  · exact ho.steps _

end Steps

section Runs

structure Fresh (c : TcpConnection) : Prop where
  active : c.state = .active
  reason : c.closeReason = .none
  outstanding : c.outstandingOperations = 0
  receiveInFlight : c.receiveInFlight = false
  sendInFlight : c.sendInFlight = false
  sentBytes : c.sentBytes = 0
  queue : ∃ items bytes, SendQueue.create items bytes = .ok c.sendQueue
  gatherSegments : 0 < c.maximumGatherSegmentsPerOperation
  gatherBytes : 0 < c.maximumGatherBytesPerOperation

theorem throwIf_ok [Decidable bad] (h : TcpConnection.throwIf bad what = .ok u) : ¬bad := by
  intro hbad
  rw [TcpConnection.throwIf, if_pos hbad] at h
  cases h

theorem Fresh.of_create {id : UInt64}
    (h : TcpConnection.create id socket logger receiveHandler options = .ok c) : Fresh c := by
  unfold TcpConnection.create at h
  obtain ⟨queue, hq, h⟩ := bind_ok h
  obtain ⟨_, -, h⟩ := bind_ok h
  obtain ⟨_, -, h⟩ := bind_ok h
  obtain ⟨_, -, h⟩ := bind_ok h
  obtain ⟨_, -, h⟩ := bind_ok h
  obtain ⟨_, -, h⟩ := bind_ok h
  obtain ⟨_, hs, h⟩ := bind_ok h
  obtain ⟨_, hb, h⟩ := bind_ok h
  obtain ⟨_, -, h⟩ := bind_ok h
  obtain ⟨_, -, h⟩ := bind_ok h
  obtain ⟨_, -, h⟩ := bind_ok h
  have hp := throwIf_ok hs
  have hp' := throwIf_ok hb
  cases h
  exact ⟨rfl, rfl, rfl, rfl, rfl, rfl, ⟨_, _, hq⟩, by dsimp only; omega, by dsimp only; omega⟩

structure Sound (s : Running) : Prop where
  counted : Counts s.connection s.operations
  drained : Drain.Sound (resource s.connection (announced s))
  unnamed : s.connection.state = .active → s.connection.closeReason = .none

theorem Fresh.sound (h : Fresh c) : Sound { connection := c } where
  counted := by
    constructor
    · exact h.outstanding
    · simp [h.receiveInFlight]
    · simp [h.sendInFlight]
  drained := by
    constructor
    · simp [resource, h.active]
    · simp [resource, h.active, announced]
  unnamed := fun _ => h.reason

theorem Sound.step (h : Sound s) (action : Action) : Sound (s.step action) where
  counted := step_counted s action h.counted
  drained := h.drained.steps (step_steps s action)
  unnamed := by
    intro ha
    have hb := phase_opened.mp (Steps.opened (step_steps s action) (phase_opened.mpr ha))
    have hk := Steps.cause_kept (step_steps s action) (.inr (phase_opened.mpr ha))
    exact hk.trans (h.unnamed hb)

theorem Sound.run (h : Sound s) (actions : List Action) :
    Sound (Runs.final Running.step s actions) :=
  Runs.final_invariant h (fun _ action hs => hs.step action) actions

def rank (state : ConnectionState) : Nat := (phase state).rank

theorem beginClose_reason (h : c.state = .active) :
    (c.beginClose reason).connection.closeReason = reason := by
  unfold TcpConnection.beginClose TcpConnection.drain TcpConnection.moveToClosedIfDrainedLocked
  have hc : (c.beginCloseLocked reason).closeReason = reason := by
    simp [TcpConnection.beginCloseLocked, h]
  split
  · exact hc
  · exact hc

/-- Over every interleaving: outstanding operations, the states, the first close reason, and one
removal after the last completion. -/
theorem lifecycle_kept {id : UInt64} {socket logger receiveHandler : Bool}
    {options : ConnectionOptions} {connection : TcpConnection}
    (h : TcpConnection.create id socket logger receiveHandler options = .ok connection)
    (actions : List Action) :
    (∀ event ∈ Runs.history Running.step { connection } actions,
      (event.before.connection.state ≠ .active →
        (event.before.outcome event.input).posted = none) ∧
      rank event.before.connection.state ≤ rank (event.after Running.step).connection.state ∧
      (event.before.connection.state ≠ .active →
        (event.after Running.step).connection.closeReason = event.before.connection.closeReason) ∧
      (∀ reason, event.before.connection.state = .active → event.input = .beginClose reason →
        (event.after Running.step).connection.closeReason = reason)) ∧
    let s := Runs.final Running.step { connection } actions
    s.connection.outstandingOperations =
        s.operations.countP isReceive + s.operations.countP isSend ∧
      s.operations.countP isReceive ≤ 1 ∧ s.operations.countP isSend ≤ 1 ∧
      (s.connection.state = .active → s.connection.closeReason = .none) ∧
      (s.connection.state = .closed → s.connection.outstandingOperations = 0) ∧
      s.removals + s.removed = if s.connection.state = .closed then 1 else 0 := by
  constructor
  · intro event _
    refine ⟨outcome_quiet event.before event.input, (step_steps event.before event.input).forward,
      ?_, ?_⟩
    · intro hleft
      exact (step_steps event.before event.input).cause_kept (.inl (mt phase_opened.mp hleft))
    · intro reason hactive hinput
      simp only [Runs.Event.after, hinput]
      exact beginClose_reason hactive
  · have hsound := (Fresh.of_create h).sound.run actions
    obtain ⟨houtstanding, hreceives, hsends⟩ := hsound.counted
    refine ⟨houtstanding.trans (length_by_kind _), ?_, ?_, hsound.unnamed, ?_, ?_⟩
    · exact hreceives ▸ Bool.toNat_le _
    · exact hsends ▸ Bool.toNat_le _
    · intro hclosed
      exact hsound.drained.drained (phase_ended.mpr hclosed)
    · have hannounced := hsound.drained.announced
      simpa [resource, announced] using hannounced

def defaultConnection : TcpConnection where
  id := 1
  receiveChunkBytes := 4096
  maximumGatherSegmentsPerOperation := 16
  maximumGatherBytesPerOperation := 64 * 1024
  maximumOutboundBatchSegments := 16
  sendQueue := { maximumItems := 64, maximumBytes := 1024 * 1024 }

def farewell : List Action :=
  [.start none, .sendBatch [[1, 2, 3], [4]] true none, .complete 1 3 false none,
    .complete 1 1 false none, .beginClose .localShutdown, .complete 0 0 true none, .remove]

theorem lifecycle_kept_farewell :
    TcpConnection.create 1 true true true {} = .ok defaultConnection ∧
      let s := Runs.final Running.step { connection := defaultConnection } farewell
      s.connection.state = .closed ∧ s.connection.closeReason = .protocolClose ∧ s.removed = 1 ∧
        s.removals + s.removed = if s.connection.state = .closed then 1 else 0 := by
  have hcreate : TcpConnection.create 1 true true true {} = .ok defaultConnection := rfl
  refine ⟨hcreate, by decide +kernel, by decide +kernel, by decide +kernel, ?_⟩
  exact (lifecycle_kept hcreate farewell).2.2.2.2.2.2

end Runs

end IocpRuntime.Proofs.ConnectionLifecycle
