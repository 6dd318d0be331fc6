import IocpRuntime.Proofs.SendOrder

namespace IocpRuntime.Proofs.CloseAfterSend
open Lib Transport ConnectionLifecycle SendOrder

variable {segments : List Octets} {s : Running}

/-- No socket call fails, the peer does not close, no handler throws, nobody calls `BeginClose`. -/
def Undisturbed (event : RunEvent) : Prop :=
  event.before.connection.state = .active →
    match event.input with
    | .start native => event.before.connection.started native
    | .sendBatch _ _ native => native = none
    | .beginClose _ => False
    | .complete index transferredBytes failed native =>
      failed = false ∧ native = none ∧ transferredBytes ≠ 0 ∧
        match event.before.operations[index]? with
        | some (.receive storageBytes) => transferredBytes.toNat ≤ storageBytes
        | some (.send gather) => transferredBytes.toNat ≤ gather.totalBytes
        | none => True
    | .handled threw native => threw = false ∧ event.before.connection.started native
    | .remove => True

/-- A batch without octets that asks for the close finds nothing left to send. -/
def NothingUnsent (event : RunEvent) : Prop :=
  ∀ segments native, event.input = .sendBatch segments true native →
    segments.filter (· ≠ []) = [] → event.before.connection.state = .active →
      event.before.connection.sendQueue.empty = true

variable {c : TcpConnection}

section Marks

theorem drain_mark (c : TcpConnection) (posted : Option Operation) :
    (c.drain posted).connection.closeAfterSend = c.closeAfterSend := by
  unfold TcpConnection.drain TcpConnection.moveToClosedIfDrainedLocked
  split <;> rfl

/-- A section that leaves the connection active keeps the mark for the deferred close. -/
def KeepsMark (c : TcpConnection) (outcome : Outcome) : Prop :=
  outcome.connection.state = .active → outcome.connection.closeAfterSend = c.closeAfterSend

theorem KeepsMark.close (c next : TcpConnection) (reason : CloseReason) :
    KeepsMark c (next.beginClose reason) :=
  fun ha => absurd ha closing_inactive

theorem start_keepsMark : KeepsMark c (c.start native) := by
  unfold TcpConnection.start TcpConnection.afterPosting
  rcases postReceiveLocked_cases c native with ⟨hs, hn, he⟩ | ⟨-, -, hp⟩
  · rw [if_pos he, hs, hn]
    exact .close c c .receiveError
  · rw [hp]
    exact fun _ => rfl

theorem postNextReceive_keepsMark : KeepsMark c (c.postNextReceive native) := by
  unfold TcpConnection.postNextReceive
  split
  · exact start_keepsMark
  · exact fun _ => rfl

theorem onReceiveComplete_keepsMark :
    KeepsMark c (c.onReceiveComplete storageBytes transferredBytes failed) := by
  rw [onReceiveComplete_eq]
  split
  · exact .close c (receiveDone c) .receiveError
  · split
    · exact .close c (receiveDone c) .peerClosed
    · split
      · exact .close c (receiveDone c) .receiveError
      · split
        · exact fun _ => drain_mark (received c transferredBytes) none
        · exact fun _ => drain_mark (receiveDone c) none

theorem goesOn_keepsMark : KeepsMark c (goesOn c transferredBytes native) := by
  unfold goesOn
  split
  · rcases postSendLocked_cases (spent c transferredBytes) native with
      ⟨hs, hn, he⟩ | ⟨-, -, -, hp⟩
    · rw [if_pos he, hs, hn]
      exact .close c (spent c transferredBytes) .sendError
    · rw [hp, if_neg (by simp)]
      exact fun _ => drain_mark _ _
  · split
    · exact .close c (spent c transferredBytes) .protocolClose
    · exact fun _ => drain_mark _ _

theorem onSendComplete_keepsMark :
    KeepsMark c (c.onSendComplete transferredBytes submittedBytes failed native) := by
  rw [onSendComplete_eq]
  split
  · exact .close c (sendDone c) .sendError
  · split
    · split
      · exact .close c (sendDone c) .sendError
      · split
        · exact .close c (consumed c transferredBytes) .sendError
        · exact goesOn_keepsMark
    · exact fun _ => drain_mark (sendDone c) none

theorem batch_without_octets (c : TcpConnection)
    (hs : segments.filter (· ≠ []) = []) (closeAfterSend : Bool)
    (native : Option WinsockError) :
    c.sendBatchInternal segments closeAfterSend native =
      (.accepted, if closeAfterSend then c.beginClose .protocolClose else { connection := c }) := by
  rw [sendBatchInternal_eq, if_pos]
  rw [List.countP_eq_length_filter, hs, List.length_nil]

/-- A connection that will close after its sends takes no more octets. -/
theorem batch_refused (h : c.state ≠ .active ∨ c.closeAfterSend = true)
    (hs : segments.filter (· ≠ []) ≠ []) (closeAfterSend : Bool)
    (native : Option WinsockError) :
    c.sendBatchInternal segments closeAfterSend native = (.closed, { connection := c }) := by
  have hc : segments.countP (· ≠ []) ≠ 0 := by
    rw [List.countP_eq_length_filter]
    exact fun hz => hs (List.length_eq_zero_iff.mp hz)
  rw [sendBatchInternal_eq, if_neg hc, if_pos h]

def Quiet : Action → Prop
  | .sendBatch _ _ _ => False
  | _ => True

theorem Quiet.keepsMark (h : Quiet action) : KeepsMark s.connection (s.outcome action) := by
  cases action with
  | start native => exact start_keepsMark
  | sendBatch segments closeAfterSend native => exact h.elim
  | beginClose reason => exact .close _ s.connection reason
  | complete index transferredBytes failed native =>
    simp only [Running.outcome]
    split
    · rename_i operation _
      cases operation with
      | receive storageBytes => exact onReceiveComplete_keepsMark
      | send gather => exact onSendComplete_keepsMark
    · exact fun _ => rfl
  | handled threw native =>
    simp only [Running.outcome]
    split
    · exact fun _ => rfl
    · split
      · exact .close _ s.connection .handlerError
      · exact postNextReceive_keepsMark
  | remove => exact fun _ => rfl

/-- A connection that is active was active before the step. -/
theorem active_before (h : (s.step action).connection.state = .active) :
    s.connection.state = .active :=
  phase_opened.mp (Drain.Steps.opened (step_steps s action) (phase_opened.mpr h))

def Marked (s : Running) : Prop :=
  s.connection.state = .active → s.connection.closeAfterSend = true

/-- The mark stays, whatever happens, until the connection leaves `Active`. -/
theorem Marked.step (h : Marked s) : Marked (s.step action) := by
  intro ha
  have hm := h (active_before ha)
  have hk : KeepsMark s.connection (s.outcome action) := by
    by_cases hq : Quiet action
    · exact hq.keepsMark
    · cases action with
      | sendBatch segments closeAfterSend native =>
        simp only [Running.outcome]
        by_cases hs : segments.filter (· ≠ []) = []
        · rw [batch_without_octets _ hs]
          cases closeAfterSend with
          | true => exact .close _ s.connection .protocolClose
          | false => exact fun _ => rfl
        · rw [batch_refused (.inr hm) hs]
          exact fun _ => rfl
      | _ => exact absurd trivial hq
  exact (hk ha).trans hm

end Marks

section Steady

structure Steady (c next : TcpConnection) : Prop where
  active : next.state = .active
  queue : next.sendQueue = c.sendQueue
  mark : next.closeAfterSend = c.closeAfterSend

theorem Steady.refl (h : c.state = .active) : Steady c c := ⟨h, rfl, rfl⟩

theorem start_steady (h : c.started native) : Steady c (c.start native).connection := by
  have hs : (c.postReceiveLocked native).error = 0 := by simpa [TcpConnection.started] using h
  rcases postReceiveLocked_cases c native with ⟨-, -, he⟩ | ⟨ha, -, hp⟩
  · exact absurd hs he
  · rw [TcpConnection.start, TcpConnection.afterPosting, hp]
    exact ⟨ha, rfl, rfl⟩

theorem onReceiveComplete_steady (ha : c.state = .active) (hp : transferredBytes ≠ 0)
    (hf : transferredBytes.toNat ≤ storageBytes) :
    Steady c (c.onReceiveComplete storageBytes transferredBytes false).connection := by
  rw [onReceiveComplete_eq, if_neg (by simp), if_neg hp, if_neg (by omega), if_pos ha]
  dsimp only
  rw [drain_active (received c transferredBytes) none ha]
  exact ⟨ha, rfl, rfl⟩

/-- The next send of a connection with octets is posted unless the socket call fails. -/
theorem postSend_posts (ha : c.state = .active) (hf : c.sendInFlight = false)
    (hwa : c.sendQueue.empty = false) (hg : (nextGather c).octets ≠ []) :
    (c.postSendLocked none).error = 0 := by
  have hs : (nextGather c).empty = false := by
    rw [SendGather.empty, List.isEmpty_eq_false_iff]
    intro hs
    exact hg (by simp [SendGather.octets, hs])
  unfold TcpConnection.postSendLocked
  rw [if_neg (by simp [ha, hf, hwa])]
  dsimp only
  rw [if_neg]
  simpa [nextGather] using hs

/-- After a counted completion a marked connection sends the rest, or closes with nothing left. -/
theorem goesOn_marked (ha : c.state = .active) (hm : c.closeAfterSend = true)
    (hg : (spent c transferredBytes).sendQueue.empty = false →
      (nextGather (spent c transferredBytes)).octets ≠ []) :
    (spent c transferredBytes).sendQueue.empty = false ∧
        Steady (spent c transferredBytes) (goesOn c transferredBytes none).connection ∨
      (spent c transferredBytes).sendQueue.empty = true ∧
        (goesOn c transferredBytes none).connection.state ≠ .active := by
  unfold goesOn
  cases he : (spent c transferredBytes).sendQueue.empty with
  | true =>
    rw [if_neg (by simp), if_pos hm]
    exact .inr ⟨rfl, closing_inactive⟩
  | false =>
    have hpo : ((spent c transferredBytes).postSendLocked none).error = 0 :=
      postSend_posts ha rfl he (hg he)
    rcases postSendLocked_cases (spent c transferredBytes) none with
      ⟨-, -, herr⟩ | ⟨-, -, -, hp⟩
    · exact absurd hpo herr
    · have hs : ((spent c transferredBytes).postSendLocked none).connection.state = .active := by
        rw [hp]
        exact ha
      rw [if_pos (by simp), if_neg (by simp [hpo]), drain_active _ _ hs, hp]
      exact .inl ⟨rfl, ha, rfl, rfl⟩

end Steady

section Flushing

/-- While the connection is active something is left to send; it leaves with all on the wire. -/
structure Flushing (log : List RunEvent) (s : Running) : Prop where
  accounted : Accounted log s
  marked : Marked s
  unsent : s.connection.state = .active → s.connection.sendQueue.empty = false
  flushed : s.connection.state ≠ .active →
    log.flatMap acceptedOctets <+: log.flatMap wireOctets

theorem Flushing.steady (h : Flushing log event.before)
    (hs : Steady event.before.connection (event.before.outcome event.input).connection)
    (ha : event.before.connection.state = .active) :
    Flushing (log ++ [event]) (event.after Running.step) where
  accounted := h.accounted.step
  marked := fun _ => hs.mark.trans (h.marked ha)
  unsent := fun _ => by
    have hq : (event.after Running.step).connection.sendQueue =
        event.before.connection.sendQueue := hs.queue
    rw [hq]
    exact h.unsent ha
  flushed := fun hi => absurd hs.active hi

theorem nothing_accepted
    (h : event.before.connection.state ≠ .active ∨ event.before.connection.closeAfterSend = true) :
    acceptedOctets event = [] := by
  obtain ⟨s, action⟩ := event
  cases action with
  | sendBatch segments closeAfterSend native =>
    simp only [acceptedOctets]
    by_cases hs : segments.filter (· ≠ []) = []
    · rw [hs, List.flatten_nil, ite_self]
    · simp [batch_refused h hs]
  | _ => rfl

theorem Flushing.inactive (h : Flushing log event.before)
    (hi : event.before.connection.state ≠ .active) :
    Flushing (log ++ [event]) (event.after Running.step) := by
  have haf : (event.after Running.step).connection.state ≠ .active :=
    fun ha => hi (active_before ha)
  refine ⟨h.accounted.step, fun ha => absurd ha haf, fun ha => absurd ha haf, fun _ => ?_⟩
  simp only [List.flatMap_append, List.flatMap_singleton, nothing_accepted (.inl hi),
    List.append_nil]
  exact (h.flushed hi).trans (List.prefix_append _ _)

/-- A completed send of a marked connection: the next one is posted, or all is sent. -/
theorem Flushing.completion (h : Flushing log s) (ha : s.connection.state = .active)
    (ho : s.operations[index]? = some (.send gather))
    (hp : transferredBytes ≠ 0)
    (hsu : transferredBytes.toNat ≤ gather.totalBytes) :
    Flushing (log ++ [⟨s, .complete index transferredBytes false none⟩])
      (s.step (.complete index transferredBytes false none)) := by
  have hg : .send gather ∈ s.operations := List.mem_of_getElem? ho
  have hf := h.accounted.flow.active ha
  have ht : 0 < transferredBytes.toNat :=
    Nat.pos_of_ne_zero (fun hz => hp (UInt32.toNat_inj.mp hz))
  have hco : Counting s.connection transferredBytes gather.totalBytes false :=
    counting_of_feeds hf hg ha rfl ht hsu
  obtain ⟨hwe, hwh⟩ := hf.spent hg hco
  have hgo : ¬(transferredBytes = 0 ∨ transferredBytes.toNat > gather.totalBytes) := by
    rintro (hz | hb)
    · exact hp hz
    · omega
  have hc : (s.step (.complete index transferredBytes false none)).connection =
      (goesOn s.connection transferredBytes none).connection := by
    change (s.outcome _).connection = _
    simp only [Running.outcome, ho, TcpConnection.onComplete]
    rw [onSendComplete_eq, if_neg (by simp), if_pos ha, if_neg hgo, if_neg hco.consumed]
  have hfr : (spent s.connection transferredBytes).sendQueue.empty = false →
      (nextGather (spent s.connection transferredBytes)).octets ≠ [] :=
    fun hwa => (hwe.gathers hf.segments hf.bytes hwa).2.2
  have hac : Accounted (log ++ [⟨s, .complete index transferredBytes false none⟩])
      (s.step (.complete index transferredBytes false none)) := h.accounted.step
  rcases goesOn_marked ha (h.marked ha) hfr with ⟨hwa, hs⟩ | ⟨he, hcl⟩
  · rw [← hc] at hs
    have hm : (spent s.connection transferredBytes).closeAfterSend = true := h.marked ha
    constructor
    · exact hac
    · exact fun _ => hs.mark.trans hm
    · exact fun _ => hs.queue ▸ hwa
    · exact fun hi => absurd hs.active hi
  · rw [← hc] at hcl
    refine ⟨hac, fun h => absurd h hcl, fun h => absurd h hcl, fun _ => ?_⟩
    rw [hwe.empty_iff.mp he] at hwh
    simp only [List.flatMap_append, List.flatMap_singleton, acceptedOctets, wireOctets, ho,
      List.append_nil]
    exact ⟨[], hwh.symm ▸ by simp only [List.append_nil]⟩

theorem Flushing.step (h : Flushing log event.before)
    (hu : Undisturbed event) (hn : NothingUnsent event) :
    Flushing (log ++ [event]) (event.after Running.step) := by
  by_cases ha : event.before.connection.state = .active
  · have hq := hu ha
    obtain ⟨s, action⟩ := event
    cases action with
    | start native => exact h.steady (start_steady hq) ha
    | sendBatch segments closeAfterSend native =>
      refine h.steady ?_ ha
      simp only [Running.outcome]
      by_cases hs : segments.filter (· ≠ []) = []
      · rw [batch_without_octets _ hs]
        cases closeAfterSend with
        | true =>
          have he := hn segments native rfl hs ha
          rw [h.unsent ha] at he
          cases he
        | false => exact .refl ha
      · rw [batch_refused (.inr (h.marked ha)) hs]
        exact .refl ha
    | beginClose reason => exact hq.elim
    | complete index transferredBytes failed native =>
      simp only at hq
      obtain ⟨rfl, rfl, hp, hf⟩ := hq
      cases ho : s.operations[index]? with
      | none =>
        refine h.steady ?_ ha
        simp only [Running.outcome, ho]
        exact .refl ha
      | some operation =>
        simp only [ho] at hf
        cases operation with
        | receive storageBytes =>
          refine h.steady ?_ ha
          simp only [Running.outcome, ho]
          exact onReceiveComplete_steady ha hp hf
        | send gather => exact h.completion ha ho hp hf
    | handled threw native =>
      obtain ⟨rfl, hst⟩ := hq
      refine h.steady ?_ ha
      simp only [Running.outcome]
      split
      · exact .refl ha
      · rw [if_neg (by simp), TcpConnection.postNextReceive, if_pos ha]
        exact start_steady hst
    | remove => exact h.steady (.refl ha) ha
  · exact h.inactive ha

theorem octets_of_batch (h : (segments.filter (· ≠ [])).flatten = []) :
    segments.filter (· ≠ []) = [] := by
  rw [List.flatten_eq_nil_iff] at h
  rw [List.eq_nil_iff_forall_not_mem]
  intro segment hs
  simpa [h segment hs] using (List.mem_filter.mp hs).2

/-- A batch with octets marks the connection; one without closes it when nothing is left to send. -/
theorem Flushing.call (h : Accounted log s) (ha : s.connection.state = .active)
    (hac : (s.connection.sendBatchInternal segments true native).1 = .accepted)
    (hn : NothingUnsent ⟨s, .sendBatch segments true native⟩) :
    Flushing (log ++ [⟨s, .sendBatch segments true native⟩])
      (s.step (.sendBatch segments true native)) := by
  have hacc : Accounted (log ++ [⟨s, .sendBatch segments true native⟩])
      (s.step (.sendBatch segments true native)) := h.step
  by_cases hs : segments.filter (· ≠ []) = []
  · have hcl : (s.step (.sendBatch segments true native)).connection.state ≠ .active := by
      change (s.connection.sendBatchInternal segments true native).2.connection.state ≠ _
      rw [batch_without_octets _ hs]
      exact closing_inactive
    refine ⟨hacc, fun h => absurd h hcl, fun h => absurd h hcl, fun _ => ?_⟩
    have hf := h.flow.active ha
    have hwh := hf.whole
    rw [hf.queue.empty_iff.mp (hn segments native rfl hs ha)] at hwh
    simp only [List.flatMap_append, List.flatMap_singleton, acceptedOctets, wireOctets, hac,
      if_true, hs, List.flatten_nil, List.append_nil]
    exact ⟨[], hwh.symm ▸ by simp only [List.append_nil]⟩
  · have hf := h.flow.active ha
    have hwa : (pushed s.connection segments).1 = true →
        (extended s.connection segments true).sendQueue.empty = false := by
      intro ht
      obtain ⟨hwe, hu⟩ := hf.extended ht
      rw [Bool.eq_false_iff]
      intro he
      rw [hwe.empty_iff.mp he] at hu
      have hno := (List.append_eq_nil_iff.mp hu.symm).2
      exact hs (octets_of_batch hno)
    have hb := sendBatchInternal_batched s.connection segments true native
    generalize hr : s.connection.sendBatchInternal segments true native = result at hb
    rw [hr] at hac
    have hc : (s.step (.sendBatch segments true native)).connection =
        result.2.connection := congrArg (fun result => result.2.connection) hr
    have hm : result.2.connection.state = .active ∧
        result.2.connection.closeAfterSend = true ∧
        result.2.connection.sendQueue.empty = false := by
      cases hb with
      | idle _ hn => exact absurd (hn hac) hs
      | waits _ ht _ => exact ⟨ha, rfl, hwa ht⟩
      | posts _ ht _ _ => exact ⟨ha, rfl, hwa ht⟩
    rw [← hc] at hm
    exact ⟨hacc, fun _ => hm.2.1, fun _ => hm.2.2, fun hi => absurd hm.1 hi⟩

end Flushing

section Runs

/-- What the call promises after the actions `first`, where the actions `rest` lead to. -/
def Flushes (connection : TcpConnection) (first : List Action) (segments : List Octets)
    (native : Option WinsockError) (rest : List Action) : Prop :=
  let s := Runs.final Running.step { connection } first
  let called := s.step (.sendBatch segments true native)
  s.connection.state = .active →
    (s.connection.sendBatchInternal segments true native).1 = .accepted →
      ((∀ event ∈ Runs.history Running.step called rest, Undisturbed event) →
        (Runs.final Running.step called rest).connection.state ≠ .active →
        (Runs.history Running.step { connection }
            (first ++ [.sendBatch segments true native])).flatMap acceptedOctets <+:
          (Runs.history Running.step { connection }
            (first ++ .sendBatch segments true native :: rest)).flatMap wireOctets) ∧
      ∀ event ∈ Runs.history Running.step called rest, ∀ later closeAfterSend error,
        event.input = .sendBatch later closeAfterSend error → later.filter (· ≠ []) ≠ [] →
          (event.before.connection.sendBatchInternal later closeAfterSend error).1 = .closed

theorem Marked.later (h : Marked s) (he : event ∈ Runs.history Running.step s rest) :
    event.before.connection.state ≠ .active ∨ event.before.connection.closeAfterSend = true := by
  obtain ⟨first, -, -, hb⟩ := Runs.history_split he
  have hm : Marked event.before :=
    hb ▸ Runs.final_invariant h (fun _ action hs => hs.step) first
  rw [Classical.or_iff_not_imp_left, not_not]
  exact hm

variable {id : UInt64}

/-- A call that meets octets left to send and has none of its own drops them. -/
theorem nothing_unsent_of_flushes
    (h : TcpConnection.create id socket logger receiveHandler options = .ok connection)
    (hfl : Flushes connection first segments native [])
    (hs : segments.filter (· ≠ []) = [])
    (ha : (Runs.final Running.step { connection } first).connection.state = .active) :
    (Runs.final Running.step { connection } first).connection.sendQueue.empty = true := by
  have hf := (run_accounted h first).flow.active ha
  have hr := batch_without_octets (Runs.final Running.step { connection } first).connection
    hs true native
  have hc : ((Runs.final Running.step { connection } first).step
      (.sendBatch segments true native)).connection.state ≠ .active := by
    change ((Runs.final Running.step { connection } first).connection.sendBatchInternal
      segments true native).2.connection.state ≠ _
    rw [hr]
    exact closing_inactive
  have hall := (hfl ha (by rw [hr])).1 (fun _ he => absurd he List.not_mem_nil) hc
  simp only [Runs.history_append, Runs.history, List.flatMap_append, List.flatMap_singleton,
    acceptedOctets, wireOctets, hs, List.flatten_nil, ite_self, List.append_nil] at hall
  have hl := hall.length_le
  rw [hf.whole, List.length_append] at hl
  rw [hf.queue.empty_iff, ← List.length_eq_zero_iff]
  omega

theorem flushes_of_nothing_unsent
    (h : TcpConnection.create id socket logger receiveHandler options = .ok connection)
    (hev : ∀ event ∈ Runs.history Running.step { connection }
      (first ++ .sendBatch segments true native :: rest), NothingUnsent event) :
    Flushes connection first segments native rest := by
  unfold Flushes
  intro s called hact hac
  simp only [Runs.history_append, Runs.history, List.mem_append, List.mem_cons] at hev
  have hca := Flushing.call (run_accounted h first) hact hac (hev _ (.inr (.inl rfl)))
  constructor
  · intro hu hc
    have hf : Flushing ((Runs.history Running.step { connection } first ++
        [⟨s, .sendBatch segments true native⟩]) ++ Runs.history Running.step called rest)
        (Runs.final Running.step called rest) := by
      refine Runs.run_induction (motive := fun log s => Flushing (_ ++ log) s)
        ((List.append_nil _).symm ▸ hca) ?_
        (fun event he => And.intro (hu event he) (hev event (.inr (.inr he))))
      intro log event hlog ha
      rw [← List.append_assoc]
      exact hlog.step ha.1 ha.2
    have hall := hf.flushed hc
    rw [List.flatMap_append] at hall
    simp only [Runs.history_append, Runs.history]
    simp only [List.append_assoc, List.singleton_append] at hall ⊢
    exact (List.prefix_append _ _).trans hall
  · intro event he later closeAfterSend error _ hl
    rw [batch_refused (hca.marked.later he) hl]

/-- The calls of a run all flush before they close exactly when none that has no octets
meets octets left to send. -/
theorem flushes_iff_nothing_unsent
    (h : TcpConnection.create id socket logger receiveHandler options = .ok connection)
    (actions : List Action) :
    (∀ first segments native rest, first ++ .sendBatch segments true native :: rest <+: actions →
      Flushes connection first segments native rest) ↔
    ∀ event ∈ Runs.history Running.step { connection } actions, NothingUnsent event := by
  constructor
  · intro hflushes event hevent segments native hinput hsegments hactive
    obtain ⟨first, rest, hactions, hbefore⟩ := Runs.history_split hevent
    rw [hinput] at hactions
    rw [hbefore] at hactive ⊢
    have hcall : first ++ [.sendBatch segments true native] <+: actions :=
      ⟨rest, by rw [hactions, List.append_assoc, List.singleton_append]⟩
    exact nothing_unsent_of_flushes h (hflushes first segments native [] hcall) hsegments hactive
  · rintro hevents first segments native rest ⟨more, rfl⟩
    apply flushes_of_nothing_unsent h
    intro event hevent
    rw [Runs.history_append] at hevents
    exact hevents event (List.mem_append_left _ hevent)

theorem flushes_iff_nothing_unsent_farewell :
    TcpConnection.create 1 true true true {} = .ok defaultConnection ∧
      (Runs.final Running.step { connection := defaultConnection } farewell).connection.state ≠ .active ∧
      Flushes defaultConnection [.start none] [[1, 2, 3], [4]] none (farewell.drop 2) := by
  have hcreate : TcpConnection.create 1 true true true {} = .ok defaultConnection := rfl
  refine ⟨hcreate, by decide +kernel, ?_⟩
  refine (flushes_iff_nothing_unsent hcreate farewell).mpr ?_ _ _ _ _ ⟨[], rfl⟩
  intro event hevent segments native hinput hsegments
  have hmember : event.input ∈ farewell :=
    Runs.history_inputs _ farewell ▸ List.mem_map_of_mem hevent
  have hsame : segments = [[1, 2, 3], [4]] ∧ native = none := by
    rw [hinput] at hmember
    simpa [farewell] using hmember
  simp [hsame.1] at hsegments

def emptyFarewell : List Action := [.sendBatch [[1, 2, 3]] false none, .sendBatch [] true none]

/-- The last call is accepted and closes the connection with every octet still unsent. -/
theorem empty_farewell_drops_unsent :
    TcpConnection.create 1 true true true {} = .ok defaultConnection ∧
      (let log := Runs.history Running.step { connection := defaultConnection } emptyFarewell
      let s := Runs.final Running.step { connection := defaultConnection } emptyFarewell
      log.flatMap acceptedOctets = [1, 2, 3] ∧ log.flatMap wireOctets = [] ∧
        s.connection.state = .closing ∧ s.connection.closeReason = .protocolClose) ∧
      ¬Flushes defaultConnection [.sendBatch [[1, 2, 3]] false none] [] none [] := by
  have hcreate : TcpConnection.create 1 true true true {} = .ok defaultConnection := rfl
  refine ⟨hcreate, ⟨by decide +kernel, by decide +kernel, by decide +kernel, by decide +kernel⟩, ?_⟩
  intro hflushes
  have hempty := nothing_unsent_of_flushes hcreate hflushes rfl (by decide +kernel)
  revert hempty
  decide +kernel

end Runs

end IocpRuntime.Proofs.CloseAfterSend
