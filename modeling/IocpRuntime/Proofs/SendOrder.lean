import IocpRuntime.Proofs.ConnectionLifecycle
import IocpRuntime.Proofs.SendFifo

namespace IocpRuntime.Proofs.SendOrder
open Lib Transport ConnectionLifecycle SendFifo

abbrev RunEvent := Runs.Event Running Action

def acceptedOctets (event : RunEvent) : Octets :=
  match event.input with
  | .sendBatch segments closeAfterSend native =>
    if (event.before.connection.sendBatchInternal segments closeAfterSend native).1 = .accepted then
      (segments.filter (· ≠ [])).flatten
    else []
  | _ => []

/-- The octets a completed send has put on the wire: the first of those submitted. -/
def wireOctets (event : RunEvent) : Octets :=
  match event.input with
  | .complete index transferredBytes _ _ =>
    match event.before.operations[index]? with
    | some (.send gather) => gather.octets.take transferredBytes.toNat
    | _ => []
  | _ => []

def acknowledgedOctets (event : RunEvent) : Nat :=
  match event.input with
  | .complete index transferredBytes failed _ =>
    match event.before.operations[index]? with
    | some (.send gather) =>
      if failed ∨ transferredBytes.toNat > gather.totalBytes then 0 else transferredBytes.toNat
    | _ => 0
  | _ => 0

def countedOctets (event : RunEvent) : Nat :=
  if event.before.connection.state = .active then acknowledgedOctets event else 0

variable {c next : TcpConnection} {operations : List Operation}

section Sections

theorem drain_inactive (h : c.state ≠ .active) : (c.drain posted).connection.state ≠ .active := by
  unfold TcpConnection.drain TcpConnection.moveToClosedIfDrainedLocked
  split
  · simp
  · exact h

theorem drain_active (c : TcpConnection) (posted : Option Operation) (h : c.state = .active) :
    (c.drain posted).connection = c := by
  simp [TcpConnection.drain, TcpConnection.moveToClosedIfDrainedLocked, h]

theorem closing_inactive :
    ((c.beginCloseLocked reason).drain posted).connection.state ≠ .active := by
  apply drain_inactive
  unfold TcpConnection.beginCloseLocked
  split
  · assumption
  · simp

@[simp] theorem drain_sentBytes : (c.drain posted).connection.sentBytes = c.sentBytes := by
  unfold TcpConnection.drain TcpConnection.moveToClosedIfDrainedLocked
  split <;> rfl

@[simp] theorem beginCloseLocked_sentBytes :
    (c.beginCloseLocked reason).sentBytes = c.sentBytes := by
  unfold TcpConnection.beginCloseLocked
  split <;> rfl

theorem beginClose_sentBytes : (c.beginClose reason).connection.sentBytes = c.sentBytes := by
  rw [TcpConnection.beginClose, drain_sentBytes, beginCloseLocked_sentBytes]

/-- An active connection with the queue, the send flag and the limits of another. -/
structure SameOutput (c next : TcpConnection) : Prop where
  active : c.state = .active
  queue : next.sendQueue = c.sendQueue
  flag : next.sendInFlight = c.sendInFlight
  segments : next.maximumGatherSegmentsPerOperation = c.maximumGatherSegmentsPerOperation
  bytes : next.maximumGatherBytesPerOperation = c.maximumGatherBytesPerOperation

/-- A section that leaves the output alone, unless it ends it. -/
structure Idle (c : TcpConnection) (outcome : Outcome) : Prop where
  posted : ∀ gather, outcome.posted ≠ some (.send gather)
  kept : outcome.connection.state = .active → SameOutput c outcome.connection
  sentBytes : outcome.connection.sentBytes = c.sentBytes

theorem Idle.keep : Idle c { connection := c } :=
  ⟨nofun, fun ha => ⟨ha, rfl, rfl, rfl, rfl⟩, rfl⟩

theorem Idle.close (h : next.sentBytes = c.sentBytes) : Idle c (next.beginClose reason) :=
  ⟨nofun, fun ha => absurd ha closing_inactive, beginClose_sentBytes.trans h⟩

theorem Idle.drain (h : next.state = .active → SameOutput c next)
    (hs : next.sentBytes = c.sentBytes) : Idle c next.drain := by
  refine ⟨nofun, fun ha => ?_, by simpa using hs⟩
  by_cases hn : next.state = .active
  · rw [drain_active next none hn]
    exact h hn
  · exact absurd ha (drain_inactive hn)

theorem start_idle : Idle c (c.start native) := by
  unfold TcpConnection.start TcpConnection.afterPosting
  rcases postReceiveLocked_cases c native with ⟨hs, hn, he⟩ | ⟨ha, -, hp⟩
  · rw [if_pos he, hs, hn]
    exact .close rfl
  · rw [hp]
    exact ⟨nofun, fun _ => ⟨ha, rfl, rfl, rfl, rfl⟩, rfl⟩

theorem postNextReceive_idle : Idle c (c.postNextReceive native) := by
  unfold TcpConnection.postNextReceive
  split
  · exact start_idle
  · exact .keep

theorem onReceiveComplete_idle : Idle c (c.onReceiveComplete storageBytes transferredBytes failed) := by
  rw [onReceiveComplete_eq]
  split
  · exact .close rfl
  · split
    · exact .close rfl
    · split
      · exact .close rfl
      · split
        · rename_i ha
          have hd : Idle c (received c transferredBytes).drain :=
            .drain (fun _ => ⟨ha, rfl, rfl, rfl, rfl⟩) rfl
          exact ⟨hd.posted, hd.kept, hd.sentBytes⟩
        · exact .drain (fun ha => ⟨ha, rfl, rfl, rfl, rfl⟩) rfl

end Sections

section Batches

variable (c : TcpConnection) (segments : List Octets) (closeAfterSend : Bool)
  (native : Option WinsockError)

/-- Nothing for the output, or the batch is queued, and sent unless a send is in flight. -/
inductive Batched : SendStatus × Outcome → Prop
  | idle {result : SendStatus × Outcome} (idle : Idle c result.2)
      (nothing : result.1 = .accepted → segments.filter (· ≠ []) = []) : Batched result
  | waits (active : c.state = .active) (taken : (pushed c segments).1 = true)
      (busy : c.sendInFlight = true) :
      Batched (.accepted, { connection := extended c segments closeAfterSend })
  | posts (active : c.state = .active) (taken : (pushed c segments).1 = true)
      (free : c.sendInFlight = false)
      (waiting : (extended c segments closeAfterSend).sendQueue.empty = false) :
      Batched (.accepted,
        { connection := { extended c segments closeAfterSend with
            outstandingOperations := c.outstandingOperations + 1, sendInFlight := true }
          posted := some (.send (nextGather (extended c segments closeAfterSend))) })

theorem sendBatchInternal_batched :
    Batched c segments closeAfterSend (c.sendBatchInternal segments closeAfterSend native) := by
  rw [sendBatchInternal_eq]
  split
  · rename_i hn
    rw [List.countP_eq_length_filter, List.length_eq_zero_iff] at hn
    refine .idle ?_ (fun _ => hn)
    dsimp only
    split
    · exact .close rfl
    · exact .keep
  · split
    · exact .idle (.keep) nofun
    · rename_i ho
      rw [not_or, not_not] at ho
      split
      · exact .idle (.close rfl) nofun
      · split
        · exact .idle (.close rfl) nofun
        · rename_i ht
          rw [Bool.not_eq_true, Bool.not_eq_false'] at ht
          split
          · rename_i hb
            exact .waits ho.1 ht hb
          · rename_i hf
            rw [Bool.not_eq_true] at hf
            rcases postSendLocked_cases (extended c segments closeAfterSend) native with
              ⟨hs, hn, he⟩ | ⟨-, -, hwa, hp⟩
            · rw [TcpConnection.afterPosting, if_pos he, if_pos he, hs, hn]
              exact .idle (.close rfl) nofun
            · rw [hp]
              exact .posts ho.1 ht hf hwa

end Batches

section Completions

variable (c : TcpConnection) (transferredBytes : UInt32) (submittedBytes : Nat) (failed : Bool)
  (native : Option WinsockError)

structure Counting : Prop where
  active : c.state = .active
  succeeded : failed = false
  positive : 0 < transferredBytes.toNat
  submitted : transferredBytes.toNat ≤ submittedBytes
  consumed : (c.sendQueue.consume transferredBytes.toNat).1 ≠ .invalid

/-- Uncounted, or counted: the output ends, rests with an empty queue, or goes on. -/
inductive Completed : Outcome → Prop
  | ended {outcome : Outcome} (inactive : outcome.connection.state ≠ .active)
      (posted : outcome.posted = none) (sentBytes : outcome.connection.sentBytes = c.sentBytes)
      (uncounted : ¬Counting c transferredBytes submittedBytes failed) : Completed outcome
  | closes {outcome : Outcome} (inactive : outcome.connection.state ≠ .active)
      (posted : outcome.posted = none)
      (sentBytes : outcome.connection.sentBytes = c.sentBytes + transferredBytes.toUInt64)
      (counted : Counting c transferredBytes submittedBytes failed) : Completed outcome
  | rests {outcome : Outcome} (connection : outcome.connection = spent c transferredBytes)
      (posted : outcome.posted = none) (empty : (spent c transferredBytes).sendQueue.empty = true)
      (counted : Counting c transferredBytes submittedBytes failed) : Completed outcome
  | posts {outcome : Outcome}
      (connection : outcome.connection = { spent c transferredBytes with
        outstandingOperations := (spent c transferredBytes).outstandingOperations + 1
        sendInFlight := true })
      (posted : outcome.posted = some (.send (nextGather (spent c transferredBytes))))
      (waiting : (spent c transferredBytes).sendQueue.empty = false)
      (counted : Counting c transferredBytes submittedBytes failed) : Completed outcome

variable {c transferredBytes submittedBytes failed}

theorem Completed.of_close (h : next.sentBytes = c.sentBytes)
    (hu : ¬Counting c transferredBytes submittedBytes failed) :
    Completed c transferredBytes submittedBytes failed (next.beginClose reason) :=
  .ended closing_inactive rfl (beginClose_sentBytes.trans h) hu

theorem Counting.completed (h : Counting c transferredBytes submittedBytes failed) :
    Completed c transferredBytes submittedBytes failed (goesOn c transferredBytes native) := by
  unfold goesOn
  split
  · rcases postSendLocked_cases (spent c transferredBytes) native with
      ⟨hs, hn, he⟩ | ⟨ha, -, hwa, hp⟩
    · rw [if_pos he, hs, hn]
      exact .closes closing_inactive rfl beginClose_sentBytes h
    · rw [hp, if_neg (by simp)]
      exact .posts (drain_active _ _ ha) rfl hwa h
  · rename_i hem
    split
    · exact .closes closing_inactive rfl beginClose_sentBytes h
    · exact .rests (drain_active _ none h.active) rfl (by simpa using hem) h

theorem onSendComplete_completed : Completed c transferredBytes submittedBytes failed
      (c.onSendComplete transferredBytes submittedBytes failed native) := by
  rw [onSendComplete_eq]
  split
  · rename_i hf
    apply Completed.of_close
    · rfl
    · exact fun h => by simp [h.succeeded] at hf
  · rename_i hs
    split
    · rename_i ha
      split
      · rename_i hbad
        apply Completed.of_close
        · rfl
        · intro h
          have hp := h.positive
          have hsu := h.submitted
          rcases hbad with rfl | hbad
          · cases hp
          · omega
      · rename_i hg
        rw [not_or, Nat.not_lt] at hg
        have hp : 0 < transferredBytes.toNat := by
          rw [Nat.pos_iff_ne_zero]
          exact fun hz => hg.1 (UInt32.toNat_inj.mp hz)
        split
        · rename_i hin
          apply Completed.of_close
          · rfl
          · exact fun h => h.consumed hin
        · rename_i hv
          have hc : Counting c transferredBytes submittedBytes failed :=
            ⟨ha, by simpa using hs, hp, hg.2, hv⟩
          exact hc.completed native
    · rename_i hi
      exact .ended (drain_inactive hi) rfl drain_sentBytes (fun h => hi h.active)

end Completions

section Flow

/-- What is accepted and not on the wire is queued, and a queue with octets is being sent. -/
structure Feeds (accepted wire : Octets) (c : TcpConnection) (operations : List Operation) :
    Prop where
  segments : 0 < c.maximumGatherSegmentsPerOperation
  bytes : 0 < c.maximumGatherBytesPerOperation
  queue : WellFormed c.sendQueue
  whole : accepted = wire ++ c.sendQueue.unsent
  gathered : ∀ gather, .send gather ∈ operations →
    gather.octets <+: c.sendQueue.unsent ∧ gather.totalBytes = gather.octets.length
  busy : c.sendQueue.empty = false → c.sendInFlight = true

structure Flow (accepted wire : Octets) (c : TcpConnection) (operations : List Operation) :
    Prop where
  front : wire <+: accepted
  submitted : ∀ gather, .send gather ∈ operations → wire ++ gather.octets <+: accepted
  active : c.state = .active → Feeds accepted wire c operations

theorem no_send (h : operations.countP isSend = 0) : .send gather ∉ operations :=
  fun hm => absurd rfl (List.countP_eq_zero.mp h _ hm)

theorem Flow.idle (h : Flow accepted wire c operations)
    (hi : Idle c outcome) (hr : ∀ gather, .send gather ∈ rest → .send gather ∈ operations) :
    Flow accepted wire outcome.connection (rest ++ outcome.posted.toList) := by
  have hm : ∀ gather, .send gather ∈ rest ++ outcome.posted.toList →
      .send gather ∈ operations := by
    intro gather hg
    rcases List.mem_append.mp hg with hg | hg
    · exact hr gather hg
    · exact absurd (Option.mem_toList.mp hg) (hi.posted gather)
  refine ⟨h.front, fun gather hg => h.submitted gather (hm gather hg), ?_⟩
  intro ha
  obtain ⟨hb, hq, hf, hs, hby⟩ := hi.kept ha
  obtain ⟨h1, h2, h3, h4, h5, h6⟩ := h.active hb
  constructor
  · rwa [hs]
  · rwa [hby]
  · rwa [hq]
  · rwa [hq]
  · intro gather hg
    rw [hq]
    exact h5 gather (hm gather hg)
  · rwa [hq, hf]

/-- The next gather of a connection with octets is a piece of their front. -/
theorem nextGather_front (hs : 0 < c.maximumGatherSegmentsPerOperation)
    (hb : 0 < c.maximumGatherBytesPerOperation) (hq : WellFormed c.sendQueue)
    (he : c.sendQueue.empty = false) :
    (nextGather c).octets <+: c.sendQueue.unsent ∧
      (nextGather c).totalBytes = (nextGather c).octets.length := by
  obtain ⟨hg, hf, -⟩ := hq.gathers hs hb he
  exact ⟨hf, hg.total⟩

/-- Feeding goes on after a push or a completion: with a send in flight or with a new one. -/
theorem Feeds.flow (h : Feeds accepted wire c operations) : Flow accepted wire c operations where
  front := h.whole ▸ List.prefix_append _ _
  submitted := by
    intro gather hg
    rw [h.whole, List.prefix_append_right_inj]
    exact (h.gathered gather hg).1
  active := fun _ => h

theorem Feeds.extended {segments : List Octets}
    (h : Feeds accepted wire c operations) (ht : (pushed c segments).1 = true) :
    WellFormed (extended c segments closeAfterSend).sendQueue ∧
      (extended c segments closeAfterSend).sendQueue.unsent =
        c.sendQueue.unsent ++ (segments.filter (· ≠ [])).flatten := by
  obtain ⟨hwe, hu⟩ := h.queue.push
  refine ⟨hwe, hu.trans ?_⟩
  have ht' : (c.sendQueue.tryPushBatch ((segments.filter (· ≠ [])).map some)).1 = true := ht
  rw [if_pos ht', octetsOf_segmentsOf]

theorem Flow.batch (h : Flow accepted wire c operations) (hc : Counts c operations)
    (hb : Batched c segments closeAfterSend result) :
    Flow (accepted ++ if result.1 = .accepted then (segments.filter (· ≠ [])).flatten else []) wire
      result.2.connection (operations ++ result.2.posted.toList) := by
  cases hb with
  | idle hi hn =>
    have hno : (if result.1 = .accepted then (segments.filter (· ≠ [])).flatten else []) = [] := by
      split
      · rename_i hac
        rw [hn hac, List.flatten_nil]
      · rfl
    rw [hno, List.append_nil]
    exact h.idle hi (fun _ hg => hg)
  | waits ha ht hbu =>
    have hf := h.active ha
    obtain ⟨hwe, hu⟩ := hf.extended ht
    rw [if_pos rfl]
    refine Feeds.flow ⟨hf.segments, hf.bytes, hwe, ?_, ?_, fun _ => hbu⟩
    · rw [hu, hf.whole, List.append_assoc]
    · intro gather hg
      rw [Option.toList_none, List.append_nil] at hg
      obtain ⟨hfr, hto⟩ := hf.gathered gather hg
      exact ⟨hfr.trans (hu ▸ List.prefix_append _ _), hto⟩
  | posts ha ht hfre hwa =>
    have hf := h.active ha
    obtain ⟨hwe, hu⟩ := hf.extended ht
    have hs : operations.countP isSend = 0 := by rw [hc.sends, hfre]; rfl
    rw [if_pos rfl]
    refine Feeds.flow ⟨hf.segments, hf.bytes, hwe, ?_, ?_, fun _ => rfl⟩
    · rw [hu, hf.whole, List.append_assoc]
    · intro gather hg
      rcases List.mem_append.mp hg with hg | hg
      · exact absurd hg (no_send hs)
      · cases List.mem_singleton.mp hg
        exact nextGather_front hf.segments hf.bytes hwe hwa

theorem Batched.sentBytes (h : Batched c segments closeAfterSend result) :
    result.2.connection.sentBytes = c.sentBytes := by
  cases h with
  | idle hi => exact hi.sentBytes
  | waits => rfl
  | posts => rfl

/-- What is left to send after a counted completion. -/
theorem Feeds.spent (h : Feeds accepted wire c operations) (hg : .send gather ∈ operations)
    (hc : Counting c transferredBytes gather.totalBytes failed) :
    WellFormed (spent c transferredBytes).sendQueue ∧
      accepted = wire ++ gather.octets.take transferredBytes.toNat ++
        (spent c transferredBytes).sendQueue.unsent := by
  obtain ⟨hf, ht⟩ := h.gathered gather hg
  obtain ⟨behind, hb⟩ := hf
  have hs := hc.submitted
  rcases h.queue.consume transferredBytes.toNat with ⟨-, hi⟩ | ⟨-, -, hwe, hu⟩
  · exact absurd (by rw [hi]) hc.consumed
  · refine ⟨hwe, ?_⟩
    change _ = _ ++ (c.sendQueue.consume transferredBytes.toNat).2.unsent
    rw [hu, h.whole, List.append_assoc, ← hb,
      ← @List.take_append_of_le_length _ _ behind _ (by omega), List.take_append_drop]

theorem Flow.completed (h : Flow accepted wire c operations)
    (hg : .send gather ∈ operations) (hr : ∀ other, .send other ∉ rest)
    (hcm : Completed c transferredBytes gather.totalBytes failed outcome) :
    Flow accepted (wire ++ gather.octets.take transferredBytes.toNat) outcome.connection
      (rest ++ outcome.posted.toList) := by
  have hfr : wire ++ gather.octets.take transferredBytes.toNat <+: accepted := by
    refine List.IsPrefix.trans ?_ (h.submitted gather hg)
    rw [List.prefix_append_right_inj]
    exact List.take_prefix _ _
  have hi : outcome.connection.state ≠ .active → outcome.posted = none →
      Flow accepted (wire ++ gather.octets.take transferredBytes.toNat) outcome.connection
        (rest ++ outcome.posted.toList) := by
    intro hs hp
    rw [hp, Option.toList_none, List.append_nil]
    exact ⟨hfr, fun other ho => absurd ho (hr other), fun ha => absurd ha hs⟩
  cases hcm with
  | ended hs hp => exact hi hs hp
  | closes hs hp => exact hi hs hp
  | rests hco hp he hc =>
    have hf := h.active hc.active
    obtain ⟨hwe, hwh⟩ := hf.spent hg hc
    rw [hco, hp, Option.toList_none, List.append_nil]
    exact Feeds.flow ⟨hf.segments, hf.bytes, hwe, hwh,
      fun other ho => absurd ho (hr other), fun hwa => by simp [he] at hwa⟩
  | posts hco hp hwa hc =>
    have hf := h.active hc.active
    obtain ⟨hwe, hwh⟩ := hf.spent hg hc
    rw [hco, hp]
    refine Feeds.flow ⟨hf.segments, hf.bytes, hwe, hwh, ?_, fun _ => rfl⟩
    intro other ho
    rcases List.mem_append.mp ho with ho | ho
    · exact absurd ho (hr other)
    · cases List.mem_singleton.mp ho
      exact nextGather_front hf.segments hf.bytes hwe hwa

end Flow

section Runs

theorem counting_of_feeds (h : Feeds accepted wire c operations) (hg : .send gather ∈ operations)
    (ha : c.state = .active) (hs : failed = false)
    (hp : 0 < transferredBytes.toNat)
    (hsu : transferredBytes.toNat ≤ gather.totalBytes) :
    Counting c transferredBytes gather.totalBytes failed := by
  obtain ⟨hf, ht⟩ := h.gathered gather hg
  have hl := hf.length_le
  refine ⟨ha, hs, hp, hsu, ?_⟩
  rcases h.queue.consume transferredBytes.toNat with ⟨hbad, -⟩ | ⟨-, hv, -, -⟩
  · omega
  · exact hv

/-- The octets a completion adds to the count of those sent. -/
theorem Completed.sentBytes (hf : Flow accepted wire c operations) (hg : .send gather ∈ operations)
    (h : Completed c transferredBytes gather.totalBytes failed outcome) :
    outcome.connection.sentBytes = c.sentBytes + UInt64.ofNat
      (if c.state = .active then
        if failed ∨ transferredBytes.toNat > gather.totalBytes then 0 else transferredBytes.toNat
      else 0) := by
  have hcn : Counting c transferredBytes gather.totalBytes failed →
      c.sentBytes + transferredBytes.toUInt64 = c.sentBytes + UInt64.ofNat
        (if c.state = .active then
          if failed ∨ transferredBytes.toNat > gather.totalBytes then 0 else transferredBytes.toNat
        else 0) := by
    intro hc
    have hgo : ¬(failed ∨ transferredBytes.toNat > gather.totalBytes) := by
      rw [hc.succeeded]
      simpa using hc.submitted
    rw [if_pos hc.active, if_neg hgo]
    simp
  cases h with
  | ended _ _ hs hu =>
    rw [hs]
    split
    · rename_i ha
      split
      · simp
      · rename_i hgo
        rw [not_or, Nat.not_lt, Bool.not_eq_true] at hgo
        have hz : transferredBytes.toNat = 0 := by
          by_contra hp
          exact hu (counting_of_feeds (hf.active ha) hg ha hgo.1 (Nat.pos_of_ne_zero hp) hgo.2)
        simp [hz]
    · simp
  | closes _ _ hs hc => exact hs.trans (hcn hc)
  | rests hco _ _ hc => exact hco ▸ hcn hc
  | posts hco _ _ hc => exact hco ▸ hcn hc

structure Accounted (log : List RunEvent) (s : Running) : Prop where
  sound : Sound s
  flow : Flow (log.flatMap acceptedOctets) (log.flatMap wireOctets) s.connection s.operations
  sentBytes : s.connection.sentBytes = UInt64.ofNat (log.map countedOctets).sum

theorem Accounted.idle (h : Accounted log event.before)
    (hi : Idle event.before.connection (event.before.outcome event.input))
    (ho : ∀ gather, .send gather ∈ (event.before.enter event.input).operations →
      .send gather ∈ event.before.operations)
    (ha : acceptedOctets event = []) (hwi : wireOctets event = [])
    (hc : countedOctets event = 0) :
    Accounted (log ++ [event]) (event.after Running.step) where
  sound := h.sound.step event.input
  flow := by
    simp only [List.flatMap_append, List.flatMap_singleton, ha, hwi, List.append_nil]
    exact h.flow.idle hi ho
  sentBytes := by
    simp only [List.map_append, List.map_singleton, List.sum_append, List.sum_singleton, hc,
      Nat.add_zero]
    exact hi.sentBytes.trans h.sentBytes

theorem Accounted.batch (h : Accounted log s) :
    Accounted (log ++ [⟨s, .sendBatch segments closeAfterSend native⟩])
      (s.step (.sendBatch segments closeAfterSend native)) := by
  have hb := sendBatchInternal_batched s.connection segments closeAfterSend native
  have hf := h.flow.batch h.sound.counted hb
  refine ⟨h.sound.step _, ?_, ?_⟩
  · simp only [List.flatMap_append, List.flatMap_singleton, wireOctets, List.append_nil]
    exact hf
  · simp only [List.map_append, List.map_singleton, List.sum_append, List.sum_singleton,
      countedOctets, acknowledgedOctets, ite_self, Nat.add_zero]
    exact hb.sentBytes.trans h.sentBytes

/-- When a send completes no other is in flight. -/
theorem send_alone (h : Sound s)
    (ho : s.operations[index]? = some (.send gather)) (other : SendGather) :
    .send other ∉ s.operations.eraseIdx index := by
  obtain ⟨hi, hget⟩ := List.getElem?_eq_some_iff.mp ho
  have hc := (List.getElem_cons_eraseIdx_perm hi).countP_eq isSend
  have hs := h.counted.sends
  have hf := s.connection.sendInFlight.toNat_le
  have hse : isSend (.send gather) = true := rfl
  rw [hget, List.countP_cons, if_pos hse] at hc
  exact no_send (by omega)

theorem Accounted.completion (h : Accounted log s) (ho : s.operations[index]? = some (.send gather)) :
    Accounted (log ++ [⟨s, .complete index transferredBytes failed native⟩])
      (s.step (.complete index transferredBytes failed native)) := by
  have hou : s.outcome (.complete index transferredBytes failed native) =
      s.connection.onSendComplete transferredBytes gather.totalBytes failed native := by
    simp only [Running.outcome, ho, TcpConnection.onComplete]
  have hc : Completed s.connection transferredBytes gather.totalBytes failed
      (s.outcome (.complete index transferredBytes failed native)) :=
    hou ▸ onSendComplete_completed native
  have hg : .send gather ∈ s.operations := List.mem_of_getElem? ho
  refine ⟨h.sound.step _, ?_, ?_⟩
  · have hf := h.flow.completed hg (send_alone h.sound ho) hc
    simp only [List.flatMap_append, List.flatMap_singleton, acceptedOctets, wireOctets, ho,
      List.append_nil]
    exact hf
  · have hs := hc.sentBytes h.flow hg
    simp only [List.map_append, List.map_singleton, List.sum_append, List.sum_singleton,
      countedOctets, acknowledgedOctets, ho, UInt64.ofNat_add]
    exact hs.trans (by rw [h.sentBytes])

theorem Accounted.step (h : Accounted log event.before) :
    Accounted (log ++ [event]) (event.after Running.step) := by
  obtain ⟨s, action⟩ := event
  cases action with
  | start native => exact h.idle start_idle (fun _ hg => hg) rfl rfl (ite_self 0)
  | sendBatch segments closeAfterSend native => exact h.batch
  | beginClose reason =>
    exact h.idle (.close rfl) (fun _ hg => hg) rfl rfl (ite_self 0)
  | complete index transferredBytes failed native =>
    cases ho : s.operations[index]? with
    | none =>
      refine h.idle ?_ (fun _ hg => List.mem_of_mem_eraseIdx hg) rfl ?_ ?_
      · simp only [Running.outcome, ho]
        exact .keep
      · simp only [wireOctets, ho]
      · simp only [countedOctets, acknowledgedOctets, ho, ite_self]
    | some operation =>
      cases operation with
      | receive storageBytes =>
        refine h.idle ?_ (fun _ hg => List.mem_of_mem_eraseIdx hg) rfl ?_ ?_
        · simp only [Running.outcome, ho]
          exact onReceiveComplete_idle
        · simp only [wireOctets, ho]
        · simp only [countedOctets, acknowledgedOctets, ho, ite_self]
      | send gather => exact h.completion ho
  | handled threw native =>
    refine h.idle ?_ (fun _ hg => hg) rfl rfl (ite_self 0)
    simp only [Running.outcome]
    split
    · exact .keep
    · split
      · exact .close rfl
      · exact postNextReceive_idle
  | remove =>
    refine h.idle (.keep) (fun gather hg => ?_) rfl rfl (ite_self 0)
    simp only [Running.enter] at hg
    split at hg <;> exact hg

theorem Fresh.accounted (h : Fresh c) : Accounted [] { connection := c } where
  sound := h.sound
  flow := by
    obtain ⟨items, bytes, hq⟩ := h.queue
    have hwe := WellFormed.of_create hq
    have he : c.sendQueue.unsent = [] := by
      unfold SendQueue.create at hq
      split at hq
      · cases hq
      · rw [← Except.ok.inj hq]
        rfl
    refine Feeds.flow ⟨h.gatherSegments, h.gatherBytes, hwe, by simp [he], nofun, ?_⟩
    intro hwa
    rw [hwe.empty_iff.mpr he] at hwa
    cases hwa
  sentBytes := h.sentBytes

theorem run_accounted {id : UInt64}
    (h : TcpConnection.create id socket logger receiveHandler options = .ok connection)
    (actions : List Action) :
    Accounted (Runs.history Running.step { connection } actions)
      (Runs.final Running.step { connection } actions) :=
  Runs.run_induction (Fresh.accounted (.of_create h)) (fun _ _ hlog (_ : True) => hlog.step)
    (fun _ _ => trivial)

/-- The wire carries a front of the accepted batches, and the rest is queued and being sent while
the connection is active. -/
theorem wire_carries_accepted {id : UInt64} {socket logger receiveHandler : Bool}
    {options : ConnectionOptions} {connection : TcpConnection}
    (h : TcpConnection.create id socket logger receiveHandler options = .ok connection)
    (actions : List Action) :
    let log := Runs.history Running.step { connection } actions
    let s := Runs.final Running.step { connection } actions
    log.flatMap wireOctets <+: log.flatMap acceptedOctets ∧
      (s.connection.state = .active →
        log.flatMap acceptedOctets = log.flatMap wireOctets ++ s.connection.sendQueue.unsent) ∧
      s.operations.countP isSend ≤ 1 ∧
      s.connection.sentBytes = UInt64.ofNat (log.map countedOctets).sum ∧
      (s.connection.state = .active → s.connection.sendQueue.empty = false →
        s.operations.countP isSend = 1) := by
  have haccounted := run_accounted h actions
  have hsends := haccounted.sound.counted.sends
  refine ⟨haccounted.flow.front, fun hactive => (haccounted.flow.active hactive).whole, ?_,
    haccounted.sentBytes, ?_⟩
  · exact hsends ▸ Bool.toNat_le _
  · intro hactive hwaiting
    rw [hsends, (haccounted.flow.active hactive).busy hwaiting]
    rfl

def partialSends : List Action :=
  [.sendBatch [[1, 2, 3], [], [4]] false none, .complete 0 2 false none,
    .sendBatch [[5]] false none, .complete 0 2 false none]

theorem wire_carries_accepted_partial :
    TcpConnection.create 1 true true true {} = .ok defaultConnection ∧
      let log := Runs.history Running.step { connection := defaultConnection } partialSends
      let s := Runs.final Running.step { connection := defaultConnection } partialSends
      s.connection.state = .active ∧ log.flatMap wireOctets = [1, 2, 3, 4] ∧
        s.connection.sendQueue.unsent = [5] ∧ s.connection.sentBytes = 4 ∧
        log.flatMap acceptedOctets = log.flatMap wireOctets ++ s.connection.sendQueue.unsent := by
  have hcreate : TcpConnection.create 1 true true true {} = .ok defaultConnection := rfl
  refine ⟨hcreate, by decide +kernel, by decide +kernel, by decide +kernel, by decide +kernel, ?_⟩
  exact (wire_carries_accepted hcreate partialSends).2.1 (by decide +kernel)

def overflowInFlight : List Action :=
  [.sendBatch [[1, 2, 3]] false none, .sendBatch (List.replicate 17 [0]) false none,
    .complete 0 3 false none]

/-- The completion meets a closing connection: its octets are on the wire and not counted. -/
theorem sent_not_counted :
    TcpConnection.create 1 true true true {} = .ok defaultConnection ∧
      let log := Runs.history Running.step { connection := defaultConnection } overflowInFlight
      let s := Runs.final Running.step { connection := defaultConnection } overflowInFlight
      log.flatMap wireOctets = [1, 2, 3] ∧ (log.map acknowledgedOctets).sum = 3 ∧
        s.connection.sentBytes ≠ UInt64.ofNat (log.map acknowledgedOctets).sum :=
  ⟨rfl, by decide +kernel, by decide +kernel, by decide +kernel⟩

end Runs

end IocpRuntime.Proofs.SendOrder
