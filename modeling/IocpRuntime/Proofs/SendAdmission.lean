import IocpRuntime.Proofs.CloseAfterSend
import IocpRuntime.Proofs.SendQueueRuns
import IocpRuntime.Server.Senders

namespace IocpRuntime.Proofs.SendAdmission
open Lib Transport Transport.SendQueue ConnectionLifecycle SendFifo SendOrder CloseAfterSend

structure Shrinks (q next : SendQueue) : Prop where
  maximumItems : next.maximumItems = q.maximumItems
  maximumBytes : next.maximumBytes = q.maximumBytes
  items : next.itemCount ≤ q.itemCount
  bytes : next.queuedBytes ≤ q.queuedBytes

theorem Shrinks.refl : Shrinks q q := ⟨rfl, rfl, Nat.le_refl _, Nat.le_refl _⟩

theorem Shrinks.trans (h : Shrinks q middle) (h' : Shrinks middle next) : Shrinks q next where
  maximumItems := h'.maximumItems.trans h.maximumItems
  maximumBytes := h'.maximumBytes.trans h.maximumBytes
  items := h'.items.trans h.items
  bytes := h'.bytes.trans h.bytes

theorem clear_shrinks : Shrinks q q.clear :=
  ⟨rfl, rfl, Nat.zero_le _, Nat.zero_le _⟩

theorem consumeFront_shrinks {round : Round} (h : q.consumeFront bytes = some round) :
    Shrinks q round.queue := by
  unfold SendQueue.consumeFront at h
  split at h
  · cases h
  · split at h
    · cases h
    · dsimp only at h
      split at h
      · cases h
        exact ⟨rfl, rfl, Nat.sub_le _ _, Nat.sub_le _ _⟩
      · cases h
        exact ⟨rfl, rfl, Nat.le_refl _, Nat.sub_le _ _⟩

theorem consumeLoop_shrinks : Shrinks q (consumeLoop rounds q bytes completed).1 := by
  induction rounds generalizing q bytes completed with
  | zero => exact .refl
  | succ rounds ih =>
    rw [SendQueue.consumeLoop]
    split
    · exact .refl
    · split
      · exact .refl
      · rename_i round hr
        exact (consumeFront_shrinks hr).trans ih

theorem consume_shrinks : Shrinks q (q.consume bytes).2 := by
  unfold SendQueue.consume
  split
  · exact .refl
  · exact consumeLoop_shrinks

/-- What an action that hands over no batch does to the output. -/
structure Calm (c next : TcpConnection) : Prop where
  id : next.id = c.id
  segments : next.maximumOutboundBatchSegments = c.maximumOutboundBatchSegments
  queue : Shrinks c.sendQueue next.sendQueue

variable {c middle next : TcpConnection}

theorem Calm.refl : Calm c c := ⟨rfl, rfl, .refl⟩

theorem Calm.trans (h : Calm c middle) (h' : Calm middle next) : Calm c next :=
  ⟨h'.id.trans h.id, h'.segments.trans h.segments, h.queue.trans h'.queue⟩

theorem Calm.drain (h : Calm c next) (posted : Option Operation) :
    Calm c (next.drain posted).connection := by
  unfold TcpConnection.drain TcpConnection.moveToClosedIfDrainedLocked
  split
  · exact h.trans ⟨rfl, rfl, clear_shrinks⟩
  · exact h

theorem Calm.beginCloseLocked (h : Calm c next) : Calm c (next.beginCloseLocked reason) := by
  unfold TcpConnection.beginCloseLocked
  split
  · exact h
  · exact h.trans ⟨rfl, rfl, .refl⟩

theorem Calm.beginClose (h : Calm c next) : Calm c (next.beginClose reason).connection :=
  h.beginCloseLocked.drain none

theorem Calm.afterPosting (h : Calm c posting.connection) :
    Calm c (TcpConnection.afterPosting posting reason).connection := by
  unfold TcpConnection.afterPosting
  split
  · exact h.beginCloseLocked.drain _
  · exact h

theorem postReceive_calm : Calm c (c.postReceiveLocked native).connection := by
  rcases postReceiveLocked_cases c native with ⟨hs, -⟩ | ⟨-, -, hp⟩
  · rw [hs]
    exact .refl
  · rw [hp]
    exact ⟨rfl, rfl, .refl⟩

theorem postSend_calm (c : TcpConnection) (native : Option WinsockError) :
    Calm c (c.postSendLocked native).connection := by
  rcases postSendLocked_cases c native with ⟨hs, -⟩ | ⟨-, -, -, hp⟩
  · rw [hs]
    exact .refl
  · rw [hp]
    exact ⟨rfl, rfl, .refl⟩

theorem onReceiveComplete_calm :
    Calm c (c.onReceiveComplete storageBytes transferredBytes failed).connection := by
  have hd : Calm c (receiveDone c) := ⟨rfl, rfl, .refl⟩
  rw [onReceiveComplete_eq]
  split
  · exact hd.beginClose
  · split
    · exact hd.beginClose
    · split
      · exact hd.beginClose
      · split
        · have hr : Calm c (received c transferredBytes) := ⟨rfl, rfl, .refl⟩
          exact hr.drain none
        · exact hd.drain none

theorem onSendComplete_calm :
    Calm c (c.onSendComplete transferredBytes submittedBytes failed native).connection := by
  have hd : Calm c (sendDone c) := ⟨rfl, rfl, .refl⟩
  have hc : Calm c (consumed c transferredBytes) := ⟨rfl, rfl, consume_shrinks⟩
  have hs : Calm c (spent c transferredBytes) := ⟨rfl, rfl, consume_shrinks⟩
  have hp := hs.trans (postSend_calm (spent c transferredBytes) native)
  rw [onSendComplete_eq]
  split
  · exact hd.beginClose
  · split
    · split
      · exact hd.beginClose
      · split
        · exact hc.beginClose
        · unfold goesOn
          split
          · apply Calm.drain
            split
            · exact hp.beginCloseLocked
            · exact hp
          · split
            · exact hs.beginClose
            · exact hs.drain none
    · exact hd.drain none

theorem quiet_calm (h : Quiet action) (s : Running) :
    Calm s.connection (s.step action).connection := by
  change Calm s.connection (s.outcome action).connection
  cases action with
  | sendBatch segments closeAfterSend native => exact h.elim
  | start native => exact postReceive_calm.afterPosting
  | beginClose reason => exact Calm.refl.beginClose
  | complete index transferredBytes failed native =>
    simp only [Running.outcome]
    split
    · rename_i operation _
      cases operation with
      | receive storageBytes => exact onReceiveComplete_calm
      | send gather => exact onSendComplete_calm
    · exact .refl
  | handled threw native =>
    simp only [Running.outcome]
    split
    · exact .refl
    · split
      · exact Calm.refl.beginClose
      · unfold TcpConnection.postNextReceive
        split
        · exact postReceive_calm.afterPosting
        · exact .refl
  | remove => exact .refl

structure Fits (c : TcpConnection) (segments : List Octets) : Prop where
  batch : segments.countP (· ≠ []) ≤ c.maximumOutboundBatchSegments
  items : c.sendQueue.itemCount + segments.countP (· ≠ []) ≤ c.sendQueue.maximumItems
  bytes : c.sendQueue.queuedBytes + segments.flatten.length ≤ c.sendQueue.maximumBytes

variable {segments : List Octets}

theorem flatten_filter : (segments.filter (· ≠ [])).flatten = segments.flatten := by
  induction segments with
  | nil => rfl
  | cons segment segments ih =>
    by_cases he : segment = []
    · rw [List.filter_cons_of_neg (by simp [he]), ih, he]
      rfl
    · rw [List.filter_cons_of_pos (by simp [he]), List.flatten_cons, ih, List.flatten_cons]

/-- A push is refused for the items or for the octets. -/
theorem pushed_refused (h : WellFormed c.sendQueue) (segments : List Octets) :
    (pushed c segments).1 = false ↔
      c.sendQueue.maximumItems < c.sendQueue.itemCount + segments.countP (· ≠ []) ∨
      c.sendQueue.maximumBytes < c.sendQueue.queuedBytes + segments.flatten.length := by
  have hp := (SendQueueRuns.pushes h ((segments.filter (· ≠ [])).map some)).refused
  have hr : ((segments.filter (· ≠ [])).map some).reduceOption = segments.filter (· ≠ []) := by
    simp [List.reduceOption]
  rw [hr, List.filter_filter, flatten_filter] at hp
  simp only [Bool.and_self] at hp
  rw [pushed, hp, List.countP_eq_length_filter]
  simp

theorem pushed_counts (ht : (pushed c segments).1 = true) :
    (pushed c segments).2.itemCount = c.sendQueue.itemCount + segments.countP (· ≠ []) ∧
      (pushed c segments).2.queuedBytes = c.sendQueue.queuedBytes + segments.flatten.length := by
  unfold pushed SendQueue.tryPushBatch at ht ⊢
  cases ha : c.sendQueue.admission ((segments.filter (· ≠ [])).map some) 0 0 with
  | none =>
    rw [ha] at ht
    cases ht
  | some counted =>
    obtain ⟨hi, hb, -⟩ := admission_some (Nat.zero_le _) (Nat.zero_le _) ha
    rw [Nat.zero_add, SendQueueRuns.length_segmentsOf] at hi
    rw [Nat.zero_add, octetsOf_segmentsOf, flatten_filter] at hb
    have hc : counted.1 = segments.countP (· ≠ []) := by
      rw [hi, List.countP_eq_length_filter]
      simp [List.reduceOption, List.filter_filter]
    dsimp only
    split
    · rename_i hz
      have hn : segments.flatten.length = 0 := by
        rw [← flatten_filter, List.length_eq_zero_iff.mp
          ((List.countP_eq_length_filter (p := _)).symm.trans (hc.symm.trans hz))]
        rfl
      rw [hn, ← hc, hz]
      exact ⟨rfl, rfl⟩
    · rw [← hc, ← hb]
      exact ⟨rfl, rfl⟩

/-- It was refused because the connection is about to close, or it is in the queue. -/
theorem batch_active (hs : segments.countP (· ≠ []) ≠ 0)
    (ha : (c.sendBatchInternal segments closeAfterSend native).2.connection.state = .active) :
    c.closeAfterSend = true ∨ (pushed c segments).1 = true ∧
      (c.sendBatchInternal segments closeAfterSend native).2.connection.sendQueue =
        (pushed c segments).2 ∧
      (c.sendBatchInternal segments closeAfterSend native).2.connection.closeAfterSend =
        closeAfterSend := by
  rw [sendBatchInternal_eq, if_neg hs] at ha ⊢
  split at ha
  · rename_i hr
    exact .inl (hr.resolve_left (not_not.mpr ha))
  · rename_i ho
    rw [if_neg ho]
    split at ha
    · exact absurd ha closing_inactive
    · rename_i hfew
      rw [if_neg hfew]
      split at ha
      · exact absurd ha closing_inactive
      · rename_i ht
        rw [if_neg ht]
        rw [Bool.not_eq_true, Bool.not_eq_false'] at ht
        refine .inr ⟨ht, ?_⟩
        split at ha
        · rename_i hf
          rw [if_pos hf]
          exact ⟨rfl, rfl⟩
        · rename_i hf
          rw [if_neg hf]
          rcases postSendLocked_cases (extended c segments closeAfterSend) native with
            ⟨hsa, hn, he⟩ | ⟨-, -, -, hp⟩
          · rw [TcpConnection.afterPosting, if_pos he, if_pos he] at ha
            exact absurd ha closing_inactive
          · rw [hp]
            exact ⟨rfl, rfl⟩

/-- What an active connection that is not about to close answers to a batch with octets. -/
theorem overflow_iff (ha : c.state = .active) (ho : c.closeAfterSend = false)
    (hq : WellFormed c.sendQueue) (hs : segments.countP (· ≠ []) ≠ 0) (closeAfterSend : Bool)
    (native : Option WinsockError) :
    (c.sendBatchInternal segments closeAfterSend native).1 = .queueOverflow ↔ ¬ Fits c segments := by
  have hr := pushed_refused hq segments
  rw [sendBatchInternal_eq, if_neg hs, if_neg (by simp [ha, ho])]
  split
  · rename_i hm
    simp only [true_iff]
    exact fun hf => Nat.not_lt.mpr hf.batch hm
  · rename_i hfew
    split
    · rename_i hfu
      rw [Bool.not_eq_true'] at hfu
      simp only [true_iff]
      intro hf
      rcases hr.mp hfu with hi | hb
      · exact Nat.not_lt.mpr hf.items hi
      · exact Nat.not_lt.mpr hf.bytes hb
    · rename_i ht
      rw [Bool.not_eq_true', hr, not_or, Nat.not_lt, Nat.not_lt] at ht
      have hf : Fits c segments := ⟨Nat.not_lt.mp hfew, ht.1, ht.2⟩
      split
      · simp [hf]
      · simp only [hf, not_true_eq_false, iff_false]
        split <;> simp

/-- A batch with octets leaves something to send. -/
theorem extended_waiting (hq : WellFormed c.sendQueue) (hs : segments.countP (· ≠ []) ≠ 0)
    (ht : (pushed c segments).1 = true) :
    WellFormed (extended c segments closeAfterSend).sendQueue ∧
      (extended c segments closeAfterSend).sendQueue.empty = false := by
  obtain ⟨hwe, hu⟩ := hq.push
  have ht' : (c.sendQueue.tryPushBatch ((segments.filter (· ≠ [])).map some)).1 = true := ht
  rw [if_pos ht', octetsOf_segmentsOf] at hu
  refine ⟨hwe, Bool.not_eq_true _ ▸ fun he => ?_⟩
  have hn := (WellFormed.empty_iff hwe).mp he
  rw [hu] at hn
  obtain ⟨segment, hm, hne⟩ := List.countP_pos_iff.mp (Nat.pos_of_ne_zero hs)
  have hk : segment ∈ segments.filter (· ≠ []) := List.mem_filter.mpr ⟨hm, hne⟩
  have hf := (List.append_eq_nil_iff.mp hn).2
  exact of_decide_eq_true hne (List.flatten_eq_nil_iff.mp hf segment hk)

/-- A batch that fits is in the queue, and if no send is in flight one can be started. -/
theorem accepted_of_fits (ha : c.state = .active) (ho : c.closeAfterSend = false)
    (hq : WellFormed c.sendQueue) (hs : 0 < c.maximumGatherSegmentsPerOperation)
    (hb : 0 < c.maximumGatherBytesPerOperation) (hso : segments.countP (· ≠ []) ≠ 0)
    (hfi : Fits c segments) (closeAfterSend : Bool) :
    (c.sendBatchInternal segments closeAfterSend none).1 = .accepted := by
  have ht : (pushed c segments).1 = true := by
    rw [← Bool.not_eq_false, pushed_refused hq, not_or, Nat.not_lt, Nat.not_lt]
    exact ⟨hfi.items, hfi.bytes⟩
  rw [sendBatchInternal_eq, if_neg hso, if_neg (by simp [ha, ho]),
    if_neg (Nat.not_lt.mpr hfi.batch), if_neg (by simp [ht])]
  cases hf : c.sendInFlight with
  | true => rfl
  | false =>
    obtain ⟨hwe, hwa⟩ := extended_waiting hq hso ht
    have hg := (hwe.gathers hs hb hwa).2.2
    have hp : ((extended c segments closeAfterSend).postSendLocked none).error = 0 :=
      postSend_posts ha hf hwa hg
    simp [hp]

theorem active_of_accepted (hs : segments.countP (· ≠ []) ≠ 0)
    (h : (c.sendBatchInternal segments closeAfterSend native).1 = .accepted) :
    (c.sendBatchInternal segments closeAfterSend native).2.connection.state = .active := by
  have hb := sendBatchInternal_batched c segments closeAfterSend native
  generalize c.sendBatchInternal segments closeAfterSend native = result at h hb
  cases hb with
  | idle hi hn =>
    exact absurd (by rw [List.countP_eq_length_filter, hn h]; rfl) hs
  | waits ha => exact ha
  | posts ha => exact ha

/-- An active connection with nothing to send is not about to close. -/
def Unmarked (c : TcpConnection) : Prop :=
  c.state = .active → c.sendQueue.empty = true → c.closeAfterSend = false

theorem Unmarked.inactive (h : c.state ≠ .active) : Unmarked c := fun ha => absurd ha h

theorem Unmarked.closing : Unmarked ((c.beginCloseLocked reason).drain posted).connection :=
  .inactive closing_inactive

theorem Unmarked.waiting (h : c.sendQueue.empty = false) : Unmarked c :=
  fun _ he => absurd he (by simp [h])

theorem Unmarked.drain (h : Unmarked c) : Unmarked (c.drain posted).connection := by
  by_cases ha : c.state = .active
  · rw [drain_active c posted ha]
    exact h
  · exact .inactive (drain_inactive ha)

theorem Unmarked.idle (h : Unmarked c) (hi : Idle c outcome)
    (hm : KeepsMark c outcome) : Unmarked outcome.connection := by
  intro ha he
  obtain ⟨hb, hq, -⟩ := hi.kept ha
  rw [hq] at he
  exact (hm ha).trans (h hb he)

theorem onSendComplete_unmarked :
    Unmarked (c.onSendComplete transferredBytes submittedBytes failed native).connection := by
  rw [onSendComplete_eq]
  split
  · exact .closing
  · split
    · split
      · exact .closing
      · split
        · exact .closing
        · unfold goesOn
          split
          · rename_i hwa
            rcases postSendLocked_cases (spent c transferredBytes) native with
              ⟨hs, hn, he⟩ | ⟨-, -, -, hp⟩
            · rw [if_pos he]
              exact .closing
            · rw [hp, if_neg (by simp)]
              exact Unmarked.drain (.waiting (Bool.not_eq_true' _ ▸ hwa))
          · split
            · exact .closing
            · rename_i hm
              exact Unmarked.drain (fun _ _ => Bool.not_eq_true _ ▸ hm)
    · rename_i hi
      have hd : (sendDone c).state ≠ .active := hi
      exact Unmarked.drain (.inactive hd)

theorem batch_unmarked (h : Unmarked c) (hq : c.state = .active → WellFormed c.sendQueue) :
    Unmarked (c.sendBatchInternal segments closeAfterSend native).2.connection := by
  rw [sendBatchInternal_eq]
  split
  · dsimp only
    split
    · exact .closing
    · exact h
  · rename_i hs
    split
    · exact h
    · rename_i ho
      rw [not_or, not_not] at ho
      split
      · exact .closing
      · split
        · exact .closing
        · rename_i ht
          rw [Bool.not_eq_true, Bool.not_eq_false'] at ht
          obtain ⟨-, hwa⟩ := extended_waiting (hq ho.1) hs ht
          split
          · exact .waiting hwa
          · rcases postSendLocked_cases (extended c segments closeAfterSend) native with
              ⟨hsa, hn, he⟩ | ⟨-, -, -, hp⟩
            · rw [TcpConnection.afterPosting, if_pos he, if_pos he]
              exact .closing
            · rw [hp]
              exact .waiting hwa

theorem Unmarked.step {s : Running} (h : Unmarked s.connection)
    (hq : s.connection.state = .active → WellFormed s.connection.sendQueue) :
    Unmarked (s.step action).connection := by
  change Unmarked (s.outcome action).connection
  cases action with
  | start native => exact h.idle start_idle start_keepsMark
  | sendBatch segments closeAfterSend native => exact batch_unmarked h hq
  | beginClose reason => exact .closing
  | complete index transferredBytes failed native =>
    simp only [Running.outcome]
    split
    · rename_i operation _
      cases operation with
      | receive storageBytes =>
        exact h.idle onReceiveComplete_idle
          onReceiveComplete_keepsMark
      | send gather => exact onSendComplete_unmarked
    · exact h
  | handled threw native =>
    simp only [Running.outcome]
    split
    · exact h
    · split
      · exact .closing
      · exact h.idle postNextReceive_idle postNextReceive_keepsMark
  | remove => exact h

structure Limited (options : ConnectionOptions) (c : TcpConnection) : Prop where
  batch : c.maximumOutboundBatchSegments = options.maximumOutboundBatchSegments
  items : c.sendQueue.maximumItems = options.maximumSendQueueItems
  bytes : c.sendQueue.maximumBytes = options.maximumSendQueueBytes

structure Fixed (c next : TcpConnection) : Prop where
  id : next.id = c.id
  batch : next.maximumOutboundBatchSegments = c.maximumOutboundBatchSegments
  items : next.sendQueue.maximumItems = c.sendQueue.maximumItems
  bytes : next.sendQueue.maximumBytes = c.sendQueue.maximumBytes

theorem Fixed.refl (c : TcpConnection) : Fixed c c := ⟨rfl, rfl, rfl, rfl⟩

theorem Fixed.calm (h : Fixed c middle) (hc : Calm middle next) : Fixed c next where
  id := hc.id.trans h.id
  batch := hc.segments.trans h.batch
  items := hc.queue.maximumItems.trans h.items
  bytes := hc.queue.maximumBytes.trans h.bytes

theorem extended_fixed (c : TcpConnection) (segments : List Octets) (closeAfterSend : Bool) :
    Fixed c (extended c segments closeAfterSend) := by
  have hm : (pushed c segments).2.maximumItems = c.sendQueue.maximumItems ∧
      (pushed c segments).2.maximumBytes = c.sendQueue.maximumBytes := by
    unfold pushed SendQueue.tryPushBatch
    split
    · exact ⟨rfl, rfl⟩
    · split <;> exact ⟨rfl, rfl⟩
  exact ⟨rfl, rfl, hm.1, hm.2⟩

theorem sendBatch_fixed :
    Fixed c (c.sendBatchInternal segments closeAfterSend native).2.connection := by
  have hk := Fixed.refl c
  have he := extended_fixed c segments
  rw [sendBatchInternal_eq]
  split
  · dsimp only
    split
    · exact hk.calm (Calm.refl.beginClose)
    · exact hk
  · split
    · exact hk
    · split
      · exact hk.calm (Calm.refl.beginClose)
      · split
        · exact (he _).calm (Calm.refl.beginClose)
        · split
          · exact he _
          · exact (he _).calm ((postSend_calm _ native).afterPosting)

theorem step_fixed (s : Running) (action : Action) :
    Fixed s.connection (s.step action).connection := by
  by_cases hq : Quiet action
  · exact (Fixed.refl _).calm (quiet_calm hq s)
  · cases action with
    | sendBatch segments closeAfterSend native =>
      exact sendBatch_fixed
    | _ => exact absurd trivial hq

theorem Limited.step {s : Running} (h : Limited options s.connection) :
    Limited options (s.step action).connection where
  batch := (step_fixed s action).batch.trans h.batch
  items := (step_fixed s action).items.trans h.items
  bytes := (step_fixed s action).bytes.trans h.bytes

theorem Limited.of_create {id : UInt64}
    (h : TcpConnection.create id socket logger receiveHandler options = .ok c) :
    Limited options c ∧ c.closeAfterSend = false := by
  unfold TcpConnection.create at h
  obtain ⟨queue, hq, h⟩ := bind_ok h
  have hm : queue.maximumItems = options.maximumSendQueueItems ∧
      queue.maximumBytes = options.maximumSendQueueBytes := by
    unfold SendQueue.create at hq
    split at hq
    · cases hq
    · cases hq
      exact ⟨rfl, rfl⟩
  iterate 10
    obtain ⟨_, -, h⟩ := bind_ok h
  cases h
  exact ⟨⟨rfl, hm.1, hm.2⟩, rfl⟩

/-- An active connection with an empty queue, as every run leaves it. -/
structure Ready (options : ConnectionOptions) (c : TcpConnection) : Prop where
  active : c.state = .active
  unmarked : c.closeAfterSend = false
  limited : Limited options c
  queue : WellFormed c.sendQueue
  items : c.sendQueue.itemCount = 0
  bytes : c.sendQueue.queuedBytes = 0
  gatherSegments : 0 < c.maximumGatherSegmentsPerOperation
  gatherBytes : 0 < c.maximumGatherBytesPerOperation

theorem ready_run {id : UInt64}
    (h : TcpConnection.create id socket logger receiveHandler options = .ok c)
    (actions : List Action)
    (ha : (Runs.final Running.step { connection := c } actions).connection.state = .active)
    (he : (Runs.final Running.step { connection := c } actions).connection.sendQueue.empty = true) :
    Ready options (Runs.final Running.step { connection := c } actions).connection := by
  obtain ⟨hl, ho⟩ := Limited.of_create h
  have hrun : Accounted (Runs.history Running.step { connection := c } actions) _ ∧ _ ∧ _ :=
    Runs.run_induction (motive := fun log s => Accounted log s ∧
      Limited options s.connection ∧ Unmarked s.connection)
    ⟨Fresh.accounted (.of_create h), hl, fun _ _ => ho⟩
    (fun log event hlog (_ : True) => ⟨hlog.1.step, hlog.2.1.step,
      hlog.2.2.step (fun ha => (hlog.1.flow.active ha).queue)⟩)
    (fun _ _ => trivial)
  obtain ⟨hac, hli, hu⟩ := hrun
  have hf := hac.flow.active ha
  have hun := hf.queue.empty_iff.mp he
  refine ⟨ha, hu ha he, hli, hf.queue, ?_, ?_, hf.segments,
    hf.bytes⟩
  · have hb := List.isEmpty_iff.mp he
    rw [hf.queue.items, SendQueue.pending, hb]
    rfl
  · rw [hf.queue.bytes, hun]
    rfl

open Http Server

theorem responseBatch_count (hh : encoded.head ≠ []) :
    (responseBatch encoded).countP (· ≠ []) = if encoded.body = [] then 1 else 2 := by
  unfold responseBatch
  cases hb : encoded.body with
  | nil => simp [hh]
  | cons octet body => simp [hh]

theorem responseBatch_length (encoded : EncodedHttpResponse) :
    (responseBatch encoded).flatten.length = encoded.head.length + encoded.body.length := by
  unfold responseBatch
  cases hb : encoded.body <;> simp

/-- A response within the limits is accepted unless it has a body and a batch has one segment only.
-/
theorem response_accepted_iff {options : HttpApplicationOptions}
    (hvalid : validate options = .ok ())
    {id : UInt64} {connection : TcpConnection}
    (hcreate : TcpConnection.create id true true true options.server.connection = .ok connection)
    (actions : List Action) {response : HttpResponse} {encoded : EncodedHttpResponse}
    (hencoded : Http.encode options.server.encoder response = .ok encoded)
    (hbody : response.body.length ≤ options.server.session.parser.maximumBodyBytes.toNat) :
    let s := Runs.final Running.step { connection } actions
    s.connection.state = .active → s.connection.sendQueue.empty = true → ∀ closeAfterSend,
      ((s.connection.sendBatchInternal (responseBatch encoded) closeAfterSend none).1 = .accepted ↔
        response.body = [] ∨ 2 ≤ options.server.connection.maximumOutboundBatchSegments) := by
  intro s hactive hempty closeAfterSend
  have hready : Ready options.server.connection s.connection := ready_run hcreate actions hactive hempty
  have hlimits := validate_sendLimits hvalid
  obtain ⟨_, hwhole⟩ := encode_encoded hencoded
  have hfits := hwhole.fits
  have hcount := responseBatch_count hwhole.head_ne_nil
  have hlength := responseBatch_length encoded
  have hsome : (responseBatch encoded).countP (· ≠ []) ≠ 0 := by
    rw [hcount]
    split <;> simp
  rw [← hwhole.body] at hbody ⊢
  have hroom : (responseBatch encoded).flatten.length ≤
      options.server.connection.maximumSendQueueBytes := by
    have := hlimits.room
    omega
  have hiff : Fits s.connection (responseBatch encoded) ↔
      encoded.body = [] ∨ 2 ≤ options.server.connection.maximumOutboundBatchSegments := by
    constructor
    · intro h
      have hbatch := h.batch
      rw [hcount, hready.limited.batch] at hbatch
      split at hbatch
      · rename_i hnone
        exact .inl hnone
      · exact .inr hbatch
    · intro h
      have hbatch : (responseBatch encoded).countP (· ≠ []) ≤
          options.server.connection.maximumOutboundBatchSegments := by
        rw [hcount]
        split
        · exact hlimits.batch_pos
        · rename_i hsome
          exact h.resolve_left hsome
      constructor
      · rw [hready.limited.batch]
        exact hbatch
      · rw [hready.items, hready.limited.items, Nat.zero_add]
        exact hbatch.trans hlimits.batch_le
      · rw [hready.bytes, hready.limited.bytes, Nat.zero_add]
        exact hroom
  rw [← hiff]
  constructor
  · intro haccepted
    by_contra hbeyond
    have hoverflow := (overflow_iff hready.active hready.unmarked hready.queue hsome closeAfterSend
      none).mpr hbeyond
    rw [haccepted] at hoverflow
    cases hoverflow
  · intro h
    exact accepted_of_fits hready.active hready.unmarked hready.queue hready.gatherSegments
      hready.gatherBytes hsome h closeAfterSend

def serverConnection : TcpConnection :=
  { defaultConnection with sendQueue := { maximumItems := 64, maximumBytes := 2 * 1024 * 1024 } }

def hello : HttpResponse := { body := octets "hello" }

theorem response_accepted_iff_hello :
    ∃ encoded, Http.encode {} hello = .ok encoded ∧
      (serverConnection.sendBatchInternal (responseBatch encoded) false none).1 = .accepted := by
  have hencoded : ∃ encoded, Http.encode {} hello = .ok encoded := ⟨_, rfl⟩
  obtain ⟨encoded, hencoded⟩ := hencoded
  have hvalid : validate {} = .ok () := by decide
  have hcreate : TcpConnection.create 1 true true true
      ({} : HttpApplicationOptions).server.connection = .ok serverConnection := rfl
  have hbody : hello.body.length ≤
      ({} : HttpApplicationOptions).server.session.parser.maximumBodyBytes.toNat := by decide
  refine ⟨encoded, hencoded, ?_⟩
  exact (response_accepted_iff hvalid hcreate [] hencoded hbody rfl rfl false).mpr (.inr (by decide))

def oneSegment : HttpApplicationOptions :=
  { server := {
      listener := { port := 8080 }
      connection := { maximumSendQueueBytes := 2 * 1024 * 1024, maximumOutboundBatchSegments := 1 } } }

/-- It is valid, and every response with a body closes the connection. -/
theorem one_segment_refuses_body :
    validate oneSegment = .ok () ∧ ∃ connection encoded,
      TcpConnection.create 1 true true true oneSegment.server.connection = .ok connection ∧
      Http.encode oneSegment.server.encoder hello = .ok encoded ∧
      (connection.sendBatchInternal (responseBatch encoded) false none).1 = .queueOverflow ∧
      (sendResponse oneSegment.server.encoder { connection } hello none).2.connection.state = .closed := by
  refine ⟨by decide, _, _, rfl, rfl, ?_, ?_⟩ <;> decide +kernel

end IocpRuntime.Proofs.SendAdmission
