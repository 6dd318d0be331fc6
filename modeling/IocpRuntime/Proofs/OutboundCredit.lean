import Mathlib.Data.List.DropRight
import IocpRuntime.Lib.Maps
import IocpRuntime.Proofs.ResponseDelivery

namespace IocpRuntime.Proofs.OutboundCredit
open Lib Http2 OutboundFrames OutboundStreams ResponseDelivery
open H2OutboundScheduler (Operation Event emitted)

variable {s t : H2OutboundScheduler}
  {stream : StreamOutput} {event : Event}

def dataOctets (frames : List Frame) : Nat := (dataPayload frames).length

@[simp] theorem dataOctets_nil : dataOctets [] = 0 := rfl

@[simp] theorem dataOctets_append : dataOctets (a ++ b) = dataOctets a + dataOctets b := by
  simp [dataOctets]

/-- From `s` to `t` only DATA octets have gone out: each one is taken off both of
its windows, and no window is overdrawn. -/
structure Spent (s t : H2OutboundScheduler) (frames : List Frame) : Prop where
  initial : t.initialWindowSize = s.initialWindowSize
  connection : t.connectionWindow + dataOctets frames = s.connectionWindow
  connection_kept : dataOctets frames = 0 ∨ 0 ≤ t.connectionWindow
  stream : ∀ id stream', t.streams.lookup id = some stream' →
    ∃ stream, s.streams.lookup id = some stream ∧
      stream'.window + dataOctets (framesOf id frames) = stream.window ∧
      (dataOctets (framesOf id frames) = 0 ∨ 0 ≤ stream'.window)

theorem Spent.refl : Spent s s [] where
  initial := rfl
  connection := by simp
  connection_kept := Or.inl rfl
  stream := by
    intro id stream h
    exact ⟨stream, h, by simp, Or.inl rfl⟩

theorem Spent.trans (h : Spent s t frames) (h' : Spent t u more) : Spent s u (frames ++ more) where
  initial := h'.initial.trans h.initial
  connection := by
    have hc := h.connection
    have hc' := h'.connection
    rw [dataOctets_append]
    omega
  connection_kept := by
    have hc' := h'.connection
    have hk := h.connection_kept
    have hk' := h'.connection_kept
    rw [dataOctets_append]
    omega
  stream := by
    intro id stream'' hl''
    obtain ⟨stream', hl', hw', hk'⟩ := h'.stream id stream'' hl''
    obtain ⟨stream, hl, hw, hk⟩ := h.stream id stream' hl'
    refine ⟨stream, hl, ?_, ?_⟩
    · rw [framesOf_append, dataOctets_append]
      omega
    · rw [framesOf_append, dataOctets_append]
      omega

def Blocked (s : H2OutboundScheduler) (streamId : UInt32) : Prop :=
  ∀ stream, s.streams.lookup streamId = some stream → stream.responseSubmitted = true →
    stream.offset < stream.body.length → stream.window ≤ 0 ∨ s.connectionWindow ≤ 0

theorem Blocked.kept (h : Blocked s streamId)
    (hs : t.streams.lookup streamId = s.streams.lookup streamId)
    (hwi : t.connectionWindow ≤ s.connectionWindow) : Blocked t streamId := by
  intro stream hl hsub hle
  rw [hs] at hl
  rcases h stream hl hsub hle with hw | hc
  · exact Or.inl hw
  · exact Or.inr (Int.le_trans hwi hc)

theorem run_octets (h : DataRun streamId limit body start stop frames) :
    start + dataOctets frames = stop := by
  induction h with
  | nil offset => rfl
  | @cons offset bytes stop frame frames type _ payload _ _ inside _ _ ih =>
    have hlen := slice_length body offset (offset + bytes) inside
    have hs : dataOctets (frame :: frames) = frame.payload.length + dataOctets frames := by
      simp [dataOctets, dataPayload, isData, type]
    rw [hs, payload, hlen]
    omega

theorem sends_spent (h : Sends s streamId stream count frames) :
    Spent { s with streams := s.streams.insert streamId stream } (flushed s streamId stream count)
        frames ∧ Blocked (flushed s streamId stream count) streamId := by
  have ho : dataOctets frames = count := Nat.add_left_cancel (run_octets h.run)
  have hc := h.covered
  have hs := h.stalled
  refine ⟨⟨rfl, ?_, ?_, ?_⟩, ?_⟩
  · simp only [flushed]
    omega
  · simp only [flushed]
    omega
  · intro id stream' hl
    dsimp only
    by_cases hk : id = streamId
    · subst hk
      rw [flushed_own] at hl
      split at hl
      · cases hl
      · cases hl
        rw [framesOf_own h.run.streamId_eq]
        exact ⟨stream, AList.lookup_insert _, by dsimp only; omega, by dsimp only; omega⟩
    · rw [flushed_other hk] at hl
      rw [framesOf_other (Ne.symm hk) h.run.streamId_eq]
      exact ⟨stream', (AList.lookup_insert_ne hk).trans hl, by simp, Or.inl rfl⟩
  · intro stream' hl _ hle
    rw [flushed_own] at hl
    split at hl
    · cases hl
    · cases hl
      simp only [flushed] at hle ⊢
      omega

theorem sends_blocked {id : UInt32} (h : Sends s streamId stream count frames) (hb : id = streamId ∨ Blocked s id) :
    Blocked (flushed s streamId stream count) id := by
  by_cases hk : id = streamId
  · subst hk
    exact (sends_spent h).2
  · refine (hb.resolve_left hk).kept (flushed_other hk) ?_
    simp only [flushed]
    omega

theorem Spent.ofHeld (hl : s.streams.lookup streamId = some stream)
    (h : Spent { s with streams := s.streams.insert streamId stream } t frames) :
    Spent s t frames := by
  refine ⟨h.initial, h.connection, h.connection_kept, ?_⟩
  intro id stream' hl'
  obtain ⟨old, hold, hr⟩ := h.stream id stream' hl'
  refine ⟨old, ?_, hr⟩
  rcases Maps.of_lookup_insert hold with ⟨rfl, rfl⟩ | ⟨-, hold⟩
  · exact hl
  · exact hold

/-- `FlushAllLocked` spends credit until every stream it visits is blocked; a
stream that was blocked before stays so. -/
theorem flushes_spent (h : Flushes order s new t) :
    Spent s t new ∧ ∀ id, id ∈ order ∨ Blocked s id → Blocked t id := by
  induction h with
  | done s => exact ⟨.refl, fun id hid => by simpa using hid⟩
  | @skip s t head order new idle rest ih =>
    refine ⟨ih.1, fun id hid => ih.2 id ?_⟩
    rw [List.mem_cons, or_assoc] at hid
    rcases hid with rfl | hid
    · exact Or.inr fun stream hl hsub => absurd hsub (idle stream hl)
    · exact hid
  | @flush s t head order run new stream count held submitted sends rest ih =>
    refine ⟨((sends_spent sends).1.ofHeld held).trans ih.1, fun id hid => ih.2 id ?_⟩
    rw [List.mem_cons, or_assoc] at hid
    rcases hid with hid | hid | hid
    · exact Or.inr (sends_blocked sends (Or.inl hid))
    · exact Or.inl hid
    · exact Or.inr (sends_blocked sends (Or.inr hid))

def connectionCredit (event : Event) : Nat :=
  match event.operation with
  | .updateConnectionWindow increment _ => if event.outcome.result then increment.toNat else 0
  | _ => 0

def streamCredit (streamId : UInt32) (event : Event) : Nat :=
  match event.operation with
  | .updateStreamWindow updated increment =>
    if updated = streamId ∧ event.outcome.result = true then increment.toNat else 0
  | _ => 0

structure Paid (event : Event) : Prop where
  connection : event.outcome.scheduler.connectionWindow + dataOctets event.outcome.frames =
    event.before.connectionWindow + connectionCredit event
  connection_range : 0 ≤ event.before.connectionWindow →
    event.before.connectionWindow ≤ kMaximumWindow →
    0 ≤ event.outcome.scheduler.connectionWindow ∧
      event.outcome.scheduler.connectionWindow ≤ kMaximumWindow
  stream : ∀ id stream', event.outcome.scheduler.streams.lookup id = some stream' →
    (event.before.streams.lookup id = none ∧
      stream'.window = event.outcome.scheduler.initialWindowSize) ∨
    ∃ stream, event.before.streams.lookup id = some stream ∧
      stream'.window + dataOctets (framesOf id event.outcome.frames) =
        stream.window + streamCredit id event +
          ((event.outcome.scheduler.initialWindowSize : Int) - event.before.initialWindowSize) ∧
      (dataOctets (framesOf id event.outcome.frames) = 0 ∨ 0 ≤ stream'.window) ∧
      (stream.window ≤ kMaximumWindow → stream'.window ≤ kMaximumWindow)

/-- A call moves the windows to `mid` and then spends from there, behind frames without DATA. -/
theorem Paid.ofSpent (heq : event.outcome = outcome) (hs : Spent mid outcome.scheduler data)
    (hf : outcome.frames = block ++ data)
    (hb : dataOctets block = 0 ∧ ∀ id, dataOctets (framesOf id block) = 0)
    (hc : mid.connectionWindow = event.before.connectionWindow + connectionCredit event)
    (hmax : event.before.connectionWindow ≤ kMaximumWindow →
      mid.connectionWindow ≤ kMaximumWindow)
    (hst : ∀ id stream', mid.streams.lookup id = some stream' →
      (event.before.streams.lookup id = none ∧ dataOctets (framesOf id data) = 0 ∧
        stream'.window = mid.initialWindowSize) ∨
      ∃ stream, event.before.streams.lookup id = some stream ∧
        stream'.window = stream.window + streamCredit id event +
          ((mid.initialWindowSize : Int) - event.before.initialWindowSize) ∧
        (stream.window ≤ kMaximumWindow → stream'.window ≤ kMaximumWindow)) :
    Paid event := by
  rw [← heq] at hs hf
  have hp := hs.connection
  have hke := hs.connection_kept
  have hall : ∀ id, dataOctets (framesOf id event.outcome.frames) = dataOctets (framesOf id data) := by
    intro id
    rw [hf, framesOf_append, dataOctets_append, hb.2, Nat.zero_add]
  refine ⟨?_, ?_, ?_⟩
  · rw [hf, dataOctets_append, hb.1]
    omega
  · intro hlow hh
    have := hmax hh
    omega
  · intro id stream'' hl''
    obtain ⟨stream', hl', hw', hk'⟩ := hs.stream id stream'' hl''
    rw [hall, hs.initial]
    rcases hst id stream' hl' with ⟨hn, hsi, hw⟩ | ⟨stream, hl, hw, hle⟩
    · left
      refine ⟨hn, ?_⟩
      omega
    · right
      refine ⟨stream, hl, by omega, hk', ?_⟩
      intro hh
      have := hle hh
      omega

theorem no_octets : dataOctets [] = 0 ∧ ∀ id, dataOctets (framesOf id []) = 0 :=
  ⟨rfl, fun _ => rfl⟩

/-- A call that sends nothing and moves no window: streams leave the map, or
enter it with the initial window. -/
theorem Paid.still (heq : event.outcome = outcome) (hf : outcome.frames = [])
    (hcr : connectionCredit event = 0) (hc : ∀ id, streamCredit id event = 0)
    (hco : outcome.scheduler.connectionWindow = event.before.connectionWindow)
    (hi : outcome.scheduler.initialWindowSize = event.before.initialWindowSize)
    (hs : ∀ id stream', outcome.scheduler.streams.lookup id = some stream' →
      event.before.streams.lookup id = some stream' ∨
      event.before.streams.lookup id = none ∧
        stream'.window = outcome.scheduler.initialWindowSize) : Paid event := by
  refine .ofSpent heq Spent.refl hf no_octets (by simp [hco, hcr]) (by simp [hco]) ?_
  intro id stream' hl
  rcases hs id stream' hl with hold | ⟨hn, hw⟩
  · exact Or.inr ⟨stream', hold, by simp [hc, hi], fun hle => hle⟩
  · exact Or.inl ⟨hn, rfl, hw⟩

theorem block_octets (h : HeaderRun streamId endStream .headers block) :
    dataOctets block = 0 ∧ ∀ id, dataOctets (framesOf id block) = 0 := by
  have hn : dataOctets block = 0 := congrArg List.length (block_payload h)
  refine ⟨hn, fun id => ?_⟩
  by_cases hk : streamId = id
  · subst hk
    rw [framesOf_own h.streamId_eq, hn]
  · rw [framesOf_other hk h.streamId_eq, dataOctets_nil]

/-- A call that returns `false` changes nothing and sends nothing. -/
theorem refused_unchanged : event.outcome.result = false →
      event.outcome.scheduler = event.before ∧ event.outcome.frames = [] := by
  obtain ⟨s, op⟩ := event
  have h : Performs s op (Event.outcome ⟨s, op⟩) := performs s op
  generalize Event.outcome ⟨s, op⟩ = outcome at h ⊢
  cases h <;> simp

theorem openStream_kept : (s.openStream opened).connectionWindow = s.connectionWindow ∧
      (s.openStream opened).initialWindowSize = s.initialWindowSize ∧
      ∀ id stream, (s.openStream opened).streams.lookup id = some stream →
        s.streams.lookup id = some stream ∨ s.streams.lookup id = none ∧
          stream.window = s.initialWindowSize ∧ stream.responseSubmitted = false := by
  unfold H2OutboundScheduler.openStream
  split
  · exact ⟨rfl, rfl, fun _ _ => Or.inl⟩
  · split
    · exact ⟨rfl, rfl, fun _ _ => Or.inl⟩
    · rename_i hn
      refine ⟨rfl, rfl, fun id stream hl => ?_⟩
      rcases Maps.of_lookup_insert hl with ⟨rfl, rfl⟩ | ⟨-, hold⟩
      · exact Or.inr ⟨hn, rfl, rfl⟩
      · exact Or.inl hold

/-- Every call keeps the account. -/
theorem call_paid (event : Event) : Paid event := by
  obtain ⟨s, op⟩ := event
  obtain ⟨outcome, heq, h⟩ : ∃ outcome, Event.outcome ⟨s, op⟩ = outcome ∧ Performs s op outcome :=
    ⟨_, rfl, performs s op⟩
  cases h with
  | refuses =>
    refine .still heq rfl ?_ (fun id => ?_) rfl rfl (fun _ _ => Or.inl)
    · unfold connectionCredit
      split <;> simp [heq]
    · unfold streamCredit
      split <;> simp [heq]
  | opens opened =>
    obtain ⟨hco, hi, hs⟩ := openStream_kept
    refine .still heq rfl rfl (fun _ => rfl) hco hi (fun id stream hl => ?_)
    exact (hs id stream hl).imp_right fun ⟨hn, hw, _⟩ => ⟨hn, by rw [hw, hi]⟩
  | closes closing =>
    exact .still heq rfl rfl (fun _ => rfl) rfl rfl
      fun id stream hl => Or.inl (Maps.of_lookup_erase hl).2
  | ends => exact .still heq rfl rfl (fun _ => rfl) rfl rfl fun id stream hl => by cases hl
  | answers held waiting empty encodes =>
    refine .ofSpent heq Spent.refl (List.append_nil _).symm (block_octets encodes.run)
      (by simp [connectionCredit, encodes.window]) (by simp [encodes.window]) ?_
    intro id stream hl
    have hold := (Maps.of_lookup_erase hl).2
    rw [encodes.streams] at hold
    exact Or.inr ⟨stream, hold, by simp [streamCredit, encodes.initial], fun hle => hle⟩
  | @sends _ _ _ stream _ _ _ held waiting encodes sends =>
    refine .ofSpent heq (sends_spent sends).1 rfl (block_octets encodes.run)
      (by simp [connectionCredit, encodes.window]) (by simp [encodes.window]) ?_
    intro id stream' hl
    rcases Maps.of_lookup_insert hl with ⟨rfl, rfl⟩ | ⟨-, hold⟩
    · exact Or.inr ⟨stream, held, by simp [streamCredit, encodes.initial], fun hle => hle⟩
    · rw [encodes.streams] at hold
      exact Or.inr ⟨stream', hold, by simp [streamCredit, encodes.initial], fun hle => hle⟩
  | settles flushes fits streams initial kept =>
    refine .ofSpent heq (flushes_spent flushes).1 rfl no_octets
      (by simp [connectionCredit, kept.1]) (by simp [kept.1]) ?_
    intro id stream' hl
    rw [streams, shiftWindows_lookup] at hl
    obtain ⟨stream, hold, rfl⟩ := Option.map_eq_some_iff.mp hl
    exact Or.inr ⟨stream, hold, by simp [streamCredit, initial], fun _ => fits id stream hold⟩
  | grants fits flushes =>
    refine .ofSpent heq (flushes_spent flushes).1 rfl no_octets
      (by simp [connectionCredit, heq]) (fun _ => fits) ?_
    intro id stream hl
    exact Or.inr ⟨stream, hl, by simp [streamCredit], fun hle => hle⟩
  | @raises updated increment stream _ _ held fits sends =>
    refine .ofSpent heq (sends_spent sends).1 rfl no_octets (by simp [connectionCredit])
      (fun hle => hle) ?_
    intro id stream' hl
    rcases Maps.of_lookup_insert hl with ⟨rfl, rfl⟩ | ⟨hne, hold⟩
    · exact Or.inr ⟨stream, held, by simp [streamCredit, heq], fun _ => fits⟩
    · exact Or.inr ⟨stream', hold, by simp [streamCredit, Ne.symm hne], fun hle => hle⟩

def Lowers (event : Event) : Prop :=
  event.outcome.result = true ∧
    ∃ window size table order, event.operation = .applyPeerSettings window size table order ∧
      window.toNat < event.before.initialWindowSize

/-- Only `ApplyPeerSettings` changes the initial window size. -/
theorem lowers_of_smaller
    (h : event.outcome.scheduler.initialWindowSize < event.before.initialWindowSize) :
    Lowers event := by
  obtain ⟨s, op⟩ := event
  obtain ⟨outcome, heq, hp⟩ : ∃ outcome, Event.outcome ⟨s, op⟩ = outcome ∧ Performs s op outcome :=
    ⟨_, rfl, performs s op⟩
  unfold Lowers
  rw [heq] at h ⊢
  cases hp with
  | refuses | closes | ends | raises => exact absurd h (Nat.lt_irrefl _)
  | opens opened => exact absurd h (Nat.not_lt.mpr (Nat.le_of_eq openStream_kept.2.1.symm))
  | answers _ _ _ encodes => exact absurd h (Nat.not_lt.mpr (Nat.le_of_eq encodes.initial.symm))
  | sends _ _ encodes _ => exact absurd h (Nat.not_lt.mpr (Nat.le_of_eq encodes.initial.symm))
  | grants _ flushes => exact absurd ((flushes_spent flushes).1.initial ▸ h) (Nat.lt_irrefl _)
  | settles flushes _ _ initial =>
    refine ⟨rfl, _, _, _, _, rfl, ?_⟩
    rw [← initial, ← (flushes_spent flushes).1.initial]
    exact h

def connectionCredits (log : List Event) : Nat := (log.map connectionCredit).sum

def streamCredits (streamId : UInt32) (log : List Event) : Nat :=
  (log.map (streamCredit streamId)).sum

/-- The calls since a stream was registered: each of them finds it in the map. -/
def tenure (streamId : UInt32) (log : List Event) : List Event :=
  log.rtakeWhile (fun event => (event.before.streams.lookup streamId).isSome)

theorem tenure_new
    (h : event.before.streams.lookup streamId = none) : tenure streamId (log ++ [event]) = [] :=
  List.rtakeWhile_concat_neg _ _ _ (by simp [h])

theorem tenure_old (h : event.before.streams.lookup streamId = some stream) :
    tenure streamId (log ++ [event]) = tenure streamId log ++ [event] :=
  List.rtakeWhile_concat_pos _ _ _ (by simp [h])

structure Account (streamId : UInt32) (since : List Event) (initial window : Int) : Prop where
  balance : window + dataOctets (framesOf streamId (emitted since)) =
    initial + streamCredits streamId since
  low : -(kMaximumWindow : Int) ≤ window - initial
  high : window ≤ kMaximumWindow
  negative : window < 0 → ∃ event ∈ since, Lowers event

theorem Account.opened : Account streamId [] s.initialWindowSize s.initialWindowSize where
  balance := by simp [streamCredits, emitted]
  low := by simp
  high := by exact_mod_cast s.windowChecked
  negative := by
    intro h
    omega

theorem Account.next {stream' : StreamOutput}
    (h : Account streamId since event.before.initialWindowSize stream.window)
    (hp : stream'.window + dataOctets (framesOf streamId event.outcome.frames) =
      stream.window + streamCredit streamId event +
        ((event.outcome.scheduler.initialWindowSize : Int) - event.before.initialWindowSize))
    (hk : dataOctets (framesOf streamId event.outcome.frames) = 0 ∨ 0 ≤ stream'.window)
    (hh : stream'.window ≤ kMaximumWindow) :
    Account streamId (since ++ [event]) event.outcome.scheduler.initialWindowSize
      stream'.window where
  balance := by
    have hb := h.balance
    have hs : dataOctets (framesOf streamId (emitted (since ++ [event]))) =
        dataOctets (framesOf streamId (emitted since)) +
          dataOctets (framesOf streamId event.outcome.frames) := by
      simp [emitted]
    have hcr : streamCredits streamId (since ++ [event]) =
        streamCredits streamId since + streamCredit streamId event := by
      simp [streamCredits]
    rw [hs, hcr]
    omega
  low := by
    have hl := h.low
    have hc := event.outcome.scheduler.windowChecked
    omega
  high := hh
  negative := by
    intro hneg
    by_cases hlow : event.outcome.scheduler.initialWindowSize < event.before.initialWindowSize
    · exact ⟨event, by simp, lowers_of_smaller hlow⟩
    · obtain ⟨lowering, hmem, hlo⟩ := h.negative (by omega)
      exact ⟨lowering, List.mem_append_left _ hmem, hlo⟩

structure Balanced (log : List Event) (s : H2OutboundScheduler) : Prop where
  /-- the connection window is what was granted and not yet used -/
  connection : s.connectionWindow =
    65535 + connectionCredits log - dataOctets (emitted log)
  connection_range : 0 ≤ s.connectionWindow ∧ s.connectionWindow ≤ kMaximumWindow
  /-- a stream's window is the current initial size, what was granted and what was used -/
  stream : ∀ id stream, s.streams.lookup id = some stream →
    stream.window = s.initialWindowSize + streamCredits id (tenure id log) -
      dataOctets (framesOf id (emitted (tenure id log)))
  /-- the lower bound keeps the 64-bit arithmetic of the source exact -/
  stream_range : ∀ id stream, s.streams.lookup id = some stream →
    -(kMaximumWindow : Int) ≤ stream.window ∧ stream.window ≤ kMaximumWindow
  /-- a window is negative only after a peer lowered the initial size -/
  negative : ∀ id stream, s.streams.lookup id = some stream → stream.window < 0 →
    ∃ event ∈ tenure id log, Lowers event
  /-- a call that returns `false` changes nothing -/
  refused : ∀ event ∈ log, event.outcome.result = false →
    event.outcome.scheduler = event.before ∧ event.outcome.frames = []

theorem history_concat : s.history (ops ++ [op]) = s.history ops ++ [⟨s.final ops, op⟩] :=
  H2OutboundScheduler.history_append s ops [op]

theorem accounts (hs : Created s) (id : UInt32) (hl : (s.final ops).streams.lookup id = some stream) :
    Account id (tenure id (s.history ops)) (s.final ops).initialWindowSize stream.window := by
  induction ops using List.reverseRecOn generalizing stream with
  | nil =>
    change s.streams.lookup id = some stream at hl
    rw [created_streams hs, AList.lookup_empty] at hl
    cases hl
  | append_singleton ops op ih =>
    rw [history_concat]
    rw [H2OutboundScheduler.final_append] at hl ⊢
    rcases (call_paid ⟨s.final ops, op⟩).stream id stream hl with
      ⟨hn, hw⟩ | ⟨old, hold, hp, hk, hh⟩
    · rw [tenure_new hn, hw]
      exact Account.opened
    · rw [tenure_old hold]
      exact (ih hold).next hp hk (hh (ih hold).high)

/-- The connection window along a run. -/
theorem connection_account (hs : Created s) :
    (s.final ops).connectionWindow + dataOctets (emitted (s.history ops)) =
        65535 + connectionCredits (s.history ops) ∧
      0 ≤ (s.final ops).connectionWindow ∧ (s.final ops).connectionWindow ≤ kMaximumWindow := by
  induction ops using List.reverseRecOn with
  | nil =>
    have hst : s.connectionWindow = 65535 := by
      obtain ⟨window, size, options, hs⟩ := hs
      unfold H2OutboundScheduler.create at hs
      split at hs
      · cases hs
        rfl
      · cases hs
    change s.connectionWindow + _ = _ ∧ 0 ≤ s.connectionWindow ∧ s.connectionWindow ≤ kMaximumWindow
    rw [hst]
    exact ⟨rfl, by decide, by decide⟩
  | append_singleton ops op ih =>
    obtain ⟨hb, hlow, hh⟩ := ih
    have hp := call_paid ⟨s.final ops, op⟩
    have hco := hp.connection
    rw [H2OutboundScheduler.final_append, history_concat]
    refine ⟨?_, hp.connection_range hlow hh⟩
    have hse : dataOctets (emitted (s.history ops ++ [⟨s.final ops, op⟩])) =
        dataOctets (emitted (s.history ops)) +
          dataOctets (Event.outcome ⟨s.final ops, op⟩).frames := by
      simp [emitted]
    have hc : connectionCredits (s.history ops ++ [⟨s.final ops, op⟩]) =
        connectionCredits (s.history ops) + connectionCredit ⟨s.final ops, op⟩ := by
      simp [connectionCredits]
    rw [hse, hc]
    change (Event.outcome ⟨s.final ops, op⟩).scheduler.connectionWindow + _ = _
    dsimp only at hco
    omega

/-- Every run keeps the account of the connection and of every stream. -/
theorem windows_balanced {s : H2OutboundScheduler} (hs : Created s) (ops : List Operation) :
    Balanced (s.history ops) (s.final ops) := by
  obtain ⟨hconn, hrange⟩ := connection_account hs
  refine ⟨by omega, hrange, ?_, ?_, ?_, ?_⟩
  · intro id stream hl
    have hbalance := (accounts hs id hl).balance
    omega
  · intro id stream hl
    have hlow := (accounts hs id hl).low
    exact ⟨by omega, (accounts hs id hl).high⟩
  · intro id stream hl
    exact (accounts hs id hl).negative
  · intro event _ hresult
    exact refused_unchanged hresult

def narrowed : List Operation :=
  [.openStream 1, .applyPeerSettings 10 16384 4096 [1],
    .submitResponse 1 { body := octets "response body" }, .applyPeerSettings 4 16384 4096 [1]]

theorem windows_balanced_narrowed : Created defaults ∧
    ((defaults.final narrowed).streams.lookup 1).map StreamOutput.window = some (-6) ∧
    Balanced (defaults.history narrowed) (defaults.final narrowed) :=
  ⟨defaults_created, by decide +kernel, windows_balanced defaults_created narrowed⟩

def Listed (event : Event) : Prop :=
  match event.operation with
  | .applyPeerSettings _ _ _ order => order.Perm event.before.streams.keys
  | .updateConnectionWindow _ order => order.Perm event.before.streams.keys
  | _ => True

/-- A flush of all streams leaves each of them blocked: those it did not visit
are not in the map. -/
theorem flushes_blocked (h : Flushes order mid frames t) (hli : order.Perm s.streams.keys)
    (hmid : ∀ id, (mid.streams.lookup id).isSome = (s.streams.lookup id).isSome) :
    ∀ id, Blocked t id := by
  intro id stream hl
  obtain ⟨hs, hb⟩ := flushes_spent h
  obtain ⟨stream', hl', -⟩ := hs.stream id stream hl
  have hkey : id ∈ s.streams.keys :=
    AList.mem_keys.mp (AList.lookup_isSome.mp (by rw [← hmid, hl', Option.isSome_some]))
  exact hb id (Or.inl (hli.mem_iff.mpr hkey)) stream hl

/-- One call leaves every stream blocked. -/
theorem call_blocked (event : Event) (hli : Listed event)
    (h : ∀ id, Blocked event.before id) : ∀ id, Blocked event.outcome.scheduler id := by
  obtain ⟨s, op⟩ := event
  have hp : Performs s op (Event.outcome ⟨s, op⟩) := performs s op
  generalize Event.outcome ⟨s, op⟩ = outcome at hp ⊢
  intro id
  cases hp with
  | refuses => exact h id
  | opens opened =>
    intro stream hl hsub
    obtain ⟨hco, -, hs⟩ := openStream_kept
    rcases hs id stream hl with hold | ⟨-, -, hno⟩
    · exact hco ▸ h id stream hold hsub
    · exact absurd hsub (by simp [hno])
  | closes closing => exact fun stream hl => h id stream (Maps.of_lookup_erase hl).2
  | ends => exact fun stream hl => by cases hl
  | answers _ _ _ encodes =>
    intro stream hl
    have hold := (Maps.of_lookup_erase hl).2
    rw [encodes.streams] at hold
    exact encodes.window ▸ h id stream hold
  | sends _ _ encodes sends =>
    exact sends_blocked sends (Or.inr ((h id).kept (by rw [encodes.streams]) (Int.le_of_eq encodes.window)))
  | settles flushes _ streams =>
    exact flushes_blocked flushes hli (fun id => by rw [streams, shiftWindows_lookup, Option.isSome_map]) id
  | grants _ flushes => exact flushes_blocked flushes hli (fun _ => rfl) id
  | raises _ _ sends => exact sends_blocked sends (Or.inr (h id))

/-- Between any two calls, a response that is not sent completely waits for credit. -/
theorem never_stalls {s : H2OutboundScheduler} (hs : Created s) (ops : List Operation)
    (hlisted : ∀ event ∈ s.history ops, Listed event) (id : UInt32) (stream : StreamOutput)
    (hl : (s.final ops).streams.lookup id = some stream) (hsub : stream.responseSubmitted = true)
    (hleft : stream.offset < stream.body.length) :
    stream.window ≤ 0 ∨ (s.final ops).connectionWindow ≤ 0 := by
  have hblocked : ∀ id, Blocked (s.final ops) id := by
    clear hl
    induction ops using List.reverseRecOn with
    | nil =>
      intro id stream hl
      change s.streams.lookup id = some stream at hl
      rw [created_streams hs, AList.lookup_empty] at hl
      cases hl
    | append_singleton ops op ih =>
      rw [history_concat] at hlisted
      rw [H2OutboundScheduler.final_append]
      exact call_blocked ⟨s.final ops, op⟩ (hlisted _ (by simp))
        (ih (fun event he => hlisted event (List.mem_append_left _ he)))
  exact hblocked id stream hl hsub hleft

def overdrawn : StreamOutput where
  window := -6
  body := octets "response body"
  offset := 10
  responseSubmitted := true

theorem narrowed_listed : ∀ event ∈ defaults.history narrowed, Listed event := by
  intro event he
  simp only [narrowed, H2OutboundScheduler.history, List.mem_cons, List.not_mem_nil, or_false] at he
  rcases he with rfl | rfl | rfl | rfl
  · trivial
  · change List.Perm [1] (H2OutboundScheduler.streams _).keys
    decide +kernel
  · trivial
  · change List.Perm [1] (H2OutboundScheduler.streams _).keys
    decide +kernel

theorem never_stalls_narrowed : Created defaults ∧
    (∀ event ∈ defaults.history narrowed, Listed event) ∧
    (defaults.final narrowed).streams.lookup 1 = some overdrawn ∧
    (overdrawn.window ≤ 0 ∨ (defaults.final narrowed).connectionWindow ≤ 0) := by
  have hl : (defaults.final narrowed).streams.lookup 1 = some overdrawn := by decide +kernel
  exact ⟨defaults_created, narrowed_listed, hl,
    never_stalls defaults_created narrowed narrowed_listed 1 overdrawn hl rfl (by decide)⟩

end IocpRuntime.Proofs.OutboundCredit
