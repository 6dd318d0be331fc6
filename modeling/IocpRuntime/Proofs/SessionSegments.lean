import IocpRuntime.Lib.Incremental
import IocpRuntime.Proofs.FrameRoundTrip
import IocpRuntime.Proofs.StreamEnds

namespace IocpRuntime.Proofs.SessionSegments
open Lib Http Http2 Http2.H2Session SessionFrames SessionRuns FeedRuns StreamEnds
open FrameRoundTrip

section Cutting
theorem cutOctets_eq_error (h : cutOctets maximumFrameSize readable = .protocolError) :
    kHeaderSize ≤ readable.length ∧ maximumFrameSize < (headerOf readable).length := by
  unfold cutOctets at h
  split at h
  · cases h
  rename_i hl
  dsimp only at h
  split at h
  · rename_i hs
    exact ⟨Nat.not_lt.mp hl, hs⟩
  · split at h <;> cases h

/-- A whole frame is cut off whatever stands behind it. -/
theorem cutOctets_frame_append (h : cutOctets maximumFrameSize readable = .frame frame rest) :
    cutOctets maximumFrameSize (readable ++ more) = .frame frame (rest ++ more) := by
  obtain ⟨hwh, hs, rfl, rfl⟩ := cutOctets_eq_frame h
  have hlo : kHeaderSize ≤ readable.length := Nat.le_of_add_right_le hwh
  have hl : (readable ++ more).length = readable.length + more.length := List.length_append
  unfold cutOctets
  rw [if_neg (by omega), headerOf_append hlo]
  dsimp only
  rw [if_neg (UInt32.not_lt.mpr hs), if_neg (by omega), List.drop_append_of_le_length hwh]
  simp only [slice, List.drop_append_of_le_length hlo]
  rw [List.take_append_of_le_length]
  rw [List.length_drop]
  omega

theorem cutOctets_error_append (h : cutOctets maximumFrameSize readable = .protocolError) :
    cutOctets maximumFrameSize (readable ++ more) = .protocolError := by
  obtain ⟨hlo, hs⟩ := cutOctets_eq_error h
  have hl : (readable ++ more).length = readable.length + more.length := List.length_append
  unfold cutOctets
  rw [if_neg (by omega), headerOf_append hlo]
  exact if_pos hs

end Cutting

def reached : Endpoint.Round → Endpoint
  | .goesOn e => e
  | .returns e _ => e

/-- The same step, with more octets behind it: a closed session does not keep them. -/
structure Extends (more : Octets) (e e' : Endpoint) : Prop where
  session : e'.session = e.session
  arrivals : e'.arrivals = e.arrivals
  buffer : e'.receiveBuffer =
    if e.session.state = .closed then e.receiveBuffer else e.receiveBuffer ++ more

theorem Extends.closed (hc : e.session.state = .closed)
    (hs : e'.session = e.session) (ha : e'.arrivals = e.arrivals)
    (hb : e'.receiveBuffer = e.receiveBuffer) : Extends more e e' :=
  ⟨hs, ha, by rw [if_pos hc, hb]⟩

theorem Extends.open (ho : e.session.state ≠ .closed)
    (hs : e'.session = e.session) (ha : e'.arrivals = e.arrivals)
    (hb : e'.receiveBuffer = e.receiveBuffer ++ more) : Extends more e e' :=
  ⟨hs, ha, by rw [if_neg ho, hb]⟩

section Rounds
variable {e : Endpoint}

theorem zip_append (a b : Octets) (expected : Octets) :
    (a ++ b).zip expected = a.zip expected ++ b.zip (expected.drop a.length) := by
  induction a generalizing expected with
  | nil => rfl
  | cons octet a ih =>
    cases expected with
    | nil => simp
    | cons first expected => simp [ih]

theorem prefaceRound_append
    (h : (reached e.prefaceRound).receiveBuffer.length < e.receiveBuffer.length) :
    Extends more (reached e.prefaceRound)
      (reached { e with receiveBuffer := e.receiveBuffer ++ more }.prefaceRound) := by
  unfold Endpoint.prefaceRound at h ⊢
  dsimp only at h ⊢
  rw [zip_append, List.all_append]
  split at h
  · rename_i hd
    rw [Bool.not_eq_true'] at hd
    simp only [hd, Bool.false_and, Bool.not_false, if_true]
    exact .closed rfl rfl rfl rfl
  · rename_i ha
    rw [Bool.not_eq_true, Bool.not_eq_false'] at ha
    simp only [ha, Bool.true_and]
    split at h
    · exact absurd h (Nat.lt_irrefl _)
    · rename_i hlo
      have hlo' := Nat.not_lt.mp hlo
      have hn : kPreface.drop e.receiveBuffer.length = [] := List.drop_eq_nil_of_le hlo'
      have hl : ¬ (e.receiveBuffer ++ more).length < kPreface.length := by
        rw [List.length_append]
        omega
      simp only [hn, List.zip_nil_right, List.all_nil, Bool.not_true,
        Bool.false_eq_true, if_false, if_neg hlo, if_neg hl]
      refine .open ?_ rfl rfl (List.drop_append_of_le_length hlo')
      simp [reached, H2Session.acceptPreface, H2Session.send]

theorem frameRound_append (hmet : Met arrival) : Extends more (reached (e.frameRound arrival rest))
      (reached (Endpoint.frameRound { e with receiveBuffer := buffer } arrival (rest ++ more))) := by
  have hc := hmet.received.closed_iff hmet.healthy hmet.connected
  unfold Endpoint.frameRound
  cases hs : arrival.status with
  | closeRequired => exact .closed (hc.mp hs) rfl rfl rfl
  | ready =>
    have ho : arrival.after.state ≠ .closed := by
      intro ha
      rw [hc.mpr ha] at hs
      cases hs
    dsimp only
    split
    · exact .open ho rfl rfl rfl
    · exact .open ho rfl rfl rfl
  | _ =>
    refine .open (fun ha => ?_) rfl rfl rfl
    rw [hc.mpr ha] at hs
    cases hs

/-- A round that takes something off the buffer does the same with more octets behind. -/
theorem round_append (more : Octets) (hh : Healthy e.session)
    (h : (reached (e.round environment)).receiveBuffer.length < e.receiveBuffer.length) :
    Extends more (reached (e.round environment))
      (reached (Endpoint.round environment { e with receiveBuffer := e.receiveBuffer ++ more })) := by
  unfold Endpoint.round at h ⊢
  cases hs : e.session.state with
  | expectPreface =>
    simp only [hs] at h
    exact prefaceRound_append h
  | connected =>
    simp only [hs] at h
    cases hcut : cutOctets e.session.config.maximumFrameSize e.receiveBuffer with
    | needMore =>
      rw [hcut] at h
      exact absurd h (Nat.lt_irrefl _)
    | protocolError =>
      simp only [cutOctets_error_append hcut]
      exact .closed rfl rfl rfl rfl
    | frame frame rest =>
      have ha := answered_answered e.session (environment e.arrivals).answers
      simp only [cutOctets_frame_append hcut]
      exact frameRound_append ⟨ha.healthy hh, ha.state.trans hs⟩
  | closing =>
    simp only [hs] at h
    exact absurd h (Nat.lt_irrefl _)
  | closed =>
    simp only [hs] at h
    exact absurd h (Nat.lt_irrefl _)

/-- What a round leaves, seen from outside. -/
theorem reached_rounds (hh : Healthy e.session) : Healthy (reached (e.round environment)).session ∧
      e.arrivals ⊆ (reached (e.round environment)).arrivals := by
  have hr := round_rounds environment e
  generalize e.round environment = round at hr ⊢
  cases hr with
  | mismatch => exact ⟨fun ho => absurd rfl ho, fun _ h => h⟩
  | waits => exact ⟨hh, fun _ h => h⟩
  | oversized => exact ⟨fun ho => absurd rfl ho, fun _ h => h⟩
  | greeted unconnected =>
    refine ⟨acceptPreface_healthy hh ?_, fun _ h => h⟩
    rw [unconnected]
    decide
  | framed connected arrival rest met dispatch cut =>
    have ha := answered_answered e.session (environment e.arrivals).answers
    have hmet : Met arrival :=
      ⟨met ▸ ha.healthy hh, met ▸ ha.state.trans connected⟩
    have haf : (reached (e.frameRound arrival rest)).session = arrival.after ∧
        (reached (e.frameRound arrival rest)).arrivals = e.arrivals ++ [arrival] := by
      unfold Endpoint.frameRound
      cases arrival.status with
      | ready => dsimp only; split <;> exact ⟨rfl, rfl⟩
      | _ => exact ⟨rfl, rfl⟩
    rw [haf.1, haf.2]
    exact ⟨hmet.after_healthy, List.subset_append_left _ _⟩

end Rounds

/-- A session between two rounds, with the frames it has met. -/
@[ext]
structure Stage where
  session : H2Session
  arrivals : List Arrival
  healthy : Healthy session

/-- The loop of `Feed` as a reader. A round counts if it takes octets off the buffer. -/
def reader (environment : Environment) : Incremental.Reader Stage UInt8 where
  round stage buffer :=
    let e : Endpoint := ⟨stage.session, buffer, stage.arrivals⟩
    let next := reached (e.round environment)
    if next.receiveBuffer.length < buffer.length then
      some (⟨next.session, next.arrivals, (reached_rounds stage.healthy).1⟩, next.receiveBuffer)
    else none
  deaf stage := stage.session.state == .closed

structure Stands (x : Stage × Octets) (e : Endpoint) : Prop where
  session : x.1.session = e.session
  arrivals : x.1.arrivals = e.arrivals
  buffer : x.2 = e.receiveBuffer

theorem Stands.unique (h : Stands x e) (h' : Stands x e') : e = e' := by
  obtain ⟨session, buffer, arrivals⟩ := e
  obtain ⟨session', buffer', arrivals'⟩ := e'
  cases h.session.symm.trans h'.session
  cases h.arrivals.symm.trans h'.arrivals
  cases h.buffer.symm.trans h'.buffer
  rfl

section Reading
theorem Stands.healthy (h : Stands x e) : Healthy e.session := h.session ▸ x.1.healthy

/-- The reader makes the rounds that take something off the buffer. -/
theorem round_eq_some (h : Stands x e) : (reader environment).round x.1 x.2 = some y ↔
      (reached (e.round environment)).receiveBuffer.length < e.receiveBuffer.length ∧
        Stands y (reached (e.round environment)) := by
  obtain ⟨⟨session, arrivals, healthy⟩, buffer⟩ := x
  obtain ⟨session', buffer', arrivals'⟩ := e
  obtain ⟨⟨nextSession, nextArrivals, nextHealthy⟩, nextBuffer⟩ := y
  cases h.session
  cases h.arrivals
  cases h.buffer
  simp only [reader, Option.ite_none_right_eq_some, Option.some.injEq, Prod.mk.injEq, Stage.mk.injEq]
  constructor
  · rintro ⟨hs, ⟨hse, ha⟩, hb⟩
    exact ⟨hs, hse.symm, ha.symm, hb.symm⟩
  · rintro ⟨hs, hst⟩
    exact ⟨hs, ⟨hst.session.symm, hst.arrivals.symm⟩, hst.buffer.symm⟩

theorem round_eq_none (h : Stands x e)
    (hwa : e.receiveBuffer.length ≤ (reached (e.round environment)).receiveBuffer.length) :
    (reader environment).round x.1 x.2 = none := by
  cases hr : (reader environment).round x.1 x.2 with
  | none => rfl
  | some y => exact absurd ((round_eq_some h).mp hr).1 (Nat.not_lt.mpr hwa)

theorem Stands.next (h : Stands x e)
    (hs : (reached (e.round environment)).receiveBuffer.length < e.receiveBuffer.length) :
    ∃ y, (reader environment).round x.1 x.2 = some y ∧ Stands y (reached (e.round environment)) := by
  let next := reached (e.round environment)
  have hn : Stands (⟨next.session, next.arrivals, (reached_rounds h.healthy).1⟩,
    next.receiveBuffer) next := ⟨rfl, rfl, rfl⟩
  exact ⟨_, (round_eq_some h).mpr ⟨hs, hn⟩, hn⟩

theorem Stands.join (h : Stands x e) (ho : e.session.state ≠ .closed) :
    Stands ((reader environment).join x more) { e with receiveBuffer := e.receiveBuffer ++ more } := by
  have hh : (reader environment).deaf x.1 = false := by
    simp [reader, h.session, ho]
  refine ⟨h.session, h.arrivals, ?_⟩
  simp [Incremental.Reader.join, hh, h.buffer]

end Reading

theorem reader_stable (environment : Environment) : Incremental.Stable (reader environment) where
  shorter := by
    intro stage buffer next h
    have hst : Stands (stage, buffer) ⟨stage.session, buffer, stage.arrivals⟩ := ⟨rfl, rfl, rfl⟩
    obtain ⟨hs, hn⟩ := (round_eq_some hst).mp h
    rw [hn.buffer]
    exact hs
  behind := by
    intro stage buffer next h more
    have hst : Stands (stage, buffer) ⟨stage.session, buffer, stage.arrivals⟩ := ⟨rfl, rfl, rfl⟩
    have hl : Stands (stage, buffer ++ more)
      ⟨stage.session, buffer ++ more, stage.arrivals⟩ := ⟨rfl, rfl, rfl⟩
    obtain ⟨hs, hn⟩ := (round_eq_some hst).mp h
    have he := round_append more stage.healthy hs
    dsimp only at hs
    refine (round_eq_some hl).mpr ⟨?_, ?_, ?_, ?_⟩
    · rw [he.buffer]
      simp only [List.length_append]
      split
      · omega
      · rw [List.length_append]
        omega
    · exact hn.session.trans he.session.symm
    · exact hn.arrivals.trans he.arrivals.symm
    · rw [he.buffer, ← hn.buffer, ← hn.session]
      simp [Incremental.Reader.join, reader]
  deaf := by
    intro stage hd buffer
    have hc : stage.session.state = .closed := eq_of_beq hd
    simp [reader, Endpoint.round, hc, reached]

/-- With a router that accepts everything, a frame goes well, exceeds the body limit or costs
the connection. -/
theorem Received.accepted_status (h : Received s frame .accepted t status) :
    status = .ready ∨ status = .bufferLimitExceeded ∨ status = .closeRequired := by
  have hd : ∀ {s t : H2Session} {stream : H2Stream} {request : HttpRequest}
      {status : ProtocolFeedStatus}, Dispatches s stream request .accepted t status →
      status = .ready := by
    intro s t stream request status h
    cases h
    rfl
  cases h with
  | ignored => simp
  | failed => simp
  | handled connected admitted handled well =>
    cases handled with
    | failed => exact absurd rfl well
    | asked _ _ _ _ _ _ dispatches => exact Or.inl (hd dispatches)
    | delivered delivered =>
      cases delivered with
      | overrun => simp
      | stored => simp
      | completed _ _ _ _ dispatches => exact Or.inl (hd dispatches)
    | _ => exact Or.inl rfl

section Looping
variable {environment : Environment} {e : Endpoint}

/-- No frame has gone beyond the body limit. -/
def Moderate (arrivals : List Arrival) : Prop :=
  ∀ arrival ∈ arrivals, arrival.status ≠ .bufferLimitExceeded

theorem drain_arrivals (fuel : Nat) (x : Stage × Octets) :
    x.1.arrivals ⊆ ((reader environment).drain fuel x).1.arrivals := by
  induction fuel generalizing x with
  | zero => exact fun _ h => h
  | succ fuel ih =>
    unfold Incremental.Reader.drain
    cases hr : (reader environment).round x.1 x.2 with
    | none => exact fun _ h => h
    | some y =>
      have hs : Stands x ⟨x.1.session, x.2, x.1.arrivals⟩ := ⟨rfl, rfl, rfl⟩
      have hn := ((round_eq_some hs).mp hr).2
      have hg : x.1.arrivals ⊆ y.1.arrivals := by
        rw [hn.arrivals]
        exact (reached_rounds hs.healthy).2
      exact List.Subset.trans hg (ih y)

theorem drain_stopped (h : Stands x e)
    (hst : e.session.state = .closing ∨ e.session.state = .closed) : (reader environment).drain fuel x = x := by
  apply Incremental.drain_none
  apply round_eq_none h
  rcases hst with hs | hs <;> simp [Endpoint.round, hs, reached]

theorem cutOctets_shorter
    (h : cutOctets maximumFrameSize readable = .frame frame rest) : rest.length < readable.length := by
  obtain ⟨hwh, -, -, rfl⟩ := cutOctets_eq_frame h
  have hp : 0 < kHeaderSize := by decide
  rw [List.length_drop]
  omega

/-- A round after which `Feed` goes on has used octets. -/
theorem goesOn_shorter (h : e.round environment = .goesOn e') :
    e'.receiveBuffer.length < e.receiveBuffer.length := by
  have hro := round_rounds environment e
  rw [h] at hro
  generalize hr : Endpoint.Round.goesOn e' = round at hro
  cases hro with
  | greeted unconnected rest shorter =>
    cases hr
    exact shorter
  | framed connected arrival rest met dispatch cut =>
    unfold Endpoint.frameRound at hr
    split at hr
    · cases hr
    · dsimp only at hr
      split at hr
      · cases hr
      · cases hr
        exact cutOctets_shorter cut
    · cases hr
  | _ => cases hr

/-- Why `Feed` returns: it waits for more octets, the session has stopped, or a frame has gone
beyond the body limit. -/
theorem returns_cases (hh : Healthy e.session)
    (hac : ∀ arrivals, (environment arrivals).dispatch = .accepted)
    (hb : e.receiveBuffer ≠ []) (h : e.round environment = .returns e' status) :
    e' = e ∨ e'.receiveBuffer.length < e.receiveBuffer.length ∧
      (e'.session.state = .closing ∨ e'.session.state = .closed ∨ ¬ Moderate e'.arrivals) := by
  have hro := round_rounds environment e
  have hp : 0 < e.receiveBuffer.length := List.length_pos_iff.mpr hb
  rw [h] at hro
  generalize hr : Endpoint.Round.returns e' status = round at hro
  cases hro with
  | mismatch =>
    cases hr
    exact Or.inr ⟨hp, Or.inr (Or.inl rfl)⟩
  | waits =>
    cases hr
    exact Or.inl rfl
  | oversized =>
    cases hr
    exact Or.inr ⟨hp, Or.inr (Or.inl rfl)⟩
  | greeted => cases hr
  | framed connected arrival rest met dispatch cut =>
    have ha := answered_answered e.session (environment e.arrivals).answers
    have hmet : Met arrival :=
      ⟨met ▸ ha.healthy hh, met ▸ ha.state.trans connected⟩
    have hre := hmet.received
    have hsh := cutOctets_shorter cut
    unfold Endpoint.frameRound at hr
    rw [dispatch, hac] at hre
    rcases Received.accepted_status hre with hs | hs | hs
    · simp only [hs] at hr
      split at hr
      · rename_i hst
        cases hr
        exact Or.inr ⟨hsh, hst.imp_right Or.inl⟩
      · cases hr
    · simp only [hs] at hr
      cases hr
      refine Or.inr ⟨hsh, Or.inr (Or.inr fun hm => ?_)⟩
      exact hm arrival (List.mem_append_right _ (List.mem_singleton.mpr rfl)) hs
    · simp only [hs] at hr
      cases hr
      exact Or.inr ⟨hp, Or.inr (Or.inl
        ((hmet.received.closed_iff hmet.healthy hmet.connected).mp hs))⟩

section

variable (ha : ∀ arrivals, (environment arrivals).dispatch = .accepted) (h : Stands x e)
include ha h

/-- `Feed` and the reader make the same rounds, as long as no frame goes beyond the body limit. -/
theorem loop_stands (hm : Moderate (Endpoint.loop environment rounds e).1.arrivals ∨
      Moderate ((reader environment).drain rounds x).1.arrivals) :
    Stands ((reader environment).drain rounds x) (Endpoint.loop environment rounds e).1 := by
  induction rounds generalizing x e with
  | zero => exact h
  | succ rounds ih =>
    unfold Endpoint.loop at hm ⊢
    by_cases he : e.receiveBuffer = []
    · rw [if_pos he] at hm ⊢
      have hno : (reader environment).round x.1 x.2 = none := by
        apply round_eq_none h
        simp [he]
      rw [Incremental.drain_none hno]
      exact h
    rw [if_neg he] at hm ⊢
    cases hr : e.round environment with
    | goesOn e' =>
      have hs : (reached (e.round environment)).receiveBuffer.length < e.receiveBuffer.length := by
        rw [hr]
        exact goesOn_shorter hr
      obtain ⟨y, hre, hn⟩ := h.next hs
      rw [hr] at hm hn
      simp only [Incremental.Reader.drain, hre] at hm ⊢
      exact ih hn hm
    | returns e' status =>
      rcases returns_cases h.healthy ha he hr with rfl | ⟨hs, hst⟩
      · have hno : (reader environment).round x.1 x.2 = none := by
          apply round_eq_none h
          simp [hr, reached]
        rw [Incremental.drain_none hno]
        exact h
      · have hs' : (reached (e.round environment)).receiveBuffer.length <
            e.receiveBuffer.length := by
          rw [hr]
          exact hs
        obtain ⟨y, hre, hn⟩ := h.next hs'
        rw [hr] at hm hn
        simp only [Incremental.Reader.drain, hre] at hm ⊢
        rw [← or_assoc] at hst
        rcases hst with hsto | hi
        · rw [drain_stopped hn hsto]
          exact hn
        · rcases hm with hm | hm
          · exact absurd hm hi
          · refine absurd (fun arrival har => hm arrival ?_) hi
            apply drain_arrivals rounds y
            rwa [hn.arrivals]

/-- One call of `Feed`. -/
theorem feed_stands (hb : e.session.state = .closed ∨ e.overflows bytes = false)
    (hm : Moderate (e.feed environment bytes).1.arrivals ∨
      Moderate ((reader environment).feed x bytes).1.arrivals) :
    Stands ((reader environment).feed x bytes) (e.feed environment bytes).1 := by
  unfold Endpoint.feed at hm ⊢
  by_cases hc : e.session.state = .closed
  · have hd : (reader environment).deaf x.1 = true := by
      simp [reader, h.session, hc]
    have hj : (reader environment).join x bytes = x := by
      simp [Incremental.Reader.join, hd]
    rw [if_pos hc, Incremental.Reader.feed, hj, drain_stopped h (Or.inr hc)]
    exact h
  · have hf := hb.resolve_left hc
    have hj : Stands ((reader environment).join x bytes)
      { e with receiveBuffer := e.receiveBuffer ++ bytes } := h.join hc
    have hl : ((reader environment).join x bytes).2.length =
        e.receiveBuffer.length + bytes.length := by
      rw [hj.buffer, List.length_append]
    simp only [if_neg hc, hf, Bool.false_eq_true, if_false] at hm ⊢
    unfold Incremental.Reader.feed at hm ⊢
    dsimp only at hm ⊢
    rw [hl] at hm ⊢
    exact loop_stands ha hj hm

end

theorem reader_feed_arrivals : x.1.arrivals ⊆ ((reader environment).feed x bytes).1.arrivals :=
  drain_arrivals _ ((reader environment).join x bytes)

theorem reader_feeds_arrivals (x : Stage × Octets) (pieces : List Octets) :
    x.1.arrivals ⊆ (pieces.foldl (reader environment).feed x).1.arrivals := by
  induction pieces generalizing x with
  | nil => exact fun _ h => h
  | cons piece pieces ih => exact List.Subset.trans reader_feed_arrivals (ih _)

end Looping

def buffered (environment : Environment) (e : Endpoint) : List Octets → Bool
  | [] => true
  | piece :: pieces => (e.session.state == .closed || !e.overflows piece) &&
    buffered environment (e.feed environment piece).1 pieces

def withinBodyLimit (environment : Environment) (e : Endpoint) : List Octets → Bool
  | [] => true
  | piece :: pieces => (e.feed environment piece).2 != .bufferLimitExceeded &&
    withinBodyLimit environment (e.feed environment piece).1 pieces

section Feeding
variable {environment : Environment} {e : Endpoint}

/-- A call that does not end with `BufferLimitExceeded` has met no frame beyond the limit. -/
theorem feed_moderate (hh : Healthy e.session) (hm : Moderate e.arrivals)
    (hs : (e.feed environment bytes).2 ≠ .bufferLimitExceeded) :
    Moderate (e.feed environment bytes).1.arrivals := by
  by_cases hc : e.session.state = .closed
  · simpa [Endpoint.feed, hc] using hm
  · obtain ⟨new, hnew⟩ := feed_fed environment e bytes hh hc
    rw [hnew.arrivals]
    intro arrival ha
    rcases List.mem_append.mp ha with ha | ha
    · exact hm arrival ha
    · rcases hnew.statuses arrival ha with hr | hsa
      · rw [hr]
        decide
      · rw [hsa]
        exact hs

section

variable (ha : ∀ arrivals, (environment arrivals).dispatch = .accepted) (h : Stands x e)
include ha h

/-- Calls within the body limit are what the reader does. -/
theorem feeds_stands (hm : Moderate e.arrivals) (hb : buffered environment e pieces = true)
    (hl : withinBodyLimit environment e pieces = true) :
    Stands (pieces.foldl (reader environment).feed x) (e.feeds environment pieces) ∧
      Moderate (e.feeds environment pieces).arrivals := by
  induction pieces generalizing x e with
  | nil => exact ⟨h, hm⟩
  | cons piece pieces ih =>
    simp only [buffered, withinBodyLimit, Bool.and_eq_true, Bool.or_eq_true, Bool.not_eq_true',
      beq_iff_eq, bne_iff_ne] at hb hl
    have hn := feed_moderate h.healthy hm hl.1
    exact ih (feed_stands ha h hb.1 (Or.inl hn)) hn hb.2 hl.2

/-- So are calls that meet no frame beyond the limit in the reader's account. -/
theorem feeds_stands_of_reader (hb : buffered environment e pieces = true)
    (hm : Moderate (pieces.foldl (reader environment).feed x).1.arrivals) :
    Stands (pieces.foldl (reader environment).feed x) (e.feeds environment pieces) := by
  induction pieces generalizing x e with
  | nil => exact h
  | cons piece pieces ih =>
    simp only [buffered, Bool.and_eq_true, Bool.or_eq_true, Bool.not_eq_true', beq_iff_eq] at hb
    have hn : Moderate ((reader environment).feed x piece).1.arrivals :=
      fun arrival har => hm arrival (reader_feeds_arrivals _ pieces har)
    exact ih (feed_stands ha h hb.1 (Or.inr hn)) hb.2 hm

end

end Feeding

/-- If every request is accepted and no `Append` fails, any other split of the octets leaves the
same endpoint; one call with all octets is such a split. -/
theorem feeds_split_independent {connectionId : Nat} {config : H2ConnectionConfig} {e : Endpoint}
    (h : Endpoint.create connectionId config = .ok e) {environment : Environment}
    (haccepted : ∀ arrivals, (environment arrivals).dispatch = .accepted) {pieces : List Octets}
    (hbuffered : buffered environment e pieces = true)
    (hlimit : withinBodyLimit environment e pieces = true) :
    (∀ others : List Octets, others.flatten = pieces.flatten →
      buffered environment e others = true →
      e.feeds environment pieces = e.feeds environment others) ∧
    (e.overflows pieces.flatten = false →
      e.feeds environment pieces = (e.feed environment pieces.flatten).1) := by
  obtain ⟨config_accepted, rfl⟩ := of_endpoint_create h
  have hhealthy : Healthy (endpoint connectionId config config_accepted).session :=
    healthy_of_empty rfl rfl
  let start : Stage × Octets := (⟨_, [], hhealthy⟩, [])
  have hstart : Stands start (endpoint connectionId config config_accepted) := ⟨rfl, rfl, rfl⟩
  have hwhole : ∀ pieces : List Octets, pieces.foldl (reader environment).feed start =
      (reader environment).feed start pieces.flatten := by
    intro pieces
    have hnothing : (reader environment).feed start [] = start := by
      rw [Incremental.Reader.feed, Incremental.join_nil]
      rfl
    have hpieces := Incremental.feed_pieces (reader_stable environment) start [] pieces
    rwa [hnothing, List.nil_append] at hpieces
  obtain ⟨hstands, hmoderate⟩ := feeds_stands haccepted hstart
    (show Moderate [] by simp [Moderate]) hbuffered hlimit
  have hothers : ∀ others : List Octets, others.flatten = pieces.flatten →
      buffered environment (endpoint connectionId config config_accepted) others = true →
      (endpoint connectionId config config_accepted).feeds environment pieces =
        (endpoint connectionId config config_accepted).feeds environment others := by
    intro others hflatten hbuffered'
    have hsame : others.foldl (reader environment).feed start =
        pieces.foldl (reader environment).feed start := by
      rw [hwhole others, hwhole pieces, hflatten]
    have hstands' := feeds_stands_of_reader haccepted hstart hbuffered'
      (by rwa [hsame, hstands.arrivals])
    rw [hsame] at hstands'
    exact hstands.unique hstands'
  refine ⟨hothers, fun hfits => ?_⟩
  refine hothers [pieces.flatten] (by simp) ?_
  simp [buffered, hfits]

def octetByOctet : List Octets := (clientOctets [settingsFrame, requestFrame 1 true]).map ([·])

theorem feeds_split_independent_octets :
    let e := endpoint 1 {} (by decide)
    e.feeds (fun _ => {}) octetByOctet = (e.feed (fun _ => {}) octetByOctet.flatten).1 ∧
      ((e.feed (fun _ => {}) octetByOctet.flatten).1.session.dispatched.map
        HttpRequest.requestId) = [1] := by
  refine ⟨?_, by decide +kernel⟩
  exact (feeds_split_independent (endpoint_create_eq 1 (by decide)) (fun _ => rfl)
    (by decide +kernel) (by decide +kernel)).2 (by decide +kernel)

end IocpRuntime.Proofs.SessionSegments
