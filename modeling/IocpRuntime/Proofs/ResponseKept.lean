import IocpRuntime.Proofs.ResponseDelivery

namespace IocpRuntime.Proofs.ResponseKept
open Http2 OutboundStreams ResponseDelivery
open H2OutboundScheduler (Operation Event)

variable {s : H2OutboundScheduler}

def Waiting (streamId : UInt32) (s : H2OutboundScheduler) : Prop :=
  ∃ stream, s.streams.lookup streamId = some stream ∧ stream.responseSubmitted = false

/-- Operations that neither open, answer nor close the stream. -/
def Bystander (streamId : UInt32) (op : Operation) : Prop :=
  op ≠ .openStream streamId ∧ op ≠ .closeStream streamId ∧ op ≠ .close ∧
    ∀ response, op ≠ .submitResponse streamId response

/-- An `UpdateStreamWindow` call for the stream that gets past its checks. -/
def AcceptedUpdate (streamId : UInt32) (event : Event) : Prop :=
  ∃ increment stream, event.operation = .updateStreamWindow streamId increment ∧
    event.before.closed = false ∧ increment ≠ 0 ∧
    event.before.streams.lookup streamId = some stream ∧
    stream.window + increment.toNat ≤ kMaximumWindow

/-- Whatever the response is, submitting it succeeds and sends its HEADERS frame. -/
def Answerable (streamId : UInt32) (s : H2OutboundScheduler) : Prop :=
  ∀ response, (s.submitResponse streamId response).result = true ∧
    ∃ frame ∈ (s.submitResponse streamId response).frames,
      frame.header.type = .headers ∧ frame.header.streamId = streamId

theorem update_accepted : (s.updateStreamWindow streamId increment).result = true ↔
      AcceptedUpdate streamId ⟨s, .updateStreamWindow streamId increment⟩ := by
  unfold AcceptedUpdate H2OutboundScheduler.updateStreamWindow
  cases hl : s.streams.lookup streamId with
  | none => simp
  | some stream =>
    dsimp only
    constructor
    · intro h
      split at h
      · cases h
      · rename_i hg
        refine ⟨increment, stream, rfl, ?_, ?_, rfl, ?_⟩
        · exact Bool.eq_false_iff.mpr (fun hc => hg (Or.inl hc))
        · exact fun hz => hg (Or.inr (Or.inl hz))
        · exact Int.not_lt.mp (fun hw => hg (Or.inr (Or.inr hw)))
    · rintro ⟨increment', stream', hop, ho, hpos, hs, hf⟩
      cases hop
      cases hs
      rw [if_neg]
      rintro (hc | hz | hw)
      · rw [ho] at hc
        cases hc
      · exact hpos hz
      · exact absurd hw (Int.not_lt.mpr hf)

/-- One step of a bystander: the stream keeps waiting exactly when the step is
not an accepted update of its window. -/
theorem waiting_step (hw : Waiting streamId s)
    (hh : ∀ stream, s.streams.lookup streamId = some stream → Held stream)
    (hop : Bystander streamId op) :
    (AcceptedUpdate streamId ⟨s, op⟩ → (s.perform op).scheduler.streams.lookup streamId = none) ∧
      (¬ AcceptedUpdate streamId ⟨s, op⟩ → Waiting streamId (s.perform op).scheduler) := by
  obtain ⟨stream, hl, hwa⟩ := hw
  obtain ⟨ho, hclo, hcl, hs⟩ := hop
  have he := perform_effect s op streamId hh
  rw [hl] at he
  unfold Waiting
  generalize hen : (s.perform op).scheduler.streams.lookup streamId = entry at he ⊢
  generalize framesOf streamId (s.perform op).frames = frames at he
  generalize hr : (s.perform op).result = result at he
  cases he with
  | passed window _ _ sending flushed =>
    constructor
    · rintro ⟨increment, stream', rfl, ha⟩
      have hres : (s.updateStreamWindow streamId increment).result = true :=
        update_accepted.mpr ⟨increment, stream', rfl, ha⟩
      have hse := sending increment rfl (hr.symm.trans hres)
      rw [hwa] at hse
      cases hse
    · intro _
      cases flushed with
      | untouched => exact ⟨_, rfl, hwa⟩
      | partly _ submitted => exact absurd (hwa.symm.trans submitted) (by simp)
      | wholly submitted => exact absurd (hwa.symm.trans submitted) (by simp)
  | closed closing =>
    rcases closing with hc | hc
    · exact absurd hc hclo
    · exact absurd hc hcl
  | dropped increment _ =>
    refine ⟨fun _ => rfl, fun hnot => ?_⟩
    exact absurd (update_accepted.mp hr) hnot
  | answered window => exact absurd rfl (hs _)

theorem absent_run (ops : List Operation)
    (hn : s.streams.lookup streamId = none) (hops : ∀ op ∈ ops, Bystander streamId op) :
    (s.final ops).streams.lookup streamId = none := by
  induction ops generalizing s with
  | nil => exact hn
  | cons op ops ih =>
    exact ih (absent_stays hn (hops op List.mem_cons_self).1).2
      (fun o ho => hops o (List.mem_cons_of_mem _ ho))

/-- A run of bystanders keeps the stream waiting exactly when none of them is an
accepted update of its window. -/
theorem waiting_run (hw : Waiting streamId s)
    (hh : ∀ stream, s.streams.lookup streamId = some stream → Held stream)
    (hops : ∀ op ∈ ops, Bystander streamId op) :
    ((∀ event ∈ s.history ops, ¬ AcceptedUpdate streamId event) →
        Waiting streamId (s.final ops)) ∧
      ((∃ event ∈ s.history ops, AcceptedUpdate streamId event) →
        (s.final ops).streams.lookup streamId = none) := by
  induction ops generalizing s with
  | nil =>
    refine ⟨fun _ => hw, ?_⟩
    rintro ⟨event, hmem, -⟩
    cases hmem
  | cons op ops ih =>
    have hop := hops op List.mem_cons_self
    have hr : ∀ o ∈ ops, Bystander streamId o := fun o ho => hops o (List.mem_cons_of_mem _ ho)
    obtain ⟨hd, hk⟩ := waiting_step hw hh hop
    by_cases ha : AcceptedUpdate streamId ⟨s, op⟩
    · refine ⟨fun hn => absurd ha (hn _ List.mem_cons_self), fun _ => ?_⟩
      exact absent_run ops (hd ha) hr
    · obtain ⟨hwa, hl⟩ := ih (hk ha) ((perform_effect s op streamId hh).held hh) hr
      refine ⟨fun hn => hwa (fun event he => hn event (List.mem_cons_of_mem _ he)), ?_⟩
      rintro ⟨event, hmem, he⟩
      rcases List.mem_cons.mp hmem with rfl | hmem
      · exact absurd he ha
      · exact hl ⟨event, hmem, he⟩

theorem closed_run (hs : s.closed = false)
    (hops : ∀ op ∈ ops, Bystander streamId op) : (s.final ops).closed = false := by
  induction ops generalizing s with
  | nil => exact hs
  | cons op ops ih =>
    refine ih ?_ (fun o ho => hops o (List.mem_cons_of_mem _ ho))
    rw [closed_kept (hops op List.mem_cons_self).2.2.1]
    exact hs

theorem answerable_of_waiting (hw : Waiting streamId s) (ho : s.closed = false)
    (hh : ∀ stream, s.streams.lookup streamId = some stream → Held stream) :
    Answerable streamId s := by
  intro response
  obtain ⟨stream, hl, hwa⟩ := hw
  have hr : (s.submitResponse streamId response).result = true := by
    simp only [H2OutboundScheduler.submitResponse, hl, ho, hwa, Bool.false_eq_true,
      or_self, if_false]
    split <;> rfl
  refine ⟨hr, ?_⟩
  have he := perform_effect s (.submitResponse streamId response) streamId hh
  dsimp only [H2OutboundScheduler.perform] at he
  rw [hl, hr] at he
  generalize hfr : framesOf streamId (s.submitResponse streamId response).frames = frames at he
  generalize (s.submitResponse streamId response).scheduler.streams.lookup streamId = entry at he
  have hmem : ∀ frame ∈ frames, frame ∈ (s.submitResponse streamId response).frames := by
    intro frame hf
    rw [← hfr] at hf
    exact List.mem_of_mem_filter hf
  cases he with
  | passed window _ refused => cases refused response rfl
  | closed closing => rcases closing with hc | hc <;> cases hc
  | answered window _ headers run =>
    cases headers with
    | last typed stream' _ _ => exact ⟨_, hmem _ (by simp), typed, stream'⟩
    | more typed stream' _ _ _ => exact ⟨_, hmem _ (by simp), typed, stream'⟩

theorem opened_waiting (ho : s.closed = false)
    (hnew : ∀ stream, s.streams.lookup streamId = some stream → stream.responseSubmitted = false) :
    Waiting streamId (s.openStream streamId) := by
  unfold H2OutboundScheduler.openStream Waiting
  rw [if_neg (by simp [ho])]
  cases hl : s.streams.lookup streamId with
  | none => exact ⟨_, AList.lookup_insert _, rfl⟩
  | some stream => exact ⟨stream, hl, hnew stream hl⟩

theorem opened_closed : (s.openStream streamId).closed = s.closed :=
  closed_kept (show Operation.openStream streamId ≠ .close by simp)

/-- A stream opened and not closed since can be answered if and only if no update of its window was
accepted. -/
theorem response_kept {s : H2OutboundScheduler} (hs : Created s) (streamId : UInt32)
    (before since : List Operation) (hopen : (s.final before).closed = false)
    (hnew : ∀ stream, (s.final before).streams.lookup streamId = some stream →
      stream.responseSubmitted = false)
    (hsince : ∀ op ∈ since, Bystander streamId op) :
    ((((s.final before).openStream streamId).final since).streams.lookup streamId).isSome = true ∧
        Answerable streamId (((s.final before).openStream streamId).final since) ↔
      ∀ event ∈ ((s.final before).openStream streamId).history since,
        ¬ AcceptedUpdate streamId event := by
  have hheld := final_held hs (before ++ [.openStream streamId])
  rw [H2OutboundScheduler.final_append] at hheld
  have hwait := opened_waiting hopen hnew
  obtain ⟨hkept, hlost⟩ := waiting_run hwait (hheld streamId) hsince
  constructor
  · rintro ⟨hsome, -⟩ event hmem haccept
    rw [hlost ⟨event, hmem, haccept⟩] at hsome
    cases hsome
  · intro hnone
    have hw := hkept hnone
    have hclosed : (((s.final before).openStream streamId).final since).closed = false :=
      closed_run (opened_closed.trans hopen) hsince
    have hheld' := final_held hs (before ++ .openStream streamId :: since) streamId
    rw [H2OutboundScheduler.final_append] at hheld'
    obtain ⟨stream, hlook, -⟩ := id hw
    exact ⟨by rw [hlook]; rfl, answerable_of_waiting hw hclosed hheld'⟩

def settingsAndWindow : List Operation :=
  [.applyPeerSettings 100 16384 4096 [1], .updateConnectionWindow 10 [1]]

theorem settingsAndWindow_bystander : ∀ op ∈ settingsAndWindow, Bystander 1 op := by
  intro op hop
  simp only [settingsAndWindow, List.mem_cons, List.not_mem_nil, or_false] at hop
  rcases hop with rfl | rfl
  · exact ⟨by simp, by simp, by simp, by simp⟩
  · exact ⟨by simp, by simp, by simp, by simp⟩

theorem response_kept_settings : Created defaults ∧
    (∀ op ∈ settingsAndWindow, Bystander 1 op) ∧
    (((((defaults.final []).openStream 1).final settingsAndWindow).streams.lookup 1).isSome = true ∧
        Answerable 1 (((defaults.final []).openStream 1).final settingsAndWindow) ↔
      ∀ event ∈ ((defaults.final []).openStream 1).history settingsAndWindow,
        ¬ AcceptedUpdate 1 event) := by
  refine ⟨defaults_created, settingsAndWindow_bystander, ?_⟩
  refine response_kept defaults_created 1 [] settingsAndWindow rfl ?_ settingsAndWindow_bystander
  intro stream h
  cases h

/-- After a WINDOW_UPDATE for an unanswered stream its response is refused. -/
theorem response_lost : Created defaults ∧
    ((defaults.openStream 1).streams.lookup 1).isSome = true ∧
    ((defaults.openStream 1).updateStreamWindow 1 1).result = true ∧
    (((defaults.openStream 1).updateStreamWindow 1 1).scheduler.streams.lookup 1).isSome = false ∧
    (((defaults.openStream 1).updateStreamWindow 1 1).scheduler.submitResponse 1 {}).result =
      false := by
  refine ⟨defaults_created, ?_, ?_, ?_, ?_⟩ <;> decide +kernel

end IocpRuntime.Proofs.ResponseKept
