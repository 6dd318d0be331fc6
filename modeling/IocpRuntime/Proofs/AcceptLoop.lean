import IocpRuntime.Lib.Once
import IocpRuntime.Lib.Slots
import IocpRuntime.Transport.TcpListener

namespace IocpRuntime.Proofs.AcceptLoop
open Lib Transport Transport.Listening

def unfinished (stage : AcceptStage) : Bool := stage ≠ .finished

structure Sound (s : Listening) : Prop where
  counted : s.listener.outstandingAccepts = s.accepts.countP unfinished
  accepting : s.listener.state = .running → .pending ∈ s.accepts
  draining : s.listener.state = .stopping → 0 < s.listener.outstandingAccepts
  drained : s.listener.state = .stopped → s.listener.outstandingAccepts = 0
  entered : s.entered = if s.listener.state = .stopped then 1 else 0

variable {s : Listening} {accept : Nat}

theorem pending_set {stages : List AcceptStage}
    (hold : stages[accept]? = some old) (hpe : old ≠ .pending) (h : .pending ∈ stages) :
    .pending ∈ stages.set accept stage := by
  obtain ⟨place, hp⟩ := List.mem_iff_getElem?.mp h
  have hne : accept ≠ place := by
    rintro rfl
    rw [hold] at hp
    exact hpe (Option.some.inj hp)
  apply List.mem_iff_getElem?.mpr
  exact ⟨place, by rw [List.getElem?_set_ne hne]; exact hp⟩

theorem Sound.move (h : Sound s) (hold : s.accepts[accept]? = some old) (hp : old ≠ .pending)
    (ha : unfinished old = true) (hs : unfinished stage = true) :
    Sound (s.move accept stage) where
  counted := by
    have hc := Slots.countP_set unfinished hold stage
    rw [ha, hs] at hc
    exact h.counted.trans (Nat.add_right_cancel hc).symm
  accepting hr := pending_set hold hp (h.accepting hr)
  draining := h.draining
  drained := h.drained
  entered := h.entered

theorem Sound.statistics (h : Sound s) (hs : l.state = s.listener.state)
    (hc : l.outstandingAccepts = s.listener.outstandingAccepts) :
    Sound { s with listener := l } where
  counted := hc.trans h.counted
  accepting hr := h.accepting (hs ▸ hr)
  draining hst := hc ▸ h.draining (hs ▸ hst)
  drained hsto := hc ▸ h.drained (hs ▸ hsto)
  entered := hs ▸ h.entered

theorem outstanding_pos (h : Sound s) (hold : s.accepts[accept]? = some old)
    (ha : unfinished old = true) : 0 < s.listener.outstandingAccepts := by
  rw [h.counted]
  exact List.countP_pos_iff.mpr ⟨old, List.mem_of_getElem? hold, ha⟩

theorem stop_running {l : TcpListener} (hr : l.state = .running)
    (ho : 0 < l.outstandingAccepts) :
    l.stop = (false, { l with state := .stopping, listenSocket := false }) := by
  rw [TcpListener.stop, if_neg (by simp [hr]), TcpListener.moveToStoppedIfDrainedLocked,
    if_neg (by dsimp only; omega)]

theorem Sound.stop (h : Sound s) : Sound (s.settled s.listener.stop) := by
  by_cases hr : s.listener.state = .running
  · obtain ⟨place, hp⟩ := List.mem_iff_getElem?.mp (h.accepting hr)
    have ho := outstanding_pos h hp rfl
    have he := h.entered
    rw [stop_running hr ho]
    rw [hr] at he
    exact ⟨h.counted, nofun, fun _ => ho, nofun, he⟩
  · have hst : s.listener.stop = (false, s.listener) := by
      apply if_pos
      cases hs : s.listener.state with
      | running => exact absurd hs hr
      | stopping => exact .inr rfl
      | stopped => exact .inl rfl
    rw [hst]
    exact h

theorem post_cases {l : TcpListener} (hr : l.state = .running) (calls : AcceptCalls) :
    (∃ code, code ≠ 0 ∧ l.postAcceptLocked calls = (code, l)) ∨
      l.postAcceptLocked calls = (0, { l with outstandingAccepts := l.outstandingAccepts + 1 }) := by
  rw [TcpListener.postAcceptLocked, if_neg (not_not.mpr hr)]
  cases calls.socket with
  | some error => exact .inl ⟨error, error.property, rfl⟩
  | none =>
    cases calls.acceptEx with
    | some error => exact .inl ⟨error, error.property, rfl⟩
    | none => exact .inr rfl

/-- What the first section of a completion can do. -/
inductive Completes (l : TcpListener) : TcpListener.Completion → Prop
  | late (stopped : l.state ≠ .running) : Completes l ⟨l, false, false⟩
  | reposted (running : l.state = .running) :
      Completes l ⟨{ l with outstandingAccepts := l.outstandingAccepts + 1 }, true, true⟩
  | ends (running : l.state = .running) :
      Completes l ⟨{ l with
        acceptErrors := l.acceptErrors + 1
        state := .stopping
        listenSocket := false }, true, false⟩

theorem completeAccept_spec (l : TcpListener) (calls : AcceptCalls) :
    Completes l (l.completeAccept calls) := by
  unfold TcpListener.completeAccept
  split
  · rename_i hr
    rcases post_cases hr calls with ⟨code, hc, hp⟩ | hp
    · simp only [hp, if_pos hc]
      exact .ends hr
    · simp only [hp]
      exact .reposted hr
  · rename_i hs
    exact .late hs

theorem Sound.complete (h : Sound s) (hold : s.accepts[accept]? = some .pending) : Sound (s.complete accept error calls) := by
  have hsp := completeAccept_spec s.listener calls
  have ho := outstanding_pos h hold rfl
  have he := h.entered
  have hc : ∀ stage, unfinished stage = true →
      (s.accepts.set accept stage).countP unfinished = s.listener.outstandingAccepts := by
    intro stage hst
    have hset := Slots.countP_set unfinished hold stage
    rw [hst] at hset
    exact (Nat.add_right_cancel hset).trans h.counted.symm
  have hst : unfinished (if error then .failed else .preparing) = true := by
    cases error <;> rfl
  unfold Listening.complete
  generalize s.listener.completeAccept calls = completion at hsp
  cases hsp with
  | late hsto =>
    refine ⟨?_, fun hr => absurd hr hsto, h.draining, h.drained, he⟩
    simpa using (hc .leaving rfl).symm
  | reposted hr =>
    refine ⟨?_, fun _ => ?_, fun hs => ?_, fun hs => ?_, he⟩
    · simp only [if_true, List.countP_append, hc _ hst]
      rfl
    · simp
    · cases hr.symm.trans hs
    · cases hr.symm.trans hs
  | ends hr =>
    rw [hr] at he
    refine ⟨?_, nofun, fun _ => ho, nofun, he⟩
    simpa using (hc _ hst).symm

/-- The last accept to finish ends a listener that was stopped. -/
theorem Sound.finish (h : Sound s) (hold : s.accepts[accept]? = some .finishing) :
    Sound ((s.settled s.listener.finishAcceptCompletion).move accept .finished) := by
  have ho := outstanding_pos h hold rfl
  have he := h.entered
  have hset := Slots.countP_set unfinished hold .finished
  have hc : (s.accepts.set accept .finished).countP unfinished =
      s.listener.outstandingAccepts - 1 := by
    have hold' : (unfinished .finishing).toNat = 1 := rfl
    have hnew : (unfinished .finished).toNat = 0 := rfl
    rw [h.counted]
    omega
  unfold TcpListener.finishAcceptCompletion
  rw [if_pos ho, TcpListener.moveToStoppedIfDrainedLocked]
  split
  · rename_i hl
    dsimp only at hl
    rw [hl.1] at he
    exact ⟨hc.symm, nofun, nofun, fun _ => hl.2, congrArg (· + 1) he⟩
  · rename_i hm
    dsimp only at hm
    refine ⟨hc.symm, fun hr => ?_, fun hs => ?_, fun hs => ?_, he⟩
    · exact pending_set hold nofun (h.accepting hr)
    · exact Nat.pos_of_ne_zero (fun hz => hm ⟨hs, hz⟩)
    · have hz := h.drained hs
      omega

theorem Sound.deliver (h : Sound s) (hold : s.accepts[accept]? = some .prepared) :
    Sound (s.deliver accept) := by
  unfold Listening.deliver TcpListener.deliverAccepted
  by_cases hr : s.listener.state = .running
  · have hc : Sound { s with listener := { s.listener with
        acceptedConnections := s.listener.acceptedConnections + 1 } } := h.statistics rfl rfl
    rw [if_pos hr]
    exact hc.move hold nofun rfl rfl
  · rw [if_neg hr]
    exact h.move hold nofun rfl rfl

theorem Sound.guarded {guard : Prop} [Decidable guard] (h : Sound s)
    (ht : guard → Sound t) : Sound (if guard then t else s) := by
  split
  · rename_i hg
    exact ht hg
  · exact h

theorem Sound.step (h : Sound s) : Sound (s.step action) := by
  cases action with
  | stop => exact h.stop
  | complete accept error calls => exact h.guarded (fun hold => h.complete hold)
  | countError accept =>
    have hc : Sound { s with listener := s.listener.countAcceptError } := h.statistics rfl rfl
    exact h.guarded (fun hold => hc.move hold nofun rfl rfl)
  | prepare accept succeeds =>
    have hs : unfinished (if succeeds then .prepared else .leaving) = true := by
      cases succeeds <;> rfl
    exact h.guarded (fun hold => h.move hold nofun rfl hs)
  | deliver accept => exact h.guarded (fun hold => h.deliver hold)
  | handled accept =>
    exact h.guarded (fun hold => h.move hold nofun rfl rfl)
  | raise accept =>
    refine h.guarded (fun hold => ?_)
    rcases hold with hold | hold | hold <;> exact h.move hold nofun rfl rfl
  | leave accept =>
    exact h.guarded (fun hold => h.move hold nofun rfl rfl)
  | stopRaised accept =>
    exact h.guarded (fun hold => h.stop.move hold nofun rfl rfl)
  | finish accept => exact h.guarded (fun hold => h.finish hold)

theorem Sound.start : Sound (start calls) := by
  unfold Listening.start TcpListener.start
  rcases @post_cases {} rfl calls with ⟨code, hc, hp⟩ | hp
  · simp only [hp, if_pos hc]
    exact ⟨rfl, nofun, nofun, fun _ => rfl, rfl⟩
  · simp only [hp]
    exact ⟨rfl, fun _ => List.mem_singleton.mpr rfl, nofun, nofun, rfl⟩

theorem start_running (hs : calls.socket = none) (he : calls.acceptEx = none) :
    (start calls).listener.state = .running ∧ (start calls).accepts = [.pending] := by
  simp [Listening.start, TcpListener.start, TcpListener.postAcceptLocked, hs, he]

def rank : AcceptStage → Nat
  | .pending => 0
  | .failed => 1
  | .preparing => 1
  | .prepared => 2
  | .handling => 3
  | .leaving => 4
  | .raised => 5
  | .finishing => 6
  | .finished => 7

/-- What a step does to the accepts: one may move on, and another may be posted. A handler stays
until it returns. -/
inductive Shifts (action : Listening.Action) (stages : List AcceptStage) :
    List AcceptStage → Prop
  | stays : Shifts action stages stages
  | moves {place : Nat} {old stage : AcceptStage} {more : List AcceptStage}
      (here : stages[place]? = some old) (later : rank old ≤ rank stage)
      (returned : old = .handling → action = .handled place) :
      Shifts action stages (stages.set place stage ++ more)

theorem Shifts.moved (hold : stages[place]? = some old) (hl : rank old ≤ rank stage)
    (hr : old = .handling → action = .handled place) :
    Shifts action stages (stages.set place stage) := by
  rw [← List.append_nil (stages.set place stage)]
  exact .moves hold hl hr

theorem shifts_guarded {guard : Prop} [Decidable guard]
    (h : guard → Shifts action s.accepts t.accepts) :
    Shifts action s.accepts (if guard then t else s).accepts := by
  split
  · rename_i hg
    exact h hg
  · exact .stays

theorem step_shifts (s : Listening) (action : Listening.Action) :
    Shifts action s.accepts (s.step action).accepts := by
  cases action with
  | stop => exact .stays
  | complete accept error calls =>
    exact shifts_guarded (fun hold => .moves hold (Nat.zero_le _) nofun)
  | countError accept => exact shifts_guarded (fun hold => .moved hold (by decide) nofun)
  | prepare accept succeeds =>
    refine shifts_guarded (fun hold => .moved hold ?_ nofun)
    cases succeeds <;> decide
  | deliver accept =>
    refine shifts_guarded (fun hold => .moved hold ?_ nofun)
    split <;> decide
  | handled accept => exact shifts_guarded (fun hold => .moved hold (by decide) (fun _ => rfl))
  | raise accept =>
    refine shifts_guarded (fun hold => ?_)
    rcases hold with hold | hold | hold <;> exact .moved hold (by decide) nofun
  | leave accept => exact shifts_guarded (fun hold => .moved hold (by decide) nofun)
  | stopRaised accept => exact shifts_guarded (fun hold => .moved hold (by decide) nofun)
  | finish accept => exact shifts_guarded (fun hold => .moved hold (by decide) nofun)

theorem step_later (s : Listening) (action : Listening.Action) :
    Once.Later rank s.accepts (s.step action).accepts := by
  have hs := step_shifts s action
  generalize (s.step action).accepts = stages at hs ⊢
  cases hs with
  | stays => exact .refl
  | moves here later => exact .set here later rfl

theorem handling_stays (h : s.accepts[accept]? = some .handling) (hr : action ≠ .handled accept) :
    (s.step action).accepts[accept]? = some .handling := by
  have hs := step_shifts s action
  generalize (s.step action).accepts = stages at hs ⊢
  cases hs with
  | stays => exact h
  | @moves place old stage more here later returned =>
    have hp : place ≠ accept := by
      rintro rfl
      exact hr (returned (Option.some.inj (here.symm.trans h)))
    have hset : (s.accepts.set place stage)[accept]? = some .handling :=
      (List.getElem?_set_ne hp).trans h
    exact (List.getElem?_append_left (List.getElem?_eq_some_iff.mp hset).1).trans hset

abbrev Event := Runs.Event Listening Listening.Action

def called (event : Event) : Option Nat := event.before.calledBy event.input

theorem called_enters (h : called event = some accept) :
    event.input = .deliver accept ∧ event.before.accepts[accept]? ≠ some .handling ∧
      (event.before.step (.deliver accept)).accepts[accept]? = some .handling := by
  unfold called Listening.calledBy at h
  split at h
  · rename_i delivered hi
    split at h
    · rename_i he
      cases h
      exact ⟨hi, he⟩
    · cases h
  · cases h

/-- `DeliverAccepted` lets only a running listener call the handler. -/
theorem called_running (h : called event = some accept) :
    event.before.accepts[accept]? = some .prepared ∧ event.before.listener.state = .running := by
  obtain ⟨-, hn, he⟩ := called_enters h
  rw [Listening.step] at he
  split at he
  · rename_i hp
    refine ⟨hp, ?_⟩
    by_contra hr
    have hl := (List.getElem?_eq_some_iff.mp hp).1
    rw [Listening.deliver, TcpListener.deliverAccepted, if_neg hr] at he
    cases (List.getElem?_set_self hl).symm.trans he
  · exact absurd he hn

theorem called_handling (h : called event = some accept) :
    (event.after Listening.step).accepts[accept]? = some .handling := by
  obtain ⟨hi, -, he⟩ := called_enters h
  rwa [Runs.Event.after, hi]

/-- The handler of an accept is called on its way past that stage. -/
theorem calls_pass : Once.Passes Listening.step Listening.accepts rank (rank .handling) called where
  later := step_later
  fires := by
    intro event accept hc
    refine ⟨?_, .handling, called_handling hc, Nat.le_refl _⟩
    rintro ⟨stage, hs, hp⟩
    rw [(called_running hc).1] at hs
    cases hs
    exact absurd hp (by decide)

section

variable (h : Sound s) (hs : s.listener.state = .stopped)
include h hs

theorem Sound.all_finished : ∀ stage ∈ s.accepts, stage = .finished := by
  have hz := h.counted.symm.trans (h.drained hs)
  intro stage hst
  have hn := List.countP_eq_zero.mp hz stage hst
  simpa [unfinished] using hn

theorem Sound.stays : s.step action = s := by
  have hn : ∀ {accept : Nat} {stage : AcceptStage}, stage ≠ .finished →
      ¬ s.accepts[accept]? = some stage :=
    fun hst hold => hst (h.all_finished hs _ (List.mem_of_getElem? hold))
  have hsto : s.listener.stop = (false, s.listener) := if_pos (.inl hs)
  cases action with
  | stop => simp only [Listening.step, hsto, Listening.settled, Bool.toNat_false, Nat.add_zero]
  | raise accept =>
    refine if_neg ?_
    rintro (hold | hold | hold) <;> exact hn (by decide) hold
  | complete accept error calls => exact if_neg (hn (by decide))
  | countError accept => exact if_neg (hn (by decide))
  | prepare accept succeeds => exact if_neg (hn (by decide))
  | deliver accept => exact if_neg (hn (by decide))
  | handled accept => exact if_neg (hn (by decide))
  | leave accept => exact if_neg (hn (by decide))
  | stopRaised accept => exact if_neg (hn (by decide))
  | finish accept => exact if_neg (hn (by decide))

theorem Sound.final_stays : Runs.final Listening.step s actions = s := by
  induction actions with
  | nil => rfl
  | cons action actions ih => rw [Runs.final_cons, h.stays hs, ih]

end

/-- Nothing is left that could call the handler. -/
structure Ended (s : Listening) : Prop where
  outstanding : s.listener.outstandingAccepts = 0
  finished : ∀ stage ∈ s.accepts, stage = .finished
  stays : ∀ actions, (Runs.final Listening.step s actions).listener.state = .stopped
  quiet : ∀ actions, ∀ event ∈ Runs.history Listening.step s actions, called event = none

theorem Sound.ended (h : Sound s) (hs : s.listener.state = .stopped) : Ended s where
  outstanding := h.drained hs
  finished := h.all_finished hs
  stays actions := by
    rw [h.final_stays hs]
    exact hs
  quiet := by
    intro actions event he
    obtain ⟨first, rest, -, hb⟩ := Runs.history_split he
    rw [h.final_stays hs] at hb
    cases hc : called event with
    | none => rfl
    | some accept =>
      have hr := (called_running hc).2
      rw [hb, hs] at hr
      cases hr

/-- In every order of completions, failures, throws and stops: the counter, the next accept, the
handler calls and the one stop are right. -/
theorem listener_accepts_until_stopped (calls : AcceptCalls) (actions : List Listening.Action) :
    let log := Runs.history Listening.step (Listening.start calls) actions
    let s := Runs.final Listening.step (Listening.start calls) actions
    (calls.socket = none → calls.acceptEx = none →
      (Listening.start calls).listener.state = .running ∧
      (Listening.start calls).accepts = [.pending]) ∧
    s.listener.outstandingAccepts = s.accepts.countP (fun stage => stage ≠ .finished) ∧
    (s.listener.state = .running → .pending ∈ s.accepts) ∧
    (log.filterMap called).Nodup ∧
    (∀ event ∈ log, ∀ accept, called event = some accept →
      event.before.accepts[accept]? = some .prepared ∧ event.before.listener.state = .running) ∧
    s.entered = (if s.listener.state = .stopped then 1 else 0) ∧
    (s.listener.state = .stopping → 0 < s.listener.outstandingAccepts) ∧
    (s.listener.state = .stopped → Ended s) := by
  intro log s
  have hsound : Sound s := Runs.final_invariant Sound.start (fun _ _ h => h.step) actions
  exact ⟨start_running, hsound.counted, hsound.accepting, calls_pass.nodup.1,
    fun event _ accept hcalled => called_running hcalled, hsound.entered, hsound.draining,
    hsound.ended⟩

end IocpRuntime.Proofs.AcceptLoop
