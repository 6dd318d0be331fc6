import IocpRuntime.Execution.SerialExecutor
import IocpRuntime.Lib.Runs
import IocpRuntime.Proofs.TaskAccounts

namespace IocpRuntime.Proofs.SerialOrder
open Lib Lib.TaskLedger Execution TaskAccounts

variable {τ : Type}

abbrev SerialEvent (τ : Type) := Runs.Event (Serialising τ) (SerialAction τ)

def acceptedTask (event : SerialEvent τ) : List τ :=
  match event.input with
  | .post (some task) underlying =>
    if event.before.enters event.input &&
        (event.before.executor.post (some task) underlying).accepted then [task] else []
  | _ => []

def startedTask (event : SerialEvent τ) : List τ :=
  match event.input with
  | .drain index =>
    if event.before.enters event.input &&
        event.before.drains[index]?.any (fun call => call.executing.isNone) then
      event.before.executor.drain.1.toList
    else []
  | _ => []

def executing (s : Serialising τ) : List τ := s.drains.filterMap DrainCall.executing

section Posting

variable (e : SerialExecutor τ) (task : τ)

def queued : SerialExecutor τ := { e with toTaskQueue := e.toTaskQueue.pushBack task }

theorem withdraw_queued (h : e.drainScheduled = false) (scheduled : Bool) :
    SerialExecutor.withdraw { queued e task with drainScheduled := scheduled } = e := by
  obtain ⟨q, drainScheduled⟩ := e
  cases h
  simp [SerialExecutor.withdraw, queued, TaskQueue.pushBack, TaskQueue.popBack]

/-- Refused, left to the `Drain` that is scheduled, scheduled, or withdrawn. -/
inductive Posts : Posted τ → Prop
  | refused {posted : Posted τ} (executor : posted.executor = e) (drain : posted.drain = none)
      (result : posted.accepted = false) : Posts posted
  | joined (admission : e.admission = .accepted) (scheduled : e.drainScheduled = true) :
      Posts { result := .ok .accepted, executor := queued e task }
  | submitted (admission : e.admission = .accepted) (scheduled : e.drainScheduled = false)
      (inline : Bool) :
      Posts { result := .ok .accepted, executor := { queued e task with drainScheduled := true },
              drain := some { inline } }
  | stopped (admission : e.admission = .accepted) (scheduled : e.drainScheduled = false) :
      Posts { result := .ok .stopped, executor := { e with state := .stopped } }

theorem post_eq : e.post (some task) underlying =
      if e.admission ≠ .accepted then { result := .ok e.admission, executor := e }
      else if e.drainScheduled then { result := .ok .accepted, executor := queued e task }
      else
        match underlying with
        | .answers .accepted =>
          { result := .ok .accepted, executor := { queued e task with drainScheduled := true },
            drain := some {} }
        | .runsInline =>
          { result := .ok .accepted, executor := { queued e task with drainScheduled := true },
            drain := some { inline := true } }
        | .answers .saturated =>
          { result := .ok .saturated
            executor := SerialExecutor.withdraw { queued e task with drainScheduled := true } }
        | .answers .stopped =>
          { result := .ok .stopped
            executor := { SerialExecutor.withdraw { queued e task with drainScheduled := true } with
              state := .stopped } }
        | .throws exception =>
          { result := .error exception
            executor := SerialExecutor.withdraw { queued e task with drainScheduled := true } } := rfl

theorem post_posts (underlying : Underlying) : Posts e task (e.post (some task) underlying) := by
  rw [post_eq]
  split
  · rename_i hr
    refine .refused rfl rfl ?_
    cases ha : e.admission with
    | accepted => exact absurd ha hr
    | stopped => rfl
    | saturated => rfl
  · rename_i ha
    rw [not_not] at ha
    split
    · rename_i hs
      exact .joined ha hs
    · rename_i hs
      rw [Bool.not_eq_true] at hs
      have hwi := withdraw_queued e task hs true
      cases underlying with
      | answers status =>
        cases status with
        | accepted => exact .submitted ha hs false
        | stopped =>
          dsimp only
          rw [hwi]
          exact .stopped ha hs
        | saturated => exact .refused hwi rfl rfl
      | runsInline => exact .submitted ha hs true
      | throws exception => exact .refused hwi rfl rfl

end Posting

section Steps

structure Serialised (log : List (SerialEvent τ)) (s : Serialising τ) : Prop where
  booked : ∃ l : Ledger τ, l.accepted = log.flatMap acceptedTask ∧
    l.started = log.flatMap startedTask ∧ l.running = executing s ∧ Booked s.executor.toTaskQueue l
  settled : Settled s.executor.toTaskQueue
  scheduled : s.drains.length = s.executor.drainScheduled.toNat
  covered : s.executor.tasks ≠ [] → s.executor.drainScheduled = true

theorem Serialised.quiet (h : Serialised log event.before) (ha : acceptedTask event = [])
    (hst : startedTask event = []) (hn : next = event.before) :
    Serialised (log ++ [event]) next := by
  obtain ⟨⟨l, h1, h2, h3, hb⟩, hse, hs, hc⟩ := h
  subst hn
  refine ⟨⟨l, ?_, ?_, h3, hb⟩, hse, hs, hc⟩
  · simp [h1, ha]
  · simp [h2, hst]

theorem Serialised.idle (h : Serialised log s) (hca : s.executor.drainScheduled = false) :
    s.drains = [] ∧ s.executor.tasks = [] ∧ s.executor.runningTasks = 0 := by
  obtain ⟨⟨l, -, -, hr, hb⟩, -, hs, hc⟩ := h
  have hd : s.drains = [] := by
    rw [← List.length_eq_zero_iff, hs, hca]
    rfl
  refine ⟨hd, ?_, ?_⟩
  · by_contra ht
    simp [hca] at hc
    exact ht hc
  · rw [hb.running, hr, executing, hd]
    rfl

theorem settled_running (h : q.state = .running) : Settled q :=
  settled_of_state (by simp [h])

theorem Serialised.post (h : Serialised log s) (hen : s.enters (.post (some task) underlying) = true) :
    Serialised (log ++ [⟨s, .post (some task) underlying⟩])
      { executor := (s.executor.post (some task) underlying).executor
        drains := s.drains ++ (s.executor.post (some task) underlying).drain.toList } := by
  have hac : acceptedTask ⟨s, .post (some task) underlying⟩ =
      if (s.executor.post (some task) underlying).accepted then [task] else [] := by
    simp [acceptedTask, hen]
  have hp := post_posts s.executor task underlying
  generalize s.executor.post (some task) underlying = posted at hp hac ⊢
  cases hp with
  | refused he hd hr =>
    refine h.quiet ?_ rfl ?_
    · rw [hac, hr]
      rfl
    · rw [he, hd, Option.toList_none, List.append_nil]
  | joined ha hca =>
    obtain ⟨⟨l, h1, h2, h3, hb⟩, hse, hs, hc⟩ := h
    refine ⟨⟨_, ?_, ?_, ?_, hb.push ha⟩, ?_, ?_, fun _ => hca⟩
    · simp [h1, hac, Posted.accepted]
    · simp [h2, startedTask]
    · simp [h3, executing]
    · exact settled_running (admission_accepted ha).1
    · simpa [queued] using hs
  | submitted ha hca inline =>
    obtain ⟨⟨l, h1, h2, h3, hb⟩, hse, hs, hc⟩ := h
    refine ⟨⟨_, ?_, ?_, ?_, hb.push ha⟩, ?_, ?_, fun _ => rfl⟩
    · simp [h1, hac, Posted.accepted]
    · simp [h2, startedTask]
    · simp [h3, executing]
    · exact settled_running (admission_accepted ha).1
    · simp [hs, hca]
  | stopped ha hca =>
    obtain ⟨hdr, ht, hn⟩ := h.idle hca
    obtain ⟨⟨l, h1, h2, h3, hb⟩, hse, hs, hc⟩ := h
    refine ⟨⟨l, ?_, ?_, ?_, hb.stopped ht⟩, fun _ => ⟨ht, hn⟩, ?_, hc⟩
    · simp [h1, hac, Posted.accepted]
    · simp [h2, startedTask]
    · simp [h3, executing]
    · simpa using hs

theorem Serialised.stop (h : Serialised log s) :
    Serialised (log ++ [⟨s, .stop mode⟩]) { s with executor := s.executor.stop mode } := by
  unfold SerialExecutor.stop
  split
  · exact h.quiet rfl rfl rfl
  · rename_i hst
    obtain ⟨⟨l, h1, h2, h3, hb⟩, hse, hs, hc⟩ := h
    obtain ⟨dropped, hsto⟩ := hb.requestStop
    refine ⟨⟨_, ?_, ?_, ?_, hsto.settle⟩, ?_, hs, ?_⟩
    · simp [h1, acceptedTask]
    · simp [h2, startedTask]
    · exact h3
    · exact settled_requestStop hst
    · intro ht
      apply hc
      intro hn
      rw [settle_tasks] at ht
      exact ht (requestStop_nil hn)

theorem drain_cases (e : SerialExecutor τ) : (e.tasks = [] ∧ e.drain =
        (none, { e with
          toTaskQueue := e.toTaskQueue.moveToStoppedIfDrainedLocked, drainScheduled := false })) ∨
      ∃ task next, e.popFront = some (task, next) ∧
        e.drain = (some task, { e with toTaskQueue := next }) := by
  unfold SerialExecutor.drain
  split
  · rename_i hn
    exact .inl ⟨popFront_none.mp hn, rfl⟩
  · rename_i task next hpop
    exact .inr ⟨task, next, hpop, rfl⟩

/-- There is only one call of `Drain`. -/
theorem Serialised.alone (h : Serialised log s) (hc : s.drains[index]? = some call) :
    index = 0 ∧ s.drains = [call] ∧ s.executor.drainScheduled = true := by
  have hs := h.scheduled
  have hf := s.executor.drainScheduled.toNat_le
  cases hd : s.drains with
  | nil => simp [hd] at hc
  | cons first rest =>
    rw [hd, List.length_cons] at hs
    have hr : rest = [] := List.length_eq_zero_iff.mp (by omega)
    subst hr
    rw [hd] at hc
    cases index with
    | zero =>
      cases hc
      refine ⟨rfl, rfl, ?_⟩
      cases hf : s.executor.drainScheduled with
      | true => rfl
      | false => simp [hf] at hs
    | succ index => simp at hc

/-- The next section of the call of `Drain`: it takes a task, takes note of its end, or returns. -/
theorem Serialised.drain (h : Serialised log s) (hca : s.drains[index]? = some call)
    (he : s.enters (.drain index) = true) :
    Serialised (log ++ [⟨s, .drain index⟩]) (s.drainStep index call) := by
  obtain ⟨hi, hd, hf⟩ := h.alone hca
  obtain ⟨⟨l, h1, h2, h3, hb⟩, hs, hsc, hc⟩ := h
  have hst : startedTask ⟨s, .drain index⟩ =
      if call.executing.isNone then s.executor.drain.1.toList else [] := by
    simp [startedTask, he, hca]
  unfold Serialising.drainStep
  split
  · rename_i task hta
    have hr : l.running = task ::ₘ 0 := by
      rw [h3, executing, hd]
      simp [hta]
    refine ⟨⟨_, ?_, ?_, ?_, (hb.complete hr).settle⟩, ?_, ?_, ?_⟩
    · simp [h1, acceptedTask]
    · simp [h2, hst, hta]
    · simp [executing, hd, hi]
    · exact hs.complete hb hr
    · simpa [SerialExecutor.drained] using hsc
    · exact fun _ => hf
  · rename_i hn
    rcases drain_cases s.executor with ⟨ht, hdr⟩ | ⟨task, next, hpop, hdr⟩
    · rw [hdr]
      refine ⟨⟨l, ?_, ?_, ?_, hb.settle⟩, hs.settle, ?_, ?_⟩
      · simp [h1, acceptedTask]
      · simp [h2, hst, hn, hdr]
      · simp [h3, executing, hd, hi, hn]
      · simp [hd, hi]
      · intro ht'
        rw [settle_tasks] at ht'
        exact absurd ht ht'
    · rw [hdr]
      refine ⟨⟨_, ?_, ?_, ?_, hb.pop hpop⟩, ?_, ?_, ?_⟩
      · simp [h1, acceptedTask]
      · simp [h2, hst, hn, hdr]
      · simp [h3, executing, hd, hi, hn]
      · exact hs.pop hpop
      · simpa using hsc
      · exact fun _ => hf

theorem Serialised.step (h : Serialised log event.before) :
    Serialised (log ++ [event]) (event.after Serialising.step) := by
  obtain ⟨s, action⟩ := event
  simp only [Runs.Event.after, Serialising.step]
  cases he : s.enters action with
  | false =>
    refine h.quiet ?_ ?_ rfl
    · cases action with
      | post task underlying =>
        cases task with
        | none => rfl
        | some task => simp [acceptedTask, he]
      | _ => rfl
    · cases action with
      | drain index => simp [startedTask, he]
      | _ => rfl
  | true =>
    cases action with
    | post task underlying =>
      cases task with
      | none => exact h.quiet rfl rfl (by simp [SerialExecutor.post])
      | some task => exact h.post he
    | stop mode => exact h.stop
    | drain index =>
      cases hc : s.drains[index]? with
      | none =>
        refine h.quiet rfl ?_ ?_
        · simp [startedTask, hc]
        · simp [hc]
      | some call =>
        simp only [hc, Bool.not_true, Bool.false_eq_true, if_false]
        exact h.drain hc he

end Steps

section Runs

theorem Serialised.of_create
    (h : SerialExecutor.create underlying maximumPendingTasks = .ok executor) :
    Serialised [] { executor } := by
  unfold SerialExecutor.create at h
  split at h
  · cases h
  · split at h
    · cases h
    · cases h
      exact ⟨⟨_, rfl, rfl, rfl, .of_new⟩, nofun, rfl, fun h => absurd rfl h⟩

/-- Tasks run one at a time, in order and at most once, all are accounted for, a `Drain` is under
way while tasks wait, and none is left after a stop. -/
theorem tasks_serialised {underlying : Bool} {maximumPendingTasks : Nat}
    {executor : SerialExecutor τ}
    (h : SerialExecutor.create underlying maximumPendingTasks = .ok executor)
    (actions : List (SerialAction τ)) :
    let log := Runs.history Serialising.step { executor } actions
    let s := Runs.final Serialising.step { executor } actions
    (executing s).length ≤ 1 ∧ s.executor.runningTasks = (executing s).length ∧
      log.flatMap startedTask <+: log.flatMap acceptedTask ∧
      (log.flatMap acceptedTask).length = s.executor.tasks.length + s.executor.runningTasks +
        s.executor.completedTasks + s.executor.cancelledTasks ∧
      (s.executor.tasks ≠ [] → s.executor.drainScheduled = true ∧ s.drains ≠ []) ∧
      (s.executor.state = .stopped → s.executor.tasks = [] ∧ s.executor.runningTasks = 0) := by
  have hserialised : Serialised (Runs.history Serialising.step { executor } actions)
      (Runs.final Serialising.step { executor } actions) :=
    Runs.run_induction (.of_create h) (fun _ _ hlog (_ : True) => hlog.step) (fun _ _ => trivial)
  obtain ⟨⟨l, h1, h2, h3, hbooked⟩, hsettled, hscheduled, hcovered⟩ := hserialised
  refine ⟨?_, ?_, ?_, ?_, ?_, hsettled⟩
  · have hflag := (Runs.final Serialising.step { executor } actions).executor.drainScheduled.toNat_le
    exact (List.length_filterMap_le _ _).trans (hscheduled ▸ hflag)
  · rw [hbooked.running, h3, Multiset.coe_card]
  · rw [← h1, ← h2]
    exact hbooked.balanced.in_order
  · rw [← h1]
    exact hbooked.conserved
  · intro htasks
    have hflag := hcovered htasks
    refine ⟨hflag, fun hnone => ?_⟩
    rw [hnone, hflag] at hscheduled
    cases hscheduled

def smallExecutor : SerialExecutor Nat := { maximumPendingTasks := 4 }

def handover : List (SerialAction Nat) :=
  [.post (some 1) .runsInline, .drain 0, .post (some 2) (.answers .accepted), .stop .drain,
    .post (some 3) .runsInline, .drain 0, .drain 0]

/-- The `Drain` runs inside the first `Post`, whose task posts the second and stops. -/
theorem tasks_serialised_handover : SerialExecutor.create true 4 = .ok smallExecutor ∧
      let log := Runs.history Serialising.step { executor := smallExecutor } handover
      let s := Runs.final Serialising.step { executor := smallExecutor } handover
      log.flatMap acceptedTask = [1, 2] ∧ log.flatMap startedTask = [1, 2] ∧
        s.drains = [⟨some 2, true⟩] ∧ s.executor.runningTasks = (executing s).length ∧
        s.executor.completedTasks = 1 := by
  have hcreate : SerialExecutor.create true 4 = .ok smallExecutor := rfl
  refine ⟨hcreate, by decide +kernel, by decide +kernel, by decide +kernel, ?_, by decide +kernel⟩
  exact (tasks_serialised hcreate handover).2.1

end Runs

end IocpRuntime.Proofs.SerialOrder
