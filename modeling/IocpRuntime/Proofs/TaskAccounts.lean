import IocpRuntime.Execution.Executor
import IocpRuntime.Lib.TaskLedger

namespace IocpRuntime.Proofs.TaskAccounts
open Lib.TaskLedger Execution

variable {τ : Type}

/-- The queue and the counters of an executor are those of its books. -/
structure Booked (q : TaskQueue τ) (l : Ledger τ) : Prop where
  balanced : Balanced l
  waiting : l.waiting = q.tasks
  running : q.runningTasks = l.running.card
  finished : q.completedTasks = l.finished
  dropped : q.cancelledTasks = l.dropped.length
  bounded : q.tasks.length ≤ q.maximumPendingTasks
  cancelled : l.dropped ≠ [] → q.state ≠ .running ∧ q.stopMode = .cancelPending
  cleared : q.state ≠ .running → q.stopMode = .cancelPending → q.tasks = []

variable {q : TaskQueue τ}

theorem Booked.of_new : Booked { maximumPendingTasks } (⟨[], [], [], [], 0, 0⟩ : Ledger τ) :=
  ⟨.empty, rfl, rfl, rfl, rfl, Nat.zero_le _, fun h => absurd rfl h, fun _ _ => rfl⟩

theorem Booked.conserved (h : Booked q l) :
    l.accepted.length = q.tasks.length + q.runningTasks + q.completedTasks + q.cancelledTasks := by
  rw [h.balanced.conserved, h.waiting, h.running, h.finished, h.dropped]

theorem admission_accepted (h : q.admission = .accepted) :
    q.state = .running ∧ q.tasks.length < q.maximumPendingTasks := by
  unfold TaskQueue.admission at h
  split at h
  · cases h
  · rename_i hr
    split at h
    · cases h
    · rename_i hro
      exact ⟨not_not.mp hr, Nat.not_le.mp hro⟩

theorem admission_stopped (h : q.state ≠ .running) : q.admission = .stopped := by
  rw [TaskQueue.admission, if_pos h]

/-- A queue that still takes tasks has dropped none. -/
theorem Booked.none_dropped (h : Booked q l) (hr : q.state = .running) : l.dropped = [] := by
  by_contra hs
  exact (h.cancelled hs).1 hr

theorem Booked.push (h : Booked q l) (ha : q.admission = .accepted) : Booked (q.pushBack task)
      { l with accepted := l.accepted ++ [task], waiting := l.waiting ++ [task] } := by
  obtain ⟨hr, hro⟩ := admission_accepted ha
  refine ⟨h.balanced.step (.accept task (h.none_dropped hr)), ?_, h.running, h.finished,
    h.dropped, ?_, h.cancelled, fun hs => absurd hr hs⟩
  · simp only [TaskQueue.pushBack, h.waiting]
  · simp only [TaskQueue.pushBack, List.length_append, List.length_singleton]
    omega

theorem popFront_some (h : q.popFront = some (task, next)) : q.tasks = task :: next.tasks ∧
      next = { q with tasks := next.tasks, runningTasks := q.runningTasks + 1 } := by
  unfold TaskQueue.popFront at h
  split at h
  · cases h
  · rename_i ht
    cases h
    exact ⟨ht, rfl⟩

theorem popFront_none : q.popFront = none ↔ q.tasks = [] := by
  unfold TaskQueue.popFront
  split
  · rename_i ht
    exact ⟨fun _ => ht, fun _ => rfl⟩
  · rename_i ht
    exact ⟨nofun, fun hn => by simp [hn] at ht⟩

theorem Booked.pop (h : Booked q l) (hpop : q.popFront = some (task, next)) :
    Booked next { l with
      started := l.started ++ [task], waiting := next.tasks, running := task ::ₘ l.running } := by
  obtain ⟨ht, hn⟩ := popFront_some hpop
  have hb := h.bounded
  rw [ht, List.length_cons] at hb
  rw [hn]
  refine ⟨h.balanced.step (.start (h.waiting.trans ht)), rfl, ?_, h.finished, h.dropped, ?_,
    h.cancelled, ?_⟩
  · rw [Multiset.card_cons, h.running]
  · dsimp only
    omega
  · intro hs hm
    have hc := h.cleared hs hm
    simp [ht] at hc

theorem Booked.complete (h : Booked q l) (hr : l.running = task ::ₘ rest) :
    Booked q.complete { l with running := rest, finished := l.finished + 1 } := by
  have hc := h.running
  rw [hr, Multiset.card_cons] at hc
  refine ⟨h.balanced.step (.finish hr), h.waiting, ?_, ?_, h.dropped, h.bounded, h.cancelled,
    h.cleared⟩
  · simp only [TaskQueue.complete]
    omega
  · simp only [TaskQueue.complete, h.finished]

def marked (q : TaskQueue τ) (mode : StopMode) : TaskQueue τ :=
  if q.state = .running then { q with state := .stopping, stopMode := mode }
  else if mode = .cancelPending then { q with stopMode := .cancelPending }
  else q

theorem requestStop_eq : q.requestStop mode =
      if (marked q mode).stopMode = .cancelPending then
        { marked q mode with
          cancelledTasks := (marked q mode).cancelledTasks + (marked q mode).tasks.length
          tasks := [] }
      else marked q mode := rfl

theorem marked_eq : marked q mode =
      { q with
        state := if q.state = .running then .stopping else q.state
        stopMode := if q.state = .running ∨ mode = .cancelPending then mode else q.stopMode } := by
  unfold marked
  by_cases hr : q.state = .running
  · simp [hr]
  · by_cases hm : mode = .cancelPending
    · simp [hr, hm]
    · simp [hr, hm]

theorem marked_stopping (q : TaskQueue τ) (mode : StopMode) : (marked q mode).state ≠ .running := by
  rw [marked_eq]
  dsimp only
  split
  · simp
  · assumption

theorem Booked.mark (h : Booked q l) : l.waiting = (marked q mode).tasks ∧
      (l.dropped ≠ [] → (marked q mode).stopMode = .cancelPending) := by
  rw [marked_eq]
  refine ⟨h.waiting, fun hd => ?_⟩
  obtain ⟨hs, hm⟩ := h.cancelled hd
  dsimp only
  split
  · rename_i hc
    exact hc.resolve_left hs
  · exact hm

/-- A request to stop leaves the tasks that wait, or drops them all. -/
theorem Booked.requestStop (h : Booked q l) : ∃ dropped, Booked (q.requestStop mode)
      { l with dropped := dropped, waiting := (q.requestStop mode).tasks } := by
  obtain ⟨hwa, hd⟩ := h.mark
  have hs := marked_stopping q mode
  rw [requestStop_eq]
  split
  · rename_i hm
    refine ⟨l.dropped ++ l.waiting, h.balanced.step (.drop l), rfl, ?_, ?_, ?_, Nat.zero_le _,
      fun _ => ⟨hs, hm⟩, fun _ _ => rfl⟩
    · rw [marked_eq]
      exact h.running
    · rw [marked_eq]
      exact h.finished
    · rw [marked_eq, List.length_append, ← h.dropped, h.waiting]
  · rename_i hm
    refine ⟨l.dropped, hwa ▸ h.balanced, rfl, ?_, ?_, ?_, ?_,
      fun hso => absurd (hd hso) hm, fun _ hc => absurd hc hm⟩
    · rw [marked_eq]
      exact h.running
    · rw [marked_eq]
      exact h.finished
    · rw [marked_eq]
      exact h.dropped
    · rw [marked_eq]
      exact h.bounded

theorem requestStop_stopping :
    (q.requestStop mode).state = if q.state = .running then .stopping else q.state := by
  have hm : (q.requestStop mode).state = (marked q mode).state := by
    rw [requestStop_eq]
    split <;> rfl
  rw [hm, marked_eq]

theorem requestStop_mode (q : TaskQueue τ) (mode : StopMode) : (q.requestStop mode).stopMode =
      if q.state = .running ∨ mode = .cancelPending then mode else q.stopMode := by
  have hm : (q.requestStop mode).stopMode = (marked q mode).stopMode := by
    rw [requestStop_eq]
    split <;> rfl
  rw [hm, marked_eq]

theorem requestStop_nil (h : q.tasks = []) : (q.requestStop mode).tasks = [] := by
  rw [requestStop_eq]
  split
  · rfl
  · rw [marked_eq]
    exact h

section Settling

/-- The executors that stop once their last task has returned. -/
def Settled (q : TaskQueue τ) : Prop := q.state = .stopped → q.tasks = [] ∧ q.runningTasks = 0

theorem Booked.stopped (h : Booked q l) (ht : q.tasks = []) :
    Booked { q with state := .stopped } l :=
  ⟨h.balanced, h.waiting, h.running, h.finished, h.dropped, h.bounded,
    fun hd => ⟨nofun, (h.cancelled hd).2⟩, fun _ _ => ht⟩

theorem Booked.settle (h : Booked q l) : Booked q.moveToStoppedIfDrainedLocked l := by
  unfold TaskQueue.moveToStoppedIfDrainedLocked
  split
  · rename_i hd
    exact h.stopped hd.2.1
  · exact h

theorem Settled.settle (h : Settled q) : Settled q.moveToStoppedIfDrainedLocked := by
  unfold TaskQueue.moveToStoppedIfDrainedLocked
  split
  · rename_i hd
    exact fun _ => hd.2
  · exact h

theorem settled_of_state (h : q.state ≠ .stopped) : Settled q := fun hs => absurd hs h

theorem Settled.pop (h : Settled q) (hpop : q.popFront = some (task, next)) : Settled next := by
  obtain ⟨ht, hne⟩ := popFront_some hpop
  apply settled_of_state
  intro hs
  rw [hne] at hs
  have hn := (h hs).1
  rw [ht] at hn
  cases hn

theorem Settled.complete (h : Settled q) (hb : Booked q l) (hr : l.running = task ::ₘ rest) :
    Settled q.complete.moveToStoppedIfDrainedLocked := by
  apply Settled.settle
  apply settled_of_state
  intro hs
  have hz := (h hs).2
  rw [hb.running, hr, Multiset.card_cons] at hz
  cases hz

theorem settled_requestStop (h : q.state ≠ .stopped) :
    Settled (q.requestStop mode).moveToStoppedIfDrainedLocked := by
  apply Settled.settle
  apply settled_of_state
  rw [requestStop_stopping]
  split
  · simp
  · exact h

theorem settle_tasks : q.moveToStoppedIfDrainedLocked.tasks = q.tasks := by
  unfold TaskQueue.moveToStoppedIfDrainedLocked
  split <;> rfl

theorem settle_running (h : q.moveToStoppedIfDrainedLocked.state = .running) :
    q.state = .running := by
  unfold TaskQueue.moveToStoppedIfDrainedLocked at h
  split at h
  · cases h
  · exact h

theorem requestStop_not_running : (q.requestStop mode).state ≠ .running := by
  rw [requestStop_stopping]
  split
  · simp
  · assumption

end Settling

end IocpRuntime.Proofs.TaskAccounts
