import IocpRuntime.Execution.ThreadPoolExecutor
import IocpRuntime.Lib.Runs
import IocpRuntime.Lib.Slots
import IocpRuntime.Proofs.TaskAccounts

namespace IocpRuntime.Proofs.PoolTasks
open Lib Lib.TaskLedger Execution TaskAccounts

variable {τ : Type} {s : Pool τ} {index : Nat}

abbrev PoolEvent (τ : Type) := Runs.Event (Pool τ) (PoolAction τ)

def acceptedTask (event : PoolEvent τ) : List τ :=
  match event.input with
  | .submit (some task) => if event.before.context.admission = .accepted then [task] else []
  | _ => []

def startedTask (event : PoolEvent τ) : List τ :=
  match event.input with
  | .worker index =>
    match event.before.workers[index]? with
    | some .waiting => event.before.context.workerMain.1.task?.toList
    | _ => []
  | _ => []

def executing (s : Pool τ) : List τ := s.workers.filterMap Worker.task?

/-- What a waiting worker does: it takes the front task, leaves, or goes on waiting. -/
theorem workerMain_cases (c : ThreadPoolContext τ) : (∃ task q, c.popFront = some (task, q) ∧
        c.workerMain = (.executing task, { c with toTaskQueue := q })) ∨
      (c.state ≠ .running ∧ (c.tasks = [] ∨ c.stopMode = .cancelPending) ∧
        c.workerMain = (.exited, c.workerExit)) ∨
      c.workerMain = (.waiting, c) := by
  unfold ThreadPoolContext.workerMain
  split
  · rename_i task q hpop
    split at hpop
    · exact .inl ⟨task, q, hpop, rfl⟩
    · cases hpop
  · rename_i hn
    split
    · rename_i hs
      refine .inr (.inl ⟨hs, ?_, rfl⟩)
      split at hn
      · exact .inl (popFront_none.mp hn)
      · rename_i hc
        cases hm : c.stopMode with
        | drain => exact absurd (.inr hm) hc
        | cancelPending => exact .inr rfl
    · exact .inr (.inr rfl)

structure Conserving (maximumPendingTasks : Nat) (log : List (PoolEvent τ)) (s : Pool τ) : Prop where
  booked : ∃ l : Ledger τ, l.accepted = log.flatMap acceptedTask ∧
    l.started = log.flatMap startedTask ∧ l.running = executing s ∧ Booked s.context.toTaskQueue l
  limit : s.context.maximumPendingTasks = maximumPendingTasks
  live : s.context.liveWorkers = s.workers.countP Worker.live
  stopped : s.context.state = .stopped → s.context.tasks = []
  lastExit : s.context.state = .stopped ↔ s.context.liveWorkers = 0
  cancelled : s.context.stopMode = .cancelPending → ∃ event ∈ log, event.input = .stop .cancelPending

variable {log : List (PoolEvent τ)}

theorem requestStop_limit (q : TaskQueue τ) (mode : StopMode) :
    (q.requestStop mode).maximumPendingTasks = q.maximumPendingTasks := by
  rw [requestStop_eq]
  split
  · rw [marked_eq]
  · rw [marked_eq]

theorem mode_kept {mode : StopMode}
    (h : mode = .cancelPending → ∃ event ∈ log, event.input = .stop .cancelPending)
    (hm : mode = .cancelPending) :
    ∃ earlier ∈ log ++ [event], earlier.input = .stop .cancelPending := by
  obtain ⟨earlier, he, hi⟩ := h hm
  exact ⟨earlier, List.mem_append_left _ he, hi⟩

theorem Conserving.quiet (h : Conserving maximumPendingTasks log event.before)
    (ha : acceptedTask event = []) (hs : startedTask event = []) :
    Conserving maximumPendingTasks (log ++ [event]) event.before := by
  obtain ⟨⟨l, h1, h2, h3, hb⟩, hl, hli, hst, hla, hm⟩ := h
  refine ⟨⟨l, ?_, ?_, h3, hb⟩, hl, hli, hst, hla, mode_kept hm⟩
  · simp [h1, ha]
  · simp [h2, hs]

section

variable (h : Conserving maximumPendingTasks log s)
include h

theorem Conserving.submit : Conserving maximumPendingTasks (log ++ [⟨s, .submit task⟩])
      { s with context := (s.context.submit task).2 } := by
  cases task with
  | none => exact h.quiet rfl rfl
  | some task =>
    simp only [ThreadPoolContext.submit]
    split
    · rename_i ha
      obtain ⟨⟨l, h1, h2, h3, hb⟩, hl, hli, hs, hla, hm⟩ := h
      have hr := (admission_accepted ha).1
      refine ⟨⟨_, ?_, ?_, ?_, hb.push ha⟩, hl, hli, ?_, hla, mode_kept hm⟩
      · simp [h1, acceptedTask, ha]
      · simp [h2, startedTask]
      · exact h3
      · intro hs
        have hst : s.context.state = .stopped := hs
        simp [hr] at hst
    · rename_i hre
      refine h.quiet ?_ rfl
      simp [acceptedTask, hre]

theorem Conserving.stop : Conserving maximumPendingTasks (log ++ [⟨s, .stop mode⟩])
      { s with context := s.context.stop mode } := by
  unfold ThreadPoolContext.stop
  split
  · exact h.quiet rfl rfl
  · rename_i hst
    obtain ⟨⟨l, h1, h2, h3, hb⟩, hl, hli, hsto, hla, hm⟩ := h
    obtain ⟨dropped, hstp⟩ := hb.requestStop
    have hwo : s.context.liveWorkers ≠ 0 := mt hla.mpr hst
    have hs : (s.context.requestStop mode).state ≠ .stopped := by
      rw [requestStop_stopping]
      split
      · simp
      · exact hst
    dsimp only
    rw [if_neg hwo]
    refine ⟨⟨_, ?_, ?_, ?_, hstp⟩, ?_, hli, fun h => absurd h hs, ?_, ?_⟩
    · simp [h1, acceptedTask]
    · simp [h2, startedTask]
    · exact h3
    · exact (requestStop_limit _ mode).trans hl
    · exact ⟨fun h => absurd h hs, fun h => absurd h hwo⟩
    · intro hc
      have hm' := requestStop_mode s.context.toTaskQueue mode
      rw [hc] at hm'
      split at hm'
      · exact ⟨_, List.mem_append_right _ (List.mem_singleton.mpr rfl), hm' ▸ rfl⟩
      · exact mode_kept hm hm'.symm

theorem Conserving.worker_live (hwo : s.workers[index]? = some worker) (hl : worker.live = true) :
    0 < s.context.liveWorkers ∧ s.context.state ≠ .stopped := by
  have hp : 0 < s.context.liveWorkers := by
    rw [h.live]
    exact List.countP_pos_iff.mpr ⟨worker, List.mem_of_getElem? hwo, hl⟩
  exact ⟨hp, fun hs => by have := h.lastExit.mp hs; omega⟩

theorem Conserving.takes (hwo : s.workers[index]? = some .waiting)
    (hpop : s.context.popFront = some (task, q))
    (hm : s.context.workerMain = (.executing task, { s.context with toTaskQueue := q })) :
    Conserving maximumPendingTasks (log ++ [⟨s, .worker index⟩])
      { context := { s.context with toTaskQueue := q }
        workers := s.workers.set index (.executing task) } := by
  have hs := (h.worker_live hwo rfl).2
  obtain ⟨⟨l, h1, h2, h3, hb⟩, hl, hli, hst, hla, hmo⟩ := h
  obtain ⟨-, hn⟩ := popFront_some hpop
  have hsa : q.state = s.context.state ∧ q.stopMode = s.context.stopMode ∧
      q.maximumPendingTasks = s.context.maximumPendingTasks := by rw [hn]; exact ⟨rfl, rfl, rfl⟩
  have hc := Slots.countP_set Worker.live hwo (.executing task)
  refine ⟨⟨_, ?_, ?_, ?_, hb.pop hpop⟩, hsa.2.2.trans hl, ?_, ?_, ?_, ?_⟩
  · simp [h1, acceptedTask]
  · simp [h2, startedTask, hwo, hm, Worker.task?]
  · have hbe := Slots.filterMap_perm Worker.task? hwo
    have ha := Slots.filterMap_set_perm Worker.task? hwo (.executing task)
    rw [h3, Multiset.cons_coe, Multiset.coe_eq_coe]
    exact (hbe.cons task).trans ha.symm
  · exact hli.trans (by simpa [Worker.live] using hc.symm)
  · exact fun h => absurd (hsa.1 ▸ h) hs
  · rw [hsa.1]
    exact hla
  · rw [hsa.2.1]
    exact mode_kept hmo

theorem Conserving.exits
    (hwo : s.workers[index]? = some .waiting) (hst : s.context.state ≠ .running)
    (hd : s.context.tasks = [] ∨ s.context.stopMode = .cancelPending)
    (hma : s.context.workerMain = (.exited, s.context.workerExit)) :
    Conserving maximumPendingTasks (log ++ [⟨s, .worker index⟩])
      { context := s.context.workerExit, workers := s.workers.set index .exited } := by
  obtain ⟨hp, hsta⟩ := h.worker_live hwo rfl
  obtain ⟨⟨l, h1, h2, h3, hb⟩, hli, hlv, hsto, hla, hm⟩ := h
  have ht : s.context.tasks = [] := hd.elim id (hb.cleared hst)
  have hs : startedTask ⟨s, .worker index⟩ = [] := by
    simp [startedTask, hwo, hma, Worker.task?]
  have hr : l.running = executing
      { context := s.context.workerExit, workers := s.workers.set index .exited } := by
    have hbe := Slots.filterMap_perm Worker.task? hwo
    have ha := Slots.filterMap_set_perm Worker.task? hwo .exited
    rw [h3, Multiset.coe_eq_coe]
    exact hbe.trans ha.symm
  have hc : s.context.liveWorkers - 1 = (s.workers.set index .exited).countP Worker.live := by
    have hset := Slots.countP_set Worker.live hwo .exited
    simp only [Worker.live, Bool.toNat_true, Bool.toNat_false] at hset
    omega
  unfold ThreadPoolContext.workerExit at hr ⊢
  dsimp only at hr ⊢
  split
  · rename_i hl
    refine ⟨⟨l, ?_, ?_, ?_, hb.stopped ht⟩, hli, hc, fun _ => ht, ?_, mode_kept hm⟩
    · simp [h1, acceptedTask]
    · simp [h2, hs]
    · rwa [if_pos hl] at hr
    · exact ⟨fun _ => hl, fun _ => rfl⟩
  · rename_i ho
    refine ⟨⟨l, ?_, ?_, ?_, hb⟩, hli, hc, hsto, ?_, mode_kept hm⟩
    · simp [h1, acceptedTask]
    · simp [h2, hs]
    · rwa [if_neg ho] at hr
    · exact ⟨fun h => absurd h hsta, fun h => absurd h ho⟩

theorem Conserving.completes (hwo : s.workers[index]? = some (.executing task)) :
    Conserving maximumPendingTasks (log ++ [⟨s, .worker index⟩])
      { context := s.context.workerDone, workers := s.workers.set index .waiting } := by
  obtain ⟨⟨l, h1, h2, h3, hb⟩, hl, hli, hs, hla, hm⟩ := h
  have hbe := Slots.filterMap_perm Worker.task? hwo
  have ha := Slots.filterMap_set_perm Worker.task? hwo .waiting
  have hc := Slots.countP_set Worker.live hwo .waiting
  have hr : l.running = task ::ₘ ((s.workers.eraseIdx index).filterMap Worker.task?) := by
    rw [h3, Multiset.cons_coe, Multiset.coe_eq_coe]
    exact hbe
  refine ⟨⟨_, ?_, ?_, ?_, hb.complete hr⟩, hl, ?_, hs, hla, mode_kept hm⟩
  · simp [h1, acceptedTask]
  · simp [h2, startedTask, hwo]
  · rw [Multiset.coe_eq_coe]
    exact ha.symm
  · exact hli.trans (by simpa [Worker.live] using hc.symm)

theorem Conserving.worker :
    Conserving maximumPendingTasks (log ++ [⟨s, .worker index⟩]) (s.workerStep index) := by
  cases hwo : s.workers[index]? with
  | none =>
    simp only [Pool.workerStep, hwo]
    exact h.quiet rfl (by simp [startedTask, hwo])
  | some worker =>
    cases worker with
    | waiting =>
      simp only [Pool.workerStep, hwo]
      rcases workerMain_cases s.context with ⟨task, q, hpop, hm⟩ | ⟨hs, hd, hm⟩ | hm
      · rw [hm]
        exact h.takes hwo hpop hm
      · rw [hm]
        exact h.exits hwo hs hd hm
      · rw [hm]
        obtain ⟨hi, hget⟩ := List.getElem?_eq_some_iff.mp hwo
        have hsa : s.workers.set index .waiting = s.workers := hget ▸ List.set_getElem_self hi
        rw [hsa]
        exact h.quiet rfl (by simp [startedTask, hwo, hm, Worker.task?])
    | executing task =>
      simp only [Pool.workerStep, hwo]
      exact h.completes hwo
    | exited =>
      simp only [Pool.workerStep, hwo]
      exact h.quiet rfl (by simp [startedTask, hwo])

end

theorem Conserving.step (h : Conserving maximumPendingTasks log event.before) :
    Conserving maximumPendingTasks (log ++ [event]) (event.after Pool.step) := by
  obtain ⟨s, action⟩ := event
  cases action with
  | submit task => exact h.submit
  | stop mode => exact h.stop
  | worker index => exact h.worker

section Construction

theorem started_workers (maximumPendingTasks count : Nat) :
    let s := Pool.startWorker^[count] ({ context := { maximumPendingTasks } } : Pool τ)
    s.context = { maximumPendingTasks, liveWorkers := count } ∧
      s.workers = List.replicate count .waiting := by
  induction count with
  | zero => exact ⟨rfl, rfl⟩
  | succ count ih =>
    rw [Function.iterate_succ_apply']
    obtain ⟨hc, hwo⟩ := ih
    refine ⟨?_, ?_⟩
    · simp only [Pool.startWorker, hc]
    · simp only [Pool.startWorker, hwo, List.replicate_succ']

theorem Conserving.of_create {failure : Option Buffer.Thrown} {pool : Pool τ}
    (h : Pool.create workerCount maximumPendingTasks failure = .ok pool) :
    Conserving maximumPendingTasks [] pool := by
  unfold Pool.create at h
  split at h
  · cases h
  · rename_i hwo
    split at h
    · cases h
    · split at h
      · cases h
      · have hs := started_workers (τ := τ) maximumPendingTasks workerCount
        rw [Except.ok.inj h] at hs
        obtain ⟨hc, hr⟩ := hs
        constructor
        · refine ⟨⟨[], [], [], [], 0, 0⟩, rfl, rfl, ?_, ?_⟩
          · rw [executing, hr, List.filterMap_replicate_of_none rfl]
            rfl
          · rw [hc]
            exact .of_new
        · rw [hc]
        · rw [hc, hr, List.countP_replicate]
          rfl
        · rw [hc]
          nofun
        · rw [hc]
          exact ⟨nofun, fun hz => absurd hz hwo⟩
        · rw [hc]
          nofun

end Construction

section Runs

def AllExited (s : Pool τ) : Prop := ∀ worker ∈ s.workers, worker = .exited

theorem all_exited (h : s.workers.countP Worker.live = 0) : AllExited s := by
  intro worker hwo
  have hd := List.countP_eq_zero.mp h worker hwo
  cases worker with
  | exited => rfl
  | _ => exact absurd rfl hd

theorem AllExited.workerStep (h : AllExited s) : s.workerStep index = s := by
  unfold Pool.workerStep
  split
  · rename_i hwo
    cases h _ (List.mem_of_getElem? hwo)
  · rename_i hwo
    cases h _ (List.mem_of_getElem? hwo)
  · rfl

theorem AllExited.step (h : AllExited s) : AllExited (s.step action) := by
  cases action with
  | submit task => exact h
  | stop mode => exact h
  | worker index =>
    rw [Pool.step, h.workerStep]
    exact h

theorem AllExited.idle (h : AllExited s) (actions : List (PoolAction τ)) :
    (Runs.history Pool.step s actions).flatMap startedTask = [] := by
  rw [List.flatMap_eq_nil_iff]
  intro event hev
  obtain ⟨first, -, -, hb⟩ := Runs.history_split hev
  have he : AllExited event.before :=
    hb ▸ Runs.final_invariant h (fun _ action hs => hs.step) first
  obtain ⟨s, action⟩ := event
  cases action with
  | worker index =>
    simp only [startedTask]
    split
    · rename_i hwo
      cases he _ (List.mem_of_getElem? hwo)
    · rfl
  | _ => rfl

/-- Accepted tasks are counted once, taken in order and at most once, cancelled only on request, and
a stopped pool has none left. -/
theorem tasks_conserved {workerCount maximumPendingTasks : Nat} {failure : Option Buffer.Thrown}
    {pool : Pool τ} (h : Pool.create workerCount maximumPendingTasks failure = .ok pool)
    (actions : List (PoolAction τ)) :
    let log := Runs.history Pool.step pool actions
    let s := Runs.final Pool.step pool actions
    (log.flatMap acceptedTask).length = s.context.tasks.length + s.context.runningTasks +
        s.context.completedTasks + s.context.cancelledTasks ∧
      s.context.tasks.length ≤ maximumPendingTasks ∧
      log.flatMap startedTask <+: log.flatMap acceptedTask ∧
      s.context.runningTasks = (executing s).length ∧
      (s.context.cancelledTasks ≠ 0 → ∃ event ∈ log, event.input = .stop .cancelPending) ∧
      (s.context.state = .stopped →
        s.context.tasks = [] ∧ s.context.runningTasks = 0 ∧ AllExited s ∧
        ∀ later, (Runs.history Pool.step s later).flatMap startedTask = []) := by
  have hconserving : Conserving maximumPendingTasks (Runs.history Pool.step pool actions)
      (Runs.final Pool.step pool actions) :=
    Runs.run_induction (.of_create h) (fun _ _ hlog (_ : True) => hlog.step) (fun _ _ => trivial)
  obtain ⟨⟨l, h1, h2, h3, hbooked⟩, hlimit, hlive, hstopped, hlast, hmode⟩ := hconserving
  have hrunning : (Runs.final Pool.step pool actions).context.runningTasks =
      (executing (Runs.final Pool.step pool actions)).length := by
    rw [hbooked.running, h3, Multiset.coe_card]
  refine ⟨?_, ?_, ?_, hrunning, ?_, ?_⟩
  · rw [← h1]
    exact hbooked.conserved
  · exact hlimit ▸ hbooked.bounded
  · rw [← h1, ← h2]
    exact hbooked.balanced.in_order
  · intro hsome
    have hdropped : l.dropped ≠ [] := by
      intro hnone
      rw [hbooked.dropped, hnone] at hsome
      exact hsome rfl
    exact hmode (hbooked.cancelled hdropped).2
  · intro hstate
    have hexited := all_exited (hlive.symm.trans (hlast.mp hstate))
    refine ⟨hstopped hstate, ?_, hexited, hexited.idle⟩
    rw [hrunning, List.length_eq_zero_iff, executing, List.filterMap_eq_nil_iff]
    intro worker hworker
    rw [hexited worker hworker]
    rfl

def escalation : List (PoolAction Nat) :=
  [.submit (some 1), .submit (some 2), .submit (some 3), .worker 1, .stop .drain, .submit (some 4),
    .worker 0, .stop .cancelPending, .worker 1, .worker 0, .worker 0, .worker 1]

def smallPool : Pool Nat :=
  { context := { maximumPendingTasks := 4, liveWorkers := 2 }, workers := [.waiting, .waiting] }

theorem tasks_conserved_escalation : Pool.create 2 4 none = .ok smallPool ∧
      let log := Runs.history Pool.step smallPool escalation
      let s := Runs.final Pool.step smallPool escalation
      log.flatMap acceptedTask = [1, 2, 3] ∧ log.flatMap startedTask = [1, 2] ∧
        s.context.state = .stopped ∧ s.context.completedTasks = 2 ∧ s.context.cancelledTasks = 1 ∧
        s.context.tasks = [] ∧ AllExited s := by
  have hcreate : Pool.create 2 4 none = .ok smallPool := rfl
  have hstate : (Runs.final Pool.step smallPool escalation).context.state = .stopped := by
    decide +kernel
  have hstopped := (tasks_conserved hcreate escalation).2.2.2.2.2 hstate
  exact ⟨hcreate, by decide +kernel, by decide +kernel, hstate, by decide +kernel,
    by decide +kernel, hstopped.1, hstopped.2.2.1⟩

end Runs

end IocpRuntime.Proofs.PoolTasks
