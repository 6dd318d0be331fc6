import IocpRuntime.Execution.SerialOver
import IocpRuntime.Proofs.PoolTasks
import IocpRuntime.Proofs.SerialOrder

namespace IocpRuntime.Proofs.StrandedTasks
open Lib Lib.TaskLedger Execution TaskAccounts

variable {τ : Type}

section Manual

structure Accounted (calls : ManualCalls τ) : Prop where
  booked : ∃ l : Ledger τ, Booked calls.executor l ∧ l.running = calls.running
  settled : Settled calls.executor

variable {calls : ManualCalls τ}

theorem Accounted.post (h : Accounted calls) :
    Accounted { calls with executor := (ManualExecutor.post calls.executor (some task)).2 } := by
  simp only [ManualExecutor.post]
  split
  · rename_i ha
    obtain ⟨⟨l, hb, hr⟩, -⟩ := h
    have hs := (admission_accepted ha).1
    refine ⟨⟨_, hb.push ha, hr⟩, settled_of_state ?_⟩
    simp [TaskQueue.pushBack, hs]
  · exact h

theorem Accounted.stop (h : Accounted calls) :
    Accounted { calls with executor := ManualExecutor.stop calls.executor mode } := by
  unfold ManualExecutor.stop
  split
  · exact h
  · rename_i hs
    obtain ⟨⟨l, hb, hr⟩, -⟩ := h
    obtain ⟨dropped, hst⟩ := hb.requestStop
    exact ⟨⟨_, hst.settle, hr⟩, settled_requestStop hs⟩

theorem runOne_cases :
    (e.tasks = [] ∧ ManualExecutor.runOne e = (none, e.moveToStoppedIfDrainedLocked)) ∨
      ∃ task next, e.popFront = some (task, next) ∧ ManualExecutor.runOne e = (some task, next) := by
  unfold ManualExecutor.runOne
  split
  · rename_i hn
    exact .inl ⟨popFront_none.mp hn, rfl⟩
  · rename_i task next hpop
    exact .inr ⟨task, next, hpop, rfl⟩

theorem Accounted.runOne (h : Accounted calls) :
    Accounted { executor := (ManualExecutor.runOne calls.executor).2
                running := calls.running ++ (ManualExecutor.runOne calls.executor).1.toList } := by
  obtain ⟨⟨l, hb, hr⟩, hs⟩ := h
  rcases runOne_cases with ⟨-, hrun⟩ | ⟨task, next, hpop, hrun⟩
  · rw [hrun]
    refine ⟨⟨l, hb.settle, ?_⟩, hs.settle⟩
    simpa using hr
  · rw [hrun]
    refine ⟨⟨_, hb.pop hpop, ?_⟩, hs.pop hpop⟩
    rw [hr, Multiset.cons_coe, Multiset.coe_eq_coe, Option.toList_some]
    exact (List.perm_append_singleton task calls.running).symm

theorem Accounted.ranOne (h : Accounted calls) (hi : index < calls.running.length) :
    Accounted { executor := ManualExecutor.ranOne calls.executor
                running := calls.running.eraseIdx index } := by
  obtain ⟨⟨l, hb, hr⟩, hs⟩ := h
  have ht : l.running = calls.running[index] ::ₘ (calls.running.eraseIdx index : Multiset τ) := by
    rw [hr, Multiset.cons_coe, Multiset.coe_eq_coe]
    exact (List.getElem_cons_eraseIdx_perm hi).symm
  exact ⟨⟨_, (hb.complete ht).settle, rfl⟩, hs.complete hb ht⟩

end Manual

section Underlying

variable {u : UnderlyingExecutor}

def Sound : UnderlyingExecutor → Prop
  | .manual calls => Accounted calls
  | .threadPool pool => ∃ maximumPendingTasks log, PoolTasks.Conserving maximumPendingTasks log pool

theorem Sound.pool_step (h : Sound (.threadPool pool)) :
    Sound (.threadPool (pool.step action)) := by
  obtain ⟨maximumPendingTasks, log, hlog⟩ := h
  exact ⟨maximumPendingTasks, log ++ [⟨pool, action⟩], hlog.step⟩

theorem Sound.submit (h : Sound u) : Sound (u.submit job) := by
  cases u with
  | manual calls => exact Accounted.post h
  | threadPool pool => exact h.pool_step

theorem Sound.step (h : Sound u) : Sound (u.step action) := by
  cases action with
  | post => exact h.submit
  | stop mode =>
    cases u with
    | manual calls => exact Accounted.stop h
    | threadPool pool => exact h.pool_step
  | runOne =>
    cases u with
    | manual calls => exact Accounted.runOne h
    | threadPool pool => exact h
  | thread index =>
    cases u with
    | manual calls =>
      simp only [UnderlyingExecutor.step]
      split
      · rename_i hi
        exact Accounted.ranOne h hi
      · exact h
    | threadPool pool => exact h.pool_step

theorem Sound.stopped (h : Sound u) (hs : u.state = .stopped) : u.queue = [] ∧ u.running = [] := by
  cases u with
  | manual calls =>
    obtain ⟨⟨l, hb, hr⟩, hse⟩ := h
    obtain ⟨ht, hn⟩ := hse hs
    rw [hb.running, hr, Multiset.coe_card, List.length_eq_zero_iff] at hn
    exact ⟨ht, hn⟩
  | threadPool pool =>
    obtain ⟨maximumPendingTasks, log, hlog⟩ := h
    have he := PoolTasks.all_exited (hlog.live.symm.trans (hlog.lastExit.mp hs))
    refine ⟨hlog.stopped hs, ?_⟩
    rw [UnderlyingExecutor.running, List.filterMap_eq_nil_iff]
    intro worker hwo
    rw [he worker hwo]
    rfl

theorem submit_refused (h : u.admission ≠ .accepted) : u.submit job = u := by
  cases u with
  | manual calls =>
    have hr : TaskQueue.admission calls.executor ≠ .accepted := h
    simp only [UnderlyingExecutor.submit, ManualExecutor.post, if_neg hr]
  | threadPool pool =>
    have hr : pool.context.admission ≠ .accepted := h
    simp only [UnderlyingExecutor.submit, Pool.step, ThreadPoolContext.submit, if_neg hr]

theorem submit_accepted (h : u.admission = .accepted) :
    (u.submit job).queue = u.queue ++ [job] ∧ (u.submit job).running = u.running := by
  cases u with
  | manual calls =>
    have ha : TaskQueue.admission calls.executor = .accepted := h
    simp only [UnderlyingExecutor.submit, ManualExecutor.post, if_pos ha]
    exact ⟨rfl, rfl⟩
  | threadPool pool =>
    have ha : pool.context.admission = .accepted := h
    simp only [UnderlyingExecutor.submit, Pool.step, ThreadPoolContext.submit, if_pos ha]
    exact ⟨rfl, rfl⟩

theorem stopped_refuses (h : u.state = .stopped) : u.admission = .stopped := by
  cases u with
  | manual calls =>
    have hs : TaskQueue.state calls.executor = .stopped := h
    exact admission_stopped (by simp [hs])
  | threadPool pool =>
    have hs : pool.context.state = .stopped := h
    exact admission_stopped (by simp [hs])

theorem requestStop_tasks (h : Booked q l) (mode : StopMode) :
    (q.requestStop mode).tasks = q.tasks ∨ mode = .cancelPending ∧ (q.requestStop mode).tasks = [] := by
  rw [requestStop_eq]
  split
  · rename_i hc
    rw [marked_eq] at hc
    dsimp only at hc
    split at hc
    · exact .inr ⟨hc, rfl⟩
    · rename_i hk
      rw [not_or] at hk
      exact .inl (h.cleared hk.1 hc).symm
  · rw [marked_eq]
    exact .inl rfl

/-- A stop keeps the jobs that run; only one that cancels drops those that wait. -/
theorem Sound.stop (h : Sound u) : (u.step (.stop mode)).running = u.running ∧
      ((u.step (.stop mode)).queue = u.queue ∨
        mode = .cancelPending ∧ u.state ≠ .stopped ∧ (u.step (.stop mode)).queue = []) := by
  cases u with
  | manual calls =>
    obtain ⟨⟨l, hb, -⟩, -⟩ := h
    refine ⟨rfl, ?_⟩
    simp only [UnderlyingExecutor.step, UnderlyingExecutor.queue, UnderlyingExecutor.state,
      ManualExecutor.stop]
    split
    · exact .inl rfl
    · rename_i hs
      rw [settle_tasks]
      rcases requestStop_tasks hb mode with hsa | ⟨hm, hn⟩
      · exact .inl hsa
      · exact .inr ⟨hm, hs, hn⟩
  | threadPool pool =>
    obtain ⟨maximumPendingTasks, log, ⟨⟨l, -, -, -, hb⟩, -, -, -, -, -⟩⟩ := h
    refine ⟨rfl, ?_⟩
    simp only [UnderlyingExecutor.step, UnderlyingExecutor.queue, UnderlyingExecutor.state, Pool.step,
      ThreadPoolContext.stop]
    split
    · exact .inl rfl
    · rename_i hs
      have ht := requestStop_tasks hb mode
      split
      · rcases ht with hsa | ⟨hm, hn⟩
        · exact .inl hsa
        · exact .inr ⟨hm, hs, hn⟩
      · rcases ht with hsa | ⟨hm, hn⟩
        · exact .inl hsa
        · exact .inr ⟨hm, hs, hn⟩

def drainCount (job : Option Job) : Nat := job.toList.count .drain

theorem drainCount_le (job : Option Job) : drainCount job ≤ 1 := by
  cases job with
  | none => exact Nat.zero_le _
  | some job => cases job <;> decide

theorem drainCount_other (h : job ≠ some .drain) : drainCount job = 0 := by
  cases job with
  | none => rfl
  | some job =>
    cases job with
    | drain => exact absurd rfl h
    | other => rfl

/-- The calls of `Drain` that wait and those that run, against what an action takes, ends and
drops. -/
structure Counts (u next : UnderlyingExecutor) (takes ends : Option Job) (dropped : Nat) : Prop where
  queue : next.queue.count .drain + drainCount takes + dropped = u.queue.count .drain
  running : next.running.count .drain + drainCount ends =
    u.running.count .drain + drainCount takes

theorem Counts.same (hq : next.queue = u.queue)
    (hr : next.running = u.running) : Counts u next none none 0 :=
  ⟨by rw [hq]; rfl, by rw [hr]⟩

theorem pop_count {q next : TaskQueue Job} (h : q.popFront = some (job, next)) :
    next.tasks.count .drain + drainCount (some job) = q.tasks.count .drain := by
  rw [(popFront_some h).1, drainCount, Option.toList_some, ← List.count_append]
  exact (List.perm_append_singleton job next.tasks).count_eq _

theorem post_counts : Counts u (u.step .post) none none 0 := by
  by_cases ha : u.admission = .accepted
  · obtain ⟨hq, hr⟩ := submit_accepted ha
    refine ⟨?_, by rw [UnderlyingExecutor.step, hr]⟩
    rw [UnderlyingExecutor.step, hq, List.count_append]
    rfl
  · have hs : u.step .post = u := submit_refused ha
    exact .same (by rw [hs]) (by rw [hs])

theorem runOne_counts : Counts (.manual calls) (UnderlyingExecutor.step (.manual calls) .runOne)
      (UnderlyingExecutor.takes (.manual calls) .runOne) none 0 := by
  simp only [UnderlyingExecutor.takes, UnderlyingExecutor.step]
  rcases runOne_cases with ⟨ht, hrun⟩ | ⟨job, next, hpop, hrun⟩
  · rw [hrun]
    refine .same settle_tasks ?_
    simp [UnderlyingExecutor.running]
  · rw [hrun]
    refine ⟨pop_count hpop, ?_⟩
    simp only [UnderlyingExecutor.running, List.count_append]
    rfl

theorem ranOne_counts (h : index < calls.running.length) : Counts (.manual calls)
      (.manual { executor := ManualExecutor.ranOne calls.executor
                 running := calls.running.eraseIdx index })
      none calls.running[index]? 0 := by
  refine ⟨?_, ?_⟩
  · simp only [UnderlyingExecutor.queue, ManualExecutor.ranOne, settle_tasks]
    rfl
  · have hc := (List.getElem_cons_eraseIdx_perm h).count_eq .drain
    rw [List.getElem?_eq_getElem h, drainCount, Option.toList_some]
    simp only [UnderlyingExecutor.running]
    rw [← hc, ← List.count_append]
    exact (List.perm_append_singleton _ _).count_eq _

/-- What a worker that goes from one place of its loop to another does to the jobs that run. -/
theorem worker_count {pool : Pool Job} (h : pool.workers[index]? = some old) :
    ((pool.workers.set index new).filterMap Worker.task?).count .drain + drainCount old.task? =
      (pool.workers.filterMap Worker.task?).count .drain + drainCount new.task? := by
  rw [(Slots.filterMap_perm Worker.task? h).count_eq,
    (Slots.filterMap_set_perm Worker.task? h new).count_eq, List.count_append, List.count_append]
  simp only [drainCount]
  omega

theorem worker_counts : Counts (.threadPool pool) (.threadPool (pool.workerStep index))
      (UnderlyingExecutor.takes (.threadPool pool) (.thread index))
      (UnderlyingExecutor.ends (.threadPool pool) (.thread index)) 0 := by
  simp only [UnderlyingExecutor.takes, UnderlyingExecutor.ends, Pool.workerStep]
  cases hwo : pool.workers[index]? with
  | none => exact .same rfl rfl
  | some worker =>
    cases worker with
    | exited => exact .same rfl rfl
    | executing job => exact ⟨rfl, worker_count hwo⟩
    | waiting =>
      rcases PoolTasks.workerMain_cases pool.context with
        ⟨job, q, hpop, hm⟩ | ⟨-, -, hm⟩ | hm
      · rw [hm]
        exact ⟨pop_count hpop, worker_count hwo⟩
      · rw [hm]
        refine ⟨?_, worker_count hwo⟩
        simp only [UnderlyingExecutor.queue, ThreadPoolContext.workerExit]
        split <;> rfl
      · rw [hm]
        exact ⟨rfl, worker_count hwo⟩

/-- Only a stop that cancels takes a call of `Drain` out of the queue without running it. -/
theorem Sound.counts (h : Sound u) :
    ∃ dropped, Counts u (u.step action) (u.takes action) (u.ends action) dropped ∧
      (dropped ≠ 0 →
        action = .stop .cancelPending ∧ u.state ≠ .stopped ∧ .drain ∈ u.queue) := by
  have hk : ∀ {takes ends : Option Job}, Counts u (u.step action) takes ends 0 →
      u.takes action = takes → u.ends action = ends →
      ∃ dropped, Counts u (u.step action) (u.takes action) (u.ends action) dropped ∧
        (dropped ≠ 0 →
          action = .stop .cancelPending ∧ u.state ≠ .stopped ∧ .drain ∈ u.queue) := by
    rintro takes ends hc rfl rfl
    exact ⟨0, hc, fun hne => absurd rfl hne⟩
  cases action with
  | post => exact hk post_counts (by cases u <;> rfl) (by cases u <;> rfl)
  | stop mode =>
    obtain ⟨hr, hsa | ⟨hm, hs, he⟩⟩ := h.stop
    · exact hk (.same hsa hr) (by cases u <;> rfl) (by cases u <;> rfl)
    · have hn : u.takes (.stop mode) = none ∧ u.ends (.stop mode) = none := by
        cases u <;> exact ⟨rfl, rfl⟩
      rw [hn.1, hn.2]
      refine ⟨u.queue.count .drain, ⟨?_, by rw [hr]⟩, fun hso => ⟨by rw [hm], hs, ?_⟩⟩
      · rw [he]
        simp [drainCount]
      · exact List.count_pos_iff.mp (Nat.pos_of_ne_zero hso)
  | runOne =>
    cases u with
    | manual calls => exact hk runOne_counts rfl rfl
    | threadPool pool => exact hk (.same rfl rfl) rfl rfl
  | thread index =>
    cases u with
    | manual calls =>
      by_cases hi : index < calls.running.length
      · have hst : UnderlyingExecutor.step (.manual calls) (.thread index) =
            .manual { executor := ManualExecutor.ranOne calls.executor
                      running := calls.running.eraseIdx index } := by
          simp only [UnderlyingExecutor.step, if_pos hi]
        exact hk (hst ▸ ranOne_counts hi) rfl rfl
      · have hst : UnderlyingExecutor.step (.manual calls) (.thread index) = .manual calls := by
          simp only [UnderlyingExecutor.step, if_neg hi]
        exact hk (.same (by rw [hst]) (by rw [hst])) rfl (List.getElem?_eq_none (Nat.not_lt.mp hi))
    | threadPool pool => exact hk worker_counts rfl rfl

end Underlying

section Runs

abbrev StackedEvent (τ : Type) := Runs.Event (Stacked τ) (StackedAction τ)

/-- No `CancelPending` while a `Drain` of a running serial executor waits in the queue. -/
def CancelsNoDrain (event : StackedEvent τ) : Prop :=
  event.input = .underlying (.stop .cancelPending) → event.before.serial.state = .running →
    event.before.underlying.state ≠ .stopped → .drain ∉ event.before.underlying.queue

instance [DecidableEq τ] (event : StackedEvent τ) : Decidable (CancelsNoDrain event) :=
  inferInstanceAs (Decidable (_ → _ → _ → _))

/-- A running serial executor has tasks that its underlying executor will not run. -/
def Stranded (s : Stacked τ) : Prop :=
  s.underlying.state = .stopped ∧ s.serial.state = .running ∧ s.serial.tasks ≠ []

/-- While the serial executor is running its scheduled call of `Drain` waits or runs. -/
structure Attended (s : Stacked τ) : Prop where
  sound : Sound s.underlying
  running : s.drains.length ≤ s.underlying.running.count .drain
  scheduled : s.serial.state = .running →
    s.underlying.queue.count .drain + s.drains.length = s.serial.drainScheduled.toNat
  covered : s.serial.tasks ≠ [] → s.serial.drainScheduled = true

theorem posted_drain {e : SerialExecutor τ}
    (h : (e.post (some task) (.answers status)).drain.isSome) : status = .accepted := by
  rw [SerialOrder.post_eq] at h
  split at h
  · cases h
  · split at h
    · cases h
    · cases status with
      | accepted => rfl
      | _ => cases h

theorem Attended.post (h : Attended s) : Attended (s.step (.post task)) := by
  cases task with
  | none => exact h
  | some task =>
    have hp := SerialOrder.post_posts s.serial task (.answers s.underlying.admission)
    have hd : (s.posted (some task)).drain.isSome → s.underlying.admission = .accepted := posted_drain
    simp only [Stacked.step]
    change SerialOrder.Posts s.serial task (s.posted (some task)) at hp
    generalize s.posted (some task) = posted at hp hd ⊢
    obtain ⟨hso, hr, hs, hc⟩ := h
    cases hp with
    | refused he hn hre =>
      rw [he, hn]
      exact ⟨hso, hr, hs, hc⟩
    | joined ha hf => exact ⟨hso, hr, hs, fun _ => hf⟩
    | submitted ha hf inline =>
      obtain ⟨hq, hsa⟩ := submit_accepted (hd rfl)
      have hz := hs (admission_accepted ha).1
      rw [hf] at hz
      simp only [Option.isSome_some, if_true]
      refine ⟨hso.submit, ?_, fun _ => ?_, fun _ => rfl⟩
      · rw [hsa]
        exact hr
      · rw [hq, List.count_append, List.count_singleton_self]
        simp only [Bool.toNat_true, Bool.toNat_false] at hz ⊢
        omega
    | stopped ha hf => exact ⟨hso, hr, nofun, hc⟩

theorem Attended.stop (h : Attended s) : Attended (s.step (.stop mode)) := by
  simp only [Stacked.step, SerialExecutor.stop]
  split
  · exact h
  · obtain ⟨hs, hr, hsc, hc⟩ := h
    refine ⟨hs, hr, fun hst => ?_, fun ht => hc (fun hn => ?_)⟩
    · exact absurd (settle_running hst) requestStop_not_running
    · rw [settle_tasks] at ht
      exact ht (requestStop_nil hn)

theorem Attended.drain (h : Attended s) : Attended (s.step (.drain index)) := by
  simp only [Stacked.step, Stacked.drainStep]
  cases hca : s.drains[index]? with
  | none => exact h
  | some executing =>
    obtain ⟨hi, -⟩ := List.getElem?_eq_some_iff.mp hca
    obtain ⟨hso, hr, hsc, hc⟩ := h
    cases executing with
    | some task =>
      simp only [SerialExecutor.drained]
      refine ⟨hso, ?_, fun hs => ?_, fun ht => hc ?_⟩
      · simpa using hr
      · have hb : s.serial.complete.state = .running := settle_running hs
        rw [List.length_set]
        exact hsc hb
      · rw [settle_tasks] at ht
        exact ht
    | none =>
      dsimp only
      rcases SerialOrder.drain_cases s.serial with ⟨ht, hd⟩ | ⟨task, next, hpop, hd⟩
      · rw [hd]
        dsimp only
        refine ⟨hso, ?_, fun hs => ?_, fun hsm => ?_⟩
        · rw [List.length_eraseIdx_of_lt hi]
          dsimp only
          omega
        · have hone := hsc (settle_running hs)
          have hf := s.serial.drainScheduled.toNat_le
          rw [List.length_eraseIdx_of_lt hi]
          simp only [Bool.toNat_false]
          omega
        · rw [settle_tasks] at hsm
          exact absurd ht hsm
      · rw [hd]
        obtain ⟨ht, hn⟩ := popFront_some hpop
        have hf := hc (by rw [ht]; exact List.cons_ne_nil _ _)
        refine ⟨hso, ?_, fun hs => ?_, fun _ => hf⟩
        · simpa using hr
        · rw [hn] at hs
          rw [List.length_set]
          exact hsc hs

theorem Attended.underlying (h : Attended s) (ha : CancelsNoDrain ⟨s, .underlying action⟩) :
    Attended (s.step (.underlying action)) := by
  simp only [Stacked.step]
  split
  · rename_i hr
    obtain ⟨hso, hru, hs, hco⟩ := h
    obtain ⟨dropped, hc, hd⟩ := hso.counts
    have hq := hc.queue
    have hac := hc.running
    have hca : (s.drains ++ if s.underlying.takes action = some Job.drain then [none] else []).length =
        s.drains.length + drainCount (s.underlying.takes action) := by
      rw [List.length_append]
      cases s.underlying.takes action with
      | none => rfl
      | some job => cases job <;> rfl
    refine ⟨hso.step, ?_, fun hst => ?_, hco⟩
    · rw [hca]
      dsimp only
      simp only [Stacked.returned, Bool.or_eq_true, decide_eq_true_eq] at hr
      rcases hr with ho | hdo
      · rw [drainCount_other ho] at hac
        omega
      · have hone := drainCount_le (s.underlying.ends action)
        omega
    · have hn : dropped = 0 := by
        by_contra hsm
        obtain ⟨rfl, hl, hwa⟩ := hd hsm
        exact ha rfl hst hl hwa
      have hone := hs hst
      rw [hca]
      dsimp only
      omega
  · exact h

theorem Attended.step (h : Attended event.before)
    (ha : CancelsNoDrain event) : Attended (event.after Stacked.step) := by
  obtain ⟨s, action⟩ := event
  cases action with
  | post task => exact h.post
  | stop mode => exact h.stop
  | drain index => exact h.drain
  | underlying action => exact h.underlying ha

/-- Over an underlying executor that has stopped nothing is scheduled. -/
theorem Attended.unscheduled (h : Attended s)
    (hst : s.underlying.state = .stopped) (hr : s.serial.state = .running) :
    s.serial.drainScheduled = false := by
  obtain ⟨hq, hn⟩ := h.sound.stopped hst
  have hd := h.running
  have hs := h.scheduled hr
  rw [hn, List.count_nil] at hd
  rw [hq, List.count_nil] at hs
  cases hf : s.serial.drainScheduled with
  | false => rfl
  | true =>
    rw [hf, Bool.toNat_true] at hs
    omega

theorem Attended.refuses (h : Attended s) (hs : s.underlying.state = .stopped) (task : Option τ) :
    (s.posted task).accepted = false := by
  cases task with
  | none => rfl
  | some task =>
    have hp := SerialOrder.post_posts s.serial task (.answers s.underlying.admission)
    have hd : (s.posted (some task)).drain.isSome → s.underlying.admission = .accepted :=
      posted_drain
    change SerialOrder.Posts s.serial task (s.posted (some task)) at hp
    generalize s.posted (some task) = posted at hp hd ⊢
    cases hp with
    | refused _ _ hr => exact hr
    | joined had hfl =>
      have hf := h.unscheduled hs (admission_accepted had).1
      rw [hfl] at hf
      cases hf
    | submitted _ _ _ =>
      have ha := hd rfl
      rw [stopped_refuses hs] at ha
      cases ha
    | stopped => rfl

inductive Created : UnderlyingExecutor → Prop
  | manual {maximumPendingTasks : Nat} {executor : ManualExecutor Job}
      (h : ManualExecutor.create maximumPendingTasks = .ok executor) : Created (.manual { executor })
  | threadPool {workerCount maximumPendingTasks : Nat} {failure : Option Buffer.Thrown}
      {pool : Pool Job} (h : Pool.create workerCount maximumPendingTasks failure = .ok pool) :
      Created (.threadPool pool)

theorem Created.sound (h : Created u) : Sound u ∧ u.queue = [] := by
  cases h with
  | manual hc =>
    unfold ManualExecutor.create at hc
    split at hc
    · cases hc
    · cases hc
      exact ⟨⟨⟨_, .of_new, rfl⟩, nofun⟩, rfl⟩
  | threadPool hc =>
    have hco := PoolTasks.Conserving.of_create hc
    refine ⟨⟨_, _, hco⟩, ?_⟩
    obtain ⟨l, ha, -, -, hb⟩ := hco.booked
    have hwh := hb.balanced.whole
    rw [ha, List.flatMap_nil] at hwh
    exact hb.waiting.symm.trans (List.append_eq_nil_iff.mp hwh.symm).2

/-- If no `Drain` is cancelled, no task is left when the underlying executor has stopped. -/
theorem no_task_stranded {present : Bool} {maximumPendingTasks : Nat} {serial : SerialExecutor τ}
    {underlying : UnderlyingExecutor}
    (h : SerialExecutor.create present maximumPendingTasks = .ok serial)
    (hcreated : Created underlying) (actions : List (StackedAction τ))
    (hallowed : ∀ event ∈ Runs.history Stacked.step { serial, underlying } actions,
      CancelsNoDrain event) :
    ¬Stranded (Runs.final Stacked.step { serial, underlying } actions) ∧
    ∀ event ∈ Runs.history Stacked.step { serial, underlying } actions, ∀ task,
      event.input = .post task → event.before.underlying.state = .stopped →
        (event.before.posted task).accepted = false := by
  have hstart : Attended { serial, underlying } := by
    obtain ⟨hsound, hqueue⟩ := hcreated.sound
    have hserial := SerialOrder.Serialised.of_create h
    refine ⟨hsound, Nat.zero_le _, fun _ => ?_, hserial.covered⟩
    dsimp only
    rw [hqueue, ← hserial.scheduled]
    rfl
  have hattended : ∀ first, (∀ event ∈ Runs.history Stacked.step { serial, underlying } first,
      CancelsNoDrain event) → Attended (Runs.final Stacked.step { serial, underlying } first) :=
    fun first => Runs.run_induction (motive := fun _ => Attended) hstart
      (fun _ _ hbefore hevent => hbefore.step hevent)
  constructor
  · rintro ⟨hstopped, hrunning, htasks⟩
    have hend := hattended actions hallowed
    have hflag := hend.covered htasks
    rw [hend.unscheduled hstopped hrunning] at hflag
    cases hflag
  · intro event hevent task _ hstopped
    obtain ⟨first, rest, rfl, hbefore⟩ := Runs.history_split hevent
    rw [Runs.history_append] at hallowed
    have hearlier := hattended first (fun event hevent => hallowed event (List.mem_append_left _ hevent))
    rw [← hbefore] at hearlier
    exact hearlier.refuses hstopped task

def overManual : Stacked Nat :=
  { serial := SerialOrder.smallExecutor
    underlying := .manual { executor := { maximumPendingTasks := 4 } } }

def orderly : List (StackedAction Nat) :=
  [.post (some 1), .underlying .post, .underlying .runOne, .underlying (.stop .drain), .drain 0,
    .post (some 2), .underlying (.stop .cancelPending), .drain 0, .drain 0, .drain 0, .drain 0,
    .underlying (.thread 0), .post (some 3)]

theorem no_task_stranded_orderly :
    SerialExecutor.create true 4 = .ok SerialOrder.smallExecutor ∧ Created overManual.underlying ∧
      let s := Runs.final Stacked.step overManual orderly
      s.underlying.state = .stopped ∧ s.serial.completedTasks = 2 ∧ s.serial.state = .stopped ∧
        ¬Stranded s := by
  have hcreate : SerialExecutor.create true 4 = .ok SerialOrder.smallExecutor := rfl
  have hmanual : ManualExecutor.create 4 = .ok ({ maximumPendingTasks := 4 } : ManualExecutor Job) := rfl
  have hcreated : Created overManual.underlying := .manual hmanual
  refine ⟨hcreate, hcreated, by decide +kernel, by decide +kernel, by decide +kernel, ?_⟩
  exact (no_task_stranded hcreate hcreated orderly (by decide +kernel)).1

def overPool : Stacked Nat :=
  { serial := SerialOrder.smallExecutor
    underlying := .threadPool
      { context := { maximumPendingTasks := 4, liveWorkers := 1 }, workers := [.waiting] } }

def cancelledUnderneath : List (StackedAction Nat) :=
  [.post (some 1), .underlying (.stop .cancelPending), .underlying (.thread 0)]

/-- The first task is stranded, and a second one is accepted after the underlying executor
has stopped. -/
theorem task_stranded : (Created overManual.underlying ∧
      Stranded (Runs.final Stacked.step overManual cancelledUnderneath) ∧
      ((Runs.final Stacked.step overManual cancelledUnderneath).posted (some 2)).accepted = true) ∧
    Created overPool.underlying ∧
      Stranded (Runs.final Stacked.step overPool cancelledUnderneath) ∧
      ((Runs.final Stacked.step overPool cancelledUnderneath).posted (some 2)).accepted = true := by
  have hmanual : ManualExecutor.create 4 = .ok ({ maximumPendingTasks := 4 } : ManualExecutor Job) := rfl
  have hpool : Pool.create 1 4 none =
      .ok ({ context := { maximumPendingTasks := 4, liveWorkers := 1 }
             workers := [.waiting] } : Pool Job) := rfl
  exact ⟨⟨.manual hmanual, by unfold Stranded; decide +kernel, by decide +kernel⟩, .threadPool hpool,
    by unfold Stranded; decide +kernel, by decide +kernel⟩

end Runs

end IocpRuntime.Proofs.StrandedTasks
