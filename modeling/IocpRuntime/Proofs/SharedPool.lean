import IocpRuntime.Proofs.StrandedTasks
import IocpRuntime.Server.HttpServer

namespace IocpRuntime.Execution
open Proofs.TaskAccounts

variable {α β : Type} (f : α → β)

def TaskQueue.map (q : TaskQueue α) : TaskQueue β :=
  { q with tasks := q.tasks.map f }

def ThreadPoolContext.map (c : ThreadPoolContext α) : ThreadPoolContext β :=
  { toTaskQueue := c.toTaskQueue.map f, liveWorkers := c.liveWorkers }

def Worker.map : Worker α → Worker β
  | .waiting => .waiting
  | .executing task => .executing (f task)
  | .exited => .exited

def Pool.map (s : Pool α) : Pool β :=
  { context := s.context.map f, workers := s.workers.map (Worker.map f) }

theorem Worker.task?_map (worker : Worker α) : (worker.map f).task? = worker.task?.map f := by
  cases worker <;> rfl

theorem Worker.map_eq_exited {worker : Worker α} : worker.map f = .exited ↔ worker = .exited := by
  cases worker <;> simp [Worker.map]

theorem TaskQueue.admission_map (q : TaskQueue α) : (q.map f).admission = q.admission := by
  simp [TaskQueue.admission, TaskQueue.map]

theorem TaskQueue.popFront_map (q : TaskQueue α) :
    (q.map f).popFront = q.popFront.map (Prod.map f (TaskQueue.map f)) := by
  obtain ⟨_, tasks, _, _, _, _, _⟩ := q
  cases tasks <;> rfl

theorem TaskQueue.requestStop_map (q : TaskQueue α) (mode : StopMode) :
    (q.map f).requestStop mode = (q.requestStop mode).map f := by
  have hm : marked (q.map f) mode = (marked q mode).map f := by
    rw [marked_eq, marked_eq]
    rfl
  have hmo : ((marked q mode).map f).stopMode = (marked q mode).stopMode := rfl
  rw [requestStop_eq, requestStop_eq, hm, hmo]
  split
  · simp [TaskQueue.map]
  · rfl

theorem Pool.submit_map (s : Pool α) (task : α) :
    (s.map f).step (.submit (some (f task))) = (s.step (.submit (some task))).map f := by
  have ha : (s.map f).context.admission = s.context.admission :=
    TaskQueue.admission_map f s.context.toTaskQueue
  simp only [Pool.step, ThreadPoolContext.submit, ha]
  split
  · simp [Pool.map, ThreadPoolContext.map, TaskQueue.map, TaskQueue.pushBack]
  · rfl

theorem Pool.stop_map (s : Pool α) (mode : StopMode) :
    (s.map f).step (.stop mode) = (s.step (.stop mode)).map f := by
  have hst : (s.map f).context.toTaskQueue.requestStop mode =
      (s.context.toTaskQueue.requestStop mode).map f :=
    TaskQueue.requestStop_map f s.context.toTaskQueue mode
  have hs : (s.map f).context.state = s.context.state := rfl
  have hl : (s.map f).context.liveWorkers = s.context.liveWorkers := rfl
  simp only [Pool.step, ThreadPoolContext.stop, hst, hs, hl]
  split
  · rfl
  · split <;> rfl

theorem ThreadPoolContext.workerExit_map (c : ThreadPoolContext α) :
    (c.map f).workerExit = c.workerExit.map f := by
  have hli : (c.map f).liveWorkers = c.liveWorkers := rfl
  simp only [ThreadPoolContext.workerExit, hli]
  by_cases hl : c.liveWorkers - 1 = 0
  · simp only [if_pos hl]
    rfl
  · simp only [if_neg hl]
    rfl

theorem ThreadPoolContext.workerMain_map (c : ThreadPoolContext α) :
    (c.map f).workerMain = (c.workerMain.1.map f, c.workerMain.2.map f) := by
  have hpop : (c.map f).popFront = c.popFront.map (Prod.map f (TaskQueue.map f)) :=
    TaskQueue.popFront_map f c.toTaskQueue
  have hs : (c.map f).state = c.state := rfl
  have hm : (c.map f).stopMode = c.stopMode := rfl
  simp only [ThreadPoolContext.workerMain, hpop, hs, hm]
  by_cases ho : c.state = .running ∨ c.stopMode = .drain
  · simp only [if_pos ho]
    cases c.popFront with
    | some taken => rfl
    | none =>
      simp only [Option.map, ThreadPoolContext.workerExit_map]
      split <;> rfl
  · simp only [if_neg ho, ThreadPoolContext.workerExit_map]
    split <;> rfl

theorem Pool.workerStep_map (s : Pool α) (index : Nat) :
    (s.map f).workerStep index = (s.workerStep index).map f := by
  have hwo : (s.map f).workers[index]? = s.workers[index]?.map (Worker.map f) :=
    List.getElem?_map
  have hm : (s.map f).context.workerMain =
      (s.context.workerMain.1.map f, s.context.workerMain.2.map f) :=
    ThreadPoolContext.workerMain_map f s.context
  simp only [Pool.workerStep, hwo]
  cases s.workers[index]? with
  | none => rfl
  | some worker =>
    cases worker with
    | waiting =>
      dsimp only [Option.map, Worker.map]
      rw [hm]
      simp only [Pool.map, List.map_set]
    | executing task =>
      simp [Option.map, Worker.map, Pool.map, ThreadPoolContext.workerDone, ThreadPoolContext.map,
        TaskQueue.complete, TaskQueue.map]
    | exited => rfl

theorem Pool.create_map {failure : Option Buffer.Thrown} (h : Pool.create workerCount maximumPendingTasks failure = .ok pool) :
    Pool.create workerCount maximumPendingTasks failure = .ok (pool.map f) := by
  have hs : Function.Semiconj (Pool.map f) Pool.startWorker Pool.startWorker := by
    intro s
    simp [Pool.map, Pool.startWorker, ThreadPoolContext.map, TaskQueue.map, Worker.map]
  unfold Pool.create at h ⊢
  split
  · rename_i hn
    rw [if_pos hn] at h
    cases h
  · rename_i hwo
    rw [if_neg hwo] at h
    split
    · rename_i hn
      rw [if_pos hn] at h
      cases h
    · rename_i hl
      rw [if_neg hl] at h
      cases failure with
      | some exception => cases h
      | none =>
        cases h
        have hm := hs.iterate_right workerCount { context := { maximumPendingTasks } }
        exact congrArg Except.ok hm.symm

end IocpRuntime.Execution

namespace IocpRuntime.Proofs.SharedPool
open Execution Server StrandedTasks TaskAccounts

variable {τ : Type}

/-- A serial executor that nobody stops: its tasks wait for a call of `Drain`, or there are
none. -/
structure Attentive (v : Stacked τ) : Prop where
  attended : Attended v
  halted : v.serial.state ≠ .running → v.serial.tasks = []

theorem Attentive.post (h : Attentive v) : Attentive (v.step (.post task)) := by
  refine ⟨h.attended.post, ?_⟩
  cases task with
  | none => exact h.halted
  | some task =>
    have hp := SerialOrder.post_posts v.serial task (.answers v.underlying.admission)
    change SerialOrder.Posts v.serial task (v.posted (some task)) at hp
    change (v.posted (some task)).executor.state ≠ .running →
      (v.posted (some task)).executor.tasks = []
    generalize v.posted (some task) = posted at hp
    cases hp with
    | refused he =>
      rw [he]
      exact h.halted
    | joined ha => exact fun hs => absurd (admission_accepted ha).1 hs
    | submitted ha => exact fun hs => absurd (admission_accepted ha).1 hs
    | stopped _ hf =>
      intro _
      by_contra hso
      rw [h.attended.covered hso] at hf
      cases hf

theorem settle_halted {q : TaskQueue τ} (h : q.state ≠ .running → q.tasks = [])
    (hs : q.moveToStoppedIfDrainedLocked.state ≠ .running) :
    q.moveToStoppedIfDrainedLocked.tasks = [] := by
  unfold TaskQueue.moveToStoppedIfDrainedLocked at hs ⊢
  split
  · rename_i hd
    exact hd.2.1
  · rename_i ho
    rw [if_neg ho] at hs
    exact h hs

theorem Attentive.drain (h : Attentive v) : Attentive (v.step (.drain call)) := by
  refine ⟨h.attended.drain, ?_⟩
  simp only [Stacked.step, Stacked.drainStep]
  cases v.drains[call]? with
  | none => exact h.halted
  | some executing =>
    cases executing with
    | some task =>
      have hk : v.serial.complete.state ≠ .running → v.serial.complete.tasks = [] := h.halted
      exact settle_halted hk
    | none =>
      dsimp only
      rcases SerialOrder.drain_cases v.serial with ⟨ht, hd⟩ | ⟨task, next, hpop, hd⟩
      · rw [hd]
        exact settle_halted h.halted
      · rw [hd]
        obtain ⟨ht, hn⟩ := popFront_some hpop
        intro hs
        have hb : v.serial.state ≠ .running := by
          intro hr
          apply hs
          dsimp only
          rw [hn]
          exact hr
        rw [h.halted hb] at ht
        cases ht

theorem Attentive.underlying (h : Attentive v) (ha : CancelsNoDrain ⟨v, .underlying action⟩) :
    Attentive (v.step (.underlying action)) := by
  refine ⟨h.attended.underlying ha, ?_⟩
  simp only [Stacked.step]
  split
  · exact h.halted
  · exact h.halted

/-- Over a pool that has stopped there is no task left, and none is accepted. -/
theorem Attentive.finished (h : Attentive v) (hs : v.underlying.state = .stopped) :
    v.serial.tasks = [] ∧ v.drains = [] ∧ ∀ task, (v.posted task).accepted = false := by
  refine ⟨?_, ?_, h.attended.refuses hs⟩
  · by_cases hr : v.serial.state = .running
    · by_contra hso
      have hf := h.attended.covered hso
      rw [h.attended.unscheduled hs hr] at hf
      cases hf
    · exact h.halted hr
  · have hn := h.attended.running
    rw [(h.attended.sound.stopped hs).2, List.count_nil] at hn
    exact List.length_eq_zero_iff.mp (Nat.le_zero.mp hn)

theorem Attentive.start {underlying : UnderlyingExecutor} (h : Created underlying) :
    Attentive ({ serial := { maximumPendingTasks }, underlying } : Stacked τ) := by
  obtain ⟨hs, hq⟩ := h.sound
  refine ⟨⟨hs, Nat.zero_le _, fun _ => ?_, fun hso => absurd rfl hso⟩, fun _ => rfl⟩
  dsimp only
  rw [hq]
  rfl

def asJob (index : Nat) (job : AppJob τ) : Job := if job.drains index then .drain else .other

theorem asJob_drain :
    asJob index (.drain other : AppJob τ) = if other = index then .drain else .other := by
  simp [asJob, AppJob.drains]

def serialOf (s : Serving τ) (index : Nat) : SerialExecutor τ :=
  match s.connections[index]? with
  | some served => served.serial
  | none => { maximumPendingTasks := s.options.maximumConnectionTasks.toNat }

def view (s : Serving τ) (index : Nat) : Stacked τ where
  serial := serialOf s index
  underlying := .threadPool (s.pool.map (asJob index))
  drains := s.drainsOf index

variable {s next : Serving τ}

theorem running_view :
    (view s index).underlying.running = (s.pool.workers.filterMap Worker.task?).map (asJob index) := by
  simp only [view, UnderlyingExecutor.running, Pool.map, List.filterMap_map, List.map_filterMap]
  congr 1
  funext worker
  exact Worker.task?_map _ worker

theorem taken_view : (view s index).underlying.running.count .drain = s.taken index := by
  rw [running_view, List.count, List.countP_map, Serving.taken]
  congr 1
  funext job
  cases hd : job.drains index <;> simp [asJob, hd]

theorem ends_view :
    (view s index).underlying.ends (.thread worker) = (s.ends worker).map (asJob index) := by
  simp only [view, UnderlyingExecutor.ends, Pool.map, List.getElem?_map, Serving.ends]
  cases s.pool.workers[worker]? with
  | none => rfl
  | some place => exact Worker.task?_map _ place

theorem takes_view :
    (view s index).underlying.takes (.thread worker) = (s.takes worker).map (asJob index) := by
  have hm : (s.pool.map (asJob index)).context.workerMain.1.task? =
      s.pool.context.workerMain.1.task?.map (asJob index) := by
    rw [Pool.map, ThreadPoolContext.workerMain_map]
    exact Worker.task?_map _ _
  simp only [view, UnderlyingExecutor.takes, Serving.takes]
  rw [hm, Pool.map, List.getElem?_map]
  cases s.pool.workers[worker]? with
  | none => rfl
  | some place => cases place <;> rfl

theorem view_underlying (hs : serialOf next index = serialOf s index)
    (hd : next.drainsOf index = s.drainsOf index)
    (hp : .threadPool (next.pool.map (asJob index)) = (view s index).underlying.step action)
    (he : (view s index).underlying.ends action ≠ some .drain)
    (ht : (view s index).underlying.takes action ≠ some .drain) :
    view next index = (view s index).step (.underlying action) := by
  have hr : (view s index).returned action = true := by
    simp [Stacked.returned, he]
  rw [Stacked.step, if_pos hr, if_neg ht, List.append_nil, ← hp]
  simp only [view, hs, hd]

theorem view_same (hs : serialOf next index = serialOf s index)
    (hd : next.drainsOf index = s.drainsOf index) (hp : next.pool = s.pool) :
    view next index = view s index := by
  simp only [view, hs, hd, hp]

theorem view_stop :
    view { s with pool := s.pool.step (.stop mode) } index =
      (view s index).step (.underlying (.stop mode)) := by
  refine view_underlying rfl rfl ?_ nofun nofun
  exact congrArg UnderlyingExecutor.threadPool (Pool.stop_map _ s.pool mode).symm

theorem view_submit (hjob : job.drains index = false) :
    view (s.submit job) index = (view s index).step (.underlying .post) := by
  have ho : asJob index job = .other := by simp [asJob, hjob]
  refine view_underlying rfl rfl ?_ nofun nofun
  have hs := Pool.submit_map (asJob index) s.pool job
  rw [ho] at hs
  exact congrArg UnderlyingExecutor.threadPool hs.symm

theorem serialOf_set : serialOf (s.setServed place served) index =
      if place = index ∧ index < s.connections.length then served.serial else serialOf s index := by
  simp only [serialOf, Serving.setServed, List.getElem?_set]
  by_cases hp : place = index
  · subst hp
    by_cases hl : place < s.connections.length
    · simp [hl]
    · simp [hl]
  · simp [hp]

theorem drainsOf_set : (s.setServed place served).drainsOf index =
      if place = index ∧ index < s.connections.length then served.drains else s.drainsOf index := by
  simp only [Serving.drainsOf, Serving.setServed, List.getElem?_set]
  by_cases hp : place = index
  · subst hp
    by_cases hl : place < s.connections.length
    · simp [hl]
    · simp [hl]
  · simp [hp]

theorem view_set_other (hp : place ≠ index) (served : Served τ) :
    view (s.setServed place served) index = view s index := by
  refine view_same ?_ ?_ rfl
  · rw [serialOf_set, if_neg (fun h => hp h.1)]
  · rw [drainsOf_set, if_neg (fun h => hp h.1)]

theorem serialOf_some (h : s.connections[index]? = some served) :
    serialOf s index = served.serial := by
  simp only [serialOf, h]

theorem drainsOf_some (h : s.connections[index]? = some served) :
    s.drainsOf index = served.drains := by
  simp only [Serving.drainsOf, h]

theorem view_set_self (hold : s.connections[index]? = some old) (served : Served τ) :
    view (s.setServed index served) index =
      { view s index with serial := served.serial, drains := served.drains } := by
  have hl := (List.getElem?_eq_some_iff.mp hold).1
  have hs : serialOf (s.setServed index served) index = served.serial := by
    rw [serialOf_set, if_pos ⟨rfl, hl⟩]
  have hd : (s.setServed index served).drainsOf index = served.drains := by
    rw [drainsOf_set, if_pos ⟨rfl, hl⟩]
  simp only [view, hs, hd]
  rfl

/-- The sections of a connection do not concern its executor. -/
theorem view_connectionStep : view (s.connectionStep place action) index = view s index := by
  unfold Serving.connectionStep
  split
  · rfl
  · rename_i served hs
    change view (s.setServed place { served with running := served.running.step action }) index = _
    by_cases hp : place = index
    · subst hp
      rw [view_set_self hs]
      simp only [view, serialOf_some hs, drainsOf_some hs]
    · exact view_set_other hp _

theorem posted_view (h : s.connections[index]? = some served) :
    (view s index).posted task = s.posted served task := by
  have ha : (view s index).underlying.admission = s.pool.context.admission :=
    TaskQueue.admission_map _ s.pool.context.toTaskQueue
  rw [Stacked.posted, ha, Serving.posted, ← serialOf_some h]
  rfl

theorem view_postSerial_self (h : s.connections[index]? = some served) :
    view (s.postSerial index task) index = (view s index).step (.post task) := by
  have hset := view_set_self h { served with serial := (s.posted served task).executor }
  have hd : served.drains = (view s index).drains := (drainsOf_some h).symm
  simp only [Serving.postSerial, h, Stacked.step, posted_view h]
  split
  · have hs := Pool.submit_map (asJob index) s.pool (.drain index)
    rw [asJob_drain, if_pos rfl] at hs
    calc view ((s.setServed index { served with serial := (s.posted served task).executor }).submit
          (.drain index)) index
        = { view (s.setServed index
              { served with serial := (s.posted served task).executor }) index with
            underlying := .threadPool ((s.pool.step (.submit (some (.drain index)))).map (asJob index)) } :=
          rfl
      _ = _ := by
          rw [hset, ← hs, hd]
          rfl
  · rw [hset, hd]

theorem view_postSerial_other (hp : place ≠ index) :
    view (s.postSerial place task) index = view s index ∨
      view (s.postSerial place task) index = (view s index).step (.underlying .post) := by
  unfold Serving.postSerial
  split
  · exact .inl rfl
  · rename_i served hs
    have hset := view_set_other (s := s) hp
    dsimp only
    split
    · refine .inr ?_
      rw [view_submit (by simp [AppJob.drains, hp]), hset]
    · exact .inl (hset _)

theorem view_drainStep_self (h : s.connections[index]? = some served) :
    view (s.drainStep index call) index = (view s index).step (.drain call) := by
  have hs : (view s index).serial = served.serial := serialOf_some h
  have hd : (view s index).drains = served.drains := drainsOf_some h
  simp only [Serving.drainStep, h, view_set_self h, Stacked.step, Stacked.drainStep,
    Served.drainStep, hs, hd]
  cases served.drains[call]? with
  | none =>
    dsimp only
    rw [← hs, ← hd]
  | some executing =>
    cases executing with
    | some task => rfl
    | none =>
      dsimp only
      cases served.serial.drain with
      | mk taken serial => cases taken <;> rfl

theorem view_drainStep_other (hp : place ≠ index) :
    view (s.drainStep place call) index = view s index := by
  unfold Serving.drainStep
  split
  · rfl
  · exact view_set_other hp _

theorem asJob_eq_drain : asJob index job = .drain ↔ job = .drain index := by
  cases job with
  | drain place => simp [asJob_drain]
  | task posted => simp [asJob, AppJob.drains]

/-- A connection that is not there yet has no call of `Drain` in the pool. -/
theorem queue_unborn (h : Attended (view s index)) (hn : s.connections[index]? = none) :
    (view s index).underlying.queue.count .drain = 0 := by
  have hse : (view s index).serial =
      { maximumPendingTasks := s.options.maximumConnectionTasks.toNat } := by
    simp only [view, serialOf, hn]
  have hs := h.scheduled (by rw [hse])
  rw [hse, Bool.toNat_false] at hs
  exact Nat.eq_zero_of_add_eq_zero_right hs

/-- A call of `Drain` that a worker takes belongs to a connection that is there. -/
theorem takes_born (h : Attended (view s index))
    (ht : s.takes worker = some (.drain index)) : ∃ served, s.connections[index]? = some served := by
  cases hs : s.connections[index]? with
  | some served => exact ⟨served, rfl⟩
  | none =>
    -- the job would have to come from the queue, where it is not
    have hc : Counts (view s index).underlying _
        ((view s index).underlying.takes (.thread worker)) _ 0 :=
      worker_counts
    have hq := hc.queue
    rw [takes_view, ht, Option.map_some, asJob_drain, if_pos rfl, queue_unborn h hs] at hq
    have hone : drainCount (some .drain) = 1 := rfl
    omega

theorem returned_view (h : s.returned worker = true) :
    (view s index).returned (.thread worker) = true := by
  simp only [Stacked.returned, Bool.or_eq_true, decide_eq_true_eq, ends_view, taken_view]
  by_cases he : s.ends worker = some (.drain index)
  · rw [Serving.returned, he] at h
    exact .inr (of_decide_eq_true h)
  · refine .inl (fun hd => he ?_)
    obtain ⟨job, hjob, hs⟩ := Option.map_eq_some_iff.mp hd
    rw [hjob, asJob_eq_drain.mp hs]

theorem view_beginDrain_self (h : s.connections[index]? = some served) :
    view (s.beginDrain index) index =
      { view s index with drains := (view s index).drains ++ [none] } := by
  have hs : (view s index).serial = served.serial := serialOf_some h
  have hd : (view s index).drains = served.drains := drainsOf_some h
  simp only [Serving.beginDrain, h, view_set_self h, ← hs, hd]

theorem view_beginDrain_other (hp : place ≠ index) :
    view (s.beginDrain place) index = view s index := by
  unfold Serving.beginDrain
  split
  · rfl
  · exact view_set_other hp _

theorem view_workerStep (h : Attended (view s index)) :
    view (s.workerStep worker) index = view s index ∨
      view (s.workerStep worker) index = (view s index).step (.underlying (.thread worker)) := by
  unfold Serving.workerStep
  split
  · rename_i hr
    have hpo : .threadPool ((s.pool.step (.worker worker)).map (asJob index)) =
        (view s index).underlying.step (.thread worker) :=
      congrArg UnderlyingExecutor.threadPool (Pool.workerStep_map _ s.pool worker).symm
    have hp : view { s with pool := s.pool.step (.worker worker) } index =
        { view s index with underlying := (view s index).underlying.step (.thread worker) } := by
      rw [← hpo]
      rfl
    refine .inr ?_
    rw [Stacked.step, if_pos (returned_view hr), takes_view]
    by_cases ht : s.takes worker = some (.drain index)
    · obtain ⟨served, hs⟩ := takes_born h ht
      have hb := view_beginDrain_self (s := { s with pool := s.pool.step (.worker worker) }) hs
      simp only [ht, Option.map_some, asJob_drain, if_true]
      rw [hb, hp]
    · have hn : (s.takes worker).map (asJob index) ≠ some .drain := by
        intro hd
        obtain ⟨job, hjob, hsa⟩ := Option.map_eq_some_iff.mp hd
        rw [hjob, asJob_eq_drain.mp hsa] at ht
        exact ht rfl
      rw [if_neg hn, List.append_nil]
      dsimp only
      split
      · rename_i place hpl
        have hne : place ≠ index := by
          rintro rfl
          exact ht hpl
        rw [view_beginDrain_other hne, hp]
      · exact hp
  · exact .inl rfl

structure Finished (pool : Pool (AppJob τ)) : Prop where
  stopped : pool.context.state = .stopped
  tasks : pool.context.tasks = []
  runningTasks : pool.context.runningTasks = 0
  exited : PoolTasks.AllExited pool

theorem finished_of_stopped (h : Attended (view s index)) (hs : s.pool.context.state = .stopped) :
    Finished s.pool := by
  obtain ⟨hq, hr⟩ := h.sound.stopped hs
  obtain ⟨_, _, hc⟩ := h.sound
  obtain ⟨l, -, -, he, hb⟩ := hc.booked
  refine ⟨hs, List.map_eq_nil_iff.mp hq, ?_, ?_⟩
  · have hco := hb.running
    have hn : PoolTasks.executing (s.pool.map (asJob index)) = [] := hr
    rw [he, hn] at hco
    exact hco
  · have hexi := PoolTasks.all_exited (hc.live.symm.trans (hc.lastExit.mp hs))
    intro worker hwo
    exact (Worker.map_eq_exited _).mp (hexi _ (List.mem_map_of_mem hwo))

/-- Nothing happens to it any more. -/
theorem Finished.stays (h : Finished pool) (action : PoolAction (AppJob τ)) :
    pool.step action = pool := by
  cases action with
  | submit task =>
    cases task with
    | none => rfl
    | some task =>
      have hr : pool.context.admission ≠ .accepted := by
        rw [admission_stopped (by simp [h.stopped])]
        exact nofun
      simp only [Pool.step, ThreadPoolContext.submit, if_neg hr]
  | stop mode => simp only [Pool.step, ThreadPoolContext.stop, if_pos h.stopped]
  | worker index => exact h.exited.workerStep

end IocpRuntime.Proofs.SharedPool
