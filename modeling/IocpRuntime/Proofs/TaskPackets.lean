import Mathlib.Algebra.Order.Group.Multiset
import IocpRuntime.Execution.IocpExecutor
import IocpRuntime.Lib.Runs
import IocpRuntime.Lib.Slots

namespace IocpRuntime.Proofs.TaskPackets
open Lib Execution

variable {τ : Type}

abbrev IocpEvent (τ : Type) := Runs.Event (IocpThreads τ) (IocpAction τ)

/-- The task of a `Post` whose packet is taken by the port: it returns `Accepted`. -/
def acceptedTask (event : IocpEvent τ) : List τ :=
  match event.input with
  | .postTask index =>
    match event.before.posts[index]? with
    | some (.admitted task) => if event.before.context.stopping then [] else [task]
    | _ => []
  | _ => []

def heldTask : IoWorker τ → Option τ
  | .dequeued task => some task
  | _ => none

def executedTask : IoWorker τ → Option τ
  | .executing task => some task
  | _ => none

def openedTask (event : IocpEvent τ) : List τ :=
  match event.input with
  | .worker index => (event.before.workers[index]?.bind heldTask).toList
  | _ => []

def startedTask (event : IocpEvent τ) : List τ :=
  if event.before.executor.cancelling then [] else openedTask event

def cancelledTask (event : IocpEvent τ) : List τ :=
  if event.before.executor.cancelling then openedTask event else []

def waiting (s : IocpThreads τ) : List τ :=
  s.context.port.filterMap Packet.task? ++ s.workers.filterMap heldTask

def executing (s : IocpThreads τ) : List τ := s.workers.filterMap executedTask

section Counters

variable {e : IocpExecutor} {maximum posts count running : Nat}

/-- The counters of an executor with calls of `Post` in progress, tasks that wait and tasks
that run. -/
structure Counters (e : IocpExecutor) (maximum posts count running : Nat) : Prop where
  limit : e.maximumPendingTasks = maximum
  pending : e.pendingTasks = posts + count
  running : e.runningTasks = running
  bounded : e.pendingTasks ≤ maximum
  settled : e.state = .stopped → e.pendingTasks = 0 ∧ e.runningTasks = 0

theorem Counters.settle (h : Counters e maximum posts count running) :
    Counters e.moveToStoppedIfDrainedLocked maximum posts count running := by
  unfold IocpExecutor.moveToStoppedIfDrainedLocked
  split
  · rename_i hd
    exact ⟨h.limit, h.pending, h.running, h.bounded, fun _ => hd.2⟩
  · exact h

theorem settle_counts :
    e.moveToStoppedIfDrainedLocked.runningTasks = e.runningTasks ∧
      e.moveToStoppedIfDrainedLocked.completedTasks = e.completedTasks ∧
      e.moveToStoppedIfDrainedLocked.cancelledTasks = e.cancelledTasks ∧
      e.moveToStoppedIfDrainedLocked.stopMode = e.stopMode := by
  unfold IocpExecutor.moveToStoppedIfDrainedLocked
  split <;> exact ⟨rfl, rfl, rfl, rfl⟩

theorem rollBack_counts :
    e.rollBackSubmission.runningTasks = e.runningTasks ∧
      e.rollBackSubmission.completedTasks = e.completedTasks ∧
      e.rollBackSubmission.cancelledTasks = e.cancelledTasks ∧
      e.rollBackSubmission.stopMode = e.stopMode := by
  unfold IocpExecutor.rollBackSubmission
  dsimp only
  split <;> exact settle_counts

theorem stop_counts :
    (e.stop mode).runningTasks = e.runningTasks ∧ (e.stop mode).completedTasks = e.completedTasks ∧
      (e.stop mode).cancelledTasks = e.cancelledTasks ∧
      ((e.stop mode).stopMode = e.stopMode ∨ (e.stop mode).stopMode = mode) := by
  unfold IocpExecutor.stop
  split
  · exact ⟨rfl, rfl, rfl, .inl rfl⟩
  · dsimp only
    split
    · obtain ⟨h1, h2, h3, h4⟩ := settle_counts
      exact ⟨h1, h2, h3, .inr h4⟩
    · split
      · rename_i hm
        obtain ⟨h1, h2, h3, h4⟩ := settle_counts
        exact ⟨h1, h2, h3, .inr (h4.trans hm.symm)⟩
      · obtain ⟨h1, h2, h3, h4⟩ := settle_counts
        exact ⟨h1, h2, h3, .inl h4⟩

theorem Counters.admitted (h : Counters e maximum posts count running)
    (ha : e.admission = .accepted) :
    Counters e.admitted maximum (posts + 1) count running := by
  obtain ⟨hl, hp, hr, hb, -⟩ := h
  unfold IocpExecutor.admission at ha
  split at ha
  · cases ha
  · rename_i hs
    split at ha
    · cases ha
    · rename_i hro
      rw [not_not] at hs
      simp only [IocpExecutor.admitted]
      refine ⟨hl, ?_, hr, ?_, fun hst => ?_⟩
      · dsimp only
        omega
      · dsimp only
        omega
      · simp [hs] at hst

theorem Counters.posted (h : Counters e maximum (posts + 1) count running) :
    Counters e maximum posts (count + 1) running :=
  ⟨h.limit, by have := h.pending; omega, h.running, h.bounded, h.settled⟩

theorem Counters.rollBack (h : Counters e maximum (posts + 1) count running) :
    Counters e.rollBackSubmission maximum posts count running := by
  obtain ⟨hl, hp, hr, hb, hs⟩ := h
  unfold IocpExecutor.rollBackSubmission
  apply Counters.settle
  dsimp only
  split
  · exact ⟨hl, by dsimp only; omega, hr, by dsimp only; omega, nofun⟩
  · refine ⟨hl, by dsimp only; omega, hr, by dsimp only; omega, fun hst => ?_⟩
    have hz := hs hst
    dsimp only
    omega

theorem Counters.stop (h : Counters e maximum posts count running) :
    Counters (e.stop mode) maximum posts count running := by
  unfold IocpExecutor.stop
  split
  · exact h
  · apply Counters.settle
    split
    · exact ⟨h.limit, h.pending, h.running, h.bounded, nofun⟩
    · split
      · exact ⟨h.limit, h.pending, h.running, h.bounded, h.settled⟩
      · exact h

/-- A packet is opened: its task is cancelled or begins to run. -/
theorem Counters.opened (h : Counters e maximum posts (count + 1) running) :
    Counters e.executePacket maximum posts count
      (if e.cancelling then running else running + 1) := by
  obtain ⟨hl, hp, hr, hb, hs⟩ := h
  have hli : e.state ≠ .stopped := by
    intro hst
    have hz := (hs hst).1
    omega
  have hsa : IocpExecutor.cancelling { e with pendingTasks := e.pendingTasks - 1 } = e.cancelling :=
    rfl
  unfold IocpExecutor.executePacket
  dsimp only
  rw [hsa]
  cases e.cancelling with
  | true =>
    simp only [if_true]
    exact ⟨hl, by dsimp only; omega, hr, by dsimp only; omega, fun h => absurd h hli⟩
  | false =>
    simp only [Bool.false_eq_true, if_false]
    exact ⟨hl, by dsimp only; omega, by dsimp only; omega, by dsimp only; omega,
      fun h => absurd h hli⟩

theorem Counters.closed (h : Counters e maximum posts count (running + 1)) :
    Counters (e.packetDone false) maximum posts count running := by
  obtain ⟨hl, hp, hr, hb, hs⟩ := h
  unfold IocpExecutor.packetDone
  apply Counters.settle
  simp only [Bool.false_eq_true, if_false]
  refine ⟨hl, hp, by dsimp only; omega, hb, fun hst => ?_⟩
  have hz := hs hst
  omega

end Counters

section Port

/-- No task follows a stop packet in the port, and none is left once a worker has exited. -/
structure PortOrder (c : IoContext τ) (workers : List (IoWorker τ)) : Prop where
  ordered : c.port.Pairwise (fun first later => first = .stop → later.task? = none)
  opened : c.stopping = false → .stop ∉ c.port ∧ .exited ∉ workers
  left : .exited ∈ workers → c.port.filterMap Packet.task? = []
  size : workers.length = c.workerCount
  nonempty : 0 < c.workerCount

variable {c : IoContext τ}

theorem postTask_open (ho : c.stopping = false) :
    c.postTask task = (true, { c with port := c.port ++ [.task task] }) := by
  rw [IoContext.postTask, ho, if_neg Bool.false_ne_true]

theorem PortOrder.postTask (h : PortOrder c workers) (ho : c.stopping = false) :
    PortOrder { c with port := c.port ++ [.task task] } workers := by
  obtain ⟨hs, he⟩ := h.opened ho
  refine ⟨?_, fun _ => ⟨by simpa using hs, he⟩, fun h => absurd h he, h.size, h.nonempty⟩
  rw [List.pairwise_append]
  refine ⟨h.ordered, List.pairwise_singleton _ _, fun packet hp later _ heq => ?_⟩
  exact absurd (heq ▸ hp) hs

theorem PortOrder.native (h : PortOrder c workers) :
    PortOrder { c with port := c.port ++ [.native] } workers := by
  refine ⟨?_, fun ho => ?_, fun hle => ?_, h.size, h.nonempty⟩
  · rw [List.pairwise_append]
    refine ⟨h.ordered, List.pairwise_singleton _ _, fun packet _ later hl _ => ?_⟩
    rw [List.mem_singleton.mp hl]
    rfl
  · obtain ⟨hs, he⟩ := h.opened ho
    exact ⟨by simpa using hs, he⟩
  · have hn := h.left hle
    simp only [List.filterMap_append, hn]
    rfl

theorem replicate_stop_tasks :
    (List.replicate count (Packet.stop : Packet τ)).filterMap Packet.task? = [] :=
  List.filterMap_replicate_of_none rfl

theorem PortOrder.stop (h : PortOrder c workers) : PortOrder c.stop workers := by
  unfold IoContext.stop
  split
  · exact h
  · refine ⟨?_, nofun, fun hle => ?_, h.size, h.nonempty⟩
    · rw [List.pairwise_append]
      refine ⟨h.ordered, ?_, fun packet _ later hl _ => ?_⟩
      · exact List.pairwise_replicate.mpr (.inr (fun _ => rfl))
      · rw [List.eq_of_mem_replicate hl]
        rfl
    · rw [List.filterMap_append, h.left hle, replicate_stop_tasks]
      rfl

theorem PortOrder.moves (h : PortOrder c workers)
    (hwo : worker ≠ .exited) : PortOrder c (workers.set index worker) := by
  have he : .exited ∈ workers.set index worker → .exited ∈ workers := by
    intro hm
    rcases List.mem_or_eq_of_mem_set hm with hb | hs
    · exact hb
    · exact absurd hs.symm hwo
  refine ⟨h.ordered, fun ho => ?_, fun hl => h.left (he hl), ?_, h.nonempty⟩
  · exact ⟨(h.opened ho).1, mt he (h.opened ho).2⟩
  · rw [List.length_set]
    exact h.size

theorem PortOrder.pop (h : PortOrder c workers)
    (hp : c.port = packet :: rest) : PortOrder { c with port := rest } workers := by
  have ho := h.ordered
  rw [hp, List.pairwise_cons] at ho
  refine ⟨ho.2, fun hop => ?_, fun hle => ?_, h.size, h.nonempty⟩
  · obtain ⟨hs, he⟩ := h.opened hop
    rw [hp, List.mem_cons, not_or] at hs
    exact ⟨hs.2, he⟩
  · have hn := h.left hle
    rw [hp, List.filterMap_eq_nil_iff] at hn
    rw [List.filterMap_eq_nil_iff]
    exact fun later hl => hn later (List.mem_cons_of_mem _ hl)

/-- The first worker that leaves finds no task behind its stop packet. -/
theorem PortOrder.exits (h : PortOrder c workers) (hp : c.port = .stop :: rest) :
    PortOrder { c with port := rest } (workers.set index .exited) := by
  have hpop := h.pop hp
  have ho := h.ordered
  rw [hp, List.pairwise_cons] at ho
  refine ⟨hpop.ordered, fun hop => ?_, fun _ => ?_, ?_, h.nonempty⟩
  · have hs := (h.opened hop).1
    rw [hp] at hs
    exact absurd List.mem_cons_self hs
  · rw [List.filterMap_eq_nil_iff]
    exact fun later hl => ho.1 later hl rfl
  · rw [List.length_set]
    exact h.size

end Port

section Journal

variable {before after : List τ}

def Requested (log : List (IocpEvent τ)) : Prop := ∃ event ∈ log, event.input = .stop .cancelPending

/-- The events of a run against the tasks that wait and the counters. -/
structure Journal (e : IocpExecutor) (log : List (IocpEvent τ)) (waiting : List τ) : Prop where
  whole : (log.flatMap acceptedTask).Perm
    (waiting ++ log.flatMap startedTask ++ log.flatMap cancelledTask)
  started : (log.flatMap startedTask).length = e.runningTasks + e.completedTasks
  cancelled : (log.flatMap cancelledTask).length = e.cancelledTasks
  mode : e.stopMode = .cancelPending → Requested log
  requested : e.cancelledTasks ≠ 0 → Requested log

structure Adds (e next : IocpExecutor) (event : IocpEvent τ) (before after : List τ) : Prop where
  whole : (before ++ acceptedTask event).Perm (after ++ startedTask event ++ cancelledTask event)
  started : next.runningTasks + next.completedTasks =
    e.runningTasks + e.completedTasks + (startedTask event).length
  cancelled : next.cancelledTasks = e.cancelledTasks + (cancelledTask event).length
  mode : next.stopMode = .cancelPending →
    e.stopMode = .cancelPending ∨ event.input = .stop .cancelPending
  requested : cancelledTask event ≠ [] → e.stopMode = .cancelPending

theorem Requested.later (h : Requested log) : Requested (log ++ [event]) := by
  obtain ⟨earlier, he, hi⟩ := h
  exact ⟨earlier, List.mem_append_left _ he, hi⟩

theorem Journal.extend (h : Journal e log before)
    (ha : Adds e next event before after) : Journal next (log ++ [event]) after where
  whole := by
    have hlog := h.whole
    have he := ha.whole
    simp only [← Multiset.coe_eq_coe, ← Multiset.coe_add, List.flatMap_append,
      List.flatMap_singleton] at hlog he ⊢
    rw [hlog]
    generalize (log.flatMap startedTask : Multiset τ) = started
    generalize (log.flatMap cancelledTask : Multiset τ) = cancelled
    calc (before : Multiset τ) + started + cancelled + acceptedTask event
        = before + acceptedTask event + (started + cancelled) := by ac_rfl
      _ = after + startedTask event + cancelledTask event + (started + cancelled) := by rw [he]
      _ = after + (started + startedTask event) + (cancelled + cancelledTask event) := by ac_rfl
  started := by
    simp [h.started, ha.started]
  cancelled := by
    simp [h.cancelled, ha.cancelled]
  mode := by
    intro hm
    rcases ha.mode hm with hb | he
    · exact (h.mode hb).later
    · exact ⟨event, List.mem_append_right _ (List.mem_singleton.mpr rfl), he⟩
  requested := by
    intro hs
    by_cases hn : cancelledTask event = []
    · apply Requested.later
      apply h.requested
      simpa [ha.cancelled, hn] using hs
    · exact (h.mode (ha.requested hn)).later

theorem nothing_opened (h : openedTask event = []) :
    startedTask event = [] ∧ cancelledTask event = [] := by
  simp only [startedTask, cancelledTask, h, ite_self, and_self]

theorem Adds.still (hwa : before.Perm after)
    (ha : acceptedTask event = []) (ho : openedTask event = [])
    (hs : next.runningTasks + next.completedTasks = e.runningTasks + e.completedTasks)
    (hc : next.cancelledTasks = e.cancelledTasks)
    (hm : next.stopMode = .cancelPending →
      e.stopMode = .cancelPending ∨ event.input = .stop .cancelPending) :
    Adds e next event before after := by
  obtain ⟨h1, h2⟩ := nothing_opened ho
  refine ⟨?_, ?_, ?_, hm, fun hso => absurd h2 hso⟩
  · simpa [ha, h1, h2] using hwa
  · simpa [h1] using hs
  · simpa [h2] using hc

end Journal

section Steps

variable {log : List (IocpEvent τ)} {s : IocpThreads τ}

structure Delivering (maximum : Nat) (log : List (IocpEvent τ)) (s : IocpThreads τ) : Prop where
  counters : Counters s.executor maximum s.posts.length (waiting s).length (executing s).length
  journal : Journal s.executor log (waiting s)
  port : PortOrder s.context s.workers

theorem Delivering.quiet (h : Delivering maximum log event.before)
    (ha : acceptedTask event = []) (ho : openedTask event = []) :
    Delivering maximum (log ++ [event]) event.before :=
  ⟨h.counters, h.journal.extend (.still (.refl _) ha ho rfl rfl .inl), h.port⟩

section

variable (h : Delivering maximum log s)
include h

theorem Delivering.post :
    Delivering maximum (log ++ [⟨s, .post task⟩]) (s.step (.post task)) := by
  cases task with
  | none => exact h.quiet rfl rfl
  | some task =>
    simp only [IocpThreads.step]
    split
    · rename_i ha
      refine ⟨?_, h.journal.extend (.still (.refl _) rfl rfl rfl rfl .inl), h.port⟩
      rw [List.length_append, List.length_singleton]
      exact h.counters.admitted ha
    · exact h.quiet rfl rfl

theorem Delivering.postTask :
    Delivering maximum (log ++ [⟨s, .postTask index⟩]) (s.step (.postTask index)) := by
  cases hpo : s.posts[index]? with
  | none =>
    simp only [IocpThreads.step, hpo]
    exact h.quiet (by simp [acceptedTask, hpo]) rfl
  | some call =>
    cases call with
    | refused =>
      simp only [IocpThreads.step, hpo]
      exact h.quiet (by simp [acceptedTask, hpo]) rfl
    | admitted task =>
      simp only [IocpThreads.step, hpo]
      cases hs : s.context.stopping with
      | true =>
        simp only [IoContext.postTask, hs, if_true, Bool.false_eq_true, if_false]
        have ha : acceptedTask ⟨s, .postTask index⟩ = [] := by
          simp [acceptedTask, hpo, hs]
        refine ⟨?_, h.journal.extend (.still (.refl _) ha rfl rfl rfl .inl), h.port⟩
        rw [List.length_set]
        exact h.counters
      | false =>
        rw [postTask_open hs]
        simp only [if_true]
        obtain ⟨hi, -⟩ := List.getElem?_eq_some_iff.mp hpo
        have ha : acceptedTask ⟨s, .postTask index⟩ = [task] := by
          simp [acceptedTask, hpo, hs]
        have hwa : (waiting s ++ [task]).Perm
            ((s.context.port ++ [Packet.task task]).filterMap Packet.task? ++
              s.workers.filterMap heldTask) := by
          rw [waiting, List.filterMap_append, List.append_assoc, List.append_assoc]
          exact List.Perm.append_left _ List.perm_append_comm
        refine ⟨?_, h.journal.extend ?_, h.port.postTask hs⟩
        · have hp : s.posts.length = (s.posts.eraseIdx index).length + 1 := by
            rw [List.length_eraseIdx_of_lt hi]
            omega
          have hl := hwa.length_eq
          rw [List.length_append, List.length_singleton] at hl
          have hco := h.counters
          rw [hp] at hco
          rw [waiting, ← hl]
          exact hco.posted
        · obtain ⟨hst, hc⟩ : startedTask ⟨s, .postTask index⟩ = [] ∧
              cancelledTask ⟨s, .postTask index⟩ = [] := nothing_opened rfl
          refine ⟨?_, ?_, ?_, .inl, fun hso => absurd hc hso⟩
          · rw [ha, hst, hc, List.append_nil, List.append_nil]
            exact hwa
          · rw [hst]
            rfl
          · rw [hc]
            rfl

theorem Delivering.rollBack :
    Delivering maximum (log ++ [⟨s, .rollBack index⟩]) (s.step (.rollBack index)) := by
  simp only [IocpThreads.step]
  split
  · rename_i hpo
    obtain ⟨hi, -⟩ := List.getElem?_eq_some_iff.mp hpo
    have hp : s.posts.length = (s.posts.eraseIdx index).length + 1 := by
      rw [List.length_eraseIdx_of_lt hi]
      omega
    have hc := h.counters
    rw [hp] at hc
    obtain ⟨hr, hco, hca, hm⟩ := rollBack_counts
    refine ⟨hc.rollBack, h.journal.extend (.still (.refl _) rfl rfl ?_ hca ?_), h.port⟩
    · rw [hr, hco]
    · rw [hm]
      exact .inl
  · exact h.quiet rfl rfl

theorem Delivering.stop :
    Delivering maximum (log ++ [⟨s, .stop mode⟩]) (s.step (.stop mode)) := by
  obtain ⟨hr, hco, hca, hm⟩ := stop_counts
  refine ⟨h.counters.stop, h.journal.extend (.still (.refl _) rfl rfl ?_ hca ?_), h.port⟩
  · simp only [IocpThreads.step, hr, hco]
  · intro hc
    rcases hm with hs | hnew
    · exact .inl (hs.symm.trans hc)
    · exact .inr (congrArg IocpAction.stop (hnew.symm.trans hc))

theorem Delivering.contextStop :
    Delivering maximum (log ++ [⟨s, .contextStop⟩]) (s.step .contextStop) := by
  have ht : s.context.stop.port.filterMap Packet.task? =
      s.context.port.filterMap Packet.task? := by
    unfold IoContext.stop
    split
    · rfl
    · rw [List.filterMap_append, replicate_stop_tasks, List.append_nil]
  have hwa : waiting (s.step .contextStop) = waiting s := by
    simp only [waiting, IocpThreads.step, ht]
  refine ⟨?_, h.journal.extend (.still ?_ rfl rfl rfl rfl .inl), h.port.stop⟩
  · rw [hwa]
    exact h.counters
  · rw [hwa]

theorem Delivering.native :
    Delivering maximum (log ++ [⟨s, .native⟩]) (s.step .native) := by
  have hwa : waiting (s.step .native) = waiting s := by
    simp [waiting, IocpThreads.step, Packet.task?]
  refine ⟨?_, h.journal.extend (.still ?_ rfl rfl rfl rfl .inl), h.port.native⟩
  · rw [hwa]
    exact h.counters
  · rw [hwa]

end

section Worker

theorem opened_eq (hwo : s.workers[index]? = some old) :
    openedTask ⟨s, .worker index⟩ = (heldTask old).toList := by
  simp [openedTask, hwo]

theorem not_opened (hwo : s.workers[index]? = some old) (hh : heldTask old = none) :
    openedTask ⟨s, .worker index⟩ = [] := by
  rw [opened_eq hwo, hh]
  rfl

theorem workers_idle {f : IoWorker τ → Option τ}
    (hwo : s.workers[index]? = some old) (hold : f old = none) (hnew : f new = none) :
    (s.workers.filterMap f).Perm ((s.workers.set index new).filterMap f) := by
  have hb := Slots.filterMap_perm f hwo
  have ha := Slots.filterMap_set_perm f hwo new
  rw [hold] at hb
  rw [hnew] at ha
  exact hb.trans ha.symm

theorem Delivering.taken (h : Delivering maximum log s) (hwo : s.workers[index]? = some .waiting)
    (hp : s.context.port = packet :: rest) (ht : packet.task? = heldTask new)
    (hi : executedTask new = none)
    (ho : PortOrder { s.context with port := rest } (s.workers.set index new)) :
    Delivering maximum (log ++ [⟨s, .worker index⟩])
      { s with context := { s.context with port := rest }, workers := s.workers.set index new } := by
  have hwa : (waiting s).Perm
      (rest.filterMap Packet.task? ++ (s.workers.set index new).filterMap heldTask) := by
    have hb := Slots.filterMap_perm heldTask hwo
    have ha := Slots.filterMap_set_perm heldTask hwo new
    have hh : (packet :: rest).filterMap Packet.task? =
        (heldTask new).toList ++ rest.filterMap Packet.task? := by
      rw [← ht, List.filterMap_cons]
      cases packet.task? <;> rfl
    rw [waiting, hp, hh]
    have hhe : ((heldTask new).toList ++ s.workers.filterMap heldTask).Perm
        ((s.workers.set index new).filterMap heldTask) :=
      (hb.append_left _).trans ha.symm
    refine (List.perm_append_comm.append_right _).trans ?_
    rw [List.append_assoc]
    exact hhe.append_left _
  have he : (executing s).Perm ((s.workers.set index new).filterMap executedTask) :=
    workers_idle hwo rfl hi
  refine ⟨?_, h.journal.extend (.still hwa rfl (not_opened hwo rfl) rfl rfl .inl), ho⟩
  rw [waiting, executing, ← hwa.length_eq, ← he.length_eq]
  exact h.counters

theorem Delivering.dequeue (h : Delivering maximum log s)
    (hwo : s.workers[index]? = some .waiting) :
    Delivering maximum (log ++ [⟨s, .worker index⟩]) (s.dequeue index) := by
  unfold IocpThreads.dequeue
  split
  · exact h.quiet rfl (not_opened hwo rfl)
  · rename_i packet rest hp
    cases packet with
    | task task => exact h.taken hwo hp rfl rfl ((h.port.pop hp).moves nofun)
    | stop => exact h.taken hwo hp rfl rfl (h.port.exits hp)
    | native => exact h.taken hwo hp rfl rfl ((h.port.pop hp).moves nofun)

theorem executePacket_counts (e : IocpExecutor) :
    e.executePacket.runningTasks + e.executePacket.completedTasks =
        e.runningTasks + e.completedTasks + (if e.cancelling then 0 else 1) ∧
      e.executePacket.cancelledTasks = e.cancelledTasks + (if e.cancelling then 1 else 0) ∧
      e.executePacket.stopMode = e.stopMode := by
  have hs : IocpExecutor.cancelling { e with pendingTasks := e.pendingTasks - 1 } = e.cancelling :=
    rfl
  unfold IocpExecutor.executePacket
  dsimp only
  rw [hs]
  cases e.cancelling with
  | true => exact ⟨rfl, rfl, rfl⟩
  | false => exact ⟨Nat.add_right_comm .., rfl, rfl⟩

theorem stopMode_of_cancelling {e : IocpExecutor} (h : e.cancelling = true) :
    e.stopMode = .cancelPending := by
  simp only [IocpExecutor.cancelling, Bool.and_eq_true, decide_eq_true_eq] at h
  exact h.2

/-- The first section of a packet: its task leaves those that wait. -/
theorem Delivering.executePacket (h : Delivering maximum log s)
    (hwo : s.workers[index]? = some (.dequeued task)) :
    Delivering maximum (log ++ [⟨s, .worker index⟩]) (s.workerStep index) := by
  have ho : openedTask ⟨s, .worker index⟩ = [task] := opened_eq hwo
  have hnew : ∀ cancelling : Bool,
      heldTask (if cancelling then IoWorker.cancelled else .executing task) = none := by
    intro cancelling
    cases cancelling <;> rfl
  simp only [IocpThreads.workerStep, hwo]
  set new := if s.executor.cancelling then IoWorker.cancelled else .executing task with hp
  have hwa : (waiting s).Perm (s.context.port.filterMap Packet.task? ++
      (s.workers.set index new).filterMap heldTask ++ [task]) := by
    have hb := Slots.filterMap_perm heldTask hwo
    have ha := Slots.filterMap_set_perm heldTask hwo new
    rw [hnew] at ha
    rw [List.append_assoc]
    refine List.Perm.append_left _ (hb.trans ?_)
    exact List.perm_append_comm.trans (ha.symm.append_right _)
  have hl := hwa.length_eq
  rw [List.length_append, List.length_singleton] at hl
  have he := Slots.length_filterMap_set executedTask hwo new
  obtain ⟨hs, hca, hm⟩ := executePacket_counts s.executor
  refine ⟨?_, h.journal.extend ⟨?_, ?_, ?_, ?_, ?_⟩, h.port.moves ?_⟩
  · have hco := h.counters
    rw [hl] at hco
    have hr : ((s.workers.set index new).filterMap executedTask).length =
        if s.executor.cancelling then (executing s).length else (executing s).length + 1 := by
      rw [executing]
      revert he
      rw [hp]
      cases s.executor.cancelling <;> exact id
    rw [waiting, executing, hr]
    exact hco.opened
  · simp only [acceptedTask, startedTask, cancelledTask, ho, List.append_nil]
    cases s.executor.cancelling with
    | true =>
      simp only [if_true, List.append_nil]
      exact hwa
    | false =>
      simp only [Bool.false_eq_true, if_false, List.append_nil]
      exact hwa
  · rw [hs, startedTask, ho]
    cases s.executor.cancelling <;> rfl
  · rw [hca, cancelledTask, ho]
    cases s.executor.cancelling <;> rfl
  · rw [hm]
    exact .inl
  · intro hso
    by_contra hnot
    have hc : s.executor.cancelling = false := by
      rw [← Bool.not_eq_true]
      exact mt stopMode_of_cancelling hnot
    simp [cancelledTask, hc] at hso
  · rw [hp]
    cases s.executor.cancelling <;> nofun

theorem packetDone_counts (e : IocpExecutor) (cancelled : Bool)
    (hr : cancelled = false → 0 < e.runningTasks) :
    (e.packetDone cancelled).runningTasks + (e.packetDone cancelled).completedTasks =
        e.runningTasks + e.completedTasks ∧
      (e.packetDone cancelled).cancelledTasks = e.cancelledTasks ∧
      (e.packetDone cancelled).stopMode = e.stopMode := by
  unfold IocpExecutor.packetDone
  cases cancelled with
  | true =>
    obtain ⟨h1, h2, h3, h4⟩ := settle_counts
    simp only [if_true]
    exact ⟨by rw [h1, h2], h3, h4⟩
  | false =>
    obtain ⟨h1, h2, h3, h4⟩ := settle_counts
    have hs := hr rfl
    simp only [Bool.false_eq_true, if_false]
    refine ⟨?_, h3, h4⟩
    rw [h1, h2]
    dsimp only
    omega

theorem Delivering.packetDone (h : Delivering maximum log s)
    (hwo : s.workers[index]? = some old) (hh : heldTask old = none)
    (hexe : (executedTask old).isSome = !cancelled) :
    Delivering maximum (log ++ [⟨s, .worker index⟩])
      { s with
        executor := s.executor.packetDone cancelled
        workers := s.workers.set index .waiting } := by
  have hwa : (waiting s).Perm (s.context.port.filterMap Packet.task? ++
      (s.workers.set index .waiting).filterMap heldTask) :=
    (workers_idle hwo hh rfl).append_left _
  have he := Slots.length_filterMap_set executedTask hwo .waiting
  have hc := h.counters
  have hl : (executing s).length =
      ((s.workers.set index .waiting).filterMap executedTask).length + (!cancelled).toNat := by
    rw [← hexe, executing]
    revert he
    cases executedTask old <;> exact Eq.symm
  have hso : cancelled = false → 0 < s.executor.runningTasks := by
    intro hf
    rw [hc.running, hl, hf]
    exact Nat.succ_pos _
  obtain ⟨hs, hca, hm⟩ := packetDone_counts s.executor cancelled hso
  refine ⟨?_, h.journal.extend (.still hwa rfl (not_opened hwo hh) hs hca ?_),
    h.port.moves nofun⟩
  · rw [waiting, executing, ← hwa.length_eq]
    rw [hl] at hc
    cases cancelled with
    | true => exact hc.settle
    | false => exact hc.closed
  · rw [hm]
    exact .inl

theorem Delivering.completing (h : Delivering maximum log s)
    (hwo : s.workers[index]? = some .completing) :
    Delivering maximum (log ++ [⟨s, .worker index⟩])
      { s with workers := s.workers.set index .waiting } := by
  have hh : (s.workers.filterMap heldTask).Perm
      ((s.workers.set index .waiting).filterMap heldTask) := workers_idle hwo rfl rfl
  have he : (s.workers.filterMap executedTask).Perm
      ((s.workers.set index .waiting).filterMap executedTask) := workers_idle hwo rfl rfl
  have hwa : (waiting s).Perm (s.context.port.filterMap Packet.task? ++
      (s.workers.set index .waiting).filterMap heldTask) := hh.append_left _
  refine ⟨?_, h.journal.extend (.still hwa rfl (not_opened hwo rfl) rfl rfl .inl),
    h.port.moves nofun⟩
  rw [waiting, executing, ← hwa.length_eq, ← he.length_eq]
  exact h.counters

theorem Delivering.worker (h : Delivering maximum log s) :
    Delivering maximum (log ++ [⟨s, .worker index⟩]) (s.step (.worker index)) := by
  rw [IocpThreads.step]
  cases hwo : s.workers[index]? with
  | none =>
    simp only [IocpThreads.workerStep, hwo]
    exact h.quiet rfl (by simp [openedTask, hwo])
  | some place =>
    cases place with
    | dequeued task => exact h.executePacket hwo
    | waiting =>
      simp only [IocpThreads.workerStep, hwo]
      exact h.dequeue hwo
    | executing task =>
      simp only [IocpThreads.workerStep, hwo]
      exact h.packetDone hwo rfl rfl
    | cancelled =>
      simp only [IocpThreads.workerStep, hwo]
      exact h.packetDone hwo rfl rfl
    | completing =>
      simp only [IocpThreads.workerStep, hwo]
      exact h.completing hwo
    | exited =>
      simp only [IocpThreads.workerStep, hwo]
      exact h.quiet rfl (not_opened hwo rfl)

end Worker

theorem Delivering.step (h : Delivering maximum log s) :
    Delivering maximum (log ++ [⟨s, action⟩]) (s.step action) := by
  cases action with
  | post task => exact h.post
  | postTask index => exact h.postTask
  | rollBack index => exact h.rollBack
  | stop mode => exact h.stop
  | contextStop => exact h.contextStop
  | native => exact h.native
  | worker index => exact h.worker

end Steps

def Exited (s : IocpThreads τ) : Prop := ∀ worker ∈ s.workers, worker = .exited

instance (s : IocpThreads τ) [DecidableEq τ] : Decidable (Exited s) :=
  inferInstanceAs (Decidable (∀ worker ∈ s.workers, worker = .exited))

/-- Once every worker has exited no task waits and none runs. -/
theorem PortOrder.exited {s : IocpThreads τ} (h : PortOrder s.context s.workers) (hall : Exited s) :
    waiting s = [] ∧ executing s = [] := by
  have hl : .exited ∈ s.workers := by
    have hs : 0 < s.workers.length := by
      rw [h.size]
      exact h.nonempty
    obtain ⟨worker, hwo⟩ := List.exists_mem_of_length_pos hs
    exact hall worker hwo ▸ hwo
  have hn : ∀ f : IoWorker τ → Option τ, f .exited = none → s.workers.filterMap f = [] := by
    intro f hf
    rw [List.filterMap_eq_nil_iff]
    intro worker hwo
    rw [hall worker hwo, hf]
  exact ⟨by rw [waiting, h.left hl, hn _ rfl]; rfl, hn _ rfl⟩

theorem Delivering.of_create
    {context : IoContext τ} (he : IocpExecutor.create maximum = .ok executor)
    (hc : IoContext.create workerCount logger = .ok context) :
    Delivering maximum []
      { executor, context, workers := List.replicate workerCount .waiting } := by
  unfold IocpExecutor.create at he
  split at he
  · cases he
  · cases he
    unfold IoContext.create at hc
    split at hc
    · cases hc
    · rename_i hwo
      split at hc
      · cases hc
      · cases hc
        have hn : ∀ f : IoWorker τ → Option τ, f .waiting = none →
            (List.replicate workerCount IoWorker.waiting).filterMap f = [] :=
          fun f hf => List.filterMap_replicate_of_none hf
        have hh := hn heldTask rfl
        have hexe := hn executedTask rfl
        refine ⟨?_, ?_, List.Pairwise.nil, fun _ => ⟨List.not_mem_nil, ?_⟩, fun _ => rfl,
          List.length_replicate, Nat.pos_of_ne_zero hwo⟩
        · simp only [waiting, executing, hh, hexe]
          exact ⟨rfl, rfl, rfl, Nat.zero_le _, nofun⟩
        · simp only [waiting, hh]
          exact ⟨.refl _, rfl, rfl, nofun, fun hz => absurd rfl hz⟩
        · intro hexi
          exact absurd (List.eq_of_mem_replicate hexi) nofun

/-- Every packet is executed once or cancelled, the counters add up when no `Post` is in progress,
and an executor stops with nothing pending. -/
theorem task_packets_delivered {maximum workerCount : Nat} {logger : Bool} {executor : IocpExecutor}
    {context : IoContext τ} (hexecutor : IocpExecutor.create maximum = .ok executor)
    (hcontext : IoContext.create workerCount logger = .ok context) (actions : List (IocpAction τ)) :
    let start : IocpThreads τ :=
      { executor, context, workers := List.replicate workerCount .waiting }
    let log := Runs.history IocpThreads.step start actions
    let s := Runs.final IocpThreads.step start actions
    (log.flatMap acceptedTask).Perm
        (waiting s ++ log.flatMap startedTask ++ log.flatMap cancelledTask) ∧
      (Exited s → (log.flatMap acceptedTask).Perm
          (log.flatMap startedTask ++ log.flatMap cancelledTask) ∧
        s.executor.completedTasks = (log.flatMap startedTask).length) ∧
      s.executor.cancelledTasks = (log.flatMap cancelledTask).length ∧
      (log.flatMap cancelledTask ≠ [] → Requested log) ∧
      (s.posts = [] → (log.flatMap acceptedTask).length = s.executor.pendingTasks +
        s.executor.runningTasks + s.executor.completedTasks + s.executor.cancelledTasks) ∧
      s.executor.pendingTasks ≤ maximum ∧
      (s.executor.state = .stopped → s.executor.pendingTasks = 0 ∧ s.executor.runningTasks = 0) := by
  intro start log s
  have hrun : Delivering maximum log s :=
    Runs.run_induction (.of_create hexecutor hcontext) (fun _ _ hlog (_ : True) => hlog.step)
      (fun _ _ => trivial)
  obtain ⟨hcounters, hjournal, hport⟩ := hrun
  have hlength := hjournal.whole.length_eq
  simp only [List.length_append] at hlength
  refine ⟨hjournal.whole, fun hall => ?_, hjournal.cancelled.symm, fun hsome => ?_, fun hposts => ?_,
    hcounters.bounded, hcounters.settled⟩
  · obtain ⟨hwaiting, hexecuting⟩ := hport.exited hall
    have hwhole := hjournal.whole
    rw [hwaiting, List.nil_append] at hwhole
    refine ⟨hwhole, ?_⟩
    have hrunning := hcounters.running
    rw [hexecuting, List.length_nil] at hrunning
    rw [hjournal.started, hrunning, Nat.zero_add]
  · refine hjournal.requested ?_
    rw [← hjournal.cancelled]
    exact mt List.length_eq_zero_iff.mp hsome
  · have hpending := hcounters.pending
    rw [hposts, List.length_nil, Nat.zero_add] at hpending
    rw [hlength, hjournal.started, hjournal.cancelled, hpending]
    omega

/-- One task runs, one is cancelled, and a third is refused by a context that has stopped. -/
theorem task_packets_delivered_cancelling :
    let actions : List (IocpAction Nat) :=
      [.post (some 1), .postTask 0, .post (some 2), .postTask 0, .post (some 3), .worker 0, .worker 0,
        .contextStop, .postTask 0, .stop .cancelPending, .worker 0, .worker 0, .worker 0, .rollBack 0,
        .worker 0, .worker 0]
    let start : IocpThreads Nat :=
      { executor := { maximumPendingTasks := 2 }, context := { workerCount := 1 }, workers := [.waiting] }
    let log := Runs.history IocpThreads.step start actions
    let s := Runs.final IocpThreads.step start actions
    Exited s ∧ s.executor.state = .stopped ∧ log.flatMap startedTask = [1] ∧
      log.flatMap cancelledTask = [2] ∧
      (log.flatMap acceptedTask).Perm (log.flatMap startedTask ++ log.flatMap cancelledTask) := by
  intro actions start log s
  have hexited : Exited s := by decide
  have hexecutor : IocpExecutor.create 2 = .ok start.executor := rfl
  have hcontext : IoContext.create 1 true = .ok start.context := rfl
  obtain ⟨-, hall, -⟩ := task_packets_delivered hexecutor hcontext actions
  exact ⟨hexited, by decide, by decide, by decide, (hall hexited).1⟩

end IocpRuntime.Proofs.TaskPackets
