import IocpRuntime.Lib.Runs
import IocpRuntime.Runtime.TimerService

namespace IocpRuntime.Proofs.TimerRuns
open Lib Timers TimerSystem

abbrev ids (entries : List Entry) : List Nat := entries.map Entry.id

abbrev run (actions : List TimerAction) : TimerSystem := Runs.final step {} actions

def hand : Worker → List Entry
  | .taken entry => [entry]
  | _ => []

def silenced (timer : Nat) (entry : Entry) : Entry :=
  if entry.id = timer then { entry with callback := false } else entry

@[simp] theorem silenced_fields : (silenced timer entry).id = entry.id ∧
    (silenced timer entry).deadline = entry.deadline := by
  unfold silenced
  split <;> exact ⟨rfl, rfl⟩

theorem mute_eq (h : (ids heap).Nodup) : TimerService.mute timer heap =
    if timer ∈ ids heap then some (heap.map (silenced timer)) else none := by
  induction heap with
  | nil => rfl
  | cons entry heap ih =>
    obtain ⟨hn, hd⟩ := List.nodup_cons.mp h
    by_cases he : entry.id = timer
    · have hm : heap.map (silenced timer) = heap := by
        refine (List.map_congr_left fun e hm => ?_).trans (List.map_id heap)
        have hi : e.id ≠ timer := fun hi => hn (he ▸ hi ▸ List.mem_map_of_mem hm)
        simp [silenced, hi]
      simp [TimerService.mute, he, hm, silenced]
    · rw [TimerService.mute, if_neg he, ih hd]
      by_cases hi : timer ∈ ids heap
      · simp [hi, he, silenced]
      · simp [hi, Ne.symm he]

/-- A timer pushed is in the heap, taken or discarded; only cancelling takes its callback. -/
structure Kept (s : TimerSystem) : Prop where
  heap : IsHeap (s.service.heap.map Entry.deadline)
  fresh : (ids (s.calls ++ s.scheduled)).Nodup
  numbered : ∀ e ∈ s.calls ++ s.scheduled, e.id < s.service.nextId
  filled : ∀ e ∈ s.calls, e.callback = true
  held : (ids s.service.heap ++ (ids s.taken ++ s.discarded)).Perm (ids s.scheduled)
  known : ∀ e ∈ s.service.heap ++ s.taken, ⟨e.deadline, e.id, true⟩ ∈ s.scheduled ∧
    (e.callback = true ↔ e.id ∉ s.cancelled)
  cancelled : ∀ timer ∈ s.cancelled, timer ∈ ids s.scheduled
  due : ∀ e ∈ s.taken, e.deadline ≤ s.clock
  started : hand s.worker ++ s.started.map Prod.fst = s.taken.filter Entry.callback
  punctual : ∀ call ∈ s.started, call.1.deadline ≤ call.2

theorem Kept.distinct (k : Kept s) :
    (ids s.scheduled).Nodup ∧ ∀ e ∈ s.calls, e.id ∉ ids s.scheduled := by
  have h := k.fresh
  rw [ids, List.map_append] at h
  obtain ⟨-, hs, hd⟩ := List.nodup_append.mp h
  exact ⟨hs, fun e he hm => hd _ (List.mem_map_of_mem he) _ hm rfl⟩

theorem Kept.apart (k : Kept s) : (ids s.service.heap).Nodup ∧ (ids s.taken ++ s.discarded).Nodup ∧
    ∀ timer ∈ ids s.service.heap, ∀ other ∈ ids s.taken ++ s.discarded, timer ≠ other :=
  List.nodup_append.mp (k.held.nodup_iff.mpr k.distinct.1)

theorem Kept.schedule (k : Kept s) : Kept (step s (.schedule now duration callback)) := by
  cases callback with
  | false => exact k
  | true =>
    simp only [step, TimerService.schedule, Bool.not_true, Bool.false_eq_true, if_false]
    split
    · refine { k with fresh := ?_, numbered := ?_, filled := ?_ }
      · refine List.nodup_cons.mpr ⟨fun hm => ?_, k.fresh⟩
        obtain ⟨e, he, hi⟩ := List.mem_map.mp hm
        exact Nat.ne_of_lt (k.numbered e he) hi
      · refine List.forall_mem_cons.mpr ⟨Nat.lt_succ_self _, fun e he => ?_⟩
        exact Nat.lt_succ_of_lt (k.numbered e he)
      · exact List.forall_mem_cons.mpr ⟨rfl, k.filled⟩
    · exact k

theorem Kept.push (k : Kept s) : Kept (step s (.push entry arranged)) := by
  simp only [step]
  split
  · rename_i h
    obtain ⟨hc, hp, hh⟩ := h
    have hs : (s.calls.erase entry ++ entry :: s.scheduled).Perm (s.calls ++ s.scheduled) :=
      List.perm_middle.trans ((List.perm_cons_erase hc).symm.append_right _)
    refine { k with
      heap := hh, fresh := ?_, numbered := ?_, filled := ?_, held := ?_, known := ?_, cancelled := ?_ }
    · exact (hs.map Entry.id).nodup_iff.mpr k.fresh
    · exact fun e he => k.numbered e (hs.mem_iff.mp he)
    · exact fun e he => k.filled e (List.mem_of_mem_erase he)
    · exact ((hp.map Entry.id).append_right _).trans (k.held.cons entry.id)
    · intro e he
      rcases List.mem_cons.mp ((hp.append_right _).mem_iff.mp he) with rfl | he
      · rw [← k.filled e hc]
        exact ⟨List.mem_cons_self, iff_of_true rfl fun h => k.distinct.2 e hc (k.cancelled _ h)⟩
      · exact (k.known e he).imp_left (List.mem_cons_of_mem _)
    · exact fun timer hi => List.mem_cons_of_mem _ (k.cancelled timer hi)
  · exact k

theorem Kept.cancel (k : Kept s) : Kept (step s (.cancel timer)) := by
  obtain ⟨hh, -, hd⟩ := k.apart
  by_cases hi : timer ∈ ids s.service.heap
  · have ht : ∀ e ∈ s.taken, e.id ≠ timer := fun e he h =>
      hd _ hi _ (List.mem_append_left _ (List.mem_map_of_mem he)) h.symm
    simp only [step, TimerService.cancel, mute_eq hh, if_pos hi]
    have hids : ids (s.service.heap.map (silenced timer)) = ids s.service.heap := by
      simp [ids, Function.comp_def]
    refine { k with heap := ?_, held := ?_, known := ?_, cancelled := ?_ }
    · simpa [Function.comp_def] using k.heap
    · simpa [hids] using k.held
    · intro e he
      rcases List.mem_append.mp he with he | he
      · obtain ⟨e, hm, rfl⟩ := List.mem_map.mp he
        have := k.known e (List.mem_append_left _ hm)
        by_cases h : e.id = timer
        · simpa [silenced, h] using this.1
        · simpa [silenced, h] using this
      · simpa [ht e he] using k.known e (List.mem_append_right _ he)
    · exact List.forall_mem_cons.mpr ⟨k.held.subset (List.mem_append_left _ hi), k.cancelled⟩
  · simp only [step, TimerService.cancel, mute_eq hh, if_neg hi]
    exact k

theorem Kept.take (k : Kept s) : Kept (step s (.take arranged)) := by
  simp only [step]
  split
  · rename_i front rest hf
    split
    · rename_i h
      obtain ⟨hw, -, hdue, hp, hh⟩ := h
      have hs : (arranged ++ front :: s.taken).Perm (s.service.heap ++ s.taken) := by
        rw [hf]
        exact List.perm_middle.trans ((hp.append_right s.taken).cons front)
      refine { k with heap := hh, held := ?_, known := ?_, due := ?_, started := ?_ }
      · have := (hs.map Entry.id).append_right s.discarded
        simp only [List.map_append, List.append_assoc] at this
        exact this.trans k.held
      · exact fun e he => k.known e (hs.mem_iff.mp he)
      · exact List.forall_mem_cons.mpr ⟨hdue, k.due⟩
      · have := k.started
        rw [hw] at this
        cases hc : front.callback <;> simpa [hand, hc] using this
    · exact k
  · exact k

theorem Kept.call (k : Kept s) : Kept (step s .call) := by
  simp only [step]
  split
  · rename_i entry hw
    have hs := k.started
    rw [hw] at hs
    have he : entry ∈ s.taken.filter Entry.callback := by
      rw [← hs]
      exact List.mem_cons_self
    refine { k with started := hs, punctual := ?_ }
    exact List.forall_mem_cons.mpr ⟨k.due entry (List.mem_of_mem_filter he), k.punctual⟩
  · exact k

theorem Kept.clear (k : Kept s) : Kept (step s .clear) := by
  simp only [step]
  split
  · refine { k with heap := nofun, held := ?_, known := ?_ }
    · exact (List.perm_append_comm_assoc (ids s.taken) (ids s.service.heap) _).trans k.held
    · exact fun e he => k.known e (List.mem_append_right _ he)
  · exact k

theorem Kept.step (k : Kept s) : Kept (step s action) := by
  cases action with
  | tick now => exact { k with due := fun e he => (k.due e he).trans (le_max_left _ _) }
  | schedule now duration callback => exact k.schedule
  | push entry arranged => exact k.push
  | cancel timer => exact k.cancel
  | take arranged => exact k.take
  | call => exact k.call
  | returned =>
    simp only [TimerSystem.step]
    split
    · rename_i hw
      exact { k with started := by simpa [hw, hand] using k.started }
    · exact k
  | stop => exact { k with }
  | clear => exact k.clear

theorem run_kept (actions : List TimerAction) : Kept (run actions) :=
  Runs.final_invariant (by constructor <;> decide) (fun _ _ => Kept.step) actions

theorem Kept.started_mem (k : Kept s) (h : e ∈ s.started.map Prod.fst) :
    e ∈ s.taken ∧ e.callback = true := by
  refine List.mem_filter.mp ?_
  rw [← k.started]
  exact List.mem_append_right _ h

theorem cancel_found (k : Kept s) (h : timer ∈ ids s.service.heap) :
    (step s (.cancel timer)).cancelled = timer :: s.cancelled ∧
      ids (step s (.cancel timer)).service.heap = ids s.service.heap := by
  simp [step, TimerService.cancel, mute_eq k.apart.1, h, Function.comp_def]

theorem records_kept (k : Kept s) :
    s.discarded ⊆ (step s action).discarded ∧ ((step s action).cancelled = s.cancelled ∨
      ∃ timer ∈ ids s.service.heap, action = .cancel timer ∧
        (step s action).cancelled = timer :: s.cancelled) := by
  by_cases hc : ∃ timer ∈ ids s.service.heap, action = .cancel timer
  · obtain ⟨timer, ht, rfl⟩ := hc
    refine ⟨?_, .inr ⟨timer, ht, rfl, (cancel_found k ht).1⟩⟩
    simp only [step]
    split <;> exact List.Subset.refl _
  · cases action <;> simp only [step]
    case cancel timer =>
      have ht : timer ∉ ids s.service.heap := fun h => hc ⟨timer, h, rfl⟩
      simp [TimerService.cancel, mute_eq k.apart.1, ht]
    all_goals repeat' split
    all_goals simp

/-- The timers the heap accounts for without those that are cancelled. -/
theorem outstanding_eq (k : Kept s) : s.outstanding = s.service.heap.countP Entry.callback := by
  let p (timer : Nat) : Bool := timer ∉ s.cancelled ∧ timer ∉ ids s.taken ++ s.discarded
  have hs : s.outstanding = (ids s.scheduled).countP p := by
    rw [ids, List.countP_map]
    refine List.countP_congr fun e _ => ?_
    simp only [p, Function.comp_apply, List.mem_append, not_or, decide_eq_true_eq]
    exact and_left_comm
  have ht : (ids s.taken ++ s.discarded).countP p = 0 :=
    List.countP_eq_zero.mpr fun timer h => by
      simp only [p, h, not_true, and_false, decide_false, Bool.false_eq_true, not_false_eq_true]
  rw [hs, ← k.held.countP_eq, List.countP_append, ht, ids, List.countP_map]
  refine List.countP_congr fun e he => ?_
  have hn : e.id ∉ ids s.taken ++ s.discarded := fun h =>
    k.apart.2.2 _ (List.mem_map_of_mem he) _ h rfl
  simp only [Function.comp_apply, p, hn, not_false_eq_true, and_true, decide_eq_true_eq]
  exact (k.known e (List.mem_append_left _ he)).2.symm

theorem activeCount_eq (k : Kept s) : s.service.activeCount = s.outstanding ↔
    ∀ e ∈ s.service.heap, e.id ∉ s.cancelled := by
  rw [outstanding_eq k, eq_comm]
  refine List.countP_eq_length.trans (forall₂_congr fun e he => ?_)
  exact (k.known e (List.mem_append_left _ he)).2

/-- A timer is done with once it is cancelled or discarded. -/
theorem records_run (h : timer ∈ s.cancelled ++ s.discarded) (k : Kept s) :
    timer ∈ (Runs.final step s rest).cancelled ++ (Runs.final step s rest).discarded := by
  induction rest generalizing s with
  | nil => exact h
  | cons action rest ih =>
    refine ih (List.mem_append.mpr ?_) k.step
    obtain ⟨hd, hc⟩ : s.discarded ⊆ (step s action).discarded ∧ _ := records_kept k
    rcases List.mem_append.mp h with h | h
    · rcases hc with hc | ⟨_, -, -, hc⟩ <;> simp [hc, h]
    · exact .inr (hd h)

theorem Kept.not_started (k : Kept s) (h : e ∈ s.started.map Prod.fst) :
    e.id ∉ s.cancelled ++ s.discarded := by
  obtain ⟨ht, hc⟩ := k.started_mem h
  have hm := List.mem_append_right s.service.heap ht
  refine fun hn => (List.mem_append.mp hn).elim ((k.known e hm).2.mp hc) fun hn => ?_
  exact (List.nodup_append.mp k.apart.2.1).2.2 _ (List.mem_map_of_mem ht) _ hn rfl

/-- Callbacks start at most once, in time, in the order of the deadlines and not when cancelled; a
timer rescheduled before it was taken does not start. -/
theorem timers_fire_once (actions : List TimerAction) :
    let s := run actions
    (ids (s.started.map Prod.fst)).Nodup ∧
      (∀ call ∈ s.started, call.1 ∈ s.scheduled ∧ call.1.deadline ≤ call.2 ∧
        call.1.id ∉ s.cancelled) ∧
      (∀ arranged entry, (step s (.take arranged)).taken = entry :: s.taken →
        ∀ e ∈ (step s (.take arranged)).service.heap, entry.deadline ≤ e.deadline) ∧
      ∀ timer rest, timer ∈ ids s.scheduled → timer ∉ ids s.taken →
        timer ∉ ids ((run (actions ++ .cancel timer :: rest)).started.map Prod.fst) := by
  intro s
  have k : Kept s := run_kept actions
  refine ⟨?_, fun call hc => ?_, fun arranged entry ht e he => ?_, fun timer rest hs ht => ?_⟩
  · have hs : (s.started.map Prod.fst).Sublist s.taken :=
      (List.sublist_append_right _ _).trans (k.started ▸ List.filter_sublist)
    exact (List.nodup_append.mp k.apart.2.1).1.sublist (hs.map Entry.id)
  · have hm : call.1 ∈ s.started.map Prod.fst := List.mem_map_of_mem hc
    obtain ⟨ht, hf⟩ := k.started_mem hm
    refine ⟨?_, k.punctual call hc, fun h => k.not_started hm (List.mem_append_left _ h)⟩
    have := (k.known _ (List.mem_append_right _ ht)).1
    rwa [← hf] at this
  · simp only [step] at ht he
    split at ht
    · rename_i front left hf
      split at ht
      · rename_i h
        have hh := k.heap
        simp only [hf, List.map_cons] at hh
        rw [hf] at he
        simp only [if_pos h] at he
        obtain rfl := (List.cons.inj ht).1
        exact hh.front_le (List.mem_cons_of_mem _ (List.mem_map_of_mem (h.2.2.2.1.mem_iff.mp he)))
      · simp at ht
    · simp at ht
  · have hc : Kept (step s (.cancel timer)) := k.step
    have hm : timer ∈ (step s (.cancel timer)).cancelled ++ (step s (.cancel timer)).discarded := by
      rcases List.mem_append.mp (k.held.mem_iff.mpr hs) with h | h
      · rw [(cancel_found k h).1]
        exact List.mem_cons_self
      · have hd := (List.mem_append.mp h).resolve_left ht
        exact List.mem_append_right _ ((records_kept k).1 hd)
    intro h
    obtain ⟨e, he, rfl⟩ := List.mem_map.mp h
    refine (run_kept _).not_started he ?_
    rw [run, Runs.final_append, Runs.final_cons]
    exact records_run hm hc

/-- A timer that is rescheduled and its successor, which is started. -/
theorem timers_fire_once_rescheduled :
    let first : Entry := ⟨5, 1, true⟩
    let next : Entry := ⟨9, 2, true⟩
    let rest : List TimerAction := [.schedule 0 9 true, .push next [⟨5, 1, false⟩, next],
      .tick 9, .take [next], .take [], .call]
    1 ∉ ids ((run ([.schedule 0 5 true, .push first [first]] ++ .cancel 1 :: rest)).started.map Prod.fst) ∧
      (run ([.schedule 0 5 true, .push first [first]] ++ .cancel 1 :: rest)).started = [(next, 9)] :=
  ⟨(timers_fire_once _).2.2.2 1 _ (by decide) (by decide), by decide⟩

/-- `ActiveCount` counts the timers neither taken nor cancelled, and none is cancelled twice, as
long as no timer is cancelled or rescheduled in the heap. -/
theorem activeCount_outstanding_iff (actions : List TimerAction) :
    ((∀ earlier, earlier <+: actions →
        (run earlier).service.activeCount = (run earlier).outstanding) ∧
      (run actions).cancelled.Nodup) ↔
    ∀ event ∈ Runs.history step {} actions, ∀ timer ∈ ids event.before.service.heap,
      event.input ≠ .cancel timer := by
  constructor
  · rintro ⟨hc, -⟩ event he timer ht hi
    obtain ⟨first, rest, rfl, hb⟩ := Runs.history_split he
    rw [hb] at ht
    obtain ⟨h₁, h₂⟩ := cancel_found (run_kept first) ht
    have hs : run (first ++ [event.input]) = step (run first) (.cancel timer) := by simp [hi]
    have := (activeCount_eq (run_kept _)).mp (hc (first ++ [event.input]) ⟨rest, by simp⟩)
    rw [hs, h₁] at this
    rw [← h₂] at ht
    obtain ⟨e, he, hm⟩ := List.mem_map.mp ht
    exact this e he (hm ▸ List.mem_cons_self)
  · intro h
    have hc : ∀ earlier, earlier <+: actions → (run earlier).cancelled = [] := by
      rintro earlier ⟨rest, rfl⟩
      rw [Runs.history_append] at h
      refine (Runs.run_induction (motive := fun _ s => Kept s ∧ s.cancelled = []) ⟨run_kept [], rfl⟩
        ?_ fun event he => h event (List.mem_append_left _ he)).2
      refine fun _ event hk ha => ⟨hk.1.step, ?_⟩
      rcases (records_kept hk.1).2 with hr | ⟨timer, ht, hi, -⟩
      · exact hr.trans hk.2
      · exact absurd hi (ha timer ht)
    refine ⟨fun earlier he => (activeCount_eq (run_kept earlier)).mpr ?_, ?_⟩
    · simp [hc earlier he]
    · simp [hc actions List.prefix_rfl]

/-- One timer, rescheduled twice, is counted three times, and the first one is cancelled again. -/
theorem rescheduled_timer_counted :
    let entry (timer : Nat) (callback : Bool) : Entry := ⟨5, timer, callback⟩
    let s := run [.schedule 0 5 true, .push (entry 1 true) [entry 1 true],
      .cancel 1, .schedule 0 5 true, .push (entry 2 true) [entry 1 false, entry 2 true],
      .cancel 2, .schedule 0 5 true,
      .push (entry 3 true) [entry 1 false, entry 2 false, entry 3 true], .cancel 1]
    s.service.activeCount = 3 ∧ s.outstanding = 1 ∧ s.cancelled = [1, 2, 1] := by
  decide

/-- No timer is lost or held twice, and callbacks start in the order the timers were taken in. -/
theorem timers_conserved (actions : List TimerAction) :
    let s := run actions
    (ids s.scheduled).Nodup ∧
      (ids s.service.heap ++ (ids s.taken ++ s.discarded)).Perm (ids s.scheduled) ∧
      hand s.worker ++ s.started.map Prod.fst = s.taken.filter (·.id ∉ s.cancelled) := by
  have k := run_kept actions
  refine ⟨k.distinct.1, k.held, k.started.trans (List.filter_congr fun e he => ?_)⟩
  have hk := (k.known e (List.mem_append_right _ he)).2
  exact Bool.eq_iff_iff.mpr (hk.trans decide_eq_true_iff.symm)

theorem stopped_step (h : s.service.stopped = true) (action : TimerAction) :
    (step s action).service.stopped = true ∧ (step s action).taken = s.taken := by
  cases action with
  | schedule now duration callback =>
    cases callback <;> by_cases hn : now ≤ s.clock <;> simp [step, TimerService.schedule, hn, h]
  | cancel timer =>
    simp only [step, TimerService.cancel]
    cases TimerService.mute timer s.service.heap <;> exact ⟨h, rfl⟩
  | _ =>
    simp only [step]
    repeat' split
    all_goals simp_all

theorem stopped_run (h : s.service.stopped = true) : (Runs.final step s rest).taken = s.taken := by
  induction rest generalizing s with
  | nil => rfl
  | cons action rest ih => exact (ih (stopped_step h action).1).trans (stopped_step h action).2

/-- After `Stop` at most the callback starts that the worker had in hand. -/
theorem stop_starts_no_other (actions rest : List TimerAction) :
    let s := run actions
    let t := run (actions ++ .stop :: rest)
    hand t.worker ++ t.started.map Prod.fst = hand s.worker ++ s.started.map Prod.fst := by
  intro s t
  have ht : t.taken = s.taken := by
    simp only [t, Runs.final_append, Runs.final_cons]
    exact stopped_run rfl
  rw [(run_kept _).started, (run_kept _).started, ht]

end IocpRuntime.Proofs.TimerRuns
