import Mathlib.Data.Multiset.AddSub

/-! The books of an executor: tasks are accepted in an order, wait, are started from the
front or dropped together, and finish in any order. -/

namespace IocpRuntime.Lib.TaskLedger

/-- What has become of the tasks that were accepted. The lists are in the order of events. -/
structure Ledger (τ : Type) where
  accepted : List τ
  started : List τ
  dropped : List τ
  waiting : List τ
  running : Multiset τ
  finished : Nat

variable {τ : Type}

inductive Step : Ledger τ → Ledger τ → Prop
  | stay (l : Ledger τ) : Step l l
  | accept {l : Ledger τ} (task : τ) (h : l.dropped = []) :
      Step l { l with accepted := l.accepted ++ [task], waiting := l.waiting ++ [task] }
  | start {l : Ledger τ} {task : τ} {rest : List τ} (h : l.waiting = task :: rest) :
      Step l { l with
        started := l.started ++ [task], waiting := rest, running := task ::ₘ l.running }
  | finish {l : Ledger τ} {task : τ} {rest : Multiset τ} (h : l.running = task ::ₘ rest) :
      Step l { l with running := rest, finished := l.finished + 1 }
  | drop (l : Ledger τ) : Step l { l with dropped := l.dropped ++ l.waiting, waiting := [] }

/-- Every accepted task was started, was dropped or waits, in the order of acceptance. -/
structure Balanced (l : Ledger τ) : Prop where
  whole : l.accepted = l.started ++ l.dropped ++ l.waiting
  dropped : l.dropped = [] ∨ l.waiting = []
  counted : l.started.length = l.running.card + l.finished

theorem Balanced.empty : Balanced (⟨[], [], [], [], 0, 0⟩ : Ledger τ) :=
  ⟨rfl, .inl rfl, rfl⟩

theorem Balanced.step (h : Balanced l) (hs : Step l next) : Balanced next := by
  obtain ⟨hwh, hd, hc⟩ := h
  cases hs with
  | stay => exact ⟨hwh, hd, hc⟩
  | accept task hn =>
    refine ⟨?_, .inl hn, hc⟩
    simp [hwh]
  | @start task rest hwa =>
    have hn : l.dropped = [] := by simpa [hwa] using hd
    refine ⟨?_, .inl hn, ?_⟩
    · simp [hwh, hn, hwa]
    · simp only [List.length_append, List.length_singleton, Multiset.card_cons, hc]
      omega
  | finish hr =>
    refine ⟨hwh, hd, ?_⟩
    rw [hr, Multiset.card_cons] at hc
    dsimp only
    omega
  | drop =>
    refine ⟨?_, .inr rfl, hc⟩
    simp [hwh]

/-- Tasks start in the order of their acceptance, each at most once. -/
theorem Balanced.in_order (h : Balanced l) : l.started <+: l.accepted := by
  rw [h.whole, List.append_assoc]
  exact List.prefix_append _ _

/-- No accepted task is lost. -/
theorem Balanced.conserved (h : Balanced l) :
    l.accepted.length = l.waiting.length + l.running.card + l.finished + l.dropped.length := by
  rw [h.whole, List.length_append, List.length_append, h.counted]
  omega

end IocpRuntime.Lib.TaskLedger
