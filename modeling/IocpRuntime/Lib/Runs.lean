import Mathlib.Algebra.Order.Ring.Nat
import Mathlib.Data.List.Induction

/-! Runs of a machine over its inputs, with the state that meets each input. -/

namespace IocpRuntime.Lib.Runs

/-- An input and the state that meets it. -/
structure Event (σ ι : Type) where
  before : σ
  input : ι

variable {σ ι : Type} (step : σ → ι → σ)

def Event.after (event : Event σ ι) : σ := step event.before event.input

def final (s : σ) (inputs : List ι) : σ := inputs.foldl step s

def history (s : σ) : List ι → List (Event σ ι)
  | [] => []
  | input :: inputs => ⟨s, input⟩ :: history (step s input) inputs

variable {step}

@[simp] theorem final_nil : final step s [] = s := rfl

@[simp] theorem final_cons (s : σ) (input : ι) (inputs : List ι) :
    final step s (input :: inputs) = final step (step s input) inputs := rfl

@[simp] theorem final_append :
    final step s (first ++ second) = final step (final step s first) second := by
  simp [final]

@[simp] theorem history_append : history step s (first ++ second) =
      history step s first ++ history step (final step s first) second := by
  induction first generalizing s with
  | nil => rfl
  | cons input first ih => simp [history, ih]

theorem history_inputs (s : σ) (inputs : List ι) :
    (history step s inputs).map Event.input = inputs := by
  induction inputs generalizing s with
  | nil => rfl
  | cons input inputs ih => simp [history, ih]

/-- An event of a run stands between the inputs before it and those after it. -/
theorem history_split (h : event ∈ history step s inputs) :
    ∃ first rest, inputs = first ++ event.input :: rest ∧ event.before = final step s first := by
  induction inputs generalizing s with
  | nil => cases h
  | cons input inputs ih =>
    rcases List.mem_cons.mp h with rfl | h
    · exact ⟨[], inputs, rfl, rfl⟩
    · obtain ⟨first, rest, hi, hb⟩ := ih h
      exact ⟨input :: first, rest, by simp [hi], hb⟩

/-- What holds of the empty log and the start, and is kept by every event that is
allowed, holds of a run of such events. -/
theorem run_induction {motive : List (Event σ ι) → σ → Prop} {allowed : Event σ ι → Prop}
    (start : motive [] s)
    (keep : ∀ log event, motive log event.before → allowed event →
      motive (log ++ [event]) (event.after step))
    (h : ∀ event ∈ history step s inputs, allowed event) :
    motive (history step s inputs) (final step s inputs) := by
  induction inputs using List.reverseRecOn with
  | nil => exact start
  | append_singleton inputs input ih =>
    rw [history_append] at h ⊢
    rw [final_append]
    apply keep
    · exact ih (fun event he => h event (List.mem_append_left _ he))
    · exact h _ (List.mem_append_right _ (List.mem_singleton.mpr rfl))

/-- An invariant of every step holds at the end of every run. -/
theorem final_invariant {motive : σ → Prop} (start : motive s)
    (keep : ∀ s input, motive s → motive (step s input)) (inputs : List ι) :
    motive (final step s inputs) :=
  run_induction (motive := fun _ => motive) start
    (fun _ event h (_ : True) => keep event.before event.input h) (fun _ _ => trivial)

section Fifo

variable {α : Type} {view : σ → List α} {added : σ → ι → List α} {removed : σ → ι → Nat}
  {I : σ → Prop}

/-- What was put in, without as many items as were taken. -/
theorem fifo_run (keep : ∀ s input, I s → I (step s input))
    (fifo : ∀ s input, I s → view (step s input) = (view s ++ added s input).drop (removed s input))
    (front : ∀ s input, I s → removed s input ≤ (view s).length) (hs : I s)
    (inputs : List ι) :
    view (final step s inputs) =
      (view s ++ (history step s inputs).flatMap (fun event => added event.before event.input)).drop
        ((history step s inputs).map (fun event => removed event.before event.input)).sum := by
  induction inputs generalizing s with
  | nil => simp [history]
  | cons input inputs ih =>
    have hr : removed s input ≤ (view s ++ added s input).length := by
      rw [List.length_append]
      exact Nat.le_trans (front s input hs) (Nat.le_add_right _ _)
    rw [final_cons, ih (keep s input hs), fifo s input hs]
    simp only [history, List.flatMap_cons, List.map_cons, List.sum_cons]
    rw [← List.drop_drop, ← List.append_assoc, List.drop_append_of_le_length hr]

end Fifo

section Simulation

variable {τ κ : Type} {translate : σ → ι → κ}

/-- The events of a machine as those of one it is seen as. -/
def Event.seen (view : σ → τ) (translate : σ → ι → κ) (event : Event σ ι) : Event τ κ :=
  ⟨view event.before, translate event.before event.input⟩

/-- A machine whose every step is seen as a step of another one runs as that one does. -/
theorem run_simulation (h : ∀ s input, view (step s input) = step' (view s) (translate s input))
    (s : σ) (inputs : List ι) :
    let seen := (history step s inputs).map (Event.seen view translate)
    history step' (view s) (seen.map Event.input) = seen ∧
      final step' (view s) (seen.map Event.input) = view (final step s inputs) := by
  induction inputs generalizing s with
  | nil => exact ⟨rfl, rfl⟩
  | cons input inputs ih =>
    obtain ⟨hh, hf⟩ := ih (step s input)
    simp only [history, List.map_cons, Event.seen, final_cons, ← h] at hh hf ⊢
    exact ⟨congrArg _ hh, hf⟩

end Simulation

end IocpRuntime.Lib.Runs
