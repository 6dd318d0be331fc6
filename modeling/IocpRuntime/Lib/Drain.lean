import Mathlib.Logic.Relation

/-! A resource that is shut down by draining: work starts only while it is open, the
first stop keeps its cause, and it ends once, when the last of its work has finished. -/

namespace IocpRuntime.Lib.Drain

inductive Phase where
  | opened
  | draining
  | ended
  deriving DecidableEq, Repr

def Phase.rank : Phase → Nat
  | .opened => 0
  | .draining => 1
  | .ended => 2

structure Resource (ρ : Type) where
  phase : Phase
  outstanding : Nat
  cause : ρ
  announced : Nat

variable {ρ : Type}

inductive Step : Resource ρ → Resource ρ → Prop
  | work {s : Resource ρ} (h : s.phase = .opened) :
      Step s { s with outstanding := s.outstanding + 1 }
  | finish (s : Resource ρ) : Step s { s with outstanding := s.outstanding - 1 }
  | stop {s : Resource ρ} (h : s.phase = .opened) (cause : ρ) :
      Step s { s with phase := .draining, cause := cause }
  | settle {s : Resource ρ} (h : s.phase = .draining) (hdrained : s.outstanding = 0) :
      Step s { s with phase := .ended, announced := s.announced + 1 }

abbrev Steps : Resource ρ → Resource ρ → Prop := Relation.ReflTransGen Step

theorem Step.forward (h : Step s t) : s.phase.rank ≤ t.phase.rank := by
  cases h with
  | work => exact Nat.le_refl _
  | finish => exact Nat.le_refl _
  | stop ho => simp [ho, Phase.rank]
  | settle hd => simp [hd, Phase.rank]

theorem Steps.forward (h : Steps s t) : s.phase.rank ≤ t.phase.rank := by
  induction h with
  | refl => exact Nat.le_refl _
  | tail _ hs ih => exact Nat.le_trans ih hs.forward

theorem Step.opened (h : Step s t) (ho : t.phase = .opened) : s.phase = .opened := by
  cases h with
  | work => exact ho
  | finish => exact ho
  | stop hs => exact hs
  | settle => cases ho

theorem Steps.opened (h : Steps s t) (ho : t.phase = .opened) : s.phase = .opened := by
  induction h with
  | refl => exact ho
  | tail _ hs ih => exact ih (hs.opened ho)

/-- The cause is set by the stop and by nothing else. -/
theorem Step.cause_kept (h : Step s t) (hp : s.phase ≠ .opened ∨ t.phase = .opened) :
    t.cause = s.cause := by
  cases h with
  | work => rfl
  | finish => rfl
  | stop ho => simp [ho] at hp
  | settle => rfl

theorem Steps.cause_kept (h : Steps s t) (hp : s.phase ≠ .opened ∨ t.phase = .opened) :
    t.cause = s.cause := by
  induction h with
  | refl => rfl
  | tail hs hst ih =>
    rcases hp with hf | hl
    · have hm := fun ho => hf (Steps.opened hs ho)
      rw [hst.cause_kept (.inl hm), ih (.inl hf)]
    · rw [hst.cause_kept (.inr hl), ih (.inr (hst.opened hl))]

/-- The end is announced once, and nothing is outstanding then. -/
structure Sound (s : Resource ρ) : Prop where
  drained : s.phase = .ended → s.outstanding = 0
  announced : s.announced = if s.phase = .ended then 1 else 0

theorem Sound.step (h : Sound s) (hs : Step s t) : Sound t := by
  obtain ⟨hdr, ha⟩ := h
  cases hs with
  | work ho => exact ⟨by simp [ho], ha⟩
  | finish =>
    refine ⟨fun he => ?_, ha⟩
    have hz := hdr he
    dsimp only
    omega
  | stop ho => exact ⟨by simp, by simpa [ho] using ha⟩
  | settle hd hz => exact ⟨fun _ => hz, by simpa [hd] using ha⟩

theorem Sound.steps (h : Sound s) (hs : Steps s t) : Sound t := by
  induction hs with
  | refl => exact h
  | tail _ hst ih => exact ih.step hst

end IocpRuntime.Lib.Drain
