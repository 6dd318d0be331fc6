import IocpRuntime.Lib.Runs

/-! Slots that pass a point once. A machine keeps a list of slots, each with a rank that never
falls, and an event that fires for a slot raises it past a bound. -/

namespace IocpRuntime.Lib.Once
open Runs

section Slots

variable {α : Type} (rank : α → Nat)

def Later (before after : List α) : Prop :=
  ∀ (slot : Nat) value, before[slot]? = some value →
    ∃ next, after[slot]? = some next ∧ rank value ≤ rank next

def Reached (bound : Nat) (slots : List α) (slot : Nat) : Prop :=
  ∃ value, slots[slot]? = some value ∧ bound ≤ rank value

variable {rank}

theorem Later.refl : Later rank slots slots :=
  fun _ value h => ⟨value, h, Nat.le_refl _⟩

/-- One slot has moved on, and there may be new ones. -/
theorem Later.set (hold : slots[place]? = some old) (hr : rank old ≤ rank new)
    (ha : after = slots.set place new ++ more) : Later rank slots after := by
  intro other value hv
  have ho := (List.getElem?_eq_some_iff.mp hv).1
  rw [ha, List.getElem?_append_left (by rw [List.length_set]; exact ho)]
  by_cases hs : place = other
  · subst hs
    rw [hold] at hv
    cases hv
    exact ⟨new, List.getElem?_set_self ho, hr⟩
  · exact ⟨value, (List.getElem?_set_ne hs).trans hv, Nat.le_refl _⟩

theorem Later.moved (hold : slots[place]? = some old) (ha : after = slots.set place new)
    (hr : rank old ≤ rank new) : Later rank slots after :=
  Later.set hold hr (ha.trans (List.append_nil _).symm)

theorem Later.append : Later rank slots (slots ++ more) := by
  intro slot value hv
  have hs := (List.getElem?_eq_some_iff.mp hv).1
  exact ⟨value, (List.getElem?_append_left hs).trans hv, Nat.le_refl _⟩

theorem Later.map (hf : ∀ value, rank (f value) = rank value) :
    Later rank slots (slots.map f) := by
  intro slot value hv
  exact ⟨f value, by rw [List.getElem?_map, hv]; rfl, Nat.le_of_eq (hf value).symm⟩

theorem Reached.of_map (hf : ∀ value, rank (f value) = rank value)
    (h : Reached rank bound (slots.map f) slot) : Reached rank bound slots slot := by
  obtain ⟨value, hv, hr⟩ := h
  rw [List.getElem?_map] at hv
  obtain ⟨before, hb, rfl⟩ := Option.map_eq_some_iff.mp hv
  exact ⟨before, hb, hf before ▸ hr⟩

theorem Reached.later (h : Reached rank bound slots slot) (hl : Later rank slots after) :
    Reached rank bound after slot := by
  obtain ⟨value, hv, hb⟩ := h
  obtain ⟨next, hn, hle⟩ := hl slot value hv
  exact ⟨next, hn, Nat.le_trans hb hle⟩

theorem Reached.of_set (hold : slots[place]? = some old) (hb : bound ≤ rank new → bound ≤ rank old)
    (h : Reached rank bound (slots.set place new) slot) : Reached rank bound slots slot := by
  obtain ⟨value, hv, hr⟩ := h
  by_cases hs : place = slot
  · subst hs
    have hsl := (List.getElem?_eq_some_iff.mp hold).1
    rw [List.getElem?_set_self hsl] at hv
    cases hv
    exact ⟨old, hold, hb hr⟩
  · exact ⟨value, (List.getElem?_set_ne hs).symm.trans hv, hr⟩

theorem Reached.of_append (hm : ∀ value ∈ more, ¬ bound ≤ rank value)
    (h : Reached rank bound (slots ++ more) slot) : Reached rank bound slots slot := by
  obtain ⟨value, hv, hr⟩ := h
  rcases Nat.lt_or_ge slot slots.length with hs | hs
  · exact ⟨value, (List.getElem?_append_left hs).symm.trans hv, hr⟩
  · rw [List.getElem?_append_right hs] at hv
    exact absurd hr (hm value (List.mem_of_getElem? hv))

end Slots

variable {σ ι α : Type} (step : σ → ι → σ) (slots : σ → List α) (rank : α → Nat) (bound : Nat)
  (fired : Event σ ι → Option Nat)

/-- What each step has to keep. -/
structure Passes : Prop where
  later : ∀ s input, Later rank (slots s) (slots (step s input))
  fires : ∀ event slot, fired event = some slot →
    ¬ Reached rank bound (slots event.before) slot ∧
      Reached rank bound (slots (event.after step)) slot

variable {step slots rank bound fired}

/-- An event fires for each slot at most once, and the slot is past the bound from then on. -/
theorem Passes.nodup (h : Passes step slots rank bound fired) :
    ((history step s inputs).filterMap fired).Nodup ∧
      ∀ slot ∈ (history step s inputs).filterMap fired,
        Reached rank bound (slots (final step s inputs)) slot := by
  refine run_induction (motive := fun log s => (log.filterMap fired).Nodup ∧
    ∀ slot ∈ log.filterMap fired, Reached rank bound (slots s) slot) ⟨List.Pairwise.nil, by simp⟩ ?_
    (fun _ _ => trivial)
  intro log event hlog (_ : True)
  obtain ⟨hn, hp⟩ := hlog
  have hl : ∀ slot ∈ log.filterMap fired, Reached rank bound (slots (event.after step)) slot :=
    fun slot hsl => (hp slot hsl).later (h.later _ _)
  rw [List.filterMap_append]
  cases hf : fired event with
  | none =>
    rw [List.filterMap_cons_none hf, List.filterMap_nil, List.append_nil]
    exact ⟨hn, hl⟩
  | some slot =>
    obtain ⟨hb, ha⟩ := h.fires event slot hf
    rw [List.filterMap_cons_some hf, List.filterMap_nil]
    refine ⟨List.nodup_append.mpr ⟨hn, List.pairwise_singleton _ _, ?_⟩, ?_⟩
    · intro first hfi second hs heq
      rw [heq, List.mem_singleton.mp hs] at hfi
      exact hb (hp slot hfi)
    · intro other ho
      rcases List.mem_append.mp ho with ho | ho
      · exact hl other ho
      · rw [List.mem_singleton.mp ho]
        exact ha

/-- If a slot passes the bound only by such an event, the slots past it are those that an event
fired for. -/
theorem Passes.fired_iff (h : Passes step slots rank bound fired)
    (only : ∀ event slot, ¬ Reached rank bound (slots event.before) slot →
      Reached rank bound (slots (event.after step)) slot → fired event = some slot)
    (start : ∀ slot, ¬ Reached rank bound (slots s) slot) :
    slot ∈ (history step s inputs).filterMap fired ↔
      Reached rank bound (slots (final step s inputs)) slot := by
  refine ⟨h.nodup.2 slot, ?_⟩
  refine run_induction
    (motive := fun log s => Reached rank bound (slots s) slot → slot ∈ log.filterMap fired)
    (fun hp => absurd hp (start slot)) ?_ (fun _ _ => trivial)
  intro log event hlog (_ : True) hp
  rw [List.filterMap_append]
  by_cases hb : Reached rank bound (slots event.before) slot
  · exact List.mem_append_left _ (hlog hb)
  · apply List.mem_append_right
    rw [List.filterMap_cons_some (only event slot hb hp)]
    exact List.mem_cons_self

end IocpRuntime.Lib.Once
