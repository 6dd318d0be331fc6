import IocpRuntime.Lib.Runs

/-! A queue within a capacity that grows on demand and up to a maximum, as a specification:
which items it holds and how many it has places for, not where they lie. -/

namespace IocpRuntime.Lib.BoundedStore

/-- How capacities grow, and which of them there is memory for. -/
structure Growth where
  next (maximum required capacity : Nat) : Nat
  available : Nat → Bool
  bounded : ∀ {maximum required capacity}, capacity ≤ maximum → required ≤ maximum →
    required ≤ next maximum required capacity ∧ capacity ≤ next maximum required capacity ∧
      next maximum required capacity ≤ maximum

@[ext] structure Store (α : Type) where
  held : List α
  capacity : Nat
  maximum : Nat
  within : held.length ≤ capacity
  limited : capacity ≤ maximum

inductive Answer where
  | ready | limitExceeded | done | thrown
  deriving DecidableEq, Repr

/-- A `commit` takes its items from the free places; `other` concerns neither items nor capacity. -/
inductive Request (α : Type) where
  | ensure (count : Nat)
  | append (items : List α)
  | commit (places : List α) (count : Nat)
  | consume (count : Nat)
  | clear
  | other (answer : Answer)

variable {α : Type} (growth : Growth)

namespace Store

variable (s : Store α)

def room : Nat := s.capacity - s.held.length

def ensure (count : Nat) : Answer × Store α :=
  if count ≤ s.room then (.ready, s)
  else if hlimit : s.maximum < s.held.length + count then (.limitExceeded, s)
  else
    let capacity := growth.next s.maximum (s.held.length + count) s.capacity
    have hbounded := growth.bounded s.limited (Nat.le_of_not_lt hlimit)
    if growth.available capacity then
      (.ready, { s with
        capacity := capacity
        within := Nat.le_trans s.within hbounded.2.1
        limited := hbounded.2.2 })
    else (.thrown, s)

def push (items : List α) (h : items.length ≤ s.room) : Store α where
  held := s.held ++ items
  capacity := s.capacity
  maximum := s.maximum
  within := by
    have hwithin := s.within
    rw [List.length_append]
    unfold room at h
    omega
  limited := s.limited

def append (items : List α) : Answer × Store α :=
  let (answer, grown) := s.ensure growth items.length
  if h : answer = .ready ∧ items.length ≤ grown.room then (.ready, grown.push items h.2)
  else (answer, grown)

def commit (places : List α) (count : Nat) : Answer × Store α :=
  if h : count ≤ s.room then
    (.done, s.push (places.take count) (Nat.le_trans (List.length_take_le _ _) h))
  else (.thrown, s)

def drop (count : Nat) : Store α where
  held := s.held.drop count
  capacity := s.capacity
  maximum := s.maximum
  within := by
    have hwithin := s.within
    rw [List.length_drop]
    omega
  limited := s.limited

def consume (count : Nat) : Answer × Store α :=
  if count ≤ s.held.length then (.done, s.drop count) else (.thrown, s)

def perform : Request α → Answer × Store α
  | .ensure count => s.ensure growth count
  | .append items => s.append growth items
  | .commit places count => s.commit places count
  | .consume count => s.consume count
  | .clear => (.done, s.drop s.held.length)
  | .other answer => (answer, s)

/-- The items a request brings in, and how many it takes out. -/
def added : Request α → List α
  | .append items => if (s.append growth items).1 = .ready then items else []
  | .commit places count => if count ≤ s.room then places.take count else []
  | _ => []

def removed : Request α → Nat
  | .consume count => if count ≤ s.held.length then count else 0
  | .clear => s.held.length
  | _ => 0

end Store

open Store

variable (s : Store α)

/-- What a request for room does to a store. -/
inductive Ensured (s : Store α) (count : Nat) : Answer × Store α → Prop
  | ready (grown : Store α) (held : grown.held = s.held) (maximum : grown.maximum = s.maximum)
      (capacity : s.capacity ≤ grown.capacity) (room : count ≤ grown.room)
      (limit : s.held.length + count ≤ s.maximum) : Ensured s count (.ready, grown)
  | limitExceeded (limit : s.maximum < s.held.length + count) : Ensured s count (.limitExceeded, s)
  | thrown (limit : s.held.length + count ≤ s.maximum) : Ensured s count (.thrown, s)

theorem ensure_spec (count : Nat) : Ensured s count (s.ensure growth count) := by
  have hwi := s.within
  have hli := s.limited
  unfold Store.ensure
  split
  · rename_i hr
    refine .ready s rfl rfl (Nat.le_refl _) hr ?_
    unfold Store.room at hr
    omega
  · split
    · rename_i hl
      exact .limitExceeded hl
    · rename_i hl
      have hb := growth.bounded s.limited (Nat.le_of_not_lt hl)
      dsimp only
      split
      · refine .ready _ rfl rfl hb.2.1 ?_ (Nat.le_of_not_lt hl)
        exact Nat.le_sub_of_add_le' hb.1
      · exact .thrown (Nat.le_of_not_lt hl)

/-- Appending is finding room and pushing. -/
inductive Appended (s : Store α) (items : List α) : Answer × Store α → Prop
  | ready (next : Store α) (held : next.held = s.held ++ items) (maximum : next.maximum = s.maximum)
      (capacity : s.capacity ≤ next.capacity) (limit : s.held.length + items.length ≤ s.maximum) :
      Appended s items (.ready, next)
  | limitExceeded (limit : s.maximum < s.held.length + items.length) :
      Appended s items (.limitExceeded, s)
  | thrown (limit : s.held.length + items.length ≤ s.maximum) : Appended s items (.thrown, s)

theorem append_spec (items : List α) : Appended s items (s.append growth items) := by
  have he := ensure_spec growth s items.length
  unfold Store.append
  generalize s.ensure growth items.length = outcome at he
  cases he <;> dsimp only
  case ready grown hh hm hc hr hl =>
    rw [dif_pos ⟨rfl, hr⟩]
    exact .ready _ (congrArg (· ++ items) hh) hm hc hl
  case limitExceeded hl =>
    rw [dif_neg (fun h => Answer.noConfusion h.1)]
    exact .limitExceeded hl
  case thrown hl =>
    rw [dif_neg (fun h => Answer.noConfusion h.1)]
    exact .thrown hl

theorem ensure_full_iff :
    (s.ensure growth count).1 = .limitExceeded ↔ s.maximum < s.held.length + count := by
  have he := ensure_spec growth s count
  generalize s.ensure growth count = outcome at he
  cases he <;> simp_all

theorem ensure_ready (hl : s.held.length + count ≤ s.maximum) (ha : count ≤ s.room ∨
      growth.available (growth.next s.maximum (s.held.length + count) s.capacity)) :
    (s.ensure growth count).1 = .ready := by
  unfold Store.ensure
  split
  · rfl
  · rename_i hr
    rw [dif_neg (Nat.not_lt.mpr hl)]
    dsimp only
    rw [if_pos (ha.resolve_left hr)]

/-- Items are refused as the room for them is. -/
theorem append_answer : (s.append growth items).1 = (s.ensure growth items.length).1 := by
  have he := ensure_spec growth s items.length
  unfold Store.append
  generalize s.ensure growth items.length = outcome at he
  cases he with
  | ready grown _ _ _ hr => simp [hr]
  | limitExceeded => simp
  | thrown => simp

/-- A request puts items behind those held and takes items off their front. -/
theorem perform_held : (s.perform growth request).2.held =
    (s.held ++ s.added growth request).drop (s.removed request) := by
  cases request with
  | ensure count =>
    have he := ensure_spec growth s count
    simp only [Store.perform, Store.added, Store.removed, List.append_nil, List.drop_zero]
    generalize s.ensure growth count = outcome at he
    cases he with
    | ready grown hh => exact hh
    | limitExceeded => rfl
    | thrown => rfl
  | append items =>
    have ha := append_spec growth s items
    simp only [Store.perform, Store.added, Store.removed, List.drop_zero]
    generalize s.append growth items = outcome at ha
    cases ha with
    | ready next hh => simp [hh]
    | limitExceeded => simp
    | thrown => simp
  | commit places count =>
    simp only [Store.perform, Store.commit, Store.added, Store.removed, List.drop_zero]
    split <;> simp [Store.push]
  | consume count =>
    simp only [Store.perform, Store.consume, Store.added, Store.removed, List.append_nil]
    split <;> simp [Store.drop]
  | clear => simp [Store.perform, Store.added, Store.removed, Store.drop]
  | other answer => simp [Store.perform, Store.added, Store.removed]

theorem removed_le : s.removed request ≤ s.held.length := by
  cases request <;> simp only [Store.removed] <;> first | split <;> omega | omega

/-- The capacity never shrinks, and the maximum stays. -/
theorem perform_capacity (request : Request α) :
    s.capacity ≤ (s.perform growth request).2.capacity ∧
      (s.perform growth request).2.maximum = s.maximum := by
  cases request with
  | ensure count =>
    have he := ensure_spec growth s count
    simp only [Store.perform]
    generalize s.ensure growth count = outcome at he
    cases he with
    | ready grown hh hm hc => exact ⟨hc, hm⟩
    | limitExceeded => exact ⟨Nat.le_refl _, rfl⟩
    | thrown => exact ⟨Nat.le_refl _, rfl⟩
  | append items =>
    have ha := append_spec growth s items
    simp only [Store.perform]
    generalize s.append growth items = outcome at ha
    cases ha with
    | ready next hh hm hc => exact ⟨hc, hm⟩
    | limitExceeded => exact ⟨Nat.le_refl _, rfl⟩
    | thrown => exact ⟨Nat.le_refl _, rfl⟩
  | commit places count =>
    simp only [Store.perform, Store.commit]
    split <;> exact ⟨Nat.le_refl _, rfl⟩
  | consume count =>
    simp only [Store.perform, Store.consume]
    split <;> exact ⟨Nat.le_refl _, rfl⟩
  | clear => exact ⟨Nat.le_refl _, rfl⟩
  | other answer => exact ⟨Nat.le_refl _, rfl⟩

def step (request : Request α) : Store α := (s.perform growth request).2

/-- What a store holds after a run: all that was brought in, without as many items as were
taken out. -/
theorem held_run (requests : List (Request α)) : (Runs.final (step growth) s requests).held =
      (s.held ++ (Runs.history (step growth) s requests).flatMap
        (fun event => event.before.added growth event.input)).drop
        ((Runs.history (step growth) s requests).map
          (fun event => event.before.removed event.input)).sum :=
  Runs.fifo_run (I := fun _ => True) (fun _ _ h => h)
    (fun s _ _ => perform_held growth s) (fun s _ _ => removed_le s)
    trivial requests

end IocpRuntime.Lib.BoundedStore
