import Mathlib.Data.List.Basic

/-! A reader that takes items off the front of a buffer, round by round, and is
fed piece by piece. If more items at the back do not change a round, then the
pieces do not matter, only the items. -/

namespace IocpRuntime.Lib.Incremental

/-- One round on a state and a buffer, and the states in which nothing is buffered. -/
structure Reader (σ α : Type) where
  round : σ → List α → Option (σ × List α)
  deaf : σ → Bool

variable {σ α : Type} (reader : Reader σ α)

/-- New items reach the back of the buffer. -/
def Reader.join (x : σ × List α) (more : List α) : σ × List α :=
  (x.1, if reader.deaf x.1 then x.2 else x.2 ++ more)

/-- At most as many rounds as `fuel`. -/
def Reader.drain : Nat → σ × List α → σ × List α
  | 0, x => x
  | fuel + 1, x =>
    match reader.round x.1 x.2 with
    | none => x
    | some next => drain fuel next

/-- A buffer of `n` items is used up after `n` rounds. -/
def Reader.feed (x : σ × List α) (more : List α) : σ × List α :=
  let y := reader.join x more
  reader.drain y.2.length y

/-- Every round takes something off the buffer, and does the same whatever stands
behind what it takes. -/
structure Stable : Prop where
  shorter : ∀ {s buffer next}, reader.round s buffer = some next → next.2.length < buffer.length
  behind : ∀ {s buffer next}, reader.round s buffer = some next →
    ∀ more, reader.round s (buffer ++ more) = some (reader.join next more)
  deaf : ∀ {s}, reader.deaf s = true → ∀ buffer, reader.round s buffer = none

variable {reader}

theorem join_join : reader.join (reader.join x a) b = reader.join x (a ++ b) := by
  unfold Reader.join
  split <;> simp_all

@[simp] theorem join_nil : reader.join x [] = x := by
  unfold Reader.join
  split <;> simp

/-- Fuel beyond the length of the buffer changes nothing. -/
theorem drain_enough (h : Stable reader) (hf : x.2.length ≤ fuel) :
    reader.drain fuel x = reader.drain x.2.length x := by
  induction fuel using Nat.strongRecOn generalizing x with
  | ind fuel ih =>
    cases fuel with
    | zero => rw [Nat.le_zero.mp hf]
    | succ fuel =>
      cases hlen : x.2.length with
      | zero =>
        have hno : reader.round x.1 x.2 = none := by
          cases hr : reader.round x.1 x.2 with
          | none => rfl
          | some next =>
            have hlt := h.shorter hr
            omega
        simp only [Reader.drain, hno]
      | succ n =>
        simp only [Reader.drain]
        cases hr : reader.round x.1 x.2 with
        | none => rfl
        | some next =>
          have hlt := h.shorter hr
          dsimp only
          rw [ih fuel (Nat.lt_succ_self _) (by omega)]
          rcases Nat.lt_or_ge n (fuel + 1) with hn | hn
          · exact (ih n hn (by omega)).symm
          · omega

theorem drain_some (h : Stable reader) (hr : reader.round x.1 x.2 = some next) :
    reader.drain x.2.length x = reader.drain next.2.length next := by
  have hlt := h.shorter hr
  obtain ⟨n, hn⟩ : ∃ n, x.2.length = n + 1 := ⟨x.2.length - 1, by omega⟩
  rw [hn]
  simp only [Reader.drain, hr]
  exact drain_enough h (by omega)

theorem drain_none (hr : reader.round x.1 x.2 = none) : reader.drain fuel x = x := by
  cases fuel with
  | zero => rfl
  | succ fuel => simp only [Reader.drain, hr]

/-- Items that arrive behind the buffer may as well arrive after it is drained. -/
theorem drain_join (h : Stable reader) (x : σ × List α) (more : List α) :
    reader.drain (reader.join x more).2.length (reader.join x more) =
      reader.feed (reader.drain x.2.length x) more := by
  obtain ⟨n, hn⟩ : ∃ n, x.2.length = n := ⟨_, rfl⟩
  induction n using Nat.strongRecOn generalizing x with
  | ind n ih =>
    cases hr : reader.round x.1 x.2 with
    | none => rw [drain_none hr]; rfl
    | some next =>
      have hlt := h.shorter hr
      have hde : reader.deaf x.1 = false := by
        cases hd : reader.deaf x.1 with
        | false => rfl
        | true =>
          rw [h.deaf hd] at hr
          cases hr
      have hj : reader.round (reader.join x more).1 (reader.join x more).2 =
          some (reader.join next more) := by
        simpa [Reader.join, hde] using h.behind hr more
      rw [drain_some h hj, drain_some h hr]
      exact ih next.2.length (by omega) next rfl

theorem feed_feed (h : Stable reader) :
    reader.feed (reader.feed x a) b = reader.feed x (a ++ b) := by
  have hj := drain_join h (reader.join x a) b
  rw [join_join] at hj
  exact hj.symm

theorem feed_pieces (h : Stable reader) (x : σ × List α) (first : List α) (pieces : List (List α)) :
    pieces.foldl reader.feed (reader.feed x first) = reader.feed x (first ++ pieces.flatten) := by
  induction pieces generalizing first with
  | nil => simp
  | cons piece pieces ih =>
    rw [List.foldl_cons, feed_feed h, ih, List.flatten_cons, List.append_assoc]

end IocpRuntime.Lib.Incremental
