import Mathlib.Data.List.Chain

/-! Messages made under a lock and handed over after it: each call leaves a list
of messages, in lock order, and hands them over one at a time while other calls
do the same. -/

namespace IocpRuntime.Lib.Relay

variable {α : Type}

/-- A call that has released the lock, with the messages it has still to send. -/
structure Call (α : Type) where
  thread : Nat
  left : List α
  deriving DecidableEq, Repr

def unsent (calls : List (Call α)) : List α := calls.flatMap Call.left

/-- The next message of a thread, between the calls before and after its own. -/
structure Pick (α : Type) where
  before : List (Call α)
  message : α
  rest : List α
  after : List (Call α)

def pick (thread : Nat) : List (Call α) → Option (Pick α)
  | [] => none
  | call :: calls =>
    match call.left with
    | message :: rest =>
      if call.thread = thread then some ⟨[], message, rest, calls⟩
      else (pick thread calls).map (fun p => { p with before := call :: p.before })
    | [] => (pick thread calls).map (fun p => { p with before := call :: p.before })

/-- The calls after the message has been handed over. -/
def Pick.handed (thread : Nat) (p : Pick α) : List (Call α) :=
  p.before ++ ⟨thread, p.rest⟩ :: p.after

theorem pick_eq (h : pick thread calls = some p) :
    calls = p.before ++ ⟨thread, p.message :: p.rest⟩ :: p.after := by
  induction calls generalizing p with
  | nil => cases h
  | cons call calls ih =>
    have hs : ∀ q, (pick thread calls).map
        (fun p => { p with before := call :: p.before }) = some q →
        call :: calls = q.before ++ ⟨thread, q.message :: q.rest⟩ :: q.after := by
      intro q hq
      obtain ⟨p', hp', rfl⟩ := Option.map_eq_some_iff.mp hq
      rw [ih hp']
      rfl
    obtain ⟨owner, left⟩ := call
    cases left with
    | nil => exact hs p h
    | cons message rest =>
      simp only [pick] at h
      split at h
      · rename_i ho
        cases h
        rw [← ho]
        rfl
      · exact hs p h

@[simp] theorem unsent_append : unsent (a ++ b) = unsent a ++ unsent b := by
  simp [unsent]

@[simp] theorem unsent_cons : unsent (call :: calls) = call.left ++ unsent calls := by
  simp [unsent]

/-- The messages of a kind have left in the order they were made: what is made
is what is sent, then what is unsent in lock order. -/
def InOrder (kind : α → Bool) (made sent : List α) (calls : List (Call α)) : Prop :=
  made.filter kind = sent.filter kind ++ (unsent calls).filter kind

namespace InOrder
theorem start : InOrder kind [] [] [] := rfl

theorem enter (h : InOrder kind made sent calls) :
    InOrder kind (made ++ messages) sent (calls ++ [⟨thread, messages⟩]) := by
  unfold InOrder at h ⊢
  simp [h, unsent]

/-- Handing over keeps the order, if no earlier call has a message of the kind left. -/
theorem send (h : InOrder kind made sent calls) (hp : pick thread calls = some p)
    (hf : kind p.message = true → (unsent p.before).filter kind = []) :
    InOrder kind made (sent ++ [p.message]) (p.handed thread) := by
  unfold InOrder at h ⊢
  rw [pick_eq hp] at h
  rw [h]
  cases hk : kind p.message with
  | false => simp [Pick.handed, hk]
  | true => simp [Pick.handed, hk, hf hk]

theorem sent_first (h : InOrder kind made sent calls) : sent.filter kind <+: made.filter kind := by
  unfold InOrder at h
  rw [h]
  exact List.prefix_append _ _

end InOrder

section Blocks
-- messages that leave a block open, messages that continue one, and which
-- continuation belongs to which message
variable (opens continues : α → Bool) (fits : α → α → Prop)

/-- A continuation follows exactly an open message, and fits it. -/
def Follows (a b : α) : Prop := opens a = continues b ∧ (opens a = true → fits a b)

/-- A list of messages that starts no block in the middle and leaves none open. -/
structure Whole (messages : List α) : Prop where
  chain : messages.IsChain (Follows opens continues fits)
  first : ∀ m, messages.head? = some m → continues m = false
  last : ∀ m, messages.getLast? = some m → opens m = false

/-- What is left of a call: a chain that leaves no block open. -/
structure Remains (messages : List α) : Prop where
  chain : messages.IsChain (Follows opens continues fits)
  last : ∀ m, messages.getLast? = some m → opens m = false

/-- The sent messages have their blocks in one piece, and the block that is open
at the end is continued by a call in flight. -/
structure InBlocks (sent : List α) (calls : List (Call α)) : Prop where
  chain : sent.IsChain (Follows opens continues fits)
  first : ∀ m, sent.head? = some m → continues m = false
  remains : ∀ call ∈ calls, Remains opens continues fits call.left
  awaited : ∀ call ∈ calls, ∀ m, call.left.head? = some m → continues m = true →
    ∃ tip, sent.getLast? = some tip ∧ Follows opens continues fits tip m
  unfinished : ∀ tip, sent.getLast? = some tip → opens tip = true →
    ∃ call ∈ calls, ∃ m, call.left.head? = some m ∧ continues m = true

variable {opens continues fits}

theorem InBlocks.start : InBlocks opens continues fits [] [] where
  chain := .nil
  first := fun m h => by cases h
  remains := fun call h => by cases h
  awaited := fun call h => by cases h
  unfinished := fun tip h => by cases h

theorem InBlocks.enter (h : InBlocks opens continues fits sent calls)
    (hm : Whole opens continues fits messages) :
    InBlocks opens continues fits sent (calls ++ [⟨thread, messages⟩]) := by
  refine ⟨h.chain, h.first, ?_, ?_, ?_⟩
  · intro call hc
    rcases List.mem_append.mp hc with hold | hnew
    · exact h.remains call hold
    · rw [List.mem_singleton.mp hnew]
      exact ⟨hm.chain, hm.last⟩
  · intro call hc m hh hco
    rcases List.mem_append.mp hc with hold | hnew
    · exact h.awaited call hold m hh hco
    · rw [List.mem_singleton.mp hnew] at hh
      rw [hm.first m hh] at hco
      cases hco
  · intro tip htip ho
    obtain ⟨call, hc, hr⟩ := h.unfinished tip htip ho
    exact ⟨call, List.mem_append_left _ hc, hr⟩

/-- Handing over keeps the blocks in one piece, if no other call is in the middle
of a block. -/
theorem InBlocks.send (h : InBlocks opens continues fits sent calls)
    (hp : pick thread calls = some p)
    (hfr : ∀ call ∈ p.before ++ p.after, ∀ m, call.left.head? = some m → continues m = false) :
    InBlocks opens continues fits (sent ++ [p.message]) (p.handed thread) := by
  have hca := pick_eq hp
  have hown : ⟨thread, p.message :: p.rest⟩ ∈ calls := by
    rw [hca]
    simp
  have hre := h.remains _ hown
  -- the last message sent and this one follow each other
  have htip : ∀ tip, sent.getLast? = some tip → Follows opens continues fits tip p.message := by
    intro tip htip
    cases hco : continues p.message with
    | true =>
      obtain ⟨tip', htip', hf⟩ := h.awaited _ hown p.message rfl hco
      rw [htip] at htip'
      cases htip'
      exact hf
    | false =>
      have hcl : opens tip = false := by
        cases hop : opens tip with
        | false => rfl
        | true =>
          obtain ⟨call, hcal, m, hh, hm⟩ := h.unfinished tip htip hop
          rw [hca] at hcal
          rcases List.mem_append.mp hcal with hb | hrs
          · rw [hfr call (List.mem_append_left _ hb) m hh] at hm
            cases hm
          · rcases List.mem_cons.mp hrs with rfl | ha
            · cases hh
              rw [hco] at hm
              cases hm
            · rw [hfr call (List.mem_append_right _ ha) m hh] at hm
              cases hm
      exact ⟨hcl.trans hco.symm, fun ho => by rw [hcl] at ho; cases ho⟩
  have hrs : Remains opens continues fits p.rest := by
    refine ⟨(List.isChain_cons.mp hre.chain).2, ?_⟩
    intro m hm
    apply hre.last
    cases hr : p.rest with
    | nil =>
      rw [hr] at hm
      cases hm
    | cons head tail =>
      rw [hr] at hm
      rw [List.getLast?_cons_cons]
      exact hm
  have hme : ∀ call ∈ p.handed thread, call ∈ p.before ++ p.after ∨ call = ⟨thread, p.rest⟩ := by
    intro call hcal
    rcases List.mem_append.mp hcal with hb | hc
    · exact Or.inl (List.mem_append_left _ hb)
    · rcases List.mem_cons.mp hc with rfl | ha
      · exact Or.inr rfl
      · exact Or.inl (List.mem_append_right _ ha)
  refine ⟨?_, ?_, ?_, ?_, ?_⟩
  · refine List.isChain_append.mpr ⟨h.chain, .singleton _, ?_⟩
    intro tip ht m hm
    cases hm
    exact htip tip ht
  · intro m hm
    cases hs : sent with
    | nil =>
      rw [hs] at hm
      cases hm
      cases hco : continues p.message with
      | false => rfl
      | true =>
        obtain ⟨tip, ht, -⟩ := h.awaited _ hown p.message rfl hco
        rw [hs] at ht
        cases ht
    | cons head tail =>
      rw [hs] at hm
      exact h.first m (by rw [hs]; exact hm)
  · intro call hcal
    rcases hme call hcal with hot | rfl
    · apply h.remains
      rw [hca]
      rcases List.mem_append.mp hot with hb | ha
      · exact List.mem_append_left _ hb
      · exact List.mem_append_right _ (List.mem_cons_of_mem _ ha)
    · exact hrs
  · intro call hcal m hh hco
    rcases hme call hcal with hot | rfl
    · rw [hfr call hot m hh] at hco
      cases hco
    · exact ⟨p.message, List.getLast?_concat .., (List.isChain_cons.mp hre.chain).1 m hh⟩
  · intro tip ht hop
    rw [List.getLast?_concat] at ht
    cases ht
    refine ⟨⟨thread, p.rest⟩, by simp [Pick.handed], ?_⟩
    cases hr : p.rest with
    | nil =>
      rw [hr] at hre
      rw [hre.last p.message rfl] at hop
      cases hop
    | cons head tail =>
      rw [hr] at hre
      obtain ⟨hfo, -⟩ := (List.isChain_cons.mp hre.chain).1 head rfl
      exact ⟨head, rfl, hfo.symm.trans hop⟩

end Blocks

end IocpRuntime.Lib.Relay
