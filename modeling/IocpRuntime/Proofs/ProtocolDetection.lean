import IocpRuntime.Lib.Runs
import IocpRuntime.Protocol.PrefaceProtocolBootstrap

namespace IocpRuntime.Proofs.ProtocolDetection
open Lib Buffer Http Protocol PrefaceProtocolBootstrap

/-- The stream and the preface differ at a place both have. -/
def Differs (preface stream : Octets) : Prop :=
  ∃ place, place < preface.length ∧ place < stream.length ∧ stream[place]? ≠ preface[place]?

inductive Detects (preface stream : Octets) : Detection → Prop
  | undecided (undecided : stream <+: preface) (short : stream.length < preface.length) :
      Detects preface stream (.undecided stream)
  | fallback {pending remaining : Octets} (all : pending ++ remaining = stream)
      (differs : Differs preface stream) : Detects preface stream (.fallback pending remaining)
  | matched {remaining : Octets} (all : preface ++ remaining = stream) :
      Detects preface stream (.matched preface remaining)

variable {preface pending bytes stream more : Octets}

theorem detect_spec (hp : pending <+: preface) (hs : pending.length < preface.length) :
    Detects preface (pending ++ bytes) (detect preface pending bytes) := by
  induction bytes generalizing pending with
  | nil =>
    rw [List.append_nil]
    exact .undecided hp hs
  | cons value bytes ih =>
    have hall : pending ++ [value] ++ bytes = pending ++ value :: bytes := by simp
    rw [detect]
    split
    · rename_i hd
      refine .fallback hall ⟨pending.length, hs, ?_, ?_⟩
      · simp
      · rw [List.getElem?_append_right (Nat.le_refl _), Nat.sub_self, List.getElem?_cons_zero]
        exact hd.symm
    · rename_i hsa
      -- one more octet of the preface
      have hv : preface[pending.length]? = some value := Decidable.not_not.mp hsa
      have hn : pending ++ [value] <+: preface := by
        obtain ⟨rest, rfl⟩ := hp
        rw [List.getElem?_append_right (Nat.le_refl _), Nat.sub_self] at hv
        cases rest with
        | nil => cases hv
        | cons first rest =>
          cases hv
          exact ⟨rest, by simp⟩
      split
      · rename_i hl
        have hwh : pending ++ [value] = preface :=
          hn.eq_of_length (by simpa using hl)
        rw [← hall, hwh]
        exact .matched rfl
      · rename_i hm
        rw [← hall]
        apply ih hn
        have hle := hn.length_le
        rw [List.length_append, List.length_singleton] at hle ⊢
        omega

/-- Only places of the preface are read. -/
theorem readPlaces_lt (hs : pending.length < preface.length) :
    ∀ place ∈ readPlaces preface pending bytes, place < preface.length := by
  induction bytes generalizing pending with
  | nil => simp [readPlaces]
  | cons value bytes ih =>
    rw [readPlaces, List.forall_mem_cons]
    refine ⟨hs, ?_⟩
    split
    · simp
    · rename_i hm
      rw [not_or] at hm
      apply ih
      rw [List.length_append, List.length_singleton]
      omega

theorem Differs.append (h : Differs preface stream) : Differs preface (stream ++ more) := by
  obtain ⟨place, hp, hs, hd⟩ := h
  refine ⟨place, hp, ?_, ?_⟩
  · rw [List.length_append]
    omega
  · rwa [List.getElem?_append_left hs]

theorem Differs.not_prefix (h : Differs preface stream) : ¬ preface <+: stream := by
  rintro ⟨rest, rfl⟩
  obtain ⟨place, hp, -, hd⟩ := h
  exact hd (List.getElem?_append_left hp)

theorem not_differs_of_undecided (h : stream <+: preface) : ¬ Differs preface stream := by
  obtain ⟨rest, rfl⟩ := h
  rintro ⟨place, -, hs, hd⟩
  exact hd (List.getElem?_append_left hs).symm

/-- The choice that a stream calls for. -/
def Calls (preface stream : Octets) : Choice → Prop
  | .matched => preface <+: stream
  | .fallback => Differs preface stream

theorem Calls.append (h : Calls preface stream choice) : Calls preface (stream ++ more) choice := by
  cases choice with
  | matched => exact List.IsPrefix.trans h (List.prefix_append _ _)
  | fallback => exact Differs.append h

section Runs

variable {σ : Type} (feedSession : σ → Octets → Except Thrown ProtocolFeedResult × σ)

structure Watched (σ : Type) where
  bootstrap : PrefaceProtocolBootstrap σ
  log : List Interaction := []

def step (w : Watched σ) (bytes : Octets) : Watched σ :=
  let outcome := w.bootstrap.feed feedSession bytes
  ⟨outcome.bootstrap, w.log ++ outcome.interactions⟩

def created (log : List Interaction) : List Choice :=
  log.filterMap (fun
    | .create choice => some choice
    | .feed _ _ => none)

def received (log : List Interaction) : Octets :=
  log.flatMap (fun
    | .create _ => []
    | .feed bytes _ => bytes)

def AllReady (log : List Interaction) : Prop :=
  ∀ bytes result, Interaction.feed bytes result ∈ log →
    ∃ answer, result = .ok answer ∧ answer.status = .ready

/-- What a recorded call leaves of the session it is made to. -/
def replay (factory : Choice → Unit → Option σ) (session : Option σ) : Interaction → Option σ
  | .create choice => factory choice ()
  | .feed bytes _ => session.map (fun session => (feedSession session bytes).2)

theorem created_append : created (first ++ second) = created first ++ created second := List.filterMap_append

theorem received_append : received (first ++ second) = received first ++ received second := List.flatMap_append

theorem AllReady.left (h : AllReady (first ++ second)) : AllReady first :=
  fun bytes result hm => h bytes result (List.mem_append_left _ hm)

variable {feedSession} {b : PrefaceProtocolBootstrap σ}

/-- Both factories return a session. -/
structure Serves (preface : Octets) (b : PrefaceProtocolBootstrap σ) : Prop where
  preface : b.preface = preface
  factories : ∀ choice, (b.factory choice ()).isSome

/-- A selection creates one session and, while it is ready, feeds it all there is. -/
theorem selectAndFeed_spec (h : Serves preface b) (choice : Choice) (pending remaining : Octets) :
    let outcome := b.selectAndFeed feedSession choice pending remaining
    Serves preface outcome.bootstrap ∧ outcome.bootstrap.selected.isSome ∧
      created outcome.interactions = [choice] ∧
      (AllReady outcome.interactions → received outcome.interactions = pending ++ remaining) := by
  obtain ⟨session, hs⟩ := Option.isSome_iff_exists.mp (h.factories choice)
  unfold selectAndFeed
  simp only [hs]
  split
  · rename_i error next hfed
    refine ⟨⟨h.preface, h.factories⟩, rfl, rfl, ?_⟩
    intro hr
    obtain ⟨answer, ha, -⟩ := hr pending (.error error) (by simp)
    cases ha
  · rename_i result next hfed
    split
    · rename_i he
      refine ⟨⟨h.preface, h.factories⟩, rfl, rfl, ?_⟩
      intro hr
      obtain ⟨answer, ha, hst⟩ := hr pending (.ok result) (by simp)
      cases ha
      rcases he with he | hn
      · exact absurd hst he
      · simp [received, hn]
    · refine ⟨⟨h.preface, h.factories⟩, rfl, rfl, ?_⟩
      intro hr
      simp [received]

theorem selectAndFeed_replays (h : b.selected = none) (choice : Choice)
    (pending remaining : Octets) :
    let outcome := b.selectAndFeed feedSession choice pending remaining
    outcome.bootstrap.factory = b.factory ∧ outcome.bootstrap.selected =
      outcome.interactions.foldl (replay feedSession b.factory) b.selected := by
  unfold selectAndFeed
  split
  · rename_i hf
    exact ⟨rfl, by simp [replay, h, hf]⟩
  · rename_i session hf
    split
    · rename_i error next hfed
      exact ⟨rfl, by simp [replay, hf, hfed]⟩
    · rename_i result next hfed
      split <;> exact ⟨rfl, by simp [replay, hf, hfed]⟩

/-- The session of a bootstrap is what the calls it has made leave of it. -/
theorem feed_replays (b : PrefaceProtocolBootstrap σ) (bytes : Octets) :
    let outcome := b.feed feedSession bytes
    outcome.bootstrap.factory = b.factory ∧ outcome.bootstrap.selected =
      outcome.interactions.foldl (replay feedSession b.factory) b.selected := by
  unfold PrefaceProtocolBootstrap.feed
  split
  · rename_i session hs
    exact ⟨rfl, by simp [replay, hs]⟩
  · rename_i hn
    split
    · exact ⟨rfl, rfl⟩
    · exact selectAndFeed_replays hn _ _ _
    · exact selectAndFeed_replays hn _ _ _

theorem run_replays (hn : b.selected = none) (segments : List Octets) :
    (Runs.final (step feedSession) ⟨b, []⟩ segments).bootstrap.selected =
      (Runs.final (step feedSession) ⟨b, []⟩ segments).log.foldl
        (replay feedSession b.factory) none := by
  refine (Runs.final_invariant (motive := fun w : Watched σ => w.bootstrap.factory = b.factory ∧
    w.bootstrap.selected = w.log.foldl (replay feedSession b.factory) none) ⟨rfl, hn⟩ ?_ segments).2
  intro w bytes ⟨hf, hs⟩
  obtain ⟨hk, hr⟩ := @feed_replays _ feedSession w.bootstrap bytes
  refine ⟨hk.trans hf, ?_⟩
  rw [hs, hf] at hr
  rw [step, List.foldl_append]
  exact hr

inductive Stands (preface stream : Octets) (w : Watched σ) : Prop
  | waiting (selected : w.bootstrap.selected = none) (pending : w.bootstrap.pending = stream)
      (log : w.log = []) (undecided : stream <+: preface) (short : stream.length < preface.length)
  | serving (choice : Choice) (selected : w.bootstrap.selected.isSome)
      (created : created w.log = [choice]) (calls : Calls preface stream choice)
      (received : AllReady w.log → received w.log = stream)

theorem Stands.select {w : Watched σ} (hse : Serves preface w.bootstrap) (hlog : w.log = [])
    (hca : Calls preface stream choice)
    (hall : pending ++ remaining = stream) :
    let outcome := w.bootstrap.selectAndFeed feedSession choice pending remaining
    Serves preface outcome.bootstrap ∧
      Stands preface stream ⟨outcome.bootstrap, w.log ++ outcome.interactions⟩ := by
  obtain ⟨hk, hs, hc, hr⟩ :=
    @selectAndFeed_spec _ _ feedSession _ hse choice pending remaining
  refine ⟨hk, .serving choice hs ?_ hca ?_⟩
  · rw [hlog, List.nil_append]
    exact hc
  · rw [hlog, List.nil_append, ← hall]
    exact hr

theorem Stands.feed (hs : Serves preface w.bootstrap)
    (h : Stands preface stream w) :
    Serves preface (step feedSession w bytes).bootstrap ∧
      Stands preface (stream ++ bytes) (step feedSession w bytes) := by
  unfold step PrefaceProtocolBootstrap.feed
  cases h with
  | waiting hse hp hlog hu hsh =>
    have hd : Detects preface (stream ++ bytes) (detect preface stream bytes) :=
      detect_spec hu hsh
    rw [hse, hp, hs.preface]
    dsimp only
    generalize detect preface stream bytes = detection at hd
    cases hd with
    | undecided hu hsh =>
      refine ⟨⟨rfl, hs.factories⟩, ?_⟩
      exact .waiting rfl rfl (by simp [hlog]) hu hsh
    | fallback hall hdi => exact Stands.select hs hlog hdi hall
    | matched hall => exact Stands.select hs hlog ⟨_, hall⟩ hall
  | serving choice hse hc hca hr =>
    obtain ⟨session, hss⟩ := Option.isSome_iff_exists.mp hse
    rw [hss]
    refine ⟨⟨hs.preface, hs.factories⟩, ?_⟩
    refine .serving choice rfl ?_ hca.append ?_
    · rw [created_append, hc]
      rfl
    · intro hre
      rw [received_append, hr hre.left]
      simp [received]

theorem Stands.run (hs : Serves preface w.bootstrap) (h : Stands preface stream w) :
    Serves preface (Runs.final (step feedSession) w segments).bootstrap ∧
      Stands preface (stream ++ segments.flatten) (Runs.final (step feedSession) w segments) := by
  induction segments generalizing w stream with
  | nil =>
    rw [List.flatten_nil, List.append_nil]
    exact ⟨hs, h⟩
  | cons bytes segments ih =>
    obtain ⟨hk, hst⟩ := h.feed hs
    rw [List.flatten_cons, ← List.append_assoc, Runs.final_cons]
    exact ih hk hst

theorem Stands.created_matched (h : Stands preface stream w) :
    created w.log = [.matched] ↔ preface <+: stream := by
  cases h with
  | waiting hs hp hlog hu hsh =>
    rw [hlog]
    have hl : ¬ preface <+: stream := fun hwh => absurd hwh.length_le (by omega)
    simp [created, hl]
  | serving choice hs hcr hc hr =>
    rw [hcr]
    cases choice with
    | matched => exact iff_of_true rfl hc
    | fallback => simpa using Differs.not_prefix hc

theorem Stands.created_fallback (h : Stands preface stream w) :
    created w.log = [.fallback] ↔ Differs preface stream := by
  cases h with
  | waiting hs hp hlog hu hsh =>
    rw [hlog]
    simp [created, not_differs_of_undecided hu]
  | serving choice hs hcr hc hr =>
    rw [hcr]
    cases choice with
    | matched => simpa using fun hd => Differs.not_prefix hd hc
    | fallback => exact iff_of_true rfl hc

/-- The session depends on the stream alone and is decided once, and no octet is lost. -/
theorem detection_loses_nothing {matchFactory fallbackFactory : Unit → Option σ}
    (hmatch : (matchFactory ()).isSome) (hfallback : (fallbackFactory ()).isSome)
    {b : PrefaceProtocolBootstrap σ}
    (h : PrefaceProtocolBootstrap.create preface (some matchFactory) (some fallbackFactory) = .ok b)
    (segments : List Octets) :
    let stream := segments.flatten
    let w := Runs.final (step feedSession) ⟨b, []⟩ segments
    (created w.log = [.matched] ↔ preface <+: stream) ∧
    (created w.log = [.fallback] ↔ Differs preface stream) ∧
    (created w.log).length ≤ 1 ∧
    (w.bootstrap.selected = none → w.bootstrap.pending = stream ∧ w.log = []) ∧
    (w.bootstrap.selected.isSome → AllReady w.log → received w.log = stream) ∧
    w.bootstrap.selected = w.log.foldl (replay feedSession b.factory) none ∧
    ∀ event ∈ Runs.history (step feedSession) ⟨b, []⟩ segments,
      event.before.bootstrap.selected = none →
      ∀ place ∈ readPlaces event.before.bootstrap.preface event.before.bootstrap.pending event.input,
        place < event.before.bootstrap.preface.length := by
  have hstart : Serves preface b ∧ b.selected = none ∧
      Stands preface [] (⟨b, []⟩ : Watched σ) := by
    unfold PrefaceProtocolBootstrap.create at h
    split at h
    · cases h
    · rename_i hsome
      cases h
      refine ⟨⟨rfl, ?_⟩, rfl, .waiting rfl rfl rfl List.nil_prefix (List.length_pos_iff.mpr hsome)⟩
      intro choice
      cases choice with
      | matched => exact hmatch
      | fallback => exact hfallback
  have hrun : ∀ segments, Serves preface (Runs.final (step feedSession) ⟨b, []⟩ segments).bootstrap ∧
      Stands preface segments.flatten (Runs.final (step feedSession) ⟨b, []⟩ segments) :=
    fun segments => hstart.2.2.run hstart.1
  intro stream w
  have hstands : Stands preface stream w := (hrun segments).2
  refine ⟨hstands.created_matched, hstands.created_fallback, ?_, ?_, ?_,
    run_replays hstart.2.1 segments, ?_⟩
  · cases hstands with
    | waiting hselected hpending hlog hundecided hshort => simp [hlog, created]
    | serving choice hselected hcreated hcalls hreceived => simp [hcreated]
  · intro hnone
    cases hstands with
    | waiting hselected hpending hlog hundecided hshort => exact ⟨hpending, hlog⟩
    | serving choice hselected hcreated hcalls hreceived => simp [hnone] at hselected
  · intro hsome
    cases hstands with
    | waiting hselected hpending hlog hundecided hshort => simp [hselected] at hsome
    | serving choice hselected hcreated hcalls hreceived => exact hreceived
  · intro event hevent hnone
    obtain ⟨first, rest, -, hbefore⟩ := Runs.history_split hevent
    obtain ⟨hserves, hfirst⟩ := hrun first
    rw [← hbefore] at hserves hfirst
    apply readPlaces_lt
    cases hfirst with
    | waiting hselected hpending hlog hundecided hshort =>
      rw [hserves.preface, hpending]
      exact hshort
    | serving choice hselected hcreated hcalls hreceived => simp [hnone] at hselected

end Runs

/-- A session that keeps what it is fed. -/
def keep (session bytes : Octets) : Except Thrown ProtocolFeedResult × Octets :=
  (.ok {}, session ++ bytes)

/-- A preface of two octets that arrives in two calls, with octets behind it. -/
theorem detection_loses_nothing_split : ∃ b : PrefaceProtocolBootstrap Octets,
    PrefaceProtocolBootstrap.create [80, 82] (some (fun _ => some [1])) (some (fun _ => some [2])) =
      .ok b ∧
    let w := Runs.final (step keep) ⟨b, []⟩ [[80], [82, 73], [74]]
    created w.log = [.matched] ∧ w.bootstrap.selected = some [1, 80, 82, 73, 74] := by
  have h := @detection_loses_nothing [80, 82] Octets keep (fun _ => some [1]) (fun _ => some [2])
    rfl rfl _ rfl [[80], [82, 73], [74]]
  exact ⟨_, rfl, h.1.mpr ⟨[73, 74], rfl⟩, h.2.2.2.2.2.1.trans rfl⟩

end IocpRuntime.Proofs.ProtocolDetection
