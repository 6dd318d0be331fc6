import IocpRuntime.Proofs.ServerSections

namespace IocpRuntime.Proofs.ShutdownBarrier
open Lib Transport Execution Server Server.Serving StrandedTasks SharedPool ServerSections

variable {τ : Type} {s next : Serving τ}

/-- What holds once a call of `Stop` has come so far. -/
structure Passed (level : Nat) (s : Serving τ) : Prop where
  closed : 1 ≤ level → s.state ≠ .running
  listener : 2 ≤ level → s.listening.listener.state = .stopped
  registry : 3 ≤ level → s.registry.entries = []
  pool : 4 ≤ level → s.pool.context.state = .stopped
  ended : 5 ≤ level → s.state = .stopped

theorem Passed.works (h : Passed level s) (hse : Serviced s)
    (hwo : Works s next) : Passed level next where
  closed hl := by
    rw [hwo.control.state]
    exact h.closed hl
  listener hl := by
    rw [hwo.moves.listening_stays hse.accepting (h.listener hl)]
    exact h.listener hl
  registry hl := (hwo.moves.no_addition (h.closed (by omega))).2 (h.registry hl)
  pool hl := by
    have hs := h.pool hl
    have hst := (hse.finished hs).stays
    rcases hwo.pool with hsa | ⟨action, hste⟩
    · rw [hsa]
      exact hs
    · rw [hste, hst]
      exact hs
  ended hl := by
    rw [hwo.control.state]
    exact h.ended hl

def level : StopStage → Nat
  | .called => 0
  | .stopsListener => 1
  | .waitsListener => 1
  | .snapshots => 2
  | .closes _ => 2
  | .waitsEmpty => 2
  | .stopsPool => 3
  | .waitsPool => 3
  | .joinsPool => 4
  | .stopsIo => 4
  | .finishes => 4
  | .returned true => 5
  | .returned false => 0

/-- A `Start` that fails has nothing to wait for before it stops the pool. -/
def startLevel : StartStage → Nat
  | .started => 0
  | .failed => 0
  | .stopsPool => 3
  | .joinsPool => 3
  | .stopsIo => 4
  | .finishes => 4
  | .threw => 5

/-- A server without a listener has never had a connection. -/
structure Abandoned (s : Serving τ) : Prop where
  listener : s.listening.listener.state = .stopped
  connections : s.connections = []

/-- Every call is past its barriers. -/
structure Gates (s : Serving τ) : Prop where
  begun : s.state ≠ .created
  calls : ∀ stage ∈ s.stops, Passed (level stage) s
  stopped : s.state = .stopped → Passed 5 s
  start : Passed (startLevel s.start) s
  failed : s.start = .failed → s.state = .running
  abandoned : s.start ≠ .started → Abandoned s
  alone : s.start ≠ .started → s.start ≠ .threw → s.stops = []

theorem Abandoned.works (h : Abandoned s) (hs : Serviced s) (hwo : Works s next) :
    Abandoned next := by
  have hm := hwo.moves
  refine ⟨?_, ?_⟩
  · rw [hm.listening_stays hs.accepting h.listener]
    exact h.listener
  · cases hm with
    | executors same =>
      have hr := same.running
      rw [h.connections, List.map_nil, List.map_eq_nil_iff] at hr
      exact hr
    | listener action returns eq =>
      subst eq
      exact h.connections
    | accepted accept arrived accepts =>
      rw [hs.accepting.no_arrival h.listener] at arrived
      cases arrived
    | connection index action eq =>
      subst eq
      simp only [Serving.connectionStep, h.connections, List.getElem?_nil]

structure Orderly (s : Serving τ) : Prop where
  serviced : Serviced s
  gates : Gates s

def rank : HttpServerState → Nat
  | .created => 0
  | .running => 1
  | .stopping => 2
  | .stopped => 3

theorem rank_le (state : HttpServerState) : rank state ≤ rank .stopped := by
  cases state <;> decide

theorem rank_stopping {state : HttpServerState} (h : state ≠ .stopped) :
    rank state ≤ rank .stopping := by
  cases state with
  | stopped => exact absurd rfl h
  | _ => decide

theorem closed_of_rank {state : HttpServerState} (h : 2 ≤ rank state) : state ≠ .running := by
  rintro rfl
  exact absurd h (by decide)

/-- What a section keeps: the state only moves forward, and there are no new connections after
that. -/
structure Follows (s next : Serving τ) : Prop where
  orderly : Orderly next
  forward : rank s.state ≤ rank next.state
  kept : 2 ≤ rank s.state → next.connections.length = s.connections.length

theorem Follows.refl (h : Orderly s) : Follows s s := ⟨h, Nat.le_refl _, fun _ => rfl⟩

theorem Follows.trans (h : Follows s middle) (h' : Follows middle next) : Follows s next where
  orderly := h'.orderly
  forward := h.forward.trans h'.forward
  kept hr := (h'.kept (hr.trans h.forward)).trans (h.kept hr)

theorem Orderly.works (h : Orderly s) (hwo : Works s next) : Follows s next := by
  obtain ⟨hs, hg⟩ := h
  obtain ⟨hst, hsta, hsto, -⟩ := hwo.control
  have hp : ∀ {level}, Passed level s → Passed level next :=
    fun hl => hl.works hs hwo
  refine ⟨⟨hs.works hwo, ?_⟩, by rw [hst], fun hr => (hwo.moves.no_addition (closed_of_rank hr)).1⟩
  constructor
  · rw [hst]
    exact hg.begun
  · rw [hsto]
    exact fun stage hstg => hp (hg.calls stage hstg)
  · rw [hst]
    exact fun hstp => hp (hg.stopped hstp)
  · rw [hsta]
    exact hp hg.start
  · rw [hsta, hst]
    exact hg.failed
  · rw [hsta]
    exact fun hf => (hg.abandoned hf).works hs hwo
  · rw [hsta, hsto]
    exact hg.alone

theorem Orderly.calls (h : Orderly s) {stops : List StopStage}
    (hsto : ∀ stage ∈ stops, stage ∈ s.stops ∨ Passed (level stage) s)
    (ha : s.start ≠ .started → s.start ≠ .threw → stops = []) : Follows s { s with stops } := by
  obtain ⟨hs, hg⟩ := h
  have hp : ∀ {level}, Passed level s → Passed level { s with stops } :=
    fun hl => ⟨hl.closed, hl.listener, hl.registry, hl.pool, hl.ended⟩
  refine ⟨⟨hs.control _ _ _, ?_⟩, Nat.le_refl _, fun _ => rfl⟩
  refine ⟨hg.begun, fun stage hsta => ?_, fun hst => hp (hg.stopped hst),
    hp hg.start, hg.failed, fun hf => ?_, ha⟩
  · rcases hsto stage hsta with hold | hnew
    · exact hp (hg.calls stage hold)
    · exact hp hnew
  · exact ⟨(hg.abandoned hf).listener, (hg.abandoned hf).connections⟩

theorem Orderly.set (h : Orderly s) (hs : Passed (level stage) s) :
    Follows s { s with stops := s.stops.set call stage } := by
  refine h.calls (fun other ho => ?_) (fun hf ht => ?_)
  · rcases List.mem_or_eq_of_mem_set ho with hold | rfl
    · exact .inl hold
    · exact .inr hs
  · rw [h.gates.alone hf ht, List.set_nil]

theorem Passed.stopping {level : Nat} (h : Passed level s) (hli : s.state ≠ .stopped) :
    Passed level { s with state := .stopping } :=
  ⟨fun _ => nofun, h.listener, h.registry, h.pool,
    fun hl => absurd (h.ended hl) hli⟩

theorem Passed.stopped {level : Nat} (h : Passed level s) :
    Passed level { s with state := .stopped } :=
  ⟨fun _ => nofun, h.listener, h.registry, h.pool, fun _ => rfl⟩

theorem passed_none : Passed 0 s :=
  ⟨fun hl => absurd hl (by decide), fun hl => absurd hl (by decide),
    fun hl => absurd hl (by decide), fun hl => absurd hl (by decide),
    fun hl => absurd hl (by decide)⟩

theorem passed_closed (h : s.state ≠ .running) : Passed 1 s :=
  ⟨fun _ => h, fun hl => absurd hl (by decide), fun hl => absurd hl (by decide),
    fun hl => absurd hl (by decide), fun hl => absurd hl (by decide)⟩

theorem Passed.second (h : Passed 1 s) (hli : s.listening.listener.state = .stopped) : Passed 2 s :=
  ⟨fun _ => h.closed (by decide), fun _ => hli, fun hl => absurd hl (by decide),
    fun hl => absurd hl (by decide), fun hl => absurd hl (by decide)⟩

theorem Passed.third (h : Passed 2 s) (hr : s.registry.entries = []) : Passed 3 s :=
  ⟨fun _ => h.closed (by decide), fun _ => h.listener (by decide), fun _ => hr,
    fun hl => absurd hl (by decide), fun hl => absurd hl (by decide)⟩

theorem Passed.fourth (h : Passed 3 s) (hp : s.pool.context.state = .stopped) : Passed 4 s :=
  ⟨fun _ => h.closed (by decide), fun _ => h.listener (by decide), fun _ => h.registry (by decide),
    fun _ => hp, fun hl => absurd hl (by decide)⟩

theorem Passed.last (h : Passed 4 s) : Passed 5 { s with state := .stopped } :=
  ⟨fun _ => nofun, fun _ => h.listener (by decide),
    fun _ => h.registry (by decide), fun _ => h.pool (by decide), fun _ => rfl⟩

theorem Gates.not_failed (h : Gates s) (hc : s.stops ≠ []) : s.start ≠ .failed := by
  intro hf
  exact hc (h.alone (by rw [hf]; exact nofun)
    (by rw [hf]; exact nofun))

theorem Orderly.stopping (h : Orderly s) (hl : s.state ≠ .stopped) (hc : s.stops ≠ []) :
    Follows s { s with state := .stopping } := by
  obtain ⟨hs, hg⟩ := h
  refine ⟨⟨hs.control _ _ _, ?_⟩, rank_stopping hl, fun _ => rfl⟩
  exact ⟨nofun, fun stage hsta => (hg.calls stage hsta).stopping hl,
    nofun, hg.start.stopping hl,
    fun hf => absurd hf (hg.not_failed hc),
    fun hf => ⟨(hg.abandoned hf).listener, (hg.abandoned hf).connections⟩,
    hg.alone⟩

theorem Orderly.stopped (h : Orderly s) (hp : Passed 4 s) (hc : s.stops ≠ []) :
    Follows s { s with state := .stopped } := by
  obtain ⟨hs, hg⟩ := h
  refine ⟨⟨hs.control _ _ _, ?_⟩, rank_le _, fun _ => rfl⟩
  exact ⟨nofun, fun stage hst => (hg.calls stage hst).stopped,
    fun _ => hp.last, hg.start.stopped,
    fun hf => absurd hf (hg.not_failed hc),
    fun hf => ⟨(hg.abandoned hf).listener, (hg.abandoned hf).connections⟩,
    hg.alone⟩

theorem Orderly.starting (h : Orderly s) (hfa : s.start ≠ .started) (ht : s.start ≠ .threw)
    {state : HttpServerState} {start : StartStage} (hf : rank s.state ≤ rank state)
    (hfi : start ≠ .failed) (hp : Passed (startLevel start) { s with state })
    (he : state = .stopped → Passed 5 { s with state }) : Follows s { s with state, start } := by
  obtain ⟨hs, hg⟩ := h
  have hal := hg.alone hfa ht
  have ha := hg.abandoned hfa
  refine ⟨⟨hs.control _ _ _, ?_⟩, hf, fun _ => rfl⟩
  refine ⟨?_, fun stage hsta => ?_, fun hsto => ?_, ?_, fun hag => absurd hag hfi,
    fun _ => ⟨ha.listener, ha.connections⟩, fun _ _ => hal⟩
  · rintro rfl
    cases hst : s.state with
    | created => exact hg.begun hst
    | _ =>
      rw [hst] at hf
      exact absurd hf (by decide)
  · have hm : stage ∈ s.stops := hsta
    rw [hal] at hm
    cases hm
  · have hl := he hsto
    exact ⟨hl.closed, hl.listener, hl.registry, hl.pool, hl.ended⟩
  · exact ⟨hp.closed, hp.listener, hp.registry, hp.pool, hp.ended⟩

theorem Abandoned.empty (h : Abandoned s) (hs : Serviced s) : s.registry.entries = [] := by
  refine List.eq_nil_iff_forall_not_mem.mpr (fun entry he => ?_)
  obtain ⟨connection, hp, -⟩ := hs.registered.known entry he
  rw [h.connections] at hp
  cases hp

theorem Orderly.startSection (h : Orderly s) : Follows s s.startSection := by
  have hl := h.gates.start
  have he := h.gates.stopped
  have hg : ∀ {stage : StartStage}, s.start = stage → stage ≠ .started → stage ≠ .threw →
      s.start ≠ .started ∧ s.start ≠ .threw := by
    rintro stage rfl hsta ht
    exact ⟨hsta, ht⟩
  unfold Serving.startSection
  split
  · exact .refl h
  · rename_i hs
    obtain ⟨hf, ht⟩ := hg hs nofun nofun
    have ha := h.gates.abandoned hf
    have hc : Passed 1 { s with state := .stopping } := passed_closed nofun
    refine h.starting hf ht ?_ nofun
      ((hc.second ha.listener).third (ha.empty h.serviced))
      nofun
    rw [h.gates.failed hs]
    decide
  · rename_i hs
    obtain ⟨hf, ht⟩ := hg hs nofun nofun
    rw [hs] at hl
    have hwo : Works s { s with pool := s.pool.step (.stop .cancelPending) } :=
      .stopPool .cancelPending (fun _ => (h.gates.abandoned hf).connections)
    have hla := h.works hwo
    exact hla.trans (hla.orderly.starting hf ht (Nat.le_refl _) nofun
      (hl.works h.serviced hwo) (fun hst => (he hst).works h.serviced hwo))
  · rename_i hs
    obtain ⟨hf, ht⟩ := hg hs nofun nofun
    rw [hs] at hl
    have hwo : Works s { s with pool := s.pool.step (.stop .drain) } :=
      .stopPool .drain nofun
    have hla := h.works hwo
    have hp := hl.works h.serviced hwo
    dsimp only [Serving.joinPool]
    split
    · rename_i hj
      rw [Bool.not_eq_true'] at hj
      exact hla.trans (hla.orderly.starting hf ht (Nat.le_refl _) nofun
        (hp.fourth (hla.orderly.serviced.joined hj))
        (fun hst => (he hst).works h.serviced hwo))
    · exact hla
  · rename_i hs
    obtain ⟨hf, ht⟩ := hg hs nofun nofun
    rw [hs] at hl
    exact h.starting hf ht (Nat.le_refl _) nofun hl he
  · rename_i hs
    obtain ⟨hf, ht⟩ := hg hs nofun nofun
    rw [hs] at hl
    exact h.starting hf ht (rank_le _) nofun hl.last (fun _ => hl.last)
  · exact .refl h

/-- Where a section of `Stop` leads, that barrier has been passed. -/
theorem Orderly.stopSection (h : Orderly s) (hca : stage ∈ s.stops) :
    Follows s (s.stopSection stage choice).2 ∧
      Passed (level (s.stopSection stage choice).1) (s.stopSection stage choice).2 := by
  have hc := List.ne_nil_of_mem hca
  have hp := h.gates.calls stage hca
  have hst := Follows.refl h
  have hg : ∀ {next : Serving τ}, Works s next → Follows s next ∧ Passed (level stage) next :=
    fun hwo => ⟨h.works hwo, hp.works h.serviced hwo⟩
  have hd : Works s { s with pool := s.pool.step (.stop .drain) } :=
    .stopPool .drain nofun
  cases stage with
  | called =>
    simp only [Serving.stopSection]
    split
    · exact ⟨hst, hp⟩
    · split
      · rename_i hs
        exact ⟨hst, h.gates.stopped hs⟩
      · rename_i hcr
        exact absurd hcr h.gates.begun
      · rename_i hs _
        exact ⟨h.stopping hs hc, passed_closed nofun⟩
  | stopsListener =>
    exact hg (.listener .stop (fun _ _ heq => Listening.Action.noConfusion heq))
  | waitsListener =>
    refine ⟨hst, ?_⟩
    simp only [Serving.stopSection]
    split
    · rename_i hs
      exact hp.second hs
    · exact hp
  | snapshots => exact ⟨hst, hp⟩
  | closes left =>
    simp only [Serving.stopSection]
    split
    · exact hg (.connection _ _)
    · refine ⟨hst, ?_⟩
      dsimp only
      split <;> exact hp
  | waitsEmpty =>
    refine ⟨hst, ?_⟩
    simp only [Serving.stopSection]
    split
    · rename_i he
      exact hp.third (List.isEmpty_iff.mp he)
    · exact hp
  | stopsPool => exact hg hd
  | waitsPool =>
    refine ⟨hst, ?_⟩
    simp only [Serving.stopSection]
    split
    · rename_i hs
      exact hp.fourth hs
    · exact hp
  | joinsPool =>
    obtain ⟨hl, hk⟩ := hg hd
    refine ⟨hl, ?_⟩
    simp only [Serving.stopSection]
    split <;> exact hk
  | stopsIo => exact ⟨hst, hp⟩
  | finishes => exact ⟨h.stopped hp hc, hp.last⟩
  | returned result => exact ⟨hst, hp⟩

theorem Orderly.step (h : Orderly s) : Follows s (s.step action) := by
  cases action with
  | listener action =>
    cases action with
    | handled accept =>
      simp only [Serving.step]
      split
      · exact .refl h
      · rename_i hwa
        refine h.works (.listener (.handled accept) ?_)
        rintro other ho heq
        cases heq
        exact hwa ho
    | _ => exact h.works (.listener _ (fun _ _ heq => Listening.Action.noConfusion heq))
  | onAccepted accept native =>
    simp only [Serving.step]
    split
    · rename_i ha
      exact h.works (.accepted accept ha onAccepted_accepts)
    · exact .refl h
  | connection index action =>
    simp only [Serving.step]
    split
    · exact .refl h
    · exact h.works (.connection index action)
  | postSerial index task => exact h.works (.postSerial index task)
  | postPool task => exact h.works (.postPool task)
  | drain index call => exact h.works (.drain index call)
  | worker worker => exact h.works (.worker worker)
  | start => exact h.startSection
  | stop =>
    simp only [Serving.step]
    split
    · rename_i hst
      refine h.calls (fun stage hs => ?_) (fun hf ht => absurd hst (not_or.mpr ⟨hf, ht⟩))
      rcases List.mem_append.mp hs with hold | hnew
      · exact .inl hold
      · rw [List.mem_singleton.mp hnew]
        exact .inr passed_none
    · exact .refl h
  | stopStep call choice =>
    simp only [Serving.step]
    split
    · exact .refl h
    · rename_i stage hs
      obtain ⟨hl, hp⟩ := h.stopSection (List.mem_of_getElem? hs)
      exact hl.trans (hl.orderly.set hp)
  | giveUp call =>
    simp only [Serving.step]
    split
    · exact .refl h
    · split
      · have hn : Passed (level (.returned false)) s := passed_none
        exact h.set hn
      · exact .refl h

theorem start_state : (Listening.start calls).listener.state = .running ∨
      (Listening.start calls).listener.state = .stopped := by
  unfold Listening.start TcpListener.start
  rcases AcceptLoop.post_cases (l := {}) rfl calls with ⟨code, hc, hp⟩ | hp
  · simp only [hp, if_pos hc]
    exact .inr rfl
  · simp only [hp]
    exact .inl rfl

theorem startListener_sound (options : ListenerOptions) (startup : Startup) :
    AcceptLoop.Sound (startListener options startup) ∧
      ((startListener options startup).listener.state = .running ∨
        (startListener options startup).listener.state = .stopped) := by
  unfold Serving.startListener
  split
  · refine ⟨⟨rfl, ?_, ?_, fun _ => rfl, rfl⟩, .inr rfl⟩
    · exact nofun
    · exact nofun
  · exact ⟨.start, start_state⟩

theorem Orderly.of_create {options : HttpServerOptions}
    (h : Serving.create logger options startup = .ok s) : Orderly s := by
  obtain ⟨-, -, h⟩ := bind_ok h
  obtain ⟨-, -, h⟩ := bind_ok h
  obtain ⟨-, -, h⟩ := bind_ok h
  obtain ⟨-, -, h⟩ := bind_ok h
  obtain ⟨pool, hp, h⟩ := bind_ok h
  obtain ⟨-, -, h⟩ := bind_ok h
  obtain ⟨-, -, h⟩ := bind_ok h
  obtain ⟨-, -, h⟩ := bind_ok h
  obtain ⟨hso, hst⟩ := startListener_sound options.listener startup
  cases h
  refine ⟨⟨⟨hso, fun accept ha => absurd ha List.not_mem_nil⟩, .start, ?_⟩, ?_⟩
  · exact fun index => .start (.threadPool (Pool.create_map (asJob index) hp))
  · refine ⟨nofun, fun stage hsta => absurd hsta List.not_mem_nil,
      nofun, ?_, fun _ => rfl, fun hf => ⟨?_, rfl⟩,
      fun _ _ => rfl⟩
    · dsimp only
      split <;> exact passed_none
    · refine hst.resolve_left (fun hr => hf ?_)
      dsimp only
      rw [if_pos hr]

/-- What a call of `Stop` that returned true leaves behind. -/
structure Barrier (s : Serving τ) : Prop where
  listener : s.listening.listener.state = .stopped
  accepts : ∀ stage ∈ s.listening.accepts, stage = .finished
  arrivals : s.arrivals = []
  registry : s.registry.entries = []
  closed : ∀ served ∈ s.connections, served.running.connection.state = .closed
  pool : Finished s.pool
  serial : ∀ served ∈ s.connections, served.serial.tasks = [] ∧ served.drains = []
  poolRefuses : ∀ job, (s.pool.context.submit job).1 ≠ .ok .accepted
  serialRefuses : ∀ served ∈ s.connections, ∀ task, (s.posted served task).accepted = false

theorem Orderly.barrier (h : Orderly s) (hp : Passed 5 s) : Barrier s := by
  obtain ⟨ha, hr, hatt⟩ := h.serviced
  have hl := hp.listener (by decide)
  have hpo := hp.pool (by decide)
  have hs : ∀ served ∈ s.connections, served.serial.tasks = [] ∧ served.drains = [] ∧
      ∀ task, (s.posted served task).accepted = false := by
    intro served hm
    obtain ⟨index, hpl⟩ := List.mem_iff_getElem?.mp hm
    obtain ⟨ht, hd, hre⟩ := (hatt index).finished hpo
    refine ⟨?_, ?_, fun task => ?_⟩
    · rw [← serialOf_some hpl]
      exact ht
    · rw [← drainsOf_some hpl]
      exact hd
    · rw [← posted_view hpl]
      exact hre task
  refine ⟨hl, ha.sound.all_finished hl, ha.no_arrival hl,
    hp.registry (by decide), fun served hm => ?_, h.serviced.finished hpo,
    fun served hm => ⟨(hs served hm).1, (hs served hm).2.1⟩, fun job => ?_,
    fun served hm => (hs served hm).2.2⟩
  · exact hr.closed (hp.registry (by decide)) (List.mem_map_of_mem hm)
  · cases job with
    | none => exact fun heq => nomatch heq
    | some job =>
      intro heq
      have had : s.pool.context.admission = .accepted := Except.ok.inj heq
      rw [TaskAccounts.admission_stopped (by simp [hpo])] at had
      cases had

theorem Orderly.run (h : Orderly s) (actions : List (Serving.Action τ)) :
    Follows s (Runs.final Serving.step s actions) :=
  Runs.final_invariant (Follows.refl h) (fun _ _ hf => hf.trans hf.orderly.step) actions

/-- No connection is added once the snapshot is due; after `Stop` returned true nothing is left of
the listener, the connections and the tasks, and nothing comes back. -/
theorem stop_is_barrier {logger : Bool} {options : HttpServerOptions} {startup : Startup}
    {server : Serving τ} (h : Serving.create logger options startup = .ok server)
    (actions : List (Serving.Action τ)) :
    let s := Runs.final Serving.step server actions
    (.snapshots ∈ s.stops → ∀ more,
      (Runs.final Serving.step s more).connections.length = s.connections.length) ∧
    (.returned true ∈ s.stops → Barrier s ∧ ∀ more, Barrier (Runs.final Serving.step s more) ∧
        (Runs.final Serving.step s more).connections.length = s.connections.length) := by
  intro s
  have horderly : Orderly s := ((Orderly.of_create h).run actions).orderly
  have hkept : s.state ≠ .running → ∀ more,
      (Runs.final Serving.step s more).connections.length = s.connections.length := by
    intro hclosed more
    apply (horderly.run more).kept
    have hbegun := horderly.gates.begun
    cases hstate : s.state with
    | created => exact absurd hstate hbegun
    | running => exact absurd hstate hclosed
    | stopping => decide
    | stopped => decide
  refine ⟨fun hsnapshot => hkept ((horderly.gates.calls _ hsnapshot).closed (by decide)),
    fun hreturned => ?_⟩
  have hpassed : Passed 5 s := horderly.gates.calls _ hreturned
  refine ⟨horderly.barrier hpassed, fun more => ⟨?_, hkept (hpassed.closed (by decide)) more⟩⟩
  have hfollows := horderly.run more
  have hforward := hfollows.forward
  rw [hpassed.ended (by decide)] at hforward
  have hstopped : (Runs.final Serving.step s more).state = .stopped := by
    cases hstate : (Runs.final Serving.step s more).state with
    | stopped => rfl
    | _ =>
      rw [hstate] at hforward
      exact absurd hforward (by decide)
  exact hfollows.orderly.barrier (hfollows.orderly.gates.stopped hstopped)

def defaultServer : Serving Nat where
  options := {}
  listening := Listening.start {}
  pool :=
    { context := { maximumPendingTasks := 1024, liveWorkers := 2 }, workers := [.waiting, .waiting] }

def shutdown : List (Serving.Action Nat) :=
  [.listener (.complete 0 false {}), .listener (.prepare 0 true), .listener (.deliver 0),
    .onAccepted 0 none, .listener (.handled 0), .listener (.leave 0), .listener (.finish 0),
    .postSerial 0 (some 7), .worker 0, .drain 0 0, .stop, .stop, .stopStep 0 0, .stopStep 1 0,
    .stopStep 0 0, .listener (.complete 1 true {}), .listener (.leave 1), .listener (.finish 1),
    .stopStep 0 0, .stopStep 0 0, .stopStep 0 0, .stopStep 0 0,
    .connection 0 (.complete 0 0 true none), .connection 0 .remove, .stopStep 0 0, .stopStep 0 0,
    .drain 0 0, .drain 0 0, .worker 0, .worker 0, .worker 1, .stopStep 0 0, .stopStep 0 0,
    .stopStep 0 0, .stopStep 0 0, .stopStep 1 0]

theorem stop_is_barrier_shutdown :
    Serving.create true {} {} = .ok defaultServer ∧
      let s := Runs.final Serving.step defaultServer shutdown
      s.stops = [.returned true, .returned true] ∧ s.connections.length = 1 ∧
        s.pool.context.completedTasks = 1 ∧ Barrier s := by
  have hcreate : Serving.create true {} {} = .ok defaultServer := rfl
  have hstops : (Runs.final Serving.step defaultServer shutdown).stops =
      [.returned true, .returned true] := by decide +kernel
  refine ⟨hcreate, hstops, by decide +kernel, by decide +kernel, ?_⟩
  exact ((stop_is_barrier hcreate shutdown).2 (by rw [hstops]; exact List.mem_cons_self)).1

end IocpRuntime.Proofs.ShutdownBarrier
