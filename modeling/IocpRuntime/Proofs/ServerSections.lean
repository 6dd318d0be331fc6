import IocpRuntime.Proofs.AcceptLoop
import IocpRuntime.Proofs.SendAdmission
import IocpRuntime.Proofs.SharedPool

namespace IocpRuntime.Proofs.ServerSections
open Lib Transport Execution Server StrandedTasks SharedPool

variable {index accept place : Nat} {id : UInt64}

variable {τ : Type} {s next : Serving τ}

/-- `OnAccepted` leaves the server alone, or without an id, or with one more connection. -/
inductive Accepts (s : Serving τ) : Serving τ → Prop
  | refused : Accepts s s
  | failed : Accepts s { s with registry := s.registry.nextId.2 }
  | added {connection : TcpConnection} {registry : ConnectionRegistry Nat}
      (native : Option WinsockError) (running : s.state = .running)
      (created : TcpConnection.create s.registry.next true true true s.options.connection =
        .ok connection)
      (added : s.registry.nextId.2.add connection.id (some s.connections.length) = .ok registry) :
      Accepts s { s with
        registry
        connections := s.connections ++
          [{ running := ({ connection } : Running).step (.start native)
             serial := { maximumPendingTasks := s.options.maximumConnectionTasks.toNat } }] }

theorem newSerial_ok (h : s.newSerial = .ok serial) :
    serial = { maximumPendingTasks := s.options.maximumConnectionTasks.toNat } := by
  obtain ⟨made, hm, h⟩ := bind_ok h
  obtain ⟨-, -, h⟩ := bind_ok h
  cases h
  unfold SerialExecutor.create at hm
  split at hm
  · cases hm
  · split at hm
    · cases hm
    · cases hm
      rfl

theorem onAccepted_accepts : Accepts s (s.onAccepted native) := by
  unfold Serving.onAccepted
  split
  · exact .refused
  · rename_i hru
    split
    · exact .refused
    · rename_i serial hs
      dsimp only [ConnectionRegistry.nextId]
      split
      · exact .failed
      · rename_i connection registry hr
        obtain ⟨made, hm, h⟩ := bind_ok hr
        obtain ⟨entered, he, h⟩ := bind_ok h
        cases h
        rw [newSerial_ok hs]
        exact .added native (not_not.mp hru) hm he

theorem view_accepts (h : Accepts s next) : view next index = view s index := by
  cases h with
  | refused => rfl
  | failed => rfl
  | added native running created added =>
    by_cases hl : index < s.connections.length
    · refine view_same ?_ ?_ rfl
      · simp only [serialOf, List.getElem?_append_left hl]
      · simp only [Serving.drainsOf, List.getElem?_append_left hl]
    · have hle := Nat.not_lt.mp hl
      have hn : s.connections[index]? = none := List.getElem?_eq_none hle
      refine view_same ?_ ?_ rfl
      · simp only [serialOf, hn, List.getElem?_append_right hle]
        cases index - s.connections.length <;> rfl
      · simp only [Serving.drainsOf, hn, List.getElem?_append_right hle]
        cases index - s.connections.length <;> rfl

/-- A section without what it does to the state of the server and to its calls. -/
inductive Works (s : Serving τ) : Serving τ → Prop
  | nothing : Works s s
  | listener (action : Listening.Action)
      (returns : ∀ accept ∈ s.arrivals, action ≠ .handled accept) : Works s (s.listenerStep action)
  | accepted (accept : Nat) {next : Serving τ} (arrived : accept ∈ s.arrivals)
      (accepts : Accepts { s with arrivals := s.arrivals.filter (· ≠ accept) } next) : Works s next
  | connection (index : Nat) (action : Transport.Action) : Works s (s.connectionStep index action)
  | postSerial (index : Nat) (task : Option τ) : Works s (s.postSerial index task)
  | postPool (task : τ) : Works s (s.submit (.task task))
  | drain (index call : Nat) : Works s (s.drainStep index call)
  | worker (worker : Nat) : Works s (s.workerStep worker)
  | stopPool (mode : StopMode) (cancels : mode = .cancelPending → s.connections = []) :
      Works s { s with pool := s.pool.step (.stop mode) }

/-- The parts of a server that only `Start` and `Stop` touch. -/
structure SameControl (s next : Serving τ) : Prop where
  state : next.state = s.state
  start : next.start = s.start
  stops : next.stops = s.stops
  options : next.options = s.options

theorem SameControl.refl : SameControl s s := ⟨rfl, rfl, rfl, rfl⟩

theorem Works.control (h : Works s next) : SameControl s next := by
  cases h with
  | nothing => exact .refl
  | listener action => exact ⟨rfl, rfl, rfl, rfl⟩
  | accepted accept arrived accepts => cases accepts <;> exact ⟨rfl, rfl, rfl, rfl⟩
  | connection index action =>
    unfold Serving.connectionStep
    split <;> exact ⟨rfl, rfl, rfl, rfl⟩
  | postSerial index task =>
    unfold Serving.postSerial
    split
    · exact .refl
    · dsimp only
      split <;> exact ⟨rfl, rfl, rfl, rfl⟩
  | postPool task => exact ⟨rfl, rfl, rfl, rfl⟩
  | drain index call =>
    unfold Serving.drainStep
    split <;> exact ⟨rfl, rfl, rfl, rfl⟩
  | worker worker =>
    unfold Serving.workerStep
    split
    · dsimp only
      split
      · unfold Serving.beginDrain
        dsimp only
        split <;> exact ⟨rfl, rfl, rfl, rfl⟩
      · exact ⟨rfl, rfl, rfl, rfl⟩
    · exact .refl
  | stopPool mode => exact ⟨rfl, rfl, rfl, rfl⟩

theorem Works.pool (h : Works s next) :
    next.pool = s.pool ∨ ∃ action, next.pool = s.pool.step action := by
  cases h with
  | nothing => exact .inl rfl
  | listener action => exact .inl rfl
  | accepted accept arrived accepts => cases accepts <;> exact .inl rfl
  | connection index action =>
    unfold Serving.connectionStep
    split <;> exact .inl rfl
  | postSerial index task =>
    unfold Serving.postSerial
    split
    · exact .inl rfl
    · dsimp only
      split
      · exact .inr ⟨.submit (some (.drain index)), rfl⟩
      · exact .inl rfl
  | postPool task => exact .inr ⟨.submit (some (.task task)), rfl⟩
  | drain index call =>
    unfold Serving.drainStep
    split <;> exact .inl rfl
  | worker worker =>
    unfold Serving.workerStep
    split
    · refine .inr ⟨.worker worker, ?_⟩
      dsimp only
      split
      · unfold Serving.beginDrain
        dsimp only
        split <;> rfl
      · rfl
    · exact .inl rfl
  | stopPool mode => exact .inr ⟨.stop mode, rfl⟩

theorem cancels_other
    (h : action ≠ .stop .cancelPending) :
    CancelsNoDrain ⟨v, .underlying action⟩ :=
  fun hi => absurd (StackedAction.underlying.inj hi) h

theorem Works.attentive (h : Works s next) (hv : Attentive (view s index)) :
    Attentive (view next index) := by
  cases h with
  | nothing => exact hv
  | listener action => exact hv
  | accepted accept arrived accepts =>
    rw [view_accepts accepts]
    exact hv
  | connection place action =>
    rw [view_connectionStep]
    exact hv
  | postSerial place task =>
    by_cases hp : place = index
    · subst hp
      cases hs : s.connections[place]? with
      | none =>
        simp only [Serving.postSerial, hs]
        exact hv
      | some served =>
        rw [view_postSerial_self hs]
        exact hv.post
    · rcases view_postSerial_other hp with hsa | hpo
      · rw [hsa]
        exact hv
      · rw [hpo]
        exact hv.underlying (cancels_other (by simp))
  | postPool task =>
    rw [view_submit rfl]
    exact hv.underlying (cancels_other (by simp))
  | drain place call =>
    by_cases hp : place = index
    · subst hp
      cases hs : s.connections[place]? with
      | none =>
        simp only [Serving.drainStep, hs]
        exact hv
      | some served =>
        rw [view_drainStep_self hs]
        exact hv.drain
    · rw [view_drainStep_other hp]
      exact hv
  | worker worker =>
    rcases view_workerStep hv.attended with hsa | ht
    · rw [hsa]
      exact hv
    · rw [ht]
      exact hv.underlying (cancels_other (by simp))
  | stopPool mode cancels =>
    rw [view_stop]
    refine hv.underlying (fun hi _ _ => ?_)
    cases hi
    have hn : s.connections[index]? = none := by
      rw [cancels rfl]
      rfl
    exact List.count_eq_zero.mp (queue_unborn hv.attended hn)

/-- The parts of a server that its executors do not touch. -/
structure SameTransport (s next : Serving τ) : Prop where
  listening : next.listening = s.listening
  arrivals : next.arrivals = s.arrivals
  registry : next.registry = s.registry
  running : next.connections.map Served.running = s.connections.map Served.running

theorem SameTransport.refl : SameTransport s s := ⟨rfl, rfl, rfl, rfl⟩

theorem sameTransport_set (hs : s.connections[index]? = some served)
    (changed : Served τ) (hr : changed.running = served.running) :
    SameTransport s (s.setServed index changed) := by
  refine ⟨rfl, rfl, rfl, ?_⟩
  obtain ⟨hi, hget⟩ := List.getElem?_eq_some_iff.mp hs
  have hp : (s.connections.map Served.running)[index]? = some served.running := by
    rw [List.getElem?_map, hs]
    rfl
  simp only [Serving.setServed, List.map_set, hr]
  obtain ⟨hm, hsa⟩ := List.getElem?_eq_some_iff.mp hp
  rw [← hsa, List.set_getElem_self]

/-- What a section does to the listener and the connections. -/
inductive Moves (s next : Serving τ) : Prop
  | executors (same : SameTransport s next)
  | listener (action : Listening.Action) (returns : ∀ accept ∈ s.arrivals, action ≠ .handled accept)
      (eq : next = s.listenerStep action)
  | accepted (accept : Nat) (arrived : accept ∈ s.arrivals)
      (accepts : Accepts { s with arrivals := s.arrivals.filter (· ≠ accept) } next)
  | connection (index : Nat) (action : Transport.Action) (eq : next = s.connectionStep index action)

theorem Works.moves (h : Works s next) : Moves s next := by
  cases h with
  | nothing => exact .executors (.refl)
  | listener action returns => exact .listener action returns rfl
  | accepted accept arrived accepts => exact .accepted accept arrived accepts
  | connection index action => exact .connection index action rfl
  | postSerial index task =>
    refine .executors ?_
    unfold Serving.postSerial
    split
    · exact .refl
    · rename_i served hs
      have hset := sameTransport_set hs { served with serial := (s.posted served task).executor } rfl
      dsimp only
      split
      · exact ⟨rfl, rfl, rfl, hset.running⟩
      · exact hset
  | postPool task => exact .executors ⟨rfl, rfl, rfl, rfl⟩
  | drain index call =>
    refine .executors ?_
    unfold Serving.drainStep
    split
    · exact .refl
    · rename_i served hs
      refine sameTransport_set hs _ ?_
      unfold Served.drainStep
      split
      · rfl
      · rfl
      · split <;> rfl
  | worker worker =>
    refine .executors ?_
    unfold Serving.workerStep
    split
    · dsimp only
      split
      · unfold Serving.beginDrain
        dsimp only
        split
        · exact ⟨rfl, rfl, rfl, rfl⟩
        · rename_i served hs
          have hset := sameTransport_set hs { served with drains := served.drains ++ [none] } rfl
          exact ⟨rfl, rfl, rfl, hset.running⟩
      · exact ⟨rfl, rfl, rfl, rfl⟩
    · exact .refl
  | stopPool mode => exact .executors ⟨rfl, rfl, rfl, rfl⟩

/-- The listener keeps its account, and the handlers that have not entered `OnAccepted` run. -/
structure Accepting (s : Serving τ) : Prop where
  sound : AcceptLoop.Sound s.listening
  handling : ∀ accept ∈ s.arrivals, s.listening.accepts[accept]? = some .handling

theorem Accepting.moves (h : Accepting s) (hm : Moves s next) : Accepting next := by
  cases hm with
  | executors same =>
    refine ⟨same.listening ▸ h.sound, ?_⟩
    rw [same.listening, same.arrivals]
    exact h.handling
  | listener action returns eq =>
    subst eq
    refine ⟨h.sound.step, ?_⟩
    intro accept ha
    rcases List.mem_append.mp ha with hold | hnew
    · exact AcceptLoop.handling_stays (h.handling accept hold) (returns accept hold)
    · have hc : AcceptLoop.called ⟨s.listening, action⟩ = some accept :=
        Option.mem_toList.mp hnew
      exact AcceptLoop.called_handling hc
  | accepted accept arrived accepts =>
    have hf : ∀ other ∈ s.arrivals.filter (· ≠ accept),
        s.listening.accepts[other]? = some .handling :=
      fun other ho => h.handling other (List.mem_filter.mp ho).1
    cases accepts <;> exact ⟨h.sound, hf⟩
  | connection index action eq =>
    subst eq
    unfold Serving.connectionStep
    split <;> exact ⟨h.sound, h.handling⟩

/-- The registry holds the connections that have not been removed, each under its own id. -/
structure Registered (registry : ConnectionRegistry Nat) (running : List Running) : Prop where
  distinct : (registry.entries.map Prod.fst).Nodup
  known : ∀ entry ∈ registry.entries, ∃ connection,
    running[entry.2]? = some connection ∧ connection.connection.id = entry.1
  listed : ∀ (index : Nat) connection, running[index]? = some connection → connection.removed = 0 →
    (connection.connection.id, index) ∈ registry.entries
  sound : ∀ connection ∈ running, ConnectionLifecycle.Sound connection

variable {registry added : ConnectionRegistry Nat} {connection : Running}

theorem Registered.start : Registered {} [] where
  distinct := List.nodup_nil
  known _ he := absurd he List.not_mem_nil
  listed _ _ hp := absurd (List.mem_of_getElem? hp) List.not_mem_nil
  sound _ hm := absurd hm List.not_mem_nil

theorem add_ok (h : registry.add id (some place) = .ok added) :
    id ∉ registry.entries.map Prod.fst ∧ added.entries = registry.entries ++ [(id, place)] := by
  unfold ConnectionRegistry.add at h
  dsimp only at h
  split at h
  · cases h
  · rename_i hf
    cases h
    refine ⟨fun hm => hf ?_, rfl⟩
    obtain ⟨entry, he, hid⟩ := List.mem_map.mp hm
    exact List.any_eq_true.mpr ⟨entry, he, by simp [hid]⟩

theorem Registered.add (h : Registered registry running)
    (hadd : registry.add connection.connection.id (some running.length) = .ok added)
    (hs : ConnectionLifecycle.Sound connection) : Registered added (running ++ [connection]) := by
  obtain ⟨hf, he⟩ := add_ok hadd
  constructor
  · rw [he, List.map_append, List.nodup_append]
    refine ⟨h.distinct, List.nodup_singleton _, ?_⟩
    intro id hid other ho heq
    rw [List.map_singleton, List.mem_singleton] at ho
    rw [heq, ho] at hid
    exact hf hid
  · intro entry hen
    rw [he] at hen
    rcases List.mem_append.mp hen with hold | hnew
    · obtain ⟨earlier, hp, hid⟩ := h.known entry hold
      refine ⟨earlier, ?_, hid⟩
      rw [List.getElem?_append_left (List.getElem?_eq_some_iff.mp hp).1]
      exact hp
    · rw [List.mem_singleton.mp hnew]
      exact ⟨connection, by simp, rfl⟩
  · intro index earlier hp hk
    rw [he, List.mem_append]
    by_cases hi : index < running.length
    · rw [List.getElem?_append_left hi] at hp
      exact .inl (h.listed index earlier hp hk)
    · rw [List.getElem?_append_right (Nat.not_lt.mp hi)] at hp
      obtain ⟨hl, hsa⟩ := List.getElem?_eq_some_iff.mp hp
      have hz : index = running.length := by
        rw [List.length_singleton] at hl
        omega
      rw [List.getElem_singleton] at hsa
      rw [hz, hsa]
      exact .inr (List.mem_singleton.mpr rfl)
  · intro earlier hm
    rcases List.mem_append.mp hm with hold | hnew
    · exact h.sound earlier hold
    · rw [List.mem_singleton.mp hnew]
      exact hs

def Removes (connection : Running) (action : Transport.Action) : Prop :=
  action = .remove ∧ connection.removals ≠ 0

theorem removed_kept (h : ¬ Removes connection action) :
    (connection.step action).removed = connection.removed := by
  cases action with
  | remove =>
    have hn : connection.removals = 0 := not_not.mp (fun hs => h ⟨rfl, hs⟩)
    simp [Running.step, Running.absorb, Running.enter, hn]
  | _ => rfl

theorem removed_once (h : Removes connection action) :
    (connection.step action).removed = connection.removed + 1 := by
  obtain ⟨rfl, hs⟩ := h
  simp [Running.step, Running.absorb, Running.enter, hs]

theorem removed_closed (h : ConnectionLifecycle.Sound connection) :
    connection.removals + connection.removed =
      if connection.connection.state = .closed then 1 else 0 := by
  have ha := h.drained.announced
  simpa [ConnectionLifecycle.resource, ConnectionLifecycle.announced] using ha

theorem removes_first (h : ConnectionLifecycle.Sound connection)
    (hr : Removes connection action) : connection.removed = 0 := by
  have ha := removed_closed h
  have hs := hr.2
  split at ha <;> omega

theorem remove_entries (h : (id, place) ∈ registry.entries) :
    (registry.remove id).2.entries = registry.entries.filter (fun entry => entry.1 != id) := by
  have hc : registry.contains id = true := List.any_eq_true.mpr ⟨_, h, by simp⟩
  rw [ConnectionRegistry.remove, if_pos hc]

theorem step_id : (connection.step action).connection.id = connection.connection.id :=
  (SendAdmission.step_fixed connection action).id

def registryAfter (registry : ConnectionRegistry Nat) (connection : Running)
    (action : Transport.Action) : ConnectionRegistry Nat :=
  if action = .remove ∧ connection.removals ≠ 0 then (registry.remove connection.connection.id).2
  else registry

theorem Registered.known_set (h : Registered registry running)
    (hp : running[index]? = some connection)
    (he : entry ∈ registry.entries) :
    ∃ other, (running.set index (connection.step action))[entry.2]? = some other ∧
      other.connection.id = entry.1 := by
  obtain ⟨other, ho, hid⟩ := h.known entry he
  by_cases hi : index = entry.2
  · subst hi
    rw [hp] at ho
    cases ho
    refine ⟨connection.step action, ?_, step_id.trans hid⟩
    exact List.getElem?_set_self (List.getElem?_eq_some_iff.mp hp).1
  · exact ⟨other, (List.getElem?_set_ne hi).trans ho, hid⟩

theorem Registered.step (h : Registered registry running)
    (hp : running[index]? = some connection) (action : Transport.Action) :
    Registered (registryAfter registry connection action)
      (running.set index (connection.step action)) := by
  have hso := h.sound connection (List.mem_of_getElem? hp)
  have hl := (List.getElem?_eq_some_iff.mp hp).1
  have hs : ∀ other ∈ running.set index (connection.step action),
      ConnectionLifecycle.Sound other := by
    intro other hm
    rcases List.mem_or_eq_of_mem_set hm with hold | rfl
    · exact h.sound other hold
    · exact hso.step action
  unfold registryAfter
  split
  · rename_i hr
    have hf := removes_first hso hr
    have he := h.listed index connection hp hf
    refine ⟨?_, ?_, ?_, hs⟩
    · rw [remove_entries he]
      exact h.distinct.sublist (List.filter_sublist.map _)
    · intro entry hm
      rw [remove_entries he] at hm
      exact h.known_set hp (List.mem_filter.mp hm).1
    · intro place other ho hke
      have hne : index ≠ place := by
        rintro rfl
        rw [List.getElem?_set_self hl] at ho
        cases ho
        rw [removed_once hr] at hke
        cases hke
      rw [List.getElem?_set_ne hne] at ho
      have hli := h.listed place other ho hke
      rw [remove_entries he, List.mem_filter]
      refine ⟨hli, ?_⟩
      rw [bne_iff_ne]
      intro hid
      have hsa := List.inj_on_of_nodup_map h.distinct hli he hid
      exact hne (congrArg Prod.snd hsa).symm
  · rename_i hk
    refine ⟨h.distinct, fun entry he => h.known_set hp he, ?_, hs⟩
    intro place other ho hke
    by_cases hi : index = place
    · subst hi
      rw [List.getElem?_set_self hl] at ho
      cases ho
      rw [step_id]
      exact h.listed index connection hp ((removed_kept hk).symm.trans hke)
    · rw [List.getElem?_set_ne hi] at ho
      exact h.listed place other ho hke

theorem Registered.moves (h : Registered s.registry (s.connections.map Served.running))
    (hm : Moves s next) : Registered next.registry (next.connections.map Served.running) := by
  cases hm with
  | executors same =>
    rw [same.registry, same.running]
    exact h
  | listener action returns eq =>
    subst eq
    exact h
  | accepted accept arrived accepts =>
    have hn : Registered s.registry.nextId.2 (s.connections.map Served.running) :=
      ⟨h.distinct, h.known, h.listed, h.sound⟩
    cases accepts with
    | refused => exact h
    | failed => exact hn
    | @added connection registry native running created ha =>
      have hso := (ConnectionLifecycle.Fresh.of_create created).sound.step (.start native)
      rw [List.map_append]
      refine hn.add ?_ hso
      change s.registry.nextId.2.add (({ connection } : Running).step (.start native)).connection.id _ = _
      rw [step_id, List.length_map]
      exact ha
  | connection index action eq =>
    subst eq
    unfold Serving.connectionStep
    split
    · exact h
    · rename_i served hs
      have hp : (s.connections.map Served.running)[index]? = some served.running := by
        rw [List.getElem?_map, hs]
        rfl
      have hset : (s.connections.map Served.running).set index (served.running.step action) =
          (s.connections.set index { served with running := served.running.step action }).map
            Served.running := by
        rw [List.map_set]
      have hst := h.step hp action
      rw [hset] at hst
      exact hst

/-- A connection that the registry does not hold any more has closed. -/
theorem Registered.closed (h : Registered registry running) (he : registry.entries = [])
    (hm : connection ∈ running) : connection.connection.state = .closed := by
  obtain ⟨index, hp⟩ := List.mem_iff_getElem?.mp hm
  have hc := removed_closed (h.sound connection hm)
  by_contra ho
  rw [if_neg ho] at hc
  have hl := h.listed index connection hp (by omega)
  rw [he] at hl
  cases hl

/-- The invariant of everything but the calls of `Start` and `Stop`. -/
structure Serviced (s : Serving τ) : Prop where
  accepting : Accepting s
  registered : Registered s.registry (s.connections.map Served.running)
  attentive : ∀ index, Attentive (view s index)

theorem Serviced.works (h : Serviced s) (hwo : Works s next) : Serviced next where
  accepting := h.accepting.moves hwo.moves
  registered := h.registered.moves hwo.moves
  attentive index := hwo.attentive (h.attentive index)

/-- A listener that has stopped calls no handler. -/
theorem Accepting.no_arrival (h : Accepting s) (hs : s.listening.listener.state = .stopped) :
    s.arrivals = [] := by
  refine List.eq_nil_iff_forall_not_mem.mpr (fun accept ha => ?_)
  have hst := List.mem_of_getElem? (h.handling accept ha)
  cases h.sound.all_finished hs _ hst

theorem Moves.listening_stays (hm : Moves s next) (h : Accepting s)
    (hs : s.listening.listener.state = .stopped) : next.listening = s.listening := by
  cases hm with
  | executors same => exact same.listening
  | listener action returns eq =>
    subst eq
    exact h.sound.stays hs
  | accepted accept arrived accepts =>
    rw [h.no_arrival hs] at arrived
    cases arrived
  | connection index action eq =>
    subst eq
    unfold Serving.connectionStep
    split <;> rfl

theorem remove_empty (h : registry.entries = []) : (registry.remove id).2.entries = [] := by
  unfold ConnectionRegistry.remove
  split
  · simp [h]
  · exact h

theorem Moves.no_addition (hm : Moves s next) (hc : s.state ≠ .running) :
    next.connections.length = s.connections.length ∧
      (s.registry.entries = [] → next.registry.entries = []) := by
  cases hm with
  | executors same =>
    have hl := congrArg List.length same.running
    rw [List.length_map, List.length_map] at hl
    exact ⟨hl, fun he => same.registry ▸ he⟩
  | listener action returns eq =>
    subst eq
    exact ⟨rfl, id⟩
  | accepted accept arrived accepts =>
    cases accepts with
    | refused => exact ⟨rfl, id⟩
    | failed => exact ⟨rfl, id⟩
    | added native running created added => exact absurd running hc
  | connection index action eq =>
    subst eq
    unfold Serving.connectionStep
    split
    · exact ⟨rfl, id⟩
    · refine ⟨List.length_set, fun he => ?_⟩
      dsimp only [Serving.setServed]
      split
      · exact remove_empty he
      · exact he

theorem Serviced.finished (h : Serviced s) (hs : s.pool.context.state = .stopped) :
    Finished s.pool :=
  finished_of_stopped (h.attentive 0).attended hs

theorem Serviced.control (h : Serviced s) (state : HttpServerState) (start : StartStage)
    (stops : List StopStage) : Serviced { s with state, start, stops } :=
  ⟨⟨h.accepting.sound, h.accepting.handling⟩, h.registered, h.attentive⟩

/-- Threads that have all returned have stopped the pool. -/
theorem Serviced.joined (h : Serviced s) (hj : s.pool.workers.any Worker.live = false) :
    s.pool.context.state = .stopped := by
  obtain ⟨_, _, hc⟩ := (h.attentive 0).attended.sound
  have hl : (s.pool.map (asJob 0)).workers.countP Worker.live = 0 := by
    rw [List.countP_eq_zero]
    intro worker hwo
    obtain ⟨place, hp, rfl⟩ := List.mem_map.mp hwo
    have hd := List.any_eq_false.mp hj place hp
    cases place <;> exact hd
  exact hc.lastExit.mpr (hc.live.trans hl)

end IocpRuntime.Proofs.ServerSections
