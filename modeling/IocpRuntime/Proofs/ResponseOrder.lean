import Mathlib.Data.List.Infix
import IocpRuntime.Proofs.FeedSteps

namespace IocpRuntime.Proofs.ResponseOrder
open Lib Http FeedSteps

section Lists
def finals (sent : List Sent) : List Sent := sent.filter (fun r => !r.interim)

/-- Each interim response follows the final responses of all earlier requests, and no other. -/
def Placed (answers sent : List Sent) : Prop :=
  ∀ before r after, sent = before ++ r :: after → r.interim = true →
    finals before = answers.take (r.requestId - 1)

/-- The responses are in order, where `answers` are the final ones in request order. -/
structure InOrder (answers sent : List Sent) : Prop where
  finals : finals sent <+: answers
  interims : Placed answers sent

theorem finals_final (h : r.interim = false) : finals (sent ++ [r]) = finals sent ++ [r] := by
  simp [finals, h]

theorem finals_interim (h : r.interim = true) : finals (sent ++ [r]) = finals sent := by
  simp [finals, h]

theorem split_concat (h : sent ++ [r] = before ++ q :: after) :
    (before = sent ∧ q = r) ∨ ∃ left, sent = before ++ q :: left := by
  rcases List.eq_nil_or_concat after with rfl | ⟨left, last, rfl⟩
  · obtain ⟨hb, hl⟩ := List.append_inj' h rfl
    cases hl
    exact .inl ⟨hb.symm, rfl⟩
  · rw [List.concat_eq_append, ← List.cons_append, ← List.append_assoc] at h
    exact .inr ⟨left, (List.append_inj' h rfl).1⟩

theorem placed_final (h : r.interim = false) : Placed answers
    (sent ++ [r]) ↔ Placed answers sent := by
  constructor
  · rintro hp before q after rfl
    exact hp before q (after ++ [r]) (by simp)
  · intro hp before q after hs hi
    rcases split_concat hs with ⟨-, rfl⟩ | ⟨left, hl⟩
    · cases h.symm.trans hi
    · exact hp before q left hl hi

theorem placed_interim (h : r.interim = true) : Placed answers (sent ++ [r]) ↔
      Placed answers sent ∧ finals sent = answers.take (r.requestId - 1) := by
  constructor
  · intro hp
    refine ⟨?_, hp sent r [] rfl h⟩
    rintro before q after rfl
    exact hp before q (after ++ [r]) (by simp)
  · rintro ⟨hp, hl⟩ before q after hs hi
    rcases split_concat hs with ⟨rfl, rfl⟩ | ⟨left, hle⟩
    · exact hl
    · exact hp before q left hle hi

theorem placed_append (h : ∀ r ∈ sent, r.interim = true → r.requestId ≤ answers.length + 1) :
    Placed (answers ++ more) sent ↔ Placed answers sent := by
  refine forall_congr' (fun before => forall_congr' (fun r => forall_congr' (fun after => ?_)))
  refine forall_congr' (fun hs => forall_congr' (fun hi => ?_))
  have hmem : r ∈ sent := by
    rw [hs]
    exact List.mem_append_right _ List.mem_cons_self
  rw [List.take_append_of_le_length]
  have hid := h r hmem hi
  omega

end Lists

section Runs
variable (router : HttpRouter)

def postedBy (event : Exchange.Event) : List PostedTask :=
  match event.input with
  | .feed _ _ | .round _ =>
    (event.after (Exchange.step router)).tasks.drop event.before.tasks.length
  | .runTask => []

/-- The final responses that are owed in the course of a run, in the order in which their
tasks were posted. -/
def owed (log : List Exchange.Event) : List Sent :=
  (log.flatMap (postedBy router)).map (Exchange.answer router)

/-- The responses so far come from the tasks, and each task is for the next request. -/
structure Accounted (log : List Exchange.Event) (x : Exchange) : Prop where
  queue : finals x.sent ++ x.tasks.map (Exchange.answer router) = owed router log
  ids : (owed router log).map Sent.requestId = List.range' 1 (owed router log).length
  next : x.session.stopped = false → x.session.nextRequestId = (owed router log).length + 1
  feeding : ∀ now, x.place = .feeding now → x.session.stopped = false
  interims : ∀ r ∈ x.sent, r.interim = true → r.requestId ≤ (owed router log).length + 1

/-- The event is a round of `Feed` that finds the headers of a request that waits to be told
to go on. -/
def asks (event : Exchange.Event) : Bool :=
  match event.input, event.before.place with
  | .round _, .feeding _ => announces event.before.session
  | _, _ => false

/-- Such a request is found only when the executor has run all tasks. -/
def Allowed (event : Exchange.Event) : Prop := asks event = true → event.before.tasks = []

structure Kept (log : List Exchange.Event) (x : Exchange) : Prop extends Accounted router log x where
  placed : Placed (owed router log) x.sent ↔ ∀ event ∈ log, Allowed event

variable {router} {event : Exchange.Event}

theorem owed_concat : owed router (log ++ [event]) =
      owed router log ++ (postedBy router event).map (Exchange.answer router) := by
  simp [owed]

theorem allowed_concat : (∀ e ∈ log ++ [event], Allowed e) ↔
    (∀ e ∈ log, Allowed e) ∧ Allowed event := by
  simp [or_imp, forall_and]

section

variable (h : Kept router log event.before)
include h

theorem Kept.quiet (hask : asks event = false)
    (hp : postedBy router event = []) (ht : y.tasks = event.before.tasks)
    (hs : y.sent = event.before.sent)
    (hn : y.session.stopped = false →
      event.before.session.stopped = false ∧
        y.session.nextRequestId = event.before.session.nextRequestId)
    (hf : ∀ now, y.place = .feeding now → y.session.stopped = false) :
    Kept router (log ++ [event]) y := by
  have ho : owed router (log ++ [event]) = owed router log := by
    rw [owed_concat, hp, List.map_nil, List.append_nil]
  have ha : Allowed event := by
    intro h
    cases hask.symm.trans h
  refine ⟨⟨?_, ?_, ?_, hf, ?_⟩, ?_⟩
  · rw [ho, ht, hs]
    exact h.queue
  · rw [ho]
    exact h.ids
  · intro hr
    rw [ho, (hn hr).2]
    exact h.next (hn hr).1
  · rw [ho, hs]
    exact h.interims
  · rw [ho, hs, allowed_concat, h.placed]
    exact (and_iff_left ha).symm

theorem Kept.posts (hask : asks event = false)
    (hp : postedBy router event = [task]) (ht : y.tasks = event.before.tasks ++ [task])
    (hs : y.sent = event.before.sent)
    (hid : (Exchange.answer router task).requestId = event.before.session.nextRequestId)
    (hru : event.before.session.stopped = false)
    (hne : y.session.stopped = false →
      y.session.nextRequestId = event.before.session.nextRequestId + 1)
    (hf : ∀ now, y.place = .feeding now → y.session.stopped = false) :
    Kept router (log ++ [event]) y := by
  have ho : owed router (log ++ [event]) = owed router log ++ [Exchange.answer router task] := by
    rw [owed_concat, hp, List.map_singleton]
  have ha : Allowed event := by
    intro h
    cases hask.symm.trans h
  have hn := h.next hru
  refine ⟨⟨?_, ?_, ?_, hf, ?_⟩, ?_⟩
  · rw [ho, ht, hs, List.map_append, ← List.append_assoc, h.queue, List.map_singleton]
  · rw [ho, List.map_append, List.map_singleton, List.length_append, h.ids, hid, hn,
      List.length_singleton, List.range'_1_concat, Nat.add_comm]
  · intro hop
    rw [ho, hne hop, hn, List.length_append, List.length_singleton]
  · intro r hr hi
    rw [hs] at hr
    have hb := h.interims r hr hi
    rw [ho, List.length_append]
    omega
  · rw [ho, hs, allowed_concat, placed_append h.interims, h.placed]
    exact (and_iff_left ha).symm

/-- An interim response is sent. It is in order if and only if no task is left. -/
theorem Kept.interim (ha : asks event = true) (hp : postedBy router event = [])
    (ht : y.tasks = event.before.tasks)
    (hs : y.sent = event.before.sent ++ [⟨event.before.session.nextRequestId, true, response⟩])
    (hru : event.before.session.stopped = false)
    (hne : y.session.nextRequestId = event.before.session.nextRequestId)
    (hf : y.session.stopped = false) : Kept router (log ++ [event]) y := by
  have ho : owed router (log ++ [event]) = owed router log := by
    rw [owed_concat, hp, List.map_nil, List.append_nil]
  have hn := h.next hru
  have hq := h.queue
  refine ⟨⟨?_, ?_, ?_, fun _ _ => hf, ?_⟩, ?_⟩
  · rw [ho, ht, hs, finals_interim rfl]
    exact hq
  · rw [ho]
    exact h.ids
  · intro _
    rw [ho, hne]
    exact hn
  · intro r hr hi
    rw [ho]
    rw [hs] at hr
    rcases List.mem_append.mp hr with hr | hr
    · exact h.interims r hr hi
    · rw [List.mem_singleton.mp hr]
      exact hn.le
  · have hl : finals event.before.sent = (owed router log).take (owed router log).length ↔
        event.before.tasks = [] := by
      rw [List.take_length, ← hq]
      simp
    rw [ho, hs, allowed_concat, placed_interim rfl, h.placed, hn, Nat.add_sub_cancel, hl]
    exact and_congr_right (fun _ => ⟨fun he _ => he, fun hc => hc ha⟩)

theorem Kept.ran (hin : event.input = .runTask) :
    Kept router (log ++ [event]) (event.before.runTask router) := by
  have hask : asks event = false := by
    simp only [asks, hin]
  have hp : postedBy router event = [] := by
    simp only [postedBy, hin]
  have ho : owed router (log ++ [event]) = owed router log := by
    rw [owed_concat, hp, List.map_nil, List.append_nil]
  have ha : Allowed event := by
    intro h
    cases hask.symm.trans h
  have hq := h.queue
  unfold Exchange.runTask
  split
  · exact h.quiet hask hp rfl rfl (fun hru => ⟨hru, rfl⟩) h.feeding
  · rename_i task tasks ht
    have hf : (Exchange.answer router task).interim = false := by
      cases task <;> rfl
    rw [ht, List.map_cons] at hq
    refine ⟨⟨?_, ?_, ?_, h.feeding, ?_⟩, ?_⟩
    · rw [ho, finals_final hf, List.append_assoc]
      exact hq
    · rw [ho]
      exact h.ids
    · rw [ho]
      exact h.next
    · intro r hr hi
      rw [ho]
      rcases List.mem_append.mp hr with hr | hr
      · exact h.interims r hr hi
      · rw [List.mem_singleton.mp hr, hf] at hi
        cases hi
    · rw [ho, placed_final hf, allowed_concat, h.placed]
      exact (and_iff_left ha).symm

end

/-- A part of `Feed` that sends no interim response. -/
theorem Kept.took (h : Kept router log event.before)
    (hpa : Part event.before.session False fails submit part) (ha : asks event = false)
    (hpo : postedBy router event = (event.before.take part).tasks.drop event.before.tasks.length) :
    Kept router (log ++ [event]) (event.before.take part) := by
  have hn : event.before.tasks.drop event.before.tasks.length = [] := List.drop_length
  have hone : ∀ task, (event.before.tasks ++ [task]).drop event.before.tasks.length = [task] :=
    fun task => List.drop_left
  cases hpa with
  | quiet running reads =>
    exact h.quiet ha (hpo.trans hn) rfl rfl (fun _ => ⟨running, reads.ids⟩)
      (fun _ _ => reads.running.trans running)
  | interim _ _ asked => exact absurd asked id
  | request running reads id _ =>
    exact h.posts ha (hpo.trans (hone _)) rfl rfl id running (fun _ => reads.ids)
      (fun _ _ => reads.running.trans running)
  | waits reads =>
    exact h.quiet ha (hpo.trans hn) rfl rfl
      (fun hr => ⟨reads.running ▸ hr, reads.ids⟩) (fun _ hp => by cases hp)
  | stopped already =>
    exact h.quiet ha (hpo.trans hn) rfl rfl (fun hr => ⟨hr, rfl⟩) (fun _ hp => by cases hp)
  | late stops _ =>
    exact h.quiet ha (hpo.trans hn) rfl rfl
      (fun hr => by cases stops.stopped.symm.trans hr) (fun _ hp => by cases hp)
  | refused stops _ =>
    exact h.quiet ha (hpo.trans hn) rfl rfl
      (fun hr => by cases stops.stopped.symm.trans hr) (fun _ hp => by cases hp)
  | last running stops id _ =>
    exact h.posts ha (hpo.trans (hone _)) rfl rfl id running
      (fun hr => by cases stops.stopped.symm.trans hr) (fun _ hp => by cases hp)
  | error running stops _ _ _ =>
    exact h.posts ha (hpo.trans (hone _)) rfl rfl rfl running
      (fun hr => by cases stops.stopped.symm.trans hr) (fun _ hp => by cases hp)
  | throws reads =>
    exact h.quiet ha (hpo.trans hn) rfl rfl
      (fun hr => ⟨reads.running ▸ hr, reads.ids⟩) (fun _ hp => by cases hp)

theorem Kept.fed (h : Kept router log event.before) (hi : event.input = .feed bytes submit) :
    Kept router (log ++ [event]) (event.before.feed bytes submit) := by
  have ha : asks event = false := by
    simp only [asks, hi]
  have hp : postedBy router event =
      (event.before.feed bytes submit).tasks.drop event.before.tasks.length := by
    simp only [postedBy, hi, Runs.Event.after, Exchange.step]
  unfold Exchange.feed at hp ⊢
  split at hp
  · exact h.quiet ha (hp.trans List.drop_length) rfl rfl (fun hr => ⟨hr, rfl⟩) h.feeding
  all_goals exact h.took enter_part ha hp

theorem Kept.rounded (h : Kept router log event.before) (hi : event.input = .round submit) :
    Kept router (log ++ [event]) (event.before.round submit) := by
  have hp : postedBy router event =
      (event.before.round submit).tasks.drop event.before.tasks.length := by
    simp only [postedBy, hi, Runs.Event.after, Exchange.step]
  cases hpl : event.before.place with
  | feeding now =>
    have hro : event.before.round submit =
        event.before.take (event.before.session.round now submit) := by
      simp only [Exchange.round, hpl]
    have hr := h.feeding now hpl
    rw [hro] at hp ⊢
    cases ha : announces event.before.session with
    | true =>
      have hask : asks event = true := by
        simp only [asks, hi, hpl, ha]
      obtain ⟨t, reads, hg⟩ := round_announces ha
      rw [hg] at hp ⊢
      exact h.interim hask (hp.trans List.drop_length) rfl rfl hr reads.ids (reads.running.trans hr)
    | false =>
      have hask : asks event = false := by
        simp only [asks, hi, hpl, ha]
      have hpa := round_part hr now submit
      rw [ha, Bool.false_eq_true] at hpa
      exact h.took hpa hask hp
  | outside | returned _ | thrown _ =>
    have hro : event.before.round submit = event.before := by
      simp only [Exchange.round, hpl]
    have hask : asks event = false := by
      simp only [asks, hi, hpl]
    rw [hro] at hp ⊢
    exact h.quiet hask (hp.trans List.drop_length) rfl rfl (fun hr => ⟨hr, rfl⟩) h.feeding

theorem Kept.step (h : Kept router log event.before) :
    Kept router (log ++ [event]) (event.after (Exchange.step router)) := by
  obtain ⟨x, input⟩ := event
  cases input with
  | feed bytes submit => exact h.fed rfl
  | round submit => exact h.rounded rfl
  | runTask => exact h.ran rfl

theorem kept_start (hc : HttpSession.create connectionId options = .ok s) :
    Kept router [] { session := s } where
  queue := rfl
  ids := rfl
  next := by
    obtain ⟨ring, parser, -, -, -, rfl⟩ := HttpSession.create_eq hc
    exact fun _ => rfl
  feeding := fun _ hp => by cases hp
  interims := fun _ hr => absurd hr List.not_mem_nil
  placed := by
    refine ⟨fun _ _ he => absurd he List.not_mem_nil, fun _ before r after hs => ?_⟩
    exact absurd hs.symm (List.append_ne_nil_of_right_ne_nil _ (List.cons_ne_nil _ _))

/-- Tasks are posted for consecutive requests, and responses are in order exactly if no interim
response finds a task before it. -/
theorem responses_in_order {connectionId : Nat} {options : HttpSessionOptions} {s : HttpSession}
    (hcreate : HttpSession.create connectionId options = .ok s) (router : HttpRouter)
    (actions : List Exchange.Action) :
    let log := Runs.history (Exchange.step router) { session := s } actions
    let x := Runs.final (Exchange.step router) { session := s } actions
    (owed router log).map Sent.requestId = List.range' 1 (owed router log).length ∧
      (InOrder (owed router log) x.sent ↔ ∀ event ∈ log, Allowed event) := by
  intro log x
  have hkept : Kept router log x :=
    Runs.run_induction (kept_start hcreate) (fun _ _ h (_ : True) => h.step) (fun _ _ => trivial)
  refine ⟨hkept.ids, fun h => hkept.placed.mp h.interims, fun h => ⟨?_, hkept.placed.mpr h⟩⟩
  exact ⟨_, hkept.queue⟩

/-- A request and the head of another that waits to be told to go on, in one segment. -/
def segment : Octets :=
  octets "GET / HTTP/1.1\r\nHost:h\r\n\r\n" ++
    octets "PUT / HTTP/1.1\r\nHost:h\r\nExpect:100-continue\r\nContent-Length:1\r\n\r\n"

def small : HttpSessionOptions := { initialBufferBytes := 128, maximumBufferBytes := 256 }

def patient : List Exchange.Action :=
  [.feed segment .accepted, .round .accepted, .runTask, .round .accepted, .round .accepted,
    .feed (octets "A") .accepted, .round .accepted, .runTask]

theorem responses_in_order_patient : ∃ s, HttpSession.create 7 small = .ok s ∧
    InOrder (owed {} (Runs.history (Exchange.step {}) { session := s } patient))
      (Runs.final (Exchange.step {}) { session := s } patient).sent := by
  have hclear : ((HttpSession.create 7 small).toOption.map (fun s =>
      (Runs.history (Exchange.step {}) { session := s } patient).all
        (fun event => !asks event || event.before.tasks.isEmpty))) = some true := by
    decide +kernel
  obtain ⟨s, hcreate, hall⟩ := HttpSession.exists_created hclear
  refine ⟨s, hcreate, (responses_in_order hcreate {} _).2.mpr (fun event hevent hasks => ?_)⟩
  have hevent := List.all_eq_true.mp hall event hevent
  simpa [hasks] using hevent

def hasty : List Exchange.Action :=
  [.feed segment .accepted, .round .accepted, .round .accepted, .runTask]

/-- The interim response of the second request comes before the response of the first. -/
theorem interim_overtakes : ∃ s, HttpSession.create 7 small = .ok s ∧
    (Runs.final (Exchange.step {}) { session := s } hasty).sent.map
        (fun r => (r.requestId, r.interim)) = [(2, true), (1, false)] ∧
      ¬ InOrder (owed {} (Runs.history (Exchange.step {}) { session := s } hasty))
        (Runs.final (Exchange.step {}) { session := s } hasty).sent := by
  have hrun : ((HttpSession.create 7 small).toOption.map (fun s =>
      ((Runs.final (Exchange.step {}) { session := s } hasty).sent.map
          (fun r => (r.requestId, r.interim)),
        (owed {} (Runs.history (Exchange.step {}) { session := s } hasty)).length))) =
      some ([(2, true), (1, false)], 1) := by
    decide +kernel
  obtain ⟨s, hcreate, hresult⟩ := HttpSession.exists_created hrun
  obtain ⟨hsent, howed⟩ := Prod.mk.inj hresult
  refine ⟨s, hcreate, hsent, fun horder => ?_⟩
  obtain ⟨r, rest, hsplit, hkind, -⟩ := List.map_eq_cons_iff.mp hsent
  obtain ⟨hid, hinterim⟩ := Prod.mk.inj hkind
  have hplaced := congrArg List.length (horder.interims [] r rest hsplit hinterim)
  rw [hid, List.length_take, howed] at hplaced
  cases hplaced

end Runs

end IocpRuntime.Proofs.ResponseOrder
