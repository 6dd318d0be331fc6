import IocpRuntime.Http.Router
import IocpRuntime.Lib.Runs

namespace IocpRuntime.Proofs.RouteTable
open Lib Http

structure Call where
  method : HttpMethod
  path : Octets
  handler : Option HttpHandler

def step (router : HttpRouter) (call : Call) : HttpRouter :=
  (router.register call.method call.path call.handler).2

/-- `Register` does not throw. -/
structure Call.Valid (call : Call) : Prop where
  supported : call.method ≠ .unsupported
  rooted : call.path.head? = some 47
  filled : call.handler.isSome

abbrev CallEvent := Runs.Event HttpRouter Call

def succeeds (event : CallEvent) : Bool :=
  match (event.before.register event.input.method event.input.path event.input.handler).1 with
  | .ok stored => stored
  | .error _ => false

/-- The handler of the first successful call for a method and a path. -/
def registered (log : List CallEvent) (path : Octets) (method : HttpMethod) : Option HttpHandler :=
  log.findSome? fun event =>
    if succeeds event ∧ event.input.path = path ∧ event.input.method = method then event.input.handler
    else none

def slots : List (HttpMethod × Octets) :=
  [(.get, octets "GET"), (.post, octets "POST"), (.put, octets "PUT"), (.delete, octets "DELETE")]

def allowed (handlers : HttpMethod → Option HttpHandler) : List Octets :=
  (slots.filter fun slot => (handlers slot.1).isSome).map Prod.snd

/-- The answer that the handlers registered for the path of the request ask for. -/
def expected (handlers : HttpMethod → Option HttpHandler) (request : HttpRequest)
    (closeConnection : Bool) : HttpResponse :=
  let response :=
    match handlers (if request.method = .head then .get else request.method) with
    | some handler => (handler request).getD { makeTextResponse 500 (octets "internal server error\n")
        with closeConnection := true }
    | none =>
      if allowed handlers = [] then makeTextResponse 404 (octets "not found\n")
      else { makeTextResponse 405 (octets "method not allowed\n") with
        headers := [⟨octets "Content-Type", octets "text/plain; charset=utf-8"⟩,
          ⟨octets "Allow", (octets ", ").intercalate (allowed handlers)⟩] }
  { response with
    closeConnection := response.closeConnection || closeConnection
    body := if request.method = .head then [] else response.body }

/-- The slot of a method; HEAD has none. -/
def slot (handlers : MethodHandlers) : HttpMethod → Option HttpHandler
  | .head => none
  | method => handlers.handler method

theorem store_some (h : handlers.store handler method = some next) : slot handlers method = none ∧
      ∀ other, slot next other = if other = method then some handler else slot handlers other := by
  cases method <;> simp only [MethodHandlers.store, Option.ite_none_left_eq_some,
    Option.some.injEq, reduceCtorEq] at h
  all_goals
    obtain ⟨hf, rfl⟩ := h
    refine ⟨Option.not_isSome_iff_eq_none.mp hf, fun other => ?_⟩
    cases other <;> rfl

theorem store_none (h : handlers.store handler method = none)
    (hs : method ∈ slots.map Prod.fst) : (slot handlers method).isSome := by
  cases method <;> simp_all [MethodHandlers.store, slot, MethodHandlers.handler, slots,
    Option.isSome_iff_ne_none]

/-- What a call does: it throws, or there is an entry for its path, with the handler in it if the
slot was free. -/
theorem register_cases (router : HttpRouter) (call : Call) :
    (¬ call.Valid ∧ step router call = router ∧ succeeds ⟨router, call⟩ = false) ∨
      ∃ handler handlers next, call.Valid ∧ call.handler = some handler ∧
        (∀ method, slot handlers method = (router.routes.lookup call.path).bind (slot · method)) ∧
        step router call = { routes := router.routes.insert call.path next } ∧
        (handlers.store handler call.method = some next ∧ succeeds ⟨router, call⟩ = true ∨
          handlers.store handler call.method = none ∧ next = handlers ∧
            succeeds ⟨router, call⟩ = false) := by
  unfold step succeeds HttpRouter.register
  dsimp only
  split
  · rename_i hm
    exact .inl ⟨fun hv => hv.supported hm, rfl, rfl⟩
  · rename_i hm
    split
    · rename_i hp
      exact .inl ⟨fun hv => hp hv.rooted, rfl, rfl⟩
    · rename_i hp
      cases hh : call.handler with
      | none => exact .inl ⟨fun hv => by simpa [hh] using hv.filled, rfl, rfl⟩
      | some handler =>
        refine .inr ⟨handler, (router.routes.lookup call.path).getD {}, ?_⟩
        have hv : call.Valid := ⟨hm, not_not.mp hp, by simp [hh]⟩
        have hl : ∀ method, slot ((router.routes.lookup call.path).getD {}) method =
            (router.routes.lookup call.path).bind (slot · method) := by
          intro method
          cases router.routes.lookup call.path with
          | none => cases method <;> rfl
          | some handlers => rfl
        dsimp only
        cases hst : ((router.routes.lookup call.path).getD {}).store handler call.method with
        | none => exact ⟨_, hv, rfl, hl, rfl, .inr ⟨rfl, rfl, rfl⟩⟩
        | some next => exact ⟨next, hv, rfl, hl, rfl, .inl ⟨rfl, rfl⟩⟩

structure Faithful (log : List CallEvent) (router : HttpRouter) : Prop where
  table : ∀ path method,
    (router.routes.lookup path).bind (slot · method) = registered log path method
  entries : ∀ path, (router.routes.lookup path).isSome ↔
    ∃ event ∈ log, event.input.Valid ∧ event.input.path = path
  stored : ∀ event ∈ log, event.input.Valid → event.input.method ∈ slots.map Prod.fst →
    (registered log event.input.path event.input.method).isSome

theorem Faithful.step (h : Faithful log event.before) :
    Faithful (log ++ [event]) (event.after RouteTable.step) := by
  obtain ⟨router, call⟩ := event
  have hr : ∀ path method, registered (log ++ [⟨router, call⟩]) path method =
      (registered log path method).or (if succeeds ⟨router, call⟩ ∧ call.path = path ∧
        call.method = method then call.handler else none) := by
    intro path method
    rw [registered, List.findSome?_append]
    simp [registered]
  rcases register_cases router call with
    ⟨hv, hs, hn⟩ | ⟨handler, handlers, next, hv, hh, hl, hs, hst⟩
  · simp only [Runs.Event.after, hs]
    simp only [hn, Bool.false_eq_true, false_and, if_false, Option.or_none] at hr
    refine ⟨fun path method => by rw [hr]; exact h.table path method, fun path => ?_, ?_⟩
    · simp [h.entries path, hv, or_and_right, exists_or]
    · simp only [List.mem_append, List.mem_singleton, hr]
      rintro event (he | rfl) hv'
      · exact h.stored event he hv'
      · exact absurd hv' hv
  · have hp : ∀ method, slot handlers method = registered log call.path method :=
      fun method => (hl method).trans (h.table call.path method)
    simp only [Runs.Event.after, hs]
    refine ⟨fun path method => ?_, fun path => ?_, ?_⟩
    · rw [hr]
      by_cases hq : path = call.path
      · subst hq
        rw [AList.lookup_insert, Option.bind_some]
        rcases hst with ⟨hst, hok⟩ | ⟨-, rfl, hok⟩
        · obtain ⟨hfree, hnext⟩ := store_some hst
          rw [hnext, ← hp]
          by_cases hm : method = call.method
          · subst hm
            simp [hfree, hok, hh]
          · simp [hm, Ne.symm hm]
        · simp [hok, hp]
      · have hq' : ¬ call.path = path := fun he => hq he.symm
        simp [AList.lookup_insert_ne hq, hq', ← h.table path method]
    · by_cases hq : path = call.path
      · subst hq
        simp [hv]
      · have hq' : ¬ call.path = path := fun he => hq he.symm
        simp [AList.lookup_insert_ne hq, h.entries path, hq', or_and_right, exists_or]
    · simp only [List.mem_append, List.mem_singleton, hr]
      rintro event (he | rfl) hv' hm
      · simp [h.stored event he hv' hm]
      · rcases hst with ⟨hst, hok⟩ | ⟨hst, -, -⟩
        · simp [hok, hh]
        · simp [← hp, store_none hst hm]

theorem Faithful.run (calls : List Call) :
    Faithful (Runs.history RouteTable.step {} calls) (Runs.final RouteTable.step {} calls) :=
  Runs.run_induction ⟨fun _ _ => rfl, fun _ => by simp, fun _ he => nomatch he⟩
    (fun _ _ h (_ : True) => h.step) (fun _ _ => trivial)

theorem allowed_slot (handlers : MethodHandlers) : allowed (slot handlers) =
    (if handlers.get.isSome then [octets "GET"] else []) ++
    (if handlers.post.isSome then [octets "POST"] else []) ++
    (if handlers.put.isSome then [octets "PUT"] else []) ++
    (if handlers.delete.isSome then [octets "DELETE"] else []) := by
  simp only [allowed, slots, List.filter_cons, List.filter_nil, slot, MethodHandlers.handler]
  cases handlers.get <;> cases handlers.post <;> cases handlers.put <;> cases handlers.delete <;> rfl

theorem allowed_eq_nil : allowed (slot handlers) = [] ↔ ∀ method, slot handlers method = none := by
  constructor
  · intro h method
    simp only [allowed, slots, List.map_eq_nil_iff, List.filter_eq_nil_iff, List.forall_mem_cons,
      Option.not_isSome_iff_eq_none] at h
    obtain ⟨hget, hpost, hput, hdelete, -⟩ := h
    cases method <;> first | rfl | assumption
  · intro h
    simp [allowed, h]

/-- With an entry for the path, the answer is the expected one if a slot of it is filled. -/
theorem respond_entry {router : HttpRouter}
    (h : router.routes.lookup request.path = some handlers) :
    router.respond request close = expected (slot handlers) request close ↔
      ∃ method, slot handlers method ≠ none := by
  have hm : handlers.handler request.method =
      slot handlers (if request.method = .head then .get else request.method) := by
    cases request.method <;> rfl
  simp only [HttpRouter.respond, expected, h, hm]
  cases hs : slot handlers (if request.method = .head then .get else request.method) with
  | some handler =>
    have hx : ∃ method, slot handlers method ≠ none := ⟨_, hs ▸ Option.some_ne_none _⟩
    cases hr : handler request <;> simp [hx, hr]
  | none =>
    by_cases ha : allowed (slot handlers) = []
    · have hx : ¬ ∃ method, slot handlers method ≠ none := by simpa using allowed_eq_nil.mp ha
      simp [hx, ha, methodNotAllowed, makeTextResponse]
    · have hx : ∃ method, slot handlers method ≠ none := by simpa [allowed_eq_nil] using ha
      rw [if_neg ha, allowed_slot]
      exact iff_of_true rfl hx

/-- Requests get the answer of the successful calls, if some call for the path succeeded or those
that did not throw were for methods with a slot. -/
theorem respond_registered_iff (calls : List Call) (request : HttpRequest) (close : Bool) :
    (Runs.final step {} calls).respond request close =
        expected (registered (Runs.history step {} calls) request.path) request close ↔
      (∃ method, registered (Runs.history step {} calls) request.path method ≠ none) ∨
        ∀ call ∈ calls, call.Valid → call.path = request.path → call.method ∈ slots.map Prod.fst := by
  have hf := Faithful.run calls
  have hi : (Runs.history step {} calls).map Runs.Event.input = calls := Runs.history_inputs _ _
  have ht := hf.table request.path
  cases hl : (Runs.final step {} calls).routes.lookup request.path with
  | none =>
    rw [hl] at ht
    have he : registered (Runs.history step {} calls) request.path = fun _ => none :=
      funext fun method => (ht method).symm
    have hn := hf.entries request.path
    refine iff_of_true ?_ (.inr fun call hcall hv hp => ?_)
    · rw [he]
      simp [HttpRouter.respond, expected, hl, allowed]
    · obtain ⟨event, hevent, rfl⟩ := List.mem_map.mp (hi ▸ hcall)
      simpa [hl] using hn.mpr ⟨event, hevent, hv, hp⟩
  | some handlers =>
    rw [hl] at ht
    have he : registered (Runs.history step {} calls) request.path = slot handlers :=
      funext fun method => (ht method).symm
    rw [he, respond_entry hl, iff_self_or]
    intro h
    obtain ⟨event, hevent, hv, hp⟩ := (hf.entries request.path).mp (by simp [hl])
    have hs := hf.stored event hevent hv (h _ (hi ▸ List.mem_map_of_mem hevent) hv hp)
    rw [hp, he, Option.isSome_iff_ne_none] at hs
    exact ⟨_, hs⟩

/-- PATCH has no slot, but after the refused call GET is answered by a 405 that allows nothing. -/
theorem refused_patch_leaves_entry :
    let calls : List Call := [⟨.patch, octets "/x", some fun _ => some {}⟩]
    let request : HttpRequest := { method := .get, path := octets "/x" }
    let response := (Runs.final step {} calls).respond request false
    (Runs.history step {} calls).map succeeds = [false] ∧
      (HttpRouter.respond {} request false).statusCode = 404 ∧ response.statusCode = 405 ∧
      response.headers.getLast? = some ⟨octets "Allow", []⟩ ∧
      response ≠ expected (registered (Runs.history step {} calls) request.path) request false := by
  decide +kernel

end IocpRuntime.Proofs.RouteTable
