import IocpRuntime.Execution.Executor
import IocpRuntime.Http.Message
import IocpRuntime.Lib.Maps

namespace IocpRuntime.Http
open Lib Execution

inductive HttpDispatchStatus where
  | accepted | executorStopped | executorSaturated
  deriving DecidableEq, Repr

inductive ProtocolFeedStatus where
  | ready | bufferLimitExceeded | protocolError | handlerNotFound | executorStopped
  | executorSaturated | closeRequired | stopped
  deriving DecidableEq, Repr

structure ProtocolFeedResult where
  status : ProtocolFeedStatus := .ready
  messagesDispatched : Nat := 0
  bufferedBytes : Nat := 0
  deriving DecidableEq, Repr

def makeTextResponse (statusCode : UInt16) (body : Octets)
    (contentType : Octets := octets "text/plain; charset=utf-8") : HttpResponse where
  statusCode := statusCode
  headers := [⟨octets "Content-Type", contentType⟩]
  body := body

/-- A handler throws where it returns nothing. -/
abbrev HttpHandler := HttpRequest → Option HttpResponse

structure MethodHandlers where
  get : Option HttpHandler := none
  post : Option HttpHandler := none
  put : Option HttpHandler := none
  delete : Option HttpHandler := none

structure HttpRouter where
  routes : AList (fun _ : Octets => MethodHandlers) := ∅

/-- The handlers with one more in its slot, unless the method has none or it is taken. -/
def MethodHandlers.store (handlers : MethodHandlers) (handler : HttpHandler) :
    HttpMethod → Option MethodHandlers
  | .get => if handlers.get.isSome then none else some { handlers with get := some handler }
  | .post => if handlers.post.isSome then none else some { handlers with post := some handler }
  | .put => if handlers.put.isSome then none else some { handlers with put := some handler }
  | .delete => if handlers.delete.isSome then none else some { handlers with delete := some handler }
  | .head | .patch | .options | .unsupported => none

/-- The entry of the path is there before the slot is looked at. -/
def HttpRouter.register (router : HttpRouter) (method : HttpMethod) (path : Octets)
    (handler : Option HttpHandler) : Except Buffer.Thrown Bool × HttpRouter :=
  if method = .unsupported then
    (.error (.invalidArgument "an unsupported HTTP method cannot be registered"), router)
  else if path.head? ≠ some 47 then
    (.error (.invalidArgument "an HTTP route path must start with '/'"), router)
  else
    match handler with
    | none => (.error (.invalidArgument "an HTTP route handler must not be empty"), router)
    | some handler =>
      let handlers := (router.routes.lookup path).getD {}
      match handlers.store handler method with
      | none => (.ok false, { routes := router.routes.insert path handlers })
      | some next => (.ok true, { routes := router.routes.insert path next })

/-- The handler of a route for a method; PATCH, OPTIONS and unknown methods have none. -/
def MethodHandlers.handler (handlers : MethodHandlers) : HttpMethod → Option HttpHandler
  | .get | .head => handlers.get
  | .post => handlers.post
  | .put => handlers.put
  | .delete => handlers.delete
  | .patch | .options | .unsupported => none

def methodNotAllowed (handlers : MethodHandlers) : HttpResponse :=
  let allowed :=
    (if handlers.get.isSome then [octets "GET"] else []) ++
    (if handlers.post.isSome then [octets "POST"] else []) ++
    (if handlers.put.isSome then [octets "PUT"] else []) ++
    (if handlers.delete.isSome then [octets "DELETE"] else [])
  let response := makeTextResponse 405 (octets "method not allowed\n")
  { response with
    headers := response.headers ++ [⟨octets "Allow", (octets ", ").intercalate allowed⟩] }

/-- What the task that `Dispatch` posts hands to the response sender. -/
def HttpRouter.respond (router : HttpRouter) (request : HttpRequest) (closeConnection : Bool) :
    HttpResponse :=
  let response :=
    match router.routes.lookup request.path with
    | none => makeTextResponse 404 (octets "not found\n")
    | some handlers =>
      match handlers.handler request.method with
      | none => methodNotAllowed handlers
      | some handler =>
        match handler request with
        | some response => response
        | none => { makeTextResponse 500 (octets "internal server error\n") with
            closeConnection := true }
  { response with
    closeConnection := response.closeConnection || closeConnection
    body := if request.method = .head then [] else response.body }

def toDispatchStatus : SubmitStatus → HttpDispatchStatus
  | .accepted => .accepted
  | .stopped => .executorStopped
  | .saturated => .executorSaturated

end IocpRuntime.Http
