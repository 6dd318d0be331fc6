import IocpRuntime.Http.Router

namespace IocpRuntime.Protocol
open Lib Buffer Http

/-- The octets held back, and behind a decision those that remain of the segment. -/
inductive Detection where
  | undecided (pending : Octets)
  | fallback (pending remaining : Octets)
  | matched (pending remaining : Octets)
  deriving DecidableEq, Repr

/-- The loop of `Feed` before a session is selected. -/
def detect (preface : Octets) : Octets → Octets → Detection
  | pending, [] => .undecided pending
  | pending, value :: remaining =>
    if preface[pending.length]? ≠ some value then .fallback (pending ++ [value]) remaining
    else if pending.length + 1 = preface.length then .matched (pending ++ [value]) remaining
    else detect preface (pending ++ [value]) remaining

/-- The places of the preface that the loop of `Feed` reads. -/
def readPlaces (preface : Octets) : Octets → Octets → List Nat
  | _, [] => []
  | pending, value :: remaining =>
    pending.length ::
      if preface[pending.length]? ≠ some value ∨ pending.length + 1 = preface.length then []
      else readPlaces preface (pending ++ [value]) remaining

/-- The segments that `SelectAndFeed` feeds to the selected session, each behind a call that
returned `Ready`. -/
def selectedSegments (pending remaining : Octets) : List Octets :=
  if remaining = [] then [pending] else [pending, remaining]

/-- Which of the two factories a bootstrap calls. -/
inductive Choice where
  | matched | fallback
  deriving DecidableEq, Repr

/-- A call of the bootstrap to a factory, or to the session with what its `Feed` came back
with. -/
inductive Interaction where
  | create (choice : Choice)
  | feed (bytes : Octets) (result : Except Thrown ProtocolFeedResult)

/-- A factory that is called gives a session or a null pointer. -/
structure PrefaceProtocolBootstrap (σ : Type) where
  preface : Octets
  matchFactory : Unit → Option σ
  fallbackFactory : Unit → Option σ
  pending : Octets := []
  selected : Option σ := none

namespace PrefaceProtocolBootstrap

variable {σ : Type}

/-- An empty `std::function` is `none`. -/
def create (preface : Octets) (matchFactory fallbackFactory : Option (Unit → Option σ)) :
    Except Thrown (PrefaceProtocolBootstrap σ) :=
  if preface = [] then
    .error (.invalidArgument "protocol bootstrap preface must not be empty")
  else
    match matchFactory, fallbackFactory with
    | some matchFactory, some fallbackFactory => .ok { preface, matchFactory, fallbackFactory }
    | _, _ => .error (.invalidArgument "protocol bootstrap requires both session factories")

/-- What a call of `Feed` returns, what it calls on the way, and the bootstrap it leaves. -/
structure Outcome (σ : Type) where
  result : Except Thrown ProtocolFeedResult
  interactions : List Interaction
  bootstrap : PrefaceProtocolBootstrap σ

def factory (b : PrefaceProtocolBootstrap σ) : Choice → Unit → Option σ
  | .matched => b.matchFactory
  | .fallback => b.fallbackFactory

-- the `Feed` of the sessions
variable (feedSession : σ → Octets → Except Thrown ProtocolFeedResult × σ)

/-- `SelectAndFeed`. The octets held back are let go when the session has taken them. -/
def selectAndFeed (b : PrefaceProtocolBootstrap σ) (choice : Choice) (pending remaining : Octets) :
    Outcome σ :=
  match b.factory choice () with
  | none =>
    ⟨.error (.runtimeError "protocol bootstrap factory returned null session"), [.create choice],
      { b with pending }⟩
  | some session =>
    match feedSession session pending with
    | (.error e, session) =>
      ⟨.error e, [.create choice, .feed pending (.error e)],
        { b with pending, selected := some session }⟩
    | (.ok result, session) =>
      if result.status ≠ .ready ∨ remaining = [] then
        ⟨.ok result, [.create choice, .feed pending (.ok result)],
          { b with pending := [], selected := some session }⟩
      else
        let (tail, session) := feedSession session remaining
        ⟨tail.map (fun tail => {
            status := tail.status
            messagesDispatched := result.messagesDispatched + tail.messagesDispatched
            bufferedBytes := tail.bufferedBytes }),
          [.create choice, .feed pending (.ok result), .feed remaining tail],
          { b with pending := [], selected := some session }⟩

def feed (b : PrefaceProtocolBootstrap σ) (bytes : Octets) : Outcome σ :=
  match b.selected with
  | some session =>
    let (result, session) := feedSession session bytes
    ⟨result, [.feed bytes result], { b with selected := some session }⟩
  | none =>
    match detect b.preface b.pending bytes with
    | .undecided pending =>
      ⟨.ok { bufferedBytes := pending.length }, [], { b with pending }⟩
    | .fallback pending remaining => b.selectAndFeed feedSession .fallback pending remaining
    | .matched pending remaining => b.selectAndFeed feedSession .matched pending remaining

end PrefaceProtocolBootstrap

end IocpRuntime.Protocol
