import Mtc.Lib.AssocMap
import Mtc.Lib.System

/-!
# The transaction sequence number service

`IDIncreImpl::IDInc` of `id-increment/server.cpp` and the network around it. The handler body runs
under `id_lock`, so it is one step. `idService` is the whole service: clients call, brpc may send
a call's request again (`max_retry`), requests and responses in flight may be delayed, reordered
and lost, and a response reaches only the call whose request it answers.

`endpoint2str` is brpc's `butil::endpoint2str` (followed by `c_str`).
-/

namespace Id

/-- The globals `id` (`long long`) and `idmap`. -/
structure Server where
  id : Int64 := 1
  idmap : AssocMap Int64 String := ∅
  deriving Repr

section
variable {EndPoint : Type} (endpoint2str : EndPoint → String)

/-- `IDIncreImpl::IDInc`: the response's message is `to_string(id)`. -/
def Server.idInc (s : Server) (remoteSide : EndPoint) : Server × String :=
  ({ idmap := s.idmap.assign s.id (endpoint2str remoteSide), id := s.id + 1 },
    toString s.id.toInt)

end

/-! ## Calls in flight -/

/-- A request message: the call it belongs to and the endpoint it comes from. -/
structure Request (EndPoint : Type) where
  call : Nat
  remoteSide : EndPoint

structure Response where
  call : Nat
  message : String

/-- A call of a client: waiting (with the number of re-sends so far), completed with the id string
it received, or failed. -/
inductive Call where
  | running (retries : Nat)
  | completed (message : String)
  | failed

/-- The service: `handled` is the history of the requests the handler ran for, each with the id it
was given. -/
structure Service (EndPoint : Type) where
  server : Server := {}
  requests : List (Request EndPoint) := []
  responses : List Response := []
  calls : Nat → Option Call := fun _ => none
  handled : List (Request EndPoint × Int64) := []

/-- What can happen next. Messages in flight are named by their position, so that they are taken
in any order. -/
inductive Action (EndPoint : Type) where
  | start (call : Nat) (remoteSide : EndPoint)
  | resend (call : Nat) (remoteSide : EndPoint)
  | handle (i : Nat)
  | deliver (i : Nat)
  | loseRequest (i : Nat)
  | loseResponse (i : Nat)
  | fail (call : Nat)

section
variable {EndPoint : Type}

/-- The service with the state of one call replaced. -/
def Service.setCall (s : Service EndPoint) (call : Nat) (c : Call) : Service EndPoint :=
  { s with calls := fun n => if n = call then some c else s.calls n }

variable (endpoint2str : EndPoint → String) (maxRetry : Nat)

/-- The service takes an action. -/
def Service.next (s : Service EndPoint) : Action EndPoint → Option (Service EndPoint)
  | .start call remoteSide =>
    match s.calls call with
    | none => some { s.setCall call (.running 0) with requests := ⟨call, remoteSide⟩ :: s.requests }
    | some _ => none
  | .resend call remoteSide =>
    match s.calls call with
    | some (.running k) =>
      if k < maxRetry then
        some { s.setCall call (.running (k + 1)) with
          requests := ⟨call, remoteSide⟩ :: s.requests }
      else none
    | _ => none
  | .handle i =>
    match s.requests[i]? with
    | none => none
    | some r =>
      let (server, message) := s.server.idInc endpoint2str r.remoteSide
      some { s with
        server := server
        requests := s.requests.eraseIdx i
        responses := ⟨r.call, message⟩ :: s.responses
        handled := s.handled ++ [(r, s.server.id)] }
  | .deliver i =>
    match s.responses[i]? with
    | none => none
    | some p =>
      let s' := { s with responses := s.responses.eraseIdx i }
      match s.calls p.call with
      | some (.running _) => some (s'.setCall p.call (.completed p.message))
      -- a response to an earlier request of a call that has ended is dropped
      | _ => some s'
  | .loseRequest i => some { s with requests := s.requests.eraseIdx i }
  | .loseResponse i => some { s with responses := s.responses.eraseIdx i }
  | .fail call =>
    match s.calls call with
    | some (.running _) => some (s.setCall call .failed)
    | _ => none

/-- The service from its start. -/
def idService : System (Service EndPoint) (Action EndPoint) where
  init := {}
  next := Service.next endpoint2str maxRetry

end

end Id
