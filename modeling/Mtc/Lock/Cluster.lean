import Mtc.Lib.Mailbox
import Mtc.Lib.System
import Mtc.Lock.Client

/-!
# Clients and the lock server

Many hosts with a `RemotePageLockClient` each and one lock server, with the messages between them
in flight (`lockCluster`). Every host runs any number of calls of `request_page_lock` at a time, at
most one for a page. `sendMessage`, the handling of a message and `readMessage` are one step each;
a step that a fault ends is not taken.

`OwnAnswers` is what the calls rely on: replies carry no number of the request, and yet every call
returns the server's reply to its own request.
-/

namespace Lock

open Net
open Service (Letter Call)

/-- The page of a request: `(space_id, page_no)`. -/
def PageLockRequest.page (request : PageLockRequest) : UInt32 × UInt32 :=
  (request.spaceId, request.pageNo)

/-- The page of a reply. -/
def PageLockReply.page (reply : PageLockReply) : UInt32 × UInt32 := (reply.spaceId, reply.pageNo)

/-- The filter that a call of `request_page_lock` reads its reply with. -/
def PageLockRequest.filter (request : PageLockRequest) : PageLockReplyFilter :=
  ⟨request.spaceId, request.pageNo⟩

/-- The filter returns `true`. -/
def PageLockReplyFilter.holds (filter : PageLockReplyFilter) (m : EventMessage) : Bool :=
  (filter.call m).toOption = some true

/-- A call of `request_page_lock`. -/
abbrev LockCall := Call Bytes PageLockRequest PageLockReply

/-- The hosts, the messages in flight, each with the host it goes to, and the calls. The numbers of
the calls in messages, `queued`, `handled` and `taken` are history: `queued` are the messages in the
reply queues of the clients, `handled` the requests with the server's answers, and `taken` has, for
every message a call has read, the number of the call and that of the call it answers. -/
structure Cluster where
  table : LockTable := []
  server : EventMessageHandle
  clients : AssocMap Bytes EventMessageHandle
  requests : List (Letter Bytes Bytes) := []
  replies : List (Letter Bytes Bytes) := []
  calls : AssocMap Nat LockCall := ∅
  queued : List (Letter Bytes EventMessage) := []
  handled : List (Nat × Event) := []
  taken : List (Nat × Nat) := []

/-- What can happen next; a message in flight is named by its position. -/
inductive ClusterAction where
  /-- `request_page_lock` is called. -/
  | request (call : Nat) (host : Bytes) (request : PageLockRequest) (connects : Bool)
  /-- A request arrives at the server. -/
  | handle (i : Nat) (connects : Bool)
  /-- A reply arrives at its client. -/
  | deliver (i : Nat)
  /-- A call looks for its reply. -/
  | wait (call : Nat)

namespace Cluster

/-- The host has a call waiting for the page. -/
def outstanding (s : Cluster) (host : Bytes) (page : UInt32 × UInt32) : Bool :=
  s.calls.entries.any fun e => match e.2 with
    | .waiting host' request => host' = host && request.page = page
    | _ => false

/-- `request_page_lock` is called at `host` and sends its request. -/
def request (lockServerHost : Bytes) (s : Cluster) (call : Nat) (host : Bytes)
    (request : PageLockRequest) (connects : Bool) : Option Cluster :=
  if (s.calls.findKey call).isSome || s.outstanding host request.page then none
  else (s.clients.findKey host).bind fun h =>
    match requestPageLock h lockServerHost request connects with
    | .ok (none, h) => some { s with
        clients := s.clients.put host h
        calls := s.calls.assign call .failed }
    | .ok (some msg, h) => some { s with
        clients := s.clients.put host h
        calls := s.calls.assign call (.waiting host request)
        requests := s.requests ++ [⟨call, lockServerHost, msg.bufferStr⟩] }
    | .error _ => none

/-- A message arrives at the server. Where `lock_request_callback` runs: the table, the request
with its answer, and the reply with the host it goes to. -/
def serve (s : Cluster) (buffer : Bytes) (connects : Bool) :
    Except Fault (Option (LockTable × Event × Bytes × Bytes) × EventMessageHandle) := do
  let mess ← EventMessage.ofFrame buffer
  match ← s.server.dispatch mess with
  | .unknown => return (none, s.server)
  | .queued h => return (none, h)
  | .callback _ =>
    let (table, event, msg, h) ← lockRequestCallback s.table s.server mess connects
    let host ← msg.reciveHostName.str msg.bufferStr
    return (some (table, event, host, msg.bufferStr), h)

/-- The request at position `i` arrives at the server. -/
def handle (s : Cluster) (i : Nat) (connects : Bool) : Option Cluster :=
  s.requests[i]?.bind fun m =>
    match s.serve m.body connects with
    | .ok (none, h) => some { s with server := h, requests := s.requests.eraseIdx i }
    | .ok (some (table, event, host, buffer), h) => some { s with
        table := table
        server := h
        requests := s.requests.eraseIdx i
        replies := s.replies ++ [⟨m.call, host, buffer⟩]
        handled := s.handled ++ [(m.call, event)] }
    | .error _ => none

/-- A message arrives at a client. Where it is queued: the message and the handle. -/
def queue (h : EventMessageHandle) (buffer : Bytes) :
    Except Fault (Option (EventMessage × EventMessageHandle)) := do
  let mess ← EventMessage.ofFrame buffer
  match ← h.dispatch mess with
  | .queued h => return some (← EventMessage.copy {} mess, h)
  | _ => return none

/-- The reply at position `i` arrives at its client. -/
def deliver (s : Cluster) (i : Nat) : Option Cluster :=
  s.replies[i]?.bind fun m =>
    match s.clients.findKey m.addr with
    | none => some { s with replies := s.replies.eraseIdx i }
    | some h =>
      match queue h m.body with
      | .ok none => some { s with replies := s.replies.eraseIdx i }
      | .ok (some (mess, h)) => some { s with
          replies := s.replies.eraseIdx i
          clients := s.clients.put m.addr h
          queued := s.queued ++ [⟨m.call, m.addr, mess⟩] }
      | .error _ => none

/-- A queued message that a call at `host` for the page of `request` reads. -/
def accepts (host : Bytes) (request : PageLockRequest) (m : Letter Bytes EventMessage) : Bool :=
  m.addr = host && request.filter.holds m.body

/-- A waiting call goes through a round of its loop. -/
def wait (s : Cluster) (call : Nat) : Option Cluster :=
  match s.calls.findKey call with
  | some (.waiting host request) => (s.clients.findKey host).bind fun h =>
    match waitForLockReply h request.filter with
    | .ok (.failed, h) => some { s with
        clients := s.clients.put host h
        calls := s.calls.put call .failed }
    | .ok (.sleeps, h) => some { s with clients := s.clients.put host h }
    | .ok (.replied reply, h) => (s.queued.find? (accepts host request)).map fun m => { s with
        clients := s.clients.put host h
        calls := s.calls.put call (.returned host request reply)
        queued := s.queued.eraseP (accepts host request)
        taken := s.taken ++ [(call, m.call)] }
    | .error _ => none
  | _ => none

end Cluster

/-- The clients and the server, from their start. -/
def lockCluster (lockServerHost : Bytes) (server : EventMessageHandle)
    (clients : AssocMap Bytes EventMessageHandle) : System Cluster ClusterAction where
  init := { server, clients }
  next s
    | .request call host request connects => s.request lockServerHost call host request connects
    | .handle i connects => s.handle i connects
    | .deliver i => s.deliver i
    | .wait call => s.wait call

/-! ## What the calls rely on -/

/-- The entry of the reply type. -/
def replyInfor (h : EventMessageHandle) : Option CallbackInfor :=
  h.callbackInfor remoteLockGroupName remoteLockReplyMessType

/-- A server after `lock_manager_init` and clients that have received nothing: each is known under
its own name, has the reply type and no callback for it. Names are C strings. -/
structure ClusterReady (lockServerHost : Bytes) (server : EventMessageHandle)
    (clients : AssocMap Bytes EventMessageHandle) : Prop where
  lockServerHost : 0 ∉ lockServerHost
  localHostName : 0 ∉ server.localHostName
  init : ∃ h, lockManagerInit h = .ok (true, server)
  client : ∀ host h, clients.findKey host = some h → 0 ∉ host ∧ h.localHostName = host ∧
    replyInfor h = some {}

/-- Every call that returned has the server's reply to its own request; every reply is read by the
call whose request it answers, and until then it is for that call only. -/
structure OwnAnswers (s : Cluster) : Prop where
  /-- A call that returned 1 has the reply that the server computed for its request. -/
  returned : ∀ call host request reply,
    s.calls.findKey call = some (.returned host request reply) →
    ∃ code, (call, (⟨host, request⟩, code, reply)) ∈ s.handled
  /-- The server's answers are those of the lock manager, and it handles a request once. -/
  answers : s.handled.map Prod.snd = lockMachine.trace (s.handled.map (·.2.1))
  handledOnce : (s.handled.map Prod.fst).Nodup
  /-- The reply that a call has read is its own. -/
  taken : ∀ x ∈ s.taken, x.1 = x.2
  /-- A reply in flight goes to the host where its call waits. -/
  inFlight : ∀ m ∈ s.replies, ∃ request, s.calls.findKey m.call = some (.waiting m.addr request)
  /-- `queued` are the messages in the reply queues. -/
  queues : ∀ host h, s.clients.findKey host = some h →
    ∃ cb, replyInfor h = some cb ∧
      cb.unprocessedMessList = (s.queued.filter (·.addr = host)).map (·.body)
  /-- A queued reply is one that its call still waits for. -/
  queued : ∀ m ∈ s.queued, ∃ request, s.calls.findKey m.call = some (.waiting m.addr request)
  /-- No two messages are for one call. -/
  once : (s.requests.map (·.call) ++ s.replies.map (·.call) ++ s.queued.map (·.call)).Nodup
  /-- Of the calls waiting at a host, a queued reply passes the filter of its own only. -/
  accepted : ∀ m ∈ s.queued, ∀ call request,
    s.calls.findKey call = some (.waiting m.addr request) →
    request.filter.call m.body = .ok (decide (call = m.call))

end Lock
