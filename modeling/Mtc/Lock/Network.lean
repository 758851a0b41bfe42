import Mtc.Lib.Pipes
import Mtc.Lock.Calls
import Mtc.Net.Arrive
import Mtc.Net.Connections

/-!
# Clients and the lock server on TCP connections

The hosts of `Lock.Cluster` as processes with nothing between them but bytes (`lockNetwork`). A
message is written to the connection that `sendMessage` finds, or makes, for its host; a connection
that is made is accepted by the host that listens at its endpoint; and what one end has written
arrives at the other in order, in pieces of any size, where the read callback takes the messages out
and, at the server, answers them. No message carries the number of its call, and nothing is recorded
beside what the processes have. As in `Lock.Cluster`, a call of `sendMessage` or `readMessage` and a
callback of libevent are one step each.

`NetworkFits` is what a run has to keep to. The ids of connections, which are never reused, and the
length of an input buffer stay in the range of an `int`; and `connlistener_cb`, which stores the
port a peer connects from in network byte order, does not make a connection look like one to another
client.
-/

namespace Lock

open Net
open Service (Call)

/-- A connection of a host; the lock server is `none`. -/
abbrev End := Option Bytes × Int32

/-- The hosts with their connections, and the calls. `tcp` has, for an end that is connected, the
end at the other side and the number of bytes of its output that have arrived there. -/
structure Network where
  table : LockTable := []
  server : EventMessageHandle
  clients : AssocMap Bytes EventMessageHandle
  tcp : End → Option (End × Nat) := fun _ => none
  calls : AssocMap Nat LockCall := ∅

/-- What can happen next. -/
inductive NetworkAction where
  /-- `request_page_lock` is called. -/
  | request (call : Nat) (host : Bytes) (request : PageLockRequest) (connects : Bool)
  /-- The host `who` accepts the connection that the end `e` has made. The ip and the `sin_port`
  are those that `connlistener_cb` is given. -/
  | accept (e : End) (who : Option Bytes) (ip : Bytes) (sinPort : UInt16)
  /-- At most `n` more bytes of the output of `e` arrive. `connects` has, for the messages sent
  meanwhile, whether libevent can connect. -/
  | arrive (e : End) (n : Nat) (connects : List Bool)
  /-- A call looks for its reply. -/
  | wait (call : Nat)

/-- Where a host listens: at its own endpoint in the group. -/
def listensAt (h : EventMessageHandle) : Option (Bytes × Int32) :=
  h.endpoint remoteLockGroupName h.localHostName

/-- The callbacks of the server: `lock_request_callback` is the only one. -/
def runLockCallback (_ : Nat) (s : LockTable × List Bool) (h : EventMessageHandle)
    (mess : EventMessage) : Except Fault ((LockTable × List Bool) × EventMessageHandle) := do
  let (table, _, _, h) ← lockRequestCallback s.1 h mess (s.2.headD true)
  return ((table, s.2.tail), h)

/-- A client registers no callback. -/
def runNoCallback (_ : Nat) (s : Unit) (h : EventMessageHandle) (_ : EventMessage) :
    Except Fault (Unit × EventMessageHandle) := return (s, h)

namespace Network

/-- A host. -/
def host (s : Network) : Option Bytes → Option EventMessageHandle
  | none => some s.server
  | some name => s.clients.findKey name

/-- The network with a host replaced. -/
def putHost (s : Network) (who : Option Bytes) (h : EventMessageHandle) : Network :=
  match who with
  | none => { s with server := h }
  | some name => { s with clients := s.clients.put name h }

/-- A connection. -/
def record (s : Network) (e : End) : Option BevInfor :=
  (s.host e.1).bind fun h => h.record remoteLockGroupName e.2

/-- The hosts and the calls. -/
def view (s : Network) : Cluster where
  table := s.table
  server := s.server
  clients := s.clients
  calls := s.calls

/-- The network once a call has begun at `host`. -/
def begun (s : Network) (call : Nat) (host : Bytes) (h : EventMessageHandle) (c : LockCall) :
    Network :=
  { s with clients := s.clients.put host h, calls := s.calls.assign call c }

/-- `request_page_lock` is called at `host` and sends its request. -/
def request (lockServerHost : Bytes) (s : Network) (call : Nat) (host : Bytes)
    (request : PageLockRequest) (connects : Bool) : Option Network :=
  if (s.calls.findKey call).isSome || s.view.outstanding host request.page then none
  else (s.clients.findKey host).bind fun h =>
    match requestPageLock h lockServerHost request connects with
    | .ok (none, h) => some (s.begun call host h .failed)
    | .ok (some _, h) => some (s.begun call host h (.waiting host request))
    | .error _ => none

/-- The network once `who` has taken up the connection that `e` has made, under the id `id`. -/
def accepted (s : Network) (e : End) (who : Option Bytes) (h : EventMessageHandle) (id : Int32) :
    Network :=
  { s.putHost who h with tcp := Pipes.link s.tcp e (who, id) }

/-- `connlistener_cb` at `who`, for the connection that `e` has made to the endpoint of `who`. A
connection that it does not add to its table is not read. -/
def accept (s : Network) (e : End) (who : Option Bytes) (ip : Bytes) (sinPort : UInt16) :
    Option Network :=
  (s.record e).bind fun info => (s.host who).bind fun h =>
    if (s.tcp e).isSome || info.isListen || listensAt h ≠ some (info.ip, info.port) then none
    else (h.messGroupMap.findKey remoteLockGroupName).bind fun group =>
      match group.handle.connlistenerCb ip sinPort with
      | .ok lib =>
        let h := h.putHandle remoteLockGroupName group lib
        if lib.maxBevId = group.handle.maxBevId then some (s.putHost who h)
        else some (s.accepted e who h group.handle.maxBevId)
      | .error _ => none

/-- The network once the server has run its callbacks. -/
def served (s : Network) (table : LockTable) (h : EventMessageHandle) : Network :=
  { s with table := table, server := h }

/-- Bytes arrive at the end `e`. -/
def receive (s : Network) (e : End) (bytes : Bytes) (connects : List Bool) : Option Network :=
  (s.host e.1).bind fun h => match e.1 with
    | none => match h.arrive runLockCallback remoteLockGroupName e.2 (s.table, connects) bytes with
      | .ok ((table, _), h) => some (s.served table h)
      | .error _ => none
    | some host => match h.arrive runNoCallback remoteLockGroupName e.2 () bytes with
      | .ok (_, h) => some (s.putHost (some host) h)
      | .error _ => none

/-- The network with `k` bytes of the output of `e` arrived at `e'`. -/
def arrived (s : Network) (e e' : End) (k : Nat) : Network :=
  { s with tcp := Function.update s.tcp e (some (e', k)) }

/-- The next bytes of the output of `e`, at most `n`, arrive at its peer. -/
def arrive (s : Network) (e : End) (n : Nat) (connects : List Bool) : Option Network :=
  (s.tcp e).bind fun (e', k) => (s.record e).bind fun info =>
    let bytes := info.bev.piece k n
    (s.receive e' bytes connects).map fun s' => s'.arrived e e' (k + bytes.length)

/-- The network once a call has gone through a round at `host`. -/
def waited (s : Network) (call : Nat) (host : Bytes) (h : EventMessageHandle) (c : LockCall) :
    Network :=
  { s with clients := s.clients.put host h, calls := s.calls.put call c }

/-- A waiting call goes through a round of its loop. -/
def wait (s : Network) (call : Nat) : Option Network :=
  match s.calls.findKey call with
  | some (.waiting host request) => (s.clients.findKey host).bind fun h =>
    match waitForLockReply h request.filter with
    | .ok (.failed, h) => some (s.waited call host h .failed)
    | .ok (.sleeps, h) => some (s.putHost (some host) h)
    | .ok (.replied reply, h) => some (s.waited call host h (.returned host request reply))
    | .error _ => none
  | _ => none

end Network

/-- The clients and the server, from their start. A step that a fault ends is not taken. -/
def lockNetwork (lockServerHost : Bytes) (server : EventMessageHandle)
    (clients : AssocMap Bytes EventMessageHandle) : System Network NetworkAction where
  init := { server, clients }
  next s
    | .request call host request connects => s.request lockServerHost call host request connects
    | .accept e who ip sinPort => s.accept e who ip sinPort
    | .arrive e n connects => s.arrive e n connects
    | .wait call => s.wait call

/-! ## What the callers see -/

/-- The call that an action belongs to. -/
def NetworkAction.call : NetworkAction → Option Nat
  | .request call _ _ _ => some call
  | .wait call => some call
  | .accept _ _ _ _ => none
  | .arrive _ _ _ => none

/-- What the callers see of a step. -/
def Network.events (s : Network) (a : NetworkAction) (s' : Network) : List LockEvent :=
  a.call.elim [] fun n => Service.callEvents n (s.calls.findKey n) (s'.calls.findKey n)

/-- The network with the history of the calls. -/
def networkCalls (lockServerHost : Bytes) (server : EventMessageHandle)
    (clients : AssocMap Bytes EventMessageHandle) :
    System (Network × List LockEvent) NetworkAction :=
  (lockNetwork lockServerHost server clients).withHistory Network.events

/-! ## What a run relies on -/

/-- The names of hosts are shorter than this, so that the size of every message is an `int`. -/
def maxNameLength : Nat := 2 ^ 29

/-- The hosts before the first connection. They agree on where each of them listens, no two listen
at one endpoint, and both message types are configured everywhere. -/
structure NetworkReady (lockServerHost : Bytes) (server : EventMessageHandle)
    (clients : AssocMap Bytes EventMessageHandle) : Prop where
  cluster : ClusterReady lockServerHost server clients
  short : lockServerHost.length < maxNameLength ∧ server.localHostName.length < maxNameLength
  unconnected : server.lib remoteLockGroupName = some {}
  reply : (server.callbackInfor remoteLockGroupName remoteLockReplyMessType).isSome
  serverAt : ∃ a, a.2 ≠ 0 ∧ listensAt server = some a ∧ ∀ host h, clients.findKey host = some h →
    h.endpoint remoteLockGroupName lockServerHost = some a ∧ listensAt h ≠ some a
  client : ∀ host h, clients.findKey host = some h → host.length < maxNameLength ∧
    h.lib remoteLockGroupName = some {} ∧
    (h.callbackInfor remoteLockGroupName remoteLockRequestMessType).isSome ∧
    ∃ a, a.2 ≠ 0 ∧ listensAt h = some a ∧ server.endpoint remoteLockGroupName host = some a
  apart : ∀ host host' h h', clients.findKey host = some h → clients.findKey host' = some h' →
    listensAt h = listensAt h' → host = host'

/-- A host has room for `n` more connections: their ids are not negative. -/
def Room (s : Network) (who : Option Bytes) (n : Nat) : Prop :=
  ((s.host who).bind fun h => h.lib remoteLockGroupName).all fun lib =>
    decide (lib.maxBevId.toInt + (n : Int) < 2 ^ 31)

instance (s : Network) (who : Option Bytes) (n : Nat) : Decidable (Room s who n) :=
  inferInstanceAs (Decidable (_ = true))

/-- The server does not take a connection from `ip` and this `sin_port` for one to a client other
than the host `who` that has made it. -/
def NotMistaken (s : Network) (who : Option Bytes) (ip : Bytes) (sinPort : UInt16) : Prop :=
  ∀ x ∈ s.clients.entries,
    s.server.endpoint remoteLockGroupName x.1 = some (ip, intPort sinPort) → who = some x.1

instance (s : Network) (who : Option Bytes) (ip : Bytes) (sinPort : UInt16) :
    Decidable (NotMistaken s who ip sinPort) := inferInstanceAs (Decidable (∀ x ∈ _, _))

/-- The number of bytes that the input buffer of the peer of `e` has when at most `n` more have
arrived. -/
def Network.buffered (s : Network) (e : End) (n : Nat) : Nat :=
  match s.tcp e with
  | some (e', k) => ((s.record e').elim 0 fun info => info.bev.input.length) +
      ((s.record e).elim 0 fun info => (info.bev.piece k n).length)
  | none => 0

/-- The host that the output of `e` goes to. -/
def Network.peer (s : Network) (e : End) : Option Bytes :=
  (s.tcp e).bind fun x => x.1.1

/-- What the steps of a run keep to. An arrival cannot make more connections than there are bytes
in the input buffer. -/
def NetworkFits (s : Network) : NetworkAction → Prop
  | .request _ host _ _ => Room s (some host) 1
  | .accept e who ip sinPort => Room s who 1 ∧ (who = none → NotMistaken s e.1 ip sinPort)
  | .arrive e n _ => Room s (s.peer e) (s.buffered e n)
  | .wait _ => True

instance (s : Network) : ∀ a, Decidable (NetworkFits s a)
  | .request _ _ _ _ => inferInstanceAs (Decidable (Room _ _ _))
  | .accept _ _ _ _ => inferInstanceAs (Decidable (_ ∧ _))
  | .arrive _ _ _ => inferInstanceAs (Decidable (Room _ _ _))
  | .wait _ => isTrue trivial

/-! ## What a run is for -/

/-- What can be asked for next: a new call for a page that no call of its host waits for, a
connection that its host listens for, more bytes of a connection, another round of a call that
waits. -/
def NetworkEnabled (s : Network) : NetworkAction → Prop
  | .request call host request _ => s.calls.findKey call = none ∧
      s.view.outstanding host request.page = false ∧ (s.clients.findKey host).isSome
  | .accept e who _ _ => s.tcp e = none ∧ ∃ info h, s.record e = some info ∧
      info.isListen = false ∧ s.host who = some h ∧ listensAt h = some (info.ip, info.port)
  | .arrive e _ _ => (s.tcp e).isSome
  | .wait call => ∃ host request, s.calls.findKey call = some (.waiting host request)

/-- libevent can connect wherever a message is sent. -/
def NetworkAction.Connects : NetworkAction → Prop
  | .request _ _ _ connects => connects = true
  | .arrive _ _ connects => ∀ b ∈ connects, b = true
  | .accept _ _ _ _ => True
  | .wait _ => True

instance : ∀ a : NetworkAction, Decidable a.Connects
  | .request _ _ _ _ => inferInstanceAs (Decidable (_ = true))
  | .arrive _ _ _ => inferInstanceAs (Decidable (∀ b ∈ _, _))
  | .accept _ _ _ _ => isTrue trivial
  | .wait _ => isTrue trivial

/-- The connections of a host, with their ids. -/
def Network.connections (s : Network) (who : Option Bytes) : List (Int32 × BevInfor) :=
  ((s.host who).bind fun h => h.lib remoteLockGroupName).elim [] fun lib => lib.bevMap.entries

/-- Everything that has been written has arrived. -/
def Network.Drained (s : Network) : Prop :=
  ∀ who ∈ none :: s.clients.entries.map fun x => some x.1, ∀ x ∈ s.connections who,
    ((s.tcp (who, x.1)).elim 0 fun y => y.2) = x.2.bev.output.length

instance (s : Network) : Decidable s.Drained := inferInstanceAs (Decidable (∀ who ∈ _, _))

end Lock
