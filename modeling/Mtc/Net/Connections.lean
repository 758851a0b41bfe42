import Mathlib.Logic.Function.Basic
import Mtc.Lib.System
import Mtc.Net.Libevent

/-!
# Connections made and accepted

`add_bufferevent_listen` and `connlistener_cb` of `libevent_handle.cc`, on a little-endian host, and
two views of the table of connections: with the remote endpoint that each connection really has
(`endpoints`), and under any number of calls that add to it at the same time (`adding`).
-/

namespace Net

/-- `htons`. -/
def htons (x : UInt16) : UInt16 := UInt16.ofNat (x.toNat % 2 ^ 8 * 2 ^ 8 + x.toNat / 2 ^ 8)

/-- `ntohl`. -/
def ntohl (x : UInt32) : UInt32 :=
  UInt32.ofNat (x.toNat % 2 ^ 8 * 2 ^ 24 + x.toNat / 2 ^ 8 % 2 ^ 8 * 2 ^ 16 +
    x.toNat / 2 ^ 16 % 2 ^ 8 * 2 ^ 8 + x.toNat / 2 ^ 24)

/-- A port as an `int`. -/
def intPort (x : UInt16) : Int32 := x.toUInt32.toInt32

/-- The port that an `int` given to `htons` stands for. -/
def port16 (x : Int32) : UInt16 := x.toUInt32.toUInt16

namespace LibeventHandle

/-- `add_bufferevent_listen`. -/
def addBuffereventListen (lib : LibeventHandle) (ip : Bytes) (port : Int32) :
    Except Fault (Int32 × LibeventHandle) := do
  let peer := BevInfor.accepted ip port
  let peerId := lib.maxBevId
  let singal ← orFault .spins (rwWLock lib.bevMapRwLockSingal)
  let listenSingal ← orFault .spins (rwWLock lib.listenVectorRwLockSingal)
  return (peerId, { lib with
    maxBevId := lib.maxBevId + 1
    bevMap := lib.bevMap.assign peerId peer
    bevMapRwLockSingal := rwWUnlock singal
    listenIdVector := lib.listenIdVector ++ [peerId]
    listenVectorRwLockSingal := rwWUnlock listenSingal })

/-- `connlistener_cb` for a peer with this `sin_port`. -/
def connlistenerCb (lib : LibeventHandle) (ip : Bytes) (sinPort : UInt16) :
    Except Fault LibeventHandle := do
  let (id, lib) ← lib.getConnectionId ip (ntohl sinPort.toUInt32).toInt32 false false
  if id ≥ 0 then
    return lib
  let (_, lib) ← lib.addBuffereventListen ip (intPort sinPort)
  return lib

end LibeventHandle

/-! ## Endpoints -/

/-- A table of connections. `remote` is the endpoint at the other end of each, with its port in host
order, and `doubled` whether `connlistener_cb` has added a second record for an endpoint. -/
structure Endpoints where
  lib : LibeventHandle := {}
  remote : Int32 → Option (Bytes × UInt16) := fun _ => none
  doubled : Bool := false

inductive EndpointOp where
  | connect (ip : Bytes) (port : UInt16) (connects : Bool)
  /-- A peer connects from this port. -/
  | accept (ip : Bytes) (port : UInt16)
  | lookup (ip : Bytes) (port : Int32) (tryConnect connects : Bool)
  deriving Repr, DecidableEq

namespace Endpoints

/-- Some record is a connection with the endpoint. -/
def known (s : Endpoints) (ip : Bytes) (port : UInt16) : Bool :=
  s.lib.bevMap.entries.any fun e => s.remote e.1 = some (ip, port)

/-- The table after a call that may have added a connection with the endpoint. -/
def after (s : Endpoints) (lib : LibeventHandle) (ip : Bytes) (port : UInt16) : Endpoints :=
  { s with
    lib := lib
    remote := if lib.maxBevId = s.lib.maxBevId then s.remote
      else Function.update s.remote s.lib.maxBevId (some (ip, port)) }

def next (s : Endpoints) : EndpointOp → Option Endpoints
  | .connect ip port connects =>
    match s.lib.addBuffereventConnect ip (intPort port) connects with
    | .ok (_, lib) => some (s.after lib ip port)
    | .error _ => none
  | .accept ip port =>
    -- `sin_port` is in network byte order
    match s.lib.connlistenerCb ip (htons port) with
    | .ok lib => some { s.after lib ip port with
        doubled := s.doubled || (s.known ip port && lib.maxBevId != s.lib.maxBevId) }
    | .error _ => none
  | .lookup ip port tryConnect connects =>
    match s.lib.getConnectionId ip port tryConnect connects with
    | .ok (_, lib) => some (s.after lib ip (port16 port))
    | .error _ => none

end Endpoints

/-- Connections are made, accepted and looked up, from an empty table. -/
def endpoints : System Endpoints EndpointOp where
  init := {}
  next := Endpoints.next

/-- A peer is accepted only from a port that reads the same in both byte orders, and only while
its endpoint has no record; a lookup that may connect is given a port. -/
def PlainPorts (s : Endpoints) : EndpointOp → Prop
  | .connect _ _ _ => True
  | .accept ip port => htons port = port ∧ s.known ip port = false
  | .lookup _ port tryConnect _ => tryConnect = true → intPort (port16 port) = port

instance (s : Endpoints) : ∀ op, Decidable (PlainPorts s op)
  | .connect _ _ _ => isTrue trivial
  | .accept _ _ => inferInstanceAs (Decidable (_ ∧ _))
  | .lookup _ _ _ _ => inferInstanceAs (Decidable (_ → _))

/-! ## Calls that interleave -/

/-- Where a call of `add_bufferevent_connect` or `add_bufferevent_listen` is, once its bufferevent
is made: before `max_bev_id.load()`, `max_bev_id.fetch_add(1)`, the insertion, or returned. -/
inductive AddPc where
  | start
  | loaded (id : Int32)
  | counted (id : Int32)
  | returned (id : Int32)
  deriving Repr, DecidableEq

section
variable (ι : Type)

/-- The calls `ι` on one table. `owner` is the call whose connection is stored under an id, and
`loads` the number of ids loaded. -/
structure Adding where
  lib : LibeventHandle := {}
  pc : ι → AddPc := fun _ => .start
  owner : Int32 → Option ι := fun _ => none
  loads : Nat := 0

variable {ι} [DecidableEq ι] (peer : ι → BevInfor)

/-- One call takes its next step. -/
def Adding.next (s : Adding ι) (t : ι) : Option (Adding ι) :=
  match s.pc t with
  | .start => some { s with
      pc := Function.update s.pc t (.loaded s.lib.maxBevId), loads := s.loads + 1 }
  | .loaded id => some { s with
      lib := { s.lib with maxBevId := s.lib.maxBevId + 1 }
      pc := Function.update s.pc t (.counted id) }
  | .counted id =>
    match rwWLock s.lib.bevMapRwLockSingal with
    | none => none
    | some singal => some { s with
        lib := { s.lib with
          bevMap := s.lib.bevMap.assign id (peer t)
          bevMapRwLockSingal := rwWUnlock singal }
        pc := Function.update s.pc t (.returned id)
        owner := Function.update s.owner id (some t) }
  | .returned _ => none

/-- Calls add their connections `peer` to an empty table. -/
def adding : System (Adding ι) ι where
  init := {}
  next := Adding.next peer

end

/-- Every call that has returned has an id of its own, and its connection is stored under it. -/
structure Adding.Kept {ι : Type} (peer : ι → BevInfor) (s : Adding ι) : Prop where
  own : ∀ t u id, s.pc t = .returned id → s.pc u = .returned id → t = u
  stored : ∀ t id, s.pc t = .returned id →
    s.lib.bevMap.findKey id = some (peer t) ∧ s.owner id = some t

/-- An id is loaded only when no other call is between its load and its `fetch_add`, and while there
are ids left. -/
def LoadsAlone {ι : Type} (s : Adding ι) (t : ι) : Prop :=
  s.pc t = .start → (∀ u id, s.pc u ≠ .loaded id) ∧ s.loads < 2 ^ 32

end Net
