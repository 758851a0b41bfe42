import Mtc.Net.Connections
import Mtc.Net.Wait

/-!
# The listen list, and calls with any id

`remove_buffevent` and the functions of `libevent_handle.cc` that report on connections, with two
views of the table: the list of the accepted connections along any run of additions and removals
(`listening`), and what one call with an id that may be unknown leaves behind (`IdOp.call`).
-/

namespace Net

namespace LibeventHandle

/-- The part of `remove_buffevent` for an accepted connection: the list is erased from at the
position `id`. -/
def eraseListenId (lib : LibeventHandle) (id : Int32) : Except Fault LibeventHandle := do
  let singal ← orFault .spins (rwWLock lib.listenVectorRwLockSingal)
  if id < 0 ∨ lib.listenIdVector.length ≤ id.sizeT then
    throw .badIterator
  return { lib with
    listenIdVector := lib.listenIdVector.eraseIdx id.sizeT
    listenVectorRwLockSingal := rwWUnlock singal }

/-- `remove_buffevent`. -/
def removeBuffevent (lib : LibeventHandle) (id : Int32) :
    Except Fault (Int32 × LibeventHandle) := do
  let singal ← orFault .spins (rwWLock lib.bevMapRwLockSingal)
  match lib.bevMap.findKey id with
  | none => return (-1, { lib with bevMapRwLockSingal := rwWUnlock singal })
  | some info =>
    let lib ← if info.isListen then lib.eraseListenId id else .ok lib
    return (id, { lib with
      bevMap := lib.bevMap.erase id
      bevMapRwLockSingal := rwWUnlock singal })

/-- `get_listen_connection_count`. -/
def getListenConnectionCount (lib : LibeventHandle) : Except Fault (Int32 × LibeventHandle) := do
  let singal ← orFault .spins (rwRLock lib.listenVectorRwLockSingal)
  let len := Int32.ofSizeT lib.listenIdVector.length
  return (len, { lib with listenVectorRwLockSingal := rwRUnlock singal })

/-- `get_listen_connection_array`: the ids copied to the array. -/
def getListenConnectionArray (lib : LibeventHandle) :
    Except Fault (List Int32 × LibeventHandle) := do
  let singal ← orFault .spins (rwRLock lib.listenVectorRwLockSingal)
  return (lib.listenIdVector, { lib with listenVectorRwLockSingal := rwRUnlock singal })

/-- The record that `bev_map[id]` enters for an unknown id. Its pointers are `NULL`. -/
def emptyRecord : BevInfor := { ip := [], port := 0, isListen := false }

/-- `get_connection_ip`: the bytes copied. -/
def getConnectionIp (lib : LibeventHandle) (id : Int32) :
    Except Fault (Bytes × LibeventHandle) := do
  let lib ← lib.rLockMap
  let info := (lib.bevMap.findKey id).getD emptyRecord
  let lib := { lib with bevMap := lib.bevMap.access id emptyRecord }
  return (info.ip ++ [0], lib.rUnlockMap)

/-- `get_connection_port`. -/
def getConnectionPort (lib : LibeventHandle) (id : Int32) :
    Except Fault (Int32 × LibeventHandle) := do
  let lib ← lib.rLockMap
  let info := (lib.bevMap.findKey id).getD emptyRecord
  let lib := { lib with bevMap := lib.bevMap.access id emptyRecord }
  return (info.port, lib.rUnlockMap)

end LibeventHandle

/-! ## Calls with an id -/

/-- The functions that are given the id of a connection. -/
inductive IdOp where
  | send (sendBytes : Bytes) (sendSize : Int32)
  | waitRecive (reciveBytes : Bytes)
  | reciveStrWait (bufferStr : Bytes)
  | reciveStrNoWait (bufferStr : Bytes)
  | getReciveBufferLength
  | getConnectionIp
  | getConnectionPort
  | removeBuffevent
  deriving Repr, DecidableEq

/-- A blocking call up to its first look at the input; `none` when it goes on waiting. -/
def LibeventHandle.startWait (lib : LibeventHandle) (id : Int32) (buffer : WaitBuffer) :
    Except Fault (Option LibeventHandle) := do
  let s ← ({ lib := lib } : Line).startWait id buffer
  return if s.phase = .free then some s.lib else none

/-- The table after the call has returned. -/
def IdOp.call (lib : LibeventHandle) (id : Int32) : IdOp → Except Fault (Option LibeventHandle)
  | send sendBytes sendSize => (lib.send id sendBytes sendSize).map fun x => some x.2
  | waitRecive reciveBytes => lib.startWait id (.raw reciveBytes)
  | reciveStrWait bufferStr => lib.startWait id (.str bufferStr)
  | reciveStrNoWait bufferStr => (lib.reciveStrNoWait id bufferStr).map fun x => some x.2.2
  | getReciveBufferLength => (lib.getReciveBufferLength id).map fun x => some x.2
  | getConnectionIp => (lib.getConnectionIp id).map fun x => some x.2
  | getConnectionPort => (lib.getConnectionPort id).map fun x => some x.2
  | removeBuffevent => (lib.removeBuffevent id).map fun x => some x.2

/-- The connections, the listen list and the locks are the same. -/
structure LibeventHandle.SameTable (lib lib' : LibeventHandle) : Prop where
  bevMap : lib'.bevMap = lib.bevMap
  listenIdVector : lib'.listenIdVector = lib.listenIdVector
  bevMapRwLockSingal : lib'.bevMapRwLockSingal = lib.bevMapRwLockSingal
  listenVectorRwLockSingal : lib'.listenVectorRwLockSingal = lib.listenVectorRwLockSingal

/-- The calls that fail cleanly for an unknown id: `send` only if the id is negative, and not those
that look the record up with `operator[]`. -/
def IdOp.Clean (id : Int32) : IdOp → Prop
  | send _ _ => id < 0
  | getConnectionIp | getConnectionPort => False
  | waitRecive _ | reciveStrWait _ | reciveStrNoWait _ | getReciveBufferLength
  | removeBuffevent => True

/-! ## The listen list -/

/-- A table of connections. `accepted` are the ids of the accepted connections that still exist, in
order of acceptance; it is history. -/
structure Listening where
  lib : LibeventHandle := {}
  accepted : List Int32 := []

inductive ListenOp where
  | connect (ip : Bytes) (port : Int32) (connects : Bool)
  | listen (ip : Bytes) (port : Int32)
  | remove (id : Int32)
  deriving Repr, DecidableEq

/-- The next operation. A connection that is added under an id ends the one that had the id. -/
def Listening.next (s : Listening) : ListenOp → Option Listening
  | .connect ip port connects =>
    match s.lib.addBuffereventConnect ip port connects with
    | .ok (_, lib) => some {
        lib := lib
        accepted := if connects then s.accepted.filter (· ≠ s.lib.maxBevId) else s.accepted }
    | .error _ => none
  | .listen ip port =>
    match s.lib.addBuffereventListen ip port with
    | .ok (id, lib) => some { lib := lib, accepted := s.accepted.filter (· ≠ id) ++ [id] }
    | .error _ => none
  | .remove id =>
    match s.lib.removeBuffevent id with
    | .ok (_, lib) => some { lib := lib, accepted := s.accepted.filter (· ≠ id) }
    | .error _ => none

/-- Connections are made, accepted and removed, from an empty table. -/
def listening : System Listening ListenOp where
  init := {}
  next := Listening.next

/-- The listen list matches the table, and is reported as it is. -/
structure ListMatches (s : Listening) : Prop where
  nodup : s.lib.listenIdVector.Nodup
  keys : ∀ id, id ∈ s.lib.listenIdVector ↔
    (s.lib.bevMap.findKey id).map BevInfor.isListen = some true
  order : s.lib.listenIdVector = s.accepted
  count : ∃ n lib, s.lib.getListenConnectionCount = .ok (n, lib) ∧
    n.toInt = s.accepted.length
  array : ∃ lib, s.lib.getListenConnectionArray = .ok (s.accepted, lib)

/-- The operation keeps the list right: a new connection does not get the id of an accepted one, the
list stays in the range of an `int`, and an accepted connection that is removed is in the list at
the position of its id. -/
def KeepsList (s : Listening) : ListenOp → Prop
  | .connect _ _ connects => connects = true → s.lib.maxBevId ∉ s.lib.listenIdVector
  | .listen _ _ => s.lib.maxBevId ∉ s.lib.listenIdVector ∧
      s.lib.listenIdVector.length + 1 < 2 ^ 31
  | .remove id => (s.lib.bevMap.findKey id).map BevInfor.isListen = some true →
      ¬ id < 0 ∧ s.lib.listenIdVector[id.sizeT]? = some id

instance (s : Listening) : ∀ op, Decidable (KeepsList s op)
  | .connect _ _ _ => inferInstanceAs (Decidable (_ → _))
  | .listen _ _ => inferInstanceAs (Decidable (_ ∧ _))
  | .remove _ => inferInstanceAs (Decidable (_ → _))

end Net
