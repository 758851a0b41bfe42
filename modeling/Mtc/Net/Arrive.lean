import Mtc.Net.EventMessageHandle

/-!
# Bytes that arrive at a host

The read callback of a connection (`read_callback_message_from_libevent`) with registered callbacks
that have a state of their own, such as the table of the lock manager, and that may end in a fault.
With callbacks that only change the handle it is `readCallbackLoop`.
-/

namespace Net.EventMessageHandle

/-! ## The connections of a group -/

/-- The connections of a group. -/
def lib (h : EventMessageHandle) (groupName : Bytes) : Option LibeventHandle :=
  (h.messGroupMap.findKey groupName).map (·.handle)

/-- A connection of a group. -/
def record (h : EventMessageHandle) (groupName : Bytes) (id : Int32) : Option BevInfor :=
  (h.lib groupName).bind fun lib => lib.bevMap.findKey id

/-- The ip and the port configured for a host in a group. -/
def endpoint (h : EventMessageHandle) (groupName hostName : Bytes) : Option (Bytes × Int32) :=
  (h.getIp hostName).bind fun ip =>
    (h.messGroupMap.findKey groupName).bind fun group =>
      (group.hostPortMap.findKey hostName).map fun port => (ip, port)

/-! ## The read callback -/

section
variable {σ : Type} (callback : Nat → σ → EventMessageHandle → EventMessage →
  Except Fault (σ × EventMessageHandle))

/-- `try_run_callback`. -/
def tryRunCallbackOn (s : σ) (h : EventMessageHandle) (m : EventMessage) :
    Except Fault (Bool × σ × EventMessageHandle) := do
  match ← h.dispatch m with
  | .unknown => return (false, s, h)
  | .callback f =>
    let (s, h) ← callback f s h m
    return (true, s, h)
  | .queued h => return (true, s, h)

/-- The loop of `read_callback_message_from_libevent` on a connection of a group; `none` is an
unfinished loop. -/
def readCallbackOn (groupName : Bytes) (connectId : Int32) : Nat → σ → EventMessageHandle →
    Except Fault (Option (Bool × σ × EventMessageHandle))
  | 0, _, _ => return none
  | fuel + 1, s, h => do
    let group ← orFault .outOfBounds (h.messGroupMap.findKey groupName)
    let (len, lib) ← group.handle.getReciveBufferLength connectId
    if len > 0 then
      let (reciveSize, bufferStr, lib) ← lib.reciveStrNoWait connectId []
      let h := h.putHandle groupName group lib
      if reciveSize ≤ 0 then
        return some (false, s, h)
      let mess ← { bufferStr, bufferSize := reciveSize.toUInt32 : EventMessage }.initMessagePtr
      let (ok, s, h) ← tryRunCallbackOn callback s h mess
      if ok then readCallbackOn groupName connectId fuel s h
      else return some (false, s, h)
    else
      return some (true, s, h.putHandle groupName group lib)

/-- Bytes arrive on a connection: libevent adds them to the input buffer, and calls the read
callback when the buffer has reached the low watermark. The fuel is that of `Receiver.arrive`. -/
def arrive (groupName : Bytes) (connectId : Int32) (s : σ) (h : EventMessageHandle)
    (bytes : Bytes) : Except Fault (σ × EventMessageHandle) := do
  let group ← orFault .outOfBounds (h.messGroupMap.findKey groupName)
  let info ← orFault .outOfBounds (group.handle.bevMap.findKey connectId)
  let bev := { info.bev with input := info.bev.input ++ bytes }
  let h := h.putHandle groupName group
    { group.handle with bevMap := group.handle.bevMap.put connectId { info with bev := bev } }
  if bev.input.length < bev.readLow then
    return (s, h)
  match ← readCallbackOn callback groupName connectId (bev.input.length + 1) s h with
  | some (_, s, h) => return (s, h)
  | none => throw .spins

end

end Net.EventMessageHandle
