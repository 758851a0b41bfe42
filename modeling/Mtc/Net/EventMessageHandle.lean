import Mtc.Net.EventMessage

/-!
# Sending and receiving messages: `EventMessageHandle`

The groups, hosts and message types of `event_mess_handle.cc`, with `sendMessage`, the two
`readMessage`s and the receive path that libevent's read callback runs
(`read_callback_message_from_libevent`).

A registered callback is a number; what it does to the handle it is given is the parameter
`runCallback`.
-/

namespace Net

/-- `CallbackInfor`. -/
structure CallbackInfor where
  cbFunction : Option Nat := none
  unprocessedMessList : List EventMessage := []
  deriving Repr

/-- `GroupInfor`. -/
structure GroupInfor where
  handle : LibeventHandle := {}
  hostPortMap : AssocMap Bytes Int32 := ∅
  messCallbackMap : AssocMap Bytes CallbackInfor := ∅
  deriving Repr

/-- The group with an entry `0` for a host. -/
def GroupInfor.enterPort (group : GroupInfor) (hostName : Bytes) : GroupInfor :=
  { group with hostPortMap := group.hostPortMap.assign hostName 0 }

/-- `EventMessageHandle` after `init_handle`. -/
structure EventMessageHandle where
  localHostName : Bytes
  hostConfigMap : AssocMap Bytes Bytes := ∅
  messGroupMap : AssocMap Bytes GroupInfor := ∅
  deriving Repr

namespace EventMessageHandle

/-- The handle with a group replaced. -/
def putGroup (h : EventMessageHandle) (groupName : Bytes) (group : GroupInfor) :
    EventMessageHandle :=
  { h with messGroupMap := h.messGroupMap.put groupName group }

/-- The handle with the `LibeventHandle` of a group replaced. -/
def putHandle (h : EventMessageHandle) (groupName : Bytes) (group : GroupInfor)
    (handle : LibeventHandle) : EventMessageHandle :=
  h.putGroup groupName { group with handle := handle }

/-- The handle with one entry of a group's `mess_callback_map` replaced. -/
def putCallback (h : EventMessageHandle) (groupName : Bytes) (group : GroupInfor)
    (messType : Bytes) (cb : CallbackInfor) : EventMessageHandle :=
  h.putGroup groupName { group with messCallbackMap := group.messCallbackMap.put messType cb }

/-- `mess_group_map[group_name]->mess_callback_map[mess_type]`. -/
def callbackInfor (h : EventMessageHandle) (groupName messType : Bytes) : Option CallbackInfor := do
  let group ← h.messGroupMap.findKey groupName
  group.messCallbackMap.findKey messType

/-! ## Configuration -/

/-- `get_ip`. -/
def getIp (h : EventMessageHandle) (hostName : Bytes) : Option Bytes :=
  h.hostConfigMap.findKey hostName

/-- `get_port`: `host_port_map[hostname]` adds an entry `0` for an unknown host. -/
def getPort (h : EventMessageHandle) (hostName groupName : Bytes) : Int32 × EventMessageHandle :=
  match h.messGroupMap.findKey groupName with
  | none => (0, h)
  | some group =>
    match group.hostPortMap.findKey hostName with
    | some port => (port, h)
    | none =>
      (0, h.putGroup groupName (group.enterPort hostName))

/-- What `check_mess_type` finds. -/
inductive Checked where
  | failed (errorNo : EventMessageErrorNo)
  | found (groupName messType : Bytes) (group : GroupInfor) (cb : CallbackInfor)

/-- `check_mess_type`: the group and the type of the message, or the error it sets. -/
def checkMessType (h : EventMessageHandle) (m : EventMessage) : Except Fault Checked := do
  let groupName ← m.groupName.str m.bufferStr
  match h.messGroupMap.findKey groupName with
  | none => return .failed .groupNotFound
  | some group =>
    let messType ← m.messType.str m.bufferStr
    match group.messCallbackMap.findKey messType with
    | none => return .failed .messTypeNotFound
    | some cb => return .found groupName messType group cb

/-! ## Sending -/

/-- `sendMessage`: the value returned, the message and the handle. -/
def sendMessage (h : EventMessageHandle) (m : EventMessage) (connects : Bool) :
    Except Fault (Int32 × EventMessage × EventMessageHandle) := do
  if !m.willSend then
    return (-1, { m with errorNo := .incompleteMessage }, h)
  match ← h.checkMessType m with
  | .failed errorNo => return (-1, { m with errorNo }, h)
  | .found groupName _ _ _ =>
    let reciveHostName ← m.reciveHostName.str m.bufferStr
    let ip := h.getIp reciveHostName
    let (port, h) := h.getPort reciveHostName groupName
    match ip, h.messGroupMap.findKey groupName with
    | some ip, some group =>
      if port = 0 then
        return (-1, { m with errorNo := .invalidHost }, h)
      let m ← { m with sendHostName := .mem (h.localHostName ++ [0]) }.initBufferStr
      let (connectId, lib) ← group.handle.getConnectionId ip port true connects
      let (_, lib) ← lib.send connectId m.bufferStr m.bufferSize.toInt32
      return (1, m, h.putHandle groupName group lib)
    | _, _ => return (-1, { m with errorNo := .invalidHost }, h)

/-! ## Queues -/

/-- `register_recive_handler`. -/
def registerReciveHandler (h : EventMessageHandle) (groupName messType : CharPtr) (cb : Nat) :
    Except Fault (Bool × EventMessageHandle) := do
  match ← h.checkMessType { groupName, messType } with
  | .failed _ => return (false, h)
  | .found groupName messType group info =>
    return (true, h.putCallback groupName group messType { info with cbFunction := some cb })

/-- The first message that a filter accepts, and the others. -/
def takeFirst (filter : EventMessage → Except Fault Bool) :
    List EventMessage → Except Fault (Option (EventMessage × List EventMessage))
  | [] => return none
  | m :: ms => do
    if ← filter m then
      return some (m, ms)
    match ← takeFirst filter ms with
    | none => return none
    | some (m', ms) => return some (m', m :: ms)

/-- `readMessage` with a filter. -/
def readMessageFilter (h : EventMessageHandle) (m : EventMessage)
    (filter : EventMessage → Except Fault Bool) :
    Except Fault (Int32 × EventMessage × EventMessageHandle) := do
  if !m.willRecive then
    return (-1, { m with errorNo := .incompleteMessage }, h)
  match ← h.checkMessType m with
  | .failed errorNo => return (-1, { m with errorNo }, h)
  | .found groupName messType group cb =>
    if cb.unprocessedMessList.isEmpty then
      return (0, { m with errorNo := .noneUnprocessedMessage }, h)
    match ← takeFirst filter cb.unprocessedMessList with
    | none => return (0, { m with errorNo := .noneRequestedMessage }, h)
    | some (src, rest) =>
      let m ← m.copy src
      -- the queue to erase from is looked up under the type the message now has
      let queue ← m.messType.str m.bufferStr
      if queue ≠ messType then
        throw .badIterator
      return (1, m, h.putCallback groupName group messType { cb with unprocessedMessList := rest })

/-- `readMessage`. -/
def readMessage (h : EventMessageHandle) (m : EventMessage) :
    Except Fault (Int32 × EventMessage × EventMessageHandle) := do
  if !m.willRecive then
    return (-1, { m with errorNo := .incompleteMessage }, h)
  match ← h.checkMessType m with
  | .failed errorNo => return (-1, { m with errorNo }, h)
  | .found groupName _ group cb =>
    match cb.unprocessedMessList with
    | [] => return (0, { m with errorNo := .noneUnprocessedMessage }, h)
    | src :: _ =>
      let m ← m.copy src
      let queue ← m.messType.str m.bufferStr
      let cb ← orFault .badIterator (group.messCallbackMap.findKey queue)
      match cb.unprocessedMessList with
      | [] => throw .badIterator
      | _ :: rest =>
        return (1, m, h.putCallback groupName group queue { cb with unprocessedMessList := rest })

/-- `get_unprocessed_message_count`. -/
def getUnprocessedMessageCount (h : EventMessageHandle) (groupName messType : CharPtr) :
    Except Fault UInt32 := do
  match ← h.checkMessType { groupName, messType } with
  | .failed _ => return 0
  | .found _ _ _ cb => return UInt32.ofNat cb.unprocessedMessList.length

/-! ## Receiving -/

/-- What `try_run_callback` does with a message. -/
inductive Dispatch where
  /-- Its group or type is unknown. -/
  | unknown
  /-- It goes to the callback of its type. -/
  | callback (f : Nat)
  /-- It is appended to the queue of its type. -/
  | queued (h : EventMessageHandle)

/-- `try_run_callback` up to the call of the callback. -/
def dispatch (h : EventMessageHandle) (m : EventMessage) : Except Fault Dispatch := do
  match ← h.checkMessType m with
  | .failed _ => return .unknown
  | .found groupName messType group cb =>
    match cb.cbFunction with
    | some f => return .callback f
    | none =>
      let copied ← EventMessage.copy {} m
      return .queued (h.putCallback groupName group messType
        { cb with unprocessedMessList := cb.unprocessedMessList ++ [copied] })

section
variable (runCallback : Nat → EventMessageHandle → EventMessage → EventMessageHandle)

/-- `try_run_callback`. -/
def tryRunCallback (h : EventMessageHandle) (m : EventMessage) :
    Except Fault (Bool × EventMessageHandle) := do
  match ← h.dispatch m with
  | .unknown => return (false, h)
  | .callback f => return (true, runCallback f h m)
  | .queued h => return (true, h)

/-- The loop of `read_callback_message_from_libevent` on a connection of a group. `passed` are the
messages given to `try_run_callback` so far; `none` is an unfinished loop. -/
def readCallbackLoop (groupName : Bytes) (connectId : Int32) : Nat → EventMessageHandle →
    List EventMessage → Except Fault (Option (Bool × List EventMessage × EventMessageHandle))
  | 0, _, _ => return none
  | fuel + 1, h, passed => do
    let group ← orFault .outOfBounds (h.messGroupMap.findKey groupName)
    let (len, lib) ← group.handle.getReciveBufferLength connectId
    if len > 0 then
      let (reciveSize, bufferStr, lib) ← lib.reciveStrNoWait connectId []
      let h := h.putHandle groupName group lib
      if reciveSize ≤ 0 then
        return some (false, passed, h)
      let mess ← { bufferStr, bufferSize := reciveSize.toUInt32 : EventMessage }.initMessagePtr
      let (ok, h) ← tryRunCallback runCallback h mess
      if ok then readCallbackLoop groupName connectId fuel h (passed ++ [mess])
      else return some (false, passed ++ [mess], h)
    else
      return some (true, passed, h.putHandle groupName group lib)

end

end EventMessageHandle

end Net
