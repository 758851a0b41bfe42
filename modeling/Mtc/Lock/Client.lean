import Mtc.Lock.Manager
import Mtc.Net.EventMessageHandle

/-!
# Lock requests over the message layer

`RemotePageLockClient` of `centralized-lock-table/client` and the `lock_request_callback` of the
manager: a call of `request_page_lock` sends a `PageLockRequest` to the lock server and reads its
queue of `PageLockReply` messages, with a `PageLockReplyFilter` for its page, until there is one.
-/

namespace Lock

open Net
open Net.EventMessage (Content)

/-! ## The structs in memory -/

/-- `REMOTE_LOCK_GROUP_NAME`. -/
def remoteLockGroupName : Bytes := Bytes.ofAscii "centralized_lock"

/-- `REMOTE_LOCK_REQUEST_MESS_TYPE`. -/
def remoteLockRequestMessType : Bytes := Bytes.ofAscii "PageLockRequest"

/-- `REMOTE_LOCK_REPLY_MESS_TYPE`. -/
def remoteLockReplyMessType : Bytes := Bytes.ofAscii "PageLockReply"

def PageLockType.ofVal : UInt32 → Except Fault PageLockType
  | 0 => return .rLock
  | 1 => return .wLock
  | 2 => return .unlock
  | _ => throw .badValue

def PageReplyType.val : PageReplyType → UInt32
  | .lockSuccess => 0
  | .lockFail => 1
  | .unlockSuccess => 2
  | .unlockFail => 3

def PageReplyType.ofVal : UInt32 → Except Fault PageReplyType
  | 0 => return .lockSuccess
  | 1 => return .lockFail
  | 2 => return .unlockSuccess
  | 3 => return .unlockFail
  | _ => throw .badValue

/-- `sizeof(PageLockRequest)`: `lock_type` is followed by 4 bytes of padding. -/
def sizeofPageLockRequest : UInt32 := 24

/-- A `PageLockRequest` in memory. -/
def PageLockRequest.toBytes (request : PageLockRequest) : Bytes :=
  Bytes.words [request.spaceId, request.pageNo, UInt32.ofNat request.versionNo.toNat,
    UInt32.ofNat (request.versionNo.toNat / 2 ^ 32), UInt32.ofNat request.lockType.val, 0]

/-- Read through a `PageLockRequest *`. -/
def PageLockRequest.ofBytes (bs : Bytes) : Except Fault PageLockRequest := do
  return {
    spaceId := ← wordAt bs 0
    pageNo := ← wordAt bs 1
    versionNo := UInt64.ofNat ((← wordAt bs 2).toNat + 2 ^ 32 * (← wordAt bs 3).toNat)
    lockType := ← PageLockType.ofVal (← wordAt bs 4) }

/-- `sizeof(PageLockReply)`. -/
def sizeofPageLockReply : UInt32 := 12

/-- A `PageLockReply` in memory. -/
def PageLockReply.toBytes (reply : PageLockReply) : Bytes :=
  Bytes.words [reply.spaceId, reply.pageNo, reply.replyType.val]

/-- Read through a `PageLockReply *`. -/
def PageLockReply.ofBytes (bs : Bytes) : Except Fault PageLockReply := do
  return {
    spaceId := ← wordAt bs 0
    pageNo := ← wordAt bs 1
    replyType := ← PageReplyType.ofVal (← wordAt bs 2) }

/-! ## The messages -/

/-- A request as its message has it. -/
def requestContent (lockServerHost host : Bytes) (request : PageLockRequest) : Content where
  groupName := remoteLockGroupName
  messType := remoteLockRequestMessType
  sendHostName := host
  reciveHostName := lockServerHost
  message := request.toBytes
  messageSize := sizeofPageLockRequest

/-- A reply of the server `localHostName` as its message has it. -/
def replyContent (localHostName host : Bytes) (reply : PageLockReply) : Content where
  groupName := remoteLockGroupName
  messType := remoteLockReplyMessType
  sendHostName := localHostName
  reciveHostName := host
  message := reply.toBytes
  messageSize := sizeofPageLockReply

/-! ## The client -/

/-- `PageLockReplyFilter`. -/
structure PageLockReplyFilter where
  spaceId : UInt32
  pageNo : UInt32

/-- `PageLockReplyFilter::operator()`. -/
def PageLockReplyFilter.call (filter : PageLockReplyFilter) (mess : EventMessage) :
    Except Fault Bool := do
  let reply := mess.message.target mess.bufferStr
  if (← wordAt reply 0) = filter.spaceId then
    return (← wordAt reply 1) = filter.pageNo
  else return false

/-- The `request_msg` of `request_page_lock`. -/
def requestMsg (lockServerHost : Bytes) (request : PageLockRequest) : EventMessage :=
  ({} : EventMessage).prepareSend (.mem (remoteLockGroupName ++ [0]))
    (.mem (remoteLockRequestMessType ++ [0])) (.mem (lockServerHost ++ [0]))
    (.mem request.toBytes) sizeofPageLockRequest

/-- `request_page_lock` up to the wait for the reply: the message sent, or `none` where it
returns -1. -/
def requestPageLock (networkHandle : EventMessageHandle) (lockServerHost : Bytes)
    (request : PageLockRequest) (connects : Bool) :
    Except Fault (Option EventMessage × EventMessageHandle) := do
  let (val, msg, h) ← networkHandle.sendMessage (requestMsg lockServerHost request) connects
  if val < 0 then return (none, h) else return (some msg, h)

/-- How a round of the loop of `wait_for_lock_reply` ends. -/
inductive Waited where
  | failed
  | sleeps
  | replied (reply : PageLockReply)

/-- A round of the loop of `wait_for_lock_reply`. -/
def waitForLockReply (networkHandle : EventMessageHandle) (filter : PageLockReplyFilter) :
    Except Fault (Waited × EventMessageHandle) := do
  let replyMsg := ({} : EventMessage).prepareRecive (.mem (remoteLockGroupName ++ [0]))
    (.mem (remoteLockReplyMessType ++ [0]))
  let (val, replyMsg, h) ← networkHandle.readMessageFilter replyMsg filter.call
  if val = -1 then return (.failed, h)
  if val = 1 then
    let reply ← PageLockReply.ofBytes (replyMsg.message.target replyMsg.bufferStr)
    return (.replied reply, h)
  return (.sleeps, h)

/-! ## The server -/

/-- The number under which `lock_request_callback` is registered. -/
def lockRequestCallbackId : Nat := 0

/-- What `lock_manager_init` does to the handle. -/
def lockManagerInit (msgHandle : EventMessageHandle) : Except Fault (Bool × EventMessageHandle) :=
  msgHandle.registerReciveHandler (.mem (remoteLockGroupName ++ [0]))
    (.mem (remoteLockRequestMessType ++ [0])) lockRequestCallbackId

/-- The `replyMsg` of `lock_request_callback`; its names are in the message answered. -/
def replyMsg (mess : EventMessage) (reply : PageLockReply) : EventMessage :=
  ({} : EventMessage).prepareSend (.mem (mess.groupName.target mess.bufferStr))
    (.mem (remoteLockReplyMessType ++ [0])) (.mem (mess.sendHostName.target mess.bufferStr))
    (.mem reply.toBytes) sizeofPageLockReply

/-- `lock_request_callback`: the table, the request with its answer, the message sent and the
handle. -/
def lockRequestCallback (t : LockTable) (messHandle : EventMessageHandle) (mess : EventMessage)
    (connects : Bool) : Except Fault (LockTable × Event × EventMessage × EventMessageHandle) := do
  let asker ← mess.sendHostName.str mess.bufferStr
  let request ← PageLockRequest.ofBytes (mess.message.target mess.bufferStr)
  let (t, code, reply) := checkLockRequest t asker request
  let (val, msg, h) ← messHandle.sendMessage (replyMsg mess reply) connects
  if val < 0 then throw .abort
  return (t, (⟨asker, request⟩, code, reply), msg, h)

end Lock
