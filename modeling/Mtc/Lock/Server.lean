import Mtc.Lock.Client
import Mtc.Net.Spec

/-!
# The lock server and any request

`lock_request_callback` on the messages that anybody may send: the `lock_type` of a request is the
32-bit word of its payload, it is stored in the table as it came, and it indexes
`lock_compatibility_matrix`. The functions are those of `Mtc.Lock.Manager` with such words for
`PageLockType`, and with the faults that they allow.

`Serves` is what keeps the server up: the callback returns, and a request whose reply is not sent
has left the table as it was.
-/

namespace Lock

open Net
open Net.EventMessage (Content)

namespace Server

/-! ## The table -/

/-- `WaitInfor`. -/
abbrev WaitInfor := WaitInforOf UInt32

/-- `PageLock_t`. -/
abbrev PageLockT := PageLockOf UInt32

/-- The fields of a `PageLockRequest` that the manager reads. -/
structure PageLockRequest where
  spaceId : UInt32
  pageNo : UInt32
  lockType : UInt32
  deriving DecidableEq, Repr

/-- `W_LOCK`. -/
def wLock : UInt32 := 1

/-- `UNLOCK`. -/
def unlock : UInt32 := 2

/-- The records, newest first. -/
abbrev LockTable := List PageLockT

/-- `HASH_FIND_INT`. -/
def hashFindInt (t : LockTable) (fold : UInt64) : Option PageLockT := findRecord t fold

/-- A write through the pointer that `HASH_FIND_INT` gave for `fold`. -/
def writeFound (t : LockTable) (fold : UInt64) (g : PageLockT → PageLockT) : LockTable :=
  writeRecord t fold g

/-! ## `RemotePageLockManager` -/

/-- `lock_compatibility_matrix[req][st]`; an index outside the matrix is a fault. -/
def compatible (req st : UInt32) : Except Fault Bool :=
  orFault .outOfBounds ((lockCompatibilityMatrix[req.toNat]?).bind (·[st.toNat]?))

/-- `insert_page_lock_t` stores the type as it is. -/
def insertPageLockT (asker : Bytes) (request : PageLockRequest) : PageLockT :=
  .inserted asker request.spaceId request.pageNo request.lockType

/-- `update_unlock_page_lock_t`. -/
def updateUnlockPageLockT (asker : Bytes) (pageLock : PageLockT) : PageLockT :=
  pageLock.unlocked unlock asker

/-- `update_success_page_lock_t`. -/
def updateSuccessPageLockT (asker : Bytes) (request : PageLockRequest) (pageLock : PageLockT) :
    PageLockT :=
  pageLock.granted wLock asker request.lockType

/-- `update_fail_page_lock_t`. -/
def updateFailPageLockT (asker : Bytes) (request : PageLockRequest) (pageLock : PageLockT) :
    PageLockT :=
  pageLock.refused UInt32.toNat asker request.lockType

def PageLockRequest.reply (request : PageLockRequest) (replyType : PageReplyType) :
    PageLockReply where
  spaceId := request.spaceId
  pageNo := request.pageNo
  replyType := replyType

/-- `check_lock_request`: the table after the request, the return code and the reply. -/
def checkLockRequest (t : LockTable) (asker : Bytes) (request : PageLockRequest) :
    Except Fault (LockTable × Int × PageLockReply) :=
  let fold := calFold request.spaceId request.pageNo
  match hashFindInt t fold with
  | none => return (insertPageLockT asker request :: t, 0, request.reply .lockSuccess)
  | some pageLockInfor =>
    if request.lockType = unlock then
      return (writeFound t fold (updateUnlockPageLockT asker), 2, request.reply .unlockSuccess)
    else if pageLockInfor.lockType = unlock then
      return (writeFound t fold (updateSuccessPageLockT asker request), 1,
        request.reply .lockSuccess)
    else do
      if ← compatible request.lockType pageLockInfor.lockType then
        return (writeFound t fold (updateSuccessPageLockT asker request), 1,
          request.reply .lockSuccess)
      else
        return (writeFound t fold (updateFailPageLockT asker request), -1, request.reply .lockFail)

/-- The payload read through a `PageLockRequest *`. A read outside the payload is a fault, also of
the `'\0'` that the buffer has behind it. -/
def PageLockRequest.ofPayload (payload : Bytes) : Except Fault PageLockRequest := do
  return {
    spaceId := ← wordAt payload 0
    pageNo := ← wordAt payload 1
    lockType := ← wordAt payload 4 }

/-- `lock_request_callback`: the table, the reply and the handle. -/
def lockRequestCallback (t : LockTable) (messHandle : EventMessageHandle) (mess : EventMessage)
    (connects : Bool) : Except Fault (LockTable × PageLockReply × EventMessageHandle) := do
  let asker ← mess.sendHostName.str mess.bufferStr
  let payload ← mess.message.bytes mess.bufferStr mess.messageSize.toNat
  let request ← PageLockRequest.ofPayload payload
  let (t, _, reply) ← checkLockRequest t asker request
  let (val, _, h) ← messHandle.sendMessage (replyMsg mess reply) connects
  if val < 0 then throw .abort
  return (t, reply, h)

/-! ## The values of the enumeration -/

end Server

/-- The type as the word that stands for it. -/
def PageLockType.word (y : PageLockType) : UInt32 := UInt32.ofNat y.val

def WaitInfor.words (w : WaitInfor) : Server.WaitInfor := ⟨w.name, w.type.word⟩

/-- A record of the manager, with words for its types. -/
def PageLockT.words (r : PageLockT) : Server.PageLockT where
  mFold := r.mFold
  spaceId := r.spaceId
  pageNo := r.pageNo
  versionNo := r.versionNo
  lockType := r.lockType.word
  lockHolder := r.lockHolder
  waitList := r.waitList.map WaitInfor.words

def PageLockRequest.words (request : PageLockRequest) : Server.PageLockRequest :=
  ⟨request.spaceId, request.pageNo, request.lockType.word⟩

namespace Server

/-! ## Requests that arrive -/

/-- A `PageLockRequest` message that arrives, with the handle of the server at that moment: no lock
is held that sending takes, and its name is a C string. -/
structure Arrival where
  content : Content
  valid : content.Valid
  groupName : content.groupName = remoteLockGroupName
  messType : content.messType = remoteLockRequestMessType
  size : content.size < 2 ^ 31
  messHandle : EventMessageHandle
  ready : SendReady messHandle remoteLockGroupName
  localHostName : 0 ∉ messHandle.localHostName
  /-- libevent can connect to the sender. -/
  connects : Bool

namespace Arrival

/-- The name of the sender. -/
def asker (a : Arrival) : Bytes := a.content.sendHostName

/-- What the callback makes of the message. -/
def callback (a : Arrival) (t : LockTable) :
    Except Fault (LockTable × PageLockReply × EventMessageHandle) := do
  let mess ← EventMessage.ofFrame a.content.encode
  lockRequestCallback t a.messHandle mess a.connects

/-- The word `i` of the payload, if it has one. -/
def word (a : Arrival) (i : Nat) : UInt32 :=
  (Bytes.getLe32 (a.content.message.drop (4 * i))).getD 0

/-- The request in a payload that is long enough. -/
def request (a : Arrival) : PageLockRequest := ⟨a.word 0, a.word 1, a.word 4⟩

/-- The reply as its message has it. -/
def replyContent (a : Arrival) (reply : PageLockReply) : Content :=
  Lock.replyContent a.messHandle.localHostName a.asker reply

end Arrival

/-- The table of the server along the requests that arrive. What happens to the handle between two
requests is not restricted: each brings the one that it finds. -/
def lockServer : System LockTable Arrival where
  init := []
  next t a := (a.callback t).toOption.map (·.1)

/-- The callback returns: it has read nothing outside the payload and the matrix, and its assert has
held. If the reply was not sent, the table is as it was. -/
def Serves (t : LockTable) (a : Arrival) : Prop :=
  ∃ t' reply h', a.callback t = .ok (t', reply, h') ∧
    (FrameSent a.messHandle h' (a.replyContent reply) ∨ t' = t)

/-! ## The requests that can be served -/

/-- The request does not index the matrix, or does so inside it. -/
def InMatrix (t : LockTable) (request : PageLockRequest) : Prop :=
  match hashFindInt t (calFold request.spaceId request.pageNo) with
  | none => True
  | some r => request.lockType = unlock ∨ r.lockType = unlock ∨
      request.lockType.toNat < 2 ∧ r.lockType.toNat < 2

/-- The request has no effect: an unlock by a host that does not hold the page, which is unlocked,
or a request that is refused and raises no waiter. -/
def NoEffect (t : LockTable) (asker : Bytes) (request : PageLockRequest) : Prop :=
  match hashFindInt t (calFold request.spaceId request.pageNo) with
  | none => False
  | some r =>
    if request.lockType = unlock then
      r.lockType = unlock ∧ asker ∉ r.lockHolder ∧ (r.lockHolder ≠ [] ∨ r.waitList = [])
    else r.lockType ≠ unlock ∧ ¬ (request.lockType = 0 ∧ r.lockType = 0) ∧
      ∀ w ∈ r.waitList, w.name = asker → request.lockType ≤ w.type

/-- The server's configuration has the reply type and the sender, with its ip and a port. -/
structure Arrival.Known (a : Arrival) (group : GroupInfor) (ip : Bytes) (port : Int32) : Prop where
  findGroup : a.messHandle.messGroupMap.findKey remoteLockGroupName = some group
  findType : ∃ cb, group.messCallbackMap.findKey remoteLockReplyMessType = some cb
  findIp : a.messHandle.getIp a.asker = some ip
  findPort : group.hostPortMap.findKey a.asker = some port
  ne_zero : port ≠ 0

/-- A reply fits an `int`, and the sender can be reached. -/
def Arrival.Answerable (a : Arrival) (group : GroupInfor) (ip : Bytes) (port : Int32) : Prop :=
  (∀ reply, (a.replyContent reply).size < 2 ^ 31) ∧ group.handle.Reaches ip port a.connects

/-- The payload has all the fields that are read, the types stay in the matrix, the sender is known,
and it can be answered or the request has no effect. -/
structure Servable (t : LockTable) (a : Arrival) : Prop where
  payload : 20 ≤ a.content.message.length
  inMatrix : InMatrix t a.request
  known : ∃ group ip port, a.Known group ip port ∧
    (a.Answerable group ip port ∨ NoEffect t a.asker a.request)

/-- A request as it should be, whatever the table: the fields are there, the type is one of the
enumeration, and the sender is known and can be answered. -/
structure Arrival.Proper (a : Arrival) : Prop where
  payload : 20 ≤ a.content.message.length
  lockType : a.request.lockType ≤ unlock
  known : ∃ group ip port, a.Known group ip port ∧ a.Answerable group ip port

end Server

end Lock
