import Mtc.Lib.Bytes
import Mtc.Lib.Machine

/-!
# The page lock manager

`RemotePageLockManager` of `centralized-lock-table/server` with the data of `lock_common.h`: one
record (`PageLockT`) per hash key in a uthash table, and `checkLockRequest`, which answers a
`PageLockRequest` and updates the record. `lockMachine` is the manager as a machine: requests
arrive with their asker and are answered with `check_lock_request`'s return code and reply.

The table is the list of the records, newest first, the order in which uthash's bucket chains
are searched. `HASH_FIND_INT` and `HASH_ADD_INT` compare and store `sizeof(int)` bytes of the
key: the low 4 bytes of the 8-byte `m_fold` (`hashKey`).
-/

namespace Lock

/-! ## `lock_common.h` -/

/-- `R_LOCK = 0`, `W_LOCK = 1`, `UNLOCK = 2`. -/
inductive PageLockType where
  | rLock
  | wLock
  | unlock
  deriving DecidableEq, Repr

/-- The enumeration's value: the lock level, `UNLOCK` last. -/
def PageLockType.val : PageLockType → Nat
  | .rLock => 0
  | .wLock => 1
  | .unlock => 2

inductive PageReplyType where
  | lockSuccess
  | lockFail
  | unlockSuccess
  | unlockFail
  deriving DecidableEq, Repr

/-- `WaitInfor`, with lock types of the type `Y`. -/
structure WaitInforOf (Y : Type) where
  name : Bytes
  type : Y
  deriving DecidableEq, Repr

/-- A lock table item, with lock types of the type `Y`. -/
structure PageLockOf (Y : Type) where
  mFold : UInt64
  spaceId : UInt32
  pageNo : UInt32
  versionNo : UInt64
  lockType : Y
  lockHolder : List Bytes
  waitList : List (WaitInforOf Y)
  deriving DecidableEq, Repr

abbrev WaitInfor := WaitInforOf PageLockType

abbrev PageLockT := PageLockOf PageLockType

structure PageLockRequest where
  spaceId : UInt32
  pageNo : UInt32
  versionNo : UInt64
  lockType : PageLockType
  deriving DecidableEq, Repr

structure PageLockReply where
  spaceId : UInt32
  pageNo : UInt32
  replyType : PageReplyType
  deriving DecidableEq, Repr

/-! ## The hash table -/

/-- The records, newest first (`page_lock_hash`; empty is `NULL`). -/
abbrev LockTable := List PageLockT

/-- The bytes of a fold that uthash's `_INT` macros look at. -/
def hashKey (fold : UInt64) : UInt32 := fold.toUInt32

section
variable {Y : Type}

/-- The first record with the key of `fold`. -/
def findRecord (t : List (PageLockOf Y)) (fold : UInt64) : Option (PageLockOf Y) :=
  t.find? fun r => hashKey r.mFold == hashKey fold

/-- The first record with the key of `fold` replaced by what `g` makes of it. -/
def writeRecord (t : List (PageLockOf Y)) (fold : UInt64) (g : PageLockOf Y → PageLockOf Y) :
    List (PageLockOf Y) :=
  match t with
  | [] => []
  | r :: t => if hashKey r.mFold == hashKey fold then g r :: t else r :: writeRecord t fold g

end

/-- `HASH_FIND_INT`. -/
def hashFindInt (t : LockTable) (fold : UInt64) : Option PageLockT := findRecord t fold

/-- `HASH_ADD_INT`. -/
def hashAddInt (t : LockTable) (r : PageLockT) : LockTable := r :: t

/-- A write through the pointer that `HASH_FIND_INT` gave for `fold`. -/
def writeFound (t : LockTable) (fold : UInt64) (g : PageLockT → PageLockT) : LockTable :=
  writeRecord t fold g

/-! ## Records

What `RemotePageLockManager` makes of a record. The lock types are of any type `Y`: for the manager
they are the values of the enumeration, and for a server whose requests may have others they are
words. -/

/-- The sum is a 32-bit one, widened to `ulint` only when it is stored. -/
def calFold (mSpace mPageNo : UInt32) : UInt64 :=
  ((mSpace <<< 20) + mSpace + mPageNo).toUInt64

namespace PageLockOf

variable {Y : Type}

/-- The record of a page's first request. -/
def inserted (asker : Bytes) (spaceId pageNo : UInt32) (lockType : Y) : PageLockOf Y where
  mFold := calFold spaceId pageNo
  spaceId := spaceId
  pageNo := pageNo
  versionNo := 0
  lockType := lockType
  lockHolder := [asker]
  waitList := []

/-- The status becomes `UNLOCK` whoever still holds the page; when nobody does, the first waiter
gets the lock. -/
def unlocked (unlock : Y) (asker : Bytes) (pageLock : PageLockOf Y) : PageLockOf Y :=
  let pageLock := { pageLock with
    lockType := unlock
    lockHolder := pageLock.lockHolder.filter (· ≠ asker) }
  if pageLock.lockHolder.isEmpty then
    match pageLock.waitList with
    | [] => pageLock
    | iter :: rest => { pageLock with
        lockHolder := [iter.name]
        lockType := iter.type
        waitList := rest }
  else pageLock

/-- The asker gets the lock; the version counts the write locks. -/
def granted [DecidableEq Y] (wLock : Y) (asker : Bytes) (lockType : Y) (pageLock : PageLockOf Y) :
    PageLockOf Y :=
  { pageLock with
    versionNo := if lockType = wLock then pageLock.versionNo + 1 else pageLock.versionNo
    lockType := lockType
    lockHolder := pageLock.lockHolder ++ [asker] }

/-- The `WaitInfor` of an asker that is not in the list is built and dropped: the source has no
`push_back`. -/
def refused (val : Y → Nat) (asker : Bytes) (lockType : Y) (pageLock : PageLockOf Y) :
    PageLockOf Y :=
  { pageLock with
    waitList := pageLock.waitList.map fun iter =>
      if iter.name = asker ∧ val iter.type < val lockType then
        { iter with type := lockType }
      else iter }

end PageLockOf

/-! ## `RemotePageLockManager` -/

/-- Rows: the request (`s`, `x`); columns: the record's status. -/
def lockCompatibilityMatrix : List (List Bool) :=
  [[true, false],
   [false, false]]

/-- `lock_compatibility_matrix[req][st]`. -/
def compatible (req st : PageLockType) : Bool :=
  ((lockCompatibilityMatrix[req.val]?).bind (·[st.val]?)).getD false

def insertPageLockT (asker : Bytes) (request : PageLockRequest) : PageLockT :=
  .inserted asker request.spaceId request.pageNo request.lockType

def updateUnlockPageLockT (asker : Bytes) (pageLock : PageLockT) : PageLockT :=
  pageLock.unlocked .unlock asker

def updateSuccessPageLockT (asker : Bytes) (request : PageLockRequest) (pageLock : PageLockT) :
    PageLockT :=
  pageLock.granted .wLock asker request.lockType

def updateFailPageLockT (asker : Bytes) (request : PageLockRequest) (pageLock : PageLockT) :
    PageLockT :=
  pageLock.refused PageLockType.val asker request.lockType

/-- The reply's fields that every branch fills in the same way, and the branch's type. -/
def PageLockRequest.reply (request : PageLockRequest) (replyType : PageReplyType) :
    PageLockReply where
  spaceId := request.spaceId
  pageNo := request.pageNo
  replyType := replyType

/-- The table after the request, the return code and the reply. -/
def checkLockRequest (t : LockTable) (asker : Bytes) (request : PageLockRequest) :
    LockTable × Int × PageLockReply :=
  let fold := calFold request.spaceId request.pageNo
  match hashFindInt t fold with
  | none => (hashAddInt t (insertPageLockT asker request), 0, request.reply .lockSuccess)
  | some pageLockInfor =>
    if request.lockType = .unlock then
      (writeFound t fold (updateUnlockPageLockT asker), 2, request.reply .unlockSuccess)
    else if pageLockInfor.lockType = .unlock then
      (writeFound t fold (updateSuccessPageLockT asker request), 1, request.reply .lockSuccess)
    else if compatible request.lockType pageLockInfor.lockType then
      (writeFound t fold (updateSuccessPageLockT asker request), 1, request.reply .lockSuccess)
    else
      (writeFound t fold (updateFailPageLockT asker request), -1, request.reply .lockFail)

/-! ## The manager as a machine -/

/-- A request as it reaches `check_lock_request`. -/
structure Ask where
  asker : Bytes
  request : PageLockRequest
  deriving DecidableEq, Repr

/-- The page a request is for: `(space_id, page_no)`. -/
def Ask.page (a : Ask) : UInt32 × UInt32 := (a.request.spaceId, a.request.pageNo)

/-- The fold of the request's page. -/
def Ask.fold (a : Ask) : UInt64 := calFold a.request.spaceId a.request.pageNo

/-- The lock manager from the empty table; the reply comes with the return code. -/
def lockMachine : Machine LockTable Ask (Int × PageLockReply) where
  init := []
  step t a := checkLockRequest t a.asker a.request

/-- A request and its answer. -/
abbrev Event := Ask × (Int × PageLockReply)

/-- The event's reply type. -/
def Event.replyType (e : Event) : PageReplyType := e.2.2.replyType

end Lock
