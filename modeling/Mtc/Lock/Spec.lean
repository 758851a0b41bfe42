import Mtc.Lock.Manager

/-!
# What the lock manager is for

The manager's purpose in the clients' own terms, over the requests and the answers they got (a
trace of `lockMachine`), without its table:

* `held`: which client holds which page in which mode; `Exclusive` is mutual exclusion.
* `answered`: the clients that were granted the record of a fold and have not released it.
* `tryLock`: the exclusive try-lock that write-only clients expect, one optional owner a fold.

and over the run, with the table, the two histories the code's own lists and counters stand for:

* `pending`: the clients that wait for a record, in order of their first refusal.
* `writeGrants`: how often a write lock on a record was granted.
-/

namespace Lock

/-! ## Holds -/

/-- A client holds a page in a mode. -/
structure Hold where
  client : Bytes
  page : UInt32 × UInt32
  mode : PageLockType
  deriving DecidableEq, Repr

/-- The fold of the held page. -/
def Hold.fold (x : Hold) : UInt64 := calFold x.page.1 x.page.2

/-- A lock request that is answered `LOCK_SUCCESS` begins a hold; the client's own `UNLOCK` of the
page ends it. -/
def heldStep (h : List Hold) (e : Event) : List Hold :=
  if e.1.request.lockType = .unlock then
    h.filter fun x => ¬ (x.client = e.1.asker ∧ x.page = e.1.page)
  else if e.replyType = .lockSuccess then ⟨e.1.asker, e.1.page, e.1.request.lockType⟩ :: h
  else h

/-- The holds after a trace. -/
def held (tr : List Event) : List Hold := tr.foldl heldStep []

/-- No two clients hold one page, one of them in write mode. -/
def Exclusive (h : List Hold) : Prop :=
  ∀ x ∈ h, ∀ y ∈ h, x.client ≠ y.client → x.page = y.page → x.mode ≠ .wLock

instance (h : List Hold) : Decidable (Exclusive h) :=
  inferInstanceAs (Decidable (∀ x ∈ h, ∀ y ∈ h, _))

/-- A client sends `UNLOCK` for a page only while it holds the page. -/
def UnlocksHeld (tr : List Event) (a : Ask) : Prop :=
  a.request.lockType = .unlock → ∃ x ∈ held tr, x.client = a.asker ∧ x.page = a.page

instance (tr : List Event) (a : Ask) : Decidable (UnlocksHeld tr a) :=
  inferInstanceAs (Decidable (_ → _))

/-- An `UNLOCK` finds no hold on its record but the one it ends. -/
def UnlocksAlone (tr : List Event) (a : Ask) : Prop :=
  a.request.lockType = .unlock →
    ∀ x ∈ held tr, x.fold = a.fold → x.client = a.asker ∧ x.page = a.page

instance (tr : List Event) (a : Ask) : Decidable (UnlocksAlone tr a) :=
  inferInstanceAs (Decidable (_ → _))

/-! ## Grants of a record -/

/-- `LOCK_SUCCESS` on the record makes the asker a holder, its `UNLOCK` ends that. -/
def answeredStep (f : UInt64) (l : List Bytes) (e : Event) : List Bytes :=
  if e.1.fold = f then
    if e.1.request.lockType = .unlock then l.filter (· ≠ e.1.asker)
    else if e.replyType = .lockSuccess then e.1.asker :: l
    else l
  else l

/-- The clients answered `LOCK_SUCCESS` on the record of fold `f` that have not sent `UNLOCK` on
it since. -/
def answered (f : UInt64) (tr : List Event) : List Bytes := tr.foldl (answeredStep f) []

/-- A client sends `UNLOCK` only on a record it has been granted since its last `UNLOCK` there. -/
def UnlocksAnswered (tr : List Event) (a : Ask) : Prop :=
  a.request.lockType = .unlock → a.asker ∈ answered a.fold tr

instance (tr : List Event) (a : Ask) : Decidable (UnlocksAnswered tr a) :=
  inferInstanceAs (Decidable (_ → _))

/-! ## The try-lock of write-only clients -/

/-- An exclusive try-lock per fold: `W_LOCK` takes a free lock and fails on one that has an owner,
`UNLOCK` frees it. -/
def tryLock : Machine (UInt64 → Option Bytes) Ask PageLockReply where
  init _ := none
  step owner a :=
    if a.request.lockType = .unlock then
      (fun f => if f = a.fold then none else owner f, a.request.reply .unlockSuccess)
    else if (owner a.fold).isNone then
      (fun f => if f = a.fold then some a.asker else owner f, a.request.reply .lockSuccess)
    else (owner, a.request.reply .lockFail)

/-- Clients send only `W_LOCK`, and `UNLOCK` as the record's owner. -/
def OwnerUse (owner : UInt64 → Option Bytes) (a : Ask) : Prop :=
  a.request.lockType = .wLock ∨ a.request.lockType = .unlock ∧ owner a.fold = some a.asker

instance (owner : UInt64 → Option Bytes) (a : Ask) : Decidable (OwnerUse owner a) :=
  inferInstanceAs (Decidable (_ ∨ _))

/-! ## Releases by others -/

/-- An `UNLOCK` of a client that is no holder of its page: no record of the page names it in
`lock_holder`. -/
def ForeignUnlock (t : LockTable) (a : Ask) : Prop :=
  a.request.lockType = .unlock ∧
    ∀ r ∈ t, (r.spaceId, r.pageNo) = a.page → a.asker ∉ r.lockHolder

instance (t : LockTable) (a : Ask) : Decidable (ForeignUnlock t a) :=
  inferInstanceAs (Decidable (_ ∧ _))

/-- The request takes no lock away and gives none. -/
structure ChangesNothing (t : LockTable) (a : Ask) : Prop where
  /-- No name is added to a `lock_holder`. -/
  holders : ∀ r' ∈ (lockMachine.step t a).1, ∀ c ∈ r'.lockHolder,
    ∃ r ∈ t, r.mFold = r'.mFold ∧ c ∈ r.lockHolder
  /-- Every record stays as it was. -/
  records : ∀ r ∈ t, r ∈ (lockMachine.step t a).1
  /-- Later requests are answered as they would have been. -/
  later : ∀ as, lockMachine.traceFrom (lockMachine.step t a).1 as = lockMachine.traceFrom t as

/-! ## Isolation -/

/-- The return codes and reply types given to the requests for page `p` are those of the run in
which nothing else is requested. -/
def Isolated (p : UInt32 × UInt32) (as : List Ask) : Prop :=
  ((lockMachine.trace as).filter fun e => e.1.page = p).map (fun e => (e.2.1, e.2.2.replyType)) =
    (lockMachine.trace (as.filter fun a => a.page = p)).map fun e => (e.2.1, e.2.2.replyType)

/-! ## Write grants -/

/-- The request is an `UNLOCK` that leaves the record without a holder while a writer is its first
waiter: the lock is handed to the writer. -/
def handsOffWrite (t : LockTable) (a : Ask) : Bool :=
  match hashFindInt t a.fold with
  | none => false
  | some r => a.request.lockType = .unlock ∧ r.lockHolder.filter (· ≠ a.asker) = [] ∧
      r.waitList.head?.map (·.type) = some .wLock

/-- The request makes a write grant on the record of fold `f`, by whichever path. -/
def grantsWrite (f : UInt64) (t : LockTable) (a : Ask) : Bool :=
  a.fold = f ∧ (a.request.lockType = .wLock ∧
    (lockMachine.step t a).2.2.replyType = .lockSuccess ∨ handsOffWrite t a)

/-- The number of write grants on the record of fold `f`. -/
def writeGrants (f : UInt64) (as : List Ask) : Nat :=
  lockMachine.ghost (fun n t a => if grantsWrite f t a then n + 1 else n) 0 as

/-! ## Waiters -/

/-- How often a client is listed as a holder of the record of fold `f`. -/
def holderCount (t : LockTable) (f : UInt64) (c : Bytes) : Nat :=
  ((hashFindInt t f).map fun r => r.lockHolder.count c).getD 0

/-- A refusal queues the client, or raises the mode it is queued with. -/
def addRefusal (p : List WaitInfor) (c : Bytes) (m : PageLockType) : List WaitInfor :=
  if p.any (·.name = c) then
    p.map fun w => if w.name = c ∧ w.type.val < m.val then { w with type := m } else w
  else p ++ [⟨c, m⟩]

/-- A client waits from its first `LOCK_FAIL` on the record until it becomes a holder or sends
`UNLOCK`. -/
def pendingStep (f : UInt64) (p : List WaitInfor) (t : LockTable) (a : Ask) : List WaitInfor :=
  if a.fold = f then
    let after := lockMachine.step t a
    let p := if after.2.2.replyType = .lockFail then addRefusal p a.asker a.request.lockType else p
    p.filter fun w => ¬ (a.request.lockType = .unlock ∧ w.name = a.asker) ∧
      holderCount after.1 f w.name ≤ holderCount t f w.name
  else p

/-- The clients that wait for the record of fold `f`, each with the strongest mode it was refused,
in order of their first refusal. -/
def pending (f : UInt64) (as : List Ask) : List WaitInfor :=
  lockMachine.ghost (pendingStep f) [] as

/-- Each pending client is in the wait list exactly once, with its mode, and in order. -/
def Queued (p w : List WaitInfor) : Prop :=
  (∀ x ∈ p, w.filter (fun y => y.name = x.name) = [x]) ∧ p.Sublist w

/-- An `UNLOCK` that leaves no holder makes the earliest waiter the only holder, with its mode;
the others keep their order. -/
def HandsOff (t : LockTable) (a : Ask) : Prop :=
  a.request.lockType = .unlock → ∀ r, hashFindInt t a.fold = some r →
    r.lockHolder.filter (· ≠ a.asker) = [] → ∀ w ws, r.waitList = w :: ws →
    ∃ r', hashFindInt (lockMachine.step t a).1 a.fold = some r' ∧ r'.lockHolder = [w.name] ∧
      r'.lockType = w.type ∧ r'.waitList = ws

/-- No waiter is lost in the run: after every step the wait lists hold the pending clients, and
every step hands the lock off. -/
def NoLostWaiter (as : List Ask) : Prop :=
  (∀ pre, pre <+: as → ∀ r ∈ lockMachine.exec pre, Queued (pending r.mFold pre) r.waitList) ∧
    lockMachine.Guarded (fun _ => HandsOff) as

/-- The request finds a record that is locked in a mode it is not compatible with. -/
def Refuses (t : LockTable) (a : Ask) : Prop :=
  a.request.lockType ≠ .unlock ∧ ∃ r, hashFindInt t a.fold = some r ∧ r.lockType ≠ .unlock ∧
    ¬ (a.request.lockType = .rLock ∧ r.lockType = .rLock)

end Lock
