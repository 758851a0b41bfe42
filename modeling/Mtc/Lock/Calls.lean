import Mtc.Lib.Linear
import Mtc.Lock.Cluster
import Mtc.Lock.Spec

/-!
# What the callers of `request_page_lock` see

The history of a run of the cluster: when a call has sent its request, and when it returns with a
reply (`lockCalls`). Two things the callers rely on are stated over it, without the server, the
network or the queues:

* `lockObject`: the lock manager as one object that answers a call at a time.
* `holding`: the locks the callers may count on, each from the return of its call to the beginning
  of the call that gives it up.
-/

namespace Lock

open Net

/-- The beginnings and returns of calls of `request_page_lock`, each with the host it is made at. -/
abbrev LockEvent := CallEvent (Bytes × PageLockRequest) PageLockReply

/-- The call that an action belongs to. -/
def ClusterAction.call : ClusterAction → Option Nat
  | .request call _ _ _ => some call
  | .wait call => some call
  | .handle _ _ => none
  | .deliver _ => none

/-- What the callers see of a step: a call that could not send its request is not seen. -/
def Cluster.events (s : Cluster) (a : ClusterAction) (s' : Cluster) : List LockEvent :=
  a.call.elim [] fun n => Service.callEvents n (s.calls.findKey n) (s'.calls.findKey n)

/-- The cluster with the history of the calls. -/
def lockCalls (lockServerHost : Bytes) (server : EventMessageHandle)
    (clients : AssocMap Bytes EventMessageHandle) :
    System (Cluster × List LockEvent) ClusterAction :=
  (lockCluster lockServerHost server clients).withHistory Cluster.events

/-- `check_lock_request` as an object that is called by one client at a time. -/
def lockObject : Machine LockTable (Bytes × PageLockRequest) PageLockReply where
  init := []
  step t a := ((checkLockRequest t a.1 a.2).1, (checkLockRequest t a.1 a.2).2.2)

/-! ## Locks the callers count on -/

/-- A call for a lock that returns `LOCK_SUCCESS` begins a hold; a call for `UNLOCK` of the page
ends it as soon as it begins. -/
def holdingStep (h : List Hold) : LockEvent → List Hold
  | .begins _ (host, request) =>
    if request.lockType = .unlock then
      h.filter fun x => ¬ (x.client = host ∧ x.page = request.page)
    else h
  | .returns _ (host, request) reply =>
    if request.lockType ≠ .unlock ∧ reply.replyType = .lockSuccess then
      ⟨host, request.page, request.lockType⟩ :: h
    else h

/-- The callers, who know the history only. -/
def callers : Machine (List Hold) LockEvent Unit where
  init := []
  step h e := (holdingStep h e, ())

/-- The holds after a history. -/
def holding (hist : List LockEvent) : List Hold := callers.exec hist

/-- A call is for a write lock, or gives up what its host holds. -/
def WriteUse (h : List Hold) : LockEvent → Prop
  | .begins _ (host, request) => request.lockType = .wLock ∨ request.lockType = .unlock ∧
      ∃ x ∈ h, x.client = host ∧ x.page = request.page
  | .returns _ _ _ => True

instance (h : List Hold) : ∀ e, Decidable (WriteUse h e)
  | .begins _ (_, _) => inferInstanceAs (Decidable (_ ∨ _))
  | .returns _ _ _ => isTrue trivial

/-- The callers ask for write locks only, and give up only what they hold. -/
def WritesHeld (hist : List LockEvent) : Prop := callers.Guarded (fun _ => WriteUse) hist

instance (hist : List LockEvent) : Decidable (WritesHeld hist) :=
  inferInstanceAs (Decidable (callers.Guarded _ _))

/-- A caller that holds a page has the record for itself: the server knows it as the only holder,
in write mode, and nobody holds another page with this record. -/
def HeldAlone (t : LockTable) (h : List Hold) : Prop :=
  ∀ x ∈ h, x.mode = .wLock ∧
    (∃ r, hashFindInt t x.fold = some r ∧ r.lockType = .wLock ∧ r.lockHolder = [x.client]) ∧
    ∀ y ∈ h, y.fold = x.fold → y = x

end Lock
