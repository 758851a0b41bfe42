import Mtc.Lib.Heap
import Mtc.Net.EventMessageHandle
import Mtc.Net.Shutdown

/-!
# Initialising and freeing a message handle

`init_handle` and `free_handle` of `event_mess_handle.cc` with the memory they work on: the groups
of `mess_group_map` are pointers to `GroupInfor` objects (`PtrHandle`), whose destructor frees the
`LibeventHandle` in them. A configuration is what `read_config` finds in the two files; reading and
parsing them is not modelled.

`lifecycle` is any sequence of the two calls on one handle, with connections that its groups make
and accept, and `LikeNew` what its user expects: an initialised handle answers as its last
configuration says.
-/

namespace Net

/-! ## Configurations -/

/-- An entry of the host configuration. -/
structure HostItem where
  name : Bytes
  ip : Bytes
  isLocal : Bool
  deriving Repr, DecidableEq

/-- An entry of the message configuration. -/
structure GroupItem where
  groupName : Bytes
  hosts : List (Bytes × Int32)
  messType : List Bytes
  deriving Repr, DecidableEq

/-- The two configurations that `init_handle` is given. -/
structure Config where
  hosts : List HostItem := []
  groups : List GroupItem := []
  deriving Repr, DecidableEq

namespace Config

/-- The ip of a host; of several entries with one name the last counts. -/
def ip (c : Config) (hostName : Bytes) : Option Bytes :=
  (c.hosts.reverse.find? fun host => host.name = hostName).map (·.ip)

/-- A group; of several with one name the last counts. -/
def group (c : Config) (groupName : Bytes) : Option GroupItem :=
  c.groups.reverse.find? fun item => item.groupName = groupName

/-- The port of a host in a group; 0 if it has none. -/
def port (c : Config) (hostName groupName : Bytes) : Int32 :=
  ((c.group groupName).bind fun item =>
    (item.hosts.reverse.find? fun host => host.1 = hostName).map (·.2)).getD 0

/-- What is wrong with a group and a message type; `none` if nothing is. -/
def check (c : Config) (groupName messType : Bytes) : Option EventMessageErrorNo :=
  match c.group groupName with
  | none => some .groupNotFound
  | some item => if messType ∈ item.messType then none else some .messTypeNotFound

end Config

/-! ## The handle -/

/-- The `GroupInfor` that `init_group_infor_map` fills in; to read the local port enters it. -/
def GroupItem.groupInfor (item : GroupItem) (localHostName : Bytes) : GroupInfor where
  hostPortMap := (item.hosts.foldl (fun m host => AssocMap.assign m host.1 host.2) ∅).access
    localHostName 0
  messCallbackMap := item.messType.foldl (fun m messType => m.assign messType {}) ∅

/-- Whether the destructor of a group returns. That of its `LibeventHandle` calls `free_handle`,
with `junk` for what is read past the end of the table and `fuel` rounds of its loop. -/
def GroupInfor.destructorReturns (junk : Nat → Int32) (fuel : Nat) (group : GroupInfor) : Bool :=
  match Handle.freeHandle junk fuel { lib := group.handle } with
  | .ok (some _) => true
  | _ => false

/-- `EventMessageHandle` with pointers to its groups, as its constructor leaves it. -/
structure PtrHandle where
  thisFree : Bool := true
  localHostName : Bytes := []
  hostConfigMap : AssocMap Bytes Bytes := ∅
  messGroupMap : AssocMap Bytes Nat := ∅
  heap : Heap GroupInfor := {}

namespace PtrHandle

/-- One host of `read_config`. -/
def readHost (h : PtrHandle) (host : HostItem) : PtrHandle :=
  { h with
    localHostName := if host.isLocal then host.name else h.localHostName
    hostConfigMap := h.hostConfigMap.assign host.name host.ip }

/-- One group of `init_group_infor_map`. -/
def initGroup (h : PtrHandle) (item : GroupItem) : PtrHandle :=
  { h with
    messGroupMap := h.messGroupMap.assign item.groupName h.heap.next
    heap := h.heap.alloc (item.groupInfor h.localHostName) }

/-- `read_config`. -/
def readConfig (h : PtrHandle) (c : Config) : PtrHandle :=
  c.groups.foldl initGroup (c.hosts.foldl readHost h)

/-- `init_handle`. It has no `return` where it succeeds; `true` stands for that. -/
def initHandle (h : PtrHandle) (c : Config) : Bool × PtrHandle :=
  if h.thisFree then (true, { h with thisFree := false }.readConfig c) else (false, h)

/-- `free_handle`: the groups are deleted, the maps stay. `none` is a second `delete` of an object,
or a destructor that does not return; `junk` is by the address of the group. The function has no
`return` where it succeeds. -/
def freeHandle (junk : Nat → Nat → Int32) (fuel : Nat) (h : PtrHandle) :
    Option (Bool × PtrHandle) :=
  if h.thisFree then some (false, h)
  else
    let returns := fun p (group : GroupInfor) => group.destructorReturns (junk p) fuel
    (Heap.deleteAll returns (h.messGroupMap.entries.map Prod.snd) h.heap).map fun heap =>
      (true, { h with thisFree := true, heap := heap })

/-- A function of the `LibeventHandle` of a group is called. A group that does not exist has none,
and no event loop. -/
def onGroup (h : PtrHandle) (groupName : Bytes)
    (f : LibeventHandle → Except Fault LibeventHandle) : Option PtrHandle :=
  match h.messGroupMap.findKey groupName with
  | none => some h
  | some p =>
    match h.heap.get p with
    | none => some h
    | some group =>
      match f group.handle with
      | .ok lib => some { h with heap := h.heap.set p { group with handle := lib } }
      | .error _ => none

/-- `get_ip`. -/
def getIp (h : PtrHandle) (hostName : Bytes) : Option Bytes := h.hostConfigMap.findKey hostName

/-- `get_port`; `none` where the group looked at has been deleted. -/
def getPort (h : PtrHandle) (hostName groupName : Bytes) : Option (Int32 × PtrHandle) :=
  match h.messGroupMap.findKey groupName with
  | none => some (0, h)
  | some p => (h.heap.get p).map fun group =>
    ((group.hostPortMap.findKey hostName).getD 0, { h with
      heap := h.heap.set p { group with hostPortMap := group.hostPortMap.access hostName 0 } })

/-- `check_mess_type`: the error it sets; `none` where the group looked at has been deleted. -/
def checkMessType (h : PtrHandle) (groupName messType : Bytes) :
    Option (Option EventMessageErrorNo) :=
  match h.messGroupMap.findKey groupName with
  | none => some (some .groupNotFound)
  | some p => (h.heap.get p).map fun group =>
    if (group.messCallbackMap.findKey messType).isSome then none else some .messTypeNotFound

/-- The handle without its pointers; a group that does not exist is empty. -/
def view (h : PtrHandle) : EventMessageHandle where
  localHostName := h.localHostName
  hostConfigMap := h.hostConfigMap
  messGroupMap := h.messGroupMap.mapVal fun p => (h.heap.get p).getD {}

end PtrHandle

/-! ## Sequences of calls -/

/-- A handle; `config` is the configuration of the last `init_handle` that succeeded. -/
structure Life where
  handle : PtrHandle := {}
  config : Config := {}

inductive LifeOp where
  | init (c : Config)
  | free
  /-- A connection of a group is looked up, and made if it is missing. -/
  | connect (groupName ip : Bytes) (port : Int32) (connects : Bool)
  /-- A peer connects to a group. -/
  | accept (groupName ip : Bytes) (sinPort : UInt16)
  deriving Repr, DecidableEq

section
variable (junk : Nat → Nat → Int32) (fuel : Nat)

def Life.next (s : Life) : LifeOp → Option Life
  | .init c => match s.handle.initHandle c with
    | (true, h) => some { handle := h, config := c }
    | (false, h) => some { s with handle := h }
  | .free => (s.handle.freeHandle junk fuel).map fun x => { s with handle := x.2 }
  | .connect groupName ip port connects =>
    (s.handle.onGroup groupName fun lib =>
      (lib.getConnectionId ip port true connects).map Prod.snd).map fun h => { s with handle := h }
  | .accept groupName ip sinPort =>
    (s.handle.onGroup groupName fun lib => lib.connlistenerCb ip sinPort).map fun h =>
      { s with handle := h }

/-- `init_handle` and `free_handle` are called on a new handle. A call that deletes an object twice,
or does not return, has no next state. -/
def lifecycle : System Life LifeOp where
  init := {}
  next := Life.next junk fuel

end

/-- The handle answers as a configuration says, and looks at no object that has been deleted. -/
structure AsConfigured (h : PtrHandle) (c : Config) : Prop where
  ip : ∀ hostName, h.getIp hostName = c.ip hostName
  port : ∀ hostName groupName,
    (h.getPort hostName groupName).map Prod.fst = some (c.port hostName groupName)
  check : ∀ groupName messType,
    h.checkMessType groupName messType = some (c.check groupName messType)

/-- While it is initialised, the handle answers as the last configuration says. -/
def LikeNew (s : Life) : Prop := s.handle.thisFree = false → AsConfigured s.handle s.config

/-- A configuration given to a free handle has all names that the maps have from earlier ones, and
when an initialised handle is freed, every group has a connection. -/
def KeepsNew (s : Life) : LifeOp → Prop
  | .init c => s.handle.thisFree = true →
    (∀ e ∈ s.handle.hostConfigMap.entries, e.1 ∈ c.hosts.map (·.name)) ∧
      ∀ e ∈ s.handle.messGroupMap.entries, e.1 ∈ c.groups.map (·.groupName)
  | .free => s.handle.thisFree = false → ∀ e ∈ s.handle.messGroupMap.entries,
    ∀ group ∈ s.handle.heap.get e.2, group.handle.bevMap.entries.isEmpty = false
  | .connect _ _ _ _ | .accept _ _ _ => True

instance (s : Life) : ∀ op, Decidable (KeepsNew s op)
  | .init _ => inferInstanceAs (Decidable (_ → _))
  | .free => inferInstanceAs (Decidable (_ → _))
  | .connect _ _ _ _ | .accept _ _ _ => isTrue trivial

end Net
