import Mtc.Net.Listen

/-!
# Shutdown: `free_handle`

`free_handle` of `libevent_handle.cc`, from the lock of the map on, with the ids of the connections
whose bufferevent it frees. Its loop runs while the map is empty, and then takes the first key from
`bev_map.begin()`, which is past the end: the values it reads there are the argument `junk`.
-/

namespace Net

/-- A handle. `freed` are the ids of the connections that `bufferevent_free` was called for; it is
history. -/
structure Handle where
  lib : LibeventHandle := {}
  isFree : Bool := false
  freed : List Int32 := []

namespace Handle

/-- `bev_map.begin()->first`. -/
def firstId (h : Handle) (junk : Int32) : Int32 :=
  match h.lib.bevMap.entries with
  | [] => junk
  | e :: _ => e.1

/-- `remove_buffevent`; a connection that is found is freed. -/
def removeBuffevent (h : Handle) (id : Int32) : Except Fault Handle := do
  let (_, lib) ← h.lib.removeBuffevent id
  return { h with
    lib := lib
    freed := if (h.lib.bevMap.findKey id).isSome then h.freed ++ [id] else h.freed }

/-- The loop of `free_handle`; `none` when it needs more than `fuel` rounds. -/
def freeLoop (junk : Nat → Int32) : Nat → Handle → Except Fault (Option Handle)
  | 0, _ => return none
  | fuel + 1, h => do
    if h.lib.bevMap.entries.isEmpty then
      let h ← h.removeBuffevent (h.firstId (junk 0))
      freeLoop (fun n => junk (n + 1)) fuel h
    else
      return some h

/-- `free_handle`. -/
def freeHandle (junk : Nat → Int32) (fuel : Nat) (h : Handle) :
    Except Fault (Option (Bool × Handle)) := do
  if h.isFree then
    return some (false, h)
  let h := { h with isFree := true }
  let singal ← orFault .spins (rwWLock h.lib.bevMapRwLockSingal)
  let h := { h with lib := { h.lib with bevMapRwLockSingal := singal } }
  match ← freeLoop junk fuel h with
  | none => return none
  | some h =>
    let lib := { h.lib with
      bevMap := ∅
      listenIdVector := []
      bevMapRwLockSingal := rwWUnlock h.lib.bevMapRwLockSingal }
    return some (h.isFree, { h with lib := lib })

/-- `free_handle` returns, has freed every connection of the table once and nothing else, and leaves
an empty table with its locks free. -/
def ReleasesAll (junk : Nat → Int32) (lib : LibeventHandle) : Prop :=
  ∃ fuel b h, freeHandle junk fuel { lib := lib } = .ok (some (b, h)) ∧
    h.freed.Perm (lib.bevMap.entries.map Prod.fst) ∧ h.lib.bevMap.entries = [] ∧
    h.lib.listenIdVector = [] ∧ h.lib.bevMapRwLockSingal = 0 ∧ h.lib.listenVectorRwLockSingal = 0

end Handle

end Net
