import Mtc.Lib.Removal
import Mtc.Net.Listen
import Mtc.Net.Proof.Connections

/-!
# Unknown ids, and the listen list

`unknown_id_iff`: which calls with an unknown id leave the table as it is. `send` returns with the
lock of the map held, and `get_connection_ip` and `get_connection_port` enter a record.

`listen_list_iff`: along which runs the listen list matches the table. `remove_buffevent` erases at
the position `id`, so that it removes the right entry only if the id is its own position
(`not_listen_list`).
-/

namespace Net

open Except (ok_bind)

/-! ## Unknown ids -/

namespace LibeventHandle

variable {lib lib' : LibeventHandle} {id : Int32}

theorem SameTable.refl (lib : LibeventHandle) : lib.SameTable lib := ⟨rfl, rfl, rfl, rfl⟩

theorem send_unknown (hl : lib.AtRest) (hid : lib.bevMap.findKey id = none) (hneg : ¬ id < 0)
    (sendBytes : Bytes) (sendSize : Int32) :
    lib.send id sendBytes sendSize = .ok (false, { lib with bevMapRwLockSingal := 1 }) := by
  simp only [send, if_neg hneg, rLockMap_eq hl.singal, ok_bind, hid]
  rfl

theorem startWait_unknown (hl : lib.AtRest) (hid : lib.bevMap.findKey id = none)
    (buffer : WaitBuffer) : lib.startWait id buffer = .ok (some lib) := by
  simp only [startWait, Line.startWait, rLockMap_eq hl.singal, ok_bind, hid,
    rUnlockMap_eq hl.singal]
  rfl

theorem reciveStrNoWait_unknown (hl : lib.AtRest) (hid : lib.bevMap.findKey id = none)
    (bufferStr : Bytes) : lib.reciveStrNoWait id bufferStr = .ok (-1, bufferStr, lib) := by
  simp only [reciveStrNoWait, rLockMap_eq hl.singal, ok_bind, hid, rUnlockMap_eq hl.singal]
  rfl

theorem getReciveBufferLength_unknown (hl : lib.AtRest) (hid : lib.bevMap.findKey id = none) :
    lib.getReciveBufferLength id = .ok (0, lib) := by
  simp only [getReciveBufferLength, rLockMap_eq hl.singal, ok_bind, hid, rUnlockMap_eq hl.singal]
  rfl

/-- What both lookups with `operator[]` leave behind. -/
def entered (lib : LibeventHandle) (id : Int32) : LibeventHandle :=
  { lib with bevMap := lib.bevMap.assign id emptyRecord }

theorem access_unknown (hl : lib.AtRest) (hid : lib.bevMap.findKey id = none) :
    ({ lib with
      bevMapRwLockSingal := 1
      bevMap := lib.bevMap.access id emptyRecord } : LibeventHandle).rUnlockMap =
      lib.entered id := by
  rw [rUnlockMap, rwRUnlock_one, entered, ← hl.singal, AssocMap.access, hid]

theorem getConnectionIp_unknown (hl : lib.AtRest) (hid : lib.bevMap.findKey id = none) :
    lib.getConnectionIp id = .ok ([0], lib.entered id) := by
  simp only [getConnectionIp, rLockMap_eq hl.singal, ok_bind, hid, access_unknown hl hid]
  rfl

theorem getConnectionPort_unknown (hl : lib.AtRest) (hid : lib.bevMap.findKey id = none) :
    lib.getConnectionPort id = .ok (0, lib.entered id) := by
  simp only [getConnectionPort, rLockMap_eq hl.singal, ok_bind, hid, access_unknown hl hid]
  rfl

theorem not_sameTable_entered (hid : lib.bevMap.findKey id = none) :
    ¬ lib.SameTable (lib.entered id) := by
  intro h
  have hkey := congrArg (·.findKey id) h.bevMap
  simp only [entered, AssocMap.findKey_assign, if_true, hid] at hkey
  cases hkey

/-- `remove_buffevent` on a table at rest. -/
theorem removeBuffevent_eq (hl : lib.AtRest) (id : Int32) : lib.removeBuffevent id =
    match lib.bevMap.findKey id with
    | none => .ok (-1, lib)
    | some info =>
      if info.isListen then
        if id < 0 ∨ lib.listenIdVector.length ≤ id.sizeT then .error .badIterator
        else .ok (id, { lib with
          bevMap := lib.bevMap.erase id
          listenIdVector := lib.listenIdVector.eraseIdx id.sizeT })
      else .ok (id, { lib with bevMap := lib.bevMap.erase id }) := by
  have hw : rwWUnlock (-1) = 0 := by decide
  obtain ⟨hs, hls⟩ := hl
  obtain ⟨maxBevId, singal, bevMap, listenSingal, listenIdVector⟩ := lib
  subst hs hls
  simp only [removeBuffevent, rwWLock_zero, ok_bind, hw]
  cases bevMap.findKey id with
  | none => rfl
  | some info =>
    dsimp only
    split_ifs with hlisten hpos
    · simp only [eraseListenId, rwWLock_zero, ok_bind, if_pos hpos]
      rfl
    · simp only [eraseListenId, rwWLock_zero, ok_bind, if_neg hpos, hw]
      rfl
    · rfl

theorem getListenConnectionCount_eq (hl : lib.AtRest) :
    lib.getListenConnectionCount = .ok (Int32.ofSizeT lib.listenIdVector.length, lib) := by
  simp only [getListenConnectionCount, hl.listenSingal, rwRLock_zero, ok_bind, rwRUnlock_one]
  rw [← hl.listenSingal]
  rfl

theorem getListenConnectionArray_eq (hl : lib.AtRest) :
    lib.getListenConnectionArray = .ok (lib.listenIdVector, lib) := by
  simp only [getListenConnectionArray, hl.listenSingal, rwRLock_zero, ok_bind, rwRUnlock_one]
  rw [← hl.listenSingal]
  rfl

end LibeventHandle

/-- **Unknown ids.** On a table at rest a call with an unknown id returns with the connections, the
listen list and the locks as they were exactly if it is `Clean`, and then nothing at all has
changed. -/
theorem unknown_id_iff {lib : LibeventHandle} {id : Int32} (hl : lib.AtRest)
    (hid : lib.bevMap.findKey id = none) (op : IdOp) :
    ((∃ lib', op.call lib id = .ok (some lib') ∧ lib.SameTable lib') ↔ op.Clean id) ∧
      (op.Clean id → op.call lib id = .ok (some lib)) := by
  -- a call that gives the table back is clean
  have hsame : op.call lib id = .ok (some lib) → op.Clean id →
      ((∃ lib', op.call lib id = .ok (some lib') ∧ lib.SameTable lib') ↔ op.Clean id) ∧
        (op.Clean id → op.call lib id = .ok (some lib)) :=
    fun hcall hc => ⟨iff_of_true ⟨lib, hcall, .refl lib⟩ hc, fun _ => hcall⟩
  -- and one that leaves another is not
  have hother : ∀ {lib₁}, op.call lib id = .ok (some lib₁) → ¬ lib.SameTable lib₁ →
      ¬ op.Clean id → ((∃ lib', op.call lib id = .ok (some lib') ∧ lib.SameTable lib') ↔
        op.Clean id) ∧ (op.Clean id → op.call lib id = .ok (some lib)) := by
    intro lib₁ hcall hne hc
    refine ⟨iff_of_false ?_ hc, fun h => absurd h hc⟩
    rintro ⟨lib', hcall', hst⟩
    cases hcall.symm.trans hcall'
    exact hne hst
  cases op with
  | send sendBytes sendSize =>
    by_cases hneg : id < 0
    · refine hsame ?_ hneg
      simp only [IdOp.call, LibeventHandle.send, if_pos hneg]
      rfl
    · have hcall : (IdOp.send sendBytes sendSize).call lib id =
          .ok (some { lib with bevMapRwLockSingal := 1 }) := by
        simp only [IdOp.call, LibeventHandle.send_unknown hl hid hneg]
        rfl
      refine hother hcall (fun h => ?_) hneg
      have hone : (1 : Int32) = 0 := h.bevMapRwLockSingal.trans hl.singal
      exact absurd hone (by decide)
  | waitRecive reciveBytes => exact hsame (LibeventHandle.startWait_unknown hl hid _) trivial
  | reciveStrWait bufferStr => exact hsame (LibeventHandle.startWait_unknown hl hid _) trivial
  | reciveStrNoWait bufferStr =>
    refine hsame ?_ trivial
    simp only [IdOp.call, LibeventHandle.reciveStrNoWait_unknown hl hid]
    rfl
  | getReciveBufferLength =>
    refine hsame ?_ trivial
    simp only [IdOp.call, LibeventHandle.getReciveBufferLength_unknown hl hid]
    rfl
  | getConnectionIp =>
    refine hother ?_ (LibeventHandle.not_sameTable_entered hid) not_false
    simp only [IdOp.call, LibeventHandle.getConnectionIp_unknown hl hid]
    rfl
  | getConnectionPort =>
    refine hother ?_ (LibeventHandle.not_sameTable_entered hid) not_false
    simp only [IdOp.call, LibeventHandle.getConnectionPort_unknown hl hid]
    rfl
  | removeBuffevent =>
    refine hsame ?_ trivial
    simp only [IdOp.call, LibeventHandle.removeBuffevent_eq hl, hid]
    rfl

/-- On a table with one connection, calls with the id 7 and with the id -1. -/
theorem unknown_id_seven :
    let lib : LibeventHandle := {
      maxBevId := 1
      bevMap := ⟨[(0, { ip := [49], port := 1, isListen := true })], by decide⟩
      listenIdVector := [0] }
    (∀ op : IdOp, (∃ lib', op.call lib 7 = .ok (some lib') ∧ lib.SameTable lib') ↔ op.Clean 7) ∧
      (IdOp.send [1] 1).call lib (-1) = .ok (some lib) :=
  ⟨fun op => (unknown_id_iff ⟨rfl, rfl⟩ rfl op).1,
    (unknown_id_iff ⟨rfl, rfl⟩ rfl (.send [1] 1)).2 (show (-1 : Int32) < 0 by decide)⟩

/-- `send` to the unknown id 0 keeps the lock, and `get_connection_port` enters a record. -/
theorem not_unknown_id :
    (((IdOp.send [1] 1).call {} 0).toOption.bind id).map (·.bevMapRwLockSingal) = some 1 ∧
      ((IdOp.getConnectionPort.call {} 0).toOption.bind id).map (·.bevMap.entries.length) =
        some 1 ∧
      ((IdOp.getConnectionIp.call {} 0).toOption.bind id).map (·.bevMap.entries.length) =
        some 1 := by
  decide

/-! ## The accepted connections -/

namespace Listening

variable {s s' : Listening}

/-- The connection `id` was accepted. -/
abbrev IsListen (s : Listening) (id : Int32) : Prop :=
  (s.lib.bevMap.findKey id).map BevInfor.isListen = some true

/-- What holds in every run: no lock is held, and `accepted` are the accepted connections. -/
structure Inv (s : Listening) : Prop where
  rest : s.lib.AtRest
  nodup : s.accepted.Nodup
  keys : ∀ id, id ∈ s.accepted ↔ s.IsListen id

/-- A connection is added under the id `max_bev_id`. -/
theorem isListen_added {lib : LibeventHandle} {peer : BevInfor}
    (hmap : lib.bevMap = (s.lib.added peer).bevMap) (accepted : List Int32) (id : Int32) :
    IsListen ⟨lib, accepted⟩ id ↔
      if id = s.lib.maxBevId then peer.isListen = true else s.IsListen id := by
  simp only [IsListen, hmap, LibeventHandle.added, AssocMap.findKey_assign]
  split_ifs
  · simp
  · rfl

theorem isListen_erased {lib : LibeventHandle} {id : Int32}
    (hmap : lib.bevMap = s.lib.bevMap.erase id) (accepted : List Int32) (id' : Int32) :
    IsListen ⟨lib, accepted⟩ id' ↔ s.IsListen id' ∧ id' ≠ id := by
  simp only [IsListen, hmap, AssocMap.findKey_erase]
  split_ifs with h
  · simp [h]
  · simp [h]

theorem next_connect (hi : s.Inv) (ip : Bytes) (port : Int32) :
    s.next (.connect ip port true) = some
      ⟨s.lib.added (.connected ip port),
        s.accepted.filter (· ≠ s.lib.maxBevId)⟩ := by
  simp only [next, LibeventHandle.addBuffereventConnect_eq hi.rest.singal, if_true]

theorem next_listen (hi : s.Inv) (ip : Bytes) (port : Int32) :
    s.next (.listen ip port) = some
      ⟨s.lib.listened (.accepted ip port),
        s.accepted.filter (· ≠ s.lib.maxBevId) ++ [s.lib.maxBevId]⟩ := by
  simp only [next, LibeventHandle.addBuffereventListen_eq hi.rest]

/-- A connection that was not accepted is removed, or there is none. -/
theorem next_remove (hi : s.Inv) {id : Int32} (hid : ¬ s.IsListen id) :
    s.next (.remove id) = some ⟨{ s.lib with bevMap := s.lib.bevMap.erase id }, s.accepted⟩ := by
  have hacc : s.accepted.filter (· ≠ id) = s.accepted :=
    List.filter_ne_eq_self.2 (mt (hi.keys id).1 hid)
  rw [next, LibeventHandle.removeBuffevent_eq hi.rest]
  cases hf : s.lib.bevMap.findKey id with
  | none => simp only [hacc, AssocMap.erase_of_none hf]
  | some info =>
    have hno : ¬ info.isListen = true := by simpa [IsListen, hf] using hid
    simp only [if_neg hno, hacc]

/-- An accepted connection is removed. -/
theorem next_remove_listen (hi : s.Inv) {id : Int32} (hid : s.IsListen id) :
    s.next (.remove id) =
      if id < 0 ∨ s.lib.listenIdVector.length ≤ id.sizeT then none
      else some ⟨{ s.lib with
          bevMap := s.lib.bevMap.erase id
          listenIdVector := s.lib.listenIdVector.eraseIdx id.sizeT },
        s.accepted.filter (· ≠ id)⟩ := by
  rw [next, LibeventHandle.removeBuffevent_eq hi.rest]
  cases hf : s.lib.bevMap.findKey id with
  | none => simp [IsListen, hf] at hid
  | some info =>
    have hyes : info.isListen = true := by simpa [IsListen, hf] using hid
    simp only [if_pos hyes]
    split_ifs
    · rfl
    · rfl

/-- The invariant after the record of `id` has been removed. -/
theorem Inv.erased (hi : s.Inv) {lib : LibeventHandle} {id : Int32} (hrest : lib.AtRest)
    (hmap : lib.bevMap = s.lib.bevMap.erase id) : Inv ⟨lib, s.accepted.filter (· ≠ id)⟩ := by
  refine ⟨hrest, hi.nodup.filter _, fun id' => ?_⟩
  rw [isListen_erased hmap, List.mem_filter_ne, hi.keys]

theorem Inv.connect (hi : s.Inv) {peer : BevInfor} (hp : peer.isListen = false) :
    Inv ⟨s.lib.added peer, s.accepted.filter (· ≠ s.lib.maxBevId)⟩ := by
  refine ⟨⟨hi.rest.singal, hi.rest.listenSingal⟩, hi.nodup.filter _, fun id => ?_⟩
  rw [isListen_added rfl, List.mem_filter_ne, hi.keys]
  split_ifs with hid
  · simp [hid, hp]
  · simp [hid]

theorem Inv.listen (hi : s.Inv) {peer : BevInfor} (hp : peer.isListen = true) :
    Inv ⟨s.lib.listened peer,
      s.accepted.filter (· ≠ s.lib.maxBevId) ++ [s.lib.maxBevId]⟩ := by
  have hmap : (s.lib.listened peer).bevMap = (s.lib.added peer).bevMap := rfl
  refine ⟨⟨hi.rest.singal, hi.rest.listenSingal⟩, ?_, fun id => ?_⟩
  · refine List.nodup_append'.2 ⟨hi.nodup.filter _, List.nodup_singleton _, ?_⟩
    simp
  · rw [isListen_added hmap, List.mem_append, List.mem_filter_ne, hi.keys, List.mem_singleton]
    split_ifs with hid
    · simp [hid, hp]
    · simp [hid]

/-- **One step** keeps the invariant. -/
theorem Inv.next (hi : s.Inv) {op : ListenOp} (h : s.next op = some s') : s'.Inv := by
  cases op with
  | connect ip port connects =>
    cases connects with
    | false =>
      simp only [Listening.next, LibeventHandle.addBuffereventConnect, Bool.not_false,
        if_true] at h
      cases h
      exact hi
    | true =>
      rw [next_connect hi] at h
      cases h
      exact hi.connect rfl
  | listen ip port =>
    rw [next_listen hi] at h
    cases h
    exact hi.listen rfl
  | remove id =>
    have hrest : ∀ {bevMap l}, LibeventHandle.AtRest
        { s.lib with bevMap := bevMap, listenIdVector := l } :=
      ⟨hi.rest.singal, hi.rest.listenSingal⟩
    by_cases hid : s.IsListen id
    · rw [next_remove_listen hi hid] at h
      split_ifs at h
      cases h
      exact hi.erased hrest rfl
    · rw [next_remove hi hid] at h
      cases h
      rw [← List.filter_ne_eq_self.2 (mt (hi.keys id).1 hid)]
      exact hi.erased hrest rfl

/-! ## The listen list -/

/-- Where the invariant holds, the list matches if it is the list of the accepted connections, and
is not too long for an `int`. -/
theorem Inv.listMatches_iff (hi : s.Inv) :
    ListMatches s ↔ s.lib.listenIdVector = s.accepted ∧ s.accepted.length < 2 ^ 31 := by
  have hcount := LibeventHandle.getListenConnectionCount_eq hi.rest
  have harray := LibeventHandle.getListenConnectionArray_eq hi.rest
  constructor
  · rintro ⟨-, -, horder, ⟨n, lib, hn, hlen⟩, -⟩
    rw [hcount] at hn
    cases hn
    refine ⟨horder, ?_⟩
    have := (Int32.ofSizeT s.lib.listenIdVector.length).toInt_lt
    omega
  · rintro ⟨horder, hlt⟩
    rw [horder] at hcount harray
    refine ⟨horder ▸ hi.nodup, fun id => by rw [horder]; exact hi.keys id, horder,
      ⟨_, _, hcount, Int32.toInt_ofSizeT_of_lt hlt⟩, ⟨_, harray⟩⟩

/-- **One step** keeps the list right exactly if it is one of `KeepsList`. -/
theorem step_iff (hi : s.Inv) (hm : ListMatches s) (op : ListenOp) :
    (∃ s', s.next op = some s' ∧ ListMatches s') ↔ KeepsList s op := by
  obtain ⟨hl, hlen⟩ := hi.listMatches_iff.1 hm
  cases op with
  | connect ip port connects =>
    cases connects with
    | false => exact iff_of_true ⟨s, rfl, hm⟩ (by simp [KeepsList])
    | true =>
      simp only [next_connect hi, Option.some.injEq, exists_eq_left', KeepsList, forall_const]
      rw [(hi.connect rfl).listMatches_iff, hl, ← List.filter_ne_eq_self]
      constructor
      · exact fun h => h.1.symm.trans hl
      · exact fun h => ⟨hl.trans h.symm, h.symm ▸ hlen⟩
  | listen ip port =>
    simp only [next_listen hi, Option.some.injEq, exists_eq_left', KeepsList]
    rw [(hi.listen rfl).listMatches_iff, hl, ← List.filter_ne_eq_self]
    constructor
    · rintro ⟨hsame, hlt⟩
      have hfilter : s.accepted = s.accepted.filter (· ≠ s.lib.maxBevId) :=
        List.append_cancel_right ((congrArg (· ++ [s.lib.maxBevId]) hl).symm.trans hsame)
      rw [← hfilter] at hlt
      exact ⟨hfilter.symm, by simpa using hlt⟩
    · rintro ⟨hfilter, hlt⟩
      rw [hfilter]
      exact ⟨congrArg (· ++ [s.lib.maxBevId]) hl, by simpa using hlt⟩
  | remove id =>
    by_cases hid : s.IsListen id
    · simp only [KeepsList, hid, forall_const, next_remove_listen hi hid]
      split_ifs with hpos
      · refine iff_of_false ?_ ?_
        · rintro ⟨s', h, -⟩
          cases h
        · rintro ⟨hneg, hat⟩
          rcases hpos with hpos | hpos
          · exact hneg hpos
          · rw [List.getElem?_eq_none hpos] at hat
            cases hat
      · obtain ⟨hneg, hlt⟩ := not_or.1 hpos
        have hlt' := not_le.1 hlt
        have hnext := hi.next (next_remove_listen hi hid |>.trans (if_neg hpos))
        simp only [Option.some.injEq, exists_eq_left', hneg, not_false_eq_true, true_and]
        rw [hnext.listMatches_iff, ← List.Nodup.eraseIdx_eq_filter_iff (hl ▸ hi.nodup) hlt']
        simp only [hl]
        exact and_iff_left ((List.length_filter_le _ _).trans_lt hlen)
    · refine iff_of_true ⟨_, next_remove hi hid, ?_⟩ (fun h => absurd h hid)
      have hnext := hi.next (next_remove hi hid)
      exact hnext.listMatches_iff.2 ⟨hl, hlen⟩

theorem Inv.init : listening.init.Inv where
  rest := ⟨rfl, rfl⟩
  nodup := List.nodup_nil
  keys _ := by simp [IsListen, listening]

end Listening

open Listening in
/-- **The listen list.** The list matches the table after every first part of a sequence of
operations exactly if every operation is one of `KeepsList` in the state it finds. -/
theorem listen_list_iff (ops : List ListenOp) :
    (∀ pre, pre <+: ops → ∃ s, listening.run pre = some s ∧ ListMatches s) ↔
      listening.Meets KeepsList listening.init ops := by
  have hnext : ∀ s op s', listening.next s op = some s' → Inv s → Inv s' :=
    fun _ _ _ h hi => hi.next h
  apply System.forall_prefix_iff_meets hnext fun _ op hi hm => step_iff hi hm op
  · exact Inv.init
  · exact Inv.init.listMatches_iff.2 ⟨rfl, by decide⟩

/-- A connection is made, two are accepted, and the first of these is removed: the list keeps its
id, 1, and has lost 2. -/
theorem not_listen_list : ∃ s,
    listening.run [.connect [49] 1 true, .listen [50] 2, .listen [51] 3, .remove 1] = some s ∧
      s.lib.listenIdVector = [1] ∧ s.accepted = [2] ∧
      s.lib.bevMap.entries.map Prod.fst = [0, 2] ∧ ¬ ListMatches s := by
  have hends : (listening.run [.connect [49] 1 true, .listen [50] 2, .listen [51] 3,
      .remove 1]).map (fun s => (s.lib.listenIdVector, s.accepted,
        s.lib.bevMap.entries.map Prod.fst)) = some ([1], [2], [0, 2]) := by decide
  obtain ⟨s, hs, hends⟩ := Option.map_eq_some_iff.1 hends
  rw [Prod.mk.injEq, Prod.mk.injEq] at hends
  obtain ⟨hlist, haccepted, hkeys⟩ := hends
  refine ⟨s, hs, hlist, haccepted, hkeys, fun hm => ?_⟩
  have horder := hm.order
  rw [hlist, haccepted] at horder
  exact absurd horder (by decide)

end Net
