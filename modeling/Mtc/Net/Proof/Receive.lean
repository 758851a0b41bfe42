import Mtc.Net.Proof.Codec

/-!
# One frame on a connection

What one round of `read_callback_message_from_libevent` does with the bytes of a connection whose
locks are at rest (`Conn`): it ends for want of bytes (`loop_empty`, `loop_header`, `loop_short`),
or takes one frame and passes its message on (`loop_frame`).
-/

namespace Net

open Except (ok_bind)
open EventMessage (Content)
open EventMessageHandle

/-! ## Locks at rest -/

theorem rwRLock_zero : orFault .spins (rwRLock 0) = .ok 1 := by decide

theorem rwWLock_zero : orFault .spins (rwWLock 0) = .ok (-1) := by decide

theorem rwRUnlock_one : rwRUnlock 1 = 0 := by decide

/-- The bytes that a connection has not passed on: a cached header is read, but its frame is not. -/
def Rx.pending (rx : Rx) : Bytes :=
  (if rx.cacheBlock then Bytes.le32 rx.block.toUInt32 else []) ++ rx.input

/-! ## Records -/

namespace BevInfor

variable {info : BevInfor}

/-- The part of `recive_str_NoWait` behind the length check. -/
def reciveInto (info : BevInfor) (bufferStr : Bytes) :
    Except Fault (Int32 × Bytes × BevInfor) := do
  let (_, info) ← if info.cacheBlock then .ok (0, info) else info.readBufferControlBlockNoWait
  let bufferStr ← if bufferStr.length ≤ info.block.sizeT then
      LibeventHandle.appendZeros bufferStr info.block
    else .ok bufferStr
  info.readBufferNoWait bufferStr

/-- The same on a fresh string. -/
def recive (info : BevInfor) : Except Fault (Int32 × Bytes × BevInfor) := info.reciveInto []

theorem recive_eq (info : BevInfor) : info.recive =
    (if info.cacheBlock then .ok (0, info) else info.readBufferControlBlockNoWait) >>= fun x =>
      LibeventHandle.appendZeros [] x.2.block >>= x.2.readBufferNoWait := by
  have hle : ∀ n : Nat, ([] : Bytes).length ≤ n := Nat.zero_le
  simp only [recive, reciveInto, if_pos (hle _)]
  split_ifs
  · rfl
  · rfl

theorem appendZeros_eq {size : Int32} (h : 0 ≤ size) :
    LibeventHandle.appendZeros [] size = .ok (Bytes.zeros size.sizeT) := by
  rw [LibeventHandle.appendZeros, if_neg (Int32.not_lt.2 h), List.nil_append]

theorem readBufferControlBlockNoWait_eq {x : UInt32} {t : Bytes} (hs : info.readSingal = 0)
    (hi : info.bev.input = Bytes.le32 x ++ t)
    (hl : sizeofBlock ≤ (Int32.ofSizeT info.bev.input.length).sizeT) :
    info.readBufferControlBlockNoWait =
      .ok (4, info.blockRead { info.bev with input := t } x.toInt32 (-1)) := by
  have hr : info.bev.read sizeofBlock = (Bytes.le32 x, { info.bev with input := t }) := by
    rw [Bufferevent.read, hi]
    rfl
  have hb : Bytes.getLe32 (Bytes.le32 x ++ Bytes.zeros (4 - (Bytes.le32 x).length)) = some x :=
    Bytes.getLe32_le32 x _
  simp only [readBufferControlBlockNoWait, hs, rwWLock_zero, ok_bind, if_neg (Nat.not_lt.2 hl), hr,
    hb]
  rfl

/-- Too few bytes for the frame announced: the watermark makes libevent wait for them. -/
theorem readBufferNoWait_short {data : Bytes} (hc : info.cacheBlock = true)
    (hs : rwWUnlock info.readSingal = 0)
    (hl : Int32.ofSizeT info.bev.input.length < info.block) :
    info.readBufferNoWait data = .ok (0, data, { info with
      readSingal := 0
      bev := { info.bev with readLow := info.block.sizeT } }) := by
  simp only [readBufferNoWait, hc, hl, hs]
  rfl

theorem readBufferNoWait_full {b t : Bytes} (hc : info.cacheBlock = true)
    (hs : rwWUnlock info.readSingal = 0) (hi : info.bev.input = b ++ t)
    (hb : info.block.sizeT = b.length) (hl : ¬ Int32.ofSizeT info.bev.input.length < info.block) :
    info.readBufferNoWait (Bytes.zeros b.length) = .ok (Int32.ofSizeT b.length, b, { info with
      readSingal := 0
      cacheBlock := false
      bev := { info.bev with input := t, readLow := 0 } }) := by
  have hw : Bytes.writeAt (Bytes.zeros b.length) 0 b = some b := by
    simpa using Bytes.writeAt_end (a := []) (Bytes.length_zeros b.length)
  rw [hi] at hl
  simp only [readBufferNoWait, hc, hl, hs, Bufferevent.read, hi, hb, List.take_left,
    List.drop_left, hw]
  rfl

/-- Once the header is read, the rest of `recive_str_NoWait` sees only a cached block. -/
theorem recive_of_header {x : UInt32} {t : Bytes} (hc : info.cacheBlock = false)
    (hs : info.readSingal = 0) (hi : info.bev.input = Bytes.le32 x ++ t)
    (hl : sizeofBlock ≤ (Int32.ofSizeT info.bev.input.length).sizeT) :
    info.recive = (info.blockRead { info.bev with input := t } x.toInt32 (-1)).recive := by
  simp only [recive_eq, hc, readBufferControlBlockNoWait_eq hs hi hl]
  rfl

theorem recive_short (hc : info.cacheBlock = true) (hs : rwWUnlock info.readSingal = 0)
    (hb : 0 ≤ info.block) (hl : Int32.ofSizeT info.bev.input.length < info.block) :
    info.recive = .ok (0, Bytes.zeros info.block.sizeT, { info with
      readSingal := 0
      bev := { info.bev with readLow := info.block.sizeT } }) := by
  simp only [recive_eq, hc, if_true, ok_bind, appendZeros_eq hb, readBufferNoWait_short hc hs hl]

theorem recive_full {b t : Bytes} (hc : info.cacheBlock = true)
    (hs : rwWUnlock info.readSingal = 0) (hi : info.bev.input = b ++ t) (hn : 0 ≤ info.block)
    (hb : info.block.sizeT = b.length) (hl : ¬ Int32.ofSizeT info.bev.input.length < info.block) :
    info.recive = .ok (Int32.ofSizeT b.length, b, { info with
      readSingal := 0
      cacheBlock := false
      bev := { info.bev with input := t, readLow := 0 } }) := by
  simp only [recive_eq, hc, if_true, ok_bind, appendZeros_eq hn, hb,
    readBufferNoWait_full hc hs hi hb hl]

end BevInfor

/-! ## The frame of a message -/

/-- The connection is at the frame of `c`, with its header cached or still in the input, and `t`
behind the header. -/
def Opens (rx : Rx) (c : Content) (t : Bytes) : Prop :=
  rx.cacheBlock = true ∧ rx.block = Int32.ofSizeT c.size ∧ rx.input = t ∨
  rx.cacheBlock = false ∧ rx.input = Bytes.le32 (UInt32.ofNat c.size) ++ t

namespace BevInfor

variable {info : BevInfor} {c : Content} {t : Bytes}

/-- `recive_str_NoWait` looks at a header that is cached or that it reads first; then the record is
`i`. -/
theorem recive_opened (ho : Opens info.rx c t) (hs : info.readSingal = 0)
    (hl : ¬ (Int32.ofSizeT info.bev.input.length).sizeT ≤ sizeofBlock) :
    ∃ i : BevInfor, info.recive = i.recive ∧ i.cacheBlock = true ∧ rwWUnlock i.readSingal = 0 ∧
      i.block = Int32.ofSizeT c.size ∧ i.bev.input = t ∧
      ∀ rx, { i.withRx rx with readSingal := 0 } = info.withRx rx := by
  obtain ⟨hc, hb, hi⟩ | ⟨hc, hi⟩ := ho
  · refine ⟨info, rfl, hc, by rw [hs]; decide, hb, hi, fun rx => ?_⟩
    rw [← hs]
    rfl
  · refine ⟨_, recive_of_header hc hs hi (by omega), rfl, ?_, ?_, rfl, fun rx => ?_⟩
    · show rwWUnlock (-1) = 0
      decide
    · exact Int32.toInt32_ofNat c.size
    · rw [← hs]
      rfl

theorem ofSizeT_size_nonneg (hlt : c.size < 2 ^ 31) : 0 ≤ Int32.ofSizeT c.size := by
  rw [Int32.le_iff_toInt_le, Int32.toInt_ofSizeT_of_lt hlt]
  exact Int.natCast_nonneg _

/-- A frame that is not complete stays in the input, behind its header. -/
theorem recive_incomplete (ho : Opens info.rx c t) (hs : info.readSingal = 0)
    (hl : ¬ (Int32.ofSizeT info.bev.input.length).sizeT ≤ sizeofBlock) (hlt : c.size < 2 ^ 31)
    (hshort : Int32.ofSizeT t.length < Int32.ofSizeT c.size) :
    ∃ str, info.recive = .ok (0, str, info.withRx ⟨t, c.size, Int32.ofSizeT c.size, true⟩) := by
  obtain ⟨i, hr, hc, hu, hb, hi, hrx⟩ := recive_opened ho hs hl
  have hnn : 0 ≤ i.block := by
    rw [hb]
    exact ofSizeT_size_nonneg hlt
  rw [recive_short hc hu hnn (by rw [hi, hb]; exact hshort)] at hr
  refine ⟨Bytes.zeros i.block.sizeT, hr.trans ?_⟩
  rw [← hrx ⟨t, c.size, Int32.ofSizeT c.size, true⟩]
  simp only [withRx, hb, Int32.sizeT_ofSizeT_of_lt hlt, hi, hc]

/-- A complete frame is taken. -/
theorem recive_complete (ho : Opens info.rx c (c.encode ++ t)) (hs : info.readSingal = 0)
    (hl : ¬ (Int32.ofSizeT info.bev.input.length).sizeT ≤ sizeofBlock) (hlt : c.size < 2 ^ 31)
    (hfull : ¬ Int32.ofSizeT (c.encode ++ t).length < Int32.ofSizeT c.size) :
    info.recive = .ok (Int32.ofSizeT c.size, c.encode,
      info.withRx ⟨t, 0, Int32.ofSizeT c.size, false⟩) := by
  obtain ⟨i, hr, hc, hu, hb, hi, hrx⟩ := recive_opened ho hs hl
  have hnn : 0 ≤ i.block := by
    rw [hb]
    exact ofSizeT_size_nonneg hlt
  rw [recive_full hc hu hi hnn (by rw [hb, Int32.sizeT_ofSizeT_of_lt hlt, length_encode])
    (by rw [hi, hb]; exact hfull), length_encode] at hr
  refine hr.trans ?_
  rw [← hrx ⟨t, 0, Int32.ofSizeT c.size, false⟩]
  simp only [withRx, hb]

end BevInfor

/-! ## The table -/

namespace LibeventHandle

variable {lib : LibeventHandle} {id : Int32} {info : BevInfor}

theorem rLockMap_eq (h : lib.bevMapRwLockSingal = 0) :
    lib.rLockMap = .ok { lib with bevMapRwLockSingal := 1 } := by
  simp only [rLockMap, h, rwRLock_zero, ok_bind]
  rfl

theorem rUnlockMap_eq (h : lib.bevMapRwLockSingal = 0) :
    { lib with bevMapRwLockSingal := 1 }.rUnlockMap = lib := by
  rw [rUnlockMap, rwRUnlock_one, ← h]

theorem Ready.getReciveBufferLength_eq (h : lib.Ready id info) :
    lib.getReciveBufferLength id = .ok (Int32.ofSizeT info.bev.input.length, lib) := by
  have hinfo : { info with readSingal := rwRUnlock 1 } = info := by
    rw [rwRUnlock_one, ← h.readSingal]
  simp only [getReciveBufferLength, rLockMap_eq h.singal, ok_bind, h.found,
    rUnlockMap_eq h.singal, h.readSingal, rwRLock_zero, hinfo, AssocMap.put_eq_self h.found]
  rfl

theorem Ready.reciveStrNoWait_str (h : lib.Ready id info) (bufferStr : Bytes) :
    lib.reciveStrNoWait id bufferStr =
      if (Int32.ofSizeT info.bev.input.length).sizeT ≤ sizeofBlock then .ok (0, bufferStr, lib)
      else info.reciveInto bufferStr >>= fun x =>
        .ok (x.1, x.2.1, { lib with bevMap := lib.bevMap.put id x.2.2 }) := by
  simp only [reciveStrNoWait, rLockMap_eq h.singal, ok_bind, h.found, rUnlockMap_eq h.singal,
    h.getReciveBufferLength_eq, orFault, BevInfor.reciveInto]
  split_ifs with hl hc hs
  · rfl
  · simp only [bind_assoc]
    rfl
  · rfl
  · cases info.readBufferControlBlockNoWait with
    | error e => rfl
    | ok x =>
      simp only [ok_bind]
      split_ifs
      · simp only [bind_assoc]
        rfl
      · rfl

/-- A connection with no more than a header. -/
theorem Ready.reciveStrNoWait_header (h : lib.Ready id info)
    (hl : (Int32.ofSizeT info.bev.input.length).sizeT ≤ sizeofBlock) :
    lib.reciveStrNoWait id [] = .ok (0, [], lib) := by
  rw [h.reciveStrNoWait_str, if_pos hl]

theorem Ready.reciveStrNoWait_eq (h : lib.Ready id info)
    (hl : ¬ (Int32.ofSizeT info.bev.input.length).sizeT ≤ sizeofBlock) :
    lib.reciveStrNoWait id [] = info.recive >>= fun x =>
      .ok (x.1, x.2.1, { lib with bevMap := lib.bevMap.put id x.2.2 }) := by
  rw [h.reciveStrNoWait_str, if_neg hl]
  rfl

theorem Ready.put (h : lib.Ready id info) {info' : BevInfor} (hs : info'.readSingal = 0) :
    { lib with bevMap := lib.bevMap.put id info' }.Ready id info' :=
  ⟨h.singal, AssocMap.findKey_put_self h.found info', hs⟩

end LibeventHandle

/-! ## Rounds of the loop -/

section
variable (runCallback : Nat → EventMessageHandle → EventMessage → EventMessageHandle)
  {h : EventMessageHandle} {g : Bytes} {id : Int32} {rx : Rx}

theorem putHandle_self {group : GroupInfor} (hg : h.messGroupMap.findKey g = some group) :
    h.putHandle g group group.handle = h := by
  rw [putHandle, putGroup, AssocMap.put_eq_self hg]

theorem loop_empty (hc : Conn h g id rx) (hl : ¬ Int32.ofSizeT rx.input.length > 0) (fuel : Nat)
    (passed : List EventMessage) :
    readCallbackLoop runCallback g id (fuel + 1) h passed = .ok (some (true, passed, h)) := by
  obtain ⟨group, info, hg, hr, rfl⟩ := hc
  simp only [BevInfor.rx] at hl
  simp only [readCallbackLoop, hg, orFault, ok_bind, hr.getReciveBufferLength_eq]
  rw [if_neg hl, putHandle_self hg]
  rfl

theorem loop_header (hc : Conn h g id rx) (hp : Int32.ofSizeT rx.input.length > 0)
    (hl : (Int32.ofSizeT rx.input.length).sizeT ≤ sizeofBlock) (fuel : Nat)
    (passed : List EventMessage) :
    readCallbackLoop runCallback g id (fuel + 1) h passed = .ok (some (false, passed, h)) := by
  obtain ⟨group, info, hg, hr, rfl⟩ := hc
  simp only [BevInfor.rx] at hp hl
  simp only [readCallbackLoop, hg, orFault, ok_bind, hr.getReciveBufferLength_eq]
  rw [if_pos hp, hr.reciveStrNoWait_header hl, ok_bind]
  simp only [putHandle_self hg]
  rfl

/-- A round of the loop behind `recive_str_NoWait`. -/
def roundEnd (g : Bytes) (id : Int32) (fuel : Nat) (passed : List EventMessage)
    (h : EventMessageHandle) (size : Int32) (str : Bytes) :
    Except Fault (Option (Bool × List EventMessage × EventMessageHandle)) := do
  if size ≤ 0 then
    return some (false, passed, h)
  let mess ← { bufferStr := str, bufferSize := size.toUInt32 : EventMessage }.initMessagePtr
  let (ok, h) ← tryRunCallback runCallback h mess
  if ok then readCallbackLoop runCallback g id fuel h (passed ++ [mess])
  else return some (false, passed ++ [mess], h)

theorem roundEnd_zero (fuel : Nat) (passed : List EventMessage) (str : Bytes) :
    roundEnd runCallback g id fuel passed h 0 str = .ok (some (false, passed, h)) := rfl

/-- A round that has taken a frame passes its message on. -/
theorem roundEnd_passed {h' : EventMessageHandle} {size : Int32} {str : Bytes}
    {mess : EventMessage} {ok : Bool} (hsize : ¬ size ≤ 0)
    (hm : { bufferStr := str, bufferSize := size.toUInt32 : EventMessage }.initMessagePtr =
      .ok mess)
    (ht : tryRunCallback runCallback h mess = .ok (ok, h')) (fuel : Nat)
    (passed : List EventMessage) :
    roundEnd runCallback g id fuel passed h size str =
      if ok then readCallbackLoop runCallback g id fuel h' (passed ++ [mess])
      else .ok (some (false, passed ++ [mess], h')) := by
  simp only [roundEnd, if_neg hsize, hm, ht, ok_bind]
  rfl

/-- A round that has a length to work with. -/
theorem loop_recive {group : GroupInfor} {info : BevInfor}
    (hg : h.messGroupMap.findKey g = some group) (hr : group.handle.Ready id info)
    (hp : Int32.ofSizeT info.bev.input.length > 0)
    (hl : ¬ (Int32.ofSizeT info.bev.input.length).sizeT ≤ sizeofBlock) (fuel : Nat)
    (passed : List EventMessage) :
    readCallbackLoop runCallback g id (fuel + 1) h passed = info.recive >>= fun x =>
      roundEnd runCallback g id fuel passed
        (h.putHandle g group { group.handle with bevMap := group.handle.bevMap.put id x.2.2 })
        x.1 x.2.1 := by
  simp only [readCallbackLoop, hg, orFault, ok_bind, hr.getReciveBufferLength_eq, if_pos hp,
    hr.reciveStrNoWait_eq hl, bind_assoc]
  rfl

/-- The connection after a round has read from it. -/
theorem conn_putHandle {group : GroupInfor} {info : BevInfor}
    (hg : h.messGroupMap.findKey g = some group) (hr : group.handle.Ready id info)
    (info' : BevInfor) (hs : info'.readSingal = 0) :
    Conn (h.putHandle g group { group.handle with bevMap := group.handle.bevMap.put id info' }) g
      id info'.rx :=
  ⟨_, info', AssocMap.findKey_put_self hg _, hr.put hs, rfl⟩

theorem configured_putHandle {group : GroupInfor} (hg : h.messGroupMap.findKey g = some group)
    (lib : LibeventHandle) (t : Bytes) (ht : Configured h g t) :
    Configured (h.putHandle g group lib) g t := by
  obtain ⟨group', cb, hg', hcb⟩ := ht
  obtain rfl : group = group' := Option.some_inj.1 (hg.symm.trans hg')
  exact ⟨_, cb, AssocMap.findKey_put_self hg _, hcb⟩

theorem putRecord_eq {group : GroupInfor} (hg : h.messGroupMap.findKey g = some group) (id : Int32)
    (info : BevInfor) :
    h.putRecord g id info = h.putHandle g group (group.handle.putRecord id info) := by
  rw [putRecord, hg]

theorem putRx_eq {group : GroupInfor} {info : BevInfor}
    (hg : h.messGroupMap.findKey g = some group)
    (hf : group.handle.bevMap.findKey id = some info) (rx : Rx) :
    h.putRx g id rx = h.putHandle g group (group.handle.putRecord id (info.withRx rx)) := by
  simp only [putRx, connection, hg, Option.bind_eq_bind, Option.bind_some, hf]
  exact putRecord_eq hg id (info.withRx rx)

theorem Conn.putRx (hc : Conn h g id rx) (rx' : Rx) : Conn (h.putRx g id rx') g id rx' := by
  obtain ⟨group, info, hg, hr, -⟩ := hc
  rw [putRx_eq hg hr.found]
  exact conn_putHandle hg hr (info.withRx rx') hr.readSingal

theorem Conn.configured_putRx (hc : Conn h g id rx) (rx' : Rx) (t : Bytes)
    (ht : Configured h g t) : Configured (h.putRx g id rx') g t := by
  obtain ⟨group, info, hg, hr, -⟩ := hc
  rw [putRx_eq hg hr.found]
  exact configured_putHandle hg _ t ht

/-- A frame that is not complete: its header is taken, and the watermark asks for the rest. -/
theorem loop_short (hc : Conn h g id rx) {c : Content} {t : Bytes} (ho : Opens rx c t)
    (hp : Int32.ofSizeT rx.input.length > 0)
    (hl : ¬ (Int32.ofSizeT rx.input.length).sizeT ≤ sizeofBlock) (hlt : c.size < 2 ^ 31)
    (hshort : Int32.ofSizeT t.length < Int32.ofSizeT c.size) (fuel : Nat)
    (passed : List EventMessage) :
    readCallbackLoop runCallback g id (fuel + 1) h passed =
      .ok (some (false, passed, h.putRx g id ⟨t, c.size, Int32.ofSizeT c.size, true⟩)) := by
  obtain ⟨group, info, hg, hr, rfl⟩ := hc
  obtain ⟨str, hrec⟩ := BevInfor.recive_incomplete ho hr.readSingal hl hlt hshort
  rw [loop_recive runCallback hg hr hp hl, hrec, putRx_eq hg hr.found]
  rfl

theorem keeps_putCallback {g' : Bytes} {group : GroupInfor}
    (hg : h.messGroupMap.findKey g' = some group) (messType : Bytes) (cb : CallbackInfor) :
    Keeps g id h (h.putCallback g' group messType cb) := by
  by_cases hne : g = g'
  · subst hne
    refine ⟨fun rx hc => ?_, fun t ht => ?_⟩
    · obtain ⟨group', info, hg', hr, hrx⟩ := hc
      obtain rfl : group = group' := Option.some_inj.1 (hg.symm.trans hg')
      exact ⟨_, info, AssocMap.findKey_put_self hg _, hr, hrx⟩
    · obtain ⟨group', cb', hg', hcb⟩ := ht
      obtain rfl : group = group' := Option.some_inj.1 (hg.symm.trans hg')
      refine ⟨_, if t = messType then cb else cb', AssocMap.findKey_put_self hg _, ?_⟩
      rw [AssocMap.findKey_put]
      split_ifs with ht
      · rw [← ht, hcb, Option.map_some]
      · exact hcb
  · -- the group of the connection is another one
    have hput : (h.putCallback g' group messType cb).messGroupMap.findKey g =
        h.messGroupMap.findKey g := by
      rw [putCallback, putGroup, AssocMap.findKey_put, if_neg hne]
    refine ⟨fun rx hc => ?_, fun t ht => ?_⟩
    · obtain ⟨group', info, hg', hr, hrx⟩ := hc
      exact ⟨group', info, hput.trans hg', hr, hrx⟩
    · obtain ⟨group', cb', hg', hcb⟩ := ht
      exact ⟨group', cb', hput.trans hg', hcb⟩

theorem Keeps.refl (g : Bytes) (id : Int32) (h : EventMessageHandle) : Keeps g id h h :=
  ⟨fun _ hc => hc, fun _ ht => ht⟩

theorem checkMessType_found {m : EventMessage} {t : Bytes} {group : GroupInfor}
    {cb : CallbackInfor} (hg : m.groupName.str m.bufferStr = .ok g)
    (ht : m.messType.str m.bufferStr = .ok t) (hgroup : h.messGroupMap.findKey g = some group)
    (hcb : group.messCallbackMap.findKey t = some cb) :
    h.checkMessType m = .ok (.found g t group cb) := by
  simp only [checkMessType, hg, ok_bind, hgroup, ht, hcb]
  rfl

theorem checkMessType_cases (h : EventMessageHandle) {m : EventMessage} {t : Bytes}
    (hg : m.groupName.str m.bufferStr = .ok g) (ht : m.messType.str m.bufferStr = .ok t) :
    (∃ e, h.checkMessType m = .ok (.failed e)) ∨ ∃ group cb,
      h.messGroupMap.findKey g = some group ∧ group.messCallbackMap.findKey t = some cb ∧
      h.checkMessType m = .ok (.found g t group cb) := by
  cases hgroup : h.messGroupMap.findKey g with
  | none =>
    refine Or.inl ⟨.groupNotFound, ?_⟩
    simp only [checkMessType, hg, ok_bind, hgroup]
    rfl
  | some group =>
    cases hcb : group.messCallbackMap.findKey t with
    | none =>
      refine Or.inl ⟨.messTypeNotFound, ?_⟩
      simp only [checkMessType, hg, ok_bind, hgroup, ht, hcb]
      rfl
    | some cb => exact Or.inr ⟨group, cb, rfl, hcb, checkMessType_found hg ht hgroup hcb⟩

theorem checkMessType_decoded {c : Content} (hv : c.Valid) (hlt : c.size < 2 ^ 32)
    (hg : c.groupName = g) (hconf : Configured h g c.messType) :
    ∃ group cb, h.messGroupMap.findKey g = some group ∧
      h.checkMessType (decoded c) = .ok (.found g c.messType group cb) := by
  obtain ⟨group, cb, hgroup, hcb⟩ := hconf
  obtain ⟨hn, ht, -⟩ := content_eq_ok (content_decoded hv hlt)
  rw [hg] at hn
  exact ⟨group, cb, hgroup, checkMessType_found hn ht hgroup hcb⟩

theorem dispatch_callback {m : EventMessage} {t : Bytes} {group : GroupInfor} {cb : CallbackInfor}
    {f : Nat} (hck : h.checkMessType m = .ok (.found g t group cb)) (hf : cb.cbFunction = some f) :
    h.dispatch m = .ok (.callback f) := by
  simp only [dispatch, hck, ok_bind, hf]
  rfl

theorem dispatch_queued {m m' : EventMessage} {t : Bytes} {group : GroupInfor} {cb : CallbackInfor}
    (hck : h.checkMessType m = .ok (.found g t group cb)) (hf : cb.cbFunction = none)
    (hm : EventMessage.copy {} m = .ok m') :
    h.dispatch m = .ok (.queued (h.putCallback g group t
      { cb with unprocessedMessList := cb.unprocessedMessList ++ [m'] })) := by
  simp only [dispatch, hck, ok_bind, hf, hm]
  rfl

/-- A decoded message of any group and type is passed on or dropped; the connection is kept. -/
theorem tryRunCallback_decoded (hcb : ∀ f h m, Keeps g id h (runCallback f h m)) {c : Content}
    (hv : c.Valid) (hlt : c.size < 2 ^ 32) :
    ∃ ok h', tryRunCallback runCallback h (decoded c) = .ok (ok, h') ∧ Keeps g id h h' ∧
      (c.groupName = g → Configured h g c.messType → ok = true) := by
  obtain ⟨hn, ht, -⟩ := content_eq_ok (content_decoded hv hlt)
  rcases checkMessType_cases h hn ht with ⟨e, hck⟩ | ⟨group, cb, hgroup, -, hck⟩
  · refine ⟨false, h, ?_, Keeps.refl g id h, fun hg hconf => ?_⟩
    · simp only [tryRunCallback, dispatch, hck, ok_bind]
      rfl
    · obtain ⟨group, cb, -, hfound⟩ := checkMessType_decoded hv hlt hg hconf
      cases hck.symm.trans hfound
  · cases hf : cb.cbFunction with
    | some f =>
      refine ⟨true, runCallback f h (decoded c), ?_, hcb f h _, fun _ _ => rfl⟩
      rw [tryRunCallback, dispatch_callback hck hf]
      rfl
    | none =>
      refine ⟨true, _, ?_, keeps_putCallback hgroup c.messType
        { cb with unprocessedMessList := cb.unprocessedMessList ++ [decoded c] }, fun _ _ => rfl⟩
      rw [tryRunCallback, dispatch_queued hck hf (copy_decoded hlt {})]
      rfl

/-- A whole frame is taken, and its message goes to `try_run_callback`. -/
theorem loop_taken (hc : Conn h g id rx) {c : Content} {t : Bytes}
    (ho : Opens rx c (c.encode ++ t)) (hp : Int32.ofSizeT rx.input.length > 0)
    (hl : ¬ (Int32.ofSizeT rx.input.length).sizeT ≤ sizeofBlock)
    (hfull : ¬ Int32.ofSizeT (c.encode ++ t).length < Int32.ofSizeT c.size)
    (hlt : c.size < 2 ^ 31) {ok : Bool} {h' : EventMessageHandle}
    (htry : tryRunCallback runCallback (h.putRx g id ⟨t, 0, Int32.ofSizeT c.size, false⟩)
      (decoded c) = .ok (ok, h')) (fuel : Nat) (passed : List EventMessage) :
    readCallbackLoop runCallback g id (fuel + 1) h passed =
      if ok then readCallbackLoop runCallback g id fuel h' (passed ++ [decoded c])
      else .ok (some (false, passed ++ [decoded c], h')) := by
  obtain ⟨group, info, hgroup, hr, rfl⟩ := hc
  rw [putRx_eq hgroup hr.found] at htry
  rw [loop_recive runCallback hgroup hr hp hl,
    BevInfor.recive_complete ho hr.readSingal hl hlt hfull, ok_bind]
  have hpos : ¬ Int32.ofSizeT c.size ≤ 0 := by
    have := sizeofCursor_lt_size c
    rw [Int32.le_iff_toInt_le, Int32.toInt_ofSizeT_of_lt hlt, Int32.toInt_zero]
    omega
  refine roundEnd_passed runCallback hpos ?_ htry fuel passed
  rw [Int32.toUInt32_ofSizeT, initMessagePtr_encode (by omega)]

/-- A whole frame: the message is passed on, and the loop goes on behind the frame. -/
theorem loop_frame (hcb : ∀ f h m, Keeps g id h (runCallback f h m)) (hc : Conn h g id rx)
    {c : Content} {t : Bytes} (ho : Opens rx c (c.encode ++ t))
    (hp : Int32.ofSizeT rx.input.length > 0)
    (hl : ¬ (Int32.ofSizeT rx.input.length).sizeT ≤ sizeofBlock)
    (hfull : ¬ Int32.ofSizeT (c.encode ++ t).length < Int32.ofSizeT c.size)
    (hv : c.Valid) (hlt : c.size < 2 ^ 31) (hg : c.groupName = g)
    (hconf : Configured h g c.messType) :
    ∃ h', Conn h' g id ⟨t, 0, Int32.ofSizeT c.size, false⟩ ∧
      (∀ t, Configured h g t → Configured h' g t) ∧ ∀ fuel passed,
      readCallbackLoop runCallback g id (fuel + 1) h passed =
        readCallbackLoop runCallback g id fuel h' (passed ++ [decoded c]) := by
  have hconf' := hc.configured_putRx ⟨t, 0, Int32.ofSizeT c.size, false⟩
  obtain ⟨ok, h', htry, hkeep, hok⟩ :=
    tryRunCallback_decoded runCallback hcb hv (show c.size < 2 ^ 32 by omega)
  obtain rfl := hok hg (hconf' _ hconf)
  exact ⟨h', hkeep.conn _ (hc.putRx _), fun t ht => hkeep.configured t (hconf' t ht),
    loop_taken runCallback hc ho hp hl hfull hlt htry⟩

/-! ## One arrival -/

/-- What an arrival makes of the result of the read callback. -/
def readResult :
    Except Fault (Option (Bool × List EventMessage × EventMessageHandle)) → Option Receiver
  | .ok (some (_, passed, h)) => some { handle := h, passed := passed }
  | _ => none

/-- The bytes are in the input, and the callback runs when they reach the watermark. -/
theorem Conn.arrive {r : Receiver} (hc : Conn r.handle g id rx) (bytes : Bytes) :
    r.arrive runCallback g id bytes =
      if (rx.input ++ bytes).length < rx.readLow then
        some { r with handle := r.handle.putRx g id { rx with input := rx.input ++ bytes } }
      else readResult (readCallbackLoop runCallback g id ((rx.input ++ bytes).length + 1)
        (r.handle.putRx g id { rx with input := rx.input ++ bytes }) r.passed) := by
  obtain ⟨group, info, hg, hr, rfl⟩ := hc
  have hconn : r.handle.connection g id = some (group, info) := by
    simp only [connection, hg, Option.bind_eq_bind, Option.bind_some, hr.found]
    rfl
  simp only [Receiver.arrive, hconn, Option.bind_eq_bind, Option.bind_some, putRx_eq hg hr.found,
    BevInfor.rx]
  rfl

end

end Net
