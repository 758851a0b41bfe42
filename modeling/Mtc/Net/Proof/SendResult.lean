import Mtc.Net.Proof.Send

/-!
# What `sendMessage` tells its caller

`sendMessage_truthful_iff`: the value that `sendMessage` returns is right exactly for the messages
that are `Sendable`. It returns 1 whatever `LibeventHandle::send` says, so that a connect that fails
goes unnoticed, and `get_port` looks a host up with `operator[]`, so that a failed call for a host
that is not in the group makes it one of the group's hosts (`not_truthful`).
-/

namespace Net

open Except (ok_bind bind_eq_ok)
open EventMessage (Content)
open EventMessageHandle

/-! ## Connections, whatever the locks are -/

namespace LibeventHandle

variable {lib lib' : LibeventHandle} {ip : Bytes} {port id : Int32} {connects : Bool}

theorem rLockMap_eq_ok (h : lib.rLockMap = .ok lib') :
    ∃ singal, lib' = { lib with bevMapRwLockSingal := singal } := by
  obtain ⟨singal, -, h⟩ := bind_eq_ok.1 h
  cases h
  exact ⟨singal, rfl⟩

/-- `get_connection_id` finds a connection, cannot make one, or has made one. -/
theorem getConnectionId_eq_ok
    (h : lib.getConnectionId ip port true connects = .ok (id, lib')) :
    (∃ info, lib.connectionOf ip port = some (id, info) ∧ lib'.bevMap = lib.bevMap) ∨
      lib.connectionOf ip port = none ∧ connects = false ∧ id = -1 ∧ lib'.bevMap = lib.bevMap ∨
      lib.connectionOf ip port = none ∧ connects = true ∧ id = lib.maxBevId ∧
        lib'.bevMap = lib.bevMap.assign id (.connected ip port) := by
  obtain ⟨lib₁, hlock, h⟩ := bind_eq_ok.1 h
  obtain ⟨singal, rfl⟩ := rLockMap_eq_ok hlock
  have hconn : { lib with bevMapRwLockSingal := singal }.connectionOf ip port =
    lib.connectionOf ip port := rfl
  cases hc : lib.connectionOf ip port with
  | some e =>
    simp only [hconn, hc] at h
    cases h
    exact Or.inl ⟨e.2, rfl, rfl⟩
  | none =>
    simp only [hconn, hc, if_true, tryConnect, addBuffereventConnect] at h
    cases connects with
    | false =>
      cases h
      exact Or.inr (Or.inl ⟨rfl, rfl, rfl, rfl⟩)
    | true =>
      obtain ⟨singal', -, h⟩ := bind_eq_ok.1 h
      cases h
      exact Or.inr (Or.inr ⟨rfl, rfl, rfl, rfl⟩)

end LibeventHandle

/-- The bytes that `writeBufferOnce` appends: the size, and the data if the size is not negative. -/
def BevInfor.appends (data : Bytes) (dataSize : Int32) : Bytes :=
  Bytes.le32 dataSize.toUInt32 ++ if dataSize < 0 then [] else data.take dataSize.sizeT

theorem BevInfor.writeBufferOnce_eq_ok {info info' : BevInfor} {data : Bytes} {dataSize : Int32}
    {b : Bool} (h : info.writeBufferOnce data dataSize = .ok (b, info')) :
    info'.ip = info.ip ∧ info'.port = info.port ∧
      info'.bev.output = info.bev.output ++ appends data dataSize := by
  obtain ⟨singal, -, h⟩ := bind_eq_ok.1 h
  have hb : info.bev.write (Bytes.le32 dataSize.toUInt32) sizeofBlock = _ :=
    Bufferevent.write_eq info.bev (Bytes.length_le32 _).symm (by decide)
  simp only [hb, ok_bind] at h
  obtain ⟨⟨ok, bev⟩, hw, h⟩ := bind_eq_ok.1 h
  cases h
  refine ⟨rfl, rfl, ?_⟩
  unfold Bufferevent.write at hw
  have hneg : 2 ^ 63 ≤ dataSize.sizeT ↔ dataSize < 0 := by
    rw [Int32.lt_iff_toInt_lt, Int32.toInt_zero]
    have := dataSize.toInt_lt
    have := dataSize.le_toInt
    unfold Int32.sizeT
    omega
  split_ifs at hw with h63 hle
  · cases hw
    rw [appends, if_pos (hneg.1 h63), List.append_nil]
  · cases hw
    rw [appends, if_neg (fun hn => h63 (hneg.2 hn)), List.append_assoc]

namespace LibeventHandle

variable {lib lib' : LibeventHandle} {id : Int32} {data : Bytes} {size : Int32} {b : Bool}

/-- `send` writes to its connection, or does not change the table. -/
theorem send_eq_ok (h : lib.send id data size = .ok (b, lib')) :
    (id < 0 ∨ lib.bevMap.findKey id = none) ∧ lib'.bevMap = lib.bevMap ∨
      ¬ id < 0 ∧ ∃ info info', lib.bevMap.findKey id = some info ∧ info'.ip = info.ip ∧
        info'.port = info.port ∧
        info'.bev.output = info.bev.output ++ BevInfor.appends data size ∧
        lib'.bevMap = lib.bevMap.put id info' := by
  unfold send at h
  split_ifs at h with hneg
  · cases h
    exact Or.inl ⟨Or.inl hneg, rfl⟩
  · obtain ⟨lib₁, hlock, h⟩ := bind_eq_ok.1 h
    obtain ⟨singal, rfl⟩ := rLockMap_eq_ok hlock
    dsimp only at h
    cases hf : lib.bevMap.findKey id with
    | none =>
      rw [hf] at h
      cases h
      exact Or.inl ⟨Or.inr rfl, rfl⟩
    | some info =>
      rw [hf] at h
      obtain ⟨⟨ok, info'⟩, hw, h⟩ := bind_eq_ok.1 h
      cases h
      obtain ⟨hip, hport, hout⟩ := BevInfor.writeBufferOnce_eq_ok hw
      exact Or.inr ⟨hneg, info, info', rfl, hip, hport, hout, rfl⟩

/-! ## Sending to an endpoint -/

/-- The connection `id` is the only one that has changed, and if it is one for the endpoint, `bytes`
were appended to its output. -/
structure Sent (lib lib' : LibeventHandle) (ip : Bytes) (port id : Int32) (bytes : Bytes) :
    Prop where
  others : ∀ id', id' ≠ id → lib'.bevMap.findKey id' = lib.bevMap.findKey id'
  output : ∀ info', lib'.bevMap.findKey id = some info' → info'.ip = ip → info'.port = port →
    info'.bev.output = lib.outputBefore ip port id ++ bytes

variable {ip : Bytes} {port : Int32} {connects : Bool} {lib₁ : LibeventHandle}

theorem outputBefore_of_found {info : BevInfor} (hf : lib.bevMap.findKey id = some info)
    (hip : info.ip = ip) (hport : info.port = port) :
    lib.outputBefore ip port id = info.bev.output := by
  simp only [outputBefore, hf, hip, hport, and_self, if_true]

theorem endpoint_of_connectionOf {info : BevInfor}
    (h : lib.connectionOf ip port = some (id, info)) :
    lib.bevMap.findKey id = some info ∧ info.ip = ip ∧ info.port = port := by
  obtain ⟨hf, he⟩ := connectionOf_eq_some h
  rw [atEndpoint, Bool.and_eq_true, decide_eq_true_eq, decide_eq_true_eq] at he
  exact ⟨hf, he.1, he.2.symm⟩

/-- Without a connection for the endpoint, nothing has been written to it. -/
theorem outputBefore_of_none (h : lib.connectionOf ip port = none) (id : Int32) :
    lib.outputBefore ip port id = [] := by
  unfold outputBefore
  cases hf : lib.bevMap.findKey id with
  | none => rfl
  | some info =>
    have hne := List.find?_eq_none.1 h (id, info) (AssocMap.findKey_eq_some_iff.1 hf)
    rw [Bool.and_eq_true, decide_eq_true_eq, decide_eq_true_eq] at hne
    exact if_neg fun he => hne ⟨he.1, he.2.symm⟩

theorem sent_unchanged (h : lib'.bevMap = lib.bevMap) (ip : Bytes) (port id : Int32) :
    lib.Sent lib' ip port id [] := by
  refine ⟨fun id' _ => by rw [h], fun info' hf hip hport => ?_⟩
  rw [h] at hf
  rw [outputBefore_of_found hf hip hport, List.append_nil]

/-- The table with a connection for the endpoint added, and `bytes` written to it. -/
theorem sent_added (hc : lib.connectionOf ip port = none) {info : BevInfor}
    (ho : info.bev.output = data)
    (h : ∀ id', lib'.bevMap.findKey id' = if id' = id then some info else lib.bevMap.findKey id') :
    lib.Sent lib' ip port id data := by
  refine ⟨fun id' hne => by rw [h, if_neg hne], fun info' hf _ _ => ?_⟩
  rw [h, if_pos rfl] at hf
  cases hf
  rw [outputBefore_of_none hc, List.nil_append, ho]

/-- An endpoint that can be reached gets the bytes. -/
theorem sent_of_reaches (hget : lib.getConnectionId ip port true connects = .ok (id, lib₁))
    (hsend : lib₁.send id data size = .ok (b, lib')) (hr : lib.Reaches ip port connects) :
    lib.Sent lib' ip port id (BevInfor.appends data size) ∧
      ∃ info', lib'.bevMap.findKey id = some info' ∧ info'.ip = ip ∧ info'.port = port := by
  unfold Reaches at hr
  rcases getConnectionId_eq_ok hget with
    ⟨info, hc, hmap⟩ | ⟨hc, rfl, -, -⟩ | ⟨hc, -, rfl, hmap⟩
  · rw [hc] at hr
    obtain ⟨hf, hip, hport⟩ := endpoint_of_connectionOf hc
    rcases send_eq_ok hsend with ⟨hno, -⟩ | ⟨-, info₀, info', hf₀, hip', hport', hout, hmap'⟩
    · rw [hmap, hf] at hno
      exact absurd hno (by simpa using hr)
    · rw [hmap] at hf₀ hmap'
      cases hf.symm.trans hf₀
      have hf' : lib'.bevMap.findKey id = some info' := by
        rw [hmap', AssocMap.findKey_put_self hf]
      refine ⟨⟨fun id' hne => ?_, fun info'' hf'' _ _ => ?_⟩, info', hf', hip'.trans hip,
        hport'.trans hport⟩
      · rw [hmap', AssocMap.findKey_put_ne hne]
      · cases hf'.symm.trans hf''
        rw [hout, outputBefore_of_found hf hip hport]
  · rw [hc] at hr
    exact absurd hr.1 (by decide)
  · rw [hc] at hr
    rcases send_eq_ok hsend with ⟨hno, -⟩ | ⟨-, info₀, info', hf₀, hip', hport', hout, hmap'⟩
    · rw [hmap, AssocMap.findKey_assign, if_pos rfl] at hno
      exact absurd hno (by simpa using hr.2)
    · rw [hmap, AssocMap.findKey_assign, if_pos rfl] at hf₀
      cases hf₀
      have hall : ∀ id', lib'.bevMap.findKey id' =
          if id' = lib.maxBevId then some info' else lib.bevMap.findKey id' := by
        intro id'
        rw [hmap', hmap]
        by_cases hid : id' = lib.maxBevId
        · subst hid
          rw [if_pos rfl]
          exact AssocMap.findKey_put_self (by rw [AssocMap.findKey_assign, if_pos rfl]) info'
        · rw [if_neg hid, AssocMap.findKey_put_ne hid, AssocMap.findKey_assign, if_neg hid]
      exact ⟨sent_added hc hout hall, info', by rw [hall, if_pos rfl], hip', hport'⟩

/-- One that cannot be reached gets nothing. -/
theorem sent_of_not_reaches (hget : lib.getConnectionId ip port true connects = .ok (id, lib₁))
    (hsend : lib₁.send id data size = .ok (b, lib')) (hr : ¬ lib.Reaches ip port connects) :
    lib.Sent lib' ip port id [] := by
  unfold Reaches at hr
  have hneg : id < 0 → lib'.bevMap = lib₁.bevMap := by
    intro hn
    rcases send_eq_ok hsend with ⟨-, hmap⟩ | ⟨hnn, -⟩
    · exact hmap
    · exact absurd hn hnn
  rcases getConnectionId_eq_ok hget with
    ⟨info, hc, hmap⟩ | ⟨hc, -, rfl, hmap⟩ | ⟨hc, rfl, rfl, hmap⟩
  · rw [hc] at hr
    exact sent_unchanged ((hneg (not_not.1 hr)).trans hmap) ip port id
  · exact sent_unchanged ((hneg (by decide)).trans hmap) ip port (-1)
  · rw [hc] at hr
    have hn : lib.maxBevId < 0 := by simpa using hr
    have hnew : (BevInfor.connected ip port).bev.output = [] := rfl
    refine sent_added hc hnew fun id' => ?_
    rw [hneg hn, hmap, AssocMap.findKey_assign]

end LibeventHandle

/-! ## Messages -/

theorem BevInfor.appends_encode {c : Content} (hlt : c.size < 2 ^ 31) :
    appends c.encode (UInt32.ofNat c.size).toInt32 = c.frame := by
  have hn : ¬ (UInt32.ofNat c.size).toInt32 < 0 := by
    rw [Int32.toInt32_ofNat, Int32.lt_iff_toInt_lt, Int32.toInt_ofSizeT_of_lt hlt, Int32.toInt_zero]
    omega
  rw [appends, if_neg hn, Int32.toInt32_ofNat, Int32.sizeT_ofSizeT_of_lt hlt, ← length_encode,
    List.take_length, Int32.toUInt32_ofSizeT, length_encode]
  rfl

/-- No more is written than an `int` can say. -/
theorem BevInfor.length_appends_lt (data : Bytes) (size : Int32) :
    (appends data size).length < 4 + 2 ^ 31 := by
  rw [appends, List.length_append, Bytes.length_le32]
  split_ifs with hn
  · simp
  · rw [Int32.lt_iff_toInt_lt, Int32.toInt_zero] at hn
    have := size.toInt_lt
    rw [List.length_take, Int32.sizeT_of_nonneg (by omega)]
    omega

section
variable {h : EventMessageHandle} {m : EventMessage} {c : Content} {group : GroupInfor}
  {ip : Bytes} {port id : Int32} {lib' : LibeventHandle}

theorem connection_group {g : Bytes} (hg : h.messGroupMap.findKey g = some group) (id : Int32) :
    (h.connection g id).map Prod.snd = group.handle.bevMap.findKey id := by
  cases hf : group.handle.bevMap.findKey id with
  | none => simp [connection, hg, hf]
  | some info => simp [connection, hg, hf]

/-- The connections of a handle with the `LibeventHandle` of a group replaced. -/
theorem connection_putHandle (hg : h.messGroupMap.findKey c.groupName = some group)
    (lib' : LibeventHandle) (g : Bytes) (id : Int32) :
    ((h.putHandle c.groupName group lib').connection g id).map Prod.snd =
      if g = c.groupName then lib'.bevMap.findKey id
      else (h.connection g id).map Prod.snd := by
  split_ifs with hgg
  · subst hgg
    have hg' : (h.putHandle c.groupName group lib').messGroupMap.findKey c.groupName =
      some { group with handle := lib' } := AssocMap.findKey_put_self hg _
    exact connection_group hg' id
  · simp only [connection, putHandle, putGroup, AssocMap.findKey_put_ne hgg]

theorem outputOf_eq (h : EventMessageHandle) (g : Bytes) (id : Int32) :
    h.outputOf g id = ((h.connection g id).map Prod.snd).map (·.bev.output) := by
  rw [outputOf, Option.map_map]
  rfl

theorem frame_ne_nil (c : Content) : c.frame ≠ [] := List.cons_ne_nil _ _

/-- The bytes that were sent are the only frame. -/
theorem frameWritten_iff {bytes frame : Bytes} (hp : Passes h m c group ip port)
    (hs : group.handle.Sent lib' ip port id bytes) :
    FrameWritten h (h.putHandle c.groupName group lib') c frame ↔
      frame ≠ [] ∧ frame = bytes ∧
        ∃ info', lib'.bevMap.findKey id = some info' ∧ info'.ip = ip ∧ info'.port = port := by
  refine and_congr_right fun hne => ?_
  constructor
  · rintro ⟨group', ip', port', id', info', hg, hip, hport, hconn, hip', hport', hout⟩
    cases hp.findGroup.symm.trans hg
    cases hp.findIp.symm.trans hip
    cases hp.findPort.symm.trans hport
    rw [connection_putHandle hg, if_pos rfl] at hconn
    by_cases hid : id' = id
    · subst hid
      rw [hs.output info' hconn hip' hport', List.append_cancel_left_eq] at hout
      exact ⟨hout.symm, info', hconn, hip', hport'⟩
    · -- another connection is as it was
      rw [hs.others id' hid] at hconn
      rw [LibeventHandle.outputBefore_of_found hconn hip' hport'] at hout
      exact absurd (List.self_eq_append_right.1 hout) hne
  · rintro ⟨rfl, info', hf, hip', hport'⟩
    refine ⟨group, ip, port, id, info', hp.findGroup, hp.findIp, hp.findPort, ?_, hip', hport',
      hs.output info' hf hip' hport'⟩
    rw [connection_putHandle hp.findGroup, if_pos rfl, hf]

/-- What was sent is the frame of the message exactly if the bytes appended are. -/
theorem frameSent_iff {bytes : Bytes} (hp : Passes h m c group ip port)
    (hs : group.handle.Sent lib' ip port id bytes) :
    FrameSent h (h.putHandle c.groupName group lib') c ↔
      bytes = c.frame ∧
        ∃ info', lib'.bevMap.findKey id = some info' ∧ info'.ip = ip ∧ info'.port = port := by
  constructor
  · rintro ⟨group', ip', port', id', info', hg, hip, hport, hconn, hip', hport', hout, -⟩
    obtain ⟨-, rfl, hend⟩ := (frameWritten_iff hp hs).1
      ⟨frame_ne_nil c, group', ip', port', id', info', hg, hip, hport, hconn, hip', hport', hout⟩
    exact ⟨rfl, hend⟩
  · rintro ⟨rfl, info', hf, hip', hport'⟩
    refine ⟨group, ip, port, id, info', hp.findGroup, hp.findIp, hp.findPort, ?_, hip', hport',
      hs.output info' hf hip' hport', fun g id' hne => ?_⟩
    · rw [connection_putHandle hp.findGroup, if_pos rfl, hf]
    · rw [outputOf_eq, outputOf_eq, connection_putHandle hp.findGroup]
      split_ifs with hgg
      · subst hgg
        rw [connection_group hp.findGroup, hs.others id' fun hid => hne ⟨rfl, hid⟩]
      · rfl

/-- A message that passes the checks is sent if it is not too long and its host can be reached. -/
theorem frameSent_iff_reaches (hc : m.outgoing h.localHostName = .ok c)
    (hp : Passes h m c group ip port) {connects : Bool} {m' : EventMessage}
    {h' : EventMessageHandle} {value : Int32}
    (hsent : h.sendMessage m connects = .ok (value, m', h')) :
    value = 1 ∧ (FrameSent h h' c ↔
      c.size < 2 ^ 31 ∧ group.handle.Reaches ip port connects) := by
  rw [sendMessage_passes hc hp] at hsent
  obtain ⟨m₁, hm₁, hsent⟩ := bind_eq_ok.1 hsent
  obtain ⟨⟨id, lib₁⟩, hget, hsent⟩ := bind_eq_ok.1 hsent
  obtain ⟨⟨b, lib'⟩, hsend, hsent⟩ := bind_eq_ok.1 hsent
  cases hsent
  refine ⟨rfl, ?_⟩
  by_cases hr : group.handle.Reaches ip port connects
  · obtain ⟨hs, hend⟩ := LibeventHandle.sent_of_reaches hget hsend hr
    rw [frameSent_iff hp hs]
    refine ⟨fun hb => ⟨?_, hr⟩, fun hlt => ⟨?_, hend⟩⟩
    · have hlen := BevInfor.length_appends_lt m'.bufferStr m'.bufferSize.toInt32
      rw [hb.1, length_frame] at hlen
      omega
    · rw [initBufferStr_eq hc (by omega)] at hm₁
      cases hm₁
      exact BevInfor.appends_encode hlt.1
  · have hs := LibeventHandle.sent_of_not_reaches hget hsend hr
    rw [frameSent_iff hp hs]
    exact iff_of_false (fun hb => frame_ne_nil c hb.1.symm) fun hlt => hr hlt.2

/-- The last check that may fail is that of the host. -/
theorem failedCheck_found {cb : CallbackInfor} (hw : m.willSend = true)
    (hg : h.messGroupMap.findKey c.groupName = some group)
    (hcb : group.messCallbackMap.findKey c.messType = some cb) :
    h.failedCheck m c = none ∨ h.failedCheck m c = some .invalidHost ∧
      ∀ ip port, h.getIp c.reciveHostName = some ip →
        group.hostPortMap.findKey c.reciveHostName = some port → port = 0 := by
  cases hip : h.getIp c.reciveHostName with
  | none =>
    refine Or.inr ⟨?_, fun ip port hi => (by cases hi)⟩
    simp only [failedCheck, hw, hg, hcb, hip]
    rfl
  | some ip =>
    cases hport : group.hostPortMap.findKey c.reciveHostName with
    | none =>
      refine Or.inr ⟨?_, fun ip port _ hp => (by cases hp)⟩
      simp only [failedCheck, hw, hg, hcb, hip, hport]
      rfl
    | some port =>
      have he : h.failedCheck m c = if port = 0 then some .invalidHost else none := by
        simp only [failedCheck, hw, hg, hcb, hip, hport]
        rfl
      rw [he]
      by_cases h0 : port = 0
      · rw [if_pos h0]
        refine Or.inr ⟨rfl, fun ip' port' _ hp' => ?_⟩
        cases hp'
        exact h0
      · exact Or.inl (if_neg h0)

theorem found_of_invalidHost (hf : h.failedCheck m c = some .invalidHost) :
    m.willSend = true ∧ ∃ group cb, h.messGroupMap.findKey c.groupName = some group ∧
      group.messCallbackMap.findKey c.messType = some cb := by
  unfold failedCheck at hf
  split_ifs at hf with hw
  · cases hf
  · cases hg : h.messGroupMap.findKey c.groupName with
    | none =>
      rw [hg] at hf
      cases hf
    | some group =>
      cases hcb : group.messCallbackMap.findKey c.messType with
      | none =>
        simp only [hg, hcb, Option.isNone_none, if_true] at hf
        cases hf
      | some cb => exact ⟨by simpa using hw, group, cb, rfl, hcb⟩

/-- A failed call leaves everything as it was if it has not made an entry for the port. -/
theorem untouched_getPort_iff (hg : h.messGroupMap.findKey c.groupName = some group) :
    Untouched h (h.getPort c.reciveHostName c.groupName).2 ↔
      ∃ port, group.hostPortMap.findKey c.reciveHostName = some port := by
  unfold getPort
  simp only [hg]
  cases hp : group.hostPortMap.findKey c.reciveHostName with
  | some port =>
    exact iff_of_true ⟨fun _ _ => rfl, rfl, fun _ => rfl⟩ ⟨port, rfl⟩
  | none =>
    refine iff_of_false (fun hu => ?_) (by simp)
    have hmap := hu.messGroupMap c.groupName
    rw [putGroup, AssocMap.findKey_put_self hg, hg] at hmap
    simp only [Option.map_some, Option.some.injEq, Prod.mk.injEq] at hmap
    have hkey := congrArg (·.findKey c.reciveHostName) hmap.1
    simp only [GroupInfor.enterPort, AssocMap.findKey_assign, if_true, hp] at hkey
    cases hkey

/-- **`sendMessage` tells the truth exactly about the messages that are `Sendable`.** -/
theorem sendMessage_truthful_iff (hc : m.outgoing h.localHostName = .ok c) {connects : Bool}
    {value : Int32} {m' : EventMessage} {h' : EventMessageHandle}
    (hsent : h.sendMessage m connects = .ok (value, m', h')) :
    Truthful h m c value m' h' ↔ Sendable h m c connects := by
  cases hf : h.failedCheck m c with
  | none =>
    obtain ⟨group, ip, port, hp⟩ := passes_of_failedCheck hf
    obtain ⟨rfl, hiff⟩ := frameSent_iff_reaches hc hp hsent
    have htrue : Truthful h m c 1 m' h' ↔ FrameSent h h' c :=
      ⟨fun ht => ht.1 rfl, fun hs => ⟨fun _ => hs, fun h1 => absurd h1 (by decide)⟩⟩
    rw [htrue, hiff]
    obtain ⟨cb, hcb⟩ := hp.findType
    constructor
    · intro hr _ group' cb' hg _
      cases hp.findGroup.symm.trans hg
      refine ⟨port, hp.findPort, fun ip' hip' _ => ?_⟩
      cases hp.findIp.symm.trans hip'
      exact hr
    · intro hs
      obtain ⟨port', hport', hr⟩ := hs hp.willSend group cb hp.findGroup hcb
      cases hp.findPort.symm.trans hport'
      exact hr ip hp.findIp hp.ne_zero
  | some e =>
    cases (sendMessage_failed hc hf connects).symm.trans hsent
    have htrue : ∀ h'', Truthful h m c (-1) { m with errorNo := e } h'' ↔ Untouched h h'' :=
      fun h'' => ⟨fun ht => (ht.2 rfl).1,
        fun hu => ⟨fun h1 => absurd h1 (by decide), fun _ => ⟨hu, hf⟩⟩⟩
    rw [htrue]
    split_ifs with he
    · subst he
      obtain ⟨hw, group, cb, hg, hcb⟩ := found_of_invalidHost hf
      rw [untouched_getPort_iff hg]
      constructor
      · rintro ⟨port, hport⟩ _ group' cb' hg' _
        cases hg.symm.trans hg'
        refine ⟨port, hport, fun ip hip h0 => ?_⟩
        obtain hnone | ⟨-, hno⟩ := failedCheck_found hw hg hcb
        · cases hnone.symm.trans hf
        · exact absurd (hno ip port hip hport) h0
      · intro hs
        obtain ⟨port, hport, -⟩ := hs hw group cb hg hcb
        exact ⟨port, hport⟩
    · refine iff_of_true ⟨fun _ _ => rfl, rfl, fun _ => rfl⟩ fun hw group cb hg hcb => ?_
      rcases failedCheck_found hw hg hcb with hnone | ⟨hinv, -⟩
      · cases hnone.symm.trans hf
      · exact absurd (Option.some_inj.1 (hf.symm.trans hinv)) he

end

theorem nodup_oneType : ([([116] : Bytes)]).Nodup := by decide

/-- A host with one peer `b` in the group `g`, and a peer `c` whose ip it knows. -/
def twoHosts : EventMessageHandle where
  localHostName := [97]
  hostConfigMap := ⟨[([98], [49]), ([99], [50])], by decide⟩
  messGroupMap := ⟨[([103], {
    hostPortMap := ⟨[([98], 1)], by decide⟩
    messCallbackMap := ⟨[([116], {})], nodup_oneType⟩ })], by decide⟩

/-- A message of the type `t` to a host. -/
def messageTo (host : Bytes) : EventMessage :=
  EventMessage.prepareSend {} (.mem [103, 0]) (.mem [116, 0]) (.mem (host ++ [0])) (.mem [7]) 1

/-- A message to `b`, when the connect succeeds. -/
theorem sendMessage_truthful_peer :
    ∃ m' h', twoHosts.sendMessage (messageTo [98]) true = .ok (1, m', h') ∧
      Truthful twoHosts (messageTo [98]) ⟨[103], [116], [97], [98], [7], 1⟩ 1 m' h' := by
  have hsent : ∃ m' h', twoHosts.sendMessage (messageTo [98]) true = .ok (1, m', h') := ⟨_, _, rfl⟩
  obtain ⟨m', h', hsent⟩ := hsent
  refine ⟨m', h', hsent, (sendMessage_truthful_iff rfl hsent).2 ?_⟩
  intro _ group cb hg _
  cases hg
  exact ⟨1, rfl, fun ip hip _ => by cases hip; exact ⟨by decide, rfl, by decide⟩⟩

/-- When the connect fails, `sendMessage` returns 1 and nothing is written; and the failed call for
`c` makes `c` a host of the group. -/
theorem not_truthful :
    ((twoHosts.sendMessage (messageTo [98]) false).toOption.map fun x =>
        (x.1, x.2.2.messGroupMap.findKey [103] |>.map (·.handle.bevMap.entries.length))) =
      some (1, some 0) ∧
    ((twoHosts.sendMessage (messageTo [99]) true).toOption.map fun x =>
        (x.1, (twoHosts.messGroupMap.findKey [103]).bind (·.hostPortMap.findKey [99]),
          (x.2.2.messGroupMap.findKey [103]).bind (·.hostPortMap.findKey [99]))) =
      some (-1, none, some 0) := by
  refine ⟨by decide, by decide⟩

end Net
