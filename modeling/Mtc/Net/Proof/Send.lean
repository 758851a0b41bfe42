import Mtc.Net.Proof.Receive

/-!
# Sending

`sendMessage` on a handle whose locks are at rest leaves them at rest, and writes the frame of the
message to the connection of its host, or nothing (`sendMessage_written`). A host that sends to one
peer has written the frames of the messages it marked (`Wrote.runFrom`).
-/

namespace Net

open Except (ok_bind)
open EventMessage (Content)
open EventMessageHandle

/-! ## Writing to a record -/

theorem Bufferevent.write_eq (bev : Bufferevent) {data : Bytes} {n : Nat} (hn : n = data.length)
    (hlt : n < 2 ^ 63) :
    bev.write data n = .ok (true, { bev with output := bev.output ++ data }) := by
  rw [Bufferevent.write, if_neg (Nat.not_le.2 hlt), if_pos (Nat.le_of_eq hn), hn, List.take_length]

/-- `writeBufferOnce` writes the size and the bytes. -/
theorem BevInfor.writeBufferOnce_eq {info : BevInfor} (hs : info.writeSingal = 0) {data : Bytes}
    {n : Nat} (hn : n = data.length) (hlt : n < 2 ^ 31) :
    ∃ info', info.writeBufferOnce data (UInt32.ofNat n).toInt32 = .ok (true, info') ∧
      info'.bev.output = info.bev.output ++ (Bytes.le32 (UInt32.ofNat n) ++ data) ∧
      info'.ip = info.ip ∧ info'.port = info.port ∧ info'.writeSingal = 0 := by
  have hsz : (UInt32.ofNat n).toInt32.sizeT = n := by
    rw [Int32.toInt32_ofNat, Int32.sizeT_ofSizeT_of_lt hlt]
  have hb : info.bev.write (Bytes.le32 (UInt32.ofNat n)) sizeofBlock = _ :=
    Bufferevent.write_eq info.bev (Bytes.length_le32 _).symm (by decide)
  have hu : (UInt32.ofNat n).toInt32.toUInt32 = UInt32.ofNat n := rfl
  have hw : rwWUnlock (-1) = 0 := by decide
  refine ⟨{ info with
    writeSingal := 0
    bev := { info.bev with
      output := info.bev.output ++ (Bytes.le32 (UInt32.ofNat n) ++ data) } },
    ?_, rfl, rfl, rfl, rfl⟩
  simp only [writeBufferOnce, hs, rwWLock_zero, ok_bind, hsz, hu, hb, hw,
    Bufferevent.write_eq _ hn (show n < 2 ^ 63 by omega)]
  rw [List.append_assoc]
  rfl

/-- `writeBufferOnce` returns, whatever `int` the length of the data is. -/
theorem BevInfor.writeBufferOnce_ok {info : BevInfor} (hs : info.writeSingal = 0) (data : Bytes) :
    ∃ b info', info.writeBufferOnce data (Int32.ofSizeT data.length) = .ok (b, info') := by
  have hb : info.bev.write (Bytes.le32 (Int32.ofSizeT data.length).toUInt32) sizeofBlock = _ :=
    Bufferevent.write_eq info.bev (Bytes.length_le32 _).symm (by decide)
  have hw : ∀ bev : Bufferevent, ∃ b bev',
      bev.write data (Int32.ofSizeT data.length).sizeT = .ok (b, bev') := by
    intro bev
    unfold Bufferevent.write
    split_ifs with h63 hle
    · exact ⟨_, _, rfl⟩
    · exact ⟨_, _, rfl⟩
    · exact absurd (Int32.sizeT_ofSizeT_cases data.length) (not_or.2 ⟨h63, hle⟩)
  simp only [writeBufferOnce, hs, rwWLock_zero, ok_bind, hb]
  obtain ⟨b, bev', hbev⟩ := hw { info.bev with
    output := info.bev.output ++ Bytes.le32 (Int32.ofSizeT data.length).toUInt32 }
  rw [if_neg (by decide), hbev]
  exact ⟨_, _, rfl⟩

/-! ## Connections -/

namespace LibeventHandle

variable {lib : LibeventHandle} {ip : Bytes} {port : Int32}

/-- The endpoint is that of the record. -/
def atEndpoint (ip : Bytes) (port : Int32) (e : Int32 × BevInfor) : Bool :=
  e.2.ip = ip && port = e.2.port

theorem connectionOf_eq_some {id : Int32} {info : BevInfor}
    (h : lib.connectionOf ip port = some (id, info)) :
    lib.bevMap.findKey id = some info ∧ atEndpoint ip port (id, info) = true :=
  ⟨AssocMap.findKey_eq_some_iff.2 (List.mem_of_find?_eq_some h), List.find?_some h⟩

/-- Writing to the record found does not change what is found. -/
theorem connectionOf_put {id : Int32} {info info' : BevInfor}
    (h : lib.connectionOf ip port = some (id, info)) (hip : info'.ip = info.ip)
    (hport : info'.port = info.port) :
    { lib with bevMap := lib.bevMap.put id info' }.connectionOf ip port = some (id, info') := by
  refine AssocMap.find?_put h ?_
  rw [← (connectionOf_eq_some h).2, atEndpoint, hip, hport]

theorem outputTo_of_connectionOf {id : Int32} {info : BevInfor}
    (h : lib.connectionOf ip port = some (id, info)) :
    lib.outputTo ip port = info.bev.output := by
  rw [outputTo, h]

/-- The table with a connection added. -/
def added (lib : LibeventHandle) (peer : BevInfor) : LibeventHandle :=
  { lib with maxBevId := lib.maxBevId + 1, bevMap := lib.bevMap.assign lib.maxBevId peer }

theorem addBuffereventConnect_eq (hl : lib.bevMapRwLockSingal = 0) (ip : Bytes) (port : Int32) :
    lib.addBuffereventConnect ip port true =
      .ok (lib.maxBevId, lib.added (.connected ip port)) := by
  have hw : rwWUnlock (-1) = 0 := by decide
  simp only [addBuffereventConnect, Bool.not_true, Bool.false_eq_true, if_false, hl, rwWLock_zero,
    ok_bind, hw, added]
  rfl

theorem getConnectionId_found (hl : lib.bevMapRwLockSingal = 0) {id : Int32} {info : BevInfor}
    (hc : lib.connectionOf ip port = some (id, info)) (tryConnect connects : Bool) :
    lib.getConnectionId ip port tryConnect connects = .ok (id, lib) := by
  have hfind : { lib with bevMapRwLockSingal := 1 }.connectionOf ip port = some (id, info) := hc
  simp only [getConnectionId, rLockMap_eq hl, ok_bind, hfind, rUnlockMap_eq hl]
  rfl

theorem getConnectionId_missing (hl : lib.bevMapRwLockSingal = 0)
    (hc : lib.connectionOf ip port = none) (tryConnect connects : Bool) :
    lib.getConnectionId ip port tryConnect connects =
      if tryConnect then lib.addBuffereventConnect ip port connects else .ok (-1, lib) := by
  have hfind : { lib with bevMapRwLockSingal := 1 }.connectionOf ip port = none := hc
  simp only [getConnectionId, rLockMap_eq hl, ok_bind, hfind, rUnlockMap_eq hl]
  rfl

/-- `get_connection_id` finds the connection, makes one, or fails to connect. -/
theorem getConnectionId_eq (hl : lib.SendReady) (ip : Bytes) (port : Int32) (connects : Bool) :
    ∃ id lib', lib.getConnectionId ip port true connects = .ok (id, lib') ∧ lib'.SendReady ∧
      lib'.outputTo ip port = lib.outputTo ip port ∧
      (id < 0 ∨ ∃ info, lib'.connectionOf ip port = some (id, info)) := by
  cases hc : lib.connectionOf ip port with
  | some e =>
    exact ⟨e.1, lib, getConnectionId_found hl.singal hc true connects, hl, rfl, Or.inr ⟨e.2, hc⟩⟩
  | none =>
    rw [getConnectionId_missing hl.singal hc, if_pos rfl]
    cases connects with
    | false => exact ⟨-1, lib, rfl, hl, rfl, Or.inl (by decide)⟩
    | true =>
      have hc' : (lib.added (.connected ip port)).connectionOf ip port =
          some (lib.maxBevId, .connected ip port) := AssocMap.find?_assign hc (by simp)
      refine ⟨lib.maxBevId, lib.added (.connected ip port),
        addBuffereventConnect_eq hl.singal ip port, ⟨hl.singal, fun id info h => ?_⟩, ?_,
        Or.inr ⟨_, hc'⟩⟩
      · rw [added, AssocMap.findKey_assign] at h
        split_ifs at h
        · cases h
          rfl
        · exact hl.writeSingal id info h
      · rw [outputTo_of_connectionOf hc', outputTo, hc]

/-- `send` on a connection. -/
theorem SendReady.send_found (hl : lib.SendReady) {id : Int32} {info : BevInfor} (hneg : ¬ id < 0)
    (hkey : lib.bevMap.findKey id = some info) {data : Bytes} {n : Nat} (hn : n = data.length)
    (hlt : n < 2 ^ 31) :
    ∃ info', lib.send id data (UInt32.ofNat n).toInt32 =
        .ok (true, { lib with bevMap := lib.bevMap.put id info' }) ∧
      { lib with bevMap := lib.bevMap.put id info' }.SendReady ∧
      info'.bev.output = info.bev.output ++ (Bytes.le32 (UInt32.ofNat n) ++ data) ∧
      info'.ip = info.ip ∧ info'.port = info.port := by
  obtain ⟨info', hw, hout, hip, hport, hws⟩ :=
    BevInfor.writeBufferOnce_eq (hl.writeSingal id info hkey) hn hlt
  refine ⟨info', ?_, ⟨hl.singal, ?_⟩, hout, hip, hport⟩
  · simp only [send, if_neg hneg, rLockMap_eq hl.singal, ok_bind, hkey, rUnlockMap_eq hl.singal,
      hw]
    rfl
  · intro id' info'' h
    rw [AssocMap.findKey_put] at h
    split_ifs at h
    · rw [hkey, Option.map_some, Option.some_inj] at h
      rw [← h, hws]
    · exact hl.writeSingal id' info'' h

/-- `send` on the connection found for an endpoint. -/
theorem send_connected (hl : lib.SendReady) {id : Int32} {info : BevInfor} (hneg : ¬ id < 0)
    (hc : lib.connectionOf ip port = some (id, info)) {data : Bytes} {n : Nat}
    (hn : n = data.length) (hlt : n < 2 ^ 31) :
    ∃ lib' info', lib.send id data (UInt32.ofNat n).toInt32 = .ok (true, lib') ∧
      lib'.SendReady ∧ lib'.connectionOf ip port = some (id, info') ∧
      info'.bev.output = info.bev.output ++ (Bytes.le32 (UInt32.ofNat n) ++ data) := by
  obtain ⟨info', hsend, hl', hout, hip, hport⟩ :=
    hl.send_found hneg (connectionOf_eq_some hc).1 hn hlt
  exact ⟨_, info', hsend, hl', connectionOf_put hc hip hport, hout⟩

/-- `send` writes to the connection found, or nothing. -/
theorem send_eq (hl : lib.SendReady) {id : Int32}
    (hid : id < 0 ∨ ∃ info, lib.connectionOf ip port = some (id, info)) {data : Bytes} {n : Nat}
    (hn : n = data.length) (hlt : n < 2 ^ 31) :
    ∃ b lib', lib.send id data (UInt32.ofNat n).toInt32 = .ok (b, lib') ∧ lib'.SendReady ∧
      (lib'.outputTo ip port = lib.outputTo ip port ∨ lib'.outputTo ip port =
        lib.outputTo ip port ++ (Bytes.le32 (UInt32.ofNat n) ++ data)) := by
  by_cases hneg : id < 0
  · refine ⟨false, lib, ?_, hl, Or.inl rfl⟩
    rw [send, if_pos hneg]
    rfl
  · obtain ⟨info, hc⟩ := hid.resolve_left hneg
    obtain ⟨lib', info', hsend, hl', hc', hout⟩ := send_connected hl hneg hc hn hlt
    refine ⟨true, lib', hsend, hl', Or.inr ?_⟩
    rw [outputTo_of_connectionOf hc', outputTo_of_connectionOf hc, hout]

/-- `send` returns on the connection found, and on none. -/
theorem send_ok (hl : lib.SendReady) {id : Int32}
    (hid : id < 0 ∨ ∃ info, lib.connectionOf ip port = some (id, info)) (data : Bytes) :
    ∃ b lib', lib.send id data (Int32.ofSizeT data.length) = .ok (b, lib') := by
  by_cases hneg : id < 0
  · refine ⟨false, lib, ?_⟩
    rw [send, if_pos hneg]
    rfl
  · obtain ⟨info, hc⟩ := hid.resolve_left hneg
    have hf := (connectionOf_eq_some hc).1
    obtain ⟨b, info', hw⟩ := BevInfor.writeBufferOnce_ok (hl.writeSingal id info hf) data
    refine ⟨true, { lib with bevMap := lib.bevMap.put id info' }, ?_⟩
    simp only [send, if_neg hneg, rLockMap_eq hl.singal, ok_bind, hf, rUnlockMap_eq hl.singal, hw]
    rfl

end LibeventHandle

/-! ## Messages -/

/-- Memory of the caller is what it is whatever the buffer holds. -/
theorem str_of_rebuilt {p : CharPtr} {s : Bytes} (h : p.rebuilt.str [] = .ok s) (bs : Bytes) :
    p.str bs = .ok s := by
  cases p with
  | null => exact h
  | mem bytes => exact h
  | buf offset => cases h

section
variable {h : EventMessageHandle} {m : EventMessage} {g host : Bytes} {c : Content}
  {group : GroupInfor}

theorem getPort_eq (host : Bytes) (hg : h.messGroupMap.findKey g = some group) :
    (∃ port, group.hostPortMap.findKey host = some port ∧ h.getPort host g = (port, h)) ∨
      h.getPort host g = (0, h.putGroup g
        (group.enterPort host)) := by
  unfold getPort
  cases hp : group.hostPortMap.findKey host with
  | some port => exact Or.inl ⟨port, rfl, by simp only [hg, hp]⟩
  | none => exact Or.inr (by simp only [hg, hp])

/-- `get_port` changes nothing that sending looks at. -/
theorem getPort_written (host : Bytes) (hs : SendReady h g) :
    SendReady (h.getPort host g).2 g ∧ (h.getPort host g).2.localHostName = h.localHostName ∧
      (h.getPort host g).2.written g host = h.written g host := by
  cases hg : h.messGroupMap.findKey g with
  | none =>
    have he : h.getPort host g = (0, h) := by rw [getPort, hg]
    rw [he]
    exact ⟨hs, rfl, rfl⟩
  | some group =>
    obtain ⟨port, -, he⟩ | he := getPort_eq host hg
    · rw [he]
      exact ⟨hs, rfl, rfl⟩
    · rw [he]
      have hg' : (h.putGroup g (group.enterPort host)).messGroupMap.findKey g =
          some (group.enterPort host) := AssocMap.findKey_put_self hg _
      have hp' : ((h.putGroup g (group.enterPort host)).getPort host g).1 = 0 := by
        rw [getPort, hg']
        simp only [GroupInfor.enterPort, AssocMap.findKey_assign, if_true]
      refine ⟨fun group'' hg'' => ?_, rfl, ?_⟩
      · cases hg'.symm.trans hg''
        exact hs group hg
      · show (h.putGroup g (group.enterPort host)).written g host = _
        have hip : (h.putGroup g (group.enterPort host)).getIp host = h.getIp host := rfl
        unfold written
        rw [hip, hg', hg, hp', he]
        cases h.getIp host <;> rfl

theorem written_eq {ip : Bytes} (hip : h.getIp host = some ip)
    (hg : h.messGroupMap.findKey g = some group) :
    h.written g host = group.handle.outputTo ip (h.getPort host g).1 := by
  rw [written, hip, hg]

theorem written_putHandle {ip : Bytes} {port : Int32} (hip : h.getIp host = some ip)
    (hg : h.messGroupMap.findKey g = some group)
    (hp : group.hostPortMap.findKey host = some port) (lib : LibeventHandle) :
    (h.putHandle g group lib).written g host = lib.outputTo ip port := by
  have hg' : (h.putHandle g group lib).messGroupMap.findKey g =
    some { group with handle := lib } := AssocMap.findKey_put_self hg _
  have hport : ((h.putHandle g group lib).getPort host g).1 = port := by
    rw [getPort, hg']
    simp only [hp]
  rw [written_eq (h := h.putHandle g group lib) hip hg', hport]

theorem sendReady_putHandle (hg : h.messGroupMap.findKey g = some group) {lib : LibeventHandle}
    (hl : lib.SendReady) : SendReady (h.putHandle g group lib) g := by
  intro group' hg'
  cases (AssocMap.findKey_put_self hg _).symm.trans hg'
  exact hl

/-- The message passes the checks of `sendMessage`. -/
structure Passes (h : EventMessageHandle) (m : EventMessage) (c : Content) (group : GroupInfor)
    (ip : Bytes) (port : Int32) : Prop where
  willSend : m.willSend = true
  findGroup : h.messGroupMap.findKey c.groupName = some group
  findType : ∃ cb, group.messCallbackMap.findKey c.messType = some cb
  findIp : h.getIp c.reciveHostName = some ip
  findPort : group.hostPortMap.findKey c.reciveHostName = some port
  ne_zero : port ≠ 0

theorem Passes.getPort_eq {ip : Bytes} {port : Int32} (hp : Passes h m c group ip port) :
    h.getPort c.reciveHostName c.groupName = (port, h) := by
  rw [getPort, hp.findGroup]
  simp only [hp.findPort]

/-- What `sendMessage` does after its checks. -/
theorem sendMessage_passes (hc : m.outgoing h.localHostName = .ok c) {ip : Bytes} {port : Int32}
    (hp : Passes h m c group ip port) (connects : Bool) :
    h.sendMessage m connects =
      { m with sendHostName := .mem (h.localHostName ++ [0]) }.initBufferStr >>= fun m =>
        group.handle.getConnectionId ip port true connects >>= fun x =>
          x.2.send x.1 m.bufferStr m.bufferSize.toInt32 >>= fun y =>
            .ok (1, m, h.putHandle c.groupName group y.2) := by
  obtain ⟨hg, ht, -, hr, -⟩ := content_eq_ok hc
  obtain ⟨cb, hcb⟩ := hp.findType
  have hck := checkMessType_found (str_of_rebuilt hg _) (str_of_rebuilt ht _) hp.findGroup hcb
  unfold sendMessage
  rw [if_neg (by rw [hp.willSend]; decide)]
  simp only [hck, ok_bind, str_of_rebuilt hr, hp.getPort_eq, hp.findIp, hp.findGroup,
    if_neg hp.ne_zero]
  rfl

/-- A message with no failed check passes them all. -/
theorem passes_of_failedCheck (hf : h.failedCheck m c = none) :
    ∃ group ip port, Passes h m c group ip port := by
  unfold failedCheck at hf
  split_ifs at hf with hw
  cases hgroup : h.messGroupMap.findKey c.groupName with
  | none =>
    rw [hgroup] at hf
    cases hf
  | some group =>
    simp only [hgroup] at hf
    split_ifs at hf with ht
    cases hip : h.getIp c.reciveHostName with
    | none =>
      rw [hip] at hf
      cases hf
    | some ip =>
      cases hp : group.hostPortMap.findKey c.reciveHostName with
      | none =>
        rw [hip, hp] at hf
        cases hf
      | some port =>
        simp only [hip, hp] at hf
        split_ifs at hf with h0
        have hcb := Option.ne_none_iff_exists'.1 (mt Option.isNone_iff_eq_none.2 ht)
        exact ⟨group, ip, port, by simpa using hw, hgroup, hcb, hip, hp, h0⟩

theorem Passes.failedCheck {ip : Bytes} {port : Int32} (hp : Passes h m c group ip port) :
    h.failedCheck m c = none := by
  obtain ⟨cb, hcb⟩ := hp.findType
  simp [EventMessageHandle.failedCheck, hp.willSend, hp.findGroup, hcb, hp.findIp, hp.findPort,
    hp.ne_zero]

/-- A message that does not pass a check; only the last one looks the port up. -/
theorem sendMessage_failed (hc : m.outgoing h.localHostName = .ok c) {e : EventMessageErrorNo}
    (hf : h.failedCheck m c = some e) (connects : Bool) :
    h.sendMessage m connects = .ok (-1, { m with errorNo := e },
      if e = .invalidHost then (h.getPort c.reciveHostName c.groupName).2 else h) := by
  obtain ⟨hg, ht, -, hr, -⟩ := content_eq_ok hc
  replace hg := str_of_rebuilt hg m.bufferStr
  replace ht := str_of_rebuilt ht m.bufferStr
  unfold failedCheck at hf
  unfold sendMessage
  by_cases hw : (!m.willSend) = true
  · rw [if_pos hw] at hf ⊢
    cases hf
    rfl
  rw [if_neg hw] at hf ⊢
  cases hgroup : h.messGroupMap.findKey c.groupName with
  | none =>
    simp only [hgroup] at hf
    cases hf
    simp only [checkMessType, hg, ok_bind, hgroup]
    rfl
  | some group =>
    simp only [hgroup] at hf
    cases hcb : group.messCallbackMap.findKey c.messType with
    | none =>
      simp only [hcb, Option.isNone_none, if_true] at hf
      cases hf
      simp only [checkMessType, hg, ht, ok_bind, hgroup, hcb]
      rfl
    | some cb =>
      simp only [hcb, Option.isNone_some, Bool.false_eq_true, if_false] at hf
      simp only [checkMessType_found hg ht hgroup hcb, ok_bind, str_of_rebuilt hr]
      -- the host has no ip, or its port is looked up and is 0
      cases hip : h.getIp c.reciveHostName with
      | none =>
        simp only [hip] at hf
        cases hf
        rfl
      | some ip =>
        have h0 : (h.getPort c.reciveHostName c.groupName).1 = 0 ∧ e = .invalidHost := by
          unfold getPort
          cases hp : group.hostPortMap.findKey c.reciveHostName with
          | none =>
            simp only [hip, hp] at hf
            cases hf
            simp [hgroup, hp]
          | some port =>
            simp only [hip, hp] at hf
            split_ifs at hf with h0
            cases hf
            simp [hgroup, hp, h0]
        obtain ⟨h0, rfl⟩ := h0
        cases (h.getPort c.reciveHostName c.groupName).2.messGroupMap.findKey c.groupName with
        | none => rfl
        | some group' =>
          simp only [if_pos h0]
          rfl

/-- A message passes the checks, or `sendMessage` fails and has at most looked up the port. -/
theorem sendMessage_cases (hc : m.outgoing h.localHostName = .ok c) (connects : Bool) :
    (∃ e h', h.sendMessage m connects = .ok (-1, { m with errorNo := e }, h') ∧
      (h' = h ∨ h' = (h.getPort c.reciveHostName c.groupName).2)) ∨
      ∃ group ip port, Passes h m c group ip port := by
  cases hf : h.failedCheck m c with
  | none => exact Or.inr (passes_of_failedCheck hf)
  | some e =>
    refine Or.inl ⟨e, _, sendMessage_failed hc hf connects, ?_⟩
    split_ifs
    · exact Or.inr rfl
    · exact Or.inl rfl

/-- A message that passes the checks is given to its connection. -/
theorem sendMessage_accepted (hc : m.outgoing h.localHostName = .ok c) {ip : Bytes} {port : Int32}
    (hp : Passes h m c group ip port) (hlt : c.size < 2 ^ 31) {connects b : Bool} {id : Int32}
    {lib lib' : LibeventHandle}
    (hget : group.handle.getConnectionId ip port true connects = .ok (id, lib))
    (hsend : lib.send id c.encode (UInt32.ofNat c.size).toInt32 = .ok (b, lib')) :
    ∃ m', h.sendMessage m connects = .ok (1, m', h.putHandle c.groupName group lib') := by
  rw [sendMessage_passes hc hp, initBufferStr_eq hc (by omega), ok_bind, hget, ok_bind]
  dsimp only
  rw [hsend, ok_bind]
  exact ⟨_, rfl⟩

/-- A message that passes the checks, however long it is. -/
theorem sendMessage_ok (hs : SendReady h c.groupName) (hc : m.outgoing h.localHostName = .ok c)
    {ip : Bytes} {port : Int32} (hp : Passes h m c group ip port) (connects : Bool) :
    ∃ m' h', h.sendMessage m connects = .ok (1, m', h') := by
  obtain ⟨m', hm', hsize⟩ := initBufferStr_ok hc
  obtain ⟨id, lib, hget, hready, -, hid⟩ :=
    LibeventHandle.getConnectionId_eq (hs group hp.findGroup) ip port connects
  obtain ⟨b, lib', hsend⟩ := LibeventHandle.send_ok hready hid m'.bufferStr
  refine ⟨m', h.putHandle c.groupName group lib', ?_⟩
  rw [sendMessage_passes hc hp, hm', ok_bind, hget, ok_bind, hsize, Int32.toInt32_ofNat, hsend,
    ok_bind]

/-- **`sendMessage` writes the frame of the message, or nothing.** -/
theorem sendMessage_written (hs : SendReady h g) (hc : m.outgoing h.localHostName = .ok c)
    (hg : c.groupName = g) (hhost : c.reciveHostName = host) (hlt : c.frame.length < 2 ^ 31)
    (connects : Bool) :
    ∃ v m' h', h.sendMessage m connects = .ok (v, m', h') ∧ SendReady h' g ∧
      h'.localHostName = h.localHostName ∧
      (h'.written g host = h.written g host ∨ h'.written g host = h.written g host ++ c.frame) := by
  subst hg hhost
  rw [length_frame] at hlt
  rcases sendMessage_cases hc connects with ⟨e, h', hsend, rfl | rfl⟩ | ⟨group, ip, port, hp⟩
  · exact ⟨_, _, h', hsend, hs, rfl, Or.inl rfl⟩
  · obtain ⟨hs', hl', hwr'⟩ := getPort_written c.reciveHostName hs
    exact ⟨_, _, _, hsend, hs', hl', Or.inl hwr'⟩
  · obtain ⟨id, lib, hget, hready, hout, hid⟩ :=
      LibeventHandle.getConnectionId_eq (hs group hp.findGroup) ip port connects
    obtain ⟨b, lib', hsend, hready', hout'⟩ :=
      LibeventHandle.send_eq hready hid (length_encode c).symm (by omega)
    obtain ⟨m', hm'⟩ := sendMessage_accepted hc hp (by omega) hget hsend
    refine ⟨1, m', _, hm', sendReady_putHandle hp.findGroup hready', rfl, ?_⟩
    rw [written_putHandle hp.findIp hp.findGroup hp.findPort, written_eq hp.findIp hp.findGroup,
      hp.getPort_eq, ← hout]
    exact hout'

/-! ## A host with a connection -/

/-- The host is configured and has a connection of the group. -/
def Linked (h : EventMessageHandle) (g host : Bytes) : Prop :=
  ∃ group ip port id info, h.messGroupMap.findKey g = some group ∧ h.getIp host = some ip ∧
    group.hostPortMap.findKey host = some port ∧ port ≠ 0 ∧ group.handle.SendReady ∧
    group.handle.connectionOf ip port = some (id, info) ∧ ¬ id < 0

/-- A message for a host with a connection is written. -/
theorem Linked.sendMessage (hl : Linked h g host) (hc : m.outgoing h.localHostName = .ok c)
    (hg : c.groupName = g) (hhost : c.reciveHostName = host) (hlt : c.frame.length < 2 ^ 31)
    (hw : m.willSend = true) (hconf : Configured h g c.messType) (connects : Bool) :
    ∃ m' h', h.sendMessage m connects = .ok (1, m', h') ∧ SendReady h' g ∧
      h'.localHostName = h.localHostName ∧ h'.written g host = h.written g host ++ c.frame ∧
      Linked h' g host ∧ ∀ t, Configured h g t → Configured h' g t := by
  subst hg hhost
  rw [length_frame] at hlt
  obtain ⟨group, ip, port, id, info, hgroup, hip, hp, h0, hready, hconn, hneg⟩ := hl
  obtain ⟨group', cb, hgroup', hcb⟩ := hconf
  cases hgroup.symm.trans hgroup'
  have hpass : Passes h m c group ip port := ⟨hw, hgroup, ⟨cb, hcb⟩, hip, hp, h0⟩
  obtain ⟨lib', info', hsend, hready', hconn', hout⟩ :=
    LibeventHandle.send_connected hready hneg hconn (length_encode c).symm (by omega)
  obtain ⟨m', hm'⟩ := sendMessage_accepted hc hpass (by omega)
    (LibeventHandle.getConnectionId_found hready.singal hconn true connects) hsend
  refine ⟨m', _, hm', sendReady_putHandle hgroup hready', rfl, ?_, ?_, ?_⟩
  · rw [written_putHandle hip hgroup hp, written_eq hip hgroup, hpass.getPort_eq,
      LibeventHandle.outputTo_of_connectionOf hconn', hout,
      LibeventHandle.outputTo_of_connectionOf hconn]
    rfl
  · exact ⟨_, ip, port, id, info', AssocMap.findKey_put_self hgroup _, hip, hp, h0, hready',
      hconn', hneg⟩
  · intro t ht
    obtain ⟨group', cb, hgroup', hcb⟩ := ht
    cases hgroup.symm.trans hgroup'
    exact ⟨_, cb, AssocMap.findKey_put_self hgroup _, hcb⟩

end

/-! ## Many messages -/

/-- The bytes of messages on the wire. -/
abbrev wire (cs : List Content) : Bytes := Framing.stream Content.frame cs

theorem wire_append (cs cs' : List Content) : wire (cs ++ cs') = wire cs ++ wire cs' :=
  Framing.stream_append cs cs'

theorem wire_cons (c : Content) (cs : List Content) : wire (c :: cs) = c.frame ++ wire cs := rfl

/-- The sender has written the frames of `cs`. -/
structure Wrote (g host localHostName : Bytes) (s : Sender) (cs : List Content) : Prop where
  ready : SendReady s.handle g
  localHost : s.handle.localHostName = localHostName
  written : s.handle.written g host = wire cs
  marks : s.marks = Framing.marks Content.frame 0 cs

section
variable {peer : EventMessageHandle} {g host localHostName : Bytes}

/-- A call that writes its frame is marked. -/
theorem Wrote.snoc {s : Sender} {cs : List Content} (hw : Wrote g host localHostName s cs)
    {m m' : EventMessage} {c : Content} {v : Int32} {h : EventMessageHandle} {connects : Bool}
    (hc : m.outgoing localHostName = .ok c)
    (hsend : s.handle.sendMessage m connects = .ok (v, m', h)) (hready : SendReady h g)
    (hlocal : h.localHostName = s.handle.localHostName)
    (hout : h.written g host = s.handle.written g host ++ c.frame) :
    ∃ s', s.send g host m connects = some s' ∧ s'.handle = h ∧
      Wrote g host localHostName s' (cs ++ [c]) := by
  have hlen : (h.written g host).length ≠ (s.handle.written g host).length := by
    rw [hout, List.length_append, length_frame]
    omega
  have hwritten : h.written g host = wire (cs ++ [c]) := by
    rw [hout, hw.written, wire_append]
    simp
  rw [← hw.localHost] at hc
  simp only [Sender.send, hsend, hc, if_neg hlen]
  refine ⟨_, rfl, rfl, hready, hlocal.trans hw.localHost, hwritten, ?_⟩
  rw [Framing.marks_snoc, ← hw.marks, hwritten, Nat.zero_add]

theorem Wrote.send {s : Sender} {cs : List Content} (hw : Wrote g host localHostName s cs)
    {m : EventMessage} {c : Content} (hm : MessageFor peer g host localHostName m c)
    (connects : Bool) :
    ∃ s' cs', s.send g host m connects = some s' ∧ Wrote g host localHostName s' cs' ∧
      (cs' = cs ∨ cs' = cs ++ [c]) := by
  have hreads := hm.reads
  rw [← hw.localHost] at hreads
  obtain ⟨v, m', h', hsend, hready, hlocal, hsame | hmore⟩ :=
    sendMessage_written hw.ready hreads hm.group hm.host hm.size connects
  · simp only [Sender.send, hsend, hreads, hsame, if_true]
    exact ⟨_, cs, rfl, ⟨hready, hlocal.trans hw.localHost, hsame.trans hw.written, hw.marks⟩,
      Or.inl rfl⟩
  · obtain ⟨s', hs', -, hw'⟩ := hw.snoc hm.reads hsend hready hlocal hmore
    exact ⟨s', _, hs', hw', Or.inr rfl⟩

/-- **A host that sends to one peer writes the frames of the messages it marks.** -/
theorem Wrote.runFrom {h : EventMessageHandle} : ∀ {sends : List (EventMessage × Bool)} {s : Sender}
    {cs : List Content}, Wrote g host localHostName s cs →
    (∀ x ∈ sends, ∃ c, MessageFor peer g host localHostName x.1 c) →
    ∃ s' more, (sending g host h).runFrom s sends = some s' ∧
      Wrote g host localHostName s' (cs ++ more) ∧
      ∀ c ∈ more, ∃ m, MessageFor peer g host localHostName m c
  | [], s, cs, hw, _ => ⟨s, [], rfl, by rwa [List.append_nil], fun _ h => nomatch h⟩
  | x :: sends, s, cs, hw, hm => by
    obtain ⟨c, hc⟩ := hm x (List.mem_cons_self ..)
    obtain ⟨s', cs', hs', hw', hcs⟩ := hw.send hc x.2
    obtain ⟨s'', more, hrun, hw'', hmore⟩ := hw'.runFrom fun y hy => hm y (.tail _ hy)
    have hrun' : (sending g host h).runFrom s (x :: sends) = some s'' := by
      simp only [System.runFrom, sending, hs', Option.bind_some]
      exact hrun
    obtain rfl | rfl := hcs
    · exact ⟨s'', more, hrun', hw'', hmore⟩
    · refine ⟨s'', c :: more, hrun', by simpa using hw'', fun c' hc' => ?_⟩
      obtain rfl | hc' := List.mem_cons.1 hc'
      · exact ⟨x.1, hc⟩
      · exact hmore c' hc'

/-- A host with a connection to the peer writes all of them. -/
theorem Wrote.runFrom_linked {h : EventMessageHandle} :
    ∀ {sends : List (EventMessage × Bool)} {contents cs : List Content} {s : Sender},
    Wrote g host localHostName s cs → Linked s.handle g host →
    List.Forall₂ (fun x c => MessageFor s.handle g host localHostName x.1 c ∧
      x.1.willSend = true) sends contents →
    ∃ s', (sending g host h).runFrom s sends = some s' ∧
      Wrote g host localHostName s' (cs ++ contents)
  | [], _, cs, s, hw, _, .nil => ⟨s, rfl, by rwa [List.append_nil]⟩
  | x :: sends, c :: contents, cs, s, hw, hl, .cons ⟨hm, hwill⟩ hms => by
    have hreads := hm.reads
    rw [← hw.localHost] at hreads
    obtain ⟨m', h', hsend, hready, hlocal, hout, hl', hconf⟩ :=
      hl.sendMessage hreads hm.group hm.host hm.size hwill hm.configured x.2
    obtain ⟨s', hs', rfl, hw'⟩ := hw.snoc hm.reads hsend hready hlocal hout
    obtain ⟨s'', hrun, hw''⟩ := hw'.runFrom_linked (h := h) hl' (hms.imp fun x c hx =>
      ⟨⟨hx.1.reads, hx.1.group, hx.1.host, hconf _ hx.1.configured, hx.1.size⟩, hx.2⟩)
    refine ⟨s'', ?_, by simpa using hw''⟩
    simp only [System.runFrom, sending, hs', Option.bind_some]
    exact hrun

end

end Net
