import Mtc.Net.Arrive
import Mtc.Net.Proof.Connections
import Mtc.Net.Proof.Queue
import Mtc.Net.Proof.SendResult

/-!
# A host that is online

What the calls of a host do to the table of its connections while no lock is held and every id has
been given out once (`LibeventHandle.Online`). A record changes in one of two ways: bytes are
appended to what it has written (`BevInfor.written`), or its receiving side is read
(`BevInfor.withRx`).

`sendMessage_appends`: `sendMessage` writes the frame of its message to a record for the endpoint of
the receiver, which may be a new one, or nothing when it cannot connect.
-/

namespace Net

open Except (ok_bind bind_eq_ok)
open EventMessage (Content)
open EventMessageHandle

/-! ## Records -/

namespace BevInfor

/-- The record with bytes appended to its output. -/
def written (info : BevInfor) (bytes : Bytes) : BevInfor :=
  { info with bev := { info.bev with output := info.bev.output ++ bytes } }

/-- The record with bytes added to its input. -/
def received (info : BevInfor) (bytes : Bytes) : BevInfor :=
  info.withRx { info.rx with input := info.bev.input ++ bytes }

/-- What a record was made with. -/
def head (info : BevInfor) : Bytes × Int32 × Bool := (info.ip, info.port, info.isListen)

/-- `writeBufferOnce` appends the size and the bytes. -/
theorem writeBufferOnce_written {info : BevInfor} (hs : info.writeSingal = 0) {data : Bytes}
    {n : Nat} (hn : n = data.length) (hlt : n < 2 ^ 31) :
    info.writeBufferOnce data (UInt32.ofNat n).toInt32 =
      .ok (true, info.written (Bytes.le32 (UInt32.ofNat n) ++ data)) := by
  have hsz : (UInt32.ofNat n).toInt32.sizeT = n := by
    rw [Int32.toInt32_ofNat, Int32.sizeT_ofSizeT_of_lt hlt]
  have hb : info.bev.write (Bytes.le32 (UInt32.ofNat n)) sizeofBlock = _ :=
    Bufferevent.write_eq info.bev (Bytes.length_le32 _).symm (by decide)
  have hu : (UInt32.ofNat n).toInt32.toUInt32 = UInt32.ofNat n := rfl
  have hw : rwWUnlock (-1) = 0 := by decide
  simp only [writeBufferOnce, hs, rwWLock_zero, ok_bind, hsz, hu, hb, hw,
    Bufferevent.write_eq _ hn (show n < 2 ^ 63 by omega), written]
  rw [List.append_assoc, ← hs]
  rfl

end BevInfor

/-! ## The table -/

namespace LibeventHandle

variable {lib lib' : LibeventHandle} {ip : Bytes} {port id : Int32} {info info' : BevInfor}

/-- No lock is held, and the ids in use are those that were given out. -/
structure Online (lib : LibeventHandle) : Prop where
  rest : lib.AtRest
  max : 0 ≤ lib.maxBevId.toInt
  readSingal : ∀ id info, lib.bevMap.findKey id = some info → info.readSingal = 0
  writeSingal : ∀ id info, lib.bevMap.findKey id = some info → info.writeSingal = 0
  ids : ∀ id info, lib.bevMap.findKey id = some info →
    0 ≤ id.toInt ∧ id.toInt < lib.maxBevId.toInt

theorem online_init : ({} : LibeventHandle).Online :=
  ⟨⟨rfl, rfl⟩, by decide, nofun, nofun, nofun⟩

theorem Online.ready (h : lib.Online) (hf : lib.bevMap.findKey id = some info) :
    lib.Ready id info :=
  ⟨h.rest.singal, hf, h.readSingal id info hf⟩

/-- The next id is not in use. -/
theorem Online.findKey_maxBevId (h : lib.Online) : lib.bevMap.findKey lib.maxBevId = none := by
  refine Option.eq_none_iff_forall_ne_some.2 fun info hf => ?_
  have := (h.ids _ info hf).2
  omega

theorem findKey_putRecord (hf : lib.bevMap.findKey id = some info) (info' : BevInfor)
    (id' : Int32) : (lib.putRecord id info').bevMap.findKey id' =
      if id' = id then some info' else lib.bevMap.findKey id' := by
  rw [putRecord, AssocMap.findKey_put, hf]
  rfl

/-- A record that keeps its locks is replaced. -/
theorem Online.putRecord (h : lib.Online) (hf : lib.bevMap.findKey id = some info)
    (hr : info'.readSingal = info.readSingal) (hw : info'.writeSingal = info.writeSingal) :
    (lib.putRecord id info').Online := by
  have hold : ∀ {id' info''}, (lib.putRecord id info').bevMap.findKey id' = some info'' →
      ∃ info₀, lib.bevMap.findKey id' = some info₀ ∧ info''.readSingal = info₀.readSingal ∧
        info''.writeSingal = info₀.writeSingal := by
    intro id' info'' hf'
    rw [findKey_putRecord hf] at hf'
    split_ifs at hf' with hid
    · cases hf'
      exact ⟨info, by rw [hid, hf], hr, hw⟩
    · exact ⟨info'', hf', rfl, rfl⟩
  refine ⟨⟨h.rest.singal, h.rest.listenSingal⟩, h.max, fun id' info'' hf' => ?_,
    fun id' info'' hf' => ?_, fun id' info'' hf' => ?_⟩
  · obtain ⟨info₀, hf₀, hr₀, -⟩ := hold hf'
    rw [hr₀, h.readSingal id' info₀ hf₀]
  · obtain ⟨info₀, hf₀, -, hw₀⟩ := hold hf'
    rw [hw₀, h.writeSingal id' info₀ hf₀]
  · obtain ⟨info₀, hf₀, -⟩ := hold hf'
    exact h.ids id' info₀ hf₀

theorem findKey_added (lib : LibeventHandle) (peer : BevInfor) (id : Int32) :
    (lib.added peer).bevMap.findKey id =
      if id = lib.maxBevId then some peer else lib.bevMap.findKey id :=
  AssocMap.findKey_assign ..

theorem Online.toInt_maxBevId_added (h : lib.Online) (hroom : lib.maxBevId.toInt + 1 < 2 ^ 31)
    (peer : BevInfor) : (lib.added peer).maxBevId.toInt = lib.maxBevId.toInt + 1 := by
  have := h.max
  rw [added, Int32.toInt_succ, if_neg (by omega)]

/-- A connection is added while there is an id for it. -/
theorem Online.added (h : lib.Online) (hroom : lib.maxBevId.toInt + 1 < 2 ^ 31)
    {peer : BevInfor} (hr : peer.readSingal = 0) (hw : peer.writeSingal = 0) :
    (lib.added peer).Online := by
  have hmax := h.toInt_maxBevId_added hroom peer
  have h0 := h.max
  refine ⟨⟨h.rest.singal, h.rest.listenSingal⟩, by omega, fun id info hf => ?_,
    fun id info hf => ?_, fun id info hf => ?_⟩
  · rw [findKey_added] at hf
    split_ifs at hf
    · cases hf
      exact hr
    · exact h.readSingal id info hf
  · rw [findKey_added] at hf
    split_ifs at hf
    · cases hf
      exact hw
    · exact h.writeSingal id info hf
  · rw [findKey_added] at hf
    split_ifs at hf with hid
    · rw [hid]
      omega
    · have := h.ids id info hf
      omega

theorem Online.listened (h : lib.Online) (hroom : lib.maxBevId.toInt + 1 < 2 ^ 31)
    {peer : BevInfor} (hr : peer.readSingal = 0) (hw : peer.writeSingal = 0) :
    (lib.listened peer).Online := by
  obtain ⟨⟨hs, hl⟩, hmax, hread, hwrite, hids⟩ := h.added hroom hr hw
  exact ⟨⟨hs, hl⟩, hmax, hread, hwrite, hids⟩

/-! ## Writing to an endpoint -/

/-- Bytes are appended to the record `id` for the endpoint, which is an old one or a new one. -/
structure Appended (lib lib' : LibeventHandle) (ip : Bytes) (port id : Int32) (info : BevInfor)
    (bytes : Bytes) : Prop where
  found : lib.bevMap.findKey id = some info ∨ lib.bevMap.findKey id = none ∧
    info = .connected ip port
  head : info.ip = ip ∧ info.port = port
  records : ∀ id', lib'.bevMap.findKey id' =
    if id' = id then some (info.written bytes) else lib.bevMap.findKey id'
  max : lib'.maxBevId.toInt ≤ lib.maxBevId.toInt + 1

/-- `send` on a record. -/
theorem Online.send_record (h : lib.Online) (hf : lib.bevMap.findKey id = some info) {data : Bytes}
    {n : Nat} (hn : n = data.length) (hlt : n < 2 ^ 31) :
    lib.send id data (UInt32.ofNat n).toInt32 =
      .ok (true, lib.putRecord id (info.written (Bytes.le32 (UInt32.ofNat n) ++ data))) := by
  have hneg : ¬ id < 0 := by
    have := (h.ids id info hf).1
    rw [Int32.lt_iff_toInt_lt, Int32.toInt_zero]
    omega
  simp only [send, if_neg hneg, rLockMap_eq h.rest.singal, ok_bind, hf, rUnlockMap_eq h.rest.singal,
    BevInfor.writeBufferOnce_written (h.writeSingal id info hf) hn hlt]
  rfl

/-- `get_connection_id` and `send` with a message for an endpoint. -/
theorem Online.send_endpoint (h : lib.Online) (hroom : lib.maxBevId.toInt + 1 < 2 ^ 31)
    (ip : Bytes) (port : Int32) (connects : Bool) {c : Content} (hlt : c.size < 2 ^ 31) :
    ∃ id lib₁ b lib', lib.getConnectionId ip port true connects = .ok (id, lib₁) ∧
      lib₁.send id c.encode (UInt32.ofNat c.size).toInt32 = .ok (b, lib') ∧ lib'.Online ∧
      (connects = false ∧ lib' = lib ∨ ∃ id info, lib.Appended lib' ip port id info c.frame) := by
  cases hc : lib.connectionOf ip port with
  | some e =>
    obtain ⟨hf, hip, hport⟩ := endpoint_of_connectionOf hc
    refine ⟨e.1, lib, true, _, getConnectionId_found h.rest.singal hc true connects,
      h.send_record hf (length_encode c).symm hlt, h.putRecord hf rfl rfl,
      Or.inr ⟨e.1, e.2, Or.inl hf, ⟨hip, hport⟩, findKey_putRecord hf _, ?_⟩⟩
    exact Int.le_add_one (Int.le_refl _)
  | none =>
    have hget := getConnectionId_missing h.rest.singal hc true connects
    rw [if_pos rfl] at hget
    cases connects with
    | false =>
      refine ⟨-1, lib, false, lib, hget, ?_, h, Or.inl ⟨rfl, rfl⟩⟩
      rw [send, if_pos (by decide)]
      rfl
    | true =>
      have hadd : (lib.added (.connected ip port)).Online := h.added hroom rfl rfl
      have hf : (lib.added (.connected ip port)).bevMap.findKey lib.maxBevId =
          some (.connected ip port) := by
        rw [findKey_added, if_pos rfl]
      refine ⟨lib.maxBevId, lib.added (.connected ip port), true, _,
        hget.trans (addBuffereventConnect_eq h.rest.singal ip port),
        hadd.send_record hf (length_encode c).symm hlt, hadd.putRecord hf rfl rfl,
        Or.inr ⟨lib.maxBevId, .connected ip port, Or.inr ⟨h.findKey_maxBevId, rfl⟩, ⟨rfl, rfl⟩,
          fun id' => ?_, Int.le_of_eq (h.toInt_maxBevId_added hroom (.connected ip port))⟩⟩
      rw [findKey_putRecord hf, findKey_added]
      split_ifs
      · rfl
      · rfl

end LibeventHandle

/-! ## The handle -/

namespace EventMessageHandle

variable {h h' : EventMessageHandle} {g : Bytes} {group : GroupInfor} {lib : LibeventHandle}

theorem lib_eq_some : h.lib g = some lib ↔
    ∃ group, h.messGroupMap.findKey g = some group ∧ group.handle = lib := by
  rw [EventMessageHandle.lib, Option.map_eq_some_iff]

theorem record_of_lib (hl : h.lib g = some lib) (id : Int32) :
    h.record g id = lib.bevMap.findKey id := by
  rw [record, hl, Option.bind_some]

/-- What the other hosts and the callers know of a handle stays. -/
structure SameConfig (g : Bytes) (h h' : EventMessageHandle) : Prop where
  localHostName : h'.localHostName = h.localHostName
  endpoint : ∀ host, h'.endpoint g host = h.endpoint g host
  types : ∀ t, (h'.callbackInfor g t).isSome = (h.callbackInfor g t).isSome

/-- The connections of the group change, and nothing else. -/
structure Reconnected (g : Bytes) (h h' : EventMessageHandle) (lib : LibeventHandle) : Prop where
  config : SameConfig g h h'
  lib : h'.lib g = some lib
  callbackInfor : ∀ t, h'.callbackInfor g t = h.callbackInfor g t

theorem reconnected_putHandle (hg : h.messGroupMap.findKey g = some group)
    (lib : LibeventHandle) : Reconnected g h (h.putHandle g group lib) lib := by
  have hfind : (h.putHandle g group lib).messGroupMap.findKey g =
    some { group with handle := lib } := AssocMap.findKey_put_self hg _
  have hmap : ({ group with handle := lib } : GroupInfor).messCallbackMap =
    group.messCallbackMap := rfl
  have hcb := callbackInfor_putGroup hg hmap g
  refine ⟨⟨rfl, fun host => ?_, fun t => congrArg Option.isSome (hcb t)⟩, ?_, hcb⟩
  · have hip : (h.putHandle g group lib).getIp host = h.getIp host := rfl
    unfold EventMessageHandle.endpoint
    rw [hip, hfind, hg]
    rfl
  · rw [EventMessageHandle.lib, hfind]
    rfl

theorem reconnected_putRecord (hl : h.lib g = some lib) (id : Int32) (info : BevInfor) :
    Reconnected g h (h.putRecord g id info) (lib.putRecord id info) := by
  obtain ⟨group, hg, rfl⟩ := lib_eq_some.1 hl
  rw [putRecord_eq hg]
  exact reconnected_putHandle hg _

/-! ## Queues -/

/-- A queue changes, and nothing else. -/
structure Requeued (g : Bytes) (h h' : EventMessageHandle) : Prop where
  config : SameConfig g h h'
  lib : h'.lib g = h.lib g

theorem Requeued.refl (g : Bytes) (h : EventMessageHandle) : Requeued g h h :=
  ⟨⟨rfl, fun _ => rfl, fun _ => rfl⟩, rfl⟩

theorem requeued_putCallback {g' : Bytes} (hg : h.messGroupMap.findKey g' = some group) (t : Bytes)
    (cb : CallbackInfor) (g : Bytes) : Requeued g h (h.putCallback g' group t cb) := by
  have hip : ∀ host, (h.putCallback g' group t cb).getIp host = h.getIp host := fun _ => rfl
  by_cases he : g = g'
  · subst he
    have hfind : (h.putCallback g group t cb).messGroupMap.findKey g =
        some { group with messCallbackMap := group.messCallbackMap.put t cb } :=
      AssocMap.findKey_put_self hg _
    refine ⟨⟨rfl, fun host => ?_, fun t' => ?_⟩, ?_⟩
    · unfold EventMessageHandle.endpoint
      rw [hip, hfind, hg]
      rfl
    · simp only [EventMessageHandle.callbackInfor, hfind, hg, Option.bind_eq_bind, Option.bind_some,
        AssocMap.findKey_put]
      split_ifs with ht
      · rw [ht, Option.isSome_map]
      · rfl
    · rw [EventMessageHandle.lib, EventMessageHandle.lib, hfind, hg]
      rfl
  · have hfind : (h.putCallback g' group t cb).messGroupMap.findKey g = h.messGroupMap.findKey g :=
      AssocMap.findKey_put_ne he _ _
    refine ⟨⟨rfl, fun host => ?_, fun t' => ?_⟩, ?_⟩
    · unfold EventMessageHandle.endpoint
      rw [hip, hfind]
    · rw [EventMessageHandle.callbackInfor, EventMessageHandle.callbackInfor, hfind]
    · rw [EventMessageHandle.lib, EventMessageHandle.lib, hfind]

theorem findKey_of_found {m : EventMessage} {g t : Bytes} {cb : CallbackInfor}
    (hck : h.checkMessType m = .ok (.found g t group cb)) :
    h.messGroupMap.findKey g = some group := by
  unfold checkMessType at hck
  obtain ⟨g', -, hck⟩ := bind_eq_ok.1 hck
  split at hck
  · cases hck
  · rename_i group' hfind
    obtain ⟨t', -, hck⟩ := bind_eq_ok.1 hck
    split at hck
    · cases hck
    · cases hck
      exact hfind

/-- A message that is queued changes its queue. -/
theorem dispatch_requeued {m : EventMessage} (hd : h.dispatch m = .ok (.queued h')) (g : Bytes) :
    Requeued g h h' := by
  obtain ⟨ck, hck, hd⟩ := bind_eq_ok.1 hd
  cases ck with
  | failed e => cases hd
  | found g' t group cb =>
    dsimp only at hd
    split at hd
    · cases hd
    · obtain ⟨m', -, hd⟩ := bind_eq_ok.1 hd
      cases hd
      exact requeued_putCallback (findKey_of_found hck) t _ g

/-- So does a message that is read. -/
theorem readMessageFilter_requeued {m m' : EventMessage} {filter : EventMessage → Except Fault Bool}
    {v : Int32} (hr : h.readMessageFilter m filter = .ok (v, m', h')) (g : Bytes) :
    Requeued g h h' := by
  unfold readMessageFilter at hr
  split_ifs at hr
  · cases hr
    exact .refl g h
  · obtain ⟨ck, hck, hr⟩ := bind_eq_ok.1 hr
    cases ck with
    | failed e =>
      cases hr
      exact .refl g h
    | found g' t group cb =>
      dsimp only at hr
      split_ifs at hr
      · cases hr
        exact .refl g h
      · obtain ⟨x, -, hr⟩ := bind_eq_ok.1 hr
        cases x with
        | none =>
          cases hr
          exact .refl g h
        | some x =>
          obtain ⟨m'', -, hr⟩ := bind_eq_ok.1 hr
          obtain ⟨queue, -, hr⟩ := bind_eq_ok.1 hr
          split_ifs at hr
          · cases hr
          · cases hr
            exact requeued_putCallback (findKey_of_found hck) t _ g

/-! ## Sending -/

/-- A message for a host of the group passes the checks of `sendMessage`. -/
theorem passes_of_endpoint {m : EventMessage} {c : Content} {ip : Bytes} {port : Int32}
    (hw : m.willSend = true) (ht : (h.callbackInfor c.groupName c.messType).isSome)
    (he : h.endpoint c.groupName c.reciveHostName = some (ip, port)) (h0 : port ≠ 0) :
    ∃ group, Passes h m c group ip port := by
  unfold EventMessageHandle.endpoint at he
  obtain ⟨ip', hip, he⟩ := Option.bind_eq_some_iff.1 he
  obtain ⟨group, hg, he⟩ := Option.bind_eq_some_iff.1 he
  obtain ⟨port', hport, he⟩ := Option.map_eq_some_iff.1 he
  cases he
  obtain ⟨cb, hcb⟩ := Option.isSome_iff_exists.1 ht
  obtain ⟨group', hg', hcb⟩ := callbackInfor_eq_some.1 hcb
  cases hg.symm.trans hg'
  exact ⟨group, hw, hg, ⟨cb, hcb⟩, hip, hport, h0⟩

/-- **`sendMessage` writes the frame of its message to a connection for the receiver**, or nothing
when it cannot connect. -/
theorem sendMessage_appends {m : EventMessage} {c : Content} {ip : Bytes} {port : Int32}
    (hc : m.outgoing h.localHostName = .ok c) (hw : m.willSend = true)
    (ht : (h.callbackInfor c.groupName c.messType).isSome)
    (he : h.endpoint c.groupName c.reciveHostName = some (ip, port)) (h0 : port ≠ 0)
    (hl : h.lib c.groupName = some lib) (ho : lib.Online)
    (hroom : lib.maxBevId.toInt + 1 < 2 ^ 31) (hlt : c.size < 2 ^ 31) (connects : Bool) :
    ∃ m' h' lib', h.sendMessage m connects = .ok (1, m', h') ∧
      Reconnected c.groupName h h' lib' ∧ lib'.Online ∧
      (connects = false ∧ lib' = lib ∨ ∃ id info, lib.Appended lib' ip port id info c.frame) := by
  obtain ⟨group, hp⟩ := passes_of_endpoint hw ht he h0
  obtain ⟨group', hg', rfl⟩ := lib_eq_some.1 hl
  cases hp.findGroup.symm.trans hg'
  obtain ⟨id, lib₁, b, lib', hget, hsend, ho', happ⟩ := ho.send_endpoint hroom ip port connects hlt
  obtain ⟨m', hm'⟩ := sendMessage_accepted hc hp hlt hget hsend
  exact ⟨m', _, lib', hm', reconnected_putHandle hp.findGroup lib', ho', happ⟩

end EventMessageHandle

end Net
