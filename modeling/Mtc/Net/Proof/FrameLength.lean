import Mtc.Net.Proof.SendResult

/-!
# The length of a frame

The size of a message is added up in a `uint32_t`, passed on and written as an `int`.
`frame_length_iff`: the receiver reads the right length exactly if the size is below `2 ^ 31`, or
if no frame is written because the receiver cannot be reached.
-/

namespace Net

open Except (ok_bind bind_eq_ok)
open EventMessage (Content)
open EventMessageHandle

section
variable {h : EventMessageHandle} {m m' : EventMessage} {c : Content} {group : GroupInfor}
  {ip : Bytes} {port id : Int32} {lib' : LibeventHandle}

/-- What `init_buffer_str` leaves: the length of the buffer, and the size as it was added up. -/
theorem size_initBufferStr {host : Bytes} (hc : m.outgoing host = .ok c)
    (hm : { m with sendHostName := .mem (host ++ [0]) }.initBufferStr = .ok m') :
    m'.bufferStr.length = c.size ∧ m'.bufferSize = UInt32.ofNat c.size := by
  have hlen := (length_initBufferStr hc hm).1
  obtain ⟨m₁, hm₁, hsize⟩ := initBufferStr_ok hc
  cases hm₁.symm.trans hm
  exact ⟨hlen, by rw [hsize, hlen]⟩

theorem appends_ne_nil (data : Bytes) (size : Int32) : BevInfor.appends data size ≠ [] :=
  List.cons_ne_nil _ _

/-- **The header is right exactly if the size is an `int`.** -/
theorem announcesLength_iff {host : Bytes} (hc : m.outgoing host = .ok c)
    (hm : { m with sendHostName := .mem (host ++ [0]) }.initBufferStr = .ok m') :
    AnnouncesLength (BevInfor.appends m'.bufferStr m'.bufferSize.toInt32) m'.bufferStr ↔
      c.size < 2 ^ 31 := by
  obtain ⟨hlen, hsize⟩ := size_initBufferStr hc hm
  have hhead : Bytes.getLe32 (BevInfor.appends m'.bufferStr m'.bufferSize.toInt32) =
      some m'.bufferSize := by
    rw [BevInfor.appends, Bytes.getLe32_le32]
    rfl
  constructor
  · rintro ⟨size, -, -, hget, -, -, -, hsz, -⟩
    have hlt := size.toInt32.toInt_lt
    rw [hsz, hlen] at hlt
    omega
  · intro hlt
    have hoff : c.messageOffset + c.message.length = c.size := rfl
    have hmsg := (valid_of_content hc).message
    have hint : (UInt32.ofNat c.size).toInt32.toInt = c.size := by
      rw [Int32.toInt32_ofNat, Int32.toInt_ofSizeT_of_lt hlt]
    rw [initBufferStr_eq hc (by omega)] at hm
    cases hm
    refine ⟨_, UInt32.ofNat c.messageOffset, c.messageSize, hhead, wordAt_encode rfl,
      wordAt_encode rfl, ?_, ?_, ?_⟩
    · rw [Int32.le_iff_toInt_le, hint, Int32.toInt_zero]
      omega
    · rw [hint, length_encode]
    · rw [length_encode, UInt32.toNat_ofNat', Nat.mod_eq_of_lt (by omega), ← hmsg, hoff]

/-- The frame of a message that passes the checks. -/
theorem frameWritten_iff_reaches (hc : m.outgoing h.localHostName = .ok c)
    (hp : Passes h m c group ip port) {connects : Bool} {h' : EventMessageHandle} {value : Int32}
    (hsent : h.sendMessage m connects = .ok (value, m', h')) (frame : Bytes) :
    FrameWritten h h' c frame ↔ group.handle.Reaches ip port connects ∧
      frame = BevInfor.appends m'.bufferStr m'.bufferSize.toInt32 := by
  rw [sendMessage_passes hc hp] at hsent
  obtain ⟨m₁, hm₁, hsent⟩ := bind_eq_ok.1 hsent
  obtain ⟨⟨id, lib₁⟩, hget, hsent⟩ := bind_eq_ok.1 hsent
  obtain ⟨⟨b, lib'⟩, hsend, hsent⟩ := bind_eq_ok.1 hsent
  cases hsent
  by_cases hr : group.handle.Reaches ip port connects
  · obtain ⟨hs, hend⟩ := LibeventHandle.sent_of_reaches hget hsend hr
    rw [frameWritten_iff hp hs]
    constructor
    · rintro ⟨-, rfl, -⟩
      exact ⟨hr, rfl⟩
    · rintro ⟨-, rfl⟩
      exact ⟨appends_ne_nil _ _, rfl, hend⟩
  · rw [frameWritten_iff hp (LibeventHandle.sent_of_not_reaches hget hsend hr)]
    exact iff_of_false (fun hw => hw.1 hw.2.1) fun hw => hr hw.1

/-- A message that passes the checks has its buffer made. -/
theorem initBufferStr_of_sent (hc : m.outgoing h.localHostName = .ok c)
    (hp : Passes h m c group ip port) {connects : Bool} {h' : EventMessageHandle} {value : Int32}
    (hsent : h.sendMessage m connects = .ok (value, m', h')) :
    { m with sendHostName := .mem (h.localHostName ++ [0]) }.initBufferStr = .ok m' := by
  rw [sendMessage_passes hc hp] at hsent
  obtain ⟨m₁, hm₁, hsent⟩ := bind_eq_ok.1 hsent
  obtain ⟨x, -, hsent⟩ := bind_eq_ok.1 hsent
  obtain ⟨y, -, hsent⟩ := bind_eq_ok.1 hsent
  cases hsent
  exact hm₁

/-- **A frame announces its length** exactly if the size of the message is an `int`, or if there is
no frame because the receiver cannot be reached. -/
theorem frame_length_iff (hc : m.outgoing h.localHostName = .ok c) {connects : Bool}
    {h' : EventMessageHandle} (hsent : h.sendMessage m connects = .ok (1, m', h')) :
    (∀ frame, FrameWritten h h' c frame → AnnouncesLength frame m'.bufferStr) ↔
      ShortIfReached h c connects := by
  cases hf : h.failedCheck m c with
  | some e =>
    -- not accepted
    cases (sendMessage_failed hc hf connects).symm.trans hsent
  | none =>
    obtain ⟨group, ip, port, hp⟩ := passes_of_failedCheck hf
    have hlen := announcesLength_iff hc (initBufferStr_of_sent hc hp hsent)
    have hframe := frameWritten_iff_reaches hc hp hsent
    constructor
    · intro hall group' ip' port' hg hip hport hr
      cases hp.findGroup.symm.trans hg
      cases hp.findIp.symm.trans hip
      cases hp.findPort.symm.trans hport
      exact hlen.1 (hall _ ((hframe _).2 ⟨hr, rfl⟩))
    · intro hshort frame hw
      obtain ⟨hr, rfl⟩ := (hframe frame).1 hw
      exact hlen.2 (hshort group ip port hp.findGroup hp.findIp hp.findPort hr)

end

/-- A message to `b`. -/
theorem frame_length_peer :
    ∃ m' h', twoHosts.sendMessage (messageTo [98]) true = .ok (1, m', h') ∧
      ∀ frame, FrameWritten twoHosts h' ⟨[103], [116], [97], [98], [7], 1⟩ frame →
        AnnouncesLength frame m'.bufferStr := by
  have hsent : ∃ m' h', twoHosts.sendMessage (messageTo [98]) true = .ok (1, m', h') := ⟨_, _, rfl⟩
  obtain ⟨m', h', hsent⟩ := hsent
  exact ⟨m', h', hsent, (frame_length_iff rfl hsent).2 fun _ _ _ _ _ _ _ => by decide⟩

/-- A message of the type `t` to `b` with this payload, and what it says. -/
def messageWith (payload : Bytes) : EventMessage :=
  EventMessage.prepareSend {} (.mem [103, 0]) (.mem [116, 0]) (.mem [98, 0]) (.mem payload)
    (UInt32.ofNat payload.length)

def contentWith (payload : Bytes) : Content :=
  ⟨[103], [116], [97], [98], payload, UInt32.ofNat payload.length⟩

theorem outgoing_messageWith {payload : Bytes} (hlt : payload.length < 2 ^ 32) :
    (messageWith payload).outgoing twoHosts.localHostName = .ok (contentWith payload) := by
  refine content_of_eq_ok rfl rfl rfl rfl (bytes_mem ?_ []) rfl
  show (UInt32.ofNat payload.length).toNat = payload.length
  rw [UInt32.toNat_ofNat', Nat.mod_eq_of_lt hlt]

/-- A long message is accepted, and its frame announces a wrong length. -/
theorem exists_wrong_frame {payload : Bytes} (hge : 2 ^ 31 ≤ payload.length)
    (hlt : payload.length < 2 ^ 32) :
    ∃ m' h', twoHosts.sendMessage (messageWith payload) true = .ok (1, m', h') ∧
      ∃ frame, FrameWritten twoHosts h' (contentWith payload) frame ∧
        ¬ AnnouncesLength frame m'.bufferStr := by
  have hc := outgoing_messageWith hlt
  have hp : Passes twoHosts (messageWith payload) (contentWith payload)
      { hostPortMap := ⟨[([98], 1)], by decide⟩, messCallbackMap := ⟨[([116], {})], by decide⟩ }
      [49] 1 :=
    ⟨rfl, rfl, ⟨{}, rfl⟩, rfl, rfl, by decide⟩
  have hready : SendReady twoHosts (contentWith payload).groupName := by
    intro group hg
    cases hp.findGroup.symm.trans hg
    exact ⟨rfl, fun id info hf => by cases hf⟩
  obtain ⟨m', h', hsent⟩ := sendMessage_ok hready hc hp true
  have hsize : payload.length ≤ (contentWith payload).size := Nat.le_add_left _ _
  refine ⟨m', h', hsent, _, (frameWritten_iff_reaches hc hp hsent _).2 ⟨⟨rfl, by decide⟩, rfl⟩, ?_⟩
  rw [announcesLength_iff hc (initBufferStr_of_sent hc hp hsent)]
  omega

/-- A payload of `2 ^ 31` bytes. -/
theorem not_frame_length :
    ∃ m' h', twoHosts.sendMessage (messageWith (List.replicate (2 ^ 31) 7)) true =
        .ok (1, m', h') ∧
      ∃ frame, FrameWritten twoHosts h' (contentWith (List.replicate (2 ^ 31) 7)) frame ∧
        ¬ AnnouncesLength frame m'.bufferStr :=
  exists_wrong_frame (by rw [List.length_replicate]) (by rw [List.length_replicate]; decide)

end Net
