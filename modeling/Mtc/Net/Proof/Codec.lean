import Mtc.Lib.Except
import Mtc.Net.Spec

/-!
# The encoding of a message

* `initBufferStr_source`: `init_buffer_str` writes `Content.encode` of what the message says.
* `initMessagePtr_encode`: `init_message_ptr` on that buffer finds it again.
* `round_trip`: so does every copy.
-/

namespace Net

open Except (ok_bind bind_eq_ok)
open EventMessage (Content)
open EventMessage

/-! ## Reading under the pointers -/

theorem content_eq_ok {m : EventMessage} {c : Content} (h : m.content = .ok c) :
    m.groupName.str m.bufferStr = .ok c.groupName ∧ m.messType.str m.bufferStr = .ok c.messType ∧
      m.sendHostName.str m.bufferStr = .ok c.sendHostName ∧
      m.reciveHostName.str m.bufferStr = .ok c.reciveHostName ∧
      m.message.bytes m.bufferStr m.messageSize.toNat = .ok c.message ∧
      m.messageSize = c.messageSize := by
  simp only [content, bind_eq_ok] at h
  obtain ⟨g, hg, t, ht, s, hs, r, hr, p, hp, h⟩ := h
  cases h
  exact ⟨hg, ht, hs, hr, hp, rfl⟩

theorem content_of_eq_ok {m : EventMessage} {c : Content}
    (hg : m.groupName.str m.bufferStr = .ok c.groupName)
    (ht : m.messType.str m.bufferStr = .ok c.messType)
    (hs : m.sendHostName.str m.bufferStr = .ok c.sendHostName)
    (hr : m.reciveHostName.str m.bufferStr = .ok c.reciveHostName)
    (hp : m.message.bytes m.bufferStr m.messageSize.toNat = .ok c.message)
    (hsz : m.messageSize = c.messageSize) : m.content = .ok c := by
  rw [hsz] at hp
  simp only [content, hg, ht, hs, hr, hsz, hp, ok_bind]
  rfl

theorem str_mem {s : Bytes} (hs : 0 ∉ s) (bs : Bytes) :
    (CharPtr.mem (s ++ [0])).str bs = .ok s := by
  rw [CharPtr.str, CharPtr.target, Bytes.cstr_append hs]
  rfl

theorem bytes_mem {s : Bytes} {n : Nat} (hn : n = s.length) (bs : Bytes) :
    (CharPtr.mem s).bytes bs n = .ok s := by
  rw [CharPtr.bytes, CharPtr.target, hn, if_pos (Nat.le_refl _), List.take_length]

/-- The bytes read are at the start of the object. -/
theorem target_of_bytes_eq_ok {p : CharPtr} {bs s : Bytes} {n : Nat} (h : p.bytes bs n = .ok s) :
    ∃ rest, p.target bs = s ++ rest := by
  unfold CharPtr.bytes at h
  split_ifs at h
  cases h
  exact ⟨_, (List.take_append_drop n _).symm⟩

theorem length_of_bytes_eq_ok {p : CharPtr} {bs s : Bytes} {n : Nat} (h : p.bytes bs n = .ok s) :
    s.length = n := by
  unfold CharPtr.bytes at h
  split_ifs at h with hn
  cases h
  exact List.length_take_of_le hn

theorem not_mem_of_str_eq_ok {p : CharPtr} {bs s : Bytes} (h : p.str bs = .ok s) : 0 ∉ s := by
  unfold CharPtr.str orFault at h
  split at h
  · cases h
  · rename_i hs
    cases h
    exact Bytes.not_mem_of_cstr hs

theorem valid_of_content {m : EventMessage} {c : Content} (h : m.content = .ok c) : c.Valid := by
  obtain ⟨hg, ht, hs, hr, hp, hsz⟩ := content_eq_ok h
  exact ⟨not_mem_of_str_eq_ok hg, not_mem_of_str_eq_ok ht, not_mem_of_str_eq_ok hs,
    not_mem_of_str_eq_ok hr, hsz ▸ length_of_bytes_eq_ok hp⟩

/-! ## Encoding -/

section
variable {ws : List UInt32} {bs : Bytes} {field : Nat}

theorem setCursor_words (h : field < ws.length) (v : UInt32) :
    setCursor (Bytes.words ws ++ bs) field v = .ok (Bytes.words (ws.set field v) ++ bs) := by
  rw [setCursor, Bytes.writeAt_words h]
  rfl

/-- Copying to where a buffer of `n` bytes was extended, `n` being a `uint32_t`. -/
theorem writeAt_size {buffer x bs : Bytes} {n : Nat} (hn : n = buffer.length) (hlt : n < 2 ^ 32)
    (h : x.length = bs.length) (c : Bytes) :
    Bytes.writeAt (buffer ++ x ++ c) (UInt32.ofNat n).toNat bs = some (buffer ++ bs ++ c) := by
  rw [UInt32.toNat_ofNat', Nat.mod_eq_of_lt hlt, hn, Bytes.writeAt_middle h]

/-- A name lands behind what is there, and its offset in its word of the cursor. -/
theorem appendName_words {name : CharPtr} {s : Bytes} {n : Nat} (hs : name.rebuilt.str [] = .ok s)
    (hf : field < ws.length) (hn : n = (Bytes.words ws ++ bs).length) (hlt : n < 2 ^ 32) :
    appendName name field (Bytes.words ws ++ bs, UInt32.ofNat n) =
      .ok (Bytes.words (ws.set field (UInt32.ofNat n)) ++ (bs ++ (s ++ [0])),
        UInt32.ofNat (n + (s.length + 1))) := by
  have hz : Bytes.zeros (s.length + 1) = Bytes.zeros s.length ++ [0] := List.replicate_succ'
  simp only [appendName, hs, ok_bind, setCursor_words hf, hz, ← List.append_assoc]
  rw [writeAt_size (by simpa using hn) hlt (Bytes.length_zeros _),
    UInt32.ofNat_add n (s.length + 1)]
  rfl

end

/-- **`init_buffer_str` writes the encoding of what the message says.** -/
theorem initBufferStr_source {m : EventMessage} {c : Content} (hc : m.source = .ok c)
    (hlt : c.size < 2 ^ 32) :
    m.initBufferStr =
      .ok { m with bufferStr := c.encode, bufferSize := UInt32.ofNat c.size } := by
  obtain ⟨hg, ht, hs, hr, hp, hsz⟩ := content_eq_ok hc
  dsimp only at hg ht hs hr hp hsz
  have hmsg := (valid_of_content hc).message
  simp only [Content.size, Content.messageOffset, Content.reciveHostNameOffset,
    Content.sendHostNameOffset, Content.messTypeOffset, Content.groupNameOffset,
    sizeofCursor] at hlt
  have h0 : Bytes.zeros 24 = Bytes.words [0, 0, 0, 0, 0, 0] ++ [] := by decide
  simp only [initBufferStr, sizeofCursor]
  rw [h0, appendName_words hg (by decide) (by simp) (by decide), ok_bind,
    appendName_words ht (by simp) (by simp) (by omega), ok_bind,
    appendName_words hs (by simp) (by simp; omega) (by omega), ok_bind,
    appendName_words hr (by simp) (by simp; omega) (by omega), ok_bind,
    setCursor_words (by simp), ok_bind, setCursor_words (by simp), ok_bind, hp, ok_bind]
  dsimp only
  rw [← List.append_nil (_ ++ Bytes.zeros _),
    writeAt_size (by simp; omega) (by omega) (by simp [hmsg, hsz]), hsz]
  have hsize : UInt32.ofNat c.messageOffset + c.messageSize = UInt32.ofNat c.size := by
    rw [Content.size, UInt32.ofNat_add, hmsg, UInt32.ofNat_toNat]
  have henc : c.encode = Bytes.words c.cursor ++ ([] ++ (c.groupName ++ [0]) ++
      (c.messType ++ [0]) ++ (c.sendHostName ++ [0]) ++ (c.reciveHostName ++ [0])) ++
      c.message ++ [] := by
    simp [Content.encode, Content.body]
  rw [henc, ← hsize]
  rfl

theorem initBufferStr_eq {m : EventMessage} {c : Content} {host : Bytes}
    (hc : m.outgoing host = .ok c) (hlt : c.size < 2 ^ 32) :
    { m with sendHostName := .mem (host ++ [0]) }.initBufferStr =
      .ok { m with
        sendHostName := .mem (host ++ [0])
        bufferStr := c.encode
        bufferSize := UInt32.ofNat c.size } :=
  initBufferStr_source (m := { m with sendHostName := .mem (host ++ [0]) }) hc hlt

/-! ## The length of the buffer -/

theorem orFault_eq_ok {α : Type} {e : Fault} {x : Option α} {a : α} (h : orFault e x = .ok a) :
    x = some a := by
  cases x with
  | none => cases h
  | some b => cases h; rfl

theorem length_setCursor {buffer buffer' : Bytes} {field : Nat} {v : UInt32}
    (h : setCursor buffer field v = .ok buffer') : buffer'.length = buffer.length :=
  Bytes.length_writeAt (orFault_eq_ok h)

theorem length_appendName {name : CharPtr} {field : Nat} {buffer buffer' : Bytes × UInt32}
    {s : Bytes} (hs : name.rebuilt.str [] = .ok s)
    (h : appendName name field buffer = .ok buffer') :
    buffer'.1.length = buffer.1.length + (s.length + 1) := by
  simp only [appendName, hs, ok_bind] at h
  obtain ⟨b, hb, h⟩ := bind_eq_ok.1 h
  obtain ⟨b', hb', h⟩ := bind_eq_ok.1 h
  cases h
  rw [Bytes.length_writeAt (orFault_eq_ok hb'), List.length_append, length_setCursor hb,
    Bytes.length_zeros]

/-- However long the names are, the buffer has room for all of the message. -/
theorem length_initBufferStr {m m' : EventMessage} {c : Content} {host : Bytes}
    (hc : m.outgoing host = .ok c)
    (h : { m with sendHostName := .mem (host ++ [0]) }.initBufferStr = .ok m') :
    m'.bufferStr.length = c.size ∧ m'.reciveHostName = m.reciveHostName := by
  obtain ⟨hg, ht, hs, hr, hp, hsz⟩ := content_eq_ok hc
  replace hs : (CharPtr.mem (host ++ [0])).rebuilt.str [] = .ok c.sendHostName := hs
  dsimp only at hg ht hr hp hsz
  have hmsg := (valid_of_content hc).message
  unfold initBufferStr at h
  obtain ⟨b₁, h₁, h⟩ := bind_eq_ok.1 h
  obtain ⟨b₂, h₂, h⟩ := bind_eq_ok.1 h
  obtain ⟨b₃, h₃, h⟩ := bind_eq_ok.1 h
  obtain ⟨b₄, h₄, h⟩ := bind_eq_ok.1 h
  obtain ⟨b₅, h₅, h⟩ := bind_eq_ok.1 h
  obtain ⟨b₆, h₆, h⟩ := bind_eq_ok.1 h
  obtain ⟨payload, -, h⟩ := bind_eq_ok.1 h
  obtain ⟨b₇, h₇, h⟩ := bind_eq_ok.1 h
  cases h
  have e₁ := length_appendName hg h₁
  have e₂ := length_appendName ht h₂
  have e₃ := length_appendName hs h₃
  have e₄ := length_appendName hr h₄
  have e₅ := length_setCursor h₅
  have e₆ := length_setCursor h₆
  have e₇ := Bytes.length_writeAt (orFault_eq_ok h₇)
  rw [List.length_append, Bytes.length_zeros, hsz, ← hmsg] at e₇
  rw [Bytes.length_zeros] at e₁
  refine ⟨?_, rfl⟩
  simp only [Content.size, Content.messageOffset, Content.reciveHostNameOffset,
    Content.sendHostNameOffset, Content.messTypeOffset, Content.groupNameOffset]
  omega

/-! A message is always written, also one whose size wraps around: the offset of a buffer is never
behind its end. -/

theorem toNat_ofNat_le (n : Nat) : (UInt32.ofNat n).toNat ≤ n := by
  rw [UInt32.toNat_ofNat']
  exact Nat.mod_le _ _

theorem setCursor_ok {buffer : Bytes} {field : Nat} (h : 4 * field + 4 ≤ buffer.length)
    (v : UInt32) : ∃ buffer', setCursor buffer field v = .ok buffer' := by
  obtain ⟨buffer', h'⟩ :=
    Bytes.exists_writeAt (show 4 * field + (Bytes.le32 v).length ≤ buffer.length from h)
  refine ⟨buffer', ?_⟩
  rw [setCursor, h']
  rfl

theorem appendName_ok {name : CharPtr} {field : Nat} {s buffer : Bytes}
    (hs : name.rebuilt.str [] = .ok s) (hf : field < 4) (hlen : sizeofCursor ≤ buffer.length) :
    ∃ buffer', appendName name field (buffer, UInt32.ofNat buffer.length) =
      .ok (buffer', UInt32.ofNat buffer'.length) ∧ sizeofCursor ≤ buffer'.length := by
  have h24 : sizeofCursor = 24 := rfl
  have hoff := toNat_ofNat_le buffer.length
  obtain ⟨b₁, h₁⟩ := setCursor_ok (show 4 * field + 4 ≤ buffer.length by omega)
    (UInt32.ofNat buffer.length)
  have hl₁ : (b₁ ++ Bytes.zeros (s.length + 1)).length = buffer.length + (s.length + 1) := by
    rw [List.length_append, length_setCursor h₁, Bytes.length_zeros]
  obtain ⟨b₂, h₂⟩ := Bytes.exists_writeAt (show (UInt32.ofNat buffer.length).toNat + s.length ≤
    (b₁ ++ Bytes.zeros (s.length + 1)).length by omega)
  have hl₂ : b₂.length = buffer.length + (s.length + 1) := (Bytes.length_writeAt h₂).trans hl₁
  refine ⟨b₂, ?_, by omega⟩
  simp only [appendName, hs, ok_bind, h₁, h₂, hl₂, UInt32.ofNat_add]
  rfl

theorem initBufferStr_ok {m : EventMessage} {c : Content} {host : Bytes}
    (hc : m.outgoing host = .ok c) :
    ∃ m', { m with sendHostName := .mem (host ++ [0]) }.initBufferStr = .ok m' ∧
      m'.bufferSize = UInt32.ofNat m'.bufferStr.length := by
  have h24 : sizeofCursor = 24 := rfl
  obtain ⟨hg, ht, hs, hr, hp, hsz⟩ := content_eq_ok hc
  replace hs : (CharPtr.mem (host ++ [0])).rebuilt.str [] = .ok c.sendHostName := hs
  dsimp only at hg ht hr hp hsz
  have hmsg := length_of_bytes_eq_ok hp
  obtain ⟨b₁, h₁, l₁⟩ := appendName_ok hg (show 0 < 4 by decide)
    (Nat.le_of_eq (Bytes.length_zeros sizeofCursor).symm)
  obtain ⟨b₂, h₂, l₂⟩ := appendName_ok ht (show 1 < 4 by decide) l₁
  obtain ⟨b₃, h₃, l₃⟩ := appendName_ok hs (show 2 < 4 by decide) l₂
  obtain ⟨b₄, h₄, l₄⟩ := appendName_ok hr (show 3 < 4 by decide) l₃
  obtain ⟨b₅, h₅⟩ := setCursor_ok (show 4 * 4 + 4 ≤ b₄.length by omega) (UInt32.ofNat b₄.length)
  have e₅ := length_setCursor h₅
  obtain ⟨b₆, h₆⟩ := setCursor_ok (show 4 * 5 + 4 ≤ b₅.length by omega) m.messageSize
  have e₆ := length_setCursor h₆
  have hl : (b₆ ++ Bytes.zeros m.messageSize.toNat).length = b₄.length + m.messageSize.toNat := by
    rw [List.length_append, Bytes.length_zeros]
    omega
  have hoff := toNat_ofNat_le b₄.length
  obtain ⟨b₇, h₇⟩ := Bytes.exists_writeAt (show (UInt32.ofNat b₄.length).toNat +
    c.message.length ≤ (b₆ ++ Bytes.zeros m.messageSize.toNat).length by omega)
  rw [Bytes.length_zeros] at h₁
  refine ⟨{ m with
    sendHostName := .mem (host ++ [0])
    bufferStr := b₇
    bufferSize := UInt32.ofNat b₄.length + m.messageSize }, ?_, ?_⟩
  · simp only [initBufferStr, h₁, ok_bind, h₂, h₃, h₄, h₅, h₆, hp, h₇]
    rfl
  · dsimp only
    rw [Bytes.length_writeAt h₇, hl, UInt32.ofNat_add, UInt32.ofNat_toNat]

/-! ## Decoding -/

@[simp] theorem length_encode (c : Content) : c.encode.length = c.size := by
  simp [Content.encode, Content.cursor, Content.body, Content.size, Content.messageOffset,
    Content.reciveHostNameOffset, Content.sendHostNameOffset, Content.messTypeOffset,
    Content.groupNameOffset, sizeofCursor]
  omega

theorem length_frame (c : Content) : c.frame.length = 4 + c.size := by
  rw [Content.frame, List.length_append, length_encode, Bytes.length_le32]

/-- The message that `init_message_ptr` makes of an encoding. -/
def decoded (c : Content) : EventMessage where
  groupName := .buf (UInt32.ofNat c.groupNameOffset)
  messType := .buf (UInt32.ofNat c.messTypeOffset)
  sendHostName := .buf (UInt32.ofNat c.sendHostNameOffset)
  reciveHostName := .buf (UInt32.ofNat c.reciveHostNameOffset)
  message := .buf (UInt32.ofNat c.messageOffset)
  messageSize := c.messageSize
  bufferStr := c.encode
  bufferSize := UInt32.ofNat c.size

theorem sizeofCursor_lt_size (c : Content) : sizeofCursor < c.size := by
  simp only [Content.size, Content.messageOffset, Content.reciveHostNameOffset,
    Content.sendHostNameOffset, Content.messTypeOffset, Content.groupNameOffset]
  omega

theorem wordAt_encode {c : Content} {i : Nat} {x : UInt32} (h : c.cursor[i]? = some x) :
    wordAt c.encode i = .ok x := by
  rw [wordAt, Content.encode, Bytes.getLe32_words h]
  rfl

/-- A copy of a decoded message keeps its own flags. -/
theorem copy_decoded {c : Content} (hlt : c.size < 2 ^ 32) (m : EventMessage) :
    m.copy (decoded c) = .ok { decoded c with
      errorNo := m.errorNo, willSend := m.willSend, willRecive := m.willRecive } := by
  have hsize : sizeofCursor < (UInt32.ofNat c.size).toNat := by
    rw [UInt32.toNat_ofNat', Nat.mod_eq_of_lt hlt]
    exact sizeofCursor_lt_size c
  have hbuf : (decoded c).bufferStr = c.encode := rfl
  have hlen : (decoded c).bufferSize = UInt32.ofNat c.size := rfl
  simp only [EventMessage.copy, initMessagePtr, hbuf, hlen, if_neg (Nat.not_le.2 hsize)]
  rw [wordAt_encode (i := 0) rfl, wordAt_encode (i := 1) rfl, wordAt_encode (i := 2) rfl,
    wordAt_encode (i := 3) rfl, wordAt_encode (i := 4) rfl, wordAt_encode (i := 5) rfl]
  rfl

/-- `init_message_ptr` leaves the buffer alone. -/
theorem buffer_initMessagePtr {m m' : EventMessage} (h : m.initMessagePtr = .ok m') :
    m'.bufferStr = m.bufferStr ∧ m'.bufferSize = m.bufferSize := by
  unfold initMessagePtr at h
  split_ifs at h
  · cases h
    exact ⟨rfl, rfl⟩
  · simp only [bind_eq_ok] at h
    obtain ⟨_, -, _, -, _, -, _, -, _, -, _, -, h⟩ := h
    cases h
    exact ⟨rfl, rfl⟩

theorem initMessagePtr_encode {c : Content} (hlt : c.size < 2 ^ 32) :
    { bufferStr := c.encode, bufferSize := UInt32.ofNat c.size : EventMessage }.initMessagePtr =
      .ok (decoded c) :=
  copy_decoded hlt {}

/-- The bytes that `sendMessage` makes of a message: its encoding, if its size is an `int`. -/
structure Framed (bufferStr : Bytes) (c : Content) : Prop where
  length : bufferStr.length = c.size
  encode : c.size < 2 ^ 31 → bufferStr = c.encode

theorem Framed.ofFrame_eq_ok {bufferStr : Bytes} {c : Content} (h : Framed bufferStr c)
    {m : EventMessage} (hm : EventMessage.ofFrame bufferStr = .ok m) :
    c.size < 2 ^ 31 ∧ m = decoded c := by
  unfold EventMessage.ofFrame at hm
  split_ifs at hm with hlt
  rw [h.length] at hlt hm
  rw [h.encode hlt, initMessagePtr_encode (by omega)] at hm
  cases hm
  exact ⟨hlt, rfl⟩

theorem str_buf {b a s r : Bytes} {n : Nat} (h : b ++ [0] = a ++ (s ++ 0 :: r))
    (hs : 0 ∉ s) (hn : n = a.length) (hlt : n < 2 ^ 32) :
    (CharPtr.buf (UInt32.ofNat n)).str b = .ok s := by
  rw [CharPtr.str, CharPtr.target, h, UInt32.toNat_ofNat', Nat.mod_eq_of_lt hlt, hn,
    List.drop_left, Bytes.cstr_append hs]
  rfl

theorem bytes_buf {b a s r : Bytes} {n : Nat} (h : b ++ [0] = a ++ (s ++ r))
    (hn : n = a.length) (hlt : n < 2 ^ 32) :
    (CharPtr.buf (UInt32.ofNat n)).bytes b s.length = .ok s := by
  rw [CharPtr.bytes, CharPtr.target, h, UInt32.toNat_ofNat', Nat.mod_eq_of_lt hlt, hn,
    List.drop_left, if_pos (by simp), List.take_left]

/-- **A decoded message says what was encoded.** -/
theorem content_decoded {c : Content} (hv : c.Valid) (hlt : c.size < 2 ^ 32) :
    (decoded c).content = .ok c := by
  have h1 : c.messTypeOffset = 24 + (c.groupName.length + 1) := rfl
  have h2 : c.sendHostNameOffset = c.messTypeOffset + (c.messType.length + 1) := rfl
  have h3 : c.reciveHostNameOffset = c.sendHostNameOffset + (c.sendHostName.length + 1) := rfl
  have h4 : c.messageOffset = c.reciveHostNameOffset + (c.reciveHostName.length + 1) := rfl
  have h5 : c.size = c.messageOffset + c.message.length := rfl
  have hw : (Bytes.words c.cursor).length = 24 := by simp [Content.cursor]
  let g := Bytes.words c.cursor ++ (c.groupName ++ [0])
  have hg := str_buf (b := c.encode) (a := Bytes.words c.cursor)
    (r := c.messType ++ [0] ++ (c.sendHostName ++ [0]) ++ (c.reciveHostName ++ [0]) ++ c.message ++
      [0]) (by simp [Content.encode, Content.body]) hv.groupName hw.symm (by decide)
  have ht := str_buf (b := c.encode) (a := g)
    (r := c.sendHostName ++ [0] ++ (c.reciveHostName ++ [0]) ++ c.message ++ [0])
    (by simp [g, Content.encode, Content.body]) hv.messType
    (n := c.messTypeOffset) (by simp [g, hw, h1]) (by omega)
  have hs := str_buf (b := c.encode) (a := g ++ (c.messType ++ [0]))
    (r := c.reciveHostName ++ [0] ++ c.message ++ [0])
    (by simp [g, Content.encode, Content.body]) hv.sendHostName
    (n := c.sendHostNameOffset) (by simp [g, hw, h1, h2]; omega) (by omega)
  have hr := str_buf (b := c.encode) (a := g ++ (c.messType ++ [0]) ++ (c.sendHostName ++ [0]))
    (r := c.message ++ [0]) (by simp [g, Content.encode, Content.body]) hv.reciveHostName
    (n := c.reciveHostNameOffset) (by simp [g, hw, h1, h2, h3]; omega) (by omega)
  have hm := bytes_buf (b := c.encode) (a := Bytes.words c.cursor ++ c.body) (s := c.message)
    (r := [0]) (by simp [Content.encode])
    (n := c.messageOffset) (by simp [hw, Content.body, h1, h2, h3, h4]; omega) (by omega)
  rw [hv.message] at hm
  simp only [content, decoded]
  rw [show c.groupNameOffset = 24 from rfl, hg, ok_bind, ht, ok_bind, hs, ok_bind, hr, ok_bind,
    hm, ok_bind]
  rfl

/-! ## Round trips -/

/-- Copies of a decoded message say what it says. -/
theorem foldlM_copy_decoded {c : Content} (hlt : c.size < 2 ^ 32) :
    ∀ (ms : List EventMessage) (e : EventMessageErrorNo) (s r : Bool),
    ∃ e' s' r', ms.foldlM (fun src m => m.copy src)
        { decoded c with errorNo := e, willSend := s, willRecive := r } =
      Except.ok { decoded c with errorNo := e', willSend := s', willRecive := r' }
  | [], e, s, r => ⟨e, s, r, rfl⟩
  | m :: ms, e, s, r => by
    obtain ⟨e', s', r', h⟩ := foldlM_copy_decoded hlt ms m.errorNo m.willSend m.willRecive
    refine ⟨e', s', r', ?_⟩
    rw [List.foldlM_cons]
    have hcopy : m.copy { decoded c with errorNo := e, willSend := s, willRecive := r } =
      .ok { decoded c with errorNo := m.errorNo, willSend := m.willSend,
                           willRecive := m.willRecive } := copy_decoded hlt m
    rw [hcopy, ok_bind, h]

/-- **What a message says survives the trip**: loading its buffer into another message finds it
again, and so does every copy. -/
theorem round_trip {m : EventMessage} {c : Content} (hm : m.source = .ok c)
    (hlt : c.size < 2 ^ 31) (d : EventMessage) (copies : List EventMessage) :
    ∃ e d', m.initBufferStr = .ok e ∧
      { d with bufferStr := e.bufferStr, bufferSize := e.bufferSize }.initMessagePtr = .ok d' ∧
      d'.content = .ok c ∧
      ∃ d'', copies.foldlM (fun src m => m.copy src) d' = .ok d'' ∧ d''.content = .ok c := by
  have hlt' : c.size < 2 ^ 32 := by omega
  have hcontent := content_decoded (valid_of_content hm) hlt'
  obtain ⟨e, s, r, hcopies⟩ :=
    foldlM_copy_decoded hlt' copies d.errorNo d.willSend d.willRecive
  exact ⟨_, _, initBufferStr_source hm hlt', copy_decoded hlt' d, hcontent, _, hcopies, hcontent⟩

/-- A payload with a `'\0'` and an empty host name, copied twice. -/
theorem round_trip_two :
    let m : EventMessage := {
      groupName := .mem [103, 0, 7], messType := .mem [116, 0], sendHostName := .mem [0]
      reciveHostName := .mem [98, 0], message := .mem [1, 0, 2], messageSize := 3 }
    let c : Content := ⟨[103], [116], [], [98], [1, 0, 2], 3⟩
    m.source = .ok c ∧ c.size < 2 ^ 31 ∧ ∃ e d', m.initBufferStr = .ok e ∧
      { bufferStr := e.bufferStr, bufferSize := e.bufferSize : EventMessage }.initMessagePtr =
        .ok d' ∧
      d'.content = .ok c ∧
      ∃ d'', [({} : EventMessage), {}].foldlM (fun src m => m.copy src) d' = .ok d'' ∧
        d''.content = .ok c :=
  ⟨by decide, by decide, round_trip (by decide) (by decide) {} [{}, {}]⟩

end Net
