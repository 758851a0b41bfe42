import Mtc.Json.Proof.Layout

/-!
# Reusing a packet object

`parse` gives the handler a new buffer, but the offsets and the names of earlier packets stay. What
a parse stores is what a fresh object stores, behind the old offsets (`Follows`), so that numbers
lead to old offsets, and a name that the packet lacks to an old value. The stack keeps an array for
every packet without notes. The answers are those of a fresh object exactly when the old offsets
happen to be right (`reuse_same_answers`).
-/

namespace JsonRpc

open Except (ok_bind error_bind bind_eq_ok foldlM_inv foldlM_simulates)
open BufferReadHandler

/-! ## A used object -/

/-- The handler `g` has behind the offsets of `old` those of `h`. A name of `names` leads to its
number, moved on by the old ones, and another one to where it led before. -/
structure Follows (old : BufferReadHandler) (names : List Bytes) (h g : BufferReadHandler) :
    Prop where
  ptrs : g.objectPtrs = old.objectPtrs ++ h.objectPtrs
  named : ∀ k ∈ names, ∃ j < h.objectPtrs.length,
    (h.nameIdMap.findKey k).getD 0 = Int32.ofSizeT j ∧
    (g.nameIdMap.findKey k).getD 0 = Int32.ofSizeT (old.objectPtrs.length + j)
  other : ∀ k ∉ names, (h.nameIdMap.findKey k).getD 0 = 0 ∧
    (g.nameIdMap.findKey k).getD 0 = (old.nameIdMap.findKey k).getD 0

section
variable {old h g h' : BufferReadHandler} {names : List Bytes}

theorem follows_setBuffer (old : BufferReadHandler) (buffer : UInt64) (size : Int32) :
    Follows old [] (({} : BufferReadHandler).setBuffer buffer size)
      (old.setBuffer buffer size) where
  ptrs := (List.append_nil _).symm
  named _ hk := by cases hk
  other _ _ := ⟨rfl, rfl⟩

/-- Storing looks only at the buffer. -/
theorem Follows.store (hf : Follows old names h g) (hb : g.objectBuffer = h.objectBuffer)
    {key data : Bytes} (hr : h.store key data = .ok h') :
    ∃ g', g.store key data = .ok g' ∧ g'.objectBuffer = h'.objectBuffer ∧
      Follows old (names ++ [key]) h' g' := by
  rw [store_eq] at hr
  obtain ⟨r, happend, hr⟩ := bind_eq_ok.1 hr
  have hstore : g.store key data = .ok { g with
      objectBuffer := r.2
      objectPtrs := g.objectPtrs ++ [r.1]
      nameIdMap := g.nameIdMap.assign key (Int32.ofSizeT g.objectPtrs.length) } := by
    rw [store_eq, hb, happend]
    rfl
  cases hr
  refine ⟨_, hstore, rfl, ?_, fun k hk => ?_, fun k hk => ?_⟩
  · simp [hf.ptrs]
  · simp only [AssocMap.findKey_assign, List.length_append, List.length_singleton, hf.ptrs]
    by_cases hkey : k = key
    · exact ⟨h.objectPtrs.length, by omega, by simp [hkey], by simp [hkey]⟩
    · obtain ⟨j, hj, hh, hg⟩ := hf.named k (by simpa [hkey] using hk)
      exact ⟨j, by omega, by simpa [hkey] using hh, by simpa [hkey] using hg⟩
  · simp only [List.mem_append, List.mem_singleton, not_or] at hk
    simp only [AssocMap.findKey_assign, if_neg hk.2]
    exact hf.other k hk.1

theorem Follows.storeItems {items : List ItemCall} (hf : Follows old names h g)
    (hb : g.objectBuffer = h.objectBuffer) (hr : BuildCalls.storeItems items h = .ok h') :
    ∃ g', BuildCalls.storeItems items g = .ok g' ∧ g'.objectBuffer = h'.objectBuffer ∧
      Follows old (names ++ items.map (·.key)) h' g' := by
  induction items generalizing names h g with
  | nil =>
    cases hr
    rw [List.map_nil, List.append_nil]
    exact ⟨g, rfl, hb, hf⟩
  | cons c items ih =>
    unfold BuildCalls.storeItems at hr ⊢
    rw [List.foldlM_cons] at hr ⊢
    obtain ⟨h₁, hstore, hrest⟩ := bind_eq_ok.1 hr
    obtain ⟨g₁, hstore', hb₁, hf₁⟩ := hf.store hb hstore
    rw [hstore', ok_bind, List.map_cons, List.append_cons]
    exact ih hf₁ hb₁ hrest

/-- Notes change nothing of this. -/
theorem Follows.writeNotes (hf : Follows old names h g) {notes : List NoteCall}
    {g' : BufferReadHandler} (hh : BuildCalls.writeNotes notes h = .ok h')
    (hg : BuildCalls.writeNotes notes g = .ok g') : Follows old names h' g' := by
  obtain ⟨hptrs, -, -, hnames⟩ := BuildCalls.writeNotes_ok hh
  obtain ⟨hptrs', -, -, hnames'⟩ := BuildCalls.writeNotes_ok hg
  refine ⟨?_, fun k hk => ?_, fun k hk => ?_⟩
  · rw [hptrs, hptrs']
    exact hf.ptrs
  · rw [hptrs, hnames, hnames']
    exact hf.named k hk
  · rw [hnames, hnames']
    exact hf.other k hk

theorem Follows.ended (hf : Follows old names h g) (p : PacketCalls) :
    Follows old names (p.ended h) (p.ended g) := by
  refine ⟨?_, ?_, ?_⟩
  · simpa using hf.ptrs
  · simpa using hf.named
  · simpa using hf.other

theorem Follows.appendTailOffset (hf : Follows old names h g)
    (hb : g.objectBuffer = h.objectBuffer) :
    Follows old names h.appendTailOffset g.appendTailOffset := by
  refine ⟨?_, fun k hk => ?_, hf.other⟩
  · simp [BufferReadHandler.appendTailOffset, hf.ptrs, hb]
  · obtain ⟨j, hj, hh, hg⟩ := hf.named k hk
    refine ⟨j, ?_, hh, hg⟩
    simp only [BufferReadHandler.appendTailOffset, List.length_append, List.length_singleton]
    omega

end

/-! ## When old offsets are right -/

theorem getElem?_mono {α : Type} {l l' : List α} (hp : l <+: l') {i : Nat} {a : α}
    (hi : l[i]? = some a) : l'[i]? = some a := by
  obtain ⟨hlt, rfl⟩ := List.getElem?_eq_some_iff.1 hi
  exact List.prefix_iff_getElem?.1 hp i hlt

/-- The old offsets are right for a packet with the table `T`. -/
structure Agrees (old : BufferReadHandler) (names : List Bytes) (T : List Int32) : Prop where
  count : old.objectPtrs.length + T.length ≤ 2 ^ 31
  table : T <+: old.objectPtrs ++ T
  stale : ∀ k index, old.nameIdMap.findKey k = some index → k ∉ names → 0 ≤ index.toInt ∧
    ∀ d ≤ 1, old.objectPtrs[index.toInt.toNat + d]? = T[d]?

section
variable {old h g h' : BufferReadHandler} {names : List Bytes} {T : List Int32}

/-- A number leads to the same offset. -/
theorem Agrees.number (ha : Agrees old names T) (hf : Follows old names h g)
    (hT : h.objectPtrs <+: T) {i : Nat} {offset : Int32} (hi : h.objectPtrs[i]? = some offset) :
    g.objectPtrs[i]? = some offset := by
  have htable := getElem?_mono ha.table (getElem?_mono hT hi)
  have hlt := (List.getElem?_eq_some_iff.1 hi).1
  rw [hf.ptrs]
  rw [List.getElem?_append] at htable ⊢
  split_ifs at htable ⊢ with hold
  · exact htable
  · have hlt' : i - old.objectPtrs.length < h.objectPtrs.length := by omega
    rw [List.getElem?_eq_getElem hlt', hT.getElem hlt',
      ← List.getElem?_eq_getElem (Nat.lt_of_lt_of_le hlt' hT.length_le)]
    exact htable

/-- A name leads to the same offset, and to the same next one. -/
theorem Agrees.name (ha : Agrees old names T) (hf : Follows old names h g)
    (hT : h.objectPtrs <+: T) {d : Nat} (hd : d ≤ 1) {k : Bytes} {offset : Int32}
    (hp : h.objectPtr ((h.nameIdMap.findKey k).getD 0 + Int32.ofSizeT d) = .ok offset) :
    g.objectPtr ((g.nameIdMap.findKey k).getD 0 + Int32.ofSizeT d) = .ok offset := by
  have hcount := ha.count
  have hlen := hT.length_le
  by_cases hk : k ∈ names
  · obtain ⟨j, hj, hh, hg⟩ := hf.named k hk
    rw [hh, Int32.ofSizeT_add] at hp
    rw [hg, Int32.ofSizeT_add, Nat.add_assoc]
    have hget := objectPtr_ofSizeT_ok (by omega) hp
    have hlt := (List.getElem?_eq_some_iff.1 hget).1
    apply objectPtr_ofSizeT (by omega)
    rw [hf.ptrs, List.getElem?_append_right (Nat.le_add_right ..), Nat.add_sub_cancel_left]
    exact hget
  · obtain ⟨hh, hg⟩ := hf.other k hk
    rw [hh, Int32.zero_add] at hp
    have hget := objectPtr_ofSizeT_ok (by omega) hp
    rw [hg]
    cases hold : old.nameIdMap.findKey k with
    | none =>
      -- the number `0` of a name that is not there
      rw [Option.getD_none, Int32.zero_add]
      exact objectPtr_ofSizeT (by omega) (ha.number hf hT hget)
    | some index =>
      obtain ⟨h0, hstale⟩ := ha.stale k index hold hk
      have hptr := hstale d hd
      rw [getElem?_mono hT hget] at hptr
      have hlt := (List.getElem?_eq_some_iff.1 hptr).1
      have hval := Int32.toInt_ofSizeT_of_lt (show d < 2 ^ 31 by omega)
      have hadd := Int32.toInt_add_of_range (x := index) (y := Int32.ofSizeT d) (by omega)
        (by omega)
      rw [Option.getD_some, objectPtr_eq_ok_iff, hadd, hval]
      refine ⟨by omega, ?_⟩
      rw [hf.ptrs, List.getElem?_append_left (by omega), ← hptr]
      congr 1
      omega

/-- A note is written alike. -/
theorem Agrees.note (ha : Agrees old names T) {c : NoteCall} (hf : Follows old names h g)
    (hb : g.objectBuffer = h.objectBuffer) (hT : h.objectPtrs <+: T)
    (hr : h.note c.itemKey (Layout.ptrOffset c.offset) c.val = .ok h') :
    ∃ g', g.note c.itemKey (Layout.ptrOffset c.offset) c.val = .ok g' ∧
      g'.objectBuffer = h'.objectBuffer ∧ Follows old names h' g' ∧ h'.objectPtrs <+: T := by
  rw [note_eq] at hr ⊢
  obtain ⟨r, happend, hr⟩ := bind_eq_ok.1 hr
  obtain ⟨start, hstart, hr⟩ := bind_eq_ok.1 hr
  obtain ⟨r', hput, hr⟩ := bind_eq_ok.1 hr
  rw [← Int32.add_zero ((h.nameIdMap.findKey c.itemKey).getD 0)] at hstart
  have hstart' := ha.name hf hT (Nat.zero_le 1) hstart
  rw [show Int32.ofSizeT 0 = 0 from rfl, Int32.add_zero] at hstart'
  rw [hb, happend, ok_bind, hstart', ok_bind, hput, ok_bind]
  cases hr
  refine ⟨_, rfl, rfl, ⟨hf.ptrs, fun k hk => ?_, fun k hk => ?_⟩, hT⟩
  · simp only [AssocMap.findKey_access_getD]
    exact hf.named k hk
  · simp only [AssocMap.findKey_access_getD]
    exact hf.other k hk

theorem Agrees.writeNotes (ha : Agrees old names T) {notes : List NoteCall}
    (hf : Follows old names h g) (hb : g.objectBuffer = h.objectBuffer) (hT : h.objectPtrs <+: T)
    (hr : BuildCalls.writeNotes notes h = .ok h') :
    ∃ g', BuildCalls.writeNotes notes g = .ok g' ∧ g'.objectBuffer = h'.objectBuffer := by
  unfold BuildCalls.writeNotes at hr ⊢
  obtain ⟨g', hg, hb', -⟩ := foldlM_simulates
    (R := fun h g => g.objectBuffer = h.objectBuffer ∧ Follows old names h g ∧ h.objectPtrs <+: T)
    (fun h hnote => ha.note h.2.1 h.1 h.2.2 hnote) ⟨hb, hf, hT⟩ hr
  exact ⟨g', hg, hb'⟩

end

/-! ## Answers -/

namespace JsonRpcPacket

variable {f q : JsonRpcPacket} {old : BufferReadHandler} {names : List Bytes}

theorem answer_itemPtr (q : JsonRpcPacket) (i : Int32) : q.answer (.itemPtr i) = do
    return .inl (q.handle.objectBuffer.getAddress (← q.handle.objectPtr i)) := by
  simp only [answer, getPacketItemPtr, bind_assoc, pure_bind]

theorem answer_itemSize (q : JsonRpcPacket) (i : Int32) : q.answer (.itemSize i) = do
    return .inr ((← q.handle.objectPtr (i + 1)) - (← q.handle.objectPtr i)) := by
  simp only [answer, getPacketItemSize, bind_assoc, pure_bind]

/-- A question for a key is one for its number. -/
theorem answer_itemPtrKey (q : JsonRpcPacket) (key : Bytes) :
    q.answer (.itemPtrKey key) =
      q.answer (.itemPtr ((q.handle.nameIdMap.findKey key).getD 0)) := by
  simp only [answer, getPacketItemPtrKey, nameId_eq, bind_assoc, pure_bind]
  rfl

theorem answer_itemSizeKey (q : JsonRpcPacket) (key : Bytes) :
    q.answer (.itemSizeKey key) =
      q.answer (.itemSize ((q.handle.nameIdMap.findKey key).getD 0)) := by
  simp only [answer, getPacketItemSizeKey, nameId_eq, bind_assoc, pure_bind]
  rfl

/-- Where the offsets that two numbers lead to are the same, the answers are. -/
theorem answer_itemPtr_congr (hb : q.handle.objectBuffer = f.handle.objectBuffer) {i i' : Int32}
    (hi : ∀ offset, f.handle.objectPtr i = .ok offset → q.handle.objectPtr i' = .ok offset) {x}
    (hx : f.answer (.itemPtr i) = .ok x) : q.answer (.itemPtr i') = .ok x := by
  rw [answer_itemPtr] at hx ⊢
  obtain ⟨offset, hoffset, hx⟩ := bind_eq_ok.1 hx
  rw [hi offset hoffset, hb]
  exact hx

theorem answer_itemSize_congr {i i' : Int32}
    (hi : ∀ offset, f.handle.objectPtr i = .ok offset → q.handle.objectPtr i' = .ok offset)
    (hi' : ∀ offset, f.handle.objectPtr (i + 1) = .ok offset →
      q.handle.objectPtr (i' + 1) = .ok offset) {x}
    (hx : f.answer (.itemSize i) = .ok x) : q.answer (.itemSize i') = .ok x := by
  rw [answer_itemSize] at hx ⊢
  obtain ⟨next, hnext, hx⟩ := bind_eq_ok.1 hx
  obtain ⟨offset, hoffset, hx⟩ := bind_eq_ok.1 hx
  rw [hi' next hnext, ok_bind, hi offset hoffset]
  exact hx

/-- With old offsets that are right, a used object answers like a fresh one. -/
theorem answer_of_agrees (ha : Agrees old names f.handle.objectPtrs)
    (hf : Follows old names f.handle q.handle)
    (hb : q.handle.objectBuffer = f.handle.objectBuffer) {query : Query} {x}
    (hx : f.answer query = .ok x) : q.answer query = .ok x := by
  have hT := List.prefix_refl f.handle.objectPtrs
  have hnumber : ∀ i offset, f.handle.objectPtr i = .ok offset →
      q.handle.objectPtr i = .ok offset := by
    intro i offset hi
    rw [objectPtr_eq_ok_iff] at hi ⊢
    exact ⟨hi.1, ha.number hf hT hi.2⟩
  have hname : ∀ k offset, f.handle.objectPtr ((f.handle.nameIdMap.findKey k).getD 0) = .ok offset →
      q.handle.objectPtr ((q.handle.nameIdMap.findKey k).getD 0) = .ok offset := by
    intro k offset hk
    rw [← Int32.add_zero ((f.handle.nameIdMap.findKey k).getD 0)] at hk
    rw [← Int32.add_zero ((q.handle.nameIdMap.findKey k).getD 0)]
    exact ha.name hf hT (Nat.zero_le 1) hk
  have hptr : ∀ k, f.answer (.itemPtrKey k) = .ok x → q.answer (.itemPtrKey k) = .ok x := by
    intro k hx
    rw [answer_itemPtrKey] at hx ⊢
    exact answer_itemPtr_congr hb (hname k) hx
  have hsize : ∀ k, f.answer (.itemSizeKey k) = .ok x → q.answer (.itemSizeKey k) = .ok x := by
    intro k hx
    rw [answer_itemSizeKey] at hx ⊢
    exact answer_itemSize_congr (hname k) (fun _ hk => ha.name hf hT (Nat.le_refl 1) hk) hx
  cases query with
  | headerPtr => exact hptr packetHeader hx
  | headerSize => exact hsize packetHeader hx
  | itemPtr i => exact answer_itemPtr_congr hb (hnumber i) hx
  | itemSize i => exact answer_itemSize_congr (hnumber i) (hnumber (i + 1)) hx
  | itemPtrKey key => exact hptr key hx
  | itemSizeKey key => exact hsize key hx

/-- Addresses in one buffer tell offsets apart. -/
theorem objectPtr_of_answer {i i' offset : Int32}
    (haddr : q.handle.objectBuffer.address = f.handle.objectBuffer.address)
    (hq : ∀ x, f.answer (.itemPtr i) = .ok x → q.answer (.itemPtr i') = .ok x)
    (hi : f.handle.objectPtr i = .ok offset) : q.handle.objectPtr i' = .ok offset := by
  have hx := hq (.inl (f.handle.objectBuffer.getAddress offset)) (by rw [answer_itemPtr, hi]; rfl)
  rw [answer_itemPtr] at hx
  obtain ⟨offset', hoffset', hx⟩ := bind_eq_ok.1 hx
  have heq := Sum.inl.inj (Except.ok.inj hx)
  rw [FixedBuffer.getAddress, FixedBuffer.getAddress, haddr, UInt64.add_right_inj] at heq
  have hint := congrArg (fun u : UInt64 => u.toInt64.toInt) heq
  obtain rfl : offset' = offset := by simpa [← Int32.toInt_inj] using hint
  exact hoffset'

theorem objectPtr_next_of_answer {i i' offset next : Int32}
    (hq : ∀ x, f.answer (.itemSize i) = .ok x → q.answer (.itemSize i') = .ok x)
    (hi : f.handle.objectPtr i = .ok offset) (hi' : q.handle.objectPtr i' = .ok offset)
    (hnext : f.handle.objectPtr (i + 1) = .ok next) :
    q.handle.objectPtr (i' + 1) = .ok next := by
  have hx := hq (.inr (next - offset)) (by rw [answer_itemSize, hnext, ok_bind, hi]; rfl)
  rw [answer_itemSize, hi'] at hx
  obtain ⟨next', hnext', hx⟩ := bind_eq_ok.1 hx
  have heq := Sum.inr.inj (Except.ok.inj hx)
  rw [Int32.sub_left_inj] at heq
  rw [hnext', heq]

end JsonRpcPacket

/-! ## Histories -/

namespace Parse

variable {r : Parse} {w q : JsonRpcPacket}

/-- Building leaves the handler alone. -/
theorem run_eq (r : Parse) (w : JsonRpcPacket) :
    r.run w = ({ w with jsonBuffer := r.packet.text } : JsonRpcPacket).parse r.junk r.packet.text
      r.buffer r.size := by
  have hbuild : r.packet.build w = { w with jsonBuffer := r.packet.text } := by
    rw [← r.packet.jsonBuffer_build w, BuildCalls.build_eq]
  rw [run, hbuild]

theorem run_eq_ok_iff (hs : ∀ item ∈ w.handle.parseStack, item.type = .array) :
    r.run w = .ok q ↔ (w.handle.parseStack = [] → r.junk (r.packet.text.length - 1) ≠ .key) ∧ ∃ h,
      r.packet.load (w.handle.setBuffer r.buffer r.size) = .ok h ∧
      q = { jsonBuffer := r.packet.text, handle := (r.packet.ended h).appendTailOffset } := by
  rw [run_eq]
  exact PacketCalls.parse_eq_ok_iff hs

/-- A fresh object with other indeterminate values. -/
theorem run_fresh_iff {junk : Nat → ParseType} : ({ r with junk } : Parse).run {} = .ok q ↔
    junk (r.packet.text.length - 1) ≠ .key ∧ ∃ h,
      r.packet.load (({} : BufferReadHandler).setBuffer r.buffer r.size) = .ok h ∧
      q = { jsonBuffer := r.packet.text, handle := (r.packet.ended h).appendTailOffset } := by
  rw [run_eq_ok_iff (arrays_of_empty rfl)]
  exact and_congr_left' (forall_prop_of_true rfl)

end Parse

/-- The arrays of packets without notes are open, and every name leads to a value. -/
structure Numbered (h : BufferReadHandler) : Prop where
  stack : ∀ item ∈ h.parseStack, item.type = .array
  index : ∀ k index, h.nameIdMap.findKey k = some index →
    ∃ i < h.objectPtrs.length, index = Int32.ofSizeT i

/-- After a parse every value has an end. -/
structure Settled (h : BufferReadHandler) : Prop where
  stack : ∀ item ∈ h.parseStack, item.type = .array
  index : ∀ k index, h.nameIdMap.findKey k = some index →
    ∃ i, i + 1 < h.objectPtrs.length ∧ index = Int32.ofSizeT i

section
variable {h h' : BufferReadHandler}

theorem Numbered.store (hn : Numbered h) {key data : Bytes} (hr : h.store key data = .ok h') :
    Numbered h' ∧ 0 < h'.objectPtrs.length := by
  rw [store_eq] at hr
  obtain ⟨r, -, hr⟩ := bind_eq_ok.1 hr
  cases hr
  refine ⟨⟨hn.stack, fun k index hk => ?_⟩, by simp⟩
  simp only [List.length_append, List.length_singleton]
  rw [AssocMap.findKey_assign] at hk
  split_ifs at hk with hkey
  · cases hk
    exact ⟨h.objectPtrs.length, by omega, rfl⟩
  · obtain ⟨i, hi, rfl⟩ := hn.index k index hk
    exact ⟨i, by omega, rfl⟩

theorem Numbered.storeItems {items : List ItemCall} (hn : Numbered h)
    (hpos : 0 < h.objectPtrs.length) (hr : BuildCalls.storeItems items h = .ok h') :
    Numbered h' ∧ 0 < h'.objectPtrs.length := by
  unfold BuildCalls.storeItems at hr
  exact foldlM_inv (I := fun h => Numbered h ∧ 0 < h.objectPtrs.length)
    (fun hi hstore => hi.1.store hstore) ⟨hn, hpos⟩ hr

/-- A name that a note adds gets the number `0`. -/
theorem Numbered.note (hn : Numbered h) (hpos : 0 < h.objectPtrs.length) {c : NoteCall}
    (hr : h.note c.itemKey (Layout.ptrOffset c.offset) c.val = .ok h') :
    Numbered h' ∧ 0 < h'.objectPtrs.length := by
  obtain ⟨b, -, rfl⟩ := note_ok hr
  refine ⟨⟨hn.stack, fun k index hk => ?_⟩, hpos⟩
  rw [AssocMap.findKey_access] at hk
  split_ifs at hk with hkey
  · cases hf : h.nameIdMap.findKey c.itemKey with
    | none =>
      rw [hf] at hk
      cases hk
      exact ⟨0, hpos, rfl⟩
    | some index' =>
      rw [hf] at hk
      cases hk
      exact hn.index _ _ hf
  · exact hn.index k index hk

theorem Numbered.writeNotes {notes : List NoteCall} (hn : Numbered h)
    (hpos : 0 < h.objectPtrs.length) (hr : BuildCalls.writeNotes notes h = .ok h') :
    Numbered h' := by
  unfold BuildCalls.writeNotes at hr
  exact (foldlM_inv (I := fun h => Numbered h ∧ 0 < h.objectPtrs.length)
    (fun hi hnote => hi.1.note hi.2 hnote) ⟨hn, hpos⟩ hr).1

theorem Settled.run {r : Parse} {w q : JsonRpcPacket} (hs : Settled w.handle)
    (hr : r.run w = .ok q) : Settled q.handle := by
  obtain ⟨-, h, hload, rfl⟩ := (Parse.run_eq_ok_iff hs.stack).1 hr
  obtain ⟨h₀, h₁, hheader, hitems, hnotes⟩ := BuildCalls.load_eq_ok_iff.1 hload
  have hn : Numbered (w.handle.setBuffer r.buffer r.size) := by
    refine ⟨hs.stack, fun k index hk => ?_⟩
    obtain ⟨i, hi, rfl⟩ := hs.index k index hk
    exact ⟨i, Nat.lt_of_succ_lt hi, rfl⟩
  obtain ⟨hn₀, hpos₀⟩ := hn.store hheader
  obtain ⟨hn₁, hpos₁⟩ := hn₀.storeItems hpos₀ hitems
  have hn' := hn₁.writeNotes hpos₁ hnotes
  refine ⟨r.packet.arrays_ended h hn'.stack, fun k index hk => ?_⟩
  simp only [appendTailOffset, PacketCalls.nameIdMap_ended, PacketCalls.objectPtrs_ended,
    List.length_append, List.length_singleton] at hk ⊢
  obtain ⟨i, hi, rfl⟩ := hn'.index k index hk
  exact ⟨i, by omega, rfl⟩

theorem settled_runAll {rs : List Parse} {w : JsonRpcPacket} (hr : Parse.runAll rs = .ok w) :
    Settled w.handle := by
  unfold Parse.runAll at hr
  exact foldlM_inv (I := fun w => Settled w.handle) Settled.run
    ⟨arrays_of_empty rfl, fun _ _ hk => (by cases hk)⟩ hr

end

/-! ## Reuse -/

section
variable {r : Parse} {junk : Nat → ParseType} {w f : JsonRpcPacket}

theorem Reusable.agrees (hw : Settled w.handle) (hr : Reusable r junk w) :
    Agrees w.handle r.packet.names (r.packet.table r.size.sizeT) := by
  have hcount := hr.count
  refine ⟨?_, hr.table, fun k index hk hn => ?_⟩
  · rw [BuildCalls.length_table]
    exact hcount
  · obtain ⟨i, hi, rfl⟩ := hw.index k index hk
    have hval := Int32.toInt_ofSizeT_of_lt (show i < 2 ^ 31 by omega)
    obtain ⟨h0, h1⟩ := hr.stale k _ hk hn
    refine ⟨by omega, fun d hd => ?_⟩
    rcases Nat.le_one_iff_eq_zero_or_eq_one.1 hd with rfl | rfl
    · exact h0
    · exact h1

/-- A fresh object has the table of the packet. -/
theorem table_of_load (hcount : r.packet.items.length < 2 ^ 31) {h : BufferReadHandler}
    (hload : r.packet.load (({} : BufferReadHandler).setBuffer r.buffer r.size) = .ok h) :
    (r.packet.ended h).appendTailOffset.objectPtrs = r.packet.table r.size.sizeT := by
  have hl := BuildCalls.laid_load hcount (BuildCalls.laid_setBuffer r.buffer r.size_nonneg) hload
  rw [← hl.table, appendTailOffset, appendTailOffset, PacketCalls.objectPtrs_ended,
    PacketCalls.objectBuffer_ended]

/-- What a parse stores on a fresh object it stores on a used one. -/
theorem follows_load {h₀ h₁ h : BufferReadHandler} (old : BufferReadHandler)
    (hheader : h.store packetHeader r.packet.header = .ok h₀)
    (hitems : BuildCalls.storeItems r.packet.items h₀ = .ok h₁)
    (hh : h = ({} : BufferReadHandler).setBuffer r.buffer r.size) :
    ∃ g₀ g₁, (old.setBuffer r.buffer r.size).store packetHeader r.packet.header = .ok g₀ ∧
      BuildCalls.storeItems r.packet.items g₀ = .ok g₁ ∧ g₁.objectBuffer = h₁.objectBuffer ∧
      Follows old r.packet.names h₁ g₁ := by
  subst hh
  obtain ⟨g₀, hheader', hb₀, hf₀⟩ := (follows_setBuffer old r.buffer r.size).store rfl hheader
  obtain ⟨g₁, hitems', hb₁, hf₁⟩ := hf₀.storeItems hb₀ hitems
  exact ⟨g₀, g₁, hheader', hitems', hb₁, hf₁⟩

theorem sameAnswers_of_reusable (hw : Settled w.handle) (hr : Reusable r junk w) :
    SameAnswers r junk w := by
  have hcount := hr.count
  obtain ⟨h, hload⟩ := (BuildCalls.load_ok_iff (by omega)
    (BuildCalls.laid_setBuffer r.buffer r.size_nonneg)).2 hr.admitted
  have ha := hr.agrees hw
  rw [← table_of_load (by omega) hload] at ha
  obtain ⟨h₀, h₁, hheader, hitems, hnotes⟩ := BuildCalls.load_eq_ok_iff.1 hload
  obtain ⟨g₀, g₁, hheader', hitems', hb₁, hf₁⟩ := follows_load w.handle hheader hitems rfl
  have hT : h₁.objectPtrs <+: (r.packet.ended h).appendTailOffset.objectPtrs := by
    rw [appendTailOffset, PacketCalls.objectPtrs_ended, (BuildCalls.writeNotes_ok hnotes).1]
    exact List.prefix_append ..
  obtain ⟨g, hnotes', hb⟩ := ha.writeNotes hf₁ hb₁ hT hnotes
  have hload' := BuildCalls.load_eq_ok_iff.2 ⟨g₀, g₁, hheader', hitems', hnotes'⟩
  have hb' : (r.packet.ended g).objectBuffer = (r.packet.ended h).objectBuffer := by
    rw [PacketCalls.objectBuffer_ended, PacketCalls.objectBuffer_ended, hb]
  have hfoll := ((hf₁.writeNotes hnotes hnotes').ended r.packet).appendTailOffset hb'
  exact ⟨_, _, Parse.run_fresh_iff.2 ⟨hr.fresh, h, hload, rfl⟩,
    (Parse.run_eq_ok_iff hw.stack).2 ⟨hr.used, g, hload', rfl⟩,
    fun query x hx => JsonRpcPacket.answer_of_agrees ha hfoll hb' hx⟩

/-- What is left of this when notes are written differently. -/
structure Beside (old : BufferReadHandler) (names : List Bytes) (f q : JsonRpcPacket) : Prop where
  ptrs : ∃ ptrs t t', f.handle.objectPtrs = ptrs ++ [t] ∧
    q.handle.objectPtrs = old.objectPtrs ++ ptrs ++ [t']
  other : ∀ k ∉ names, (f.handle.nameIdMap.findKey k).getD 0 = 0 ∧
    (q.handle.nameIdMap.findKey k).getD 0 = (old.nameIdMap.findKey k).getD 0
  address : q.handle.objectBuffer.address = f.handle.objectBuffer.address

theorem beside_runs {h g : BufferReadHandler}
    (hload : r.packet.load (({} : BufferReadHandler).setBuffer r.buffer r.size) = .ok h)
    (hload' : r.packet.load (w.handle.setBuffer r.buffer r.size) = .ok g) :
    Beside w.handle r.packet.names
      { jsonBuffer := r.packet.text, handle := (r.packet.ended h).appendTailOffset }
      { jsonBuffer := r.packet.text, handle := (r.packet.ended g).appendTailOffset } := by
  obtain ⟨h₀, h₁, hheader, hitems, hnotes⟩ := BuildCalls.load_eq_ok_iff.1 hload
  obtain ⟨g₀, g₁, hheader', hitems', hnotes'⟩ := BuildCalls.load_eq_ok_iff.1 hload'
  obtain ⟨g₀', g₁', hheader'', hitems'', hb, hfoll⟩ := follows_load w.handle hheader hitems rfl
  cases hheader''.symm.trans hheader'
  cases hitems''.symm.trans hitems'
  have hfoll' := hfoll.writeNotes hnotes hnotes'
  refine ⟨⟨h.objectPtrs, h.objectBuffer.tailOffset, g.objectBuffer.tailOffset, ?_, ?_⟩, ?_, ?_⟩
  · simp [appendTailOffset]
  · simp [appendTailOffset, hfoll'.ptrs]
  · simpa [appendTailOffset] using hfoll'.other
  · simp only [appendTailOffset, PacketCalls.objectBuffer_ended]
    rw [(BuildCalls.writeNotes_ok hnotes').2.1, (BuildCalls.writeNotes_ok hnotes).2.1, hb]

section
variable {old : BufferReadHandler} {names : List Bytes} {q : JsonRpcPacket}
  (hb : Beside old names f q)
  (hcount : old.objectPtrs.length + f.handle.objectPtrs.length ≤ 2 ^ 31)
  (hsame : ∀ query x, f.answer query = .ok x → q.answer query = .ok x)
include hb hcount hsame

/-- Numbers lead to the old offsets. -/
theorem Beside.table : f.handle.objectPtrs <+: old.objectPtrs ++ f.handle.objectPtrs := by
  by_cases hold : old.objectPtrs = []
  · rw [hold]
    exact List.prefix_refl _
  · have hpos := List.length_pos_iff.2 hold
    obtain ⟨ptrs, t, t', hf, hq⟩ := hb.ptrs
    have hlen : f.handle.objectPtrs.length = ptrs.length + 1 := by simp [hf]
    have hpre : old.objectPtrs ++ ptrs <+: old.objectPtrs ++ f.handle.objectPtrs := by
      rw [hf, ← List.append_assoc]
      exact List.prefix_append ..
    refine List.prefix_iff_getElem?.2 fun i hi => ?_
    have hptr := JsonRpcPacket.objectPtr_of_answer hb.address (fun x hx => hsame _ x hx)
      (objectPtr_ofSizeT (by omega) (List.getElem?_eq_getElem hi))
    have hget := objectPtr_ofSizeT_ok (by omega) hptr
    -- the end that the used object has is not among these numbers
    rw [hq, List.getElem?_append_left (by rw [List.length_append]; omega)] at hget
    exact getElem?_mono hpre hget

/-- A name that the packet lacks leads to an old value. -/
theorem Beside.stale (hlen : 2 ≤ f.handle.objectPtrs.length) {k : Bytes} {i : Nat}
    (hi : i + 1 < old.objectPtrs.length)
    (hk : old.nameIdMap.findKey k = some (Int32.ofSizeT i)) (hn : k ∉ names) :
    old.objectPtrs[i]? = f.handle.objectPtrs[0]? ∧
      old.objectPtrs[i + 1]? = f.handle.objectPtrs[1]? := by
  obtain ⟨ptrs, t, t', -, hq⟩ := hb.ptrs
  obtain ⟨hkf, hkq⟩ := hb.other k hn
  rw [hk, Option.getD_some] at hkq
  obtain ⟨start, hstart⟩ : ∃ start, f.handle.objectPtrs[0]? = some start :=
    ⟨_, List.getElem?_eq_getElem (by omega)⟩
  obtain ⟨next, hnext⟩ : ∃ next, f.handle.objectPtrs[1]? = some next :=
    ⟨_, List.getElem?_eq_getElem (by omega)⟩
  rw [hstart, hnext]
  apply objectPtr_ofSizeT (by omega) at hstart
  apply objectPtr_ofSizeT (by omega) at hnext
  have hptr : q.handle.objectPtr (Int32.ofSizeT i) = .ok start := by
    refine JsonRpcPacket.objectPtr_of_answer hb.address (fun x hx => ?_) hstart
    rw [← hkq, ← JsonRpcPacket.answer_itemPtrKey]
    apply hsame
    rw [JsonRpcPacket.answer_itemPtrKey, hkf]
    exact hx
  have hptr' : q.handle.objectPtr (Int32.ofSizeT i + 1) = .ok next := by
    refine JsonRpcPacket.objectPtr_next_of_answer (fun x hx => ?_) hstart hptr hnext
    rw [← hkq, ← JsonRpcPacket.answer_itemSizeKey]
    apply hsame
    rw [JsonRpcPacket.answer_itemSizeKey, hkf]
    exact hx
  rw [Int32.ofSizeT_add_one] at hptr'
  have hget := objectPtr_ofSizeT_ok (by omega) hptr
  have hget' := objectPtr_ofSizeT_ok (by omega) hptr'
  rw [hq, List.append_assoc, List.getElem?_append_left (by omega)] at hget hget'
  exact ⟨hget, hget'⟩

end

theorem reusable_of_sameAnswers (hw : Settled w.handle)
    (hcount : w.handle.objectPtrs.length + (r.packet.items.length + 2) ≤ 2 ^ 31)
    (hs : SameAnswers r junk w) : Reusable r junk w := by
  obtain ⟨f, q, hf, hq, hsame⟩ := hs
  obtain ⟨hfresh, h, hload, rfl⟩ := Parse.run_fresh_iff.1 hf
  obtain ⟨hused, g, hload', rfl⟩ := (Parse.run_eq_ok_iff hw.stack).1 hq
  have hadmitted := (BuildCalls.load_ok_iff (by omega)
    (BuildCalls.laid_setBuffer r.buffer r.size_nonneg)).1 ⟨h, hload⟩
  have hb := beside_runs hload hload'
  have htable := table_of_load (by omega) hload
  have hlen := r.packet.length_table r.size.sizeT
  rw [← htable] at hlen
  rw [← hlen] at hcount
  refine ⟨hfresh, hused, hadmitted, by rw [← hlen]; exact hcount, ?_, fun k index hk hn => ?_⟩
  · rw [← htable]
    exact hb.table hcount hsame
  · obtain ⟨i, hi, rfl⟩ := hw.index k index hk
    rw [← htable, Int32.toInt_ofSizeT_of_lt (by omega), Int.toNat_natCast]
    exact hb.stale hcount hsame (hlen ▸ Nat.le_add_left ..) hi hk hn

end

/-- **A packet object can be reused** for a packet when the old offsets happen to be right for it,
whatever it has parsed before; and as long as the numbers stay within `int`, only then. -/
theorem reuse_same_answers (rs : List Parse) {w : JsonRpcPacket} (hw : Parse.runAll rs = .ok w)
    (r : Parse) (junk : Nat → ParseType) : (Reusable r junk w → SameAnswers r junk w) ∧
      (w.handle.objectPtrs.length + (r.packet.items.length + 2) ≤ 2 ^ 31 →
        SameAnswers r junk w → Reusable r junk w) :=
  ⟨sameAnswers_of_reusable (settled_runAll hw), reusable_of_sameAnswers (settled_runAll hw)⟩

/-- Two items and no note, with the indeterminate value that the first event may read. -/
def parsePlain (type : ParseType) : Parse where
  packet :=
    { header := [104]
      items := [⟨[97], [1, 2, 3], .first⟩, ⟨[98], [4], .last⟩]
      notes := []
      items_bracketed := rfl
      keys := by decide
      notes_group := Or.inl rfl }
  junk _ := type
  buffer := 4096
  size := 5
  size_nonneg := by decide

/-- Parsing one packet twice. It has no note, so that an array stays open, and the second parse does
not look at the indeterminate value. -/
theorem reuse_same_answers_twice : ∃ w, Parse.runAll [parsePlain .array] = .ok w ∧
    w.handle.parseStack ≠ [] ∧ SameAnswers (parsePlain .key) (fun _ => .array) w := by
  refine ⟨_, rfl, by decide, ?_⟩
  refine (reuse_same_answers [parsePlain .array] rfl (parsePlain .key) fun _ => .array).1
    ⟨by decide, by decide, ⟨by decide, by decide, by decide⟩, by decide, by decide,
      fun key index hk hn => ?_⟩
  -- the packet lacks no name
  refine absurd ((?_ : ∀ e ∈ (_ : List (Bytes × Int32)), e.1 ∈ (parsePlain .key).packet.names) _
    (AssocMap.findKey_eq_some_iff.1 hk)) hn
  decide

/-- The packet with two items and a note, in a buffer that it fills. -/
def parseTwo : Parse where
  packet := twoItems.toPacketCalls
  junk _ := .array
  buffer := 4096
  size := 14
  size_nonneg := by decide

/-- A packet with a longer header and another item. -/
def parseOther : Parse where
  packet :=
    { header := [1, 2, 3]
      items := [⟨[99], [0, 0, 0, 0, 0, 0, 0, 0], .single⟩]
      notes := [⟨[99], 0, [118], .single⟩]
      items_bracketed := rfl
      keys := by decide
      notes_group := Or.inr rfl }
  junk _ := .array
  buffer := 8192
  size := 64
  size_nonneg := by decide

/-- After another packet, item `0` has the size that it had in that packet. -/
theorem not_reuse_same_answers : ∃ w, Parse.runAll [parseTwo] = .ok w ∧
    (parseOther.run {} >>= fun f => f.answer (.itemSize 0)) = .ok (.inr 3) ∧
    (parseOther.run w >>= fun q => q.answer (.itemSize 0)) = .ok (.inr 1) ∧
    ¬ SameAnswers parseOther parseOther.junk w := by
  refine ⟨_, rfl, rfl, rfl, ?_⟩
  rintro ⟨f, q, hf, hq, hsame⟩
  cases hf
  cases hq
  cases hsame (.itemSize 0) (.inr 3) rfl

end JsonRpc
