import Mtc.Json.Proof.Reuse

/-!
# The sizes of values

A size is the difference of two neighbours in the offset table, which `append_tail_offset` closes
with the end of the buffer's contents. The values of notes lie behind the items without an entry, so
that they count for the last one. All sizes are right exactly when no note moves that end
(`packet_sizes_iff`).
-/

namespace JsonRpc

open Except (ok_bind error_bind bind_eq_ok)
open BufferReadHandler JsonRpcPacket

/-! ## Notes that leave the end where it is -/

section
variable {n : Nat} {l : Layout} {h : BufferReadHandler} {c : NoteCall}

theorem Layout.tail_le_note (n : Nat) (l : Layout) (c : NoteCall) :
    l.tail ≤ (l.note n c).tail := by
  simp only [note, place]
  split_ifs <;> omega

theorem Layout.tail_le_notes (n : Nat) (notes : List NoteCall) :
    ∀ l : Layout, l.tail ≤ (notes.foldl (Layout.note n) l).tail := by
  induction notes with
  | nil => exact fun l => Nat.le_refl _
  | cons c notes ih => exact fun l => (l.tail_le_note n c).trans (ih _)

/-- A note with room for its value does not move the end. -/
theorem Layout.tail_note_iff (hn : n < 2 ^ 31) (hroom : l.tail + c.val.length ≤ n) :
    (l.note n c).tail = l.tail ↔
      c.val = [] ∧ (l.slot c + 8 ≤ l.tail ∨ n < l.slot c + 8) := by
  have hsize : intSize c.val = c.val.length := Nat.mod_eq_of_lt (by omega)
  rw [← List.length_eq_zero_iff]
  simp only [note, place, hsize, if_pos hroom, slot]
  split_ifs <;> omega

theorem Layout.note_eq_self (h : (l.note n c).tail = l.tail) : l.note n c = l := by
  have hnote : l.note n c = { l with tail := (l.note n c).tail } := rfl
  rw [hnote, h]

/-- One note. -/
theorem Laid.note_quiet_iff (hl : Laid n l h) (hcount : l.offsets.length ≤ 2 ^ 31)
    (hpos : 0 < l.offsets.length) (hroom : l.tail + c.val.length ≤ n) :
    ((∃ h', h.note c.itemKey (Layout.ptrOffset c.offset) c.val = .ok h') ∧
      (l.note n c).tail = l.tail) ↔ l.Quiet n c := by
  have hn := hl.range.lt
  have hadmits : l.Admits c.val := by
    have := Nat.mod_le c.val.length (2 ^ 32)
    rw [Layout.Admits, Layout.intSize]
    omega
  rw [hl.note_ok_iff hcount hpos, Layout.tail_note_iff hn hroom, Layout.Quiet]
  constructor
  · rintro ⟨⟨-, hx⟩, hval, hend⟩
    exact ⟨hval, hend.imp id fun hout => ⟨hout, hx⟩⟩
  · rintro ⟨hval, hin | ⟨hout, hx⟩⟩
    · exact ⟨⟨hadmits, Or.inl (by omega)⟩, hval, Or.inl hin⟩
    · exact ⟨⟨hadmits, hx⟩, hval, Or.inr hout⟩

/-- **The notes leave the end where it is exactly when each of them does.** -/
theorem Laid.writeNotes_quiet_iff (hcount : l.offsets.length ≤ 2 ^ 31)
    (hpos : 0 < l.offsets.length) {notes : List NoteCall} (hl : Laid n l h)
    (hroom : l.tail + noteBytes notes ≤ n) :
    (∃ h', BuildCalls.writeNotes notes h = .ok h' ∧ h'.objectBuffer.tailOffset.toInt = l.tail) ↔
      ∀ c ∈ notes, l.Quiet n c := by
  induction notes generalizing h with
  | nil => exact iff_of_true ⟨h, rfl, hl.tail⟩ fun c hc => (by cases hc)
  | cons c notes ih =>
    rw [← List.singleton_append, noteBytes_append, noteBytes_singleton] at hroom
    have hone := hl.note_quiet_iff (c := c) hcount hpos (by omega)
    rw [List.forall_mem_cons, BuildCalls.writeNotes, List.foldlM_cons]
    constructor
    · rintro ⟨h', hw, ht⟩
      obtain ⟨h₁, hnote, hrest⟩ := bind_eq_ok.1 hw
      have hl₁ := hl.note hcount hnote
      have hend := (hl₁.writeNotes hcount hrest).tail
      have hle := l.tail_le_note n c
      have hle' := Layout.tail_le_notes n notes (l.note n c)
      have heq : (l.note n c).tail = l.tail := by omega
      rw [Layout.note_eq_self heq] at hl₁
      exact ⟨hone.1 ⟨⟨h₁, hnote⟩, heq⟩, (ih hl₁ (by omega)).1 ⟨h', hrest, ht⟩⟩
    · rintro ⟨hquiet, hnotes⟩
      obtain ⟨⟨h₁, hnote⟩, heq⟩ := hone.2 hquiet
      have hl₁ := hl.note hcount hnote
      rw [Layout.note_eq_self heq] at hl₁
      obtain ⟨h', hrest, ht⟩ := (ih hl₁ (by omega)).2 hnotes
      refine ⟨h', ?_, ht⟩
      rw [hnote, ok_bind]
      exact hrest

end

/-! ## The table -/

/-- The offsets of the values, closed with `last`, under the names of the values. -/
structure Tabled (vals : List (Bytes × Bytes)) (last : Int32) (q : JsonRpcPacket) : Prop where
  length : q.handle.objectPtrs.length = vals.length + 1
  ptrs : ∀ i < vals.length, q.handle.objectPtrs[i]? = some (Int32.ofSizeT (offsetOf vals i))
  last_eq : q.handle.objectPtrs[vals.length]? = some last
  names : ∀ (i : Nat) v, vals[i]? = some v →
    (q.handle.nameIdMap.findKey v.1).getD 0 = Int32.ofSizeT i

section
variable {vals : List (Bytes × Bytes)} {last : Int32} {q : JsonRpcPacket} {i : Nat}
  {v : Bytes × Bytes}

theorem Tabled.sizeKey_iff (ht : Tabled vals last q) (hi : vals[i]? = some v) (n : Nat) :
    q.AnswersSize (.itemSizeKey v.1) n ↔ q.AnswersSize (.itemSize (Int32.ofSizeT i)) n := by
  rw [AnswersSize, AnswersSize, answer_itemSizeKey, ht.names i v hi]

/-- A value that the next one follows has its size, and the last one if the table ends right. -/
theorem Tabled.size_iff (ht : Tabled vals last q) (hi : vals[i]? = some v) (hlt : i + 1 < 2 ^ 31)
    (hlen : v.2.length < 2 ^ 31) : q.AnswersSize (.itemSize (Int32.ofSizeT i)) v.2.length ↔
      (i + 1 = vals.length → last = Int32.ofSizeT (total vals)) := by
  have hin := (List.getElem?_eq_some_iff.1 hi).1
  have hptr := objectPtr_ofSizeT (h := q.handle) (by omega) (ht.ptrs i hin)
  obtain ⟨next, hnext⟩ : ∃ next, q.handle.objectPtrs[i + 1]? = some next :=
    ⟨_, List.getElem?_eq_getElem (by rw [ht.length]; omega)⟩
  have hanswer : q.answer (.itemSize (Int32.ofSizeT i)) =
      .ok (.inr (next - Int32.ofSizeT (offsetOf vals i))) := by
    rw [answer_itemSize, Int32.ofSizeT_add_one, objectPtr_ofSizeT hlt hnext, ok_bind, hptr]
    rfl
  -- the size is right if the next entry is
  have hsize : q.AnswersSize (.itemSize (Int32.ofSizeT i)) v.2.length ↔
      next = Int32.ofSizeT (offsetOf vals (i + 1)) := by
    have hval := Int32.toInt_ofSizeT_of_lt hlen
    rw [AnswersSize, hanswer, offsetOf_succ hi, ← Int32.ofSizeT_add]
    constructor
    · rintro ⟨k, hk, hkn⟩
      obtain rfl : next - _ = k := Sum.inr.inj (Except.ok.inj hk)
      rw [← hval, Int32.toInt_inj] at hkn
      rw [← hkn, Int32.add_comm, Int32.sub_add_cancel]
    · rintro rfl
      refine ⟨_, rfl, ?_⟩
      rw [Int32.add_comm, Int32.add_sub_cancel, hval]
  rw [hsize]
  by_cases hlast : i + 1 = vals.length
  · rw [hlast, ht.last_eq, Option.some_inj] at hnext
    simp only [hlast, offsetOf_length, hnext, forall_const]
  · rw [ht.ptrs (i + 1) (by omega), Option.some_inj] at hnext
    simp only [hlast, hnext, false_implies]

/-- The number behind `2 ^ 31 - 1` is negative. -/
theorem not_answersSize_of_large (hi : i + 1 = 2 ^ 31) (n : Nat) :
    ¬ q.AnswersSize (.itemSize (Int32.ofSizeT i)) n := by
  rintro ⟨k, hk, -⟩
  have hneg : Int32.ofSizeT (i + 1) < 0 := by
    rw [hi]
    decide
  rw [answer_itemSize, Int32.ofSizeT_add_one, BufferReadHandler.objectPtr, if_pos hneg,
    error_bind] at hk
  cases hk

/-- If every value has its size, the values can be numbered. -/
theorem Tabled.numbered (ht : Tabled vals last q)
    (hvals : ∀ (i : Nat) v, vals[i]? = some v → q.AnswersSize (.itemSizeKey v.1) v.2.length) :
    vals.length < 2 ^ 31 := by
  refine Nat.lt_of_not_le fun hmany => ?_
  obtain ⟨i, hi⟩ : ∃ i, i + 1 = 2 ^ 31 := ⟨2 ^ 31 - 1, rfl⟩
  obtain ⟨v, hv⟩ : ∃ v, vals[i]? = some v := ⟨_, List.getElem?_eq_getElem (by omega)⟩
  exact not_answersSize_of_large hi _ ((ht.sizeKey_iff hv _).1 (hvals i v hv))

end

namespace PacketCalls

open BuildCalls

variable {p : PacketCalls} {junk : Nat → ParseType} {buffer : UInt64} {size : Int32}

/-- The sizes survive if every value has its size by its key and by its number. -/
theorem sizesSurvive_iff : p.SizesSurvive junk buffer size ↔
    ∃ q, ({} : JsonRpcPacket).parse junk p.text buffer size = .ok q ∧
      ∀ (i : Nat) v, p.values[i]? = some v → q.AnswersSize (.itemSizeKey v.1) v.2.length ∧
        (0 < i → ∀ k : Int32, k.toInt = i → q.AnswersSize (.itemSize k) v.2.length) := by
  refine exists_congr fun q => and_congr_right fun _ => ?_
  constructor
  · rintro ⟨hheader, hitems⟩ i v hi
    cases i with
    | zero =>
      cases hi
      exact ⟨hheader, fun h0 => absurd h0 (Nat.lt_irrefl 0)⟩
    | succ i =>
      rw [values, List.getElem?_cons_succ, List.getElem?_map, Option.map_eq_some_iff] at hi
      obtain ⟨c, hc, rfl⟩ := hi
      exact ⟨(hitems i c hc).1, fun _ k hk => (hitems i c hc).2 k (by omega)⟩
  · intro hvals
    refine ⟨(hvals 0 _ rfl).1, fun i c hc => ?_⟩
    have hi := getElem?_values hc
    exact ⟨(hvals _ _ hi).1, fun k hk => (hvals _ _ hi).2 (Nat.succ_pos i) k (by omega)⟩

theorem tabled {h h' : BufferReadHandler} {n : Nat} (hh : Holds n buffer p.values [] h)
    (hw : BuildCalls.writeNotes p.notes h = .ok h') :
    Tabled p.values h'.objectBuffer.tailOffset { handle := (p.ended h').appendTailOffset } := by
  obtain ⟨hptrs, -, -, hnames⟩ := writeNotes_ok hw
  have htable : (p.ended h').appendTailOffset.objectPtrs =
      h.objectPtrs ++ [h'.objectBuffer.tailOffset] := by
    rw [appendTailOffset, objectPtrs_ended, objectBuffer_ended, hptrs]
  refine ⟨?_, fun i hi => ?_, ?_, fun i v hi => ?_⟩
  · show (p.ended h').appendTailOffset.objectPtrs.length = _
    rw [htable, List.length_append, hh.length]
    rfl
  · show (p.ended h').appendTailOffset.objectPtrs[i]? = _
    rw [htable, List.getElem?_append_left (by rw [hh.length]; exact hi), hh.ptrs i hi]
  · show (p.ended h').appendTailOffset.objectPtrs[p.values.length]? = _
    rw [htable, ← hh.length, List.getElem?_concat_length]
  · show ((p.ended h').nameIdMap.findKey v.1).getD 0 = _
    rw [nameIdMap_ended, hnames, hh.names i v hi, Option.getD_some]

end PacketCalls

open BuildCalls PacketCalls in
/-- **The sizes of a packet survive the trip** into a buffer with room for it, exactly when the
indeterminate value that the first event reads is not `KEY`, the items and their ends can be
numbered, and no note moves the end of the buffer's contents. -/
theorem packet_sizes_iff (p : PacketCalls) (hkeys : (p.items.map (·.key)).Nodup)
    (hheader : ∀ c ∈ p.items, c.key ≠ packetHeader) (junk : Nat → ParseType) (buffer : UInt64)
    {size : Int32} (hsize : (p.size : Int) ≤ size.toInt) :
    p.SizesSurvive junk buffer size ↔
      junk (p.text.length - 1) ≠ .key ∧ p.items.length + 1 < 2 ^ 31 ∧
        ∀ c ∈ p.notes, (p.layout size.sizeT).Quiet size.sizeT c := by
  have hs : 0 ≤ size := by
    rw [Int32.nonneg_iff]
    omega
  have hn : (size.sizeT : Int) = size.toInt := by
    rw [Int32.sizeT_of_nonneg (by omega)]
    omega
  have hroom := p.size_eq
  have hmax := size.toInt_lt
  have hnodup := p.nodup_keys hkeys hheader
  have hlen : ∀ (i : Nat) v, p.values[i]? = some v → v.2.length < 2 ^ 31 := by
    intro i v hi
    have := end_le_total hi
    omega
  obtain ⟨h₀, h, hheader, hitems, hload, hh⟩ := holds_values hnodup buffer hs (by omega)
  have hl : Laid size.sizeT (p.layout size.sizeT) h :=
    ((laid_setBuffer buffer hs).store hheader).storeItems hitems
  have htotal : (p.layout size.sizeT).tail = total p.values := by
    have ht := hl.tail.symm.trans hh.tail
    rw [show noteBytes [] = 0 from rfl] at ht
    omega
  have hquiet : p.items.length + 1 < 2 ^ 31 → ((∃ h', BuildCalls.writeNotes p.notes h = .ok h' ∧
      h'.objectBuffer.tailOffset.toInt = (p.layout size.sizeT).tail) ↔
      ∀ c ∈ p.notes, (p.layout size.sizeT).Quiet size.sizeT c) := fun hcount =>
    Laid.writeNotes_quiet_iff (by rw [length_layout]; omega) (by rw [length_layout]; omega) hl
      (by omega)
  rw [sizesSurvive_iff]
  constructor
  · rintro ⟨q, hparse, hvals⟩
    obtain ⟨hj, h', hload', rfl⟩ := (parse_eq_ok_iff (arrays_of_empty rfl)).1 hparse
    rw [hload] at hload'
    have ht := tabled hh hload'
    have hcount : p.items.length + 1 < 2 ^ 31 :=
      p.length_values ▸ ht.numbered fun i v hv => (hvals i v hv).1
    refine ⟨hj rfl, hcount, (hquiet hcount).1 ⟨h', hload', ?_⟩⟩
    -- the last value has its size
    obtain ⟨v, hv⟩ : ∃ v, p.values[p.items.length]? = some v :=
      ⟨_, List.getElem?_eq_getElem (by rw [length_values]; omega)⟩
    have hlast := (ht.size_iff hv (by omega) (hlen _ v hv)).1
      ((ht.sizeKey_iff hv _).1 (hvals _ v hv).1) p.length_values.symm
    rw [hlast, Int32.toInt_ofSizeT_of_lt (by omega), htotal]
  · rintro ⟨hj, hcount, hnotes⟩
    obtain ⟨h', hw, htail⟩ := (hquiet hcount).2 hnotes
    have ht := tabled hh hw
    have hlast : h'.objectBuffer.tailOffset = Int32.ofSizeT (total p.values) := by
      rw [← Int32.toInt_inj, htail, htotal, Int32.toInt_ofSizeT_of_lt (by omega)]
    refine ⟨_, (parse_eq_ok_iff (arrays_of_empty rfl)).2 ⟨fun _ => hj, h', hload.trans hw, rfl⟩,
      fun i v hi => ?_⟩
    have hin := (List.getElem?_eq_some_iff.1 hi).1
    rw [length_values] at hin
    have hv := (ht.size_iff hi (by omega) (hlen i v hi)).2 fun _ => hlast
    refine ⟨(ht.sizeKey_iff hi _).2 hv, fun _ k hk => ?_⟩
    obtain rfl : k = Int32.ofSizeT i := by
      rw [← Int32.toInt_inj, hk, Int32.toInt_ofSizeT_of_lt (by omega)]
    exact hv

theorem bracketed_two : bracketed false [.first, .last] = true := rfl

theorem keys_two : ∀ c ∈ [(⟨[97], [0, 0, 0, 0, 0, 0, 0, 0, 1], .first⟩ : ItemCall),
    ⟨[98], [2, 3], .last⟩], c.key ≠ ptrKey ∧ c.key ≠ ptrVal := by decide

/-- Two items and a note in the first one. -/
def notedItems (val : Bytes) : PacketCalls where
  header := [104]
  items := [⟨[97], [0, 0, 0, 0, 0, 0, 0, 0, 1], .first⟩, ⟨[98], [2, 3], .last⟩]
  notes := [⟨[97], 1, val, .single⟩]
  items_bracketed := bracketed_two
  keys := keys_two
  notes_group := Or.inr rfl

/-- A note with an empty value. -/
theorem packet_sizes_two : (notedItems []).SizesSurvive (fun _ => .array) 4096 14 :=
  (packet_sizes_iff (notedItems []) (by decide) (by decide) _ 4096 (by decide)).2
    ⟨by decide, by decide, by decide⟩

/-- The two bytes of a note count for the last item. -/
theorem not_packet_sizes :
    (({} : JsonRpcPacket).parse (fun _ => .array) (notedItems [118, 119]).text 4096 14 >>=
      fun q => q.answer (.itemSizeKey [98])) = .ok (.inr 4) ∧
    ¬ (notedItems [118, 119]).SizesSurvive (fun _ => .array) 4096 14 := by
  have hanswer : (({} : JsonRpcPacket).parse (fun _ => .array) (notedItems [118, 119]).text 4096 14
      >>= fun q => q.answer (.itemSizeKey [98])) = .ok (.inr 4) := rfl
  refine ⟨hanswer, ?_⟩
  rintro ⟨q, hq, -, hitems⟩
  obtain ⟨k, hk, hsize⟩ := (hitems 1 _ rfl).1
  rw [hq, ok_bind] at hanswer
  cases hk.symm.trans hanswer
  revert hsize
  decide

end JsonRpc
