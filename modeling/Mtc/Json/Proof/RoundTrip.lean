import Mathlib.Order.Monotone.Basic
import Mtc.Json.Proof.Format

/-!
# The round trip of a packet

The values of a packet are stored one behind the other. Each note appends its value and writes the
address of it into its slot, which lies in the bytes of its item, apart from the other slots.
`Holds` says what the handler has after some of this. So everything is found again, unless the
indeterminate value that the first event reads makes the handler pop its empty stack, or there are
more items than `int` can number (`packet_round_trip_iff`).
-/

namespace JsonRpc

open Except (ok_bind error_bind bind_eq_ok foldlM_inv)

/-! ## Copies with room for them -/

namespace FixedBuffer

variable {n : Nat} {b : FixedBuffer} {data : Bytes} {offset size : Int32}

theorem put_room (hb : b.InRange n) {o : Nat} (ho : offset.toInt = o)
    (hs : size.toInt = data.length) (hroom : o + data.length ≤ n) :
    ∃ b', b.put data offset size = .ok (true, b') ∧ b'.InRange n ∧ b'.address = b.address ∧
      b'.tailOffset.toInt = max b.tailOffset.toInt (o + data.length : Nat) ∧
      Bytes.writeAt b.bytes o data = some b'.bytes := by
  have hn := hb.lt
  have hadd := Int32.toInt_add_of_range (x := offset) (y := size) (by omega) (by omega)
  obtain ⟨bytes, hw, hput⟩ := put_fits hb (show 0 ≤ offset.toInt by omega)
    (show 0 ≤ size.toInt by omega) (show size.toInt ≤ data.length by omega) (by omega)
  refine ⟨_, hput, inRange_put hb (by omega) (by omega) (by omega) hw, rfl, ?_, ?_⟩
  · dsimp only
    split_ifs with hgt
    · rw [gt_iff_lt, Int32.lt_iff_toInt_lt] at hgt
      omega
    · rw [gt_iff_lt, Int32.lt_iff_toInt_lt] at hgt
      omega
  · rw [← hw, hs, ho, Int.toNat_natCast, Int.toNat_natCast, List.take_length]

theorem append_room (hb : b.InRange n) {t : Nat} (ht : b.tailOffset.toInt = t)
    (hroom : t + data.length ≤ n) :
    ∃ b', b.append data (Int32.ofSizeT data.length) = .ok (b.tailOffset, b') ∧ b'.InRange n ∧
      b'.address = b.address ∧ b'.tailOffset.toInt = (t + data.length : Nat) ∧
      Bytes.writeAt b.bytes t data = some b'.bytes := by
  have hn := hb.lt
  obtain ⟨b', hput, hb', ha, htail, hw⟩ := put_room hb ht
    (Int32.toInt_ofSizeT_of_lt (show data.length < 2 ^ 31 by omega)) hroom
  refine ⟨b', ?_, hb', ha, by omega, hw⟩
  rw [append, hput]
  rfl

theorem getAddress_eq (b : FixedBuffer) {o : Nat} (ho : offset.toInt = o) :
    b.getAddress offset = b.address + UInt64.ofNat o := by
  have hcast : offset.toInt64.toUInt64 = UInt64.ofNat o := by
    rw [← UInt64.toBitVec_inj]
    show BitVec.ofInt 64 offset.toInt = BitVec.ofNat 64 o
    rw [ho, BitVec.ofInt_natCast]
  rw [getAddress, hcast]

end FixedBuffer

/-! ## Offsets -/

/-- The offset of value `i`. -/
def offsetOf (vals : List (Bytes × Bytes)) (i : Nat) : Nat :=
  ((vals.take i).map fun v => v.2.length).sum

/-- The bytes of all values. -/
def total (vals : List (Bytes × Bytes)) : Nat := (vals.map fun v => v.2.length).sum

section
variable {vals : List (Bytes × Bytes)} {i i' : Nat} {v v' : Bytes × Bytes}

theorem offsetOf_succ (h : vals[i]? = some v) :
    offsetOf vals (i + 1) = offsetOf vals i + v.2.length := by
  rw [offsetOf, List.take_add_one, h, Option.toList_some, List.map_append, List.sum_append]
  rfl

theorem offsetOf_mono (vals : List (Bytes × Bytes)) : Monotone (offsetOf vals) := by
  refine monotone_nat_of_le_succ fun i => ?_
  cases h : vals[i]? with
  | none => rw [offsetOf, offsetOf, List.take_add_one, h, Option.toList_none, List.append_nil]
  | some v => rw [offsetOf_succ h]; exact Nat.le_add_right ..

theorem offsetOf_length (vals : List (Bytes × Bytes)) : offsetOf vals vals.length = total vals := by
  rw [offsetOf, List.take_length, total]

theorem end_le_offsetOf (h : vals[i]? = some v) (hlt : i < i') :
    offsetOf vals i + v.2.length ≤ offsetOf vals i' := by
  rw [← offsetOf_succ h]
  exact offsetOf_mono vals hlt

theorem end_le_total (h : vals[i]? = some v) : offsetOf vals i + v.2.length ≤ total vals := by
  rw [← offsetOf_length]
  exact end_le_offsetOf h (List.getElem?_eq_some_iff.1 h).1

/-- Different values do not overlap. -/
theorem values_disjoint (h : vals[i]? = some v) (h' : vals[i']? = some v') (hne : i ≠ i') :
    offsetOf vals i + v.2.length ≤ offsetOf vals i' ∨
      offsetOf vals i' + v'.2.length ≤ offsetOf vals i := by
  rcases Nat.lt_or_gt_of_ne hne with hlt | hgt
  · exact Or.inl (end_le_offsetOf h hlt)
  · exact Or.inr (end_le_offsetOf h' hgt)

/-- Parts of values do not overlap if they do not where the values are one. -/
theorem parts_disjoint (h : vals[i]? = some v) (h' : vals[i']? = some v') {a k b l : Nat}
    (ha : a + k ≤ v.2.length) (hb : b + l ≤ v'.2.length)
    (hsame : i = i' → a + k ≤ b ∨ b + l ≤ a) :
    offsetOf vals i + a + k ≤ offsetOf vals i' + b ∨
      offsetOf vals i' + b + l ≤ offsetOf vals i + a := by
  by_cases hii : i = i'
  · subst hii
    have := hsame rfl
    omega
  · have := values_disjoint h h' hii
    omega

theorem offsetOf_append (h : i ≤ vals.length) (rest : List (Bytes × Bytes)) :
    offsetOf (vals ++ rest) i = offsetOf vals i := by
  rw [offsetOf, List.take_append_of_le_length h, offsetOf]

theorem total_append (vals rest : List (Bytes × Bytes)) :
    total (vals ++ rest) = total vals + total rest := by
  rw [total, List.map_append, List.sum_append]
  rfl

theorem total_singleton (v : Bytes × Bytes) : total [v] = v.2.length := rfl

/-- With distinct keys, a key has one value. -/
theorem index_unique (hk : (vals.map Prod.fst).Nodup) (h : vals[i]? = some v)
    (h' : vals[i']? = some v') (heq : v.1 = v'.1) : i = i' := by
  have hi := (List.getElem?_eq_some_iff.1 h).1
  have hmap : (vals.map Prod.fst)[i]? = (vals.map Prod.fst)[i']? := by
    rw [List.getElem?_map, List.getElem?_map, h, h', Option.map_some, Option.map_some, heq]
  exact (List.getElem?_inj (by rw [List.length_map]; exact hi) hk).1 hmap

end

/-! ## What the handler holds -/

/-- The bytes of the values of notes. -/
def noteBytes (notes : List NoteCall) : Nat := (notes.map (·.val.length)).sum

theorem noteBytes_append (notes rest : List NoteCall) :
    noteBytes (notes ++ rest) = noteBytes notes + noteBytes rest := by
  rw [noteBytes, List.map_append, List.sum_append]
  rfl

theorem noteBytes_singleton (c : NoteCall) : noteBytes [c] = c.val.length := rfl

/-- The values are in the buffer, one behind the other, under their numbers and names; the notes
`done` are written, with copies of their values behind. -/
structure Holds (n : Nat) (address : UInt64) (vals : List (Bytes × Bytes)) (done : List NoteCall)
    (h : BufferReadHandler) : Prop where
  range : h.objectBuffer.InRange n
  address_eq : h.objectBuffer.address = address
  stack : h.parseStack = []
  tail : h.objectBuffer.tailOffset.toInt = (total vals + noteBytes done : Nat)
  length : h.objectPtrs.length = vals.length
  ptrs : ∀ i < vals.length, h.objectPtrs[i]? = some (Int32.ofSizeT (offsetOf vals i))
  names : ∀ (i : Nat) v, vals[i]? = some v → h.nameIdMap.findKey v.1 = some (Int32.ofSizeT i)
  plain : ∀ (i : Nat) v, vals[i]? = some v → ∀ j < v.2.length,
    (∀ c ∈ done, c.itemKey = v.1 → j < c.slot ∨ c.slot + 8 ≤ j) →
    h.objectBuffer.bytes[offsetOf vals i + j]? = v.2[j]?
  copies : ∀ c ∈ done, ∀ (i : Nat) v, vals[i]? = some v → c.itemKey = v.1 →
    c.slot + 8 ≤ v.2.length ∧ ∃ a : Nat,
    total vals ≤ a ∧ a + c.val.length ≤ total vals + noteBytes done ∧
    h.objectBuffer.bytes.HasAt a c.val ∧
    h.objectBuffer.bytes.HasAt (offsetOf vals i + c.slot) (Bytes.le64 (address + UInt64.ofNat a))

section
variable {n : Nat} {address : UInt64} {vals : List (Bytes × Bytes)} {done : List NoteCall}
  {h : BufferReadHandler}

theorem Holds.le (hh : Holds n address vals done h) : total vals + noteBytes done ≤ n := by
  have ht := hh.tail
  have hle := hh.range.tail_le
  omega

/-- Values are looked up in a longer list. -/
theorem getElem?_concat {v : Bytes × Bytes} {i : Nat} {w : Bytes × Bytes}
    (hi : (vals ++ [v])[i]? = some w) : vals[i]? = some w ∨ i = vals.length ∧ w = v := by
  rw [List.getElem?_append] at hi
  split_ifs at hi with hlt
  · exact Or.inl hi
  · rw [List.getElem?_singleton] at hi
    split_ifs at hi with h0
    exact Or.inr ⟨by omega, (Option.some_inj.1 hi).symm⟩

/-- One more value is stored under a new key. -/
theorem Holds.store (hh : Holds n address vals [] h) {key data : Bytes}
    (hkey : key ∉ vals.map Prod.fst) (hroom : total vals + data.length ≤ n) :
    ∃ h', h.store key data = .ok h' ∧ Holds n address (vals ++ [(key, data)]) [] h' := by
  have htail : h.objectBuffer.tailOffset.toInt = total vals := hh.tail
  obtain ⟨b', happend, hb', haddr, htail', hw⟩ :=
    FixedBuffer.append_room hh.range htail hroom
  have hoff : h.objectBuffer.tailOffset = Int32.ofSizeT (total vals) := by
    have hn := hh.range.lt
    rw [← Int32.toInt_inj, htail, Int32.toInt_ofSizeT_of_lt (by omega)]
  have hstore : h.store key data = .ok { h with
      objectBuffer := b'
      objectPtrs := h.objectPtrs ++ [h.objectBuffer.tailOffset]
      nameIdMap := h.nameIdMap.assign key (Int32.ofSizeT vals.length) } := by
    rw [BufferReadHandler.store_eq, happend, ok_bind, ← hh.length]
    rfl
  refine ⟨_, hstore, hb', haddr.trans hh.address_eq, hh.stack, ?_, ?_, fun i hi => ?_,
    fun i w hi => ?_, fun i w hi j hj _ => ?_, fun c hc => (by cases hc)⟩
  · rw [total_append, total_singleton]
    exact htail'
  · simp only [List.length_append, hh.length, List.length_singleton]
  · rw [List.length_append, List.length_singleton] at hi
    rw [offsetOf_append (by omega), List.getElem?_append, hh.length]
    split_ifs with hlt
    · exact hh.ptrs i hlt
    · obtain rfl : i = vals.length := by omega
      rw [Nat.sub_self, offsetOf_length, ← hoff]
      rfl
  · rw [AssocMap.findKey_assign]
    obtain hi | ⟨rfl, rfl⟩ := getElem?_concat hi
    · rw [if_neg, hh.names i w hi]
      exact fun he => hkey (he ▸ List.mem_map_of_mem (List.mem_of_getElem? hi))
    · rw [if_pos rfl]
  · obtain hi | ⟨rfl, rfl⟩ := getElem?_concat hi
    · have hlt := (List.getElem?_eq_some_iff.1 hi).1
      have hle := end_le_total hi
      rw [offsetOf_append (by omega), Bytes.getElem?_writeAt hw, if_neg (by omega)]
      exact hh.plain i w hi j hj fun c hc => (by cases hc)
    · rw [offsetOf_append (Nat.le_refl _), offsetOf_length]
      exact Bytes.hasAt_writeAt hw j hj

/-- The offset that `put` gets for the slot of a note. -/
theorem slot_offset {c : NoteCall} (hc : 0 ≤ c.offset) (o : Nat) :
    ((Int32.ofSizeT o).toUInt32 + Layout.ptrOffset c.offset).toInt32 =
      Int32.ofSizeT (o + c.slot) := by
  rw [Int32.nonneg_iff] at hc
  have hslot : c.offset = Int32.ofSizeT c.slot := by
    have hhi := c.offset.toInt_lt
    rw [← Int32.toInt_inj, NoteCall.slot, Int32.toInt_ofSizeT_of_lt (by omega)]
    omega
  have hneg : ¬ c.offset < 0 := by
    rw [Int32.lt_iff_toInt_lt, Int32.toInt_zero]
    omega
  rw [Layout.ptrOffset, if_neg hneg, hslot, Int32.toUInt32_ofSizeT, Int32.toUInt32_ofSizeT,
    ← UInt32.ofNat_add, Int32.toInt32_ofNat]

/-- One more note is written, apart from the slots of those before. -/
theorem Holds.note (hh : Holds n address vals done h) (hkeys : (vals.map Prod.fst).Nodup)
    (hcount : vals.length ≤ 2 ^ 31) {c : NoteCall} (hc : 0 ≤ c.offset) {i : Nat} {v : Bytes × Bytes}
    (hi : vals[i]? = some v) (hkey : c.itemKey = v.1) (hslot : c.slot + 8 ≤ v.2.length)
    (hapart : ∀ d ∈ done, d.itemKey = c.itemKey → d.slot + 8 ≤ c.slot ∨ c.slot + 8 ≤ d.slot)
    (hroom : total vals + noteBytes done + c.val.length ≤ n) :
    ∃ h', h.note c.itemKey (Layout.ptrOffset c.offset) c.val = .ok h' ∧
      Holds n address vals (done ++ [c]) h' := by
  have hn := hh.range.lt
  have hlt := (List.getElem?_eq_some_iff.1 hi).1
  have hle := end_le_total hi
  obtain ⟨b, happend, hb, haddr, htail, hw⟩ := FixedBuffer.append_room hh.range hh.tail hroom
  have hfind : h.nameIdMap.findKey c.itemKey = some (Int32.ofSizeT i) := by
    rw [hkey]
    exact hh.names i v hi
  have hptr := BufferReadHandler.objectPtr_ofSizeT (h := h) (by omega) (hh.ptrs i hlt)
  -- the address of the copy
  obtain ⟨word, hword⟩ : ∃ word, word = address + UInt64.ofNat (total vals + noteBytes done) :=
    ⟨_, rfl⟩
  have hcopy : b.getAddress h.objectBuffer.tailOffset = word := by
    rw [b.getAddress_eq hh.tail, haddr, hh.address_eq, hword]
  obtain ⟨b', hput, hb', haddr', htail', hw'⟩ := FixedBuffer.put_room hb
    (Int32.toInt_ofSizeT_of_lt (show offsetOf vals i + c.slot < 2 ^ 31 by omega))
    (show (8 : Int32).toInt = (Bytes.le64 word).length from rfl) (by rw [Bytes.length_le64]; omega)
  rw [Bytes.length_le64] at htail'
  have hnote : h.note c.itemKey (Layout.ptrOffset c.offset) c.val =
      .ok { h with objectBuffer := b' } := by
    rw [BufferReadHandler.note_eq, happend, ok_bind, hfind, Option.getD_some, hptr, ok_bind,
      slot_offset hc, hcopy, hput, ok_bind, AssocMap.access_of_some hfind]
    rfl
  -- a byte that neither write touches
  have hkept : ∀ j, j < total vals + noteBytes done →
      j < offsetOf vals i + c.slot ∨ offsetOf vals i + c.slot + 8 ≤ j →
      b'.bytes[j]? = h.objectBuffer.bytes[j]? := by
    intro j hj hout
    rw [Bytes.getElem?_writeAt hw', Bytes.length_le64, if_neg (by omega), Bytes.getElem?_writeAt hw,
      if_neg (by omega)]
  have hsum := noteBytes_append done [c]
  rw [noteBytes_singleton] at hsum
  refine ⟨_, hnote, hb', (haddr'.trans haddr).trans hh.address_eq, hh.stack, ?_, hh.length, hh.ptrs,
    hh.names, fun i' w hi' j hj hfree => ?_, fun d hd i' w hi' hdw => ?_⟩
  · show b'.tailOffset.toInt = _
    omega
  · have hend := end_le_total hi'
    show b'.bytes[_]? = _
    rw [hkept _ (by omega)]
    · exact hh.plain i' w hi' j hj fun d hd => hfree d (List.mem_append_left _ hd)
    · have hdis := parts_disjoint hi hi' hslot (show j + 1 ≤ w.2.length by omega) fun hii => by
        subst hii
        obtain rfl : v = w := Option.some_inj.1 (hi.symm.trans hi')
        have := hfree c (List.mem_append_right _ (List.mem_singleton_self c)) hkey
        omega
      omega
  · rcases List.mem_append.1 hd with hd | hd
    · obtain ⟨hin, a, ha, hae, hval, hslotd⟩ := hh.copies d hd i' w hi' hdw
      have hend := end_le_total hi'
      have hdis := parts_disjoint hi hi' hslot hin fun hii => by
        subst hii
        obtain rfl : v = w := Option.some_inj.1 (hi.symm.trans hi')
        exact (hapart d hd (hdw.trans hkey.symm)).symm
      refine ⟨hin, a, ha, by omega, ?_, ?_⟩
      · exact (hval.writeAt_disjoint hw (Or.inl hae)).writeAt_disjoint hw'
          (by rw [Bytes.length_le64]; omega)
      · exact (hslotd.writeAt_disjoint hw (by rw [Bytes.length_le64]; omega)).writeAt_disjoint hw'
          (by rw [Bytes.length_le64, Bytes.length_le64]; omega)
    · obtain rfl := List.mem_singleton.1 hd
      obtain rfl := index_unique hkeys hi hi' (hkey.symm.trans hdw)
      obtain rfl : v = w := Option.some_inj.1 (hi.symm.trans hi')
      refine ⟨hslot, total vals + noteBytes done, by omega, by omega, ?_, ?_⟩
      · exact (Bytes.hasAt_writeAt hw).writeAt_disjoint hw' (by rw [Bytes.length_le64]; omega)
      · rw [← hword]
        exact Bytes.hasAt_writeAt hw'

end

/-! ## The packet -/

namespace BuildCalls

open BufferReadHandler

variable {n : Nat} {address : UInt64} {h : BufferReadHandler}

theorem size_eq (p : BuildCalls) : p.size = total p.values + noteBytes p.notes := by
  simp only [size, values, total, noteBytes, List.map_cons, List.sum_cons, List.map_map]
  rfl

theorem holds_storeItems : ∀ (items : List ItemCall) {vals : List (Bytes × Bytes)}
    {h : BufferReadHandler}, Holds n address vals [] h →
    ((vals ++ items.map fun c => (c.key, c.val)).map Prod.fst).Nodup →
    total (vals ++ items.map fun c => (c.key, c.val)) ≤ n →
    ∃ h', storeItems items h = .ok h' ∧
      Holds n address (vals ++ items.map fun c => (c.key, c.val)) [] h'
  | [], vals, h, hh, _, _ => by
    rw [List.map_nil, List.append_nil]
    exact ⟨h, rfl, hh⟩
  | c :: items, vals, h, hh, hkeys, hroom => by
    rw [List.map_cons, List.append_cons] at hkeys hroom ⊢
    have hnew : c.key ∉ vals.map Prod.fst := by
      rw [List.map_append, List.map_append] at hkeys
      have := (List.nodup_append.1 (List.nodup_append.1 hkeys).1).2.2
      exact fun hm => this _ hm _ (List.mem_singleton_self _) rfl
    have hfit : total vals + c.val.length ≤ n := by
      rw [total_append, total_append, total_singleton] at hroom
      exact (Nat.le_add_right ..).trans hroom
    obtain ⟨h₁, hstore, hh₁⟩ := hh.store hnew hfit
    obtain ⟨h', hrest, hh'⟩ := holds_storeItems items hh₁ hkeys hroom
    refine ⟨h', ?_, hh'⟩
    rw [storeItems, List.foldlM_cons, hstore, ok_bind]
    exact hrest

/-- Each note has its slot in a value, apart from the others. -/
structure NotesFit (vals : List (Bytes × Bytes)) (notes : List NoteCall) : Prop where
  offset : ∀ c ∈ notes, 0 ≤ c.offset
  slot : ∀ c ∈ notes, ∃ (i : Nat) (v : Bytes × Bytes), vals[i]? = some v ∧ c.itemKey = v.1 ∧
    c.slot + 8 ≤ v.2.length
  apart : notes.Pairwise fun c d => c.itemKey = d.itemKey →
    c.slot + 8 ≤ d.slot ∨ d.slot + 8 ≤ c.slot

theorem holds_writeNotes {vals : List (Bytes × Bytes)} (hkeys : (vals.map Prod.fst).Nodup)
    (hcount : vals.length ≤ 2 ^ 31) : ∀ (notes : List NoteCall) {done : List NoteCall}
    {h : BufferReadHandler}, Holds n address vals done h → NotesFit vals (done ++ notes) →
    total vals + noteBytes (done ++ notes) ≤ n →
    ∃ h', writeNotes notes h = .ok h' ∧ Holds n address vals (done ++ notes) h'
  | [], done, h, hh, _, _ => by
    rw [List.append_nil]
    exact ⟨h, rfl, hh⟩
  | c :: notes, done, h, hh, hfit, hroom => by
    have hmem : c ∈ done ++ c :: notes := List.mem_append_right _ (List.mem_cons_self ..)
    obtain ⟨i, v, hi, hkey, hslot⟩ := hfit.slot c hmem
    have hapart : ∀ d ∈ done, d.itemKey = c.itemKey →
        d.slot + 8 ≤ c.slot ∨ c.slot + 8 ≤ d.slot := fun d hd =>
      (List.pairwise_append.1 hfit.apart).2.2 d hd c (List.mem_cons_self ..)
    rw [List.append_cons] at hfit hroom ⊢
    have hone : total vals + noteBytes done + c.val.length ≤ n := by
      rw [noteBytes_append, noteBytes_append, noteBytes_singleton] at hroom
      omega
    obtain ⟨h₁, hnote, hh₁⟩ := hh.note hkeys hcount (hfit.offset c (by simp)) hi hkey hslot hapart
      hone
    obtain ⟨h', hrest, hh'⟩ := holds_writeNotes hkeys hcount notes hh₁ hfit hroom
    refine ⟨h', ?_, hh'⟩
    rw [writeNotes, List.foldlM_cons, hnote, ok_bind]
    exact hrest

/-- Notes change no offset, and no number that a name leads to. -/
theorem writeNotes_ok {notes : List NoteCall} {h h' : BufferReadHandler}
    (hr : writeNotes notes h = .ok h') : h'.objectPtrs = h.objectPtrs ∧
      h'.objectBuffer.address = h.objectBuffer.address ∧ h'.parseStack = h.parseStack ∧
      ∀ k, (h'.nameIdMap.findKey k).getD 0 = (h.nameIdMap.findKey k).getD 0 := by
  unfold writeNotes at hr
  refine foldlM_inv (I := fun h' => h'.objectPtrs = h.objectPtrs ∧
    h'.objectBuffer.address = h.objectBuffer.address ∧ h'.parseStack = h.parseStack ∧
    ∀ k, (h'.nameIdMap.findKey k).getD 0 = (h.nameIdMap.findKey k).getD 0)
    (fun hi hnote => ?_) ⟨rfl, rfl, rfl, fun _ => rfl⟩ hr
  obtain ⟨hptrs, haddr, hstack, hnames⟩ := hi
  obtain ⟨b, hb, rfl⟩ := note_ok hnote
  refine ⟨hptrs, hb.trans haddr, hstack, fun k => ?_⟩
  rw [AssocMap.findKey_access_getD, hnames]

theorem holds_setBuffer (buffer : UInt64) {size : Int32} (hs : 0 ≤ size) :
    Holds size.sizeT buffer [] [] (({} : BufferReadHandler).setBuffer buffer size) where
  range := inRange_setBuffer _ buffer hs
  address_eq := rfl
  stack := rfl
  tail := rfl
  length := rfl
  ptrs i hi := by cases hi
  names i v hi := by cases hi
  plain i v hi := by cases hi
  copies c hc := by cases hc

variable (p : BuildCalls)

theorem length_values : p.values.length = p.items.length + 1 := by simp [values]

theorem nodup_keys (hkeys : (p.items.map (·.key)).Nodup)
    (hheader : ∀ c ∈ p.items, c.key ≠ packetHeader) : (p.values.map Prod.fst).Nodup := by
  simp only [values, List.map_cons, List.map_map, List.nodup_cons]
  refine ⟨fun hm => ?_, hkeys⟩
  obtain ⟨c, hc, hk⟩ := List.mem_map.1 hm
  exact hheader c hc hk

variable {p}

theorem getElem?_values {i : Nat} {c : ItemCall} (hi : p.items[i]? = some c) :
    p.values[i + 1]? = some (c.key, c.val) := by
  rw [values, List.getElem?_cons_succ, List.getElem?_map, hi]
  rfl

/-- A header and items with different names are stored. -/
theorem holds_values (hkeys : (p.values.map Prod.fst).Nodup) (buffer : UInt64) {size : Int32}
    (hs : 0 ≤ size) (hroom : total p.values ≤ size.sizeT) :
    ∃ h₀ h, (({} : BufferReadHandler).setBuffer buffer size).store packetHeader p.header = .ok h₀ ∧
      storeItems p.items h₀ = .ok h ∧
      p.load (({} : BufferReadHandler).setBuffer buffer size) = writeNotes p.notes h ∧
      Holds size.sizeT buffer p.values [] h := by
  have hfit : total [] + p.header.length ≤ size.sizeT := by
    rw [values, ← List.singleton_append, total_append, total_singleton] at hroom
    exact (Nat.le_of_eq (Nat.zero_add _)).trans ((Nat.le_add_right ..).trans hroom)
  obtain ⟨h₀, hstore, hh₀⟩ := (holds_setBuffer buffer hs).store
    (List.not_mem_nil (a := packetHeader)) hfit
  obtain ⟨h, hitems, hh⟩ := holds_storeItems p.items hh₀ hkeys hroom
  refine ⟨h₀, h, hstore, hitems, ?_, hh⟩
  rw [load, hstore, ok_bind, hitems, ok_bind]

end BuildCalls

/-- What is found under a number and under a name. -/
theorem Holds.found {n : Nat} {address : UInt64} {vals : List (Bytes × Bytes)}
    {done : List NoteCall} {h : BufferReadHandler} (hh : Holds n address vals done h)
    (hcount : vals.length ≤ 2 ^ 31) {i : Nat} {v : Bytes × Bytes} (hi : vals[i]? = some v) :
    let q : JsonRpcPacket := { handle := h.appendTailOffset }
    ∃ ptr, q.getPacketItemPtrKey v.1 = .ok (ptr, q) ∧
      q.getPacketItemPtr (Int32.ofSizeT i) = .ok ptr ∧
      q.handle.objectBuffer.Shows ptr v.2 (done.filter (·.itemKey = v.1)) := by
  intro q
  have hn := hh.range.lt
  have hle := hh.le
  have hend := end_le_total hi
  have hlt := (List.getElem?_eq_some_iff.1 hi).1
  have hbytes : h.objectBuffer.bytes.length = n := hh.range.bytes
  have hptr : q.handle.objectPtr (Int32.ofSizeT i) = .ok (Int32.ofSizeT (offsetOf vals i)) := by
    refine BufferReadHandler.objectPtr_ofSizeT (by omega) ?_
    rw [← hh.ptrs i hlt]
    exact List.getElem?_append_left (by rw [hh.length]; exact hlt)
  have hitem : q.getPacketItemPtr (Int32.ofSizeT i) =
      .ok (address + UInt64.ofNat (offsetOf vals i)) := by
    rw [JsonRpcPacket.getPacketItemPtr, hptr, ok_bind,
      FixedBuffer.getAddress_eq _ (Int32.toInt_ofSizeT_of_lt (by omega)), ← hh.address_eq]
    rfl
  have hname : q.handle.nameId v.1 = (Int32.ofSizeT i, q.handle) := by
    have hf : q.handle.nameIdMap.findKey v.1 = some (Int32.ofSizeT i) := hh.names i v hi
    rw [BufferReadHandler.nameId_eq, AssocMap.access_of_some hf, hf, Option.getD_some]
  refine ⟨_, ?_, hitem, offsetOf vals i, ?_, ?_, fun j hj hfree => ?_, fun c hc => ?_⟩
  · rw [JsonRpcPacket.getPacketItemPtrKey, hname]
    show (q.getPacketItemPtr (Int32.ofSizeT i) >>= fun ptr => .ok (ptr, q)) = _
    rw [hitem, ok_bind]
  · rw [← hh.address_eq]
    rfl
  · show _ ≤ h.objectBuffer.bytes.length
    omega
  · refine hh.plain i v hi j hj fun c hc hkey => hfree c ?_
    exact List.mem_filter.2 ⟨hc, decide_eq_true hkey⟩
  · obtain ⟨hc, hkey⟩ := List.mem_filter.1 hc
    obtain ⟨hin, a, ha, hae, hval, hslot⟩ := hh.copies c hc i v hi (of_decide_eq_true hkey)
    refine ⟨a, ?_, ?_, ?_⟩
    · rw [← hh.address_eq] at hslot
      have htake := hslot.take_drop
      rwa [Bytes.length_le64] at htake
    · show _ ≤ h.objectBuffer.bytes.length
      omega
    · exact hval.take_drop


/-- A name that leads to a negative number. -/
theorem JsonRpcPacket.getPacketItemPtrKey_neg {q : JsonRpcPacket} {key : Bytes} {index : Int32}
    (hf : (q.handle.nameIdMap.findKey key).getD 0 = index) (hneg : index < 0) :
    q.getPacketItemPtrKey key = .error .badIndex := by
  simp only [getPacketItemPtrKey, getPacketItemPtr, BufferReadHandler.nameId_eq, hf,
    BufferReadHandler.objectPtr, if_pos hneg, error_bind]

namespace Packet

open BufferReadHandler BuildCalls

variable {p : Packet} {junk : Nat → ParseType} {buffer : UInt64} {size : Int32}

/-- The notes are about items, so there is none about the header. -/
theorem notesFit (hnotes : ∀ c ∈ p.notes, 0 ≤ c.offset ∧
      ∃ d ∈ p.items, d.key = c.itemKey ∧ c.slot + 8 ≤ d.val.length)
    (hapart : p.notes.Pairwise fun c d => c.itemKey = d.itemKey →
      c.slot + 8 ≤ d.slot ∨ d.slot + 8 ≤ c.slot) : NotesFit p.values p.notes where
  offset c hc := (hnotes c hc).1
  slot c hc := by
    obtain ⟨d, hd, hkey, hslot⟩ := (hnotes c hc).2
    obtain ⟨i, hi⟩ := List.getElem?_of_mem hd
    exact ⟨i + 1, _, getElem?_values hi, hkey.symm, hslot⟩
  apart := hapart

/-- A packet with an item for the number `2 ^ 31` cannot be asked for it by its key. -/
theorem not_roundTrips_of_many (hkeys : (p.values.map Prod.fst).Nodup) (hs : 0 ≤ size)
    (hroom : total p.values ≤ size.sizeT) (hmany : 2 ^ 31 ≤ p.items.length) :
    ¬ RoundTrips p junk buffer size := by
  rintro ⟨-, q, -, -, hq, -, hitem⟩
  obtain ⟨-, h₁, -, -, hload, hh⟩ := holds_values hkeys buffer hs hroom
  obtain ⟨-, h₂, hload₂, rfl⟩ := (PacketCalls.parse_eq_ok_iff (arrays_of_empty rfl)).1 hq
  have hwrite := hload.symm.trans hload₂
  obtain ⟨i, hi⟩ : ∃ i, i + 1 = 2 ^ 31 := ⟨2 ^ 31 - 1, rfl⟩
  obtain ⟨c, hc⟩ : ∃ c, p.items[i]? = some c := ⟨_, List.getElem?_eq_getElem (by omega)⟩
  obtain ⟨ptr, hget, -⟩ := hitem i c hc
  have hname : ((p.ended h₂).nameIdMap.findKey c.key).getD 0 = Int32.ofSizeT (i + 1) := by
    rw [p.ended_eq, (writeNotes_ok hwrite).2.2.2, hh.names _ _ (getElem?_values hc),
      Option.getD_some]
  have hneg : Int32.ofSizeT (i + 1) < 0 := by
    rw [hi]
    decide
  rw [JsonRpcPacket.getPacketItemPtrKey_neg hname hneg] at hget
  cases hget

end Packet

open Packet BuildCalls BufferReadHandler in
/-- **A packet survives the trip** into a buffer with room for it, exactly when the indeterminate
value that the first event reads is not `KEY` and the items can be numbered. -/
theorem packet_round_trip_iff (p : Packet) (hkeys : (p.items.map (·.key)).Nodup)
    (hheader : ∀ c ∈ p.items, c.key ≠ packetHeader)
    (hnotes : ∀ c ∈ p.notes, 0 ≤ c.offset ∧
      ∃ d ∈ p.items, d.key = c.itemKey ∧ c.slot + 8 ≤ d.val.length)
    (hapart : p.notes.Pairwise fun c d => c.itemKey = d.itemKey →
      c.slot + 8 ≤ d.slot ∨ d.slot + 8 ≤ c.slot)
    (junk : Nat → ParseType) (buffer : UInt64) {size : Int32}
    (hsize : (p.size : Int) ≤ size.toInt) :
    RoundTrips p junk buffer size ↔
      junk (p.text.length - 1) ≠ .key ∧ p.items.length < 2 ^ 31 := by
  have hs : 0 ≤ size := by
    rw [Int32.nonneg_iff]
    omega
  have hn : p.size ≤ size.sizeT := by
    rw [Int32.sizeT_of_nonneg (by omega)]
    omega
  have hnodup := p.nodup_keys hkeys hheader
  have hroom := p.size_eq
  constructor
  · intro hr
    have hj : junk (p.text.length - 1) ≠ .key := by
      intro hj
      obtain ⟨h, q, hparse, -⟩ := hr
      cases (p.parseEvents_text_junk hj rfl).symm.trans hparse
    refine ⟨hj, Nat.lt_of_not_le fun hmany => ?_⟩
    exact not_roundTrips_of_many hnodup hs (by omega) hmany hr
  · rintro ⟨hj, hcount⟩
    have hlen : p.values.length ≤ 2 ^ 31 := by
      rw [length_values]
      omega
    obtain ⟨-, h₁, -, -, hload, hh₁⟩ := holds_values hnodup buffer hs (by omega)
    obtain ⟨h, hwrite, hh⟩ := holds_writeNotes hnodup hlen p.notes hh₁ (notesFit hnotes hapart)
      (by rw [List.nil_append]; omega)
    rw [List.nil_append] at hh
    have hparse := p.parseEvents_text (h := ({} : BufferReadHandler).setBuffer buffer size)
      (fun _ => hj) (arrays_of_empty rfl)
    rw [hload, hwrite, ok_bind, p.ended_eq] at hparse
    refine ⟨h, { handle := h.appendTailOffset }, hparse, hh.stack, ?_, ?_, fun i c hi => ?_⟩
    · show (parseEvents junk (({} : BufferReadHandler).setBuffer buffer size) p.text >>= _) = _
      rw [hparse]
      rfl
    · obtain ⟨ptr, hkey, hitem, hshow⟩ := hh.found hlen (i := 0) rfl
      refine ⟨ptr, hkey, hitem, ?_⟩
      rwa [List.filter_eq_nil_iff.2] at hshow
      intro c hc hk
      obtain ⟨d, hd, hdk, -⟩ := (hnotes c hc).2
      exact hheader d hd (hdk.trans (of_decide_eq_true hk))
    · obtain ⟨ptr, hkey, hitem, hshow⟩ := hh.found hlen (getElem?_values hi)
      refine ⟨ptr, hkey, fun k hk => ?_, hshow⟩
      have hlt := (List.getElem?_eq_some_iff.1 hi).1
      obtain rfl : k = Int32.ofSizeT (i + 1) := by
        rw [← Int32.toInt_inj, hk, Int32.toInt_ofSizeT_of_lt (by omega)]
        rfl
      exact hitem

/-- A packet with two items and a note in the first one. -/
def twoItems : Packet where
  header := [104]
  items := [⟨[97], [0, 0, 0, 0, 0, 0, 0, 0, 1], .first⟩, ⟨[98], [2, 3], .last⟩]
  notes := [⟨[97], 1, [118, 119], .single⟩]
  items_bracketed := rfl
  keys := by decide
  notes_group := Or.inr rfl
  noted := by decide

theorem packet_round_trip_two : RoundTrips twoItems (fun _ => .array) 4096 14 :=
  (packet_round_trip_iff twoItems (by decide) (by decide) (by decide) (by decide) _ 4096
    (by decide)).2 ⟨by decide, by decide⟩

/-- If the indeterminate value is `KEY`, the first event pops the empty stack. -/
theorem not_packet_round_trip :
    (({} : BufferReadHandler).setBuffer 4096 14).parseEvents (fun _ => .key) twoItems.text =
      .error .emptyStack ∧ ¬ RoundTrips twoItems (fun _ => .key) 4096 14 := by
  have hparse : (({} : BufferReadHandler).setBuffer 4096 14).parseEvents (fun _ => .key)
      twoItems.text = .error .emptyStack := twoItems.parseEvents_text_junk rfl rfl
  refine ⟨hparse, fun hr => ?_⟩
  obtain ⟨h, q, hok, -⟩ := hr
  cases hparse.symm.trans hok

end JsonRpc
