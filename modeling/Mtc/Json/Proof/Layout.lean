import Mtc.Json.Proof.RoundTrip

/-!
# The layout of a packet

A fresh object has the values of a packet where its `Layout` has them, also when they do not fit
(`Laid`), so that its offsets are the packet's table (`Laid.table`), and it stores everything
exactly if the layout has nothing outside the buffer (`BuildCalls.load_ok_iff`).
-/

namespace JsonRpc

open Except (ok_bind bind_eq_ok foldlM_refines)
open BufferReadHandler

/-- The handler has its values where the layout has them. -/
structure Laid (n : Nat) (l : Layout) (h : BufferReadHandler) : Prop where
  range : h.objectBuffer.InRange n
  tail : h.objectBuffer.tailOffset.toInt = l.tail
  ptrs : h.objectPtrs = l.offsets.map Int32.ofSizeT
  names : ∀ k, (h.nameIdMap.findKey k).getD 0 = Int32.ofSizeT ((l.index k).getD 0)
  index_lt : ∀ k j, l.index k = some j → j < l.offsets.length

section
variable {n : Nat} {l : Layout} {h h' : BufferReadHandler}

/-- The slot of a note, as the code adds it up. -/
theorem Layout.toNat_slot (l : Layout) (c : NoteCall) :
    ((Int32.ofSizeT (l.start c.itemKey)).toUInt32 + Layout.ptrOffset c.offset).toNat =
      l.slot c := by
  rw [Int32.toUInt32_ofSizeT, UInt32.toNat_add, UInt32.toNat_ofNat', Layout.slot]
  omega

theorem Laid.tailOffset_eq (hl : Laid n l h) :
    h.objectBuffer.tailOffset = Int32.ofSizeT l.tail := by
  have htail := hl.tail
  have hlt := h.objectBuffer.tailOffset.toInt_lt
  rw [← Int32.toInt_inj, Int32.toInt_ofSizeT_of_lt (by omega), htail]

theorem Laid.store (hl : Laid n l h) {key data : Bytes} (hr : h.store key data = .ok h') :
    Laid n (l.value n key data) h' := by
  rw [store_eq] at hr
  by_cases hf : AppendFits h.objectBuffer data.length
  · obtain ⟨b, happend, hb, htail⟩ := FixedBuffer.append_ok hl.range hf
    rw [happend, ok_bind] at hr
    cases hr
    refine ⟨hb, ?_, ?_, fun k => ?_, fun k j hj => ?_⟩
    · rw [hl.tail, Int.toNat_natCast] at htail
      exact htail
    · simp [Layout.value, hl.ptrs, hl.tailOffset_eq]
    · simp only [AssocMap.findKey_assign, Layout.value, Function.update_apply]
      split_ifs with hk
      · simp [hl.ptrs]
      · exact hl.names k
    · simp only [Layout.value, Function.update_apply, List.length_append, List.length_singleton]
        at hj ⊢
      split_ifs at hj with hk
      · cases hj
        omega
      · have := hl.index_lt k j hj
        omega
  · rw [FixedBuffer.append_error hl.range hf] at hr
    cases hr

theorem Laid.start (hl : Laid n l h) (hcount : l.offsets.length ≤ 2 ^ 31) {key : Bytes}
    {offset : Int32} (hp : h.objectPtr ((h.nameIdMap.findKey key).getD 0) = .ok offset) :
    offset = Int32.ofSizeT (l.start key) := by
  rw [hl.names] at hp
  obtain ⟨-, hget⟩ := objectPtr_eq_ok_iff.1 hp
  have hlt : (l.index key).getD 0 < 2 ^ 31 := by
    cases hi : l.index key with
    | none => simp
    | some j =>
      have := hl.index_lt key j hi
      rw [Option.getD_some]
      omega
  rw [Int32.toInt_ofSizeT_of_lt hlt, Int.toNat_natCast, hl.ptrs, List.getElem?_map,
    Option.map_eq_some_iff] at hget
  obtain ⟨o, ho, rfl⟩ := hget
  rw [Layout.start, List.getD_eq_getElem?_getD, ho, Option.getD_some]

theorem Laid.note (hl : Laid n l h) (hcount : l.offsets.length ≤ 2 ^ 31) {c : NoteCall}
    (hr : h.note c.itemKey (Layout.ptrOffset c.offset) c.val = .ok h') :
    Laid n (l.note n c) h' := by
  rw [note_eq] at hr
  by_cases hf : AppendFits h.objectBuffer c.val.length
  · obtain ⟨b, happend, hb, htail⟩ := FixedBuffer.append_ok hl.range hf
    rw [happend, ok_bind] at hr
    rw [hl.tail, Int.toNat_natCast] at htail
    obtain ⟨start, hstart, hrest⟩ := bind_eq_ok.1 hr
    obtain ⟨⟨ok, b'⟩, hput, hok⟩ := bind_eq_ok.1 hrest
    obtain rfl := hl.start hcount hstart
    cases hok
    have hslot : _ = (l.start c.itemKey + (Layout.ptrOffset c.offset).toNat) % 2 ^ 32 :=
      l.toNat_slot c
    by_cases hx : SlotFits n (Int32.ofSizeT (l.start c.itemKey)) (Layout.ptrOffset c.offset)
    · obtain ⟨ok', b'', hput', hb', htail'⟩ :=
        FixedBuffer.put_slot_ok hb (Bytes.length_le64 _) hx
      cases hput'.symm.trans hput
      refine ⟨hb', ?_, hl.ptrs, fun k => ?_, hl.index_lt⟩
      · rw [hslot, htail] at htail'
        simp only [Layout.note]
        rw [htail']
        split_ifs <;> omega
      · rw [AssocMap.findKey_access_getD]
        exact hl.names k
    · rw [FixedBuffer.put_slot_error hb hx] at hput
      cases hput
  · rw [FixedBuffer.append_error hl.range hf] at hr
    cases hr

theorem Laid.storeItems {items : List ItemCall} (hl : Laid n l h)
    (hr : BuildCalls.storeItems items h = .ok h') :
    Laid n (items.foldl (fun l c => l.value n c.key c.val) l) h' := by
  unfold BuildCalls.storeItems at hr
  exact foldlM_refines (R := fun h l => Laid n l h) (fun hl hstore => hl.store hstore) hl hr

theorem Laid.writeNotes {notes : List NoteCall} (hl : Laid n l h)
    (hcount : l.offsets.length ≤ 2 ^ 31) (hr : BuildCalls.writeNotes notes h = .ok h') :
    Laid n (notes.foldl (Layout.note n) l) h' := by
  unfold BuildCalls.writeNotes at hr
  -- a note adds no offset
  refine (foldlM_refines (R := fun h l' => Laid n l' h ∧ l'.offsets = l.offsets)
    (fun hi hnote => ?_) ⟨hl, rfl⟩ hr).1
  exact ⟨hi.1.note (by rw [hi.2]; exact hcount) hnote, hi.2⟩

end

theorem Layout.length_values {n : Nat} {l : Layout} (items : List ItemCall) :
    (items.foldl (fun l c => l.value n c.key c.val) l).offsets.length =
      l.offsets.length + items.length := by
  induction items generalizing l with
  | nil => rfl
  | cons c items ih =>
    rw [List.foldl_cons, ih]
    simp only [Layout.value, List.length_append, List.length_cons, List.length_nil]
    omega

theorem Layout.offsets_notes {n : Nat} {l : Layout} (notes : List NoteCall) :
    (notes.foldl (Layout.note n) l).offsets = l.offsets := by
  induction notes generalizing l with
  | nil => rfl
  | cons c notes ih => exact ih

/-! ## What is stored -/

section
variable {n : Nat} {l : Layout} {h : BufferReadHandler}

theorem Laid.appendFits_iff (hl : Laid n l h) {data : Bytes} :
    AppendFits h.objectBuffer data.length ↔ l.Admits data := by
  have htail := hl.tail
  have hval := Int32.toInt_ofSizeT data.length
  rw [Int.bmod_def] at hval
  rw [AppendFits, Layout.Admits, Layout.intSize]
  split at hval <;> omega

theorem Laid.store_ok_iff (hl : Laid n l h) {key data : Bytes} :
    (∃ h', h.store key data = .ok h') ↔ l.Admits data := by
  rw [← hl.appendFits_iff, store_eq]
  by_cases hf : AppendFits h.objectBuffer data.length
  · obtain ⟨b, happend, -⟩ := FixedBuffer.append_ok hl.range hf
    rw [happend]
    exact iff_of_true ⟨_, rfl⟩ hf
  · rw [FixedBuffer.append_error hl.range hf]
    refine iff_of_false ?_ hf
    rintro ⟨h', hr⟩
    cases hr

/-- Every name leads to an offset. -/
theorem Laid.objectPtr (hl : Laid n l h) (hcount : l.offsets.length ≤ 2 ^ 31)
    (hpos : 0 < l.offsets.length) (key : Bytes) :
    h.objectPtr ((h.nameIdMap.findKey key).getD 0) = .ok (Int32.ofSizeT (l.start key)) := by
  have hlt : (l.index key).getD 0 < l.offsets.length := by
    cases hi : l.index key with
    | none => exact hpos
    | some j => exact hl.index_lt key j hi
  have hget : h.objectPtrs[(l.index key).getD 0]? = some (Int32.ofSizeT (l.start key)) := by
    rw [hl.ptrs, List.getElem?_map, List.getElem?_eq_getElem hlt, Layout.start,
      List.getD_eq_getElem?_getD, List.getElem?_eq_getElem hlt]
    rfl
  rw [hl.names]
  exact objectPtr_ofSizeT (by omega) hget

theorem Laid.note_ok_iff (hl : Laid n l h) (hcount : l.offsets.length ≤ 2 ^ 31)
    (hpos : 0 < l.offsets.length) {c : NoteCall} :
    (∃ h', h.note c.itemKey (Layout.ptrOffset c.offset) c.val = .ok h') ↔ l.AdmitsNote n c := by
  rw [Layout.AdmitsNote, ← hl.appendFits_iff, note_eq]
  by_cases hf : AppendFits h.objectBuffer c.val.length
  · obtain ⟨b, happend, hb, -⟩ := FixedBuffer.append_ok hl.range hf
    rw [happend, ok_bind, hl.objectPtr hcount hpos, ok_bind, ← l.toNat_slot]
    constructor
    · rintro ⟨h', hnote⟩
      refine ⟨hf, Classical.byContradiction fun hx => ?_⟩
      rw [FixedBuffer.put_slot_error hb hx] at hnote
      cases hnote
    · rintro ⟨-, hx⟩
      obtain ⟨ok, b', hput, -⟩ := FixedBuffer.put_slot_ok hb (Bytes.length_le64 _) hx
      rw [hput]
      exact ⟨_, rfl⟩
  · rw [FixedBuffer.append_error hl.range hf]
    refine iff_of_false ?_ fun hn => hf hn.1
    rintro ⟨h', hr⟩
    cases hr

theorem Laid.storeItems_ok_iff {items : List ItemCall} (hl : Laid n l h) :
    (∃ h', BuildCalls.storeItems items h = .ok h') ↔ l.AdmitsItems n items := by
  induction items generalizing l h with
  | nil => exact iff_of_true ⟨h, rfl⟩ trivial
  | cons c items ih =>
    rw [BuildCalls.storeItems, List.foldlM_cons, Layout.AdmitsItems, ← hl.store_ok_iff]
    constructor
    · rintro ⟨h', hr⟩
      obtain ⟨h₁, hstore, hrest⟩ := bind_eq_ok.1 hr
      exact ⟨⟨h₁, hstore⟩, (ih (hl.store hstore)).1 ⟨h', hrest⟩⟩
    · rintro ⟨⟨h₁, hstore⟩, hadmits⟩
      rw [hstore, ok_bind]
      exact (ih (hl.store hstore)).2 hadmits

theorem Laid.writeNotes_ok_iff {notes : List NoteCall} (hl : Laid n l h)
    (hcount : l.offsets.length ≤ 2 ^ 31) (hpos : 0 < l.offsets.length) :
    (∃ h', BuildCalls.writeNotes notes h = .ok h') ↔ l.AdmitsNotes n notes := by
  induction notes generalizing l h with
  | nil => exact iff_of_true ⟨h, rfl⟩ trivial
  | cons c notes ih =>
    rw [BuildCalls.writeNotes, List.foldlM_cons, Layout.AdmitsNotes, ← hl.note_ok_iff hcount hpos]
    constructor
    · rintro ⟨h', hr⟩
      obtain ⟨h₁, hnote, hrest⟩ := bind_eq_ok.1 hr
      exact ⟨⟨h₁, hnote⟩, (ih (hl.note hcount hnote) hcount hpos).1 ⟨h', hrest⟩⟩
    · rintro ⟨⟨h₁, hnote⟩, hadmits⟩
      rw [hnote, ok_bind]
      exact (ih (hl.note hcount hnote) hcount hpos).2 hadmits

end

namespace BuildCalls

variable {n : Nat} {p : BuildCalls} {h h' : BufferReadHandler}

theorem load_eq_ok_iff : p.load h = .ok h' ↔ ∃ h₀ h₁,
    h.store packetHeader p.header = .ok h₀ ∧ storeItems p.items h₀ = .ok h₁ ∧
      writeNotes p.notes h₁ = .ok h' := by
  unfold load
  constructor
  · intro hr
    obtain ⟨h₀, hheader, hr⟩ := bind_eq_ok.1 hr
    obtain ⟨h₁, hitems, hr⟩ := bind_eq_ok.1 hr
    exact ⟨h₀, h₁, hheader, hitems, hr⟩
  · rintro ⟨h₀, h₁, hheader, hitems, hr⟩
    rw [hheader, ok_bind, hitems, ok_bind, hr]

theorem length_layout (p : BuildCalls) (n : Nat) :
    (p.layout n).offsets.length = p.items.length + 1 := by
  rw [layout, Layout.length_values]
  simp only [Layout.value, List.nil_append, List.length_singleton]
  omega

theorem length_table (p : BuildCalls) (n : Nat) : (p.table n).length = p.items.length + 2 := by
  rw [table, List.length_map, List.length_append, notedLayout, Layout.offsets_notes, length_layout]
  rfl

/-- A fresh object has the offsets of the layout. -/
theorem laid_load (hcount : p.items.length < 2 ^ 31) (hl : Laid n {} h) (hr : p.load h = .ok h') :
    Laid n (p.notedLayout n) h' := by
  obtain ⟨h₀, h₁, hheader, hitems, hnotes⟩ := load_eq_ok_iff.1 hr
  have hl₁ : Laid n (p.layout n) h₁ := (hl.store hheader).storeItems hitems
  exact hl₁.writeNotes (by rw [length_layout]; omega) hnotes

/-- **A fresh object stores the packet** exactly if nothing of it is copied outside the buffer. -/
theorem load_ok_iff (hcount : p.items.length < 2 ^ 31) (hl : Laid n {} h) :
    (∃ h', p.load h = .ok h') ↔ p.Admitted n := by
  have hlen := p.length_layout n
  constructor
  · rintro ⟨h', hr⟩
    obtain ⟨h₀, h₁, hheader, hitems, hnotes⟩ := load_eq_ok_iff.1 hr
    have hl₀ := hl.store hheader
    have hl₁ : Laid n (p.layout n) h₁ := hl₀.storeItems hitems
    exact ⟨hl.store_ok_iff.1 ⟨h₀, hheader⟩, hl₀.storeItems_ok_iff.1 ⟨h₁, hitems⟩,
      (hl₁.writeNotes_ok_iff (by omega) (by omega)).1 ⟨h', hnotes⟩⟩
  · rintro ⟨hheader, hitems, hnotes⟩
    obtain ⟨h₀, hheader⟩ := hl.store_ok_iff.2 hheader
    have hl₀ := hl.store hheader
    obtain ⟨h₁, hitems⟩ := hl₀.storeItems_ok_iff.2 hitems
    have hl₁ : Laid n (p.layout n) h₁ := hl₀.storeItems hitems
    obtain ⟨h', hnotes⟩ := (hl₁.writeNotes_ok_iff (by omega) (by omega)).2 hnotes
    exact ⟨h', load_eq_ok_iff.2 ⟨h₀, h₁, hheader, hitems, hnotes⟩⟩

theorem laid_setBuffer (buffer : UInt64) {size : Int32} (hs : 0 ≤ size) :
    Laid size.sizeT {} (({} : BufferReadHandler).setBuffer buffer size) where
  range := inRange_setBuffer _ buffer hs
  tail := rfl
  ptrs := rfl
  names _ := rfl
  index_lt _ _ hj := by cases hj

end BuildCalls

/-- The table of a packet is what a fresh object has. -/
theorem Laid.table {p : BuildCalls} {n : Nat} {h : BufferReadHandler}
    (hl : Laid n (p.notedLayout n) h) : h.appendTailOffset.objectPtrs = p.table n := by
  simp [appendTailOffset, BuildCalls.table, hl.ptrs, hl.tailOffset_eq]

end JsonRpc
