import Mathlib.Algebra.BigOperators.Group.List.Basic
import Mtc.Json.Proof.RoundTrip
import Mtc.Json.Proof.TakesTo

/-!
# A buffer as long as the text

`get_string_length` is one more than the number of characters, as an `int`. The characters are more
than the bytes of all values, so that a buffer of that length has room for them as long as the
length does not leave `int` (`string_length_iff`). `Placed` is what the notes keep of `Holds`: two
notes may have the same slot.
-/

namespace JsonRpc

open Except (ok_bind error_bind bind_eq_ok)
open JsonRpcPacket (headerEvents itemEvents noteEvents getStringLength)

/-! ## Room -/

theorem FixedBuffer.appends_iff {n t : Nat} {b : FixedBuffer} {data : Bytes} (hb : b.InRange n)
    (ht : b.tailOffset.toInt = t) (hd : data.length < 2 ^ 31) :
    b.Appends data ↔ t + data.length ≤ n := by
  have hsize := Int32.toInt_ofSizeT_of_lt hd
  have hle := hb.tail_le
  constructor
  · rintro ⟨b', hput⟩
    refine Classical.byContradiction fun hroom => ?_
    have hne : Int32.ofSizeT data.length ≠ 0 := by
      intro h0
      rw [h0, Int32.toInt_zero] at hsize
      omega
    obtain ⟨hok, -⟩ := put_refuses hb hput hne (by omega)
    cases hok
  · intro hroom
    obtain ⟨b', hput, -⟩ := put_room hb ht hsize hroom
    exact ⟨b', hput⟩

section
variable {n t : Nat} {address : UInt64} {vals : List (Bytes × Bytes)} {h h' : BufferReadHandler}

/-! ## Values -/

/-- A value that is stored has room. -/
theorem Holds.of_stores (hh : Holds n address vals [] h) {v : Bytes × Bytes}
    (hkey : v.1 ∉ vals.map Prod.fst) (hlen : v.2.length < 2 ^ 31) (hs : h.Stores v.1 v.2 h') :
    Holds n address (vals ++ [v]) [] h' := by
  have hroom := (FixedBuffer.appends_iff hh.range hh.tail hlen).1 hs.1
  obtain ⟨h₁, hstore, hh₁⟩ := hh.store hkey hroom
  obtain rfl : h₁ = h' := Except.ok.inj (hstore.symm.trans hs.2)
  exact hh₁

/-- A value with room is stored. -/
theorem Holds.stores (hh : Holds n address vals [] h) {v : Bytes × Bytes}
    (hkey : v.1 ∉ vals.map Prod.fst) (hroom : total vals + v.2.length ≤ n) :
    ∃ h', h.Stores v.1 v.2 h' := by
  have hn := hh.range.lt
  obtain ⟨h', hstore, -⟩ := hh.store hkey hroom
  exact ⟨h', (FixedBuffer.appends_iff hh.range hh.tail (by omega)).2 hroom, hstore⟩

theorem notMem_of_nodup_concat {v : Bytes × Bytes} {rest : List (Bytes × Bytes)}
    (hkeys : ((vals ++ v :: rest).map Prod.fst).Nodup) : v.1 ∉ vals.map Prod.fst := by
  rw [List.map_append, List.map_cons] at hkeys
  exact fun hm => (List.nodup_append.1 hkeys).2.2 v.1 hm v.1 List.mem_cons_self rfl

/-- All values are stored exactly if they have room. -/
theorem Holds.storesAll_iff {rest : List (Bytes × Bytes)} (hh : Holds n address vals [] h)
    (hkeys : ((vals ++ rest).map Prod.fst).Nodup) (hlen : ∀ v ∈ rest, v.2.length < 2 ^ 31)
    {P : BufferReadHandler → Prop} {Q : Prop}
    (hP : ∀ h', Holds n address (vals ++ rest) [] h' → (P h' ↔ Q)) :
    (∃ h', h.StoresAll rest h' ∧ P h') ↔ total (vals ++ rest) ≤ n ∧ Q := by
  induction rest generalizing vals h with
  | nil =>
    rw [List.append_nil] at hP ⊢
    have hle : total vals ≤ n := hh.le
    rw [and_iff_right hle, ← hP h hh]
    constructor
    · rintro ⟨h', rfl, hp⟩
      exact hp
    · intro hp
      exact ⟨h, rfl, hp⟩
  | cons v rest ih =>
    have hkey := notMem_of_nodup_concat hkeys
    rw [List.append_cons] at hkeys hP ⊢
    have hrest := fun {h₁} hh₁ =>
      ih (h := h₁) hh₁ hkeys (fun w hw => hlen w (List.mem_cons_of_mem v hw)) hP
    constructor
    · rintro ⟨h', ⟨h₁, hstore, hall⟩, hp⟩
      have hh₁ := hh.of_stores hkey (hlen v List.mem_cons_self) hstore
      exact (hrest hh₁).1 ⟨h', hall, hp⟩
    · rintro ⟨hroom, hq⟩
      have hfit : total vals + v.2.length ≤ n := by
        rw [total_append, total_append, total_singleton] at hroom
        exact (Nat.le_add_right ..).trans hroom
      obtain ⟨h₁, hstore⟩ := hh.stores hkey hfit
      have hh₁ := hh.of_stores hkey (hlen v List.mem_cons_self) hstore
      obtain ⟨h', hall, hp⟩ := (hrest hh₁).2 ⟨hroom, hq⟩
      exact ⟨h', ⟨h₁, hstore, hall⟩, hp⟩

/-! ## Notes -/

/-- The values are in the buffer, and its contents end at `t`. -/
structure Placed (n : Nat) (vals : List (Bytes × Bytes)) (t : Nat) (h : BufferReadHandler) :
    Prop where
  range : h.objectBuffer.InRange n
  tail : h.objectBuffer.tailOffset.toInt = t
  total_le : total vals ≤ t
  ptrs : ∀ i < vals.length, h.objectPtrs[i]? = some (Int32.ofSizeT (offsetOf vals i))
  names : ∀ (i : Nat) v, vals[i]? = some v → h.nameIdMap.findKey v.1 = some (Int32.ofSizeT i)

theorem Holds.placed (hh : Holds n address vals [] h) : Placed n vals (total vals) h :=
  ⟨hh.range, hh.tail, Nat.le_refl _, hh.ptrs, hh.names⟩

/-- The number of a value as an index: one above `int` may be that of an earlier value. -/
theorem Placed.objectPtr_iff (hp : Placed n vals t h) {i : Nat} (hi : i < vals.length)
    {offset : Int32} : h.objectPtr (Int32.ofSizeT i) = .ok offset ↔
      i % 2 ^ 32 < 2 ^ 31 ∧ offset = Int32.ofSizeT (offsetOf vals (i % 2 ^ 32)) := by
  have hmod := Nat.mod_le i (2 ^ 32)
  have hget := hp.ptrs (i % 2 ^ 32) (by omega)
  rw [BufferReadHandler.objectPtr_eq_ok_iff]
  by_cases hlt : i % 2 ^ 32 < 2 ^ 31
  · have hnum : (Int32.ofSizeT i).toInt = (i % 2 ^ 32 : Nat) := by
      rw [Int32.toInt_ofSizeT, Int.bmod_def]
      split <;> omega
    rw [hnum, Int.toNat_natCast, hget, Option.some_inj]
    exact ⟨fun h => ⟨hlt, h.2.symm⟩, fun h => ⟨Int.natCast_nonneg _, h.2.symm⟩⟩
  · refine iff_of_false (fun h => ?_) fun h => hlt h.1
    have hneg := h.1
    rw [Int32.toInt_ofSizeT, Int.bmod_def] at hneg
    split at hneg <;> omega

/-- A note that names value `i`, with its slot in it. -/
structure Names (vals : List (Bytes × Bytes)) (c : NoteCall) (i : Nat) (v : Bytes × Bytes) :
    Prop where
  offset : 0 ≤ c.offset
  get : vals[i]? = some v
  key : c.itemKey = v.1
  slot : c.slot + 8 ≤ v.2.length

variable {c : NoteCall} {i : Nat} {v : Bytes × Bytes}

theorem Placed.nameId (hp : Placed n vals t h) (hc : Names vals c i v) :
    h.nameIdMap.findKey c.itemKey = some (Int32.ofSizeT i) := by
  rw [hc.key]
  exact hp.names i v hc.get

/-- A note that is written has room, and its item a number. -/
theorem Placed.of_notes (hp : Placed n vals t h) (hc : Names vals c i v)
    (hlen : c.val.length < 2 ^ 31) (hn : h.Notes c h') :
    t + c.val.length ≤ n ∧ i % 2 ^ 32 < 2 ^ 31 := by
  obtain ⟨happend, ⟨valOffset, b, startOffset, b', -, hptr, -⟩, -⟩ := hn
  refine ⟨(FixedBuffer.appends_iff hp.range hp.tail hlen).1 happend, ?_⟩
  rw [BufferReadHandler.nameId_eq, hp.nameId hc, Option.getD_some,
    hp.objectPtr_iff (List.getElem?_eq_some_iff.1 hc.get).1] at hptr
  exact hptr.1

/-- A note with room, about an item with a number, is written. -/
theorem Placed.notes (hp : Placed n vals t h) (hc : Names vals c i v)
    (hroom : t + c.val.length ≤ n) (hnum : i % 2 ^ 32 < 2 ^ 31) :
    ∃ h', h.Notes c h' ∧ Placed n vals (t + c.val.length) h' := by
  have hn := hp.range.lt
  have htotal := hp.total_le
  have hfind := hp.nameId hc
  have hptr := (hp.objectPtr_iff (List.getElem?_eq_some_iff.1 hc.get).1).2 ⟨hnum, rfl⟩
  -- the slot ends in the values
  have hend := end_le_total hc.get
  have hmono := offsetOf_mono vals (Nat.mod_le i (2 ^ 32))
  have hslot := hc.slot
  obtain ⟨o, ho⟩ : ∃ o, o = offsetOf vals (i % 2 ^ 32) := ⟨_, rfl⟩
  rw [← ho] at hmono hptr
  obtain ⟨b, happend, hb, -, htail, -⟩ := FixedBuffer.append_room hp.range hp.tail hroom
  obtain ⟨b', hput, hb', -, htail', -⟩ := FixedBuffer.put_room hb
    (Int32.toInt_ofSizeT_of_lt (show o + c.slot < 2 ^ 31 by omega))
    (show (8 : Int32).toInt = (Bytes.le64 (b.getAddress h.objectBuffer.tailOffset)).length from rfl)
    (by rw [Bytes.length_le64]; omega)
  rw [Bytes.length_le64] at htail'
  have hnote : h.note c.itemKey (Layout.ptrOffset c.offset) c.val =
      .ok { h with objectBuffer := b' } := by
    rw [BufferReadHandler.note_eq, happend, ok_bind, hfind, Option.getD_some, hptr, ok_bind,
      slot_offset hc.offset, hput, ok_bind, AssocMap.access_of_some hfind]
    rfl
  have hpatch : h.Patches c.itemKey (Layout.ptrOffset c.offset) c.val := by
    refine ⟨_, b, Int32.ofSizeT o, b', happend, ?_, ?_⟩
    · rw [BufferReadHandler.nameId_eq, hfind, Option.getD_some]
      exact hptr
    · rw [slot_offset hc.offset]
      exact hput
  refine ⟨_, ⟨(FixedBuffer.appends_iff hp.range hp.tail (by omega)).2 hroom, hpatch, hnote⟩,
    hb', ?_, by omega, hp.ptrs, hp.names⟩
  show b'.tailOffset.toInt = _
  omega

/-- All notes are written exactly if they have room and their items have numbers. -/
theorem Placed.notesAll_iff {notes : List NoteCall} (hp : Placed n vals t h)
    (hnames : ∀ c ∈ notes, ∃ i v, Names vals c i v) (hlen : ∀ c ∈ notes, c.val.length < 2 ^ 31) :
    (∃ h', h.NotesAll notes h') ↔ t + noteBytes notes ≤ n ∧
      ∀ c ∈ notes, ∃ i v, Names vals c i v ∧ i % 2 ^ 32 < 2 ^ 31 := by
  induction notes generalizing t h with
  | nil =>
    have htail := hp.tail
    have hle := hp.range.tail_le
    exact iff_of_true ⟨h, rfl⟩ ⟨show t + 0 ≤ n by omega, fun c hc => by cases hc⟩
  | cons c notes ih =>
    obtain ⟨i, v, hc⟩ := hnames c List.mem_cons_self
    have hrest := fun {t h} hp => ih (t := t) (h := h) hp
      (fun d hd => hnames d (List.mem_cons_of_mem c hd))
      (fun d hd => hlen d (List.mem_cons_of_mem c hd))
    rw [List.forall_mem_cons, ← List.singleton_append, noteBytes_append, noteBytes_singleton]
    constructor
    · rintro ⟨h', h₁, hone, hall⟩
      obtain ⟨hroom, hnum⟩ := hp.of_notes hc (hlen c List.mem_cons_self) hone
      obtain ⟨h₂, htwo, hp₂⟩ := hp.notes hc hroom hnum
      obtain rfl : h₁ = h₂ := Except.ok.inj (hone.2.2.symm.trans htwo.2.2)
      obtain ⟨hroom', hnums⟩ := (hrest hp₂).1 ⟨h', hall⟩
      exact ⟨by omega, ⟨i, v, hc, hnum⟩, hnums⟩
    · rintro ⟨hroom, ⟨i', v', hc', hnum⟩, hnums⟩
      obtain ⟨h₁, hone, hp₁⟩ := hp.notes hc' (by omega) hnum
      obtain ⟨h', hall⟩ := (hrest hp₁).2 ⟨by omega, hnums⟩
      exact ⟨h', h₁, hone, hall⟩

end

/-! ## Characters -/

theorem minChars_append (es es' : List Event) :
    minChars (es ++ es') = minChars es + minChars es' := by
  rw [minChars, List.map_append, List.sum_append]
  rfl

/-- Every part of a text has at least so many characters. -/
theorem sum_le_minChars {α : Type} {events : α → List Event} {f : α → Nat}
    (hf : ∀ a, f a ≤ minChars (events a)) (l : List α) :
    (l.map f).sum ≤ minChars (l.flatMap events) := by
  induction l with
  | nil => exact Nat.le_refl 0
  | cons a l ih =>
    rw [List.map_cons, List.sum_cons, List.flatMap_cons, minChars_append]
    exact Nat.add_le_add (hf a) ih

theorem minChars_item (c : ItemCall) :
    c.val.length + 1 ≤ minChars (itemEvents c.key c.val c.type) := by
  have hval : minChars [.key c.key, .scalar (.string c.val)] =
      c.key.length + 3 + (c.val.length + 2) := rfl
  rw [itemEvents, minChars_append, minChars_append, hval]
  omega

theorem minChars_note (c : NoteCall) :
    c.val.length ≤ minChars (noteEvents c.itemKey c.offset c.val c.type) := by
  have hval : c.val.length + 2 ≤ minChars [.startObject, .key ptrKey, .scalar (.string c.itemKey),
      .key ptrOffset, .ofInt c.offset, .key ptrVal, .scalar (.string c.val), .endObject] := by
    simp only [minChars, List.map_cons, List.map_nil, List.sum_cons, List.sum_nil, Event.minChars]
    omega
  rw [noteEvents, minChars_append, minChars_append]
  omega

namespace BuildCalls

/-- **The text has more characters than the values have bytes**, by more than the number of
items. -/
theorem size_lt_minChars (p : BuildCalls) : p.size + p.items.length + 1 ≤ minChars p.text := by
  have hheader : p.header.length + 1 ≤ minChars (headerEvents p.header) := by
    simp only [headerEvents, minChars, List.map_cons, List.map_nil, List.sum_cons, List.sum_nil,
      Event.minChars]
    omega
  have hitems := sum_le_minChars minChars_item p.items
  have hnotes := sum_le_minChars minChars_note p.notes
  have hcount : (p.items.map fun c => c.val.length + 1).sum =
      (p.items.map (·.val.length)).sum + p.items.length := by
    rw [List.sum_map_add, List.map_const', List.sum_replicate_nat, Nat.mul_one]
  rw [text_eq, minChars_append, minChars_append, size]
  omega

/-- The values that the notes name. -/
theorem exists_names {p : BuildCalls} (hnotes : ∀ c ∈ p.notes, 0 ≤ c.offset ∧
    ∃ d ∈ p.items, d.key = c.itemKey ∧ c.slot + 8 ≤ d.val.length) :
    ∀ c ∈ p.notes, ∃ i d, p.items[i]? = some d ∧ d.key = c.itemKey ∧
      Names p.values c (i + 1) (d.key, d.val) := by
  intro c hc
  obtain ⟨hoffset, d, hd, hkey, hslot⟩ := hnotes c hc
  obtain ⟨i, hi⟩ := List.mem_iff_getElem?.1 hd
  exact ⟨i, d, hi, hkey, hoffset, getElem?_values hi, hkey.symm, hslot⟩

end BuildCalls

namespace WriterCalls

open BuildCalls (getElem?_values exists_names)

theorem IntSizes.values {p : WriterCalls} (hs : p.IntSizes) :
    ∀ v ∈ p.values, v.2.length < 2 ^ 31 := by
  intro v hv
  rcases List.mem_cons.1 hv with rfl | hv
  · exact hs.header
  · obtain ⟨c, hc, rfl⟩ := List.mem_map.1 hv
    exact hs.items c hc

theorem numbered_iff {p : WriterCalls} (hkeys : (p.values.map Prod.fst).Nodup)
    (hnotes : ∀ c ∈ p.notes, 0 ≤ c.offset ∧
      ∃ d ∈ p.items, d.key = c.itemKey ∧ c.slot + 8 ≤ d.val.length) :
    (∀ c ∈ p.notes, ∃ i v, Names p.values c i v ∧ i % 2 ^ 32 < 2 ^ 31) ↔ p.Numbered := by
  constructor
  · intro h c hc i d hi hkey
    obtain ⟨j, v, hv, hnum⟩ := h c hc
    obtain rfl := index_unique hkeys hv.get (getElem?_values hi) (hv.key.symm.trans hkey.symm)
    exact hnum
  · intro h c hc
    obtain ⟨i, d, hi, hkey, hn⟩ := exists_names hnotes c hc
    exact ⟨i + 1, _, hn, h c hc i d hi hkey⟩

variable {p : WriterCalls} {junk : Nat → ParseType} {buffer : UInt64}

/-- A text that is taken is also parsed. -/
theorem suffices_iff {size : Int32} : p.Suffices junk buffer size ↔
    ∃ h, (({} : BufferReadHandler).setBuffer buffer size).TakesTo junk p.text h := by
  refine ⟨fun h => h.2, fun h => ⟨?_, h⟩⟩
  obtain ⟨h', ht⟩ := h
  refine ⟨{ handle := h'.appendTailOffset }, ?_⟩
  show (BufferReadHandler.parseEvents junk _ p.text >>= _) = _
  rw [ht.parseEvents, ok_bind]
  rfl

/-- No value is stored in a buffer of negative size. -/
theorem not_stores_of_neg {size : Int32} (hs : size.toInt < 0) {key data : Bytes}
    (hd : data.length < 2 ^ 31) (h : BufferReadHandler) :
    ¬ (({} : BufferReadHandler).setBuffer buffer size).Stores key data h := by
  rintro ⟨⟨b', hput⟩, -⟩
  have hsize := Int32.toInt_ofSizeT_of_lt hd
  have hgt : size.toInt < (0 + Int32.ofSizeT data.length).toInt := by
    rw [Int32.zero_add]
    omega
  have hrefused : (FixedBuffer.setBuffer buffer size).put data 0 (Int32.ofSizeT data.length) =
      .ok (false, _) := FixedBuffer.put_of_gt hgt
  cases hrefused.symm.trans hput

/-- **A buffer suffices** exactly if the indeterminate value that the first event reads is not
`KEY`, it has room for all values, and the items with notes have numbers. -/
theorem suffices_iff_room (hkeys : (p.values.map Prod.fst).Nodup)
    (hnotes : ∀ c ∈ p.notes, 0 ≤ c.offset ∧
      ∃ d ∈ p.items, d.key = c.itemKey ∧ c.slot + 8 ≤ d.val.length)
    (hsizes : p.IntSizes) (size : Int32) : p.Suffices junk buffer size ↔
      junk (p.text.length - 1) ≠ .key ∧ (p.size : Int) ≤ size.toInt ∧ p.Numbered := by
  rw [suffices_iff, takesTo_text (fun c hc => (hnotes c hc).1) rfl]
  refine and_congr_right fun _ => ?_
  by_cases hs : 0 ≤ size.toInt
  · have hn : (size.sizeT : Int) = size.toInt := by
      rw [Int32.sizeT_of_nonneg hs]
      omega
    have hh := BuildCalls.holds_setBuffer buffer (Int32.nonneg_iff.2 hs)
    have hnames : ∀ c ∈ p.notes, ∃ i v, Names p.values c i v := fun c hc => by
      obtain ⟨i, d, -, -, hname⟩ := exists_names hnotes c hc
      exact ⟨_, _, hname⟩
    have hroom := p.size_eq
    have hstores : (∃ h₁, BufferReadHandler.StoresAll _ p.values h₁ ∧
        ∃ h', h₁.NotesAll p.notes h') ↔ total p.values ≤ size.sizeT ∧
        total p.values + noteBytes p.notes ≤ size.sizeT ∧
        ∀ c ∈ p.notes, ∃ i v, Names p.values c i v ∧ i % 2 ^ 32 < 2 ^ 31 :=
      hh.storesAll_iff hkeys hsizes.values fun h' hh' =>
        hh'.placed.notesAll_iff hnames hsizes.notes
    rw [hstores, ← and_assoc, numbered_iff hkeys hnotes]
    exact and_congr_left fun _ => by omega
  · refine iff_of_false ?_ fun h => by omega
    rintro ⟨h₁, ⟨h₀, hstore, -⟩, -⟩
    exact not_stores_of_neg (by omega) hsizes.header h₀ hstore

end WriterCalls

open WriterCalls in
/-- **A buffer of `get_string_length` bytes suffices** exactly if the indeterminate value that the
first event reads is not `KEY`, and the length is an `int`, or wraps to one that leaves room for
all values while the items with notes have numbers. -/
theorem string_length_iff (p : WriterCalls) (hkeys : (p.items.map (·.key)).Nodup)
    (hheader : ∀ c ∈ p.items, c.key ≠ packetHeader)
    (hnotes : ∀ c ∈ p.notes, 0 ≤ c.offset ∧
      ∃ d ∈ p.items, d.key = c.itemKey ∧ c.slot + 8 ≤ d.val.length)
    (hsizes : p.IntSizes) (junk : Nat → ParseType) (buffer : UInt64) {chars : Nat}
    (hchars : minChars p.text ≤ chars) :
    p.Suffices junk buffer (getStringLength chars) ↔ junk (p.text.length - 1) ≠ .key ∧
      (chars + 1 < 2 ^ 31 ∨
        (p.size : Int) ≤ ((chars + 1 : Nat) : Int).bmod (2 ^ 32) ∧ p.Numbered) := by
  have hmore := p.size_lt_minChars
  have hlength : (getStringLength chars).toInt = ((chars + 1 : Nat) : Int).bmod (2 ^ 32) := by
    rw [getStringLength, Int32.toInt_ofSizeT, show chars - 1 + 2 = chars + 1 by omega]
  rw [suffices_iff_room (p.nodup_keys hkeys hheader) hnotes hsizes, hlength]
  refine and_congr_right fun _ => (or_iff_right_of_imp fun hshort => ?_).symm
  refine ⟨?_, fun c _ i d hi _ => ?_⟩
  · rw [Int.bmod_def]
    split <;> omega
  · have := (List.getElem?_eq_some_iff.1 hi).1
    omega

/-- A header, an item of eight bytes and a note that fills it. -/
def notedCalls : WriterCalls where
  header := [104]
  items := [⟨[97], [120, 120, 120, 120, 120, 120, 120, 120], .single⟩]
  notes := [⟨[97], 0, [118], .single⟩]
  items_bracketed := rfl
  keys := by decide
  notes_writable := rfl

/-- Its text has 148 characters. -/
theorem string_length_noted : notedCalls.Suffices (fun _ => .array) 4096 (getStringLength 148) :=
  (string_length_iff notedCalls (by decide) (by decide) (by decide)
    ⟨by decide, by decide, by decide⟩ _ 4096 (by decide)).2 ⟨by decide, Or.inl (by decide)⟩

/-- A header and an item of the same bytes. -/
def twiceCalls (val : Bytes) : WriterCalls where
  header := val
  items := [⟨[97], val, .single⟩]
  notes := []
  items_bracketed := rfl
  notes_writable := rfl
  keys := fun c hc => by
    obtain rfl := List.mem_singleton.1 hc
    exact ⟨show [97] ≠ ptrKey by decide, show [97] ≠ ptrVal by decide⟩

theorem minChars_twiceCalls (val : Bytes) :
    minChars (twiceCalls val).text = 2 * val.length + 58 := by
  show 1 + (1 + (14 + (1 + (15 + ((val.length + 2) + (1 + (1 + (14 + (1 + (4 +
    ((val.length + 2) + (1 + 0)))))))))))) = _
  omega

/-- Two long values, whose text is so long that its length wraps to 60. -/
theorem not_suffices_twice {val : Bytes} (hval : val.length = 2 ^ 31 - 1) :
    (twiceCalls val).IntSizes ∧ minChars (twiceCalls val).text ≤ 2 ^ 32 + 59 ∧
      ¬ (twiceCalls val).Suffices (fun _ => .array) 4096 (getStringLength (2 ^ 32 + 59)) := by
  have hlen : val.length < 2 ^ 31 := by omega
  have hsizes : (twiceCalls val).IntSizes := by
    refine ⟨hlen, fun c hc => ?_, fun c hc => by cases hc⟩
    obtain rfl := List.mem_singleton.1 hc
    exact hlen
  have hkeys : ((twiceCalls val).values.map Prod.fst).Nodup := by
    show [packetHeader, [97]].Nodup
    decide
  refine ⟨hsizes, by rw [minChars_twiceCalls]; omega, ?_⟩
  rw [WriterCalls.suffices_iff_room hkeys (fun c hc => by cases hc) hsizes]
  rintro ⟨-, hroom, -⟩
  have hint : (getStringLength (2 ^ 32 + 59)).toInt = 60 := by decide
  have hsize : (twiceCalls val).size = val.length + (val.length + 0) + 0 := rfl
  omega

theorem not_string_length :
    (twiceCalls (List.replicate (2 ^ 31 - 1) 120)).IntSizes ∧
      minChars (twiceCalls (List.replicate (2 ^ 31 - 1) 120)).text ≤ 2 ^ 32 + 59 ∧
      ¬ (twiceCalls (List.replicate (2 ^ 31 - 1) 120)).Suffices (fun _ => .array) 4096
        (getStringLength (2 ^ 32 + 59)) :=
  not_suffices_twice List.length_replicate

end JsonRpc
