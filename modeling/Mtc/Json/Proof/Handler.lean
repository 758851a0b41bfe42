import Mtc.Json.Spec

/-!
# What the handler does with the parts of a packet

`Does es f`: the handler accepts the events `es`, whatever is on its stack, and what they come to is
`f`. A member is a `store`, a note a `note`, and brackets around events that leave the stack alone
(`Frames`) add nothing. So the text of a packet comes to its values being stored and its notes
written (`parseEvents_text`).
-/

namespace JsonRpc

open Except (ok_bind error_bind)

namespace BufferReadHandler

variable {h : BufferReadHandler} {es es' : List Event}

theorem parseEvents_append (junk : Nat → ParseType) (es es' : List Event) :
    ∀ h : BufferReadHandler, h.parseEvents junk (es ++ es') =
      h.parseEvents (fun n => junk (n + es'.length)) es >>= fun r =>
        if r.1 then r.2.parseEvents junk es' else .ok (false, r.2) := by
  induction es with
  | nil => exact fun _ => rfl
  | cons e es ih =>
    intro h
    simp only [List.cons_append, parseEvents, List.length_append, bind_assoc]
    refine bind_congr fun r => ?_
    split_ifs with hr
    · exact ih r.2
    · rw [pure_bind]
      rfl

theorem nameId_eq (h : BufferReadHandler) (key : Bytes) :
    h.nameId key = ((h.nameIdMap.findKey key).getD 0,
      { h with nameIdMap := h.nameIdMap.access key 0 }) := by
  unfold nameId AssocMap.access
  cases h.nameIdMap.findKey key <;> rfl

/-- `store`, with the number that the value gets. -/
theorem store_eq (h : BufferReadHandler) (key data : Bytes) :
    h.store key data = do
      let r ← h.objectBuffer.append data (Int32.ofSizeT data.length)
      return { h with
        objectBuffer := r.2
        objectPtrs := h.objectPtrs ++ [r.1]
        nameIdMap := h.nameIdMap.assign key (Int32.ofSizeT h.objectPtrs.length) } := by
  simp only [store, List.length_append, List.length_singleton, Nat.add_sub_cancel]

/-- `note`, with `name_id_map[item_key]` and `object_ptrs[index]` read from the state before. -/
theorem note_eq (h : BufferReadHandler) (itemKey : Bytes) (ptrOffset : UInt32) (str : Bytes) :
    h.note itemKey ptrOffset str = do
      let r ← h.objectBuffer.append str (Int32.ofSizeT str.length)
      let startOffset ← h.objectPtr ((h.nameIdMap.findKey itemKey).getD 0)
      let r' ← r.2.put (Bytes.le64 (r.2.getAddress r.1))
        (startOffset.toUInt32 + ptrOffset).toInt32 8
      return { h with
        objectBuffer := r'.2
        nameIdMap := h.nameIdMap.access itemKey 0 } := by
  simp only [note, nameId_eq]
  rfl

theorem objectPtr_eq_ok_iff {index offset : Int32} : h.objectPtr index = .ok offset ↔
    0 ≤ index.toInt ∧ h.objectPtrs[index.toInt.toNat]? = some offset := by
  unfold objectPtr
  by_cases hneg : index < 0
  · have hlt := Int32.lt_iff_toInt_lt.1 hneg
    rw [Int32.toInt_zero] at hlt
    simp [hneg, Int.not_le.2 hlt]
  · have hle : 0 ≤ index.toInt := by
      rw [Int32.lt_iff_toInt_lt, Int32.toInt_zero] at hneg
      omega
    rw [if_neg hneg]
    cases h.objectPtrs[index.toInt.toNat]? <;> simp [Option.orError, hle]

theorem objectPtr_ofSizeT_ok {i : Nat} {p : Int32} (hle : i ≤ 2 ^ 31)
    (hp : h.objectPtr (Int32.ofSizeT i) = .ok p) : h.objectPtrs[i]? = some p := by
  obtain ⟨hpos, hget⟩ := objectPtr_eq_ok_iff.1 hp
  have hlt : i < 2 ^ 31 := by
    rw [Int32.toInt_ofSizeT, Int.bmod_def] at hpos
    split at hpos <;> omega
  rwa [Int32.toInt_ofSizeT_of_lt hlt, Int.toNat_natCast] at hget

theorem objectPtr_ofSizeT {i : Nat} {p : Int32} (hlt : i < 2 ^ 31)
    (hi : h.objectPtrs[i]? = some p) : h.objectPtr (Int32.ofSizeT i) = .ok p := by
  rw [objectPtr_eq_ok_iff, Int32.toInt_ofSizeT_of_lt hlt]
  exact ⟨Int.natCast_nonneg i, hi⟩

/-! ## Parts that are accepted -/

/-- The events are accepted and come to `f`. -/
def Does (es : List Event) (f : BufferReadHandler → Except Fault BufferReadHandler) : Prop :=
  ∀ junk h, h.parseEvents junk es = do return (true, ← f h)

/-- What lies on the stack makes no difference to `f`, and stays there. -/
def Frames (f : BufferReadHandler → Except Fault BufferReadHandler) : Prop :=
  ∀ h item, f (h.push item) = do return (← f h).push item

variable {f g : BufferReadHandler → Except Fault BufferReadHandler}

theorem does_nil : Does [] pure := fun _ _ => rfl

theorem frames_pure : Frames pure := fun _ _ => rfl

theorem Does.append (hf : Does es f) (hg : Does es' g) : Does (es ++ es') fun h => f h >>= g := by
  intro junk h
  rw [parseEvents_append, hf]
  simp only [bind_assoc, pure_bind, if_true]
  exact bind_congr fun h' => hg junk h'

theorem Frames.bind (hf : Frames f) (hg : Frames g) : Frames fun h => f h >>= g := by
  intro h item
  simp only [hf h item, bind_assoc, pure_bind]
  exact bind_congr fun h' => hg h' item

theorem frames_store (key data : Bytes) : Frames fun h => h.store key data := by
  intro h item
  simp only [store, push, bind_assoc]
  rfl

theorem frames_note (itemKey : Bytes) (ptrOffset : UInt32) (str : Bytes) :
    Frames fun h => h.note itemKey ptrOffset str := by
  intro h item
  simp only [note_eq, push, bind_assoc]
  rfl

/-! ## Members -/

theorem does_string {key : Bytes} (hk : key ≠ ptrKey) (hv : key ≠ ptrVal) (str : Bytes) :
    Does [.key key, .scalar (.string str)] fun h => h.store key str := by
  intro junk h
  simp only [parseEvents, step, scalar, string, pop, push, ok_bind, if_true, if_neg hk, if_neg hv,
    bind_assoc, pure_bind]
  rfl

theorem does_uint {key : Bytes} (ho : key ≠ ptrOffset) (hs : key ≠ segmentType) (u : UInt32) :
    Does [.key key, .scalar (.uint u)] fun h => h.store key (Bytes.le32 u) := by
  intro junk h
  simp only [parseEvents, step, scalar, uint, pop, push, ok_bind, if_true, if_neg ho, if_neg hs,
    bind_assoc, pure_bind]
  rfl

theorem does_segmentType (u : UInt32) : Does [.key segmentType, .scalar (.uint u)] pure := by
  intro junk h
  have ho : segmentType ≠ ptrOffset := by decide
  simp only [parseEvents, step, scalar, uint, pop, push, ok_bind, if_true, if_neg ho, pure_bind]
  rfl

/-- The members of a note object. -/
theorem does_noteMembers (itemKey : Bytes) (u : UInt32) (str : Bytes) :
    Does [.key ptrKey, .scalar (.string itemKey), .key ptrOffset, .scalar (.uint u), .key ptrVal,
      .scalar (.string str)] fun h => h.note itemKey u str := by
  intro junk h
  have hv : ptrVal ≠ ptrKey := by decide
  have hg := Bytes.getLe32_le32 u []
  rw [List.append_nil] at hg
  simp only [parseEvents, step, scalar, string, uint, pop, push, ok_bind, if_true, if_neg hv,
    pure_bind, hg, Option.orError, bind_assoc]
  rfl

/-- An offset that is no `Uint` event leaves the item of its key, which is then read in its
place. -/
theorem does_noteMembers_int (itemKey : Bytes) (offset : Int32) (str : Bytes) :
    Does [.key ptrKey, .scalar (.string itemKey), .key ptrOffset, .ofInt offset, .key ptrVal,
      .scalar (.string str)] fun h => h.note itemKey (Layout.ptrOffset offset) str := by
  by_cases ho : offset < 0
  · intro junk h
    have hv : ptrVal ≠ ptrKey := by decide
    have hg : Bytes.getLe32 ptrOffset = some 0x5f727470 := by decide
    simp only [parseEvents, step, scalar, string, Event.ofInt, if_pos ho, pop, push, ok_bind,
      if_true, if_neg hv, pure_bind, hg, Option.orError, Layout.ptrOffset, bind_assoc]
    rfl
  · rw [Event.ofInt, Layout.ptrOffset, if_neg ho, if_neg ho]
    exact does_noteMembers itemKey offset.toUInt32 str

/-! ## Brackets -/

theorem Does.object (hd : Does es f) (hf : Frames f) :
    Does (.startObject :: (es ++ [.endObject])) f := by
  intro junk h
  simp only [parseEvents, step, ok_bind, if_true]
  rw [parseEvents_append, hd]
  simp only [hf h, bind_assoc, pure_bind, if_true]
  rfl

/-- An array that is the value of a member. -/
theorem Does.array (hd : Does es f) (hf : Frames f) (key : Bytes) :
    Does (.key key :: .startArray :: (es ++ [.endArray])) f := by
  intro junk h
  simp only [parseEvents, step, startArray, push, pop, ok_bind, if_true, pure_bind]
  rw [parseEvents_append, hd]
  have hpush := hf h { type := .array, key := [] }
  simp only [push] at hpush
  simp only [hpush, bind_assoc, pure_bind, if_true]
  rfl

theorem arrays_of_empty (hs : h.parseStack = []) : ∀ item ∈ h.parseStack, item.type = .array := by
  simp [hs]

/-- The first event of a text that is an array reads an indeterminate value, unless arrays of an
earlier text are open. -/
theorem parseEvents_startArray {junk : Nat → ParseType}
    (hj : h.parseStack = [] → junk es.length ≠ .key)
    (hs : ∀ item ∈ h.parseStack, item.type = .array) : h.parseEvents junk (.startArray :: es) =
      (h.push { type := .array, key := [] }).parseEvents junk es := by
  have hstart : h.startArray (junk es.length) = .ok (h.push { type := .array, key := [] }) := by
    cases hstack : h.parseStack with
    | nil =>
      simp only [startArray, hstack, if_neg (hj hstack), ok_bind]
      rfl
    | cons item stack =>
      have htype : item.type = .array := hs item (by simp [hstack])
      simp only [startArray, hstack, htype, reduceCtorEq, if_false, ok_bind]
      rfl
  simp only [parseEvents, step, hstart, ok_bind, pure_bind, if_true]

/-- The array that is the text. -/
theorem Does.root (hd : Does es f) (hf : Frames f) {junk : Nat → ParseType}
    (hj : h.parseStack = [] → junk (es.length + 1) ≠ .key)
    (hs : ∀ item ∈ h.parseStack, item.type = .array) :
    h.parseEvents junk (.startArray :: (es ++ [.endArray])) = do return (true, ← f h) := by
  rw [parseEvents_startArray (by rw [List.length_append]; exact hj) hs, parseEvents_append, hd]
  simp only [hf h, bind_assoc, pure_bind, if_true]
  rfl

/-- Parts one after the other. -/
theorem does_flatMap {α : Type} {events : α → List Event}
    {f : α → BufferReadHandler → Except Fault BufferReadHandler} :
    ∀ l : List α, (∀ a ∈ l, Does (events a) (f a)) →
      Does (l.flatMap events) fun h => l.foldlM (fun h a => f a h) h
  | [], _ => does_nil
  | a :: l, hd => by
    have := (hd a (List.mem_cons_self ..)).append
      (does_flatMap l fun b hb => hd b (List.mem_cons_of_mem _ hb))
    simpa only [List.flatMap_cons, List.foldlM_cons] using this

theorem frames_foldlM {α : Type} {f : α → BufferReadHandler → Except Fault BufferReadHandler}
    (hf : ∀ a, Frames (f a)) : ∀ l : List α, Frames fun h => l.foldlM (fun h a => f a h) h
  | [] => frames_pure
  | a :: l => by
    have := (hf a).bind (frames_foldlM hf l)
    simpa only [List.foldlM_cons] using this

theorem root_junk {junk : Nat → ParseType} (hj : junk es.length = .key) (hs : h.parseStack = []) :
    h.parseEvents junk (.startArray :: es) = .error .emptyStack := by
  simp only [parseEvents, step, startArray, hs, hj, pop, if_true, error_bind]

end BufferReadHandler

/-! ## The text of a packet -/

namespace BuildCalls

open BufferReadHandler JsonRpcPacket

/-- The values of the items are stored. -/
def storeItems (items : List ItemCall) (h : BufferReadHandler) : Except Fault BufferReadHandler :=
  items.foldlM (fun h c => h.store c.key c.val) h

/-- The notes are written. -/
def writeNotes (notes : List NoteCall) (h : BufferReadHandler) : Except Fault BufferReadHandler :=
  notes.foldlM (fun h c => h.note c.itemKey (Layout.ptrOffset c.offset) c.val) h

/-- What the text of a packet comes to. -/
def load (p : BuildCalls) (h : BufferReadHandler) : Except Fault BufferReadHandler := do
  let h ← h.store packetHeader p.header
  let h ← storeItems p.items h
  writeNotes p.notes h

theorem foldl_write {α : Type} (events : α → List Event) : ∀ (l : List α) (w : JsonRpcPacket),
    l.foldl (fun w a => w.write (events a)) w = w.write (l.flatMap events)
  | [], w => by rw [List.foldl_nil, List.flatMap_nil, write, List.append_nil]
  | a :: l, w => by
    rw [List.foldl_cons, foldl_write events l]
    simp only [write, List.flatMap_cons, List.append_assoc]

/-- Building does not look at the handler, and leaves it alone. -/
theorem build_eq (p : BuildCalls) (w : JsonRpcPacket) :
    p.build w = { handle := w.handle, jsonBuffer := headerEvents p.header ++
      (p.items.flatMap (fun c => itemEvents c.key c.val c.type) ++
        p.notes.flatMap fun c => noteEvents c.itemKey c.offset c.val c.type) } := by
  simp only [build, setNoteForPtr, setPacketItem, foldl_write]
  simp only [setPacketHeader, clearPacket, write, List.nil_append, List.append_assoc]

theorem jsonBuffer_build (p : BuildCalls) (w : JsonRpcPacket) :
    (p.build w).jsonBuffer = p.text := by
  rw [text, build_eq, build_eq]

theorem text_eq (p : BuildCalls) : p.text = headerEvents p.header ++
    (p.items.flatMap (fun c => itemEvents c.key c.val c.type) ++
      p.notes.flatMap fun c => noteEvents c.itemKey c.offset c.val c.type) := by
  rw [text, build_eq]

/-- The handler inside or outside a group. -/
def inGroup (opened : Bool) (h : BufferReadHandler) : BufferReadHandler :=
  if opened then h.push { type := .object, key := [] } else h

/-- Groups of items are accepted. -/
theorem parseEvents_items : ∀ {items : List ItemCall} {opened : Bool},
    bracketed opened (items.map (·.type)) = true →
    (∀ c ∈ items, c.key ≠ ptrKey ∧ c.key ≠ ptrVal) → ∀ (junk : Nat → ParseType)
      (h : BufferReadHandler), (inGroup opened h).parseEvents junk
        (items.flatMap fun c => itemEvents c.key c.val c.type) =
      do return (true, ← storeItems items h)
  | [], opened, hb, _, junk, h => by
    obtain rfl : opened = false := by simpa [bracketed] using hb
    rfl
  | c :: items, opened, hb, hk, junk, h => by
    obtain ⟨hkey, hval⟩ := hk c (List.mem_cons_self ..)
    have hitems := fun d hd => hk d (List.mem_cons_of_mem _ hd)
    have hd := does_string hkey hval c.val
    have hframe := frames_store c.key c.val
    -- one call leads from inside or outside a group to inside or outside of one
    obtain ⟨opened', hb', hcall⟩ : ∃ opened', bracketed opened' (items.map (·.type)) = true ∧
        ∀ junk h, (inGroup opened h).parseEvents junk (itemEvents c.key c.val c.type) =
          do return (true, inGroup opened' (← h.store c.key c.val)) := by
      rw [List.map_cons] at hb
      cases opened <;> cases ht : c.type <;> rw [ht] at hb <;> try cases hb
      · refine ⟨true, hb, fun junk h => ?_⟩
        show (h.push { type := .object, key := [] }).parseEvents _
          ([.key segmentType, .scalar (.uint 1)] ++ [.key c.key, .scalar (.string c.val)]) = _
        rw [((does_segmentType 1).append hd) _ _]
        simp only [pure_bind, hframe h, bind_assoc]
        rfl
      · exact ⟨false, hb, ((does_segmentType 1).append hd).object (frames_pure.bind hframe)⟩
      · refine ⟨true, hb, fun junk h => ?_⟩
        show (h.push { type := .object, key := [] }).parseEvents _
          [.key c.key, .scalar (.string c.val)] = _
        rw [hd _ _]
        simp only [hframe h, bind_assoc]
        rfl
      · refine ⟨false, hb, fun junk h => ?_⟩
        show (h.push { type := .object, key := [] }).parseEvents _
          ([.key c.key, .scalar (.string c.val)] ++ [.endObject]) = _
        rw [parseEvents_append, hd]
        simp only [hframe h, bind_assoc, pure_bind, if_true]
        rfl
    rw [List.flatMap_cons, parseEvents_append, hcall, storeItems, List.foldlM_cons]
    simp only [bind_assoc, pure_bind, if_true]
    exact bind_congr fun h' => parseEvents_items hb' hitems junk h'

/-- The events of a note object. -/
def noteObject (c : NoteCall) : List Event :=
  .startObject :: ([.key ptrKey, .scalar (.string c.itemKey), .key ptrOffset, .ofInt c.offset,
    .key ptrVal, .scalar (.string c.val)] ++ [.endObject])

theorem does_noteObject (c : NoteCall) :
    Does (noteObject c) fun h => h.note c.itemKey (Layout.ptrOffset c.offset) c.val :=
  (does_noteMembers_int c.itemKey c.offset c.val).object (frames_note _ _ _)

theorem frames_storeItems (items : List ItemCall) : Frames (storeItems items) := by
  have hf : ∀ c : ItemCall, Frames fun h => h.store c.key c.val := fun c => frames_store _ _
  exact frames_foldlM hf items

theorem frames_writeNotes (notes : List NoteCall) : Frames (writeNotes notes) := by
  have hf : ∀ c : NoteCall, Frames fun h =>
    h.note c.itemKey (Layout.ptrOffset c.offset) c.val := fun c => frames_note _ _ _
  exact frames_foldlM hf notes

theorem noteEvents_closes : ∀ {notes : List NoteCall}, closes (notes.map (·.type)) = true →
    (notes.flatMap fun c => noteEvents c.itemKey c.offset c.val c.type) =
      notes.flatMap noteObject ++ [.endArray, .endObject, .endArray]
  | c :: notes, hc => by
    rw [List.map_cons] at hc
    cases ht : c.type <;> rw [ht] at hc
    · cases hc
    · have hrest : closes (notes.map (·.type)) = true := hc
      rw [List.flatMap_cons, noteEvents_closes hrest, List.flatMap_cons, ht, List.append_assoc]
      rfl
    · cases notes with
      | nil =>
        simp only [List.flatMap_cons, List.flatMap_nil, List.append_nil, ht]
        rfl
      | cons d notes => cases hc
    · cases hc

/-- The note object of a packet. -/
def notesObject (notes : List NoteCall) : List Event :=
  .startObject :: ([.key segmentType, .scalar (.uint 2)] ++
    (.key noteArry :: .startArray :: (notes.flatMap noteObject ++ [.endArray])) ++ [.endObject])

theorem noteEvents_group {notes : List NoteCall} (hg : oneGroup (notes.map (·.type)) = true) :
    (notes.flatMap fun c => noteEvents c.itemKey c.offset c.val c.type) =
      notesObject notes ++ [.endArray] := by
  cases notes with
  | nil => cases hg
  | cons c notes =>
    rw [List.map_cons] at hg
    cases ht : c.type <;> rw [ht] at hg
    · have hrest : closes (notes.map (·.type)) = true := hg
      rw [List.flatMap_cons, noteEvents_closes hrest, ht, notesObject, List.flatMap_cons]
      simp only [List.append_assoc, List.cons_append]
      rfl
    · cases hg
    · cases hg
    · cases notes with
      | nil =>
        simp only [List.flatMap_cons, List.flatMap_nil, List.append_nil, ht, notesObject]
        rfl
      | cons d notes => cases hg

theorem does_notesObject (notes : List NoteCall) : Does (notesObject notes) (writeNotes notes) := by
  have hf := frames_writeNotes notes
  have hd : Does (notes.flatMap noteObject) (writeNotes notes) :=
    does_flatMap notes fun c _ => does_noteObject c
  exact ((does_segmentType 2).append (hd.array hf noteArry)).object (frames_pure.bind hf)

theorem frames_load (p : BuildCalls) : Frames p.load :=
  (frames_store packetHeader p.header).bind
    ((frames_storeItems p.items).bind (frames_writeNotes p.notes))

end BuildCalls

namespace PacketCalls

open BufferReadHandler JsonRpcPacket BuildCalls

/-- The events behind the first bracket, without the last one. -/
def body (p : PacketCalls) : List Event :=
  (.startObject :: ([.key segmentType, .scalar (.uint 0)] ++
    [.key packetHeader, .scalar (.string p.header)] ++ [.endObject])) ++
    (p.items.flatMap (fun c => itemEvents c.key c.val c.type) ++
      if p.notes = [] then [] else notesObject p.notes)

theorem text_eq_body (p : PacketCalls) :
    p.text = .startArray :: (p.body ++ if p.notes = [] then [] else [.endArray]) := by
  have hnotes : (p.notes.flatMap fun c => noteEvents c.itemKey c.offset c.val c.type) =
      (if p.notes = [] then [] else notesObject p.notes) ++
        if p.notes = [] then [] else [.endArray] := by
    rcases p.notes_group with hnil | hgroup
    · simp [hnil]
    · have hne : p.notes ≠ [] := by
        intro hnil
        rw [hnil] at hgroup
        cases hgroup
      rw [noteEvents_group hgroup, if_neg hne, if_neg hne]
  rw [text_eq, hnotes, body]
  simp only [headerEvents, List.append_assoc, List.cons_append, List.nil_append]
  rfl

theorem does_body (p : PacketCalls) : Does p.body p.load := by
  have hheader := does_string (show packetHeader ≠ ptrKey by decide) (by decide) p.header
  have hitems : Does _ (storeItems p.items) := parseEvents_items p.items_bracketed p.keys
  have hnotes : Does (if p.notes = [] then [] else notesObject p.notes) (writeNotes p.notes) := by
    split_ifs with hnil
    · rw [hnil]
      exact does_nil
    · exact does_notesObject p.notes
  exact (((does_segmentType 0).append hheader).object (frames_pure.bind (frames_store _ _))).append
    (hitems.append hnotes)

/-- The handler at the end of the text: without notes the array stays open. -/
def ended (p : PacketCalls) (h : BufferReadHandler) : BufferReadHandler :=
  if p.notes = [] then h.push { type := .array, key := [] } else h

section
variable (p : PacketCalls) (h : BufferReadHandler)

@[simp]
theorem objectPtrs_ended : (p.ended h).objectPtrs = h.objectPtrs := by
  unfold ended
  split_ifs <;> rfl

@[simp]
theorem objectBuffer_ended : (p.ended h).objectBuffer = h.objectBuffer := by
  unfold ended
  split_ifs <;> rfl

@[simp]
theorem nameIdMap_ended : (p.ended h).nameIdMap = h.nameIdMap := by
  unfold ended
  split_ifs <;> rfl

theorem arrays_ended (hs : ∀ item ∈ h.parseStack, item.type = .array) :
    ∀ item ∈ (p.ended h).parseStack, item.type = .array := by
  unfold ended
  split_ifs
  · intro item hm
    rcases List.mem_cons.1 hm with rfl | hm
    · rfl
    · exact hs item hm
  · exact hs

end

/-- **The text of a packet is accepted**, and its values are stored and its notes written. -/
theorem parseEvents_text (p : PacketCalls) {junk : Nat → ParseType} {h : BufferReadHandler}
    (hj : h.parseStack = [] → junk (p.text.length - 1) ≠ .key)
    (hs : ∀ item ∈ h.parseStack, item.type = .array) :
    h.parseEvents junk p.text = do return (true, p.ended (← p.load h)) := by
  rw [text_eq_body, List.length_cons, Nat.add_sub_cancel] at hj
  rw [text_eq_body]
  by_cases hnil : p.notes = []
  · simp only [if_pos hnil, List.append_nil, ended] at hj ⊢
    rw [parseEvents_startArray hj hs, p.does_body]
    simp only [p.frames_load h, bind_assoc, pure_bind]
  · simp only [if_neg hnil, ended] at hj ⊢
    rw [List.length_append, List.length_singleton] at hj
    exact p.does_body.root p.frames_load hj hs

theorem parseEvents_text_junk (p : PacketCalls) {junk : Nat → ParseType} {h : BufferReadHandler}
    (hj : junk (p.text.length - 1) = .key) (hs : h.parseStack = []) :
    h.parseEvents junk p.text = .error .emptyStack := by
  rw [text_eq_body] at hj ⊢
  exact root_junk hj hs

/-- What `parse` leaves behind. -/
theorem parse_eq_ok_iff {p : PacketCalls} {w q : JsonRpcPacket} {junk : Nat → ParseType}
    {buffer : UInt64} {size : Int32} (hs : ∀ item ∈ w.handle.parseStack, item.type = .array) :
    w.parse junk p.text buffer size = .ok q ↔
      (w.handle.parseStack = [] → junk (p.text.length - 1) ≠ .key) ∧ ∃ h,
        p.load (w.handle.setBuffer buffer size) = .ok h ∧
        q = { w with handle := (p.ended h).appendTailOffset } := by
  rw [JsonRpcPacket.parse]
  by_cases hj : w.handle.parseStack = [] → junk (p.text.length - 1) ≠ .key
  · rw [p.parseEvents_text (h := w.handle.setBuffer buffer size) hj hs]
    simp only [bind_assoc, pure_bind, Except.bind_eq_ok]
    constructor
    · rintro ⟨h, hload, hq⟩
      cases hq
      exact ⟨hj, h, hload, rfl⟩
    · rintro ⟨-, h, hload, rfl⟩
      exact ⟨h, hload, rfl⟩
  · refine iff_of_false ?_ fun h => hj h.1
    rw [Classical.not_imp, not_not] at hj
    rw [p.parseEvents_text_junk (h := w.handle.setBuffer buffer size) hj.2 hj.1, error_bind]
    exact fun h => by cases h

end PacketCalls

theorem Packet.ended_eq (p : Packet) (h : BufferReadHandler) : p.ended h = h := if_neg p.noted

end JsonRpc
