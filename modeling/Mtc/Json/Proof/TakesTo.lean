import Mtc.Json.Proof.Handler

/-!
# Events without a rejected copy

`TakesTo` follows the events like `Does`, and looks at what every `put` returns. A text is taken
without a rejected copy exactly if its values are stored and its notes written without one
(`WriterCalls.takesTo_text`). The notes may be in any groups that can be written, also in groups
that stay open.
-/

namespace JsonRpc

open Except (ok_bind error_bind bind_eq_ok)
open JsonRpcPacket (headerEvents itemEvents noteEvents)
open BuildCalls (inGroup noteObject)

namespace BufferReadHandler

variable {junk : Nat → ParseType} {h h' : BufferReadHandler} {es es' : List Event}

/-! ## Parts of a text -/

theorem takesTo_append : h.TakesTo junk (es ++ es') h' ↔
    ∃ h₁, h.TakesTo (fun n => junk (n + es'.length)) es h₁ ∧ h₁.TakesTo junk es' h' := by
  induction es generalizing h with
  | nil =>
    constructor
    · intro ht
      exact ⟨h, rfl, ht⟩
    · rintro ⟨h₁, rfl, ht⟩
      exact ht
  | cons e es ih =>
    simp only [List.cons_append, TakesTo, List.length_append, ih]
    constructor
    · rintro ⟨hr, h₁, hstep, h₂, hes, hes'⟩
      exact ⟨h₂, ⟨hr, h₁, hstep, hes⟩, hes'⟩
    · rintro ⟨h₂, ⟨hr, h₁, hstep, hes⟩, hes'⟩
      exact ⟨hr, h₁, hstep, h₂, hes, hes'⟩

theorem TakesTo.parseEvents (ht : h.TakesTo junk es h') :
    h.parseEvents junk es = .ok (true, h') := by
  induction es generalizing h with
  | nil =>
    cases ht
    rfl
  | cons e es ih =>
    obtain ⟨-, h₁, hstep, ht⟩ := ht
    rw [BufferReadHandler.parseEvents, hstep, ok_bind]
    exact ih ht

/-- A value is stored under its key. -/
def Stores (h : BufferReadHandler) (key data : Bytes) (h' : BufferReadHandler) : Prop :=
  h.objectBuffer.Appends data ∧ h.store key data = .ok h'

/-- A note is written. -/
def Notes (h : BufferReadHandler) (c : NoteCall) (h' : BufferReadHandler) : Prop :=
  h.objectBuffer.Appends c.val ∧ h.Patches c.itemKey (Layout.ptrOffset c.offset) c.val ∧
    h.note c.itemKey (Layout.ptrOffset c.offset) c.val = .ok h'

theorem stores_push {item : ParseItem} {key data : Bytes} :
    (h.push item).Stores key data h' ↔ ∃ h₁, h.Stores key data h₁ ∧ h' = h₁.push item := by
  have hframe := frames_store key data h item
  dsimp only at hframe
  rw [Stores, hframe]
  constructor
  · rintro ⟨ha, hs⟩
    obtain ⟨h₁, hstore, he⟩ := bind_eq_ok.1 hs
    cases he
    exact ⟨h₁, ⟨ha, hstore⟩, rfl⟩
  · rintro ⟨h₁, ⟨ha, hs⟩, rfl⟩
    exact ⟨ha, by rw [hs]; rfl⟩

theorem notes_push {item : ParseItem} {c : NoteCall} :
    (h.push item).Notes c h' ↔ ∃ h₁, h.Notes c h₁ ∧ h' = h₁.push item := by
  have hframe := frames_note c.itemKey (Layout.ptrOffset c.offset) c.val h item
  have hpatch : (h.push item).Patches c.itemKey (Layout.ptrOffset c.offset) c.val ↔
      h.Patches c.itemKey (Layout.ptrOffset c.offset) c.val := by
    simp only [Patches, nameId_eq]
    rfl
  dsimp only at hframe
  rw [Notes, hframe, hpatch]
  constructor
  · rintro ⟨ha, hp, hs⟩
    obtain ⟨h₁, hnote, he⟩ := bind_eq_ok.1 hs
    cases he
    exact ⟨h₁, ⟨ha, hp, hnote⟩, rfl⟩
  · rintro ⟨h₁, ⟨ha, hp, hs⟩, rfl⟩
    exact ⟨ha, hp, by rw [hs]; rfl⟩

/-! ## Members and notes -/

/-- An event that copies nothing. -/
theorem takesTo_step {h₁ : BufferReadHandler} {e : Event} (hr : h.RejectsNone e)
    (hstep : h.step (junk es.length) e = .ok (true, h₁)) :
    h.TakesTo junk (e :: es) h' ↔ h₁.TakesTo junk es h' := by
  constructor
  · rintro ⟨-, h₂, hs, ht⟩
    cases hstep.symm.trans hs
    exact ht
  · intro ht
    exact ⟨hr, h₁, hstep, ht⟩

/-- The last event. -/
theorem takesTo_last {e : Event} :
    h.TakesTo junk [e] h' ↔ h.RejectsNone e ∧ h.step (junk 0) e = .ok (true, h') := by
  constructor
  · rintro ⟨hr, h₁, hstep, rfl⟩
    exact ⟨hr, hstep⟩
  · rintro ⟨hr, hstep⟩
    exact ⟨hr, h', hstep, rfl⟩

theorem takesTo_key (key : Bytes) : h.TakesTo junk (.key key :: es) h' ↔
    (h.push { type := .key, key := key }).TakesTo junk es h' :=
  takesTo_step trivial rfl

theorem takesTo_startObject : h.TakesTo junk (.startObject :: es) h' ↔
    (h.push { type := .object, key := [] }).TakesTo junk es h' :=
  takesTo_step trivial rfl

theorem takesTo_endObject {key : Bytes} :
    (h.push { type := .object, key := key }).TakesTo junk (.endObject :: es) h' ↔
      h.TakesTo junk es h' :=
  takesTo_step trivial rfl

theorem takesTo_endArray {key : Bytes} :
    (h.push { type := .array, key := key }).TakesTo junk (.endArray :: es) h' ↔
      h.TakesTo junk es h' :=
  takesTo_step trivial rfl

theorem takesTo_string {key : Bytes} (hk : key ≠ ptrKey) (hv : key ≠ ptrVal) (str : Bytes) :
    h.TakesTo junk [.key key, .scalar (.string str)] h' ↔ h.Stores key str h' := by
  have hstep : (h.push { type := .key, key := key }).step (junk 0) (.scalar (.string str)) =
      do return (true, ← h.store key str) := by
    simp only [step, scalar, string, pop, push, ok_bind, if_neg hk, if_neg hv]
  rw [takesTo_key, takesTo_last, hstep, Stores]
  refine and_congr ⟨fun hr => (hr _ _ rfl hk).1, fun ha item rest hs _ => ?_⟩ ⟨fun ht => ?_, ?_⟩
  · cases hs
    exact ⟨ha, fun hv' => absurd hv' hv⟩
  · obtain ⟨h₁, hstore, he⟩ := bind_eq_ok.1 ht
    cases he
    exact hstore
  · intro hstore
    rw [hstore]
    rfl

theorem takesTo_segmentType (u : UInt32) :
    h.TakesTo junk (.key segmentType :: .scalar (.uint u) :: es) h' ↔ h.TakesTo junk es h' := by
  have ho : segmentType ≠ ptrOffset := by decide
  rw [takesTo_key]
  refine takesTo_step (fun item rest hs _ hseg => ?_) ?_
  · cases hs
    exact absurd rfl hseg
  · simp only [step, scalar, uint, pop, push, ok_bind, if_neg ho]
    rfl

/-- The key of a note waits on the stack. -/
theorem takesTo_ptrKey (str : Bytes) :
    (h.push { type := .key, key := ptrKey }).TakesTo junk (.scalar (.string str) :: es) h' ↔
      (h.push { type := .ptrKey, key := str }).TakesTo junk es h' := by
  refine takesTo_step (fun item rest hs hk => ?_) rfl
  cases hs
  exact absurd rfl hk

/-- And so does the offset. -/
theorem takesTo_ptrOffset (u : UInt32) :
    (h.push { type := .key, key := ptrOffset }).TakesTo junk (.scalar (.uint u) :: es) h' ↔
      (h.push { type := .ptrOffset, key := Bytes.le32 u }).TakesTo junk es h' := by
  refine takesTo_step (fun item rest hs ho => ?_) rfl
  cases hs
  exact absurd rfl ho

/-- The value of a note, with its key and its offset on the stack. -/
theorem takesTo_ptrVal (itemKey : Bytes) (u : UInt32) (str : Bytes) :
    (((h.push { type := .ptrKey, key := itemKey }).push
      { type := .ptrOffset, key := Bytes.le32 u }).push { type := .key, key := ptrVal }).TakesTo
      junk [.scalar (.string str)] h' ↔ h.objectBuffer.Appends str ∧ h.Patches itemKey u str ∧
        h.note itemKey u str = .ok h' := by
  have hv : ptrVal ≠ ptrKey := by decide
  have hg := Bytes.getLe32_le32 u []
  rw [List.append_nil] at hg
  obtain ⟨g, hstack⟩ : ∃ g, g = ((h.push { type := .ptrKey, key := itemKey }).push
    { type := .ptrOffset, key := Bytes.le32 u }).push { type := .key, key := ptrVal } := ⟨_, rfl⟩
  have hstep : g.step (junk 0) (.scalar (.string str)) =
      do return (true, ← h.note itemKey u str) := by
    simp only [hstack, step, scalar, string, pop, push, ok_bind, if_neg hv, if_true, hg,
      Option.orError]
  have hpatch : g.Patches itemKey u str ↔ h.Patches itemKey u str := by
    simp only [hstack, Patches, nameId_eq]
    rfl
  have hbuffer : g.objectBuffer = h.objectBuffer := by rw [hstack]; rfl
  have hitems : g.parseStack =
      ⟨.key, ptrVal⟩ :: ⟨.ptrOffset, Bytes.le32 u⟩ :: ⟨.ptrKey, itemKey⟩ :: h.parseStack := by
    rw [hstack]
    rfl
  rw [← hstack, takesTo_last, hstep, ← and_assoc]
  refine and_congr ⟨fun hr => ?_, ?_⟩ ⟨fun ht => ?_, fun hnote => by rw [hnote]; rfl⟩
  · obtain ⟨ha, hp⟩ := hr _ _ hitems hv
    rw [hbuffer] at ha
    exact ⟨ha, hpatch.1 (hp rfl ⟨.ptrOffset, Bytes.le32 u⟩ ⟨.ptrKey, itemKey⟩ h.parseStack u rfl
      hg)⟩
  · rintro ⟨ha, hp⟩ item rest hs -
    cases hitems.symm.trans hs
    rw [hbuffer]
    refine ⟨ha, fun _ itemOffset itemKey rest' u hrest hu => ?_⟩
    cases hrest
    cases hg.symm.trans hu
    exact hpatch.2 hp
  · obtain ⟨h₁, hnote, he⟩ := bind_eq_ok.1 ht
    cases he
    exact hnote

/-- The members of a note object. -/
theorem takesTo_noteMembers {c : NoteCall} (hc : 0 ≤ c.offset) :
    h.TakesTo junk [.key ptrKey, .scalar (.string c.itemKey), .key ptrOffset, .ofInt c.offset,
      .key ptrVal, .scalar (.string c.val)] h' ↔ h.Notes c h' := by
  have hneg : ¬ c.offset < 0 := by
    rw [Int32.nonneg_iff] at hc
    rw [Int32.lt_iff_toInt_lt, Int32.toInt_zero]
    omega
  rw [takesTo_key, takesTo_ptrKey, takesTo_key, Event.ofInt, if_neg hneg, takesTo_ptrOffset,
    takesTo_key, takesTo_ptrVal, Notes, Layout.ptrOffset, if_neg hneg]

theorem takesTo_noteObject {c : NoteCall} (hc : 0 ≤ c.offset) :
    h.TakesTo junk (noteObject c) h' ↔ h.Notes c h' := by
  rw [noteObject, takesTo_startObject, takesTo_append]
  constructor
  · rintro ⟨h₁, hmembers, hend⟩
    rw [takesTo_noteMembers hc, notes_push] at hmembers
    obtain ⟨h₂, hnotes, rfl⟩ := hmembers
    rw [takesTo_endObject] at hend
    cases hend
    exact hnotes
  · intro hnotes
    refine ⟨h'.push { type := .object, key := [] }, ?_, takesTo_endObject.2 rfl⟩
    rw [takesTo_noteMembers hc, notes_push]
    exact ⟨h', hnotes, rfl⟩

/-! ## Items -/

/-- Values are stored under their keys. -/
def StoresAll (h : BufferReadHandler) : List (Bytes × Bytes) → BufferReadHandler → Prop
  | [], h' => h' = h
  | v :: vals, h' => ∃ h₁, h.Stores v.1 v.2 h₁ ∧ h₁.StoresAll vals h'

theorem storesAll_push {item : ParseItem} {vals : List (Bytes × Bytes)} :
    (h.push item).StoresAll vals h' ↔ ∃ h₁, h.StoresAll vals h₁ ∧ h' = h₁.push item := by
  induction vals generalizing h with
  | nil =>
    constructor
    · intro he
      exact ⟨h, rfl, he⟩
    · rintro ⟨h₁, rfl, rfl⟩
      rfl
  | cons v vals ih =>
    simp only [StoresAll, stores_push]
    constructor
    · rintro ⟨h₁, ⟨h₂, hstore, rfl⟩, hrest⟩
      obtain ⟨h₃, hrest', rfl⟩ := ih.1 hrest
      exact ⟨h₃, ⟨h₂, hstore, hrest'⟩, rfl⟩
    · rintro ⟨h₃, ⟨h₂, hstore, hrest⟩, rfl⟩
      exact ⟨_, ⟨h₂, hstore, rfl⟩, ih.2 ⟨h₃, hrest, rfl⟩⟩

/-- The events of a member, in a group or not, and those behind it. -/
theorem takesTo_member {key val : Bytes} (hk : key ≠ ptrKey) (hv : key ≠ ptrVal) :
    h.TakesTo junk (.key key :: .scalar (.string val) :: es) h' ↔
      ∃ h₁, h.Stores key val h₁ ∧ h₁.TakesTo junk es h' := by
  rw [← List.singleton_append, ← List.singleton_append (l := es), ← List.append_assoc,
    takesTo_append]
  exact exists_congr fun h₁ => and_congr_left fun _ => takesTo_string hk hv val

/-- A value at the end of an object. -/
theorem takesTo_stored_end {key val : Bytes} :
    (∃ h₁, (h.push { type := .object, key := [] }).Stores key val h₁ ∧
      h₁.TakesTo junk [.endObject] h') ↔ ∃ h₁, h.Stores key val h₁ ∧ h' = h₁ := by
  constructor
  · rintro ⟨h₁, hstore, hend⟩
    obtain ⟨h₂, hstore', rfl⟩ := stores_push.1 hstore
    rw [takesTo_endObject] at hend
    exact ⟨h₂, hstore', hend⟩
  · rintro ⟨h₁, hstore, rfl⟩
    exact ⟨_, stores_push.2 ⟨h', hstore, rfl⟩, takesTo_endObject.2 rfl⟩

/-- One call leads from inside or outside a group to inside or outside of one. -/
theorem takesTo_item {opened : Bool} {c : ItemCall} {ts : List PacketItemType}
    (hb : bracketed opened (c.type :: ts) = true) (hk : c.key ≠ ptrKey) (hv : c.key ≠ ptrVal) :
    ∃ opened', bracketed opened' ts = true ∧ ∀ junk h h',
      (inGroup opened h).TakesTo junk (itemEvents c.key c.val c.type) h' ↔
        ∃ h₁, h.Stores c.key c.val h₁ ∧ h' = inGroup opened' h₁ := by
  cases opened <;> cases ht : c.type <;> rw [ht] at hb <;> try cases hb
  · refine ⟨true, hb, fun junk h h' => ?_⟩
    show h.TakesTo junk (.startObject :: .key segmentType :: .scalar (.uint 1) :: .key c.key ::
      .scalar (.string c.val) :: []) h' ↔ _
    rw [takesTo_startObject, takesTo_segmentType, takesTo_string hk hv, stores_push]
    rfl
  · refine ⟨false, hb, fun junk h h' => ?_⟩
    show h.TakesTo junk (.startObject :: .key segmentType :: .scalar (.uint 1) :: .key c.key ::
      .scalar (.string c.val) :: [.endObject]) h' ↔ _
    rw [takesTo_startObject, takesTo_segmentType, takesTo_member hk hv]
    exact takesTo_stored_end
  · refine ⟨true, hb, fun junk h h' => ?_⟩
    show (h.push { type := .object, key := [] }).TakesTo junk [.key c.key,
      .scalar (.string c.val)] h' ↔ _
    rw [takesTo_string hk hv, stores_push]
    rfl
  · refine ⟨false, hb, fun junk h h' => ?_⟩
    show (h.push { type := .object, key := [] }).TakesTo junk (.key c.key ::
      .scalar (.string c.val) :: [.endObject]) h' ↔ _
    rw [takesTo_member hk hv]
    exact takesTo_stored_end

theorem takesTo_items {items : List ItemCall} {opened : Bool}
    (hb : bracketed opened (items.map (·.type)) = true)
    (hk : ∀ c ∈ items, c.key ≠ ptrKey ∧ c.key ≠ ptrVal) :
    (inGroup opened h).TakesTo junk (items.flatMap fun c => itemEvents c.key c.val c.type) h' ↔
      h.StoresAll (items.map fun c => (c.key, c.val)) h' := by
  induction items generalizing opened h with
  | nil =>
    obtain rfl : opened = false := by simpa [bracketed] using hb
    exact Iff.rfl
  | cons c items ih =>
    obtain ⟨hkey, hval⟩ := hk c List.mem_cons_self
    obtain ⟨opened', hb', hitem⟩ := takesTo_item hb hkey hval
    rw [List.flatMap_cons, takesTo_append, List.map_cons, StoresAll]
    constructor
    · rintro ⟨h₁, hc, hrest⟩
      obtain ⟨h₂, hstore, rfl⟩ := (hitem _ h h₁).1 hc
      exact ⟨h₂, hstore, (ih hb' fun d hd => hk d (List.mem_cons_of_mem c hd)).1 hrest⟩
    · rintro ⟨h₂, hstore, hrest⟩
      exact ⟨_, (hitem _ h _).2 ⟨h₂, hstore, rfl⟩,
        (ih hb' fun d hd => hk d (List.mem_cons_of_mem c hd)).2 hrest⟩

/-! ## Notes -/

/-- The notes are written. -/
def NotesAll (h : BufferReadHandler) : List NoteCall → BufferReadHandler → Prop
  | [], h' => h' = h
  | c :: notes, h' => ∃ h₁, h.Notes c h₁ ∧ h₁.NotesAll notes h'

/-- The handler inside the array of the text, and inside this many arrays of notes. -/
def inNotes : Nat → BufferReadHandler → BufferReadHandler
  | 0, h => h.push { type := .array, key := [] }
  | depth + 1, h => ((inNotes depth h).push { type := .object, key := [] }).push
    { type := .array, key := [] }

theorem notes_inNotes {c : NoteCall} (depth : Nat) :
    (inNotes depth h).Notes c h' ↔ ∃ h₁, h.Notes c h₁ ∧ h' = inNotes depth h₁ := by
  induction depth generalizing h' with
  | zero => exact notes_push
  | succ depth ih =>
    rw [inNotes, notes_push]
    simp only [notes_push, ih]
    constructor
    · rintro ⟨h₁, ⟨h₂, ⟨h₃, hnotes, rfl⟩, rfl⟩, rfl⟩
      exact ⟨h₃, hnotes, rfl⟩
    · rintro ⟨h₃, hnotes, rfl⟩
      exact ⟨_, ⟨_, ⟨h₃, hnotes, rfl⟩, rfl⟩, rfl⟩

/-- An array of notes is opened. -/
theorem takesTo_open (depth : Nat) : (inNotes depth h).TakesTo junk (.startObject ::
    .key segmentType :: .ofInt 2 :: .key noteArry :: .startArray :: es) h' ↔
      (inNotes (depth + 1) h).TakesTo junk es h' := by
  rw [takesTo_startObject]
  show (BufferReadHandler.push _ _).TakesTo junk (.key segmentType :: .scalar (.uint 2) :: _) h' ↔ _
  rw [takesTo_segmentType, takesTo_key]
  exact takesTo_step trivial rfl

/-- The end of an array of notes, and of the array around it. -/
theorem exists_takesTo_close (depth : Nat) : ∃ h', (inNotes (depth + 1) h).TakesTo junk
    [.endArray, .endObject, .endArray] h' := by
  rw [inNotes]
  simp only [takesTo_endArray, takesTo_endObject]
  cases depth with
  | zero => exact ⟨h, takesTo_endArray.2 rfl⟩
  | succ depth => exact ⟨_, takesTo_endArray.2 rfl⟩

/-- A note object in the arrays of notes, and the events behind it. -/
theorem takesTo_note {c : NoteCall} (hc : 0 ≤ c.offset) (depth : Nat) :
    (inNotes depth h).TakesTo junk (noteObject c ++ es) h' ↔
      ∃ h₁, h.Notes c h₁ ∧ (inNotes depth h₁).TakesTo junk es h' := by
  rw [takesTo_append]
  simp only [takesTo_noteObject hc, notes_inNotes]
  constructor
  · rintro ⟨h₁, ⟨h₂, hnotes, rfl⟩, hes⟩
    exact ⟨h₂, hnotes, hes⟩
  · rintro ⟨h₂, hnotes, hes⟩
    exact ⟨_, ⟨h₂, hnotes, rfl⟩, hes⟩

/-- The notes behind a note, from what they are in the handler it leads to. -/
theorem exists_notes_iff {c : NoteCall} {P Q : BufferReadHandler → BufferReadHandler → Prop}
    (hpq : ∀ h₁, (∃ h', P h₁ h') ↔ ∃ h', Q h₁ h') :
    (∃ h' h₁, h.Notes c h₁ ∧ P h₁ h') ↔ ∃ h' h₁, h.Notes c h₁ ∧ Q h₁ h' := by
  constructor
  · rintro ⟨h', h₁, hnotes, hp⟩
    obtain ⟨h'', hq⟩ := (hpq h₁).1 ⟨h', hp⟩
    exact ⟨h'', h₁, hnotes, hq⟩
  · rintro ⟨h', h₁, hnotes, hq⟩
    obtain ⟨h'', hp⟩ := (hpq h₁).2 ⟨h', hq⟩
    exact ⟨h'', h₁, hnotes, hp⟩

/-- One call: the first and a single note open an array, the last and a single one close it with
the array around it. -/
theorem takesTo_noteEvents {c : NoteCall} (hc : 0 ≤ c.offset) (depth : Nat)
    (type : PacketItemType) :
    (inNotes depth h).TakesTo junk (noteEvents c.itemKey c.offset c.val type ++ es) h' ↔
      ∃ h₁, h.Notes c h₁ ∧
        (inNotes (if type = .first ∨ type = .single then depth + 1 else depth) h₁).TakesTo junk
          ((if type = .last ∨ type = .single then [.endArray, .endObject, .endArray] else []) ++
            es) h' := by
  cases type with
  | first => exact (takesTo_open depth).trans (takesTo_note hc (depth + 1))
  | normal => exact takesTo_note hc depth
  | last => exact takesTo_note hc depth
  | single => exact (takesTo_open depth).trans (takesTo_note hc (depth + 1))

/-- All notes that can be written. -/
theorem takesTo_notes {notes : List NoteCall} {depth : Nat}
    (hw : writable depth (notes.map (·.type)) = true) (hc : ∀ c ∈ notes, 0 ≤ c.offset) :
    (∃ h', (inNotes depth h).TakesTo junk
      (notes.flatMap fun c => noteEvents c.itemKey c.offset c.val c.type) h') ↔
      ∃ h', h.NotesAll notes h' := by
  induction notes generalizing depth h with
  | nil => exact iff_of_true ⟨_, rfl⟩ ⟨_, rfl⟩
  | cons c notes ih =>
    have hrest : ∀ {depth h}, writable depth (notes.map (·.type)) = true →
        ((∃ h', (inNotes depth h).TakesTo junk
          (notes.flatMap fun c => noteEvents c.itemKey c.offset c.val c.type) h') ↔
          ∃ h', h.NotesAll notes h') :=
      fun hw => ih hw fun d hd => hc d (List.mem_cons_of_mem c hd)
    rw [List.map_cons] at hw
    rw [List.flatMap_cons]
    simp only [takesTo_noteEvents (hc c List.mem_cons_self), NotesAll]
    refine exists_notes_iff fun h₁ => ?_
    cases ht : c.type with
    | first =>
      rw [ht] at hw
      exact hrest hw
    | normal =>
      rw [ht] at hw
      exact hrest hw
    | last =>
      rw [ht] at hw
      -- nothing follows, and an array is open
      cases notes with
      | cons d notes => cases hw
      | nil =>
        obtain ⟨depth, rfl⟩ := Nat.exists_eq_add_one.2 (of_decide_eq_true hw)
        exact iff_of_true (exists_takesTo_close depth) ⟨h₁, rfl⟩
    | single =>
      rw [ht] at hw
      cases notes with
      | cons d notes => cases hw
      | nil => exact iff_of_true (exists_takesTo_close depth) ⟨h₁, rfl⟩

/-- The first event of the text. -/
theorem takesTo_root (hs : h.parseStack = []) : h.TakesTo junk (.startArray :: es) h' ↔
    junk es.length ≠ .key ∧ (inNotes 0 h).TakesTo junk es h' := by
  by_cases hj : junk es.length = .key
  · refine iff_of_false ?_ fun ht => ht.1 hj
    rintro ⟨-, h₁, hstep, -⟩
    simp only [step, startArray, hs, hj, pop, if_true, error_bind] at hstep
    cases hstep
  · have hstep : h.step (junk es.length) .startArray = .ok (true, inNotes 0 h) := by
      simp only [step, startArray, hs, if_neg hj, ok_bind]
      rfl
    rw [takesTo_step (e := .startArray) trivial hstep]
    exact (and_iff_right hj).symm

end BufferReadHandler

/-! ## The text -/

section

open BufferReadHandler

/-- The events of the header, behind the first one. -/
theorem takesTo_header {junk : Nat → ParseType} {h h' : BufferReadHandler} {es : List Event}
    (header : Bytes) : (inNotes 0 h).TakesTo junk (.startObject :: .key segmentType ::
      .scalar (.uint 0) :: .key packetHeader :: .scalar (.string header) :: .endObject :: es) h' ↔
      ∃ h₁, h.Stores packetHeader header h₁ ∧ (inNotes 0 h₁).TakesTo junk es h' := by
  rw [takesTo_startObject, takesTo_segmentType, takesTo_member (by decide) (by decide)]
  constructor
  · rintro ⟨h₁, hstore, hend⟩
    obtain ⟨h₂, hstore₂, rfl⟩ := stores_push.1 hstore
    obtain ⟨h₃, hstore₃, rfl⟩ := stores_push.1 hstore₂
    exact ⟨h₃, hstore₃, takesTo_endObject.1 hend⟩
  · rintro ⟨h₁, hstore, hes⟩
    exact ⟨_, stores_push.2 ⟨_, stores_push.2 ⟨h₁, hstore, rfl⟩, rfl⟩, takesTo_endObject.2 hes⟩

/-- The events of the items, and those behind them. -/
theorem BuildCalls.takesTo_values (p : BuildCalls) {junk : Nat → ParseType}
    {h h' : BufferReadHandler} {es : List Event} : (inNotes 0 h).TakesTo junk
      (p.items.flatMap (fun c => itemEvents c.key c.val c.type) ++ es) h' ↔
      ∃ h₁, h.StoresAll (p.items.map fun c => (c.key, c.val)) h₁ ∧
        (inNotes 0 h₁).TakesTo junk es h' := by
  rw [takesTo_append]
  constructor
  · rintro ⟨h₁, hitems, hes⟩
    have hall := (takesTo_items (h := inNotes 0 h) p.items_bracketed p.keys).1 hitems
    obtain ⟨h₂, hall', rfl⟩ := storesAll_push.1 hall
    exact ⟨h₂, hall', hes⟩
  · rintro ⟨h₂, hall, hes⟩
    exact ⟨inNotes 0 h₂, (takesTo_items p.items_bracketed p.keys).2
      (storesAll_push.2 ⟨h₂, hall, rfl⟩), hes⟩

/-- **The text is taken without a rejected copy** exactly if the indeterminate value that the first
event reads is not `KEY`, and the values are stored and the notes written without one. -/
theorem WriterCalls.takesTo_text {p : WriterCalls} (hc : ∀ c ∈ p.notes, 0 ≤ c.offset)
    {junk : Nat → ParseType} {h : BufferReadHandler} (hs : h.parseStack = []) :
    (∃ h', h.TakesTo junk p.text h') ↔ junk (p.text.length - 1) ≠ .key ∧
      ∃ h₁, h.StoresAll p.values h₁ ∧ ∃ h', h₁.NotesAll p.notes h' := by
  have htext : p.text = .startArray :: .startObject :: .key segmentType :: .scalar (.uint 0) ::
      .key packetHeader :: .scalar (.string p.header) :: .endObject ::
        (p.items.flatMap (fun c => itemEvents c.key c.val c.type) ++
          p.notes.flatMap fun c => noteEvents c.itemKey c.offset c.val c.type) := by
    rw [BuildCalls.text_eq]
    rfl
  rw [htext]
  simp only [takesTo_root hs, exists_and_left, takesTo_header, p.takesTo_values,
    BuildCalls.values, StoresAll]
  refine and_congr Iff.rfl ?_
  constructor
  · rintro ⟨h', h₁, hstore, h₂, hall, hnotes⟩
    exact ⟨h₂, ⟨h₁, hstore, hall⟩, (takesTo_notes p.notes_writable hc).1 ⟨h', hnotes⟩⟩
  · rintro ⟨h₂, ⟨h₁, hstore, hall⟩, hnotes⟩
    obtain ⟨h', hnotes'⟩ := (takesTo_notes p.notes_writable hc).2 hnotes
    exact ⟨h', h₁, hstore, h₂, hall, hnotes'⟩

end

end JsonRpc
