import Mtc.Json.Proof.Bounds

/-!
# Texts of the packet format

The handler takes the events of a text on trust. What becomes of a text depends on what each event
finds on the stack (`text_handled_iff`): nothing is touched that is not there exactly if every event
finds what it needs, and a text that is no packet is refused exactly if some end does not find its
start.
Texts of the shape of a packet are handled (`draft_handled`); others make the handler pop an empty
stack, or are accepted though they are no packets (`not_handled`).
-/

namespace JsonRpc

open Except (ok_bind error_bind bind_eq_ok)

/-! ## Results of calls -/

namespace FixedBuffer

variable {b : FixedBuffer} {data : Bytes} {offset size : Int32} {e : Fault}

theorem memcpy_error {bytes : Bytes} {n : Nat} (h : memcpy bytes offset data n = .error e) :
    e = .writeOutside := by
  unfold memcpy at h
  split_ifs at h
  · cases h
    rfl
  · cases hw : Bytes.writeAt bytes offset.toInt.toNat (data.take n) with
    | none =>
      rw [hw] at h
      cases h
      rfl
    | some bytes' =>
      rw [hw] at h
      cases h

theorem put_error (h : b.put data offset size = .error e) : e = .writeOutside := by
  by_cases hgt : b.length.toInt < (offset + size).toInt
  · cases (put_of_gt hgt).symm.trans h
  · rw [put_of_le (by omega)] at h
    cases hm : memcpy b.bytes offset data size.sizeT with
    | error e' =>
      obtain rfl := memcpy_error hm
      rw [hm, error_bind] at h
      cases h
      rfl
    | ok bytes =>
      rw [hm, ok_bind] at h
      cases h

/-- Appending fails only by copying to memory outside. -/
theorem append_cases (b : FixedBuffer) (data : Bytes) (size : Int32) :
    b.append data size = .error .writeOutside ∨ ∃ r, b.append data size = .ok r := by
  cases hput : b.put data b.tailOffset size with
  | error e =>
    obtain rfl := put_error hput
    rw [append, hput]
    exact Or.inl rfl
  | ok r =>
    rw [append, hput]
    exact Or.inr ⟨_, rfl⟩

end FixedBuffer

namespace BufferReadHandler

variable {h : BufferReadHandler}

theorem store_cases (h : BufferReadHandler) (key data : Bytes) :
    h.store key data = .error .writeOutside ∨ ∃ b offset, h.store key data = .ok { h with
      objectBuffer := b
      objectPtrs := h.objectPtrs ++ [offset]
      nameIdMap := h.nameIdMap.assign key (Int32.ofSizeT h.objectPtrs.length) } := by
  rw [store_eq]
  obtain he | ⟨r, hr⟩ := h.objectBuffer.append_cases data (Int32.ofSizeT data.length)
  · rw [he]
    exact Or.inl rfl
  · rw [hr]
    exact Or.inr ⟨r.2, r.1, rfl⟩

theorem note_cases {itemKey : Bytes} {startOffset : Int32}
    (hp : h.objectPtr ((h.nameIdMap.findKey itemKey).getD 0) = .ok startOffset)
    (ptrOffset : UInt32) (str : Bytes) :
    h.note itemKey ptrOffset str = .error .writeOutside ∨
      ∃ b, h.note itemKey ptrOffset str = .ok { h with
        objectBuffer := b
        nameIdMap := h.nameIdMap.access itemKey 0 } := by
  rw [note_eq, hp]
  obtain he | ⟨r, hr⟩ := h.objectBuffer.append_cases str (Int32.ofSizeT str.length)
  · rw [he]
    exact Or.inl rfl
  · rw [hr, ok_bind, ok_bind]
    cases hput : r.2.put (Bytes.le64 (r.2.getAddress r.1))
        (startOffset.toUInt32 + ptrOffset).toInt32 8 with
    | error e =>
      obtain rfl := FixedBuffer.put_error hput
      exact Or.inl rfl
    | ok r' => exact Or.inr ⟨r'.2, rfl⟩

/-- A note changes no offset and no name that is there, and the buffer stays where it is. -/
theorem note_ok {itemKey : Bytes} {ptrOffset : UInt32} {str : Bytes} {h' : BufferReadHandler}
    (hr : h.note itemKey ptrOffset str = .ok h') :
    ∃ b, b.address = h.objectBuffer.address ∧ h' = { h with
      objectBuffer := b
      nameIdMap := h.nameIdMap.access itemKey 0 } := by
  rw [note_eq] at hr
  obtain ⟨r, happend, hr⟩ := bind_eq_ok.1 hr
  obtain ⟨start, -, hr⟩ := bind_eq_ok.1 hr
  obtain ⟨r', hput, hr⟩ := bind_eq_ok.1 hr
  cases hr
  exact ⟨_, (FixedBuffer.put_address hput).trans (FixedBuffer.append_address happend), rfl⟩

end BufferReadHandler

/-! ## Runs -/

open BufferReadHandler

/-- A parse that answers `ok` in a state with `P`, if it does not copy to memory outside. -/
def Ends (r : Except Fault (Bool × BufferReadHandler)) (ok : Bool)
    (P : BufferReadHandler → Prop) : Prop :=
  r = .error .writeOutside ∨ ∃ h, r = .ok (ok, h) ∧ P h

section
variable {h : BufferReadHandler} {es es' : List Event} {ok : Bool} {P Q : BufferReadHandler → Prop}

theorem Ends.append (he : ∀ junk, Ends (h.parseEvents junk es) true P)
    (he' : ∀ h', P h' → ∀ junk, Ends (h'.parseEvents junk es') ok Q) (junk : Nat → ParseType) :
    Ends (h.parseEvents junk (es ++ es')) ok Q := by
  rw [parseEvents_append]
  obtain hr | ⟨h', hr, hp⟩ := he fun n => junk (n + es'.length)
  · rw [hr]
    exact Or.inl rfl
  · rw [hr, ok_bind, if_pos rfl]
    exact he' h' hp junk

theorem Ends.refused (he : ∀ junk, Ends (h.parseEvents junk es) false P) (es' : List Event)
    (junk : Nat → ParseType) : Ends (h.parseEvents junk (es ++ es')) false P := by
  rw [parseEvents_append]
  obtain hr | ⟨h', hr, hp⟩ := he fun n => junk (n + es'.length)
  · rw [hr]
    exact Or.inl rfl
  · rw [hr]
    exact Or.inr ⟨h', rfl, hp⟩

theorem Ends.mono {r : Except Fault (Bool × BufferReadHandler)} (he : Ends r ok P)
    (hpq : ∀ h, P h → Q h) : Ends r ok Q :=
  he.imp id fun ⟨h, hr, hp⟩ => ⟨h, hr, hpq h hp⟩

end

/-- A handler with this stack, this number of values, and these names among theirs. -/
structure At (stack : List ParseItem) (count : Nat) (names : List Bytes) (h : BufferReadHandler) :
    Prop where
  stack_eq : h.parseStack = stack
  length_eq : h.objectPtrs.length = count
  named : ∀ k ∈ names, ∃ i < count, h.nameIdMap.findKey k = some (Int32.ofSizeT i)

section
variable {stack : List ParseItem} {count : Nat} {names : List Bytes} {h : BufferReadHandler}

/-- A value is stored under one more name. -/
theorem At.store (ha : At stack count names h) (key data : Bytes) :
    h.store key data = .error .writeOutside ∨ ∃ h', h.store key data = .ok h' ∧
      At stack (count + 1) (key :: names) h' := by
  obtain he | ⟨b, offset, hr⟩ := h.store_cases key data
  · exact Or.inl he
  refine Or.inr ⟨_, hr, ha.stack_eq, ?_, fun k hk => ?_⟩
  · rw [List.length_append, ha.length_eq, List.length_singleton]
  · rw [AssocMap.findKey_assign, ha.length_eq]
    split_ifs with hkey
    · exact ⟨count, Nat.lt_succ_self _, rfl⟩
    · obtain ⟨i, hi, hf⟩ := ha.named k ((List.mem_cons.1 hk).resolve_left hkey)
      exact ⟨i, by omega, hf⟩

/-- A note about a named item is written. -/
theorem At.note (ha : At stack count names h) (hcount : count ≤ 2 ^ 31) {key : Bytes}
    (hk : key ∈ names) (ptrOffset : UInt32) (str : Bytes) :
    h.note key ptrOffset str = .error .writeOutside ∨ ∃ h', h.note key ptrOffset str = .ok h' ∧
      At stack count names h' := by
  obtain ⟨i, hi, hf⟩ := ha.named key hk
  have hlt : i < h.objectPtrs.length := by rw [ha.length_eq]; exact hi
  have hp := objectPtr_ofSizeT (by omega) (List.getElem?_eq_getElem hlt)
  rw [← Option.getD_some (a := Int32.ofSizeT i) (b := 0), ← hf] at hp
  obtain he | ⟨b, hr⟩ := note_cases hp ptrOffset str
  · exact Or.inl he
  refine Or.inr ⟨_, hr, ha.stack_eq, ha.length_eq, ?_⟩
  rw [AssocMap.access_of_some hf]
  exact ha.named

theorem Ends.of_does {es : List Event} {f : BufferReadHandler → Except Fault BufferReadHandler}
    {P : BufferReadHandler → Prop} (hd : Does es f)
    (hf : f h = .error .writeOutside ∨ ∃ h', f h = .ok h' ∧ P h') (junk : Nat → ParseType) :
    Ends (h.parseEvents junk es) true P := by
  rw [hd]
  obtain he | ⟨h', hr, hp⟩ := hf
  · rw [he]
    exact Or.inl rfl
  · rw [hr]
    exact Or.inr ⟨h', rfl, hp⟩

theorem At.mono (ha : At stack count names h) {names' : List Bytes} (hsub : names' ⊆ names) :
    At stack count names' h :=
  ⟨ha.stack_eq, ha.length_eq, fun k hk => ha.named k (hsub hk)⟩

end

/-! ## Values that are stored and values that are not -/

/-- The bytes stored for a value. -/
def Scalar.stored : Scalar → Option Bytes
  | .uint u => some (Bytes.le32 u)
  | .string str => some str
  | .null | .bool _ | .int _ | .int64 _ | .uint64 _ | .double => none

namespace Draft

/-- The values of an item object are of types that are stored. -/
def proper (body : List (Bytes × Scalar)) : Bool := body.all fun m => m.2.stored.isSome

theorem follows_eq (d : Draft) : d.follows = d.bodies.all proper := by
  rw [follows, List.all_flatten]
  congr 1
  funext body
  unfold proper
  congr 1
  funext m
  cases m.2 <;> rfl

def memberEvents (m : Bytes × Scalar) : List Event := [.key m.1, .scalar m.2]

theorem does_member {m : Bytes × Scalar} {data : Bytes}
    (hk : m.1 ∉ [ptrKey, ptrOffset, ptrVal, segmentType]) (hs : m.2.stored = some data) :
    Does (memberEvents m) fun h => h.store m.1 data := by
  simp only [List.mem_cons, List.not_mem_nil, or_false, not_or] at hk
  obtain ⟨k, s⟩ := m
  cases s <;> cases hs
  · exact does_uint hk.2.1 hk.2.2.2 _
  · exact does_string hk.1 hk.2.2.1 _

/-- A value that is not stored leaves its key on the stack. -/
theorem parseEvents_ignored {m : Bytes × Scalar} (hs : m.2.stored = none)
    (junk : Nat → ParseType) (h : BufferReadHandler) :
    h.parseEvents junk (memberEvents m) = .ok (true, h.push { type := .key, key := m.1 }) := by
  obtain ⟨k, s⟩ := m
  cases s <;> first | rfl | cases hs

/-! ## Item objects -/

theorem events_bodyJson (body : List (Bytes × Scalar)) : (bodyJson body).events =
    .startObject :: ([.key segmentType, .scalar (.uint 1)] ++ body.flatMap memberEvents ++
      [.endObject]) := by
  have hm : ∀ l : List (Bytes × Scalar),
      Json.memberEvents (l.map fun m => (m.1, .scalar m.2)) = l.flatMap memberEvents := by
    intro l
    induction l with
    | nil => rfl
    | cons m l ih => simp [Json.memberEvents, Json.events, ih, memberEvents]
  simp only [bodyJson, Json.events, Json.memberEvents, hm, List.cons_append, List.nil_append]

/-- The values of an item object are stored. -/
def storeMembers (body : List (Bytes × Scalar)) (h : BufferReadHandler) :
    Except Fault BufferReadHandler :=
  body.foldlM (fun h m => h.store m.1 (m.2.stored.getD [])) h

theorem does_bodyJson {body : List (Bytes × Scalar)} (hp : proper body = true)
    (hk : ∀ m ∈ body, m.1 ∉ [ptrKey, ptrOffset, ptrVal, segmentType]) :
    Does (bodyJson body).events (storeMembers body) := by
  have hf : ∀ m : Bytes × Scalar, Frames fun h => h.store m.1 (m.2.stored.getD []) :=
    fun m => frames_store _ _
  have hd : Does (body.flatMap memberEvents) (storeMembers body) := by
    refine does_flatMap body fun m hm => does_member (hk m hm) ?_
    obtain ⟨data, hdata⟩ := Option.isSome_iff_exists.1 (List.all_eq_true.1 hp m hm)
    rw [hdata]
    rfl
  rw [events_bodyJson]
  exact ((does_segmentType 1).append hd).object (frames_pure.bind (frames_foldlM hf body))

variable {stack : List ParseItem} {count : Nat} {names : List Bytes} {h : BufferReadHandler}

theorem at_storeMembers : ∀ (body : List (Bytes × Scalar)) {count : Nat} {names : List Bytes}
    {h : BufferReadHandler}, At stack count names h →
    storeMembers body h = .error .writeOutside ∨ ∃ h', storeMembers body h = .ok h' ∧
      At stack (count + body.length) (body.map Prod.fst ++ names) h'
  | [], _, _, h, ha => Or.inr ⟨h, rfl, ha⟩
  | m :: body, count, names, h, ha => by
    rw [storeMembers, List.foldlM_cons]
    obtain he | ⟨h₁, hr, ha₁⟩ := ha.store m.1 (m.2.stored.getD [])
    · rw [he]
      exact Or.inl rfl
    · rw [hr, ok_bind]
      obtain he | ⟨h', hr', ha'⟩ := at_storeMembers body ha₁
      · exact Or.inl he
      · have hlen : count + 1 + body.length = count + (m :: body).length := by
          rw [List.length_cons]
          omega
        rw [hlen] at ha'
        refine Or.inr ⟨h', hr', ha'.mono fun k hk => ?_⟩
        simp only [List.map_cons, List.cons_append, List.mem_cons, List.mem_append] at hk ⊢
        tauto

/-- The keys of the values that are not stored stay on the stack. -/
theorem ends_members : ∀ (body : List (Bytes × Scalar)),
    (∀ m ∈ body, m.1 ∉ [ptrKey, ptrOffset, ptrVal, segmentType]) →
    ∀ (h : BufferReadHandler) (junk : Nat → ParseType),
      Ends (h.parseEvents junk (body.flatMap memberEvents)) true fun h' =>
        ∃ keys : List ParseItem, h'.parseStack = keys ++ h.parseStack ∧
          (∀ item ∈ keys, item.type = .key) ∧ (proper body = false → keys ≠ [])
  | [], _, h, _ => Or.inr ⟨h, rfl, [], rfl, fun _ hi => (by cases hi), fun hp => (by cases hp)⟩
  | m :: body, hk, h, junk => by
    have ih := ends_members body fun m' hm' => hk m' (List.mem_cons_of_mem _ hm')
    rw [List.flatMap_cons]
    cases hs : m.2.stored with
    | some data =>
      refine Ends.append (P := fun h' => h'.parseStack = h.parseStack)
        (Ends.of_does (does_member (hk m (List.mem_cons_self ..)) hs) ?_)
        (fun h₁ h₁s junk => ?_) junk
      · obtain he | ⟨b, offset, hr⟩ := h.store_cases m.1 data
        · exact Or.inl he
        · exact Or.inr ⟨_, hr, rfl⟩
      · refine (ih h₁ junk).mono fun h' hp => ?_
        rw [h₁s] at hp
        obtain ⟨keys, hkeys, htype, hbad⟩ := hp
        refine ⟨keys, hkeys, htype, fun hp => hbad ?_⟩
        simpa only [proper, List.all_cons, hs, Option.isSome_some, Bool.true_and] using hp
    | none =>
      refine Ends.append (P := fun h' => h' = h.push { type := .key, key := m.1 })
        (fun junk => Or.inr ⟨_, parseEvents_ignored hs junk h, rfl⟩) (fun h₁ h₁s junk => ?_) junk
      subst h₁s
      refine (ih _ junk).mono fun h' hp => ?_
      obtain ⟨keys, hkeys, htype, -⟩ := hp
      refine ⟨keys ++ [{ type := .key, key := m.1 }], ?_, fun item hi => ?_, fun _ => by simp⟩
      · rw [hkeys, List.append_assoc]
        rfl
      · rcases List.mem_append.1 hi with hi | hi
        · exact htype item hi
        · rw [List.mem_singleton.1 hi]

/-- An item object with a value that is not stored is refused. -/
theorem ends_bodyJson_bad {body : List (Bytes × Scalar)} (hp : proper body = false)
    (hk : ∀ m ∈ body, m.1 ∉ [ptrKey, ptrOffset, ptrVal, segmentType]) (h : BufferReadHandler)
    (junk : Nat → ParseType) :
    Ends (h.parseEvents junk (bodyJson body).events) false fun _ => True := by
  have hopen : ∀ es, h.parseEvents junk (.startObject :: es) =
      (h.push { type := .object, key := [] }).parseEvents junk es := fun es => rfl
  rw [events_bodyJson, hopen, List.append_assoc]
  refine Ends.append (P := fun h' => h' = h.push { type := .object, key := [] })
    (fun junk => Or.inr ⟨_, does_segmentType 1 junk _, rfl⟩) (fun h₁ h₁s junk => ?_) junk
  refine Ends.append (ends_members body hk h₁) (fun h₂ h₂s junk => ?_) junk
  obtain ⟨keys, hkeys, htype, hbad⟩ := h₂s
  -- the end of the object finds a key in the place of its start
  cases keys with
  | nil => exact absurd rfl (hbad hp)
  | cons item keys =>
    have hitem := htype item (List.mem_cons_self ..)
    refine Or.inr ⟨{ h₂ with parseStack := keys ++ h₁.parseStack }, ?_, trivial⟩
    simp only [parseEvents, step, endOf, pop, hkeys, List.cons_append, ok_bind, hitem]
    rfl

theorem ends_bodies : ∀ (bodies : List (List (Bytes × Scalar))) {count : Nat} {names : List Bytes}
    {h : BufferReadHandler}, At stack count names h →
    (∀ m ∈ bodies.flatten, m.1 ∉ [ptrKey, ptrOffset, ptrVal, segmentType]) →
    ∀ junk : Nat → ParseType,
    Ends (h.parseEvents junk (bodies.flatMap fun b => (bodyJson b).events))
      (bodies.all proper) fun h' => bodies.all proper = true →
        At stack (count + bodies.flatten.length) (bodies.flatten.map Prod.fst ++ names) h'
  | [], _, _, h, ha, _, _ => Or.inr ⟨h, rfl, fun _ => ha⟩
  | body :: bodies, count, names, h, ha, hk, junk => by
    simp only [List.flatten_cons, List.mem_append] at hk
    rw [List.flatMap_cons, List.all_cons]
    cases hp : proper body with
    | false =>
      exact (Ends.refused (ends_bodyJson_bad hp (fun m hm => hk m (Or.inl hm)) h) _ junk).mono
        fun _ _ hf => (by cases hf)
    | true =>
      refine Ends.append (Ends.of_does (does_bodyJson hp fun m hm => hk m (Or.inl hm))
        (at_storeMembers body ha)) (fun h₁ ha₁ junk => ?_) junk
      refine (ends_bodies bodies ha₁ (fun m hm => hk m (Or.inr hm)) junk).mono fun h' hh' hf => ?_
      have ha' := hh' hf
      have hlen : count + body.length + bodies.flatten.length =
          count + (body :: bodies).flatten.length := by
        rw [List.flatten_cons, List.length_append]
        omega
      rw [hlen] at ha'
      refine ha'.mono fun k hk => ?_
      simp only [List.flatten_cons, List.map_append, List.mem_append] at hk ⊢
      tauto

/-! ## The note object -/

theorem elemEvents_append (js js' : List Json) :
    Json.elemEvents (js ++ js') = Json.elemEvents js ++ Json.elemEvents js' := by
  induction js with
  | nil => rfl
  | cons j js ih => rw [List.cons_append, Json.elemEvents, Json.elemEvents, ih, List.append_assoc]

theorem elemEvents_map {α : Type} (f : α → Json) (l : List α) :
    Json.elemEvents (l.map f) = l.flatMap fun a => (f a).events := by
  induction l with
  | nil => rfl
  | cons a l ih => rw [List.map_cons, Json.elemEvents, ih, List.flatMap_cons]

theorem does_noteJson (c : Note) : Does c.json.events fun h => h.note c.key c.offset c.val :=
  (does_noteMembers c.key c.offset c.val).object (frames_note _ _ _)

/-- The notes are written. -/
def noteAll (notes : List Note) (h : BufferReadHandler) : Except Fault BufferReadHandler :=
  notes.foldlM (fun h c => h.note c.key c.offset c.val) h

theorem does_notesJson (notes : List Note) : Does (notesJson notes).events (noteAll notes) := by
  have hf : ∀ c : Note, Frames fun h => h.note c.key c.offset c.val := fun c => frames_note _ _ _
  have hframes : Frames (noteAll notes) := frames_foldlM hf notes
  have hd : Does (notes.flatMap fun c => c.json.events) (noteAll notes) :=
    does_flatMap notes fun c _ => does_noteJson c
  have := ((does_segmentType 2).append (hd.array hframes noteArry)).object
    (frames_pure.bind hframes)
  simpa only [notesJson, Json.events, Json.memberEvents, elemEvents_map, List.append_nil,
    List.cons_append, List.nil_append, List.append_assoc, pure_bind] using this

theorem at_noteAll (hcount : count ≤ 2 ^ 31) : ∀ (notes : List Note) {h : BufferReadHandler},
    At stack count names h → (∀ c ∈ notes, c.key ∈ names) →
    noteAll notes h = .error .writeOutside ∨
      ∃ h', noteAll notes h = .ok h' ∧ At stack count names h'
  | [], h, ha, _ => Or.inr ⟨h, rfl, ha⟩
  | c :: notes, h, ha, hk => by
    rw [noteAll, List.foldlM_cons]
    obtain he | ⟨h₁, hr, ha₁⟩ := ha.note hcount (hk c (List.mem_cons_self ..)) c.offset c.val
    · rw [he]
      exact Or.inl rfl
    · rw [hr, ok_bind]
      exact at_noteAll hcount notes ha₁ fun c' hc' => hk c' (List.mem_cons_of_mem _ hc')

/-- The note object or none. -/
theorem ends_notes (hcount : count ≤ 2 ^ 31) (notes : Option (List Note))
    (ha : At stack count names h) (hk : ∀ l ∈ notes, ∀ c ∈ l, c.key ∈ names)
    (junk : Nat → ParseType) :
    Ends (h.parseEvents junk (notes.toList.flatMap fun l => (notesJson l).events)) true
      (At stack count names) := by
  cases notes with
  | none => exact Or.inr ⟨h, rfl, ha⟩
  | some l =>
    rw [Option.toList_some, List.flatMap_cons, List.flatMap_nil, List.append_nil]
    exact Ends.of_does (does_notesJson l) (at_noteAll hcount l ha (hk l rfl)) junk

/-! ## The text -/

/-- The events between the brackets of the text. -/
def inner (d : Draft) : List Event :=
  (.startObject :: ([.key segmentType, .scalar (.uint 0)] ++
    [.key packetHeader, .scalar (.string d.header)] ++ [.endObject])) ++
    (d.bodies.flatMap (fun b => (bodyJson b).events) ++
      ((d.notes.toList.flatMap fun l => (notesJson l).events) ++ [.endArray]))

theorem events_json (d : Draft) : d.json.events = .startArray :: d.inner := by
  simp [json, Json.events, Json.elemEvents, Json.memberEvents, elemEvents_append, elemEvents_map,
    inner]

theorem ends_inner (d : Draft) (hn : d.WellNamed) (hcount : d.bodies.flatten.length < 2 ^ 31)
    (ha : At [{ type := .array, key := [] }] 0 [] h) (junk : Nat → ParseType) :
    Ends (h.parseEvents junk d.inner) d.follows fun _ => True := by
  have hheader : Does (.startObject :: ([.key segmentType, .scalar (.uint 0)] ++
      [.key packetHeader, .scalar (.string d.header)] ++ [.endObject]))
      fun h => pure h >>= fun h => h.store packetHeader d.header :=
    ((does_segmentType 0).append (does_string (by decide) (by decide) d.header)).object
      (frames_pure.bind (frames_store _ _))
  rw [d.follows_eq]
  refine Ends.append (Ends.of_does hheader (ha.store packetHeader d.header))
    (fun h₁ ha₁ junk => ?_) junk
  cases hf : d.bodies.all proper with
  | false =>
    refine Ends.refused (fun junk => ?_) _ junk
    have := ends_bodies d.bodies ha₁ hn.items junk
    rw [hf] at this
    exact this.mono fun _ _ => trivial
  | true =>
    refine Ends.append (P := At [{ type := .array, key := [] }] (0 + 1 + d.bodies.flatten.length)
      (d.bodies.flatten.map Prod.fst ++ [packetHeader])) (fun junk => ?_)
      (fun h₂ ha₂ junk => ?_) junk
    · have := ends_bodies d.bodies ha₁ hn.items junk
      rw [hf] at this
      exact this.mono fun _ hat => hat rfl
    · refine Ends.append (ends_notes (by omega) d.notes ha₂ fun l hl c hc => ?_)
        (fun h₃ ha₃ junk => ?_) junk
      · have hname := hn.notes l hl c hc
        simp only [Draft.names, List.mem_cons, List.mem_append] at hname ⊢
        tauto
      · refine Or.inr ⟨{ h₃ with parseStack := [] }, ?_, trivial⟩
        simp only [parseEvents, step, endOf, pop, ha₃.stack_eq, ok_bind]
        rfl

/-- The whole text: the handler answers whether it follows the format. -/
theorem ends_json (d : Draft) (hn : d.WellNamed) (hcount : d.bodies.flatten.length < 2 ^ 31)
    (junk : Nat → ParseType) (hj : junk (d.json.events.length - 1) ≠ .key) (buffer : UInt64)
    (size : Int32) : Ends ((({} : BufferReadHandler).setBuffer buffer size).parseEvents junk
      d.json.events) d.follows fun _ => True := by
  rw [events_json, List.length_cons, Nat.add_sub_cancel] at hj
  rw [events_json, parseEvents_startArray (fun _ => hj) (arrays_of_empty rfl)]
  exact ends_inner d hn hcount ⟨rfl, rfl, fun _ hk => (by cases hk)⟩ junk

end Draft

/-- A fault in a part of a text is a fault of the text. -/
theorem parseEvents_error {h : BufferReadHandler} {es : List Event} {junk : Nat → ParseType}
    {e : Fault} (he : h.parseEvents junk es = .error e) (es' : List Event) :
    h.parseEvents (fun n => junk (n - es'.length)) (es ++ es') = .error e := by
  rw [parseEvents_append]
  simp only [Nat.add_sub_cancel]
  rw [he]
  rfl

/-! ## Any text -/

section
variable {h : BufferReadHandler}

/-- `object_ptrs[index]` is there. -/
theorem exists_objectPtr_iff {index : Int32} : (∃ offset, h.objectPtr index = .ok offset) ↔
    0 ≤ index.toInt ∧ index.toInt.toNat < h.objectPtrs.length := by
  simp only [objectPtr_eq_ok_iff, exists_and_left, ← Option.isSome_iff_exists,
    isSome_getElem?]

theorem objectPtr_error {index : Int32} {e : Fault} (he : h.objectPtr index = .error e) :
    e = .badIndex := by
  unfold objectPtr at he
  split_ifs at he
  · cases he
    rfl
  · cases hget : h.objectPtrs[index.toInt.toNat]? with
    | none =>
      rw [hget] at he
      cases he
      rfl
    | some offset =>
      rw [hget] at he
      cases he

/-- `note` copies to memory outside, or the number of its item is in range. -/
theorem note_safe_iff (itemKey : Bytes) (ptrOffset : UInt32) (str : Bytes) :
    (∀ e, h.note itemKey ptrOffset str = .error e → e = .writeOutside) ↔
      ((h.objectBuffer.append str (Int32.ofSizeT str.length)).isOk = true →
        0 ≤ (h.nameId itemKey).1.toInt ∧
          (h.nameId itemKey).1.toInt.toNat < h.objectPtrs.length) := by
  rw [nameId_eq, ← exists_objectPtr_iff]
  obtain he | ⟨r, hr⟩ := h.objectBuffer.append_cases str (Int32.ofSizeT str.length)
  · refine iff_of_true (fun e hn => ?_) fun hok => ?_
    · rw [note_eq, he] at hn
      cases hn
      rfl
    · rw [he] at hok
      cases hok
  · have hok : (h.objectBuffer.append str (Int32.ofSizeT str.length)).isOk = true := by
      rw [hr]
      rfl
    rw [imp_iff_right hok]
    constructor
    · intro hall
      cases hp : h.objectPtr ((h.nameIdMap.findKey itemKey).getD 0) with
      | ok startOffset => exact ⟨startOffset, rfl⟩
      | error e =>
        have hn := hall e (by rw [note_eq, hr, hp]; rfl)
        rw [objectPtr_error hp] at hn
        cases hn
    · rintro ⟨startOffset, hp⟩ e hn
      obtain hw | ⟨b, hok⟩ := note_cases hp ptrOffset str
      · cases hw.symm.trans hn
        rfl
      · cases hok.symm.trans hn

theorem not_safe {α : Type} {x : Except Fault α} {e : Fault} (hx : x = .error e)
    (he : e ≠ .writeOutside) : ¬ ∀ e, x = .error e → e = .writeOutside :=
  fun hall => he (hall e hx)

theorem store_safe {key data : Bytes} {e : Fault} (he : h.store key data = .error e) :
    e = .writeOutside := by
  obtain hw | ⟨b, offset, hr⟩ := h.store_cases key data
  · cases hw.symm.trans he
    rfl
  · cases hr.symm.trans he

theorem uint_safe_iff (u : UInt32) :
    (∀ e, h.uint u = .error e → e = .writeOutside) ↔ h.parseStack ≠ [] := by
  cases hs : h.parseStack with
  | nil =>
    exact iff_of_false
      (not_safe (e := .emptyStack) (by simp only [uint, pop, hs]; rfl) (by decide))
      fun hne => hne rfl
  | cons item rest =>
    refine iff_of_true (fun e he => ?_) (List.cons_ne_nil _ _)
    simp only [uint, pop, hs, ok_bind] at he
    split_ifs at he
    · cases he
    · cases he
    · exact store_safe he

/-- A note takes the offset and the key of its item from the stack. -/
theorem string_note_safe_iff {item itemOffset itemKey : ParseItem} {rest : List ParseItem}
    (hs : h.parseStack = item :: itemOffset :: itemKey :: rest) (hv : item.key = ptrVal)
    (str : Bytes) :
    (∀ e, h.string str = .error e → e = .writeOutside) ↔ 4 ≤ itemOffset.key.length ∧
      ((h.objectBuffer.append str (Int32.ofSizeT str.length)).isOk = true →
        0 ≤ (h.nameId itemKey.key).1.toInt ∧
          (h.nameId itemKey.key).1.toInt.toNat < h.objectPtrs.length) := by
  have hk : item.key ≠ ptrKey := by
    rw [hv]
    decide
  have hstring : h.string str = (Bytes.getLe32 itemOffset.key).orError .shortRead >>=
      fun offset => { h with parseStack := rest }.note itemKey.key offset str := by
    simp only [string, pop, hs, ok_bind, if_neg hk, if_pos hv]
  have hnote := note_safe_iff (h := { h with parseStack := rest }) itemKey.key
  simp only [nameId_eq] at hnote ⊢
  cases hle : Bytes.getLe32 itemOffset.key with
  | none =>
    have hlen := Bytes.getLe32_eq_none_iff.1 hle
    exact iff_of_false (not_safe (e := .shortRead) (by rw [hstring, hle]; rfl) (by decide))
      fun hb => absurd hb.1 (by omega)
  | some offset =>
    have hlen : 4 ≤ itemOffset.key.length := by
      by_contra hlt
      rw [Bytes.getLe32_eq_none_iff.2 (by omega)] at hle
      cases hle
    rw [hstring, hle, and_iff_right hlen]
    exact hnote offset str

theorem string_safe_iff (str : Bytes) :
    (∀ e, h.string str = .error e → e = .writeOutside) ↔ BackedString h str := by
  unfold BackedString
  cases hs : h.parseStack with
  | nil =>
    exact iff_of_false
      (not_safe (e := .emptyStack) (by simp only [string, pop, hs]; rfl) (by decide)) id
  | cons item rest =>
    dsimp only
    by_cases hv : item.key = ptrVal
    swap
    · refine iff_of_true (fun e he => ?_) fun h => absurd h hv
      simp only [string, pop, hs, ok_bind, if_neg hv] at he
      split_ifs at he
      · cases he
      · exact store_safe he
    have hk : item.key ≠ ptrKey := by
      rw [hv]
      decide
    rw [imp_iff_right hv]
    rcases rest with _ | ⟨itemOffset, _ | ⟨itemKey, rest⟩⟩
    · exact iff_of_false (not_safe (e := .emptyStack)
        (by simp only [string, pop, hs, ok_bind, if_neg hk, if_pos hv]; rfl) (by decide)) id
    · exact iff_of_false (not_safe (e := .emptyStack)
        (by simp only [string, pop, hs, ok_bind, if_neg hk, if_pos hv]; rfl) (by decide)) id
    · exact string_note_safe_iff hs hv str

theorem endOf_safe_iff (type : ParseType) :
    (∀ e, h.endOf type = .error e → e = .writeOutside) ↔ h.parseStack ≠ [] := by
  cases hs : h.parseStack with
  | nil =>
    exact iff_of_false
      (not_safe (e := .emptyStack) (by simp only [endOf, pop, hs]; rfl) (by decide))
      fun hne => hne rfl
  | cons item rest =>
    refine iff_of_true (fun e he => ?_) (List.cons_ne_nil _ _)
    simp only [endOf, pop, hs, ok_bind] at he
    cases he

theorem startArray_safe_iff (junk : ParseType) :
    (∀ e, h.startArray junk = .error e → e = .writeOutside) ↔
      (h.parseStack = [] → junk ≠ .key) := by
  cases hs : h.parseStack with
  | nil =>
    by_cases hj : junk = .key
    · exact iff_of_false (not_safe (e := .emptyStack)
        (by simp only [startArray, hs, if_pos hj, pop]; rfl) (by decide)) fun hne => hne rfl hj
    · refine iff_of_true (fun e he => ?_) fun _ => hj
      simp only [startArray, hs, if_neg hj] at he
      cases he
  | cons item rest =>
    refine iff_of_true (fun e he => ?_) fun h0 => absurd h0 (List.cons_ne_nil _ _)
    simp only [startArray, hs] at he
    split_ifs at he
    · simp only [pop, hs] at he
      cases he
    · cases he

/-- A result that only says that the parse goes on fails like the call. -/
theorem bind_true_error_iff {r : Except Fault BufferReadHandler} {e : Fault} :
    (r >>= fun h => pure (true, h)) = .error e ↔ r = .error e := by
  cases r with
  | error f => rw [error_bind, Except.error.injEq, Except.error.injEq]
  | ok h => exact iff_of_false nofun nofun

/-- What an event needs is there exactly if it does not fail, except by copying to memory
outside. -/
theorem step_safe_iff (c : ParseType × Event) :
    (∀ e, h.step c.1 c.2 = .error e → e = .writeOutside) ↔ Backed h c := by
  obtain ⟨junk, e⟩ := c
  cases e with
  | scalar s =>
    simp only [step, bind_true_error_iff]
    cases s with
    | uint u => exact uint_safe_iff u
    | string str => exact string_safe_iff str
    | _ => exact iff_of_true (fun _ he => by cases he) trivial
  | startObject => exact iff_of_true (fun _ he => by cases he) trivial
  | key str => exact iff_of_true (fun _ he => by cases he) trivial
  | endObject => exact endOf_safe_iff .object
  | startArray =>
    simp only [step, bind_true_error_iff]
    exact startArray_safe_iff junk
  | endArray => exact endOf_safe_iff .array

theorem endOf_answer {type : ParseType} {ok : Bool} {h' : BufferReadHandler}
    (hr : h.endOf type = .ok (ok, h')) :
    ok = true ↔ h.parseStack.head?.map (·.type) = some type := by
  cases hs : h.parseStack with
  | nil =>
    simp only [endOf, pop, hs] at hr
    cases hr
  | cons item rest =>
    simp only [endOf, pop, hs, ok_bind] at hr
    cases hr
    simp

theorem endOf_error {type : ParseType} {e : Fault} (he : h.endOf type = .error e) :
    e = .emptyStack := by
  cases hs : h.parseStack with
  | nil =>
    simp only [endOf, pop, hs] at he
    cases he
    rfl
  | cons item rest =>
    simp only [endOf, pop, hs, ok_bind] at he
    cases he

/-- An event is refused exactly if it is an end that does not find its start. -/
theorem step_answer {c : ParseType × Event} {ok : Bool} {h' : BufferReadHandler}
    (hr : h.step c.1 c.2 = .ok (ok, h')) : ok = true ↔ Matched h c := by
  obtain ⟨junk, e⟩ := c
  cases e with
  | scalar s =>
    obtain ⟨h₁, -, hr⟩ := bind_eq_ok.1 hr
    cases hr
    exact iff_of_true rfl trivial
  | startObject =>
    cases hr
    exact iff_of_true rfl trivial
  | key str =>
    cases hr
    exact iff_of_true rfl trivial
  | endObject => exact endOf_answer hr
  | startArray =>
    obtain ⟨h₁, -, hr⟩ := bind_eq_ok.1 hr
    cases hr
    exact iff_of_true rfl trivial
  | endArray => exact endOf_answer hr

/-- No end copies anything. -/
theorem matched_of_writeOutside {c : ParseType × Event}
    (he : h.step c.1 c.2 = .error .writeOutside) : Matched h c := by
  obtain ⟨junk, e⟩ := c
  cases e with
  | endObject => cases endOf_error he
  | endArray => cases endOf_error he
  | _ => trivial

theorem parseEvents_cons_error {junk : Nat → ParseType} {e : Event} {es : List Event} {f : Fault}
    (hr : h.step (junk es.length) e = .error f) : h.parseEvents junk (e :: es) = .error f := by
  rw [parseEvents, hr]
  rfl

theorem parseEvents_cons_ok {junk : Nat → ParseType} {e : Event} {es : List Event} {ok : Bool}
    {h' : BufferReadHandler} (hr : h.step (junk es.length) e = .ok (ok, h')) :
    h.parseEvents junk (e :: es) = if ok then h'.parseEvents junk es else .ok (false, h') := by
  rw [parseEvents, hr]
  rfl

/-- Every event of a parse finds what it needs exactly if the parse fails only by copying to memory
outside. -/
theorem parseEvents_safe_iff (start : BufferReadHandler) (junk : Nat → ParseType) :
    ∀ (es : List Event) (h : BufferReadHandler),
      (∀ e, h.parseEvents junk es = .error e → e = .writeOutside) ↔
        (reading start).Meets Backed h (calls junk es)
  | [], h => iff_of_true (fun _ he => by cases he) trivial
  | e :: es, h => by
    rw [calls, System.Meets, ← step_safe_iff]
    cases hr : h.step (junk es.length) e with
    | error f =>
      rw [parseEvents_cons_error hr]
      simp [reading, hr]
    | ok r =>
      obtain ⟨ok, h'⟩ := r
      rw [parseEvents_cons_ok hr]
      cases ok with
      | false => simp [reading, hr]
      | true => simp [reading, hr, parseEvents_safe_iff start junk es h']

/-- A parse in which every event finds what it needs is refused exactly if some end does not find
its start. -/
theorem parseEvents_refused_iff (start : BufferReadHandler) (junk : Nat → ParseType) :
    ∀ (es : List Event) (h : BufferReadHandler),
      (reading start).Meets Backed h (calls junk es) →
      ((∃ h', h.parseEvents junk es = .ok (false, h')) ↔
        ¬ (reading start).Meets Matched h (calls junk es))
  | [], h, _ => iff_of_false (by rintro ⟨_, hr⟩; cases hr) fun hm => hm trivial
  | e :: es, h, hb => by
    have hsafe := (step_safe_iff (junk es.length, e)).2 hb.1
    rw [calls, System.Meets]
    cases hr : h.step (junk es.length) e with
    | error f =>
      obtain rfl := hsafe f hr
      rw [parseEvents_cons_error hr]
      simp [reading, hr, matched_of_writeOutside (c := (junk es.length, e)) hr]
    | ok r =>
      obtain ⟨ok, h'⟩ := r
      have hans := step_answer (c := (junk es.length, e)) hr
      rw [parseEvents_cons_ok hr]
      cases ok with
      | false => simp [reading, hr, ← hans]
      | true =>
        have hb' := (hb.step (t := h') (by simp [reading, hr])).2
        simp [reading, hr, ← hans, parseEvents_refused_iff start junk es h' hb']

end

/-- **What the handler makes of any text.** It pops no empty stack, uses no index out of range and
reads no short offset exactly if every event finds on the stack what it needs; and it refuses a text
that is no packet exactly if some end does not find its start. -/
theorem text_handled_iff (junk : Nat → ParseType) (start : BufferReadHandler) (es : List Event) :
    Handled junk start es ↔
      (reading start).Meets Backed start (calls junk es) ∧
      ((∃ j : Json, j.events = es) →
        PacketText es ∨ ¬ (reading start).Meets Matched start (calls junk es)) := by
  have hsafe := parseEvents_safe_iff start junk es start
  have hrefused := parseEvents_refused_iff start junk es start
  constructor
  · rintro ⟨hs, hr⟩
    refine ⟨hsafe.1 hs, fun hj => ?_⟩
    rw [or_iff_not_imp_left]
    exact fun hp => (hrefused (hsafe.1 hs)).1 (hr hj hp)
  · rintro ⟨hb, hm⟩
    exact ⟨hsafe.2 hb, fun hj hp => (hrefused hb).2 ((hm hj).resolve_left hp)⟩

/-- A text of the shape of a packet on a fresh handler: every event finds what it needs, also when
the text breaks off, and unless it copies to memory outside the text is handled. -/
theorem draft_handled (d : Draft) (hn : d.WellNamed) (hcount : d.bodies.flatten.length < 2 ^ 31)
    (buffer : UInt64) (size : Int32) {es : List Event} (hes : es <+: d.json.events)
    {junk : Nat → ParseType} (hj : junk (es.length - 1) ≠ .key) :
    let start := ({} : BufferReadHandler).setBuffer buffer size
    (reading start).Meets Backed start (calls junk es) ∧
      (es = d.json.events → start.parseEvents junk es ≠ .error .writeOutside →
        Handled junk start es) := by
  intro start
  have hsafe : ∀ e, start.parseEvents junk es = .error e → e = .writeOutside := by
    intro e he
    obtain ⟨es', hes'⟩ := hes
    cases es with
    | nil => cases he
    | cons e₀ es =>
      have hfull := parseEvents_error he es'
      rw [hes'] at hfull
      have hlen : d.json.events.length - 1 - es'.length = (e₀ :: es).length - 1 := by
        rw [← hes', List.length_append, List.length_cons]
        omega
      obtain hr | ⟨h, hr, -⟩ := d.ends_json hn hcount (fun n => junk (n - es'.length))
        (by rw [hlen]; exact hj) buffer size
      · cases hfull.symm.trans hr
        rfl
      · cases hfull.symm.trans hr
  refine ⟨(parseEvents_safe_iff start junk es start).1 hsafe, fun heq hne => ⟨hsafe, ?_⟩⟩
  subst heq
  intro _ hp
  obtain hr | ⟨h, hr, -⟩ := d.ends_json hn hcount junk hj buffer size
  · exact absurd hr hne
  · cases hf : d.follows with
    | true => exact absurd ⟨d, hn, hf, rfl⟩ hp
    | false =>
      rw [hf] at hr
      exact ⟨h, hr⟩

instance (h : BufferReadHandler) (str : Bytes) : Decidable (BackedString h str) := by
  unfold BackedString
  split
  · infer_instance
  · refine @instDecidableForall _ _ _ ?_
    split <;> infer_instance

instance (h : BufferReadHandler) : ∀ c, Decidable (Backed h c)
  | (_, .scalar (.uint _)) | (_, .endObject) | (_, .endArray) =>
    inferInstanceAs (Decidable (h.parseStack ≠ []))
  | (_, .scalar (.string str)) => inferInstanceAs (Decidable (BackedString h str))
  | (_, .startArray) => inferInstanceAs (Decidable (_ → _))
  | (_, .startObject) | (_, .key _) | (_, .scalar .null) | (_, .scalar (.bool _))
  | (_, .scalar (.int _)) | (_, .scalar (.int64 _)) | (_, .scalar (.uint64 _))
  | (_, .scalar .double) => isTrue trivial

instance (h : BufferReadHandler) : ∀ c, Decidable (Matched h c)
  | (_, .endObject) | (_, .endArray) => inferInstanceAs (Decidable (_ = _))
  | (_, .startObject) | (_, .key _) | (_, .scalar _) | (_, .startArray) => isTrue trivial

/-- A packet whose second item is `null`. -/
def nullItem : Draft where
  header := [104]
  bodies := [[([97], .string [98, 99]), ([100], .null)]]
  notes := some [{ key := [97], offset := 0, val := [118] }]

/-- `{"a": true}` and the packet with a `null` are refused, and the packet without it is taken. -/
theorem text_handled_iff_null :
    let start := ({} : BufferReadHandler).setBuffer 4096 64
    let junk : Nat → ParseType := fun _ => .array
    Handled junk start (Json.object [([97], .scalar (.bool true))]).events ∧
      Handled junk start nullItem.json.events ∧
      (∃ h, start.parseEvents junk nullItem.json.events = .ok (false, h)) := by
  intro start junk
  refine ⟨(text_handled_iff junk start _).2 ⟨by decide, fun _ => Or.inr (by decide)⟩,
    (text_handled_iff junk start _).2 ⟨by decide +kernel, fun _ => Or.inr (by decide +kernel)⟩,
    _, rfl⟩

/-- `1`, `[{"ptr_val": "x"}]` and a note without items are not handled: the first pops the empty
stack, the second reads an empty offset, the third indexes an empty table. `[null]` is accepted,
though it is no packet. -/
theorem not_handled :
    let start := ({} : BufferReadHandler).setBuffer 4096 64
    let junk : Nat → ParseType := fun _ => .array
    ¬ Handled junk start (Json.scalar (.uint 1)).events ∧
    ¬ Handled junk start (Json.array [.object [(ptrVal, .scalar (.string [120]))]]).events ∧
    ¬ Handled junk start (Json.array [Note.json ⟨[97], 0, [120]⟩]).events ∧
    ¬ Handled junk start (Json.array [.scalar .null]).events := by
  intro start junk
  refine ⟨fun hh => ?_, fun hh => ?_, fun hh => ?_, fun hh => ?_⟩
  · cases hh.safe .emptyStack rfl
  · cases hh.safe .shortRead rfl
  · cases hh.safe .badIndex rfl
  · have hno : ¬ PacketText (Json.array [.scalar .null]).events := by
      rintro ⟨d, -, -, hd⟩
      rw [Draft.events_json] at hd
      cases hd
    obtain ⟨h', hr⟩ := hh.refuses ⟨_, rfl⟩ hno
    cases hr

end JsonRpc
