import Mathlib.Algebra.GroupWithZero.Nat
import Mathlib.Logic.Function.Basic
import Mtc.Json.Packet
import Mtc.Lib.System

/-!
# What packets are for

Texts and the packet format, in the terms of `json_rpc_packet.h`; packets that are built by
well-bracketed calls; and what the buffer, the handler and the packet promise about them.
-/

namespace JsonRpc

/-! ## Texts -/

/-- A JSON value. -/
inductive Json where
  | scalar (s : Scalar)
  | array (elems : List Json)
  | object (members : List (Bytes × Json))

mutual

/-- The events of a text that is this value. On a text with an error the `Reader` emits a part of
the events of some value, up to the error. -/
def Json.events : Json → List Event
  | .scalar s => [.scalar s]
  | .array elems => .startArray :: (Json.elemEvents elems ++ [.endArray])
  | .object members => .startObject :: (Json.memberEvents members ++ [.endObject])

def Json.elemEvents : List Json → List Event
  | [] => []
  | j :: js => j.events ++ Json.elemEvents js

def Json.memberEvents : List (Bytes × Json) → List Event
  | [] => []
  | (k, j) :: ms => .key k :: (j.events ++ Json.memberEvents ms)

end

/-! ## The packet format -/

/-- A note object. -/
structure Note where
  key : Bytes
  offset : UInt32
  val : Bytes
  deriving Repr, DecidableEq

def Note.json (c : Note) : Json :=
  .object [(ptrKey, .scalar (.string c.key)), (ptrOffset, .scalar (.uint c.offset)),
    (ptrVal, .scalar (.string c.val))]

/-- A text of the shape of a packet: a header object, item objects, and a note object or none.
The values of items may be of any type. -/
structure Draft where
  header : Bytes
  bodies : List (List (Bytes × Scalar))
  notes : Option (List Note)
  deriving Repr, DecidableEq

namespace Draft

def bodyJson (body : List (Bytes × Scalar)) : Json :=
  .object ((segmentType, .scalar (.uint 1)) :: body.map fun m => (m.1, .scalar m.2))

def notesJson (notes : List Note) : Json :=
  .object [(segmentType, .scalar (.uint 2)), (noteArry, .array (notes.map Note.json))]

def json (d : Draft) : Json :=
  .array (.object [(segmentType, .scalar (.uint 0)), (packetHeader, .scalar (.string d.header))] ::
    (d.bodies.map bodyJson ++ d.notes.toList.map notesJson))

/-- The names under which values are found. -/
def names (d : Draft) : List Bytes := packetHeader :: d.bodies.flatten.map Prod.fst

/-- No item has a name that means something else, and every note is about an item. -/
structure WellNamed (d : Draft) : Prop where
  items : ∀ m ∈ d.bodies.flatten, m.1 ∉ [ptrKey, ptrOffset, ptrVal, segmentType]
  notes : ∀ notes ∈ d.notes, ∀ c ∈ notes, c.key ∈ d.names

/-- The format: the values of items are strings or unsigned numbers. -/
def follows (d : Draft) : Bool :=
  d.bodies.flatten.all fun m => match m.2 with
    | .uint _ | .string _ => true
    | _ => false

end Draft

/-! ## Packets that are built -/

/-- The arguments of `set_packet_item`. -/
structure ItemCall where
  key : Bytes
  val : Bytes
  type : PacketItemType
  deriving Repr, DecidableEq

/-- The arguments of `set_note_for_ptr`. -/
structure NoteCall where
  itemKey : Bytes
  offset : Int32
  val : Bytes
  type : PacketItemType
  deriving Repr, DecidableEq

/-- Groups `FIRST NORMAL* LAST` or `SINGLE`; whether one is open. -/
def bracketed : Bool → List PacketItemType → Bool
  | opened, [] => !opened
  | false, .first :: ts => bracketed true ts
  | false, .single :: ts => bracketed false ts
  | true, .normal :: ts => bracketed true ts
  | true, .last :: ts => bracketed false ts
  | _, _ => false

/-- One group, the part behind `FIRST`. -/
def closes : List PacketItemType → Bool
  | [.last] => true
  | .normal :: ts => closes ts
  | _ => false

/-- One group. -/
def oneGroup : List PacketItemType → Bool
  | [.single] => true
  | .first :: ts => closes ts
  | _ => false

/-- The notes that the `Writer` lets through with `depth` arrays of notes open: it fails its
assertions when a `LAST` has no array to close, and when a note follows a `LAST` or `SINGLE`, which
close one array more than the notes have. -/
def writable : Nat → List PacketItemType → Bool
  | _, [] => true
  | depth, .first :: ts => writable (depth + 1) ts
  | depth, .normal :: ts => writable depth ts
  | depth, [.last] => 0 < depth
  | _, [.single] => true
  | _, _ => false

/-- The calls that build a packet: the header, groups of items, and notes. -/
structure BuildCalls where
  header : Bytes
  items : List ItemCall
  notes : List NoteCall
  items_bracketed : bracketed false (items.map (·.type)) = true
  keys : ∀ c ∈ items, c.key ≠ ptrKey ∧ c.key ≠ ptrVal

/-- A packet with one group of notes or none. The bracket at the end of the text is written with the
last note. -/
structure PacketCalls extends BuildCalls where
  notes_group : notes = [] ∨ oneGroup (notes.map (·.type)) = true

/-- A packet with notes, so that its text is complete. -/
structure Packet extends PacketCalls where
  noted : notes ≠ []

/-- A packet with any notes that can be written. -/
structure WriterCalls extends BuildCalls where
  notes_writable : writable 0 (notes.map (·.type)) = true

namespace BuildCalls

/-- `clear_packet` and the calls. -/
def build (p : BuildCalls) (w : JsonRpcPacket) : JsonRpcPacket :=
  p.notes.foldl (fun w c => w.setNoteForPtr c.itemKey c.offset c.val c.type)
    (p.items.foldl (fun w c => w.setPacketItem c.key c.val c.type)
      (w.clearPacket.setPacketHeader p.header))

/-- The text that the calls write. -/
def text (p : BuildCalls) : List Event := (p.build {}).jsonBuffer

/-- The bytes of all values. -/
def size (p : BuildCalls) : Nat :=
  p.header.length + (p.items.map (·.val.length)).sum + (p.notes.map (·.val.length)).sum

/-- The notes about an item. -/
def notesOf (p : BuildCalls) (key : Bytes) : List NoteCall := p.notes.filter (·.itemKey = key)

def names (p : BuildCalls) : List Bytes := packetHeader :: p.items.map (·.key)

/-- The values with their keys. -/
def values (p : BuildCalls) : List (Bytes × Bytes) :=
  (packetHeader, p.header) :: p.items.map fun c => (c.key, c.val)

end BuildCalls

/-- Where in its item a note has its slot. -/
def NoteCall.slot (c : NoteCall) : Nat := c.offset.toInt.toNat

/-! ## Staying inside the buffer -/

/-- A buffer of `n` bytes, filled up to `tail_offset`. -/
structure FixedBuffer.InRange (n : Nat) (b : FixedBuffer) : Prop where
  length : b.length.toInt = n
  bytes : b.bytes.length = n
  tail_nonneg : 0 ≤ b.tailOffset.toInt
  tail_le : b.tailOffset.toInt ≤ n

/-- The handler takes events, each with the indeterminate value that it may read. -/
def reading (h : BufferReadHandler) : System BufferReadHandler (ParseType × Event) where
  init := h
  next h c := match h.step c.1 c.2 with
    | .ok (true, h') => some h'
    | _ => none

/-- The events of a text, each with the indeterminate value of its call. -/
def calls (junk : Nat → ParseType) : List Event → List (ParseType × Event)
  | [] => []
  | e :: es => (junk es.length, e) :: calls junk es

/-- The buffer is in range before and after the event, and no byte is copied to memory outside. -/
structure Contained (n : Nat) (h : BufferReadHandler) (c : ParseType × Event) : Prop where
  before : h.objectBuffer.InRange n
  inside : h.step c.1 c.2 ≠ .error .writeOutside
  after : ∀ ok h', h.step c.1 c.2 = .ok (ok, h') → h'.objectBuffer.InRange n

/-- Appending `len` bytes does not overflow an `int`. -/
def AppendFits (b : FixedBuffer) (len : Nat) : Prop :=
  0 ≤ (Int32.ofSizeT len).toInt ∧ b.tailOffset.toInt + (Int32.ofSizeT len).toInt < 2 ^ 31

/-- The slot of a note ends below the limit of `int`, or it starts so closely before the buffer that
its end is behind it. -/
def SlotFits (n : Nat) (startOffset : Int32) (ptrOffset : UInt32) : Prop :=
  (startOffset.toUInt32 + ptrOffset).toNat + 8 < 2 ^ 31 ∨
    2 ^ 32 + n < (startOffset.toUInt32 + ptrOffset).toNat + 8

/-- The sizes and the offset that an event brings stay within `int`. -/
def Fits (n : Nat) (h : BufferReadHandler) : Event → Prop
  | .scalar (.uint _) => ∀ item rest, h.parseStack = item :: rest →
    item.key = ptrOffset ∨ item.key = segmentType ∨ AppendFits h.objectBuffer 4
  | .scalar (.string str) => ∀ item rest, h.parseStack = item :: rest → item.key ≠ ptrKey →
    (item.key ≠ ptrVal → AppendFits h.objectBuffer str.length) ∧
    (item.key = ptrVal → ∀ itemOffset itemKey rest' ptrOffset,
      rest = itemOffset :: itemKey :: rest' → Bytes.getLe32 itemOffset.key = some ptrOffset →
      AppendFits h.objectBuffer str.length ∧ ∀ startOffset,
        h.objectPtr (h.nameId itemKey.key).1 = .ok startOffset →
        SlotFits n startOffset ptrOffset)
  | _ => True

/-! ## Texts that are handled -/

/-- The text of a packet that follows the format. -/
def PacketText (es : List Event) : Prop :=
  ∃ d : Draft, d.WellNamed ∧ d.follows = true ∧ d.json.events = es

/-- Nothing is popped from an empty stack, no index is out of range and no offset is too short; only
a copy to memory outside may end the parse. A text that does not follow the format is refused. -/
structure Handled (junk : Nat → ParseType) (h : BufferReadHandler) (es : List Event) : Prop where
  safe : ∀ e, h.parseEvents junk es = .error e → e = .writeOutside
  refuses : (∃ j : Json, j.events = es) → ¬ PacketText es →
    ∃ h', h.parseEvents junk es = .ok (false, h')

/-- What `String` needs on the stack. For a note that is the offset and the key of its item, whose
number is looked up once the value is copied. -/
def BackedString (h : BufferReadHandler) (str : Bytes) : Prop :=
  match h.parseStack with
  | [] => False
  | item :: rest => item.key = ptrVal →
    match rest with
    | itemOffset :: itemKey :: _ => 4 ≤ itemOffset.key.length ∧
      ((h.objectBuffer.append str (Int32.ofSizeT str.length)).isOk = true →
        0 ≤ (h.nameId itemKey.key).1.toInt ∧
          (h.nameId itemKey.key).1.toInt.toNat < h.objectPtrs.length)
    | _ => False

/-- What an event needs on the stack. -/
def Backed (h : BufferReadHandler) : ParseType × Event → Prop
  | (_, .scalar (.uint _)) | (_, .endObject) | (_, .endArray) => h.parseStack ≠ []
  | (_, .scalar (.string str)) => BackedString h str
  | (junk, .startArray) => h.parseStack = [] → junk ≠ .key
  | _ => True

/-- An end finds its start on the stack. -/
def Matched (h : BufferReadHandler) : ParseType × Event → Prop
  | (_, .endObject) => h.parseStack.head?.map (·.type) = some .object
  | (_, .endArray) => h.parseStack.head?.map (·.type) = some .array
  | _ => True

/-! ## The round trip -/

/-- The pointer is to `val` in the buffer, except that the slot of each note holds the address of a
copy of its value. -/
def FixedBuffer.Shows (b : FixedBuffer) (ptr : UInt64) (val : Bytes) (notes : List NoteCall) :
    Prop :=
  ∃ off : Nat, ptr = b.address + UInt64.ofNat off ∧ off + val.length ≤ b.bytes.length ∧
    (∀ j < val.length, (∀ c ∈ notes, j < c.slot ∨ c.slot + 8 ≤ j) →
      b.bytes[off + j]? = val[j]?) ∧
    ∀ c ∈ notes, ∃ a : Nat,
      (b.bytes.drop (off + c.slot)).take 8 = Bytes.le64 (b.address + UInt64.ofNat a) ∧
      a + c.val.length ≤ b.bytes.length ∧ (b.bytes.drop a).take c.val.length = c.val

/-- The handler accepts the text of the packet and its stack is empty again; the header and the
items are found by their keys and by their numbers. -/
def RoundTrips (p : Packet) (junk : Nat → ParseType) (buffer : UInt64) (size : Int32) : Prop :=
  ∃ (h : BufferReadHandler) (q : JsonRpcPacket),
    (({} : BufferReadHandler).setBuffer buffer size).parseEvents junk p.text = .ok (true, h) ∧
    h.parseStack = [] ∧ ({} : JsonRpcPacket).parse junk p.text buffer size = .ok q ∧
    (∃ ptr, q.getPacketHeaderPtr = .ok (ptr, q) ∧ q.getPacketItemPtr 0 = .ok ptr ∧
      q.handle.objectBuffer.Shows ptr p.header []) ∧
    ∀ (i : Nat) (c : ItemCall), p.items[i]? = some c →
      ∃ ptr, q.getPacketItemPtrKey c.key = .ok (ptr, q) ∧
      (∀ k : Int32, k.toInt = i + 1 → q.getPacketItemPtr k = .ok ptr) ∧
      q.handle.objectBuffer.Shows ptr c.val (p.notesOf c.key)

/-! ## Reuse -/

/-- The end of the buffer's contents after a copy of `len` bytes, if they fit. -/
def place (n tail len : Nat) : Nat := if tail + len ≤ n then tail + len else tail

/-- Where the values of a packet go in a buffer of `n` bytes. -/
structure Layout where
  offsets : List Nat := []
  index : Bytes → Option Nat := fun _ => none
  tail : Nat := 0

namespace Layout

/-- The size of a value as an `int`. -/
def intSize (v : Bytes) : Nat := v.length % 2 ^ 32

def value (n : Nat) (l : Layout) (key v : Bytes) : Layout where
  offsets := l.offsets ++ [l.tail]
  index := Function.update l.index key (some l.offsets.length)
  tail := place n l.tail (intSize v)

/-- The offset of a name; a name that is not there is taken for the header. -/
def start (l : Layout) (key : Bytes) : Nat := l.offsets.getD ((l.index key).getD 0) 0

/-- The `ptr_offset` that is read for an offset. A negative one is no event of the handler's, and
the first bytes of the key are read in its place. -/
def ptrOffset (offset : Int32) : UInt32 :=
  if offset < 0 then 0x5f727470 else offset.toUInt32

/-- The value of a note is placed, and its slot may end behind everything. -/
def note (n : Nat) (l : Layout) (c : NoteCall) : Layout :=
  let tail := place n l.tail (intSize c.val)
  let slot := (l.start c.itemKey + (ptrOffset c.offset).toNat) % 2 ^ 32
  { l with tail := if slot + 8 ≤ n then max tail (slot + 8) else tail }

/-- The slot of a note: `start_offset + ptr_offset`, as an `unsigned`. -/
def slot (l : Layout) (c : NoteCall) : Nat :=
  (l.start c.itemKey + (ptrOffset c.offset).toNat) % 2 ^ 32

/-- A value that is stored or refused, but not copied outside: the size and the end are `int`s. -/
def Admits (l : Layout) (v : Bytes) : Prop := l.tail + intSize v < 2 ^ 31

/-- A note whose value and whose address are not copied outside. -/
def AdmitsNote (n : Nat) (l : Layout) (c : NoteCall) : Prop :=
  l.Admits c.val ∧ (l.slot c + 8 < 2 ^ 31 ∨ 2 ^ 32 + n < l.slot c + 8)

instance (l : Layout) (v : Bytes) : Decidable (l.Admits v) :=
  inferInstanceAs (Decidable (_ < _))

instance (n : Nat) (l : Layout) (c : NoteCall) : Decidable (l.AdmitsNote n c) :=
  inferInstanceAs (Decidable (_ ∧ _))

def AdmitsItems (n : Nat) : Layout → List ItemCall → Prop
  | _, [] => True
  | l, c :: items => l.Admits c.val ∧ AdmitsItems n (l.value n c.key c.val) items

def AdmitsNotes (n : Nat) : Layout → List NoteCall → Prop
  | _, [] => True
  | l, c :: notes => l.AdmitsNote n c ∧ AdmitsNotes n (l.note n c) notes

instance decidableAdmitsItems (n : Nat) :
    ∀ (l : Layout) (items : List ItemCall), Decidable (l.AdmitsItems n items)
  | _, [] => isTrue trivial
  | l, c :: items =>
    have := decidableAdmitsItems n (l.value n c.key c.val) items
    inferInstanceAs (Decidable (_ ∧ _))

instance decidableAdmitsNotes (n : Nat) :
    ∀ (l : Layout) (notes : List NoteCall), Decidable (l.AdmitsNotes n notes)
  | _, [] => isTrue trivial
  | l, c :: notes =>
    have := decidableAdmitsNotes n (l.note n c) notes
    inferInstanceAs (Decidable (_ ∧ _))

end Layout

namespace BuildCalls

/-- Where the header and the items go. -/
def layout (p : BuildCalls) (n : Nat) : Layout :=
  p.items.foldl (fun l c => l.value n c.key c.val) (({} : Layout).value n packetHeader p.header)

/-- Where everything goes. -/
def notedLayout (p : BuildCalls) (n : Nat) : Layout := p.notes.foldl (Layout.note n) (p.layout n)

/-- The offset table of the packet: the header, the items, and the end. -/
def table (p : BuildCalls) (n : Nat) : List Int32 :=
  ((p.notedLayout n).offsets ++ [(p.notedLayout n).tail]).map Int32.ofSizeT

/-- Nothing of the packet is copied outside a buffer of `n` bytes. -/
structure Admitted (p : BuildCalls) (n : Nat) : Prop where
  header : ({} : Layout).Admits p.header
  items : (({} : Layout).value n packetHeader p.header).AdmitsItems n p.items
  notes : (p.layout n).AdmitsNotes n p.notes

end BuildCalls

/-- What a packet answers, each question asked of the same packet. -/
inductive Query where
  | headerPtr
  | headerSize
  | itemPtr (i : Int32)
  | itemSize (i : Int32)
  | itemPtrKey (key : Bytes)
  | itemSizeKey (key : Bytes)
  deriving Repr, DecidableEq

/-- An address or a size. -/
def JsonRpcPacket.answer (q : JsonRpcPacket) : Query → Except Fault (UInt64 ⊕ Int32)
  | .headerPtr => do return .inl (← q.getPacketHeaderPtr).1
  | .headerSize => do return .inr (← q.getPacketHeaderSize).1
  | .itemPtr i => do return .inl (← q.getPacketItemPtr i)
  | .itemSize i => do return .inr (← q.getPacketItemSize i)
  | .itemPtrKey key => do return .inl (← q.getPacketItemPtrKey key).1
  | .itemSizeKey key => do return .inr (← q.getPacketItemSizeKey key).1

/-! ## Sizes -/

/-- The answer is this size. -/
def JsonRpcPacket.AnswersSize (q : JsonRpcPacket) (query : Query) (n : Nat) : Prop :=
  ∃ k : Int32, q.answer query = .ok (.inr k) ∧ k.toInt = n

/-- A fresh object that has parsed the text has the size of the header, and that of every item by
its key and by its number. -/
def PacketCalls.SizesSurvive (p : PacketCalls) (junk : Nat → ParseType) (buffer : UInt64)
    (size : Int32) : Prop :=
  ∃ q, ({} : JsonRpcPacket).parse junk p.text buffer size = .ok q ∧
    q.AnswersSize .headerSize p.header.length ∧
    ∀ (i : Nat) (c : ItemCall), p.items[i]? = some c →
      q.AnswersSize (.itemSizeKey c.key) c.val.length ∧
      ∀ k : Int32, k.toInt = i + 1 → q.AnswersSize (.itemSize k) c.val.length

/-- A note that leaves the end of the contents where it is: its value is empty, and its slot ends
no later than they do, or behind the buffer, where `put` refuses it. -/
def Layout.Quiet (n : Nat) (l : Layout) (c : NoteCall) : Prop :=
  c.val = [] ∧ (l.slot c + 8 ≤ l.tail ∨
    n < l.slot c + 8 ∧ (l.slot c + 8 < 2 ^ 31 ∨ 2 ^ 32 + n < l.slot c + 8))

instance (n : Nat) (l : Layout) (c : NoteCall) : Decidable (l.Quiet n c) :=
  inferInstanceAs (Decidable (_ ∧ _))

/-! ## The length of the text -/

/-- What rapidjson's `Writer` puts out at least for an event: the bytes of a string or key with its
quotes, the colon behind a key, and one character for anything else. -/
def Event.minChars : Event → Nat
  | .scalar (.string str) => str.length + 2
  | .key str => str.length + 3
  | _ => 1

def minChars (es : List Event) : Nat := (es.map Event.minChars).sum

/-- `append` stores the data. -/
def FixedBuffer.Appends (b : FixedBuffer) (data : Bytes) : Prop :=
  ∃ b', b.put data b.tailOffset (Int32.ofSizeT data.length) = .ok (true, b')

namespace BufferReadHandler

/-- The address of the value of a note is stored in its item. -/
def Patches (h : BufferReadHandler) (itemKey : Bytes) (ptrOffset : UInt32) (str : Bytes) : Prop :=
  ∃ valOffset b startOffset b',
    h.objectBuffer.append str (Int32.ofSizeT str.length) = .ok (valOffset, b) ∧
    h.objectPtr (h.nameId itemKey).1 = .ok startOffset ∧
    b.put (Bytes.le64 (b.getAddress valOffset)) (startOffset.toUInt32 + ptrOffset).toInt32 8 =
      .ok (true, b')

/-- No copy that the event makes is rejected. -/
def RejectsNone (h : BufferReadHandler) : Event → Prop
  | .scalar (.uint u) => ∀ item rest, h.parseStack = item :: rest → item.key ≠ ptrOffset →
    item.key ≠ segmentType → h.objectBuffer.Appends (Bytes.le32 u)
  | .scalar (.string str) => ∀ item rest, h.parseStack = item :: rest → item.key ≠ ptrKey →
    h.objectBuffer.Appends str ∧ (item.key = ptrVal → ∀ itemOffset itemKey rest' ptrOffset,
      rest = itemOffset :: itemKey :: rest' → Bytes.getLe32 itemOffset.key = some ptrOffset →
      h.Patches itemKey.key ptrOffset str)
  | _ => True

/-- The handler takes all the events and rejects no copy. -/
def TakesTo (junk : Nat → ParseType) (h : BufferReadHandler) :
    List Event → BufferReadHandler → Prop
  | [], h' => h' = h
  | e :: es, h' => h.RejectsNone e ∧
    ∃ h₁, h.step (junk es.length) e = .ok (true, h₁) ∧ h₁.TakesTo junk es h'

end BufferReadHandler

namespace WriterCalls

/-- A fresh object parses the text into a buffer of this size, and rejects nothing. -/
def Suffices (p : WriterCalls) (junk : Nat → ParseType) (buffer : UInt64) (size : Int32) : Prop :=
  (∃ q, ({} : JsonRpcPacket).parse junk p.text buffer size = .ok q) ∧
    ∃ h, (({} : BufferReadHandler).setBuffer buffer size).TakesTo junk p.text h

/-- The sizes of values are `int`s. -/
structure IntSizes (p : WriterCalls) : Prop where
  header : p.header.length < 2 ^ 31
  items : ∀ c ∈ p.items, c.val.length < 2 ^ 31
  notes : ∀ c ∈ p.notes, c.val.length < 2 ^ 31

/-- Every item that a note is about has a number that is not negative as an `int`. -/
def Numbered (p : WriterCalls) : Prop :=
  ∀ c ∈ p.notes, ∀ (i : Nat) (d : ItemCall), p.items[i]? = some d → d.key = c.itemKey →
    (i + 1) % 2 ^ 32 < 2 ^ 31

end WriterCalls

/-! ## Many packets -/

/-- A packet with the buffer that it is parsed into, and the indeterminate values that are read. -/
structure Parse where
  packet : PacketCalls
  junk : Nat → ParseType
  buffer : UInt64
  size : Int32
  size_nonneg : 0 ≤ size

/-- The packet is built and parsed on the object. -/
def Parse.run (r : Parse) (w : JsonRpcPacket) : Except Fault JsonRpcPacket :=
  let w := r.packet.build w
  w.parse r.junk w.jsonBuffer r.buffer r.size

/-- Packets are built and parsed one after the other on one object. -/
def Parse.runAll (rs : List Parse) : Except Fault JsonRpcPacket :=
  rs.foldlM (fun w r => r.run w) {}

/-- A fresh object, with indeterminate values of its own, and the object both parse the packet, and
everything that the fresh one then answers, the object answers too. -/
def SameAnswers (r : Parse) (junk : Nat → ParseType) (w : JsonRpcPacket) : Prop :=
  ∃ f q, ({ r with junk } : Parse).run {} = .ok f ∧ r.run w = .ok q ∧
    ∀ query x, f.answer query = .ok x → q.answer query = .ok x

/-- Neither object reads `KEY` where its stack is empty, and the packet stays in its buffer. The
offsets that the object holds from earlier packets begin like the table of this one, every name
that this one lacks is that of a value like its header, and the numbers stay within `int`. -/
structure Reusable (r : Parse) (junk : Nat → ParseType) (w : JsonRpcPacket) : Prop where
  fresh : junk (r.packet.text.length - 1) ≠ .key
  used : w.handle.parseStack = [] → r.junk (r.packet.text.length - 1) ≠ .key
  admitted : r.packet.Admitted r.size.sizeT
  count : w.handle.objectPtrs.length + (r.packet.items.length + 2) ≤ 2 ^ 31
  table : r.packet.table r.size.sizeT <+: w.handle.objectPtrs ++ r.packet.table r.size.sizeT
  stale : ∀ key index, w.handle.nameIdMap.findKey key = some index → key ∉ r.packet.names →
    w.handle.objectPtrs[index.toInt.toNat]? = (r.packet.table r.size.sizeT)[0]? ∧
      w.handle.objectPtrs[index.toInt.toNat + 1]? = (r.packet.table r.size.sizeT)[1]?

end JsonRpc
