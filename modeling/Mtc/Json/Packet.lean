import Mtc.Json.Handler

/-!
# Packets: `JsonRpcPacket`

`json_rpc_packet.cc`. rapidjson's `Writer` and `Reader` are taken to round-trip keys, strings and
numbers, so that a text is the events that the `Reader` emits on it. A `const char *` without a size
is the string it points to, and one with a size the bytes.
-/

namespace JsonRpc

inductive PacketItemType where
  | first
  | normal
  | last
  | single
  deriving Repr, DecidableEq

/-- What the `Reader` emits for the number `Writer::Int` has written. -/
def Event.ofInt (i : Int32) : Event :=
  .scalar (if i < 0 then .int i else .uint i.toUInt32)

structure JsonRpcPacket where
  jsonBuffer : List Event := []
  handle : BufferReadHandler := {}

namespace JsonRpcPacket

/-- `clear_packet`; the handler keeps its state. -/
def clearPacket (p : JsonRpcPacket) : JsonRpcPacket := { p with jsonBuffer := [] }

def write (p : JsonRpcPacket) (es : List Event) : JsonRpcPacket :=
  { p with jsonBuffer := p.jsonBuffer ++ es }

/-! ## Building -/

/-- What `set_packet_header` writes. -/
def headerEvents (h : Bytes) : List Event :=
  [.startArray, .startObject, .key segmentType, .ofInt 0, .key packetHeader, .scalar (.string h),
    .endObject]

/-- `set_packet_header`. -/
def setPacketHeader (p : JsonRpcPacket) (h : Bytes) : JsonRpcPacket := p.write (headerEvents h)

/-- What `set_packet_item` writes. -/
def itemEvents (key val : Bytes) (type : PacketItemType) : List Event :=
  (if type = .first ∨ type = .single then [.startObject, .key segmentType, .ofInt 1] else []) ++
    [.key key, .scalar (.string val)] ++
    (if type = .last ∨ type = .single then [.endObject] else [])

/-- `set_packet_item`. -/
def setPacketItem (p : JsonRpcPacket) (key val : Bytes) (type : PacketItemType) : JsonRpcPacket :=
  p.write (itemEvents key val type)

/-- What `set_note_for_ptr` writes. -/
def noteEvents (itemKey : Bytes) (offset : Int32) (val : Bytes) (type : PacketItemType) :
    List Event :=
  (if type = .first ∨ type = .single then
    [.startObject, .key segmentType, .ofInt 2, .key noteArry, .startArray] else []) ++
    [.startObject, .key ptrKey, .scalar (.string itemKey), .key ptrOffset, .ofInt offset,
      .key ptrVal, .scalar (.string val), .endObject] ++
    (if type = .last ∨ type = .single then [.endArray, .endObject, .endArray] else [])

/-- `set_note_for_ptr`. -/
def setNoteForPtr (p : JsonRpcPacket) (itemKey : Bytes) (offset : Int32) (val : Bytes)
    (type : PacketItemType) : JsonRpcPacket :=
  p.write (noteEvents itemKey offset val type)

/-- `get_string_length` for a text of `chars` characters: `strlen` of all but the first, and 2. -/
def getStringLength (chars : Nat) : Int32 := Int32.ofSizeT (chars - 1 + 2)

/-! ## Parsing -/

/-- `parse`. Whether the handler has accepted the text is not looked at. -/
def parse (p : JsonRpcPacket) (junk : Nat → ParseType) (jsonStr : List Event) (buffer : UInt64)
    (size : Int32) : Except Fault JsonRpcPacket := do
  let (_, handle) ← (p.handle.setBuffer buffer size).parseEvents junk jsonStr
  return { p with handle := handle.appendTailOffset }

/-- `get_packet_item_ptr(i)`. -/
def getPacketItemPtr (p : JsonRpcPacket) (i : Int32) : Except Fault UInt64 := do
  let offset ← p.handle.objectPtr i
  return p.handle.objectBuffer.getAddress offset

/-- `get_packet_item_size(i)`. -/
def getPacketItemSize (p : JsonRpcPacket) (i : Int32) : Except Fault Int32 := do
  return (← p.handle.objectPtr (i + 1)) - (← p.handle.objectPtr i)

/-- `get_packet_item_ptr(key)`. -/
def getPacketItemPtrKey (p : JsonRpcPacket) (key : Bytes) :
    Except Fault (UInt64 × JsonRpcPacket) := do
  let (index, handle) := p.handle.nameId key
  let p := { p with handle := handle }
  return (← p.getPacketItemPtr index, p)

/-- `get_packet_item_size(key)`. -/
def getPacketItemSizeKey (p : JsonRpcPacket) (key : Bytes) :
    Except Fault (Int32 × JsonRpcPacket) := do
  let (index, handle) := p.handle.nameId key
  let p := { p with handle := handle }
  return (← p.getPacketItemSize index, p)

/-- `get_packet_header_ptr`. -/
def getPacketHeaderPtr (p : JsonRpcPacket) : Except Fault (UInt64 × JsonRpcPacket) :=
  p.getPacketItemPtrKey packetHeader

/-- `get_packet_header_size`. -/
def getPacketHeaderSize (p : JsonRpcPacket) : Except Fault (Int32 × JsonRpcPacket) :=
  p.getPacketItemSizeKey packetHeader

end JsonRpcPacket

end JsonRpc
