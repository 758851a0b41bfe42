import Mtc.Json.Buffer
import Mtc.Lib.AssocMap

/-!
# Reading a packet: `BufferReadHandler`

The handler of `json_rpc_packet.cc` for the events of rapidjson's `Reader`. A `string` or `key`
event carries its bytes, and the numbers of members and elements are left out, as no function reads
them.

A `ParseItem` that is declared but not assigned has an indeterminate `type`. `StartArray` reads it
when the stack is empty; the value it finds is the argument `junk`.
-/

namespace JsonRpc

inductive ParseType where
  | object
  | array
  | key
  | ptrKey
  | ptrOffset
  deriving Repr, DecidableEq

structure ParseItem where
  type : ParseType
  key : Bytes
  deriving Repr, DecidableEq

/-- The values that are one event. The value of a `double` is left out. -/
inductive Scalar where
  | null
  | bool (b : Bool)
  | int (i : Int32)
  | int64 (i : Int64)
  | uint (u : UInt32)
  | uint64 (u : UInt64)
  | double
  | string (str : Bytes)
  deriving Repr, DecidableEq

/-- The events of rapidjson's `Reader`. -/
inductive Event where
  | scalar (s : Scalar)
  | startObject
  | key (str : Bytes)
  | endObject
  | startArray
  | endArray
  deriving Repr, DecidableEq

/-! ## Literals -/

def ptrKey : Bytes := Bytes.ofAscii "ptr_key"

def ptrOffset : Bytes := Bytes.ofAscii "ptr_offset"

def ptrVal : Bytes := Bytes.ofAscii "ptr_val"

def segmentType : Bytes := Bytes.ofAscii "SegmentType"

def packetHeader : Bytes := Bytes.ofAscii "PacketHeader"

def noteArry : Bytes := Bytes.ofAscii "note_arry"

/-! ## The handler -/

/-- `BufferReadHandler`; the top of `parse_stack` is the head of the list. -/
structure BufferReadHandler where
  objectPtrs : List Int32 := []
  nameIdMap : AssocMap Bytes Int32 := ∅
  parseStack : List ParseItem := []
  objectBuffer : FixedBuffer := {}
  deriving Repr

namespace BufferReadHandler

def setBuffer (h : BufferReadHandler) (buffer : UInt64) (size : Int32) : BufferReadHandler :=
  { h with objectBuffer := FixedBuffer.setBuffer buffer size }

/-- `append_tail_offset`. -/
def appendTailOffset (h : BufferReadHandler) : BufferReadHandler :=
  { h with objectPtrs := h.objectPtrs ++ [h.objectBuffer.tailOffset] }

def push (h : BufferReadHandler) (item : ParseItem) : BufferReadHandler :=
  { h with parseStack := item :: h.parseStack }

/-- `top()` and `pop()`. -/
def pop (h : BufferReadHandler) : Except Fault (ParseItem × BufferReadHandler) :=
  match h.parseStack with
  | [] => .error .emptyStack
  | item :: rest => .ok (item, { h with parseStack := rest })

/-- `object_ptrs[index]`. -/
def objectPtr (h : BufferReadHandler) (index : Int32) : Except Fault Int32 :=
  if index < 0 then .error .badIndex
  else h.objectPtrs[index.toInt.toNat]?.orError .badIndex

/-- `name_id_map[key]`, which adds a missing key. -/
def nameId (h : BufferReadHandler) (key : Bytes) : Int32 × BufferReadHandler :=
  match h.nameIdMap.findKey key with
  | some index => (index, h)
  | none => (0, { h with nameIdMap := h.nameIdMap.assign key 0 })

/-- A value is appended to the buffer and entered under its key. -/
def store (h : BufferReadHandler) (key data : Bytes) : Except Fault BufferReadHandler := do
  let (offset, objectBuffer) ← h.objectBuffer.append data (Int32.ofSizeT data.length)
  let objectPtrs := h.objectPtrs ++ [offset]
  return { h with
    objectBuffer := objectBuffer
    objectPtrs := objectPtrs
    nameIdMap := h.nameIdMap.assign key (Int32.ofSizeT (objectPtrs.length - 1)) }

/-- The value of a note is appended, and its address put into the item. -/
def note (h : BufferReadHandler) (itemKey : Bytes) (ptrOffset : UInt32) (str : Bytes) :
    Except Fault BufferReadHandler := do
  let (valOffset, objectBuffer) ← h.objectBuffer.append str (Int32.ofSizeT str.length)
  let address := objectBuffer.getAddress valOffset
  let (index, h) := { h with objectBuffer := objectBuffer }.nameId itemKey
  let startOffset ← h.objectPtr index
  -- an `int` and an `unsigned` are added as `unsigned`
  let offset := (startOffset.toUInt32 + ptrOffset).toInt32
  let (_, objectBuffer) ← h.objectBuffer.put (Bytes.le64 address) offset 8
  return { h with objectBuffer := objectBuffer }

/-- `Uint`. -/
def uint (h : BufferReadHandler) (u : UInt32) : Except Fault BufferReadHandler := do
  let (item, h) ← h.pop
  if item.key = ptrOffset then
    return h.push { type := .ptrOffset, key := Bytes.le32 u }
  else if item.key = segmentType then
    return h
  else
    h.store item.key (Bytes.le32 u)

/-- `String`. -/
def string (h : BufferReadHandler) (str : Bytes) : Except Fault BufferReadHandler := do
  let (item, h) ← h.pop
  if item.key = ptrKey then
    return h.push { type := .ptrKey, key := str }
  if item.key = ptrVal then
    let (itemOffset, h) ← h.pop
    let (itemKey, h) ← h.pop
    let ptrOffset ← (Bytes.getLe32 itemOffset.key).orError .shortRead
    h.note itemKey.key ptrOffset str
  else
    h.store item.key str

/-- `Null`, `Bool` and the others. Only `Uint` and `String` have a body. -/
def scalar (h : BufferReadHandler) : Scalar → Except Fault BufferReadHandler
  | .uint u => h.uint u
  | .string str => h.string str
  | .null | .bool _ | .int _ | .int64 _ | .uint64 _ | .double => .ok h

/-- `EndObject` and `EndArray`: whether the top of the stack is the start. -/
def endOf (h : BufferReadHandler) (type : ParseType) :
    Except Fault (Bool × BufferReadHandler) := do
  let (item, h) ← h.pop
  return (item.type = type, h)

/-- `StartArray`. -/
def startArray (h : BufferReadHandler) (junk : ParseType) : Except Fault BufferReadHandler := do
  let type := match h.parseStack with
    | [] => junk
    | item :: _ => item.type
  let (_, h) ← if type = .key then h.pop else .ok ({ type := type, key := [] }, h)
  return h.push { type := .array, key := [] }

/-- One event, and whether the parse goes on. -/
def step (junk : ParseType) (h : BufferReadHandler) : Event →
    Except Fault (Bool × BufferReadHandler)
  | .scalar s => do return (true, ← h.scalar s)
  | .startObject => .ok (true, h.push { type := .object, key := [] })
  | .key str => .ok (true, h.push { type := .key, key := str })
  | .endObject => h.endOf .object
  | .startArray => do return (true, ← h.startArray junk)
  | .endArray => h.endOf .array

/-- The events of a text, up to the first that the handler refuses. `junk n` is the indeterminate
value in the call with `n` events to come. -/
def parseEvents (junk : Nat → ParseType) (h : BufferReadHandler) :
    List Event → Except Fault (Bool × BufferReadHandler)
  | [] => .ok (true, h)
  | e :: es => do
    let (ok, h) ← h.step (junk es.length) e
    if ok then parseEvents junk h es else return (false, h)

end BufferReadHandler

end JsonRpc
