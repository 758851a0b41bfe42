import Mtc.Lib.Bytes
import Mtc.Lib.Except
import Mtc.Lib.Int32

/-!
# The buffer of a packet: `FixedBuffer`

`multi_buffer.cc`, on the memory that the caller hands over. `int` is 32 bits wide and wraps.
-/

namespace JsonRpc

/-- What ends a call other than by returning. -/
inductive Fault where
  /-- A byte is copied to memory outside the buffer. -/
  | writeOutside
  /-- `top()` or `pop()` on an empty stack. -/
  | emptyStack
  /-- An index outside `object_ptrs`. -/
  | badIndex
  /-- An offset is read from a key of fewer than four bytes. -/
  | shortRead
  deriving Repr, DecidableEq

/-- `FixedBuffer`; the pointer `bytes` is the address of the memory and what is in it. -/
structure FixedBuffer where
  length : Int32 := 0
  tailOffset : Int32 := 0
  address : UInt64 := 0
  bytes : Bytes := []
  deriving Repr, DecidableEq

namespace FixedBuffer

/-- `setBuffer`, which also clears the memory. -/
def setBuffer (buffer : UInt64) (len : Int32) : FixedBuffer where
  length := len
  tailOffset := 0
  address := buffer
  bytes := Bytes.zeros len.sizeT

/-- `memcpy(bytes + offset, data, size)`. -/
def memcpy (bytes : Bytes) (offset : Int32) (data : Bytes) (size : Nat) : Except Fault Bytes :=
  if size = 0 then .ok bytes
  else if offset < 0 ∨ bytes.length < offset.toInt.toNat + size then .error .writeOutside
  else (Bytes.writeAt bytes offset.toInt.toNat (data.take size)).orError .writeOutside

def put (b : FixedBuffer) (data : Bytes) (offset size : Int32) :
    Except Fault (Bool × FixedBuffer) := do
  if offset + size > b.length then
    return (false, b)
  let tailOffset := if offset + size > b.tailOffset then offset + size else b.tailOffset
  let bytes ← memcpy b.bytes offset data size.sizeT
  return (true, { b with tailOffset := tailOffset, bytes := bytes })

/-- `append`. The result of `put` is not looked at. -/
def append (b : FixedBuffer) (data : Bytes) (size : Int32) :
    Except Fault (Int32 × FixedBuffer) := do
  let beforeAppend := b.tailOffset
  let (_, b) ← b.put data b.tailOffset size
  return (beforeAppend, b)

/-- `get_address`. -/
def getAddress (b : FixedBuffer) (offset : Int32) : UInt64 := b.address + offset.toInt64.toUInt64

end FixedBuffer

end JsonRpc
