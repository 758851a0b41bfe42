import Mtc.Lib.Blocks
import Mtc.Lib.Bytes
import Mtc.Lib.Int32
import Mtc.Lib.System

/-!
# A buffer that grows: `DynamicBuffer`

The other buffer of `multi_buffer.cc`: blocks of `BLOCK_SIZE` bytes, added when a `put` needs them.
`int` is 32 bits wide and wraps. `none` is a use of a block that does not exist, or a copy that
leaves a block or the caller's data.

What the buffer promises stands below the model: the slice that `get` reads (`GetsSlice`), what a
`put` leaves behind (`Stores`), the law of its size along any calls (`SizeLaw`), and the agreement
of `get_address` with `get` (`Agrees`).
-/

namespace JsonRpc

/-- `BLOCK_SIZE`. -/
def blockSize : Int32 := 1024

/-- `DynamicBuffer`, as its constructor leaves it. -/
structure DynamicBuffer where
  blocksList : List (Block UInt8 1024) := []
  tailOffsetInBlock : Int32 := 0
  deriving DecidableEq, Repr

/-- A `char *` into a block. -/
structure BlockAddress where
  block : Nat
  offset : Int32
  deriving DecidableEq, Repr

/-- The first `size` bytes of the caller's data. -/
def readData (data : Bytes) (size : Nat) : Option Bytes :=
  if size ≤ data.length then some (data.take size) else none

namespace DynamicBuffer

/-- `clear` keeps the blocks. -/
def clear (d : DynamicBuffer) : DynamicBuffer where
  blocksList := d.blocksList.map fun _ => Block.fill 0
  tailOffsetInBlock := 0

def destory (_ : DynamicBuffer) : DynamicBuffer := {}

def size (d : DynamicBuffer) : Int32 :=
  let count := Int32.ofSizeT d.blocksList.length
  let count := if count > 0 then count - 1 else count
  count * blockSize + d.tailOffsetInBlock

/-- `capacity`: a `size_t` returned as an `int`. -/
def capacity (d : DynamicBuffer) : Int32 := Int32.ofSizeT (d.blocksList.length * blockSize.sizeT)

def addBlocks (d : DynamicBuffer) (i : Int32) : DynamicBuffer :=
  { d with blocksList := d.blocksList ++ List.replicate i.toInt.toNat (Block.fill 0) }

def checkSpace (d : DynamicBuffer) (offset size : Int32) (expand : Bool) : Bool × DynamicBuffer :=
  if offset + size > d.capacity then
    if !expand then (false, d)
    else
      let require := offset + size - d.capacity
      let require := if require % blockSize = 0 then require / blockSize
        else require / blockSize + 1
      (true, d.addBlocks require)
  else (true, d)

/-- The blocks from `blocks_list.begin() + index` on. -/
def blocksFrom (d : DynamicBuffer) (index : Int32) : Option (List (Block UInt8 1024)) :=
  if 0 ≤ index ∧ index.toInt.toNat ≤ d.blocksList.length then
    some (d.blocksList.drop index.toInt.toNat)
  else none

/-! ## Writing -/

/-- The loop of `put` from `block_it` on: the blocks, and where in its block the last copy ends.
Every copy starts at the beginning of `data`. -/
def putLoop (data : Bytes) : List (Block UInt8 1024) → Int32 → Int32 →
    Option (List (Block UInt8 1024) × Option Int32)
  | [], _, size => if size = 0 then some ([], none) else none
  | block :: blocks, offset, size => do
    if size = 0 then
      return (block :: blocks, none)
    if size > blockSize - offset then
      let block ← block.write offset.sizeT (← readData data (blockSize - offset).sizeT)
      let (blocks, tail) ← putLoop data blocks 0 (size - (blockSize - offset))
      return (block :: blocks, tail)
    else
      let block ← block.write offset.sizeT (← readData data size.sizeT)
      return (block :: blocks, some (offset + size))

def put (d : DynamicBuffer) (data : Bytes) (offset size : Int32) :
    Option (Bool × DynamicBuffer) := do
  let (_, d) := d.checkSpace offset size true
  let appendByte := offset + size > d.size
  let index := offset / blockSize
  let (blocks, tail) ← putLoop data (← d.blocksFrom index) (offset % blockSize) size
  return (true, {
    blocksList := d.blocksList.take index.toInt.toNat ++ blocks
    tailOffsetInBlock := if appendByte then tail.getD d.tailOffsetInBlock
      else d.tailOffsetInBlock })

def append (d : DynamicBuffer) (data : Bytes) (dataSize : Int32) :
    Option (Int32 × DynamicBuffer) := do
  let offset := d.size
  let (_, d) ← d.put data offset dataSize
  return (offset, d)

/-! ## Reading -/

/-- `get_address`; the inner `none` is `NULL`. -/
def getAddress (d : DynamicBuffer) (offset : Int32) : Option (Option BlockAddress) := do
  if offset > d.size then
    return none
  let index := offset / blockSize
  match ← d.blocksFrom index with
  | [] => none
  | _ :: _ => return some { block := index.toInt.toNat, offset := offset % blockSize }

/-- The loop of `get` from `block_it` on: the bytes copied. -/
def getLoop : List (Block UInt8 1024) → Int32 → Int32 → Option Bytes
  | [], _, size => if size = 0 then some [] else none
  | block :: blocks, offset, size => do
    if size = 0 then
      return []
    if size > blockSize - offset then
      let piece ← block.read offset.sizeT (blockSize - offset).sizeT
      let rest ← getLoop blocks 0 (size - (blockSize - offset))
      return piece ++ rest
    else
      block.read offset.sizeT size.sizeT

/-- `get`: its result and the bytes copied to `data`. -/
def get (d : DynamicBuffer) (offset size : Int32) : Option (Bool × Bytes) := do
  if !(d.checkSpace offset size false).1 then
    return (false, [])
  let data ← getLoop (← d.blocksFrom (offset / blockSize)) (offset % blockSize) size
  return (true, data)

/-! ## Reads and writes -/

/-- The bytes of all blocks. -/
def contents (d : DynamicBuffer) : Bytes := Block.flat d.blocksList

/-- `get` copies the bytes `[offset, offset + size)` of the contents, or nothing if they end before
that. -/
def GetsSlice (d : DynamicBuffer) (offset size : Int32) : Prop :=
  d.get offset size =
    if d.contents.length < offset.toInt.toNat + size.toInt.toNat then some (false, [])
    else some (true, (d.contents.drop offset.toInt.toNat).take size.toInt.toNat)

/-- `get` returns what `put` was given; the bytes around it are as before, and new ones are 0. -/
def Stores (d : DynamicBuffer) (data : Bytes) (offset : Int32) : Prop :=
  ∃ d', d.put data offset (Int32.ofSizeT data.length) = some (true, d') ∧
    d'.get offset (Int32.ofSizeT data.length) = some (true, data) ∧
    d.contents.length ≤ d'.contents.length ∧
    ∀ i < d'.contents.length,
      i < offset.toInt.toNat ∨ offset.toInt.toNat + data.length ≤ i →
      d'.contents[i]? = if i < d.contents.length then d.contents[i]? else some 0

/-- Behind the first block that they reach, the data are what a copy from their beginning to the
beginning of each block gives. -/
def Repeats (offset : Nat) (data : Bytes) : Prop :=
  ∀ j < data.length, 1024 ≤ offset % 1024 + j → data[j]? = data[(offset + j) % 1024]?

instance (offset : Nat) (data : Bytes) : Decidable (Repeats offset data) :=
  inferInstanceAs (Decidable (∀ j < data.length, _))

/-- The capacity for `x` bytes can be reached and is still an `int`. One that has left `int` already
may come back to it. -/
def CapacityFits (d : DynamicBuffer) (x : Int) : Prop :=
  0 ≤ d.capacity.toInt ∧ x ≤ 2 ^ 31 - 1024 ∨ d.capacity.toInt < 0 ∧ x - d.capacity.toInt < 2 ^ 31

end DynamicBuffer

/-! ## The size along any calls -/

/-- A buffer. `extent` is the largest end of a write since the buffer was last emptied; it is
history. -/
structure Extended where
  buffer : DynamicBuffer := {}
  extent : Int := 0

inductive BufferOp where
  | append (data : Bytes) (dataSize : Int32)
  | put (data : Bytes) (offset size : Int32)
  | clear
  | destory
  deriving DecidableEq, Repr

namespace Extended

/-- The extent after a write. -/
def written (extent : Int) (offset size : Int32) : Int :=
  if size = 0 then extent else max extent (offset.toInt + size.toInt)

def next (s : Extended) : BufferOp → Option Extended
  | .append data dataSize => (s.buffer.append data dataSize).map fun x =>
    { buffer := x.2, extent := written s.extent x.1 dataSize }
  | .put data offset size => (s.buffer.put data offset size).map fun x =>
    { buffer := x.2, extent := written s.extent offset size }
  | .clear => some { buffer := s.buffer.clear }
  | .destory => some { buffer := s.buffer.destory }

end Extended

/-- The buffer is written to and emptied, from an empty one. -/
def buffering : System Extended BufferOp where
  init := {}
  next := Extended.next

/-- `size` is the extent, and `append` returns it. -/
structure SizeLaw (s : Extended) : Prop where
  size : s.buffer.size.toInt = s.extent
  append : ∀ data dataSize offset d',
    s.buffer.append data dataSize = some (offset, d') → offset.toInt = s.extent

/-- Offsets and sizes are not negative, their sums are `int`s, and the data have so many bytes. -/
def InIntRange (s : Extended) : BufferOp → Prop
  | .append data dataSize => 0 ≤ dataSize ∧ dataSize.toInt ≤ data.length ∧
    s.buffer.size.toInt + dataSize.toInt < 2 ^ 31
  | .put data offset size => 0 ≤ offset ∧ 0 ≤ size ∧ size.toInt ≤ data.length ∧
    offset.toInt + size.toInt < 2 ^ 31
  | .clear | .destory => True

instance (s : Extended) : ∀ op, Decidable (InIntRange s op)
  | .append _ _ => inferInstanceAs (Decidable (_ ∧ _))
  | .put _ _ _ => inferInstanceAs (Decidable (_ ∧ _))
  | .clear | .destory => isTrue trivial

/-- A write that ends at `x` adds no block (to `2 ^ 21` blocks one is added before they are full);
or it is empty and adds the first block only; or it is not, and ends, in the last of the new blocks,
no earlier than the old last block was filled (a full block that becomes the last of `2 ^ 21` makes
`size` wrap, and any end is found to be behind it). -/
def DynamicBuffer.Extends (d : DynamicBuffer) (size : Int32) (x : Int) : Prop :=
  x ≤ 1024 * min d.blocksList.length (2 ^ 21 - 1) ∨
    if size = 0 then d.blocksList.length = 0 ∧ x ≤ 1024
    else d.blocksList.length < 2 ^ 21 ∧ (d.tailOffsetInBlock.toInt ≤ (x - 1) % 1024 + 1 ∨
      d.tailOffsetInBlock.toInt = 1024 ∧ 2 ^ 31 - 1024 < x)

instance (d : DynamicBuffer) (size : Int32) (x : Int) : Decidable (d.Extends size x) :=
  inferInstanceAs (Decidable (_ ∨ _))

/-- The calls that keep the law. -/
def KeepsSize (s : Extended) : BufferOp → Prop
  | .append _ dataSize => s.buffer.Extends dataSize (s.buffer.size.toInt + dataSize.toInt)
  | .put _ offset size => s.buffer.Extends size (offset.toInt + size.toInt)
  | .clear => s.buffer.blocksList.length ≤ 1
  | .destory => True

instance (s : Extended) : ∀ op, Decidable (KeepsSize s op)
  | .append _ _ => inferInstanceAs (Decidable (DynamicBuffer.Extends _ _ _))
  | .put _ _ _ => inferInstanceAs (Decidable (DynamicBuffer.Extends _ _ _))
  | .clear => inferInstanceAs (Decidable (_ ≤ _))
  | .destory => isTrue trivial

/-! ## Addresses -/

namespace DynamicBuffer

/-- `get_address` is `NULL` where `get` of one byte fails, and otherwise the address in a block of
the byte that `get` copies. -/
def Agrees (d : DynamicBuffer) (offset : Int32) : Prop :=
  d.getAddress offset = some none ∧ d.get offset 1 = some (false, []) ∨
    ∃ a block byte, d.getAddress offset = some (some a) ∧ d.blocksList[a.block]? = some block ∧
      0 ≤ a.offset ∧ block.elems[a.offset.toInt.toNat]? = some byte ∧
      d.get offset 1 = some (true, [byte])

/-- The offset is within `size` and within `capacity`, or neither. For the last `int` the end of the
range wraps, and `get` finds it within any capacity. -/
def SameBound (d : DynamicBuffer) (offset : Int32) : Prop :=
  offset ≤ d.size ∧ (offset < d.capacity ∨ offset.toInt = 2 ^ 31 - 1) ∨
    d.size < offset ∧ d.capacity ≤ offset ∧ offset.toInt ≠ 2 ^ 31 - 1

instance (d : DynamicBuffer) (offset : Int32) : Decidable (d.SameBound offset) :=
  inferInstanceAs (Decidable (_ ∨ _))

end DynamicBuffer

end JsonRpc
