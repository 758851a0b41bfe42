import Mtc.Lib.AssocMap
import Mtc.Lib.Bytes
import Mtc.Lib.Int32
import Mtc.Net.RwLock

/-!
# Connections: `LibeventHandle`

The connection table of `libevent_handle.cc` with the functions that send and receive on a
connection. Each function is run by one thread without interruption, so that its lock calls are
`rwRLock` and the others; what libevent does outside (whether a connect succeeds, the arrival of
bytes) is an argument.

A reference `BevInfor & info` into `bev_map` is the record itself, written back with
`AssocMap.put`.
-/

namespace Net

/-- What ends a call other than by returning. -/
inductive Fault where
  /-- A lock function that loops for ever. -/
  | spins
  /-- A read or write outside the object pointed to. -/
  | outOfBounds
  /-- `std::length_error`. -/
  | lengthError
  /-- `erase` with an iterator that is not at an element of the list. -/
  | badIterator
  /-- A value that its enumeration does not have. -/
  | badValue
  /-- A failed `assert`. -/
  | abort
  deriving Repr, DecidableEq

/-- The value, or the fault in its place. -/
def orFault {α : Type} (e : Fault) : Option α → Except Fault α
  | none => .error e
  | some a => .ok a

/-- The word `i` of an object made of 32-bit words. -/
def wordAt (bs : Bytes) (i : Nat) : Except Fault UInt32 :=
  orFault .outOfBounds (Bytes.getLe32 (bs.drop (4 * i)))

/-! ## libevent -/

/-- A `struct bufferevent`: the input buffer, everything written to the output, and the low
watermark for reading. -/
structure Bufferevent where
  input : Bytes := []
  output : Bytes := []
  readLow : Nat := 0
  deriving Repr, DecidableEq

/-- `bufferevent_read`: at most `size` bytes, and the bytes copied. -/
def Bufferevent.read (bev : Bufferevent) (size : Nat) : Bytes × Bufferevent :=
  (bev.input.take size, { bev with input := bev.input.drop size })

/-- `bufferevent_write` of `size` bytes of `data`; it fails (`false`) for a size no buffer can
grow by. -/
def Bufferevent.write (bev : Bufferevent) (data : Bytes) (size : Nat) :
    Except Fault (Bool × Bufferevent) :=
  if 2 ^ 63 ≤ size then .ok (false, bev)
  else if size ≤ data.length then
    .ok (true, { bev with output := bev.output ++ data.take size })
  else .error .outOfBounds

/-- At most `n` bytes of the output, from the `k`th on: what the connection may carry next. -/
def Bufferevent.piece (bev : Bufferevent) (k n : Nat) : Bytes := (bev.output.drop k).take n

/-! ## Records -/

/-- `struct BevInfor`; `block` is the only field of its `BufferControlBlock`. The fields a new
record leaves unset are `0` and `false`. -/
structure BevInfor where
  ip : Bytes
  port : Int32
  bev : Bufferevent := {}
  isListen : Bool
  block : Int32 := 0
  cacheBlock : Bool := false
  readSingal : Int32 := 0
  writeSingal : Int32 := 0
  deriving Repr, DecidableEq

/-- `sizeof(BufferControlBlock)`. -/
def sizeofBlock : Nat := 4

namespace BevInfor

/-- The record that `add_bufferevent_connect` makes. -/
abbrev connected (ip : Bytes) (port : Int32) : BevInfor :=
  { ip := ip, port := port, isListen := false }

/-- The record that `add_bufferevent_listen` makes. -/
abbrev accepted (ip : Bytes) (port : Int32) : BevInfor :=
  { ip := ip, port := port, isListen := true }

/-- The record whose block has been read off the input. -/
abbrev blockRead (info : BevInfor) (bev : Bufferevent) (block singal : Int32) : BevInfor :=
  { info with bev := bev, block := block, cacheBlock := true, readSingal := singal }

/-- `readBufferControlBlock_NoWait`. -/
def readBufferControlBlockNoWait (info : BevInfor) : Except Fault (Int32 × BevInfor) := do
  let singal ← orFault .spins (rwWLock info.readSingal)
  let len := Int32.ofSizeT info.bev.input.length
  if len.sizeT < sizeofBlock then
    return (0, { info with readSingal := rwWUnlock singal })
  -- the block is cleared first, so that bytes the read does not fill are 0
  let (data, bev) := info.bev.read sizeofBlock
  let block ← orFault .outOfBounds (Bytes.getLe32 (data ++ Bytes.zeros (4 - data.length)))
  return (Int32.ofSizeT data.length, info.blockRead bev block.toInt32 singal)

/-- `readBuffer_NoWait` into the buffer `data`. -/
def readBufferNoWait (info : BevInfor) (data : Bytes) :
    Except Fault (Int32 × Bytes × BevInfor) := do
  if !info.cacheBlock then
    return (-1, data, info)
  let maxSize := info.block
  let len := Int32.ofSizeT info.bev.input.length
  if len < maxSize then
    return (0, data, { info with
      readSingal := rwWUnlock info.readSingal
      bev := { info.bev with readLow := maxSize.sizeT } })
  let (bytes, bev) := { info.bev with readLow := 0 }.read maxSize.sizeT
  let data ← orFault .outOfBounds (Bytes.writeAt data 0 bytes)
  return (Int32.ofSizeT bytes.length, data,
    { info with bev := bev, cacheBlock := false, readSingal := rwWUnlock info.readSingal })

/-- `writeBufferOnce`. -/
def writeBufferOnce (info : BevInfor) (data : Bytes) (dataSize : Int32) :
    Except Fault (Bool × BevInfor) := do
  let singal ← orFault .spins (rwWLock info.writeSingal)
  let info := { info with writeSingal := rwWUnlock singal }
  let (ok, bev) ← info.bev.write (Bytes.le32 dataSize.toUInt32) sizeofBlock
  if !ok then
    return (false, info)
  let (ok, bev) ← bev.write data dataSize.sizeT
  return (ok, { info with bev := bev })

end BevInfor

/-! ## The table -/

/-- `LibeventHandle`, without the event base and its thread. -/
structure LibeventHandle where
  maxBevId : Int32 := 0
  bevMapRwLockSingal : Int32 := 0
  bevMap : AssocMap Int32 BevInfor := ∅
  listenVectorRwLockSingal : Int32 := 0
  listenIdVector : List Int32 := []
  deriving Repr

namespace LibeventHandle

/-- `rw_r_lock(bev_map_rw_lock_singal)`. -/
def rLockMap (lib : LibeventHandle) : Except Fault LibeventHandle := do
  let singal ← orFault .spins (rwRLock lib.bevMapRwLockSingal)
  return { lib with bevMapRwLockSingal := singal }

def rUnlockMap (lib : LibeventHandle) : LibeventHandle :=
  { lib with bevMapRwLockSingal := rwRUnlock lib.bevMapRwLockSingal }

/-- `add_bufferevent_connect`; `connects` is whether libevent makes the bufferevent and starts the
connect. -/
def addBuffereventConnect (lib : LibeventHandle) (ip : Bytes) (port : Int32) (connects : Bool) :
    Except Fault (Int32 × LibeventHandle) := do
  if !connects then
    return (-1, lib)
  let peer := BevInfor.connected ip port
  let peerId := lib.maxBevId
  let singal ← orFault .spins (rwWLock lib.bevMapRwLockSingal)
  return (peerId, { lib with
    maxBevId := lib.maxBevId + 1
    bevMap := lib.bevMap.assign peerId peer
    bevMapRwLockSingal := rwWUnlock singal })

/-- `try_connect`. -/
def tryConnect (lib : LibeventHandle) (ip : Bytes) (port : Int32) (connects : Bool) :
    Except Fault (Int32 × LibeventHandle) :=
  lib.addBuffereventConnect ip port connects

/-- The connection `get_connection_id` finds for an endpoint. -/
def connectionOf (lib : LibeventHandle) (ip : Bytes) (port : Int32) : Option (Int32 × BevInfor) :=
  lib.bevMap.entries.find? fun e => e.2.ip = ip && port = e.2.port

/-- `get_connection_id(ip, port, tryConnect)`. -/
def getConnectionId (lib : LibeventHandle) (ip : Bytes) (port : Int32) (tryConnect : Bool)
    (connects : Bool) : Except Fault (Int32 × LibeventHandle) := do
  let lib ← lib.rLockMap
  match lib.connectionOf ip port with
  | some (id, _) => return (id, lib.rUnlockMap)
  | none =>
    let lib := lib.rUnlockMap
    if tryConnect then lib.tryConnect ip port connects else return (-1, lib)

/-- `send`. A missing connection returns with the map's lock still held. -/
def send (lib : LibeventHandle) (connectId : Int32) (sendBytes : Bytes) (sendSize : Int32) :
    Except Fault (Bool × LibeventHandle) := do
  if connectId < 0 then
    return (false, lib)
  let lib ← lib.rLockMap
  match lib.bevMap.findKey connectId with
  | none => return (false, lib)
  | some info =>
    let lib := lib.rUnlockMap
    let (_, info) ← info.writeBufferOnce sendBytes sendSize
    return (true, { lib with bevMap := lib.bevMap.put connectId info })

/-- `get_recive_buffer_length`. -/
def getReciveBufferLength (lib : LibeventHandle) (connectId : Int32) :
    Except Fault (Int32 × LibeventHandle) := do
  let lib ← lib.rLockMap
  match lib.bevMap.findKey connectId with
  | none => return (0, lib.rUnlockMap)
  | some info =>
    let lib := lib.rUnlockMap
    let singal ← orFault .spins (rwRLock info.readSingal)
    let len := Int32.ofSizeT info.bev.input.length
    let info := { info with readSingal := rwRUnlock singal }
    return (len, { lib with bevMap := lib.bevMap.put connectId info })

/-- `buffer_str.append(size, 0)`; a negative size is larger than any string. -/
def appendZeros (bufferStr : Bytes) (size : Int32) : Except Fault Bytes :=
  if size < 0 then .error .lengthError else .ok (bufferStr ++ Bytes.zeros size.sizeT)

/-- `recive_str_NoWait`. -/
def reciveStrNoWait (lib : LibeventHandle) (connectId : Int32) (bufferStr : Bytes) :
    Except Fault (Int32 × Bytes × LibeventHandle) := do
  let lib ← lib.rLockMap
  match lib.bevMap.findKey connectId with
  | none => return (-1, bufferStr, lib.rUnlockMap)
  | some _ =>
    let lib := lib.rUnlockMap
    let (len, lib) ← lib.getReciveBufferLength connectId
    -- an `int` compared with a `size_t`
    if len.sizeT ≤ sizeofBlock then
      return (0, bufferStr, lib)
    let info ← orFault .outOfBounds (lib.bevMap.findKey connectId)
    let (_, info) ← if info.cacheBlock then .ok (0, info) else info.readBufferControlBlockNoWait
    let bufferStr ← if bufferStr.length ≤ info.block.sizeT then appendZeros bufferStr info.block
      else .ok bufferStr
    let (size, bufferStr, info) ← info.readBufferNoWait bufferStr
    return (size, bufferStr, { lib with bevMap := lib.bevMap.put connectId info })

end LibeventHandle

end Net
