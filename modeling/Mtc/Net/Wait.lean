import Mtc.Lib.Framing
import Mtc.Lib.System
import Mtc.Net.Libevent

/-!
# Blocking receives

`wait_recive` and `recive_str_Wait` of `libevent_handle.cc`, beside `recive_str_NoWait` on one
connection (`line`). A blocking call waits twice, for a header and for the bytes it announces; each
look at the input buffer is a step, and bytes may arrive between them. The connection is used by
one call at a time.
-/

namespace Net

namespace BevInfor

/-- The loop of `readBufferControlBlock_Wait` with the lock held; `none` when it sleeps. -/
def readBufferControlBlockWait (info : BevInfor) : Except Fault (Option (Int32 × BevInfor)) := do
  let len := Int32.ofSizeT info.bev.input.length
  if len.sizeT < sizeofBlock then
    return none
  -- as in `readBufferControlBlock_NoWait`
  let (data, bev) := info.bev.read sizeofBlock
  let block ← orFault .outOfBounds (Bytes.getLe32 (data ++ Bytes.zeros (4 - data.length)))
  return some (Int32.ofSizeT data.length,
    { info with bev := bev, block := block.toInt32, cacheBlock := true })

/-- The loop of `readBuffer_Wait` into the buffer `data`; `none` when it sleeps. -/
def readBufferWait (info : BevInfor) (data : Bytes) :
    Except Fault (Option (Int32 × Bytes × BevInfor)) := do
  if !info.cacheBlock then
    return some (-1, data, info)
  let maxSize := info.block
  let len := Int32.ofSizeT info.bev.input.length
  if len < maxSize then
    return none
  let (bytes, bev) := info.bev.read maxSize.sizeT
  let data ← orFault .outOfBounds (Bytes.writeAt data 0 bytes)
  return some (Int32.ofSizeT bytes.length, data,
    { info with bev := bev, cacheBlock := false, readSingal := rwWUnlock info.readSingal })

end BevInfor

/-- The buffer of a blocking call: the string of `recive_str_Wait`, or the memory that
`wait_recive` is given. -/
inductive WaitBuffer where
  | str (bufferStr : Bytes)
  | raw (reciveBytes : Bytes)
  deriving Repr, DecidableEq

/-- The buffer that `readBuffer_Wait` is given, for a header with this size. -/
def WaitBuffer.data (size : Int32) : WaitBuffer → Except Fault Bytes
  | str bufferStr =>
    if bufferStr.length ≤ size.sizeT then LibeventHandle.appendZeros bufferStr size
    else .ok bufferStr
  | raw reciveBytes => .ok reciveBytes

/-- Where the blocking call on a connection is. -/
inductive Phase where
  /-- There is none. -/
  | free
  /-- In `readBufferControlBlock_Wait`. -/
  | block (buffer : WaitBuffer)
  /-- In `readBuffer_Wait`. -/
  | body (data : Bytes)
  deriving Repr, DecidableEq

/-- A host that receives on a connection, with the payloads of its successful calls. -/
structure Line where
  lib : LibeventHandle
  phase : Phase := .free
  returned : List Bytes := []

inductive LineOp where
  | arrive (bytes : Bytes)
  | reciveStrNoWait (bufferStr : Bytes)
  /-- `recive_str_Wait` or `wait_recive` is called. -/
  | startWait (buffer : WaitBuffer)
  /-- The blocking call looks at the input buffer. -/
  | poll
  deriving Repr, DecidableEq

namespace Line

/-- The line after a call has returned `size` with `data` in the buffer. -/
def answer (s : Line) (lib : LibeventHandle) (size : Int32) (data : Bytes) : Line where
  lib := lib
  phase := .free
  returned := if size > 0 then s.returned ++ [data.take size.sizeT] else s.returned

/-- The line with the record of the connection replaced. -/
def putInfo (s : Line) (id : Int32) (info : BevInfor) (phase : Phase) : Line :=
  { s with lib := { s.lib with bevMap := s.lib.bevMap.put id info }, phase := phase }

def arrive (s : Line) (id : Int32) (bytes : Bytes) : Except Fault Line := do
  let info ← orFault .outOfBounds (s.lib.bevMap.findKey id)
  return s.putInfo id { info with bev := { info.bev with input := info.bev.input ++ bytes } }
    s.phase

/-- A blocking call up to its first look at the input. -/
def startWait (s : Line) (id : Int32) (buffer : WaitBuffer) : Except Fault Line := do
  let lib ← s.lib.rLockMap
  match lib.bevMap.findKey id with
  | none => return s.answer lib.rUnlockMap (-1) []
  | some info =>
    let singal ← orFault .spins (rwWLock info.readSingal)
    return { s with lib := lib.rUnlockMap }.putInfo id { info with readSingal := singal }
      (.block buffer)

def poll (s : Line) (id : Int32) : Except Fault Line := do
  let info ← orFault .outOfBounds (s.lib.bevMap.findKey id)
  match s.phase with
  | .free => return s
  | .block buffer =>
    match ← info.readBufferControlBlockWait with
    | none => return s
    | some (_, info) =>
      let data ← buffer.data info.block
      return s.putInfo id info (.body data)
  | .body data =>
    match ← info.readBufferWait data with
    | none => return s
    | some (size, data, info) =>
      return s.answer { s.lib with bevMap := s.lib.bevMap.put id info } size data

/-- What happens on the connection; a call starts when no other is running. -/
def next (id : Int32) (s : Line) : LineOp → Option Line
  | .arrive bytes => (s.arrive id bytes).toOption
  | .reciveStrNoWait bufferStr =>
    if s.phase = .free then
      match s.lib.reciveStrNoWait id bufferStr with
      | .ok (size, data, lib) => some (s.answer lib size data)
      | .error _ => none
    else none
  | .startWait buffer => if s.phase = .free then (s.startWait id buffer).toOption else none
  | .poll => (s.poll id).toOption

end Line

/-- The connection `id` of a host. -/
def line (id : Int32) (lib : LibeventHandle) : System Line LineOp where
  init := { lib := lib }
  next := Line.next id

/-- The bytes that arrive. -/
def LineOp.arrivals (ops : List LineOp) : Bytes :=
  ops.flatMap fun
    | .arrive bytes => bytes
    | _ => []

/-- A blocking call starts only when no header is cached. -/
def Uncached (id : Int32) (s : Line) : LineOp → Prop
  | .startWait _ => (s.lib.bevMap.findKey id).map BevInfor.cacheBlock ≠ some true
  | _ => True

instance (id : Int32) (s : Line) : ∀ op : LineOp, Decidable (Uncached id s op)
  | .startWait _ => inferInstanceAs (Decidable (_ ≠ _))
  | .arrive _ | .reciveStrNoWait _ | .poll => isTrue trivial

/-- Bytes arrive, or `recive_str_NoWait` is called. -/
def LineOp.NoWait : LineOp → Prop
  | .arrive _ | .reciveStrNoWait _ => True
  | .startWait _ | .poll => False

instance : ∀ op : LineOp, Decidable op.NoWait
  | .arrive _ | .reciveStrNoWait _ => isTrue trivial
  | .startWait _ | .poll => isFalse not_false

/-- `recive_str_NoWait` sees the whole payload: there are more bytes than a header has, be it cached
or not, and those of the payload. Both lengths are `int`s. -/
def BevInfor.Sees (info : BevInfor) (payload : Bytes) : Prop :=
  let len := info.bev.input.length
  let body := if info.cacheBlock then len else len - sizeofBlock
  sizeofBlock < len % 2 ^ 32 ∧ body % 2 ^ 32 < 2 ^ 31 ∧ payload.length ≤ body % 2 ^ 32

instance (info : BevInfor) (payload : Bytes) : Decidable (info.Sees payload) :=
  inferInstanceAs (Decidable (_ ∧ _ ∧ _))

/-- The payloads are sent on a connection, one after the other. -/
def LibeventHandle.sendAll (lib : LibeventHandle) (id : Int32) :
    List Bytes → Except Fault LibeventHandle
  | [] => return lib
  | payload :: payloads => do
    let (_, lib) ← lib.send id payload (Int32.ofSizeT payload.length)
    lib.sendAll id payloads

/-- A payload behind its size, as `writeBufferOnce` sends it. -/
def sized (payload : Bytes) : Bytes := Bytes.le32 (UInt32.ofNat payload.length) ++ payload

end Net
