import Mtc.Net.Libevent

/-!
# Messages: `EventMessage`

A message of `event_mess_handle.h` with its encoding (`init_buffer_str`) and decoding
(`init_message_ptr`). Its names and payload are pointers: into memory of the caller before it is
sent, and into its own `buffer_str` after it has been received.
-/

namespace Net

/-- A `const char *` field of a message. -/
inductive CharPtr where
  | null
  /-- Into memory outside the message; the bytes from there to the end of the object. -/
  | mem (bytes : Bytes)
  /-- Into the message's `buffer_str`. -/
  | buf (offset : UInt32)
  deriving Repr, DecidableEq

namespace CharPtr

/-- The bytes from the pointer to the end of the object it points into. `buffer_str.c_str()` has
one `'\0'` more than the string. -/
def target (bufferStr : Bytes) : CharPtr → Bytes
  | null => []
  | mem bytes => bytes
  | buf offset => (bufferStr ++ [0]).drop offset.toNat

/-- The string pointed to. -/
def str (p : CharPtr) (bufferStr : Bytes) : Except Fault Bytes :=
  orFault .outOfBounds (p.target bufferStr).cstr

/-- The `n` bytes pointed to. -/
def bytes (p : CharPtr) (bufferStr : Bytes) (n : Nat) : Except Fault Bytes :=
  if n ≤ (p.target bufferStr).length then .ok ((p.target bufferStr).take n)
  else .error .outOfBounds

/-- The pointer once `buffer_str` has been rebuilt: one into the old buffer points nowhere. -/
def rebuilt : CharPtr → CharPtr
  | buf _ => null
  | p => p

end CharPtr

/-- `MessageError::EventMessageErrorNo`. -/
inductive EventMessageErrorNo where
  | success
  | incompleteMessage
  | groupNotFound
  | messTypeNotFound
  | noneUnprocessedMessage
  | invalidHost
  | noneRequestedMessage
  deriving Repr, DecidableEq

/-- `EventMessage`, as `clear` leaves it. The private `cursor` is always the start of
`buffer_str`. -/
structure EventMessage where
  groupName : CharPtr := .null
  messType : CharPtr := .null
  sendHostName : CharPtr := .null
  reciveHostName : CharPtr := .null
  message : CharPtr := .null
  messageSize : UInt32 := 0
  errorNo : EventMessageErrorNo := .success
  willSend : Bool := false
  willRecive : Bool := false
  bufferStr : Bytes := []
  bufferSize : UInt32 := 0
  deriving Repr, DecidableEq

namespace EventMessage

/-- `prepare_send`. -/
def prepareSend (m : EventMessage) (groupName messType reciveHostName message : CharPtr)
    (messageSize : UInt32) : EventMessage :=
  { m with groupName, messType, reciveHostName, message, messageSize
           errorNo := .success, willSend := true, willRecive := false }

/-- `prepare_recive`. -/
def prepareRecive (m : EventMessage) (groupName messType : CharPtr) : EventMessage :=
  { m with groupName, messType, willSend := false, willRecive := true }

/-! ## Encoding -/

/-- `sizeof(EventMessageCursor)`: six `uint32_t`. -/
def sizeofCursor : Nat := 24

/-- Write the word `field` of the `EventMessageCursor` at the start of the buffer. -/
def setCursor (buffer : Bytes) (field : Nat) (value : UInt32) : Except Fault Bytes :=
  orFault .outOfBounds (buffer.writeAt (4 * field) (Bytes.le32 value))

/-- One name of `init_buffer_str`: its offset goes to the cursor's word `field`, and the string
with its `'\0'` to the end of the buffer. -/
def appendName (name : CharPtr) (field : Nat) (buffer : Bytes × UInt32) :
    Except Fault (Bytes × UInt32) := do
  let (bufferStr, bufferSize) := buffer
  let s ← name.rebuilt.str []
  let bufferStr ← setCursor bufferStr field bufferSize
  let bufferStr := bufferStr ++ Bytes.zeros (s.length + 1)
  let bufferStr ← orFault .outOfBounds (bufferStr.writeAt bufferSize.toNat s)
  return (bufferStr, bufferSize + UInt32.ofNat (s.length + 1))

/-- `init_buffer_str`. -/
def initBufferStr (m : EventMessage) : Except Fault EventMessage := do
  let buffer := (Bytes.zeros sizeofCursor, UInt32.ofNat sizeofCursor)
  let buffer ← appendName m.groupName 0 buffer
  let buffer ← appendName m.messType 1 buffer
  let buffer ← appendName m.sendHostName 2 buffer
  let buffer ← appendName m.reciveHostName 3 buffer
  let (bufferStr, bufferSize) := buffer
  let bufferStr ← setCursor bufferStr 4 bufferSize
  let bufferStr ← setCursor bufferStr 5 m.messageSize
  let bufferStr := bufferStr ++ Bytes.zeros m.messageSize.toNat
  let payload ← m.message.rebuilt.bytes [] m.messageSize.toNat
  let bufferStr ← orFault .outOfBounds (bufferStr.writeAt bufferSize.toNat payload)
  return { m with bufferStr := bufferStr, bufferSize := bufferSize + m.messageSize }

/-! ## Decoding -/

/-- `init_message_ptr`; the cursor is at the start of `buffer_str`. -/
def initMessagePtr (m : EventMessage) : Except Fault EventMessage := do
  if m.bufferSize.toNat ≤ sizeofCursor then
    return m
  return { m with
    groupName := .buf (← wordAt m.bufferStr 0)
    messType := .buf (← wordAt m.bufferStr 1)
    sendHostName := .buf (← wordAt m.bufferStr 2)
    reciveHostName := .buf (← wordAt m.bufferStr 3)
    message := .buf (← wordAt m.bufferStr 4)
    messageSize := ← wordAt m.bufferStr 5 }

/-- The message that `read_callback_message_from_libevent` makes of the bytes of a frame. Their
number is read as an `int`; a string is not resized by a negative one. -/
def ofFrame (bufferStr : Bytes) : Except Fault EventMessage :=
  if bufferStr.length < 2 ^ 31 then
    { bufferStr, bufferSize := UInt32.ofNat bufferStr.length : EventMessage }.initMessagePtr
  else throw .lengthError

/-- `copy`. -/
def copy (m src : EventMessage) : Except Fault EventMessage :=
  { m with bufferStr := src.bufferStr, bufferSize := src.bufferSize }.initMessagePtr

/-! ## What a message says -/

/-- The names, payload and size of a message. -/
structure Content where
  groupName : Bytes
  messType : Bytes
  sendHostName : Bytes
  reciveHostName : Bytes
  message : Bytes
  messageSize : UInt32
  deriving Repr, DecidableEq

/-- What is found under the pointers of a message. -/
def content (m : EventMessage) : Except Fault Content := do
  return {
    groupName := ← m.groupName.str m.bufferStr
    messType := ← m.messType.str m.bufferStr
    sendHostName := ← m.sendHostName.str m.bufferStr
    reciveHostName := ← m.reciveHostName.str m.bufferStr
    message := ← m.message.bytes m.bufferStr m.messageSize.toNat
    messageSize := m.messageSize }

end EventMessage

end Net
