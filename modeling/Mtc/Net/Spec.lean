import Mtc.Lib.Framing
import Mtc.Lib.System
import Mtc.Net.EventMessageHandle

/-!
# What the message layer is for

The wire format of a message (`Content.encode`, `Content.frame`), the sending of messages to one
peer (`sending`), the arrival of bytes at the peer (`receiving`), and the messages whose last byte
has arrived (`Framing.arrived` of the `marks` of the sender).
-/

namespace Net

/-! ## The wire format -/

namespace EventMessage.Content

/-- The names one after the other, each with its `'\0'`. -/
def body (c : Content) : Bytes :=
  c.groupName ++ [0] ++ (c.messType ++ [0]) ++ (c.sendHostName ++ [0]) ++ (c.reciveHostName ++ [0])

/-! The names follow the cursor, and the payload the names. -/

def groupNameOffset (_ : Content) : Nat := sizeofCursor

def messTypeOffset (c : Content) : Nat := c.groupNameOffset + (c.groupName.length + 1)

def sendHostNameOffset (c : Content) : Nat := c.messTypeOffset + (c.messType.length + 1)

def reciveHostNameOffset (c : Content) : Nat := c.sendHostNameOffset + (c.sendHostName.length + 1)

def messageOffset (c : Content) : Nat := c.reciveHostNameOffset + (c.reciveHostName.length + 1)

/-- The size of the encoded message. -/
def size (c : Content) : Nat := c.messageOffset + c.message.length

/-- The words of the `EventMessageCursor`. -/
def cursor (c : Content) : List UInt32 :=
  [UInt32.ofNat c.groupNameOffset, UInt32.ofNat c.messTypeOffset,
    UInt32.ofNat c.sendHostNameOffset, UInt32.ofNat c.reciveHostNameOffset,
    UInt32.ofNat c.messageOffset, c.messageSize]

/-- The encoded message. -/
def encode (c : Content) : Bytes := Bytes.words c.cursor ++ (c.body ++ c.message)

/-- The encoded message behind its size, as `writeBufferOnce` sends it. -/
def frame (c : Content) : Bytes := Bytes.le32 (UInt32.ofNat c.size) ++ c.encode

/-- Names are C strings, and the payload has the size it is given. -/
structure Valid (c : Content) : Prop where
  groupName : 0 ∉ c.groupName
  messType : 0 ∉ c.messType
  sendHostName : 0 ∉ c.sendHostName
  reciveHostName : 0 ∉ c.reciveHostName
  message : c.message.length = c.messageSize.toNat

end EventMessage.Content

open EventMessage (Content)

/-- What `init_buffer_str` finds under the pointers of the message: those into the buffer that it
clears point nowhere. -/
def EventMessage.source (m : EventMessage) : Except Fault Content :=
  { m with
    groupName := m.groupName.rebuilt
    messType := m.messType.rebuilt
    sendHostName := m.sendHostName.rebuilt
    reciveHostName := m.reciveHostName.rebuilt
    message := m.message.rebuilt
    bufferStr := [] : EventMessage }.content

/-- What the host `localHostName` says when it sends the message. -/
def EventMessage.outgoing (m : EventMessage) (localHostName : Bytes) : Except Fault Content :=
  { m with
    groupName := m.groupName.rebuilt
    messType := m.messType.rebuilt
    sendHostName := .mem (localHostName ++ [0])
    reciveHostName := m.reciveHostName.rebuilt
    message := m.message.rebuilt
    bufferStr := [] : EventMessage }.content

/-! ## Sending -/

/-- What has been written to the connection for an endpoint. -/
def LibeventHandle.outputTo (lib : LibeventHandle) (ip : Bytes) (port : Int32) : Bytes :=
  match lib.connectionOf ip port with
  | some (_, info) => info.bev.output
  | none => []

/-- What has been written to the connection for a host in a group. -/
def EventMessageHandle.written (h : EventMessageHandle) (groupName host : Bytes) : Bytes :=
  match h.getIp host, h.messGroupMap.findKey groupName with
  | some ip, some group => group.handle.outputTo ip (h.getPort host groupName).1
  | _, _ => []

/-- A host that sends to one peer: `marks` are the messages written to the connection, each with
the number of bytes written by its end. -/
structure Sender where
  handle : EventMessageHandle
  marks : List (Content × Nat) := []

/-- The host calls `sendMessage`; a call that writes nothing to the connection leaves no mark. -/
def Sender.send (groupName host : Bytes) (s : Sender) (m : EventMessage) (connects : Bool) :
    Option Sender :=
  match s.handle.sendMessage m connects, m.outgoing s.handle.localHostName with
  | .ok (_, _, h), .ok c =>
    if (h.written groupName host).length = (s.handle.written groupName host).length then
      some { s with handle := h }
    else some { handle := h, marks := s.marks ++ [(c, (h.written groupName host).length)] }
  | _, _ => none

/-- A host sends messages to one peer in one group. Each comes with whether libevent can connect
when there is no connection yet. -/
def sending (groupName host : Bytes) (h : EventMessageHandle) :
    System Sender (EventMessage × Bool) where
  init := { handle := h }
  next s x := s.send groupName host x.1 x.2

/-! ## Receiving -/

/-- A host that receives on one connection, with the messages passed to `try_run_callback`. -/
structure Receiver where
  handle : EventMessageHandle
  passed : List EventMessage := []

/-- A connection of a group. -/
def EventMessageHandle.connection (h : EventMessageHandle) (groupName : Bytes) (id : Int32) :
    Option (GroupInfor × BevInfor) := do
  let group ← h.messGroupMap.findKey groupName
  let info ← group.handle.bevMap.findKey id
  return (group, info)

section
variable (runCallback : Nat → EventMessageHandle → EventMessage → EventMessageHandle)

/-- Bytes arrive on a connection: libevent adds them to the input buffer, and calls the read
callback when the buffer has reached the low watermark. Every round of the callback's loop but the
last takes a byte, so that the fuel is enough for it. -/
def Receiver.arrive (groupName : Bytes) (id : Int32) (r : Receiver) (bytes : Bytes) :
    Option Receiver := do
  let (group, info) ← r.handle.connection groupName id
  let bev := { info.bev with input := info.bev.input ++ bytes }
  let h := r.handle.putHandle groupName group
    { group.handle with bevMap := group.handle.bevMap.put id { info with bev := bev } }
  if bev.input.length < bev.readLow then
    return { r with handle := h }
  match EventMessageHandle.readCallbackLoop runCallback groupName id (bev.input.length + 1) h
    r.passed with
  | .ok (some (_, passed, h)) => return { handle := h, passed := passed }
  | _ => none

/-- A host receives on one connection. -/
def receiving (groupName : Bytes) (id : Int32) (h : EventMessageHandle) :
    System Receiver Bytes where
  init := { handle := h }
  next r bytes := r.arrive runCallback groupName id bytes

end

/-- The bytes in the input buffer of a connection. -/
def Receiver.buffered (groupName : Bytes) (id : Int32) (r : Receiver) : Nat :=
  match r.handle.connection groupName id with
  | some (_, info) => info.bev.input.length
  | none => 0

/-- The length of the input buffer stays in the range of an `int`. -/
def Fits (groupName : Bytes) (id : Int32) (r : Receiver) (bytes : Bytes) : Prop :=
  r.buffered groupName id + bytes.length < 2 ^ 31

instance (groupName : Bytes) (id : Int32) (r : Receiver) (bytes : Bytes) :
    Decidable (Fits groupName id r bytes) := inferInstanceAs (Decidable (_ < _))

/-! ## The receiving side of a connection -/

/-- The receiving side of a record. -/
structure Rx where
  input : Bytes
  readLow : Nat
  block : Int32
  cacheBlock : Bool

def BevInfor.rx (info : BevInfor) : Rx :=
  ⟨info.bev.input, info.bev.readLow, info.block, info.cacheBlock⟩

/-- The record with another receiving side. -/
def BevInfor.withRx (info : BevInfor) (rx : Rx) : BevInfor :=
  { info with
    bev := { info.bev with input := rx.input, readLow := rx.readLow }
    block := rx.block
    cacheBlock := rx.cacheBlock }

/-- The table with a record replaced. -/
def LibeventHandle.putRecord (lib : LibeventHandle) (id : Int32) (info : BevInfor) :
    LibeventHandle :=
  { lib with bevMap := lib.bevMap.put id info }

/-- The handle with a record of a group replaced. -/
def EventMessageHandle.putRecord (h : EventMessageHandle) (g : Bytes) (id : Int32)
    (info : BevInfor) : EventMessageHandle :=
  match h.messGroupMap.findKey g with
  | some group => h.putHandle g group (group.handle.putRecord id info)
  | none => h

/-- The handle with the receiving side of a connection replaced. -/
def EventMessageHandle.putRx (h : EventMessageHandle) (g : Bytes) (id : Int32) (rx : Rx) :
    EventMessageHandle :=
  match h.connection g id with
  | some (_, info) => h.putRecord g id (info.withRx rx)
  | none => h

/-- The map's lock is at rest, and so is the read lock of the connection `id`. -/
structure LibeventHandle.Ready (lib : LibeventHandle) (id : Int32) (info : BevInfor) : Prop where
  singal : lib.bevMapRwLockSingal = 0
  found : lib.bevMap.findKey id = some info
  readSingal : info.readSingal = 0

/-- A group has the message type. -/
def Configured (h : EventMessageHandle) (groupName messType : Bytes) : Prop :=
  ∃ group cb, h.messGroupMap.findKey groupName = some group ∧
    group.messCallbackMap.findKey messType = some cb

/-- A message that a host sends to a peer in a group: its pointers are good, the peer knows its
type, and its frame is shorter than `2 ^ 31` bytes. -/
structure MessageFor (peer : EventMessageHandle) (groupName host localHostName : Bytes)
    (m : EventMessage) (c : Content) : Prop where
  reads : m.outgoing localHostName = .ok c
  group : c.groupName = groupName
  host : c.reciveHostName = host
  configured : Configured peer groupName c.messType
  size : c.frame.length < 2 ^ 31

/-- The connection `id` of a group, with its receiving side and its locks at rest. -/
def Conn (h : EventMessageHandle) (g : Bytes) (id : Int32) (rx : Rx) : Prop :=
  ∃ group info, h.messGroupMap.findKey g = some group ∧ group.handle.Ready id info ∧ info.rx = rx

/-- The receiving side of the connection and the message types of its group stay. -/
structure Keeps (g : Bytes) (id : Int32) (h h' : EventMessageHandle) : Prop where
  conn : ∀ rx, Conn h g id rx → Conn h' g id rx
  configured : ∀ t, Configured h g t → Configured h' g t

/-- A connection on which nothing has arrived; no lock is held. No constructor of the source sets
`block` or `cache_block`: here `block` has any value, and `cache_block` is `false`. -/
def NewConnection (h : EventMessageHandle) (g : Bytes) (id : Int32) : Prop :=
  ∃ block, Conn h g id ⟨[], 0, block, false⟩

/-- No lock is held that sending takes. -/
structure LibeventHandle.SendReady (lib : LibeventHandle) : Prop where
  singal : lib.bevMapRwLockSingal = 0
  writeSingal : ∀ id info, lib.bevMap.findKey id = some info → info.writeSingal = 0

/-- No lock is held that sending in a group takes. -/
def SendReady (h : EventMessageHandle) (groupName : Bytes) : Prop :=
  ∀ group, h.messGroupMap.findKey groupName = some group → group.handle.SendReady

/-! ## What `sendMessage` tells its caller -/

/-- The first check of `sendMessage` that the message does not pass. -/
def EventMessageHandle.failedCheck (h : EventMessageHandle) (m : EventMessage) (c : Content) :
    Option EventMessageErrorNo :=
  if !m.willSend then some .incompleteMessage
  else match h.messGroupMap.findKey c.groupName with
  | none => some .groupNotFound
  | some group =>
    if (group.messCallbackMap.findKey c.messType).isNone then some .messTypeNotFound
    else match h.getIp c.reciveHostName, group.hostPortMap.findKey c.reciveHostName with
    | some _, some port => if port = 0 then some .invalidHost else none
    | _, _ => some .invalidHost

/-- What has been written to a connection. -/
def EventMessageHandle.outputOf (h : EventMessageHandle) (groupName : Bytes) (id : Int32) :
    Option Bytes :=
  (h.connection groupName id).map (·.2.bev.output)

/-- What had been written to the connection `id` for an endpoint; a connection that is new, or that
takes the place of one for another endpoint, has written nothing. -/
def LibeventHandle.outputBefore (lib : LibeventHandle) (ip : Bytes) (port : Int32) (id : Int32) :
    Bytes :=
  match lib.bevMap.findKey id with
  | some info => if info.ip = ip ∧ info.port = port then info.bev.output else []
  | none => []

/-- One frame was appended to the output of a connection for the ip and port of the receiver, and
nothing to any other. -/
def FrameSent (h h' : EventMessageHandle) (c : Content) : Prop :=
  ∃ group ip port id info',
    h.messGroupMap.findKey c.groupName = some group ∧ h.getIp c.reciveHostName = some ip ∧
    group.hostPortMap.findKey c.reciveHostName = some port ∧
    (h'.connection c.groupName id).map Prod.snd = some info' ∧ info'.ip = ip ∧
    info'.port = port ∧ info'.bev.output = group.handle.outputBefore ip port id ++ c.frame ∧
    ∀ g id', ¬ (g = c.groupName ∧ id' = id) → h'.outputOf g id' = h.outputOf g id'

/-- Nothing was written to any connection, and the configuration and the queues are as before. -/
structure Untouched (h h' : EventMessageHandle) : Prop where
  output : ∀ g id, h'.outputOf g id = h.outputOf g id
  hostConfigMap : h'.hostConfigMap = h.hostConfigMap
  messGroupMap : ∀ g,
    (h'.messGroupMap.findKey g).map (fun x => (x.hostPortMap, x.messCallbackMap)) =
      (h.messGroupMap.findKey g).map fun x => (x.hostPortMap, x.messCallbackMap)

/-- A result of `sendMessage` that says what has happened. -/
def Truthful (h : EventMessageHandle) (m : EventMessage) (c : Content) (value : Int32)
    (m' : EventMessage) (h' : EventMessageHandle) : Prop :=
  (value = 1 → FrameSent h h' c) ∧
    (value = -1 → Untouched h h' ∧ h.failedCheck m c = some m'.errorNo)

/-- There is a connection for the endpoint, or one can be made, and its id is not negative. -/
def LibeventHandle.Reaches (lib : LibeventHandle) (ip : Bytes) (port : Int32) (connects : Bool) :
    Prop :=
  match lib.connectionOf ip port with
  | some (id, _) => ¬ id < 0
  | none => connects = true ∧ ¬ lib.maxBevId < 0

/-- The receiver is a host of the group, and if it has an ip and a port, it can be reached with the
message. -/
def Sendable (h : EventMessageHandle) (m : EventMessage) (c : Content) (connects : Bool) : Prop :=
  m.willSend = true → ∀ group cb, h.messGroupMap.findKey c.groupName = some group →
    group.messCallbackMap.findKey c.messType = some cb →
    ∃ port, group.hostPortMap.findKey c.reciveHostName = some port ∧
      ∀ ip, h.getIp c.reciveHostName = some ip → port ≠ 0 →
        c.size < 2 ^ 31 ∧ group.handle.Reaches ip port connects

/-! ## The length of a frame -/

/-- These bytes were appended to the output of a connection for the ip and port of the
receiver. -/
def FrameWritten (h h' : EventMessageHandle) (c : Content) (bytes : Bytes) : Prop :=
  bytes ≠ [] ∧ ∃ group ip port id info',
    h.messGroupMap.findKey c.groupName = some group ∧ h.getIp c.reciveHostName = some ip ∧
    group.hostPortMap.findKey c.reciveHostName = some port ∧
    (h'.connection c.groupName id).map Prod.snd = some info' ∧ info'.ip = ip ∧
    info'.port = port ∧ info'.bev.output = group.handle.outputBefore ip port id ++ bytes

/-- The `int` that the receiver reads from the header of a frame is the length of the buffer that
was sent, and so is the end of the payload by the cursor. -/
def AnnouncesLength (frame bufferStr : Bytes) : Prop :=
  ∃ size messageOffset messageSize, Bytes.getLe32 frame = some size ∧
    wordAt bufferStr 4 = .ok messageOffset ∧ wordAt bufferStr 5 = .ok messageSize ∧
    0 ≤ size.toInt32 ∧ size.toInt32.toInt = bufferStr.length ∧
    messageOffset.toNat + messageSize.toNat = bufferStr.length

/-- If the receiver can be reached, the size of the message is an `int`. -/
def ShortIfReached (h : EventMessageHandle) (c : Content) (connects : Bool) : Prop :=
  ∀ group ip port, h.messGroupMap.findKey c.groupName = some group →
    h.getIp c.reciveHostName = some ip → group.hostPortMap.findKey c.reciveHostName = some port →
    group.handle.Reaches ip port connects → c.size < 2 ^ 31

/-! ## Delivery -/

/-- The messages passed on are those whose last byte is among the `n` bytes that have arrived, in
the order they were sent, each as it was sent. -/
def Delivered (s : Sender) (r : Receiver) (n : Nat) : Prop :=
  r.passed.map EventMessage.content = (Framing.arrived s.marks n).map .ok

/-! ## A buffer of frames -/

/-- The group of a message has its type. -/
def EventMessageHandle.configured (h : EventMessageHandle) (c : Content) : Bool :=
  (h.callbackInfor c.groupName c.messType).isSome

/-- `check_mess_type` accepts the message. -/
def EventMessageHandle.accepts (h : EventMessageHandle) (m : EventMessage) : Bool :=
  match h.checkMessType m with
  | .ok (.found ..) => true
  | _ => false

/-- The receiving side of the connection stays, and every group keeps its message types and gets no
other. -/
structure KeepsTypes (g : Bytes) (id : Int32) (h h' : EventMessageHandle) : Prop where
  conn : ∀ rx, Conn h g id rx → Conn h' g id rx
  configured : h'.configured = h.configured

/-- The handle with a message appended to the queue of its type. -/
def EventMessageHandle.enqueue (h : EventMessageHandle) (groupName messType : Bytes)
    (m : EventMessage) : EventMessageHandle :=
  match h.messGroupMap.findKey groupName, h.callbackInfor groupName messType with
  | some group, some cb => h.putCallback groupName group messType
      { cb with unprocessedMessList := cb.unprocessedMessList ++ [m] }
  | _, _ => h

section
variable (runCallback : Nat → EventMessageHandle → EventMessage → EventMessageHandle)

/-- A message that says `c` is dispatched: the callback of its type runs on it, or it is appended to
the queue of its type. One that is not configured changes nothing. -/
inductive Dispatches (h : EventMessageHandle) (c : Content) : EventMessageHandle → Prop
  | runs {m : EventMessage} {cb : CallbackInfor} {f : Nat} (hm : m.content = .ok c)
      (hcb : h.callbackInfor c.groupName c.messType = some cb) (hf : cb.cbFunction = some f) :
      Dispatches h c (runCallback f h m)
  | queues {m : EventMessage} {cb : CallbackInfor} (hm : m.content = .ok c)
      (hcb : h.callbackInfor c.groupName c.messType = some cb) (hf : cb.cbFunction = none) :
      Dispatches h c (h.enqueue c.groupName c.messType m)
  | drops (hc : h.configured c = false) : Dispatches h c h

/-- The messages are worked through one after the other: the frame of each is taken from the
connection, which leaves those behind it, and then the message is dispatched. -/
inductive Works (g : Bytes) (id : Int32) :
    EventMessageHandle → List Content → EventMessageHandle → Prop
  | nil (h : EventMessageHandle) : Works g id h [] h
  | cons {h h₁ h' : EventMessageHandle} {c : Content} {cs : List Content}
      (hd : Dispatches runCallback
        (h.putRx g id ⟨Framing.stream Content.frame cs, 0, Int32.ofSizeT c.size, false⟩) c h₁)
      (hw : Works g id h₁ cs h') : Works g id h (c :: cs) h'

/-- One call of `read_callback_message_from_libevent` dispatches the configured ones of the messages
`cs`, in order, and leaves the input buffer empty. -/
def Drains (g : Bytes) (id : Int32) (h : EventMessageHandle) (cs : List Content) (fuel : Nat) :
    Prop :=
  ∃ b passed h' rx,
    EventMessageHandle.readCallbackLoop runCallback g id fuel h [] = .ok (some (b, passed, h')) ∧
    (passed.filter h.accepts).map EventMessage.content = (cs.filter h.configured).map .ok ∧
    Works runCallback g id h cs h' ∧ Conn h' g id rx ∧ rx.input = []

end

/-! ## Arbitrary bytes -/

/-- A name of a message that lies in its frame, with its `'\0'`. -/
def CharPtr.NameIn (frame : Bytes) : CharPtr → Prop
  | buf offset => 0 ∈ frame.drop offset.toNat
  | _ => False

/-- A payload of `n` bytes that lies in its frame. -/
def CharPtr.SliceIn (frame : Bytes) (n : Nat) : CharPtr → Prop
  | buf offset => offset.toNat + n ≤ frame.length
  | _ => False

/-- All that a message points to lies in the frame it came in. -/
structure EventMessage.InFrame (m : EventMessage) : Prop where
  groupName : m.groupName.NameIn m.bufferStr
  messType : m.messType.NameIn m.bufferStr
  sendHostName : m.sendHostName.NameIn m.bufferStr
  reciveHostName : m.reciveHostName.NameIn m.bufferStr
  message : m.message.SliceIn m.bufferStr m.messageSize.toNat

/-- The bytes of a frame are the encoding of a message. -/
def Encodes (frame : Bytes) : Prop := ∃ c : Content, c.Valid ∧ frame = c.encode

/-- `try_run_callback` runs the callback of the message or queues it. -/
def EventMessageHandle.dispatches (h : EventMessageHandle) (m : EventMessage) : Bool :=
  match h.dispatch m with
  | .ok (.callback _) | .ok (.queued _) => true
  | _ => false

/-- All that the message points to lies in its frame, and if it is dispatched, the frame is the
encoding of a message. -/
def EventMessageHandle.Proper (h : EventMessageHandle) (m : EventMessage) : Prop :=
  m.InFrame ∧ (h.dispatches m = true → Encodes m.bufferStr)

/-- The arrivals end without a fault, and every message that was made of a frame is proper. The
message types are those of the start, and so is what is dispatched. -/
def SafeRun (S : System Receiver Bytes) (arrivals : List Bytes) : Prop :=
  ∃ r, S.run arrivals = some r ∧ r.handle.configured = S.init.handle.configured ∧
    ∀ m ∈ r.passed, S.init.handle.Proper m

/-- The message that is made of a frame lies in it, and if `check_mess_type` accepts the message,
the frame is the encoding of one. -/
def EventMessageHandle.Tolerates (h : EventMessageHandle) (frame : Bytes) : Prop :=
  ∃ m, EventMessage.ofFrame frame = .ok m ∧ m.InFrame ∧ (h.accepts m = true → Encodes frame)

/-- A stream of bytes that the receive path can be given: read as frames, each that is complete is
empty or tolerated, and none announces a negative size. -/
inductive Harmless (h : EventMessageHandle) : Bytes → Prop
  /-- Not more than a header is not looked at. -/
  | header {bs : Bytes} (hle : bs.length ≤ 4) : Harmless h bs
  | incomplete {n : UInt32} {bs : Bytes} (hn : n.toNat < 2 ^ 31) (hlt : bs.length < n.toNat) :
      Harmless h (Bytes.le32 n ++ bs)
  | empty {bs : Bytes} (hbs : Harmless h bs) : Harmless h (Bytes.le32 0 ++ bs)
  | frame {f bs : Bytes} (hf : h.Tolerates f) (hbs : Harmless h bs) :
      Harmless h (Bytes.le32 (UInt32.ofNat f.length) ++ (f ++ bs))

end Net
