import Mtc.Lib.Queues
import Mtc.Net.Spec

/-!
# The queues of a host

The calls that work on the queues of an `EventMessageHandle`, in any order: frames given to
`try_run_callback`, registrations, and reads with and without a filter. What a callback does with
the handle are later calls of the sequence.

`InboxOp.Means` and `InboxAnswer.Means` read the calls and what they return as the requests and
replies of `Queues.machine`, whose keys are the pairs of a group and a message type.
-/

namespace Net

/-- A call on the queues. -/
inductive InboxOp where
  /-- `init_message_ptr` and `try_run_callback` on a message with this buffer. -/
  | deliver (bufferStr : Bytes) (bufferSize : UInt32)
  | register (groupName messType : CharPtr) (f : Nat)
  | read (m : EventMessage)
  | readFilter (m : EventMessage) (filter : EventMessage → Bool)

/-- What a call on the queues comes to. -/
inductive InboxAnswer where
  /-- `try_run_callback` returned `false`. -/
  | dropped
  /-- `try_run_callback` ran a callback on the message. -/
  | called (f : Nat) (m : EventMessage)
  | queued
  | registered (ok : Bool)
  /-- The value of `readMessage`, and the caller's message after it. -/
  | read (val : Int32) (m : EventMessage)

namespace EventMessageHandle

def inboxStep (h : EventMessageHandle) : InboxOp → Except Fault (InboxAnswer × EventMessageHandle)
  | .deliver bufferStr bufferSize => do
    let mess ← { bufferStr, bufferSize : EventMessage }.initMessagePtr
    match ← h.dispatch mess with
    | .unknown => return (.dropped, h)
    | .callback f => return (.called f mess, h)
    | .queued h => return (.queued, h)
  | .register groupName messType f => do
    let (ok, h) ← h.registerReciveHandler groupName messType f
    return (.registered ok, h)
  | .read m => do
    let (val, m, h) ← h.readMessage m
    return (.read val m, h)
  | .readFilter m filter => do
    let (val, m, h) ← h.readMessageFilter m (fun x => .ok (filter x))
    return (.read val m, h)

def inboxRun (h : EventMessageHandle) :
    List InboxOp → Except Fault (List InboxAnswer × EventMessageHandle)
  | [] => return ([], h)
  | op :: ops => do
    let (answer, h) ← h.inboxStep op
    let (answers, h) ← h.inboxRun ops
    return (answer :: answers, h)

/-- The entries of the message types as entries of `Queues`. -/
def inbox (h : EventMessageHandle) (k : Bytes × Bytes) : Option (Queues.Entry EventMessage) :=
  (h.callbackInfor k.1 k.2).map fun cb => ⟨cb.cbFunction, cb.unprocessedMessList⟩

end EventMessageHandle

/-- The request that a call makes. A name is any string that can be read. -/
inductive InboxOp.Means :
    InboxOp → Option ((Bytes × Bytes) × Queues.Action EventMessage) → Prop
  | deliver {bufferStr : Bytes} {bufferSize : UInt32} {mess : EventMessage} {g t : Bytes}
      (hmess : { bufferStr, bufferSize : EventMessage }.initMessagePtr = .ok mess)
      (hg : mess.groupName.str mess.bufferStr = .ok g)
      (ht : mess.messType.str mess.bufferStr = .ok t) :
      Means (.deliver bufferStr bufferSize) (some ((g, t), .deliver mess))
  | register {groupName messType : CharPtr} {g t : Bytes} {f : Nat}
      (hg : groupName.str [] = .ok g) (ht : messType.str [] = .ok t) :
      Means (.register groupName messType f) (some ((g, t), .register f))
  | read {m : EventMessage} {g t : Bytes} (hw : m.willRecive = true)
      (hg : m.groupName.str m.bufferStr = .ok g) (ht : m.messType.str m.bufferStr = .ok t) :
      Means (.read m) (some ((g, t), .take fun _ => true))
  | readFilter {m : EventMessage} {filter : EventMessage → Bool} {g t : Bytes}
      (hw : m.willRecive = true) (hg : m.groupName.str m.bufferStr = .ok g)
      (ht : m.messType.str m.bufferStr = .ok t) :
      Means (.readFilter m filter) (some ((g, t), .take filter))
  /-- A message that was not prepared for reading asks for nothing. -/
  | unprepared {m : EventMessage} (hw : m.willRecive = false) : Means (.read m) none
  | unpreparedFilter {m : EventMessage} {filter : EventMessage → Bool}
      (hw : m.willRecive = false) : Means (.readFilter m filter) none

/-- The reply that an answer stands for. -/
inductive InboxAnswer.Means : InboxAnswer → Queues.Reply EventMessage → Prop
  | dropped : Means .dropped .refused
  | called {f : Nat} {m : EventMessage} : Means (.called f m) (.handled f m)
  | queued : Means .queued .queued
  | registered : Means (.registered true) .registered
  | unregistered : Means (.registered false) .refused
  | refused {m : EventMessage} : Means (.read (-1) m) .refused
  | nothing {m : EventMessage} : Means (.read 0 m) .nothing
  /-- The caller's message keeps its own flags. -/
  | took {m m' : EventMessage} (hm : m' = { m with
      errorNo := m'.errorNo, willSend := m'.willSend, willRecive := m'.willRecive }) :
      Means (.read 1 m') (.took m)

end Net
