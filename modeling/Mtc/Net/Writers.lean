import Mtc.Lib.Framing
import Mtc.Net.Libevent

/-!
# Threads that write to one connection

`writeBufferOnce` of `libevent_handle.cc` as any number of threads run it on one record: each atomic
operation of `rw_w_lock` and `rw_w_unlock` on the record's write lock is a step, and so is each call
of `bufferevent_write`, of which the first writes the `BufferControlBlock` and the second the data.

`WholeFrames` is what the lock is there for: the data of a call stands behind its own block, and the
calls of a thread in their order.
-/

namespace Net

open RwLock (State)

/-- What a thread in the section writes next: the block, the data, or nothing. -/
inductive WriteStage where
  | block
  | data
  | done
  deriving Repr, DecidableEq

/-- The arguments of a call, and how far it has come. -/
structure WriteCall where
  data : Bytes := []
  dataSize : Int32 := 0
  stage : WriteStage := .done
  deriving Repr, DecidableEq

/-- The lock, the bufferevent, and the call of every thread, the last one for a thread that is
outside. `begun` and `written` are history: the calls, each with its thread and its data, in the
order in which they begin and in which their data is written. -/
structure Writers (ι : Type) where
  lock : State ι := {}
  bev : Bufferevent := {}
  call : ι → WriteCall := fun _ => {}
  begun : List (ι × Bytes) := []
  written : List (ι × Bytes) := []

/-- One thread is scheduled; the arguments are those of the call that it begins if it is outside. -/
structure WriteAction (ι : Type) where
  thread : ι
  data : Bytes
  dataSize : Int32

section
variable {ι : Type} [DecidableEq ι]

namespace Writers

/-- The thread goes on in `rw_w_lock` or `rw_w_unlock`, or to the next of them. -/
def locks (s : Writers ι) (t : ι) : Writers ι := { s with lock := s.lock.next ⟨t, .write⟩ }

/-- `bufferevent_write` in the section. -/
def writes (s : Writers ι) (t : ι) : Except Fault (Writers ι) :=
  let call := s.call t
  match call.stage with
  | .block => do
    let (ok, bev) ← s.bev.write (Bytes.le32 call.dataSize.toUInt32) sizeofBlock
    let stage := if ok then .data else .done
    return { s with bev := bev, call := Function.update s.call t { call with stage := stage } }
  | .data => do
    let (ok, bev) ← s.bev.write call.data call.dataSize.sizeT
    let written := if ok then s.written ++ [(t, call.data)] else s.written
    return { s with
      bev := bev
      call := Function.update s.call t { call with stage := .done }
      written := written }
  | .done => return s.locks t

/-- A step of a thread. -/
def step (s : Writers ι) (a : WriteAction ι) : Except Fault (Writers ι) :=
  match s.lock.pc a.thread with
  | .outside => return { s.locks a.thread with
      call := Function.update s.call a.thread ⟨a.data, a.dataSize, .block⟩
      begun := s.begun ++ [(a.thread, a.data)] }
  | .writing => s.writes a.thread
  | _ => return s.locks a.thread

end Writers

/-- The threads from their start. A step that a fault ends is not taken. -/
def writers : System (Writers ι) (WriteAction ι) where
  init := {}
  next s a := (s.step a).toOption

/-- The lock is taken while it is free, and a call is given the size of its data. -/
def WritesFree (s : Writers ι) (a : WriteAction ι) : Prop :=
  RwLock.EntersFree s.lock ⟨a.thread, .write⟩ ∧ (s.lock.pc a.thread = .outside →
    a.data.length < 2 ^ 31 ∧ a.dataSize = Int32.ofSizeT a.data.length)

instance (s : Writers ι) (a : WriteAction ι) : Decidable (WritesFree s a) :=
  inferInstanceAs (Decidable (_ ∧ _))

/-! ## What the lock is for -/

/-- The block in front of the data. -/
def blockOf (data : Bytes) : Bytes := Bytes.le32 (UInt32.ofNat data.length)

/-- What a call writes. -/
def writtenFrame (data : Bytes) : Bytes := blockOf data ++ data

/-- The data of the calls of a thread. -/
def callsOf (t : ι) (calls : List (ι × Bytes)) : List Bytes :=
  (calls.filter fun c => c.1 = t).map Prod.snd

/-- The output is the frames of the calls that have written, and the block of a call that is between
its two writes; and what a thread has written are its calls in their order, up to the one it is
in. -/
structure WholeFrames (s : Writers ι) : Prop where
  whole : (∀ t, (s.call t).stage ≠ .data) →
    s.bev.output = Framing.stream writtenFrame (s.written.map Prod.snd)
  between : ∀ t, (s.call t).stage = .data →
    s.bev.output = Framing.stream writtenFrame (s.written.map Prod.snd) ++
      blockOf (s.call t).data
  order : ∀ t, callsOf t s.begun =
    callsOf t s.written ++ if (s.call t).stage = .done then [] else [(s.call t).data]

end

end Net
