import Mtc.Lib.System
import Mathlib.Logic.Function.Basic

/-!
# The reader/writer lock of the network layer

`rw_r_lock`, `rw_w_lock`, `rw_r_unlock` and `rw_w_unlock` of `libevent_handle.cc`. The lock is one
`std::atomic<int>`: positive for readers, negative for a writer.

The four functions are given twice: as one thread runs them when no other thread is scheduled
(`rwRLock` and the others), and as the atomic operations of any number of threads (`threads`).
-/

namespace Net

/-! ## One thread alone -/

/-- `rw_r_lock`; `none` when the loop does not end. -/
def rwRLock (signal : Int32) : Option Int32 :=
  if signal < 0 then none else some (signal + 1)

/-- `rw_w_lock`; `none` when the loop does not end. -/
def rwWLock (signal : Int32) : Option Int32 :=
  if signal > 0 then none else some (signal - 1)

/-- `rw_r_unlock`. -/
def rwRUnlock (signal : Int32) : Int32 :=
  if signal > 0 then signal - 1 else signal

/-- `rw_w_unlock`. -/
def rwWUnlock (signal : Int32) : Int32 :=
  if signal < 0 then signal + 1 else signal

namespace RwLock

/-! ## Threads that interleave -/

/-- Where a thread is: outside, before an atomic operation of one of the four functions, or inside
a section. -/
inductive Pc where
  | outside
  | rLockLoad
  | rLockAdd
  | reading
  | rUnlockLoad
  | rUnlockSub
  | wLockLoad
  | wLockSub
  | writing
  | wUnlockLoad
  | wUnlockAdd
  deriving Repr, DecidableEq

inductive Section where
  | read
  | write
  deriving Repr, DecidableEq

/-- The next step of a thread: the signal and the program counter after it. A thread that is
outside enters the lock function of the section `wants`. -/
def Pc.step (signal : Int32) (wants : Section) : Pc → Int32 × Pc
  | .outside => (signal, match wants with | .read => .rLockLoad | .write => .wLockLoad)
  | .rLockLoad => (signal, if signal < 0 then .rLockLoad else .rLockAdd)
  | .rLockAdd => (signal + 1, .reading)
  | .reading => (signal, .rUnlockLoad)
  | .rUnlockLoad => (signal, if signal > 0 then .rUnlockSub else .outside)
  | .rUnlockSub => (signal - 1, .outside)
  | .wLockLoad => (signal, if signal > 0 then .wLockLoad else .wLockSub)
  | .wLockSub => (signal - 1, .writing)
  | .writing => (signal, .wUnlockLoad)
  | .wUnlockLoad => (signal, if signal < 0 then .wUnlockAdd else .outside)
  | .wUnlockAdd => (signal + 1, .outside)

section
variable (ι : Type)

structure State where
  signal : Int32 := 0
  pc : ι → Pc := fun _ => .outside

/-- One thread is scheduled. -/
structure Action where
  thread : ι
  wants : Section

variable {ι} [DecidableEq ι]

def State.next (s : State ι) (a : Action ι) : State ι :=
  let r := (s.pc a.thread).step s.signal a.wants
  { signal := r.1, pc := Function.update s.pc a.thread r.2 }

/-- The threads `ι` on one signal. -/
def threads : System (State ι) (Action ι) where
  init := {}
  next s a := some (s.next a)

end

/-! ## What the lock is for -/

variable {ι : Type}

/-- No two threads write, and no thread reads while another writes. -/
def Exclusive (s : State ι) : Prop :=
  ∀ t u, t ≠ u → s.pc t = .writing → s.pc u ≠ .writing ∧ s.pc u ≠ .reading

/-- The lock functions take effect on a signal they may take: a reader adds itself while no writer
is counted, and a writer subtracts itself while nobody is. -/
def EntersFree (s : State ι) (a : Action ι) : Prop :=
  (s.pc a.thread = .rLockAdd → 0 ≤ s.signal) ∧ (s.pc a.thread = .wLockSub → s.signal = 0)

instance (s : State ι) (a : Action ι) : Decidable (EntersFree s a) :=
  inferInstanceAs (Decidable (_ ∧ _))

/-- No thread is inside a section or inside one of the four functions. -/
def AtRest (s : State ι) : Prop := ∀ t, s.pc t = .outside

/-- An unlock function loads a signal with the sign of its own side, so that it goes on to take its
count back. -/
def UnlocksCounted (s : State ι) (a : Action ι) : Prop :=
  (s.pc a.thread = .rUnlockLoad → s.signal > 0) ∧ (s.pc a.thread = .wUnlockLoad → s.signal < 0)

instance (s : State ι) (a : Action ι) : Decidable (UnlocksCounted s a) :=
  inferInstanceAs (Decidable (_ ∧ _))

end RwLock

end Net
