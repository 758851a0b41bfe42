import Mtc.Lib.Int32
import Mtc.Lib.Threads
import Mtc.Net.RwLock
import Mathlib.Data.Fintype.Prod

/-!
# Exclusion of readers and writers, and the signal at rest

The two halves of a lock function are separate atomic steps, and the writer's test lets a second
writer through: `not_exclusive_threads` has two threads writing at once. Along every schedule
whose lock functions take effect on a free signal (`EntersFree`) the signal counts the threads
that hold the lock (`Counted`), and the sections exclude each other (`exclusive_of_entersFree`).

The unlock functions take a count back only if the signal they load has the sign of their side, so
that a count can stay behind for good (`not_signal_atRest`). Where none of them skips, the signal
balances the threads inside (`Balances`) and is 0 when there are none
(`signal_atRest_of_unlocksCounted`).
-/

namespace Net.RwLock

open Threads

/-! ## The signal counts the holders -/

/-- A reader counts from its `fetch_add` to its `fetch_sub`. -/
def Pc.readers : Pc → ℕ
  | .reading | .rUnlockLoad | .rUnlockSub => 1
  | _ => 0

/-- A writer counts from its `fetch_sub` to its `fetch_add`. -/
def Pc.writers : Pc → ℕ
  | .writing | .wUnlockLoad | .wUnlockAdd => 1
  | _ => 0

/-- Without a writer the signal is at least the number of readers (it is more once readers have
skipped their `fetch_sub`, which happens when `2 ^ 31` of them made the signal negative); a writer
is alone and the signal is `-1`. -/
def Counts (signal : ℤ) (readers writers : ℕ) : Prop :=
  writers = 0 ∧ (readers ≤ signal ∨ signal = -2 ^ 31 ∧ readers ≤ 2 ^ 31) ∨
  writers = 1 ∧ readers = 0 ∧ signal = -1

/-- One step of a thread keeps the count; `r` and `w` are the other threads' shares. -/
theorem Counts.step {signal signal' : Int32} {p p' : Pc} {r w : ℕ} (wants : Section)
    (hr : p = .rLockAdd → 0 ≤ signal.toInt) (hw : p = .wLockSub → signal.toInt = 0)
    (hs : p.step signal wants = (signal', p'))
    (h : Counts signal.toInt (r + p.readers) (w + p.writers)) :
    Counts signal'.toInt (r + p'.readers) (w + p'.writers) := by
  have hhi := signal.toInt_lt
  cases p <;> simp only [Pc.step, Prod.mk.injEq] at hs <;> obtain ⟨rfl, hs⟩ := hs
  case outside => cases wants <;> subst hs <;> exact h
  case reading | writing => subst hs; exact h
  case rLockLoad | wLockLoad => split at hs <;> subst hs <;> exact h
  case rLockAdd =>
    have := hr rfl
    subst hs
    simp only [Counts, Pc.readers, Pc.writers, Int32.toInt_succ] at *
    split <;> omega
  case wLockSub =>
    have := hw rfl
    subst hs
    simp only [Counts, Pc.readers, Pc.writers, Int32.toInt_pred] at *
    split <;> omega
  -- a reader that finds the signal negative leaves its count behind
  case rUnlockLoad | wUnlockLoad =>
    split at hs <;> rename_i hlt <;> subst hs
    · exact h
    · simp only [Counts, Pc.readers, Pc.writers, gt_iff_lt, Int32.lt_iff_toInt_lt,
        Int32.toInt_zero] at *
      omega
  case rUnlockSub | wUnlockAdd =>
    subst hs
    simp only [Counts, Pc.readers, Pc.writers, Int32.toInt_pred, Int32.toInt_succ] at *
    split <;> omega

theorem atRest_init {ι : Type} : AtRest ({} : State ι) := fun _ => rfl

variable {ι : Type} [Fintype ι]

/-- The signal counts the threads that hold the lock. -/
def Counted (s : State ι) : Prop :=
  Counts s.signal.toInt (census Pc.readers s.pc) (census Pc.writers s.pc)

/-- At rest nobody is counted. -/
theorem AtRest.census {s : State ι} (h : AtRest s) :
    census Pc.readers s.pc = 0 ∧ census Pc.writers s.pc = 0 :=
  ⟨census_eq_zero fun t => by rw [h t]; rfl, census_eq_zero fun t => by rw [h t]; rfl⟩

theorem counted_init : Counted ({} : State ι) := by
  unfold Counted
  rw [atRest_init.census.1, atRest_init.census.2]
  exact Or.inl ⟨rfl, Or.inl le_rfl⟩

variable [DecidableEq ι]

theorem counted_next {s : State ι} {a : Action ι} (hf : EntersFree s a) (h : Counted s) :
    Counted (s.next a) := by
  obtain ⟨hr, hw⟩ := hf
  simp only [Int32.le_iff_toInt_le, ← Int32.toInt_inj, Int32.toInt_zero] at hr hw
  obtain ⟨r, hR, hR'⟩ := census_split Pc.readers s.pc a.thread
  obtain ⟨w, hW, hW'⟩ := census_split Pc.writers s.pc a.thread
  unfold Counted at h ⊢
  rw [hR, hW] at h
  rw [State.next, hR', hW']
  exact h.step a.wants hr hw rfl

theorem exclusive_of_counted {s : State ι} (h : Counted s) : Exclusive s := by
  intro t u htu ht
  have hR := add_le_census Pc.readers s.pc htu
  have hW := add_le_census Pc.writers s.pc htu
  rw [ht] at hR hW
  unfold Counted Counts at h
  refine ⟨fun hu => ?_, fun hu => ?_⟩ <;> rw [hu] at hR hW <;>
    simp only [Pc.readers, Pc.writers] at hR hW <;> omega

/-- **Readers and writers exclude each other in the schedules whose lock functions enter free.** -/
theorem exclusive_of_entersFree {as : List (Action ι)}
    (hf : threads.Meets EntersFree threads.init as) :
    ∀ pre, pre <+: as → ∀ s, threads.run pre = some s → Exclusive s := by
  intro pre hpre s hs
  obtain ⟨post, rfl⟩ := hpre
  refine exclusive_of_counted (System.inv_of_meets ?_ hf.of_append hs counted_init)
  intro s a s' hc hn hi
  cases hn
  exact counted_next hc hi

/-- Thread `0` writes and leaves, then thread `1` reads and thread `0` waits for it. -/
theorem exclusive_of_entersFree_two :
    let w : Action (Fin 2) := ⟨0, .write⟩
    let r : Action (Fin 2) := ⟨1, .read⟩
    let as := [w, r, w, w, r, w, w, w, r, r, w, w]
    threads.Meets EntersFree threads.init as ∧
      ∀ pre, pre <+: as → ∀ s, threads.run pre = some s → Exclusive s :=
  ⟨by decide, exclusive_of_entersFree (by decide)⟩

/-! ## The writer's test -/

/-- A writer leaves the signal negative, and `rw_w_lock` waits for a positive one only: any thread
outside comes to write beside it. -/
theorem not_exclusive_of_writing {ι : Type} [DecidableEq ι] {s : State ι} {t u : ι} (htu : t ≠ u)
    (ht : s.pc t = .writing) (hu : s.pc u = .outside) (hs : ¬ s.signal > 0) :
    ∃ s', threads.runFrom s [⟨u, .write⟩, ⟨u, .write⟩, ⟨u, .write⟩] = some s' ∧
      ¬ Exclusive s' := by
  refine ⟨_, rfl, fun h => ?_⟩
  have hu' := (h t u htu (by simp [State.next, Function.update_of_ne htu, ht])).1
  apply hu'
  simp [State.next, Pc.step, hu, hs]

/-- Two writers, one after the other. -/
theorem not_exclusive_threads :
    ¬ ∀ (as : List (Action (Fin 2))) (s : State (Fin 2)), threads.run as = some s →
      Exclusive s := by
  intro h
  have := h [⟨0, .write⟩, ⟨0, .write⟩, ⟨0, .write⟩, ⟨1, .write⟩, ⟨1, .write⟩, ⟨1, .write⟩] _ rfl
  unfold Exclusive at this
  revert this
  decide

/-! ## The signal at rest -/

/-- The signal is the readers less the writers, as an `int`. -/
def Balances (signal : Int32) (readers writers : ℕ) : Prop :=
  signal = Int32.ofInt (readers - writers)

theorem Balances.succ {signal : Int32} {r w r' w' : ℕ} (h : Balances signal r w)
    (he : (r' : ℤ) - w' = r - w + 1) : Balances (signal + 1) r' w' := by
  unfold Balances at *
  rw [he, Int32.ofInt_add, ← h]
  rfl

theorem Balances.pred {signal : Int32} {r w r' w' : ℕ} (h : Balances signal r w)
    (he : (r' : ℤ) - w' = r - w - 1) : Balances (signal - 1) r' w' := by
  unfold Balances at *
  rw [he, Int32.ofInt_sub, ← h]
  rfl

/-- One step of a thread keeps the balance unless it is an unlock that takes nothing back. -/
theorem Balances.step {signal signal' : Int32} {p p' : Pc} {r w : ℕ} (wants : Section)
    (hr : p = .rUnlockLoad → signal > 0) (hw : p = .wUnlockLoad → signal < 0)
    (hs : p.step signal wants = (signal', p'))
    (h : Balances signal (r + p.readers) (w + p.writers)) :
    Balances signal' (r + p'.readers) (w + p'.writers) := by
  cases p <;> simp only [Pc.step, Prod.mk.injEq] at hs <;> obtain ⟨rfl, hs⟩ := hs
  case outside => cases wants <;> subst hs <;> exact h
  case reading | writing => subst hs; exact h
  case rLockLoad | wLockLoad => split at hs <;> subst hs <;> exact h
  case rUnlockLoad =>
    rw [if_pos (hr rfl)] at hs
    subst hs
    exact h
  case wUnlockLoad =>
    rw [if_pos (hw rfl)] at hs
    subst hs
    exact h
  case rLockAdd | wUnlockAdd =>
    subst hs
    apply h.succ
    simp only [Pc.readers, Pc.writers]
    omega
  case wLockSub | rUnlockSub =>
    subst hs
    apply h.pred
    simp only [Pc.readers, Pc.writers]
    omega

/-- **The signal is back at 0 whenever the lock is at rest, in the schedules whose unlocks all take
their count back.** -/
theorem signal_atRest_of_unlocksCounted {ι : Type} [Fintype ι] [DecidableEq ι]
    {as : List (Action ι)} (hu : threads.Meets UnlocksCounted threads.init as) :
    ∀ pre, pre <+: as → ∀ s, threads.run pre = some s → AtRest s → s.signal = 0 := by
  intro pre hpre s hs hrest
  obtain ⟨post, rfl⟩ := hpre
  have hb : Balances s.signal (census Pc.readers s.pc) (census Pc.writers s.pc) := by
    refine System.inv_of_meets (I := fun s => Balances s.signal (census Pc.readers s.pc)
      (census Pc.writers s.pc)) ?_ hu.of_append hs ?_
    · intro s a s' hc hn hi
      cases hn
      obtain ⟨r, hR, hR'⟩ := census_split Pc.readers s.pc a.thread
      obtain ⟨w, hW, hW'⟩ := census_split Pc.writers s.pc a.thread
      rw [hR, hW] at hi
      simp only [State.next, hR', hW']
      exact hi.step a.wants hc.1 hc.2 rfl
    · show Balances 0 (census Pc.readers ({} : State ι).pc) (census Pc.writers ({} : State ι).pc)
      rw [atRest_init.census.1, atRest_init.census.2]
      rfl
  rw [hrest.census.1, hrest.census.2] at hb
  exact hb

/-- Thread `0` writes; then both threads read at once and leave. -/
theorem signal_atRest_of_unlocksCounted_two :
    let w : Action (Fin 2) := ⟨0, .write⟩
    let r : Action (Fin 2) := ⟨0, .read⟩
    let r' : Action (Fin 2) := ⟨1, .read⟩
    let as := [w, w, w, w, w, w, r, r', r, r', r, r', r, r', r, r', r, r']
    threads.Meets UnlocksCounted threads.init as ∧
      ∀ pre, pre <+: as → ∀ s, threads.run pre = some s → AtRest s → s.signal = 0 :=
  ⟨by decide, signal_atRest_of_unlocksCounted (by decide)⟩

/-- A reader and a writer enter at once. The reader leaves on the signal 0, so that its count stays,
and comes back as a writer. The writers then both load -1 before either adds: the signal ends at 1,
and `rw_w_lock` waits for ever. -/
theorem not_signal_atRest :
    ¬ ∀ (as : List (Action (Fin 2))) (s : State (Fin 2)), threads.run as = some s →
      AtRest s → s.signal = 0 := by
  intro h
  let r : Action (Fin 2) := ⟨0, .read⟩
  let w : Action (Fin 2) := ⟨0, .write⟩
  let w' : Action (Fin 2) := ⟨1, .write⟩
  have := h [r, w', r, w', r, w', r, r, w, w, w, w, w', w, w', w, w'] _ rfl
  unfold AtRest at this
  revert this
  decide

/-! ## A thread that is not interrupted -/

section
variable {ι : Type} [DecidableEq ι] {s : State ι} {t : ι}

/-- Steps of one thread that leave it where it is. -/
theorem runFrom_spin {a : Action ι} (h : s.next a = s) :
    ∀ n, threads.runFrom s (List.replicate n a) = some s
  | 0 => rfl
  | n + 1 => by
    rw [List.replicate_succ, System.runFrom]
    show threads.runFrom (s.next a) _ = some s
    rw [h]
    exact runFrom_spin h n

theorem rwRLock_run (ht : s.pc t = .outside) :
    match rwRLock s.signal with
    | some v => threads.runFrom s (List.replicate 3 ⟨t, .read⟩) =
        some ⟨v, Function.update s.pc t .reading⟩
    | none => ∀ n, threads.runFrom s (List.replicate (n + 1) ⟨t, .read⟩) =
        some ⟨s.signal, Function.update s.pc t .rLockLoad⟩ := by
  unfold rwRLock
  split <;> rename_i h <;> split at h <;> cases h <;> rename_i hlt
  · simp [threads, System.runFrom, List.replicate, State.next, Pc.step, ht, hlt]
  · intro n
    have hspin := runFrom_spin (s := ⟨s.signal, Function.update s.pc t .rLockLoad⟩)
      (a := ⟨t, .read⟩) (by simp [State.next, Pc.step, hlt]) n
    simpa [List.replicate_succ, System.runFrom, threads, State.next, ht, Pc.step] using hspin

theorem rwWLock_run (ht : s.pc t = .outside) :
    match rwWLock s.signal with
    | some v => threads.runFrom s (List.replicate 3 ⟨t, .write⟩) =
        some ⟨v, Function.update s.pc t .writing⟩
    | none => ∀ n, threads.runFrom s (List.replicate (n + 1) ⟨t, .write⟩) =
        some ⟨s.signal, Function.update s.pc t .wLockLoad⟩ := by
  unfold rwWLock
  split <;> rename_i h <;> split at h <;> cases h <;> rename_i hlt
  · simp [threads, System.runFrom, List.replicate, State.next, Pc.step, ht, hlt]
  · intro n
    have hspin := runFrom_spin (s := ⟨s.signal, Function.update s.pc t .wLockLoad⟩)
      (a := ⟨t, .write⟩) (by simp [State.next, Pc.step, hlt]) n
    simpa [List.replicate_succ, System.runFrom, threads, State.next, ht, Pc.step] using hspin

theorem rwRUnlock_run (ht : s.pc t = .reading) (a : Action ι) (ha : a.thread = t) :
    ∃ n, threads.runFrom s (List.replicate n a) =
      some ⟨rwRUnlock s.signal, Function.update s.pc t .outside⟩ := by
  subst ha
  unfold rwRUnlock
  split <;> rename_i hlt
  · exact ⟨3, by simp [threads, System.runFrom, List.replicate, State.next, Pc.step, ht, hlt]⟩
  · exact ⟨2, by simp [threads, System.runFrom, List.replicate, State.next, Pc.step, ht, hlt]⟩

theorem rwWUnlock_run (ht : s.pc t = .writing) (a : Action ι) (ha : a.thread = t) :
    ∃ n, threads.runFrom s (List.replicate n a) =
      some ⟨rwWUnlock s.signal, Function.update s.pc t .outside⟩ := by
  subst ha
  unfold rwWUnlock
  split <;> rename_i hlt
  · exact ⟨3, by simp [threads, System.runFrom, List.replicate, State.next, Pc.step, ht, hlt]⟩
  · exact ⟨2, by simp [threads, System.runFrom, List.replicate, State.next, Pc.step, ht, hlt]⟩

end

end Net.RwLock
