import Mtc.Lib.Except
import Mtc.Net.Proof.RwLock
import Mtc.Net.Writers

/-!
# The frames of threads that write to one connection

Along the schedules in which the write lock is taken while it is free, the output is a sequence of
whole frames (`wholeFrames_of_writesFree`): no block is parted from its data, no call is lost or
written twice, and the calls of a thread keep their order. From wherever such a schedule leads, the
calls that have begun can all be completed (`writers_finish`). Two writers in the section at once,
which the lock lets through, mix their frames (`not_wholeFrames_writers`).
-/

namespace Net

open Threads

/-! ## The write lock among writers -/

namespace RwLock

/-- Where a thread is that only writes. -/
def Pc.WriteSide : Pc → Prop
  | .outside | .wLockLoad | .wLockSub | .writing | .wUnlockLoad | .wUnlockAdd => True
  | _ => False

/-- At most one writer holds the lock, and the signal says so. -/
def Sole (signal : ℤ) (writers : ℕ) : Prop := writers ≤ 1 ∧ signal = -writers

/-- One step of a writer; `w` are the other threads' shares. A holder finds its count in the signal,
so that it takes it back. -/
theorem Sole.step {signal signal' : Int32} {p p' : Pc} {w : ℕ} (hp : p.WriteSide)
    (hw : p = .wLockSub → signal = 0) (hs : p.step signal .write = (signal', p'))
    (h : Sole signal.toInt (w + p.writers)) :
    Sole signal'.toInt (w + p'.writers) ∧ p'.WriteSide := by
  cases p <;> simp only [Pc.step, Prod.mk.injEq] at hs <;> obtain ⟨rfl, hs⟩ := hs
  case outside | writing =>
    subst hs
    exact ⟨h, trivial⟩
  case wLockLoad => split at hs <;> subst hs <;> exact ⟨h, trivial⟩
  case wLockSub =>
    have hz : signal.toInt = 0 := by rw [hw rfl, Int32.toInt_zero]
    subst hs
    refine ⟨?_, trivial⟩
    simp only [Sole, Pc.writers, Int32.toInt_pred] at *
    split <;> omega
  case wUnlockLoad =>
    have hneg : signal < 0 := by
      simp only [Sole, Pc.writers, Int32.lt_iff_toInt_lt, Int32.toInt_zero] at *
      omega
    rw [if_pos hneg] at hs
    subst hs
    exact ⟨h, trivial⟩
  case wUnlockAdd =>
    subst hs
    refine ⟨?_, trivial⟩
    simp only [Sole, Pc.writers, Int32.toInt_succ] at *
    split <;> omega
  all_goals exact hp.elim

variable {ι : Type} [Fintype ι]

/-- What holds of the lock among writers. -/
structure Sections (l : State ι) : Prop where
  side : ∀ t, (l.pc t).WriteSide
  sole : Sole l.signal.toInt (census Pc.writers l.pc)

theorem sections_init : Sections ({} : State ι) where
  side _ := trivial
  sole := by
    rw [atRest_init.census.2]
    exact ⟨Nat.zero_le _, rfl⟩

/-- Nobody adds itself as a reader. -/
theorem Sections.entersFree {l : State ι} (h : Sections l) {t : ι}
    (hfree : l.pc t = .wLockSub → l.signal = 0) : EntersFree l ⟨t, .write⟩ := by
  refine ⟨fun hr => ?_, hfree⟩
  have hside := h.side t
  rw [show l.pc t = .rLockAdd from hr] at hside
  exact hside.elim

/-- While nobody holds the lock it is free. -/
theorem Sections.signal_of_free {l : State ι} (h : Sections l)
    (hfree : ∀ t, (l.pc t).writers = 0) : l.signal = 0 := by
  have hs := h.sole.2
  rw [census_eq_zero hfree] at hs
  exact Int32.toInt_inj.1 hs

variable [DecidableEq ι]

theorem Sections.next {l : State ι} {t : ι} (h : Sections l) (hf : EntersFree l ⟨t, .write⟩) :
    Sections (l.next ⟨t, .write⟩) := by
  obtain ⟨w, hw, hw'⟩ := census_split Pc.writers l.pc t
  obtain ⟨signal', p', hstep⟩ : ∃ v p, (l.pc t).step l.signal .write = (v, p) := ⟨_, _, rfl⟩
  have hsole := h.sole
  rw [hw] at hsole
  obtain ⟨hsole', hside⟩ := hsole.step (h.side t) hf.2 hstep
  simp only [State.next, hstep]
  refine ⟨(Function.forall_update_iff l.pc _).2 ⟨hside, fun u _ => h.side u⟩, ?_⟩
  rw [hw']
  exact hsole'

/-- The thread in the section is the only one there. -/
theorem Sections.eq_of_writing {l : State ι} (h : Sections l) {t u : ι} (ht : l.pc t = .writing)
    (hu : l.pc u = .writing) : u = t := by
  by_contra hne
  have hle := add_le_census Pc.writers l.pc hne
  rw [ht, hu] at hle
  have hsole := h.sole.1
  simp only [Pc.writers] at hle
  omega

/-- A thread that holds the lock is counted in the signal, and it alone. -/
theorem Sections.signal_of_holds {l : State ι} (h : Sections l) {t : ι}
    (ht : (l.pc t).writers = 1) : l.signal.toInt = -1 := by
  obtain ⟨w, hw, -⟩ := census_split Pc.writers l.pc t
  obtain ⟨hle, hs⟩ := h.sole
  omega

/-- Where not every thread is outside, one of them finds what its next step waits for: the one that
holds the lock, or, if there is none, any of them. -/
theorem Sections.exists_inside {l : State ι} (h : Sections l) (hne : ¬ AtRest l) :
    ∃ t, l.pc t ≠ .outside ∧ ((l.pc t).writers = 0 → l.signal = 0) ∧
      ((l.pc t).writers = 1 → l.signal.toInt = -1) := by
  by_cases hh : ∃ t, (l.pc t).writers = 1
  · obtain ⟨t, ht⟩ := hh
    refine ⟨t, fun hout => ?_, fun hz => ?_, fun _ => h.signal_of_holds ht⟩
    · rw [hout] at ht
      cases ht
    · rw [hz] at ht
      cases ht
  · have hzero : ∀ t, (l.pc t).writers = 0 := by
      intro t
      have hnot : (l.pc t).writers ≠ 1 := fun h1 => hh ⟨t, h1⟩
      revert hnot
      cases l.pc t <;> decide
    obtain ⟨t, ht⟩ := not_forall.1 hne
    exact ⟨t, ht, fun _ => h.signal_of_free hzero, fun h1 => absurd ⟨t, h1⟩ hh⟩

end RwLock

open RwLock (State Pc AtRest Sections)

/-! ## What a step does -/

/-- A call at a program counter: before its data is written it is on its way into the section or in
it, between its two writes it is in it, and its size is that of its data. -/
structure WriteCall.Fits (c : WriteCall) (pc : Pc) : Prop where
  inside : c.stage ≠ .done → pc = .wLockLoad ∨ pc = .wLockSub ∨ pc = .writing
  between : c.stage = .data → pc = .writing
  size : c.stage ≠ .done → c.data.length < 2 ^ 31 ∧ c.dataSize = Int32.ofSizeT c.data.length

/-- A call that has written its data. -/
theorem WriteCall.fits_of_done {c : WriteCall} (h : c.stage = .done) (pc : Pc) : c.Fits pc where
  inside hne := absurd h hne
  between hd := by rw [h] at hd; cases hd
  size hne := absurd h hne

/-- A thread that is outside has written its last call. -/
theorem WriteCall.Fits.done_of_outside {c : WriteCall} {pc : Pc} (h : c.Fits pc)
    (hpc : pc = .outside) : c.stage = .done := by
  by_contra hne
  obtain hp | hp | hp := h.inside hne <;> rw [hpc] at hp <;> cases hp

/-- A write of all of the data. -/
theorem Bufferevent.write_length (bev : Bufferevent) (data : Bytes) (h : data.length < 2 ^ 63) :
    bev.write data data.length = .ok (true, { bev with output := bev.output ++ data }) := by
  rw [Bufferevent.write, if_neg (Nat.not_le.2 h), if_pos le_rfl, List.take_length]

theorem length_blockOf (data : Bytes) : (blockOf data).length = sizeofBlock := Bytes.length_le32 _

section
variable {ι : Type} [DecidableEq ι]

/-- The steps of a call: it begins, goes on in a lock function, writes its block, or its data. -/
inductive WriteStep (s : Writers ι) (a : WriteAction ι) (s' : Writers ι) : Prop where
  | begins (hpc : s.lock.pc a.thread = .outside) (hlock : s'.lock = s.lock.next ⟨a.thread, .write⟩)
      (hcall : s'.call = Function.update s.call a.thread ⟨a.data, a.dataSize, .block⟩)
      (hout : s'.bev.output = s.bev.output) (hbegun : s'.begun = s.begun ++ [(a.thread, a.data)])
      (hwritten : s'.written = s.written)
  | locks (hpc : s.lock.pc a.thread ≠ .outside)
      (hst : s.lock.pc a.thread = .writing → (s.call a.thread).stage = .done)
      (hlock : s'.lock = s.lock.next ⟨a.thread, .write⟩) (hcall : s'.call = s.call)
      (hout : s'.bev.output = s.bev.output) (hbegun : s'.begun = s.begun)
      (hwritten : s'.written = s.written)
  | block (hpc : s.lock.pc a.thread = .writing) (hst : (s.call a.thread).stage = .block)
      (hlock : s'.lock = s.lock)
      (hcall : s'.call = Function.update s.call a.thread { s.call a.thread with stage := .data })
      (hout : s'.bev.output = s.bev.output ++ blockOf (s.call a.thread).data)
      (hbegun : s'.begun = s.begun) (hwritten : s'.written = s.written)
  | data (hpc : s.lock.pc a.thread = .writing) (hst : (s.call a.thread).stage = .data)
      (hlock : s'.lock = s.lock)
      (hcall : s'.call = Function.update s.call a.thread { s.call a.thread with stage := .done })
      (hout : s'.bev.output = s.bev.output ++ (s.call a.thread).data)
      (hbegun : s'.begun = s.begun)
      (hwritten : s'.written = s.written ++ [(a.thread, (s.call a.thread).data)])

variable {s s' : Writers ι} {a : WriteAction ι}

/-- No step of a call that fits faults. -/
theorem WriteCall.Fits.step (h : (s.call a.thread).Fits (s.lock.pc a.thread)) :
    ∃ s', writers.next s a = some s' ∧ WriteStep s a s' := by
  suffices hs : ∃ s', s.step a = .ok s' ∧ WriteStep s a s' by
    obtain ⟨s', hs, hw⟩ := hs
    exact ⟨s', congrArg Except.toOption hs, hw⟩
  unfold Writers.step
  cases hpc : s.lock.pc a.thread
  case outside => exact ⟨_, rfl, .begins hpc rfl rfl rfl rfl rfl⟩
  case writing =>
    simp only [Writers.writes]
    cases hst : (s.call a.thread).stage
    case block =>
      obtain ⟨-, hsize⟩ := h.size (by rw [hst]; nofun)
      have hblock : Bytes.le32 (s.call a.thread).dataSize.toUInt32 =
          blockOf (s.call a.thread).data := by
        rw [hsize, Int32.toUInt32_ofSizeT, blockOf]
      rw [hblock, ← length_blockOf (s.call a.thread).data,
        s.bev.write_length _ (by rw [length_blockOf]; decide)]
      exact ⟨_, rfl, .block hpc hst rfl rfl rfl rfl rfl⟩
    case data =>
      obtain ⟨hlen, hsize⟩ := h.size (by rw [hst]; nofun)
      have hsizeT : (s.call a.thread).dataSize.sizeT = (s.call a.thread).data.length := by
        rw [hsize, Int32.sizeT_ofSizeT_of_lt hlen]
      rw [hsizeT, s.bev.write_length _ (by omega)]
      exact ⟨_, rfl, .data hpc hst rfl rfl rfl rfl rfl⟩
    case done => exact ⟨_, rfl, .locks (by rw [hpc]; nofun) (fun _ => hst) rfl rfl rfl rfl rfl⟩
  all_goals exact ⟨_, rfl, .locks (by rw [hpc]; nofun) (by rw [hpc]; nofun) rfl rfl rfl rfl rfl⟩

/-! ## What a step keeps -/

theorem callsOf_append_self (t : ι) (calls : List (ι × Bytes)) (data : Bytes) :
    callsOf t (calls ++ [(t, data)]) = callsOf t calls ++ [data] := by
  simp [callsOf]

theorem callsOf_append_of_ne {t u : ι} (h : u ≠ t) (calls : List (ι × Bytes)) (data : Bytes) :
    callsOf u (calls ++ [(t, data)]) = callsOf u calls := by
  simp [callsOf, h.symm]

theorem RwLock.State.next_pc_self (l : State ι) (t : ι) :
    (l.next ⟨t, .write⟩).pc t = ((l.pc t).step l.signal .write).2 := Function.update_self ..

theorem RwLock.State.next_pc_of_ne (l : State ι) {t u : ι} (h : u ≠ t) :
    (l.next ⟨t, .write⟩).pc u = l.pc u := Function.update_of_ne h ..

/-- The other threads stay where they are, with their calls. -/
theorem WriteStep.frame (hw : WriteStep s a s') {u : ι} (hu : u ≠ a.thread) :
    s'.lock.pc u = s.lock.pc u ∧ s'.call u = s.call u ∧ callsOf u s'.begun = callsOf u s.begun ∧
      callsOf u s'.written = callsOf u s.written := by
  cases hw with
  | begins hpc hlock hcall hout hbegun hwritten =>
    rw [hlock, hcall, hbegun, hwritten]
    exact ⟨s.lock.next_pc_of_ne hu, Function.update_of_ne hu .., callsOf_append_of_ne hu .., rfl⟩
  | locks hpc hst hlock hcall hout hbegun hwritten =>
    rw [hlock, hcall, hbegun, hwritten]
    exact ⟨s.lock.next_pc_of_ne hu, rfl, rfl, rfl⟩
  | block hpc hst hlock hcall hout hbegun hwritten =>
    rw [hlock, hcall, hbegun, hwritten]
    exact ⟨rfl, Function.update_of_ne hu .., rfl, rfl⟩
  | data hpc hst hlock hcall hout hbegun hwritten =>
    rw [hlock, hcall, hbegun, hwritten]
    exact ⟨rfl, Function.update_of_ne hu .., rfl, callsOf_append_of_ne hu ..⟩

/-- A thread on its way into the section stays on it, or comes to be in the section. -/
theorem RwLock.Pc.step_towards {p : Pc} (signal : Int32) (hp : p = .wLockLoad ∨ p = .wLockSub) :
    (p.step signal .write).2 = .wLockLoad ∨ (p.step signal .write).2 = .wLockSub ∨
      (p.step signal .write).2 = .writing := by
  obtain rfl | rfl := hp
  · simp only [Pc.step]
    split
    · exact Or.inl rfl
    · exact Or.inr (Or.inl rfl)
  · exact Or.inr (Or.inr rfl)

/-- The thread that moves, with its call. -/
theorem WriteStep.fits (hw : WriteStep s a s') (hf : WritesFree s a)
    (h : (s.call a.thread).Fits (s.lock.pc a.thread)) :
    (s'.call a.thread).Fits (s'.lock.pc a.thread) := by
  cases hw with
  | begins hpc hlock hcall hout hbegun hwritten =>
    rw [hlock, hcall, Function.update_self, s.lock.next_pc_self, hpc]
    exact ⟨fun _ => Or.inl rfl, nofun, fun _ => hf.2 hpc⟩
  | locks hpc hst hlock hcall hout hbegun hwritten =>
    rw [hlock, hcall, s.lock.next_pc_self]
    by_cases hd : (s.call a.thread).stage = .done
    · exact WriteCall.fits_of_done hd _
    -- a call that has not written is not yet in the section
    have hnot : s.lock.pc a.thread ≠ .writing := fun hp => hd (hst hp)
    refine ⟨fun _ => Pc.step_towards _ ?_, fun hdata => absurd (h.between hdata) hnot, h.size⟩
    obtain hp | hp | hp := h.inside hd
    · exact Or.inl hp
    · exact Or.inr hp
    · exact absurd hp hnot
  | block hpc hst hlock hcall hout hbegun hwritten =>
    rw [hlock, hcall, Function.update_self]
    exact ⟨fun _ => Or.inr (Or.inr hpc), fun _ => hpc, fun _ => h.size (by rw [hst]; nofun)⟩
  | data hpc hst hlock hcall hout hbegun hwritten =>
    rw [hlock, hcall, Function.update_self]
    exact WriteCall.fits_of_done rfl _

/-- The calls of the thread that moves. -/
theorem WriteStep.order (hw : WriteStep s a s')
    (h : (s.call a.thread).Fits (s.lock.pc a.thread))
    (ho : callsOf a.thread s.begun = callsOf a.thread s.written ++
      if (s.call a.thread).stage = .done then [] else [(s.call a.thread).data]) :
    callsOf a.thread s'.begun = callsOf a.thread s'.written ++
      if (s'.call a.thread).stage = .done then [] else [(s'.call a.thread).data] := by
  cases hw with
  | begins hpc hlock hcall hout hbegun hwritten =>
    rw [if_pos (h.done_of_outside hpc), List.append_nil] at ho
    rw [hbegun, hwritten, hcall, Function.update_self, callsOf_append_self, ho, if_neg nofun]
  | locks hpc hst hlock hcall hout hbegun hwritten =>
    rw [hbegun, hwritten, hcall]
    exact ho
  | block hpc hst hlock hcall hout hbegun hwritten =>
    rw [hst, if_neg nofun] at ho
    rw [hbegun, hwritten, hcall, Function.update_self, if_neg nofun]
    exact ho
  | data hpc hst hlock hcall hout hbegun hwritten =>
    rw [hst, if_neg nofun] at ho
    rw [hbegun, hwritten, hcall, Function.update_self, callsOf_append_self, if_pos rfl,
      List.append_nil]
    exact ho

end

/-! ## Whole frames -/

section
variable {ι : Type} [Fintype ι] [DecidableEq ι] {s s' : Writers ι} {a : WriteAction ι}

/-- What holds along the schedules that take the lock free. -/
structure Written (s : Writers ι) : Prop where
  lock : Sections s.lock
  fits : ∀ t, (s.call t).Fits (s.lock.pc t)
  frames : WholeFrames s

theorem written_init : Written ({} : Writers ι) where
  lock := RwLock.sections_init
  fits _ := WriteCall.fits_of_done rfl _
  frames := ⟨fun _ => rfl, nofun, fun _ => rfl⟩

/-- While a thread is in the section, no other is between its two writes. -/
theorem Written.eq_of_between (h : Written s) {t u : ι} (ht : s.lock.pc t = .writing)
    (hu : (s.call u).stage = .data) : u = t :=
  h.lock.eq_of_writing ht ((h.fits u).between hu)

theorem Written.sections (h : Written s) (hw : WriteStep s a s') (hf : WritesFree s a) :
    Sections s'.lock := by
  cases hw with
  | begins hpc hlock | locks hpc hst hlock =>
    rw [hlock]
    exact h.lock.next hf.1
  | block hpc hst hlock | data hpc hst hlock =>
    rw [hlock]
    exact h.lock

/-- The bytes of the frames, where nobody is between its writes. -/
theorem Written.whole (h : Written s) (hw : WriteStep s a s')
    (hno : ∀ t, (s'.call t).stage ≠ .data) :
    s'.bev.output = Framing.stream writtenFrame (s'.written.map Prod.snd) := by
  have hsame : (s.call a.thread).stage ≠ .data → ∀ t, (s.call t).stage ≠ .data := by
    intro hne t
    by_cases ht : t = a.thread
    · rw [ht]
      exact hne
    · rw [← (hw.frame ht).2.1]
      exact hno t
  have hself := hno a.thread
  cases hw with
  | begins hpc hlock hcall hout hbegun hwritten =>
    have hdone := (h.fits a.thread).done_of_outside hpc
    rw [hout, hwritten]
    exact h.frames.whole (hsame (by rw [hdone]; nofun))
  | locks hpc hst hlock hcall hout hbegun hwritten =>
    rw [hcall] at hself
    rw [hout, hwritten]
    exact h.frames.whole (hsame hself)
  | block hpc hst hlock hcall =>
    rw [hcall, Function.update_self] at hself
    exact absurd rfl hself
  | data hpc hst hlock hcall hout hbegun hwritten =>
    rw [hout, hwritten, h.frames.between _ hst, List.map_append, Framing.stream_append,
      List.append_assoc, List.map_cons, List.map_nil, Framing.stream_cons, Framing.stream_nil,
      List.append_nil]
    rfl

/-- The bytes of the frames and the block of a thread between its writes. -/
theorem Written.between (h : Written s) (hw : WriteStep s a s') {t : ι}
    (ht : (s'.call t).stage = .data) :
    s'.bev.output = Framing.stream writtenFrame (s'.written.map Prod.snd) ++
      blockOf (s'.call t).data := by
  by_cases hta : t = a.thread
  · subst hta
    cases hw with
    | begins hpc hlock hcall =>
      rw [hcall, Function.update_self] at ht
      cases ht
    | locks hpc hst hlock hcall hout hbegun hwritten =>
      rw [hcall] at ht ⊢
      rw [hout, hwritten]
      exact h.frames.between _ ht
    | block hpc hst hlock hcall hout hbegun hwritten =>
      -- the thread is alone in the section, so that the output is whole before its block
      have hno : ∀ u, (s.call u).stage ≠ .data := by
        intro u hu
        rw [h.eq_of_between hpc hu, hst] at hu
        cases hu
      rw [hout, hwritten, hcall, Function.update_self, h.frames.whole hno]
    | data hpc hst hlock hcall =>
      rw [hcall, Function.update_self] at ht
      cases ht
  · have hcall' := (hw.frame hta).2.1
    rw [hcall'] at ht ⊢
    cases hw with
    | begins _ _ _ hout _ hwritten | locks _ _ _ _ hout _ hwritten =>
      rw [hout, hwritten]
      exact h.frames.between t ht
    | block hpc | data hpc => exact absurd (h.eq_of_between hpc ht) hta

theorem Written.next (h : Written s) (hf : WritesFree s a) :
    ∃ s', writers.next s a = some s' ∧ WriteStep s a s' ∧ Written s' := by
  obtain ⟨s', hs, hw⟩ := (h.fits a.thread).step
  refine ⟨s', hs, hw, h.sections hw hf, fun t => ?_, fun hno => h.whole hw hno,
    fun t ht => h.between hw ht, fun t => ?_⟩ <;> by_cases ht : t = a.thread
  · rw [ht]
    exact hw.fits hf (h.fits a.thread)
  · obtain ⟨hpc, hcall, -, -⟩ := hw.frame ht
    rw [hpc, hcall]
    exact h.fits t
  · rw [ht]
    exact hw.order (h.fits a.thread) (h.frames.order a.thread)
  · obtain ⟨-, hcall, hbegun, hwritten⟩ := hw.frame ht
    rw [hcall, hbegun, hwritten]
    exact h.frames.order t

/-- **Threads that take the write lock while it is free write whole frames**, each thread those of
its calls in their order, and no step faults. -/
theorem wholeFrames_of_writesFree {as : List (WriteAction ι)}
    (hf : writers.Meets WritesFree writers.init as) :
    ∃ s, writers.run as = some s ∧ WholeFrames s := by
  have hstep : ∀ (s : Writers ι) a, WritesFree s a → Written s →
      ∃ s', writers.next s a = some s' ∧ Written s' := by
    intro s a hf h
    obtain ⟨s', hs, -, h'⟩ := h.next hf
    exact ⟨s', hs, h'⟩
  obtain ⟨s, hrun, h⟩ := System.exists_run_of_meets hstep hf written_init
  exact ⟨s, hrun, h.frames⟩

/-! ## All calls can be completed -/

/-- How many steps a thread has before it in its call, once it finds the lock free. -/
def stepsLeft : Pc → WriteStage → ℕ
  | .wLockLoad, _ => 7
  | .wLockSub, _ => 6
  | .writing, .block => 5
  | .writing, .data => 4
  | .writing, .done => 3
  | .wUnlockLoad, _ => 2
  | .wUnlockAdd, _ => 1
  | _, _ => 0

/-- A lock function goes on where the lock is free, or where the thread holds it. -/
theorem RwLock.Pc.stepsLeft_step {p : Pc} {signal : Int32} {st : WriteStage} (hp : p.WriteSide)
    (hne : p ≠ .outside) (hst : p = .writing → st = .done) (hfree : p.writers = 0 → signal = 0)
    (hheld : p.writers = 1 → signal.toInt = -1) :
    stepsLeft (p.step signal .write).2 st < stepsLeft p st := by
  cases p
  case outside => exact absurd rfl hne
  case wLockLoad =>
    rw [hfree rfl]
    exact Nat.lt_succ_self 6
  case wLockSub => cases st <;> simp [Pc.step, stepsLeft]
  case writing =>
    rw [hst rfl]
    exact Nat.lt_succ_self 2
  case wUnlockLoad =>
    have hneg : signal < 0 := by
      rw [Int32.lt_iff_toInt_lt, hheld rfl]
      decide
    simp only [Pc.step, if_pos hneg]
    exact Nat.lt_succ_self 1
  case wUnlockAdd => exact Nat.lt_succ_self 0
  all_goals exact hp.elim

/-- The steps that all threads have before them. -/
def Writers.left (s : Writers ι) : ℕ :=
  census (fun x : Pc × WriteStage => stepsLeft x.1 x.2) fun t => (s.lock.pc t, (s.call t).stage)

/-- Where not every thread is outside, one of them can go on. -/
theorem Written.exists_next (h : Written s) (hne : ¬ AtRest s.lock) :
    ∃ a s', WritesFree s a ∧ writers.next s a = some s' ∧ (Written s' ∧ s'.begun = s.begun) ∧
      s'.left < s.left := by
  obtain ⟨t, ht, hfree, hheld⟩ := h.lock.exists_inside hne
  have hf : WritesFree s ⟨t, [], 0⟩ :=
    ⟨h.lock.entersFree fun hsub => hfree (by rw [hsub]; rfl), fun hout => absurd hout ht⟩
  obtain ⟨s', hs, hw, h'⟩ := h.next hf
  refine ⟨_, s', hf, hs, ⟨h', ?_⟩, census_lt (t := t) ?_ fun u hu => ?_⟩
  · cases hw with
    | begins hpc => exact absurd hpc ht
    | locks _ _ _ _ _ hbegun | block _ _ _ _ _ hbegun | data _ _ _ _ _ hbegun => exact hbegun
  · cases hw with
    | begins hpc => exact absurd hpc ht
    | locks hpc hst hlock hcall =>
      simp only [hlock, hcall, s.lock.next_pc_self]
      exact Pc.stepsLeft_step (h.lock.side t) ht hst hfree hheld
    | block hpc hst hlock hcall | data hpc hst hlock hcall =>
      simp only [hlock, hcall, Function.update_self] at hpc hst ⊢
      rw [hpc, hst]
      exact Nat.lt_succ_self _
  · obtain ⟨hpc, hcall, -, -⟩ := hw.frame hu
    rw [hpc, hcall]

/-- **The calls that have begun can be completed from wherever such a schedule leads**, with no call
that begins in between: some continuation that takes the lock free brings every thread outside, and
what has been written then is whole frames, each thread's those of its calls in their order. -/
theorem writers_finish {as : List (WriteAction ι)}
    (hf : writers.Meets WritesFree writers.init as) (hrun : writers.run as = some s) :
    ∃ bs s', writers.Meets WritesFree s bs ∧ writers.runFrom s bs = some s' ∧ AtRest s'.lock ∧
      s'.begun = s.begun ∧ (∀ t, callsOf t s'.written = callsOf t s.begun) ∧
      s'.bev.output = Framing.stream writtenFrame (s'.written.map Prod.snd) := by
  have h : Written s := by
    refine System.inv_of_meets (fun s a s' hf hs h => ?_) hf hrun written_init
    obtain ⟨t, ht, -, h'⟩ := h.next hf
    rw [hs] at ht
    cases ht
    exact h'
  obtain ⟨bs, s', hm, hrun, ⟨h', hbegun⟩, hrest⟩ :=
    System.exists_run_done (S := writers) (C := WritesFree)
      (I := fun x => Written x ∧ x.begun = s.begun) (D := fun x => AtRest x.lock) Writers.left
      (fun x hx hne => by
        obtain ⟨a, y, hf, hy, ⟨h', hb⟩, hlt⟩ := hx.1.exists_next hne
        exact ⟨a, y, hf, hy, ⟨h', hb.trans hx.2⟩, hlt⟩) s ⟨h, rfl⟩
  have hdone : ∀ t, (s'.call t).stage = .done := fun t => (h'.fits t).done_of_outside (hrest t)
  refine ⟨bs, s', hm, hrun, hrest, hbegun, fun t => ?_, h'.frames.whole fun t => ?_⟩
  · rw [← hbegun, h'.frames.order t, if_pos (hdone t), List.append_nil]
  · rw [hdone t]
    nofun

/-- Thread `0` sends two bytes and thread `1` one byte; thread `1` has loaded the signal when thread
`0` has the lock, and goes on when the lock is free again. -/
def twoWrites : List (WriteAction (Fin 2)) :=
  let a : WriteAction (Fin 2) := ⟨0, [10, 11], 2⟩
  let b : WriteAction (Fin 2) := ⟨1, [20], 1⟩
  [a, b, a, a, b, a, a, a, a, a, b, b, b, b]

theorem wholeFrames_of_writesFree_two :
    writers.Meets WritesFree writers.init twoWrites ∧
      ∃ s, writers.run twoWrites = some s ∧ WholeFrames s :=
  ⟨by decide, wholeFrames_of_writesFree (by decide)⟩

/-- Thread `0` is in the section and thread `1` before it. -/
theorem writers_finish_two :
    ∃ s, writers.run (twoWrites.take 6) = some s ∧ s.lock.pc 0 = .writing ∧
      s.lock.pc 1 = .wLockSub ∧
      ∃ bs s', writers.Meets WritesFree s bs ∧ writers.runFrom s bs = some s' ∧ AtRest s'.lock ∧
        s'.begun = s.begun ∧ (∀ t, callsOf t s'.written = callsOf t s.begun) ∧
        s'.bev.output = Framing.stream writtenFrame (s'.written.map Prod.snd) := by
  have hf : writers.Meets WritesFree writers.init (twoWrites.take 6) := by decide
  exact ⟨_, rfl, rfl, rfl, writers_finish hf rfl⟩

end

/-! ## Without the condition -/

/-- Both threads are let into the section, and thread `1` writes its block between the block and the
data of thread `0`. -/
theorem not_wholeFrames_writers :
    ¬ ∀ (as : List (WriteAction (Fin 2))) (s : Writers (Fin 2)), writers.run as = some s →
      WholeFrames s := by
  intro h
  let a : WriteAction (Fin 2) := ⟨0, [10, 11], 2⟩
  let b : WriteAction (Fin 2) := ⟨1, [20], 1⟩
  have hw := (h [a, b, a, b, a, b, a, b, a, b] _ rfl).whole (by decide)
  revert hw
  decide

/-! ## A thread that is not interrupted -/

/-- `bufferevent_write` of the block. -/
theorem Bufferevent.write_block (bev : Bufferevent) (block : UInt32) :
    bev.write (Bytes.le32 block) sizeofBlock =
      .ok (true, { bev with output := bev.output ++ Bytes.le32 block }) := by
  have hw := bev.write_length (Bytes.le32 block) (by rw [Bytes.length_le32]; decide)
  rwa [Bytes.length_le32] at hw

section
variable {ι : Type} [DecidableEq ι] {s : Writers ι} {t : ι} (data : Bytes) (dataSize : Int32)

/-- It begins, loads the signal and subtracts itself. -/
theorem writers_lock_run (ht : s.lock.pc t = .outside) (hs : ¬ s.lock.signal > 0) :
    ∃ s', writers.runFrom s (List.replicate 3 ⟨t, data, dataSize⟩) = some s' ∧
      s'.lock = ⟨s.lock.signal - 1, Function.update s.lock.pc t .writing⟩ ∧
      s'.call t = ⟨data, dataSize, .block⟩ ∧ s'.bev = s.bev := by
  refine ⟨{ s with
    lock := ⟨s.lock.signal - 1, Function.update s.lock.pc t .writing⟩
    call := Function.update s.call t ⟨data, dataSize, .block⟩
    begun := s.begun ++ [(t, data)] }, ?_, rfl, Function.update_self .., rfl⟩
  simp [System.runFrom, List.replicate, writers, Writers.step, Writers.locks, State.next, Pc.step,
    ht, hs, Except.toOption, pure, Except.pure]

/-- It writes the block and the data. -/
theorem writers_write_run {c : WriteCall} {ok : Bool} {bev : Bufferevent}
    (ht : s.lock.pc t = .writing) (hc : s.call t = c) (hst : c.stage = .block)
    (hw : { s.bev with output := s.bev.output ++ Bytes.le32 c.dataSize.toUInt32 }.write
      c.data c.dataSize.sizeT = .ok (ok, bev)) :
    ∃ s', writers.runFrom s (List.replicate 2 ⟨t, data, dataSize⟩) = some s' ∧ s'.lock = s.lock ∧
      (s'.call t).stage = .done ∧ s'.bev = bev := by
  refine ⟨{ s with
    bev := bev
    call := Function.update s.call t { c with stage := .done }
    written := if ok then s.written ++ [(t, c.data)] else s.written }, ?_, rfl, ?_, rfl⟩
  · simp [System.runFrom, List.replicate, writers, Writers.step, Writers.writes, ht, hc, hst,
      Bufferevent.write_block, hw, Except.ok_bind, Except.toOption, pure, Except.pure]
  · simp only [Function.update_self]

/-- It leaves the section. -/
theorem writers_unlock_run (ht : s.lock.pc t = .writing) (hst : (s.call t).stage = .done) :
    ∃ n s', writers.runFrom s (List.replicate n ⟨t, data, dataSize⟩) = some s' ∧
      s'.lock = ⟨rwWUnlock s.lock.signal, Function.update s.lock.pc t .outside⟩ ∧
      s'.bev = s.bev := by
  -- a signal that is not negative is left as it is
  by_cases hs : s.lock.signal < 0
  · refine ⟨3, { s with
      lock := ⟨rwWUnlock s.lock.signal, Function.update s.lock.pc t .outside⟩ }, ?_, rfl, rfl⟩
    simp [System.runFrom, List.replicate, writers, Writers.step, Writers.writes, Writers.locks,
      State.next, Pc.step, rwWUnlock, ht, hst, hs, Except.toOption, pure, Except.pure]
  · refine ⟨2, { s with
      lock := ⟨rwWUnlock s.lock.signal, Function.update s.lock.pc t .outside⟩ }, ?_, rfl, rfl⟩
    simp [System.runFrom, List.replicate, writers, Writers.step, Writers.writes, Writers.locks,
      State.next, Pc.step, rwWUnlock, ht, hst, hs, Except.toOption, pure, Except.pure]

variable {data dataSize}

/-- The steps of a thread alone are those of `writeBufferOnce`. -/
theorem writeBufferOnce_run {info info' : BevInfor} {ok : Bool} (ht : s.lock.pc t = .outside)
    (hbev : s.bev = info.bev) (hsignal : s.lock.signal = info.writeSingal)
    (h : info.writeBufferOnce data dataSize = .ok (ok, info')) :
    ∃ n s', writers.runFrom s (List.replicate n ⟨t, data, dataSize⟩) = some s' ∧
      s'.bev = info'.bev ∧
      s'.lock = ⟨info'.writeSingal, Function.update s.lock.pc t .outside⟩ := by
  obtain ⟨signal, hsig, h⟩ := Except.bind_eq_ok.1 h
  simp only [Bufferevent.write_block, Except.ok_bind, Bool.not_true, Bool.false_eq_true,
    if_false] at h
  obtain ⟨⟨ok', bev⟩, hw, h⟩ := Except.bind_eq_ok.1 h
  cases h
  obtain ⟨hfree, rfl⟩ : ¬ s.lock.signal > 0 ∧ signal = s.lock.signal - 1 := by
    rw [hsignal]
    unfold rwWLock at hsig
    split at hsig <;> cases hsig
    exact ⟨‹_›, rfl⟩
  obtain ⟨s₁, hrun₁, hlock₁, hcall₁, hbev₁⟩ := writers_lock_run data dataSize ht hfree
  rw [← hbev, ← hbev₁] at hw
  have ht₁ : s₁.lock.pc t = .writing := by
    rw [hlock₁]
    exact Function.update_self ..
  obtain ⟨s₂, hrun₂, hlock₂, hst₂, hbev₂⟩ := writers_write_run data dataSize ht₁ hcall₁ rfl hw
  rw [← hlock₂] at ht₁
  obtain ⟨n, s₃, hrun₃, hlock₃, hbev₃⟩ := writers_unlock_run data dataSize ht₁ hst₂
  refine ⟨3 + 2 + n, s₃, ?_, hbev₃.trans hbev₂, ?_⟩
  · rw [List.replicate_add, List.replicate_add]
    exact System.runFrom_append (System.runFrom_append hrun₁ hrun₂) hrun₃
  · rw [hlock₃, hlock₂, hlock₁, Function.update_idem]

end

end Net
