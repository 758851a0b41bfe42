import Mtc.Lock.Proof.Table
import Mtc.Lock.Spec

/-!
# Isolation between pages, and the try-lock of write-only clients

Both are statements about the replies of whole runs.

* `trace_filter_key`: the requests of one key get the replies they would get alone. A page is
  therefore isolated from a set of others exactly when none of them has its fold
  (`isolated_iff`); `cal_fold` maps 64 bits of page identity to 32, and nothing compares the
  `space_id` and `page_no` a record keeps.
* `tryLock_refines`: clients that only write and unlock what they own see an exclusive try-lock.
-/

namespace Lock

/-! ## Isolation -/

/-- The answer depends on the record alone. -/
theorem Answers.det {o : Option PageLockT} {a : Ask} {r r' : PageLockT}
    {out out' : Int × PageLockReply} (h : Answers o a r out) (h' : Answers o a r' out') :
    r = r' ∧ out = out' := by
  cases h with
  | insert =>
    cases h'
    exact ⟨rfl, rfl⟩
  | release hu =>
    cases h' with
    | release => exact ⟨rfl, rfl⟩
    | grant hu' => exact absurd hu hu'
    | refuse hu' => exact absurd hu hu'
  | grant hu hc =>
    cases h' with
    | release hu' => exact absurd hu' hu
    | grant => exact ⟨rfl, rfl⟩
    | refuse _ hr hc' =>
      rcases hc with hc | hc
      · exact absurd hc hr
      · rw [hc] at hc'
        cases hc'
  | refuse hu hr hc =>
    cases h' with
    | release hu' => exact absurd hu' hu
    | grant _ hc' =>
      rcases hc' with hc' | hc'
      · exact absurd hc' hr
      · rw [hc] at hc'
        cases hc'
    | refuse => exact ⟨rfl, rfl⟩

/-- **Keys are isolated** from one another. -/
theorem trace_filter_key (k : UInt32) (as : List Ask) :
    (lockMachine.trace as).filter (fun e => e.1.key == k) =
      lockMachine.trace (as.filter fun a => a.key == k) := by
  refine (Machine.trace_filter_of_view (M := lockMachine) (fun a => a.key == k)
    (fun t => lookup t k) (fun t a hk => ?_) (fun t t' a hk hv => ?_) as).2
  · exact lookup_step_ne t a (by simpa using hk)
  · have hk : a.key = k := by simpa using hk
    subst hk
    obtain ⟨r, hr, ha⟩ := step_answers t a
    obtain ⟨r', hr', ha'⟩ := step_answers t' a
    rw [hv] at ha
    obtain ⟨rfl, ho⟩ := ha.det ha'
    exact ⟨by rw [hr, hr'], ho⟩

/-- A page whose fold no other page of the run has is isolated. -/
theorem isolated_of_fold {p : UInt32 × UInt32} {as : List Ask}
    (h : ∀ a ∈ as, a.fold = calFold p.1 p.2 → a.page = p) : Isolated p as := by
  have hpage : ∀ a ∈ as, decide (a.page = p) = (a.key == hashKey (calFold p.1 p.2)) := by
    intro a ha
    rw [Bool.eq_iff_iff, decide_eq_true_eq, beq_iff_eq]
    refine ⟨fun hp => ?_, fun hk => h a ha (hashKey_calFold_inj.1 hk)⟩
    rw [← hp]
    rfl
  have htr : ∀ e ∈ lockMachine.trace as, e.1 ∈ as := by
    intro e he
    rw [← lockMachine.trace_map_fst as]
    exact List.mem_map_of_mem (f := fun e : Event => e.1) he
  unfold Isolated
  rw [List.filter_congr fun e he => hpage e.1 (htr e he), List.filter_congr hpage,
    trace_filter_key]

/-- A write request for one page of a fold is answered as if it were for the other. -/
theorem not_isolated {p q : UInt32 × UInt32} (hne : q ≠ p)
    (hf : calFold q.1 q.2 = calFold p.1 p.2) :
    ¬ Isolated p [⟨[65], ⟨q.1, q.2, 0, .wLock⟩⟩, ⟨[66], ⟨p.1, p.2, 0, .wLock⟩⟩] := by
  simp [Isolated, Machine.trace, Machine.traceFrom, lockMachine, checkLockRequest, hashFindInt,
    findRecord, hashAddInt, insertPageLockT, PageLockOf.inserted, hf, Ask.page, hne, compatible,
    lockCompatibilityMatrix, PageLockType.val]

/-- **A page is isolated from the pages `S`** in every run exactly when none of them has its
fold. -/
theorem isolated_iff (p : UInt32 × UInt32) (S : Set (UInt32 × UInt32)) :
    (∀ as : List Ask, (∀ a ∈ as, a.page = p ∨ a.page ∈ S) → Isolated p as) ↔
      ∀ q ∈ S, calFold q.1 q.2 = calFold p.1 p.2 → q = p := by
  refine ⟨fun h q hq hf => ?_, fun h as has => isolated_of_fold fun a ha hf => ?_⟩
  · by_contra hne
    refine not_isolated hne hf (h _ fun a ha => ?_)
    simp only [List.mem_cons, List.not_mem_nil, or_false] at ha
    rcases ha with rfl | rfl
    · exact .inr hq
    · exact .inl rfl
  · rcases has a ha with hp | hp
    · exact hp
    · exact h a.page hp hf

/-- Pages `(0, 1048577)` and `(1, 0)` have one fold: the second client is refused a page that
nobody asked for. -/
theorem not_isolated_folds : ¬ ∀ (as : List Ask) (p : UInt32 × UInt32), Isolated p as := by
  intro h
  exact not_isolated (p := (1, 0)) (q := (0, 1048577)) (by decide) (by decide) (h _ _)

/-! ## The try-lock -/

/-- The record of an owned and of a free lock. -/
def OwnedBy : Option PageLockT → Option Bytes → Prop
  | none, none => True
  | none, some _ => False
  | some r, none => r.lockType = .unlock ∧ r.lockHolder = [] ∧ r.waitList = []
  | some r, some c => r.lockType = .wLock ∧ r.lockHolder = [c] ∧ r.waitList = []

/-- Every record, absent or not, is that of its fold's optional owner. -/
def TryLockSim (t : LockTable) (owner : UInt64 → Option Bytes) : Prop :=
  ∀ s p, OwnedBy (lookup t (hashKey (calFold s p))) (owner (calFold s p))

theorem OwnedBy.noWaiter {o : Option PageLockT} {w : Option Bytes} (h : OwnedBy o w) :
    NoWaiter o := by
  rintro r rfl
  cases w with
  | none => exact h.2.2
  | some c => exact h.2.2

theorem OwnedBy.step {o : Option PageLockT} {owner : UInt64 → Option Bytes} {a : Ask}
    {r : PageLockT} {out : Int × PageLockReply} (h : OwnedBy o (owner a.fold))
    (hu : OwnerUse owner a) (ha : Answers o a r out) :
    OwnedBy (some r) ((tryLock.step owner a).1 a.fold) ∧ out.2 = (tryLock.step owner a).2 := by
  have hnw := h.noWaiter
  cases ha with
  | insert =>
    -- an absent record has no owner, so nobody sends `UNLOCK` for it
    have ho : owner a.fold = none := by
      cases ho : owner a.fold with
      | none => rfl
      | some c => rw [ho] at h; exact h.elim
    rcases hu with hw | ⟨-, hc⟩
    · simp [tryLock, hw, ho, OwnedBy, insertPageLockT, PageLockOf.inserted]
    · rw [ho] at hc
      cases hc
  | @release a r hl =>
    rcases hu with hw | ⟨-, hc⟩
    · rw [hl] at hw
      cases hw
    · rw [hc] at h
      obtain ⟨-, hh, hwl⟩ := h
      rw [updateUnlock_noWaiter hwl]
      simp [tryLock, hl, OwnedBy, hh, hwl]
  | @grant a r hl hc =>
    rcases hu with hw | ⟨hw, -⟩
    · -- the matrix allows no writer, so the record is a released one
      have hr : r.lockType = .unlock := by
        rcases hc with hc | hc
        · exact hc
        · rw [hw] at hc
          cases hr : r.lockType <;> rw [hr] at hc <;> cases hc
      cases ho : owner a.fold with
      | none =>
        rw [ho] at h
        obtain ⟨-, hh, hwl⟩ := h
        simp [tryLock, hw, ho, OwnedBy, updateSuccessPageLockT, PageLockOf.granted, hh, hwl]
      | some c =>
        rw [ho] at h
        rw [h.1] at hr
        cases hr
    · exact absurd hw hl
  | @refuse a r hl hr hc =>
    rw [updateFail_noWaiter (hnw r rfl)]
    cases ho : owner a.fold with
    | none =>
      rw [ho] at h
      exact absurd h.1 hr
    | some c =>
      rw [ho] at h
      rcases hu with hw | ⟨hw, -⟩
      · simpa [tryLock, hw, ho] using h
      · exact absurd hw hl

/-- **Write-only use refines an exclusive try-lock.** -/
theorem tryLock_refines {as : List Ask} (hg : tryLock.Guarded (fun _ => OwnerUse) as) :
    (lockMachine.trace as).map (fun e => e.2.2) = (tryLock.trace as).map fun e => e.2 := by
  refine (Machine.trace_map_of_sim (M := lockMachine) (R := TryLockSim) (fun o => o.2) ?_ ?_ hg).2
  · intro s p
    exact trivial
  · intro t owner a hR hu
    obtain ⟨r, hr, ha⟩ := step_answers t a
    obtain ⟨hown, hout⟩ := OwnedBy.step (hR a.request.spaceId a.request.pageNo) hu ha
    refine ⟨fun s p => ?_, hout⟩
    by_cases hf : calFold s p = a.fold
    · rw [hf]
      change OwnedBy (lookup _ a.key) _
      rw [hr]
      exact hown
    · have hk : a.key ≠ hashKey (calFold s p) := fun hk => hf (hashKey_calFold_inj.1 hk.symm)
      have hne : (tryLock.step owner a).1 (calFold s p) = owner (calFold s p) := by
        unfold tryLock
        dsimp only
        split
        · simp [hf]
        · split <;> simp [hf]
      rw [lookup_step_ne t a hk, hne]
      exact hR s p

/-- A refused writer, the owner's release, and the next writer. -/
theorem tryLock_refines_writers :
    let p : PageLockRequest := ⟨1, 1, 0, .wLock⟩
    let as : List Ask :=
      [⟨[65], p⟩, ⟨[66], p⟩, ⟨[65], { p with lockType := .unlock }⟩, ⟨[66], p⟩]
    (lockMachine.trace as).map (fun e => e.2.2) = (tryLock.trace as).map fun e => e.2 :=
  tryLock_refines (by decide)

end Lock
