import Mtc.Lock.Proof.Table
import Mtc.Lock.Spec

/-!
# The version counter and the wait list against the run

* `version_iff`: a record's `version_no` counts the write grants on it exactly when the record was
  not created by a `W_LOCK`: `insert_page_lock_t` grants the lock and leaves the counter at 0,
  every other grant goes through `update_success_page_lock_t` (`version_count`).
* `noLostWaiter_iff`: no waiter is lost exactly in the runs in which no request is refused.
  `update_fail_page_lock_t` builds the waiter's entry and never adds it, so the hand-off of
  `update_unlock_page_lock_t`, which is right (`handsOff`), never has a waiter.
-/

namespace Lock

/-! ## Versions -/

/-- `version_no` and the write grants, one apart if the record's first request was a `W_LOCK`. -/
def VersionOk (f : UInt64) (as : List Ask) : Option PageLockT → Prop
  | none => as.find? (fun a => a.fold = f) = none ∧ writeGrants f as = 0
  | some r => ∃ a, as.find? (fun a => a.fold = f) = some a ∧
      (r.versionNo.toNat + if a.request.lockType = .wLock then 1 else 0) % 2 ^ 64 =
        writeGrants f as % 2 ^ 64

theorem writeGrants_snoc (f : UInt64) (as : List Ask) (a : Ask) :
    writeGrants f (as ++ [a]) =
      if grantsWrite f (lockMachine.exec as) a then writeGrants f as + 1 else writeGrants f as :=
  Machine.ghost_snoc ..

/-- Without waiters a write grant is a `W_LOCK` answered `LOCK_SUCCESS`. -/
theorem grantsWrite_noWaiter {t : LockTable} {a : Ask} (h : NoWaiter (lookup t a.key)) :
    grantsWrite a.fold t a =
      decide (a.request.lockType = .wLock ∧
        (lockMachine.step t a).2.2.replyType = .lockSuccess) := by
  have hoff : handsOffWrite t a = false := by
    unfold handsOffWrite
    rw [hashFindInt_fold]
    cases hl : lookup t a.key with
    | none => rfl
    | some r => simp [h r hl]
  simp [grantsWrite, hoff]

theorem version_count (s p : UInt32) (as : List Ask) :
    VersionOk (calFold s p) as (lookup (lockMachine.exec as) (hashKey (calFold s p))) := by
  induction as using List.reverseRecOn with
  | nil => exact ⟨rfl, rfl⟩
  | append_singleton as a ih =>
    rw [Machine.exec_snoc]
    by_cases hf : a.fold = calFold s p
    · rw [← hf] at ih ⊢
      change VersionOk a.fold _ (lookup _ a.key) at ih ⊢
      have hnw := exec_noWaiter as a.key
      have hg := writeGrants_snoc a.fold as a
      rw [grantsWrite_noWaiter hnw] at hg
      obtain ⟨r, hr, ha⟩ := step_answers (lockMachine.exec as) a
      rw [hr]
      generalize (lockMachine.step (lockMachine.exec as) a).2 = out at ha hg
      cases hl : lookup (lockMachine.exec as) a.key with
      | none =>
        -- the record's first request: nothing was granted before it
        rw [hl] at ih ha
        obtain ⟨hfind, hzero⟩ := ih
        cases ha with
        | insert =>
          refine ⟨a, by simp [List.find?_append, hfind], ?_⟩
          rw [hg, hzero]
          by_cases hw : a.request.lockType = .wLock
          · simp [hw, insertPageLockT, PageLockOf.inserted, PageLockRequest.reply]
          · simp [hw, insertPageLockT, PageLockOf.inserted]
      | some r0 =>
        rw [hl] at ih ha hnw
        obtain ⟨b, hfind, hv⟩ := ih
        refine ⟨b, by simp [List.find?_append, hfind], ?_⟩
        rw [hg]
        cases ha with
        | release hu => simpa [hu, updateUnlock_noWaiter (hnw r0 rfl)] using hv
        | grant hu hc =>
          by_cases hw : a.request.lockType = .wLock
          · simp only [updateSuccessPageLockT, PageLockOf.granted, hw, if_true, UInt64.toNat_add,
              UInt64.toNat_one, PageLockRequest.reply, and_self, decide_true]
            omega
          · simpa [hw, updateSuccessPageLockT, PageLockOf.granted] using hv
        | refuse hu hr hc =>
          simpa [PageLockRequest.reply, updateFail_noWaiter (hnw r0 rfl)] using hv
    · have hk : a.key ≠ hashKey (calFold s p) := fun hk => hf (hashKey_calFold_inj.1 hk)
      rw [lookup_step_ne _ a hk]
      have hg : writeGrants (calFold s p) (as ++ [a]) = writeGrants (calFold s p) as := by
        rw [writeGrants_snoc]
        simp [grantsWrite, hf]
      cases hl : lookup (lockMachine.exec as) (hashKey (calFold s p)) with
      | none =>
        rw [hl] at ih
        exact ⟨by simp [List.find?_append, ih.1, hf], by rw [hg]; exact ih.2⟩
      | some r =>
        rw [hl] at ih
        obtain ⟨b, hfind, hv⟩ := ih
        exact ⟨b, by simp [List.find?_append, hfind], by rw [hg]; exact hv⟩

/-- **The version law** of a record holds exactly when the first request for its fold was not a
`W_LOCK`. -/
theorem version_iff (as : List Ask) (r : PageLockT) (hr : r ∈ lockMachine.exec as) :
    r.versionNo.toNat = writeGrants r.mFold as % 2 ^ 64 ↔
      ∀ a, as.find? (fun a => a.fold = r.mFold) = some a → a.request.lockType ≠ .wLock := by
  have hok := exec_tableOk as
  have h := version_count r.spaceId r.pageNo as
  rw [← hok.fold r hr, lookup_of_mem hok hr] at h
  obtain ⟨a, hfind, hv⟩ := h
  have hlt := r.versionNo.toNat_lt
  rw [hfind]
  by_cases hw : a.request.lockType = .wLock
  · simp only [hw, if_true] at hv
    refine ⟨fun he => ?_, fun h => absurd hw (h a rfl)⟩
    omega
  · simp only [hw, if_false] at hv
    refine ⟨fun _ b hb => ?_, fun _ => ?_⟩
    · cases hb
      exact hw
    · rw [← hv]
      omega

/-- A reader creates the record, a writer follows it. -/
theorem version_iff_reader_first :
    let as : List Ask := [⟨[65], ⟨1, 1, 0, .rLock⟩⟩, ⟨[65], ⟨1, 1, 0, .unlock⟩⟩,
      ⟨[66], ⟨1, 1, 0, .wLock⟩⟩]
    let r : PageLockT := ⟨1048578, 1, 1, 1, .wLock, [[66]], []⟩
    r ∈ lockMachine.exec as ∧ (r.versionNo.toNat = writeGrants r.mFold as % 2 ^ 64 ↔
      ∀ a, as.find? (fun a => a.fold = r.mFold) = some a → a.request.lockType ≠ .wLock) :=
  ⟨by decide, version_iff _ _ (by decide)⟩

/-- A writer's first request leaves the version at 0. -/
theorem not_version :
    ¬ ∀ (as : List Ask) (r : PageLockT), r ∈ lockMachine.exec as →
      r.versionNo.toNat = writeGrants r.mFold as % 2 ^ 64 := by
  intro h
  have := h [⟨[65], ⟨1, 1, 1, .wLock⟩⟩] ⟨1048578, 1, 1, 0, .wLock, [[65]], []⟩ (by decide)
  revert this
  decide

/-! ## Waiters -/

/-- The hand-off of `update_unlock_page_lock_t`, in any table. -/
theorem handsOff (t : LockTable) (a : Ask) : HandsOff t a := by
  intro hu r hr hh w ws hw
  rw [hashFindInt_fold] at hr
  obtain ⟨r', hr', ha⟩ := step_answers t a
  rw [hr] at ha
  refine ⟨r', hr', ?_⟩
  generalize (lockMachine.step t a).2 = out at ha
  cases ha with
  | release =>
    simp only [updateUnlockPageLockT, PageLockOf.unlocked, hh, hw, List.isEmpty_nil, if_true,
      and_self]
  | grant hu' => exact absurd hu hu'
  | refuse hu' => exact absurd hu hu'

theorem pending_snoc (f : UInt64) (as : List Ask) (a : Ask) :
    pending f (as ++ [a]) = pendingStep f (pending f as) (lockMachine.exec as) a :=
  Machine.ghost_snoc ..

theorem refuses_iff {t : LockTable} {a : Ask} :
    Refuses t a ↔ (lockMachine.step t a).2.2.replyType = .lockFail := by
  obtain ⟨r, -, ha⟩ := step_answers t a
  unfold Refuses
  rw [hashFindInt_fold]
  generalize (lockMachine.step t a).2 = out at ha
  generalize lookup t a.key = o at ha
  cases ha with
  | insert => simp [PageLockRequest.reply]
  | release hu => simp [PageLockRequest.reply, hu]
  | grant hu hc =>
    simp only [PageLockRequest.reply, Option.some.injEq, exists_eq_left', reduceCtorEq, iff_false]
    rintro ⟨-, hr, hn⟩
    rcases hc with hc | hc
    · exact hr hc
    · exact hn (compatible_iff.1 hc)
  | refuse hu hr hc =>
    simp only [PageLockRequest.reply, Option.some.injEq, exists_eq_left', iff_true]
    refine ⟨hu, hr, fun h => ?_⟩
    rw [compatible_iff.2 h] at hc
    cases hc

/-- Where nothing is refused, nobody is pending. -/
theorem pending_eq_nil {as : List Ask} (f : UInt64)
    (hg : lockMachine.Guarded (fun _ t a => ¬ Refuses t a) as) : pending f as = [] := by
  induction as using List.reverseRecOn with
  | nil => rfl
  | append_singleton as a ih =>
    obtain ⟨hg, ha⟩ := Machine.guarded_snoc.1 hg
    rw [refuses_iff] at ha
    rw [pending_snoc, ih hg]
    simp [pendingStep, ha]

/-- A refused client is pending. -/
theorem mem_pending_of_refuses {as : List Ask} {a : Ask}
    (h : Refuses (lockMachine.exec as) a) :
    ∃ w ∈ pending a.fold (as ++ [a]), w.name = a.asker := by
  have hfail := refuses_iff.1 h
  have hrefused : ∃ w ∈ addRefusal (pending a.fold as) a.asker a.request.lockType,
      w.name = a.asker := by
    unfold addRefusal
    split
    · rename_i hany
      obtain ⟨w, hw, hn⟩ := List.any_eq_true.1 hany
      rw [decide_eq_true_eq] at hn
      refine ⟨_, List.mem_map_of_mem hw, ?_⟩
      split <;> exact hn
    · exact ⟨_, List.mem_append_right _ (List.mem_singleton.2 rfl), rfl⟩
  obtain ⟨w, hw, hn⟩ := hrefused
  refine ⟨w, ?_, hn⟩
  -- the refusal changes no holder
  have hcount : holderCount (lockMachine.step (lockMachine.exec as) a).1 a.fold w.name =
      holderCount (lockMachine.exec as) a.fold w.name := by
    obtain ⟨r, hr, ha⟩ := step_answers (lockMachine.exec as) a
    rw [holderCount, holderCount, hashFindInt_fold, hashFindInt_fold, hr]
    generalize (lockMachine.step (lockMachine.exec as) a).2 = out at ha hfail
    generalize lookup (lockMachine.exec as) a.key = o at ha
    cases ha with
    | insert => cases hfail
    | release => cases hfail
    | grant => cases hfail
    | refuse => rfl
  rw [pending_snoc, pendingStep, if_pos rfl]
  simp only [hfail, if_true, List.mem_filter, decide_eq_true_eq]
  exact ⟨hw, fun hu => h.1 hu.1, Nat.le_of_eq hcount⟩

/-- A refused client is pending, and no wait list has anyone. -/
theorem not_refuses_of_noLostWaiter {as : List Ask} (h : NoLostWaiter as) :
    lockMachine.Guarded (fun _ t a => ¬ Refuses t a) as := by
  intro pre a post he hr
  obtain ⟨w, hw, -⟩ := mem_pending_of_refuses hr
  obtain ⟨r, hl, -⟩ := step_answers (lockMachine.exec pre) a
  rw [← Machine.exec_snoc] at hl
  have hmem := mem_of_lookup hl
  have hfold : r.mFold = a.fold :=
    ((exec_tableOk (pre ++ [a])).key_eq hmem).1 (lookup_key hl).symm |>.symm
  have hq := h.1 (pre ++ [a]) ⟨post, by simp [he]⟩ r hmem
  rw [hfold, exec_noWaiter _ _ r hl] at hq
  have := hq.1 w hw
  simp at this

/-- **No waiter is lost** exactly in the runs in which no request is refused. -/
theorem noLostWaiter_iff (as : List Ask) :
    NoLostWaiter as ↔ lockMachine.Guarded (fun _ t a => ¬ Refuses t a) as := by
  refine ⟨not_refuses_of_noLostWaiter, fun h => ⟨?_, fun pre a _ _ => handsOff _ a⟩⟩
  rintro pre ⟨post, rfl⟩ r hr
  rw [pending_eq_nil r.mFold h.of_append]
  exact ⟨fun x hx => absurd hx List.not_mem_nil, List.nil_sublist _⟩

/-- The second writer is refused, and queued nowhere. -/
theorem not_noLostWaiter : ¬ ∀ as : List Ask, NoLostWaiter as := by
  intro h
  have hr : Refuses (lockMachine.exec [⟨[65], ⟨1, 1, 0, .wLock⟩⟩]) ⟨[66], ⟨1, 1, 0, .wLock⟩⟩ :=
    refuses_iff.2 (by decide)
  exact not_refuses_of_noLostWaiter (h [⟨[65], ⟨1, 1, 0, .wLock⟩⟩, ⟨[66], ⟨1, 1, 0, .wLock⟩⟩])
    [⟨[65], ⟨1, 1, 0, .wLock⟩⟩] _ [] rfl hr

end Lock
