import Mtc.Lock.Manager

/-!
# One step of the lock table, record by record

`step_answers` says once what `check_lock_request` can do: the record under the request's key is
inserted, released, granted or refused (`Answers`), with the reply of that branch, and no other
key's record changes (`lookup_step_ne`). `record_inv` is the invariant rule that follows: what
the four cases keep holds of the record of every key after every run. It comes with the fact
that no record of a run ever has a waiter (`exec_noWaiter`): a refused asker is not queued.

`TableOk`: no two records share a key, and every record has the fold of its page, so that
"a record of the table" and "the record found under a key" are the same (`lookup_of_mem`).
-/

namespace Lock

/-! ## Keys -/

/-- The key of a request's record. -/
def Ask.key (a : Ask) : UInt32 := hashKey a.fold

/-- The record `HASH_FIND_INT` finds under a key. -/
def lookup (t : LockTable) (k : UInt32) : Option PageLockT :=
  t.find? fun r => hashKey r.mFold == k

theorem hashFindInt_fold (t : LockTable) (a : Ask) : hashFindInt t a.fold = lookup t a.key := rfl

theorem hashKey_calFold (s p : UInt32) : hashKey (calFold s p) = (s <<< 20) + s + p := by
  simp only [hashKey, calFold, UInt32.toUInt32_toUInt64]

/-- The key loses nothing of a fold: `cal_fold` is a 32-bit sum. -/
theorem hashKey_calFold_inj {s p s' p' : UInt32} :
    hashKey (calFold s p) = hashKey (calFold s' p') ↔ calFold s p = calFold s' p' := by
  refine ⟨fun h => ?_, fun h => by rw [h]⟩
  rw [hashKey_calFold, hashKey_calFold] at h
  rw [calFold, calFold, h]

theorem lookup_key {t : LockTable} {k : UInt32} {r : PageLockT} (h : lookup t k = some r) :
    hashKey r.mFold = k := by
  simpa using List.find?_some h

theorem mem_of_lookup {t : LockTable} {k : UInt32} {r : PageLockT} (h : lookup t k = some r) :
    r ∈ t := List.mem_of_find?_eq_some h

theorem lookup_eq_none {t : LockTable} {k : UInt32} :
    lookup t k = none ↔ ∀ r ∈ t, hashKey r.mFold ≠ k := by
  simp [lookup]

/-! ## Writing a record -/

theorem lookup_cons_self {t : LockTable} {r : PageLockT} :
    lookup (r :: t) (hashKey r.mFold) = some r := by
  simp [lookup]

theorem lookup_cons_ne {t : LockTable} {r : PageLockT} {k : UInt32} (h : hashKey r.mFold ≠ k) :
    lookup (r :: t) k = lookup t k := by
  simp [lookup, h]

theorem writeFound_cons (t : LockTable) (r : PageLockT) (f : UInt64) (g : PageLockT → PageLockT) :
    writeFound (r :: t) f g =
      if hashKey r.mFold == hashKey f then g r :: t else r :: writeFound t f g := rfl

/-- The write goes to the record that was found. -/
theorem lookup_writeFound {g : PageLockT → PageLockT} (hg : ∀ r, (g r).mFold = r.mFold)
    (f : UInt64) : ∀ t : LockTable,
      lookup (writeFound t f g) (hashKey f) = (lookup t (hashKey f)).map g
  | [] => rfl
  | r :: t => by
    rw [writeFound_cons]
    by_cases h : hashKey r.mFold = hashKey f
    · simp [h, lookup, hg]
    · simp only [beq_eq_false_iff_ne.2 h, Bool.false_eq_true, if_false]
      rw [lookup_cons_ne h, lookup_cons_ne h]
      exact lookup_writeFound hg f t

theorem lookup_writeFound_ne {g : PageLockT → PageLockT} (hg : ∀ r, (g r).mFold = r.mFold)
    {f : UInt64} {k : UInt32} (hk : hashKey f ≠ k) :
    ∀ t : LockTable, lookup (writeFound t f g) k = lookup t k
  | [] => rfl
  | r :: t => by
    rw [writeFound_cons]
    by_cases h : hashKey r.mFold = hashKey f
    · have hne : hashKey r.mFold ≠ k := h ▸ hk
      simp only [beq_iff_eq.2 h, if_true]
      rw [lookup_cons_ne (by rwa [hg]), lookup_cons_ne hne]
    · simp only [beq_eq_false_iff_ne.2 h, Bool.false_eq_true, if_false]
      have ih := lookup_writeFound_ne hg hk t
      by_cases hr : hashKey r.mFold = k
      · subst hr
        rw [lookup_cons_self, lookup_cons_self]
      · rw [lookup_cons_ne hr, lookup_cons_ne hr, ih]

/-- A write of what is there. -/
theorem writeFound_self {g : PageLockT → PageLockT} {f : UInt64} {r : PageLockT} (hg : g r = r) :
    ∀ {t : LockTable}, lookup t (hashKey f) = some r → writeFound t f g = t
  | [], h => by cases h
  | r' :: t, h => by
    rw [writeFound_cons]
    by_cases hk : hashKey r'.mFold = hashKey f
    · rw [← hk, lookup_cons_self, Option.some.injEq] at h
      rw [if_pos (beq_iff_eq.2 hk), h, hg]
    · rw [lookup_cons_ne hk] at h
      simp [hk, writeFound_self hg h]

theorem map_writeFound {β : Type} (p : PageLockT → β) {g : PageLockT → PageLockT}
    (hg : ∀ r, p (g r) = p r) (f : UInt64) :
    ∀ t : LockTable, (writeFound t f g).map p = t.map p
  | [] => rfl
  | r :: t => by
    rw [writeFound_cons]
    split
    · simp [hg]
    · simp [map_writeFound p hg f t]

/-! ## What no update changes -/

@[simp] theorem updateUnlock_mFold (asker : Bytes) (r : PageLockT) :
    (updateUnlockPageLockT asker r).mFold = r.mFold := by
  unfold updateUnlockPageLockT PageLockOf.unlocked
  dsimp only
  split
  · split <;> rfl
  · rfl

@[simp] theorem updateUnlock_page (asker : Bytes) (r : PageLockT) :
    (updateUnlockPageLockT asker r).spaceId = r.spaceId ∧
      (updateUnlockPageLockT asker r).pageNo = r.pageNo := by
  unfold updateUnlockPageLockT PageLockOf.unlocked
  dsimp only
  split
  · split <;> exact ⟨rfl, rfl⟩
  · exact ⟨rfl, rfl⟩

@[simp] theorem updateSuccess_mFold (asker : Bytes) (q : PageLockRequest) (r : PageLockT) :
    (updateSuccessPageLockT asker q r).mFold = r.mFold := rfl

@[simp] theorem updateFail_mFold (asker : Bytes) (q : PageLockRequest) (r : PageLockT) :
    (updateFailPageLockT asker q r).mFold = r.mFold := rfl

/-! ## The step -/

/-- The matrix allows only a reader beside readers. -/
theorem compatible_iff {q st : PageLockType} :
    compatible q st = true ↔ q = .rLock ∧ st = .rLock := by
  cases q <;> cases st <;> decide

@[simp] theorem replyType_reply (a : Ask) (n : Int) (q : PageLockRequest) (y : PageReplyType) :
    Event.replyType (a, n, q.reply y) = y := rfl

/-- What `check_lock_request` does with the record under the request's key: the record after, the
return code and the reply, from the record before. -/
inductive Answers : Option PageLockT → Ask → PageLockT → Int × PageLockReply → Prop
  | insert {a : Ask} :
      Answers none a (insertPageLockT a.asker a.request) (0, a.request.reply .lockSuccess)
  | release {a : Ask} {r : PageLockT} (hu : a.request.lockType = .unlock) :
      Answers (some r) a (updateUnlockPageLockT a.asker r) (2, a.request.reply .unlockSuccess)
  | grant {a : Ask} {r : PageLockT} (hu : a.request.lockType ≠ .unlock)
      (hc : r.lockType = .unlock ∨ compatible a.request.lockType r.lockType = true) :
      Answers (some r) a (updateSuccessPageLockT a.asker a.request r)
        (1, a.request.reply .lockSuccess)
  | refuse {a : Ask} {r : PageLockT} (hu : a.request.lockType ≠ .unlock)
      (hr : r.lockType ≠ .unlock) (hc : compatible a.request.lockType r.lockType = false) :
      Answers (some r) a (updateFailPageLockT a.asker a.request r)
        (-1, a.request.reply .lockFail)

theorem step_none {t : LockTable} {a : Ask} (h : lookup t a.key = none) :
    lockMachine.step t a =
      (insertPageLockT a.asker a.request :: t, 0, a.request.reply .lockSuccess) := by
  have hfind : hashFindInt t (calFold a.request.spaceId a.request.pageNo) = none := h
  change checkLockRequest t a.asker a.request = _
  rw [checkLockRequest, hfind]
  rfl

theorem step_some {t : LockTable} {a : Ask} {r : PageLockT} (h : lookup t a.key = some r) :
    lockMachine.step t a =
      if a.request.lockType = .unlock then
        (writeFound t a.fold (updateUnlockPageLockT a.asker), 2, a.request.reply .unlockSuccess)
      else if r.lockType = .unlock ∨ compatible a.request.lockType r.lockType = true then
        (writeFound t a.fold (updateSuccessPageLockT a.asker a.request), 1,
          a.request.reply .lockSuccess)
      else
        (writeFound t a.fold (updateFailPageLockT a.asker a.request), -1,
          a.request.reply .lockFail) := by
  have hfind : hashFindInt t (calFold a.request.spaceId a.request.pageNo) = some r := h
  change checkLockRequest t a.asker a.request = _
  rw [checkLockRequest, hfind]
  dsimp only
  split
  · rfl
  · by_cases hr : r.lockType = .unlock
    · simp [hr, Ask.fold]
    · simp [hr, Ask.fold]

/-- **The step, at the request's own key.** -/
theorem step_answers (t : LockTable) (a : Ask) :
    ∃ r, lookup (lockMachine.step t a).1 a.key = some r ∧
      Answers (lookup t a.key) a r (lockMachine.step t a).2 := by
  cases hl : lookup t a.key with
  | none =>
    rw [step_none hl]
    exact ⟨_, lookup_cons_self, .insert⟩
  | some r =>
    have hw : ∀ g : PageLockT → PageLockT, (∀ r, (g r).mFold = r.mFold) →
        lookup (writeFound t a.fold g) a.key = some (g r) := by
      intro g hg
      rw [Ask.key, lookup_writeFound hg, ← Ask.key, hl]
      rfl
    rw [step_some hl]
    split
    · rename_i hu
      exact ⟨_, hw _ (by simp), .release hu⟩
    · rename_i hu
      split
      · rename_i hc
        exact ⟨_, hw _ (by simp), .grant hu hc⟩
      · rename_i hc
        rw [not_or] at hc
        exact ⟨_, hw _ (by simp), .refuse hu hc.1 (by simpa using hc.2)⟩

/-- **The step, at every other key**: nothing changes. -/
theorem lookup_step_ne (t : LockTable) (a : Ask) {k : UInt32} (hk : a.key ≠ k) :
    lookup (lockMachine.step t a).1 k = lookup t k := by
  cases hl : lookup t a.key with
  | none =>
    rw [step_none hl]
    exact lookup_cons_ne hk
  | some r =>
    rw [step_some hl]
    split
    · exact lookup_writeFound_ne (by simp) hk t
    · split
      · exact lookup_writeFound_ne (by simp) hk t
      · exact lookup_writeFound_ne (by simp) hk t

/-! ## Nobody is ever queued -/

/-- The record has no waiter. -/
def NoWaiter (o : Option PageLockT) : Prop := ∀ r, o = some r → r.waitList = []

/-- A release that has no waiter to hand the lock to. -/
theorem updateUnlock_noWaiter {asker : Bytes} {r : PageLockT} (h : r.waitList = []) :
    updateUnlockPageLockT asker r =
      { r with lockType := .unlock, lockHolder := r.lockHolder.filter (· ≠ asker) } := by
  unfold updateUnlockPageLockT PageLockOf.unlocked
  dsimp only
  rw [h]
  split <;> simp [← h]

/-- A refusal changes only the types of waiters that are already queued. -/
theorem updateFail_noWaiter {asker : Bytes} {q : PageLockRequest} {r : PageLockT}
    (h : r.waitList = []) : updateFailPageLockT asker q r = r := by
  unfold updateFailPageLockT PageLockOf.refused
  rw [h, List.map_nil, ← h]

theorem Answers.noWaiter {o : Option PageLockT} {a : Ask} {r : PageLockT}
    {out : Int × PageLockReply} (h : Answers o a r out) (ho : NoWaiter o) : r.waitList = [] := by
  cases h with
  | insert => rfl
  | @release a r hu =>
    have hr := ho r rfl
    rw [updateUnlock_noWaiter hr]
    exact hr
  | @grant a r hu hc => exact ho r rfl
  | @refuse a r hu hr hc =>
    rw [updateFail_noWaiter (ho r rfl)]
    exact ho r rfl

/-! ## Runs -/

/-- **The invariant rule of records**: `I` relates the trace so far to the record of key `k`, `G`
is what is known of the requests. No record met on the way has a waiter. -/
theorem record_inv {k : UInt32} {G : List Event → Ask → Prop}
    {I : List Event → Option PageLockT → Prop} (h0 : I [] none)
    (hother : ∀ tr o (e : Event), e.1.key ≠ k → I tr o → I (tr ++ [e]) o)
    (hown : ∀ tr o a r out, a.key = k → G tr a → NoWaiter o → Answers o a r out → I tr o →
      I (tr ++ [(a, out)]) (some r))
    {as : List Ask} (hg : lockMachine.Guarded (fun tr _ => G tr) as) :
    I (lockMachine.trace as) (lookup (lockMachine.exec as) k) ∧
      NoWaiter (lookup (lockMachine.exec as) k) := by
  refine Machine.inv_of_guarded (M := lockMachine)
    (I := fun tr t => I tr (lookup t k) ∧ NoWaiter (lookup t k)) ⟨h0, ?_⟩ (fun tr t a ha h => ?_) hg
  · rintro r ⟨⟩
  · by_cases hk : a.key = k
    · obtain ⟨r, hl, hr⟩ := step_answers t a
      rw [hk] at hl hr
      rw [hl]
      refine ⟨hown tr _ a r _ hk ha h.2 hr h.1, ?_⟩
      rintro r' ⟨⟩
      exact hr.noWaiter h.2
    · rw [lookup_step_ne t a hk]
      exact ⟨hother tr _ _ hk h.1, h.2⟩

/-- **No record of a run has a waiter**: the only code that adds to a wait list is missing. -/
theorem exec_noWaiter (as : List Ask) (k : UInt32) : NoWaiter (lookup (lockMachine.exec as) k) :=
  (record_inv (G := fun _ _ => True) (I := fun _ _ => True) trivial (fun _ _ _ _ _ => trivial)
    (fun _ _ _ _ _ _ _ _ _ _ => trivial) fun _ _ _ _ => trivial).2

/-- No two records share a key, and each has the fold of its page. -/
structure TableOk (t : LockTable) : Prop where
  nodup : (t.map fun r => hashKey r.mFold).Nodup
  fold : ∀ r ∈ t, r.mFold = calFold r.spaceId r.pageNo

theorem TableOk.writeFound {t : LockTable} (h : TableOk t) (f : UInt64) {g : PageLockT → PageLockT}
    (hg : ∀ r, ((g r).mFold, (g r).spaceId, (g r).pageNo) = (r.mFold, r.spaceId, r.pageNo)) :
    TableOk (writeFound t f g) := by
  have hm := map_writeFound (fun r => (r.mFold, r.spaceId, r.pageNo)) hg f t
  refine ⟨?_, fun r hr => ?_⟩
  · rw [map_writeFound (fun r => hashKey r.mFold) (fun r => ?_)]
    · exact h.nodup
    · rw [(Prod.mk.inj (hg r)).1]
  · have : (r.mFold, r.spaceId, r.pageNo) ∈ t.map fun r => (r.mFold, r.spaceId, r.pageNo) := by
      rw [← hm]
      exact List.mem_map_of_mem (f := fun r : PageLockT => (r.mFold, r.spaceId, r.pageNo)) hr
    obtain ⟨r0, hr0, he⟩ := List.mem_map.1 this
    simp only [Prod.mk.injEq] at he
    rw [← he.1, ← he.2.1, ← he.2.2]
    exact h.fold r0 hr0

theorem TableOk.step {t : LockTable} (h : TableOk t) (a : Ask) :
    TableOk (lockMachine.step t a).1 := by
  cases hl : lookup t a.key with
  | none =>
    rw [step_none hl]
    refine ⟨?_, ?_⟩
    · rw [List.map_cons, List.nodup_cons]
      refine ⟨fun hm => ?_, h.nodup⟩
      obtain ⟨r, hr, he⟩ := List.mem_map.1 hm
      exact lookup_eq_none.1 hl r hr he
    · intro r hr
      rcases List.mem_cons.1 hr with rfl | hr
      · rfl
      · exact h.fold r hr
  | some r =>
    rw [step_some hl]
    split
    · exact h.writeFound _ fun r => by simp
    · split
      · exact h.writeFound _ fun r => rfl
      · exact h.writeFound _ fun r => rfl

theorem exec_tableOk (as : List Ask) : TableOk (lockMachine.exec as) :=
  Machine.inv_of_step (M := lockMachine) (I := fun _ t => TableOk t)
    ⟨List.nodup_nil, fun _ h => absurd h List.not_mem_nil⟩ (fun _ _ a h => h.step a) as

/-- A record of the table is the one found under its key. -/
theorem lookup_of_mem : ∀ {t : LockTable}, TableOk t → ∀ {r : PageLockT}, r ∈ t →
    lookup t (hashKey r.mFold) = some r
  | [], _, _, hr => absurd hr List.not_mem_nil
  | r0 :: t, h, r, hr => by
    have hnd := List.nodup_cons.1 h.nodup
    rcases List.mem_cons.1 hr with rfl | hr
    · exact lookup_cons_self
    · have hne : hashKey r0.mFold ≠ hashKey r.mFold := fun he =>
        hnd.1 (List.mem_map.2 ⟨r, hr, he.symm⟩)
      rw [lookup_cons_ne hne]
      exact lookup_of_mem ⟨hnd.2, fun r' hr' => h.fold r' (List.mem_cons_of_mem _ hr')⟩ hr

/-- The key of a record of the table determines its fold. -/
theorem TableOk.key_eq {t : LockTable} (h : TableOk t) {r : PageLockT} (hr : r ∈ t) {a : Ask} :
    a.key = hashKey r.mFold ↔ a.fold = r.mFold := by
  rw [h.fold r hr]
  exact hashKey_calFold_inj

end Lock
