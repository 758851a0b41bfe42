import Mathlib.Data.List.Nodup
import Mtc.Lock.Proof.Table
import Mtc.Lock.Spec

/-!
# Who holds a lock

* `holders_agree`: when clients unlock only what they were granted, the names in a record's
  `lock_holder` are the clients that were granted the record and have not released it.
* `exclusive_of_unlocksAlone`: mutual exclusion of the clients' holds, in the runs where no
  `UNLOCK` finds another hold on its record. `update_unlock_page_lock_t` sets the status to
  `UNLOCK` whoever still holds the page, so one more such `UNLOCK` gives the page away under its
  holder (`conflict_of_shared_unlock`): a second reader (`not_exclusive`), or a second page of the
  same fold.
* `foreignUnlock_iff`: the `UNLOCK` of a client that holds nothing changes nothing only if the
  page's record is already released. On a locked record it sets the status to `UNLOCK`, and where
  there is no record it makes its sender a holder (`not_foreignUnlock`).
-/

namespace Lock

/-! ## `lock_holder` -/

@[simp] theorem answered_snoc (f : UInt64) (tr : List Event) (e : Event) :
    answered f (tr ++ [e]) = answeredStep f (answered f tr) e := by
  simp [answered]

/-- The holders of the record of fold `f`, absent or not. -/
def HoldersOk (f : UInt64) (tr : List Event) (o : Option PageLockT) : Prop :=
  ∀ c, c ∈ answered f tr ↔ ∃ r, o = some r ∧ c ∈ r.lockHolder

theorem HoldersOk.step {f : UInt64} {tr : List Event} {o : Option PageLockT} {a : Ask}
    {r : PageLockT} {out : Int × PageLockReply} (hf : a.fold = f) (hg : UnlocksAnswered tr a)
    (ho : NoWaiter o) (ha : Answers o a r out) (h : HoldersOk f tr o) :
    HoldersOk f (tr ++ [(a, out)]) (some r) := by
  subst hf
  intro c
  rw [answered_snoc, answeredStep, if_pos rfl]
  cases ha with
  | insert =>
    -- the asker of an `UNLOCK` holds the record, so there is one
    have hu : a.request.lockType ≠ .unlock := by
      intro hu
      obtain ⟨r, hr, -⟩ := (h a.asker).1 (hg hu)
      cases hr
    have hc := h c
    simp only [reduceCtorEq, false_and, exists_false, iff_false] at hc
    rw [if_neg hu, if_pos (replyType_reply ..)]
    simp [hc, insertPageLockT, PageLockOf.inserted]
  | @release a r hu =>
    rw [if_pos hu, updateUnlock_noWaiter (ho r rfl)]
    have hc := h c
    simp only [Option.some.injEq, exists_eq_left'] at hc
    simp [hc]
  | @grant a r hu hc =>
    have hh := h c
    simp only [Option.some.injEq, exists_eq_left'] at hh
    rw [if_neg hu, if_pos (replyType_reply ..)]
    simp [hh, updateSuccessPageLockT, PageLockOf.granted, or_comm]
  | @refuse a r hu hr hc =>
    rw [if_neg hu, if_neg (by simp),
      updateFail_noWaiter (ho r rfl)]
    exact h c

theorem exec_holdersOk {as : List Ask} (s p : UInt32)
    (hg : lockMachine.Guarded (fun tr _ => UnlocksAnswered tr) as) :
    HoldersOk (calFold s p) (lockMachine.trace as)
      (lookup (lockMachine.exec as) (hashKey (calFold s p))) := by
  refine (record_inv (I := HoldersOk (calFold s p)) ?_ ?_ ?_ hg).1
  · intro c
    simp [answered]
  · intro tr o e hk h c
    have hf : e.1.fold ≠ calFold s p := fun hf => hk (by rw [Ask.key, hf])
    rw [answered_snoc, answeredStep, if_neg hf]
    exact h c
  · intro tr o a r out hk hg ho ha h
    exact h.step (hashKey_calFold_inj.1 hk) hg ho ha

/-- **Server and clients agree on who holds a lock.** -/
theorem holders_agree {as : List Ask}
    (hg : lockMachine.Guarded (fun tr _ => UnlocksAnswered tr) as) :
    ((lockMachine.exec as).map (·.mFold)).Nodup ∧
      ∀ r ∈ lockMachine.exec as, ∀ c,
        c ∈ r.lockHolder ↔ c ∈ answered r.mFold (lockMachine.trace as) := by
  have hok := exec_tableOk as
  refine ⟨List.Nodup.of_map hashKey ?_, fun r hr c => ?_⟩
  · rw [List.map_map]
    exact hok.nodup
  · have h := exec_holdersOk r.spaceId r.pageNo hg c
    rw [← hok.fold r hr, lookup_of_mem hok hr] at h
    rw [h]
    simp

/-- Two readers, the first of which leaves. -/
theorem holders_agree_two_readers :
    let p : PageLockRequest := ⟨1, 1, 0, .rLock⟩
    let as : List Ask := [⟨[65], p⟩, ⟨[66], p⟩, ⟨[65], { p with lockType := .unlock }⟩]
    ((lockMachine.exec as).map (·.mFold)).Nodup ∧
      ∀ r ∈ lockMachine.exec as, ∀ c,
        c ∈ r.lockHolder ↔ c ∈ answered r.mFold (lockMachine.trace as) :=
  holders_agree (by decide)

/-! ## Mutual exclusion -/

@[simp] theorem held_snoc (tr : List Event) (e : Event) :
    held (tr ++ [e]) = heldStep (held tr) e := by
  simp [held]

/-- The key of the held page's record. -/
def Hold.key (x : Hold) : UInt32 := hashKey x.fold

/-- The status of a record tells which holds there are on its key: none, readers only, or those
of one client. -/
def StatusOk (k : UInt32) (h : List Hold) : Option PageLockType → Prop
  | none | some .unlock => ∀ x ∈ h, x.key ≠ k
  | some .rLock => ∀ x ∈ h, x.key = k → x.mode = .rLock
  | some .wLock => ∃ c, ∀ x ∈ h, x.key = k → x.client = c

/-- A new hold on a key without holds. -/
theorem StatusOk.first {k : UInt32} {h : List Hold} (hk : ∀ x ∈ h, x.key ≠ k) (x : Hold)
    (hu : x.mode ≠ .unlock) : StatusOk k (x :: h) (some x.mode) := by
  cases hm : x.mode with
  | unlock => exact absurd hm hu
  | rLock =>
    intro y hy hyk
    rcases List.mem_cons.1 hy with rfl | hy
    · exact hm
    · exact absurd hyk (hk y hy)
  | wLock =>
    refine ⟨x.client, fun y hy hyk => ?_⟩
    rcases List.mem_cons.1 hy with rfl | hy
    · rfl
    · exact absurd hyk (hk y hy)

theorem StatusOk.step {k : UInt32} {tr : List Event} {o : Option PageLockT} {a : Ask}
    {r : PageLockT} {out : Int × PageLockReply} (hk : a.key = k) (hd : UnlocksHeld tr a)
    (hs : UnlocksAlone tr a) (ho : NoWaiter o) (ha : Answers o a r out)
    (h : StatusOk k (held tr) (o.map (·.lockType))) :
    StatusOk k (held (tr ++ [(a, out)])) (some r.lockType) := by
  subst hk
  rw [held_snoc, heldStep]
  cases ha with
  | insert =>
    -- the asker of an `UNLOCK` holds a page of this key, so its record exists
    have hu : a.request.lockType ≠ .unlock := by
      intro hu
      obtain ⟨x, hx, -, hp⟩ := hd hu
      exact h x hx (by rw [Hold.key, Hold.fold, hp]; rfl)
    rw [if_neg hu, if_pos (replyType_reply ..)]
    exact StatusOk.first h ⟨a.asker, a.page, a.request.lockType⟩ hu
  | @release a r hu =>
    rw [if_pos hu, updateUnlock_noWaiter (ho r rfl)]
    intro x hx hxk
    rw [List.mem_filter, decide_eq_true_eq] at hx
    have hf : x.fold = a.fold := hashKey_calFold_inj.1 hxk
    exact hx.2 (hs hu x hx.1 hf)
  | @grant a r hu hc =>
    rw [if_neg hu, if_pos (replyType_reply ..)]
    change StatusOk a.key _ (some a.request.lockType)
    rcases hc with hc | hc
    · rw [Option.map_some, hc] at h
      exact StatusOk.first h ⟨a.asker, a.page, a.request.lockType⟩ hu
    · obtain ⟨hq, hr⟩ := compatible_iff.1 hc
      rw [Option.map_some, hr] at h
      rw [hq]
      intro x hx hxk
      rcases List.mem_cons.1 hx with rfl | hx
      · rfl
      · exact h x hx hxk
  | @refuse a r hu hr hc =>
    rw [if_neg hu, if_neg (by simp), updateFail_noWaiter (ho r rfl)]
    exact h

/-- The clients' discipline and the condition under which the lock excludes. -/
def UnlocksWell (tr : List Event) (a : Ask) : Prop := UnlocksHeld tr a ∧ UnlocksAlone tr a

theorem exec_statusOk {as : List Ask} (k : UInt32)
    (hg : lockMachine.Guarded (fun tr _ => UnlocksWell tr) as) :
    StatusOk k (held (lockMachine.trace as))
      ((lookup (lockMachine.exec as) k).map (·.lockType)) := by
  refine (record_inv (I := fun tr o => StatusOk k (held tr) (o.map (·.lockType))) ?_ ?_ ?_ hg).1
  · intro x hx
    exact absurd hx List.not_mem_nil
  · intro tr o e hk h
    -- a request for another key adds no hold of key `k`
    have hsub : ∀ x ∈ held (tr ++ [e]), x.key = k → x ∈ held tr := by
      intro x hx hxk
      rw [held_snoc, heldStep] at hx
      split at hx
      · exact List.mem_of_mem_filter hx
      · split at hx
        · rcases List.mem_cons.1 hx with rfl | hx
          · exact absurd hxk hk
          · exact hx
        · exact hx
    match o, h with
    | none, h => exact fun x hx hxk => h x (hsub x hx hxk) hxk
    | some r, h =>
      rw [Option.map_some] at h ⊢
      cases hr : r.lockType with
      | unlock => rw [hr] at h; exact fun x hx hxk => h x (hsub x hx hxk) hxk
      | rLock => rw [hr] at h; exact fun x hx hxk => h x (hsub x hx hxk) hxk
      | wLock =>
        rw [hr] at h
        obtain ⟨c, h⟩ := h
        exact ⟨c, fun x hx hxk => h x (hsub x hx hxk) hxk⟩
  · intro tr o a r out hk hg ho ha h
    exact StatusOk.step hk hg.1 hg.2 ho ha h

theorem exclusive_of_statusOk {h : List Hold} {st : UInt32 → Option PageLockType}
    (hs : ∀ k, StatusOk k h (st k)) : Exclusive h := by
  intro x hx y hy hne hp hw
  have hk : y.key = x.key := by rw [Hold.key, Hold.key, Hold.fold, Hold.fold, hp]
  have h := hs x.key
  match st x.key, h with
  | none, h => exact h x hx rfl
  | some .unlock, h => exact h x hx rfl
  | some .rLock, h =>
    have := h x hx rfl
    rw [hw] at this
    cases this
  | some .wLock, ⟨c, h⟩ => exact hne ((h x hx rfl).trans (h y hy hk).symm)

/-- **Mutual exclusion** in every state of a run of disciplined clients in which no `UNLOCK` finds
another hold on its record. -/
theorem exclusive_of_unlocksAlone {as : List Ask}
    (hd : lockMachine.Guarded (fun tr _ => UnlocksHeld tr) as)
    (hs : lockMachine.Guarded (fun tr _ => UnlocksAlone tr) as) :
    ∀ pre, pre <+: as → Exclusive (held (lockMachine.trace pre)) := by
  rintro pre ⟨post, rfl⟩
  refine exclusive_of_statusOk fun k => exec_statusOk k ?_
  intro p a q he
  exact ⟨hd.of_append p a q he, hs.of_append p a q he⟩

/-- A writer, its release, and the next writer. -/
theorem exclusive_of_unlocksAlone_writers :
    let p : PageLockRequest := ⟨1, 1, 0, .wLock⟩
    let as : List Ask :=
      [⟨[65], p⟩, ⟨[66], p⟩, ⟨[65], { p with lockType := .unlock }⟩, ⟨[66], p⟩]
    ∀ pre, pre <+: as → Exclusive (held (lockMachine.trace pre)) :=
  exclusive_of_unlocksAlone (by decide) (by decide)

/-- Two readers; the first leaves, and a writer gets the page beside the second. -/
theorem not_exclusive :
    ¬ ∀ as : List Ask, lockMachine.Guarded (fun tr _ => UnlocksHeld tr) as →
      Exclusive (held (lockMachine.trace as)) := by
  intro h
  have := h [⟨[65], ⟨1, 1, 0, .rLock⟩⟩, ⟨[66], ⟨1, 1, 0, .rLock⟩⟩, ⟨[65], ⟨1, 1, 0, .unlock⟩⟩,
    ⟨[67], ⟨1, 1, 0, .wLock⟩⟩] (by decide)
  revert this
  decide

/-- **The condition is needed at every step**: after an `UNLOCK` that leaves another hold `x` on
its record, a write request of any other client for `x`'s page is granted. -/
theorem conflict_of_shared_unlock {as : List Ask}
    (hg : lockMachine.Guarded (fun tr _ => UnlocksWell tr) as) {u : Ask}
    (hu : u.request.lockType = .unlock) {x : Hold} (hx : x ∈ held (lockMachine.trace as))
    (hf : x.fold = u.fold) (hne : ¬ (x.client = u.asker ∧ x.page = u.page)) {d : Bytes}
    (hd : x.client ≠ d) :
    ¬ Exclusive (held (lockMachine.trace
      (as ++ [u] ++ [⟨d, ⟨x.page.1, x.page.2, 0, .wLock⟩⟩]))) := by
  let w : Ask := ⟨d, ⟨x.page.1, x.page.2, 0, .wLock⟩⟩
  have hk : x.key = u.key := by rw [Hold.key, hf, Ask.key]
  have hwk : w.key = u.key := hk
  -- the record exists, and has no waiter
  have hst := exec_statusOk u.key hg
  cases hl : lookup (lockMachine.exec as) u.key with
  | none =>
    rw [hl] at hst
    exact absurd hk (hst x hx)
  | some r =>
    have hnw : NoWaiter (some r) := hl ▸ exec_noWaiter as u.key
    -- the `UNLOCK` makes it a released record
    obtain ⟨r1, hr1, ha1⟩ := step_answers (lockMachine.exec as) u
    rw [hl] at ha1
    have hr1u : r1.lockType = .unlock := by
      generalize (lockMachine.step (lockMachine.exec as) u).2 = out at ha1
      cases ha1 with
      | release => rw [updateUnlock_noWaiter (hnw r rfl)]
      | grant hu' => exact absurd hu hu'
      | refuse hu' => exact absurd hu hu'
    -- so the write request is granted
    obtain ⟨r2, -, ha2⟩ := step_answers (lockMachine.step (lockMachine.exec as) u).1 w
    rw [hwk, hr1] at ha2
    intro hex
    rw [Machine.trace_snoc, held_snoc, Machine.exec_snoc, Machine.trace_snoc, held_snoc] at hex
    generalize (lockMachine.step (lockMachine.step (lockMachine.exec as) u).1 w).2 = out at ha2 hex
    have hin : x ∈ heldStep (held (lockMachine.trace as))
        (u, (lockMachine.step (lockMachine.exec as) u).2) := by
      rw [heldStep, if_pos hu, List.mem_filter, decide_eq_true_eq]
      exact ⟨hx, hne⟩
    have hmem : ∀ n, out = (n, w.request.reply .lockSuccess) → False := by
      rintro n rfl
      rw [heldStep, if_neg (by simp), if_pos (replyType_reply ..)] at hex
      refine hex ⟨d, x.page, .wLock⟩ List.mem_cons_self x (List.mem_cons_of_mem _ hin) hd.symm rfl
        rfl
    cases ha2 with
    | release hu' => cases hu'
    | grant => exact hmem 1 rfl
    | refuse hu' hr' => exact hr' hr1u

/-! ## Releases by others -/

/-- An `UNLOCK` on a released record of which the sender is no holder. -/
theorem updateUnlock_released {asker : Bytes} {r : PageLockT} (hw : r.waitList = [])
    (hu : r.lockType = .unlock) (hn : asker ∉ r.lockHolder) :
    updateUnlockPageLockT asker r = r := by
  have hf : r.lockHolder.filter (· ≠ asker) = r.lockHolder := by
    rw [List.filter_eq_self]
    intro c hc
    simpa using ne_of_mem_of_not_mem hc hn
  rw [updateUnlock_noWaiter hw, hf, ← hu]

/-- An `UNLOCK` without a record makes one, with its sender as the holder. -/
theorem not_changesNothing_of_none {t : LockTable} {a : Ask} (h : lookup t a.key = none) :
    ¬ ChangesNothing t a := by
  intro hc
  have hh := hc.holders
  rw [step_none h] at hh
  obtain ⟨r, hr, hf, -⟩ := hh _ List.mem_cons_self a.asker List.mem_cons_self
  exact lookup_eq_none.1 h r hr (by rw [hf]; rfl)

/-- The `UNLOCK` of anyone leaves its record released and without its sender. -/
theorem released_of_changesNothing {as : List Ask} {a : Ask} {r : PageLockT}
    (hu : a.request.lockType = .unlock) (h : lookup (lockMachine.exec as) a.key = some r)
    (hc : ChangesNothing (lockMachine.exec as) a) :
    r.lockType = .unlock ∧ a.asker ∉ r.lockHolder := by
  -- the record of the key after the step is the one before it
  have hr : lookup (lockMachine.step (lockMachine.exec as) a).1 (hashKey r.mFold) = some r := by
    rw [← Machine.exec_snoc]
    apply lookup_of_mem (exec_tableOk _)
    rw [Machine.exec_snoc]
    exact hc.records r (mem_of_lookup h)
  rw [lookup_key h, step_some h, if_pos hu, Ask.key, lookup_writeFound (by simp), ← Ask.key, h,
    Option.map_some, Option.some.injEq, updateUnlock_noWaiter (exec_noWaiter as a.key r h)] at hr
  rw [← hr]
  exact ⟨rfl, by simp⟩

/-- **A release by another client is harmless exactly on a released record**, of which the client
is no holder either (it may be, where another page has the same fold). -/
theorem foreignUnlock_iff {as : List Ask} {a : Ask}
    (hf : ForeignUnlock (lockMachine.exec as) a) :
    ChangesNothing (lockMachine.exec as) a ↔
      ∃ r, hashFindInt (lockMachine.exec as) a.fold = some r ∧ r.lockType = .unlock ∧
        a.asker ∉ r.lockHolder := by
  rw [hashFindInt_fold]
  constructor
  · intro hc
    cases h : lookup (lockMachine.exec as) a.key with
    | none => exact absurd hc (not_changesNothing_of_none h)
    | some r => exact ⟨r, rfl, released_of_changesNothing hf.1 h hc⟩
  · rintro ⟨r, h, hr, hn⟩
    have hs : (lockMachine.step (lockMachine.exec as) a).1 = lockMachine.exec as := by
      rw [step_some h, if_pos hf.1]
      exact writeFound_self (updateUnlock_released (exec_noWaiter as a.key r h) hr hn) h
    exact
      { holders := by
          rw [hs]
          exact fun r hr c hc => ⟨r, hr, rfl, hc⟩
        records := by
          rw [hs]
          exact fun _ hr => hr
        later := by
          rw [hs]
          exact fun _ => rfl }

/-- A stranger's `UNLOCK` after the writer's own. -/
theorem foreignUnlock_released :
    let as : List Ask := [⟨[65], ⟨1, 1, 0, .wLock⟩⟩, ⟨[65], ⟨1, 1, 0, .unlock⟩⟩]
    let a : Ask := ⟨[66], ⟨1, 1, 0, .unlock⟩⟩
    ForeignUnlock (lockMachine.exec as) a ∧ ChangesNothing (lockMachine.exec as) a :=
  ⟨by decide, (foreignUnlock_iff (by decide)).2 ⟨_, rfl, by decide, by decide⟩⟩

/-- A stranger's `UNLOCK` of a page that nobody has asked for makes the stranger its holder; one of
a page that another client has locked for writing lets a third client lock it too. -/
theorem not_foreignUnlock :
    let w : PageLockRequest := ⟨1, 1, 0, .wLock⟩
    let u : Ask := ⟨[66], ⟨1, 1, 0, .unlock⟩⟩
    (ForeignUnlock (lockMachine.exec []) u ∧
      (lockMachine.exec [u]).map (·.lockHolder) = [[[66]]]) ∧
    ForeignUnlock (lockMachine.exec [⟨[65], w⟩]) u ∧
      (lockMachine.traceFrom (lockMachine.exec [⟨[65], w⟩]) [⟨[67], w⟩]).map Event.replyType =
        [.lockFail] ∧
      (lockMachine.traceFrom (lockMachine.exec [⟨[65], w⟩, u]) [⟨[67], w⟩]).map Event.replyType =
        [.lockSuccess] := by
  decide

end Lock
