import Mtc.Lock.Proof.HashTable
import Mtc.Lock.Proof.Table

/-!
# The lock manager on the hash table

`Lock.Hashed`, with its pointers, buckets and expansions, gives the answers of `lockMachine`, whose
table is a list: the list is the elements of the hash table, newest first (`Refines`). One request
keeps this (`checkLockRequest_refines`), so every run does (`run_refines`).
-/

namespace Lock

/-! ## Keys -/

theorem foldKey_eq (fold : UInt64) : foldKey fold = Bytes.le32 (hashKey fold) := by
  have hx : (hashKey fold).toNat = fold.toNat % 2 ^ 32 := UInt64.toNat_toUInt32 fold
  simp only [foldKey, Bytes.le64, Bytes.le32, hx, List.take, List.cons.injEq, and_true,
    ← UInt8.toNat_inj, UInt8.toNat_ofNat']
  omega

theorem foldKey_inj {f f' : UInt64} : foldKey f = foldKey f' ↔ hashKey f = hashKey f' := by
  rw [foldKey_eq, foldKey_eq]
  refine ⟨fun h => ?_, fun h => by rw [h]⟩
  exact (Bytes.le32_append_inj (a := []) (b := []) (by rw [h])).1

/-- Where no two records have one key, the write to the first record that is found is a write to
every record with the key. -/
theorem writeFound_eq_map {g : PageLockT → PageLockT} (f : UInt64) : ∀ {t : LockTable}, TableOk t →
    writeFound t f g = t.map fun r => if hashKey r.mFold = hashKey f then g r else r
  | [], _ => rfl
  | r :: t, h => by
    obtain ⟨hr, hnd⟩ := List.nodup_cons.1 h.nodup
    have ht : TableOk t := ⟨hnd, fun r' hr' => h.fold r' (List.mem_cons_of_mem r hr')⟩
    rw [writeFound_cons, List.map_cons]
    by_cases hk : hashKey r.mFold = hashKey f
    · have hrest : t.map (fun r => if hashKey r.mFold = hashKey f then g r else r) = t := by
        refine (List.map_congr_left fun r' hr' => if_neg fun hk' => hr ?_).trans (List.map_id t)
        exact List.mem_map.2 ⟨r', hr', hk'.trans hk.symm⟩
      rw [if_pos (beq_iff_eq.2 hk), if_pos hk, hrest]
    · rw [if_neg (by simpa using hk), if_neg hk, writeFound_eq_map f ht]

namespace Hashed

open UtHash

/-- The hash table has the records of the list, the oldest first. -/
structure Refines (s : PageLockHash) (t : LockTable) : Prop where
  holds : Holds recordKey s t.reverse
  tableOk : TableOk t

theorem Refines.init : Refines {} [] :=
  ⟨rfl, List.nodup_nil, fun _ h => absurd h List.not_mem_nil⟩

section
variable {s : PageLockHash} {t : LockTable}

/-- `HASH_FIND_INT` finds the record that the list has under the key. -/
theorem Refines.find (h : Refines s t) (fold : UInt64) :
    (hashFindInt s fold = .ok none ∧ lookup t (hashKey fold) = none) ∨
      ∃ p r, hashFindInt s fold = .ok (some p) ∧ value s p = .ok r ∧
        lookup t (hashKey fold) = some r := by
  rcases find_spec h.holds (foldKey fold) with ⟨hf, hnone⟩ | ⟨p, r, hf, hr, hk, hv⟩
  · refine .inl ⟨hf, lookup_eq_none.2 fun r hr hk => ?_⟩
    exact hnone r (List.mem_reverse.2 hr) (foldKey_inj.2 hk)
  · refine .inr ⟨p, r, hf, hv, ?_⟩
    have hl := lookup_of_mem h.tableOk (List.mem_reverse.1 hr)
    rwa [foldKey_inj.1 hk] at hl

/-- A branch of `check_lock_request` that changes the record found and answers `out`. -/
theorem Refines.write {G : Stop → Prop} (h : Refines s t) {a : Ask} {p : Nat}
    {g : PageLockT → PageLockT} {out : Int × PageLockReply}
    (hf : hashFindInt s a.fold = .ok (some p)) (hg : ∀ r, (g r).mFold = r.mFold)
    (hstep : lockMachine.step t a = (writeFound t a.fold g, out)) :
    Except.EndsOr G
      (fun r => Refines r.1 (lockMachine.step t a).1 ∧ r.2 = (lockMachine.step t a).2)
      (do let s ← UtHash.write s p g; return (s, out)) := by
  have hok := h.tableOk.step a
  obtain ⟨s', hw, hs'⟩ := write_spec (f := g) h.holds hf fun r => by rw [recordKey, recordKey, hg]
  rw [hstep] at hok ⊢
  rw [hw, Except.ok_bind]
  refine .inr ⟨_, rfl, ⟨?_, hok⟩, rfl⟩
  rw [writeFound_eq_map a.fold h.tableOk, ← List.map_reverse]
  simpa only [recordKey, foldKey_inj] using hs'

end

section
variable {mallocs : Nat → Bool} (hm : ∀ n, mallocs n = true → n < 2 ^ 36)
include hm

/-- **One request.** -/
theorem checkLockRequest_refines {s : PageLockHash} {t : LockTable} (h : Refines s t) (a : Ask) :
    Except.EndsOr (OutOfMemory mallocs)
      (fun r => Refines r.1 (lockMachine.step t a).1 ∧ r.2 = (lockMachine.step t a).2)
      (checkLockRequest mallocs s a.asker a.request) := by
  unfold checkLockRequest
  rcases h.find a.fold with ⟨hf, hl⟩ | ⟨p, r, hf, hv, hl⟩
  · have hok := h.tableOk.step a
    rw [step_none hl] at hok ⊢
    rw [← Ask.fold, hf, Except.ok_bind]
    refine (add_spec hm h.holds ?_).bind fun s' hs' => .inr ⟨_, rfl, ⟨?_, hok⟩, rfl⟩
    · intro r hr hk
      exact lookup_eq_none.1 hl r (List.mem_reverse.1 hr) (foldKey_inj.1 hk)
    · rw [List.reverse_cons]
      exact hs'
  · have hstep := step_some (a := a) hl
    rw [← Ask.fold, hf, Except.ok_bind]
    simp only [hv, Except.ok_bind]
    split_ifs with hu hr hc
    · rw [if_pos hu] at hstep
      exact h.write hf (by simp) hstep
    · rw [if_neg hu, if_pos (.inl hr)] at hstep
      exact h.write hf (by simp) hstep
    · rw [if_neg hu, if_pos (.inr hc)] at hstep
      exact h.write hf (by simp) hstep
    · rw [if_neg hu, if_neg (by simp [hr, hc])] at hstep
      exact h.write hf (by simp) hstep

/-- Any number of requests. -/
theorem run_refines_from (as : List Ask) : ∀ {s : PageLockHash} {t : LockTable}, Refines s t →
    Except.EndsOr (OutOfMemory mallocs)
      (fun r => Refines r.1 (lockMachine.execFrom t as) ∧ r.2 = lockMachine.traceFrom t as)
      (run mallocs s as) := by
  induction as with
  | nil => exact fun h => .inr ⟨_, rfl, h, rfl⟩
  | cons a as ih =>
    intro s t h
    refine (checkLockRequest_refines hm h a).bind fun r hr => (ih hr.1).bind fun r' hr' => ?_
    refine .inr ⟨_, rfl, hr'.1, ?_⟩
    rw [hr'.2, hr.2]
    rfl

/-- **The hash table gives the answers of the list.** Whatever is requested, the manager on the hash
table ends because `malloc` has failed, or answers all requests as `lockMachine` does, and then
finds under every fold the record that the list has. -/
theorem run_refines (as : List Ask) :
    Except.EndsOr (OutOfMemory mallocs)
      (fun r => r.2 = lockMachine.trace as ∧
        ∀ fold, recordOf r.1 fold = .ok (Lock.hashFindInt (lockMachine.exec as) fold))
      (run mallocs {} as) := by
  refine (run_refines_from hm as Refines.init).mono fun r hr => ⟨hr.2, fun fold => ?_⟩
  have hlookup : Lock.hashFindInt (lockMachine.exec as) fold =
      lookup (lockMachine.exec as) (hashKey fold) := rfl
  rw [hlookup, recordOf]
  rcases hr.1.find fold with ⟨hf, hl⟩ | ⟨p, r', hf, hv, hl⟩
  · rw [hf]
    exact congrArg Except.ok hl.symm
  · rw [hf, Except.ok_bind]
    simp only [hv, Except.ok_bind]
    exact congrArg Except.ok hl.symm

end

/-! ### A bucket that overflows -/

/-- `malloc` with this many bytes. -/
def upTo (limit n : Nat) : Bool := n ≤ limit

theorem upTo_lt {limit : Nat} (hl : limit < 2 ^ 36) (n : Nat) (h : upTo limit n = true) :
    n < 2 ^ 36 :=
  (of_decide_eq_true h).trans_lt hl

/-- Eleven pages of one bucket. The tenth makes the buckets double, which needs 1024 bytes; then `b`
is refused the first page until `a` gives it up. -/
def elevenPages : List Ask :=
  ([7, 54, 73, 125, 173, 187, 192, 236, 237, 255, 282].map fun pageNo =>
      ⟨Bytes.ofAscii "a", 1, pageNo, 0, .wLock⟩) ++
    [⟨Bytes.ofAscii "b", 1, 7, 0, .wLock⟩, ⟨Bytes.ofAscii "a", 1, 7, 0, .unlock⟩,
      ⟨Bytes.ofAscii "b", 1, 7, 0, .wLock⟩]

theorem exists_run_elevenPages : ∃ r, run (upTo 1024) {} elevenPages = .ok r ∧
    (r.1.head.map fun x => x.2.numBuckets) = some 64 := by
  have hsome : (run (upTo 1024) {} elevenPages).toOption.any
      (fun r => (r.1.head.map fun x => x.2.numBuckets) = some 64) = true := by decide +kernel
  obtain ⟨r, hr, hn⟩ := (Option.any_eq_true _ _).1 hsome
  exact ⟨r, Except.toOption_eq_some hr, of_decide_eq_true hn⟩

theorem run_refines_elevenPages :
    (∃ s, run (upTo 1024) {} elevenPages = .ok (s, lockMachine.trace elevenPages) ∧
      (s.head.map fun x => x.2.numBuckets) = some 64 ∧
      ∀ fold, recordOf s fold = .ok (Lock.hashFindInt (lockMachine.exec elevenPages) fold)) ∧
    ∃ e, run (upTo 1023) {} elevenPages = .error e ∧ OutOfMemory (upTo 1023) e := by
  refine ⟨?_, ?_⟩
  · have hm := upTo_lt (show 1024 < 2 ^ 36 by decide)
    obtain ⟨r, hr, hn⟩ := exists_run_elevenPages
    rcases run_refines hm elevenPages with ⟨e, he, -⟩ | ⟨r', hr', ht, hfind⟩
    · rw [hr] at he
      cases he
    · obtain rfl : r = r' := Except.ok.inj (hr.symm.trans hr')
      exact ⟨r.1, by rw [hr, ← ht], hn, hfind⟩
  · have hm := upTo_lt (show 1023 < 2 ^ 36 by decide)
    rcases run_refines hm elevenPages with he | ⟨r, hr, -⟩
    · exact he
    · have hnone : (run (upTo 1023) {} elevenPages).toOption.isSome = false := by decide +kernel
      rw [hr] at hnone
      cases hnone

section
variable {mallocs : Nat → Bool} (hm : ∀ n, mallocs n = true → n < 2 ^ 36)
include hm

/-- **`HASH_FSCK` finds nothing wrong** with the table after any requests. -/
theorem fsck_run {as : List Ask} {s : PageLockHash} {events : List Event}
    (h : run mallocs {} as = .ok (s, events)) : fsck s = .ok () := by
  rcases run_refines_from hm as Refines.init with ⟨e, he, -⟩ | ⟨r, hr, hR, -⟩
  · rw [h] at he
    cases he
  · rw [h] at hr
    cases hr
    exact fsck_spec hR.holds

end

theorem fsck_run_elevenPages : ∃ r, run (upTo 1024) {} elevenPages = .ok r ∧
    (r.1.head.map fun x => x.2.numBuckets) = some 64 ∧ fsck r.1 = .ok () := by
  obtain ⟨r, hr, hn⟩ := exists_run_elevenPages
  exact ⟨r, hr, hn, fsck_run (upTo_lt (by decide)) hr⟩

end Hashed

end Lock
