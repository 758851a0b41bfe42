import Mtc.Lib.Heap
import Mtc.Lib.Links
import Mtc.Lock.Manager

/-!
# The hash table: `uthash.h`

The macros of `uthash.h` that the lock manager uses, over elements of any type, with the pointers
that they read and write. An element (`Elem`) has an address for ever, and its `hh` the same one:
`ELMT_FROM_HH` and `HH_FROM_ELMT` only add and subtract `hho`. Null pointers are `none`.

`key` gives the `keylen` bytes at the key field of an element. Which sizes `malloc` has memory for
is the parameter `mallocs`; without memory the process exits. `HASH_BLOOM`, `HASH_EMIT_KEYS` and
`HASH_NONFATAL_OOM` are not defined; `HASH_FSCK` is the check that is compiled in with
`HASH_DEBUG`.

`Lock.Hashed` is the lock manager on this table: `check_lock_request` of `Mtc.Lock.Manager` with the
pointer that `HASH_FIND_INT` gives.
-/

namespace UtHash

/-- What `HASH_FSCK` reports. -/
inductive Oops where
  | invalidHhPrev
  | invalidBucketCount
  | invalidHhItemCount
  | invalidPrev
  | invalidAppItemCount
  deriving DecidableEq, Repr

/-- What ends a macro other than by reaching its end. -/
inductive Stop where
  /-- A pointer to no element, or an index outside the buckets. -/
  | badPointer
  /-- `uthash_fatal("out of memory")`, after `malloc` has failed for this size. -/
  | fatal (size : Nat)
  /-- `HASH_OOPS`. -/
  | oops (message : Oops)
  | unfinished
  deriving DecidableEq, Repr

/-! ## `HASH_JEN` -/

/-- `HASH_JEN_MIX`. -/
def hashJenMix (a b c : UInt32) : UInt32 × UInt32 × UInt32 :=
  let a := (a - b - c) ^^^ (c >>> 13)
  let b := (b - c - a) ^^^ (a <<< 8)
  let c := (c - a - b) ^^^ (b >>> 13)
  let a := (a - b - c) ^^^ (c >>> 12)
  let b := (b - c - a) ^^^ (a <<< 16)
  let c := (c - a - b) ^^^ (b >>> 5)
  let a := (a - b - c) ^^^ (c >>> 3)
  let b := (b - c - a) ^^^ (a <<< 10)
  let c := (c - a - b) ^^^ (b >>> 15)
  (a, b, c)

/-- Four bytes, the first one lowest. -/
def jenWord (k₀ k₁ k₂ k₃ : UInt8) : UInt32 :=
  k₀.toUInt32 + (k₁.toUInt32 <<< 8) + (k₂.toUInt32 <<< 16) + (k₃.toUInt32 <<< 24)

/-- The loop over 12 bytes at a time: what is left of the key, `_hj_i`, `_hj_j` and `hashv`. -/
def hashJenLoop : Bytes → UInt32 → UInt32 → UInt32 → Bytes × UInt32 × UInt32 × UInt32
  | k₀ :: k₁ :: k₂ :: k₃ :: k₄ :: k₅ :: k₆ :: k₇ :: k₈ :: k₉ :: k₁₀ :: k₁₁ :: key, i, j, hashv =>
    let mixed := hashJenMix (i + jenWord k₀ k₁ k₂ k₃) (j + jenWord k₄ k₅ k₆ k₇)
      (hashv + jenWord k₈ k₉ k₁₀ k₁₁)
    hashJenLoop key mixed.1 mixed.2.1 mixed.2.2
  | key, i, j, hashv => (key, i, j, hashv)

/-- `HASH_JEN`. The cases of its switch fall through, so that the bytes there are add up; the
lowest byte of `hashv` is the length's. -/
def hashJen (key : Bytes) : UInt32 :=
  let (k, i, j, hashv) := hashJenLoop key 0x9e3779b9 0x9e3779b9 0xfeedbeef
  let byte n := k.getD n 0
  let hashv := hashv + UInt32.ofNat key.length + jenWord 0 (byte 8) (byte 9) (byte 10)
  let j := j + jenWord (byte 4) (byte 5) (byte 6) (byte 7)
  let i := i + jenWord (byte 0) (byte 1) (byte 2) (byte 3)
  (hashJenMix i j hashv).2.2

/-! ## The structs -/

/-- `UT_hash_handle`, without `tbl`, the same in all elements, and `key`. -/
structure Handle where
  prev : Option Nat := none
  next : Option Nat := none
  hhPrev : Option Nat := none
  hhNext : Option Nat := none
  keylen : UInt32
  hashv : UInt32
  deriving DecidableEq, Repr

/-- A struct with its `hh`. -/
structure Elem (α : Type) where
  val : α
  hh : Handle
  deriving DecidableEq, Repr

/-- `UT_hash_bucket`. -/
structure Bucket where
  hhHead : Option Nat := none
  count : UInt32 := 0
  expandMult : UInt32 := 0
  deriving DecidableEq, Repr

/-- `sizeof(struct UT_hash_bucket)`. -/
def sizeofBucket : Nat := 16

/-- `UT_hash_table`. -/
structure Table where
  buckets : List Bucket
  numBuckets : UInt32
  log2NumBuckets : UInt32
  numItems : UInt32 := 0
  tail : Nat
  idealChainMaxlen : UInt32 := 0
  nonidealItems : UInt32 := 0
  ineffExpands : UInt32 := 0
  noexpand : UInt32 := 0
  deriving DecidableEq, Repr

/-- `sizeof(UT_hash_table)`. -/
def sizeofTable : Nat := 64

/-- The elements that have been made, and the variable `head` with its table. -/
structure Hash (α : Type) where
  elems : Heap (Elem α) := {}
  head : Option (Nat × Table) := none

/-- `HASH_INITIAL_NUM_BUCKETS`. -/
def initialNumBuckets : UInt32 := 32

/-- `HASH_INITIAL_NUM_BUCKETS_LOG2`. -/
def initialNumBucketsLog2 : UInt32 := 5

/-- `HASH_BKT_CAPACITY_THRESH`. -/
def bktCapacityThresh : UInt32 := 10

/-- `HASH_TO_BKT`. -/
def hashToBkt (hashv numBkts : UInt32) : Nat := (hashv &&& (numBkts - 1)).toNat

variable {α : Type}

/-- A write to fields of a handle. -/
def writeHh (elems : Heap (Elem α)) (p : Nat) (f : Handle → Handle) :
    Except Stop (Heap (Elem α)) :=
  (elems.modify p fun e => { e with hh := f e.hh }).orError .badPointer

/-! ## Finding -/

/-- `HASH_FIND_IN_BKT` from the element `out` on. -/
def findInBkt (key : α → Bytes) (elems : Heap (Elem α)) (keyptr : Bytes) (hashval : UInt32) :
    Nat → Option Nat → Except Stop (Option Nat)
  | _, none => return none
  | 0, some _ => throw .unfinished
  | fuel + 1, some out => do
    let e ← (elems.get out).orError .badPointer
    if e.hh.hashv = hashval ∧ e.hh.keylen = UInt32.ofNat keyptr.length ∧ key e.val = keyptr then
      return some out
    findInBkt key elems keyptr hashval fuel e.hh.hhNext

/-- `HASH_FIND`. No chain is longer than the number of elements there are. -/
def find (key : α → Bytes) (s : Hash α) (keyptr : Bytes) : Except Stop (Option Nat) :=
  match s.head with
  | none => return none
  | some (_, tbl) => do
    let hashv := hashJen keyptr
    let bkt ← (tbl.buckets[hashToBkt hashv tbl.numBuckets]?).orError .badPointer
    findInBkt key s.elems keyptr hashv s.elems.next bkt.hhHead

/-- What is read through a pointer to an element. -/
def value (s : Hash α) (p : Nat) : Except Stop α := do
  let e ← (s.elems.get p).orError .badPointer
  return e.val

/-- A write through a pointer to an element. -/
def write (s : Hash α) (p : Nat) (f : α → α) : Except Stop (Hash α) := do
  let elems ← (s.elems.modify p fun e => { e with val := f e.val }).orError .badPointer
  return { s with elems }

/-! ## Adding -/

/-- `HASH_APPEND_LIST`. -/
def appendList (elems : Heap (Elem α)) (tbl : Table) (p : Nat) :
    Except Stop (Heap (Elem α) × Table) := do
  let elems ← writeHh elems p fun hh => { hh with next := none, prev := some tbl.tail }
  let elems ← writeHh elems tbl.tail fun hh => { hh with next := some p }
  return (elems, { tbl with tail := p })

/-- The handle `p` becomes the first of a bucket, before `hhHead`. -/
def linkFront (elems : Heap (Elem α)) (hhHead : Option Nat) (p : Nat) :
    Except Stop (Heap (Elem α)) := do
  let elems ← writeHh elems p fun hh => { hh with hhNext := hhHead, hhPrev := none }
  match hhHead with
  | none => return elems
  | some q => writeHh elems q fun hh => { hh with hhPrev := some p }

/-- What the loops of `HASH_EXPAND_BUCKETS` change: `_he_new_buckets` are `buckets`. -/
structure Expansion (α : Type) where
  elems : Heap (Elem α)
  buckets : List Bucket
  nonidealItems : UInt32 := 0

/-- The body of the inner loop of `HASH_EXPAND_BUCKETS`: the handle `thh` goes to its new bucket,
and the loop on to the handle that came after it. -/
def moveHh (numBuckets idealChainMaxlen : UInt32) (s : Expansion α) (thh : Nat) :
    Except Stop (Expansion α × Option Nat) := do
  let e ← (s.elems.get thh).orError .badPointer
  let bkt := hashToBkt e.hh.hashv (numBuckets * 2)
  let newbkt ← (s.buckets[bkt]?).orError .badPointer
  let count := newbkt.count + 1
  let nonideal : Bool := count > idealChainMaxlen
  let elems ← linkFront s.elems newbkt.hhHead thh
  return ({
    elems
    buckets := s.buckets.set bkt {
      hhHead := some thh
      count
      expandMult := if nonideal ∧ count > newbkt.expandMult * idealChainMaxlen then
        newbkt.expandMult + 1 else newbkt.expandMult }
    nonidealItems := if nonideal then s.nonidealItems + 1 else s.nonidealItems }, e.hh.hhNext)

/-- The body of the outer loop of `HASH_EXPAND_BUCKETS`: all handles of the bucket `i`. -/
def moveBkt (tbl : Table) (idealChainMaxlen : UInt32) (s : Expansion α) (i : Nat) :
    Except Stop (Expansion α) := do
  let bkt ← (tbl.buckets[i]?).orError .badPointer
  walk .unfinished (moveHh tbl.numBuckets idealChainMaxlen) s.elems.next bkt.hhHead s

/-- The items in a chain if they are spread evenly over twice the buckets. -/
def Table.idealChainLength (tbl : Table) : UInt32 :=
  (tbl.numItems >>> (tbl.log2NumBuckets + 1)) +
    (if tbl.numItems &&& (tbl.numBuckets * 2 - 1) ≠ 0 then 1 else 0)

/-- The table once all handles are in the new buckets. A second expansion in a row that leaves more
than half of the items beyond the ideal length is the last one. -/
def Table.expanded (tbl : Table) (s : Expansion α) : Table :=
  let ineffExpands := if s.nonidealItems > tbl.numItems >>> 1 then tbl.ineffExpands + 1 else 0
  { tbl with
    buckets := s.buckets
    numBuckets := tbl.numBuckets * 2
    log2NumBuckets := tbl.log2NumBuckets + 1
    idealChainMaxlen := tbl.idealChainLength
    nonidealItems := s.nonidealItems
    ineffExpands
    noexpand := if ineffExpands > 1 then 1 else tbl.noexpand }

section
variable (mallocs : Nat → Bool)

/-- `uthash_malloc`, and `uthash_fatal` when it fails. -/
def uthashMalloc (size : Nat) : Except Stop Unit :=
  if mallocs size then .ok () else .error (.fatal size)

/-- `malloc` has no memory for what was asked of it. -/
def OutOfMemory : Stop → Prop
  | .fatal size => mallocs size = false
  | _ => False

/-- `HASH_EXPAND_BUCKETS`. -/
def expandBuckets (elems : Heap (Elem α)) (tbl : Table) :
    Except Stop (Heap (Elem α) × Table) := do
  uthashMalloc mallocs (2 * tbl.numBuckets.toNat * sizeofBucket)
  let s ← (List.range tbl.numBuckets.toNat).foldlM (moveBkt tbl tbl.idealChainLength)
    { elems, buckets := List.replicate (2 * tbl.numBuckets.toNat) {} }
  return (s.elems, tbl.expanded s)

/-- `HASH_ADD_TO_BKT`. -/
def addToBkt (elems : Heap (Elem α)) (tbl : Table) (bkt p : Nat) :
    Except Stop (Heap (Elem α) × Table) := do
  let head ← (tbl.buckets[bkt]?).orError .badPointer
  let count := head.count + 1
  let elems ← linkFront elems head.hhHead p
  let tbl := { tbl with buckets := tbl.buckets.set bkt { head with hhHead := some p, count } }
  if count ≥ (head.expandMult + 1) * bktCapacityThresh ∧ tbl.noexpand = 0 then
    expandBuckets mallocs elems tbl
  else return (elems, tbl)

/-- `HASH_MAKE_TABLE` for the first element `p`. -/
def makeTable (p : Nat) : Except Stop Table := do
  uthashMalloc mallocs sizeofTable
  uthashMalloc mallocs (initialNumBuckets.toNat * sizeofBucket)
  return {
    buckets := List.replicate initialNumBuckets.toNat {}
    numBuckets := initialNumBuckets
    log2NumBuckets := initialNumBucketsLog2
    tail := p }

/-- `HASH_ADD_TO_TABLE`. -/
def addToTable (elems : Heap (Elem α)) (tbl : Table) (hashval : UInt32) (p : Nat) :
    Except Stop (Heap (Elem α) × Table) :=
  addToBkt mallocs elems { tbl with numItems := tbl.numItems + 1 }
    (hashToBkt hashval tbl.numBuckets) p

/-- An element with the `hashv` and the `keylen` that `HASH_ADD` gives it. -/
def Elem.new (key : α → Bytes) (a : α) : Elem α where
  val := a
  hh := { keylen := UInt32.ofNat (key a).length, hashv := hashJen (key a) }

/-- `HASH_ADD` of an element that has just been made. -/
def add (key : α → Bytes) (s : Hash α) (a : α) : Except Stop (Hash α) := do
  let hashv := hashJen (key a)
  let p := s.elems.next
  let elems := s.elems.alloc (.new key a)
  match s.head with
  | none =>
    let tbl ← makeTable mallocs p
    let (elems, tbl) ← addToTable mallocs elems tbl hashv p
    return { elems, head := some (p, tbl) }
  | some (head, tbl) =>
    let (elems, tbl) ← appendList elems tbl p
    let (elems, tbl) ← addToTable mallocs elems tbl hashv p
    return { elems, head := some (head, tbl) }

end

/-! ## Checking -/

/-- `if (bad) HASH_OOPS(message)`. -/
def oopsIf (bad : Prop) [Decidable bad] (message : Oops) : Except Stop Unit :=
  if bad then .error (.oops message) else .ok ()

/-- One round of a loop of `HASH_FSCK`: the pointer back is compared with the handle that the loop
has come from, and the handles are counted. -/
def fsckHh (elems : Heap (Elem α)) (prev next : Handle → Option Nat) (message : Oops)
    (s : Option Nat × UInt32) (thh : Nat) : Except Stop ((Option Nat × UInt32) × Option Nat) := do
  let e ← (elems.get thh).orError .badPointer
  oopsIf (s.1 ≠ prev e.hh) message
  return ((some thh, s.2 + 1), next e.hh)

/-- The round of `HASH_FSCK` for the bucket `i`; `count` are the handles of those before. -/
def fsckBkt (elems : Heap (Elem α)) (tbl : Table) (count : UInt32) (i : Nat) :
    Except Stop UInt32 := do
  let bkt ← (tbl.buckets[i]?).orError .badPointer
  let (_, bktCount) ← walk .unfinished (fsckHh elems (·.hhPrev) (·.hhNext) .invalidHhPrev)
    elems.next bkt.hhHead (none, 0)
  oopsIf (bkt.count ≠ bktCount) .invalidBucketCount
  return count + bktCount

/-- `HASH_FSCK`. -/
def fsck (s : Hash α) : Except Stop Unit :=
  match s.head with
  | none => return ()
  | some (head, tbl) => do
    let count ← (List.range tbl.numBuckets.toNat).foldlM (fsckBkt s.elems tbl) 0
    oopsIf (count ≠ tbl.numItems) .invalidHhItemCount
    let (_, count) ← walk .unfinished (fsckHh s.elems (·.prev) (·.next) .invalidPrev)
      s.elems.next (some head) (none, 0)
    oopsIf (count ≠ tbl.numItems) .invalidAppItemCount

end UtHash

/-! ## The lock manager on the hash table -/

namespace Lock

/-- The `sizeof(int)` bytes at an `m_fold`. -/
def foldKey (fold : UInt64) : Bytes := (Bytes.le64 fold).take 4

namespace Hashed

open UtHash

/-- `page_lock_hash`, with every `PageLock_t` made so far. -/
abbrev PageLockHash := UtHash.Hash PageLockT

/-- The key of a record. -/
def recordKey (r : PageLockT) : Bytes := foldKey r.mFold

/-- `HASH_FIND_INT`. -/
def hashFindInt (s : PageLockHash) (fold : UInt64) : Except Stop (Option Nat) :=
  find recordKey s (foldKey fold)

/-- The record that `HASH_FIND_INT` gives a pointer to. -/
def recordOf (s : PageLockHash) (fold : UInt64) : Except Stop (Option PageLockT) := do
  match ← hashFindInt s fold with
  | none => return none
  | some p => return some (← value s p)

section
variable (mallocs : Nat → Bool)

/-- `HASH_ADD_INT` of a new record. -/
def hashAddInt (s : PageLockHash) (r : PageLockT) : Except Stop PageLockHash :=
  add mallocs recordKey s r

/-- `check_lock_request`: the table after the request, the return code and the reply. -/
def checkLockRequest (s : PageLockHash) (asker : Bytes) (request : PageLockRequest) :
    Except Stop (PageLockHash × Int × PageLockReply) := do
  match ← hashFindInt s (calFold request.spaceId request.pageNo) with
  | none =>
    let s ← hashAddInt mallocs s (insertPageLockT asker request)
    return (s, 0, request.reply .lockSuccess)
  | some pageLockInfor =>
    let r ← value s pageLockInfor
    if request.lockType = .unlock then
      let s ← write s pageLockInfor (updateUnlockPageLockT asker)
      return (s, 2, request.reply .unlockSuccess)
    else if r.lockType = .unlock then
      let s ← write s pageLockInfor (updateSuccessPageLockT asker request)
      return (s, 1, request.reply .lockSuccess)
    else if compatible request.lockType r.lockType then
      let s ← write s pageLockInfor (updateSuccessPageLockT asker request)
      return (s, 1, request.reply .lockSuccess)
    else
      let s ← write s pageLockInfor (updateFailPageLockT asker request)
      return (s, -1, request.reply .lockFail)

/-- Requests one after the other, with their answers. -/
def run : PageLockHash → List Ask → Except Stop (PageLockHash × List Event)
  | s, [] => return (s, [])
  | s, a :: as => do
    let (s, answer) ← checkLockRequest mallocs s a.asker a.request
    let (s, events) ← run s as
    return (s, (a, answer) :: events)

end

end Hashed

end Lock
