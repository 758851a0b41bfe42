import Mtc.Lock.Proof.HashChains

/-!
# The hash table keeps what it is given

`Holds key s l`: the pointers of `s` are those of a hash table with the elements `l`, in the order
in which they were added: the app-order list leads through them (`Ordered`), and so do the chains of
the buckets (`Bucketed`). It is all one needs to know of `uthash.h`:

* `find_spec`: `HASH_FIND` finds the element with a key if there is one, and nothing else;
* `write_spec`, `add_spec`: a write through a pointer that was found, and `HASH_ADD` of an element
  with a new key;
* `fsck_spec`: `HASH_FSCK` has nothing to report.
-/

namespace UtHash

variable {α β : Type} {key : α → Bytes} {elems elems' : Heap (Elem α)} {ps : List Nat}

/-! ## App order -/

/-- The element at `p` has the hash value and the length of its key. -/
def Keyed (key : α → Bytes) (elems : Heap (Elem α)) (p : Nat) : Prop :=
  ∃ e, elems.get p = some e ∧ e.hh.hashv = hashJen (key e.val) ∧
    e.hh.keylen = UInt32.ofNat (key e.val).length

theorem Keyed.same {p : Nat} (h : Keyed key elems p)
    (hs : Same (fun e => (key e.val, e.hh.hashv, e.hh.keylen)) ps elems elems') (hp : p ∈ ps) :
    Keyed key elems' p := by
  obtain ⟨e, he, hhash, hlen⟩ := h
  obtain ⟨e', he', hv⟩ := hs.get hp he
  simp only [Prod.mk.injEq] at hv
  refine ⟨e', he', ?_, ?_⟩
  · rw [hv.2.1, hv.1, hhash]
  · rw [hv.2.2, hv.1, hlen]

/-- The elements `ps` in app order, linked both ways from `head` to `tail`. -/
structure Ordered (key : α → Bytes) (elems : Heap (Elem α)) (head tail : Nat) (ps : List Nat) :
    Prop where
  lt : ∀ p ∈ ps, p < elems.next
  keyed : ∀ p ∈ ps, Keyed key elems p
  app : Linked (ptr (·.next) elems) (ptr (·.prev) elems) none (some head) ps
  tail : ps.getLast? = some tail

namespace Ordered

variable {head tail p : Nat}

theorem get_ne_none (h : Ordered key elems head tail ps) (hp : p ∈ ps) : elems.get p ≠ none := by
  obtain ⟨e, he, -⟩ := h.keyed p hp
  rw [he]
  exact Option.some_ne_none e

/-- There are no more elements than have been made. -/
theorem length_le (h : Ordered key elems head tail ps) : ps.length ≤ elems.next := by
  have hsub : ps.Subperm (List.range elems.next) :=
    List.subperm_of_subset h.app.nodup fun p hp => List.mem_range.2 (h.lt p hp)
  simpa using hsub.length_le

/-- Neither the links of the buckets nor the rest of the values matter. -/
theorem same (h : Ordered key elems head tail ps)
    (hs : Same (fun e => (key e.val, e.hh.hashv, e.hh.keylen, e.hh.next, e.hh.prev)) ps
      elems elems') (hn : elems.next ≤ elems'.next) : Ordered key elems' head tail ps := by
  refine ⟨fun p hp => (h.lt p hp).trans_le hn, fun p hp => ?_, ?_, h.tail⟩
  · exact (h.keyed p hp).same (hs.comp fun v => (v.1, v.2.1, v.2.2.1)) hp
  · exact h.app.congr (fun p hp => Same.ptr (hs.comp fun v => v.2.2.2.1) hp)
      fun p hp => Same.ptr (hs.comp fun v => v.2.2.2.2) hp

/-- **`HASH_APPEND_LIST`** of an element that is not in the list. -/
theorem appendList_spec {tbl : Table} (h : Ordered key elems head tbl.tail ps)
    (hp : Keyed key elems p) (hlt : p < elems.next) (hnew : p ∉ ps) :
    ∃ elems', appendList elems tbl p = .ok (elems', { tbl with tail := p }) ∧
      elems'.next = elems.next ∧ (∀ qs, Same Elem.unordered qs elems elems') ∧
      Ordered key elems' head p (ps ++ [p]) := by
  obtain ⟨qs, hps⟩ := List.getLast?_eq_some_iff.1 h.tail
  have htail : tbl.tail ∈ ps := by simp [hps]
  have hne : tbl.tail ≠ p := ne_of_mem_of_not_mem htail hnew
  obtain ⟨e, he, -⟩ := id hp
  obtain ⟨et, het, -⟩ := h.keyed _ htail
  obtain ⟨elems₁, hw₁, hn₁, hg₁⟩ :=
    writeHh_spec he fun hh => { hh with next := none, prev := some tbl.tail }
  have het₁ : elems₁.get tbl.tail = some et := by rw [hg₁, if_neg hne, het]
  obtain ⟨elems₂, hw₂, hn₂, hg₂⟩ := writeHh_spec het₁ fun hh => { hh with next := some p }
  have hptr₁ := ptr_of_get hg₁
  have hptr₂ := ptr_of_get hg₂
  have hsame : ∀ qs, Same Elem.unordered qs elems elems₂ := fun qs =>
    (same_of_get hg₁ Elem.unordered he rfl qs).trans
      (same_of_get hg₂ Elem.unordered het₁ rfl qs)
  have hnext : elems₂.next = elems.next := hn₂.trans hn₁
  refine ⟨elems₂, by rw [appendList, hw₁, Except.ok_bind, hw₂]; rfl, hnext, hsame, ?_, ?_, ?_, ?_⟩
  · rw [hnext]
    intro q hq
    rcases List.mem_append.1 hq with hq | hq
    · exact h.lt q hq
    · rw [List.mem_singleton.1 hq]
      exact hlt
  · intro q hq
    have hk : Keyed key elems q := by
      rcases List.mem_append.1 hq with hq | hq
      · exact h.keyed q hq
      · rwa [List.mem_singleton.1 hq]
    exact hk.same ((hsame [q]).comp fun e => (key e.val, e.hh.hashv, e.hh.keylen))
      List.mem_cons_self
  · have happ := h.app
    have hnd := h.app.nodup
    rw [hps] at happ hnd hnew ⊢
    have hqs : ∀ q ∈ qs, q ≠ tbl.tail := by
      rintro q hq rfl
      exact (List.nodup_append.1 hnd).2.2 _ hq _ (List.mem_singleton_self _) rfl
    refine happ.snoc ?_ ?_ ?_ (fun q hq => ?_) fun q hq => ?_
    · rw [hptr₂, if_pos rfl]
    · rw [hptr₂, if_neg (Ne.symm hne), hptr₁, if_pos rfl]
    · rw [hptr₂, if_neg (Ne.symm hne), hptr₁, if_pos rfl]
    · have hqp : q ≠ p := ne_of_mem_of_not_mem (List.mem_append_left _ hq) hnew
      rw [hptr₂, if_neg (hqs q hq), hptr₁, if_neg hqp]
    · have hqp : q ≠ p := ne_of_mem_of_not_mem hq hnew
      rw [hptr₂]
      split_ifs with hqt
      · rw [hqt, ptr_eq het]
      · rw [hptr₁, if_neg hqp]
  · rw [List.getLast?_concat]

end Ordered

/-! ## The table -/

/-- The value at `p`. -/
def valAt (elems : Heap (Elem α)) (p : Nat) : Option α := (elems.get p).map (·.val)

/-- The hash table holds the elements `l`, no two with one key, in the order of `l`. -/
def Holds (key : α → Bytes) (s : Hash α) (l : List α) : Prop :=
  match s.head with
  | none => l = []
  | some (head, tbl) => (l.map key).Nodup ∧ ∃ ps chains, Ordered key s.elems head tbl.tail ps ∧
      Bucketed s.elems tbl ps chains ∧ ps.map (valAt s.elems) = l.map some

theorem valAt_same {p : Nat} (hs : Same (·.val) ps elems elems') (hp : p ∈ ps) :
    valAt elems' p = valAt elems p := hs p hp

theorem map_valAt {l : List α} (hl : ps.map (valAt elems) = l.map some) (g : α → β) :
    (ps.map fun p => (valAt elems p).map g) = (l.map g).map some := by
  have hg := congrArg (List.map (Option.map g)) hl
  simpa [Function.comp_def] using hg

/-! ### An element that has just been made -/

theorem get_new (key : α → Bytes) (elems : Heap (Elem α)) (a : α) :
    (elems.alloc (.new key a)).get elems.next = some (.new key a) := by
  rw [Heap.get_alloc, if_pos rfl]

theorem keyed_new (key : α → Bytes) (elems : Heap (Elem α)) (a : α) :
    Keyed key (elems.alloc (.new key a)) elems.next :=
  ⟨_, get_new key elems a, rfl, rfl⟩

theorem valAt_new (key : α → Bytes) (elems : Heap (Elem α)) (a : α) :
    valAt (elems.alloc (.new key a)) elems.next = some a := by
  rw [valAt, get_new]
  rfl

theorem hashvAt_eq {p : Nat} {e : Elem α} (h : elems.get p = some e) :
    hashvAt elems p = e.hh.hashv := by
  rw [hashvAt, h]
  rfl

theorem same_alloc {view : Elem α → β} {e : Elem α} (h : ∀ p ∈ ps, p < elems.next) :
    Same view ps elems (elems.alloc e) := by
  intro p hp
  rw [Heap.get_alloc, if_neg (h p hp).ne]

section
variable {mallocs : Nat → Bool} (hm : ∀ n, mallocs n = true → n < 2 ^ 36)
include hm

/-- The last step of `HASH_ADD`: the element `p`, the last in app order, goes to its bucket. -/
theorem addToTable_holds (tbl : Table) {head p : Nat} {qs : List Nat} {chains : Nat → List Nat}
    {l : List α} (ho : Ordered key elems head tbl.tail (qs ++ [p]))
    (hb : Bucketed elems tbl qs chains) (hl : (qs ++ [p]).map (valAt elems) = l.map some)
    (hnd : (l.map key).Nodup) :
    Except.EndsOr (OutOfMemory mallocs)
      (fun r => Holds key { elems := r.1, head := some (head, r.2) } l)
      (addToTable mallocs elems tbl (hashvAt elems p) p) := by
  refine (addToTable_spec hm hb (fun q hq => ho.get_ne_none hq) ho.app.nodup ho.length_le).mono ?_
  rintro ⟨elems', tbl'⟩ ⟨hnext, hsame, htail, chains', hb'⟩
  refine ⟨hnd, qs ++ [p], chains', ?_, hb', ?_⟩
  · change Ordered key elems' head tbl'.tail _
    rw [htail]
    exact ho.same ((hsame _).comp fun e =>
      (key e.val, e.hh.hashv, e.hh.keylen, e.hh.next, e.hh.prev)) hnext.ge
  · rw [← hl]
    exact List.map_congr_left fun q hq => valAt_same ((hsame _).comp fun e => e.val) hq

/-- `HASH_ADD` of the first element. -/
theorem add_first (key : α → Bytes) (elems : Heap (Elem α)) (a : α) :
    Except.EndsOr (OutOfMemory mallocs) (fun s' => Holds key s' [a])
      (add mallocs key ⟨elems, none⟩ a) := by
  set elems₁ := elems.alloc (.new key a)
  have hmake : Except.EndsOr (OutOfMemory mallocs) (fun tbl => tbl.tail = elems.next ∧
      Bucketed elems₁ tbl [] fun _ => []) (makeTable mallocs elems.next) := by
    refine (uthashMalloc_spec hm _).bind fun _ _ => (uthashMalloc_spec hm _).bind fun _ _ => ?_
    refine .inr ⟨_, rfl, rfl, ?_, ?_, List.length_replicate, rfl, Chains.empty elems₁ _ _⟩
    · change initialNumBuckets.toNat = 2 ^ initialNumBucketsLog2.toNat
      decide
    · change initialNumBucketsLog2.toNat ≤ 31
      decide
  refine hmake.bind fun tbl htbl => ?_
  obtain ⟨htail, hb⟩ := htbl
  have hget := get_new key elems a
  have ho : Ordered key elems₁ elems.next tbl.tail ([] ++ [elems.next]) := by
    refine ⟨fun p hp => ?_, fun p hp => ?_, ⟨rfl, ptr_eq hget _, ptr_eq hget _⟩, ?_⟩
    · rw [List.mem_singleton.1 hp]
      exact Nat.lt_succ_self _
    · rw [List.mem_singleton.1 hp]
      exact keyed_new key elems a
    · rw [htail]
      rfl
  have hadd := addToTable_holds hm _ (l := [a]) ho hb
    (by rw [List.nil_append, List.map_singleton, valAt_new]; rfl) (List.nodup_singleton _)
  rw [hashvAt_eq hget] at hadd
  exact hadd.bind fun r hr => .inr ⟨_, rfl, hr⟩

/-- **`HASH_ADD`** of an element with a new key. -/
theorem add_spec {s : Hash α} {l : List α} {a : α} (h : Holds key s l)
    (hnew : ∀ b ∈ l, key b ≠ key a) :
    Except.EndsOr (OutOfMemory mallocs) (fun s' => Holds key s' (l ++ [a]))
      (add mallocs key s a) := by
  obtain ⟨elems, _ | ⟨head, tbl⟩⟩ := s
  · obtain rfl : l = [] := h
    exact add_first hm key elems a
  obtain ⟨hnd, ps, chains, ho, hb, hl⟩ := h
  -- the new element changes nothing of those there are
  have hsame : ∀ {γ : Type} (view : Elem α → γ),
      Same view ps elems (elems.alloc (.new key a)) := fun view => same_alloc ho.lt
  obtain ⟨elems₂, happ, -, hunord, ho₂⟩ :=
    (ho.same (hsame _) (Nat.le_succ _)).appendList_spec (keyed_new key elems a)
      (Nat.lt_succ_self _) fun hp => (ho.lt _ hp).ne rfl
  obtain ⟨hpower, hlog2, hlength, hitems, hchains⟩ := (hb.same (hsame _)).same
    ((hunord ps).comp fun e => (e.hh.hashv, e.hh.hhNext, e.hh.hhPrev))
  have hvals : (ps ++ [elems.next]).map (valAt elems₂) = (l ++ [a]).map some := by
    rw [List.map_append, List.map_append, ← hl, List.map_singleton, List.map_singleton]
    congr 1
    · exact List.map_congr_left fun p hp =>
        (valAt_same ((hunord ps).comp fun e => e.val) hp).trans (valAt_same (hsame _) hp)
    · rw [valAt_same ((hunord [elems.next]).comp fun e => e.val) List.mem_cons_self, valAt_new]
  have hnd' : ((l ++ [a]).map key).Nodup := by
    rw [List.map_append, List.nodup_append]
    refine ⟨hnd, List.nodup_singleton _, fun k hk k' hk' => ?_⟩
    obtain ⟨b, hbl, rfl⟩ := List.mem_map.1 hk
    rw [List.mem_singleton.1 hk']
    exact hnew b hbl
  have hhash : hashvAt elems₂ elems.next = hashJen (key a) := by
    obtain ⟨e', he', hv⟩ := ((hunord [elems.next]).comp fun e => e.hh.hashv).get
      List.mem_cons_self (get_new key elems a)
    rw [hashvAt_eq he']
    exact hv
  have hadd := addToTable_holds hm { tbl with tail := elems.next } ho₂
    ⟨hpower, hlog2, hlength, hitems, hchains⟩ hvals hnd'
  rw [hhash] at hadd
  unfold add
  simp only [happ, Except.ok_bind]
  exact hadd.bind fun r hr => .inr ⟨_, rfl, hr⟩

end

/-! ## Finding -/

/-- `HASH_FIND_IN_BKT` compares hash values and key lengths first; where the keys are equal, so are
these. -/
theorem findInBkt_spec {k : Bytes} : ∀ {chain : List Nat} {fuel : Nat} {before hhHead : Option Nat},
    Linked (ptr (·.hhNext) elems) (ptr (·.hhPrev) elems) before hhHead chain →
    (∀ p ∈ chain, Keyed key elems p) → chain.length ≤ fuel →
    findInBkt key elems k (hashJen k) fuel hhHead =
      .ok (chain.find? fun p => (valAt elems p).map key = some k)
  | [], fuel, _, hhHead, hlink, _, _ => by
    obtain rfl : hhHead = none := hlink
    cases fuel <;> rfl
  | p :: chain, fuel, _, hhHead, hlink, hkeyed, hfuel => by
    obtain ⟨rfl, -, hrest⟩ := hlink
    obtain ⟨e, he, hhash, hlen⟩ := hkeyed p List.mem_cons_self
    cases fuel with
    | zero => simp at hfuel
    | succ fuel =>
      have hval : (valAt elems p).map key = some (key e.val) := by
        rw [valAt, he]
        rfl
      rw [findInBkt, he, Option.orError_some, Except.ok_bind, List.find?_cons, hval]
      by_cases hk : key e.val = k
      · rw [if_pos ⟨by rw [hhash, hk], by rw [hlen, hk], hk⟩, hk, decide_eq_true rfl]
        rfl
      · rw [if_neg fun hc => hk hc.2.2, decide_eq_false fun hc => hk (Option.some_inj.1 hc),
          ← ptr_eq he (·.hhNext)]
        exact findInBkt_spec hrest (fun q hq => hkeyed q (List.mem_cons_of_mem p hq))
          (Nat.le_of_succ_le_succ hfuel)

/-- `HASH_FIND` looks in the right chain: an element with the key is nowhere else. -/
theorem find_cases {head : Nat} {tbl : Table} {chains : Nat → List Nat}
    (ho : Ordered key elems head tbl.tail ps) (hb : Bucketed elems tbl ps chains) (k : Bytes) :
    (find key ⟨elems, some (head, tbl)⟩ k = .ok none ∧
        ∀ p ∈ ps, (valAt elems p).map key ≠ some k) ∨
      ∃ p ∈ ps, find key ⟨elems, some (head, tbl)⟩ k = .ok (some p) ∧
        (valAt elems p).map key = some k := by
  set i := hashToBkt (hashJen k) tbl.numBuckets with hi
  have hmem : ∀ {p}, p ∈ chains i ↔ p ∈ ps ∧ bktAt elems tbl.numBuckets p = i :=
    hb.chains.spread.mem_iff
  have hlt : i < tbl.buckets.length := by
    rw [hb.length]
    exact hashToBkt_lt hb.pos
  have hbkt := List.getElem?_eq_getElem hlt
  have hfind : find key ⟨elems, some (head, tbl)⟩ k =
      .ok ((chains i).find? fun p => (valAt elems p).map key = some k) := by
    simp only [find, ← hi, hbkt, Option.orError_some, Except.ok_bind]
    exact findInBkt_spec (hb.chains.linked _ _ hbkt) (fun p hp => ho.keyed p (hmem.1 hp).1)
      ((hb.chains.spread.length_le _).trans ho.length_le)
  rw [hfind]
  cases hf : (chains i).find? fun p => (valAt elems p).map key = some k with
  | none =>
    refine .inl ⟨rfl, fun p hp hk => ?_⟩
    have hchain : p ∈ chains i := by
      obtain ⟨e, he, hhash, -⟩ := ho.keyed p hp
      rw [valAt, he] at hk
      obtain rfl : key e.val = k := Option.some_inj.1 hk
      refine hmem.2 ⟨hp, ?_⟩
      rw [bktAt, hashvAt_eq he, hhash]
    exact List.find?_eq_none.1 hf p hchain (decide_eq_true hk)
  | some p =>
    have hk := List.find?_some hf
    exact .inr ⟨p, (hmem.1 (List.mem_of_find?_eq_some hf)).1, rfl, of_decide_eq_true hk⟩

/-- **`HASH_FIND`** finds the element with the key, if there is one. -/
theorem find_spec {s : Hash α} {l : List α} (h : Holds key s l) (k : Bytes) :
    (find key s k = .ok none ∧ ∀ a ∈ l, key a ≠ k) ∨
      ∃ p a, find key s k = .ok (some p) ∧ a ∈ l ∧ key a = k ∧ value s p = .ok a := by
  obtain ⟨elems, _ | ⟨head, tbl⟩⟩ := s
  · obtain rfl : l = [] := h
    exact .inl ⟨rfl, fun a ha => absurd ha List.not_mem_nil⟩
  obtain ⟨hnd, ps, chains, ho, hb, hl⟩ := h
  rcases find_cases ho hb k with ⟨hfind, hnone⟩ | ⟨p, hp, hfind, hkey⟩
  · refine .inl ⟨hfind, fun a ha hk => ?_⟩
    have hm : some a ∈ ps.map (valAt elems) := by
      rw [hl]
      exact List.mem_map_of_mem ha
    obtain ⟨p, hp, hv⟩ := List.mem_map.1 hm
    exact hnone p hp (by rw [hv, Option.map_some, hk])
  · have hm : valAt elems p ∈ l.map some := by
      rw [← hl]
      exact List.mem_map_of_mem hp
    obtain ⟨a, ha, hv⟩ := List.mem_map.1 hm
    rw [← hv, Option.map_some, Option.some_inj] at hkey
    obtain ⟨e, he, rfl⟩ := Option.map_eq_some_iff.1 hv.symm
    refine .inr ⟨p, e.val, hfind, ha, hkey, ?_⟩
    rw [value, he]
    rfl

/-- **A write through the pointer that `HASH_FIND` has given** changes the element with the key and
no other. -/
theorem write_spec {s : Hash α} {l : List α} {k : Bytes} {p : Nat} {f : α → α} (h : Holds key s l)
    (hfind : find key s k = .ok (some p)) (hf : ∀ a, key (f a) = key a) :
    ∃ s', write s p f = .ok s' ∧ Holds key s' (l.map fun a => if key a = k then f a else a) := by
  obtain ⟨elems, _ | ⟨head, tbl⟩⟩ := s
  · cases hfind
  obtain ⟨hnd, ps, chains, ho, hb, hl⟩ := h
  obtain ⟨hp, hkey⟩ : p ∈ ps ∧ (valAt elems p).map key = some k := by
    rcases find_cases ho hb k with ⟨hnone, -⟩ | ⟨q, hq, hsome, hkey⟩
    · rw [hnone] at hfind
      cases hfind
    · rw [hsome] at hfind
      cases hfind
      exact ⟨hq, hkey⟩
  obtain ⟨e, he, -⟩ := ho.keyed p hp
  obtain ⟨elems', hmod⟩ := Heap.exists_modify he fun e : Elem α => { e with val := f e.val }
  have hget := Heap.get_modify hmod
  have hsame : ∀ {γ : Type} {view : Elem α → γ}, (∀ e, view { e with val := f e.val } = view e) →
      Same view ps elems elems' := by
    intro γ view hv q _
    rw [hget]
    split_ifs with hq
    · rw [Option.map_map]
      exact congrArg (fun g => (elems.get q).map g) (funext hv)
    · rfl
  -- the keys of the elements are different, so that the write goes to the one with the key
  have hinj : ∀ q ∈ ps, (valAt elems q).map key = some k → q = p := by
    intro q hq hk
    have hkeys : (ps.map fun q => (valAt elems q).map key).Nodup := by
      rw [map_valAt hl]
      exact hnd.map fun _ _ => Option.some_inj.1
    exact List.inj_on_of_nodup_map hkeys hq hp (hk.trans hkey.symm)
  have hvals : ∀ q ∈ ps,
      valAt elems' q = (valAt elems q).map fun a => if key a = k then f a else a := by
    intro q hq
    rw [valAt, hget]
    by_cases hqp : q = p
    · subst hqp
      rw [valAt, he] at hkey
      rw [if_pos rfl, valAt, he, Option.map_some, Option.map_some, Option.map_some, Option.map_some,
        if_pos (Option.some_inj.1 hkey)]
    · obtain ⟨e', he', -⟩ := ho.keyed q hq
      have hne : key e'.val ≠ k := fun hk => hqp (hinj q hq (by rw [valAt, he', ← hk]; rfl))
      rw [if_neg hqp, valAt, he', Option.map_some, Option.map_some, if_neg hne]
  refine ⟨⟨elems', some (head, tbl)⟩, ?_, ?_, ps, chains, ?_, hb.same (hsame fun _ => rfl), ?_⟩
  · rw [write, hmod]
    rfl
  · have hmap : (l.map fun a => if key a = k then f a else a).map key = l.map key := by
      rw [List.map_map]
      refine List.map_congr_left fun a _ => ?_
      rw [Function.comp_apply]
      split_ifs
      · exact hf a
      · rfl
    rwa [hmap]
  · exact ho.same (hsame fun e => by rw [hf]) (Heap.next_modify hmod).ge
  · rw [List.map_congr_left hvals]
    exact map_valAt hl _

/-! ## Checking -/

theorem oopsIf_eq {γ : Type} [DecidableEq γ] {a b : γ} (h : a = b) (message : Oops) :
    oopsIf (a ≠ b) message = .ok () := if_neg (not_not.2 h)

/-- A walk of `HASH_FSCK` along a list that is linked both ways. -/
theorem walk_fsckHh (message : Oops) {prev next : Handle → Option Nat} {head : Option Nat}
    {fuel : Nat} (hlink : Linked (ptr next elems) (ptr prev elems) none head ps)
    (hget : ∀ p ∈ ps, elems.get p ≠ none) (hfuel : ps.length ≤ fuel) :
    walk .unfinished (fsckHh elems prev next message) fuel head (none, 0) =
      .ok (ps.getLast?, UInt32.ofNat ps.length) := by
  have hrule := walk_chain Stop.unfinished (fsckHh elems prev next message)
    (fun done rest s => done ++ rest = ps ∧ s = (done.getLast?, UInt32.ofNat done.length))
    (fun done p rest s hI => ?_) hfuel ⟨List.nil_append ps, rfl⟩
  · obtain ⟨s', hs', -, rfl⟩ := hrule
    rw [List.nil_append] at hs'
    rw [hlink.head_eq]
    exact hs'
  · obtain ⟨hall, rfl⟩ := hI
    rw [← hall] at hlink
    obtain ⟨e, he⟩ := Option.ne_none_iff_exists'.1 (hget p (by simp [← hall]))
    have hprev : done.getLast? = prev e.hh := by
      rw [← ptr_eq he prev, hlink.prev_eq, Option.or_none]
    refine ⟨(some p, UInt32.ofNat done.length + 1), ?_, by simpa using hall, ?_⟩
    · rw [fsckHh, he, Option.orError_some, Except.ok_bind, oopsIf_eq hprev, ← hlink.next_eq,
        ptr_eq he]
      rfl
    · rw [List.getLast?_concat, List.length_append, UInt32.ofNat_add]
      rfl

/-- The rounds of `HASH_FSCK` for the buckets `is`. -/
theorem foldlM_fsckBkt {tbl : Table} {chains : Nat → List Nat} (hb : Bucketed elems tbl ps chains)
    (hget : ∀ p ∈ ps, elems.get p ≠ none) (hlen : ps.length ≤ elems.next) :
    ∀ (is : List Nat) (n : Nat), (∀ i ∈ is, i < tbl.buckets.length) →
      is.foldlM (fsckBkt elems tbl) (UInt32.ofNat n) =
        .ok (UInt32.ofNat (n + (is.flatMap chains).length))
  | [], n, _ => rfl
  | i :: is, n, hi => by
    have hbkt := List.getElem?_eq_getElem (hi i List.mem_cons_self)
    have hround : fsckBkt elems tbl (UInt32.ofNat n) i =
        .ok (UInt32.ofNat (n + (chains i).length)) := by
      have hwalk := walk_fsckHh .invalidHhPrev (hb.chains.linked i _ hbkt)
        (fun p hp => hget p (hb.chains.spread.mem_iff.1 hp).1)
        ((hb.chains.spread.length_le i).trans hlen)
      simp only [fsckBkt, hbkt, hwalk, oopsIf_eq (hb.chains.count i _ hbkt), Option.orError_some,
        Except.ok_bind, UInt32.ofNat_add]
      rfl
    rw [List.foldlM_cons, hround, Except.ok_bind,
      foldlM_fsckBkt hb hget hlen is _ fun j hj => hi j (List.mem_cons_of_mem i hj),
      List.flatMap_cons, List.length_append, Nat.add_assoc]

/-- **`HASH_FSCK`** has nothing to report. -/
theorem fsck_spec {s : Hash α} {l : List α} (h : Holds key s l) : fsck s = .ok () := by
  obtain ⟨elems, _ | ⟨head, tbl⟩⟩ := s
  · rfl
  obtain ⟨hnd, ps, chains, ho, hb, hl⟩ := h
  have hget : ∀ p ∈ ps, elems.get p ≠ none := fun p hp => ho.get_ne_none hp
  have hbuckets := foldlM_fsckBkt hb hget ho.length_le (List.range tbl.numBuckets.toNat) 0
    fun i hi => by rw [hb.length]; exact List.mem_range.1 hi
  have hperm := hb.chains.spread.flatMap_perm (n := tbl.numBuckets.toNat)
    fun p _ => hashToBkt_lt hb.pos
  rw [Nat.zero_add, hperm.length_eq, ← hb.items] at hbuckets
  have happ := walk_fsckHh .invalidPrev ho.app hget ho.length_le
  rw [← hb.items] at happ
  change List.foldlM (fsckBkt elems tbl) 0 _ = _ at hbuckets
  simp only [fsck, hbuckets, happ, oopsIf_eq, Except.ok_bind]

end UtHash
