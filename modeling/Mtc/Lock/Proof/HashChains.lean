import Mtc.Lock.UtHash

/-!
# The buckets of the hash table

`Chains`: the chain of every bucket is linked both ways and counted, and every element is in the
chain of the bucket that its hash value says. Chains are built by one operation, a handle put in
front of its chain (`Chains.push`), both when an element is added (`addToTable_spec`) and when the
number of buckets is doubled and every element goes to a new chain (`expandBuckets_spec`).

The loops of `HASH_EXPAND_BUCKETS` walk along chains whose handles they move: `Moving` is what holds
between two rounds, and says that the handles still to come lead on as they did.
-/

namespace UtHash

variable {α β : Type}

/-! ## Reading the memory -/

/-- A pointer of the handle at `p`. -/
def ptr (field : Handle → Option Nat) (elems : Heap (Elem α)) (p : Nat) : Option Nat :=
  (elems.get p).bind fun e => field e.hh

theorem ptr_eq {elems : Heap (Elem α)} {p : Nat} {e : Elem α} (h : elems.get p = some e)
    (field : Handle → Option Nat) : ptr field elems p = field e.hh := by
  rw [ptr, h, Option.bind_some]

/-- The elements `ps` look the same through `view`. -/
def Same (view : Elem α → β) (ps : List Nat) (elems elems' : Heap (Elem α)) : Prop :=
  ∀ p ∈ ps, (elems'.get p).map view = (elems.get p).map view

/-- All of an element but its links in the bucket. -/
def Elem.unbucketed (e : Elem α) : Elem α :=
  { e with hh := { e.hh with hhPrev := none, hhNext := none } }

/-- All of an element but its links in app order. -/
def Elem.unordered (e : Elem α) : Elem α :=
  { e with hh := { e.hh with prev := none, next := none } }

section
variable {elems elems' elems'' : Heap (Elem α)} {ps : List Nat} {p : Nat} {view : Elem α → β}

theorem Same.refl (view : Elem α → β) (ps : List Nat) (elems : Heap (Elem α)) :
    Same view ps elems elems := fun _ _ => rfl

theorem Same.trans (h : Same view ps elems elems') (h' : Same view ps elems' elems'') :
    Same view ps elems elems'' := fun p hp => (h' p hp).trans (h p hp)

theorem Same.comp {γ : Type} (h : Same view ps elems elems') (g : β → γ) :
    Same (fun e => g (view e)) ps elems elems' := by
  intro p hp
  have hv := congrArg (Option.map g) (h p hp)
  rwa [Option.map_map, Option.map_map] at hv

theorem Same.get (h : Same view ps elems elems') (hp : p ∈ ps) {e : Elem α}
    (he : elems.get p = some e) : ∃ e', elems'.get p = some e' ∧ view e' = view e := by
  have hv := h p hp
  rw [he, Option.map_some] at hv
  exact Option.map_eq_some_iff.1 hv

theorem Same.get_ne_none (h : Same view ps elems elems') (hp : p ∈ ps)
    (hget : elems.get p ≠ none) : elems'.get p ≠ none := by
  obtain ⟨e, he⟩ := Option.ne_none_iff_exists'.1 hget
  obtain ⟨e', he', -⟩ := h.get hp he
  rw [he']
  exact Option.some_ne_none e'

theorem Same.ptr {field : Handle → Option Nat} (h : Same (fun e => field e.hh) ps elems elems')
    (hp : p ∈ ps) : ptr field elems' p = ptr field elems p := by
  have hv := h p hp
  unfold UtHash.ptr
  cases he : elems.get p with
  | none =>
    rw [he, Option.map_none, Option.map_eq_none_iff] at hv
    rw [hv]
  | some e =>
    obtain ⟨e', he', hf⟩ := Same.get h hp he
    rw [he', Option.bind_some, Option.bind_some, hf]

/-! ## Writing to a handle -/

/-- A write through a pointer to an element: what is read through every pointer afterwards. -/
theorem writeHh_spec {e : Elem α} (he : elems.get p = some e) (f : Handle → Handle) :
    ∃ elems', writeHh elems p f = .ok elems' ∧ elems'.next = elems.next ∧
      ∀ q, elems'.get q = if q = p then some { e with hh := f e.hh } else elems.get q := by
  obtain ⟨elems', hm⟩ := Heap.exists_modify he fun e : Elem α => { e with hh := f e.hh }
  refine ⟨elems', ?_, Heap.next_modify hm, fun q => ?_⟩
  · rw [writeHh, hm]
    rfl
  · rw [Heap.get_modify hm]
    split_ifs with hq
    · rw [hq, he]
      rfl
    · rfl

section
variable {e e' : Elem α} (hg : ∀ q, elems'.get q = if q = p then some e' else elems.get q)
include hg

theorem ptr_of_get (field : Handle → Option Nat) (q : Nat) :
    ptr field elems' q = if q = p then field e'.hh else ptr field elems q := by
  rw [ptr, hg]
  split_ifs with hq
  · rfl
  · rfl

theorem same_of_get (view : Elem α → β) (he : elems.get p = some e) (hv : view e' = view e)
    (ps : List Nat) :
    Same view ps elems elems' := by
  intro q _
  rw [hg]
  split_ifs with hq
  · rw [hq, he, Option.map_some, Option.map_some, hv]
  · rfl

end

/-- The memory after `p` has become the first handle of a bucket, before `hhHead`. -/
structure LinkedFront (elems : Heap (Elem α)) (hhHead : Option Nat) (p : Nat)
    (elems' : Heap (Elem α)) : Prop where
  next : elems'.next = elems.next
  same : ∀ ps, Same Elem.unbucketed ps elems elems'
  hhNext : ptr (·.hhNext) elems' p = hhHead
  hhNext_ne : ∀ q, q ≠ p → ptr (·.hhNext) elems' q = ptr (·.hhNext) elems q
  hhPrev : ptr (·.hhPrev) elems' p = none
  hhPrev_head : ∀ q, hhHead = some q → ptr (·.hhPrev) elems' q = some p
  hhPrev_ne : ∀ q, q ≠ p → hhHead ≠ some q → ptr (·.hhPrev) elems' q = ptr (·.hhPrev) elems q

theorem linkFront_spec (hhHead : Option Nat) (hp : elems.get p ≠ none)
    (hh : ∀ q, hhHead = some q → elems.get q ≠ none ∧ q ≠ p) :
    ∃ elems', linkFront elems hhHead p = .ok elems' ∧ LinkedFront elems hhHead p elems' := by
  obtain ⟨e, he⟩ := Option.ne_none_iff_exists'.1 hp
  obtain ⟨elems₁, hw₁, hn₁, hg₁⟩ :=
    writeHh_spec he fun hh => { hh with hhNext := hhHead, hhPrev := none }
  have hptr₁ := ptr_of_get hg₁
  have hsame₁ := same_of_get hg₁ Elem.unbucketed he rfl
  cases hhHead with
  | none =>
    refine ⟨elems₁, by rw [linkFront, hw₁]; rfl, hn₁, hsame₁, ?_, fun q hq => ?_, ?_, ?_,
      fun q hq _ => ?_⟩
    · rw [hptr₁, if_pos rfl]
    · rw [hptr₁, if_neg hq]
    · rw [hptr₁, if_pos rfl]
    · rintro q ⟨⟩
    · rw [hptr₁, if_neg hq]
  | some q₀ =>
    obtain ⟨hq₀, hne⟩ := hh q₀ rfl
    obtain ⟨e₀, he₀⟩ := Option.ne_none_iff_exists'.1 hq₀
    have he₁ : elems₁.get q₀ = some e₀ := by rw [hg₁, if_neg hne, he₀]
    obtain ⟨elems₂, hw₂, hn₂, hg₂⟩ := writeHh_spec he₁ fun hh => { hh with hhPrev := some p }
    have hptr₂ := ptr_of_get hg₂
    have hsame₂ := same_of_get hg₂ Elem.unbucketed he₁ rfl
    have hpq : p ≠ q₀ := Ne.symm hne
    refine ⟨elems₂, by rw [linkFront, hw₁]; exact hw₂, hn₂.trans hn₁,
      fun ps => (hsame₁ ps).trans (hsame₂ ps), ?_, fun q hq => ?_, ?_, ?_, fun q hq hq' => ?_⟩
    · rw [hptr₂, if_neg hpq, hptr₁, if_pos rfl]
    · rw [hptr₂]
      split_ifs with hq'
      · rw [hq', ptr_eq he₀]
      · rw [hptr₁, if_neg hq]
    · rw [hptr₂, if_neg hpq, hptr₁, if_pos rfl]
    · rintro q ⟨⟩
      rw [hptr₂, if_pos rfl]
    · rw [hptr₂, if_neg fun hc => hq' (by rw [hc]), hptr₁, if_neg hq]

end

/-! ## Chains -/

/-- The hash value of the element at `p`. -/
def hashvAt (elems : Heap (Elem α)) (p : Nat) : UInt32 :=
  ((elems.get p).map (·.hh.hashv)).getD 0

/-- The bucket of the element at `p`, of `n`. -/
def bktAt (elems : Heap (Elem α)) (n : UInt32) (p : Nat) : Nat := hashToBkt (hashvAt elems p) n

theorem hashToBkt_lt {hashv n : UInt32} (hn : 0 < n.toNat) : hashToBkt hashv n < n.toNat := by
  have hle : (hashv &&& (n - 1)).toNat ≤ (n - 1).toNat := by
    rw [UInt32.toNat_and]
    exact Nat.and_le_right
  have hsub : (n - 1).toNat = n.toNat - 1 :=
    UInt32.toNat_sub_of_le n 1 (UInt32.le_iff_toNat_le.2 hn)
  unfold hashToBkt
  omega

/-- The buckets are those of the elements `ps`: the chain of each bucket is linked both ways and
counted, and every element is in the chain that its hash value says. -/
structure Chains (elems : Heap (Elem α)) (buckets : List Bucket) (n : UInt32) (ps : List Nat)
    (chains : Nat → List Nat) : Prop where
  linked : ∀ i b, buckets[i]? = some b →
    Linked (ptr (·.hhNext) elems) (ptr (·.hhPrev) elems) none b.hhHead (chains i)
  count : ∀ i b, buckets[i]? = some b → b.count = UInt32.ofNat (chains i).length
  spread : Spread (bktAt elems n) ps chains

section
variable {elems elems' : Heap (Elem α)} {buckets : List Bucket} {n : UInt32} {ps : List Nat}
  {chains : Nat → List Nat} {p : Nat}

theorem Same.bktAt (h : Same (·.hh.hashv) ps elems elems') (n : UInt32) (hp : p ∈ ps) :
    bktAt elems' n p = bktAt elems n p := by
  rw [UtHash.bktAt, UtHash.bktAt, hashvAt, hashvAt, h p hp]

/-- The links of the buckets and the hash values are all that the chains depend on. -/
theorem Chains.same (h : Chains elems buckets n ps chains)
    (hs : Same (fun e => (e.hh.hashv, e.hh.hhNext, e.hh.hhPrev)) ps elems elems') :
    Chains elems' buckets n ps chains := by
  refine ⟨fun i b hb => ?_, h.count, ?_⟩
  · refine (h.linked i b hb).congr (fun q hq => ?_) fun q hq => ?_
    · exact Same.ptr (hs.comp fun v => v.2.1) (h.spread.mem_iff.1 hq).1
    · exact Same.ptr (hs.comp fun v => v.2.2) (h.spread.mem_iff.1 hq).1
  · exact h.spread.congr fun q hq => Same.bktAt (hs.comp fun v => v.1) n hq

/-- New buckets. -/
theorem Chains.empty (elems : Heap (Elem α)) (k : Nat) (n : UInt32) :
    Chains elems (List.replicate k {}) n [] fun _ => [] := by
  have hb : ∀ {i : Nat} {b : Bucket}, (List.replicate k ({} : Bucket))[i]? = some b → b = {} := by
    intro i b hb
    exact List.eq_of_mem_replicate (List.mem_of_getElem? hb)
  refine ⟨fun i b h => ?_, fun i b h => ?_, Spread.nil⟩
  · rw [hb h]
    rfl
  · rw [hb h]
    rfl

/-- **One more handle**, in front of the chain of its bucket. -/
theorem Chains.push {b : Bucket} (h : Chains elems buckets n ps chains)
    (hget : ∀ q ∈ ps, elems.get q ≠ none) (hp : elems.get p ≠ none) (hnew : p ∉ ps)
    (hb : buckets[bktAt elems n p]? = some b) :
    ∃ elems', linkFront elems b.hhHead p = .ok elems' ∧ LinkedFront elems b.hhHead p elems' ∧
      ∀ expandMult, Chains elems'
        (buckets.set (bktAt elems n p) ⟨some p, b.count + 1, expandMult⟩) n (ps ++ [p])
        (Function.update chains (bktAt elems n p) (p :: chains (bktAt elems n p))) := by
  set i := bktAt elems n p with hi
  have hchain := h.linked i b hb
  have hmem : ∀ {j q}, q ∈ chains j → q ∈ ps ∧ bktAt elems n q = j := h.spread.mem_iff.1
  have hhead : ∀ {q}, b.hhHead = some q → q ∈ chains i := by
    intro q hq
    rw [hchain.head_eq] at hq
    exact List.mem_of_head? hq
  have hne : ∀ {j q}, q ∈ chains j → q ≠ p := by
    rintro j q hq rfl
    exact hnew (hmem hq).1
  obtain ⟨elems', hl, hf⟩ := linkFront_spec b.hhHead hp
    fun q hq => ⟨hget q (hmem (hhead hq)).1, hne (hhead hq)⟩
  have hbkt : ∀ q, bktAt elems' n q = bktAt elems n q := fun q =>
    Same.bktAt ((hf.same [q]).comp fun e => e.hh.hashv) n List.mem_cons_self
  have hlt : i < buckets.length := (List.getElem?_eq_some_iff.1 hb).1
  refine ⟨elems', hl, hf, fun expandMult => ⟨fun j b' hb' => ?_, fun j b' hb' => ?_, ?_⟩⟩
  · rw [List.getElem?_set] at hb'
    split_ifs at hb' with hj
    · -- the bucket itself
      cases hb'
      subst hj
      rw [Function.update_self]
      exact hchain.push hf.hhNext hf.hhPrev hf.hhPrev_head (fun q hq => hf.hhNext_ne q (hne hq))
        fun q hq hq' => hf.hhPrev_ne q (hne hq) hq'
    · -- any other bucket has none of the two handles
      rw [Function.update_of_ne (Ne.symm hj)]
      refine (h.linked j b' hb').congr (fun q hq => hf.hhNext_ne q (hne hq)) fun q hq => ?_
      refine hf.hhPrev_ne q (hne hq) fun hq' => hj ?_
      rw [← (hmem (hhead hq')).2, (hmem hq).2]
  · rw [List.getElem?_set] at hb'
    split_ifs at hb' with hj
    · cases hb'
      subst hj
      rw [Function.update_self, List.length_cons, UInt32.ofNat_add, h.count i b hb]
      rfl
    · rw [Function.update_of_ne (Ne.symm hj)]
      exact h.count j b' hb'
  · exact (h.spread.push p).congr fun q _ => hbkt q

end

/-! ## Doubling the buckets -/

section
variable {elems₀ elems : Heap (Elem α)} {numBuckets ideal : UInt32} {done rest : List Nat} {p : Nat}
  {s : Expansion α}

/-- Between two rounds of the loops of `HASH_EXPAND_BUCKETS` on the memory `elems₀`: the handles
`done` are in their new buckets, and those of `rest` lead on as they did. -/
structure Moving (elems₀ : Heap (Elem α)) (n : UInt32) (done rest : List Nat) (s : Expansion α) :
    Prop where
  next : s.elems.next = elems₀.next
  same : ∀ ps, Same Elem.unbucketed ps elems₀ s.elems
  length : s.buckets.length = n.toNat
  chains : ∃ chains, Chains s.elems s.buckets n done chains
  rest : ∀ q ∈ rest, ptr (·.hhNext) s.elems q = ptr (·.hhNext) elems₀ q

/-- One round. -/
theorem moveHh_spec (ideal : UInt32) (h : Moving elems₀ (numBuckets * 2) done (p :: rest) s)
    (hn : 0 < (numBuckets * 2).toNat) (hget : ∀ q ∈ done ++ p :: rest, elems₀.get q ≠ none)
    (hnd : (done ++ p :: rest).Nodup) :
    ∃ s', moveHh numBuckets ideal s p = .ok (s', ptr (·.hhNext) elems₀ p) ∧
      Moving elems₀ (numBuckets * 2) (done ++ [p]) rest s' := by
  obtain ⟨chains, hch⟩ := h.chains
  have hstay : ∀ q ∈ done ++ p :: rest, s.elems.get q ≠ none := fun q hq =>
    (h.same _).get_ne_none hq (hget q hq)
  have hp : p ∈ done ++ p :: rest := by simp
  obtain ⟨hnew, hp_rest⟩ : p ∉ done ∧ p ∉ rest := by
    rw [List.nodup_append] at hnd
    obtain ⟨-, hcons, hdisj⟩ := hnd
    exact ⟨fun hd => hdisj p hd p List.mem_cons_self rfl, (List.nodup_cons.1 hcons).1⟩
  obtain ⟨e, he⟩ := Option.ne_none_iff_exists'.1 (hstay p hp)
  have hbkt : hashToBkt e.hh.hashv (numBuckets * 2) = bktAt s.elems (numBuckets * 2) p := by
    rw [bktAt, hashvAt, he]
    rfl
  have hlt : bktAt s.elems (numBuckets * 2) p < s.buckets.length := by
    rw [h.length]
    exact hashToBkt_lt hn
  obtain ⟨b, hb⟩ : ∃ b, s.buckets[bktAt s.elems (numBuckets * 2) p]? = some b :=
    ⟨_, List.getElem?_eq_getElem hlt⟩
  obtain ⟨elems', hl, hf, hch'⟩ := hch.push
    (fun q hq => hstay q (List.mem_append_left _ hq)) (hstay p hp) hnew hb
  have hmove : ∃ s', moveHh numBuckets ideal s p = .ok (s', e.hh.hhNext) ∧ s'.elems = elems' ∧
      ∃ m, s'.buckets = s.buckets.set (bktAt s.elems (numBuckets * 2) p)
        ⟨some p, b.count + 1, m⟩ := by
    simp only [moveHh, he, hbkt, hb, hl, Option.orError_some, Except.ok_bind]
    exact ⟨_, rfl, rfl, _, rfl⟩
  obtain ⟨s', hs', rfl, m, hbs⟩ := hmove
  rw [← ptr_eq he (·.hhNext), h.rest p List.mem_cons_self] at hs'
  refine ⟨s', hs', hf.next.trans h.next, fun ps => (h.same ps).trans (hf.same ps), ?_,
    ⟨_, hbs ▸ hch' m⟩, fun q hq => ?_⟩
  · rw [hbs, List.length_set, h.length]
  · rw [hf.hhNext_ne q (ne_of_mem_of_not_mem hq hp_rest)]
    exact h.rest q (List.mem_cons_of_mem p hq)

/-- The inner loop, over the chain of a bucket. -/
theorem walk_moveHh (ideal : UInt32) {chain : List Nat} {hhHead before : Option Nat} {fuel : Nat}
    (h : Moving elems₀ (numBuckets * 2) done (chain ++ rest) s)
    (hn : 0 < (numBuckets * 2).toNat)
    (hget : ∀ q ∈ done ++ (chain ++ rest), elems₀.get q ≠ none)
    (hnd : (done ++ (chain ++ rest)).Nodup)
    (hlink : Linked (ptr (·.hhNext) elems₀) (ptr (·.hhPrev) elems₀) before hhHead chain)
    (hfuel : chain.length ≤ fuel) :
    ∃ s', walk .unfinished (moveHh numBuckets ideal) fuel hhHead s = .ok s' ∧
      Moving elems₀ (numBuckets * 2) (done ++ chain) rest s' := by
  rw [hlink.head_eq]
  have hrule := walk_chain Stop.unfinished (moveHh numBuckets ideal)
    (fun moved left (s : Expansion α) => moved ++ left = chain ∧
      Moving elems₀ (numBuckets * 2) (done ++ moved) (left ++ rest) s)
    (fun moved p left s hI => ?_) hfuel ⟨List.nil_append chain, by simpa using h⟩
  · obtain ⟨s', hs', -, hmov⟩ := hrule
    exact ⟨s', hs', by simpa using hmov⟩
  · obtain ⟨hchain, hmov⟩ := hI
    have hall : done ++ (chain ++ rest) = done ++ moved ++ p :: (left ++ rest) := by
      rw [← hchain]
      simp
    obtain ⟨s', hs', hmov'⟩ := moveHh_spec ideal hmov hn (hall ▸ hget) (hall ▸ hnd)
    rw [← hchain] at hlink
    rw [hlink.next_eq] at hs'
    refine ⟨s', hs', by simpa using hchain, by simpa using hmov'⟩

/-- The outer loop, over the buckets `is` that are left. -/
theorem foldlM_moveBkt (ideal : UInt32) {tbl : Table} {ps : List Nat} {chains : Nat → List Nat}
    (hn : 0 < (tbl.numBuckets * 2).toNat) (hlen : ps.length ≤ elems₀.next)
    (hch : Chains elems₀ tbl.buckets tbl.numBuckets ps chains) :
    ∀ (is : List Nat) (done : List Nat) (s : Expansion α), (∀ i ∈ is, i < tbl.buckets.length) →
      (∀ q ∈ done ++ is.flatMap chains, elems₀.get q ≠ none) →
      (done ++ is.flatMap chains).Nodup →
      Moving elems₀ (tbl.numBuckets * 2) done (is.flatMap chains) s →
      ∃ s', is.foldlM (moveBkt tbl ideal) s = .ok s' ∧
        Moving elems₀ (tbl.numBuckets * 2) (done ++ is.flatMap chains) [] s'
  | [], done, s, _, _, _, h => ⟨s, rfl, by simpa using h⟩
  | i :: is, done, s, hi, hget, hnd, h => by
    rw [List.flatMap_cons] at hget hnd h
    have hb := List.getElem?_eq_getElem (hi i List.mem_cons_self)
    have hfuel : (chains i).length ≤ s.elems.next := by
      rw [h.next]
      exact (hch.spread.length_le i).trans hlen
    obtain ⟨s₁, hs₁, h₁⟩ :=
      walk_moveHh ideal h hn hget hnd (hch.linked i _ hb) hfuel
    obtain ⟨s₂, hs₂, h₂⟩ := foldlM_moveBkt ideal hn hlen hch is (done ++ chains i) s₁
      (fun j hj => hi j (List.mem_cons_of_mem i hj)) (by simpa using hget) (by simpa using hnd) h₁
    refine ⟨s₂, ?_, by simpa using h₂⟩
    rw [List.foldlM_cons, moveBkt, hb, Option.orError_some, Except.ok_bind, hs₁, Except.ok_bind]
    exact hs₂

end

/-- The buckets of a table with the elements `ps`. There are `2 ^ log2_num_buckets` of them. -/
structure Bucketed (elems : Heap (Elem α)) (tbl : Table) (ps : List Nat) (chains : Nat → List Nat) :
    Prop where
  power : tbl.numBuckets.toNat = 2 ^ tbl.log2NumBuckets.toNat
  log2 : tbl.log2NumBuckets.toNat ≤ 31
  length : tbl.buckets.length = tbl.numBuckets.toNat
  items : tbl.numItems = UInt32.ofNat ps.length
  chains : Chains elems tbl.buckets tbl.numBuckets ps chains

section
variable {elems elems' : Heap (Elem α)} {tbl : Table} {ps : List Nat} {chains : Nat → List Nat}
  {p : Nat}

theorem Bucketed.pos (h : Bucketed elems tbl ps chains) : 0 < tbl.numBuckets.toNat := by
  rw [h.power]
  exact Nat.two_pow_pos _

theorem Bucketed.same (h : Bucketed elems tbl ps chains)
    (hs : Same (fun e => (e.hh.hashv, e.hh.hhNext, e.hh.hhPrev)) ps elems elems') :
    Bucketed elems' tbl ps chains :=
  { h with chains := h.chains.same hs }

/-- The bucket of an element. -/
theorem Bucketed.bkt (h : Bucketed elems tbl ps chains) (p : Nat) :
    ∃ b, tbl.buckets[bktAt elems tbl.numBuckets p]? = some b := by
  have hlt : bktAt elems tbl.numBuckets p < tbl.buckets.length := by
    rw [h.length]
    exact hashToBkt_lt h.pos
  exact ⟨_, List.getElem?_eq_getElem hlt⟩

/-- The memory after changes to the links of buckets, and the table that they belong to. -/
structure Rebucketed (elems : Heap (Elem α)) (tbl : Table) (ps : List Nat)
    (r : Heap (Elem α) × Table) : Prop where
  next : r.1.next = elems.next
  same : ∀ qs, Same Elem.unbucketed qs elems r.1
  tail : r.2.tail = tbl.tail
  bucketed : ∃ chains, Bucketed r.1 r.2 ps chains

section
variable {mallocs : Nat → Bool} (hm : ∀ n, mallocs n = true → n < 2 ^ 36)
include hm

theorem uthashMalloc_spec (size : Nat) :
    Except.EndsOr (OutOfMemory mallocs) (fun _ => size < 2 ^ 36) (uthashMalloc mallocs size) := by
  unfold uthashMalloc
  split_ifs with h
  · exact .inr ⟨(), rfl, hm size h⟩
  · exact .inl ⟨_, rfl, Bool.eq_false_iff.2 h⟩

/-- **`HASH_EXPAND_BUCKETS`**: every element finds its place in the new buckets. There are never
`2 ^ 32` buckets, which `num_buckets` could not count: `malloc` has no 64 GiB for them. -/
theorem expandBuckets_spec (h : Bucketed elems tbl ps chains)
    (hget : ∀ q ∈ ps, elems.get q ≠ none) (hnd : ps.Nodup) (hlen : ps.length ≤ elems.next) :
    Except.EndsOr (OutOfMemory mallocs) (Rebucketed elems tbl ps)
      (expandBuckets mallocs elems tbl) := by
  refine (uthashMalloc_spec hm _).bind fun _ hsize => ?_
  have hlog : tbl.log2NumBuckets.toNat < 31 := by
    rw [h.power, sizeofBucket] at hsize
    exact (Nat.pow_lt_pow_iff_right (a := 2) (by decide)).1 (by omega)
  have hdouble : (tbl.numBuckets * 2).toNat = 2 * tbl.numBuckets.toNat := by
    have hlt := Nat.pow_lt_pow_right (a := 2) (by decide) hlog
    rw [← h.power] at hlt
    rw [UInt32.toNat_mul, Nat.mod_eq_of_lt]
    · exact Nat.mul_comm _ _
    · change _ * 2 < _
      omega
  have hpos : 0 < (tbl.numBuckets * 2).toNat := by
    have := h.pos
    omega
  -- all handles, in the order in which the loops come to them
  have hperm := h.chains.spread.flatMap_perm (n := tbl.numBuckets.toNat)
    fun p _ => hashToBkt_lt h.pos
  obtain ⟨s, hs, hmov⟩ := foldlM_moveBkt tbl.idealChainLength hpos hlen h.chains
    (List.range tbl.numBuckets.toNat) []
    { elems, buckets := List.replicate (2 * tbl.numBuckets.toNat) {} }
    (fun i hi => by rw [h.length]; exact List.mem_range.1 hi)
    (fun q hq => hget q (hperm.mem_iff.1 hq)) (hperm.nodup_iff.2 hnd)
    ⟨rfl, fun _ => Same.refl _ _ _, by rw [List.length_replicate, hdouble],
      ⟨_, Chains.empty elems _ _⟩, fun _ _ => rfl⟩
  rw [List.nil_append] at hmov
  obtain ⟨chains', hch⟩ := hmov.chains
  have hlog' : (tbl.log2NumBuckets + 1).toNat = tbl.log2NumBuckets.toNat + 1 := by
    rw [UInt32.toNat_add, Nat.mod_eq_of_lt]
    · rfl
    · change _ + 1 < _
      omega
  refine .inr ⟨(s.elems, tbl.expanded s), ?_, hmov.next, hmov.same, rfl, chains', ?_, ?_,
    hmov.length, h.items, hch.linked, hch.count, hch.spread.perm hperm⟩
  · rw [hs]
    rfl
  · change (tbl.numBuckets * 2).toNat = 2 ^ (tbl.log2NumBuckets + 1).toNat
    rw [hdouble, hlog', h.power, Nat.pow_succ, Nat.mul_comm]
  · change (tbl.log2NumBuckets + 1).toNat ≤ 31
    omega

/-- **`HASH_ADD_TO_TABLE`** of a handle that is in no bucket yet. -/
theorem addToTable_spec (h : Bucketed elems tbl ps chains)
    (hget : ∀ q ∈ ps ++ [p], elems.get q ≠ none) (hnd : (ps ++ [p]).Nodup)
    (hlen : (ps ++ [p]).length ≤ elems.next) :
    Except.EndsOr (OutOfMemory mallocs) (Rebucketed elems tbl (ps ++ [p]))
      (addToTable mallocs elems tbl (hashvAt elems p) p) := by
  have hp : p ∈ ps ++ [p] := by simp
  have hnew : p ∉ ps := by
    rw [List.nodup_append] at hnd
    exact fun hm => hnd.2.2 p hm p (List.mem_singleton_self p) rfl
  obtain ⟨b, hb⟩ := h.bkt p
  obtain ⟨elems', hl, hf, hch⟩ := h.chains.push
    (fun q hq => hget q (List.mem_append_left _ hq)) (hget p hp) hnew hb
  have hbk : Bucketed elems' { tbl with
      numItems := tbl.numItems + 1
      buckets := tbl.buckets.set (bktAt elems tbl.numBuckets p)
        ⟨some p, b.count + 1, b.expandMult⟩ } (ps ++ [p])
      (Function.update chains (bktAt elems tbl.numBuckets p)
        (p :: chains (bktAt elems tbl.numBuckets p))) := by
    refine ⟨h.power, h.log2, ?_, ?_, hch b.expandMult⟩
    · rw [List.length_set, h.length]
    · rw [List.length_append, List.length_singleton, UInt32.ofNat_add, ← h.items]
      rfl
  have hstay : ∀ q ∈ ps ++ [p], elems'.get q ≠ none := fun q hq =>
    (hf.same _).get_ne_none hq (hget q hq)
  have hbkt : hashToBkt (hashvAt elems p) tbl.numBuckets = bktAt elems tbl.numBuckets p := rfl
  unfold addToTable addToBkt
  simp only [hbkt, hb, hl, Option.orError_some, Except.ok_bind]
  split_ifs with hfull
  · -- the bucket is full
    refine (expandBuckets_spec hm hbk hstay hnd (hf.next ▸ hlen)).mono fun r hr => ?_
    exact ⟨hr.next.trans hf.next, fun qs => (hf.same qs).trans (hr.same qs), hr.tail, hr.bucketed⟩
  · exact .inr ⟨_, rfl, hf.next, hf.same, rfl, _, hbk⟩

end

end

end UtHash
