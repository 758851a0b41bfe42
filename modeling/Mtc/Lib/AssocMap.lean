import Mathlib.Data.List.Nodup
import Mathlib.Data.List.TakeWhile
import Mathlib.Logic.Function.Basic

/-!
# Association lists as maps

`std::map` with the operations the program uses: `find`, assignment through `operator[]`, assignment
through a reference to an entry, and `erase`. No two entries have one key, and a new entry goes
before the first one of a larger key, so that the list is in the order iteration visits it.
-/

/-- A map as the list of its entries. -/
structure AssocMap (κ ν : Type*) where
  entries : List (κ × ν)
  nodup : (entries.map Prod.fst).Nodup

namespace AssocMap

variable {κ ν : Type*}

instance : EmptyCollection (AssocMap κ ν) := ⟨⟨[], List.nodup_nil⟩⟩

instance : Inhabited (AssocMap κ ν) := ⟨∅⟩

instance [Repr κ] [Repr ν] : Repr (AssocMap κ ν) := ⟨fun m n => reprPrec m.entries n⟩

variable [DecidableEq κ]

/-- The value under a key (`find`). -/
def findKey (m : AssocMap κ ν) (k : κ) : Option ν :=
  (m.entries.find? fun e => e.1 = k).map Prod.snd

/-- The entry of `k` set to `v` through a reference; nothing where there is no entry. -/
def put (m : AssocMap κ ν) (k : κ) (v : ν) : AssocMap κ ν where
  entries := m.entries.map fun e => if e.1 = k then (k, v) else e
  nodup := by
    rw [List.map_map]
    convert m.nodup using 2
    funext e
    by_cases h : e.1 = k <;> simp [h]

section
variable [LT κ] [DecidableLT κ]

/-- A new entry, before the first one of a larger key. -/
def insertEntry (l : List (κ × ν)) (k : κ) (v : ν) : List (κ × ν) :=
  l.takeWhile (fun e => e.1 < k) ++ (k, v) :: l.dropWhile (fun e => e.1 < k)

omit [DecidableEq κ] in
theorem insertEntry_perm (l : List (κ × ν)) (k : κ) (v : ν) :
    (insertEntry l k v).Perm ((k, v) :: l) := by
  refine List.perm_middle.trans ?_
  rw [List.takeWhile_append_dropWhile]

/-- `m[k] = v`. -/
def assign (m : AssocMap κ ν) (k : κ) (v : ν) : AssocMap κ ν :=
  if h : k ∈ m.entries.map Prod.fst then m.put k v
  else {
    entries := insertEntry m.entries k v
    nodup := by
      rw [((insertEntry_perm m.entries k v).map Prod.fst).nodup_iff, List.map_cons,
        List.nodup_cons]
      exact ⟨h, m.nodup⟩ }

end

/-! ## Looking up -/

theorem findKey_eq_some_iff {m : AssocMap κ ν} {k : κ} {v : ν} :
    m.findKey k = some v ↔ (k, v) ∈ m.entries := by
  unfold findKey
  rw [Option.map_eq_some_iff]
  constructor
  · intro h
    obtain ⟨e, he, rfl⟩ := h
    have hk := List.find?_some he
    obtain rfl : e.1 = k := by simpa using hk
    exact List.mem_of_find?_eq_some he
  · intro h
    have hs : (m.entries.find? fun e => e.1 = k).isSome := by
      rw [List.find?_isSome]
      exact ⟨_, h, by simp⟩
    obtain ⟨e, he⟩ := Option.isSome_iff_exists.1 hs
    have hk : e.1 = k := by simpa using List.find?_some he
    have hm := List.mem_of_find?_eq_some he
    exact ⟨e, he, congrArg Prod.snd (List.inj_on_of_nodup_map m.nodup hm h hk)⟩

theorem findKey_eq_none_iff {m : AssocMap κ ν} {k : κ} :
    m.findKey k = none ↔ k ∉ m.entries.map Prod.fst := by
  rw [Option.eq_none_iff_forall_ne_some]
  simp only [ne_eq, findKey_eq_some_iff, List.mem_map, Prod.exists, exists_and_right,
    exists_eq_right, not_exists]

@[simp] theorem findKey_empty (k : κ) : (∅ : AssocMap κ ν).findKey k = none := rfl

/-! ## Writing through a reference -/

theorem findKey_put (m : AssocMap κ ν) (k k' : κ) (v : ν) :
    (m.put k v).findKey k' = if k' = k then (m.findKey k).map fun _ => v else m.findKey k' := by
  ext w
  simp only [findKey_eq_some_iff, put, List.mem_map]
  split_ifs with h
  · subst h
    simp only [Option.map_eq_some_iff, findKey_eq_some_iff]
    constructor
    · intro hw
      obtain ⟨e, he, heq⟩ := hw
      by_cases hk : e.1 = k'
      · rw [if_pos hk] at heq
        exact ⟨e.2, by rwa [← hk], (Prod.mk.inj heq).2⟩
      · rw [if_neg hk] at heq
        exact absurd (congrArg Prod.fst heq) hk
    · intro hw
      obtain ⟨x, hx, rfl⟩ := hw
      exact ⟨_, hx, if_pos rfl⟩
  · rw [findKey_eq_some_iff]
    constructor
    · intro hw
      obtain ⟨e, he, heq⟩ := hw
      by_cases hk : e.1 = k
      · rw [if_pos hk] at heq
        exact absurd (congrArg Prod.fst heq).symm h
      · rw [if_neg hk] at heq
        rwa [← heq]
    · intro hw
      exact ⟨_, hw, if_neg h⟩

theorem findKey_put_self {m : AssocMap κ ν} {k : κ} {w : ν} (h : m.findKey k = some w) (v : ν) :
    (m.put k v).findKey k = some v := by
  rw [findKey_put, if_pos rfl, h, Option.map_some]

theorem findKey_put_ne {k k' : κ} (h : k' ≠ k) (m : AssocMap κ ν) (v : ν) :
    (m.put k v).findKey k' = m.findKey k' := by
  rw [findKey_put, if_neg h]

theorem findKey_put_ne_none {m : AssocMap κ ν} {k' : κ} (h : m.findKey k' ≠ none) (k : κ) (v : ν) :
    (m.put k v).findKey k' ≠ none := by
  rw [findKey_put]
  split_ifs with hk
  · rw [← hk]
    simpa using h
  · exact h

/-- What holds of every entry still does when it holds of the value written. -/
theorem forall_findKey_put {m : AssocMap κ ν} {k : κ} {v : ν} {P : κ → ν → Prop} (hk : P k v)
    (hne : ∀ k' w, k' ≠ k → m.findKey k' = some w → P k' w) (k' : κ) (w : ν)
    (h : (m.put k v).findKey k' = some w) : P k' w := by
  rw [findKey_put] at h
  split_ifs at h with he
  · obtain ⟨-, -, rfl⟩ := Option.map_eq_some_iff.1 h
    rwa [he]
  · exact hne k' w he h

/-- Writing back what an entry holds changes nothing. -/
theorem put_eq_self {m : AssocMap κ ν} {k : κ} {v : ν} (h : m.findKey k = some v) :
    m.put k v = m := by
  rw [findKey_eq_some_iff] at h
  have he : (m.put k v).entries = m.entries := by
    unfold put
    conv => rhs; rw [← List.map_id m.entries]
    refine List.map_congr_left fun e he => ?_
    by_cases hk : e.1 = k
    · rw [if_pos hk]
      exact (List.inj_on_of_nodup_map m.nodup he h hk).symm
    · rw [if_neg hk, id]
  cases m
  unfold put at he ⊢
  simpa using he

/-- The entry that a search finds is still the one it finds when its value is replaced by one the
search accepts. -/
theorem find?_put {m : AssocMap κ ν} {q : κ × ν → Bool} {k : κ} {v v' : ν}
    (h : m.entries.find? q = some (k, v)) (hq : q (k, v') = true) :
    (m.put k v').entries.find? q = some (k, v') := by
  obtain ⟨-, as, bs, hm, has⟩ := List.find?_eq_some_iff_append.1 h
  refine List.find?_eq_some_iff_append.2
    ⟨hq, as, bs.map fun e => if e.1 = k then (k, v') else e, ?_, has⟩
  have hn := m.nodup
  rw [hm, List.map_append, List.map_cons, List.nodup_append] at hn
  have has' : as.map (fun e => if e.1 = k then (k, v') else e) = as := by
    conv => rhs; rw [← List.map_id as]
    refine List.map_congr_left fun e he => if_neg fun hk => ?_
    exact hn.2.2 _ (List.mem_map_of_mem he) k (List.mem_cons_self ..) hk
  show m.entries.map _ = _
  rw [hm, List.map_append, List.map_cons, has', if_pos rfl]

/-- Writing to an entry that is there updates the lookup. -/
theorem findKey_put_eq_update {m : AssocMap κ ν} {k : κ} {w : ν} (h : m.findKey k = some w)
    (v : ν) : (m.put k v).findKey = Function.update m.findKey k (some v) := by
  funext k'
  rw [findKey_put, Function.update_apply, h]
  rfl

/-! ## Values -/

omit [DecidableEq κ] in
theorem nodup_mapVal {ω : Type*} (m : AssocMap κ ν) (f : ν → ω) :
    ((m.entries.map fun e => (e.1, f e.2)).map Prod.fst).Nodup := by
  rw [List.map_map]
  exact m.nodup

/-- The map with a function applied to every value. -/
def mapVal {ω : Type*} (m : AssocMap κ ν) (f : ν → ω) : AssocMap κ ω where
  entries := m.entries.map fun e => (e.1, f e.2)
  nodup := m.nodup_mapVal f

theorem findKey_mapVal {ω : Type*} (m : AssocMap κ ν) (f : ν → ω) (k : κ) :
    (m.mapVal f).findKey k = (m.findKey k).map f := by
  simp only [findKey, mapVal, List.find?_map, Option.map_map]
  rfl

/-! ## Erasing -/

/-- `m.erase(k)`. -/
def erase (m : AssocMap κ ν) (k : κ) : AssocMap κ ν where
  entries := m.entries.filter fun e => e.1 ≠ k
  nodup := m.nodup.sublist (List.filter_sublist.map Prod.fst)

theorem findKey_erase (m : AssocMap κ ν) (k k' : κ) :
    (m.erase k).findKey k' = if k' = k then none else m.findKey k' := by
  ext v
  split_ifs with h
  · simp [findKey_eq_some_iff, erase, h]
  · simp [findKey_eq_some_iff, erase, h]

theorem erase_of_none {m : AssocMap κ ν} {k : κ} (h : m.findKey k = none) : m.erase k = m := by
  have hentries : m.entries.filter (fun e => e.1 ≠ k) = m.entries := by
    rw [List.filter_eq_self]
    intro e he
    have hne : e.1 ≠ k := fun hk =>
      findKey_eq_none_iff.1 h (hk ▸ List.mem_map_of_mem he)
    simpa using hne
  cases m
  simp only [erase, hentries]

/-! ## Assignment -/

/-- Whatever is built up entry by entry, with an invariant: the last entry for a key counts. -/
theorem foldl_last {σ β : Type*} {f : σ → β → σ} {get : σ → κ → Option ν}
    {key : β → κ} {val : β → ν} {I : σ → Prop} (hI : ∀ s x, I s → I (f s x))
    (hget : ∀ s x k, I s → get (f s x) k = if k = key x then some (val x) else get s k)
    (l : List β) {s : σ} (hs : I s) (k : κ) :
    get (l.foldl f s) k = ((l.reverse.find? fun x => key x = k).map val).or (get s k) := by
  induction l generalizing s with
  | nil => simp
  | cons x l ih =>
    rw [List.foldl_cons, ih (hI s x hs), hget s x k hs, List.reverse_cons, List.find?_append]
    cases l.reverse.find? fun x => key x = k with
    | some y => simp
    | none =>
      by_cases hx : key x = k
      · simp [hx]
      · simp [hx, Ne.symm hx]

section
variable [LT κ] [DecidableLT κ]

theorem findKey_assign (m : AssocMap κ ν) (k k' : κ) (v : ν) :
    (m.assign k v).findKey k' = if k' = k then some v else m.findKey k' := by
  unfold assign
  split_ifs with h hk hk
  · rw [findKey_put, if_pos hk]
    obtain ⟨w, hw⟩ := Option.ne_none_iff_exists'.1 fun hn => findKey_eq_none_iff.1 hn h
    rw [hw, Option.map_some]
  · exact findKey_put_ne hk m v
  · subst hk
    rw [findKey_eq_some_iff]
    exact (insertEntry_perm m.entries k' v).mem_iff.2 (List.mem_cons_self ..)
  · ext w
    rw [findKey_eq_some_iff, findKey_eq_some_iff,
      (insertEntry_perm m.entries k v).mem_iff, List.mem_cons]
    exact ⟨fun hw => hw.resolve_left fun he => hk (congrArg Prod.fst he), Or.inr⟩

theorem findKey_assign_eq_update (m : AssocMap κ ν) (k : κ) (v : ν) :
    (m.assign k v).findKey = Function.update m.findKey k (some v) := by
  funext k'
  rw [findKey_assign, Function.update_apply]

/-- One assignment after the other: the last one for a key counts. -/
theorem findKey_foldl_assign {β : Type*} (key : β → κ) (val : β → ν) (l : List β)
    (m : AssocMap κ ν) (k : κ) :
    (l.foldl (fun m x => m.assign (key x) (val x)) m).findKey k =
      ((l.reverse.find? fun x => key x = k).map val).or (m.findKey k) :=
  foldl_last (I := fun _ => True) (fun _ _ _ => trivial)
    (fun m x k _ => findKey_assign m (key x) k (val x)) l trivial k

/-- The map after `m[k]` has been read: a missing key is entered with `d`. -/
def access (m : AssocMap κ ν) (k : κ) (d : ν) : AssocMap κ ν :=
  match m.findKey k with
  | some _ => m
  | none => m.assign k d

theorem findKey_access (m : AssocMap κ ν) (k k' : κ) (d : ν) :
    (m.access k d).findKey k' =
      if k' = k then some ((m.findKey k).getD d) else m.findKey k' := by
  unfold access
  cases h : m.findKey k with
  | some v =>
    dsimp only
    split_ifs with hk
    · rw [hk, h, Option.getD_some]
    · rfl
  | none => rw [findKey_assign, Option.getD_none]

/-- Reading changes no value, if a missing key has the default. -/
theorem findKey_access_getD (m : AssocMap κ ν) (k k' : κ) (d : ν) :
    ((m.access k d).findKey k').getD d = (m.findKey k').getD d := by
  rw [findKey_access]
  split_ifs with hk
  · rw [hk, Option.getD_some]
  · rfl

/-- Reading a key that is there changes nothing. -/
theorem access_of_some {m : AssocMap κ ν} {k : κ} {v : ν} (h : m.findKey k = some v) (d : ν) :
    m.access k d = m := by
  rw [access, h]

/-- A search that accepts no other entry finds the one assigned. -/
theorem find?_assign {m : AssocMap κ ν} {q : κ × ν → Bool} {k : κ} {v : ν}
    (h : m.entries.find? q = none) (hq : q (k, v) = true) :
    (m.assign k v).entries.find? q = some (k, v) := by
  have hs : ((m.assign k v).entries.find? q).isSome := by
    rw [List.find?_isSome]
    exact ⟨(k, v), findKey_eq_some_iff.1 (by rw [findKey_assign, if_pos rfl]), hq⟩
  obtain ⟨⟨k', v'⟩, he⟩ := Option.isSome_iff_exists.1 hs
  have hm := findKey_eq_some_iff.2 (List.mem_of_find?_eq_some he)
  rw [findKey_assign] at hm
  split_ifs at hm with hk
  · cases hm
    rw [he, hk]
  · have := List.find?_eq_none.1 h _ (findKey_eq_some_iff.1 hm)
    exact absurd (List.find?_some he) this

end

end AssocMap
