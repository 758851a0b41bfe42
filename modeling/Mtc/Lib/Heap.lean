import Mtc.Lib.AssocMap

/-!
# Objects made with `new`

A `Heap` holds the objects that exist. Addresses are given out in order and never again, so that an
address stands for one object for ever: `get` is `none` once it has been deleted, and a second
`delete` fails.
-/

/-- The objects that exist, and the next address. -/
structure Heap (α : Type*) where
  cells : AssocMap Nat α := ∅
  next : Nat := 0

namespace Heap

variable {α : Type*}

/-- The object at an address. -/
def get (h : Heap α) (p : Nat) : Option α := h.cells.findKey p

/-- The heap with a new object; its address is `next`. -/
def alloc (h : Heap α) (a : α) : Heap α where
  cells := h.cells.assign h.next a
  next := h.next + 1

/-- The object at an address replaced. -/
def set (h : Heap α) (p : Nat) (a : α) : Heap α := { h with cells := h.cells.put p a }

/-- The object at an address changed by `f`; it fails for an object that does not exist. -/
def modify (h : Heap α) (p : Nat) (f : α → α) : Option (Heap α) :=
  (h.get p).map fun a => h.set p (f a)

/-- `delete`; it fails for an object that does not exist, and for one whose destructor does not
return. -/
def delete (returns : Nat → α → Bool) (h : Heap α) (p : Nat) : Option (Heap α) :=
  ((h.get p).filter (returns p)).map fun _ => { h with cells := h.cells.erase p }

/-- `delete` of one object after the other. -/
def deleteAll (returns : Nat → α → Bool) : List Nat → Heap α → Option (Heap α)
  | [], h => some h
  | p :: ps, h => (h.delete returns p).bind (deleteAll returns ps)

variable {h h' : Heap α} {returns : Nat → α → Bool}

theorem get_alloc (h : Heap α) (a : α) (p : Nat) :
    (h.alloc a).get p = if p = h.next then some a else h.get p :=
  AssocMap.findKey_assign h.cells h.next p a

theorem get_set {p : Nat} {a : α} (ha : h.get p = some a) (b : α) (q : Nat) :
    (h.set p b).get q = if q = p then some b else h.get q := by
  have hput := AssocMap.findKey_put h.cells p q b
  rw [get, set, hput]
  split_ifs with hq
  · change (h.get p).map _ = _
    rw [ha]
    rfl
  · rfl

theorem get_modify {p : Nat} {f : α → α} (hm : h.modify p f = some h') (q : Nat) :
    h'.get q = if q = p then (h.get q).map f else h.get q := by
  obtain ⟨a, ha, rfl⟩ := Option.map_eq_some_iff.1 hm
  rw [get_set ha]
  split_ifs with hq
  · rw [hq, ha]
    rfl
  · rfl

theorem next_modify {p : Nat} {f : α → α} (hm : h.modify p f = some h') : h'.next = h.next := by
  obtain ⟨-, -, rfl⟩ := Option.map_eq_some_iff.1 hm
  rfl

theorem exists_modify {p : Nat} {a : α} (ha : h.get p = some a) (f : α → α) :
    ∃ h', h.modify p f = some h' :=
  ⟨_, Option.map_eq_some_iff.2 ⟨a, ha, rfl⟩⟩

theorem get_delete {p : Nat} (hd : h.delete returns p = some h') (q : Nat) :
    h'.get q = if q = p then none else h.get q := by
  obtain ⟨-, -, rfl⟩ := Option.map_eq_some_iff.1 hd
  exact AssocMap.findKey_erase h.cells p q

theorem next_delete {p : Nat} (hd : h.delete returns p = some h') : h'.next = h.next := by
  obtain ⟨-, -, rfl⟩ := Option.map_eq_some_iff.1 hd
  rfl

theorem exists_delete_iff {p : Nat} :
    (∃ h', h.delete returns p = some h') ↔ ∃ a, h.get p = some a ∧ returns p a = true := by
  simp only [delete, Option.map_eq_some_iff, Option.filter_eq_some_iff]
  constructor
  · rintro ⟨h', a, ha, -⟩
    exact ⟨a, ha⟩
  · rintro ⟨a, ha⟩
    exact ⟨_, a, ha, rfl⟩

/-- What is left has not been deleted. -/
theorem get_deleteAll {ps : List Nat} (hd : deleteAll returns ps h = some h') {q : Nat} {a : α}
    (ha : h'.get q = some a) : h.get q = some a := by
  induction ps generalizing h with
  | nil =>
    cases hd
    exact ha
  | cons p ps ih =>
    obtain ⟨h₁, h₁d, hd⟩ := Option.bind_eq_some_iff.1 hd
    have hget := get_delete h₁d q
    rw [ih hd] at hget
    split_ifs at hget
    exact hget.symm

/-- Deleting changes no address that is given out later. -/
theorem next_deleteAll {ps : List Nat} (hd : deleteAll returns ps h = some h') :
    h'.next = h.next := by
  induction ps generalizing h with
  | nil =>
    cases hd
    rfl
  | cons p ps ih =>
    obtain ⟨h₁, h₁d, hd⟩ := Option.bind_eq_some_iff.1 hd
    rw [ih hd, next_delete h₁d]

/-- Different objects can all be deleted exactly if they exist and their destructors return. -/
theorem exists_deleteAll_iff {ps : List Nat} (hn : ps.Nodup) :
    (∃ h', deleteAll returns ps h = some h') ↔
      ∀ p ∈ ps, ∃ a, h.get p = some a ∧ returns p a = true := by
  induction ps generalizing h with
  | nil => exact iff_of_true ⟨h, rfl⟩ fun p hp => by cases hp
  | cons p ps ih =>
    obtain ⟨hp, hn⟩ := List.nodup_cons.1 hn
    -- deleting one object leaves the others as they are
    have hrest : ∀ {h₁}, h.delete returns p = some h₁ → ∀ q ∈ ps, h₁.get q = h.get q := by
      intro h₁ hd q hq
      rw [get_delete hd, if_neg (ne_of_mem_of_not_mem hq hp)]
    rw [List.forall_mem_cons, ← exists_delete_iff]
    constructor
    · rintro ⟨h', hd⟩
      obtain ⟨h₁, h₁d, hd⟩ := Option.bind_eq_some_iff.1 hd
      refine ⟨⟨h₁, h₁d⟩, fun q hq => ?_⟩
      rw [← hrest h₁d q hq]
      exact (ih hn).1 ⟨h', hd⟩ q hq
    · rintro ⟨⟨h₁, h₁d⟩, hall⟩
      rw [deleteAll, h₁d, Option.bind_some, ih hn]
      intro q hq
      rw [hrest h₁d q hq]
      exact hall q hq

end Heap
