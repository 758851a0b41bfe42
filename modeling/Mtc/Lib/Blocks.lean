import Mathlib.Data.List.Basic

/-!
# Blocks of one size

A sequence that is kept in blocks of `B` elements. `flat` is the sequence; a part of it is read and
written block by block with `Block.read` and `Block.write`, which are `none` where they would leave
the block.
-/

/-- A block of `B` elements. -/
structure Block (α : Type*) (B : Nat) where
  elems : List α
  length_elems : elems.length = B
  deriving DecidableEq, Repr

namespace Block

variable {α : Type*} {B : Nat}

/-- The block whose elements are all `x`. -/
def fill (x : α) : Block α B := ⟨List.replicate B x, List.length_replicate⟩

/-- The `k` elements from `o` on. -/
def read (b : Block α B) (o k : Nat) : Option (List α) :=
  if o + k ≤ B then some ((b.elems.drop o).take k) else none

/-- The block with `l` in the places from `o` on. -/
def write (b : Block α B) (o : Nat) (l : List α) : Option (Block α B) :=
  if h : o + l.length ≤ B then
    some ⟨b.elems.take o ++ l ++ b.elems.drop (o + l.length), by
      simp only [List.length_append, List.length_take, List.length_drop, b.length_elems]
      omega⟩
  else none

theorem exists_write (b : Block α B) {o : Nat} {l : List α} (h : o + l.length ≤ B) :
    ∃ b', b.write o l = some b' := by
  rw [write, dif_pos h]
  exact ⟨_, rfl⟩

theorem getElem?_write {b b' : Block α B} {o : Nat} {l : List α} (h : b.write o l = some b')
    (i : Nat) :
    b'.elems[i]? = if o ≤ i ∧ i < o + l.length then l[i - o]? else b.elems[i]? := by
  unfold write at h
  split_ifs at h with hle
  cases h
  have hb := b.length_elems
  dsimp only
  rw [List.append_assoc, List.getElem?_append, List.getElem?_append, List.length_take,
    Nat.min_eq_left (by omega), List.getElem?_take, List.getElem?_drop]
  split_ifs with h1 h2 h3 h4 <;> first | rfl | omega | skip
  congr 1
  omega

/-! ## The sequence -/

/-- The elements of all blocks. -/
def flat (bs : List (Block α B)) : List α := bs.flatMap elems

@[simp] theorem flat_nil : flat ([] : List (Block α B)) = [] := rfl

@[simp] theorem flat_cons (b : Block α B) (bs : List (Block α B)) :
    flat (b :: bs) = b.elems ++ flat bs := List.flatMap_cons

theorem flat_append (bs bs' : List (Block α B)) : flat (bs ++ bs') = flat bs ++ flat bs' :=
  List.flatMap_append

@[simp] theorem length_flat (bs : List (Block α B)) : (flat bs).length = B * bs.length := by
  induction bs with
  | nil => rfl
  | cons b bs ih =>
    rw [flat_cons, List.length_append, b.length_elems, ih, List.length_cons, Nat.mul_succ,
      Nat.add_comm]

theorem flat_drop (bs : List (Block α B)) (i : Nat) :
    flat (bs.drop i) = (flat bs).drop (B * i) := by
  induction i generalizing bs with
  | zero => rfl
  | succ i ih =>
    cases bs with
    | nil => simp
    | cons b bs =>
      have hlen : B * (i + 1) = b.elems.length + B * i := by
        rw [b.length_elems, Nat.mul_succ, Nat.add_comm]
      rw [List.drop_succ_cons, ih, flat_cons, hlen, List.drop_length_add_append]

theorem flat_take (bs : List (Block α B)) (i : Nat) :
    flat (bs.take i) = (flat bs).take (B * i) := by
  induction i generalizing bs with
  | zero => simp
  | succ i ih =>
    cases bs with
    | nil => simp
    | cons b bs =>
      have hlen : B * (i + 1) = b.elems.length + B * i := by
        rw [b.length_elems, Nat.mul_succ, Nat.add_comm]
      rw [List.take_succ_cons, flat_cons, ih, flat_cons, hlen, List.take_length_add_append]

theorem flat_replicate_fill (n : Nat) (x : α) :
    flat (List.replicate n (fill x : Block α B)) = List.replicate (B * n) x := by
  induction n with
  | zero => rfl
  | succ n ih =>
    rw [List.replicate_succ, flat_cons, ih, Nat.mul_succ, Nat.add_comm,
      ← List.replicate_append_replicate]
    rfl

/-- A place of the sequence is a place in one of the blocks. -/
theorem getElem?_flat {bs : List (Block α B)} {i j : Nat} (hi : i < bs.length) (hj : j < B) :
    (flat bs)[B * i + j]? = bs[i].elems[j]? := by
  rw [← List.getElem?_drop, ← flat_drop, List.drop_eq_getElem_cons hi, flat_cons,
    List.getElem?_append_left (by rwa [bs[i].length_elems])]

end Block
