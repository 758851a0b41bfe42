import Mathlib.Data.List.Nodup

/-!
# Removing an element of a list

A list without an element (`filter (· ≠ x)`), and how it compares with the list itself and with the
list without what stands at a position (`eraseIdx`).
-/

namespace List

variable {α : Type*} [DecidableEq α] {l : List α} {x y : α}

theorem mem_filter_ne : y ∈ l.filter (· ≠ x) ↔ y ∈ l ∧ y ≠ x := by
  simp

theorem filter_ne_eq_self : l.filter (· ≠ x) = l ↔ x ∉ l := by
  rw [filter_eq_self]
  constructor
  · intro h hx
    simpa using h x hx
  · intro h y hy
    simpa using ne_of_mem_of_not_mem hy h

/-- Erasing at a position erases the element meant if that is the one there. -/
theorem Nodup.eraseIdx_eq_filter_iff (hl : l.Nodup) {k : Nat} (hk : k < l.length) :
    l.eraseIdx k = l.filter (· ≠ x) ↔ l[k]? = some x := by
  have herase : l.eraseIdx k = l.filter (· ≠ l[k]) := by
    rw [← hl.erase_getElem k hk, hl.erase_eq_filter]
    refine filter_congr fun y _ => ?_
    rw [Bool.eq_iff_iff]
    simp
  rw [getElem?_eq_getElem hk, Option.some_inj, herase]
  constructor
  · intro h
    by_contra hne
    have hmem : l[k] ∈ l.filter (· ≠ x) := mem_filter_ne.2 ⟨getElem_mem hk, hne⟩
    rw [← h] at hmem
    exact (mem_filter_ne.1 hmem).2 rfl
  · rintro rfl
    rfl

end List
