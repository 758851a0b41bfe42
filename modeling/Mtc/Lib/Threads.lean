import Mathlib.Algebra.BigOperators.Group.Finset.Piecewise
import Mathlib.Algebra.Order.BigOperators.Group.Finset
import Mathlib.Data.Fintype.BigOperators

/-!
# Counting threads by where they are

A program of many threads keeps a program counter per thread. `census w pc` adds up a weight of
the program counters; when one thread moves, only its own share changes (`census_split`).
-/

namespace Threads

variable {ι π : Type*} [Fintype ι]

/-- The sum of the weights of the threads' program counters. -/
def census (w : π → ℕ) (pc : ι → π) : ℕ := ∑ t, w (pc t)

/-- The share of one thread and that of all the others, before and after it moves. -/
theorem census_split [DecidableEq ι] (w : π → ℕ) (pc : ι → π) (t : ι) :
    ∃ n, census w pc = n + w (pc t) ∧ ∀ p, census w (Function.update pc t p) = n + w p := by
  refine ⟨∑ x ∈ Finset.univ \ {t}, w (pc x), ?_, fun p => ?_⟩
  · rw [Nat.add_comm]
    exact Finset.sum_eq_add_sum_sdiff_singleton_of_mem (Finset.mem_univ t) _
  · have hw : (fun x => w (Function.update pc t p x)) =
        Function.update (fun x => w (pc x)) t (w p) := by
      funext x
      by_cases hx : x = t
      · subst hx
        simp
      · simp [hx]
    unfold census
    rw [hw, Finset.sum_update_of_mem (Finset.mem_univ t), Nat.add_comm]

/-- Two threads are both counted. -/
theorem add_le_census [DecidableEq ι] (w : π → ℕ) (pc : ι → π) {t u : ι} (h : t ≠ u) :
    w (pc t) + w (pc u) ≤ census w pc := by
  rw [← Finset.sum_pair (f := fun t => w (pc t)) h]
  exact Finset.sum_le_sum_of_subset (Finset.subset_univ _)

/-- A thread that moves to a smaller weight lowers the sum. -/
theorem census_lt {w : π → ℕ} {pc pc' : ι → π} {t : ι} (ht : w (pc' t) < w (pc t))
    (hne : ∀ u, u ≠ t → pc' u = pc u) : census w pc' < census w pc := by
  refine Finset.sum_lt_sum (fun u _ => ?_) ⟨t, Finset.mem_univ t, ht⟩
  by_cases hu : u = t
  · rw [hu]
    exact ht.le
  · rw [hne u hu]

theorem census_eq_zero {w : π → ℕ} {pc : ι → π} (h : ∀ t, w (pc t) = 0) : census w pc = 0 :=
  Finset.sum_eq_zero fun t _ => h t

end Threads
