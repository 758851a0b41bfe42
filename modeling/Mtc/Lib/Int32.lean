import Mathlib.Algebra.Group.Int.Defs
import Mathlib.Algebra.Group.Nat.Defs
import Mathlib.Order.Defs.LinearOrder

/-!
# Arithmetic of `int`

`Int32` as C++ uses `int`: what one step up or down does to the value, and the conversions to and
from `size_t`, with the wraps written out.
-/

namespace Int32

theorem toInt_succ (x : Int32) :
    (x + 1).toInt = if x.toInt = 2 ^ 31 - 1 then -2 ^ 31 else x.toInt + 1 := by
  have hlo := x.le_toInt
  have hhi := x.toInt_lt
  rw [toInt_add, toInt_one, Int.bmod_def]
  split <;> omega

theorem toInt_pred (x : Int32) :
    (x - 1).toInt = if x.toInt = -2 ^ 31 then 2 ^ 31 - 1 else x.toInt - 1 := by
  have hlo := x.le_toInt
  have hhi := x.toInt_lt
  rw [toInt_sub, toInt_one, Int.bmod_def]
  split <;> omega

theorem toInt_add_of_range {x y : Int32} (hlo : -2 ^ 31 ≤ x.toInt + y.toInt)
    (hhi : x.toInt + y.toInt < 2 ^ 31) : (x + y).toInt = x.toInt + y.toInt := by
  rw [toInt_add, Int.bmod_def]
  split <;> omega

/-- A sum above the range of `int`. -/
theorem toInt_add_of_ge {x y : Int32} (h : 2 ^ 31 ≤ x.toInt + y.toInt) :
    (x + y).toInt = x.toInt + y.toInt - 2 ^ 32 := by
  have hx := x.toInt_lt
  have hy := y.toInt_lt
  rw [toInt_add, Int.bmod_def]
  split <;> omega

theorem nonneg_iff {x : Int32} : 0 ≤ x ↔ 0 ≤ x.toInt := by
  rw [le_iff_toInt_le, toInt_zero]

/-- The value as a `size_t`. -/
def sizeT (x : Int32) : Nat := (x.toInt % 2 ^ 64).toNat

/-- A `size_t` stored in an `int`. -/
def ofSizeT (n : Nat) : Int32 := Int32.ofInt n

theorem toInt_ofSizeT (n : Nat) : (ofSizeT n).toInt = (n : Int).bmod (2 ^ 32) :=
  toInt_ofInt

theorem toInt_ofSizeT_of_lt {n : Nat} (h : n < 2 ^ 31) : (ofSizeT n).toInt = n := by
  rw [toInt_ofSizeT, Int.bmod_def]
  split <;> omega

/-- A length outside the range of `int` that is stored as `k` or more. -/
theorem le_of_le_toInt_ofSizeT {n k : Nat} (hn : 2 ^ 31 ≤ n) (h : (k : Int) ≤ (ofSizeT n).toInt) :
    2 ^ 32 + k ≤ n := by
  rw [toInt_ofSizeT, Int.bmod_def] at h
  split at h <;> omega

theorem sizeT_of_nonneg {x : Int32} (h : 0 ≤ x.toInt) : x.sizeT = x.toInt.toNat := by
  have hhi := x.toInt_lt
  unfold sizeT
  omega

theorem sizeT_of_neg {x : Int32} (h : x.toInt < 0) : x.sizeT = (x.toInt + 2 ^ 64).toNat := by
  have hlo := x.le_toInt
  unfold sizeT
  omega

theorem sizeT_ofSizeT_of_lt {n : Nat} (h : n < 2 ^ 31) : (ofSizeT n).sizeT = n := by
  have hn := toInt_ofSizeT_of_lt h
  rw [sizeT_of_nonneg (by omega), hn, Int.toNat_natCast]

/-- A length stored in an `int` and compared with a small one as a `size_t`. -/
theorem sizeT_ofSizeT_le_iff {n k : Nat} (hk : k < 2 ^ 31) :
    (ofSizeT n).sizeT ≤ k ↔ n % 2 ^ 32 ≤ k := by
  unfold sizeT
  rw [toInt_ofSizeT, Int.bmod_def]
  split <;> omega

/-- A length stored in an `int` is negative, or not larger than it was. -/
theorem sizeT_ofSizeT_cases (n : Nat) :
    2 ^ 63 ≤ (ofSizeT n).sizeT ∨ (ofSizeT n).sizeT ≤ n := by
  unfold sizeT
  rw [toInt_ofSizeT, Int.bmod_def]
  split <;> omega

/-- A length stored in an `int` is at least a small one. -/
theorem not_ofSizeT_lt_iff {n k : Nat} (hk : k < 2 ^ 31) :
    ¬ ofSizeT n < ofSizeT k ↔ n % 2 ^ 32 < 2 ^ 31 ∧ k ≤ n % 2 ^ 32 := by
  rw [lt_iff_toInt_lt, toInt_ofSizeT_of_lt hk, toInt_ofSizeT, Int.bmod_def]
  split <;> omega

theorem ofSizeT_pos_iff {n : Nat} (h : n < 2 ^ 31) : ofSizeT n > 0 ↔ 0 < n := by
  rw [gt_iff_lt, lt_iff_toInt_lt, toInt_ofSizeT_of_lt h, toInt_zero]
  omega

theorem ofSizeT_lt_iff {n m : Nat} (hn : n < 2 ^ 31) (hm : m < 2 ^ 31) :
    ofSizeT n < ofSizeT m ↔ n < m := by
  rw [lt_iff_toInt_lt, toInt_ofSizeT_of_lt hn, toInt_ofSizeT_of_lt hm]
  omega

/-- A length that is not negative as an `int` is no shorter than that. -/
theorem toInt_ofSizeT_le {n : Nat} (h : 0 ≤ (ofSizeT n).toInt) : (ofSizeT n).toInt ≤ n := by
  rw [toInt_ofSizeT, Int.bmod_def] at h ⊢
  split at h <;> split <;> omega

theorem toInt_ofSizeT_of_nonneg {n : Nat} (h : 0 ≤ (ofSizeT n).toInt) :
    (ofSizeT n).toInt = (n % 2 ^ 32 : Nat) := by
  rw [toInt_ofSizeT, Int.bmod_def] at h ⊢
  split at h <;> split <;> omega

theorem toUInt32_ofSizeT (n : Nat) : (ofSizeT n).toUInt32 = UInt32.ofNat n := by
  show UInt32.ofBitVec (BitVec.ofInt 32 n) = UInt32.ofBitVec (BitVec.ofNat 32 n)
  rw [BitVec.ofInt_natCast]

theorem toInt32_ofNat (n : Nat) : (UInt32.ofNat n).toInt32 = ofSizeT n := by
  rw [← toUInt32_ofSizeT]
  rfl

theorem ofSizeT_add (n m : Nat) : ofSizeT n + ofSizeT m = ofSizeT (n + m) := by
  rw [ofSizeT, ofSizeT, ofSizeT, Int.natCast_add, ofInt_add]

theorem ofSizeT_add_one (n : Nat) : ofSizeT n + 1 = ofSizeT (n + 1) := ofSizeT_add n 1

theorem ofSizeT_sub {n m : Nat} (h : m ≤ n) : ofSizeT n - ofSizeT m = ofSizeT (n - m) := by
  rw [ofSizeT, ofSizeT, ofSizeT, Int.ofNat_sub h, ofInt_sub]

theorem ofSizeT_mul (n m : Nat) : ofSizeT n * ofSizeT m = ofSizeT (n * m) := by
  rw [ofSizeT, ofSizeT, ofSizeT, Int.natCast_mul, ofInt_mul]

theorem ofSizeT_div {n m : Nat} (hn : n < 2 ^ 31) (hm : m < 2 ^ 31) :
    ofSizeT n / ofSizeT m = ofSizeT (n / m) := by
  have hle := Nat.div_le_self n m
  rw [← toInt_inj, toInt_div, toInt_ofSizeT_of_lt hn, toInt_ofSizeT_of_lt hm,
    toInt_ofSizeT, Int.natCast_tdiv_eq_ediv, Int.natCast_ediv]

theorem ofSizeT_mod {n m : Nat} (hn : n < 2 ^ 31) (hm : m < 2 ^ 31) :
    ofSizeT n % ofSizeT m = ofSizeT (n % m) := by
  have hle := Nat.mod_le n m
  rw [← toInt_inj, toInt_mod, toInt_ofSizeT_of_lt hn, toInt_ofSizeT_of_lt hm,
    toInt_ofSizeT_of_lt (by omega), Int.ofNat_tmod]

/-- An `int` that is not negative is a length. -/
theorem exists_eq_ofSizeT {x : Int32} (h : 0 ≤ x.toInt) :
    ∃ n : Nat, x.toInt = n ∧ x = ofSizeT n := by
  obtain ⟨n, hn⟩ := Int.eq_ofNat_of_zero_le h
  have hlt := x.toInt_lt
  refine ⟨n, hn, ?_⟩
  rw [← toInt_inj, toInt_ofSizeT_of_lt (by omega), hn]

theorem ofSizeT_inj {n m : Nat} (hn : n < 2 ^ 32) (hm : m < 2 ^ 32)
    (h : ofSizeT n = ofSizeT m) : n = m := by
  have h32 := congrArg toUInt32 h
  rw [toUInt32_ofSizeT, toUInt32_ofSizeT] at h32
  have hnat := congrArg UInt32.toNat h32
  rwa [UInt32.toNat_ofNat', UInt32.toNat_ofNat', Nat.mod_eq_of_lt hn, Nat.mod_eq_of_lt hm] at hnat

theorem toInt_toInt32 (x : UInt32) :
    x.toInt32.toInt = if x.toNat < 2 ^ 31 then (x.toNat : Int) else x.toNat - 2 ^ 32 := by
  have hx := x.toNat_lt
  rw [← UInt32.ofNat_toNat (x := x), toInt32_ofNat, toInt_ofSizeT, Int.bmod_def,
    UInt32.ofNat_toNat]
  split <;> split <;> omega

theorem ofSizeT_toUInt32 (x : Int32) : ofSizeT x.toUInt32.toNat = x := by
  rw [← toInt32_ofNat, UInt32.ofNat_toNat]
  rfl

theorem toInt_eq_toNat {x : Int32} (h : x.toUInt32.toNat < 2 ^ 31) :
    x.toInt = x.toUInt32.toNat := by
  rw [← toInt_ofSizeT_of_lt h, ofSizeT_toUInt32]

theorem sizeT_eq_toNat {x : Int32} (h : x.toUInt32.toNat < 2 ^ 31) :
    x.sizeT = x.toUInt32.toNat := by
  rw [← sizeT_ofSizeT_of_lt h, ofSizeT_toUInt32]

end Int32
