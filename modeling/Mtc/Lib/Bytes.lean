import Mathlib.Algebra.Group.Int.Defs
import Mathlib.Algebra.Group.Nat.Defs
import Mathlib.Data.List.Basic
import Mathlib.Data.List.TakeWhile

/-!
# Byte strings

`Bytes` models C++'s `std::string` and raw buffers. `ofAscii` writes the program's literals.
`cstr` reads a C string, `writeAt` is `memcpy` into a buffer, and `le32` is a 32-bit word in memory
on a little-endian host; each read or write that would leave the buffer is `none`.
-/

/-- A sequence of bytes. -/
abbrev Bytes := List UInt8

namespace Bytes

/-- The bytes of an ASCII literal. -/
def ofAscii (s : String) : Bytes := s.toList.map fun c => c.toNat.toUInt8

/-- `n` bytes of value `0`. -/
def zeros (n : Nat) : Bytes := List.replicate n 0

@[simp] theorem length_zeros (n : Nat) : (zeros n).length = n := List.length_replicate

/-! ## C strings -/

/-- The C string that starts at the first byte. -/
def cstr (bs : Bytes) : Option Bytes :=
  if 0 ∈ bs then some (bs.takeWhile (· ≠ 0)) else none

theorem cstr_append {s : Bytes} (hs : 0 ∉ s) (bs : Bytes) : cstr (s ++ 0 :: bs) = some s := by
  have hw : (s ++ 0 :: bs).takeWhile (· ≠ 0) = s := by
    rw [List.takeWhile_append_of_pos]
    · simp
    · intro b hb
      simpa using fun h : b = 0 => hs (h ▸ hb)
  rw [cstr, if_pos (by simp), hw]

theorem not_mem_of_cstr {bs s : Bytes} (h : cstr bs = some s) : 0 ∉ s := by
  unfold cstr at h
  split_ifs at h
  cases h
  intro hm
  simpa using List.mem_takeWhile_imp hm

/-! ## Writing -/

/-- `buf` with `bs` copied to `off`. -/
def writeAt (buf : Bytes) (off : Nat) (bs : Bytes) : Option Bytes :=
  if off + bs.length ≤ buf.length then
    some (buf.take off ++ bs ++ buf.drop (off + bs.length))
  else none

theorem length_writeAt {buf bs buf' : Bytes} {off : Nat} (h : writeAt buf off bs = some buf') :
    buf'.length = buf.length := by
  unfold writeAt at h
  split_ifs at h
  cases h
  simp only [List.length_append, List.length_take, List.length_drop]
  omega

theorem exists_writeAt {buf bs : Bytes} {off : Nat} (h : off + bs.length ≤ buf.length) :
    ∃ buf', writeAt buf off bs = some buf' := by
  rw [writeAt, if_pos h]
  exact ⟨_, rfl⟩

theorem writeAt_middle {a x bs c : Bytes} (h : x.length = bs.length) :
    writeAt (a ++ x ++ c) a.length bs = some (a ++ bs ++ c) := by
  have hle : a.length + bs.length ≤ (a ++ x ++ c).length := by
    simp only [List.length_append]
    omega
  rw [writeAt, if_pos hle, List.append_assoc a x c, List.take_left, ← h, ← List.drop_drop,
    List.drop_left, List.drop_left]

theorem writeAt_end {a x bs : Bytes} (h : x.length = bs.length) :
    writeAt (a ++ x) a.length bs = some (a ++ bs) := by
  have := writeAt_middle (a := a) (c := []) h
  simpa only [List.append_nil] using this

theorem getElem?_writeAt {buf bs buf' : Bytes} {off : Nat} (h : writeAt buf off bs = some buf')
    (j : Nat) :
    buf'[j]? = if off ≤ j ∧ j < off + bs.length then bs[j - off]? else buf[j]? := by
  unfold writeAt at h
  split_ifs at h with hle
  cases h
  rw [List.append_assoc, List.getElem?_append, List.getElem?_append, List.length_take,
    Nat.min_eq_left (by omega), List.getElem?_take, List.getElem?_drop]
  split_ifs with h1 h2 h3 h4 <;> first | rfl | omega | skip
  congr 1
  omega

/-- The bytes `bs` stand at `off`. -/
def HasAt (buf : Bytes) (off : Nat) (bs : Bytes) : Prop := ∀ j < bs.length, buf[off + j]? = bs[j]?

section
variable {buf buf' bs : Bytes} {off : Nat}

theorem hasAt_writeAt (h : writeAt buf off bs = some buf') : HasAt buf' off bs := by
  intro j hj
  rw [getElem?_writeAt h, if_pos (by omega), Nat.add_sub_cancel_left]

theorem HasAt.writeAt_disjoint (h : writeAt buf off bs = some buf') {o : Nat} {b : Bytes}
    (hb : HasAt buf o b) (hd : o + b.length ≤ off ∨ off + bs.length ≤ o) : HasAt buf' o b := by
  intro j hj
  rw [getElem?_writeAt h, if_neg (by omega)]
  exact hb j hj

theorem HasAt.take_drop (h : HasAt buf off bs) : (buf.drop off).take bs.length = bs := by
  refine List.ext_getElem? fun j => ?_
  rw [List.getElem?_take, List.getElem?_drop]
  split_ifs with hj
  · exact h j hj
  · rw [List.getElem?_eq_none (by omega)]

end

/-! ## Words -/

/-- A 32-bit word, lowest byte first. -/
def le32 (x : UInt32) : Bytes :=
  [UInt8.ofNat x.toNat, UInt8.ofNat (x.toNat / 2 ^ 8), UInt8.ofNat (x.toNat / 2 ^ 16),
    UInt8.ofNat (x.toNat / 2 ^ 24)]

/-- The word that starts at the first byte. -/
def getLe32 : Bytes → Option UInt32
  | a :: b :: c :: d :: _ => some
    (UInt32.ofNat (a.toNat + b.toNat * 2 ^ 8 + c.toNat * 2 ^ 16 + d.toNat * 2 ^ 24))
  | _ => none

@[simp] theorem length_le32 (x : UInt32) : (le32 x).length = 4 := rfl

theorem getLe32_le32 (x : UInt32) (bs : Bytes) : getLe32 (le32 x ++ bs) = some x := by
  have hx := x.toNat_lt
  simp only [le32, getLe32, List.cons_append, List.nil_append, UInt8.toNat_ofNat', Option.some_inj]
  rw [← UInt32.toNat_inj, UInt32.toNat_ofNat']
  omega

/-- A word takes four bytes. -/
theorem getLe32_eq_none_iff {bs : Bytes} : getLe32 bs = none ↔ bs.length < 4 := by
  rcases bs with _ | ⟨a, _ | ⟨b, _ | ⟨c, _ | ⟨d, bs⟩⟩⟩⟩ <;> simp [getLe32]

theorem le32_append_inj {x y : UInt32} {a b : Bytes} (h : le32 x ++ a = le32 y ++ b) :
    x = y ∧ a = b := by
  have hx : some x = some y := by rw [← getLe32_le32 x a, h, getLe32_le32]
  cases hx
  exact ⟨rfl, List.append_cancel_left h⟩

/-- Four bytes are a word. -/
theorem exists_le32 (bs : Bytes) (h : 4 ≤ bs.length) : ∃ x r, bs = le32 x ++ r := by
  obtain ⟨a, b, c, d, r, rfl⟩ : ∃ a b c d r, bs = a :: b :: c :: d :: r := by
    match bs, h with
    | a :: b :: c :: d :: r, _ => exact ⟨a, b, c, d, r, rfl⟩
  have ha := a.toNat_lt
  have hb := b.toNat_lt
  have hc := c.toNat_lt
  have hd := d.toNat_lt
  refine ⟨UInt32.ofNat (a.toNat + b.toNat * 2 ^ 8 + c.toNat * 2 ^ 16 + d.toNat * 2 ^ 24), r, ?_⟩
  simp only [le32, UInt32.toNat_ofNat', List.cons_append, List.nil_append, List.cons.injEq,
    and_true, ← UInt8.toNat_inj, UInt8.toNat_ofNat']
  omega

/-- A 64-bit word, lowest byte first. -/
def le64 (x : UInt64) : Bytes :=
  [UInt8.ofNat x.toNat, UInt8.ofNat (x.toNat / 2 ^ 8), UInt8.ofNat (x.toNat / 2 ^ 16),
    UInt8.ofNat (x.toNat / 2 ^ 24), UInt8.ofNat (x.toNat / 2 ^ 32), UInt8.ofNat (x.toNat / 2 ^ 40),
    UInt8.ofNat (x.toNat / 2 ^ 48), UInt8.ofNat (x.toNat / 2 ^ 56)]

@[simp] theorem length_le64 (x : UInt64) : (le64 x).length = 8 := rfl

/-- Words one after the other. -/
def words (ws : List UInt32) : Bytes := ws.flatMap le32

@[simp] theorem length_words (ws : List UInt32) : (words ws).length = 4 * ws.length := by
  simp [words, List.length_flatMap, Nat.mul_comm]

theorem words_split {ws : List UInt32} {i : Nat} {x : UInt32} (h : ws[i]? = some x) :
    words ws = words (ws.take i) ++ le32 x ++ words (ws.drop (i + 1)) := by
  obtain ⟨hi, hx⟩ := List.getElem?_eq_some_iff.1 h
  have hs : ws = ws.take i ++ x :: ws.drop (i + 1) := by
    rw [← hx, ← List.drop_eq_getElem_cons hi, List.take_append_drop]
  conv => lhs; rw [hs]
  simp [words]

theorem getLe32_words {ws : List UInt32} {i : Nat} {x : UInt32} (h : ws[i]? = some x) (bs : Bytes) :
    getLe32 ((words ws ++ bs).drop (4 * i)) = some x := by
  obtain ⟨hi, -⟩ := List.getElem?_eq_some_iff.1 h
  have hl : (words (ws.take i)).length = 4 * i := by
    rw [length_words, List.length_take, Nat.min_eq_left (by omega)]
  rw [words_split h, List.append_assoc, List.append_assoc, ← hl, List.drop_left, getLe32_le32]

theorem writeAt_words {ws : List UInt32} {i : Nat} (h : i < ws.length) (x : UInt32) (bs : Bytes) :
    writeAt (words ws ++ bs) (4 * i) (le32 x) = some (words (ws.set i x) ++ bs) := by
  have hl : (words (ws.take i)).length = 4 * i := by
    rw [length_words, List.length_take, Nat.min_eq_left (by omega)]
  have hs : words (ws.set i x) = words (ws.take i) ++ le32 x ++ words (ws.drop (i + 1)) := by
    rw [words_split (i := i) (x := x) (by simp [h]), List.take_set_of_le (Nat.le_refl i),
      List.drop_set_of_lt (Nat.lt_succ_self i)]
  rw [words_split (List.getElem?_eq_getElem h), hs, ← hl, List.append_assoc _ _ bs,
    writeAt_middle (by rw [length_le32, length_le32])]
  simp

end Bytes
