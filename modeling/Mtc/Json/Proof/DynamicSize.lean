import Mtc.Json.Proof.DynamicBuffer

/-!
# Sizes and addresses of a `DynamicBuffer`

What a write does to `size`, for the law of the size along any calls, and where `get_address` and
`get` agree.
-/

namespace JsonRpc

namespace DynamicBuffer

/-- The size of `n` blocks of which the last is filled up to `tail`, as an `int`. -/
def intSize (n : Nat) (tail : Int) : Int := ((1024 * (n - 1) : Nat) + tail).bmod (2 ^ 32)

theorem toInt_size (d : DynamicBuffer) (h : d.blocksList.length < 2 ^ 31) :
    d.size.toInt = intSize d.blocksList.length d.tailOffsetInBlock.toInt := by
  have hcount : (if Int32.ofSizeT d.blocksList.length > 0 then Int32.ofSizeT d.blocksList.length - 1
      else Int32.ofSizeT d.blocksList.length) = Int32.ofSizeT (d.blocksList.length - 1) := by
    by_cases h0 : d.blocksList.length = 0
    · rw [h0]
      rfl
    · rw [if_pos ((Int32.ofSizeT_pos_iff h).2 (by omega)),
        show (1 : Int32) = Int32.ofSizeT 1 from rfl, Int32.ofSizeT_sub (by omega)]
  rw [size, hcount, blockSize_eq, Int32.ofSizeT_mul, Int32.toInt_add, Int32.toInt_ofSizeT,
    Nat.mul_comm, Int.bmod_add_bmod]
  rfl

theorem intSize_of_lt {n : Nat} {tail : Int} (h0 : 0 ≤ tail)
    (h : (1024 * (n - 1) : Nat) + tail < 2 ^ 31) :
    intSize n tail = (1024 * (n - 1) : Nat) + tail := by
  rw [intSize, Int.bmod_def]
  split <;> omega

/-- Up to `2 ^ 21 + 1` blocks the size is what it should be, or negative. -/
theorem intSize_cases {n : Nat} {tail : Int} (h0 : 0 ≤ tail) (ht : tail ≤ 1024)
    (hn : n ≤ 2 ^ 21 + 1) :
    (1024 * (n - 1) : Nat) + tail < 2 ^ 31 ∧ intSize n tail = (1024 * (n - 1) : Nat) + tail ∨
      2 ^ 31 ≤ (1024 * (n - 1) : Nat) + tail ∧ intSize n tail < 0 := by
  rw [intSize, Int.bmod_def]
  split <;> omega

/-- What holds of the fields as long as the size is right. -/
structure Filled (d : DynamicBuffer) : Prop where
  blocks : d.blocksList.length ≤ 2 ^ 21
  tail_nonneg : 0 ≤ d.tailOffsetInBlock.toInt
  tail_le : d.tailOffsetInBlock.toInt ≤ 1024
  tail_empty : d.blocksList.length = 0 → d.tailOffsetInBlock.toInt = 0

/-- The fields after a write of `s` bytes that ends at `x`. -/
structure Wrote (d : DynamicBuffer) (s x : Nat) (d' : DynamicBuffer) : Prop where
  blocks : d'.blocksList.length = d.blocksList.length + growth d.blocksList.length x
  tail : d'.tailOffsetInBlock = (d.grown x).tailAfter s x

theorem exists_wrote (d : DynamicBuffer) {data : Bytes} {o s : Nat} (h : o + s < 2 ^ 31)
    (hd : s ≤ data.length) :
    ∃ d', d.put data (Int32.ofSizeT o) (Int32.ofSizeT s) = some (true, d') ∧
      d.Wrote s (o + s) d' := by
  obtain ⟨d', hput, hlen, htail, -⟩ := d.exists_put h hd
  exact ⟨d', hput, hlen.trans (d.length_grown _), htail⟩

section
variable {d d' : DynamicBuffer} {s x : Nat}

/-- The blocks after a write. -/
theorem Wrote.blocks_eq (hw : d.Wrote s x d') (hf : d.Filled) (hx : x < 2 ^ 31) :
    d'.blocksList.length = if d.blocksList.length < 2 ^ 21 then
        max d.blocksList.length ((x + 1023) / 1024)
      else if x ≤ 2 ^ 31 - 1024 then 2 ^ 21 else 2 ^ 21 + 1 := by
  have hn := hf.blocks
  rw [hw.blocks]
  by_cases hlt : d.blocksList.length < 2 ^ 21
  · rw [if_pos hlt, growth_of_lt hlt hx]
    omega
  · obtain heq : d.blocksList.length = 2 ^ 21 := by omega
    rw [if_neg hlt, heq, growth_two_pow hx]
    split <;> omega

theorem Wrote.toInt_tail (hw : d.Wrote s x d') (hlt : d'.blocksList.length < 2 ^ 31)
    (hx : x < 2 ^ 31) :
    d'.tailOffsetInBlock.toInt =
      if s ≠ 0 ∧ intSize d'.blocksList.length d.tailOffsetInBlock.toInt < x then
        (((x - 1) % 1024 + 1 : Nat) : Int)
      else d.tailOffsetInBlock.toInt := by
  have hlen : (d.grown x).blocksList.length = d'.blocksList.length := by
    rw [length_grown, hw.blocks]
  have hsize := (d.grown x).toInt_size (by rwa [hlen])
  have hgt : Int32.ofSizeT x > (d.grown x).size ↔
      intSize d'.blocksList.length d.tailOffsetInBlock.toInt < x := by
    rw [gt_iff_lt, Int32.lt_iff_toInt_lt, hsize, Int32.toInt_ofSizeT_of_lt hx, hlen]
    rfl
  rw [hw.tail, tailAfter]
  simp only [hgt]
  split_ifs with h
  · exact Int32.toInt_ofSizeT_of_lt (by omega)
  · rfl

/-- A write keeps the law exactly if it extends the buffer. -/
theorem Wrote.size_iff (hw : d.Wrote s x d') (hf : d.Filled) (hsize : 0 ≤ d.size.toInt)
    (hs : s ≤ x) (hx : x < 2 ^ 31) :
    d'.size.toInt = (if s = 0 then d.size.toInt else max d.size.toInt x) ↔
      d.Extends (Int32.ofSizeT s) x := by
  have hblocks := hw.blocks_eq hf hx
  have hlt : d'.blocksList.length < 2 ^ 31 := by
    rw [hblocks]
    split_ifs <;> omega
  have htail := hw.toInt_tail hlt hx
  obtain ⟨hn, ht0, ht, hempty⟩ := hf
  rw [d.toInt_size (by omega)] at hsize
  rw [d'.toInt_size hlt, d.toInt_size (by omega), Extends]
  simp only [ofSizeT_eq_zero_iff (show s < 2 ^ 31 by omega)]
  generalize d.blocksList.length = n at *
  generalize d'.blocksList.length = n' at *
  generalize d.tailOffsetInBlock.toInt = t at *
  generalize d'.tailOffsetInBlock.toInt = t' at *
  by_cases hn' : n < 2 ^ 21
  · rw [if_pos hn'] at hblocks
    rw [intSize_of_lt ht0 (by omega)]
    have hcases := intSize_cases (n := n') ht0 ht (by omega)
    by_cases h0 : s = 0
    · rw [if_neg (fun h => h.1 h0)] at htail
      rw [if_pos h0, if_pos h0, htail]
      omega
    · rw [if_neg h0, if_neg h0]
      by_cases hgt : intSize n' t < x
      · -- the tail moves, and is right
        rw [if_pos ⟨h0, hgt⟩] at htail
        rw [intSize_of_lt (by omega) (by omega), htail]
        exact iff_of_true (by omega) (by omega)
      · rw [if_neg (fun h => hgt h.2)] at htail
        rw [htail]
        omega
  · rw [if_neg hn'] at hblocks
    have hcases := intSize_cases (n := n) ht0 ht (by omega)
    by_cases hle : x ≤ 2 ^ 31 - 1024
    · rw [if_pos hle] at hblocks
      obtain rfl : n' = n := by omega
      rw [if_neg (by omega)] at htail
      rw [htail]
      split_ifs <;> omega
    · -- one block too many, and the size is negative
      rw [if_neg hle] at hblocks
      have ht0' : 0 ≤ t' := by split_ifs at htail <;> omega
      have ht' : t' ≤ 1024 := by split_ifs at htail <;> omega
      have hcases' := intSize_cases (n := n') ht0' ht' (by omega)
      split_ifs <;> omega

theorem Wrote.filled (hw : d.Wrote s x d') (hf : d.Filled) (hs : s ≤ x) (hx : x < 2 ^ 31)
    (hsize : 0 ≤ d'.size.toInt) : d'.Filled := by
  have hblocks := hw.blocks_eq hf hx
  have hlt : d'.blocksList.length < 2 ^ 31 := by
    rw [hblocks]
    split_ifs <;> omega
  have htail := hw.toInt_tail hlt hx
  obtain ⟨hn, ht0, ht, hempty⟩ := hf
  rw [d'.toInt_size hlt] at hsize
  have ht0' : 0 ≤ d'.tailOffsetInBlock.toInt := by split_ifs at htail <;> omega
  have ht' : d'.tailOffsetInBlock.toInt ≤ 1024 := by split_ifs at htail <;> omega
  have hcount : d'.blocksList.length ≤ 2 ^ 21 + 1 := by split_ifs at hblocks <;> omega
  have hcases := intSize_cases ht0' ht' hcount
  refine ⟨by omega, ht0', ht', fun h0 => ?_⟩
  -- no block, so nothing was written
  have hx0 : d.blocksList.length = 0 ∧ x = 0 := by split_ifs at hblocks <;> omega
  rw [if_neg (by omega)] at htail
  rw [htail, hempty hx0.1]

end

/-! ## The law of the size -/

theorem size_clear (d : DynamicBuffer) (h : d.blocksList.length < 2 ^ 31) :
    d.clear.size.toInt = intSize d.blocksList.length 0 := by
  rw [toInt_size _ (by rwa [clear, List.length_map]), clear, List.length_map]
  rfl

/-- A call with arguments in range writes, and keeps the law exactly if it extends the buffer. -/
theorem exists_put_size (d : DynamicBuffer) {data : Bytes} {offset size : Int32} (hf : d.Filled)
    (h0 : 0 ≤ d.size.toInt) (ho : 0 ≤ offset.toInt) (hs : 0 ≤ size.toInt)
    (hd : size.toInt ≤ data.length) (hlt : offset.toInt + size.toInt < 2 ^ 31) :
    ∃ d', d.put data offset size = some (true, d') ∧ (0 ≤ d'.size.toInt → d'.Filled) ∧
      (d'.size.toInt = Extended.written d.size.toInt offset size ↔
        d.Extends size (offset.toInt + size.toInt)) := by
  obtain ⟨o, ho', hoff⟩ := Int32.exists_eq_ofSizeT ho
  obtain ⟨s, hs', hsize⟩ := Int32.exists_eq_ofSizeT hs
  obtain ⟨d', hput, hw⟩ := d.exists_wrote (show o + s < 2 ^ 31 by omega)
    (show s ≤ data.length by omega)
  have hiff := hw.size_iff hf h0 (by omega) (by omega)
  refine ⟨d', by rw [hoff, hsize, hput], hw.filled hf (by omega) (by omega), ?_⟩
  rw [Extended.written, ho', hs', hsize, ← Int.natCast_add, ← hiff]
  simp only [ofSizeT_eq_zero_iff (show s < 2 ^ 31 by omega)]

end DynamicBuffer

/-- `append` returns what `size` was. -/
theorem sizeLaw_iff (s : Extended) : SizeLaw s ↔ s.buffer.size.toInt = s.extent := by
  refine ⟨SizeLaw.size, fun h => ⟨h, fun data dataSize offset d' ha => ?_⟩⟩
  rw [DynamicBuffer.append] at ha
  cases hput : s.buffer.put data s.buffer.size dataSize with
  | none =>
    rw [hput] at ha
    cases ha
  | some x =>
    rw [hput] at ha
    cases ha
    exact h

/-- What holds as long as the law does. -/
structure InLaw (s : Extended) : Prop where
  filled : s.buffer.Filled
  extent : 0 ≤ s.extent

theorem inLaw_init : InLaw {} :=
  ⟨⟨Nat.zero_le _, Int.le_refl 0, by decide, fun _ => rfl⟩, Int.le_refl 0⟩

/-- One write in the range: it is carried out, and keeps the law exactly if it extends the
buffer. -/
theorem exists_write_sizeLaw {s : Extended} (hi : InLaw s) (hp : SizeLaw s) {data : Bytes}
    {offset size : Int32} (ho : 0 ≤ offset.toInt) (hs : 0 ≤ size.toInt)
    (hd : size.toInt ≤ data.length) (hlt : offset.toInt + size.toInt < 2 ^ 31) :
    ∃ d', s.buffer.put data offset size = some (true, d') ∧
      (SizeLaw ⟨d', Extended.written s.extent offset size⟩ →
        InLaw ⟨d', Extended.written s.extent offset size⟩) ∧
      (SizeLaw ⟨d', Extended.written s.extent offset size⟩ ↔
        s.buffer.Extends size (offset.toInt + size.toInt)) := by
  obtain ⟨hf, he⟩ := hi
  have hsize := hp.size
  obtain ⟨d', hput, hfill, hiff⟩ :=
    s.buffer.exists_put_size hf (by omega) ho hs hd hlt
  have hwritten : 0 ≤ Extended.written s.extent offset size := by
    unfold Extended.written
    split <;> omega
  refine ⟨d', hput, fun h => ?_, ?_⟩
  · have hsize' := h.size
    exact ⟨hfill (by rwa [hsize']), hwritten⟩
  · rw [sizeLaw_iff, ← hsize, hiff]

/-- One call in the range: it is carried out, and keeps the law exactly if it should. -/
theorem exists_next_sizeLaw {s : Extended} {op : BufferOp} (hi : InLaw s) (hp : SizeLaw s)
    (hd : InIntRange s op) :
    ∃ s', buffering.next s op = some s' ∧ (SizeLaw s' → InLaw s') ∧
      (SizeLaw s' ↔ KeepsSize s op) := by
  cases op with
  | append data dataSize =>
    obtain ⟨hs, hlen, hlt⟩ := hd
    rw [Int32.nonneg_iff] at hs
    have h0 : 0 ≤ s.buffer.size.toInt := by
      rw [hp.size]
      exact hi.extent
    obtain ⟨d', hput, hin, hiff⟩ := exists_write_sizeLaw hi hp h0 hs hlen hlt
    refine ⟨_, ?_, hin, hiff⟩
    show (s.buffer.append data dataSize).map _ = _
    rw [DynamicBuffer.append, hput]
    rfl
  | put data offset size =>
    obtain ⟨ho, hs, hlen, hlt⟩ := hd
    rw [Int32.nonneg_iff] at ho hs
    obtain ⟨d', hput, hin, hiff⟩ := exists_write_sizeLaw hi hp ho hs hlen hlt
    refine ⟨_, ?_, hin, hiff⟩
    show (s.buffer.put data offset size).map _ = _
    rw [hput]
    rfl
  | clear =>
    have hn := hi.filled.blocks
    refine ⟨⟨s.buffer.clear, 0⟩, rfl, fun h => ⟨⟨?_, ?_, ?_, fun _ => ?_⟩, ?_⟩, ?_⟩
    · rwa [DynamicBuffer.clear, List.length_map]
    · exact Int.le_refl 0
    · show (0 : Int) ≤ 1024
      omega
    · rfl
    · exact Int.le_refl 0
    · have hclear := s.buffer.size_clear (by omega)
      rw [DynamicBuffer.intSize_of_lt (Int.le_refl 0) (by omega)] at hclear
      rw [sizeLaw_iff, hclear]
      show _ = (0 : Int) ↔ s.buffer.blocksList.length ≤ 1
      omega
  | destory =>
    refine ⟨⟨{}, 0⟩, rfl, fun h => inLaw_init, ?_⟩
    rw [sizeLaw_iff]
    exact iff_of_true rfl trivial

/-- **The law of the size**: along calls in the range `size` is the extent exactly if every write
extends the buffer and no `clear` keeps a block too many. -/
theorem size_law_iff (ops : List BufferOp) (h : buffering.Meets InIntRange buffering.init ops) :
    (∀ pre, pre <+: ops → ∃ s, buffering.run pre = some s ∧ SizeLaw s) ↔
      buffering.Meets KeepsSize buffering.init ops := by
  refine System.forall_prefix_iff_meets_within (J := InLaw) ?_ ?_ ?_ ?_ h
  · intro s op s' hi hp hd hn hp'
    obtain ⟨t, ht, hlaw, -⟩ := exists_next_sizeLaw hi hp hd
    cases ht.symm.trans hn
    exact hlaw hp'
  · intro s op hi hp hd
    obtain ⟨t, ht, -, hiff⟩ := exists_next_sizeLaw hi hp hd
    constructor
    · rintro ⟨t', ht', hp'⟩
      cases ht.symm.trans ht'
      exact hiff.1 hp'
    · intro hk
      exact ⟨t, ht, hiff.2 hk⟩
  · exact inLaw_init
  · exact (sizeLaw_iff _).2 rfl

/-- Three writes into one block, and a `clear`. -/
theorem size_law_one_block :
    buffering.Meets InIntRange buffering.init
        [.append [1, 2] 2, .append [3] 1, .put [4] 7 1, .clear] ∧
      ∀ pre, pre <+: [.append [1, 2] 2, .append [3] 1, .put [4] 7 1, .clear] →
        ∃ s, buffering.run pre = some s ∧ SizeLaw s :=
  ⟨by decide, (size_law_iff _ (by decide)).2 (by decide)⟩

/-- A full block and one byte more: the new block is added before the ends are compared. -/
theorem not_size_law :
    buffering.Meets InIntRange buffering.init
        [.append (List.replicate 1024 7) 1024, .append [7] 1] ∧
      ¬ ∀ pre, pre <+: [.append (List.replicate 1024 7) 1024, .append [7] 1] →
        ∃ s, buffering.run pre = some s ∧ SizeLaw s := by
  refine ⟨by decide +kernel, fun h => ?_⟩
  obtain ⟨s, hrun, hlaw⟩ := h _ (List.prefix_refl _)
  have hval : (buffering.run [.append (List.replicate 1024 7) 1024, .append [7] 1]).map
      (fun s => (s.buffer.size.toInt, s.extent)) = some (2048, 1025) := by decide +kernel
  rw [hrun, Option.map_some, Option.some_inj, Prod.mk.injEq, hlaw.size] at hval
  omega

end JsonRpc
