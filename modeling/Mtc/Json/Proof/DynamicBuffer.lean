import Mtc.Json.DynamicBuffer

/-!
# The loops of `DynamicBuffer`

What the loops of `get` and `put` do to the contents, and how many blocks `check_space` adds.
-/

namespace JsonRpc

theorem ofSizeT_eq_zero_iff {s : Nat} (hs : s < 2 ^ 31) : Int32.ofSizeT s = 0 ↔ s = 0 := by
  rw [← Int32.toInt_inj, Int32.toInt_ofSizeT_of_lt hs, Int32.toInt_zero]
  omega

theorem blockSize_eq : blockSize = Int32.ofSizeT 1024 := rfl

theorem blockSize_sub {o : Nat} (ho : o < 1024) :
    blockSize - Int32.ofSizeT o = Int32.ofSizeT (1024 - o) := by
  rw [blockSize_eq, Int32.ofSizeT_sub (by omega)]

theorem readData_eq {data : Bytes} {s : Nat} (h : s ≤ data.length) :
    readData data s = some (data.take s) := if_pos h

namespace DynamicBuffer

/-! ## Reading -/

theorem getLoop_last {block : Block UInt8 1024} (blocks : List (Block UInt8 1024)) {o s : Nat}
    (ho : o < 1024) (hs : s ≤ 1024 - o) :
    getLoop (block :: blocks) (Int32.ofSizeT o) (Int32.ofSizeT s) =
      some ((block.elems.drop o).take s) := by
  rw [getLoop]
  by_cases h0 : s = 0
  · subst h0
    rfl
  · rw [if_neg (by rwa [ofSizeT_eq_zero_iff (by omega)]), blockSize_sub ho,
      if_neg (by rw [gt_iff_lt, Int32.ofSizeT_lt_iff (by omega) (by omega)]; omega),
      Int32.sizeT_ofSizeT_of_lt (by omega), Int32.sizeT_ofSizeT_of_lt (by omega), Block.read,
      if_pos (by omega)]

theorem getLoop_next {block : Block UInt8 1024} (blocks : List (Block UInt8 1024)) {o s : Nat}
    (ho : o < 1024) (hs : 1024 - o < s) (hlt : s < 2 ^ 31) :
    getLoop (block :: blocks) (Int32.ofSizeT o) (Int32.ofSizeT s) =
      (getLoop blocks 0 (Int32.ofSizeT (s - (1024 - o)))).map
        (block.elems.drop o ++ ·) := by
  have hdrop : (block.elems.drop o).take (1024 - o) = block.elems.drop o :=
    List.take_of_length_le (by rw [List.length_drop, block.length_elems])
  rw [getLoop, if_neg (by rw [ofSizeT_eq_zero_iff hlt]; omega), blockSize_sub ho,
    if_pos (by rw [gt_iff_lt, Int32.ofSizeT_lt_iff (by omega) hlt]; omega),
    Int32.sizeT_ofSizeT_of_lt (by omega), Int32.sizeT_ofSizeT_of_lt (by omega), Block.read,
    if_pos (by omega), hdrop, Int32.ofSizeT_sub (by omega)]
  show (getLoop blocks 0 _ >>= _) = _
  cases getLoop blocks 0 (Int32.ofSizeT (s - (1024 - o))) <;> rfl

theorem getLoop_eq {blocks : List (Block UInt8 1024)} {o s : Nat} (ho : o < 1024)
    (hs : s < 2 ^ 31) (hle : o + s ≤ (Block.flat blocks).length) :
    getLoop blocks (Int32.ofSizeT o) (Int32.ofSizeT s) =
      some (((Block.flat blocks).drop o).take s) := by
  induction blocks generalizing o s with
  | nil =>
    obtain rfl : s = 0 := by simp at hle; omega
    rfl
  | cons block blocks ih =>
    have hlen := block.length_elems
    rw [Block.flat_cons, List.drop_append_of_le_length (by omega)]
    by_cases hlast : s ≤ 1024 - o
    · rw [getLoop_last blocks ho hlast, List.take_append_of_le_length]
      rw [List.length_drop]
      omega
    · rw [Block.flat_cons, List.length_append] at hle
      have hrest := ih (o := 0) (s := s - (1024 - o)) (by omega) (by omega) (by omega)
      have hfirst : (block.elems.drop o).take s = block.elems.drop o :=
        List.take_of_length_le (by rw [List.length_drop]; omega)
      rw [getLoop_next blocks ho (by omega) hs, show (0 : Int32) = Int32.ofSizeT 0 from rfl, hrest,
        Option.map_some, List.drop_zero, List.take_append, List.length_drop, hlen, hfirst]

/-! ## Writing -/

theorem putLoop_last {data : Bytes} {block : Block UInt8 1024} (blocks : List (Block UInt8 1024))
    {o s : Nat} (h0 : 0 < s) (hs : o + s ≤ 1024) (hd : s ≤ data.length) :
    putLoop data (block :: blocks) (Int32.ofSizeT o) (Int32.ofSizeT s) =
      (block.write o (data.take s)).map fun block =>
        (block :: blocks, some (Int32.ofSizeT (o + s))) := by
  rw [putLoop, if_neg (by rw [ofSizeT_eq_zero_iff (by omega)]; omega), blockSize_sub (by omega),
    if_neg (by rw [gt_iff_lt, Int32.ofSizeT_lt_iff (by omega) (by omega)]; omega),
    Int32.sizeT_ofSizeT_of_lt (by omega), Int32.sizeT_ofSizeT_of_lt (by omega), readData_eq hd,
    Int32.ofSizeT_add]
  show (block.write o (data.take s) >>= _) = _
  cases block.write o (data.take s) <;> rfl

theorem putLoop_next {data : Bytes} {block : Block UInt8 1024} (blocks : List (Block UInt8 1024))
    {o s : Nat} (ho : o < 1024) (hs : 1024 - o < s) (hlt : s < 2 ^ 31) (hd : s ≤ data.length) :
    putLoop data (block :: blocks) (Int32.ofSizeT o) (Int32.ofSizeT s) =
      (block.write o (data.take (1024 - o))).bind fun block =>
        (putLoop data blocks 0 (Int32.ofSizeT (s - (1024 - o)))).map fun x =>
          (block :: x.1, x.2) := by
  rw [putLoop, if_neg (by rw [ofSizeT_eq_zero_iff hlt]; omega), blockSize_sub ho,
    if_pos (by rw [gt_iff_lt, Int32.ofSizeT_lt_iff (by omega) hlt]; omega),
    Int32.sizeT_ofSizeT_of_lt (by omega), Int32.sizeT_ofSizeT_of_lt (by omega),
    readData_eq (by omega), Int32.ofSizeT_sub (by omega)]
  show (block.write o (data.take (1024 - o)) >>= _) = _
  cases block.write o (data.take (1024 - o)) with
  | none => rfl
  | some block =>
    show (putLoop data blocks _ _ >>= _) = (putLoop data blocks _ _).map _
    cases putLoop data blocks 0 (Int32.ofSizeT (s - (1024 - o))) <;> rfl

/-- The loop copies to all places from `o` on: to those of the first block from the beginning of
`data`, and from there again to those of every other. -/
theorem exists_putLoop {data : Bytes} {blocks : List (Block UInt8 1024)} {o s : Nat}
    (ho : o < 1024) (hs : s < 2 ^ 31) (hle : o + s ≤ (Block.flat blocks).length)
    (hd : s ≤ data.length) :
    ∃ blocks', putLoop data blocks (Int32.ofSizeT o) (Int32.ofSizeT s) = some (blocks',
        if s = 0 then none else some (Int32.ofSizeT ((o + s - 1) % 1024 + 1))) ∧
      blocks'.length = blocks.length ∧
      ∀ i, (Block.flat blocks')[i]? =
        if o ≤ i ∧ i < o + s then data[if i < 1024 then i - o else i % 1024]?
        else (Block.flat blocks)[i]? := by
  induction blocks generalizing o s with
  | nil =>
    obtain rfl : s = 0 := by simp at hle; omega
    exact ⟨[], rfl, rfl, fun i => by rw [if_neg (by omega)]⟩
  | cons block blocks ih =>
    have hlen := block.length_elems
    by_cases h0 : s = 0
    · subst h0
      exact ⟨block :: blocks, rfl, rfl, fun i => by rw [if_neg (by omega)]⟩
    by_cases hlast : o + s ≤ 1024
    · -- the last copy
      obtain ⟨block', hb⟩ := block.exists_write (o := o) (l := data.take s)
        (by rw [List.length_take]; omega)
      refine ⟨block' :: blocks, ?_, rfl, fun i => ?_⟩
      · rw [putLoop_last blocks (by omega) hlast hd, hb, if_neg h0,
          show (o + s - 1) % 1024 + 1 = o + s by omega]
        rfl
      · have hlen' := block'.length_elems
        rw [Block.flat_cons, Block.flat_cons, List.getElem?_append, List.getElem?_append, hlen,
          hlen', Block.getElem?_write hb, List.length_take, Nat.min_eq_left hd, List.getElem?_take]
        split_ifs <;> first | rfl | omega
    · rw [Block.flat_cons, List.length_append] at hle
      obtain ⟨block', hb⟩ := block.exists_write (o := o) (l := data.take (1024 - o))
        (by rw [List.length_take]; omega)
      obtain ⟨blocks', hloop, hl, hget⟩ := ih (o := 0) (s := s - (1024 - o)) (by omega) (by omega)
        (by omega) (by omega)
      refine ⟨block' :: blocks', ?_, by rw [List.length_cons, List.length_cons, hl], fun i => ?_⟩
      · rw [putLoop_next blocks ho (by omega) hs hd, hb, Option.bind_some,
          show (0 : Int32) = Int32.ofSizeT 0 from rfl, hloop, if_neg (by omega),
          if_neg h0, show (0 + (s - (1024 - o)) - 1) % 1024 = (o + s - 1) % 1024 by omega]
        rfl
      · have hlen' := block'.length_elems
        rw [Block.flat_cons, Block.flat_cons, List.getElem?_append, List.getElem?_append, hlen,
          hlen', Block.getElem?_write hb, List.length_take, Nat.min_eq_left (by omega),
          List.getElem?_take, hget]
        split_ifs <;> first | omega | skip
        · rfl
        · rfl
        · rw [show i - 1024 - 0 = i % 1024 by omega]
        · rw [show (i - 1024) % 1024 = i % 1024 by omega]
        · rfl

/-! ## Space -/

theorem length_contents (d : DynamicBuffer) : d.contents.length = 1024 * d.blocksList.length :=
  Block.length_flat d.blocksList

theorem toInt_capacity (d : DynamicBuffer) :
    d.capacity.toInt = (1024 * d.blocksList.length : Int).bmod (2 ^ 32) := by
  rw [capacity, Int32.toInt_ofSizeT, show blockSize.sizeT = 1024 by decide, Nat.mul_comm,
    Int.natCast_mul]
  rfl

/-- `capacity` is no larger than it should be. -/
theorem toInt_capacity_le (d : DynamicBuffer) : d.capacity.toInt ≤ d.contents.length := by
  rw [toInt_capacity, length_contents, Int.bmod_def]
  split <;> omega

/-- The number of blocks for `r` bytes, as `check_space` computes it. -/
def blocksFor (r : Int32) : Int32 :=
  if r % blockSize = 0 then r / blockSize else r / blockSize + 1

theorem tdiv_tmod_blockSize (r : Int) :
    r.tdiv 1024 = (if 0 ≤ r then r / 1024 else -(-r / 1024)) ∧
      (r.tmod 1024 = 0 ↔ r % 1024 = 0) := by
  refine ⟨?_, ?_⟩
  · split_ifs with h
    · exact Int.tdiv_eq_ediv_of_nonneg h
    · rw [← Int.tdiv_eq_ediv_of_nonneg (by omega : 0 ≤ -r), Int.neg_tdiv, Int.neg_neg]
  · rw [← Int.dvd_iff_tmod_eq_zero, ← Int.dvd_iff_emod_eq_zero]

/-- The quotient is rounded up, also that of the last negative numbers. -/
theorem toNat_blocksFor (r : Int32) : (blocksFor r).toInt.toNat =
    if -1024 < r.toInt ∧ r.toInt < 0 then 1 else ((r.toInt + 1023) / 1024).toNat := by
  have hlo := r.le_toInt
  have hhi := r.toInt_lt
  have hb : blockSize.toInt = 1024 := by decide
  obtain ⟨htdiv, htmod⟩ := tdiv_tmod_blockSize r.toInt
  have hdiv : (r / blockSize).toInt =
      if 0 ≤ r.toInt then r.toInt / 1024 else -(-r.toInt / 1024) := by
    rw [Int32.toInt_div_of_ne_right _ _ (by decide), hb, htdiv]
  have hmod : r % blockSize = 0 ↔ r.toInt % 1024 = 0 := by
    rw [← Int32.toInt_inj, Int32.toInt_mod, hb, Int32.toInt_zero, htmod]
  have hsucc := Int32.toInt_succ (r / blockSize)
  unfold blocksFor
  by_cases h0 : r % blockSize = 0
  · rw [if_pos h0, hdiv]
    rw [hmod] at h0
    split_ifs <;> omega
  · rw [if_neg h0, hsucc, hdiv]
    rw [hmod] at h0
    split_ifs <;> omega

/-- The number of blocks that `check_space` adds to `n`, for a range that ends at `x`. -/
def growth (n x : Nat) : Nat :=
  let capacity := (1024 * n : Int).bmod (2 ^ 32)
  let require := ((x : Int) - capacity).bmod (2 ^ 32)
  if x ≤ capacity then 0
  else if -1024 < require ∧ require < 0 then 1
  else ((require + 1023) / 1024).toNat

theorem le_growth {n x : Nat} (hx : x < 2 ^ 31) : x ≤ 1024 * (n + growth n x) := by
  unfold growth
  dsimp only
  rw [Int.bmod_def (1024 * n : Int), Int.bmod_def]
  split_ifs <;> omega

theorem growth_of_lt {n x : Nat} (hn : n < 2 ^ 21) (hx : x < 2 ^ 31) :
    growth n x = (x + 1023) / 1024 - n := by
  unfold growth
  dsimp only
  rw [Int.bmod_def (1024 * n : Int), Int.bmod_def]
  split_ifs <;> omega

/-- With `2 ^ 21` blocks the capacity has left `int`, and a block is added for the last bytes that
are there already. -/
theorem growth_two_pow {x : Nat} (hx : x < 2 ^ 31) :
    growth (2 ^ 21) x = if x ≤ 2 ^ 31 - 1024 then 0 else 1 := by
  unfold growth
  dsimp only
  rw [Int.bmod_def (1024 * (2 ^ 21 : Nat) : Int), Int.bmod_def]
  split_ifs <;> omega

theorem growth_eq (d : DynamicBuffer) {x : Nat} (hx : x < 2 ^ 31) :
    growth d.blocksList.length x = if (x : Int) ≤ d.capacity.toInt then 0
      else (blocksFor (Int32.ofSizeT x - d.capacity)).toInt.toNat := by
  rw [toNat_blocksFor, Int32.toInt_sub, Int32.toInt_ofSizeT_of_lt hx, toInt_capacity]
  rfl

theorem gt_capacity_iff (d : DynamicBuffer) {x : Nat} (hx : x < 2 ^ 31) :
    Int32.ofSizeT x > d.capacity ↔ ¬ (x : Int) ≤ d.capacity.toInt := by
  rw [gt_iff_lt, Int32.lt_iff_toInt_lt, Int32.toInt_ofSizeT_of_lt hx, Int.not_le]

/-- The buffer with the blocks that `check_space` adds. -/
def grown (d : DynamicBuffer) (x : Nat) : DynamicBuffer :=
  { d with blocksList := d.blocksList ++
      List.replicate (growth d.blocksList.length x) (Block.fill 0) }

theorem checkSpace_expand (d : DynamicBuffer) {offset size : Int32} {x : Nat} (hx : x < 2 ^ 31)
    (h : offset + size = Int32.ofSizeT x) :
    d.checkSpace offset size true = (true, d.grown x) := by
  rw [checkSpace, h, grown, growth_eq d hx]
  by_cases hle : (x : Int) ≤ d.capacity.toInt
  · rw [if_neg (by rwa [gt_capacity_iff d hx, not_not]), if_pos hle, List.replicate_zero,
      List.append_nil]
  · rw [if_pos ((gt_capacity_iff d hx).2 hle), if_neg hle]
    rfl

theorem checkSpace_keep (d : DynamicBuffer) {offset size : Int32} {x : Nat} (hx : x < 2 ^ 31)
    (h : offset + size = Int32.ofSizeT x) :
    (d.checkSpace offset size false).1 = decide ((x : Int) ≤ d.capacity.toInt) := by
  rw [checkSpace, h]
  by_cases hle : (x : Int) ≤ d.capacity.toInt
  · rw [if_neg (by rwa [gt_capacity_iff d hx, not_not]), decide_eq_true hle]
  · rw [if_pos ((gt_capacity_iff d hx).2 hle), decide_eq_false hle]
    rfl

theorem length_grown (d : DynamicBuffer) (x : Nat) :
    (d.grown x).blocksList.length = d.blocksList.length + growth d.blocksList.length x := by
  rw [grown, List.length_append, List.length_replicate]

theorem contents_grown (d : DynamicBuffer) (x : Nat) : (d.grown x).contents =
    d.contents ++ Bytes.zeros (1024 * growth d.blocksList.length x) := by
  rw [contents, grown, Block.flat_append, Block.flat_replicate_fill]
  rfl

/-! ## `get` -/

theorem blocksFrom_ofSizeT (d : DynamicBuffer) {i : Nat} (hi : i < 2 ^ 31) :
    d.blocksFrom (Int32.ofSizeT i) =
      if i ≤ d.blocksList.length then some (d.blocksList.drop i) else none := by
  have hi' := Int32.toInt_ofSizeT_of_lt hi
  have hnonneg : 0 ≤ Int32.ofSizeT i := by
    rw [Int32.le_iff_toInt_le, hi', Int32.toInt_zero]
    omega
  simp only [blocksFrom, hnonneg, hi', Int.toNat_natCast, true_and]

theorem ofSizeT_div_blockSize {o : Nat} (ho : o < 2 ^ 31) :
    Int32.ofSizeT o / blockSize = Int32.ofSizeT (o / 1024) :=
  Int32.ofSizeT_div ho (by decide)

theorem ofSizeT_mod_blockSize {o : Nat} (ho : o < 2 ^ 31) :
    Int32.ofSizeT o % blockSize = Int32.ofSizeT (o % 1024) :=
  Int32.ofSizeT_mod ho (by decide)

theorem contents_from (d : DynamicBuffer) (o : Nat) :
    (Block.flat (d.blocksList.drop (o / 1024))).drop (o % 1024) = d.contents.drop o := by
  rw [Block.flat_drop, List.drop_drop, Nat.div_add_mod]
  rfl

/-- `get` is bounded by `capacity`. -/
theorem get_eq (d : DynamicBuffer) {o s : Nat} (h : o + s < 2 ^ 31) :
    d.get (Int32.ofSizeT o) (Int32.ofSizeT s) =
      if (o + s : Nat) ≤ d.capacity.toInt then some (true, (d.contents.drop o).take s)
      else some (false, []) := by
  have hcheck := d.checkSpace_keep h (Int32.ofSizeT_add o s)
  rw [get, hcheck]
  by_cases hle : ((o + s : Nat) : Int) ≤ d.capacity.toInt
  · have hcap := d.toInt_capacity_le
    have hlen := d.length_contents
    rw [if_pos hle, decide_eq_true hle, if_neg (by decide), ofSizeT_div_blockSize (by omega),
      ofSizeT_mod_blockSize (by omega), blocksFrom_ofSizeT d (by omega), if_pos (by omega)]
    show (getLoop _ _ _ >>= _) = _
    rw [getLoop_eq (by omega) (by omega), d.contents_from]
    · rfl
    · rw [Block.length_flat, List.length_drop]
      omega
  · rw [if_neg hle, decide_eq_false hle]
    rfl

/-- **`get` reads the slice** unless the capacity, which is an `int`, has wrapped. -/
theorem get_slice_iff (d : DynamicBuffer) {offset size : Int32} (ho : 0 ≤ offset) (hs : 0 ≤ size)
    (hlt : offset.toInt + size.toInt < 2 ^ 31) :
    d.GetsSlice offset size ↔ d.contents.length < offset.toInt + size.toInt ∨
      offset.toInt + size.toInt ≤ d.capacity.toInt := by
  rw [Int32.nonneg_iff] at ho hs
  obtain ⟨o, ho', hoff⟩ := Int32.exists_eq_ofSizeT ho
  obtain ⟨s, hs', hsize⟩ := Int32.exists_eq_ofSizeT hs
  have hcap := d.toInt_capacity_le
  rw [GetsSlice, ho', hs', Int.toNat_natCast, Int.toNat_natCast, hoff, hsize,
    d.get_eq (by omega)]
  split_ifs with h1 h2 h2
  · omega
  · simp; omega
  · simp; omega
  · simp; omega

/-- The end of one block and the beginning of the next; behind them there is nothing. -/
theorem get_slice_border :
    let d : DynamicBuffer := { blocksList := [Block.fill 7, Block.fill 8] }
    d.GetsSlice 1020 8 ∧ d.get 1020 8 = some (true, [7, 7, 7, 7, 8, 8, 8, 8]) ∧
      d.GetsSlice 2044 8 ∧ d.get 2044 8 = some (false, []) := by
  intro d
  have hs : (0 : Int32) ≤ 8 := by decide
  have hin := (get_slice_iff d (show (0 : Int32) ≤ 1020 by decide) hs (by decide)).2
    (Or.inr (by decide))
  have hout := (get_slice_iff d (show (0 : Int32) ≤ 2044 by decide) hs (by decide)).2
    (Or.inl (by decide +kernel))
  exact ⟨hin, by decide +kernel, hout, by decide +kernel⟩

/-- With `2 ^ 21` blocks nothing can be read. -/
theorem get_of_two_pow {d : DynamicBuffer} (h : d.blocksList.length = 2 ^ 21) {o s : Nat}
    (hlt : o + s < 2 ^ 31) : d.get (Int32.ofSizeT o) (Int32.ofSizeT s) = some (false, []) := by
  have hcap : d.capacity.toInt = -2 ^ 31 := by
    rw [toInt_capacity, h]
    decide
  rw [d.get_eq hlt, if_neg (by omega)]

/-- The first byte of `2 ^ 31`. -/
theorem not_get_slice : ¬ ({ blocksList := List.replicate (2 ^ 21) (Block.fill 0) } :
    DynamicBuffer).GetsSlice 0 1 := by
  intro h
  have hlen : (List.replicate (2 ^ 21) (Block.fill 0 : Block UInt8 1024)).length = 2 ^ 21 :=
    List.length_replicate
  revert h
  generalize List.replicate (2 ^ 21) (Block.fill 0 : Block UInt8 1024) = blocks at hlen
  intro h
  have hget := get_of_two_pow (d := { blocksList := blocks }) hlen (o := 0) (s := 1) (by omega)
  have hcontents := length_contents { blocksList := blocks }
  rw [GetsSlice, if_neg] at h
  · exact absurd (h.symm.trans hget) (by simp)
  · rw [hcontents, hlen]
    decide

/-! ## `put` -/

/-- The tail that `put` leaves for a range of `s` bytes that ends at `x`. -/
def tailAfter (d : DynamicBuffer) (s x : Nat) : Int32 :=
  if s ≠ 0 ∧ Int32.ofSizeT x > d.size then Int32.ofSizeT ((x - 1) % 1024 + 1)
  else d.tailOffsetInBlock

/-- `put` writes to the whole range. In the block where it begins these are the first of the data,
and the first of the data again in every other. -/
theorem exists_put (d : DynamicBuffer) {data : Bytes} {o s : Nat} (h : o + s < 2 ^ 31)
    (hd : s ≤ data.length) :
    ∃ d', d.put data (Int32.ofSizeT o) (Int32.ofSizeT s) = some (true, d') ∧
      d'.blocksList.length = (d.grown (o + s)).blocksList.length ∧
      d'.tailOffsetInBlock = (d.grown (o + s)).tailAfter s (o + s) ∧
      ∀ i, d'.contents[i]? = if o ≤ i ∧ i < o + s then
          data[if o % 1024 + (i - o) < 1024 then i - o else i % 1024]?
        else (d.grown (o + s)).contents[i]? := by
  have hroom : o + s ≤ 1024 * (d.grown (o + s)).blocksList.length := by
    rw [length_grown]
    exact le_growth h
  have hidx := Int32.toInt_ofSizeT_of_lt (show o / 1024 < 2 ^ 31 by omega)
  have hfit : o % 1024 + s ≤
      (Block.flat ((d.grown (o + s)).blocksList.drop (o / 1024))).length := by
    rw [Block.length_flat, List.length_drop]
    omega
  obtain ⟨blocks, hloop, hlen, hget⟩ := exists_putLoop (by omega) (by omega) hfit hd
  rw [List.length_drop] at hlen
  have hput : d.put data (Int32.ofSizeT o) (Int32.ofSizeT s) = some (true, {
      blocksList := (d.grown (o + s)).blocksList.take (o / 1024) ++ blocks
      tailOffsetInBlock := (d.grown (o + s)).tailAfter s (o + s) }) := by
    rw [put, d.checkSpace_expand h (Int32.ofSizeT_add o s)]
    dsimp only
    rw [ofSizeT_div_blockSize (by omega), ofSizeT_mod_blockSize (by omega),
      blocksFrom_ofSizeT _ (by omega), if_pos (by omega), hidx, Int.toNat_natCast,
      Int32.ofSizeT_add]
    show (putLoop data _ _ _ >>= _) = _
    rw [hloop, tailAfter]
    by_cases h0 : s = 0
    · rw [if_pos h0, if_neg (fun hand => hand.1 h0)]
      show some _ = some _
      rw [Option.getD_none, ite_self]
    · rw [if_neg h0, show (o % 1024 + s - 1) % 1024 = (o + s - 1) % 1024 by omega]
      show some _ = some _
      rw [Option.getD_some]
      simp only [ne_eq, h0, not_false_eq_true, true_and]
  refine ⟨_, hput, ?_, rfl, fun i => ?_⟩
  · dsimp only
    rw [List.length_append, List.length_take, hlen]
    omega
  · have hmod := Nat.div_add_mod o 1024
    rw [contents, contents, Block.flat_append, Block.flat_take, List.getElem?_append,
      List.length_take, Block.length_flat, Nat.min_eq_left (by omega), List.getElem?_take, hget,
      Block.flat_drop, List.getElem?_drop]
    split_ifs <;> first | omega | skip
    · rfl
    · rw [show i - 1024 * (o / 1024) - o % 1024 = i - o by omega]
    · rw [show (i - 1024 * (o / 1024)) % 1024 = i % 1024 by omega]
    · rw [show 1024 * (o / 1024) + (i - 1024 * (o / 1024)) = i by omega]

theorem le_capacity_grown_iff (d : DynamicBuffer) {x : Nat} (hx : x < 2 ^ 31) :
    (x : Int) ≤ (d.grown x).capacity.toInt ↔ d.CapacityFits x := by
  obtain ⟨capacity, hc⟩ : ∃ capacity, capacity = (1024 * d.blocksList.length : Int).bmod (2 ^ 32) :=
    ⟨_, rfl⟩
  have hadd : (1024 * (d.grown x).blocksList.length : Int).bmod (2 ^ 32) =
      (capacity + 1024 * growth d.blocksList.length x).bmod (2 ^ 32) := by
    rw [hc, Int.bmod_add_bmod, length_grown, Int.natCast_add, Int.mul_add]
  have hcap : -2 ^ 31 ≤ capacity ∧ capacity < 2 ^ 31 ∧ capacity % 1024 = 0 := by
    rw [hc, Int.bmod_def]
    split <;> omega
  rw [CapacityFits, toInt_capacity, toInt_capacity, hadd, ← hc]
  unfold growth
  dsimp only
  rw [← hc, Int.bmod_def (_ - _), Int.bmod_def]
  split_ifs <;> omega

/-- What is read back is what was put exactly if the copies did not have to go on in the data. -/
theorem slice_eq_iff_repeats {contents data : Bytes} {o : Nat}
    (hget : ∀ i, o ≤ i → i < o + data.length →
      contents[i]? = data[if o % 1024 + (i - o) < 1024 then i - o else i % 1024]?) :
    (contents.drop o).take data.length = data ↔ Repeats o data := by
  have hslice : ∀ j < data.length, ((contents.drop o).take data.length)[j]? =
      data[if o % 1024 + j < 1024 then j else (o + j) % 1024]? := by
    intro j hj
    rw [List.getElem?_take_of_lt hj, List.getElem?_drop, hget _ (by omega) (by omega),
      Nat.add_sub_cancel_left]
  constructor
  · intro heq j hj hge
    have hj' := hslice j hj
    rwa [heq, if_neg (by omega)] at hj'
  · intro hrep
    refine List.ext_getElem? fun j => ?_
    by_cases hj : j < data.length
    · rw [hslice j hj]
      split_ifs with hlt
      · rfl
      · exact (hrep j hj (by omega)).symm
    · rw [List.getElem?_eq_none (by rw [List.length_take]; omega),
        List.getElem?_eq_none (by omega)]

theorem exists_stored (d : DynamicBuffer) (data : Bytes) {o : Nat} (hx : o + data.length < 2 ^ 31) :
    ∃ d', d.put data (Int32.ofSizeT o) (Int32.ofSizeT data.length) = some (true, d') ∧
      (d'.get (Int32.ofSizeT o) (Int32.ofSizeT data.length) = some (true, data) ↔
        d.CapacityFits (o + data.length) ∧ Repeats o data) ∧
      d.contents.length ≤ d'.contents.length ∧
      ∀ i < d'.contents.length, i < o ∨ o + data.length ≤ i →
        d'.contents[i]? = if i < d.contents.length then d.contents[i]? else some 0 := by
  obtain ⟨d', hput, hlen, -, hget⟩ := d.exists_put hx (Nat.le_refl data.length)
  have hcontents : d'.contents.length =
      d.contents.length + 1024 * growth d.blocksList.length (o + data.length) := by
    rw [length_contents, hlen, length_grown, length_contents, Nat.mul_add]
  have hcap : ((o + data.length : Nat) : Int) ≤ d'.capacity.toInt ↔
      d.CapacityFits (o + data.length) := by
    rw [capacity, hlen]
    exact d.le_capacity_grown_iff hx
  have hslice : (d'.contents.drop o).take data.length = data ↔ Repeats o data :=
    slice_eq_iff_repeats fun i h1 h2 => by rw [hget, if_pos ⟨h1, h2⟩]
  refine ⟨d', hput, ?_, by omega, fun i hi hout => ?_⟩
  · rw [d'.get_eq hx, ← hcap, ← hslice]
    split_ifs with hle
    · rw [Option.some_inj, Prod.mk.injEq, and_iff_right rfl, and_iff_right hle]
    · exact iff_of_false (by simp) fun h => hle h.1
  · rw [hget, if_neg (by omega), contents_grown, List.getElem?_append]
    split_ifs with hin
    · rfl
    · exact List.getElem?_replicate_of_lt (by omega)

/-- **A buffer stores what it is given** exactly if the data repeat themselves from block to block
and the capacity stays an `int`. -/
theorem put_stores_iff (d : DynamicBuffer) (data : Bytes) {offset : Int32} (ho : 0 ≤ offset)
    (hlt : offset.toInt + data.length < 2 ^ 31) :
    d.Stores data offset ↔ d.CapacityFits (offset.toInt + data.length) ∧
      Repeats offset.toInt.toNat data := by
  rw [Int32.nonneg_iff] at ho
  obtain ⟨o, ho', hoff⟩ := Int32.exists_eq_ofSizeT ho
  obtain ⟨d', hput, hget, hle, hframe⟩ := d.exists_stored data (o := o) (by omega)
  rw [ho', Int.toNat_natCast, ← hget, Stores, ho', Int.toNat_natCast, hoff]
  constructor
  · rintro ⟨d₁, hput₁, hget₁, -, -⟩
    rw [hput] at hput₁
    cases hput₁
    exact hget₁
  · intro hget
    exact ⟨d', hput, hget, hle, hframe⟩

/-- Two equal bytes on both sides of the first border. -/
theorem put_stores_border : ({} : DynamicBuffer).Stores [5, 5] 1023 :=
  (put_stores_iff _ _ (by decide) (by decide)).2
    ⟨Or.inl ⟨by decide, by decide⟩, by decide⟩

/-- Two bytes that differ. -/
theorem not_put_stores : ¬ ({} : DynamicBuffer).Stores [1, 2] 1023 := by
  rintro ⟨d₁, hput₁, hget₁, -, -⟩
  obtain ⟨d', hput, hget, -, -⟩ := exists_stored {} [1, 2] (o := 1023) (by decide)
  obtain rfl : d' = d₁ := congrArg Prod.snd (Option.some_inj.1 (hput.symm.trans hput₁))
  exact absurd (hget.1 hget₁).2 (by decide)

end DynamicBuffer

end JsonRpc
