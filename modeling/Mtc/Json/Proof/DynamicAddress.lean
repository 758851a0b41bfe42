import Mtc.Json.Proof.DynamicSize

/-!
# Addresses in a `DynamicBuffer`

`get_address` is bounded by `size` and `get` by `capacity`. They agree on an offset exactly if the
two bounds do.
-/

namespace JsonRpc

namespace DynamicBuffer

/-! ## The two reads -/

theorem getAddress_eq (d : DynamicBuffer) {o : Nat} (ho : o < 2 ^ 31) :
    d.getAddress (Int32.ofSizeT o) =
      if d.size.toInt < o then some none
      else if o / 1024 < d.blocksList.length then
        some (some ⟨o / 1024, Int32.ofSizeT (o % 1024)⟩)
      else none := by
  have hgt : Int32.ofSizeT o > d.size ↔ d.size.toInt < o := by
    rw [gt_iff_lt, Int32.lt_iff_toInt_lt, Int32.toInt_ofSizeT_of_lt ho]
  rw [getAddress]
  by_cases hnull : d.size.toInt < o
  · rw [if_pos (hgt.2 hnull), if_pos hnull]
    rfl
  · rw [if_neg (fun h => hnull (hgt.1 h)), if_neg hnull, ofSizeT_div_blockSize ho,
      ofSizeT_mod_blockSize ho]
    dsimp only
    rw [blocksFrom_ofSizeT d (by omega),
      Int32.toInt_ofSizeT_of_lt (by omega), Int.toNat_natCast]
    rcases Nat.lt_trichotomy (o / 1024) d.blocksList.length with hlt | heq | hgt
    · rw [if_pos (by omega), if_pos hlt, List.drop_eq_getElem_cons hlt]
      rfl
    · rw [if_pos (by omega), if_neg (by omega), heq, List.drop_length]
      rfl
    · rw [if_neg (by omega), if_neg (by omega)]
      rfl

/-- The end of the range of the last `int` wraps, and no capacity is below it. -/
theorem get_last (d : DynamicBuffer) :
    d.get (Int32.ofSizeT (2 ^ 31 - 1)) 1 =
      if 2 ^ 21 ≤ d.blocksList.length then some (true, (d.contents.drop (2 ^ 31 - 1)).take 1)
      else none := by
  have hcheck : (d.checkSpace (Int32.ofSizeT (2 ^ 31 - 1)) 1 false).1 = true := by
    have hlo := d.capacity.le_toInt
    have hsum : (Int32.ofSizeT (2 ^ 31 - 1) + 1).toInt = -2 ^ 31 := by decide
    rw [checkSpace, if_neg]
    rw [gt_iff_lt, Int32.lt_iff_toInt_lt, hsum]
    omega
  have hcontents := d.contents_from (2 ^ 31 - 1)
  have hidx : (2 ^ 31 - 1) / 1024 = 2 ^ 21 - 1 := by decide
  have hin : (2 ^ 31 - 1) % 1024 = 1023 := by decide
  rw [get, hcheck, ofSizeT_div_blockSize (by omega), ofSizeT_mod_blockSize (by omega),
    blocksFrom_ofSizeT d (by omega), ← hcontents, hidx, hin, if_neg (by decide)]
  rcases Nat.lt_trichotomy (2 ^ 21 - 1) d.blocksList.length with hlt | heq | hgt
  · rw [if_pos (by omega), if_pos (by omega)]
    show (getLoop _ _ (Int32.ofSizeT 1) >>= _) = _
    rw [getLoop_eq (by omega) (by omega)]
    · rfl
    · rw [Block.length_flat, List.length_drop]
      omega
  · rw [if_pos (by omega), if_neg (by omega), heq, List.drop_length]
    rfl
  · rw [if_neg (by omega), if_neg (by omega)]
    rfl

/-! ## Agreement -/

section
variable {d : DynamicBuffer} {o : Nat}

/-- An offset behind `size`. -/
theorem agrees_iff_of_size_lt (ho : o < 2 ^ 31) (h : d.size.toInt < o) :
    d.Agrees (Int32.ofSizeT o) ↔ d.get (Int32.ofSizeT o) 1 = some (false, []) := by
  have haddr := d.getAddress_eq ho
  rw [if_pos h] at haddr
  rw [Agrees, haddr]
  constructor
  · rintro (⟨-, hget⟩ | ⟨a, block, byte, hsome, -⟩)
    · exact hget
    · cases hsome
  · intro hget
    exact Or.inl ⟨rfl, hget⟩

/-- The address that `get_address` computes is that of a byte of the contents. -/
theorem exists_block_byte (h : o < d.contents.length) :
    ∃ block byte, d.blocksList[o / 1024]? = some block ∧ block.elems[o % 1024]? = some byte ∧
      (d.contents.drop o).take 1 = [byte] := by
  have hlen := d.length_contents
  have hlt : o / 1024 < d.blocksList.length := by omega
  have hflat := Block.getElem?_flat hlt (Nat.mod_lt o (by decide : 0 < 1024))
  rw [Nat.div_add_mod] at hflat
  refine ⟨d.blocksList[o / 1024], d.contents[o], List.getElem?_eq_getElem hlt, ?_, ?_⟩
  · rw [← hflat]
    exact List.getElem?_eq_getElem h
  · rw [List.take_one, List.head?_drop, List.getElem?_eq_getElem h]
    rfl

/-- An offset that is not. -/
theorem agrees_iff_of_le_size (ho : o < 2 ^ 31) (h : o ≤ d.size.toInt) :
    d.Agrees (Int32.ofSizeT o) ↔ o < d.contents.length ∧
      d.get (Int32.ofSizeT o) 1 = some (true, (d.contents.drop o).take 1) := by
  have haddr := d.getAddress_eq ho
  have hlen := d.length_contents
  have hin := Int32.toInt_ofSizeT_of_lt (show o % 1024 < 2 ^ 31 by omega)
  rw [if_neg (by omega)] at haddr
  rw [Agrees, haddr]
  by_cases hlt : o < d.contents.length
  · obtain ⟨block, byte, hblock, hbyte, htake⟩ := exists_block_byte hlt
    rw [if_pos (by omega), htake, and_iff_right hlt]
    constructor
    · rintro (⟨hnull, -⟩ | ⟨a, block', byte', ha, hblock', -, hbyte', hget⟩)
      · cases hnull
      · cases ha
        rw [hin, Int.toNat_natCast] at hbyte'
        cases hblock.symm.trans hblock'
        cases hbyte.symm.trans hbyte'
        exact hget
    · intro hget
      refine Or.inr ⟨_, block, byte, rfl, hblock, ?_, ?_, hget⟩
      · rw [Int32.nonneg_iff, hin]
        omega
      · rw [hin, Int.toNat_natCast, hbyte]
  · -- the block does not exist
    rw [if_neg (by omega)]
    refine iff_of_false ?_ fun h => hlt h.1
    rintro (⟨hnull, -⟩ | ⟨a, block, byte, ha, -⟩)
    · cases hnull
    · cases ha

/-- The bounds decide for every offset but the last. -/
theorem agrees_iff_of_lt (ho : o + 1 < 2 ^ 31) :
    d.Agrees (Int32.ofSizeT o) ↔ (o ≤ d.size.toInt ∧ o < d.capacity.toInt ∨
      d.size.toInt < o ∧ d.capacity.toInt ≤ o) := by
  have hget : d.get (Int32.ofSizeT o) 1 = _ := d.get_eq (s := 1) ho
  have hcap := d.toInt_capacity_le
  by_cases hsize : d.size.toInt < o
  · rw [agrees_iff_of_size_lt (by omega) hsize, hget]
    by_cases hle : ((o + 1 : Nat) : Int) ≤ d.capacity.toInt
    · rw [if_pos hle]
      exact iff_of_false (by simp) (by omega)
    · rw [if_neg hle]
      exact iff_of_true rfl (by omega)
  · rw [agrees_iff_of_le_size (by omega) (by omega), hget]
    by_cases hle : ((o + 1 : Nat) : Int) ≤ d.capacity.toInt
    · rw [if_pos hle]
      exact iff_of_true ⟨by omega, rfl⟩ (by omega)
    · rw [if_neg hle]
      exact iff_of_false (by simp) (by omega)

/-- The last offset: `get` never fails, and a buffer of that size has the byte. -/
theorem agrees_last_iff (h0 : 0 ≤ d.tailOffsetInBlock.toInt)
    (ht : d.tailOffsetInBlock.toInt ≤ 1024) :
    d.Agrees (Int32.ofSizeT (2 ^ 31 - 1)) ↔ 2 ^ 31 - 1 ≤ d.size.toInt := by
  have hlen := d.length_contents
  by_cases hsize : d.size.toInt < (2 ^ 31 - 1 : Nat)
  · rw [agrees_iff_of_size_lt (by omega) hsize, get_last]
    refine iff_of_false (fun h => ?_) (by omega)
    split_ifs at h
    cases h
  · have hn : 2 ^ 21 ≤ d.blocksList.length := by
      by_contra hn
      have heq := d.toInt_size (by omega)
      rw [intSize_of_lt h0 (by omega)] at heq
      omega
    rw [agrees_iff_of_le_size (by omega) (by omega), get_last, if_pos hn]
    exact iff_of_true ⟨by omega, rfl⟩ (by omega)

end

/-! ## Runs -/

/-- A copy of the caller's data that stays in its block. -/
theorem sizeT_add_le_of_write {data piece : Bytes} {block block' : Block UInt8 1024}
    {offset size : Int32} (hp : readData data size.sizeT = some piece)
    (hw : block.write offset.sizeT piece = some block') :
    0 ≤ (offset + size).toInt ∧ (offset + size).toInt ≤ 1024 := by
  have hlen : piece.length = size.sizeT := by
    unfold readData at hp
    split_ifs at hp with hle
    cases hp
    rw [List.length_take, Nat.min_eq_left hle]
  have hle : offset.sizeT + size.sizeT ≤ 1024 := by
    unfold Block.write at hw
    split_ifs at hw with hle
    rwa [hlen] at hle
  have ho := offset.le_toInt
  have hs := size.le_toInt
  have hlt := offset.toInt_lt
  have hlt' := size.toInt_lt
  -- a negative `int` is no small `size_t`
  have ho' : (offset.sizeT : Int) = offset.toInt := by
    unfold Int32.sizeT at hle ⊢
    omega
  have hs' : (size.sizeT : Int) = size.toInt := by
    unfold Int32.sizeT at hle ⊢
    omega
  rw [Int32.toInt_add_of_range (by omega) (by omega)]
  omega

/-- Where the last copy ends is in its block, whatever the arguments. -/
theorem putLoop_tail {data : Bytes} {blocks blocks' : List (Block UInt8 1024)}
    {offset size t : Int32} (h : putLoop data blocks offset size = some (blocks', some t)) :
    0 ≤ t.toInt ∧ t.toInt ≤ 1024 := by
  induction blocks generalizing blocks' offset size with
  | nil =>
    rw [putLoop] at h
    split_ifs at h
    cases h
  | cons block blocks ih =>
    rw [putLoop] at h
    split_ifs at h with h0 hgt
    · cases h
    · obtain ⟨piece, -, h⟩ := Option.bind_eq_some_iff.1 h
      obtain ⟨block', -, h⟩ := Option.bind_eq_some_iff.1 h
      obtain ⟨⟨rest, tail⟩, hloop, h⟩ := Option.bind_eq_some_iff.1 h
      cases h
      exact ih hloop
    · obtain ⟨piece, hp, h⟩ := Option.bind_eq_some_iff.1 h
      obtain ⟨block', hw, h⟩ := Option.bind_eq_some_iff.1 h
      cases h
      exact sizeT_add_le_of_write hp hw

/-- The tail is a place in a block. -/
def TailInBlock (d : DynamicBuffer) : Prop :=
  0 ≤ d.tailOffsetInBlock.toInt ∧ d.tailOffsetInBlock.toInt ≤ 1024

theorem tailInBlock_zero {d : DynamicBuffer} (h : d.tailOffsetInBlock = 0) : d.TailInBlock := by
  rw [TailInBlock, h]
  decide

theorem tailOffsetInBlock_checkSpace (d : DynamicBuffer) (offset size : Int32) (expand : Bool) :
    (d.checkSpace offset size expand).2.tailOffsetInBlock = d.tailOffsetInBlock := by
  unfold checkSpace
  dsimp only
  split_ifs <;> rfl

theorem TailInBlock.put {d d' : DynamicBuffer} {data : Bytes} {offset size : Int32} {b : Bool}
    (ht : d.TailInBlock) (h : d.put data offset size = some (b, d')) : d'.TailInBlock := by
  have hcheck := d.tailOffsetInBlock_checkSpace offset size true
  rw [DynamicBuffer.put] at h
  generalize d.checkSpace offset size true = checked at h hcheck
  obtain ⟨ok, d₁⟩ := checked
  obtain ⟨blocks, -, h⟩ := Option.bind_eq_some_iff.1 h
  obtain ⟨⟨blocks', tail⟩, hloop, h⟩ := Option.bind_eq_some_iff.1 h
  have htail := congrArg (fun x => x.2.tailOffsetInBlock) (Option.some_inj.1 h)
  dsimp only at htail hcheck
  rw [TailInBlock, ← htail, hcheck]
  split_ifs
  · cases tail with
    | none => exact ht
    | some t => exact putLoop_tail hloop
  · exact ht

end DynamicBuffer

/-- The tail is in its block after any calls with any arguments. -/
theorem tailInBlock_of_run {ops : List BufferOp} {s : Extended}
    (h : buffering.run ops = some s) : s.buffer.TailInBlock := by
  refine System.inv_of_step (I := fun s : Extended => s.buffer.TailInBlock) ?_ h
    (DynamicBuffer.tailInBlock_zero rfl)
  intro s op s' hn ht
  cases op with
  | append data dataSize =>
    obtain ⟨⟨offset, d'⟩, ha, rfl⟩ := Option.map_eq_some_iff.1 hn
    rw [DynamicBuffer.append] at ha
    obtain ⟨⟨b, d''⟩, hput, h⟩ := Option.bind_eq_some_iff.1 ha
    cases h
    exact ht.put hput
  | put data offset size =>
    obtain ⟨⟨b, d'⟩, hput, rfl⟩ := Option.map_eq_some_iff.1 hn
    exact ht.put hput
  | clear =>
    cases hn
    exact DynamicBuffer.tailInBlock_zero rfl
  | destory =>
    cases hn
    exact DynamicBuffer.tailInBlock_zero rfl

/-- **`get_address` and `get` agree**, in every state that calls lead to, on exactly the offsets
that are within `size` and `capacity` or within neither. -/
theorem get_address_agrees_iff {ops : List BufferOp} {s : Extended}
    (h : buffering.run ops = some s) {offset : Int32} (ho : 0 ≤ offset) :
    s.buffer.Agrees offset ↔ s.buffer.SameBound offset := by
  obtain ⟨h0, ht⟩ := tailInBlock_of_run h
  have hsize := s.buffer.size.toInt_lt
  rw [Int32.nonneg_iff] at ho
  obtain ⟨o, ho', hoff⟩ := Int32.exists_eq_ofSizeT ho
  have hlt := offset.toInt_lt
  rw [DynamicBuffer.SameBound, Int32.le_iff_toInt_le, Int32.lt_iff_toInt_lt,
    Int32.lt_iff_toInt_lt, Int32.le_iff_toInt_le, ho', hoff]
  by_cases hlast : o = 2 ^ 31 - 1
  · rw [hlast, DynamicBuffer.agrees_last_iff h0 ht]
    omega
  · rw [DynamicBuffer.agrees_iff_of_lt (by omega)]
    omega

/-- The last of 1026 bytes is the second one of another block. -/
theorem get_address_agrees_border :
    let ops : List BufferOp := [.append (List.replicate 1026 7) 1026]
    ∃ s, buffering.run ops = some s ∧ s.buffer.Agrees 1025 ∧
      s.buffer.getAddress 1025 = some (some { block := 1, offset := 1 }) ∧
      s.buffer.get 1025 1 = some (true, [7]) := by
  intro ops
  have hends : (buffering.run ops).map (fun s => (decide (s.buffer.SameBound 1025),
      s.buffer.getAddress 1025, s.buffer.get 1025 1)) =
        some (true, some (some { block := 1, offset := 1 }), some (true, [7])) := by decide +kernel
  obtain ⟨s, hs, hends⟩ := Option.map_eq_some_iff.1 hends
  rw [Prod.mk.injEq, Prod.mk.injEq, decide_eq_true_iff] at hends
  obtain ⟨hbound, haddress, hget⟩ := hends
  exact ⟨s, hs, (get_address_agrees_iff hs (by decide)).2 hbound, haddress, hget⟩

/-- On an empty buffer `get_address(0)` uses a block that does not exist, and behind one byte
`get_address(2)` is `NULL` where `get` returns true. -/
theorem not_get_address_agrees :
    (buffering.run [] = some {} ∧ ({} : DynamicBuffer).getAddress 0 = none ∧
      ¬ ({} : DynamicBuffer).Agrees 0) ∧
    ∃ s, buffering.run [.append [5] 1] = some s ∧ ¬ s.buffer.Agrees 2 := by
  refine ⟨⟨rfl, by decide, ?_⟩, ?_⟩
  · rintro (⟨hnull, -⟩ | ⟨a, block, byte, haddr, -⟩)
    · exact absurd hnull (by decide)
    · exact absurd haddr (by rw [show ({} : DynamicBuffer).getAddress 0 = none by decide]; simp)
  · obtain ⟨s, hs⟩ : ∃ s, buffering.run [.append [5] 1] = some s :=
      Option.isSome_iff_exists.1 (by decide +kernel)
    have hreads : (buffering.run [.append [5] 1]).map
        (fun s => (s.buffer.getAddress 2, s.buffer.get 2 1)) =
          some (some none, some (true, [0])) := by decide +kernel
    rw [hs, Option.map_some, Option.some_inj, Prod.mk.injEq] at hreads
    refine ⟨s, hs, ?_⟩
    rintro (⟨-, hget⟩ | ⟨a, block, byte, haddr, -⟩)
    · rw [hreads.2] at hget
      cases hget
    · rw [hreads.1] at haddr
      cases haddr

end JsonRpc
