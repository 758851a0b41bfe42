import Mtc.Json.Proof.Handler

/-!
# Staying inside the buffer

`put` compares an end that may have wrapped. What an event copies stays inside the buffer exactly
when its sizes and its offset stay within `int` (`contained_iff`); a peer chooses the offset.
-/

namespace JsonRpc

open Except (ok_bind error_bind bind_eq_ok)

namespace FixedBuffer

variable {n : Nat} {b : FixedBuffer} {data : Bytes} {offset size : Int32}

/-- A buffer never holds more than an `int` can count. -/
theorem InRange.lt (hb : b.InRange n) : n < 2 ^ 31 := by
  have h := hb.length
  have hlt := b.length.toInt_lt
  omega

theorem put_of_gt (h : b.length.toInt < (offset + size).toInt) :
    b.put data offset size = .ok (false, b) := by
  rw [put, if_pos (Int32.lt_iff_toInt_lt.2 h)]
  rfl

theorem put_of_le (h : (offset + size).toInt ≤ b.length.toInt) :
    b.put data offset size = memcpy b.bytes offset data size.sizeT >>= fun bytes =>
      .ok (true, { b with
        tailOffset := if offset + size > b.tailOffset then offset + size else b.tailOffset
        bytes := bytes }) := by
  have hle : ¬ offset + size > b.length := by
    rw [gt_iff_lt, Int32.lt_iff_toInt_lt]
    omega
  rw [put, if_neg hle]
  rfl

/-- A copy with room for it. -/
theorem put_fits (hb : b.InRange n) (ho : 0 ≤ offset.toInt) (hs : 0 ≤ size.toInt)
    (hd : size.toInt ≤ data.length) (hle : offset.toInt + size.toInt ≤ n) :
    ∃ bytes, Bytes.writeAt b.bytes offset.toInt.toNat (data.take size.toInt.toNat) = some bytes ∧
      b.put data offset size = .ok (true, { b with
        tailOffset := if offset + size > b.tailOffset then offset + size else b.tailOffset
        bytes := bytes }) := by
  have hn := hb.lt
  have hlen := hb.bytes
  have hsize : size.sizeT = size.toInt.toNat := Int32.sizeT_of_nonneg hs
  have htake : (data.take size.toInt.toNat).length = size.toInt.toNat := by
    rw [List.length_take]
    omega
  have hw : Bytes.writeAt b.bytes offset.toInt.toNat (data.take size.toInt.toNat) = some _ :=
    if_pos (show _ ≤ b.bytes.length by omega)
  refine ⟨_, hw, ?_⟩
  have hadd := Int32.toInt_add_of_range (x := offset) (y := size) (by omega) (by omega)
  rw [put_of_le (by rw [hadd, hb.length]; exact hle), hsize]
  by_cases h0 : size.toInt.toNat = 0
  · simp only [memcpy, h0, if_true, ok_bind, List.take_zero, List.length_nil, List.append_nil,
      Nat.add_zero, List.take_append_drop]
  · have hin : ¬ (offset < 0 ∨ b.bytes.length < offset.toInt.toNat + size.toInt.toNat) := by
      rw [Int32.lt_iff_toInt_lt, Int32.toInt_zero]
      omega
    rw [memcpy, if_neg h0, if_neg hin, hw]
    rfl

/-- A copy that is let through but does not go into the buffer. -/
theorem put_outside (hb : b.InRange n) (hle : (offset + size).toInt ≤ n) (hs : size.sizeT ≠ 0)
    (hout : offset.toInt < 0 ∨ n < offset.toInt.toNat + size.sizeT) :
    b.put data offset size = .error .writeOutside := by
  have hin : offset < 0 ∨ b.bytes.length < offset.toInt.toNat + size.sizeT := by
    rw [Int32.lt_iff_toInt_lt, Int32.toInt_zero, hb.bytes]
    exact hout
  rw [put_of_le (by rw [hb.length]; exact hle), memcpy, if_neg hs, if_pos hin]
  rfl

theorem inRange_put (hb : b.InRange n) (ho : 0 ≤ offset.toInt) (hs : 0 ≤ size.toInt)
    (hle : offset.toInt + size.toInt ≤ n) {bytes : Bytes}
    (hw : Bytes.writeAt b.bytes offset.toInt.toNat data = some bytes) :
    { b with
      tailOffset := if offset + size > b.tailOffset then offset + size else b.tailOffset
      bytes := bytes : FixedBuffer }.InRange n := by
  have hn := hb.lt
  have hadd := Int32.toInt_add_of_range (x := offset) (y := size) (by omega) (by omega)
  have htail := hb.tail_nonneg
  have htail' := hb.tail_le
  refine ⟨hb.length, (Bytes.length_writeAt hw).trans hb.bytes, ?_, ?_⟩
  · dsimp only
    split_ifs <;> omega
  · dsimp only
    split_ifs <;> omega

/-- What is copied where no `int` overflows stays in range, and may move the end. -/
theorem put_ok (hb : b.InRange n) (ho : 0 ≤ offset.toInt) (hs : 0 ≤ size.toInt)
    (hd : size.toInt ≤ data.length) (hlt : offset.toInt + size.toInt < 2 ^ 31) :
    ∃ ok b', b.put data offset size = .ok (ok, b') ∧ b'.InRange n ∧
      b'.tailOffset.toInt = if offset.toInt + size.toInt ≤ n then
        max b.tailOffset.toInt (offset.toInt + size.toInt) else b.tailOffset.toInt := by
  have hadd := Int32.toInt_add_of_range (x := offset) (y := size) (by omega) hlt
  by_cases hroom : offset.toInt + size.toInt ≤ n
  · obtain ⟨bytes, hw, hput⟩ := put_fits hb ho hs hd hroom
    refine ⟨_, _, hput, inRange_put hb ho hs hroom hw, ?_⟩
    rw [if_pos hroom]
    dsimp only
    split_ifs with hgt
    · rw [gt_iff_lt, Int32.lt_iff_toInt_lt] at hgt
      omega
    · rw [gt_iff_lt, Int32.lt_iff_toInt_lt] at hgt
      omega
  · rw [if_neg hroom]
    exact ⟨_, _, put_of_gt (by rw [hadd, hb.length]; omega), hb, rfl⟩

/-- Appending where no `int` overflows. -/
theorem append_ok (hb : b.InRange n) (hf : AppendFits b data.length) :
    ∃ b', b.append data (Int32.ofSizeT data.length) = .ok (b.tailOffset, b') ∧ b'.InRange n ∧
      b'.tailOffset.toInt = place n b.tailOffset.toInt.toNat (Layout.intSize data) := by
  obtain ⟨ok, b', hput, hb', htail⟩ :=
    put_ok hb hb.tail_nonneg hf.1 (Int32.toInt_ofSizeT_le hf.1) hf.2
  have hsize : (Int32.ofSizeT data.length).toInt = Layout.intSize data :=
    Int32.toInt_ofSizeT_of_nonneg hf.1
  have h0 := hb.tail_nonneg
  refine ⟨b', by rw [append, hput]; rfl, hb', ?_⟩
  rw [htail, hsize, place]
  split_ifs <;> omega

/-- Where an `int` overflows, the end that is compared is not the end of the copy. -/
theorem append_error (hb : b.InRange n) (hf : ¬ AppendFits b data.length) :
    b.append data (Int32.ofSizeT data.length) = .error .writeOutside := by
  have hn := hb.lt
  have htail := hb.tail_nonneg
  have htail' := hb.tail_le
  have hhi := (Int32.ofSizeT data.length).toInt_lt
  have hlo := (Int32.ofSizeT data.length).le_toInt
  have hput : b.put data b.tailOffset (Int32.ofSizeT data.length) = .error .writeOutside := by
    by_cases hs : 0 ≤ (Int32.ofSizeT data.length).toInt
    · -- the end has wrapped
      have hge : 2 ^ 31 ≤ b.tailOffset.toInt + (Int32.ofSizeT data.length).toInt := by
        by_contra hlt
        exact hf ⟨hs, by omega⟩
      have hsize := Int32.sizeT_of_nonneg hs
      refine put_outside hb ?_ (by omega) (Or.inr (by omega))
      rw [Int32.toInt_add_of_ge hge]
      omega
    · -- a negative size is a large `size_t`
      have hsize := Int32.sizeT_of_neg (x := Int32.ofSizeT data.length) (by omega)
      refine put_outside hb ?_ (by omega) (Or.inr (by omega))
      rw [Int32.toInt_add_of_range (by omega) (by omega)]
      omega
  rw [append, hput]
  rfl

section
variable {x : UInt32}

theorem put_slot_ok (hb : b.InRange n) (hd : data.length = 8)
    (hx : x.toNat + 8 < 2 ^ 31 ∨ 2 ^ 32 + n < x.toNat + 8) :
    ∃ ok b', b.put data x.toInt32 8 = .ok (ok, b') ∧ b'.InRange n ∧
      b'.tailOffset.toInt = if x.toNat + 8 ≤ n then max b.tailOffset.toInt (x.toNat + 8)
        else b.tailOffset.toInt := by
  have hlt := x.toNat_lt
  have h8 : (8 : Int32).toInt = 8 := rfl
  have hval := Int32.toInt_toInt32 x
  rcases hx with hx | hx
  · rw [if_pos (by omega)] at hval
    obtain ⟨ok, b', hput, hb', htail⟩ := put_ok hb (show 0 ≤ x.toInt32.toInt by omega)
      (show 0 ≤ (8 : Int32).toInt by omega) (show _ ≤ (data.length : Int) by omega) (by omega)
    refine ⟨ok, b', hput, hb', ?_⟩
    rw [htail, hval, h8]
    split_ifs <;> omega
  · rw [if_neg (by omega)] at hval
    have hadd := Int32.toInt_add_of_range (x := x.toInt32) (y := 8) (by omega) (by omega)
    rw [if_neg (by omega)]
    exact ⟨_, _, put_of_gt (by rw [hadd, hb.length]; omega), hb, rfl⟩

theorem put_slot_error (hb : b.InRange n)
    (hx : ¬ (x.toNat + 8 < 2 ^ 31 ∨ 2 ^ 32 + n < x.toNat + 8)) :
    b.put data x.toInt32 8 = .error .writeOutside := by
  have hn := hb.lt
  have hlt := x.toNat_lt
  have h8 : (8 : Int32).toInt = 8 := rfl
  have hs8 : (8 : Int32).sizeT = 8 := rfl
  have hval := Int32.toInt_toInt32 x
  split_ifs at hval with hneg
  · refine put_outside hb ?_ (by omega) (Or.inr (by omega))
    rw [Int32.toInt_add_of_ge (by omega)]
    omega
  · refine put_outside hb ?_ (by omega) (Or.inl (by omega))
    rw [Int32.toInt_add_of_range (by omega) (by omega)]
    omega

end

theorem put_address {r : Bool × FixedBuffer} (h : b.put data offset size = .ok r) :
    r.2.address = b.address := by
  by_cases hgt : b.length.toInt < (offset + size).toInt
  · cases (put_of_gt hgt).symm.trans h
    rfl
  · rw [put_of_le (by omega)] at h
    obtain ⟨bytes, -, hr⟩ := bind_eq_ok.1 h
    cases hr
    rfl

theorem append_address {r : Int32 × FixedBuffer} (h : b.append data size = .ok r) :
    r.2.address = b.address := by
  rw [append] at h
  obtain ⟨r', hput, hr⟩ := bind_eq_ok.1 h
  cases hr
  exact put_address hput

/-- A copy that does not fit and is not made outside is refused, and nothing changes. -/
theorem put_refuses (hb : b.InRange n) {ok : Bool} {b' : FixedBuffer}
    (h : b.put data offset size = .ok (ok, b')) (hs : size ≠ 0)
    (hout : ¬ (0 ≤ offset.toInt ∧ 0 ≤ size.toInt ∧ offset.toInt + size.toInt ≤ n)) :
    ok = false ∧ b' = b := by
  by_cases hgt : b.length.toInt < (offset + size).toInt
  · cases (put_of_gt hgt).symm.trans h
    exact ⟨rfl, rfl⟩
  · exfalso
    have hlen := hb.length
    have hs0 : size.toInt ≠ 0 := fun h0 => hs (Int32.toInt_inj.1 h0)
    have hlo := size.le_toInt
    have hsize : size.sizeT ≠ 0 ∧ (0 ≤ size.toInt → size.sizeT = size.toInt.toNat) ∧
        (size.toInt < 0 → 2 ^ 63 ≤ size.sizeT) := by
      refine ⟨?_, fun h => Int32.sizeT_of_nonneg h, fun h => ?_⟩
      · by_cases h : 0 ≤ size.toInt
        · rw [Int32.sizeT_of_nonneg h]
          omega
        · rw [Int32.sizeT_of_neg (by omega)]
          omega
      · rw [Int32.sizeT_of_neg h]
        omega
    have hn := hb.lt
    cases (put_outside hb (by omega) hsize.1 (by omega)).symm.trans h

end FixedBuffer

namespace BufferReadHandler

open FixedBuffer

variable {n : Nat} {h : BufferReadHandler}

/-- The result of a call that keeps the buffer in range and copies nothing outside. -/
def Keeps (n : Nat) (r : Except Fault BufferReadHandler) : Prop :=
  r ≠ .error .writeOutside ∧ ∀ h', r = .ok h' → h'.objectBuffer.InRange n

theorem keeps_ok (hb : h.objectBuffer.InRange n) : Keeps n (.ok h) := by
  refine ⟨fun he => (by cases he), fun h' he => ?_⟩
  cases he
  exact hb

theorem keeps_error {e : Fault} (he : e ≠ .writeOutside) : Keeps n (.error e) :=
  ⟨fun h => he (by cases h; rfl), fun h' h => (by cases h)⟩

theorem not_keeps_writeOutside : ¬ Keeps n (.error .writeOutside) := fun h => h.1 rfl

theorem objectPtr_error {index : Int32} {e : Fault} (hp : h.objectPtr index = .error e) :
    e = .badIndex := by
  unfold objectPtr at hp
  split_ifs at hp
  · cases hp
    rfl
  · cases hi : h.objectPtrs[index.toInt.toNat]? with
    | none =>
      rw [hi] at hp
      cases hp
      rfl
    | some start =>
      rw [hi] at hp
      cases hp

theorem keeps_store_iff (hb : h.objectBuffer.InRange n) (key data : Bytes) :
    Keeps n (h.store key data) ↔ AppendFits h.objectBuffer data.length := by
  by_cases hf : AppendFits h.objectBuffer data.length
  · obtain ⟨b', happend, hb', -⟩ := append_ok hb hf
    rw [store, happend, ok_bind]
    exact iff_of_true (keeps_ok hb') hf
  · rw [store, append_error hb hf, error_bind]
    exact iff_of_false not_keeps_writeOutside hf

theorem keeps_note_iff (hb : h.objectBuffer.InRange n) (itemKey : Bytes) (ptrOffset : UInt32)
    (str : Bytes) : Keeps n (h.note itemKey ptrOffset str) ↔
      AppendFits h.objectBuffer str.length ∧ ∀ startOffset,
        h.objectPtr (h.nameId itemKey).1 = .ok startOffset → SlotFits n startOffset ptrOffset := by
  rw [note_eq, nameId_eq]
  by_cases hf : AppendFits h.objectBuffer str.length
  · obtain ⟨b', happend, hb', -⟩ := append_ok hb hf
    rw [happend, ok_bind]
    cases hp : h.objectPtr ((h.nameIdMap.findKey itemKey).getD 0) with
    | error e =>
      have he := objectPtr_error hp
      rw [error_bind]
      refine iff_of_true (keeps_error (by rw [he]; decide)) ⟨hf, fun start hs => ?_⟩
      cases hs
    | ok startOffset =>
      rw [ok_bind]
      by_cases hx : SlotFits n startOffset ptrOffset
      · obtain ⟨ok, b'', hput, hb'', -⟩ := put_slot_ok hb' (Bytes.length_le64 _) hx
        rw [hput, ok_bind]
        refine iff_of_true (keeps_ok hb'') ⟨hf, fun start hs => ?_⟩
        cases hs
        exact hx
      · rw [put_slot_error hb' hx, error_bind]
        exact iff_of_false not_keeps_writeOutside fun h => hx (h.2 _ rfl)
  · rw [append_error hb hf, error_bind]
    exact iff_of_false not_keeps_writeOutside fun h => hf h.1

theorem keeps_uint_iff (hb : h.objectBuffer.InRange n) (u : UInt32) :
    Keeps n (h.uint u) ↔ Fits n h (.scalar (.uint u)) := by
  unfold Fits
  cases hs : h.parseStack with
  | nil =>
    simp only [uint, pop, hs, error_bind]
    exact iff_of_true (keeps_error (by decide)) fun _ _ he => (by cases he)
  | cons item rest =>
    simp only [uint, pop, hs, ok_bind]
    by_cases ho : item.key = ptrOffset
    · rw [if_pos ho]
      exact iff_of_true (keeps_ok hb) fun _ _ he => (by cases he; exact Or.inl ho)
    rw [if_neg ho]
    by_cases hseg : item.key = segmentType
    · rw [if_pos hseg]
      exact iff_of_true (keeps_ok hb) fun _ _ he => (by cases he; exact Or.inr (Or.inl hseg))
    rw [if_neg hseg]
    refine (keeps_store_iff (h := { h with parseStack := rest }) hb _ _).trans
      ⟨fun hf _ _ he => ?_, fun hf => ?_⟩
    · cases he
      exact Or.inr (Or.inr hf)
    · exact ((hf item rest rfl).resolve_left ho).resolve_left hseg

section
variable {item : ParseItem} {rest : List ParseItem} (hs : h.parseStack = item :: rest) (str : Bytes)
include hs

theorem fits_ptrVal (hv : item.key = ptrVal) : Fits n h (.scalar (.string str)) ↔
    ∀ itemOffset itemKey rest' ptrOffset, rest = itemOffset :: itemKey :: rest' →
      Bytes.getLe32 itemOffset.key = some ptrOffset →
      AppendFits h.objectBuffer str.length ∧ ∀ startOffset,
        h.objectPtr (h.nameId itemKey.key).1 = .ok startOffset →
        SlotFits n startOffset ptrOffset := by
  have hk : item.key ≠ ptrKey := by
    rw [hv]
    decide
  unfold Fits
  rw [hs]
  refine ⟨fun hf => (hf item rest rfl hk).2 hv, fun hf _ _ he _ => ?_⟩
  cases he
  exact ⟨fun hv' => absurd hv hv', fun _ => hf⟩

theorem fits_value (hk : item.key ≠ ptrKey) (hv : item.key ≠ ptrVal) :
    Fits n h (.scalar (.string str)) ↔ AppendFits h.objectBuffer str.length := by
  unfold Fits
  rw [hs]
  refine ⟨fun hf => (hf item rest rfl hk).1 hv, fun hf _ _ he _ => ?_⟩
  cases he
  exact ⟨fun _ => hf, fun hv' => absurd hv' hv⟩

end

theorem keeps_string_iff (hb : h.objectBuffer.InRange n) (str : Bytes) :
    Keeps n (h.string str) ↔ Fits n h (.scalar (.string str)) := by
  cases hs : h.parseStack with
  | nil =>
    simp only [string, pop, hs, error_bind, Fits]
    exact iff_of_true (keeps_error (by decide)) fun _ _ he => (by cases he)
  | cons item rest =>
    simp only [string, pop, hs, ok_bind]
    by_cases hk : item.key = ptrKey
    · rw [if_pos hk, Fits, hs]
      exact iff_of_true (keeps_ok hb) fun _ _ he hne => (by cases he; exact absurd hk hne)
    rw [if_neg hk]
    by_cases hv : item.key = ptrVal
    · rw [if_pos hv, fits_ptrVal hs str hv]
      rcases rest with - | ⟨itemOffset, - | ⟨itemKey, rest'⟩⟩
      · exact iff_of_true (keeps_error (by decide)) fun _ _ _ _ hr => (by cases hr)
      · exact iff_of_true (keeps_error (by decide)) fun _ _ _ _ hr => (by cases hr)
      · simp only [ok_bind]
        cases hu : Bytes.getLe32 itemOffset.key with
        | none =>
          refine iff_of_true (keeps_error (e := .shortRead) (by decide)) fun o k r u hr hsome => ?_
          cases hr
          cases hu.symm.trans hsome
        | some ptrOffset =>
          refine (keeps_note_iff (h := { h with parseStack := rest' }) hb itemKey.key ptrOffset
            str).trans ⟨fun hf o k r u hr hsome => ?_, fun hf => ?_⟩
          · cases hr
            obtain rfl : ptrOffset = u := Option.some_inj.1 (hu.symm.trans hsome)
            simp only [nameId_eq] at hf ⊢
            exact hf
          · have hf := hf itemOffset itemKey rest' ptrOffset rfl hu
            simp only [nameId_eq] at hf ⊢
            exact hf
    · rw [if_neg hv, fits_value hs str hk hv]
      exact keeps_store_iff (h := { h with parseStack := rest }) hb _ _

theorem keeps_scalar_iff (hb : h.objectBuffer.InRange n) (s : Scalar) :
    Keeps n (h.scalar s) ↔ Fits n h (.scalar s) := by
  cases s with
  | uint u => exact keeps_uint_iff hb u
  | string str => exact keeps_string_iff hb str
  | _ => exact iff_of_true (keeps_ok hb) trivial

/-- An event that comes to a call, with an answer. -/
theorem contained_of_bind {c : ParseType × Event} {r : Except Fault BufferReadHandler}
    (hb : h.objectBuffer.InRange n) (hstep : h.step c.1 c.2 = do return (true, ← r)) :
    Contained n h c ↔ Keeps n r := by
  cases r with
  | error e =>
    rw [error_bind] at hstep
    constructor
    · intro hc
      refine ⟨fun he => hc.inside ?_, fun h' he => (by cases he)⟩
      rw [hstep]
      cases he
      rfl
    · intro hk
      refine ⟨hb, fun he => hk.1 ?_, fun ok h' he => ?_⟩
      · rw [hstep] at he
        cases he
        rfl
      · rw [hstep] at he
        cases he
  | ok h₁ =>
    rw [ok_bind] at hstep
    constructor
    · exact fun hc => keeps_ok (hc.after _ _ hstep)
    · intro hk
      refine ⟨hb, fun he => ?_, fun ok h' he => ?_⟩
      · rw [hstep] at he
        cases he
      · cases hstep.symm.trans he
        exact hk.2 _ rfl

theorem contained_endOf (hb : h.objectBuffer.InRange n) {c : ParseType × Event} {type : ParseType}
    (hstep : h.step c.1 c.2 = h.endOf type) : Contained n h c := by
  rw [endOf, pop] at hstep
  cases hs : h.parseStack with
  | nil =>
    simp only [hs, error_bind] at hstep
    refine ⟨hb, fun he => ?_, fun ok h' he => ?_⟩ <;> rw [hstep] at he <;> cases he
  | cons item rest =>
    simp only [hs, ok_bind] at hstep
    refine ⟨hb, fun he => ?_, fun ok h' he => ?_⟩
    · rw [hstep] at he
      cases he
    · cases hstep.symm.trans he
      exact hb

theorem keeps_startArray (hb : h.objectBuffer.InRange n) (junk : ParseType) :
    Keeps n (h.startArray junk) := by
  unfold startArray pop
  cases hs : h.parseStack with
  | nil =>
    dsimp only
    split_ifs
    · exact keeps_error (e := .emptyStack) (by decide)
    · exact keeps_ok hb
  | cons item rest =>
    dsimp only
    split_ifs
    · exact keeps_ok hb
    · exact keeps_ok hb

/-- **One event** is contained exactly when it fits. -/
theorem contained_step_iff (hb : h.objectBuffer.InRange n) (c : ParseType × Event) :
    Contained n h c ↔ Fits n h c.2 := by
  obtain ⟨junk, e⟩ := c
  cases e with
  | scalar s => exact (contained_of_bind hb rfl).trans (keeps_scalar_iff hb s)
  | startObject =>
    exact iff_of_true ((contained_of_bind hb (r := .ok (h.push _)) rfl).2 (keeps_ok hb)) trivial
  | key str =>
    exact iff_of_true ((contained_of_bind hb (r := .ok (h.push _)) rfl).2 (keeps_ok hb)) trivial
  | endObject => exact iff_of_true (contained_endOf hb rfl) trivial
  | startArray =>
    exact iff_of_true ((contained_of_bind hb rfl).2 (keeps_startArray hb junk)) trivial
  | endArray => exact iff_of_true (contained_endOf hb rfl) trivial

theorem inRange_setBuffer (h : BufferReadHandler) (buffer : UInt64) {size : Int32} (hs : 0 ≤ size) :
    (h.setBuffer buffer size).objectBuffer.InRange size.sizeT := by
  rw [Int32.nonneg_iff] at hs
  have hsize := Int32.sizeT_of_nonneg hs
  refine ⟨?_, Bytes.length_zeros _, ?_, ?_⟩
  · show size.toInt = size.sizeT
    omega
  · exact Int.le_refl 0
  · exact Int.natCast_nonneg _

/-- A parse whose events are contained copies nothing outside. -/
theorem parseEvents_inside {start : BufferReadHandler} {junk : Nat → ParseType} {es : List Event}
    (hm : (reading start).Meets (Contained n) h (calls junk es)) :
    h.parseEvents junk es ≠ .error .writeOutside := by
  induction es generalizing h with
  | nil =>
    intro he
    cases he
  | cons e es ih =>
    intro he
    rw [parseEvents] at he
    cases hstep : h.step (junk es.length) e with
    | error x =>
      rw [hstep, error_bind] at he
      cases he
      exact hm.1.inside hstep
    | ok r =>
      obtain ⟨ok, h'⟩ := r
      rw [hstep, ok_bind] at he
      cases ok with
      | false => cases he
      | true =>
        have hnext : (reading start).next h (junk es.length, e) = some h' := by
          simp [reading, hstep]
        exact ih (hm.step hnext).2 he

end BufferReadHandler

open BufferReadHandler in
/-- **A parse stays inside the buffer** exactly when every event's sizes and offset stay within
`int`: for any events, and whatever the object has parsed before. A copy that does not fit is
refused and changes nothing. -/
theorem contained_iff (h : BufferReadHandler) (buffer : UInt64) {size : Int32} (hs : 0 ≤ size)
    (junk : Nat → ParseType) (es : List Event) :
    let start := h.setBuffer buffer size
    ((reading start).Meets (Contained size.sizeT) start (calls junk es) ↔
      (reading start).Meets (fun h c => Fits size.sizeT h c.2) start (calls junk es)) ∧
    ((reading start).Meets (Contained size.sizeT) start (calls junk es) →
      start.parseEvents junk es ≠ .error .writeOutside) ∧
    ∀ (b : FixedBuffer) data offset len ok b', b.InRange size.sizeT →
      b.put data offset len = .ok (ok, b') → len ≠ 0 →
      ¬ (0 ≤ offset.toInt ∧ 0 ≤ len.toInt ∧ offset.toInt + len.toInt ≤ size.sizeT) →
      ok = false ∧ b' = b := by
  intro start
  refine ⟨System.meets_congr (I := fun h => h.objectBuffer.InRange size.sizeT)
    (fun _ c hb => contained_step_iff hb c) (fun h c h' hc hn _ => ?_)
    (inRange_setBuffer h buffer hs), parseEvents_inside,
    fun b data offset len ok b' hb hput h0 hout => FixedBuffer.put_refuses hb hput h0 hout⟩
  -- a step that is taken has an answer
  simp only [reading] at hn
  split at hn
  · next h₁ hstep =>
    cases hn
    exact hc.after _ _ hstep
  · cases hn

instance (b : FixedBuffer) (len : Nat) : Decidable (AppendFits b len) :=
  inferInstanceAs (Decidable (_ ∧ _))

instance (n : Nat) (startOffset : Int32) (ptrOffset : UInt32) :
    Decidable (SlotFits n startOffset ptrOffset) := inferInstanceAs (Decidable (_ ∨ _))

/-- What a note needs can be evaluated. -/
def decidableNoteFits (n : Nat) (h : BufferReadHandler) (str : Bytes) : ∀ rest : List ParseItem,
    Decidable (∀ itemOffset itemKey rest' ptrOffset, rest = itemOffset :: itemKey :: rest' →
      Bytes.getLe32 itemOffset.key = some ptrOffset →
      AppendFits h.objectBuffer str.length ∧ ∀ startOffset,
        h.objectPtr (h.nameId itemKey.key).1 = .ok startOffset → SlotFits n startOffset ptrOffset)
  | [] | [_] => isTrue fun _ _ _ _ hr => by cases hr
  | itemOffset :: itemKey :: _ =>
    match hg : Bytes.getLe32 itemOffset.key, ho : h.objectPtr (h.nameId itemKey.key).1 with
    | none, _ => isTrue fun _ _ _ _ hr hs => by
      cases hr
      cases hg.symm.trans hs
    | some ptrOffset, .error _ => decidable_of_iff (AppendFits h.objectBuffer str.length) <| by
      constructor
      · intro hf _ _ _ _ hr _
        cases hr
        exact ⟨hf, fun _ hs => by cases ho.symm.trans hs⟩
      · exact fun hf => (hf _ _ _ _ rfl hg).1
    | some ptrOffset, .ok startOffset => decidable_of_iff
        (AppendFits h.objectBuffer str.length ∧ SlotFits n startOffset ptrOffset) <| by
      constructor
      · intro hf _ _ _ _ hr hs
        cases hr
        cases hg.symm.trans hs
        refine ⟨hf.1, fun _ hs => ?_⟩
        cases ho.symm.trans hs
        exact hf.2
      · exact fun hf => ⟨(hf _ _ _ _ rfl hg).1, (hf _ _ _ _ rfl hg).2 _ ho⟩

/-- A condition on the first item of the stack. -/
def decidableTop {P : ParseItem → List ParseItem → Prop}
    (hp : ∀ item rest, Decidable (P item rest)) :
    ∀ stack : List ParseItem, Decidable (∀ item rest, stack = item :: rest → P item rest)
  | [] => isTrue fun _ _ hs => by cases hs
  | item :: rest => @decidable_of_iff _ (P item rest) (by
      constructor
      · intro h _ _ hs
        cases hs
        exact h
      · exact fun h => h item rest rfl) (hp item rest)

instance (n : Nat) (h : BufferReadHandler) : ∀ e, Decidable (Fits n h e)
  | .scalar (.uint _) => decidableTop (fun _ _ => inferInstanceAs (Decidable (_ ∨ _))) h.parseStack
  | .scalar (.string str) => decidableTop (fun _ rest =>
      have := decidableNoteFits n h str rest
      inferInstanceAs (Decidable (_ → _ ∧ _))) h.parseStack
  | .scalar .null | .scalar (.bool _) | .scalar (.int _) | .scalar (.int64 _) | .scalar (.uint64 _)
  | .scalar .double | .key _ | .startObject | .endObject | .startArray | .endArray => isTrue trivial

/-- A packet whose note has its slot in the first item. -/
def noteInItem : Draft where
  header := [104]
  bodies := [[([97], .string [0, 0, 0, 0, 0, 0, 0, 0])]]
  notes := some [{ key := [97], offset := 0, val := [118] }]

/-- A packet whose note has the offset `2 ^ 32 - 4`. -/
def noteBeforeBuffer : Draft where
  header := [104]
  bodies := []
  notes := some [{ key := packetHeader, offset := 4294967292, val := [118] }]

open BufferReadHandler in
/-- In a buffer of sixteen bytes every event of the first packet fits, so that all of it stays
inside, and some event of the second does not. Twenty bytes are refused. -/
theorem contained_iff_note :
    let start := ({} : BufferReadHandler).setBuffer 4096 16
    let junk : Nat → ParseType := fun _ => .array
    (reading start).Meets (Contained 16) start (calls junk noteInItem.json.events) ∧
    start.parseEvents junk noteInItem.json.events ≠ .error .writeOutside ∧
    ¬ (reading start).Meets (Contained 16) start (calls junk noteBeforeBuffer.json.events) ∧
    ∃ ok b', start.objectBuffer.put (Bytes.zeros 20) 0 20 = .ok (ok, b') ∧ ok = false ∧
      b' = start.objectBuffer := by
  intro start junk
  have hs : (0 : Int32) ≤ 16 := by decide
  obtain ⟨hiff, hinside, hrefuses⟩ := contained_iff {} 4096 hs junk noteInItem.json.events
  obtain ⟨hiff', -⟩ := contained_iff {} 4096 hs junk noteBeforeBuffer.json.events
  have hfits : (reading start).Meets (fun h c => Fits 16 h c.2) start
      (calls junk noteInItem.json.events) := by decide +kernel
  refine ⟨hiff.2 hfits, hinside (hiff.2 hfits), fun hm => ?_, _, _, rfl, ?_⟩
  · exact absurd (hiff'.1 hm) (by decide +kernel)
  · exact hrefuses _ (Bytes.zeros 20) 0 20 _ _ (inRange_setBuffer {} 4096 hs) rfl (by decide)
      (by decide)

/-- The slot of the note starts four bytes before the buffer. -/
theorem not_contained : (({} : BufferReadHandler).setBuffer 4096 16).parseEvents (fun _ => .array)
    noteBeforeBuffer.json.events = .error .writeOutside := rfl

end JsonRpc
