import Mtc.Net.Proof.Wait

/-!
# Complete frames and `recive_str_NoWait`

`complete_read_iff`: once the next frame has arrived, `recive_str_NoWait` returns it exactly when
the input still holds more bytes than a header (`BevInfor.Sees`). The length check at the head of
the function does not know that the header may be cached: a payload of at most four bytes whose
header was read by an earlier call stays where it is (`not_complete_read`).
-/

namespace Net

open Except (ok_bind)
open Framing

/-! ## One call -/

/-- What a call returns: the payload `p` if it is seen, and otherwise nothing. -/
def Gives (seen : Prop) (p : Bytes) (size : Int32) (data : Bytes) : Prop :=
  (seen → size = Int32.ofSizeT p.length ∧ data.take p.length = p) ∧ (¬ seen → size = 0)

theorem gives_iff {seen : Prop} {p data : Bytes} {size : Int32} (hp : p ≠ [])
    (hlt : p.length < 2 ^ 31) (h : Gives seen p size data) :
    size = Int32.ofSizeT p.length ∧ data.take p.length = p ↔ seen := by
  refine ⟨fun hr => ?_, h.1⟩
  by_contra hn
  have hpos := (Int32.ofSizeT_pos_iff hlt).2 (List.length_pos_iff.2 hp)
  rw [← hr.1, h.2 hn] at hpos
  exact absurd hpos (by decide)

section
variable {info : BevInfor} {p data fut : Bytes} {rest : List Bytes}

theorem appendZeros_ofSizeT (hlt : p.length < 2 ^ 31) (data : Bytes) :
    LibeventHandle.appendZeros data (Int32.ofSizeT p.length) =
      .ok (data ++ Bytes.zeros p.length) := by
  have hn : ¬ Int32.ofSizeT p.length < 0 := by
    rw [Int32.lt_iff_toInt_lt, Int32.toInt_ofSizeT_of_lt hlt, Int32.toInt_zero]
    omega
  rw [LibeventHandle.appendZeros, if_neg hn, Int32.sizeT_ofSizeT_of_lt hlt]

/-- `readBuffer_NoWait` behind the header of `p`. -/
theorem readBufferNoWait_gives (hc : info.cacheBlock = true)
    (hs : rwWUnlock info.readSingal = 0) (hlt : p.length < 2 ^ 31)
    (hb : info.block = Int32.ofSizeT p.length)
    (hi : info.bev.input ++ fut = p ++ stream sized rest) (hd : p.length ≤ data.length) :
    ∃ size d info', info.readBufferNoWait data = .ok (size, d, info') ∧
      Gives (¬ Int32.ofSizeT info.bev.input.length < info.block) p size d := by
  by_cases hshort : Int32.ofSizeT info.bev.input.length < info.block
  · exact ⟨0, data, _, BevInfor.readBufferNoWait_short hc hs hshort, fun h => absurd hshort h,
      fun _ => rfl⟩
  · obtain ⟨t, hin, -⟩ := input_full hlt hb hi hshort
    have hw : Bytes.writeAt data 0 p = some (p ++ data.drop p.length) := by
      simp [Bytes.writeAt, hd]
    refine ⟨Int32.ofSizeT p.length, p ++ data.drop p.length, { info with
      bev := { info.bev with input := t, readLow := 0 }
      cacheBlock := false
      readSingal := 0 }, ?_, fun _ => ⟨rfl, by simp⟩, fun h => absurd hshort h⟩
    rw [hb, hin] at hshort
    simp only [BevInfor.readBufferNoWait, hc, hb, hin, hs, hshort, Bufferevent.read,
      Int32.sizeT_ofSizeT_of_lt hlt, List.take_left, List.drop_left, hw]
    rfl

/-- `recive_str_NoWait` past its length check, behind the header of `p`. -/
theorem reciveInto_cached (hc : info.cacheBlock = true)
    (hs : rwWUnlock info.readSingal = 0) (hlt : p.length < 2 ^ 31)
    (hb : info.block = Int32.ofSizeT p.length)
    (hi : info.bev.input ++ fut = p ++ stream sized rest) (data : Bytes) :
    ∃ size d info', info.reciveInto data = .ok (size, d, info') ∧
      Gives (¬ Int32.ofSizeT info.bev.input.length < info.block) p size d := by
  have hsize : info.block.sizeT = p.length := by rw [hb, Int32.sizeT_ofSizeT_of_lt hlt]
  simp only [BevInfor.reciveInto, hc, if_true, ok_bind, hsize]
  -- the string is made long enough for the payload
  split_ifs with hle
  · have happ := appendZeros_ofSizeT hlt data
    rw [← hb] at happ
    rw [happ]
    exact readBufferNoWait_gives hc hs hlt hb hi (by simp)
  · exact readBufferNoWait_gives hc hs hlt hb hi (by omega)

/-- The header is read first. -/
theorem reciveInto_of_header {x : UInt32} {t : Bytes} (hc : info.cacheBlock = false)
    (hs : info.readSingal = 0) (hi : info.bev.input = Bytes.le32 x ++ t)
    (hl : sizeofBlock ≤ (Int32.ofSizeT info.bev.input.length).sizeT) (data : Bytes) :
    info.reciveInto data =
      (info.blockRead { info.bev with input := t } x.toInt32 (-1)).reciveInto data := by
  simp only [BevInfor.reciveInto, hc, BevInfor.readBufferControlBlockNoWait_eq hs hi hl, ok_bind]
  rfl

/-- The length check is passed. -/
theorem reciveInto_gives (hs : info.readSingal = 0) (hlt : p.length < 2 ^ 31)
    (hl : ¬ (Int32.ofSizeT info.bev.input.length).sizeT ≤ sizeofBlock)
    (hp : info.rx.pending ++ fut = stream sized (p :: rest)) (data : Bytes) :
    ∃ size d info', info.reciveInto data = .ok (size, d, info') ∧
      Gives (info.Sees p) p size d := by
  have hguard : sizeofBlock < info.bev.input.length % 2 ^ 32 := by
    rwa [Int32.sizeT_ofSizeT_le_iff (by decide), Nat.not_le] at hl
  cases hc : info.cacheBlock with
  | true =>
    obtain ⟨p', rest', he, hb, hi⟩ := pending_cached hc hp
    obtain ⟨rfl, rfl⟩ := List.cons.inj he
    have hseen : info.Sees p ↔ ¬ Int32.ofSizeT info.bev.input.length < info.block := by
      rw [hb, Int32.not_ofSizeT_lt_iff hlt]
      simp only [BevInfor.Sees, hc, if_true]
      exact and_iff_right hguard
    rw [hseen]
    exact reciveInto_cached hc (by rw [hs]; decide) hlt hb hi data
  | false =>
    have hl4 : sizeofBlock ≤ (Int32.ofSizeT info.bev.input.length).sizeT := by omega
    obtain ⟨x, t, hi⟩ := Bytes.exists_le32 info.bev.input (four_le_of_sizeT hl4)
    rw [← pending_header hc hi (-1)] at hp
    obtain ⟨p', rest', he, hb, hi₁⟩ := pending_cached rfl hp
    obtain ⟨rfl, rfl⟩ := List.cons.inj he
    have hx : x.toInt32 = Int32.ofSizeT p.length := hb
    have hseen : info.Sees p ↔ ¬ Int32.ofSizeT t.length < x.toInt32 := by
      rw [hx, Int32.not_ofSizeT_lt_iff hlt]
      have ht : info.bev.input.length - sizeofBlock = t.length := by
        rw [hi, List.length_append, Bytes.length_le32, sizeofBlock, Nat.add_sub_cancel_left]
      simp only [BevInfor.Sees, hc, Bool.false_eq_true, if_false, ht]
      exact and_iff_right hguard
    rw [hseen, reciveInto_of_header hc hs hi hl4]
    exact reciveInto_cached rfl (by show rwWUnlock (-1) = 0; decide) hlt hb hi₁ data

/-- **What one call of `recive_str_NoWait` returns**, with `p` as the next payload. -/
theorem LibeventHandle.Ready.reciveStrNoWait_gives {lib : LibeventHandle} {id : Int32}
    (h : lib.Ready id info) (hlt : p.length < 2 ^ 31)
    (hp : info.rx.pending ++ fut = stream sized (p :: rest)) (bufferStr : Bytes) :
    ∃ size d lib', lib.reciveStrNoWait id bufferStr = .ok (size, d, lib') ∧
      Gives (info.Sees p) p size d := by
  rw [h.reciveStrNoWait_str]
  split_ifs with hl
  · have hseen : ¬ info.Sees p := by
      rw [Int32.sizeT_ofSizeT_le_iff (by decide)] at hl
      exact fun hsees => Nat.not_lt.2 hl hsees.1
    exact ⟨0, bufferStr, lib, rfl, fun h => absurd h hseen, fun _ => rfl⟩
  · obtain ⟨size, d, info', hr, hg⟩ := reciveInto_gives h.readSingal hlt hl hp bufferStr
    rw [hr]
    exact ⟨size, d, _, rfl, hg⟩

/-- With nothing to come and nothing there, the call returns 0. -/
theorem LibeventHandle.Ready.reciveStrNoWait_nil {lib : LibeventHandle} {id : Int32}
    (h : lib.Ready id info) (hp : info.rx.pending = []) (bufferStr : Bytes) :
    lib.reciveStrNoWait id bufferStr = .ok (0, bufferStr, lib) := by
  have hin : info.bev.input = [] := (List.append_eq_nil_iff.1 hp).2
  rw [h.reciveStrNoWait_str, hin]
  rfl

end

/-! ## Runs of arrivals and calls -/

section
variable {id : Int32} {payloads rest : List Bytes} {fut : Bytes} {s : Line} {info : BevInfor}

theorem Tracks.ready (ht : Tracks id payloads fut s info rest) (hfree : s.phase = .free) :
    s.lib.Ready id info := by
  have hphase := ht.phase
  rw [hfree] at hphase
  exact ⟨ht.singal, ht.found, hphase⟩

/-- Every call returns. -/
theorem Tracks.reciveStrNoWait_ok (hpay : ∀ p ∈ payloads, p ≠ [] ∧ p.length < 2 ^ 31)
    (ht : Tracks id payloads fut s info rest) (hfree : s.phase = .free) (bufferStr : Bytes) :
    ∃ size d lib', s.lib.reciveStrNoWait id bufferStr = .ok (size, d, lib') := by
  have hr := ht.ready hfree
  cases rest with
  | nil =>
    have hp := (List.append_eq_nil_iff.1 ht.pending).1
    exact ⟨_, _, _, hr.reciveStrNoWait_nil hp bufferStr⟩
  | cons p rest =>
    have hlt := (hpay p (by rw [ht.split]; simp)).2
    obtain ⟨size, d, lib', h, -⟩ := hr.reciveStrNoWait_gives hlt ht.pending bufferStr
    exact ⟨size, d, lib', h⟩

theorem Tracks.next_noWait (hpay : ∀ p ∈ payloads, p ≠ [] ∧ p.length < 2 ^ 31) {op : LineOp}
    (hop : op.NoWait) (ht : Tracks id payloads fut s info rest) (hfree : s.phase = .free) :
    ∃ s', Line.next id s op = some s' ∧ s'.phase = .free := by
  cases op with
  | arrive bytes =>
    refine ⟨s.putInfo id
      { info with bev := { info.bev with input := info.bev.input ++ bytes } } s.phase, ?_, hfree⟩
    simp only [Line.next, Line.arrive, ht.found, orFault, ok_bind]
    rfl
  | reciveStrNoWait bufferStr =>
    obtain ⟨size, d, lib', h⟩ := ht.reciveStrNoWait_ok hpay hfree bufferStr
    exact ⟨s.answer lib' size d, by simp only [Line.next, if_pos hfree, h], rfl⟩
  | startWait buffer => exact absurd hop not_false
  | poll => exact absurd hop not_false

/-- Every run of arrivals and calls goes through and stays in step with the frames. -/
theorem Tracks.run_noWait (hpay : ∀ p ∈ payloads, p ≠ [] ∧ p.length < 2 ^ 31)
    (lib : LibeventHandle) : ∀ {ops : List LineOp} {s : Line} {info : BevInfor}
      {rest : List Bytes}, (∀ op ∈ ops, op.NoWait) →
      Tracks id payloads (LineOp.arrivals ops ++ fut) s info rest → s.phase = .free →
      ∃ s' info' rest', (line id lib).runFrom s ops = some s' ∧
        Tracks id payloads fut s' info' rest' ∧ s'.phase = .free
  | [], s, info, rest, _, ht, hfree => ⟨s, info, rest, rfl, ht, hfree⟩
  | op :: ops, s, info, rest, hops, ht, hfree => by
    have hop := hops op List.mem_cons_self
    rw [LineOp.arrivals_cons, List.append_assoc] at ht
    obtain ⟨s₁, hs₁, hfree₁⟩ := ht.next_noWait hpay hop hfree
    have hun : Uncached id s op := by
      cases op with
      | startWait buffer => exact absurd hop not_false
      | arrive | reciveStrNoWait | poll => trivial
    obtain ⟨info₁, rest₁, ht₁⟩ := ht.next hpay hun hs₁
    obtain ⟨s', info', rest', hrun, ht', hfree'⟩ :=
      Tracks.run_noWait hpay lib (fun op h => hops op (List.mem_cons_of_mem _ h)) ht₁ hfree₁
    refine ⟨s', info', rest', ?_, ht', hfree'⟩
    rw [System.runFrom]
    show (Line.next id s op).bind _ = _
    rw [hs₁]
    exact hrun

end

/-- **When a complete frame is readable.** Payloads are sent, and their bytes arrive in any pieces
between any calls of `recive_str_NoWait`. Once the next frame has arrived, a call returns its
payload and length exactly if it sees the payload. -/
theorem complete_read_iff {sender lib : LibeventHandle} {sid id : Int32} {out info : BevInfor}
    {block : Int32} {readLow : Nat} (hsender : sender.SendReady) (hsid : ¬ sid < 0)
    (hout : sender.bevMap.findKey sid = some out) (hnothing : out.bev.output = [])
    (hready : lib.Ready id info) (hnew : info.rx = ⟨[], readLow, block, false⟩)
    {payloads : List Bytes} (hpay : ∀ p ∈ payloads, p ≠ [] ∧ p.length < 2 ^ 31) :
    ∃ sender' out', sender.sendAll sid payloads = .ok sender' ∧
      sender'.bevMap.findKey sid = some out' ∧
      ∀ ops, LineOp.arrivals ops <+: out'.bev.output → (∀ op ∈ ops, op.NoWait) →
        ∃ s info', (line id lib).run ops = some s ∧ s.lib.bevMap.findKey id = some info' ∧
          s.returned <+: payloads ∧
          ∀ p rest, payloads = s.returned ++ p :: rest →
            stream sized (s.returned ++ [p]) <+: LineOp.arrivals ops →
            ∀ bufferStr, (∃ data lib', s.lib.reciveStrNoWait id bufferStr =
                .ok (Int32.ofSizeT p.length, data, lib') ∧ data.take p.length = p) ↔
              info'.Sees p := by
  obtain ⟨sender', out', hsent, hout', hstream⟩ :=
    hsender.sendAll hsid hout fun p hp => (hpay p hp).2
  refine ⟨sender', out', hsent, hout', fun ops harr hops => ?_⟩
  obtain ⟨fut, hfut⟩ := harr
  rw [hstream, hnothing, List.nil_append] at hfut
  have ht : Tracks id payloads (LineOp.arrivals ops ++ fut) { lib := lib } info payloads := by
    refine ⟨hready.singal, hready.found, rfl, ?_, hready.readSingal⟩
    rw [hnew]
    exact hfut
  obtain ⟨s, info', rest', hrun, ht', hfree⟩ := Tracks.run_noWait hpay lib hops ht rfl
  refine ⟨s, info', hrun, ht'.found, ⟨rest', ht'.split.symm⟩, fun p rest hp _ bufferStr => ?_⟩
  have hrest : rest' = p :: rest := List.append_cancel_left (ht'.split.symm.trans hp)
  obtain ⟨hne, hlt⟩ := hpay p (by rw [hp]; simp)
  have hpend := ht'.pending
  rw [hrest] at hpend
  obtain ⟨size, d, lib', hcall, hg⟩ := (ht'.ready hfree).reciveStrNoWait_gives hlt hpend bufferStr
  rw [← gives_iff hne hlt hg, hcall]
  constructor
  · rintro ⟨data, lib'', he, hdata⟩
    cases he
    exact ⟨rfl, hdata⟩
  · rintro ⟨rfl, hdata⟩
    exact ⟨d, lib', rfl, hdata⟩

/-- A payload of five bytes arrives in pieces, and is returned by the second call. Behind it all of
a short one is there, which the next call sees and returns. -/
theorem complete_read_two :
    let ops : List LineOp := [.arrive [5, 0, 0, 0, 1, 2], .reciveStrNoWait [],
      .arrive [3, 4, 5, 1, 0], .reciveStrNoWait [], .arrive [0, 0, 7]]
    ∃ s info', (line 0 oneRecord).run ops = some s ∧ s.lib.bevMap.findKey 0 = some info' ∧
      s.returned = [[1, 2, 3, 4, 5]] ∧ info'.Sees [7] ∧
      ∃ data lib', s.lib.reciveStrNoWait 0 [] = .ok (1, data, lib') ∧ data.take 1 = [7] := by
  intro ops
  have hpay : ∀ p ∈ [[1, 2, 3, 4, (5 : UInt8)], [7]], p ≠ [] ∧ p.length < 2 ^ 31 := by decide
  obtain ⟨sender', out', hsent, hout', hall⟩ :=
    complete_read_iff oneRecord_sendReady zero_not_neg rfl rfl oneRecord_ready rfl hpay
  have hsends : (oneRecord.sendAll 0 [[1, 2, 3, 4, 5], [7]]).toOption.bind
      (fun lib => (lib.bevMap.findKey 0).map (·.bev.output)) = some (LineOp.arrivals ops) := by
    decide
  rw [hsent, Except.toOption, Option.bind_some, hout', Option.map_some, Option.some_inj] at hsends
  obtain ⟨s, info', hrun, hinfo, -, hreads⟩ :=
    hall ops (hsends ▸ List.prefix_refl _) (by decide)
  have hend : ((line 0 oneRecord).run ops).bind (fun s => (s.lib.bevMap.findKey 0).map fun info =>
      (s.returned, decide (info.Sees [7]))) = some ([[1, 2, 3, 4, 5]], true) := by
    decide
  rw [hrun, Option.bind_some, hinfo, Option.map_some, Option.some_inj, Prod.mk.injEq,
    decide_eq_true_iff] at hend
  obtain ⟨hreturned, hsees⟩ := hend
  have hread := (hreads [7] [] (by rw [hreturned]; rfl) (by rw [hreturned]; decide) []).2 hsees
  exact ⟨s, info', hrun, hinfo, hreturned, hsees, hread⟩

/-- The first call caches the header of a payload of two bytes. When both bytes are there, the next
call returns 0. -/
theorem not_complete_read :
    let ops : List LineOp := [.arrive [2, 0, 0, 0, 8], .reciveStrNoWait [], .arrive [9]]
    (oneRecord.sendAll 0 [[8, 9]]).toOption.bind
        (fun lib => (lib.bevMap.findKey 0).map (·.bev.output)) = some (LineOp.arrivals ops) ∧
      ((line 0 oneRecord).run ops).map Line.returned = some [] ∧
      (((line 0 oneRecord).run ops).bind fun s => (s.lib.reciveStrNoWait 0 []).toOption).map
        (·.1) = some 0 := by
  refine ⟨by decide, by decide, by decide⟩

end Net
