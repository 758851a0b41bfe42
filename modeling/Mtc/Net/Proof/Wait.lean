import Mtc.Net.Proof.Send
import Mtc.Net.Wait

/-!
# Blocking and non-blocking receives on one connection

A connection stays in step with the frames sent (`Tracks`) as long as no blocking call starts with a
cached header: `readBufferControlBlock_Wait` would read the next header from the payload that the
cached one announces.
-/

namespace Net

open Except (ok_bind bind_eq_ok toOption_eq_some)
open Framing

/-! ## Sending -/

theorem LibeventHandle.SendReady.sendAll {id : Int32} (hneg : ¬ id < 0) :
    ∀ {payloads : List Bytes} {lib : LibeventHandle} {info : BevInfor}, lib.SendReady →
      lib.bevMap.findKey id = some info → (∀ p ∈ payloads, p.length < 2 ^ 31) →
      ∃ lib' info', lib.sendAll id payloads = .ok lib' ∧ lib'.bevMap.findKey id = some info' ∧
        info'.bev.output = info.bev.output ++ stream sized payloads
  | [], lib, info, _, hinfo, _ => ⟨lib, info, rfl, hinfo, (List.append_nil _).symm⟩
  | p :: payloads, lib, info, hl, hinfo, hlt => by
    obtain ⟨info₁, hsend, hl₁, hout, -⟩ := hl.send_found hneg hinfo (n := p.length) rfl
      (hlt p (List.mem_cons_self ..))
    obtain ⟨lib', info', hall, hinfo', hout'⟩ := SendReady.sendAll hneg hl₁
      (AssocMap.findKey_put_self hinfo info₁) fun q hq => hlt q (List.mem_cons_of_mem p hq)
    refine ⟨lib', info', ?_, hinfo', ?_⟩
    · rw [Int32.toInt32_ofNat] at hsend
      simp only [LibeventHandle.sendAll, hsend, ok_bind]
      exact hall
    · rw [hout', hout, stream_cons, sized, List.append_assoc]

/-! ## Where a connection is in the stream -/

section
variable {info : BevInfor} {fut : Bytes} {rest : List Bytes}

/-- A cached header is that of the next payload. -/
theorem pending_cached (hc : info.cacheBlock = true)
    (hp : info.rx.pending ++ fut = stream sized rest) :
    ∃ p rest', rest = p :: rest' ∧ info.block = Int32.ofSizeT p.length ∧
      info.bev.input ++ fut = p ++ stream sized rest' := by
  simp only [Rx.pending, BevInfor.rx, hc, if_true, List.append_assoc] at hp
  cases rest with
  | nil => simp [Bytes.le32] at hp
  | cons p rest' =>
    rw [stream_cons, sized, List.append_assoc] at hp
    obtain ⟨hb, hi⟩ := Bytes.le32_append_inj hp
    refine ⟨p, rest', rfl, ?_, hi⟩
    rw [← Int32.toInt32_ofNat, ← hb]
    rfl

/-- Reading the header leaves what is pending. -/
theorem pending_header {x : UInt32} {t : Bytes} (hc : info.cacheBlock = false)
    (hi : info.bev.input = Bytes.le32 x ++ t) (singal : Int32) :
    (info.blockRead { info.bev with input := t } x.toInt32 singal).rx.pending =
      info.rx.pending := by
  simp only [BevInfor.rx, Rx.pending, hc, hi]
  rfl

/-- With a length of at least the block there is a whole payload in the input. -/
theorem input_full {p : Bytes} {rest' : List Bytes} (hlt : p.length < 2 ^ 31)
    (hb : info.block = Int32.ofSizeT p.length)
    (hi : info.bev.input ++ fut = p ++ stream sized rest')
    (hfull : ¬ Int32.ofSizeT info.bev.input.length < info.block) :
    ∃ t, info.bev.input = p ++ t ∧ t ++ fut = stream sized rest' := by
  have hle : p.length ≤ info.bev.input.length := by
    rw [hb, Int32.lt_iff_toInt_lt, Int32.toInt_ofSizeT_of_lt hlt] at hfull
    have := Int32.toInt_ofSizeT_le (n := info.bev.input.length) (by omega)
    omega
  exact append_split hi hle

/-- A length of at least four, as a `size_t` made from an `int`, is one. -/
theorem four_le_of_sizeT {n : Nat} (h : 4 ≤ (Int32.ofSizeT n).sizeT) : 4 ≤ n := by
  by_contra hn
  rw [Int32.sizeT_ofSizeT_of_lt (by omega)] at h
  omega

/-- A payload that is read is the next one, at the start of the buffer. -/
theorem read_payload (bev : Bufferevent) {p t data data' : Bytes} (hi : bev.input = p ++ t)
    (hlt : p.length < 2 ^ 31)
    (hw : Bytes.writeAt data 0 (bev.read (Int32.ofSizeT p.length).sizeT).1 = some data') :
    bev.read (Int32.ofSizeT p.length).sizeT = (p, { bev with input := t }) ∧
      data'.take p.length = p := by
  have hr : bev.read (Int32.ofSizeT p.length).sizeT = (p, { bev with input := t }) := by
    rw [Bufferevent.read, hi, Int32.sizeT_ofSizeT_of_lt hlt, List.take_left, List.drop_left]
  rw [hr] at hw
  refine ⟨hr, ?_⟩
  unfold Bytes.writeAt at hw
  split_ifs at hw
  cases hw
  simp

end

/-! ## One call -/

section
variable {info info' : BevInfor} {fut : Bytes} {rest : List Bytes} {data data' : Bytes}
  {size : Int32}

/-- What a call that returns has done: nothing was taken, or the next payload. -/
def Took (rest : List Bytes) (fut : Bytes) (info' : BevInfor) (size : Int32) (data : Bytes) :
    Prop :=
  ¬ size > 0 ∧ info'.rx.pending ++ fut = stream sized rest ∨
  size > 0 ∧ ∃ rest', rest = data.take size.sizeT :: rest' ∧
    info'.rx.pending ++ fut = stream sized rest'

theorem took_payload {p : Bytes} {rest' : List Bytes} (hp : p ≠ []) (hlt : p.length < 2 ^ 31)
    (hdata : data.take p.length = p) (hpend : info'.rx.pending ++ fut = stream sized rest') :
    Took (p :: rest') fut info' (Int32.ofSizeT p.length) data := by
  refine Or.inr ⟨(Int32.ofSizeT_pos_iff hlt).2 (List.length_pos_iff.2 hp), rest', ?_, hpend⟩
  rw [Int32.sizeT_ofSizeT_of_lt hlt, hdata]

/-- `readBuffer_NoWait` behind a cached header. -/
theorem readBufferNoWait_took (hc : info.cacheBlock = true)
    (hs : rwWUnlock info.readSingal = 0) (hp : info.rx.pending ++ fut = stream sized rest)
    (hrest : ∀ p ∈ rest, p ≠ [] ∧ p.length < 2 ^ 31)
    (h : info.readBufferNoWait data = .ok (size, data', info')) :
    info'.readSingal = 0 ∧ Took rest fut info' size data' := by
  obtain ⟨p, rest', rfl, hb, hi⟩ := pending_cached hc hp
  obtain ⟨hne, hlt⟩ := hrest p (List.mem_cons_self ..)
  by_cases hshort : Int32.ofSizeT info.bev.input.length < info.block
  · cases (BevInfor.readBufferNoWait_short hc hs hshort).symm.trans h
    refine ⟨rfl, Or.inl ⟨by decide, ?_⟩⟩
    simpa only [Rx.pending, BevInfor.rx, hc] using hp
  · obtain ⟨t, hin, ht⟩ := input_full hlt hb hi hshort
    rw [hb] at hshort
    simp only [BevInfor.readBufferNoWait, hc, hb, Bool.not_true, Bool.false_eq_true, if_false,
      if_neg hshort] at h
    obtain ⟨d, hd, h⟩ := bind_eq_ok.1 h
    obtain ⟨hr, htake⟩ := read_payload { info.bev with readLow := 0 } hin hlt
      (orFault_eq_ok hd)
    rw [hr] at h
    cases h
    refine ⟨hs, took_payload hne hlt htake ?_⟩
    simpa only [Rx.pending, BevInfor.rx, Bool.false_eq_true, if_false, List.nil_append] using ht

/-- `readBuffer_Wait` behind a cached header. -/
theorem readBufferWait_took (hc : info.cacheBlock = true)
    (hs : rwWUnlock info.readSingal = 0) (hp : info.rx.pending ++ fut = stream sized rest)
    (hrest : ∀ p ∈ rest, p ≠ [] ∧ p.length < 2 ^ 31)
    (h : info.readBufferWait data = .ok (some (size, data', info'))) :
    info'.readSingal = 0 ∧ Took rest fut info' size data' := by
  obtain ⟨p, rest', rfl, hb, hi⟩ := pending_cached hc hp
  obtain ⟨hne, hlt⟩ := hrest p (List.mem_cons_self ..)
  by_cases hshort : Int32.ofSizeT info.bev.input.length < info.block
  · simp only [BevInfor.readBufferWait, hc, Bool.not_true, Bool.false_eq_true, if_false,
      if_pos hshort] at h
    cases h
  · obtain ⟨t, hin, ht⟩ := input_full hlt hb hi hshort
    rw [hb] at hshort
    simp only [BevInfor.readBufferWait, hc, hb, Bool.not_true, Bool.false_eq_true, if_false,
      if_neg hshort] at h
    obtain ⟨d, hd, h⟩ := bind_eq_ok.1 h
    obtain ⟨hr, htake⟩ := read_payload info.bev hin hlt (orFault_eq_ok hd)
    rw [hr] at h
    cases h
    refine ⟨hs, took_payload hne hlt htake ?_⟩
    simpa only [Rx.pending, BevInfor.rx, Bool.false_eq_true, if_false, List.nil_append] using ht

/-- Whatever the string is, `readBuffer_NoWait` fills some buffer. -/
theorem exists_readBufferNoWait (info : BevInfor) {r : Int32 × Bytes × BevInfor}
    (h : (if data.length ≤ info.block.sizeT then
        LibeventHandle.appendZeros data info.block >>= fun d => info.readBufferNoWait d
      else info.readBufferNoWait data) = .ok r) : ∃ d, info.readBufferNoWait d = .ok r := by
  split_ifs at h
  · obtain ⟨d, -, h⟩ := bind_eq_ok.1 h
    exact ⟨d, h⟩
  · exact ⟨data, h⟩

/-- `recive_str_NoWait` past its length check. -/
theorem reciveInto_took (hs : info.readSingal = 0)
    (hl : ¬ (Int32.ofSizeT info.bev.input.length).sizeT ≤ sizeofBlock)
    (hp : info.rx.pending ++ fut = stream sized rest)
    (hrest : ∀ p ∈ rest, p ≠ [] ∧ p.length < 2 ^ 31)
    (h : info.reciveInto data = .ok (size, data', info')) :
    info'.readSingal = 0 ∧ Took rest fut info' size data' := by
  cases hc : info.cacheBlock with
  | true =>
    simp only [BevInfor.reciveInto, hc, if_true, ok_bind] at h
    obtain ⟨d, h⟩ := exists_readBufferNoWait info h
    exact readBufferNoWait_took hc (by rw [hs]; decide) hp hrest h
  | false =>
    have hl4 : sizeofBlock ≤ (Int32.ofSizeT info.bev.input.length).sizeT := by omega
    obtain ⟨x, t, hi⟩ := Bytes.exists_le32 info.bev.input (four_le_of_sizeT hl4)
    simp only [BevInfor.reciveInto, hc, Bool.false_eq_true, if_false,
      BevInfor.readBufferControlBlockNoWait_eq hs hi hl4, ok_bind] at h
    obtain ⟨d, h⟩ :=
      exists_readBufferNoWait (info.blockRead { info.bev with input := t } x.toInt32 (-1)) h
    refine readBufferNoWait_took rfl (by show rwWUnlock (-1) = 0; decide) ?_ hrest h
    rw [pending_header hc hi]
    exact hp

/-- The header that `readBufferControlBlock_Wait` reads is the next one. -/
theorem readBufferControlBlockWait_eq (hc : info.cacheBlock = false)
    (h : info.readBufferControlBlockWait = .ok (some (size, info'))) :
    info'.cacheBlock = true ∧ info'.readSingal = info.readSingal ∧
      info'.rx.pending = info.rx.pending := by
  unfold BevInfor.readBufferControlBlockWait at h
  dsimp only at h
  split_ifs at h with hl
  · cases h
  · obtain ⟨x, t, hi⟩ := Bytes.exists_le32 info.bev.input
      (four_le_of_sizeT (by rw [sizeofBlock] at hl; omega))
    obtain ⟨b, hb, h⟩ := bind_eq_ok.1 h
    have hr : info.bev.read sizeofBlock = (Bytes.le32 x, { info.bev with input := t }) := by
      rw [Bufferevent.read, hi]
      rfl
    rw [hr] at h hb
    have hx : b = x := by
      have := orFault_eq_ok hb
      rw [Bytes.getLe32_le32] at this
      exact (Option.some_inj.1 this).symm
    cases h
    refine ⟨rfl, rfl, ?_⟩
    rw [hx]
    exact pending_header hc hi _

end

/-! ## Runs -/

/-- The record of the connection in each phase of a call. -/
def InPhase (info : BevInfor) : Phase → Prop
  | .free => info.readSingal = 0
  | .block _ => info.cacheBlock = false ∧ rwWUnlock info.readSingal = 0
  | .body _ => info.cacheBlock = true ∧ rwWUnlock info.readSingal = 0

/-- The payloads returned are the first ones, and what is pending with what is still to come are
the frames of the others. -/
structure Tracks (id : Int32) (payloads : List Bytes) (fut : Bytes) (s : Line) (info : BevInfor)
    (rest : List Bytes) : Prop where
  singal : s.lib.bevMapRwLockSingal = 0
  found : s.lib.bevMap.findKey id = some info
  split : payloads = s.returned ++ rest
  pending : info.rx.pending ++ fut = stream sized rest
  phase : InPhase info s.phase

section
variable {id : Int32} {payloads rest : List Bytes} {fut : Bytes} {s s' : Line} {info : BevInfor}

/-- A call has returned. -/
theorem Tracks.answer {fut' : Bytes} {info' : BevInfor} {lib : LibeventHandle} {size : Int32}
    {data : Bytes} (ht : Tracks id payloads fut' s info rest) (hl : lib.bevMapRwLockSingal = 0)
    (hf : lib.bevMap.findKey id = some info') (hs : info'.readSingal = 0)
    (htook : Took rest fut info' size data) :
    ∃ rest', Tracks id payloads fut (s.answer lib size data) info' rest' := by
  obtain ⟨hz, hp⟩ | ⟨hpos, rest', rfl, hp⟩ := htook
  · refine ⟨rest, hl, hf, ?_, hp, hs⟩
    rw [Line.answer, if_neg hz]
    exact ht.split
  · refine ⟨rest', hl, hf, ?_, hp, hs⟩
    rw [Line.answer, if_pos hpos, ht.split]
    simp

theorem Tracks.arrive {bytes : Bytes} (ht : Tracks id payloads (bytes ++ fut) s info rest)
    (h : s.arrive id bytes = .ok s') : ∃ info' rest', Tracks id payloads fut s' info' rest' := by
  simp only [Line.arrive, ht.found, orFault, ok_bind] at h
  cases h
  refine ⟨_, rest, ht.singal, AssocMap.findKey_put_self ht.found _, ht.split, ?_, ?_⟩
  · have hp := ht.pending
    simp only [Rx.pending, BevInfor.rx, List.append_assoc] at hp ⊢
    exact hp
  · have hphase := ht.phase
    cases hp : s.phase with
    | free => rw [hp] at hphase; exact hphase
    | block buffer => rw [hp] at hphase; exact hphase
    | body data => rw [hp] at hphase; exact hphase

theorem Tracks.reciveStrNoWait (hpay : ∀ p ∈ payloads, p ≠ [] ∧ p.length < 2 ^ 31)
    (ht : Tracks id payloads fut s info rest) (hfree : s.phase = .free) {bufferStr data : Bytes}
    {size : Int32} {lib : LibeventHandle}
    (h : s.lib.reciveStrNoWait id bufferStr = .ok (size, data, lib)) :
    ∃ info' rest', Tracks id payloads fut (s.answer lib size data) info' rest' := by
  have hs : info.readSingal = 0 := by
    have hphase := ht.phase
    rwa [hfree] at hphase
  have hrest : ∀ p ∈ rest, p ≠ [] ∧ p.length < 2 ^ 31 := fun p hp =>
    hpay p (by rw [ht.split]; exact List.mem_append_right _ hp)
  rw [LibeventHandle.Ready.reciveStrNoWait_str ⟨ht.singal, ht.found, hs⟩] at h
  split_ifs at h with hl
  · cases h
    exact ⟨info, ht.answer ht.singal ht.found hs (Or.inl ⟨by decide, ht.pending⟩)⟩
  · obtain ⟨⟨size', data', info'⟩, hrec, h⟩ := bind_eq_ok.1 h
    cases h
    obtain ⟨hs', htook⟩ := reciveInto_took hs hl ht.pending hrest hrec
    exact ⟨info', ht.answer ht.singal (AssocMap.findKey_put_self ht.found info') hs' htook⟩

theorem Tracks.startWait {buffer : WaitBuffer} (ht : Tracks id payloads fut s info rest)
    (hfree : s.phase = .free) (hc : info.cacheBlock ≠ true)
    (h : s.startWait id buffer = .ok s') :
    ∃ info' rest', Tracks id payloads fut s' info' rest' := by
  have hs : info.readSingal = 0 := by
    have hphase := ht.phase
    rwa [hfree] at hphase
  simp only [Line.startWait, LibeventHandle.rLockMap_eq ht.singal, ok_bind, ht.found,
    LibeventHandle.rUnlockMap_eq ht.singal, hs, rwWLock_zero] at h
  cases h
  refine ⟨_, rest, ht.singal, AssocMap.findKey_put_self ht.found _, ht.split, ht.pending, ?_, ?_⟩
  · simpa using hc
  · show rwWUnlock (-1) = 0
    decide

theorem Tracks.poll (hpay : ∀ p ∈ payloads, p ≠ [] ∧ p.length < 2 ^ 31)
    (ht : Tracks id payloads fut s info rest) (h : s.poll id = .ok s') :
    ∃ info' rest', Tracks id payloads fut s' info' rest' := by
  have hrest : ∀ p ∈ rest, p ≠ [] ∧ p.length < 2 ^ 31 := fun p hp =>
    hpay p (by rw [ht.split]; exact List.mem_append_right _ hp)
  have hphase := ht.phase
  simp only [Line.poll, ht.found, orFault, ok_bind] at h
  cases hp : s.phase with
  | free =>
    simp only [hp] at h
    cases h
    exact ⟨info, rest, ht⟩
  | block buffer =>
    rw [hp] at hphase
    simp only [hp] at h
    obtain ⟨x, hx, h⟩ := bind_eq_ok.1 h
    cases x with
    | none =>
      cases h
      exact ⟨info, rest, ht⟩
    | some x =>
      obtain ⟨data, -, h⟩ := bind_eq_ok.1 h
      cases h
      obtain ⟨hc, hs, hpend⟩ := readBufferControlBlockWait_eq hphase.1 hx
      refine ⟨_, rest, ht.singal, AssocMap.findKey_put_self ht.found _, ht.split, ?_, hc, ?_⟩
      · rw [hpend]
        exact ht.pending
      · rw [hs]
        exact hphase.2
  | body data =>
    rw [hp] at hphase
    simp only [hp] at h
    obtain ⟨x, hx, h⟩ := bind_eq_ok.1 h
    cases x with
    | none =>
      cases h
      exact ⟨info, rest, ht⟩
    | some x =>
      obtain ⟨size, data', info'⟩ := x
      cases h
      obtain ⟨hs, htook⟩ := readBufferWait_took hphase.1 hphase.2 ht.pending hrest hx
      exact ⟨info', ht.answer ht.singal (AssocMap.findKey_put_self ht.found info') hs htook⟩

/-- **One step keeps the connection in step**, unless a blocking call starts with a cached
header. -/
theorem Tracks.next (hpay : ∀ p ∈ payloads, p ≠ [] ∧ p.length < 2 ^ 31) {op : LineOp}
    (ht : Tracks id payloads (LineOp.arrivals [op] ++ fut) s info rest) (hc : Uncached id s op)
    (h : Line.next id s op = some s') : ∃ info' rest', Tracks id payloads fut s' info' rest' := by
  cases op with
  | arrive bytes =>
    rw [show LineOp.arrivals [.arrive bytes] = bytes from List.append_nil bytes] at ht
    exact ht.arrive (toOption_eq_some h)
  | reciveStrNoWait bufferStr =>
    simp only [Line.next] at h
    split_ifs at h with hfree
    split at h
    · rename_i size data lib hrec
      cases h
      exact Tracks.reciveStrNoWait hpay ht hfree hrec
    · cases h
  | startWait buffer =>
    simp only [Line.next] at h
    split_ifs at h with hfree
    refine Tracks.startWait ht hfree (fun hcache => hc ?_) (toOption_eq_some h)
    rw [ht.found, Option.map_some, hcache]
  | poll => exact Tracks.poll hpay ht (toOption_eq_some h)

theorem LineOp.arrivals_cons (op : LineOp) (ops : List LineOp) :
    LineOp.arrivals (op :: ops) = LineOp.arrivals [op] ++ LineOp.arrivals ops := by
  simp [LineOp.arrivals]

theorem Tracks.runFrom (hpay : ∀ p ∈ payloads, p ≠ [] ∧ p.length < 2 ^ 31)
    (lib : LibeventHandle) : ∀ {ops : List LineOp} {s s' : Line} {info : BevInfor}
      {rest : List Bytes}, Tracks id payloads (LineOp.arrivals ops ++ fut) s info rest →
      (line id lib).Meets (Uncached id) s ops → (line id lib).runFrom s ops = some s' →
      ∃ info' rest', Tracks id payloads fut s' info' rest'
  | [], s, s', info, rest, ht, _, h => by
    cases h
    exact ⟨info, rest, ht⟩
  | op :: ops, s, s', info, rest, ht, hm, h => by
    obtain ⟨s₁, hs₁, h⟩ := System.runFrom_cons h
    obtain ⟨hc, hm⟩ := hm.step hs₁
    rw [LineOp.arrivals_cons, List.append_assoc] at ht
    obtain ⟨info₁, rest₁, ht₁⟩ := ht.next hpay hc hs₁
    exact Tracks.runFrom hpay lib ht₁ hm h

end

/-- **Blocking and non-blocking receives can be mixed** on a connection, as long as no blocking call
starts while a header is cached: the payloads returned are the first ones sent. -/
theorem mixed_receives {sender lib : LibeventHandle} {sid id : Int32} {out info : BevInfor}
    {block : Int32} {readLow : Nat} (hsender : sender.SendReady) (hsid : ¬ sid < 0)
    (hout : sender.bevMap.findKey sid = some out) (hnothing : out.bev.output = [])
    (hready : lib.Ready id info) (hnew : info.rx = ⟨[], readLow, block, false⟩)
    {payloads : List Bytes} (hpay : ∀ p ∈ payloads, p ≠ [] ∧ p.length < 2 ^ 31) :
    ∃ sender' out', sender.sendAll sid payloads = .ok sender' ∧
      sender'.bevMap.findKey sid = some out' ∧
      ∀ ops s, LineOp.arrivals ops <+: out'.bev.output →
        (line id lib).Meets (Uncached id) { lib := lib } ops → (line id lib).run ops = some s →
        s.returned <+: payloads := by
  obtain ⟨sender', out', hsent, hout', hstream⟩ :=
    hsender.sendAll hsid hout fun p hp => (hpay p hp).2
  refine ⟨sender', out', hsent, hout', fun ops s harr hm hrun => ?_⟩
  obtain ⟨fut, hfut⟩ := harr
  rw [hstream, hnothing, List.nil_append] at hfut
  have ht : Tracks id payloads (LineOp.arrivals ops ++ fut) { lib := lib } info payloads := by
    refine ⟨hready.singal, hready.found, rfl, ?_, hready.readSingal⟩
    rw [hnew]
    exact hfut
  obtain ⟨info', rest, ht'⟩ := Tracks.runFrom hpay lib ht hm hrun
  exact ⟨rest, ht'.split.symm⟩

theorem nodup_oneId : [(0 : Int32)].Nodup := by decide

/-- A table with one connection. -/
def oneRecord : LibeventHandle where
  maxBevId := 1
  bevMap := ⟨[(0, { ip := Bytes.ofAscii "10.0.0.2", port := 1, isListen := false })], nodup_oneId⟩

theorem oneRecord_sendReady : oneRecord.SendReady := by
  refine ⟨rfl, fun id info hi => ?_⟩
  obtain ⟨-, rfl⟩ := Prod.mk.inj (List.mem_singleton.1 (AssocMap.findKey_eq_some_iff.1 hi))
  rfl

theorem oneRecord_ready : oneRecord.Ready 0
    { ip := Bytes.ofAscii "10.0.0.2", port := 1, isListen := false } := ⟨rfl, rfl, rfl⟩

theorem zero_not_neg : ¬ (0 : Int32) < 0 := by decide

/-- The first payload is announced to a non-blocking call and taken by another one, and the second
by a blocking call that starts before it is there. -/
theorem mixed_receives_two :
    let payloads : List Bytes := [[1, 0, 0, 0, 9], [7]]
    let ops : List LineOp := [.arrive [5, 0, 0, 0, 1], .reciveStrNoWait [], .arrive [0, 0, 0, 9, 1],
      .reciveStrNoWait [], .startWait (.str []), .poll, .arrive [0, 0, 0, 7], .poll, .poll]
    ∃ sender' out' s, oneRecord.sendAll 0 payloads = .ok sender' ∧
      sender'.bevMap.findKey 0 = some out' ∧ out'.bev.output = LineOp.arrivals ops ∧
      (line 0 oneRecord).Meets (Uncached 0) { lib := oneRecord } ops ∧
      (line 0 oneRecord).run ops = some s ∧ s.returned = [[1, 0, 0, 0, 9], [7]] ∧
      s.returned <+: payloads := by
  intro payloads ops
  have hpay : ∀ p ∈ payloads, p ≠ [] ∧ p.length < 2 ^ 31 := by decide
  obtain ⟨sender', out', hsent, hout', hall⟩ :=
    mixed_receives oneRecord_sendReady zero_not_neg rfl rfl oneRecord_ready rfl hpay
  have hsends : (oneRecord.sendAll 0 payloads).toOption.bind
      (fun lib => (lib.bevMap.findKey 0).map (·.bev.output)) = some (LineOp.arrivals ops) := by
    decide
  have hreturns : ((line 0 oneRecord).run ops).map Line.returned = some payloads := by decide
  have hmeets : (line 0 oneRecord).Meets (Uncached 0) { lib := oneRecord } ops := by decide
  rw [hsent, Except.toOption, Option.bind_some, hout', Option.map_some, Option.some_inj] at hsends
  obtain ⟨s, hrun, hs⟩ := Option.map_eq_some_iff.1 hreturns
  exact ⟨sender', out', s, hsent, hout', hsends, hmeets, hrun, hs,
    hall ops s (hsends ▸ List.prefix_refl _) hmeets hrun⟩

/-- A blocking call after a non-blocking one that has cached the header takes a size from the
payload. -/
theorem not_mixed_receives :
    let ops : List LineOp := [.arrive [5, 0, 0, 0, 1], .reciveStrNoWait [], .startWait (.str []),
      .arrive [0, 0, 0, 9], .poll, .poll]
    (oneRecord.sendAll 0 [[1, 0, 0, 0, 9]]).toOption.bind
        (fun lib => (lib.bevMap.findKey 0).map (·.bev.output)) = some (LineOp.arrivals ops) ∧
      ((line 0 oneRecord).run ops).map Line.returned = some [[9]] ∧
      ¬ [[9]] <+: [[1, 0, 0, 0, (9 : UInt8)]] := by
  refine ⟨by decide, by decide, by decide⟩

end Net
