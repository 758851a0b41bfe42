import Mtc.Net.Proof.Delivery
import Mtc.Net.Proof.Drain

/-!
# Arbitrary bytes on a connection

The receive path trusts the bytes it reads. It is safe, however the bytes are cut, exactly on the
streams that are `Harmless` (`safe_iff_harmless`): a negative size, a frame without a cursor, a
frame with an offset outside it, and a frame of a known type that is not the encoding of a message
all do harm. A frame whose group or type `check_mess_type` does not know is dropped.
-/

namespace Net

open Except (ok_bind bind_eq_ok)
open EventMessage (Content)
open EventMessageHandle

/-! ## Messages in their frames -/

theorem nameIn_buf {b a s r : Bytes} {n : Nat} (h : b = a ++ (s ++ 0 :: r)) (hn : n = a.length)
    (hlt : n < 2 ^ 32) : (CharPtr.buf (UInt32.ofNat n)).NameIn b := by
  rw [CharPtr.NameIn, h, UInt32.toNat_ofNat', Nat.mod_eq_of_lt hlt, hn, List.drop_left]
  exact List.mem_append_right s (List.mem_cons_self ..)

/-- What an encoding points to lies in it. -/
theorem inFrame_decoded {c : Content} (hv : c.Valid) (hlt : c.size < 2 ^ 32) :
    (decoded c).InFrame := by
  have h1 : c.messTypeOffset = 24 + (c.groupName.length + 1) := rfl
  have h2 : c.sendHostNameOffset = c.messTypeOffset + (c.messType.length + 1) := rfl
  have h3 : c.reciveHostNameOffset = c.sendHostNameOffset + (c.sendHostName.length + 1) := rfl
  have h4 : c.messageOffset = c.reciveHostNameOffset + (c.reciveHostName.length + 1) := rfl
  have h5 : c.size = c.messageOffset + c.message.length := rfl
  have hw : (Bytes.words c.cursor).length = 24 := by simp [Content.cursor]
  let g := Bytes.words c.cursor ++ (c.groupName ++ [0])
  constructor
  · exact nameIn_buf (a := Bytes.words c.cursor) (s := c.groupName)
      (by simp [decoded, Content.encode, Content.body]; rfl) hw.symm
      (show 24 < 2 ^ 32 by decide)
  · exact nameIn_buf (a := g) (s := c.messType)
      (by simp [g, decoded, Content.encode, Content.body]; rfl) (by simp [g, hw, h1]) (by omega)
  · exact nameIn_buf (a := g ++ (c.messType ++ [0])) (s := c.sendHostName)
      (by simp [g, decoded, Content.encode, Content.body]; rfl)
      (by simp [g, hw, h1, h2]; omega) (by omega)
  · exact nameIn_buf (a := g ++ (c.messType ++ [0]) ++ (c.sendHostName ++ [0]))
      (s := c.reciveHostName) (by simp [g, decoded, Content.encode, Content.body]; rfl)
      (by simp [g, hw, h1, h2, h3]; omega) (by omega)
  · show (UInt32.ofNat c.messageOffset).toNat + c.messageSize.toNat ≤ c.encode.length
    rw [UInt32.toNat_ofNat', Nat.mod_eq_of_lt (by omega), length_encode, ← hv.message]
    exact Nat.le_refl _

theorem CharPtr.NameIn.str {p : CharPtr} {b : Bytes} (h : p.NameIn b) : ∃ s, p.str b = .ok s := by
  cases p with
  | null => cases h
  | mem bytes => cases h
  | buf offset =>
    have hmem : 0 ∈ (b ++ [0]).drop offset.toNat := by
      rw [List.drop_append]
      exact List.mem_append_left _ h
    refine ⟨((b ++ [0]).drop offset.toNat).takeWhile (· ≠ 0), ?_⟩
    rw [CharPtr.str, CharPtr.target, Bytes.cstr, if_pos hmem, orFault]

/-! ## Frames -/

section
variable {h : EventMessageHandle} {f : Bytes} {m : EventMessage}

theorem initMessagePtr_ofSizeT (hlt : f.length < 2 ^ 31) :
    { bufferStr := f, bufferSize := (Int32.ofSizeT f.length).toUInt32 :
      EventMessage }.initMessagePtr = EventMessage.ofFrame f := by
  rw [EventMessage.ofFrame, if_pos hlt, Int32.toUInt32_ofSizeT]

theorem bufferStr_ofFrame (hm : EventMessage.ofFrame f = .ok m) : m.bufferStr = f := by
  unfold EventMessage.ofFrame at hm
  split_ifs at hm
  exact (buffer_initMessagePtr hm).1

/-- A copy of a message made of a frame is the message. -/
theorem copy_ofFrame (hm : EventMessage.ofFrame f = .ok m) : EventMessage.copy {} m = .ok m := by
  unfold EventMessage.ofFrame at hm
  split_ifs at hm
  obtain ⟨hstr, hsize⟩ := buffer_initMessagePtr hm
  rw [EventMessage.copy, hstr, hsize]
  exact hm

/-- What `try_run_callback` does with a message that lies in its frame. -/
theorem tryRunCallback_inFrame
    {runCallback : Nat → EventMessageHandle → EventMessage → EventMessageHandle} {g : Bytes}
    {id : Int32} (hcb : ∀ f h m, KeepsTypes g id h (runCallback f h m)) (h : EventMessageHandle)
    (hm : EventMessage.ofFrame f = .ok m) (hin : m.InFrame) :
    h.dispatches m = h.accepts m ∧
      ∃ ok h', tryRunCallback runCallback h m = .ok (ok, h') ∧ KeepsTypes g id h h' := by
  obtain ⟨n, hn⟩ := hin.groupName.str
  obtain ⟨t, ht⟩ := hin.messType.str
  obtain ⟨hd, h', htry, hkeep, -⟩ := tryRunCallback_reads hcb h hn ht (copy_ofFrame hm)
  exact ⟨hd, _, h', htry, hkeep⟩

theorem dispatches_eq_accepts (hm : EventMessage.ofFrame f = .ok m) (hin : m.InFrame) :
    h.dispatches m = h.accepts m := by
  have hkeeps : ∀ (_ : Nat) (h : EventMessageHandle) (_ : EventMessage), KeepsTypes [] 0 h h :=
    fun _ _ _ => ⟨fun _ hc => hc, rfl⟩
  exact (tryRunCallback_inFrame hkeeps h hm hin).1

/-- The frames that are tolerated are those with a proper message. -/
theorem tolerates_iff : h.Tolerates f ↔ ∃ m, EventMessage.ofFrame f = .ok m ∧ h.Proper m := by
  refine exists_congr fun m => and_congr_right fun hm => ?_
  rw [EventMessageHandle.Proper, bufferStr_ofFrame hm]
  refine and_congr_right fun hin => ?_
  rw [dispatches_eq_accepts hm hin]

/-- A frame that is tolerated has a cursor. -/
theorem EventMessageHandle.Tolerates.length (hf : h.Tolerates f) :
    EventMessage.sizeofCursor < f.length ∧ f.length < 2 ^ 31 := by
  obtain ⟨m, hm, hin, -⟩ := hf
  unfold EventMessage.ofFrame at hm
  split_ifs at hm with hlt
  refine ⟨?_, hlt⟩
  by_contra hle
  unfold EventMessage.initMessagePtr at hm
  rw [if_pos (by rw [UInt32.toNat_ofNat', Nat.mod_eq_of_lt (by omega)]; omega)] at hm
  cases hm
  exact hin.groupName

/-- The encoding of a message is tolerated. -/
theorem tolerates_encode {c : Content} (hv : c.Valid) (hlt : c.size < 2 ^ 31) :
    h.Tolerates c.encode := by
  refine ⟨decoded c, ?_, inFrame_decoded hv (by omega), fun _ => ⟨c, hv, rfl⟩⟩
  rw [EventMessage.ofFrame, length_encode, if_pos hlt, initMessagePtr_encode (by omega)]

end

theorem Harmless.cases {h : EventMessageHandle} {n : UInt32} {bs : Bytes}
    (hh : Harmless h (Bytes.le32 n ++ bs)) (hne : bs ≠ []) :
    n.toNat < 2 ^ 31 ∧ bs.length < n.toNat ∨ n = 0 ∧ Harmless h bs ∨
      ∃ f rest : Bytes, n = UInt32.ofNat f.length ∧ h.Tolerates f ∧ bs = f ++ rest ∧
        Harmless h rest := by
  generalize hw : Bytes.le32 n ++ bs = w at hh
  cases hh with
  | header hle =>
    have hlen := congrArg List.length hw
    rw [List.length_append, Bytes.length_le32] at hlen
    exact absurd (List.length_eq_zero_iff.1 (by omega)) hne
  | incomplete hn hlt =>
    obtain ⟨rfl, rfl⟩ := Bytes.le32_append_inj hw
    exact Or.inl ⟨hn, hlt⟩
  | empty hbs =>
    obtain ⟨rfl, rfl⟩ := Bytes.le32_append_inj hw
    exact Or.inr (Or.inl ⟨rfl, hbs⟩)
  | frame hf hbs =>
    obtain ⟨rfl, rfl⟩ := Bytes.le32_append_inj hw
    exact Or.inr (Or.inr ⟨_, _, rfl, hf, rfl, hbs⟩)

/-! ## One read -/

section
variable {info : BevInfor} {fut : Bytes} {h₀ : EventMessageHandle}

/-- With more than a header in the input, the read starts from a cached header. -/
theorem recive_eq_cached (hs : info.readSingal = 0) (hlt : 4 < info.bev.input.length)
    (hl : ¬ (Int32.ofSizeT info.bev.input.length).sizeT ≤ sizeofBlock) :
    ∃ info' : BevInfor, info.recive = info'.recive ∧ info'.cacheBlock = true ∧
      rwWUnlock info'.readSingal = 0 ∧ info'.rx.pending = info.rx.pending ∧
      info'.bev.input ≠ [] ∧ info'.bev.input.length ≤ info.bev.input.length := by
  cases hc : info.cacheBlock with
  | true =>
    refine ⟨info, rfl, hc, by rw [hs]; decide, rfl, fun h => ?_, Nat.le_refl _⟩
    rw [h] at hlt
    cases hlt
  | false =>
    obtain ⟨n, t, hi⟩ := Bytes.exists_le32 info.bev.input (by omega)
    have hlen := congrArg List.length hi
    rw [List.length_append, Bytes.length_le32] at hlen
    refine ⟨_, BevInfor.recive_of_header hc hs hi (by omega), rfl, ?_, ?_, fun h => ?_, ?_⟩
    · show rwWUnlock (-1) = 0
      decide
    · simp only [BevInfor.rx, Rx.pending, hc, hi]
      rfl
    · dsimp only at h
      rw [h, List.length_nil] at hlen
      omega
    · dsimp only
      omega

/-- No header with bytes behind it announces a negative size. -/
theorem Harmless.size_lt {h : EventMessageHandle} {n : UInt32} {bs : Bytes}
    (hh : Harmless h (Bytes.le32 n ++ bs)) (hne : bs ≠ []) : n.toNat < 2 ^ 31 := by
  rcases hh.cases hne with ⟨hn, -⟩ | ⟨hn, -⟩ | ⟨f, rest, hn, hf, -⟩
  · exact hn
  · rw [hn]
    decide
  · have hlen := hf.length
    rw [hn, UInt32.toNat_ofNat', Nat.mod_eq_of_lt (by omega)]
    exact hlen.2

/-- What a read behind a cached header comes to on harmless bytes: it has to wait, drops an empty
frame, or takes a frame that is tolerated. -/
theorem recive_harmless (hc : info.cacheBlock = true) (hs : rwWUnlock info.readSingal = 0)
    (hne : info.bev.input ≠ []) (hh : Harmless h₀ (info.rx.pending ++ fut)) :
    (∃ str info', info.recive = .ok (0, str, info') ∧ info'.readSingal = 0 ∧
      Harmless h₀ (info'.rx.pending ++ fut)) ∨
    ∃ (f : Bytes) (info' : BevInfor), h₀.Tolerates f ∧
      info.recive = .ok (Int32.ofSizeT f.length, f, info') ∧ info'.readSingal = 0 ∧
      Harmless h₀ (info'.rx.pending ++ fut) ∧
      info'.bev.input.length < info.bev.input.length := by
  have hpend : info.rx.pending = Bytes.le32 info.block.toUInt32 ++ info.bev.input := by
    simp only [Rx.pending, BevInfor.rx, hc, if_true]
  rw [hpend, List.append_assoc] at hh
  have hne' : info.bev.input ++ fut ≠ [] := by simp [hne]
  have hlt := hh.size_lt hne'
  have hval := Int32.toInt_eq_toNat hlt
  have hsize := Int32.sizeT_eq_toNat hlt
  have hnn : 0 ≤ info.block := by
    rw [Int32.nonneg_iff, hval]
    exact Int.natCast_nonneg _
  by_cases hshort : Int32.ofSizeT info.bev.input.length < info.block
  · refine Or.inl ⟨_, _, BevInfor.recive_short hc hs hnn hshort, rfl, ?_⟩
    simpa only [Rx.pending, BevInfor.rx, hc, if_true, List.append_assoc] using hh
  · have hlen : info.block.toUInt32.toNat ≤ info.bev.input.length := by
      rw [Int32.lt_iff_toInt_lt, hval] at hshort
      have := Int32.toInt_ofSizeT_le (n := info.bev.input.length) (by omega)
      omega
    rcases hh.cases hne' with ⟨-, hn⟩ | ⟨hn, hrest⟩ | ⟨f, rest, hn, hf, hi, hrest⟩
    · rw [List.length_append] at hn
      omega
    · have hb : info.block.sizeT = ([] : Bytes).length := by
        rw [hsize, hn]
        rfl
      refine Or.inl ⟨_, _, BevInfor.recive_full hc hs (List.nil_append _).symm hnn hb hshort,
        rfl, ?_⟩
      simpa only [Rx.pending, BevInfor.rx, Bool.false_eq_true, if_false, List.nil_append]
        using hrest
    · obtain ⟨hpos, hflt⟩ := hf.length
      have hfs : info.block.toUInt32.toNat = f.length := by
        rw [hn, UInt32.toNat_ofNat', Nat.mod_eq_of_lt (by omega)]
      obtain ⟨t, ht, hrest'⟩ := Framing.append_split hi (by omega)
      refine Or.inr ⟨f, _, hf, BevInfor.recive_full hc hs ht hnn (by rw [hsize, hfs]) hshort, rfl,
        ?_, ?_⟩
      · simpa only [Rx.pending, BevInfor.rx, Bool.false_eq_true, if_false, List.nil_append,
          hrest'] using hrest
      · dsimp only
        rw [ht, List.length_append]
        omega

end

/-! ## Harmless streams -/

section
variable {runCallback : Nat → EventMessageHandle → EventMessage → EventMessageHandle}
  {g : Bytes} {id : Int32} {fut : Bytes}

theorem four_lt_of_sizeT {n : Nat} (hp : Int32.ofSizeT n > 0)
    (hl : ¬ (Int32.ofSizeT n).sizeT ≤ sizeofBlock) : 4 < n := by
  rw [gt_iff_lt, Int32.lt_iff_toInt_lt, Int32.toInt_zero] at hp
  rw [Int32.sizeT_of_nonneg (by omega), sizeofBlock] at hl
  have := Int32.toInt_ofSizeT_le (n := n) (by omega)
  omega

/-- A frame that is tolerated is passed on or dropped; what comes of it is proper. -/
theorem roundEnd_tolerates (hcb : ∀ f h m, KeepsTypes g id h (runCallback f h m))
    {h h₀ : EventMessageHandle} {f : Bytes} (hf : h₀.Tolerates f) (fuel : Nat)
    (passed : List EventMessage) :
    ∃ (m : EventMessage) (ok : Bool) (h' : EventMessageHandle), h₀.Proper m ∧
      KeepsTypes g id h h' ∧
      roundEnd runCallback g id fuel passed h (Int32.ofSizeT f.length) f =
        if ok then readCallbackLoop runCallback g id fuel h' (passed ++ [m])
        else .ok (some (false, passed ++ [m], h')) := by
  obtain ⟨hpos, hlt⟩ := hf.length
  obtain ⟨m, hm, hproper⟩ := tolerates_iff.1 hf
  obtain ⟨-, ok, h', htry, hkeep⟩ := tryRunCallback_inFrame hcb h hm hproper.1
  have hsize : ¬ Int32.ofSizeT f.length ≤ 0 := by
    rw [Int32.le_iff_toInt_le, Int32.toInt_ofSizeT_of_lt hlt, Int32.toInt_zero]
    omega
  exact ⟨m, ok, h', hproper, hkeep,
    roundEnd_passed runCallback hsize ((initMessagePtr_ofSizeT hlt).trans hm) htry fuel passed⟩

/-- The handle has the message types it had at the start, in `h₀`, and what has been passed on is
proper. -/
structure Tidy (h₀ h : EventMessageHandle) (passed : List EventMessage) : Prop where
  configured : h.configured = h₀.configured
  proper : ∀ m ∈ passed, h₀.Proper m

theorem Tidy.passed {h₀ h h' : EventMessageHandle} {passed : List EventMessage} {m : EventMessage}
    (ht : Tidy h₀ h passed) (hconf : h'.configured = h.configured) (hm : h₀.Proper m) :
    Tidy h₀ h' (passed ++ [m]) := by
  refine ⟨hconf.trans ht.configured, fun m' hm' => ?_⟩
  rcases List.mem_append.1 hm' with hm' | hm'
  · exact ht.proper m' hm'
  · rwa [List.mem_singleton.1 hm']

/-- One callback on harmless bytes: what it passes on is proper, and what is left is harmless
again. -/
theorem loop_harmless (hcb : ∀ f h m, KeepsTypes g id h (runCallback f h m))
    {h₀ : EventMessageHandle} :
    ∀ {fuel : Nat} {h : EventMessageHandle} {rx : Rx} {passed : List EventMessage},
      Conn h g id rx → Harmless h₀ (rx.pending ++ fut) → rx.input.length < fuel →
      Tidy h₀ h passed →
      ∃ b passed' h' rx', readCallbackLoop runCallback g id fuel h passed =
          .ok (some (b, passed', h')) ∧
        Conn h' g id rx' ∧ Harmless h₀ (rx'.pending ++ fut) ∧ Tidy h₀ h' passed'
  | fuel + 1, h, rx, passed, hconn, hh, hfuel, htidy => by
    by_cases hp : Int32.ofSizeT rx.input.length > 0
    swap
    · exact ⟨_, _, _, rx, loop_empty runCallback hconn hp fuel passed, hconn, hh, htidy⟩
    by_cases hl : (Int32.ofSizeT rx.input.length).sizeT ≤ sizeofBlock
    · exact ⟨_, _, _, rx, loop_header runCallback hconn hp hl fuel passed, hconn, hh, htidy⟩
    obtain ⟨group, info, hg, hr, rfl⟩ := hconn
    have hlt := four_lt_of_sizeT hp hl
    obtain ⟨i, hi, hic, his, hpend, hne, hlen⟩ := recive_eq_cached hr.readSingal hlt hl
    rw [← hpend] at hh
    rw [loop_recive runCallback hg hr hp hl, hi]
    obtain ⟨str, i', hrec, hs', hh'⟩ | ⟨f, i', hf, hrec, hs', hh', hshorter⟩ :=
      recive_harmless hic his hne hh
    · rw [hrec, ok_bind]
      exact ⟨_, _, _, _, rfl, conn_putHandle hg hr _ hs', hh',
        (configured_putHandle_eq hg _).trans htidy.configured, htidy.proper⟩
    · obtain ⟨m, ok, h', hproper, hkeep, hround⟩ := roundEnd_tolerates hcb
        (h := h.putHandle g group { group.handle with bevMap := group.handle.bevMap.put id i' })
        hf fuel passed
      have hconn' := hkeep.conn _ (conn_putHandle hg hr _ hs')
      have htidy' := htidy.passed (hkeep.configured.trans (configured_putHandle_eq hg _)) hproper
      rw [hrec, ok_bind, hround]
      cases ok with
      | true =>
        have hfuel' : i'.rx.input.length < fuel := by
          show i'.bev.input.length < fuel
          simp only [BevInfor.rx] at hfuel
          omega
        exact loop_harmless hcb hconn' hh' hfuel' htidy'
      | false => exact ⟨_, _, _, _, rfl, hconn', hh', htidy'⟩

/-- The bytes pending on the connection of a receiver are harmless with those still to come. -/
def Sound (g : Bytes) (id : Int32) (h₀ : EventMessageHandle) (fut : Bytes) (r : Receiver) : Prop :=
  (∃ rx, Conn r.handle g id rx ∧ Harmless h₀ (rx.pending ++ fut)) ∧ Tidy h₀ r.handle r.passed

theorem Sound.arrive (hcb : ∀ f h m, KeepsTypes g id h (runCallback f h m))
    {h₀ : EventMessageHandle} {r : Receiver} {bytes : Bytes}
    (hr : Sound g id h₀ (bytes ++ fut) r) :
    ∃ r', r.arrive runCallback g id bytes = some r' ∧ Sound g id h₀ fut r' := by
  obtain ⟨⟨rx, hconn, hh⟩, htidy⟩ := hr
  have hconn' := hconn.putRx { rx with input := rx.input ++ bytes }
  have hh' : Harmless h₀ (Rx.pending { rx with input := rx.input ++ bytes } ++ fut) := by
    simpa only [Rx.pending, List.append_assoc] using hh
  have htidy' : Tidy h₀ (r.handle.putRx g id { rx with input := rx.input ++ bytes }) r.passed :=
    ⟨(hconn.configured_putRx_eq _).trans htidy.configured, htidy.proper⟩
  rw [hconn.arrive]
  by_cases hlow : (rx.input ++ bytes).length < rx.readLow
  · rw [if_pos hlow]
    exact ⟨_, rfl, ⟨_, hconn', hh'⟩, htidy'⟩
  · obtain ⟨b, passed, h', rx', hloop, hconn'', hh'', htidy''⟩ :=
      loop_harmless hcb hconn' hh' (Nat.lt_succ_self _) htidy'
    rw [if_neg hlow, hloop]
    exact ⟨_, rfl, ⟨rx', hconn'', hh''⟩, htidy''⟩

theorem Sound.run (hcb : ∀ f h m, KeepsTypes g id h (runCallback f h m))
    (h h₀ : EventMessageHandle) :
    ∀ {arrivals : List Bytes} {r : Receiver}, Sound g id h₀ arrivals.flatten r →
      ∃ r', (receiving runCallback g id h).runFrom r arrivals = some r' ∧ Sound g id h₀ [] r'
  | [], r, hr => ⟨r, rfl, hr⟩
  | bytes :: arrivals, r, hr => by
    rw [List.flatten_cons] at hr
    obtain ⟨r₁, harr, hr₁⟩ := hr.arrive hcb
    obtain ⟨r', hrun, hr'⟩ := Sound.run hcb h h₀ hr₁
    refine ⟨r', ?_, hr'⟩
    simp only [System.runFrom, receiving, harr, Option.bind_some]
    exact hrun

/-! ## Harmful streams -/

/-- Nothing that was passed on is taken back. -/
theorem loop_subset : ∀ {fuel : Nat} {h h' : EventMessageHandle}
    {passed passed' : List EventMessage}
    {b : Bool}, readCallbackLoop runCallback g id fuel h passed = .ok (some (b, passed', h')) →
    passed ⊆ passed'
  | fuel + 1, h, h', passed, passed', b, hl => by
    rw [readCallbackLoop] at hl
    obtain ⟨group, -, hl⟩ := bind_eq_ok.1 hl
    obtain ⟨⟨len, lib⟩, -, hl⟩ := bind_eq_ok.1 hl
    dsimp only at hl
    split_ifs at hl
    · obtain ⟨⟨size, str, lib'⟩, -, hl⟩ := bind_eq_ok.1 hl
      dsimp only at hl
      split_ifs at hl
      · cases hl
        exact fun _ hm => hm
      · obtain ⟨mess, -, hl⟩ := bind_eq_ok.1 hl
        obtain ⟨⟨ok, h₁⟩, -, hl⟩ := bind_eq_ok.1 hl
        dsimp only at hl
        split_ifs at hl
        · exact fun m hm => loop_subset hl (List.mem_append_left _ hm)
        · cases hl
          exact fun m hm => List.mem_append_left _ hm
    · cases hl
      exact fun _ hm => hm

theorem readResult_eq_some
    {x : Except Fault (Option (Bool × List EventMessage × EventMessageHandle))}
    {r : Receiver} (h : readResult x = some r) : ∃ b, x = .ok (some (b, r.passed, r.handle)) := by
  match x, h with
  | .ok (some (b, passed, h')), h =>
    cases h
    exact ⟨b, rfl⟩

theorem arrive_subset {r r' : Receiver} {bytes : Bytes}
    (h : r.arrive runCallback g id bytes = some r') : r.passed ⊆ r'.passed := by
  simp only [Receiver.arrive, Option.bind_eq_bind, Option.bind_eq_some_iff] at h
  obtain ⟨⟨group, info⟩, -, h⟩ := h
  dsimp only at h
  split_ifs at h
  · cases h
    exact fun _ hm => hm
  · obtain ⟨b, hloop⟩ := readResult_eq_some (r := r') h
    exact loop_subset hloop

/-- A connection between frames; an empty frame may be left in the input. -/
def Idle (g : Bytes) (id : Int32) (r : Receiver) : Prop :=
  ∃ input block, Conn r.handle g id ⟨input, 0, block, false⟩ ∧ (input = [] ∨ input = Bytes.le32 0)

section
variable (runCallback)

/-- No more than a header has arrived. -/
theorem arrive_header {r : Receiver} {input : Bytes} {block : Int32}
    (hconn : Conn r.handle g id ⟨input, 0, block, false⟩) (bytes : Bytes)
    (hpos : 0 < (input ++ bytes).length) (hle : (input ++ bytes).length ≤ 4) :
    ∃ h, r.arrive runCallback g id bytes = some { handle := h, passed := r.passed } ∧
      Conn h g id ⟨input ++ bytes, 0, block, false⟩ := by
  have hconn' := hconn.putRx ⟨input ++ bytes, 0, block, false⟩
  refine ⟨_, ?_, hconn'⟩
  have hlt : (input ++ bytes).length < 2 ^ 31 := by omega
  rw [hconn.arrive, if_neg (Nat.not_lt_zero _), loop_header runCallback hconn'
    ((Int32.ofSizeT_pos_iff hlt).2 hpos) (by rw [Int32.sizeT_ofSizeT_of_lt hlt]; exact hle)]
  rfl

/-- A header and at least one byte behind it have arrived: the read starts from the header. -/
theorem arrive_opens {r : Receiver} {input t : Bytes} {block : Int32} {n : UInt32}
    (hconn : Conn r.handle g id ⟨input, 0, block, false⟩) (bytes : Bytes)
    (hi : input ++ bytes = Bytes.le32 n ++ t) (hne : 0 < t.length) (hlt : t.length + 4 < 2 ^ 31) :
    ∃ (h : EventMessageHandle) (group : GroupInfor) (info : BevInfor),
      h.messGroupMap.findKey g = some group ∧ group.handle.Ready id info ∧
      r.arrive runCallback g id bytes = readResult (
        (info.blockRead { info.bev with input := t } n.toInt32 (-1)).recive >>= fun x =>
        roundEnd runCallback g id (input ++ bytes).length r.passed
          (h.putHandle g group { group.handle with bevMap := group.handle.bevMap.put id x.2.2 })
          x.1 x.2.1) := by
  obtain ⟨group, info, hg, hr, hrx⟩ := hconn.putRx ⟨input ++ bytes, 0, block, false⟩
  have hc : info.cacheBlock = false := congrArg Rx.cacheBlock hrx
  have hin : info.bev.input = input ++ bytes := congrArg Rx.input hrx
  have hlen : info.bev.input.length = t.length + 4 := by
    rw [hin, hi, List.length_append, Bytes.length_le32, Nat.add_comm]
  have hl : ¬ (Int32.ofSizeT info.bev.input.length).sizeT ≤ sizeofBlock := by
    rw [hlen, Int32.sizeT_ofSizeT_of_lt hlt, sizeofBlock]
    omega
  refine ⟨_, group, info, hg, hr, ?_⟩
  rw [hconn.arrive, if_neg (Nat.not_lt_zero _), loop_recive runCallback hg hr
    (by rw [hlen]; exact (Int32.ofSizeT_pos_iff hlt).2 (by omega)) hl,
    BevInfor.recive_of_header hc hr.readSingal (hin.trans hi) (by omega)]

/-- A negative size: `append` throws. -/
theorem arrive_negative {r : Receiver} {input t : Bytes} {block : Int32} {n : UInt32}
    (hconn : Conn r.handle g id ⟨input, 0, block, false⟩) (bytes : Bytes)
    (hi : input ++ bytes = Bytes.le32 n ++ t) (hne : 0 < t.length) (hlt : t.length + 4 < 2 ^ 31)
    (hn : 2 ^ 31 ≤ n.toNat) : r.arrive runCallback g id bytes = none := by
  obtain ⟨h, group, info, -, -, harr⟩ := arrive_opens runCallback hconn bytes hi hne hlt
  have hneg : n.toInt32 < 0 := by
    have := n.toNat_lt
    rw [← UInt32.ofNat_toNat (x := n), Int32.toInt32_ofNat, Int32.lt_iff_toInt_lt,
      Int32.toInt_ofSizeT, Int32.toInt_zero, Int.bmod_def]
    split <;> omega
  rw [harr, BevInfor.recive_eq]
  simp only [if_true, ok_bind, LibeventHandle.appendZeros, if_pos hneg]
  rfl

/-- The frame is not complete. -/
theorem arrive_wait {r : Receiver} {input t : Bytes} {block : Int32} {n : Nat}
    (hconn : Conn r.handle g id ⟨input, 0, block, false⟩) (bytes : Bytes)
    (hi : input ++ bytes = Bytes.le32 (UInt32.ofNat n) ++ t) (hne : 0 < t.length)
    (hlt : t.length + 4 < 2 ^ 31) (hn : n < 2 ^ 31) (hshort : t.length < n) :
    ∃ h, r.arrive runCallback g id bytes = some { handle := h, passed := r.passed } ∧
      Conn h g id ⟨t, n, Int32.ofSizeT n, true⟩ := by
  obtain ⟨h, group, info, hg, hr, harr⟩ :=
    arrive_opens runCallback hconn bytes hi hne hlt
  have hval := Int32.toInt_ofSizeT_of_lt hn
  rw [Int32.toInt32_ofNat, BevInfor.recive_short rfl (by show rwWUnlock (-1) = 0; decide)
    (by show (0 : Int32) ≤ Int32.ofSizeT n
        rw [Int32.le_iff_toInt_le, hval, Int32.toInt_zero]; omega)
    (by show Int32.ofSizeT t.length < Int32.ofSizeT n
        exact (Int32.ofSizeT_lt_iff (by omega) hn).2 hshort), ok_bind, roundEnd_zero] at harr
  refine ⟨_, harr, ?_⟩
  have hconn' := conn_putHandle hg hr { info with
    bev := { info.bev with input := t, readLow := (Int32.ofSizeT n).sizeT }
    block := Int32.ofSizeT n, cacheBlock := true, readSingal := 0 } rfl
  simpa only [BevInfor.rx, Int32.sizeT_ofSizeT_of_lt hn] using hconn'

/-- A frame has arrived with its header. -/
theorem arrive_whole {r : Receiver} {input b t : Bytes} {block : Int32}
    (hconn : Conn r.handle g id ⟨input, 0, block, false⟩) (bytes : Bytes)
    (hi : input ++ bytes = Bytes.le32 (UInt32.ofNat b.length) ++ (b ++ t))
    (hne : 0 < (b ++ t).length) (hlt : (b ++ t).length + 4 < 2 ^ 31) :
    ∃ h fuel, r.arrive runCallback g id bytes = readResult (roundEnd runCallback g id (fuel + 1)
        r.passed h (Int32.ofSizeT b.length) b) ∧
      Conn h g id ⟨t, 0, Int32.ofSizeT b.length, false⟩ := by
  obtain ⟨h, group, info, hg, hr, harr⟩ :=
    arrive_opens runCallback hconn bytes hi hne hlt
  have hb : b.length < 2 ^ 31 := by
    rw [List.length_append] at hlt
    omega
  have hval := Int32.toInt_ofSizeT_of_lt hb
  rw [Int32.toInt32_ofNat, BevInfor.recive_full rfl (by show rwWUnlock (-1) = 0; decide)
    (show _ = b ++ t from rfl)
    (by show (0 : Int32) ≤ Int32.ofSizeT b.length
        rw [Int32.le_iff_toInt_le, hval, Int32.toInt_zero]; omega)
    (by show (Int32.ofSizeT b.length).sizeT = b.length
        exact Int32.sizeT_ofSizeT_of_lt hb)
    (by show ¬ Int32.ofSizeT (b ++ t).length < Int32.ofSizeT b.length
        rw [Int32.ofSizeT_lt_iff (by omega) hb, List.length_append]; omega)] at harr
  have hfuel : (input ++ bytes).length = (b ++ t).length + 3 + 1 := by
    rw [hi, List.length_append, Bytes.length_le32]
    omega
  rw [ok_bind, hfuel] at harr
  exact ⟨_, _, harr, conn_putHandle hg hr _ rfl⟩

/-- The rest of a frame has arrived. -/
theorem arrive_rest {r : Receiver} {input : Bytes} {n : Nat}
    (hconn : Conn r.handle g id ⟨input, n, Int32.ofSizeT n, true⟩) (bytes : Bytes)
    (hn : (input ++ bytes).length = n) (hgt : 4 < n) (hlt : n < 2 ^ 31) :
    ∃ h fuel, r.arrive runCallback g id bytes = readResult (roundEnd runCallback g id (fuel + 1)
        r.passed h (Int32.ofSizeT n) (input ++ bytes)) ∧
      Conn h g id ⟨[], 0, Int32.ofSizeT n, false⟩ := by
  have hread := hconn.arrive runCallback bytes
  obtain ⟨group, info, hg, hr, hrx⟩ := hconn.putRx ⟨input ++ bytes, n, Int32.ofSizeT n, true⟩
  have hc : info.cacheBlock = true := congrArg Rx.cacheBlock hrx
  have hin : info.bev.input = input ++ bytes := congrArg Rx.input hrx
  have hb : info.block = Int32.ofSizeT n := congrArg Rx.block hrx
  have hval := Int32.toInt_ofSizeT_of_lt hlt
  have hlen : info.bev.input.length = n := by rw [hin, hn]
  have hl : ¬ (Int32.ofSizeT info.bev.input.length).sizeT ≤ sizeofBlock := by
    rw [hlen, Int32.sizeT_ofSizeT_of_lt hlt, sizeofBlock]
    omega
  have hpos : 0 < Int32.ofSizeT info.bev.input.length := by
    rw [hlen]
    exact (Int32.ofSizeT_pos_iff hlt).2 (by omega)
  rw [if_neg (by dsimp only; rw [hn]; exact Nat.lt_irrefl n), loop_recive runCallback hg hr hpos
    hl, BevInfor.recive_full (b := input ++ bytes) (t := []) hc (by rw [hr.readSingal]; decide)
    (by rw [hin, List.append_nil])
    (by rw [hb, Int32.le_iff_toInt_le, hval, Int32.toInt_zero]; omega)
    (by rw [hb, Int32.sizeT_ofSizeT_of_lt hlt, hn])
    (by rw [hb, hlen]; exact Int32.not_lt.2 (Int32.le_refl _)), ok_bind, hn] at hread
  obtain ⟨k, rfl⟩ : ∃ k, n = k + 1 := ⟨n - 1, by omega⟩
  have hconn' := conn_putHandle hg hr { info with
    readSingal := 0, cacheBlock := false, bev := { info.bev with input := [], readLow := 0 } } rfl
  refine ⟨_, _, hread, ?_⟩
  simpa only [BevInfor.rx, hb] using hconn'

/-- A byte behind an idle connection is the first of the next frame. -/
theorem Idle.first {r : Receiver} (hr : Idle g id r) (x : UInt8) :
    ∃ h block, r.arrive runCallback g id [x] = some { handle := h, passed := r.passed } ∧
      Conn h g id ⟨[x], 0, block, false⟩ := by
  obtain ⟨input, block, hconn, rfl | rfl⟩ := hr
  · obtain ⟨h, harr, hconn'⟩ := arrive_header runCallback hconn [x] (by simp) (by simp)
    exact ⟨h, block, harr, hconn'⟩
  · obtain ⟨h, fuel, harr, hconn'⟩ := arrive_whole runCallback (b := []) (t := [x]) hconn [x] rfl
      (by simp) (by simp)
    exact ⟨h, _, harr, hconn'⟩

theorem runFrom_cons {r r₁ : Receiver} {bytes : Bytes} (h : EventMessageHandle)
    (harr : r.arrive runCallback g id bytes = some r₁) (arrivals : List Bytes) :
    (receiving runCallback g id h).runFrom r (bytes :: arrivals) =
      (receiving runCallback g id h).runFrom r₁ arrivals := by
  simp only [System.runFrom, receiving, harr, Option.bind_some]

theorem runFrom_one (h : EventMessageHandle) (r : Receiver) (bytes : Bytes) :
    (receiving runCallback g id h).runFrom r [bytes] = r.arrive runCallback g id bytes := by
  simp [System.runFrom, receiving]

/-- The rest `hd ++ b` of a frame of which one byte is there can arrive so that it is read. -/
theorem exists_takes {r : Receiver} {x : UInt8} {hd b : Bytes} {block : Int32}
    (h₀ : EventMessageHandle) (hconn : Conn r.handle g id ⟨[x], 0, block, false⟩)
    (hx : x :: hd = Bytes.le32 (UInt32.ofNat b.length)) (hpos : 0 < b.length)
    (hlt : b.length < 2 ^ 31) :
    ∃ arrivals h fuel, arrivals.flatten = hd ++ b ∧
      (receiving runCallback g id h₀).runFrom r arrivals = readResult (roundEnd runCallback g id
        (fuel + 1) r.passed h (Int32.ofSizeT b.length) b) ∧
      Conn h g id ⟨[], 0, Int32.ofSizeT b.length, false⟩ := by
  by_cases h4 : b.length ≤ 4
  · -- a frame of up to four bytes is only read together with its header
    obtain ⟨h, fuel, harr, hconn'⟩ := arrive_whole runCallback (b := b) (t := [])
      hconn (hd ++ b) (by rw [List.append_nil, ← hx]; rfl) (by simpa using hpos)
      (by rw [List.append_nil]; omega)
    refine ⟨[hd ++ b], h, fuel, by simp, ?_, hconn'⟩
    rw [runFrom_one, harr]
  · -- a longer one may not fit into an `int` with its header, but fits without it
    cases b with
    | nil => cases hpos
    | cons y b =>
      obtain ⟨h₁, harr₁, hconn₁⟩ := arrive_wait runCallback (t := [y])
        hconn (hd ++ [y]) (by rw [← hx]; rfl) (by simp) (by simp) hlt (by simp at h4 ⊢; omega)
      obtain ⟨h, fuel, harr, hconn'⟩ := arrive_rest runCallback
        (r := { handle := h₁, passed := r.passed }) hconn₁ b rfl (by omega) hlt
      refine ⟨[hd ++ [y], b], h, fuel, by simp, ?_, hconn'⟩
      rw [runFrom_cons runCallback h₀ harr₁, runFrom_one]
      exact harr

end

/-- A frame that is read is passed on, whatever it holds. -/
theorem exists_mem_roundEnd {fuel : Nat} {passed passed' : List EventMessage}
    {h h' : EventMessageHandle} {f : Bytes} {b : Bool} (hpos : 0 < f.length)
    (hlt : f.length < 2 ^ 31)
    (hl : roundEnd runCallback g id fuel passed h (Int32.ofSizeT f.length) f =
      .ok (some (b, passed', h'))) :
    ∃ m ∈ passed', EventMessage.ofFrame f = .ok m := by
  have hsize : ¬ Int32.ofSizeT f.length ≤ 0 := by
    rw [Int32.le_iff_toInt_le, Int32.toInt_ofSizeT_of_lt hlt, Int32.toInt_zero]
    omega
  rw [roundEnd, if_neg hsize, initMessagePtr_ofSizeT hlt] at hl
  obtain ⟨mess, hmess, hl⟩ := bind_eq_ok.1 hl
  obtain ⟨⟨ok, h₁⟩, -, hl⟩ := bind_eq_ok.1 hl
  have hmem : mess ∈ passed ++ [mess] := List.mem_append_right _ (List.mem_singleton_self _)
  dsimp only at hl
  split_ifs at hl
  · exact ⟨mess, loop_subset hl hmem, hmess⟩
  · cases hl
    exact ⟨mess, hmem, hmess⟩

/-- Behind a frame that is tolerated the connection is idle again. -/
theorem readResult_tolerates (hcb : ∀ f h m, KeepsTypes g id h (runCallback f h m))
    {h h₀ : EventMessageHandle} {block : Int32} {f : Bytes} (fuel : Nat)
    (passed : List EventMessage) (hconn : Conn h g id ⟨[], 0, block, false⟩)
    (hf : h₀.Tolerates f) :
    ∃ r, readResult (roundEnd runCallback g id (fuel + 1) passed h (Int32.ofSizeT f.length) f) =
      some r ∧ Idle g id r := by
  obtain ⟨m, ok, h', -, hkeep, hround⟩ := roundEnd_tolerates hcb (h := h) hf (fuel + 1) passed
  have hconn' := hkeep.conn _ hconn
  rw [hround]
  cases ok with
  | true =>
    rw [if_pos rfl, loop_empty runCallback hconn' (show ¬ Int32.ofSizeT 0 > 0 by decide)]
    exact ⟨_, rfl, [], block, hconn', Or.inl rfl⟩
  | false => exact ⟨_, rfl, [], block, hconn', Or.inl rfl⟩

/-- The bytes `bs` can arrive at `r` so that the run stops, or makes a message that is not
proper. -/
def Harms (runCallback : Nat → EventMessageHandle → EventMessage → EventMessageHandle)
    (g : Bytes) (id : Int32) (h₀ : EventMessageHandle) (r : Receiver) (bs : Bytes) : Prop :=
  ∃ arrivals : List Bytes, arrivals.flatten = bs ∧
    ∀ r', (receiving runCallback g id h₀).runFrom r arrivals = some r' →
      ∃ m ∈ r'.passed, ¬ h₀.Proper m

/-- What does harm after some arrivals does harm behind them. -/
theorem Harms.after {h₀ : EventMessageHandle} {r r₁ : Receiver} {arrivals : List Bytes} {bs : Bytes}
    (hrun : (receiving runCallback g id h₀).runFrom r arrivals = some r₁)
    (hharm : Harms runCallback g id h₀ r₁ bs) :
    Harms runCallback g id h₀ r (arrivals.flatten ++ bs) := by
  obtain ⟨rest, rfl, hharm⟩ := hharm
  refine ⟨arrivals ++ rest, List.flatten_append, fun r' hr' => hharm r' ?_⟩
  rwa [System.runFrom_append_eq, hrun] at hr'

/-- A negative size stops the run as soon as there is a byte behind it. -/
theorem harms_negative {r : Receiver} {x y : UInt8} {hd : Bytes} {n : UInt32} {block : Int32}
    (h₀ : EventMessageHandle) (hconn : Conn r.handle g id ⟨[x], 0, block, false⟩)
    (hx : Bytes.le32 n = x :: hd) (hneg : 2 ^ 31 ≤ n.toNat) (b : Bytes) :
    Harms runCallback g id h₀ r (hd ++ y :: b) := by
  refine ⟨[hd ++ [y], b], by simp, fun r' hr' => ?_⟩
  have hnone := arrive_negative runCallback (t := [y]) hconn (hd ++ [y]) (by rw [hx]; rfl)
    (by simp) (by simp) hneg
  simp only [System.runFrom, receiving, hnone, Option.bind_none] at hr'
  cases hr'

/-- A frame that is not tolerated is passed on all the same. -/
theorem harms_frame {r : Receiver} {x : UInt8} {hd f : Bytes} {block : Int32}
    (h₀ : EventMessageHandle) (hconn : Conn r.handle g id ⟨[x], 0, block, false⟩)
    (hx : x :: hd = Bytes.le32 (UInt32.ofNat f.length)) (hpos : 0 < f.length)
    (hlt : f.length < 2 ^ 31) (hf : ¬ h₀.Tolerates f) (rest : Bytes) :
    Harms runCallback g id h₀ r (hd ++ f ++ rest) := by
  obtain ⟨arrivals, h₁, fuel, hflat, hrun, -⟩ := exists_takes runCallback h₀ hconn hx hpos hlt
  refine ⟨arrivals ++ [rest], by simp [hflat], fun r' hr' => ?_⟩
  rw [System.runFrom_append_eq, hrun, Option.bind_eq_some_iff] at hr'
  obtain ⟨r₁, hr₁, hr'⟩ := hr'
  obtain ⟨b, hround⟩ := readResult_eq_some hr₁
  obtain ⟨m, hm, hframe⟩ := exists_mem_roundEnd hpos hlt hround
  rw [runFrom_one] at hr'
  exact ⟨m, arrive_subset hr' hm, fun hproper => hf (tolerates_iff.2 ⟨m, hframe, hproper⟩)⟩

/-- An empty frame stays in the input, with the connection idle. -/
theorem exists_idle_empty {r : Receiver} {x : UInt8} {hd : Bytes} {block : Int32}
    (h₀ : EventMessageHandle) (hconn : Conn r.handle g id ⟨[x], 0, block, false⟩)
    (hx : Bytes.le32 0 = x :: hd) :
    ∃ r₁, (receiving runCallback g id h₀).runFrom r [hd] = some r₁ ∧ Idle g id r₁ := by
  have hlen : hd.length = 3 := by simpa using (congrArg List.length hx).symm
  obtain ⟨h₁, harr, hconn₁⟩ := arrive_header runCallback hconn hd (by simp) (by simp [hlen])
  exact ⟨_, (runFrom_one runCallback h₀ r hd).trans harr, _, block, hconn₁, Or.inr hx.symm⟩

/-- A frame that is tolerated can arrive so that the connection is idle behind it. -/
theorem exists_idle_frame (hcb : ∀ f h m, KeepsTypes g id h (runCallback f h m)) {r : Receiver}
    {x : UInt8} {hd f : Bytes} {block : Int32} (h₀ : EventMessageHandle)
    (hconn : Conn r.handle g id ⟨[x], 0, block, false⟩)
    (hx : x :: hd = Bytes.le32 (UInt32.ofNat f.length)) (hf : h₀.Tolerates f) :
    ∃ arrivals r₁, arrivals.flatten = hd ++ f ∧
      (receiving runCallback g id h₀).runFrom r arrivals = some r₁ ∧ Idle g id r₁ := by
  obtain ⟨hpos, hlt⟩ := hf.length
  obtain ⟨arrivals, h₁, fuel, hflat, hrun, hconn₁⟩ :=
    exists_takes runCallback h₀ hconn hx (by omega) hlt
  obtain ⟨r₁, hr₁, hidle⟩ := readResult_tolerates hcb fuel r.passed hconn₁ hf
  exact ⟨arrivals, r₁, hflat, hrun.trans hr₁, hidle⟩

/-- Bytes that are not harmless can arrive so that they do harm. -/
theorem exists_harm (hcb : ∀ f h m, KeepsTypes g id h (runCallback f h m))
    (h₀ : EventMessageHandle) :
    ∀ (k : Nat) {bs : Bytes} {r : Receiver}, bs.length ≤ k → ¬ Harmless h₀ bs → Idle g id r →
      Harms runCallback g id h₀ r bs
  | 0, bs, r, hk, hbad, _ => absurd (.header (by omega)) hbad
  | k + 1, bs, r, hk, hbad, hidle => by
    have h5 : 4 < bs.length := by
      by_contra hle
      exact hbad (.header (by omega))
    obtain ⟨n, b, rfl⟩ := Bytes.exists_le32 bs (by omega)
    obtain ⟨x, hd, hx⟩ : ∃ x hd, Bytes.le32 n = x :: hd := ⟨_, _, rfl⟩
    have hlen : (Bytes.le32 n ++ b).length = 4 + b.length := by
      rw [List.length_append, Bytes.length_le32]
    -- the first byte arrives alone: what the next ones do is then the same in every idle state
    obtain ⟨r₁, block, harr₁, hconn⟩ : ∃ r₁ block, r.arrive runCallback g id [x] = some r₁ ∧
        Conn r₁.handle g id ⟨[x], 0, block, false⟩ := by
      obtain ⟨h₁, block, harr₁, hconn⟩ := hidle.first runCallback x
      exact ⟨_, block, harr₁, hconn⟩
    suffices Harms runCallback g id h₀ r₁ (hd ++ b) by
      rw [hx]
      exact Harms.after ((runFrom_one runCallback h₀ r [x]).trans harr₁) this
    by_cases hneg : 2 ^ 31 ≤ n.toNat
    · cases b with
      | nil => simp at h5
      | cons y b => exact harms_negative h₀ hconn hx hneg b
    by_cases hzero : n = 0
    · subst hzero
      obtain ⟨r₂, hrun₂, hidle₂⟩ := exists_idle_empty h₀ hconn hx
      simpa using (exists_harm hcb h₀ k (by omega) (fun hb => hbad (.empty hb)) hidle₂).after hrun₂
    -- a frame `f` of its size
    have hle : n.toNat ≤ b.length := by
      by_contra hlt
      exact hbad (.incomplete (by omega) (by omega))
    have hn0 : 0 < n.toNat := by
      rw [Nat.pos_iff_ne_zero]
      exact fun h => hzero (UInt32.toNat_inj.1 h)
    obtain ⟨f, rest, rfl, hf⟩ : ∃ f rest, b = f ++ rest ∧ f.length = n.toNat :=
      ⟨b.take n.toNat, b.drop n.toNat, (List.take_append_drop _ _).symm, by simp [hle]⟩
    have hn : UInt32.ofNat f.length = n := by rw [hf, UInt32.ofNat_toNat]
    rw [← List.append_assoc]
    by_cases htol : h₀.Tolerates f
    · have hrest : ¬ Harmless h₀ rest := by
        intro hr
        refine hbad ?_
        rw [← hn]
        exact .frame htol hr
      obtain ⟨arrivals, r₂, hflat, hrun₂, hidle₂⟩ :=
        exists_idle_frame hcb h₀ hconn (by rw [hn, hx]) htol
      rw [← hflat]
      exact (exists_harm hcb h₀ k (by rw [hlen, List.length_append] at hk; omega) hrest
        hidle₂).after hrun₂
    · exact harms_frame h₀ hconn (by rw [hn, hx]) (by omega) (by omega) htol rest

/-- **The receive path is safe on exactly the harmless streams.** -/
theorem safe_iff_harmless {h : EventMessageHandle}
    (hcb : ∀ f h m, KeepsTypes g id h (runCallback f h m)) (hnew : NewConnection h g id)
    (bs : Bytes) :
    (∀ arrivals : List Bytes, arrivals.flatten = bs →
      SafeRun (receiving runCallback g id h) arrivals) ↔ Harmless h bs := by
  obtain ⟨block, hconn⟩ := hnew
  constructor
  · intro hsafe
    by_contra hbad
    obtain ⟨arrivals, hflat, hharm⟩ := exists_harm hcb h bs.length (Nat.le_refl _) hbad
      (r := { handle := h }) ⟨[], block, hconn, Or.inl rfl⟩
    obtain ⟨r, hrun, -, hproper⟩ := hsafe arrivals hflat
    obtain ⟨m, hm, hnot⟩ := hharm r hrun
    exact hnot (hproper m hm)
  · rintro hh arrivals rfl
    have hsound : Sound g id h arrivals.flatten { handle := h } :=
      ⟨⟨_, hconn, hh⟩, rfl, fun m hm => absurd hm (List.not_mem_nil)⟩
    obtain ⟨r, hrun, -, htidy⟩ := hsound.run hcb h h
    exact ⟨r, hrun, htidy.configured, htidy.proper⟩

end

/-- The encoding of a message of the unknown group `x`, and a byte behind it. -/
def strayFrame : Bytes :=
  Content.encode ⟨Bytes.ofAscii "x", Bytes.ofAscii "t", Bytes.ofAscii "a", Bytes.ofAscii "b", [7],
    1⟩ ++ [170]

/-- The stray frame encodes nothing, but its names and its payload lie in it, and it is dropped. -/
theorem tolerates_strayFrame : oneConnection.Tolerates strayFrame := by
  refine ⟨_, rfl, ⟨?_, ?_, ?_, ?_, ?_⟩, fun hacc => ?_⟩
  · show 0 ∈ strayFrame.drop 24
    decide
  · show 0 ∈ strayFrame.drop 26
    decide
  · show 0 ∈ strayFrame.drop 28
    decide
  · show 0 ∈ strayFrame.drop 30
    decide
  · show 32 + 1 ≤ strayFrame.length
    decide
  · exact absurd hacc (by decide)

/-- On a stream with an empty frame, the stray frame, a message and the beginning of another every
run is safe; in one of them the message is queued, and it alone. On a frame of one byte no run is
that reads it. -/
theorem safe_iff_harmless_two :
    let S := receiving (fun _ h _ => h) (Bytes.ofAscii "g") 0 oneConnection
    let stray := Bytes.le32 34 ++ strayFrame
    (∀ arrivals : List Bytes, arrivals.flatten =
        Bytes.le32 0 ++ (stray ++ ((contentToB [7]).frame ++ [40, 0, 0, 0, 1, 2])) →
      SafeRun S arrivals) ∧
    ((S.run [Bytes.le32 0, stray, (contentToB [7]).frame.take 9,
        (contentToB [7]).frame.drop 9 ++ [40, 0], [0, 0, 1, 2]]).map fun r =>
      (r.passed.length, (r.handle.callbackInfor (Bytes.ofAscii "g") (Bytes.ofAscii "t")).map
        fun cb => cb.unprocessedMessList.map fun m => m.content.toOption)) =
      some (2, some [some (contentToB [7])]) ∧
    ¬ ∀ arrivals : List Bytes, arrivals.flatten = [1, 0, 0, 0, 7] → SafeRun S arrivals := by
  intro S stray
  have hkeeps : ∀ (_ : Nat) (h : EventMessageHandle) (_ : EventMessage),
      KeepsTypes (Bytes.ofAscii "g") 0 h h := fun _ _ _ => ⟨fun _ hc => hc, rfl⟩
  have hsafe := safe_iff_harmless hkeeps oneConnection_new
  refine ⟨(hsafe _).2 (.empty ?_), by decide +kernel, fun hall => ?_⟩
  · have hbegun : Harmless oneConnection (Bytes.le32 40 ++ [1, 2]) :=
      .incomplete (by decide) (by decide)
    have hmess := Harmless.frame (tolerates_encode (h := oneConnection) (c := contentToB [7])
      (by constructor <;> decide) (by decide)) hbegun
    rw [List.append_assoc]
    exact .frame tolerates_strayFrame hmess
  · have hone : Harmless oneConnection (Bytes.le32 1 ++ [7]) := (hsafe _).1 hall
    rcases hone.cases (by simp) with
      ⟨-, hlt⟩ | ⟨h0, -⟩ | ⟨f, rest, -, hf, happ, -⟩
    · exact absurd hlt (by decide)
    · exact absurd h0 (by decide)
    · have hlen := congrArg List.length happ
      have hpos : 24 < f.length := hf.length.1
      rw [List.length_append, List.length_singleton] at hlen
      omega

/-- Five bytes that announce a frame of `-1` bytes, a frame of one byte, and the encoding of a
message with another offset of its payload. On a connection that starts with `cache_block` set, as
its record may, not even a message of the sender is safe. -/
theorem not_safe_bytes :
    let S := receiving (fun _ h _ => h) (Bytes.ofAscii "g") 0 oneConnection
    ¬ SafeRun S [[255, 255, 255, 255, 0]] ∧ ¬ SafeRun S [[1, 0, 0, 0, 7]] ∧
      ¬ SafeRun S [((contentToB [7]).frame.set 20 200)] ∧
      ¬ SafeRun (receiving (fun _ h _ => h) (Bytes.ofAscii "g") 0
          (oneConnection.putRx (Bytes.ofAscii "g") 0 ⟨[], 0, -1, true⟩))
        [(contentToB [7]).frame] := by
  refine ⟨?_, ?_, ?_, ?_⟩
  · rintro ⟨r, hr, -⟩
    cases hr
  · rintro ⟨r, hr, -⟩
    cases hr
  · rintro ⟨r, hr, -, hproper⟩
    cases hr
    have hslice : 200 + 1 ≤ 33 := (hproper _ (List.mem_singleton_self _)).1.message
    exact absurd hslice (by decide)
  · rintro ⟨r, hr, -⟩
    cases hr

end Net
