import Mtc.Net.Proof.Delivery
import Mtc.Net.Proof.Records

/-!
# Arrivals with callbacks that have a state

The read callback takes one message after the other from a connection and gives it to
`try_run_callback`, which may answer on this or on another connection before the next one is taken.
`arrive_rule` is the rule for that: what holds of the state and of the messages that are still to be
passed on, if reading keeps it and `try_run_callback` keeps it for the next message, holds after the
arrival, of the messages in which the connection then waits.
-/

namespace Net

open Except (ok_bind)
open EventMessage (Content)
open EventMessageHandle Framing

/-- What arrives is taken off the front of what is on its way. -/
theorem Bufferevent.piece_append_drop (bev : Bufferevent) (k n : Nat) :
    bev.piece k n ++ bev.output.drop (k + (bev.piece k n).length) = bev.output.drop k := by
  rw [piece, ← List.drop_drop, List.length_take, ← List.drop_eq_drop_min, List.take_append_drop]

/-! ## Rounds of the loop -/

section
variable {σ : Type} {callback : Nat → σ → EventMessageHandle → EventMessage →
  Except Fault (σ × EventMessageHandle)}
  {h : EventMessageHandle} {g : Bytes} {id : Int32} {rx : Rx}

variable (callback) in
/-- A round of the loop behind `recive_str_NoWait`. -/
def roundEndOn (g : Bytes) (id : Int32) (fuel : Nat) (s : σ) (h : EventMessageHandle)
    (size : Int32) (str : Bytes) : Except Fault (Option (Bool × σ × EventMessageHandle)) := do
  if size ≤ 0 then
    return some (false, s, h)
  let mess ← { bufferStr := str, bufferSize := size.toUInt32 : EventMessage }.initMessagePtr
  let (ok, s, h) ← tryRunCallbackOn callback s h mess
  if ok then readCallbackOn callback g id fuel s h
  else return some (false, s, h)

variable {group : GroupInfor} {info : BevInfor}

theorem readCallbackOn_empty (hc : Conn h g id rx) (hl : ¬ Int32.ofSizeT rx.input.length > 0)
    (fuel : Nat) (s : σ) :
    readCallbackOn callback g id (fuel + 1) s h = .ok (some (true, s, h)) := by
  obtain ⟨group, info, hg, hr, rfl⟩ := hc
  simp only [BevInfor.rx] at hl
  simp only [readCallbackOn, hg, orFault, ok_bind, hr.getReciveBufferLength_eq]
  rw [if_neg hl, putHandle_self hg]
  rfl

theorem readCallbackOn_header (hc : Conn h g id rx) (hp : Int32.ofSizeT rx.input.length > 0)
    (hl : (Int32.ofSizeT rx.input.length).sizeT ≤ sizeofBlock) (fuel : Nat) (s : σ) :
    readCallbackOn callback g id (fuel + 1) s h = .ok (some (false, s, h)) := by
  obtain ⟨group, info, hg, hr, rfl⟩ := hc
  simp only [BevInfor.rx] at hp hl
  simp only [readCallbackOn, hg, orFault, ok_bind, hr.getReciveBufferLength_eq]
  rw [if_pos hp, hr.reciveStrNoWait_header hl, ok_bind]
  simp only [putHandle_self hg]
  rfl

/-- A round that has a length to work with. -/
theorem readCallbackOn_recive (hg : h.messGroupMap.findKey g = some group)
    (hr : group.handle.Ready id info) (hp : Int32.ofSizeT info.bev.input.length > 0)
    (hl : ¬ (Int32.ofSizeT info.bev.input.length).sizeT ≤ sizeofBlock) (fuel : Nat) (s : σ) :
    readCallbackOn callback g id (fuel + 1) s h = info.recive >>= fun x =>
      roundEndOn callback g id fuel s (h.putRecord g id x.2.2) x.1 x.2.1 := by
  simp only [readCallbackOn, hg, orFault, ok_bind, hr.getReciveBufferLength_eq, if_pos hp,
    hr.reciveStrNoWait_eq hl, bind_assoc, putRecord_eq hg]
  rfl

/-- A round that has taken a frame passes its message on. -/
theorem roundEndOn_passed {c : Content} (hlt : c.size < 2 ^ 31) {s s' : σ}
    {h' : EventMessageHandle}
    (ht : tryRunCallbackOn callback s h (decoded c) = .ok (true, s', h')) (fuel : Nat) :
    roundEndOn callback g id fuel s h (Int32.ofSizeT c.size) c.encode =
      readCallbackOn callback g id fuel s' h' := by
  have hpos : ¬ Int32.ofSizeT c.size ≤ 0 := by
    have := sizeofCursor_lt_size c
    rw [Int32.le_iff_toInt_le, Int32.toInt_ofSizeT_of_lt hlt, Int32.toInt_zero]
    omega
  simp only [roundEndOn, if_neg hpos, Int32.toUInt32_ofSizeT, initMessagePtr_encode
    (show c.size < 2 ^ 32 by omega), ok_bind, ht]
  rfl

/-! ## The rule -/

/-- Reading a record keeps `J`, which is about the messages that are still to be passed on. -/
def ReadKeeps (g : Bytes) (id : Int32) (J : List Content → σ → EventMessageHandle → Prop) : Prop :=
  ∀ cs s h lib info, J cs s h → h.lib g = some lib → lib.Ready id info →
    ∀ rx : Rx, rx.input.length ≤ info.bev.input.length → J cs s (h.putRecord g id (info.withRx rx))

/-- `try_run_callback` returns `true` for the next message and keeps `J`, once its frame is taken
from the input. -/
def PassKeeps (callback : Nat → σ → EventMessageHandle → EventMessage →
    Except Fault (σ × EventMessageHandle)) (g : Bytes) (id : Int32)
    (J : List Content → σ → EventMessageHandle → Prop) : Prop :=
  ∀ c cs s h lib info, J (c :: cs) s h → h.lib g = some lib → lib.Ready id info →
    ∀ rx : Rx, rx.input.length < info.bev.input.length →
    ∃ s' h', tryRunCallbackOn callback s (h.putRecord g id (info.withRx rx)) (decoded c) =
        .ok (true, s', h') ∧ J cs s' h' ∧ Conn h' g id rx

variable {J : List Content → σ → EventMessageHandle → Prop} {fut : Bytes}

variable (callback J fut) in
/-- What the loop comes to: some of the messages are passed on, and the connection waits in the
others. -/
def RunsTo (g : Bytes) (id : Int32) (fuel : Nat) (s : σ) (h : EventMessageHandle)
    (cs : List Content) : Prop :=
  ∃ done rest b s' h' rx', cs = done ++ rest ∧
    readCallbackOn callback g id fuel s h = .ok (some (b, s', h')) ∧ J rest s' h' ∧
    Conn h' g id rx' ∧ Waiting rx' rest fut

theorem RunsTo.cons {fuel : Nat} {s s' : σ} {h' : EventMessageHandle} {c : Content}
    {cs : List Content} (hr : RunsTo callback J fut g id fuel s' h' cs)
    (heq : readCallbackOn callback g id (fuel + 1) s h = readCallbackOn callback g id fuel s' h') :
    RunsTo callback J fut g id (fuel + 1) s h (c :: cs) := by
  obtain ⟨done, rest, b, s'', h'', rx', rfl, hloop, hJ, hconn, hwait⟩ := hr
  exact ⟨c :: done, rest, b, s'', h'', rx', rfl, heq.trans hloop, hJ, hconn, hwait⟩

/-- A header with bytes behind it that belong to `c` and the messages `cs`. -/
theorem runsTo_opens (hread : ReadKeeps g id J) (hpass : PassKeeps callback g id J) {c : Content}
    {cs : List Content} {t : Bytes} {fuel : Nat} {s : σ} (hJ : J (c :: cs) s h)
    (hc : Conn h g id rx) (ho : Opens rx c t) (ht : t ++ fut = c.encode ++ wire cs)
    (hlen : rx.input.length < 2 ^ 31) (hle : t.length ≤ rx.input.length)
    (h4 : 4 < rx.input.length) (hlt : c.size < 2 ^ 31)
    (hgo : ∀ (s' : σ) (h' : EventMessageHandle) (t' : Bytes), J cs s' h' →
      Conn h' g id ⟨t', 0, Int32.ofSizeT c.size, false⟩ → t' ++ fut = wire cs →
      t'.length < t.length → RunsTo callback J fut g id fuel s' h' cs) :
    RunsTo callback J fut g id (fuel + 1) s h (c :: cs) := by
  obtain ⟨group, info, hg, hr, rfl⟩ := hc
  have hlib : h.lib g = some group.handle := lib_eq_some.2 ⟨group, hg, rfl⟩
  simp only [BevInfor.rx] at hlen hle h4
  have hp : Int32.ofSizeT info.bev.input.length > 0 := (Int32.ofSizeT_pos_iff hlen).2 (by omega)
  have hl : ¬ (Int32.ofSizeT info.bev.input.length).sizeT ≤ sizeofBlock := by
    rw [Int32.sizeT_ofSizeT_of_lt hlen, sizeofBlock]
    omega
  by_cases hshort : t.length < c.size
  · obtain ⟨str, hrec⟩ := BevInfor.recive_incomplete ho hr.readSingal hl hlt
      ((Int32.ofSizeT_lt_iff (by omega) hlt).2 hshort)
    refine ⟨[], c :: cs, false, s, _, ⟨t, c.size, Int32.ofSizeT c.size, true⟩, rfl, ?_,
      hread _ _ _ _ _ hJ hlib hr ⟨t, c.size, Int32.ofSizeT c.size, true⟩ hle, ?_,
      Or.inr ⟨c, cs, rfl, rfl, rfl, rfl, hshort, ht⟩⟩
    · rw [readCallbackOn_recive hg hr hp hl, hrec]
      rfl
    · rw [putRecord_eq hg]
      exact conn_putHandle hg hr (info.withRx _) hr.readSingal
  · obtain ⟨t', rfl, ht'⟩ := append_split ht (by rw [length_encode]; omega)
    have hrec := BevInfor.recive_complete ho hr.readSingal hl hlt
      (by rwa [Int32.ofSizeT_lt_iff (by omega) hlt])
    have hpos := sizeofCursor_lt_size c
    rw [List.length_append, length_encode] at hle
    obtain ⟨s', h', htry, hJ', hconn⟩ := hpass _ _ _ _ _ _ hJ hlib hr
      ⟨t', 0, Int32.ofSizeT c.size, false⟩ (by dsimp only; omega)
    refine (hgo s' h' t' hJ' hconn ht' (by simp; omega)).cons ?_
    rw [readCallbackOn_recive hg hr hp hl, hrec, ok_bind]
    exact roundEndOn_passed hlt htry fuel

/-- One callback passes on the messages that are complete. -/
theorem readCallbackOn_rule (hread : ReadKeeps g id J) (hpass : PassKeeps callback g id J) :
    ∀ {cs : List Content} {s : σ} {h : EventMessageHandle} {rx : Rx} {fuel : Nat}, J cs s h →
      Conn h g id rx → Arrived rx cs fut → rx.input.length < 2 ^ 31 → rx.input.length < fuel →
      (∀ c ∈ cs, c.size < 2 ^ 31) → RunsTo callback J fut g id fuel s h cs
  | cs, s, h, rx, fuel + 1, hJ, hc, ha, hlen, hfuel, hd => by
    obtain ⟨hcache, hlow, hi⟩ | ⟨c, cs, rfl, hcache, hblock, hle, hi⟩ := ha
    · by_cases h4 : rx.input.length ≤ 4
      · have hw : Waiting rx cs fut := Or.inl ⟨hcache, hlow, h4, hi⟩
        by_cases h0 : 0 < rx.input.length
        · refine ⟨[], cs, false, s, h, rx, rfl, ?_, hJ, hc, hw⟩
          exact readCallbackOn_header hc ((Int32.ofSizeT_pos_iff hlen).2 h0)
            (by rw [Int32.sizeT_ofSizeT_of_lt hlen]; exact h4) fuel s
        · refine ⟨[], cs, true, s, h, rx, rfl, ?_, hJ, hc, hw⟩
          exact readCallbackOn_empty hc (by rwa [Int32.ofSizeT_pos_iff hlen]) fuel s
      · cases cs with
        | nil =>
          obtain ⟨h0, -⟩ := List.append_eq_nil_iff.1 hi
          rw [h0] at h4
          exact absurd (Nat.zero_le 4) h4
        | cons c cs =>
          rw [wire_cons, Content.frame, List.append_assoc] at hi
          obtain ⟨t, ht, htf⟩ := append_split hi (by rw [Bytes.length_le32]; omega)
          have hlt : rx.input.length = 4 + t.length := by
            rw [ht, List.length_append, Bytes.length_le32]
          refine runsTo_opens hread hpass hJ hc (Or.inr ⟨hcache, ht⟩) htf hlen (by omega)
            (by omega) (hd c List.mem_cons_self) fun s' h' t' hJ' hconn ht' hl => ?_
          exact readCallbackOn_rule hread hpass hJ' hconn (Or.inl ⟨rfl, rfl, ht'⟩)
            (by dsimp only; omega) (by dsimp only; omega) fun c hm => hd c (.tail _ hm)
    · have hpos := sizeofCursor_lt_size c
      unfold EventMessage.sizeofCursor at hpos
      refine runsTo_opens hread hpass hJ hc (Or.inl ⟨hcache, hblock, rfl⟩) hi hlen
        (Nat.le_refl _) (by omega) (hd c List.mem_cons_self) fun s' h' t' hJ' hconn ht' hl => ?_
      exact readCallbackOn_rule hread hpass hJ' hconn (Or.inl ⟨rfl, rfl, ht'⟩)
        (by dsimp only; omega) (by dsimp only; omega) fun c hm => hd c (.tail _ hm)

/-- What an arrival makes of the result of the loop. -/
def loopResult : Option (Bool × σ × EventMessageHandle) → Except Fault (σ × EventMessageHandle)
  | some (_, s, h) => .ok (s, h)
  | none => .error .spins

theorem arrive_eq (hg : h.messGroupMap.findKey g = some group)
    (hf : group.handle.bevMap.findKey id = some info) (s : σ) (bytes : Bytes) :
    h.arrive callback g id s bytes =
      if (info.bev.input ++ bytes).length < info.bev.readLow then
        .ok (s, h.putRecord g id (info.received bytes))
      else readCallbackOn callback g id ((info.bev.input ++ bytes).length + 1) s
        (h.putRecord g id (info.received bytes)) >>= loopResult := by
  rw [putRecord_eq hg]
  simp only [EventMessageHandle.arrive, hg, orFault, ok_bind, hf]
  rfl

/-- **The rule for an arrival.** -/
theorem arrive_rule (hread : ReadKeeps g id J) (hpass : PassKeeps callback g id J)
    {cs : List Content} {s : σ} {lib : LibeventHandle} {info : BevInfor} {bytes : Bytes}
    (hlib : h.lib g = some lib) (hr : lib.Ready id info)
    (hJ : J cs s (h.putRecord g id (info.received bytes)))
    (hw : Waiting info.rx cs (bytes ++ fut))
    (hlen : (info.bev.input ++ bytes).length < 2 ^ 31) (hd : ∀ c ∈ cs, c.size < 2 ^ 31) :
    ∃ done rest s' h' rx', cs = done ++ rest ∧
      h.arrive callback g id s bytes = .ok (s', h') ∧ J rest s' h' ∧ Conn h' g id rx' ∧
      Waiting rx' rest fut := by
  obtain ⟨group, hg, rfl⟩ := lib_eq_some.1 hlib
  have hconn : Conn (h.putRecord g id (info.received bytes)) g id (info.received bytes).rx := by
    rw [putRecord_eq hg]
    exact conn_putHandle hg hr (info.received bytes) hr.readSingal
  rw [arrive_eq hg hr.found]
  obtain ⟨hlow, hw', -⟩ | ⟨hlow, ha⟩ := hw.arrive
  · simp only [BevInfor.rx] at hlow
    rw [if_pos hlow]
    exact ⟨[], cs, s, _, _, rfl, rfl, hJ, hconn, hw'⟩
  · simp only [BevInfor.rx] at hlow
    rw [if_neg hlow]
    obtain ⟨done, rest, b, s', h', rx', rfl, hloop, hJ', hconn', hwait⟩ :=
      readCallbackOn_rule hread hpass hJ hconn ha hlen
        (Nat.lt_succ_self (info.bev.input ++ bytes).length) hd
    refine ⟨done, rest, s', h', rx', rfl, ?_, hJ', hconn', hwait⟩
    rw [hloop]
    rfl

end

/-! ## Callbacks without a state -/

section
variable (runCallback : Nat → EventMessageHandle → EventMessage → EventMessageHandle)

/-- A callback that only changes the handle. -/
def onHandle (f : Nat) (s : Unit) (h : EventMessageHandle) (m : EventMessage) :
    Except Fault (Unit × EventMessageHandle) := .ok (s, runCallback f h m)

theorem tryRunCallbackOn_onHandle (h : EventMessageHandle) (m : EventMessage) :
    tryRunCallbackOn (onHandle runCallback) () h m =
      (tryRunCallback runCallback h m).map fun x => (x.1, (), x.2) := by
  unfold tryRunCallbackOn tryRunCallback
  cases h.dispatch m with
  | error e => rfl
  | ok d => cases d <;> rfl

/-- With such callbacks the loop is `readCallbackLoop`. -/
theorem readCallbackOn_onHandle (g : Bytes) (id : Int32) : ∀ (fuel : Nat) (h : EventMessageHandle)
    (passed : List EventMessage), readCallbackOn (onHandle runCallback) g id fuel () h =
      (readCallbackLoop runCallback g id fuel h passed).map fun x => x.map fun x => (x.1, (), x.2.2)
  | 0, _, _ => rfl
  | fuel + 1, h, passed => by
    unfold readCallbackOn readCallbackLoop
    cases orFault .outOfBounds (h.messGroupMap.findKey g) with
    | error e => rfl
    | ok group =>
    simp only [ok_bind]
    cases group.handle.getReciveBufferLength id with
    | error e => rfl
    | ok len =>
    simp only [ok_bind]
    by_cases hlen : len.1 > 0
    swap
    · simp only [if_neg hlen]
      rfl
    simp only [if_pos hlen]
    cases len.2.reciveStrNoWait id [] with
    | error e => rfl
    | ok x =>
    simp only [ok_bind]
    by_cases hx : x.1 ≤ 0
    · simp only [if_pos hx]
      rfl
    simp only [if_neg hx]
    cases EventMessage.initMessagePtr { bufferStr := x.2.1, bufferSize := x.1.toUInt32 } with
    | error e => rfl
    | ok mess =>
    simp only [ok_bind, tryRunCallbackOn_onHandle]
    cases tryRunCallback runCallback (h.putHandle g group x.2.2) mess with
    | error e => rfl
    | ok r =>
    obtain ⟨ok, h'⟩ := r
    cases ok with
    | true => exact readCallbackOn_onHandle g id fuel h' (passed ++ [mess])
    | false => rfl

end

end Net
