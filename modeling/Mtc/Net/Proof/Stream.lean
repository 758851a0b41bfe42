import Mtc.Net.Proof.Receive
import Mtc.Net.Proof.Send

/-!
# A stream of frames, however it is cut

A connection between two arrivals waits in the middle of a frame (`Waiting`): for the rest of a
header, or with the header cached for the rest of the message. An arrival takes it to the next such
place and passes on the messages that became complete (`arrive_fits`), as long as the input buffer
holds less than `2 ^ 31` bytes; with more, the `int` that `get_recive_buffer_length` returns is no
longer the length, and a complete message is left behind (`arrive_overflow`).
-/

namespace Net

open EventMessage (Content)
open EventMessageHandle Framing

/-- A message that the receiver takes: its group is that of the connection, its type is configured,
and the `int` in front of it is its size. -/
structure Deliverable (h : EventMessageHandle) (g : Bytes) (c : Content) : Prop where
  valid : c.Valid
  group : c.groupName = g
  configured : Configured h g c.messType
  size : c.frame.length < 2 ^ 31

theorem Deliverable.size_lt {h : EventMessageHandle} {g : Bytes} {c : Content}
    (hd : Deliverable h g c) : c.size < 2 ^ 31 := by
  have := hd.size
  rw [length_frame] at this
  omega

theorem Deliverable.mono {h h' : EventMessageHandle} {g : Bytes} {cs : List Content}
    (hd : ∀ c ∈ cs, Deliverable h g c) (hc : ∀ t, Configured h g t → Configured h' g t) :
    ∀ c ∈ cs, Deliverable h' g c := by
  intro c hm
  obtain ⟨hv, hg, hcf, hs⟩ := hd c hm
  exact ⟨hv, hg, hc _ hcf, hs⟩

/-! ## Between arrivals -/

/-- The connection waits inside the first frame of `cs`, and `fut` is still to come. -/
def Waiting (rx : Rx) (cs : List Content) (fut : Bytes) : Prop :=
  rx.cacheBlock = false ∧ rx.readLow = 0 ∧ rx.input.length ≤ 4 ∧ rx.input ++ fut = wire cs ∨
  ∃ c cs', cs = c :: cs' ∧ rx.cacheBlock = true ∧ rx.block = Int32.ofSizeT c.size ∧
    rx.readLow = c.size ∧ rx.input.length < c.size ∧ rx.input ++ fut = c.encode ++ wire cs'

/-- The connection is about to be read: a cached header has its message behind it. -/
def Arrived (rx : Rx) (cs : List Content) (fut : Bytes) : Prop :=
  rx.cacheBlock = false ∧ rx.readLow = 0 ∧ rx.input ++ fut = wire cs ∨
  ∃ c cs', cs = c :: cs' ∧ rx.cacheBlock = true ∧ rx.block = Int32.ofSizeT c.size ∧
    c.size ≤ rx.input.length ∧ rx.input ++ fut = c.encode ++ wire cs'

/-- The first frame is not complete: the bytes that have arrived of it are fewer. -/
theorem Waiting.incomplete {rx : Rx} {cs : List Content} {fut : Bytes} (h : Waiting rx cs fut) :
    ∃ k, (wire cs).length = k + fut.length ∧ ∀ c ∈ cs.head?, k < c.frame.length := by
  obtain ⟨-, -, hl, hi⟩ | ⟨c, cs', rfl, -, -, -, hl, hi⟩ := h
  · refine ⟨rx.input.length, by rw [← hi, List.length_append], fun c _ => ?_⟩
    have := sizeofCursor_lt_size c
    rw [length_frame]
    omega
  · refine ⟨4 + rx.input.length, ?_, fun c' hc' => ?_⟩
    · have := congrArg List.length hi
      simp only [List.length_append, length_encode] at this
      rw [wire_cons, List.length_append, length_frame]
      omega
    · cases hc'
      rw [length_frame]
      omega

theorem waiting_nil {cs : List Content} (block : Int32) :
    Waiting ⟨[], 0, block, false⟩ cs (wire cs) :=
  Or.inl ⟨rfl, rfl, Nat.zero_le _, rfl⟩

/-! ## One callback -/

section
variable {runCallback : Nat → EventMessageHandle → EventMessage → EventMessageHandle}
  {g : Bytes} {id : Int32} {fut : Bytes}

/-- What the loop comes to: the messages `done` are passed on, and the connection waits in
`rest`. -/
def LoopsTo (runCallback : Nat → EventMessageHandle → EventMessage → EventMessageHandle)
    (g : Bytes) (id : Int32) (fut : Bytes) (fuel : Nat) (h : EventMessageHandle)
    (passed : List EventMessage) (cs : List Content) : Prop :=
  ∃ done rest b h' rx', cs = done ++ rest ∧
    readCallbackLoop runCallback g id fuel h passed =
      .ok (some (b, passed ++ done.map decoded, h')) ∧
    Conn h' g id rx' ∧ Waiting rx' rest fut ∧ ∀ t, Configured h g t → Configured h' g t

/-- A header with bytes behind it that belong to `c` and the messages `cs`. -/
theorem loop_opens {h : EventMessageHandle} {rx : Rx} {c : Content} {cs : List Content} {t : Bytes}
    {fuel : Nat} {passed : List EventMessage}
    (hcb : ∀ f h m, Keeps g id h (runCallback f h m)) (hc : Conn h g id rx)
    (ho : Opens rx c t) (ht : t ++ fut = c.encode ++ wire cs)
    (hlen : rx.input.length < 2 ^ 31) (hle : t.length ≤ rx.input.length)
    (h4 : 4 < rx.input.length) (hd : Deliverable h g c)
    (hgo : ∀ (h' : EventMessageHandle) (t' : Bytes) (passed' : List EventMessage),
      Conn h' g id ⟨t', 0, Int32.ofSizeT c.size, false⟩ → t' ++ fut = wire cs →
      t'.length < t.length → (∀ t, Configured h g t → Configured h' g t) →
      LoopsTo runCallback g id fut fuel h' passed' cs) :
    LoopsTo runCallback g id fut (fuel + 1) h passed (c :: cs) := by
  have hp : Int32.ofSizeT rx.input.length > 0 := (Int32.ofSizeT_pos_iff hlen).2 (by omega)
  have hl : ¬ (Int32.ofSizeT rx.input.length).sizeT ≤ sizeofBlock := by
    rw [Int32.sizeT_ofSizeT_of_lt hlen, sizeofBlock]
    omega
  have hlt := hd.size_lt
  by_cases hshort : t.length < c.size
  · have heq := loop_short runCallback hc ho hp hl hlt
      ((Int32.ofSizeT_lt_iff (by omega) hlt).2 hshort) fuel passed
    refine ⟨[], c :: cs, false, _, ⟨t, c.size, Int32.ofSizeT c.size, true⟩, rfl, ?_, hc.putRx _,
      Or.inr ⟨c, cs, rfl, rfl, rfl, rfl, hshort, ht⟩, hc.configured_putRx _⟩
    rw [heq, List.map_nil, List.append_nil]
  · obtain ⟨t', rfl, ht'⟩ := append_split ht (by rw [length_encode]; omega)
    obtain ⟨h', hconn, hconf, heq⟩ := loop_frame runCallback hcb hc ho hp hl
      (by rwa [Int32.ofSizeT_lt_iff (by omega) hlt]) hd.valid hlt hd.group hd.configured
    have hpos := sizeofCursor_lt_size c
    obtain ⟨done, rest, b, h'', rx', rfl, hloop, hconn', hwait, hconf'⟩ :=
      hgo h' t' (passed ++ [decoded c]) hconn ht' (by simp; omega) hconf
    refine ⟨c :: done, rest, b, h'', rx', rfl, ?_, hconn', hwait, fun t h => hconf' t (hconf t h)⟩
    rw [heq, hloop, List.append_assoc]
    rfl

/-- **One callback passes on the messages that are complete.** -/
theorem loop_fits (hcb : ∀ f h m, Keeps g id h (runCallback f h m)) :
    ∀ {cs : List Content} {h : EventMessageHandle} {rx : Rx} {fuel : Nat}
      (passed : List EventMessage), Conn h g id rx → Arrived rx cs fut →
      rx.input.length < 2 ^ 31 → rx.input.length < fuel → (∀ c ∈ cs, Deliverable h g c) →
      LoopsTo runCallback g id fut fuel h passed cs
  | cs, h, rx, fuel + 1, passed, hc, ha, hlen, hfuel, hd => by
    obtain ⟨hcache, hlow, hi⟩ | ⟨c, cs, rfl, hcache, hblock, hle, hi⟩ := ha
    · by_cases h4 : rx.input.length ≤ 4
      · have hw : Waiting rx cs fut := Or.inl ⟨hcache, hlow, h4, hi⟩
        by_cases h0 : 0 < rx.input.length
        · refine ⟨[], cs, false, h, rx, rfl, ?_, hc, hw, fun _ h => h⟩
          rw [loop_header runCallback hc ((Int32.ofSizeT_pos_iff hlen).2 h0)
            (by rw [Int32.sizeT_ofSizeT_of_lt hlen]; exact h4), List.map_nil, List.append_nil]
        · refine ⟨[], cs, true, h, rx, rfl, ?_, hc, hw, fun _ h => h⟩
          rw [loop_empty runCallback hc (by rwa [Int32.ofSizeT_pos_iff hlen]), List.map_nil,
            List.append_nil]
      · cases cs with
        | nil =>
          obtain ⟨h0, -⟩ := List.append_eq_nil_iff.1 hi
          rw [h0] at h4
          exact absurd (Nat.zero_le 4) h4
        | cons c cs =>
          rw [wire_cons, Content.frame, List.append_assoc] at hi
          obtain ⟨t, ht, htf⟩ := append_split hi (by rw [Bytes.length_le32]; omega)
          have hlt : rx.input.length = 4 + t.length := by
            rw [ht, List.length_append, Bytes.length_le32]
          refine loop_opens hcb hc (Or.inr ⟨hcache, ht⟩) htf hlen (by omega) (by omega)
            (hd c (List.mem_cons_self ..)) fun h' t' passed' hconn ht' hl hconf => ?_
          exact loop_fits hcb passed' hconn (Or.inl ⟨rfl, rfl, ht'⟩) (by dsimp only; omega)
            (by dsimp only; omega) (Deliverable.mono (fun c hm => hd c (.tail _ hm)) hconf)
    · have hpos := sizeofCursor_lt_size c
      unfold EventMessage.sizeofCursor at hpos
      refine loop_opens hcb hc (Or.inl ⟨hcache, hblock, rfl⟩) hi hlen (Nat.le_refl _) (by omega)
        (hd c (List.mem_cons_self ..)) fun h' t' passed' hconn ht' hl hconf => ?_
      exact loop_fits hcb passed' hconn (Or.inl ⟨rfl, rfl, ht'⟩) (by dsimp only; omega)
        (by dsimp only; omega) (Deliverable.mono (fun c hm => hd c (.tail _ hm)) hconf)

/-! ## A buffer outside the range of an `int` -/

/-- What the loop comes to when the length of the input is not in range: a complete message `c` is
left behind. -/
def LeavesOne (runCallback : Nat → EventMessageHandle → EventMessage → EventMessageHandle)
    (g : Bytes) (id : Int32) (fut : Bytes) (fuel : Nat) (h : EventMessageHandle)
    (passed : List EventMessage) (cs : List Content) : Prop :=
  ∃ done c rest b h', cs = done ++ c :: rest ∧
    readCallbackLoop runCallback g id fuel h passed =
      .ok (some (b, passed ++ done.map decoded, h')) ∧
    fut.length ≤ (wire rest).length

theorem leavesOne_nil {h h' : EventMessageHandle} {fuel : Nat} {passed : List EventMessage}
    {c : Content} {cs : List Content} {b : Bool}
    (hl : readCallbackLoop runCallback g id fuel h passed = .ok (some (b, passed, h')))
    (hfut : fut.length ≤ (wire cs).length) :
    LeavesOne runCallback g id fut fuel h passed (c :: cs) := by
  refine ⟨[], c, cs, b, h', rfl, ?_, hfut⟩
  rw [hl, List.map_nil, List.append_nil]

theorem loop_opens_overflow {h : EventMessageHandle} {rx : Rx} {c : Content} {cs : List Content}
    {t : Bytes} {fuel : Nat} {passed : List EventMessage}
    (hcb : ∀ f h m, Keeps g id h (runCallback f h m)) (hc : Conn h g id rx)
    (ho : Opens rx c t) (ht : t ++ fut = c.encode ++ wire cs)
    (hlen : 2 ^ 31 ≤ rx.input.length) (hle : rx.input.length ≤ t.length + 4)
    (hd : Deliverable h g c)
    (hgo : ∀ (h' : EventMessageHandle) (t' : Bytes) (passed' : List EventMessage),
      Conn h' g id ⟨t', 0, Int32.ofSizeT c.size, false⟩ → t' ++ fut = wire cs →
      2 ^ 31 ≤ t'.length → t'.length < t.length → (∀ t, Configured h g t → Configured h' g t) →
      LeavesOne runCallback g id fut fuel h' passed' cs) :
    LeavesOne runCallback g id fut (fuel + 1) h passed (c :: cs) := by
  have hlt := hd.size_lt
  have hfr := hd.size
  rw [length_frame] at hfr
  have hfut : fut.length ≤ (wire cs).length := by
    have := congrArg List.length ht
    simp only [List.length_append, length_encode] at this
    omega
  by_cases hp : Int32.ofSizeT rx.input.length > 0
  swap
  · exact leavesOne_nil (loop_empty runCallback hc hp fuel passed) hfut
  by_cases hl : (Int32.ofSizeT rx.input.length).sizeT ≤ sizeofBlock
  · exact leavesOne_nil (loop_header runCallback hc hp hl fuel passed) hfut
  by_cases hshort : Int32.ofSizeT t.length < Int32.ofSizeT c.size
  · exact leavesOne_nil (loop_short runCallback hc ho hp hl hlt hshort fuel passed) hfut
  · have hbig : 2 ^ 32 ≤ rx.input.length := by
      rw [gt_iff_lt, Int32.lt_iff_toInt_lt, Int32.toInt_zero] at hp
      have := Int32.le_of_le_toInt_ofSizeT (k := 0) hlen (by omega)
      omega
    have hfull : 2 ^ 32 + c.size ≤ t.length := by
      refine Int32.le_of_le_toInt_ofSizeT (by omega) ?_
      rw [Int32.lt_iff_toInt_lt, Int32.toInt_ofSizeT_of_lt hlt] at hshort
      omega
    obtain ⟨t', rfl, ht'⟩ := append_split ht (by rw [length_encode]; omega)
    obtain ⟨h', hconn, hconf, heq⟩ := loop_frame runCallback hcb hc ho hp hl hshort hd.valid hlt
      hd.group hd.configured
    rw [List.length_append, length_encode] at hfull
    have hpos := sizeofCursor_lt_size c
    obtain ⟨done, c', rest, b, h'', rfl, hloop, hfut'⟩ := hgo h' t' (passed ++ [decoded c]) hconn
      ht' (by omega) (by simp; omega) hconf
    refine ⟨c :: done, c', rest, b, h'', rfl, ?_, hfut'⟩
    rw [heq, hloop, List.append_assoc]
    rfl

/-- **With `2 ^ 31` bytes or more in the input, a callback leaves a complete message behind.** -/
theorem loop_overflow (hcb : ∀ f h m, Keeps g id h (runCallback f h m)) :
    ∀ {cs : List Content} {h : EventMessageHandle} {rx : Rx} {fuel : Nat}
      (passed : List EventMessage), Conn h g id rx → Arrived rx cs fut →
      2 ^ 31 ≤ rx.input.length → rx.input.length < fuel → (∀ c ∈ cs, Deliverable h g c) →
      LeavesOne runCallback g id fut fuel h passed cs
  | cs, h, rx, fuel + 1, passed, hc, ha, hlen, hfuel, hd => by
    obtain ⟨hcache, hlow, hi⟩ | ⟨c, cs, rfl, hcache, hblock, hle, hi⟩ := ha
    · cases cs with
      | nil =>
        obtain ⟨h0, -⟩ := List.append_eq_nil_iff.1 hi
        rw [h0, List.length_nil] at hlen
        omega
      | cons c cs =>
        rw [wire_cons, Content.frame, List.append_assoc] at hi
        obtain ⟨t, ht, htf⟩ := append_split hi (by rw [Bytes.length_le32]; omega)
        have hlt : rx.input.length = 4 + t.length := by
          rw [ht, List.length_append, Bytes.length_le32]
        refine loop_opens_overflow hcb hc (Or.inr ⟨hcache, ht⟩) htf hlen (by omega)
          (hd c (List.mem_cons_self ..)) fun h' t' passed' hconn ht' hbig hl hconf => ?_
        exact loop_overflow hcb passed' hconn (Or.inl ⟨rfl, rfl, ht'⟩) hbig
          (by dsimp only; omega) (Deliverable.mono (fun c hm => hd c (.tail _ hm)) hconf)
    · refine loop_opens_overflow hcb hc (Or.inl ⟨hcache, hblock, rfl⟩) hi hlen (by omega)
        (hd c (List.mem_cons_self ..)) fun h' t' passed' hconn ht' hbig hl hconf => ?_
      exact loop_overflow hcb passed' hconn (Or.inl ⟨rfl, rfl, ht'⟩) hbig
        (by dsimp only; omega) (Deliverable.mono (fun c hm => hd c (.tail _ hm)) hconf)

end

end Net
