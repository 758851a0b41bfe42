import Mtc.Net.Proof.Inbox

/-!
# A buffer of complete frames

`drains_iff`: one call of `read_callback_message_from_libevent` works through a buffer of complete
frames exactly if every message but the last is configured. A message that `check_mess_type` does
not know ends the loop in the same way as a frame that is not complete, with the frames behind it
still in the buffer (`not_drains`).
-/

namespace Net

open EventMessage (Content)
open EventMessageHandle Framing

/-! ## Accepting a message -/

section
variable {h : EventMessageHandle} {c : Content}

theorem accepts_eq {m : EventMessage} {g t : Bytes} (hg : m.groupName.str m.bufferStr = .ok g)
    (ht : m.messType.str m.bufferStr = .ok t) :
    h.accepts m = (h.callbackInfor g t).isSome := by
  rw [accepts]
  rcases checkMessType_cases h hg ht with ⟨e, hck⟩ | ⟨group, cb, hgroup, hcb, hck⟩
  · cases hinfo : h.callbackInfor g t with
    | none =>
      rw [hck]
      rfl
    | some cb =>
      obtain ⟨group, -, -, hfound⟩ := checkMessType_eq hg ht hinfo
      cases hck.symm.trans hfound
  · rw [hck, callbackInfor_eq_some.2 ⟨group, hgroup, hcb⟩]
    rfl

theorem accepts_decoded (hv : c.Valid) (hlt : c.size < 2 ^ 32) :
    h.accepts (decoded c) = h.configured c := by
  obtain ⟨hg, ht, -⟩ := content_eq_ok (content_decoded hv hlt)
  exact accepts_eq hg ht

theorem configured_putHandle_eq {g : Bytes} {group : GroupInfor}
    (hg : h.messGroupMap.findKey g = some group) (lib : LibeventHandle) :
    (h.putHandle g group lib).configured = h.configured := by
  funext c
  exact congrArg Option.isSome (callbackInfor_putGroup hg (by rfl) c.groupName c.messType)

theorem configured_putCallback {g t : Bytes} {group : GroupInfor} {cb : CallbackInfor}
    (hg : h.messGroupMap.findKey g = some group) (ht : group.messCallbackMap.findKey t = some cb)
    (cb' : CallbackInfor) : (h.putCallback g group t cb').configured = h.configured := by
  funext c
  rw [configured, configured, callbackInfor_putCallback_eq hg ht]
  split_ifs with hc
  · obtain ⟨hcg, hct⟩ := hc
    rw [hcg, hct, callbackInfor_eq_some.2 ⟨group, hg, ht⟩]
    rfl
  · rfl

theorem enqueue_eq {g t : Bytes} {group : GroupInfor} {cb : CallbackInfor}
    (hg : h.messGroupMap.findKey g = some group) (hcb : h.callbackInfor g t = some cb)
    (m : EventMessage) : h.enqueue g t m = h.putCallback g group t
      { cb with unprocessedMessList := cb.unprocessedMessList ++ [m] } := by
  rw [enqueue, hg, hcb]

theorem Conn.configured_putRx_eq {g : Bytes} {id : Int32} {rx : Rx} (hc : Conn h g id rx)
    (rx' : Rx) : (h.putRx g id rx').configured = h.configured := by
  obtain ⟨group, info, hg, hr, -⟩ := hc
  rw [putRx_eq hg hr.found]
  exact configured_putHandle_eq hg _

end

section
variable {runCallback : Nat → EventMessageHandle → EventMessage → EventMessageHandle}
  {g : Bytes} {id : Int32}

/-- `try_run_callback` goes by the entry of the group and of the type that it reads. -/
theorem dispatch_reads (h : EventMessageHandle) {m : EventMessage} {n t : Bytes}
    (hn : m.groupName.str m.bufferStr = .ok n) (ht : m.messType.str m.bufferStr = .ok t)
    (hcopy : EventMessage.copy {} m = .ok m) :
    h.dispatch m = .ok ((h.callbackInfor n t).elim .unknown fun cb =>
      cb.cbFunction.elim (.queued (h.enqueue n t m)) .callback) := by
  cases hinfo : h.callbackInfor n t with
  | none =>
    rcases checkMessType_cases h hn ht with ⟨e, hck⟩ | ⟨group, cb, hgroup, hfound, -⟩
    · rw [dispatch, hck]
      rfl
    · rw [callbackInfor_eq_some.2 ⟨group, hgroup, hfound⟩] at hinfo
      cases hinfo
  | some cb =>
    obtain ⟨group, hgroup, -, hck⟩ := checkMessType_eq hn ht hinfo
    rw [Option.elim_some]
    cases hf : cb.cbFunction with
    | some f => exact dispatch_callback hck hf
    | none =>
      rw [enqueue_eq hgroup hinfo]
      exact dispatch_queued hck hf hcopy

theorem keepsTypes_enqueue {h : EventMessageHandle} {n t : Bytes} {cb : CallbackInfor}
    (hinfo : h.callbackInfor n t = some cb) (m : EventMessage) :
    KeepsTypes g id h (h.enqueue n t m) := by
  obtain ⟨group, hgroup, hfound⟩ := callbackInfor_eq_some.1 hinfo
  rw [enqueue_eq hgroup hinfo]
  exact ⟨(keeps_putCallback hgroup _ _).conn, configured_putCallback hgroup hfound _⟩

/-- What `try_run_callback` does with a message whose names can be read. -/
theorem tryRunCallback_reads (hcb : ∀ f h m, KeepsTypes g id h (runCallback f h m))
    (h : EventMessageHandle) {m : EventMessage} {n t : Bytes}
    (hn : m.groupName.str m.bufferStr = .ok n) (ht : m.messType.str m.bufferStr = .ok t)
    (hcopy : EventMessage.copy {} m = .ok m) :
    h.dispatches m = h.accepts m ∧
      ∃ h', tryRunCallback runCallback h m = .ok (h.accepts m, h') ∧ KeepsTypes g id h h' ∧
        ∀ c, m.content = .ok c → Dispatches runCallback h c h' := by
  -- the names that are read are those of the content
  have hnames : ∀ {c : Content}, m.content = .ok c → n = c.groupName ∧ t = c.messType := by
    intro c hm
    obtain ⟨hn', ht', -⟩ := content_eq_ok hm
    exact ⟨Except.ok.inj (hn.symm.trans hn'), Except.ok.inj (ht.symm.trans ht')⟩
  rw [accepts_eq hn ht, dispatches, tryRunCallback, dispatch_reads h hn ht hcopy]
  cases hinfo : h.callbackInfor n t with
  | none =>
    refine ⟨rfl, h, rfl, ⟨fun _ hc => hc, rfl⟩, fun c hm => .drops ?_⟩
    obtain ⟨rfl, rfl⟩ := hnames hm
    rw [configured, hinfo]
    rfl
  | some cb =>
    rw [Option.elim_some]
    cases hf : cb.cbFunction with
    | some f =>
      refine ⟨rfl, runCallback f h m, rfl, hcb f h _, fun c hm => ?_⟩
      obtain ⟨rfl, rfl⟩ := hnames hm
      exact .runs hm hinfo hf
    | none =>
      refine ⟨rfl, h.enqueue n t m, rfl, keepsTypes_enqueue hinfo m, fun c hm => ?_⟩
      obtain ⟨rfl, rfl⟩ := hnames hm
      exact .queues hm hinfo hf

/-- A message is dispatched exactly if it is configured. -/
theorem tryRunCallback_configured (hcb : ∀ f h m, KeepsTypes g id h (runCallback f h m))
    (h : EventMessageHandle) {c : Content} (hv : c.Valid) (hlt : c.size < 2 ^ 32) :
    ∃ h', tryRunCallback runCallback h (decoded c) = .ok (h.configured c, h') ∧
      KeepsTypes g id h h' ∧ Dispatches runCallback h c h' := by
  have hm := content_decoded hv hlt
  obtain ⟨hn, ht, -⟩ := content_eq_ok hm
  obtain ⟨-, h', htry, hkeep, hdisp⟩ :=
    tryRunCallback_reads hcb h hn ht (copy_decoded hlt {})
  rw [accepts_decoded hv hlt] at htry
  exact ⟨h', htry, hkeep, hdisp c hm⟩

theorem Conn.unique {h : EventMessageHandle} {rx rx' : Rx} (hc : Conn h g id rx)
    (hc' : Conn h g id rx') : rx = rx' := by
  obtain ⟨group, info, hg, hr, rfl⟩ := hc
  obtain ⟨group', info', hg', hr', rfl⟩ := hc'
  cases hg.symm.trans hg'
  cases hr.found.symm.trans hr'.found
  rfl

/-! ## The loop -/

/-- When the loop gets through the messages `cs`: their bytes are counted by an `int`, and only the
last may be unknown. -/
def Passable (h : EventMessageHandle) (cs : List Content) : Prop :=
  (wire cs).length < 2 ^ 31 ∧ ∀ c ∈ cs.dropLast, h.configured c = true

/-- How the loop ends: `done` has been worked through, and the buffer is empty exactly if the
messages are passable, and then they are all done. -/
def EndsAt (runCallback : Nat → EventMessageHandle → EventMessage → EventMessageHandle) (g : Bytes)
    (id : Int32) (fuel : Nat) (h : EventMessageHandle) (passed : List EventMessage)
    (cs : List Content) : Prop :=
  ∃ b done h' rx, readCallbackLoop runCallback g id fuel h passed =
      .ok (some (b, passed ++ done.map decoded, h')) ∧ Conn h' g id rx ∧
    (rx.input = [] ↔ Passable h cs) ∧
    (rx.input = [] → done = cs ∧ Works runCallback g id h cs h')

theorem wire_ne_nil (c : Content) (cs : List Content) : wire (c :: cs) ≠ [] := by
  rw [wire_cons, Content.frame]
  exact List.cons_ne_nil _ _

theorem wire_eq_nil {cs : List Content} : wire cs = [] ↔ cs = [] := by
  cases cs with
  | nil => simp
  | cons c cs => exact iff_of_false (wire_ne_nil c cs) (List.cons_ne_nil c cs)

/-- The loop ends before the first message. -/
theorem endsAt_first {h h' : EventMessageHandle} {fuel : Nat} {passed : List EventMessage}
    {b : Bool} {cs : List Content} {rx : Rx}
    (hl : readCallbackLoop runCallback g id fuel h passed = .ok (some (b, passed, h')))
    (hc : Conn h' g id rx) (hne : rx.input ≠ []) (hbig : 2 ^ 31 ≤ (wire cs).length) :
    EndsAt runCallback g id fuel h passed cs := by
  refine ⟨b, [], h', rx, ?_, hc, ?_, fun h0 => absurd h0 hne⟩
  · rw [hl, List.map_nil, List.append_nil]
  · exact iff_of_false hne fun hp => Nat.not_lt.2 hbig hp.1

/-- The loop ends behind a message that is not configured. -/
theorem endsAt_unknown {h h' : EventMessageHandle} {fuel : Nat} {passed : List EventMessage}
    {c : Content} {cs : List Content} {rx : Rx}
    (hl : readCallbackLoop runCallback g id fuel h passed =
      .ok (some (false, passed ++ [decoded c], h')))
    (hd : Dispatches runCallback
      (h.putRx g id ⟨wire cs, 0, Int32.ofSizeT c.size, false⟩) c h')
    (hc : Conn h' g id rx) (hrx : rx.input = wire cs) (hunk : h.configured c = false)
    (hlen : cs = [] → (wire [c]).length < 2 ^ 31) :
    EndsAt runCallback g id fuel h passed (c :: cs) := by
  refine ⟨false, [c], h', rx, hl, hc, ?_, fun h0 => ?_⟩
  · rw [hrx, wire_eq_nil]
    constructor
    · rintro rfl
      exact ⟨hlen rfl, by simp⟩
    · intro hp
      cases cs with
      | nil => rfl
      | cons c' cs =>
        have := hp.2 c (by simp)
        rw [hunk] at this
        cases this
  · rw [hrx, wire_eq_nil] at h0
    subst h0
    exact ⟨rfl, .cons hd (.nil h')⟩

/-- The loop goes on behind a message that is configured. -/
theorem endsAt_cons {h h' : EventMessageHandle} {fuel : Nat} {passed : List EventMessage}
    {c : Content} {cs : List Content}
    (hl : readCallbackLoop runCallback g id (fuel + 1) h passed =
      readCallbackLoop runCallback g id fuel h' (passed ++ [decoded c]))
    (hd : Dispatches runCallback
      (h.putRx g id ⟨wire cs, 0, Int32.ofSizeT c.size, false⟩) c h')
    (hconf : h'.configured = h.configured) (hc : h.configured c = true)
    (hlen : (wire cs).length < 2 ^ 31 → (wire (c :: cs)).length < 2 ^ 31)
    (he : EndsAt runCallback g id fuel h' (passed ++ [decoded c]) cs) :
    EndsAt runCallback g id (fuel + 1) h passed (c :: cs) := by
  obtain ⟨b, done, h'', rx, hloop, hconn, hiff, hdone⟩ := he
  refine ⟨b, c :: done, h'', rx, ?_, hconn, ?_, fun h0 => ?_⟩
  · rw [hl, hloop, List.append_assoc]
    rfl
  · rw [hiff, Passable, Passable, hconf]
    constructor
    · rintro ⟨hlt, hall⟩
      refine ⟨hlen hlt, fun c' hm => ?_⟩
      cases cs with
      | nil => cases hm
      | cons d ds =>
        rcases List.mem_cons.1 hm with rfl | hm
        · exact hc
        · exact hall c' hm
    · rintro ⟨hlt, hall⟩
      rw [wire_cons, List.length_append] at hlt
      refine ⟨by omega, fun c' hm => hall c' ?_⟩
      cases cs with
      | nil => cases hm
      | cons d ds => exact List.mem_cons_of_mem c hm
  · obtain ⟨rfl, hw⟩ := hdone h0
    exact ⟨rfl, .cons hd hw⟩

/-- A frame of `k` bytes with `l` bytes behind it is read: the length of the input is in the range
of an `int`, or there is far more behind the frame. -/
theorem length_of_read {n k l : Nat} (hn : n = 4 + k + l) (hk : k < 2 ^ 31)
    (hp : Int32.ofSizeT n > 0) (hshort : ¬ Int32.ofSizeT (k + l) < Int32.ofSizeT k) :
    n < 2 ^ 31 ∨ 2 ^ 31 ≤ l := by
  by_contra hcon
  rw [not_or] at hcon
  have hbig : 2 ^ 32 ≤ n := by
    rw [gt_iff_lt, Int32.lt_iff_toInt_lt, Int32.toInt_zero] at hp
    have := Int32.le_of_le_toInt_ofSizeT (k := 0) (n := n) (by omega) (by omega)
    omega
  have hfull : 2 ^ 32 + k ≤ k + l := by
    refine Int32.le_of_le_toInt_ofSizeT (by omega) ?_
    rw [Int32.lt_iff_toInt_lt, Int32.toInt_ofSizeT_of_lt hk] at hshort
    omega
  omega

theorem length_wire_cons (c : Content) (cs : List Content) :
    (wire (c :: cs)).length = 4 + c.size + (wire cs).length := by
  rw [wire_cons, List.length_append, length_frame]

theorem length_encode_wire (c : Content) (cs : List Content) :
    (c.encode ++ wire cs).length = c.size + (wire cs).length := by
  rw [List.length_append, length_encode]

theorem opens_wire {rx : Rx} {c : Content} {cs : List Content} (hcache : rx.cacheBlock = false)
    (hi : rx.input = wire (c :: cs)) : Opens rx c (c.encode ++ wire cs) := by
  refine Or.inr ⟨hcache, ?_⟩
  rw [hi, wire_cons, Content.frame, List.append_assoc]

/-- The first frame is not read only if there is more input than an `int` can count. -/
theorem endsAt_unread {h : EventMessageHandle} {rx : Rx} {c : Content} {cs : List Content}
    (hc : Conn h g id rx) (hcache : rx.cacheBlock = false) (hi : rx.input = wire (c :: cs))
    (hlt : c.size < 2 ^ 31)
    (hno : ¬ (Int32.ofSizeT rx.input.length > 0 ∧
      ¬ (Int32.ofSizeT rx.input.length).sizeT ≤ sizeofBlock ∧
      ¬ Int32.ofSizeT (c.encode ++ wire cs).length < Int32.ofSizeT c.size))
    (fuel : Nat) (passed : List EventMessage) :
    EndsAt runCallback g id (fuel + 1) h passed (c :: cs) := by
  have hne : rx.input ≠ [] := by
    rw [hi]
    exact wire_ne_nil c cs
  have hpos := sizeofCursor_lt_size c
  have hlen := length_wire_cons c cs
  by_cases hp : Int32.ofSizeT rx.input.length > 0
  · by_cases hl : (Int32.ofSizeT rx.input.length).sizeT ≤ sizeofBlock
    · refine endsAt_first (loop_header runCallback hc hp hl fuel passed) hc hne ?_
      by_contra hsmall
      rw [hi, Int32.sizeT_ofSizeT_of_lt (by omega), sizeofBlock] at hl
      omega
    · have hshort : Int32.ofSizeT (c.encode ++ wire cs).length < Int32.ofSizeT c.size :=
        not_not.1 fun hs => hno ⟨hp, hl, hs⟩
      have heq := loop_short runCallback hc (opens_wire hcache hi) hp hl hlt hshort fuel passed
      rw [length_encode_wire] at hshort
      refine endsAt_first heq (hc.putRx _) ?_ ?_
      · intro h0
        have := congrArg List.length h0
        rw [length_encode_wire, List.length_nil] at this
        omega
      · by_contra hsmall
        rw [Int32.ofSizeT_lt_iff (by omega) hlt] at hshort
        omega
  · refine endsAt_first (loop_empty runCallback hc hp fuel passed) hc hne ?_
    by_contra hsmall
    rw [hi] at hp
    exact hp ((Int32.ofSizeT_pos_iff (by omega)).2 (by omega))

/-- What the loop does with a buffer of frames. -/
theorem loop_endsAt (hcb : ∀ f h m, KeepsTypes g id h (runCallback f h m)) {cs : List Content}
    {h : EventMessageHandle} {rx : Rx} {fuel : Nat} (passed : List EventMessage)
    (hc : Conn h g id rx) (hcache : rx.cacheBlock = false) (hi : rx.input = wire cs)
    (hfuel : (wire cs).length < fuel) (hcs : ∀ c ∈ cs, c.Valid ∧ c.size < 2 ^ 31) :
    EndsAt runCallback g id fuel h passed cs := by
  -- every round that goes on has read a frame, and has one less to read
  induction cs generalizing h rx fuel passed with
  | nil =>
    obtain ⟨fuel, rfl⟩ := Nat.exists_eq_add_of_lt hfuel
    refine ⟨true, [], h, rx, ?_, hc, ?_, fun _ => ⟨rfl, .nil h⟩⟩
    · rw [loop_empty runCallback hc (by rw [hi]; decide), List.map_nil, List.append_nil]
    · exact iff_of_true hi ⟨by decide, by simp⟩
  | cons c cs ih =>
    obtain ⟨hv, hlt⟩ := hcs c List.mem_cons_self
    have hlen := length_wire_cons c cs
    obtain ⟨fuel, rfl⟩ : ∃ n, fuel = n + 1 := ⟨fuel - 1, by omega⟩
    by_cases hread : Int32.ofSizeT rx.input.length > 0 ∧
        ¬ (Int32.ofSizeT rx.input.length).sizeT ≤ sizeofBlock ∧
        ¬ Int32.ofSizeT (c.encode ++ wire cs).length < Int32.ofSizeT c.size
    swap
    · exact endsAt_unread hc hcache hi hlt hread fuel passed
    obtain ⟨hp, hl, hshort⟩ := hread
    have hfits : (wire (c :: cs)).length < 2 ^ 31 ∨ 2 ^ 31 ≤ (wire cs).length := by
      rw [hi] at hp
      exact length_of_read hlen hlt hp (by rwa [length_encode_wire] at hshort)
    obtain ⟨h', htry, hkeep, hdisp⟩ := tryRunCallback_configured hcb
      (h.putRx g id ⟨wire cs, 0, Int32.ofSizeT c.size, false⟩) hv (show c.size < 2 ^ 32 by omega)
    have hconn := hkeep.conn _ (hc.putRx ⟨wire cs, 0, Int32.ofSizeT c.size, false⟩)
    have heq := loop_taken runCallback hc (opens_wire hcache hi) hp hl hshort hlt htry fuel passed
    have hcf := hc.configured_putRx_eq ⟨wire cs, 0, Int32.ofSizeT c.size, false⟩
    rw [hcf] at heq
    cases hconf : h.configured c with
    | false =>
      rw [hconf, if_neg (by decide)] at heq
      refine endsAt_unknown heq hdisp hconn rfl hconf ?_
      rintro rfl
      exact hfits.resolve_right (by simp [wire])
    | true =>
      rw [hconf, if_pos rfl] at heq
      refine endsAt_cons heq hdisp (hkeep.configured.trans hcf) hconf (by omega) ?_
      exact ih _ hconn rfl rfl (by omega) fun d hd => hcs d (List.mem_cons_of_mem c hd)

/-- **A buffer of frames is worked through** in one call exactly if its length is in the range of an
`int` and every message but the last is configured. -/
theorem drains_iff (hcb : ∀ f h m, KeepsTypes g id h (runCallback f h m)) {h : EventMessageHandle}
    {rx : Rx} {cs : List Content} {fuel : Nat} (hc : Conn h g id rx)
    (hcache : rx.cacheBlock = false) (hi : rx.input = stream Content.frame cs)
    (hfuel : rx.input.length < fuel) (hcs : ∀ c ∈ cs, c.Valid ∧ c.size < 2 ^ 31) :
    Drains runCallback g id h cs fuel ↔
      rx.input.length < 2 ^ 31 ∧ ∀ c ∈ cs.dropLast, h.configured c = true := by
  rw [hi] at hfuel ⊢
  obtain ⟨b, done, h', rx', hloop, hconn, hiff, hdone⟩ :=
    loop_endsAt hcb [] hc hcache hi hfuel hcs
  change _ ↔ Passable h cs
  rw [← hiff]
  constructor
  · rintro ⟨b', passed, h'', rx'', hloop', -, -, hconn', h0⟩
    cases hloop.symm.trans hloop'
    rw [hconn.unique hconn']
    exact h0
  · intro h0
    obtain ⟨hall, hworks⟩ := hdone h0
    rw [hall, List.nil_append] at hloop
    refine ⟨b, _, h', rx', hloop, ?_, hworks, hconn, h0⟩
    -- the messages are accepted as they are configured, and are those of the frames
    have hacc : ∀ c ∈ cs, (h.accepts ∘ decoded) c = h.configured c := fun c hm =>
      accepts_decoded (hcs c hm).1 (by have := (hcs c hm).2; omega)
    rw [List.filter_map, List.map_map, List.filter_congr hacc]
    refine List.map_congr_left fun c hm => ?_
    have hmem := hcs c (List.mem_of_mem_filter hm)
    exact content_decoded hmem.1 (by have := hmem.2; omega)

end

/-- A host with the message types `t`, which has a queue, and `u`, which has the callback `7`, in
the group `g`, and a connection with the frames of `cs`. -/
def frameBuffer (cs : List Content) : EventMessageHandle where
  localHostName := [97]
  messGroupMap := ⟨[([103], {
    handle := {
      maxBevId := 1
      bevMap := ⟨[(0, {
        ip := [49]
        port := 1
        bev := { input := stream Content.frame cs }
        isListen := true })], by simp⟩ }
    messCallbackMap := ⟨[([116], {}), ([117], { cbFunction := some 7 })], by decide⟩ })], by simp⟩

theorem conn_frameBuffer (cs : List Content) :
    Conn (frameBuffer cs) [103] 0 ⟨stream Content.frame cs, 0, 0, false⟩ :=
  ⟨_, _, rfl, ⟨rfl, rfl, rfl⟩, rfl⟩

/-- A message of the group `g`. -/
def typed (t payload : Bytes) : Content :=
  ⟨[103], t, [98], [97], payload, UInt32.ofNat payload.length⟩

/-- A callback that leaves its number and the size of its message behind, in the host's name. -/
def noteCallback (f : Nat) (h : EventMessageHandle) (m : EventMessage) : EventMessageHandle :=
  { h with localHostName := h.localHostName ++ [UInt8.ofNat f, UInt8.ofNat m.messageSize.toNat] }

/-- Two messages for the queue with one for the callback between them, and one of an unknown type
behind them: the buffer is worked through, the queue has its two messages, and the callback has run
once. -/
theorem drains_last :
    let cs := [typed [116] [1], typed [117] [5, 6], typed [116] [], typed [120] [2]]
    Drains noteCallback [103] 0 (frameBuffer cs) cs 200 ∧
      ((readCallbackLoop noteCallback [103] 0 200 (frameBuffer cs) []).toOption.bind id).map
        (fun x => (x.2.2.localHostName, (x.2.2.callbackInfor [103] [116]).map fun cb =>
          cb.unprocessedMessList.map fun m => m.content.toOption)) =
        some ([97, 7, 2], some [some (typed [116] [1]), some (typed [116] [])]) := by
  intro cs
  have hcs : ∀ c ∈ cs, c.Valid ∧ c.size < 2 ^ 31 := by
    intro c hc
    refine ⟨?_, ?_⟩
    · simp only [cs, List.mem_cons, List.not_mem_nil, or_false] at hc
      rcases hc with rfl | rfl | rfl | rfl
      · constructor <;> decide
      · constructor <;> decide
      · constructor <;> decide
      · constructor <;> decide
    · revert c
      decide
  have hdrains := drains_iff (fun f h m => show KeepsTypes [103] 0 h (noteCallback f h m) from
    ⟨fun _ hc => hc, rfl⟩) (conn_frameBuffer cs) rfl rfl (show _ < 200 by decide +kernel) hcs
  exact ⟨hdrains.2 ⟨by decide +kernel, by decide⟩, by decide +kernel⟩

/-- A message of an unknown type in front: the one behind it is not dispatched and stays in the
buffer. -/
theorem not_drains :
    ¬ Drains noteCallback [103] 0 (frameBuffer [typed [120] [2], typed [116] [1]])
      [typed [120] [2], typed [116] [1]] 200 := by
  rintro ⟨b, passed, h', rx, hl, hf, -, -, -⟩
  have hnone : ((readCallbackLoop noteCallback [103] 0 200
      (frameBuffer [typed [120] [2], typed [116] [1]]) []).toOption.bind id).map (fun x =>
        (x.2.1.filter (frameBuffer [typed [120] [2], typed [116] [1]]).accepts).length) =
      some 0 := by decide +kernel
  rw [hl] at hnone
  have hlen := congrArg List.length hf
  rw [List.length_map] at hlen
  exact absurd ((Option.some.inj hnone).symm.trans hlen) (by decide)

end Net
