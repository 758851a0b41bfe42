import Mtc.Net.Proof.Stream

/-!
# Delivery

What one host sends to another arrives as it was sent, however TCP cuts the bytes: after every
arrival the messages passed to `try_run_callback` are those whose last byte has arrived
(`delivered_iff_fits`). That holds exactly as long as no arrival brings the input buffer to
`2 ^ 31` bytes, where `get_recive_buffer_length` returns a negative length and the callback reads
nothing (`not_delivered_large`).
-/

namespace Net

open EventMessage (Content)
open EventMessageHandle Framing

section
variable {runCallback : Nat → EventMessageHandle → EventMessage → EventMessageHandle}
  {g : Bytes} {id : Int32}

/-! ## One arrival -/

/-- The receiver waits in the messages `cs`, and `fut` is still to come. -/
def At (g : Bytes) (id : Int32) (r : Receiver) (cs : List Content) (fut : Bytes) : Prop :=
  ∃ rx, Conn r.handle g id rx ∧ Waiting rx cs fut ∧ ∀ c ∈ cs, Deliverable r.handle g c

theorem Conn.buffered {r : Receiver} {rx : Rx} (hc : Conn r.handle g id rx) :
    r.buffered g id = rx.input.length := by
  obtain ⟨group, info, hg, hr, rfl⟩ := hc
  simp only [Receiver.buffered, connection, hg, Option.bind_eq_bind, Option.bind_some, hr.found]
  rfl

/-- An arrival leaves the connection waiting for more, or to be read. -/
theorem Waiting.arrive {rx : Rx} {cs : List Content} {bytes fut : Bytes}
    (hw : Waiting rx cs (bytes ++ fut)) :
    (rx.input ++ bytes).length < rx.readLow ∧
        Waiting { rx with input := rx.input ++ bytes } cs fut ∧ (∃ c ∈ cs, rx.readLow = c.size) ∨
      ¬ (rx.input ++ bytes).length < rx.readLow ∧
        Arrived { rx with input := rx.input ++ bytes } cs fut := by
  obtain ⟨hc, hlow, -, hi⟩ | ⟨c, cs, rfl, hc, hb, hlow, -, hi⟩ := hw
  · rw [← List.append_assoc] at hi
    exact Or.inr ⟨by omega, Or.inl ⟨hc, hlow, hi⟩⟩
  · rw [← List.append_assoc] at hi
    by_cases hl : (rx.input ++ bytes).length < rx.readLow
    · exact Or.inl ⟨hl, Or.inr ⟨c, cs, rfl, hc, hb, hlow, by dsimp only; omega, hi⟩,
        c, List.mem_cons_self .., hlow⟩
    · exact Or.inr ⟨hl, Or.inr ⟨c, cs, rfl, hc, hb, by dsimp only; omega, hi⟩⟩

theorem At.arrive_fits (hcb : ∀ f h m, Keeps g id h (runCallback f h m)) {r : Receiver}
    {cs : List Content} {bytes fut : Bytes} (ha : At g id r cs (bytes ++ fut))
    (hfits : Fits g id r bytes) :
    ∃ done rest r', r.arrive runCallback g id bytes = some r' ∧ cs = done ++ rest ∧
      r'.passed = r.passed ++ done.map decoded ∧ At g id r' rest fut := by
  obtain ⟨rx, hc, hw, hd⟩ := ha
  unfold Fits at hfits
  rw [hc.buffered, ← List.length_append] at hfits
  have hc' := hc.putRx { rx with input := rx.input ++ bytes }
  have hd' := Deliverable.mono hd (hc.configured_putRx { rx with input := rx.input ++ bytes })
  rw [hc.arrive]
  obtain ⟨hlow, hw', -⟩ | ⟨hlow, ha⟩ := hw.arrive
  · rw [if_pos hlow]
    exact ⟨[], cs, _, rfl, rfl, (List.append_nil _).symm, _, hc', hw', hd'⟩
  · obtain ⟨done, rest, b, h', rx', rfl, hloop, hc'', hw', hconf'⟩ :=
      loop_fits hcb r.passed hc' ha hfits (Nat.lt_succ_self _) hd'
    rw [if_neg hlow, hloop]
    refine ⟨done, rest, _, rfl, rfl, rfl, rx', hc'', hw', ?_⟩
    exact Deliverable.mono (fun c hm => hd' c (List.mem_append_right _ hm)) hconf'

theorem At.arrive_overflow (hcb : ∀ f h m, Keeps g id h (runCallback f h m)) {r : Receiver}
    {cs : List Content} {bytes fut : Bytes} (ha : At g id r cs (bytes ++ fut))
    (hfits : ¬ Fits g id r bytes) :
    ∃ done c rest r', r.arrive runCallback g id bytes = some r' ∧ cs = done ++ c :: rest ∧
      r'.passed = r.passed ++ done.map decoded ∧ fut.length ≤ (wire rest).length := by
  obtain ⟨rx, hc, hw, hd⟩ := ha
  unfold Fits at hfits
  rw [hc.buffered, ← List.length_append] at hfits
  have hc' := hc.putRx { rx with input := rx.input ++ bytes }
  have hd' := Deliverable.mono hd (hc.configured_putRx { rx with input := rx.input ++ bytes })
  obtain ⟨hlow, -, c, hm, hsize⟩ | ⟨hlow, ha⟩ := hw.arrive
  · have := (hd c hm).size_lt
    omega
  · obtain ⟨done, c, rest, b, h', rfl, hloop, hfut⟩ :=
      loop_overflow hcb r.passed hc' ha (Nat.not_lt.1 hfits) (Nat.lt_succ_self _) hd'
    rw [hc.arrive, if_neg hlow, hloop]
    exact ⟨done, c, rest, _, rfl, rfl, rfl, hfut⟩

/-! ## Many arrivals -/

/-- **However the stream is cut, the receiver passes on the complete messages and waits in the
rest.** -/
theorem At.runFrom_fits (hcb : ∀ f h m, Keeps g id h (runCallback f h m)) {h : EventMessageHandle}
    {fut : Bytes} : ∀ {arrivals : List Bytes} {r : Receiver} {cs : List Content},
    At g id r cs (arrivals.flatten ++ fut) →
    (receiving runCallback g id h).Meets (Fits g id) r arrivals →
    ∃ done rest r', (receiving runCallback g id h).runFrom r arrivals = some r' ∧
      cs = done ++ rest ∧ r'.passed = r.passed ++ done.map decoded ∧ At g id r' rest fut
  | [], r, cs, ha, _ => ⟨[], cs, r, rfl, rfl, (List.append_nil _).symm, ha⟩
  | bytes :: arrivals, r, cs, ha, hm => by
    rw [List.flatten_cons, List.append_assoc] at ha
    obtain ⟨done, rest, r', hr', rfl, hp, ha'⟩ := ha.arrive_fits hcb hm.1
    obtain ⟨-, hm'⟩ := hm.step hr'
    obtain ⟨done', rest', r'', hrun, rfl, hp', ha''⟩ := ha'.runFrom_fits hcb hm'
    refine ⟨done ++ done', rest', r'', ?_, (List.append_assoc ..).symm, ?_, ha''⟩
    · simp only [System.runFrom]
      rw [show (receiving runCallback g id h).next r bytes = some r' from hr', Option.bind_some]
      exact hrun
    · rw [hp', hp, List.map_append, List.append_assoc]

/-! ## What has arrived -/

theorem map_content_decoded {h : EventMessageHandle} : ∀ {cs : List Content},
    (∀ c ∈ cs, Deliverable h g c) → (cs.map decoded).map EventMessage.content = cs.map .ok
  | [], _ => rfl
  | c :: cs, hd => by
    have hc := hd c (List.mem_cons_self ..)
    have hlt := hc.size_lt
    rw [List.map_cons, List.map_cons, List.map_cons, content_decoded hc.valid (by omega),
      map_content_decoded fun c hm => hd c (.tail _ hm)]

/-- A receiver that waits has passed on what has arrived. -/
theorem At.delivered {h : EventMessageHandle} {s : Sender} {r : Receiver} {done rest : List Content}
    {fut : Bytes} {n : Nat} (hs : s.marks = marks Content.frame 0 (done ++ rest))
    (hd : ∀ c ∈ done ++ rest, Deliverable h g c) (hp : r.passed = done.map decoded)
    (ha : At g id r rest fut) (hn : n + fut.length = (wire (done ++ rest)).length) :
    Delivered s r n := by
  obtain ⟨rx, -, hw, -⟩ := ha
  obtain ⟨k, hk, hhead⟩ := hw.incomplete
  have hn' : n = 0 + (wire done).length + k := by
    rw [wire_append, List.length_append] at hn
    omega
  unfold Delivered
  rw [hp, map_content_decoded fun c hm => hd c (List.mem_append_left _ hm), hs, hn',
    arrived_marks hhead]

/-- Where every complete message has been passed on, no arrival was too large. -/
theorem At.meets {h : EventMessageHandle} (hcb : ∀ f h m, Keeps g id h (runCallback f h m))
    {s : Sender} {cs : List Content} (hs : s.marks = marks Content.frame 0 cs)
    (hd : ∀ c ∈ cs, Deliverable h g c) {fut : Bytes} :
    ∀ {arrivals before : List Bytes} {r : Receiver} {done rest : List Content},
      (receiving runCallback g id h).run before = some r → cs = done ++ rest →
      r.passed = done.map decoded → At g id r rest (arrivals.flatten ++ fut) →
      before.flatten.length + (arrivals.flatten ++ fut).length = (wire cs).length →
      (∀ pre, pre <+: before ++ arrivals → ∃ r, (receiving runCallback g id h).run pre = some r ∧
        Delivered s r pre.flatten.length) →
      (receiving runCallback g id h).Meets (Fits g id) r arrivals
  | [], _, _, _, _, _, _, _, _, _, _ => trivial
  | bytes :: arrivals, before, r, done, rest, hrun, hcs, hp, ha, hlen, hdel => by
    rw [List.flatten_cons, List.append_assoc] at ha hlen
    have hdel' : ∀ pre, pre <+: (before ++ [bytes]) ++ arrivals → _ := fun pre hpre =>
      hdel pre (by rwa [List.append_assoc] at hpre)
    by_cases hfits : Fits g id r bytes
    · obtain ⟨done', rest', r', hr', rfl, hp', ha'⟩ := ha.arrive_fits hcb hfits
      refine ⟨hfits, ?_⟩
      rw [show (receiving runCallback g id h).next r bytes = some r' from hr']
      refine ha'.meets hcb hs hd (System.runFrom_snoc hrun hr')
        (hcs.trans (List.append_assoc ..).symm) ?_ ?_ hdel'
      · rw [hp', hp, List.map_append]
      · rw [← hlen, List.flatten_append]
        simp [Nat.add_assoc]
    · obtain ⟨done', c, rest', r', hr', rfl, hp', hfut⟩ := ha.arrive_overflow hcb hfits
      -- the callback left `c` behind, although all of it has arrived
      obtain ⟨r'', hr'', hdeliv⟩ := hdel' (before ++ [bytes]) (List.prefix_append ..)
      cases (System.runFrom_snoc hrun hr').symm.trans hr''
      have hcs' : cs = (done ++ done' ++ [c]) ++ rest' := by simp [hcs]
      have hle : 0 + (wire (done ++ done' ++ [c])).length ≤
          (before ++ [bytes]).flatten.length := by
        rw [hcs', wire_append, List.length_append] at hlen
        simp only [List.length_append] at hlen hfut
        rw [List.flatten_append, List.length_append]
        simp only [List.flatten_cons, List.flatten_nil, List.append_nil]
        omega
      have hpre := arrived_of_le rest' (done ++ done' ++ [c]) 0 hle
      have hcount := congrArg List.length hdeliv
      rw [← hcs', ← hs] at hpre
      have hlen' := hpre.length_le
      simp only [hp', hp, List.length_map, List.length_append, List.length_singleton]
        at hcount hlen'
      omega

/-- From a sender that wrote the frames of `cs`. -/
theorem Wrote.delivered_iff {peer : EventMessageHandle} {host localHostName : Bytes} {s : Sender}
    {cs : List Content} (hw : Wrote g host localHostName s cs)
    (hcb : ∀ f h m, Keeps g id h (runCallback f h m)) (hnew : NewConnection peer g id)
    (hd : ∀ c ∈ cs, Deliverable peer g c) {arrivals : List Bytes}
    (harr : arrivals.flatten <+: s.handle.written g host) :
    (∀ pre, pre <+: arrivals → ∃ r, (receiving runCallback g id peer).run pre = some r ∧
        Delivered s r pre.flatten.length) ↔
      (receiving runCallback g id peer).Meets (Fits g id) { handle := peer } arrivals := by
  obtain ⟨block, hconn⟩ := hnew
  have hstart : At g id { handle := peer } cs (wire cs) := ⟨_, hconn, waiting_nil block, hd⟩
  rw [hw.written] at harr
  constructor
  · intro hdel
    obtain ⟨fut, hfut⟩ := harr
    rw [← hfut] at hstart
    have hrun : (receiving runCallback g id peer).run [] = some { handle := peer } := rfl
    refine At.meets hcb hw.marks hd hrun (List.nil_append cs).symm rfl hstart ?_ hdel
    rw [hfut]
    simp
  · intro hm pre hpre
    obtain ⟨post, rfl⟩ := hpre
    rw [List.flatten_append] at harr
    obtain ⟨fut, hfut⟩ := (List.prefix_append _ _).trans harr
    rw [← hfut] at hstart
    obtain ⟨done, rest, r, hr, rfl, hp, ha⟩ := hstart.runFrom_fits hcb hm.of_append
    refine ⟨r, hr, ha.delivered hw.marks hd hp ?_⟩
    rw [← hfut, List.length_append]

theorem MessageFor.deliverable {peer : EventMessageHandle} {host localHostName : Bytes}
    {m : EventMessage} {c : Content} (hm : MessageFor peer g host localHostName m c) :
    Deliverable peer g c :=
  ⟨valid_of_content hm.reads, hm.group, hm.configured, hm.size⟩

/-- **Delivery over a segmented stream.** After every arrival the receiver has passed on exactly
the messages whose last byte has arrived, if and only if no arrival brings the input buffer to
`2 ^ 31` bytes. -/
theorem delivered_iff_fits {sender peer : EventMessageHandle} {host : Bytes}
    {sends : List (EventMessage × Bool)} (hcb : ∀ f h m, Keeps g id h (runCallback f h m))
    (hnew : NewConnection peer g id) (hready : SendReady sender g)
    (hfresh : sender.written g host = [])
    (hsends : ∀ x ∈ sends, ∃ c, MessageFor peer g host sender.localHostName x.1 c) :
    ∃ s, (sending g host sender).run sends = some s ∧
      ∀ arrivals : List Bytes, arrivals.flatten <+: s.handle.written g host →
        ((∀ pre, pre <+: arrivals → ∃ r, (receiving runCallback g id peer).run pre = some r ∧
            Delivered s r pre.flatten.length) ↔
          (receiving runCallback g id peer).Meets (Fits g id) { handle := peer } arrivals) := by
  have hw : Wrote g host sender.localHostName { handle := sender } [] :=
    ⟨hready, rfl, hfresh, rfl⟩
  obtain ⟨s, cs, hrun, hw', hcs⟩ := hw.runFrom hsends
  rw [List.nil_append] at hw'
  refine ⟨s, hrun, fun arrivals harr => hw'.delivered_iff hcb hnew (fun c hm => ?_) harr⟩
  obtain ⟨m, hm⟩ := hcs c hm
  exact hm.deliverable

end

/-! ## Two hosts -/

/-- A host with one group, `g`, of one message type, `t`, and with a connection to the host `b`. -/
def oneConnection : EventMessageHandle where
  localHostName := Bytes.ofAscii "a"
  hostConfigMap := ⟨[(Bytes.ofAscii "b", Bytes.ofAscii "10.0.0.2")], by decide⟩
  messGroupMap := ⟨[(Bytes.ofAscii "g", {
    handle := {
      maxBevId := 1
      bevMap := ⟨[(0, { ip := Bytes.ofAscii "10.0.0.2", port := 1, isListen := false })],
        by decide⟩ }
    hostPortMap := ⟨[(Bytes.ofAscii "b", 1)], by decide⟩
    messCallbackMap := ⟨[(Bytes.ofAscii "t", {})], by decide⟩ })], by decide⟩

/-- A message for `b`. -/
def messageToB (payload : Bytes) : EventMessage :=
  ({} : EventMessage).prepareSend (.mem (Bytes.ofAscii "g" ++ [0]))
    (.mem (Bytes.ofAscii "t" ++ [0])) (.mem (Bytes.ofAscii "b" ++ [0])) (.mem payload)
    (UInt32.ofNat payload.length)

def contentToB (payload : Bytes) : Content where
  groupName := Bytes.ofAscii "g"
  messType := Bytes.ofAscii "t"
  sendHostName := Bytes.ofAscii "a"
  reciveHostName := Bytes.ofAscii "b"
  message := payload
  messageSize := UInt32.ofNat payload.length

theorem length_contentToB_frame (payload : Bytes) :
    (contentToB payload).frame.length = 36 + payload.length := by
  rw [length_frame]
  show 4 + (32 + payload.length) = _
  omega

theorem messageToB_for {payload : Bytes} (hlt : payload.length ≤ 2 ^ 30) :
    MessageFor oneConnection (Bytes.ofAscii "g") (Bytes.ofAscii "b") (Bytes.ofAscii "a")
      (messageToB payload) (contentToB payload) where
  reads := by
    have hsize : (UInt32.ofNat payload.length).toNat = payload.length := by
      rw [UInt32.toNat_ofNat', Nat.mod_eq_of_lt (by omega)]
    exact content_of_eq_ok rfl rfl rfl rfl (bytes_mem hsize []) rfl
  group := rfl
  host := rfl
  configured := ⟨_, {}, rfl, rfl⟩
  size := by
    rw [length_contentToB_frame]
    omega

theorem oneConnection_new : NewConnection oneConnection (Bytes.ofAscii "g") 0 :=
  ⟨_, _, _, rfl, ⟨rfl, rfl, rfl⟩, rfl⟩

theorem oneConnection_sendReady : SendReady oneConnection (Bytes.ofAscii "g") := by
  intro group hg
  obtain ⟨-, rfl⟩ := Prod.mk.inj (List.mem_singleton.1 (AssocMap.findKey_eq_some_iff.1 hg))
  refine ⟨rfl, fun id info hi => ?_⟩
  obtain ⟨-, rfl⟩ := Prod.mk.inj (List.mem_singleton.1 (AssocMap.findKey_eq_some_iff.1 hi))
  rfl

theorem oneConnection_linked : Linked oneConnection (Bytes.ofAscii "g") (Bytes.ofAscii "b") :=
  ⟨_, _, 1, 0, _, rfl, rfl, rfl, by decide, oneConnection_sendReady _ rfl, rfl, by decide⟩

/-- The messages with two payloads go out on the connection. -/
theorem oneConnection_wrote {p q : Bytes} (hp : p.length ≤ 2 ^ 30) (hq : q.length ≤ 2 ^ 30) :
    ∃ s, (sending (Bytes.ofAscii "g") (Bytes.ofAscii "b") oneConnection).run
        [(messageToB p, true), (messageToB q, true)] = some s ∧
      Wrote (Bytes.ofAscii "g") (Bytes.ofAscii "b") (Bytes.ofAscii "a") s
        [contentToB p, contentToB q] :=
  have hw : Wrote (Bytes.ofAscii "g") (Bytes.ofAscii "b") (Bytes.ofAscii "a")
      { handle := oneConnection } [] := ⟨oneConnection_sendReady, rfl, rfl, rfl⟩
  hw.runFrom_linked oneConnection_linked
    (.cons ⟨messageToB_for hp, rfl⟩ (.cons ⟨messageToB_for hq, rfl⟩ .nil))

/-- Two small messages on one connection. Their bytes arrive in three pieces, the second of which
has the end of the first message and the beginning of the second. -/
theorem delivered_iff_fits_two :
    let S := receiving (fun _ h _ => h) (Bytes.ofAscii "g") 0 oneConnection
    let first := (contentToB [1]).frame
    let second := (contentToB [2, 3]).frame
    let arrivals := [first.take 10, first.drop 10 ++ second.take 3, second.drop 3]
    ∃ s, (sending (Bytes.ofAscii "g") (Bytes.ofAscii "b") oneConnection).run
        [(messageToB [1], true), (messageToB [2, 3], true)] = some s ∧
      s.handle.written (Bytes.ofAscii "g") (Bytes.ofAscii "b") = arrivals.flatten ∧
      S.Meets (Fits (Bytes.ofAscii "g") 0) { handle := oneConnection } arrivals ∧
      (∀ pre, pre <+: arrivals → ∃ r, S.run pre = some r ∧ Delivered s r pre.flatten.length) ∧
      (S.run arrivals).map (fun r => r.passed.map fun m => m.content.toOption) =
        some [some (contentToB [1]), some (contentToB [2, 3])] := by
  intro S first second arrivals
  have hsends : ∀ x ∈ [(messageToB [1], true), (messageToB [2, 3], true)], ∃ c, MessageFor
      oneConnection (Bytes.ofAscii "g") (Bytes.ofAscii "b") (Bytes.ofAscii "a") x.1 c := by
    intro x hx
    obtain rfl | rfl := List.mem_pair.1 hx
    · exact ⟨_, messageToB_for (by decide)⟩
    · exact ⟨_, messageToB_for (by decide)⟩
  obtain ⟨s, hrun, hall⟩ := delivered_iff_fits (fun _ _ _ => ⟨fun _ h => h, fun _ h => h⟩)
    oneConnection_new oneConnection_sendReady rfl hsends
  obtain ⟨s', hrun', hw⟩ := oneConnection_wrote (p := [1]) (q := [2, 3]) (by decide) (by decide)
  cases hrun.symm.trans hrun'
  have hwritten : s.handle.written (Bytes.ofAscii "g") (Bytes.ofAscii "b") = arrivals.flatten := by
    rw [hw.written]
    decide +kernel
  have hfits : S.Meets (Fits (Bytes.ofAscii "g") 0) { handle := oneConnection } arrivals := by
    decide +kernel
  exact ⟨s, hrun, hwritten, hfits, (hall arrivals (hwritten ▸ List.prefix_refl _)).2 hfits,
    by decide +kernel⟩

/-- Two messages of `2 ^ 30` bytes that arrive together are not passed on. -/
theorem not_delivered_large :
    ¬ ∀ (sender peer : EventMessageHandle) (g host : Bytes) (id : Int32)
      (sends : List (EventMessage × Bool)), NewConnection peer g id → SendReady sender g →
      sender.written g host = [] →
      (∀ x ∈ sends, ∃ c, MessageFor peer g host sender.localHostName x.1 c) →
      ∃ s, (sending g host sender).run sends = some s ∧
        ∀ arrivals : List Bytes, arrivals.flatten <+: s.handle.written g host →
          ∀ pre, pre <+: arrivals → ∃ r,
            (receiving (fun _ h _ => h) g id peer).run pre = some r ∧
            Delivered s r pre.flatten.length := by
  intro hall
  obtain ⟨p, hp⟩ : ∃ p : Bytes, p.length = 2 ^ 30 := ⟨.replicate _ 0, List.length_replicate⟩
  have hfor := messageToB_for hp.le
  obtain ⟨s, hrun, hdel⟩ := hall oneConnection oneConnection (Bytes.ofAscii "g")
    (Bytes.ofAscii "b") 0 [(messageToB p, true), (messageToB p, true)] oneConnection_new
    oneConnection_sendReady rfl (by simpa using ⟨_, hfor⟩)
  obtain ⟨s', hrun', hw⟩ := oneConnection_wrote hp.le hp.le
  cases hrun.symm.trans hrun'
  have heq : [wire [contentToB p, contentToB p]].flatten =
      s.handle.written (Bytes.ofAscii "g") (Bytes.ofAscii "b") := by
    rw [hw.written, List.flatten_singleton]
  have harr : [wire [contentToB p, contentToB p]].flatten <+:
      s.handle.written (Bytes.ofAscii "g") (Bytes.ofAscii "b") := ⟨[], by rw [List.append_nil, heq]⟩
  have hd : ∀ c ∈ [contentToB p, contentToB p],
      Deliverable oneConnection (Bytes.ofAscii "g") c := by
    simpa using hfor.deliverable
  have hm := (hw.delivered_iff (fun _ _ _ => ⟨fun _ h => h, fun _ h => h⟩) oneConnection_new hd
    harr).1 (hdel _ harr)
  have hfits : 0 + (wire [contentToB p, contentToB p]).length < 2 ^ 31 := hm.1
  rw [wire_cons, wire_cons, List.length_append, List.length_append,
    length_contentToB_frame] at hfits
  omega

end Net
