import Mtc.Lib.Pipes
import Mtc.Net.Proof.Records
import Mtc.Net.Proof.Stream

/-!
# Hosts on TCP connections

What is on the wires of a group of hosts that are connected with each other, as it is seen from the
hosts and their records:

* `Cabled`: which records are connected, and that what is written for a host goes to that host;
* `Carries`: the bytes written and not yet received are those of messages (`Pipes.Flows`).

Each comes with what happens to it when a record changes. The hosts have names in any type, and the
messages on the wires are anything that has a content.
-/

namespace Net

open EventMessage (Content)

/-! ## The hosts -/

section
variable {κ : Type*} {g : Bytes} {hosts : κ → Option EventMessageHandle} {who : κ}
  {h h' : EventMessageHandle}

/-- The connections of the hosts. -/
def recordOf (g : Bytes) (hosts : κ → Option EventMessageHandle) (e : κ × Int32) :
    Option BevInfor :=
  (hosts e.1).bind fun h => h.record g e.2

theorem recordOf_eq (hh : hosts who = some h) (id : Int32) :
    recordOf g hosts (who, id) = h.record g id := by
  rw [recordOf, hh, Option.bind_some]

variable [DecidableEq κ]

/-- One host changes one record. -/
theorem recordOf_update (hh : hosts who = some h) {id : Int32} {info : BevInfor}
    (hr : ∀ id', h'.record g id' = if id' = id then some info else h.record g id') :
    recordOf g (Function.update hosts who (some h')) =
      Function.update (recordOf g hosts) (who, id) (some info) := by
  funext e
  obtain ⟨who', id'⟩ := e
  by_cases hw : who' = who
  · subst hw
    rw [recordOf_eq (Function.update_self ..), hr]
    by_cases hid : id' = id
    · rw [if_pos hid, hid, Function.update_self]
    · rw [if_neg hid, Function.update_of_ne (fun he => hid (congrArg Prod.snd he)),
        recordOf_eq hh]
  · rw [Function.update_of_ne (fun he => hw (congrArg Prod.fst he))]
    unfold recordOf
    rw [Function.update_of_ne hw]

/-- One host changes no record. -/
theorem recordOf_update_of_lib (hh : hosts who = some h) (hl : h'.lib g = h.lib g) :
    recordOf g (Function.update hosts who (some h')) = recordOf g hosts := by
  funext e
  obtain ⟨who', id⟩ := e
  by_cases hw : who' = who
  · subst hw
    rw [recordOf_eq (Function.update_self ..), recordOf_eq hh, EventMessageHandle.record, hl]
    rfl
  · unfold recordOf
    rw [Function.update_of_ne hw]

theorem isSome_update (hh : hosts who = some h) (who' : κ) :
    (Function.update hosts who (some h') who').isSome = (hosts who').isSome := by
  by_cases hw : who' = who
  · rw [hw, Function.update_self, hh]
    rfl
  · rw [Function.update_of_ne hw]

/-- A host is the one that has changed, or an old one. -/
theorem host_update {who' : κ} {h'' : EventMessageHandle}
    (hf : Function.update hosts who (some h') who' = some h'') :
    who' = who ∧ h'' = h' ∨ who' ≠ who ∧ hosts who' = some h'' := by
  by_cases hw : who' = who
  · rw [hw, Function.update_self] at hf
    exact Or.inl ⟨hw, (Option.some_inj.1 hf).symm⟩
  · rw [Function.update_of_ne hw] at hf
    exact Or.inr ⟨hw, hf⟩

end

/-! ## The connections -/

section
variable {κ : Type*}

/-- A host connects to those it aims at (`Aims`), and what it writes for one of them goes to that
one. -/
structure Cabled (Aims : κ → κ → Prop) (addr : κ → Option (Bytes × Int32))
    (records : κ × Int32 → Option BevInfor) (tcp : κ × Int32 → Option ((κ × Int32) × Nat)) :
    Prop where
  dialed : ∀ e info, records e = some info → info.isListen = false →
    ∃ who, addr who = some (info.ip, info.port) ∧ Aims e.1 who
  paired : Pipes.Paired tcp
  distinct : ∀ e e' k, tcp e = some (e', k) → e ≠ e'
  /-- A connected end has a record, and its host aims at the other side. -/
  linked : ∀ e e' k, tcp e = some (e', k) → (records e).isSome ∧ Aims e.1 e'.1
  right : ∀ e e' k info who, tcp e = some (e', k) → records e = some info →
    addr who = some (info.ip, info.port) → Aims e.1 who → e'.1 = who

variable {Aims : κ → κ → Prop} {addr : κ → Option (Bytes × Int32)}
  {records : κ × Int32 → Option BevInfor} {tcp : κ × Int32 → Option ((κ × Int32) × Nat)}
  {e : κ × Int32} {info info' : BevInfor}

theorem cabled_init (h : ∀ e, records e = none) : Cabled Aims addr records fun _ => none := by
  refine ⟨fun e info hr => ?_, ?_, ?_, ?_, ?_⟩
  · rw [h e] at hr
    cases hr
  · intro e e' k ht
    cases ht
  · intro e e' k ht
    cases ht
  · intro e e' k ht
    cases ht
  · intro e e' k info who ht
    cases ht

theorem head_eq (h : info'.head = info.head) :
    (info'.ip, info'.port) = (info.ip, info.port) ∧ info'.isListen = info.isListen := by
  simp only [BevInfor.head, Prod.mk.injEq] at h
  obtain ⟨hip, hport, hl⟩ := h
  exact ⟨by rw [hip, hport], hl⟩

variable [DecidableEq κ]

/-- A record of the changed table was made like an old one, or is the new one. -/
theorem head_update (hold : ∀ info, records e = some info → info'.head = info.head)
    {e' : κ × Int32} {info'' : BevInfor}
    (h : Function.update records e (some info') e' = some info'') :
    (∃ info, records e' = some info ∧ info''.head = info.head) ∨
      e' = e ∧ records e = none ∧ info'' = info' := by
  by_cases he : e' = e
  · subst he
    rw [Function.update_self] at h
    cases h
    cases hr : records e' with
    | none => exact Or.inr ⟨rfl, rfl, rfl⟩
    | some info => exact Or.inl ⟨info, rfl, hold info hr⟩
  · rw [Function.update_of_ne he] at h
    exact Or.inl ⟨info'', h, rfl⟩

/-- A record is written to, read, or added. -/
theorem Cabled.update (hc : Cabled Aims addr records tcp)
    (hold : ∀ info, records e = some info → info'.head = info.head)
    (hnew : records e = none → info'.isListen = false →
      ∃ who, addr who = some (info'.ip, info'.port) ∧ Aims e.1 who) :
    Cabled Aims addr (Function.update records e (some info')) tcp := by
  refine ⟨fun e' info'' hr hl => ?_, hc.paired, hc.distinct, fun e' e'' k ht => ?_,
    fun e' e'' k info'' who ht hr ha haim => ?_⟩
  · rcases head_update hold hr with ⟨info, hr, hhead⟩ | ⟨rfl, hnone, rfl⟩
    · obtain ⟨hend, hlisten⟩ := head_eq hhead
      rw [hend]
      exact hc.dialed e' info hr (hlisten.symm.trans hl)
    · exact hnew hnone hl
  · obtain ⟨hs, hside⟩ := hc.linked e' e'' k ht
    refine ⟨?_, hside⟩
    by_cases he : e' = e
    · rw [he, Function.update_self]
      rfl
    · rwa [Function.update_of_ne he]
  · rcases head_update hold hr with ⟨info, hr, hhead⟩ | ⟨rfl, hnone, rfl⟩
    · rw [(head_eq hhead).1] at ha
      exact hc.right e' e'' k info who ht hr ha haim
    · have hs := (hc.linked e' e'' k ht).1
      rw [hnone] at hs
      cases hs

/-- More bytes have arrived. -/
theorem Cabled.arrived (hc : Cabled Aims addr records tcp) {e' : κ × Int32} {k : Nat}
    (ht : tcp e = some (e', k)) (k' : Nat) :
    Cabled Aims addr records (Function.update tcp e (some (e', k'))) := by
  have hpeer : ∀ x y l, Function.update tcp e (some (e', k')) x = some (y, l) →
      ∃ l', tcp x = some (y, l') := by
    intro x y l hx
    by_cases hxe : x = e
    · rw [hxe, Function.update_self] at hx
      cases hx
      exact ⟨k, by rw [hxe, ht]⟩
    · rw [Function.update_of_ne hxe] at hx
      exact ⟨l, hx⟩
  refine ⟨hc.dialed, hc.paired.update ht k', fun x y l hx => ?_, fun x y l hx => ?_,
    fun x y l info who hx => ?_⟩
  · obtain ⟨l', hx⟩ := hpeer x y l hx
    exact hc.distinct x y l' hx
  · obtain ⟨l', hx⟩ := hpeer x y l hx
    exact hc.linked x y l' hx
  · obtain ⟨l', hx⟩ := hpeer x y l hx
    exact hc.right x y l' info who hx

/-- A connection is accepted. -/
theorem Cabled.link (hc : Cabled Aims addr records tcp) {e' : κ × Int32} (hne : e ≠ e')
    (he : tcp e = none) (he' : tcp e' = none) (hs : (records e).isSome) (hs' : (records e').isSome)
    (haim : Aims e.1 e'.1) (haim' : Aims e'.1 e.1)
    (hright : ∀ info who, records e = some info → addr who = some (info.ip, info.port) →
      Aims e.1 who → e'.1 = who)
    (hright' : ∀ info who, records e' = some info → addr who = some (info.ip, info.port) →
      Aims e'.1 who → e.1 = who) :
    Cabled Aims addr records (Pipes.link tcp e e') := by
  -- an end of the new connection, or of an old one
  have hcases : ∀ {x y l}, Pipes.link tcp e e' x = some (y, l) →
      x = e' ∧ y = e ∨ x = e ∧ y = e' ∨ tcp x = some (y, l) := by
    intro x y l hx
    by_cases hxe' : x = e'
    · rw [hxe', Pipes.link_right] at hx
      cases hx
      exact Or.inl ⟨hxe', rfl⟩
    by_cases hxe : x = e
    · rw [hxe, Pipes.link_left hne] at hx
      cases hx
      exact Or.inr (Or.inl ⟨hxe, rfl⟩)
    rw [Pipes.link_of_ne hxe hxe'] at hx
    exact Or.inr (Or.inr hx)
  refine ⟨hc.dialed, hc.paired.link hne he he', fun x y l hx => ?_, fun x y l hx => ?_,
    fun x y l info who hx hr ha haims => ?_⟩
  · obtain ⟨rfl, rfl⟩ | ⟨rfl, rfl⟩ | hx := hcases hx
    · exact hne.symm
    · exact hne
    · exact hc.distinct x y l hx
  · obtain ⟨rfl, rfl⟩ | ⟨rfl, rfl⟩ | hx := hcases hx
    · exact ⟨hs', haim'⟩
    · exact ⟨hs, haim⟩
    · exact hc.linked x y l hx
  · obtain ⟨rfl, rfl⟩ | ⟨rfl, rfl⟩ | hx := hcases hx
    · exact hright' info who hr ha haims
    · exact hright info who hr ha haims
    · exact hc.right x y l info who hx hr ha haims

end

/-! ## The bytes -/

section
variable {ε μ : Type*}

/-- The receiving side of a new record. -/
def freshRx : Rx := ⟨[], 0, 0, false⟩

/-- What the ends have written. -/
def outOf (records : ε → Option BevInfor) (e : ε) : Bytes :=
  (records e).elim [] fun info => info.bev.output

/-- What the ends have received. -/
def rxOf (records : ε → Option BevInfor) (e : ε) : Rx := (records e).elim freshRx BevInfor.rx

theorem waiting_snoc {rx : Rx} {cs : List Content} {fut : Bytes} (c : Content)
    (h : Waiting rx cs fut) : Waiting rx (cs ++ [c]) (fut ++ c.frame) := by
  have hw : wire [c] = c.frame := List.append_nil _
  rcases h with ⟨hc, hlow, hl, hi⟩ | ⟨c', cs', rfl, hc, hb, hlow, hl, hi⟩
  · refine Or.inl ⟨hc, hlow, hl, ?_⟩
    rw [wire_append, hw, ← hi, List.append_assoc]
  · refine Or.inr ⟨c', cs' ++ [c], rfl, hc, hb, hlow, hl, ?_⟩
    rw [wire_append, hw, ← List.append_assoc, hi, List.append_assoc]

variable (content : μ → Content)

/-- The frame of a message. -/
def frameOf (m : μ) : Bytes := (content m).frame

/-- A receiver waits in messages. -/
def WaitsFor (rx : Rx) (ms : List μ) (fut : Bytes) : Prop :=
  Waiting rx (ms.map content) fut

theorem stream_frame (ms : List μ) :
    Framing.stream (frameOf content) ms =
      wire (ms.map content) := by
  simp only [wire, Framing.stream, List.flatMap_map]
  rfl

theorem waitsFor_laws : Pipes.Laws (frameOf content)
    (WaitsFor content) freshRx := by
  refine ⟨fun {rx ms fut} m h => ?_, fun ms => ?_⟩
  · unfold WaitsFor
    rw [List.map_append]
    exact waiting_snoc (content m) h
  · rw [stream_frame]
    exact waiting_nil 0

/-- The messages are on their way from the ends in `P`, and nothing has arrived at an end that is
not connected. -/
structure Carries (P : ε → Prop) (records : ε → Option BevInfor)
    (tcp : ε → Option (ε × Nat)) (pend : ε → List μ) : Prop where
  flows : ∀ e, P e → Pipes.Flows (frameOf content)
    (WaitsFor content) (outOf records) (rxOf records) tcp e (pend e)
  unread : ∀ e, tcp e = none → rxOf records e = freshRx

variable {content} {P : ε → Prop} {records : ε → Option BevInfor}
  {tcp : ε → Option (ε × Nat)} {pend : ε → List μ} {e e' : ε} {k : Nat}

theorem carries_init (h : ∀ e, records e = none) :
    Carries content P records (fun _ => none) fun _ => [] := by
  refine ⟨fun e _ => ?_, fun e _ => ?_⟩
  · rw [Pipes.flows_unlinked rfl, outOf, h e]
    rfl
  · rw [rxOf, h e]
    rfl

/-- Fewer ends are looked at. -/
theorem Carries.narrow (hc : Carries content P records tcp pend)
    {P' : ε → Prop} {pend' : ε → List μ} (h : ∀ e, P' e → P e ∧ pend' e = pend e) :
    Carries content P' records tcp pend' := by
  refine ⟨fun y hy => ?_, hc.unread⟩
  obtain ⟨hp, he⟩ := h y hy
  rw [he]
  exact hc.flows y hp

variable [DecidableEq ε]

/-- A message is written to a record, which may be new. -/
theorem Carries.write (hc : Carries content P records tcp pend)
    {info : BevInfor} (ho : info.bev.output = outOf records e) (hr : info.rx = rxOf records e)
    (x : μ) :
    Carries content P (Function.update records e
      (some (info.written (frameOf content x)))) tcp
      (Function.update pend e (pend e ++ [x])) := by
  have hrx : rxOf (Function.update records e
      (some (info.written (frameOf content x)))) = rxOf records := by
    funext y
    unfold rxOf
    by_cases hy : y = e
    · rw [hy, Function.update_self]
      exact hr
    · rw [Function.update_of_ne hy]
  refine ⟨fun y hy => ?_, fun y hy => by rw [hrx, hc.unread y hy]⟩
  rw [hrx]
  by_cases hye : y = e
  · subst hye
    rw [Function.update_self]
    refine (hc.flows y hy).write (waitsFor_laws ..) x ?_
    rw [← ho, outOf, Function.update_self]
    rfl
  · rw [Function.update_of_ne hye]
    refine (hc.flows y hy).congr ?_ rfl fun _ _ _ => rfl
    rw [outOf, Function.update_of_ne hye]
    rfl

/-- The receiving side of the peer of `e₀` is read. -/
theorem Carries.read {e₀ : ε} (hp : Pipes.Paired tcp)
    (hc : Carries content (· ≠ e₀) records tcp pend)
    (ht : tcp e₀ = some (e, k)) {info : BevInfor} (hr : records e = some info) (rx : Rx) :
    Carries content (· ≠ e₀)
      (Function.update records e (some (info.withRx rx))) tcp pend := by
  have hout : outOf (Function.update records e (some (info.withRx rx))) = outOf records := by
    funext y
    unfold outOf
    by_cases hy : y = e
    · rw [hy, Function.update_self, hr]
      rfl
    · rw [Function.update_of_ne hy]
  have hrx : ∀ y, y ≠ e → rxOf (Function.update records e (some (info.withRx rx))) y =
      rxOf records y := by
    intro y hy
    rw [rxOf, Function.update_of_ne hy]
    rfl
  refine ⟨fun y hy => ?_, fun y hy => ?_⟩
  · rw [hout]
    refine (hc.flows y hy).congr rfl rfl fun z k' hz => hrx z ?_
    rintro rfl
    exact hy (hp.inj hz ht)
  · rw [hrx y, hc.unread y hy]
    rintro rfl
    obtain ⟨k', hk'⟩ := hp _ _ _ ht
    rw [hy] at hk'
    cases hk'

/-- A record is added that nothing is written to. -/
theorem Carries.add (hc : Carries content P records tcp pend)
    (hr : records e = none) {info : BevInfor} (ho : info.bev.output = []) (hi : info.rx = freshRx) :
    Carries content P (Function.update records e (some info)) tcp pend := by
  have hout : outOf (Function.update records e (some info)) = outOf records := by
    funext y
    unfold outOf
    by_cases hy : y = e
    · rw [hy, Function.update_self, hr]
      exact ho
    · rw [Function.update_of_ne hy]
  have hrx : rxOf (Function.update records e (some info)) = rxOf records := by
    funext y
    unfold rxOf
    by_cases hy : y = e
    · rw [hy, Function.update_self, hr]
      exact hi
    · rw [Function.update_of_ne hy]
  exact ⟨fun y hy => by rw [hout, hrx]; exact hc.flows y hy,
    fun y hy => by rw [hrx]; exact hc.unread y hy⟩

/-- Two ends are connected. -/
theorem Carries.link (hc : Carries content P records tcp pend) (hne : e ≠ e')
    (he : tcp e = none) (he' : tcp e' = none) :
    Carries content P records (Pipes.link tcp e e') pend := by
  refine ⟨fun y hy => ?_, fun y hy => ?_⟩
  · by_cases hye' : y = e'
    · subst hye'
      exact (hc.flows y hy).connect (waitsFor_laws ..) he' (Pipes.link_right ..) (hc.unread e he)
    by_cases hye : y = e
    · subst hye
      exact (hc.flows y hy).connect (waitsFor_laws ..) he (Pipes.link_left hne) (hc.unread e' he')
    exact (hc.flows y hy).congr rfl (Pipes.link_of_ne hye hye') fun _ _ _ => rfl
  · refine hc.unread y ?_
    by_cases hye' : y = e'
    · rw [hye', he']
    by_cases hye : y = e
    · rw [hye, he]
    rw [← hy, Pipes.link_of_ne hye hye']

/-- An arrival ends: the peer waits in what is left. -/
theorem Carries.closed (hc : Carries content (· ≠ e) records tcp pend)
    (ht : tcp e = some (e', k)) {k' : Nat} (hk : k' ≤ (outOf records e).length)
    (hw : WaitsFor content (rxOf records e') (pend e)
      ((outOf records e).drop k')) :
    Carries content (fun _ => True) records
      (Function.update tcp e (some (e', k'))) pend := by
  refine ⟨fun y _ => ?_, fun y hy => hc.unread y ?_⟩
  · by_cases hye : y = e
    · subst hye
      rw [Pipes.flows_linked (Function.update_self ..)]
      exact ⟨hk, hw⟩
    · exact (hc.flows y hye).congr rfl (Function.update_of_ne hye ..) fun _ _ _ => rfl
  · by_cases hye : y = e
    · rw [hye, Function.update_self] at hy
      cases hy
    · rwa [Function.update_of_ne hye] at hy

end

end Net
