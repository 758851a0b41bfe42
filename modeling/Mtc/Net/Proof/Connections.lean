import Mtc.Net.Connections
import Mtc.Net.Proof.Send

/-!
# Connections and their endpoints

`connlistener_cb` looks for the port of a new peer with its bytes at the wrong end of the word, and
stores it in network order. So a lookup finds a connection of its endpoint in every run that accepts
only ports for which this makes no difference (`endpoints_right`); an accepted endpoint that has a
record gets a second one (`accept_known`), and a port that is not the same in both orders is found
as another (`accept_swapped`).

An id is loaded and counted up in two steps, so that two calls can load the same one. In every
schedule that keeps the two steps together no connection is lost (`adding_kept`).
-/

namespace Net

open Except (ok_bind)

/-! ## Ports -/

theorem toInt_intPort (p : UInt16) : (intPort p).toInt = p.toNat := by
  have hp := p.toNat_lt
  have h : intPort p = Int32.ofSizeT p.toUInt32.toNat := by
    rw [← Int32.toInt32_ofNat, UInt32.ofNat_toNat, intPort]
  rw [h, UInt16.toNat_toUInt32, Int32.toInt_ofSizeT_of_lt (by omega)]

theorem intPort_inj {p q : UInt16} : intPort p = intPort q ↔ p = q := by
  refine ⟨fun h => ?_, congrArg intPort⟩
  have := congrArg Int32.toInt h
  rw [toInt_intPort, toInt_intPort] at this
  exact UInt16.toNat_inj.1 (by omega)

theorem toNat_htons (p : UInt16) : (htons p).toNat = p.toNat % 2 ^ 8 * 2 ^ 8 + p.toNat / 2 ^ 8 := by
  have hp := p.toNat_lt
  rw [htons, UInt16.toNat_ofNat', Nat.mod_eq_of_lt (by omega)]

/-- `connlistener_cb` looks for a port in the upper half of a word. -/
theorem toNat_ntohl_htons (p : UInt16) : (ntohl (htons p).toUInt32).toNat = p.toNat * 2 ^ 16 := by
  have hp := p.toNat_lt
  have hx := toNat_htons p
  have h0 : (htons p).toNat % 2 ^ 8 = p.toNat / 2 ^ 8 := by omega
  have h1 : (htons p).toNat / 2 ^ 8 % 2 ^ 8 = p.toNat % 2 ^ 8 := by omega
  have h2 : (htons p).toNat / 2 ^ 16 = 0 := by omega
  have h3 : (htons p).toNat / 2 ^ 24 = 0 := by omega
  rw [ntohl, UInt32.toNat_ofNat', UInt16.toNat_toUInt32, h0, h1, h2, h3]
  omega

/-- What it looks for is no port, except `0`. -/
theorem ntohl_htons_ne {p : UInt16} (hp : p ≠ 0) (q : UInt16) :
    (ntohl (htons p).toUInt32).toInt32 ≠ intPort q := by
  intro h
  have h32 : ntohl (htons p).toUInt32 = q.toUInt32 := congrArg Int32.toUInt32 h
  have hn := congrArg UInt32.toNat h32
  rw [toNat_ntohl_htons, UInt16.toNat_toUInt32] at hn
  have hq := q.toNat_lt
  exact hp (UInt16.toNat_inj.1 (show p.toNat = 0 by omega))

/-! ## Endpoints -/

namespace LibeventHandle

variable {lib : LibeventHandle} {ip : Bytes}

/-- The table with an accepted connection added. -/
def listened (lib : LibeventHandle) (peer : BevInfor) : LibeventHandle :=
  { lib.added peer with listenIdVector := lib.listenIdVector ++ [lib.maxBevId] }

/-- The locks that adding a connection takes are not held. -/
structure AtRest (lib : LibeventHandle) : Prop where
  singal : lib.bevMapRwLockSingal = 0
  listenSingal : lib.listenVectorRwLockSingal = 0

theorem addBuffereventListen_eq (hl : lib.AtRest) (ip : Bytes) (port : Int32) :
    lib.addBuffereventListen ip port =
      .ok (lib.maxBevId, lib.listened (.accepted ip port)) := by
  have hw : rwWUnlock (-1) = 0 := by decide
  simp only [addBuffereventListen, hl.singal, hl.listenSingal, rwWLock_zero, ok_bind, hw, listened,
    added]
  rfl

/-- `connlistener_cb` leaves the table alone or adds the peer. -/
theorem connlistenerCb_cases (hl : lib.AtRest) (ip : Bytes) (sinPort : UInt16) :
    lib.connlistenerCb ip sinPort = .ok lib ∨ lib.connlistenerCb ip sinPort =
      .ok (lib.listened (.accepted ip (intPort sinPort))) := by
  have hadd := addBuffereventListen_eq hl ip (intPort sinPort)
  cases hc : lib.connectionOf ip (ntohl sinPort.toUInt32).toInt32 with
  | some e =>
    simp only [connlistenerCb, getConnectionId_found hl.singal hc, ok_bind]
    split_ifs with hid
    · exact Or.inl rfl
    · rw [hadd]
      exact Or.inr rfl
  | none =>
    simp only [connlistenerCb, getConnectionId_missing hl.singal hc, Bool.false_eq_true, if_false,
      ok_bind, if_neg (show ¬ (-1 : Int32) ≥ 0 by decide), hadd]
    exact Or.inr rfl

/-- In a table of ports `connlistener_cb` finds no peer. -/
theorem connlistenerCb_ports (hl : lib.AtRest)
    (hports : ∀ id info, lib.bevMap.findKey id = some info → ∃ q, info.port = intPort q)
    {port : UInt16} (hp : port ≠ 0) : lib.connlistenerCb ip (htons port) =
      .ok (lib.listened (.accepted ip (intPort (htons port)))) := by
  have hc : lib.connectionOf ip (ntohl (htons port).toUInt32).toInt32 = none := by
    refine Option.eq_none_iff_forall_ne_some.2 fun e he => ?_
    obtain ⟨hkey, hat⟩ := connectionOf_eq_some he
    obtain ⟨q, hq⟩ := hports e.1 e.2 hkey
    simp only [atEndpoint, hq, Bool.and_eq_true, decide_eq_true_eq] at hat
    exact ntohl_htons_ne hp q hat.2
  simp only [connlistenerCb, getConnectionId_missing hl.singal hc, Bool.false_eq_true, if_false,
    ok_bind, if_neg (show ¬ (-1 : Int32) ≥ 0 by decide), addBuffereventListen_eq hl]
  rfl

theorem maxBevId_added (lib : LibeventHandle) (peer : BevInfor) :
    (lib.added peer).maxBevId ≠ lib.maxBevId := by
  intro h
  have := congrArg Int32.toInt h
  rw [added, Int32.toInt_succ] at this
  have := lib.maxBevId.le_toInt
  split at * <;> omega

theorem maxBevId_listened (lib : LibeventHandle) (peer : BevInfor) :
    (lib.listened peer).maxBevId ≠ lib.maxBevId := lib.maxBevId_added peer

end LibeventHandle

namespace Endpoints

variable {s s' : Endpoints}

theorem after_self (s : Endpoints) (ip : Bytes) (port : UInt16) : s.after s.lib ip port = s := by
  rw [after, if_pos rfl]

theorem after_added (s : Endpoints) (peer : BevInfor) (ip : Bytes) (port : UInt16) :
    s.after (s.lib.added peer) ip port = { s with
      lib := s.lib.added peer
      remote := Function.update s.remote s.lib.maxBevId (some (ip, port)) } := by
  rw [after, if_neg (s.lib.maxBevId_added peer)]

theorem after_listened (s : Endpoints) (peer : BevInfor) (ip : Bytes) (port : UInt16) :
    s.after (s.lib.listened peer) ip port = { s with
      lib := s.lib.listened peer
      remote := Function.update s.remote s.lib.maxBevId (some (ip, port)) } := by
  rw [after, if_neg (s.lib.maxBevId_listened peer)]

/-- **One step** under the condition leaves the table alone, or adds a connection with the endpoint
of its record. -/
theorem next_plain (hl : s.lib.AtRest) {op : EndpointOp} (hc : PlainPorts s op)
    (h : s.next op = some s') : s' = s ∨ ∃ (peer : BevInfor) (port : UInt16) (lib : LibeventHandle),
      peer.port = intPort port ∧ lib.AtRest ∧ lib.bevMap = (s.lib.added peer).bevMap ∧
      s' = { s with
        lib := lib
        remote := Function.update s.remote s.lib.maxBevId (some (peer.ip, port)) } := by
  cases op with
  | connect ip port connects =>
    cases connects with
    | false =>
      simp only [next, LibeventHandle.addBuffereventConnect, Bool.not_false, if_true] at h
      cases h
      exact Or.inl (s.after_self ip port)
    | true =>
      simp only [next, LibeventHandle.addBuffereventConnect_eq hl.singal, Option.some_inj] at h
      exact Or.inr ⟨_, port, s.lib.added _, rfl, ⟨hl.singal, hl.listenSingal⟩, rfl,
        h.symm.trans (s.after_added _ ip port)⟩
  | accept ip port =>
    obtain ⟨hport, hknown⟩ := hc
    rcases LibeventHandle.connlistenerCb_cases hl ip (htons port) with hcb | hcb
    · simp only [next, hcb, hknown, after_self, Bool.false_and, Bool.or_false, Option.some_inj] at h
      exact Or.inl h.symm
    · simp only [next, hcb, hknown, after_listened, Bool.false_and, Bool.or_false,
        Option.some_inj] at h
      exact Or.inr ⟨_, port, s.lib.listened _, congrArg intPort hport,
        ⟨hl.singal, hl.listenSingal⟩, rfl, h.symm⟩
  | lookup ip port tryConnect connects =>
    cases hf : s.lib.connectionOf ip port with
    | some e =>
      simp only [next, LibeventHandle.getConnectionId_found hl.singal hf, after_self,
        Option.some_inj] at h
      exact Or.inl h.symm
    | none =>
      rw [next, LibeventHandle.getConnectionId_missing hl.singal hf] at h
      cases tryConnect with
      | false =>
        simp only [Bool.false_eq_true, if_false, after_self, Option.some_inj] at h
        exact Or.inl h.symm
      | true =>
        cases connects with
        | false =>
          simp only [if_true, LibeventHandle.addBuffereventConnect, Bool.not_false] at h
          cases h
          exact Or.inl (s.after_self ip _)
        | true =>
          simp only [if_true, LibeventHandle.addBuffereventConnect_eq hl.singal, after_added,
            Option.some_inj] at h
          exact Or.inr ⟨_, port16 port, s.lib.added _, (hc rfl).symm,
            ⟨hl.singal, hl.listenSingal⟩, rfl, h.symm⟩

/-- Every record is of the endpoint it names. -/
structure Right (s : Endpoints) : Prop where
  rest : s.lib.AtRest
  named : ∀ id info, s.lib.bevMap.findKey id = some info →
    ∃ port, s.remote id = some (info.ip, port) ∧ intPort port = info.port
  single : s.doubled = false

theorem Right.next (hs : s.Right) {op : EndpointOp} (hc : PlainPorts s op)
    (h : s.next op = some s') : s'.Right := by
  obtain rfl | ⟨peer, port, lib, hport, hrest, hmap, rfl⟩ := next_plain hs.rest hc h
  · exact hs
  · refine ⟨hrest, fun id info hi => ?_, hs.single⟩
    dsimp only at hi ⊢
    rw [hmap, LibeventHandle.added, AssocMap.findKey_assign] at hi
    rw [Function.update_apply]
    split_ifs at hi ⊢
    · cases hi
      exact ⟨port, rfl, hport.symm⟩
    · exact hs.named id info hi

end Endpoints

/-- **Connections are found by their endpoint** in every run that accepts only new peers whose port
reads the same in both byte orders: the connection a lookup returns is one with the endpoint asked
for, and no accepted endpoint has got a second record. -/
theorem endpoints_right {ops : List EndpointOp} {s : Endpoints}
    (hm : endpoints.Meets PlainPorts endpoints.init ops) (hrun : endpoints.run ops = some s) :
    (∀ ip port id info, s.lib.connectionOf ip port = some (id, info) →
      (∀ tryConnect connects,
        s.lib.getConnectionId ip port tryConnect connects = .ok (id, s.lib)) ∧
      ∃ p, s.remote id = some (ip, p) ∧ intPort p = port) ∧ s.doubled = false := by
  have hs : s.Right := System.inv_of_meets (I := Endpoints.Right)
    (fun _ _ _ hc h hi => hi.next hc h) hm hrun
    ⟨⟨rfl, rfl⟩, fun id info hi => (by cases hi), rfl⟩
  refine ⟨fun ip port id info hf => ⟨LibeventHandle.getConnectionId_found hs.rest.singal hf, ?_⟩,
    hs.single⟩
  obtain ⟨hkey, hat⟩ := LibeventHandle.connectionOf_eq_some hf
  obtain ⟨p, hremote, hp⟩ := hs.named id info hkey
  simp only [LibeventHandle.atEndpoint, Bool.and_eq_true, decide_eq_true_eq] at hat
  exact ⟨p, by rw [hremote, hat.1], by rw [hp, hat.2]⟩

/-- A peer is accepted from a port with two equal bytes, and then looked up. -/
theorem endpoints_right_one :
    let ip := Bytes.ofAscii "10.0.0.2"
    ∃ s, endpoints.run [.accept ip 257, .lookup ip 257 true true] = some s ∧
      (∀ ip port id info, s.lib.connectionOf ip port = some (id, info) →
        (∀ tryConnect connects,
          s.lib.getConnectionId ip port tryConnect connects = .ok (id, s.lib)) ∧
        ∃ p, s.remote id = some (ip, p) ∧ intPort p = port) ∧ s.doubled = false := by
  intro ip
  have hm : endpoints.Meets PlainPorts endpoints.init
      [.accept ip 257, .lookup ip 257 true true] := by decide
  exact ⟨_, rfl, endpoints_right hm rfl⟩

/-- Port 8080 is found as 36895, and its endpoint gets a second record. -/
theorem not_endpoints_right :
    let ip := Bytes.ofAscii "10.0.0.2"
    ((endpoints.run [.accept ip 8080]).map fun s =>
        ((s.lib.getConnectionId ip 36895 false false).toOption.map Prod.fst, s.remote 0)) =
      some (some 0, some (ip, 8080)) ∧
    (endpoints.run [.connect ip 8080 true, .accept ip 8080]).map (·.doubled) = some true := by
  refine ⟨by decide, by decide⟩

section
variable {s : Endpoints} (hl : s.lib.AtRest)
  (hports : ∀ id info, s.lib.bevMap.findKey id = some info → ∃ q, info.port = intPort q)
include hl hports

/-- A peer whose endpoint has a record gets a second one. -/
theorem accept_known {ip : Bytes} {port : UInt16} (hp : port ≠ 0) (hk : s.known ip port = true) :
    ∃ s', s.next (.accept ip port) = some s' ∧ s'.doubled = true := by
  refine ⟨_, by rw [Endpoints.next, LibeventHandle.connlistenerCb_ports hl hports hp], ?_⟩
  have hne := s.lib.maxBevId_listened (.accepted ip (intPort (htons port)))
  simp only [hk, Bool.true_and, bne_iff_ne.2 hne, Bool.or_true]

/-- A peer whose port is not the same in both byte orders is found by the other port, where no
connection was found before. -/
theorem accept_swapped {ip : Bytes} {port : UInt16} (hne : htons port ≠ port)
    (hc : s.lib.connectionOf ip (intPort (htons port)) = none) :
    ∃ s' id info, s.next (.accept ip port) = some s' ∧
      s'.lib.connectionOf ip (intPort (htons port)) = some (id, info) ∧
      s'.remote id = some (ip, port) ∧ intPort port ≠ intPort (htons port) := by
  have hp : port ≠ 0 := by
    rintro rfl
    exact hne rfl
  have hfind : (s.lib.listened (.accepted ip (intPort (htons port)))).connectionOf ip
      (intPort (htons port)) = some (s.lib.maxBevId, .accepted ip (intPort (htons port))) :=
    AssocMap.find?_assign hc (by simp)
  refine ⟨_, s.lib.maxBevId, .accepted ip (intPort (htons port)),
    by rw [Endpoints.next, LibeventHandle.connlistenerCb_ports hl hports hp], hfind, ?_,
    fun h => hne (intPort_inj.1 h).symm⟩
  rw [Endpoints.after_listened]
  exact Function.update_self ..

end

/-! ## Calls that interleave -/

/-- The id a call has loaded. -/
def AddPc.id? : AddPc → Option Int32
  | .start => none
  | .loaded id | .counted id | .returned id => some id

/-- While the ids last, the calls have numbers of their own. `max_bev_id` is behind the number of
loads exactly while a call is between its load and its `fetch_add`. -/
structure Adding.Inv {ι : Type} (peer : ι → BevInfor) (s : Adding ι) : Prop where
  singal : s.lib.bevMapRwLockSingal = 0
  loads : s.loads ≤ 2 ^ 32
  numbered : ∀ t id, (s.pc t).id? = some id → ∃ k < s.loads, id = Int32.ofSizeT k
  own : ∀ t u id, (s.pc t).id? = some id → (s.pc u).id? = some id → t = u
  idle : (∀ u id, s.pc u ≠ .loaded id) → s.lib.maxBevId = Int32.ofSizeT s.loads
  busy : ∀ u id, s.pc u = .loaded id →
    s.lib.maxBevId = id ∧ s.lib.maxBevId + 1 = Int32.ofSizeT s.loads
  stored : ∀ t id, s.pc t = .returned id →
    s.lib.bevMap.findKey id = some (peer t) ∧ s.owner id = some t

namespace Adding

variable {ι : Type} [DecidableEq ι] {peer : ι → BevInfor} {s s' : Adding ι} {t : ι}

/-- What one step of a call can do. -/
theorem next_cases (h : s.next peer t = some s') (hl : s.lib.bevMapRwLockSingal = 0) :
    (s.pc t = .start ∧ s' = { s with
      pc := Function.update s.pc t (.loaded s.lib.maxBevId), loads := s.loads + 1 }) ∨
    (∃ id, s.pc t = .loaded id ∧ s' = { s with
      lib := { s.lib with maxBevId := s.lib.maxBevId + 1 }
      pc := Function.update s.pc t (.counted id) }) ∨
    ∃ id, s.pc t = .counted id ∧ s' = { s with
      lib := { s.lib with bevMap := s.lib.bevMap.assign id (peer t), bevMapRwLockSingal := 0 }
      pc := Function.update s.pc t (.returned id)
      owner := Function.update s.owner id (some t) } := by
  have hw : rwWLock 0 = some (-1) := by decide
  have hu : rwWUnlock (-1) = 0 := by decide
  unfold Adding.next at h
  split at h
  · next hpc => exact Or.inl ⟨hpc, (Option.some_inj.1 h).symm⟩
  · next id hpc => exact Or.inr (Or.inl ⟨id, hpc, (Option.some_inj.1 h).symm⟩)
  · next id hpc =>
    rw [hl, hw] at h
    simp only [hu, Option.some_inj] at h
    exact Or.inr (Or.inr ⟨id, hpc, h.symm⟩)
  · cases h

/-- A call that keeps its id leaves the ids as they are. -/
theorem id?_update {p : AddPc} (h : p.id? = (s.pc t).id?) (u : ι) :
    (Function.update s.pc t p u).id? = (s.pc u).id? := by
  rw [Function.update_apply]
  split_ifs with hu
  · rw [h, hu]
  · rfl

/-- A load while no other call is between its load and its `fetch_add`. -/
theorem Inv.load (hi : s.Inv peer) (halone : ∀ u id, s.pc u ≠ .loaded id)
    (hlt : s.loads < 2 ^ 32) : Inv peer { s with
      pc := Function.update s.pc t (.loaded s.lib.maxBevId), loads := s.loads + 1 } := by
  have hmax := hi.idle halone
  have hfresh : ∀ u, (s.pc u).id? ≠ some s.lib.maxBevId := by
    intro u hu
    obtain ⟨k, hk, hid⟩ := hi.numbered u _ hu
    rw [hmax] at hid
    have := Int32.ofSizeT_inj hlt (by omega) hid
    omega
  constructor
  · exact hi.singal
  · exact hlt
  · intro u id hu
    dsimp only at hu ⊢
    rw [Function.update_apply] at hu
    split_ifs at hu
    · cases hu
      exact ⟨s.loads, Nat.lt_succ_self _, hmax⟩
    · obtain ⟨k, hk, hid⟩ := hi.numbered u id hu
      exact ⟨k, by omega, hid⟩
  · intro u v id hu hv
    dsimp only at hu hv
    rw [Function.update_apply] at hu hv
    split_ifs at hu hv with htu htv htv
    · rw [htu, htv]
    · cases hu
      exact absurd hv (hfresh v)
    · cases hv
      exact absurd hu (hfresh u)
    · exact hi.own u v id hu hv
  · intro hidle
    exact absurd (Function.update_self ..) (hidle t s.lib.maxBevId)
  · intro u id hu
    dsimp only at hu ⊢
    rw [Function.update_apply] at hu
    split_ifs at hu
    · cases hu
      exact ⟨rfl, by rw [hmax, Int32.ofSizeT_add_one]⟩
    · exact absurd hu (halone u id)
  · intro u id hu
    dsimp only at hu ⊢
    rw [Function.update_apply] at hu
    split_ifs at hu
    exact hi.stored u id hu

theorem Inv.count (hi : s.Inv peer) {id : Int32} (hpc : s.pc t = .loaded id) :
    Inv peer { s with
      lib := { s.lib with maxBevId := s.lib.maxBevId + 1 }
      pc := Function.update s.pc t (.counted id) } := by
  have hids := id?_update (s := s) (t := t) (p := .counted id) (by rw [hpc]; rfl)
  -- the only call whose id has not been counted
  have honly : ∀ u id', s.pc u = .loaded id' → u = t := by
    intro u id' hu
    obtain ⟨rfl, -⟩ := hi.busy u id' hu
    obtain ⟨rfl, -⟩ := hi.busy t id hpc
    exact hi.own u t _ (by rw [hu]; rfl) (by rw [hpc]; rfl)
  constructor
  · exact hi.singal
  · exact hi.loads
  · intro u id' hu
    exact hi.numbered u id' ((hids u).symm.trans hu)
  · intro u v id' hu hv
    exact hi.own u v id' ((hids u).symm.trans hu) ((hids v).symm.trans hv)
  · intro _
    exact (hi.busy t id hpc).2
  · intro u id' hu
    dsimp only at hu
    rw [Function.update_apply] at hu
    split_ifs at hu with htu
    exact absurd (honly u id' hu) htu
  · intro u id' hu
    dsimp only at hu
    rw [Function.update_apply] at hu
    split_ifs at hu
    exact hi.stored u id' hu

theorem Inv.insert (hi : s.Inv peer) {id : Int32} (hpc : s.pc t = .counted id) :
    Inv peer { s with
      lib := { s.lib with bevMap := s.lib.bevMap.assign id (peer t), bevMapRwLockSingal := 0 }
      pc := Function.update s.pc t (.returned id)
      owner := Function.update s.owner id (some t) } := by
  have hids := id?_update (s := s) (t := t) (p := .returned id) (by rw [hpc]; rfl)
  have hloaded : ∀ u id', Function.update s.pc t (.returned id) u = .loaded id' ↔
      s.pc u = .loaded id' := by
    intro u id'
    rw [Function.update_apply]
    split_ifs with htu
    · rw [htu, hpc]
      simp
    · rfl
  constructor
  · rfl
  · exact hi.loads
  · intro u id' hu
    exact hi.numbered u id' ((hids u).symm.trans hu)
  · intro u v id' hu hv
    exact hi.own u v id' ((hids u).symm.trans hu) ((hids v).symm.trans hv)
  · intro hidle
    exact hi.idle fun u id' hu => hidle u id' ((hloaded u id').2 hu)
  · intro u id' hu
    exact hi.busy u id' ((hloaded u id').1 hu)
  · intro u id' hu
    dsimp only at hu ⊢
    rw [AssocMap.findKey_assign, Function.update_apply]
    rw [Function.update_apply] at hu
    split_ifs at hu with htu
    · cases hu
      rw [if_pos rfl, if_pos rfl, htu]
      exact ⟨rfl, rfl⟩
    · have hne : id' ≠ id := by
        rintro rfl
        exact htu (hi.own u t id' (by rw [hu]; rfl) (by rw [hpc]; rfl))
      rw [if_neg hne, if_neg hne]
      exact hi.stored u id' hu

/-- **One step keeps the ids apart** when it loads alone. -/
theorem Inv.next (hi : s.Inv peer) (hc : LoadsAlone s t) (h : s.next peer t = some s') :
    s'.Inv peer := by
  obtain ⟨hpc, rfl⟩ | ⟨id, hpc, rfl⟩ | ⟨id, hpc, rfl⟩ := next_cases h hi.singal
  · obtain ⟨halone, hlt⟩ := hc hpc
    exact hi.load halone hlt
  · exact hi.count hpc
  · exact hi.insert hpc

/-- The steps of a call in a row add its connection as `addBuffereventConnect_eq` states. -/
theorem runFrom_alone (hl : s.lib.bevMapRwLockSingal = 0) (hpc : s.pc t = .start) :
    ∃ s', (adding peer).runFrom s [t, t, t] = some s' ∧ s'.pc t = .returned s.lib.maxBevId ∧
      s'.lib = s.lib.added (peer t) := by
  have hw : rwWLock 0 = some (-1) := by decide
  have hu : rwWUnlock (-1) = 0 := by decide
  refine ⟨_, by simp only [System.runFrom, adding, Adding.next, hpc, Option.bind_some,
    Function.update_self, hl, hw]; rfl, Function.update_self .., ?_⟩
  simp only [LibeventHandle.added, hu, hl]

end Adding

/-- **No connection is lost** in a schedule that never loads an id while another call is between its
load and its `fetch_add`, and while there are ids left. -/
theorem adding_kept {ι : Type} [DecidableEq ι] (peer : ι → BevInfor) {ts : List ι} {s : Adding ι}
    (hm : (adding peer).Meets LoadsAlone (adding peer).init ts)
    (hrun : (adding peer).run ts = some s) : s.Kept peer := by
  have hinit : (adding peer).init.Inv peer := by
    refine ⟨rfl, Nat.zero_le _, ?_, ?_, fun _ => rfl, ?_, ?_⟩
    · exact fun t id h => (by cases h)
    · exact fun t u id h => (by cases h)
    · exact fun u id h => (by cases h)
    · exact fun t id h => (by cases h)
  have hi := System.inv_of_meets (I := Adding.Inv peer)
    (fun _ _ _ hc h hi => hi.next hc h) hm hrun hinit
  refine ⟨fun t u id ht hu => hi.own t u id ?_ ?_, hi.stored⟩
  · rw [ht]
    rfl
  · rw [hu]
    rfl

/-- A peer that is accepted, and one that is connected to. -/
def twoPeers (listens : Bool) : BevInfor :=
  { ip := Bytes.ofAscii "10.0.0.2", port := 257, isListen := listens }

/-- Two calls of which the second loads after the first has counted. -/
theorem adding_kept_two : ∃ s, (adding twoPeers).run [true, true, false, false, true, false] =
    some s ∧ s.pc true = .returned 0 ∧ s.pc false = .returned 1 ∧ s.Kept twoPeers := by
  have hbusy : ∀ {s : Adding Bool} {t : Bool}, s.pc t ≠ .start → LoadsAlone s t :=
    fun h hpc => absurd hpc h
  have hm : (adding twoPeers).Meets LoadsAlone (adding twoPeers).init
      [true, true, false, false, true, false] := by
    refine .cons (fun _ => ⟨fun u id h => ?_, by decide⟩) rfl (.cons (hbusy (by decide)) rfl
      (.cons (fun _ => ⟨fun u id h => ?_, by decide⟩) rfl (.cons (hbusy (by decide)) rfl
      (.cons (hbusy (by decide)) rfl (.cons (hbusy (by decide)) rfl trivial)))))
    · cases h
    · cases u <;> cases h
  exact ⟨_, rfl, by decide, by decide, adding_kept twoPeers hm rfl⟩

/-- Two calls that load the same id: the second connection takes the place of the first. -/
theorem not_adding_kept : ∃ s, (adding twoPeers).run [true, false, true, false, true, false] =
    some s ∧ s.pc true = .returned 0 ∧ s.pc false = .returned 0 ∧
      s.lib.bevMap.findKey 0 = some (twoPeers false) ∧ twoPeers true ≠ twoPeers false :=
  ⟨_, rfl, by decide, by decide, by decide, by decide⟩

end Net
