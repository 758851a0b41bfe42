import Mtc.Lock.Proof.Arrivals
import Mtc.Lock.Proof.Linear

/-!
# The lock network refines the letters

`Follows` is the relation between a state of the network and the letters of `lockService`. In a
state with it every action that is enabled is taken, no host ends in a fault, and the letters make
steps with the same events (`Follows.goes`).
-/

namespace Lock

open Except (ok_bind)
open Net
open Net.EventMessageHandle
open Service (Letter Call)

/-- The network does what the letters do. -/
structure Follows (L : Prop) (lockServerHost localHostName : Bytes)
    (addr : Option Bytes → Option (Bytes × Int32)) (n : Network) (s : Letters) : Prop where
  table : s.server = n.table
  calls : s.calls = n.calls.findKey
  rel : ∃ pend, NetRel L (fun _ => True) lockServerHost localHostName addr n.host n.tcp s pend

/-- An action is taken, and the letters take its steps. -/
def Goes (L : Prop) (lockServerHost localHostName : Bytes)
    (addr : Option Bytes → Option (Bytes × Int32)) (n : Network) (s : Letters) (a : NetworkAction)
    (next : Option Network) : Prop :=
  ∃ n' s', next = some n' ∧ Follows L lockServerHost localHostName addr n' s' ∧
    lockService.Inv s' ∧ (lockService.Emits s (n.events a n') s' ∨
      n.events a n' = [] ∧ lockService.Moves s s')

section
variable {L : Prop} {lockServerHost localHostName : Bytes}
  {addr : Option Bytes → Option (Bytes × Int32)} {n n' : Network} {s : Letters}

/-! ## The hosts -/

theorem host_of_clients {name : Bytes} {h h' : EventMessageHandle}
    (hh : n.clients.findKey name = some h) (hs : n'.server = n.server)
    (hc : n'.clients = n.clients.put name h') :
    n'.host = Function.update n.host (some name) (some h') := by
  funext who
  cases who with
  | none =>
    rw [Function.update_of_ne (Option.some_ne_none name).symm, Network.host, Network.host, hs]
  | some name' =>
    rw [Network.host, hc, AssocMap.findKey_put_eq_update hh]
    by_cases he : name' = name
    · rw [he, Function.update_self, Function.update_self]
    · rw [Function.update_of_ne he, Function.update_of_ne (fun h => he (Option.some_inj.1 h))]
      rfl

theorem host_of_server {h' : EventMessageHandle} (hs : n'.server = h')
    (hc : n'.clients = n.clients) : n'.host = Function.update n.host none (some h') := by
  funext who
  cases who with
  | none => rw [Function.update_self, Network.host, hs]
  | some name =>
    rw [Function.update_of_ne (Option.some_ne_none name), Network.host, Network.host, hc]

theorem host_putHost {who : Option Bytes} {h : EventMessageHandle} (hh : n.host who = some h)
    (h' : EventMessageHandle) : (n.putHost who h').host = Function.update n.host who (some h') := by
  cases who with
  | none => exact host_of_server rfl rfl
  | some name => exact host_of_clients hh rfl rfl

theorem Network.host_accepted {who : Option Bytes} {h : EventMessageHandle}
    (hh : n.host who = some h) (e : End) (h' : EventMessageHandle) (id : Int32) :
    (n.accepted e who h' id).host = Function.update n.host who (some h') := host_putHost hh h'

theorem Network.putHost_self (n : Network) {who : Option Bytes} {h : EventMessageHandle}
    (hh : n.host who = some h) : n.putHost who h = n := by
  cases who with
  | none =>
    cases hh
    rfl
  | some name =>
    rw [Network.putHost, AssocMap.put_eq_self hh]

theorem Network.host_begun {host : Bytes} {h : EventMessageHandle}
    (hh : n.clients.findKey host = some h) (call : Nat) (h' : EventMessageHandle) (c : LockCall) :
    (n.begun call host h' c).host = Function.update n.host (some host) (some h') :=
  host_of_clients hh rfl rfl

theorem Network.findKey_begun (n : Network) (call : Nat) (host : Bytes) (h' : EventMessageHandle)
    (c : LockCall) :
    (n.begun call host h' c).calls.findKey = Function.update n.calls.findKey call (some c) :=
  AssocMap.findKey_assign_eq_update ..

theorem Network.host_waited {host : Bytes} {h : EventMessageHandle}
    (hh : n.clients.findKey host = some h) (call : Nat) (h' : EventMessageHandle) (c : LockCall) :
    (n.waited call host h' c).host = Function.update n.host (some host) (some h') :=
  host_of_clients hh rfl rfl

theorem Network.host_served (n : Network) (t : LockTable) (h' : EventMessageHandle) :
    (n.served t h').host = Function.update n.host none (some h') :=
  host_of_server rfl rfl

theorem toInt_lt_of_room {who : Option Bytes} {h : EventMessageHandle} {lib : LibeventHandle}
    {k : Nat} (hroom : Room n who k) (hh : n.host who = some h)
    (hl : h.lib remoteLockGroupName = some lib) : lib.maxBevId.toInt + (k : Int) < 2 ^ 31 := by
  rw [Room, hh, Option.bind_some, hl] at hroom
  exact of_decide_eq_true hroom

/-! ## Calls -/

theorem mem_clients_of_calls {pend : End → List Mail}
    (hr : NetRel L (fun _ => True) lockServerHost localHostName addr n.host n.tcp s pend) {c : Nat}
    {name : Bytes} {request : PageLockRequest} (hc : s.calls c = some (.waiting name request)) :
    ∃ h, n.clients.findKey name = some h :=
  Option.isSome_iff_exists.1 (hr.roles.known c name request hc)

/-- Nothing of a call that has not begun is on a wire. -/
theorem NetRel.call_ne {pend : End → List Mail}
    (hr : NetRel L (fun _ => True) lockServerHost localHostName addr n.host n.tcp s pend)
    (hi : lockService.Inv s) {call : Nat} (hnew : s.calls call = none) :
    ∀ e, ∀ m ∈ pend e, m.call ≠ call := by
  intro e m hm hcall
  refine hi.mem_calls (Service.mem_numbers.2 ?_) (hcall ▸ hnew)
  have hflight := hr.mailed.flight e m hm
  cases m with
  | request m => exact Or.inl ⟨m, hflight, rfl⟩
  | reply m => exact Or.inr ⟨m, List.mem_append_left _ hflight, rfl⟩

/-- The request has been sent. -/
theorem Network.request_eq {call : Nat} {host : Bytes} {request : PageLockRequest}
    {connects : Bool} (he : NetworkEnabled n (.request call host request connects))
    {h h' : EventMessageHandle} (hh : n.clients.findKey host = some h) {msg : EventMessage}
    (hreq : requestPageLock h lockServerHost request connects = .ok (some msg, h')) :
    n.request lockServerHost call host request connects =
      some (n.begun call host h' (.waiting host request)) := by
  obtain ⟨hnew, hone, -⟩ := he
  rw [Network.request, hnew, hone, hh]
  simp only [Option.isSome_none, Bool.or_self, Bool.false_eq_true, if_false, Option.bind_some,
    hreq]

theorem Network.events_begun {call : Nat} (hnew : n.calls.findKey call = none) (host : Bytes)
    (request : PageLockRequest) (connects : Bool) (h' : EventMessageHandle) :
    n.events (.request call host request connects)
      (n.begun call host h' (.waiting host request)) = [.begins call (host, request)] := by
  simp only [Network.events, NetworkAction.call, Option.elim_some, n.findKey_begun,
    Function.update_self, hnew]
  rfl

/-- `request_page_lock` is called and sends its request. -/
theorem Follows.request (hn : Names lockServerHost localHostName)
    (hf : Follows L lockServerHost localHostName addr n s) (hi : lockService.Inv s) {call : Nat}
    {host : Bytes} {request : PageLockRequest} {connects : Bool}
    (he : NetworkEnabled n (.request call host request connects))
    (hfits : NetworkFits n (.request call host request connects)) (hL : L → connects = true) :
    Goes L lockServerHost localHostName addr n s (.request call host request connects)
      (n.request lockServerHost call host request connects) := by
  obtain ⟨htable, hcalls, pend, hr⟩ := hf
  obtain ⟨hnew, hone, hsome⟩ := id he
  obtain ⟨h, hh⟩ := Option.isSome_iff_exists.1 hsome
  have hhost : n.host (some host) = some h := hh
  have hclient := hr.roles.client host h hhost
  obtain ⟨lib, hl, ho⟩ := hr.placed.online (some host) h hhost
  obtain ⟨htype, hend⟩ := hr.placed.client host h hhost
  obtain ⟨a, ha⟩ := Option.isSome_iff_exists.1 ((hr.placed.known none).symm.trans rfl)
  have hroom := toInt_lt_of_room hfits hhost hl
  obtain ⟨msg, h', hreq, hsends⟩ := requestPageLock_sends hn hclient.name
    (hr.placed.short host (by rw [hhost]; rfl)) hclient.localHost htype (hend.trans ha)
    (hr.placed.port ha) hl ho hroom request connects
  have hnew' : s.calls call = none := by rw [hcalls, hnew]
  have hstep : lockService.Step s (s.start call host request) := by
    refine .start hnew' fun c r hc => ?_
    rw [hcalls] at hc
    exact outstanding_eq_false hone c r hc
  have hknown : ∀ c name r, (s.start call host request).calls c = some (.waiting name r) →
      (n.host (some name)).isSome := by
    intro c name r hc
    rcases Service.update_eq_some hc with ⟨-, hx⟩ | ⟨-, hc⟩
    · cases hx
      rw [hhost]
      rfl
    · exact hr.roles.known c name r hc
  obtain ⟨pend', hr', -⟩ := hr.send hhost (x := .request ⟨call, host, request⟩) hsends hL ha
    ⟨fun _ => nofun, fun _ => rfl⟩ (fun _ _ _ => rfl) (hr.call_ne hi hnew')
    (Mail.inFlight_start s ⟨call, host, request⟩) rfl hknown
  refine ⟨_, s.start call host request, Network.request_eq he hh hreq,
    ⟨htable, ?_, pend', ?_⟩, hi.step hstep, Or.inl ?_⟩
  · rw [n.findKey_begun, ← hcalls]
    rfl
  · rw [Network.host_begun hh]
    exact hr'
  · rw [Network.events_begun hnew]
    exact .start hnew'

/-- A waiting call finds no reply. -/
theorem NetRel.sleeps (hn : Names lockServerHost localHostName) {pend : End → List Mail}
    (hr : NetRel L (fun _ => True) lockServerHost localHostName addr n.host n.tcp s pend)
    {host : Bytes} {h : EventMessageHandle} (hh : n.host (some host) = some h)
    {request : PageLockRequest} (hfind : s.boxes.find? (lockService.accepts host request) = none) :
    waitForLockReply h request.filter = .ok (.sleeps, h) := by
  have hclient := hr.roles.client host h hh
  refine waitForLockReply_none hn.localHostName hclient.name hclient.fits hclient.queue ?_
  refine (Service.find?_box (S := lockService) s.boxes host request).trans ?_
  rw [hfind, Option.map_none]

/-- A waiting call takes its reply. -/
theorem NetRel.take (hn : Names lockServerHost localHostName) {pend : End → List Mail}
    (hr : NetRel L (fun _ => True) lockServerHost localHostName addr n.host n.tcp s pend)
    {host : Bytes} {h : EventMessageHandle} (hh : n.host (some host) = some h)
    {request : PageLockRequest} {m : Letter Bytes PageLockReply}
    (hfind : s.boxes.find? (lockService.accepts host request) = some m) (call : Nat) :
    ∃ h', waitForLockReply h request.filter = .ok (.replied m.body, h') ∧
      NetRel L (fun _ => True) lockServerHost localHostName addr
        (Function.update n.host (some host) (some h')) n.tcp
        (lockService.take s call host request m) pend := by
  have hclient := hr.roles.client host h hh
  have hbox : (Service.box s.boxes host).find? (fun r => decide (r.page = request.page)) =
      some m.body := by
    refine (Service.find?_box (S := lockService) s.boxes host request).trans ?_
    rw [hfind, Option.map_some]
  have hfit := hclient.fits (List.ne_nil_of_mem (List.mem_of_find?_eq_some hbox))
  obtain ⟨h', hwait, hlocal, hq⟩ := waitForLockReply_some hn.localHostName hclient.name hfit
    hclient.queue hbox
  have hrq := waitForLockReply_requeued hwait remoteLockGroupName
  have hrecs : recordOf remoteLockGroupName (Function.update n.host (some host) (some h')) =
      recordOf remoteLockGroupName n.host :=
    recordOf_update_of_lib hh hrq.lib
  obtain ⟨lib, hl, ho⟩ := hr.placed.online (some host) h hh
  refine ⟨h', hwait, hr.roles.requeued hh ?_ (fun name hne => ?_) (fun c name r hc => ?_),
    hr.placed.update hh hrq.config ⟨lib, hrq.lib.trans hl, ho⟩, ?_, ?_, ?_⟩
  · refine ⟨hclient.name, hlocal.trans hclient.localHost, fun _ => hfit, ?_⟩
    rw [hq]
    simp only [Service.take]
    rw [Service.box_eraseP]
    rfl
  · simp only [Service.take]
    rw [Service.box_eraseP_ne hne]
  · rcases Service.update_eq_some hc with ⟨-, hx⟩ | ⟨-, hc⟩
    · cases hx
    · exact hr.roles.known c name r hc
  · rw [hrecs]
    exact hr.cabled
  · rw [hrecs]
    exact hr.mailed.congr fun m => by cases m <;> exact Iff.rfl
  · rw [hrecs]
    exact hr.carries

/-- A round of a call whose reply is in its queue. -/
theorem Follows.wait_returns (hn : Names lockServerHost localHostName)
    (hf : Follows L lockServerHost localHostName addr n s) {call : Nat} {host : Bytes}
    {request : PageLockRequest} (hw : n.calls.findKey call = some (.waiting host request))
    {m : Letter Bytes PageLockReply}
    (hfind : s.boxes.find? (lockService.accepts host request) = some m) :
    ∃ n', n.wait call = some n' ∧
      n'.calls.findKey = Function.update n.calls.findKey call
        (some (.returned host request m.body)) ∧
      Follows L lockServerHost localHostName addr n' (lockService.take s call host request m) := by
  obtain ⟨htable, hcalls, pend, hr⟩ := hf
  obtain ⟨h, hh⟩ := mem_clients_of_calls hr (by rw [hcalls, hw])
  obtain ⟨h', hwait, hr'⟩ := hr.take hn hh hfind call
  have hput : (n.waited call host h' (.returned host request m.body)).calls.findKey =
      Function.update n.calls.findKey call (some (.returned host request m.body)) :=
    AssocMap.findKey_put_eq_update hw _
  refine ⟨_, ?_, hput, htable, ?_, pend, ?_⟩
  · rw [Network.wait, hw]
    simp only [hh, Option.bind_some, hwait]
  · rw [hput, ← hcalls]
    rfl
  · rw [Network.host_waited hh]
    exact hr'

/-- A round of a waiting call reads its reply, or nothing. -/
theorem Follows.wait (hn : Names lockServerHost localHostName)
    (hf : Follows L lockServerHost localHostName addr n s) (hi : lockService.Inv s) {call : Nat}
    (he : NetworkEnabled n (.wait call)) :
    Goes L lockServerHost localHostName addr n s (.wait call) (n.wait call) := by
  obtain ⟨host, request, hw⟩ := he
  have hw' : s.calls call = some (.waiting host request) := by rw [hf.calls, hw]
  cases hfind : s.boxes.find? (lockService.accepts host request) with
  | none =>
    obtain ⟨pend, hr⟩ := hf.rel
    obtain ⟨h, hh⟩ := mem_clients_of_calls hr hw'
    refine ⟨n, s, ?_, hf, hi, Or.inl ?_⟩
    · rw [Network.wait, hw]
      simp only [hh, Option.bind_some, hr.sleeps hn hh hfind, Network.putHost,
        AssocMap.put_eq_self hh]
    · have hev : n.events (.wait call) n = [] := Service.callEvents_self call _
      rw [hev]
      exact .stay
  | some m =>
    obtain ⟨n', hwait, hput, hf'⟩ := hf.wait_returns hn hw hfind
    refine ⟨n', _, hwait, hf', hi.step (.take hw' hfind), Or.inl ?_⟩
    have hev : n.events (.wait call) n' = [.returns call (host, request) m.body] := by
      simp only [Network.events, NetworkAction.call, Option.elim_some, hput,
        Function.update_self, hw]
      rfl
    rw [hev]
    exact .take hw' hfind

/-! ## Connections -/

/-- `connlistener_cb` takes up a connection, or leaves it. -/
theorem Follows.accept (hf : Follows L lockServerHost localHostName addr n s)
    (hi : lockService.Inv s) {e : End} {who : Option Bytes} {ip : Bytes} {sinPort : UInt16}
    (he : NetworkEnabled n (.accept e who ip sinPort))
    (hfits : NetworkFits n (.accept e who ip sinPort)) :
    Goes L lockServerHost localHostName addr n s (.accept e who ip sinPort)
      (n.accept e who ip sinPort) := by
  obtain ⟨htable, hcalls, pend, hr⟩ := hf
  obtain ⟨hte, info, h, hrec, hlisten, hh, hat⟩ := he
  obtain ⟨hroom, hmistaken⟩ := hfits
  obtain ⟨lib, hl, ho⟩ := hr.placed.online who h hh
  have hroom := toInt_lt_of_room hroom hh hl
  obtain ⟨group, hg, rfl⟩ := lib_eq_some.1 hl
  have hguard : ¬ ((n.tcp e).isSome || info.isListen ||
      listensAt h ≠ some (info.ip, info.port)) = true := by
    rw [hte, hlisten, hat]
    simp
  rcases LibeventHandle.connlistenerCb_cases ho.rest ip sinPort with hcb | hcb
  · refine ⟨n, s, ?_, ⟨htable, hcalls, pend, hr⟩, hi, Or.inl .stay⟩
    simp only [Network.accept, hrec, hh, Option.bind_some, if_neg hguard, hg, hcb,
      putHandle_self hg, if_true]
    rw [n.putHost_self hh]
  · refine ⟨n.accepted e who (h.putHandle remoteLockGroupName group
      (group.handle.listened (.accepted ip (intPort sinPort)))) group.handle.maxBevId, s, ?_,
      ⟨?_, ?_, pend, ?_⟩, hi, Or.inl .stay⟩
    · simp only [Network.accept, hrec, hh, Option.bind_some, if_neg hguard, hg, hcb,
        if_neg (group.handle.maxBevId_listened _)]
    · cases who <;> exact htable
    · cases who <;> exact hcalls
    · rw [Network.host_accepted hh]
      refine hr.accept hte hrec hlisten hh hat hl hroom (reconnected_putHandle hg _)
        fun name hw ha => ?_
      -- the server does not take the connection for one to another client
      have hsome : (n.host (some name)).isSome := by
        rw [hr.placed.known, ha]
        rfl
      obtain ⟨hc, hhc⟩ := Option.isSome_iff_exists.1 hsome
      refine hmistaken hw (name, hc) (AssocMap.findKey_eq_some_iff.1 hhc) ?_
      exact ((hr.placed.server n.server rfl).2 name hsome).trans ha

/-! ## Bytes -/

/-- The room that is asked for is enough for the bytes that are there when more have arrived. -/
theorem toInt_lt_of_fits {e e' : End} {i k : Nat} {connects : List Bool}
    (hfits : NetworkFits n (.arrive e k connects)) (ht : n.tcp e = some (e', i))
    {info info' : BevInfor} (hrec : n.record e = some info) (hrec' : n.record e' = some info')
    {h : EventMessageHandle} {lib : LibeventHandle} (hh : n.host e'.1 = some h)
    (hl : h.lib remoteLockGroupName = some lib) :
    lib.maxBevId.toInt + (info'.bev.input ++ info.bev.piece i k).length < 2 ^ 31 := by
  have hpeer : n.peer e = e'.1 := by
    rw [Network.peer, ht]
    rfl
  have hbuf : n.buffered e k = (info'.bev.input ++ info.bev.piece i k).length := by
    rw [Network.buffered, ht]
    simp only [hrec, hrec', Option.elim_some, List.length_append]
  have hroom : Room n (n.peer e) (n.buffered e k) := hfits
  rw [hpeer, hbuf] at hroom
  exact toInt_lt_of_room hroom hh hl

theorem Network.arrive_eq {e e' : End} {i : Nat} (ht : n.tcp e = some (e', i)) {info : BevInfor}
    (hrec : n.record e = some info) {k : Nat} {connects : List Bool}
    (hn' : n.receive e' (info.bev.piece i k) connects = some n') :
    n.arrive e k connects = some (n'.arrived e e' (i + (info.bev.piece i k).length)) := by
  simp only [Network.arrive, ht, hrec, Option.bind_some]
  rw [hn', Option.map_some]

/-- Bytes arrive at a host, and it passes on the messages that are complete. -/
theorem Follows.arrive (hn : Names lockServerHost localHostName)
    (hf : Follows L lockServerHost localHostName addr n s) (hi : lockService.Inv s) {e : End}
    {k : Nat} {connects : List Bool} (he : NetworkEnabled n (.arrive e k connects))
    (hfits : NetworkFits n (.arrive e k connects)) (hL : L → ∀ b ∈ connects, b = true) :
    Goes L lockServerHost localHostName addr n s (.arrive e k connects)
      (n.arrive e k connects) := by
  obtain ⟨htable, hcalls, pend, hr⟩ := hf
  obtain ⟨⟨⟨who, id⟩, i⟩, ht⟩ := Option.isSome_iff_exists.1 he
  -- the records of both ends
  obtain ⟨info, hrec⟩ := Option.isSome_iff_exists.1 (hr.cabled.linked e _ i ht).1
  obtain ⟨j, hj⟩ := hr.cabled.paired e _ i ht
  obtain ⟨info', hrec'⟩ := Option.isSome_iff_exists.1 (hr.cabled.linked _ e j hj).1
  obtain ⟨h, hh, hid⟩ := Option.bind_eq_some_iff.1 hrec'
  obtain ⟨lib, hl, ho⟩ := hr.placed.online who h hh
  rw [record_of_lib hl] at hid
  have hroom := toInt_lt_of_fits hfits ht hrec hrec' hh hl
  have hmax := ho.max
  have hlen : (info'.bev.input ++ info.bev.piece i k).length < 2 ^ 31 := by omega
  have hsize : ∀ m ∈ pend e, (m.content lockServerHost localHostName).size < 2 ^ 31 :=
    fun m hm => hr.size_lt hn hi hm
  cases who with
  | none =>
    have hx : ServerNeeds L id (n.table, connects) s
        (h.putRecord remoteLockGroupName id (info'.received (info.bev.piece i k))) := by
      refine ⟨htable, hL, _, info'.received (info.bev.piece i k),
        (reconnected_putRecord hl id _).lib, ?_, hroom⟩
      rw [LibeventHandle.findKey_putRecord hid, if_pos rfl]
    obtain ⟨⟨t, cs⟩, s', h', pend', hrun, hmoves, ⟨htable', -⟩, hr'⟩ := hr.arrive ht hh hl hrec hid
      hlen hsize qKeeps_serverNeeds (passKeeps_server hn hi ht) hx
    refine ⟨(n.served t h').arrived e (none, id) _, s', Network.arrive_eq ht hrec ?_,
      ⟨htable', hmoves.calls.trans hcalls, pend', ?_⟩, hmoves.inv hi, Or.inr ⟨rfl, hmoves⟩⟩
    · simp only [Network.receive, hh, Option.bind_some]
      rw [hrun]
    · rw [← n.host_served t] at hr'
      exact hr'
  | some name =>
    obtain ⟨⟨⟩, s', h', pend', hrun, hmoves, htable', hr'⟩ := hr.arrive ht hh hl hrec hid hlen hsize
      (Q := ClientNeeds n.table) (fun _ _ _ _ _ hq _ _ _ _ => hq)
      (passKeeps_client hn hi ht n.table) (x := ()) htable
    refine ⟨(n.putHost (some name) h').arrived e (some name, id) _, s',
      Network.arrive_eq ht hrec ?_, ⟨htable', hmoves.calls.trans hcalls, pend', ?_⟩,
      hmoves.inv hi, Or.inr ⟨rfl, hmoves⟩⟩
    · simp only [Network.receive, hh, Option.bind_some]
      rw [hrun]
    · rw [← host_putHost hh] at hr'
      exact hr'

/-! ## Steps -/

variable {server : EventMessageHandle} {clients : AssocMap Bytes EventMessageHandle}
  {a : NetworkAction}

/-- **An action that is enabled is taken.** -/
theorem Follows.goes (hn : Names lockServerHost localHostName)
    (hf : Follows L lockServerHost localHostName addr n s) (hi : lockService.Inv s)
    (he : NetworkEnabled n a) (hfits : NetworkFits n a) (hL : L → a.Connects) :
    Goes L lockServerHost localHostName addr n s a
      ((lockNetwork lockServerHost server clients).next n a) := by
  cases a with
  | request call host request connects => exact hf.request hn hi he hfits hL
  | accept e who ip sinPort => exact hf.accept hi he hfits
  | arrive e k connects => exact hf.arrive hn hi he hfits hL
  | wait call => exact hf.wait hn hi he

/-- No other action is. -/
theorem enabled_of_next (hn : (lockNetwork lockServerHost server clients).next n a = some n') :
    NetworkEnabled n a := by
  cases a with
  | request call host request connects =>
    change n.request lockServerHost call host request connects = some n' at hn
    unfold Network.request at hn
    split_ifs at hn with hguard
    rw [Bool.or_eq_true, not_or, Option.not_isSome_iff_eq_none, Bool.not_eq_true] at hguard
    obtain ⟨h, hh, -⟩ := Option.bind_eq_some_iff.1 hn
    exact ⟨hguard.1, hguard.2, by rw [hh]; rfl⟩
  | accept e who ip sinPort =>
    obtain ⟨info, hrec, hn⟩ := Option.bind_eq_some_iff.1 hn
    obtain ⟨h, hh, hn⟩ := Option.bind_eq_some_iff.1 hn
    split_ifs at hn with hguard
    rw [Bool.or_eq_true, Bool.or_eq_true, not_or, not_or, Option.not_isSome_iff_eq_none,
      Bool.not_eq_true, decide_eq_true_eq, not_not] at hguard
    exact ⟨hguard.1.1, info, h, hrec, hguard.1.2, hh, hguard.2⟩
  | arrive e k connects =>
    obtain ⟨x, hx, -⟩ := Option.bind_eq_some_iff.1 hn
    exact Option.isSome_iff_exists.2 ⟨x, hx⟩
  | wait call =>
    change n.wait call = some n' at hn
    unfold Network.wait at hn
    split at hn
    · exact ⟨_, _, ‹_›⟩
    · cases hn

end

/-! ## Runs -/

section
variable {lockServerHost : Bytes} {server : EventMessageHandle}
  {clients : AssocMap Bytes EventMessageHandle}

theorem names_of_ready (h : NetworkReady lockServerHost server clients) :
    Names lockServerHost server.localHostName :=
  ⟨h.short, h.cluster.lockServerHost, h.cluster.localHostName⟩

/-- Where the hosts listen. -/
def addrOf (server : EventMessageHandle) (clients : AssocMap Bytes EventMessageHandle)
    (who : Option Bytes) : Option (Bytes × Int32) :=
  (({ server, clients } : Network).host who).bind listensAt

theorem placed_init (h : NetworkReady lockServerHost server clients) :
    Placed lockServerHost (addrOf server clients) ({ server, clients } : Network).host := by
  obtain ⟨a, h0, ha, hserver⟩ := h.serverAt
  have haddr : addrOf server clients none = some a := ha
  have hclient : ∀ name a', addrOf server clients (some name) = some a' →
      ∃ h, clients.findKey name = some h ∧ listensAt h = some a' :=
    fun name a' => Option.bind_eq_some_iff.1
  have hfind : ∀ name h, clients.findKey name = some h →
      addrOf server clients (some name) = listensAt h := by
    intro name h hh
    change (clients.findKey name).bind listensAt = _
    rw [hh]
    rfl
  refine ⟨fun {who who' a'} hw hw' => ?_, fun {who a'} hw => ?_, fun who => ?_, fun name hs => ?_,
    fun who h' hh => ?_, fun who h' hh => ?_, fun h' hh => ?_, fun name h' hh => ?_⟩
  · cases who with
    | none =>
      cases haddr.symm.trans hw
      cases who' with
      | none => rfl
      | some name =>
        obtain ⟨h', hh', hl⟩ := hclient name a hw'
        exact absurd hl (hserver name h' hh').2
    | some name =>
      obtain ⟨h', hh', hl⟩ := hclient name a' hw
      cases who' with
      | none =>
        cases haddr.symm.trans hw'
        exact absurd hl (hserver name h' hh').2
      | some name' =>
        obtain ⟨h'', hh'', hl'⟩ := hclient name' a' hw'
        rw [h.apart name name' h' h'' hh' hh'' (hl.trans hl'.symm)]
  · cases who with
    | none =>
      cases haddr.symm.trans hw
      exact h0
    | some name =>
      obtain ⟨h', hh', hl⟩ := hclient name a' hw
      obtain ⟨-, -, -, a'', h0', hl', -⟩ := h.client name h' hh'
      cases hl.symm.trans hl'
      exact h0'
  · cases who with
    | none =>
      rw [haddr]
      rfl
    | some name =>
      change (clients.findKey name).isSome = ((clients.findKey name).bind listensAt).isSome
      cases hh : clients.findKey name with
      | none => rfl
      | some h' =>
        obtain ⟨-, -, -, a', -, hl, -⟩ := h.client name h' hh
        rw [Option.bind_some, hl]
        rfl
  · obtain ⟨h', hh'⟩ := Option.isSome_iff_exists.1 hs
    exact (h.client name h' hh').1
  · refine ⟨{}, ?_, LibeventHandle.online_init⟩
    cases who with
    | none =>
      cases hh
      exact h.unconnected
    | some name => exact (h.client name h' hh).2.1
  · cases who with
    | none =>
      cases hh
      rfl
    | some name => exact (hfind name h' hh).symm
  · cases hh
    refine ⟨h.reply, fun name hs => ?_⟩
    obtain ⟨h', hh'⟩ := Option.isSome_iff_exists.1 hs
    obtain ⟨-, -, -, a', -, hl, he⟩ := h.client name h' hh'
    rw [hfind name h' hh', hl, he]
  · obtain ⟨-, -, ht, -⟩ := h.client name h' hh
    exact ⟨ht, (hserver name h' hh).1.trans haddr.symm⟩

theorem recordOf_init (h : NetworkReady lockServerHost server clients) (e : End) :
    recordOf remoteLockGroupName ({ server, clients } : Network).host e = none := by
  obtain ⟨who, id⟩ := e
  cases hh : ({ server, clients } : Network).host who with
  | none =>
    rw [recordOf, hh]
    rfl
  | some h' =>
    obtain ⟨lib, hl, -⟩ := (placed_init h).online who h' hh
    have hl' : h'.lib remoteLockGroupName = some {} := by
      cases who with
      | none =>
        cases hh
        exact h.unconnected
      | some name => exact (h.client name h' hh).2.1
    rw [recordOf_eq hh, record_of_lib hl']
    rfl

theorem follows_init (L : Prop) (h : NetworkReady lockServerHost server clients) :
    Follows L lockServerHost server.localHostName (addrOf server clients) { server, clients }
      { server := [] } := by
  have hnone := recordOf_init h
  obtain ⟨-, hhosts⟩ := refines_init h.cluster
  refine ⟨rfl, rfl, fun _ => [], ⟨fun h' hh => ?_, hhosts.client, fun n name r hc => ?_⟩,
    placed_init h, cabled_init hnone, mailed_init [], carries_init hnone⟩
  · cases hh
    exact ⟨rfl, hhosts.registered⟩
  · cases hc

/-- The rule for what holds of the letters and of what the callers have seen. Where libevent can
always connect (`L`), no letter is lost. -/
theorem letters_of_network {L : Prop} {I : List LockEvent → Letters → Prop}
    (h : NetworkReady lockServerHost server clients) (h0 : I [] { server := [] })
    (hstep : ∀ {hist ev s s'}, lockService.Inv s → I hist s → lockService.Emits s ev s' →
      I (hist ++ ev) s')
    {as : List NetworkAction} {x : Network × List LockEvent}
    (hfits : (lockNetwork lockServerHost server clients).Meets NetworkFits { server, clients } as)
    (hL : ∀ a ∈ as, L → a.Connects)
    (hrun : (networkCalls lockServerHost server clients).run as = some x) :
    ∃ s, Follows L lockServerHost server.localHostName (addrOf server clients) x.1 s ∧
      lockService.Inv s ∧ I x.2 s := by
  refine System.inv_of_meets (I := fun x => ∃ s, Follows L lockServerHost server.localHostName
      (addrOf server clients) x.1 s ∧ lockService.Inv s ∧ I x.2 s) (fun x a x' hc hn hx => ?_)
    ((hfits.and_forall hL).withHistory Network.events []) hrun
    ⟨_, follows_init L h, Service.inv_init [], h0⟩
  obtain ⟨s, hf, hi, hI⟩ := hx
  obtain ⟨hn, hhist⟩ := System.next_withHistory hn
  obtain ⟨n', s', hn', hf', hi', hmove⟩ :=
    hf.goes (names_of_ready h) hi (enabled_of_next hn) hc.1 hc.2
  obtain rfl := Option.some_inj.1 (hn.symm.trans hn')
  refine ⟨s', hf', hi', ?_⟩
  rw [hhist]
  rcases hmove with hemits | ⟨hev, hmoves⟩
  · exact hstep hi hI hemits
  · -- the steps of an arrival are seen by nobody
    rw [hev, List.append_nil]
    refine (hmoves.keeps (I := I x.2) (fun hi hI he => ?_) hi hI).2
    have hI' := hstep hi hI he
    rwa [List.append_nil] at hI'

end

end Lock
