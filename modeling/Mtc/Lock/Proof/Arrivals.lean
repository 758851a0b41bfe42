import Mtc.Lock.Proof.Wiring
import Mtc.Net.Proof.Arrive

/-!
# Messages that arrive in the lock network

`NetRel` puts the parts of `Lock.Proof.Wiring` together with what the hosts have in their queues.
Reading a connection, sending a message, answering a request and queueing a reply keep it
(`NetRel.read`, `NetRel.send`, `NetRel.answer`, `NetRel.queue`), and so does the arrival of any
number of bytes (`NetRel.arrive`): the server answers, and a client queues, the messages that are
complete (`passKeeps_server`, `passKeeps_client`).
-/

namespace Lock

open Except (ok_bind bind_eq_ok)
open Net
open Net.EventMessage (Content)
open Net.EventMessageHandle
open Service (Letter Call)

/-! ## Messages that are sent -/

/-- The names of the server are C strings, and short. -/
structure Names (lockServerHost localHostName : Bytes) : Prop where
  short : lockServerHost.length < maxNameLength ∧ localHostName.length < maxNameLength
  lockServerHost : 0 ∉ lockServerHost
  localHostName : 0 ∉ localHostName

/-- The message `c` is written to a connection for the endpoint `a`, or to none. -/
def Sends (h h' : EventMessageHandle) (c : Content) (a : Bytes × Int32) (connects : Bool) : Prop :=
  ∃ lib lib', h.lib remoteLockGroupName = some lib ∧ Reconnected remoteLockGroupName h h' lib' ∧
    lib'.Online ∧ (connects = false ∧ lib' = lib ∨
      ∃ id info, lib.Appended lib' a.1 a.2 id info c.frame)

section
variable {lockServerHost localHostName host : Bytes} {h : EventMessageHandle}
  {lib : LibeventHandle} {a : Bytes × Int32}

theorem size_lt {c : Content}
    (hc : c.groupName.length + c.messType.length + c.message.length ≤ 100)
    (hs : c.sendHostName.length < maxNameLength) (hr : c.reciveHostName.length < maxNameLength) :
    c.size < 2 ^ 31 := by
  simp only [Content.size, Content.messageOffset, Content.reciveHostNameOffset,
    Content.sendHostNameOffset, Content.messTypeOffset, Content.groupNameOffset,
    EventMessage.sizeofCursor]
  unfold maxNameLength at hs hr
  omega

theorem size_requestContent_lt (hs : lockServerHost.length < maxNameLength)
    (hh : host.length < maxNameLength) (request : PageLockRequest) :
    (requestContent lockServerHost host request).size < 2 ^ 31 :=
  size_lt (Nat.le_of_ble_eq_true rfl) hh hs

theorem replyFits (hl : localHostName.length < maxNameLength) (hh : host.length < maxNameLength) :
    ReplyFits localHostName host :=
  fun _ => size_lt (Nat.le_of_ble_eq_true rfl) hl hh

/-- `request_page_lock` sends its request. -/
theorem requestPageLock_sends (hn : Names lockServerHost localHostName) (hh : 0 ∉ host)
    (hshort : host.length < maxNameLength) (hname : h.localHostName = host)
    (ht : (h.callbackInfor remoteLockGroupName remoteLockRequestMessType).isSome)
    (he : h.endpoint remoteLockGroupName lockServerHost = some a) (h0 : a.2 ≠ 0)
    (hl : h.lib remoteLockGroupName = some lib) (ho : lib.Online)
    (hroom : lib.maxBevId.toInt + 1 < 2 ^ 31) (request : PageLockRequest) (connects : Bool) :
    ∃ msg h', requestPageLock h lockServerHost request connects = .ok (some msg, h') ∧
      Sends h h' (requestContent lockServerHost host request) a connects := by
  subst hname
  obtain ⟨m, h', lib', hsend, hrec, ho', happ⟩ := sendMessage_appends
    (requestMsg_outgoing hn.lockServerHost hh request) rfl ht he h0 hl ho hroom
    (size_requestContent_lt hn.short.1 hshort request) connects
  refine ⟨m, h', ?_, lib, lib', hl, hrec, ho', happ⟩
  rw [requestPageLock, hsend, ok_bind]
  exact if_neg (by decide)

/-- `lock_request_callback` sends its reply. -/
theorem lockRequestCallback_sends (hn : Names lockServerHost localHostName) (hh : 0 ∉ host)
    (hshort : host.length < maxNameLength) (hname : h.localHostName = localHostName)
    (ht : (h.callbackInfor remoteLockGroupName remoteLockReplyMessType).isSome)
    (he : h.endpoint remoteLockGroupName host = some a) (h0 : a.2 ≠ 0)
    (hl : h.lib remoteLockGroupName = some lib) (ho : lib.Online)
    (hroom : lib.maxBevId.toInt + 1 < 2 ^ 31) (t : LockTable) (request : PageLockRequest)
    (connects : Bool) :
    ∃ event msg h', lockRequestCallback t h (decoded (requestContent lockServerHost host request))
        connects = .ok ((checkLockRequest t host request).1, event, msg, h') ∧
      Sends h h' (replyContent localHostName host (checkLockRequest t host request).2.2) a
        connects := by
  subst hname
  have hlt := size_requestContent_lt hn.short.1 hshort request
  have hvalid := requestContent_valid hn.lockServerHost hh request
  rcases hcheck : checkLockRequest t host request with ⟨t', code, reply⟩
  obtain ⟨m, h', lib', hsend, hrec, ho', happ⟩ := sendMessage_appends
    (replyMsg_outgoing hvalid hlt rfl hn.localHostName reply) rfl ht he h0 hl ho hroom
    (replyFits hn.short.2 hshort reply) connects
  obtain ⟨-, -, hasker, -, hp, -⟩ := content_eq_ok (content_decoded hvalid (by omega))
  obtain ⟨rest, hrest⟩ := target_of_bytes_eq_ok hp
  have hreq : PageLockRequest.ofBytes
      ((requestContent lockServerHost host request).message ++ rest) = .ok request :=
    PageLockRequest.ofBytes_toBytes request rest
  refine ⟨(⟨host, request⟩, code, reply), m, h', ?_, lib, lib', hl, hrec, ho', happ⟩
  rw [lockRequestCallback, hasker, ok_bind, hrest, hreq, ok_bind]
  dsimp only [requestContent] at hsend ⊢
  simp only [hcheck, hsend, ok_bind]
  exact if_neg (by decide)

/-- A round of `wait_for_lock_reply` changes the queue at most. -/
theorem waitForLockReply_requeued {h' : EventMessageHandle} {filter : PageLockReplyFilter}
    {w : Waited} (hw : waitForLockReply h filter = .ok (w, h')) (g : Bytes) : Requeued g h h' := by
  obtain ⟨⟨v, m, h''⟩, hread, hw⟩ := bind_eq_ok.1 hw
  have hrq := readMessageFilter_requeued hread g
  dsimp only at hw
  split_ifs at hw
  · cases hw
    exact hrq
  · obtain ⟨reply, -, hw⟩ := bind_eq_ok.1 hw
    cases hw
    exact hrq
  · cases hw
    exact hrq

/-- The records that were there stay, and are not read. -/
theorem Sends.keeps {h' : EventMessageHandle} {c : Content} {connects : Bool}
    (hs : Sends h h' c a connects) (hl : h.lib remoteLockGroupName = some lib) :
    ∃ lib', h'.lib remoteLockGroupName = some lib' ∧ lib'.Online ∧
      lib'.maxBevId.toInt ≤ lib.maxBevId.toInt + 1 ∧ ∀ id info, lib.bevMap.findKey id = some info →
        ∃ info', lib'.bevMap.findKey id = some info' ∧ info'.rx = info.rx := by
  obtain ⟨lib₀, lib', hl₀, hrec, ho, hcase⟩ := hs
  cases hl₀.symm.trans hl
  refine ⟨lib', hrec.lib, ho, ?_⟩
  rcases hcase with ⟨-, rfl⟩ | ⟨id, info, happ⟩
  · exact ⟨Int.le_add_one (Int.le_refl _), fun id info hf => ⟨info, hf, rfl⟩⟩
  · refine ⟨happ.max, fun id' info' hf => ?_⟩
    rw [happ.records]
    by_cases hid : id' = id
    · subst hid
      rcases happ.found with hf' | ⟨hf', -⟩
      · cases hf'.symm.trans hf
        exact ⟨_, if_pos rfl, rfl⟩
      · rw [hf] at hf'
        cases hf'
    · exact ⟨info', by rw [if_neg hid, hf], rfl⟩

end

/-! ## The relation -/

/-- The server has its callback, and the clients have the replies in their mailboxes. -/
structure Roles (localHostName : Bytes) (hosts : HostMap) (s : Letters) : Prop where
  server : ∀ h, hosts none = some h → h.localHostName = localHostName ∧
    ∃ cb f, h.callbackInfor remoteLockGroupName remoteLockRequestMessType = some cb ∧
      cb.cbFunction = some f
  client : ∀ name h, hosts (some name) = some h →
    ClientHas localHostName (Service.box s.boxes name) name h
  known : ∀ n name r, s.calls n = some (.waiting name r) → (hosts (some name)).isSome

section
variable {localHostName : Bytes} {hosts : HostMap} {s s' : Letters} {who : Option Bytes}
  {h h' : EventMessageHandle}

/-- A host changes its connections. -/
theorem Roles.reconnected (hr : Roles localHostName hosts s) (hh : hosts who = some h)
    {lib : LibeventHandle} (hc : Reconnected remoteLockGroupName h h' lib)
    (hb : s'.boxes = s.boxes)
    (hk : ∀ n name r, s'.calls n = some (.waiting name r) → (hosts (some name)).isSome) :
    Roles localHostName (Function.update hosts who (some h')) s' := by
  refine ⟨fun h'' hf => ?_, fun name h'' hf => ?_, fun n name r hn => ?_⟩
  · rcases host_update hf with ⟨rfl, rfl⟩ | ⟨-, hf⟩
    · obtain ⟨hname, cb, f, hcb, hfun⟩ := hr.server h hh
      exact ⟨hc.config.localHostName.trans hname, cb, f, (hc.callbackInfor _).trans hcb, hfun⟩
    · exact hr.server h'' hf
  · rw [hb]
    rcases host_update hf with ⟨rfl, rfl⟩ | ⟨-, hf⟩
    · obtain ⟨hname, hlocal, hfits, hq⟩ := hr.client name h hh
      exact ⟨hname, hc.config.localHostName.trans hlocal, hfits, (hc.callbackInfor _).trans hq⟩
    · exact hr.client name h'' hf
  · rw [isSome_update hh]
    exact hk n name r hn

/-- A client changes its queue. -/
theorem Roles.requeued (hr : Roles localHostName hosts s) {name : Bytes}
    (hh : hosts (some name) = some h)
    (hc : ClientHas localHostName (Service.box s'.boxes name) name h')
    (hb : ∀ name', name' ≠ name → Service.box s'.boxes name' = Service.box s.boxes name')
    (hk : ∀ n name r, s'.calls n = some (.waiting name r) → (hosts (some name)).isSome) :
    Roles localHostName (Function.update hosts (some name) (some h')) s' := by
  refine ⟨fun h'' hf => ?_, fun name' h'' hf => ?_, fun n name' r hn => ?_⟩
  · rcases host_update hf with ⟨hw, -⟩ | ⟨-, hf⟩
    · cases hw
    · exact hr.server h'' hf
  · rcases host_update hf with ⟨hw, rfl⟩ | ⟨hw, hf⟩
    · cases hw
      exact hc
    · rw [hb name' fun he => hw (congrArg some he)]
      exact hr.client name' h'' hf
  · rw [isSome_update hh]
    exact hk n name' r hn

end

/-- The network with the letters on its wires, as it is seen from the ends in `P`. -/
structure NetRel (L : Prop) (P : End → Prop) (lockServerHost localHostName : Bytes)
    (addr : Option Bytes → Option (Bytes × Int32)) (hosts : HostMap)
    (tcp : End → Option (End × Nat)) (s : Letters) (pend : End → List Mail) : Prop where
  roles : Roles localHostName hosts s
  placed : Placed lockServerHost addr hosts
  cabled : Cabled Opposite addr (recordOf remoteLockGroupName hosts) tcp
  mailed : Mailed L addr (recordOf remoteLockGroupName hosts) s pend
  carries : Carries (Mail.content lockServerHost localHostName) P
    (recordOf remoteLockGroupName hosts) tcp pend

section
variable {L : Prop} {P : End → Prop} {lockServerHost localHostName : Bytes}
  {addr : Option Bytes → Option (Bytes × Int32)} {hosts : HostMap}
  {tcp : End → Option (End × Nat)} {s s' : Letters} {pend : End → List Mail}
  {who : Option Bytes} {h h' : EventMessageHandle} {lib : LibeventHandle} {e : End} {id : Int32}
  {k : Nat}

/-- The receiving side of the peer of `e` is read. -/
theorem NetRel.read
    (hr : NetRel L (· ≠ e) lockServerHost localHostName addr hosts tcp s pend)
    (ht : tcp e = some ((who, id), k)) (hh : hosts who = some h)
    (hl : h.lib remoteLockGroupName = some lib) {info : BevInfor}
    (hf : lib.bevMap.findKey id = some info) (rx : Rx) :
    NetRel L (· ≠ e) lockServerHost localHostName addr (Function.update hosts who
      (some (h.putRecord remoteLockGroupName id (info.withRx rx)))) tcp s pend := by
  have hrec := reconnected_putRecord hl id (info.withRx rx)
  have hrecs : recordOf remoteLockGroupName (Function.update hosts who
      (some (h.putRecord remoteLockGroupName id (info.withRx rx)))) =
      Function.update (recordOf remoteLockGroupName hosts) (who, id) (some (info.withRx rx)) := by
    refine recordOf_update hh fun id' => ?_
    rw [record_of_lib hrec.lib, LibeventHandle.findKey_putRecord hf, record_of_lib hl]
  have hrecord : recordOf remoteLockGroupName hosts (who, id) = some info := by
    rw [recordOf_eq hh, record_of_lib hl, hf]
  have hold : ∀ info', recordOf remoteLockGroupName hosts (who, id) = some info' →
      (info.withRx rx).head = info'.head := by
    intro info' hi
    cases hrecord.symm.trans hi
    rfl
  obtain ⟨lib₀, hl₀, ho⟩ := hr.placed.online who h hh
  cases hl₀.symm.trans hl
  refine ⟨hr.roles.reconnected hh hrec rfl hr.roles.known,
    hr.placed.update hh hrec.config ⟨_, hrec.lib, ho.putRecord hf rfl rfl⟩, ?_, ?_, ?_⟩
  · rw [hrecs]
    refine hr.cabled.update hold fun hnone => ?_
    rw [hrecord] at hnone
    cases hnone
  · rw [hrecs]
    exact hr.mailed.update hold
  · rw [hrecs]
    exact hr.carries.read hr.cabled.paired ht hrecord rx

/-- A host sends the letter `x`, or loses it. -/
theorem NetRel.send (hr : NetRel L P lockServerHost localHostName addr hosts tcp s pend)
    (hh : hosts who = some h) {x : Mail} {a : Bytes × Int32} {connects : Bool}
    (hsend : Sends h h' (x.content lockServerHost localHostName) a connects)
    (hL : L → connects = true) {dest : Option Bytes} (ha : addr dest = some a)
    (hside : dest = none ↔ who ≠ none)
    (hfrom : ∀ records id, (∃ info : BevInfor, records (who, id) = some info ∧
      (info.ip, info.port) = a) → x.SentFrom addr records (who, id))
    (hnew : ∀ e, ∀ m ∈ pend e, m.call ≠ x.call)
    (hs : ∀ m : Mail, m.InFlight s' ↔ m.InFlight s ∨ m = x) (hb : s'.boxes = s.boxes)
    (hk : ∀ n name r, s'.calls n = some (.waiting name r) → (hosts (some name)).isSome) :
    ∃ pend', NetRel L P lockServerHost localHostName addr (Function.update hosts who (some h')) tcp
      s' pend' ∧ ∀ e, e.1 ≠ who → pend' e = pend e := by
  obtain ⟨lib, lib', hl, hrec, ho, hcase⟩ := hsend
  have hroles := hr.roles.reconnected hh hrec hb hk
  have hplaced := hr.placed.update hh hrec.config ⟨lib', hrec.lib, ho⟩
  rcases hcase with ⟨hc, rfl⟩ | ⟨id, info, happ⟩
  · have hrecs : recordOf remoteLockGroupName (Function.update hosts who (some h')) =
        recordOf remoteLockGroupName hosts :=
      recordOf_update_of_lib hh (hrec.lib.trans hl.symm)
    have hlost : ¬ L := by
      intro h
      rw [hL h] at hc
      cases hc
    refine ⟨pend, ⟨hroles, hplaced, ?_, ?_, ?_⟩, fun _ _ => rfl⟩
    · rw [hrecs]
      exact hr.cabled
    · rw [hrecs]
      exact hr.mailed.lose hlost fun m hm => (hs m).2 (Or.inl hm)
    · rw [hrecs]
      exact hr.carries
  · let info' := info.written (frameOf (Mail.content lockServerHost localHostName) x)
    have hrecs : recordOf remoteLockGroupName (Function.update hosts who (some h')) =
        Function.update (recordOf remoteLockGroupName hosts) (who, id) (some info') := by
      refine recordOf_update hh fun id' => ?_
      rw [record_of_lib hrec.lib, happ.records, record_of_lib hl]
      rfl
    have hrecord : recordOf remoteLockGroupName hosts (who, id) = lib.bevMap.findKey id := by
      rw [recordOf_eq hh, record_of_lib hl]
    have hhead : (info'.ip, info'.port) = a := Prod.ext happ.head.1 happ.head.2
    -- the record is an old one, or it is new and nothing has been written to it
    have hold : ∀ i, recordOf remoteLockGroupName hosts (who, id) = some i →
        info'.head = i.head := by
      intro i hi
      rw [hrecord] at hi
      rcases happ.found with hf | ⟨hf, -⟩
      · cases hf.symm.trans hi
        rfl
      · rw [hf] at hi
        cases hi
    have hwrite : info.bev.output = outOf (recordOf remoteLockGroupName hosts) (who, id) ∧
        info.rx = rxOf (recordOf remoteLockGroupName hosts) (who, id) := by
      unfold outOf rxOf
      rw [hrecord]
      rcases happ.found with hf | ⟨hf, rfl⟩
      · rw [hf]
        exact ⟨rfl, rfl⟩
      · rw [hf]
        exact ⟨rfl, rfl⟩
    refine ⟨Function.update pend (who, id) (pend (who, id) ++ [x]),
      ⟨hroles, hplaced, ?_, ?_, ?_⟩, fun e he => ?_⟩
    · rw [hrecs]
      exact hr.cabled.update hold fun _ _ => ⟨dest, by rw [ha, hhead], hside⟩
    · rw [hrecs]
      exact (hr.mailed.update hold).push hnew
        (hfrom _ id ⟨info', Function.update_self .., hhead⟩) hs
    · rw [hrecs]
      exact hr.carries.write hwrite.1 hwrite.2 x
    · exact Function.update_of_ne (fun he' => he (congrArg Prod.fst he')) ..

/-- The next id of a host is not in use. -/
theorem NetRel.free_id (hr : NetRel L P lockServerHost localHostName addr hosts tcp s pend)
    (hh : hosts who = some h) (hl : h.lib remoteLockGroupName = some lib) :
    recordOf remoteLockGroupName hosts (who, lib.maxBevId) = none ∧
      tcp (who, lib.maxBevId) = none := by
  obtain ⟨lib₀, hl₀, ho⟩ := hr.placed.online who h hh
  cases hl₀.symm.trans hl
  have hnone : recordOf remoteLockGroupName hosts (who, lib.maxBevId) = none := by
    rw [recordOf_eq hh, record_of_lib hl, ho.findKey_maxBevId]
  refine ⟨hnone, Option.eq_none_iff_forall_ne_some.2 fun x hx => ?_⟩
  have hs := (hr.cabled.linked _ x.1 x.2 hx).1
  rw [hnone] at hs
  cases hs

/-- The host `who` takes up the connection that `e` has made, as a record for its peer. -/
theorem NetRel.accept (hr : NetRel L P lockServerHost localHostName addr hosts tcp s pend)
    (he : tcp e = none) {info : BevInfor} (hrec : recordOf remoteLockGroupName hosts e = some info)
    (hlisten : info.isListen = false) (hh : hosts who = some h)
    (hat : listensAt h = some (info.ip, info.port)) (hl : h.lib remoteLockGroupName = some lib)
    (hroom : lib.maxBevId.toInt + 1 < 2 ^ 31) {ip : Bytes} {port : Int32}
    (hc : Reconnected remoteLockGroupName h h'
      (lib.listened (.accepted ip port)))
    (hright : ∀ name, who = none → addr (some name) = some (ip, port) → e.1 = some name) :
    NetRel L P lockServerHost localHostName addr (Function.update hosts who (some h'))
      (Pipes.link tcp e (who, lib.maxBevId)) s pend := by
  obtain ⟨lib₀, hl₀, ho⟩ := hr.placed.online who h hh
  cases hl₀.symm.trans hl
  obtain ⟨hnone, he'⟩ := hr.free_id hh hl
  have hrecs : recordOf remoteLockGroupName (Function.update hosts who (some h')) =
      Function.update (recordOf remoteLockGroupName hosts) (who, lib.maxBevId)
        (some (.accepted ip port)) := by
    refine recordOf_update hh fun id' => ?_
    rw [record_of_lib hc.lib, record_of_lib hl]
    exact lib.findKey_added _ id'
  have hold : ∀ i, recordOf remoteLockGroupName hosts (who, lib.maxBevId) = some i →
      (BevInfor.accepted ip port).head = i.head := by
    intro i hi
    rw [hnone] at hi
    cases hi
  have hne : e ≠ (who, lib.maxBevId) := by
    rintro rfl
    rw [hnone] at hrec
    cases hrec
  -- the host is the one that `e` has called
  have hwho : addr who = some (info.ip, info.port) := by rw [← hr.placed.listens who h hh, hat]
  obtain ⟨who', hwho', hside⟩ := hr.cabled.dialed e info hrec hlisten
  obtain rfl := hr.placed.apart hwho' hwho
  have hrec' : Function.update (recordOf remoteLockGroupName hosts) (who', lib.maxBevId)
      (some (.accepted ip port)) e = some info := by
    rw [Function.update_of_ne hne, hrec]
  refine ⟨hr.roles.reconnected hh hc rfl hr.roles.known,
    hr.placed.update hh hc.config ⟨_, hc.lib, ho.listened hroom rfl rfl⟩, ?_, ?_, ?_⟩
  · rw [hrecs]
    refine (hr.cabled.update hold fun _ hf => by cases hf).link hne he he' (by rw [hrec']; rfl)
      (by rw [Function.update_self]; rfl) hside hside.symm (fun i who hi ha _ => ?_)
      (fun i who hi ha haim => ?_)
    · cases hrec'.symm.trans hi
      exact hr.placed.apart hwho ha
    · rw [Function.update_self] at hi
      cases hi
      cases who with
      | none => exact hside.symm.2 (haim.1 rfl)
      | some name =>
        refine hright name ?_ ha
        by_contra hne
        cases haim.2 hne
  · rw [hrecs]
    exact hr.mailed.update hold
  · rw [hrecs]
    exact (hr.carries.add hnone rfl rfl).link hne he he'

/-! ## Messages that arrive -/

/-- The first request on a wire is answered. -/
theorem NetRel.answer (hn : Names lockServerHost localHostName) (hi : lockService.Inv s)
    (hr : NetRel L (· ≠ e) lockServerHost localHostName addr hosts tcp s pend)
    (ht : tcp e = some ((none, id), k)) (hh : hosts none = some h)
    (hl : h.lib remoteLockGroupName = some lib) (hroom : lib.maxBevId.toInt + 1 < 2 ^ 31)
    {x : Mail} {ms : List Mail} (he : pend e = x :: ms) {connects : List Bool}
    (hL : L → connects.headD true = true) :
    ∃ s' h' pend' c a, tryRunCallbackOn runLockCallback (s.server, connects) h
        (decoded (x.content lockServerHost localHostName)) =
          .ok (true, (s'.server, connects.tail), h') ∧
      Sends h h' c a (connects.headD true) ∧ (∃ m as bs, s.requests = as ++ m :: bs ∧
        s' = lockService.handle s m (as ++ bs)) ∧
      NetRel L (· ≠ e) lockServerHost localHostName addr (Function.update hosts none (some h')) tcp
        s' pend' ∧ pend' e = ms := by
  have hside : e.1 ≠ none := (hr.cabled.linked e (none, id) k ht).2.1 rfl
  have hx : x ∈ pend e := by
    rw [he]
    exact List.mem_cons_self
  have hsent := hr.mailed.sent e x hx
  have hflight := hr.mailed.flight e x hx
  cases x with
  | reply m => exact absurd hsent.1 hside
  | request m =>
    obtain ⟨as, bs, hm⟩ := List.append_of_mem hflight
    -- the client that asks
    obtain ⟨hc, hhc⟩ := Option.isSome_iff_exists.1
      (hr.roles.known m.call m.addr m.body (hi.asked m hflight))
    have hclient := hr.roles.client m.addr hc hhc
    have hsome : (hosts (some m.addr)).isSome := by
      rw [hhc]
      rfl
    obtain ⟨a, ha⟩ := Option.isSome_iff_exists.1 ((hr.placed.known (some m.addr)).symm.trans hsome)
    obtain ⟨htype, hend⟩ := hr.placed.server h hh
    obtain ⟨hname, cb, f, hcb, hfun⟩ := hr.roles.server h hh
    obtain ⟨lib₀, hl₀, ho⟩ := hr.placed.online none h hh
    cases hl₀.symm.trans hl
    have hshort := hr.placed.short m.addr hsome
    -- what the server does
    obtain ⟨event, msg, h', hcall, hsends⟩ := lockRequestCallback_sends hn hclient.name hshort hname
      htype ((hend m.addr hsome).trans ha) (hr.placed.port ha) hl ho hroom s.server m.body
      (connects.headD true)
    have hdisp : h.dispatch (decoded (requestContent lockServerHost m.addr m.body)) =
        .ok (.callback f) := by
      have hlt := size_requestContent_lt hn.short.1 hshort m.body
      exact dispatch_decoded_callback (requestContent_valid hn.lockServerHost hclient.name m.body)
        (by omega) hcb hfun
    -- the request leaves the wire, and the reply gets on one
    obtain ⟨hpop, hne⟩ := hr.mailed.popRequest hi he hm
    have hr₁ : NetRel L (· ≠ e) lockServerHost localHostName addr hosts tcp
        { s with requests := as ++ bs } (Function.update pend e ms) := by
      refine ⟨⟨hr.roles.server, hr.roles.client, hr.roles.known⟩, hr.placed, hr.cabled, hpop, ?_⟩
      exact hr.carries.narrow fun e' he' => ⟨he', Function.update_of_ne he' ..⟩
    obtain ⟨pend', hr', hpend⟩ := hr₁.send hh
      (x := .reply ⟨m.call, m.addr, (checkLockRequest s.server m.addr m.body).2.2⟩) hsends hL ha
      ⟨nofun, fun h => absurd rfl h⟩ (fun records id hrec => by
        obtain ⟨info, hrec, hia⟩ := hrec
        exact ⟨rfl, info, hrec, by rw [ha, hia]⟩) hne (Mail.inFlight_handle s m (as ++ bs)) rfl
      hr.roles.known
    refine ⟨_, h', pend', _, a, ?_, hsends, ⟨m, as, bs, hm, rfl⟩, hr', ?_⟩
    · simp only [tryRunCallbackOn, Mail.content, hdisp, ok_bind, runLockCallback, hcall]
      rfl
    · rw [hpend e hside, Function.update_self]

/-- The first reply on a wire is queued at its client. -/
theorem NetRel.queue (hn : Names lockServerHost localHostName) (hi : lockService.Inv s)
    (hr : NetRel L (· ≠ e) lockServerHost localHostName addr hosts tcp s pend) {name : Bytes}
    (ht : tcp e = some ((some name, id), k)) (hh : hosts (some name) = some h) {x : Mail}
    {ms : List Mail} (he : pend e = x :: ms) :
    ∃ s' h' pend', tryRunCallbackOn runNoCallback () h
        (decoded (x.content lockServerHost localHostName)) = .ok (true, (), h') ∧
      h'.lib remoteLockGroupName = h.lib remoteLockGroupName ∧
      (∃ m as bs, s.replies = as ++ m :: bs ∧ s' = s.deliver m (as ++ bs)) ∧
      NetRel L (· ≠ e) lockServerHost localHostName addr
        (Function.update hosts (some name) (some h')) tcp s' pend' ∧ pend' e = ms := by
  have hside : e.1 = none := by
    have hside := (hr.cabled.linked e (some name, id) k ht).2
    by_contra hne
    cases hside.2 hne
  have hx : x ∈ pend e := by
    rw [he]
    exact List.mem_cons_self
  have hsent := hr.mailed.sent e x hx
  have hflight := hr.mailed.flight e x hx
  cases x with
  | request m =>
    rw [Mail.SentFrom, hside] at hsent
    cases hsent
  | reply m =>
    obtain ⟨-, info, hrec, ha⟩ := hsent
    obtain rfl : name = m.addr :=
      Option.some_inj.1 (hr.cabled.right e (some name, id) k info (some m.addr) ht hrec ha
        ⟨nofun, fun hne => absurd hside hne⟩)
    obtain ⟨as, bs, hm⟩ := List.append_of_mem hflight
    have hclient := hr.roles.client m.addr h hh
    have hfit : ReplyFits localHostName m.addr := by
      refine replyFits hn.short.2 (hr.placed.short m.addr ?_)
      rw [hh]
      rfl
    have hlt := hfit m.body
    obtain ⟨h', hdisp, hlocal, hq⟩ := dispatch_decoded_queued
      (replyContent_valid hn.localHostName hclient.name m.body) (by omega) hclient.queue rfl
    have hrq := dispatch_requeued hdisp remoteLockGroupName
    have hrecs : recordOf remoteLockGroupName (Function.update hosts (some m.addr) (some h')) =
        recordOf remoteLockGroupName hosts :=
      recordOf_update_of_lib hh hrq.lib
    obtain ⟨lib, hl, ho⟩ := hr.placed.online (some m.addr) h hh
    refine ⟨s.deliver m (as ++ bs), h', Function.update pend e ms, ?_, hrq.lib,
      ⟨m, as, bs, hm, rfl⟩, ⟨hr.roles.requeued hh ?_ (fun name hne => ?_) hr.roles.known,
        hr.placed.update hh hrq.config ⟨lib, hrq.lib.trans hl, ho⟩, ?_, ?_, ?_⟩,
      Function.update_self ..⟩
    · simp only [tryRunCallbackOn, Mail.content, hdisp, ok_bind]
      rfl
    · refine ⟨hclient.name, hlocal.trans hclient.localHost, fun _ => hfit, hq.trans ?_⟩
      rw [Service.State.deliver, Service.box_snoc, if_pos rfl]
      simp only [replyMessages, List.map_append]
      rfl
    · rw [Service.State.deliver, Service.box_snoc, if_neg (Ne.symm hne)]
    · rw [hrecs]
      exact hr.cabled
    · rw [hrecs]
      exact hr.mailed.popReply hi he hm
    · rw [hrecs]
      exact hr.carries.narrow fun e' he' => ⟨he', Function.update_of_ne he' ..⟩

/-- The messages on the wires are short enough to be received. -/
theorem NetRel.size_lt (hn : Names lockServerHost localHostName) (hi : lockService.Inv s)
    (hr : NetRel L P lockServerHost localHostName addr hosts tcp s pend) {m : Mail}
    (hm : m ∈ pend e) : (m.content lockServerHost localHostName).size < 2 ^ 31 := by
  have hflight := hr.mailed.flight e m hm
  cases m with
  | request m =>
    exact size_requestContent_lt hn.short.1
      (hr.placed.short m.addr (hr.roles.known _ _ _ (hi.asked m hflight))) m.body
  | reply m =>
    obtain ⟨request, hw, -⟩ := hi.owed m (List.mem_append_left _ hflight)
    exact replyFits hn.short.2 (hr.placed.short m.addr (hr.roles.known _ _ _ hw)) m.body

/-! ## Arrivals -/

section
variable {σ : Type} {callback : Nat → σ → EventMessageHandle → EventMessage →
  Except Fault (σ × EventMessageHandle)} {Q : σ → Letters → EventMessageHandle → Prop}

variable (L lockServerHost localHostName addr hosts tcp s who e Q) in
/-- The host `who` reads the connection to `e`: from `s` on, messages have been passed on, and `cs`
are those that are left. `Q` is what the callbacks need. -/
def Reading (cs : List Content) (x : σ) (h : EventMessageHandle) : Prop :=
  ∃ s' pend', lockService.Moves s s' ∧
    NetRel L (· ≠ e) lockServerHost localHostName addr (Function.update hosts who (some h)) tcp s'
      pend' ∧ (pend' e).map (Mail.content lockServerHost localHostName) = cs ∧ Q x s' h

/-- Reading a record keeps `Q`. -/
def QKeeps (id : Int32) (Q : σ → Letters → EventMessageHandle → Prop) : Prop :=
  ∀ x s h lib info, Q x s h → h.lib remoteLockGroupName = some lib → lib.Ready id info →
    ∀ rx : Rx, rx.input.length ≤ info.bev.input.length →
      Q x s (h.putRecord remoteLockGroupName id (info.withRx rx))

theorem readKeeps_reading (ht : tcp e = some ((who, id), k)) (hQ : QKeeps id Q) :
    ReadKeeps remoteLockGroupName id
      (Reading L lockServerHost localHostName addr hosts tcp s who e Q) := by
  intro cs x h lib info hJ hl hready rx hle
  obtain ⟨s', pend', hmoves, hr, hcs, hq⟩ := hJ
  refine ⟨s', pend', hmoves, ?_, hcs, hQ x s' h lib info hq hl hready rx hle⟩
  have hr' := hr.read ht (Function.update_self ..) hl hready.found rx
  rwa [Function.update_idem] at hr'

/-- **Bytes arrive.** What one end has written and the other has not received is cut anywhere; the
messages that are complete are passed on. -/
theorem NetRel.arrive
    (hr : NetRel L (fun _ => True) lockServerHost localHostName addr hosts tcp s pend)
    (ht : tcp e = some ((who, id), k)) (hh : hosts who = some h)
    (hl : h.lib remoteLockGroupName = some lib) {info info' : BevInfor}
    (hrec : recordOf remoteLockGroupName hosts e = some info)
    (hf : lib.bevMap.findKey id = some info') {n : Nat}
    (hlen : (info'.bev.input ++ info.bev.piece k n).length < 2 ^ 31)
    (hsize : ∀ m ∈ pend e, (m.content lockServerHost localHostName).size < 2 ^ 31)
    (hQ : QKeeps id Q) (hpass : PassKeeps callback remoteLockGroupName id
      (Reading L lockServerHost localHostName addr hosts tcp s who e Q)) {x : σ}
    (hx : Q x s (h.putRecord remoteLockGroupName id (info'.received (info.bev.piece k n)))) :
    ∃ x' s' h' pend', h.arrive callback remoteLockGroupName id x (info.bev.piece k n) =
        .ok (x', h') ∧ lockService.Moves s s' ∧ Q x' s' h' ∧
      NetRel L (fun _ => True) lockServerHost localHostName addr
        (Function.update hosts who (some h')) (Function.update tcp e
          (some ((who, id), k + (info.bev.piece k n).length))) s' pend' := by
  obtain ⟨lib₀, hl₀, ho⟩ := hr.placed.online who h hh
  cases hl₀.symm.trans hl
  have hout : outOf (recordOf remoteLockGroupName hosts) e = info.bev.output := by
    rw [outOf, hrec]
    rfl
  have hrx : rxOf (recordOf remoteLockGroupName hosts) (who, id) = info'.rx := by
    rw [rxOf, recordOf_eq hh, record_of_lib hl, hf]
    rfl
  -- the other end waits in what is on its way
  obtain ⟨hk, hw⟩ := (Pipes.flows_linked ht).1 (hr.carries.flows e trivial)
  rw [hout] at hk hw
  rw [hrx] at hw
  have hsplit := info.bev.piece_append_drop k n
  have hready := ho.ready hf
  have hread : NetRel L (· ≠ e) lockServerHost localHostName addr (Function.update hosts who
      (some (h.putRecord remoteLockGroupName id (info'.received (info.bev.piece k n)))))
      tcp s pend := by
    refine NetRel.read ⟨hr.roles, hr.placed, hr.cabled, hr.mailed, ?_⟩ ht hh hl hf _
    exact hr.carries.narrow fun _ _ => ⟨trivial, rfl⟩
  rw [← hsplit] at hw
  obtain ⟨done, rest, x', h', rx', hcs, hrun, ⟨s', pend', hmoves, hr', hrest, hq⟩, hconn, hwait⟩ :=
    arrive_rule (readKeeps_reading ht hQ) hpass hl hready
      ⟨s, pend, .refl, hread, rfl, hx⟩ hw hlen (fun c hc => by
        obtain ⟨m, hm, rfl⟩ := List.mem_map.1 hc
        exact hsize m hm)
  -- the sender is another host, and has not changed
  have hside : e.1 ≠ who := (hr.cabled.linked e (who, id) k ht).2.ne
  have hrec' : recordOf remoteLockGroupName (Function.update hosts who (some h')) e =
      some info := by
    rw [← hrec]
    unfold recordOf
    rw [Function.update_of_ne hside]
  have hout' : outOf (recordOf remoteLockGroupName (Function.update hosts who (some h'))) e =
      info.bev.output := by
    rw [outOf, hrec']
    rfl
  obtain ⟨group, i, hg, hi, hirx⟩ := hconn
  have hrx' : rxOf (recordOf remoteLockGroupName (Function.update hosts who (some h')))
      (who, id) = rx' := by
    rw [rxOf, recordOf_eq (Function.update_self ..),
      record_of_lib (lib_eq_some.2 ⟨group, hg, rfl⟩), hi.found, ← hirx]
    rfl
  refine ⟨x', s', h', pend', hrun, hmoves, hq, hr'.roles, hr'.placed, hr'.cabled.arrived ht _,
    hr'.mailed, hr'.carries.closed ht ?_ ?_⟩
  · rw [hout', Bufferevent.piece, List.length_take, List.length_drop]
    omega
  · rw [hout', hrx', WaitsFor, hrest]
    exact hwait

/-! ### At the server -/

variable (L id) in
/-- What the server needs while it reads: an id for the reply to every message. -/
def ServerNeeds (x : LockTable × List Bool) (s : Letters) (h : EventMessageHandle) : Prop :=
  s.server = x.1 ∧ (L → ∀ b ∈ x.2, b = true) ∧ ∃ lib info, h.lib remoteLockGroupName = some lib ∧
    lib.bevMap.findKey id = some info ∧ lib.maxBevId.toInt + info.bev.input.length < 2 ^ 31

theorem qKeeps_serverNeeds : QKeeps id (ServerNeeds L id) := by
  intro x s h lib info hq hl hready rx hle
  obtain ⟨hserver, hL, lib₀, info₀, hl₀, hf₀, hroom⟩ := hq
  cases hl₀.symm.trans hl
  cases hf₀.symm.trans hready.found
  refine ⟨hserver, hL, _, info.withRx rx,
    (reconnected_putRecord hl id (info.withRx rx)).lib, ?_, ?_⟩
  · rw [LibeventHandle.findKey_putRecord hready.found, if_pos rfl]
  · change lib.maxBevId.toInt + (rx.input.length : Int) < 2 ^ 31
    omega

theorem passKeeps_server (hn : Names lockServerHost localHostName) (hi : lockService.Inv s)
    (ht : tcp e = some ((none, id), k)) :
    PassKeeps runLockCallback remoteLockGroupName id
      (Reading L lockServerHost localHostName addr hosts tcp s none e (ServerNeeds L id)) := by
  intro c cs x h lib info hJ hl hready rx hlt
  obtain ⟨t, connects⟩ := x
  obtain ⟨s', pend', hmoves, hr, hcs, rfl, hL, lib₀, info₀, hl₀, hf₀, hroom⟩ := hJ
  cases hl₀.symm.trans hl
  cases hf₀.symm.trans hready.found
  obtain ⟨m, ms, hpend, rfl, rfl⟩ := List.map_eq_cons_iff.1 hcs
  have hread := hr.read ht (Function.update_self ..) hl hready.found rx
  rw [Function.update_idem] at hread
  have hl' := (reconnected_putRecord hl id (info.withRx rx)).lib
  have hmax : (lib.putRecord id (info.withRx rx)).maxBevId = lib.maxBevId := rfl
  have hconnect : L → connects.headD true = true := by
    intro h
    cases connects with
    | nil => rfl
    | cons b bs => exact hL h b List.mem_cons_self
  obtain ⟨s'', h', pend'', c, a, hrun, hsends, ⟨m', as, bs, hm', rfl⟩, hr', hms⟩ :=
    hread.answer hn (hmoves.inv hi) ht (Function.update_self ..) hl' (by rw [hmax]; omega) hpend
      hconnect
  rw [Function.update_idem] at hr'
  obtain ⟨lib', hlib', ho', hmax', hkept⟩ := hsends.keeps hl'
  obtain ⟨info', hf', hrx⟩ := hkept id (info.withRx rx) (by
    rw [LibeventHandle.findKey_putRecord hready.found, if_pos rfl])
  refine ⟨_, h', hrun, ⟨_, pend'', hmoves.handle hm', hr', by rw [hms], rfl, fun h b hb => ?_,
    lib', info', hlib', hf', ?_⟩, ?_⟩
  · exact hL h b (List.mem_of_mem_tail hb)
  · have hinput : info'.bev.input = rx.input := congrArg Rx.input hrx
    rw [hinput]
    rw [hmax] at hmax'
    omega
  · obtain ⟨group, hg, rfl⟩ := lib_eq_some.1 hlib'
    exact ⟨group, info', hg, ho'.ready hf', hrx⟩

/-! ### At a client -/

/-- A client does not change the table of the server. -/
def ClientNeeds (t : LockTable) (_ : Unit) (s : Letters) (_ : EventMessageHandle) : Prop :=
  s.server = t

theorem passKeeps_client (hn : Names lockServerHost localHostName) (hi : lockService.Inv s)
    {name : Bytes} (ht : tcp e = some ((some name, id), k)) (t : LockTable) :
    PassKeeps runNoCallback remoteLockGroupName id
      (Reading L lockServerHost localHostName addr hosts tcp s (some name) e (ClientNeeds t)) := by
  intro c cs x h lib info hJ hl hready rx hlt
  obtain ⟨s', pend', hmoves, hr, hcs, hserver⟩ := hJ
  obtain ⟨m, ms, hpend, rfl, rfl⟩ := List.map_eq_cons_iff.1 hcs
  have hread := hr.read ht (Function.update_self ..) hl hready.found rx
  rw [Function.update_idem] at hread
  have hl' := (reconnected_putRecord hl id (info.withRx rx)).lib
  obtain ⟨s'', h', pend'', hrun, hlib, ⟨m', as, bs, hm', rfl⟩, hr', hms⟩ :=
    hread.queue hn (hmoves.inv hi) ht (Function.update_self ..) hpend
  rw [Function.update_idem] at hr'
  refine ⟨(), h', hrun, ⟨_, pend'', hmoves.deliver hm', hr', by rw [hms], hserver⟩, ?_⟩
  obtain ⟨group, hg, hgl⟩ := lib_eq_some.1 (hlib.trans hl')
  refine ⟨group, info.withRx rx, hg, ?_, rfl⟩
  rw [hgl]
  refine ⟨hready.singal, ?_, hready.readSingal⟩
  rw [LibeventHandle.findKey_putRecord hready.found, if_pos rfl]

end

end

end Lock
