import Mtc.Lock.Proof.Client

/-!
# Every call gets its own answer

The cluster refines calls answered through mailboxes (`lockService`): the requests and replies in
flight and in the queues are the messages of the letters (`Refines`), and every step of the cluster
is a step of the letters or changes nothing (`Refines.next`). `own_answers` follows with the
invariant of the letters.
-/

namespace Lock

open Except (ok_bind bind_eq_ok)
open Net
open Service (Letter Call)

/-! ## The service -/

theorem page_checkLockRequest (t : LockTable) (asker : Bytes) (request : PageLockRequest) :
    (checkLockRequest t asker request).2.2.page = request.page := by
  unfold checkLockRequest
  dsimp only
  split
  · rfl
  · split_ifs <;> rfl

/-- The lock manager as a server whose replies repeat the page of the request. -/
def lockService : Service LockTable Bytes PageLockRequest PageLockReply (UInt32 × UInt32) where
  answer t asker request :=
    ((checkLockRequest t asker request).1, (checkLockRequest t asker request).2.2)
  key := PageLockRequest.page
  tag := PageLockReply.page
  tag_answer := page_checkLockRequest

/-- The calls with the letters between the clients and the server. -/
abbrev Letters := Service.State LockTable Bytes PageLockRequest PageLockReply

/-! ## The messages of the letters -/

/-- A packet in flight carries a request. -/
structure IsRequest (lockServerHost : Bytes) (p : Letter Bytes Bytes)
    (m : Letter Bytes PageLockRequest) : Prop where
  call : p.call = m.call
  frame : Framed p.body (requestContent lockServerHost m.addr m.body)

/-- A packet in flight carries a reply to the host it goes to. -/
structure IsReply (localHostName : Bytes) (p : Letter Bytes Bytes)
    (m : Letter Bytes PageLockReply) : Prop where
  call : p.call = m.call
  addr : p.addr = m.addr
  frame : Framed p.body (replyContent localHostName m.addr m.body)

def replyMessage (localHostName : Bytes) (m : Letter Bytes PageLockReply) :
    Letter Bytes EventMessage :=
  ⟨m.call, m.addr, decoded (replyContent localHostName m.addr m.body)⟩

def eventLetter (e : Nat × Event) : Letter Bytes (PageLockRequest × PageLockReply) :=
  ⟨e.1, e.2.1.asker, e.2.1.request, e.2.2.2⟩

/-- The cluster has the messages of the letters. -/
structure Wire (lockServerHost localHostName : Bytes) (c : Cluster) (s : Letters) : Prop where
  table : s.server = c.table
  requests : List.Forall₂ (IsRequest lockServerHost) c.requests s.requests
  replies : List.Forall₂ (IsReply localHostName) c.replies s.replies
  queued : c.queued = s.boxes.map (replyMessage localHostName)
  calls : s.calls = c.calls.findKey
  handled : s.handled = c.handled.map eventLetter
  taken : s.taken = c.taken

/-- The reply queue of a client holds the replies `rs`, and no callback takes them. -/
structure ClientHas (localHostName : Bytes) (rs : List PageLockReply) (host : Bytes)
    (h : EventMessageHandle) : Prop where
  name : 0 ∉ host
  localHost : h.localHostName = host
  fits : rs ≠ [] → ReplyFits localHostName host
  queue : replyInfor h = some ⟨none, replyMessages localHostName host rs⟩

/-- The server has its callback, and the clients have the replies in their mailboxes. -/
structure Hosts (localHostName : Bytes) (c : Cluster) (boxes : List (Letter Bytes PageLockReply)) :
    Prop where
  serverName : c.server.localHostName = localHostName
  registered : ∃ cb f, c.server.callbackInfor remoteLockGroupName remoteLockRequestMessType =
    some cb ∧ cb.cbFunction = some f
  client : ∀ host h, c.clients.findKey host = some h →
    ClientHas localHostName (Service.box boxes host) host h
  known : ∀ {n host r}, c.calls.findKey n = some (.waiting host r) → c.clients.findKey host ≠ none

/-- The cluster does what the letters do. -/
structure Refines (lockServerHost localHostName : Bytes) (c : Cluster) (s : Letters) : Prop where
  wire : Wire lockServerHost localHostName c s
  hosts : Hosts localHostName c s.boxes

section
variable {lockServerHost localHostName : Bytes} {c c' : Cluster} {s : Letters}

/-- The host of a call that waits is a client. -/
theorem Refines.client (hr : Refines lockServerHost localHostName c s) {n : Nat} {host : Bytes}
    {request : PageLockRequest} (hw : s.calls n = some (.waiting host request)) :
    ∃ h, c.clients.findKey host = some h ∧
      ClientHas localHostName (Service.box s.boxes host) host h := by
  rw [hr.wire.calls] at hw
  obtain ⟨h, hh⟩ := Option.ne_none_iff_exists'.1 (hr.hosts.known hw)
  exact ⟨h, hh, hr.hosts.client host h hh⟩

/-! ## Calls -/

theorem outstanding_eq_false {host : Bytes} {page : UInt32 × UInt32}
    (h : c.outstanding host page = false) (n : Nat) (r : PageLockRequest)
    (hn : c.calls.findKey n = some (.waiting host r)) : r.page ≠ page := by
  intro hp
  have hm := AssocMap.findKey_eq_some_iff.1 hn
  rw [Cluster.outstanding, List.any_eq_false] at h
  exact h _ hm (by simp [hp])

/-- The host of a waiting call is still a client after one call and one client change. -/
theorem Hosts.known_update {boxes : List (Letter Bytes PageLockReply)}
    (hh : Hosts localHostName c boxes) {calls : AssocMap Nat LockCall} {call : Nat} {x : LockCall}
    (hcalls : calls.findKey = Function.update c.calls.findKey call (some x))
    (hx : ∀ host request, x = .waiting host request → c.clients.findKey host ≠ none)
    (host' : Bytes) (h' : EventMessageHandle) {n : Nat} {host : Bytes} {request : PageLockRequest}
    (hw : calls.findKey n = some (.waiting host request)) :
    (c.clients.put host' h').findKey host ≠ none := by
  rw [hcalls] at hw
  refine AssocMap.findKey_put_ne_none ?_ host' h'
  rcases Service.update_eq_some hw with ⟨-, hx'⟩ | ⟨-, hw⟩
  · exact hx host request hx'
  · exact hh.known hw

/-- `request_page_lock` starts a call, or fails. -/
theorem Refines.request (hs : 0 ∉ lockServerHost)
    (hr : Refines lockServerHost localHostName c s) {call : Nat} {host : Bytes}
    {request : PageLockRequest} {connects : Bool}
    (hn : c.request lockServerHost call host request connects = some c') :
    ∃ s', lockService.Step s s' ∧ Refines lockServerHost localHostName c' s' := by
  obtain ⟨hwire, hhosts⟩ := hr
  unfold Cluster.request at hn
  split_ifs at hn with hg
  obtain ⟨h, hh, hn⟩ := Option.bind_eq_some_iff.1 hn
  have hc := hhosts.client host h hh
  rw [Bool.or_eq_true, not_or, Option.not_isSome_iff_eq_none, Bool.not_eq_true] at hg
  obtain ⟨hnew, hout⟩ := hg
  cases hreq : requestPageLock h lockServerHost request connects with
  | error e => rw [hreq] at hn; cases hn
  | ok x =>
    obtain ⟨msg, h'⟩ := x
    obtain ⟨hbuf, hl, hk⟩ := requestPageLock_eq_ok hs hc.name hc.localHost hreq
    have hclient : ∀ host' h'', (c.clients.put host h').findKey host' = some h'' →
        ClientHas localHostName (Service.box s.boxes host') host' h'' :=
      AssocMap.forall_findKey_put ⟨hc.name, hl, hc.fits, (hk _ _).trans hc.queue⟩
        fun k w _ hw => hhosts.client k w hw
    rw [hreq] at hn
    cases msg with
    | none =>
      cases hn
      refine ⟨s.fail call, .fail (by rw [hwire.calls]; exact hnew), ⟨hwire.table, hwire.requests,
        hwire.replies, hwire.queued, ?_, hwire.handled, hwire.taken⟩, hhosts.serverName,
        hhosts.registered, hclient,
        hhosts.known_update (AssocMap.findKey_assign_eq_update _ _ _)
          (fun _ _ hx => by cases hx) host h'⟩
      rw [AssocMap.findKey_assign_eq_update, ← hwire.calls]
      rfl
    | some msg =>
      cases hn
      refine ⟨s.start call host request, .start (by rw [hwire.calls]; exact hnew) ?_,
        ⟨hwire.table, ?_, hwire.replies, hwire.queued, ?_, hwire.handled, hwire.taken⟩,
        hhosts.serverName, hhosts.registered, hclient,
        hhosts.known_update (AssocMap.findKey_assign_eq_update _ _ _) ?_ host h'⟩
      · intro n r hw
        rw [hwire.calls] at hw
        exact outstanding_eq_false hout n r hw
      · exact List.rel_append hwire.requests (.cons ⟨rfl, hbuf msg rfl⟩ .nil)
      · rw [AssocMap.findKey_assign_eq_update, ← hwire.calls]
        rfl
      · intro host' r hx
        cases hx
        rw [hh]
        exact Option.some_ne_none h

/-! ## Messages in flight -/

/-- An element of related lists has its partner, and the others are still related. -/
theorem split_of_forall₂ {α β : Type} {R : α → β → Prop} :
    ∀ {l : List α} {l' : List β} {i : Nat} {x : α}, List.Forall₂ R l l' → l[i]? = some x →
    ∃ y as bs, R x y ∧ l' = as ++ y :: bs ∧ List.Forall₂ R (l.eraseIdx i) (as ++ bs)
  | x :: l, y :: l', 0, _, .cons hxy h, hx => by
    cases hx
    exact ⟨y, [], l', hxy, rfl, h⟩
  | x :: l, y :: l', i + 1, _, .cons hxy h, hx => by
    obtain ⟨z, as, bs, hz, rfl, h'⟩ := split_of_forall₂ h hx
    exact ⟨z, y :: as, bs, hz, rfl, .cons hxy h'⟩

theorem map_eq_of_forall₂ {α β γ : Type} {R : α → β → Prop} {f : α → γ} {g : β → γ}
    (hR : ∀ x y, R x y → f x = g y) {l : List α} {l' : List β} (h : List.Forall₂ R l l') :
    l.map f = l'.map g := by
  rw [← List.forall₂_eq_eq_eq, List.forall₂_map_left_iff, List.forall₂_map_right_iff]
  exact h.imp hR

/-- The server serves a request with the answer of the lock manager. -/
theorem serve_eq_ok (hs : 0 ∉ lockServerHost) (hl : 0 ∉ localHostName)
    {boxes : List (Letter Bytes PageLockReply)} (hh : Hosts localHostName c boxes) {host : Bytes}
    (hhost : 0 ∉ host) {request : PageLockRequest} {connects : Bool} {buffer : Bytes}
    (hframe : Framed buffer (requestContent lockServerHost host request))
    {x : Option (LockTable × Event × Bytes × Bytes)} {h' : EventMessageHandle}
    (hx : c.serve buffer connects = .ok (x, h')) :
    (∃ reply, x = some ((checkLockRequest c.table host request).1,
        (⟨host, request⟩, (checkLockRequest c.table host request).2), host, reply) ∧
      Framed reply (replyContent localHostName host (checkLockRequest c.table host request).2.2)) ∧
      h'.localHostName = localHostName ∧
      ∀ g t, h'.callbackInfor g t = c.server.callbackInfor g t := by
  obtain ⟨rfl, ⟨cb, f, hcb, hf⟩, -, -⟩ := hh
  obtain ⟨mess, hmess, hx⟩ := bind_eq_ok.1 hx
  obtain ⟨hlt, rfl⟩ := hframe.ofFrame_eq_ok hmess
  rw [EventMessageHandle.dispatch_decoded_callback (requestContent_valid hs hhost request)
    (by omega) hcb hf, ok_bind] at hx
  obtain ⟨⟨t, event, msg, h''⟩, hcall, hx⟩ := bind_eq_ok.1 hx
  obtain ⟨rfl, rfl, hbuf, hrecive, hl', hk⟩ := lockRequestCallback_eq_ok hs hhost hl hlt hcall
  dsimp only at hx
  rw [hrecive] at hx
  cases hx
  exact ⟨⟨_, rfl, hbuf⟩, hl', hk⟩

/-- The server handles a request. -/
theorem Refines.handle (hs : 0 ∉ lockServerHost) (hl : 0 ∉ localHostName)
    (hr : Refines lockServerHost localHostName c s) (hi : lockService.Inv s) {i : Nat}
    {connects : Bool} (hn : c.handle i connects = some c') :
    ∃ s', lockService.Step s s' ∧ Refines lockServerHost localHostName c' s' := by
  obtain ⟨p, hp, hn⟩ := Option.bind_eq_some_iff.1 hn
  obtain ⟨m, as, bs, ⟨hcall, hframe⟩, hm, herase⟩ := split_of_forall₂ hr.wire.requests hp
  obtain ⟨h, -, hclient⟩ := hr.client (hi.asked m (by rw [hm]; simp))
  obtain ⟨hwire, hhosts⟩ := hr
  cases hx : c.serve p.body connects with
  | error e => rw [hx] at hn; cases hn
  | ok x =>
    obtain ⟨x, h'⟩ := x
    obtain ⟨⟨reply, rfl, hreply⟩, hname, hk⟩ := serve_eq_ok hs hl hhosts hclient.name hframe hx
    rw [hx] at hn
    cases hn
    rw [hcall]
    rw [← hwire.table] at hreply
    refine ⟨lockService.handle s m (as ++ bs), .handle hm,
      ⟨?_, herase, ?_, hwire.queued, hwire.calls, ?_, hwire.taken⟩,
      hname, ?_, hhosts.client, hhosts.known⟩
    · rw [← hwire.table]
      rfl
    · exact List.rel_append hwire.replies (.cons ⟨rfl, rfl, hreply⟩ .nil)
    · simp only [Service.handle, List.map_append, ← hwire.handled, hwire.table]
      rfl
    · obtain ⟨cb, f, hcb, hf⟩ := hhosts.registered
      exact ⟨cb, f, (hk _ _).trans hcb, hf⟩

/-! ## Queues -/

/-- A reply that a client receives goes to the end of its queue. -/
theorem ClientHas.queue_eq_ok {rs : List PageLockReply} {host : Bytes} {h : EventMessageHandle}
    (hl : 0 ∉ localHostName) (hc : ClientHas localHostName rs host h) {r : PageLockReply}
    {buffer : Bytes} (hframe : Framed buffer (replyContent localHostName host r))
    {x : Option (EventMessage × EventMessageHandle)} (hx : Cluster.queue h buffer = .ok x) :
    ∃ h', x = some (decoded (replyContent localHostName host r), h') ∧
      ClientHas localHostName (rs ++ [r]) host h' := by
  obtain ⟨hh, hlocal, -, hq⟩ := hc
  obtain ⟨mess, hmess, hx⟩ := bind_eq_ok.1 hx
  obtain ⟨hlt, rfl⟩ := hframe.ofFrame_eq_ok hmess
  obtain ⟨h', hd, hlocal', hq'⟩ := EventMessageHandle.dispatch_decoded_queued
    (replyContent_valid hl hh r) (by omega) hq rfl
  rw [hd, ok_bind] at hx
  dsimp only at hx
  rw [copy_decoded (by omega), ok_bind] at hx
  cases hx
  refine ⟨h', rfl, hh, hlocal'.trans hlocal, fun _ => replyFits_of_size hlt, hq'.trans ?_⟩
  simp only [replyMessages, List.map_append]
  rfl

/-- A reply reaches the queue of its client. -/
theorem Refines.deliver (hl : 0 ∉ localHostName)
    (hr : Refines lockServerHost localHostName c s) (hi : lockService.Inv s) {i : Nat}
    (hn : c.deliver i = some c') :
    ∃ s', lockService.Step s s' ∧ Refines lockServerHost localHostName c' s' := by
  obtain ⟨⟨call, addr, buffer⟩, hp, hn⟩ := Option.bind_eq_some_iff.1 hn
  obtain ⟨m, as, bs, ⟨hcall, haddr, hframe⟩, hm, herase⟩ := split_of_forall₂ hr.wire.replies hp
  obtain ⟨request, hw, -⟩ := hi.owed m (by rw [hm]; simp)
  obtain ⟨h, hh, hclient⟩ := hr.client hw
  obtain ⟨hwire, hhosts⟩ := hr
  dsimp only at hcall haddr hframe hn
  subst hcall haddr
  rw [hh] at hn
  cases hq : Cluster.queue h buffer with
  | error e => simp only [hq] at hn; cases hn
  | ok x =>
  obtain ⟨h', rfl, hclient'⟩ := hclient.queue_eq_ok hl hframe hq
  simp only [hq] at hn
  cases hn
  refine ⟨s.deliver m (as ++ bs), .deliver hm,
    ⟨hwire.table, hwire.requests, herase, ?_, hwire.calls, hwire.handled, hwire.taken⟩,
    hhosts.serverName, hhosts.registered, ?_, ?_⟩
  · simp only [Service.State.deliver, List.map_append, ← hwire.queued]
    rfl
  · show ∀ host w, (c.clients.put m.addr h').findKey host = some w →
      ClientHas localHostName (Service.box (s.boxes ++ [m]) host) host w
    refine AssocMap.forall_findKey_put ?_ fun k w hne hk => ?_
    · rw [Service.box_snoc, if_pos rfl]
      exact hclient'
    · rw [Service.box_snoc, if_neg (Ne.symm hne)]
      exact hhosts.client k w hk
  · intro n host r hw
    exact AssocMap.findKey_put_ne_none (hhosts.known hw) _ _

theorem accepts_replyMessage (hl : 0 ∉ localHostName) {host : Bytes} (hh : 0 ∉ host)
    (hfit : ReplyFits localHostName host) (request : PageLockRequest) :
    Cluster.accepts host request ∘ replyMessage localHostName =
      lockService.accepts host request := by
  funext m
  rw [Bool.eq_iff_iff, Function.comp_apply, Cluster.accepts, Service.accepts, Bool.and_eq_true,
    Bool.and_eq_true, decide_eq_true_eq, decide_eq_true_eq, decide_eq_true_eq]
  refine and_congr_right fun hm => ?_
  have hp : request.filter.holds (decoded (replyContent localHostName host m.body)) =
    decide (m.body.page = request.page) := congrFun (holds_decoded hl hh hfit request) m.body
  rw [← show m.addr = host from hm] at hp
  exact (Bool.eq_iff_iff.1 hp).trans decide_eq_true_iff

/-- A round of a waiting call reads its reply, or nothing. -/
theorem Refines.wait (hl : 0 ∉ localHostName)
    (hr : Refines lockServerHost localHostName c s) {call : Nat} (hn : c.wait call = some c') :
    ∃ s', (s' = s ∨ lockService.Step s s') ∧ Refines lockServerHost localHostName c' s' := by
  unfold Cluster.wait at hn
  split at hn
  swap
  · cases hn
  rename_i host request hw
  have hw' : s.calls call = some (.waiting host request) := by rw [hr.wire.calls, hw]
  obtain ⟨h, hh, hclient⟩ := hr.client hw'
  obtain ⟨hwire, hhosts⟩ := hr
  rw [hh, Option.bind_some] at hn
  cases hf : (Service.box s.boxes host).find? (fun r => decide (r.page = request.page)) with
  | none =>
    rw [waitForLockReply_none hl hclient.name hclient.fits hclient.queue hf] at hn
    cases hn
    rw [AssocMap.put_eq_self hh]
    exact ⟨s, Or.inl rfl, hwire, hhosts⟩
  | some r =>
    have hfit := hclient.fits (List.ne_nil_of_mem (List.mem_of_find?_eq_some hf))
    obtain ⟨h', hwait, hlocal, hq⟩ := waitForLockReply_some hl hclient.name hfit hclient.queue hf
    rw [hwait] at hn
    obtain ⟨m', hm', rfl⟩ := Option.map_eq_some_iff.1 hn
    rw [hwire.queued, List.find?_map, accepts_replyMessage hl hclient.name hfit] at hm'
    obtain ⟨m, hm, rfl⟩ := Option.map_eq_some_iff.1 hm'
    have hbody := Service.find?_box (S := lockService) s.boxes host request
    rw [hm] at hbody
    obtain rfl : r = m.body := Option.some_inj.1 (hf.symm.trans hbody)
    refine ⟨lockService.take s call host request m, Or.inr (.take hw' hm),
      ⟨hwire.table, hwire.requests, hwire.replies, ?_, ?_, hwire.handled, ?_⟩,
      hhosts.serverName, hhosts.registered, ?_,
      hhosts.known_update (AssocMap.findKey_put_eq_update hw _) (fun _ _ hx => by cases hx) host h'⟩
    · rw [hwire.queued, List.eraseP_map, accepts_replyMessage hl hclient.name hfit]
      rfl
    · rw [AssocMap.findKey_put_eq_update hw, ← hwire.calls]
      rfl
    · rw [← hwire.taken]
      rfl
    · refine AssocMap.forall_findKey_put ?_ fun k w hne hk => ?_
      · refine ⟨hclient.name, hlocal.trans hclient.localHost, fun _ => hfit, ?_⟩
        rw [hq]
        simp only [Service.take]
        rw [Service.box_eraseP]
        rfl
      · simp only [Service.take]
        rw [Service.box_eraseP_ne hne]
        exact hhosts.client k w hk

/-- **The cluster refines the letters.** -/
theorem Refines.next (hs : 0 ∉ lockServerHost) (hl : 0 ∉ localHostName)
    (hr : Refines lockServerHost localHostName c s) (hi : lockService.Inv s)
    {server : EventMessageHandle} {clients : AssocMap Bytes EventMessageHandle} {a : ClusterAction}
    (hn : (lockCluster lockServerHost server clients).next c a = some c') :
    ∃ s', (s' = s ∨ lockService.Step s s') ∧ Refines lockServerHost localHostName c' s' := by
  cases a with
  | request call host request connects =>
    obtain ⟨s', hstep, hr'⟩ := hr.request hs hn
    exact ⟨s', Or.inr hstep, hr'⟩
  | handle i connects =>
    obtain ⟨s', hstep, hr'⟩ := hr.handle hs hl hi hn
    exact ⟨s', Or.inr hstep, hr'⟩
  | deliver i =>
    obtain ⟨s', hstep, hr'⟩ := hr.deliver hl hi hn
    exact ⟨s', Or.inr hstep, hr'⟩
  | wait call => exact hr.wait hl hn

/-! ## Runs -/

theorem refines_init {server : EventMessageHandle} {clients : AssocMap Bytes EventMessageHandle}
    (h : ClusterReady lockServerHost server clients) :
    Refines lockServerHost server.localHostName { server, clients } { server := [] } := by
  obtain ⟨h0, hinit⟩ := h.init
  obtain ⟨cb, hcb, hf⟩ := EventMessageHandle.registerReciveHandler_eq_ok
    (str_mem groupName_cstr _) (str_mem requestMessType_cstr _) hinit
  refine ⟨⟨rfl, .nil, .nil, rfl, rfl, rfl, rfl⟩, rfl, ⟨cb, _, hcb, hf⟩, ?_, ?_⟩
  · intro host w hw
    obtain ⟨hname, hlocal, hq⟩ := h.client host w hw
    exact ⟨hname, hlocal, fun hne => absurd rfl hne, hq⟩
  · intro n host r hw
    cases hw

/-- What the cluster does, the letters do. -/
theorem exists_letters {server : EventMessageHandle} {clients : AssocMap Bytes EventMessageHandle}
    (h : ClusterReady lockServerHost server clients) {as : List ClusterAction}
    (hrun : (lockCluster lockServerHost server clients).run as = some c) :
    ∃ s, Refines lockServerHost server.localHostName c s ∧ lockService.Inv s := by
  refine System.inv_of_step
    (I := fun c => ∃ s, Refines lockServerHost server.localHostName c s ∧ lockService.Inv s)
    (fun c a c' hn hi => ?_) hrun ⟨_, refines_init h, Service.inv_init []⟩
  obtain ⟨s, hr, hi⟩ := hi
  obtain ⟨s', hstep, hr'⟩ := hr.next h.lockServerHost h.localHostName hi hn
  rcases hstep with rfl | hstep
  · exact ⟨s', hr', hi⟩
  · exact ⟨s', hr', hi.step hstep⟩

/-! ## The answers of the lock manager -/

theorem lockRequestCallback_step {t t' : LockTable} {h h' : EventMessageHandle}
    {mess msg : EventMessage} {connects : Bool} {event : Event}
    (hr : lockRequestCallback t h mess connects = .ok (t', event, msg, h')) :
    (t', event.2) = lockMachine.step t event.1 := by
  obtain ⟨asker, -, hr⟩ := bind_eq_ok.1 hr
  obtain ⟨request, -, hr⟩ := bind_eq_ok.1 hr
  dsimp only at hr
  obtain ⟨⟨v, m, h''⟩, -, hr⟩ := bind_eq_ok.1 hr
  dsimp only at hr
  split_ifs at hr
  · cases hr
  · cases hr
    rfl

/-- The server has answered as the lock manager does. -/
def AnswersAll (c : Cluster) : Prop :=
  c.table = lockMachine.exec (c.handled.map (·.2.1)) ∧
    c.handled.map Prod.snd = lockMachine.trace (c.handled.map (·.2.1))

theorem AnswersAll.handle {i : Nat} {connects : Bool} (ha : AnswersAll c)
    (hn : c.handle i connects = some c') : AnswersAll c' := by
  obtain ⟨p, -, hn⟩ := Option.bind_eq_some_iff.1 hn
  split at hn
  · cases hn
    exact ha
  · rename_i table event host buffer h hserve
    cases hn
    obtain ⟨mess, -, hserve⟩ := bind_eq_ok.1 hserve
    obtain ⟨d, -, hserve⟩ := bind_eq_ok.1 hserve
    cases d with
    | unknown => cases hserve
    | queued h' => cases hserve
    | callback f =>
      obtain ⟨⟨t, e, msg, h'⟩, hcall, hserve⟩ := bind_eq_ok.1 hserve
      obtain ⟨host', -, hserve⟩ := bind_eq_ok.1 hserve
      cases hserve
      have hstep := lockRequestCallback_step hcall
      obtain ⟨htable, htrace⟩ := ha
      refine ⟨?_, ?_⟩
      · simp only [List.map_append, List.map_cons, List.map_nil, Machine.exec_snoc, ← htable]
        rw [← hstep]
      · simp only [List.map_append, List.map_cons, List.map_nil, Machine.trace_snoc, ← htable,
          ← htrace]
        rw [← hstep]
  · cases hn

theorem AnswersAll.next (ha : AnswersAll c) {server : EventMessageHandle}
    {clients : AssocMap Bytes EventMessageHandle} {a : ClusterAction}
    (hn : (lockCluster lockServerHost server clients).next c a = some c') : AnswersAll c' := by
  -- the other steps change neither the table nor the history
  cases a with
  | request call host request connects =>
    change c.request lockServerHost call host request connects = some c' at hn
    unfold Cluster.request at hn
    split_ifs at hn
    obtain ⟨h, -, hn⟩ := Option.bind_eq_some_iff.1 hn
    split at hn <;> cases hn <;> exact ha
  | handle i connects => exact ha.handle hn
  | deliver i =>
    obtain ⟨p, -, hn⟩ := Option.bind_eq_some_iff.1 hn
    split at hn
    · cases hn
      exact ha
    · split at hn <;> cases hn <;> exact ha
  | wait call =>
    change c.wait call = some c' at hn
    unfold Cluster.wait at hn
    split at hn
    · obtain ⟨h, -, hn⟩ := Option.bind_eq_some_iff.1 hn
      split at hn
      · cases hn
        exact ha
      · cases hn
        exact ha
      · obtain ⟨m, -, rfl⟩ := Option.map_eq_some_iff.1 hn
        exact ha
      · cases hn
    · cases hn

/-! ## Own answers -/

/-- The messages queued at a client are the replies in its mailbox. -/
theorem filter_replyMessage (localHostName host : Bytes)
    (boxes : List (Letter Bytes PageLockReply)) :
    ((boxes.map (replyMessage localHostName)).filter (·.addr = host)).map (·.body) =
      replyMessages localHostName host (Service.box boxes host) := by
  rw [List.filter_map, replyMessages, Service.box, List.map_map, List.map_map]
  refine List.map_congr_left fun m hm => ?_
  have haddr : m.addr = host := of_decide_eq_true (List.mem_filter.1 hm).2
  show decoded (replyContent localHostName m.addr m.body) = _
  rw [haddr]
  rfl

theorem Refines.ownAnswers (hr : Refines lockServerHost localHostName c s)
    (hl : 0 ∉ localHostName) (hi : lockService.Inv s) (ha : AnswersAll c) : OwnAnswers c := by
  have hwire := hr.wire
  have hhosts := hr.hosts
  refine ⟨?_, ha.2, ?_, ?_, ?_, ?_, ?_, ?_, ?_⟩
  · intro call host request reply hc
    rw [← hwire.calls] at hc
    have he := hi.returned hc
    rw [hwire.handled] at he
    obtain ⟨⟨n, ⟨asker, request'⟩, code, reply'⟩, hmem, heq⟩ := List.mem_map.1 he
    cases heq
    exact ⟨code, hmem⟩
  · have hn := hi.handledOnce
    rw [hwire.handled, List.map_map] at hn
    exact hn
  · rw [← hwire.taken]
    exact hi.taken
  · intro p hp
    obtain ⟨i, hi'⟩ := List.getElem?_of_mem hp
    obtain ⟨m, as, bs, ⟨hcall, haddr, -⟩, hm, -⟩ := split_of_forall₂ hwire.replies hi'
    obtain ⟨request, hw, -⟩ := hi.owed m (by rw [hm]; simp)
    rw [hwire.calls] at hw
    exact ⟨request, by rw [hcall, haddr, hw]⟩
  · intro host h hh
    refine ⟨_, (hhosts.client host h hh).queue, ?_⟩
    rw [hwire.queued, filter_replyMessage]
  · intro p hp
    rw [hwire.queued] at hp
    obtain ⟨m, hm, rfl⟩ := List.mem_map.1 hp
    obtain ⟨request, hw, -⟩ := hi.owed m (List.mem_append_right _ hm)
    rw [hwire.calls] at hw
    exact ⟨request, hw⟩
  · have hn := hi.once
    unfold Service.State.numbers at hn
    rw [map_eq_of_forall₂ (fun _ _ h => h.call) hwire.requests,
      map_eq_of_forall₂ (fun _ _ h => h.call) hwire.replies, hwire.queued, List.map_map]
    exact hn
  · intro p hp call request hw
    rw [hwire.queued] at hp
    obtain ⟨m, hm, rfl⟩ := List.mem_map.1 hp
    rw [← hwire.calls] at hw
    obtain ⟨h, -, hc⟩ := hr.client hw
    have hacc := hi.accepts_iff hw (List.mem_append_right s.replies hm)
    have hpage : m.body.page = request.page ↔ call = m.call := by
      rw [Service.accepts, Bool.and_eq_true, decide_eq_true_iff, decide_eq_true_iff] at hacc
      exact ⟨fun hp => (hacc.1 ⟨rfl, hp⟩).symm, fun hcall => (hacc.2 hcall.symm).2⟩
    have hfit : ReplyFits localHostName m.addr := by
      refine hc.fits (List.ne_nil_of_mem (List.mem_map_of_mem (List.mem_filter.2 ⟨hm, ?_⟩)))
      exact decide_eq_true rfl
    refine (filter_decoded hl hc.name hfit request m.body).trans ?_
    rw [decide_eq_decide.2 hpage]
    rfl

/-- **Each lock call gets its own answer.** -/
theorem own_answers {server : EventMessageHandle} {clients : AssocMap Bytes EventMessageHandle}
    (h : ClusterReady lockServerHost server clients) {as : List ClusterAction}
    (hrun : (lockCluster lockServerHost server clients).run as = some c) : OwnAnswers c := by
  obtain ⟨s, hr, hi⟩ := exists_letters h hrun
  have ha : AnswersAll c := System.inv_of_step (fun c a c' hn ha => ha.next hn) hrun ⟨rfl, rfl⟩
  exact hr.ownAnswers h.localHostName hi ha

end

/-! ## Two clients -/

/-- A host of `lock_server_mess_config.json`. -/
def lockHost (localHostName : Bytes) : EventMessageHandle where
  localHostName := localHostName
  hostConfigMap := ⟨[(Bytes.ofAscii "host1", Bytes.ofAscii "127.0.0.1"),
    (Bytes.ofAscii "lock_client", Bytes.ofAscii "127.0.0.1"),
    (Bytes.ofAscii "lock_server", Bytes.ofAscii "127.0.0.1")], by decide⟩
  messGroupMap := ⟨[(remoteLockGroupName, {
    hostPortMap := ⟨[(Bytes.ofAscii "host1", 25557), (Bytes.ofAscii "lock_client", 25558),
      (Bytes.ofAscii "lock_server", 25559)], by decide⟩
    messCallbackMap := ⟨[(remoteLockReplyMessType, {}), (remoteLockRequestMessType, {})],
      by decide⟩ })], by decide⟩

def lockServer : EventMessageHandle :=
  match lockManagerInit (lockHost (Bytes.ofAscii "lock_server")) with
  | .ok (_, h) => h
  | .error _ => lockHost (Bytes.ofAscii "lock_server")

def twoClients : AssocMap Bytes EventMessageHandle :=
  ⟨[(Bytes.ofAscii "host1", lockHost (Bytes.ofAscii "host1")),
    (Bytes.ofAscii "lock_client", lockHost (Bytes.ofAscii "lock_client"))], by decide⟩

theorem twoClients_ready : ClusterReady (Bytes.ofAscii "lock_server") lockServer twoClients where
  lockServerHost := by decide
  localHostName := by decide
  init := ⟨lockHost (Bytes.ofAscii "lock_server"), rfl⟩
  client := by
    intro host h hh
    rcases List.mem_pair.1 (AssocMap.findKey_eq_some_iff.1 hh) with he | he
    · cases he
      exact ⟨by decide, rfl, rfl⟩
    · cases he
      exact ⟨by decide, rfl, rfl⟩

/-- Two hosts ask for one page, and the reply to the second arrives first. -/
def twoCalls : List ClusterAction :=
  [.request 0 (Bytes.ofAscii "lock_client") ⟨1, 1, 1, .wLock⟩ true,
    .request 1 (Bytes.ofAscii "host1") ⟨1, 1, 1, .wLock⟩ true,
    .handle 0 true, .handle 0 true, .deliver 1, .deliver 0, .wait 0, .wait 1]

theorem own_answers_two :
    ∃ c, (lockCluster (Bytes.ofAscii "lock_server") lockServer twoClients).run twoCalls = some c ∧
      c.calls.findKey 0 = some (.returned (Bytes.ofAscii "lock_client") ⟨1, 1, 1, .wLock⟩
        ⟨1, 1, .lockSuccess⟩) ∧
      c.calls.findKey 1 = some (.returned (Bytes.ofAscii "host1") ⟨1, 1, 1, .wLock⟩
        ⟨1, 1, .lockFail⟩) ∧
      OwnAnswers c := by
  have hrun : ((lockCluster (Bytes.ofAscii "lock_server") lockServer twoClients).run
      twoCalls).any (fun c =>
        c.calls.findKey 0 = some (.returned (Bytes.ofAscii "lock_client") ⟨1, 1, 1, .wLock⟩
          ⟨1, 1, .lockSuccess⟩) &&
        c.calls.findKey 1 = some (.returned (Bytes.ofAscii "host1") ⟨1, 1, 1, .wLock⟩
          ⟨1, 1, .lockFail⟩)) = true := by
    decide +kernel
  obtain ⟨hsome, hret⟩ := (Option.any_eq_true_iff_get _ _).1 hrun
  rw [Bool.and_eq_true, decide_eq_true_iff, decide_eq_true_iff] at hret
  exact ⟨_, (Option.some_get hsome).symm, hret.1, hret.2,
    own_answers twoClients_ready (Option.some_get hsome).symm⟩

end Lock
