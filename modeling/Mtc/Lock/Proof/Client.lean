import Mtc.Lock.Cluster
import Mtc.Net.Proof.Queue

/-!
# Lock messages

The requests and replies as messages (`requestContent`, `replyContent`), and what the client and
the server do with them: `requestPageLock_eq_ok` and `lockRequestCallback_eq_ok` for the messages
sent, `waitForLockReply_none` and `waitForLockReply_some` for the reply read.
-/

namespace Lock

open Except (ok_bind bind_eq_ok)
open Net
open Net.EventMessage (Content)

/-! ## The structs -/

section
variable {ws : List UInt32}

theorem wordAt_words {i : Nat} {x : UInt32} (h : ws[i]? = some x) (bs : Bytes) :
    wordAt (Bytes.words ws ++ bs) i = .ok x := by
  rw [wordAt, Bytes.getLe32_words h]
  rfl

end

theorem PageLockType.ofVal_val (y : PageLockType) : ofVal (UInt32.ofNat y.val) = .ok y := by
  cases y <;> rfl

theorem PageReplyType.ofVal_val (y : PageReplyType) : ofVal y.val = .ok y := by
  cases y <;> rfl

theorem PageLockRequest.ofBytes_toBytes (request : PageLockRequest) (bs : Bytes) :
    ofBytes (request.toBytes ++ bs) = .ok request := by
  have hv : UInt64.ofNat ((UInt32.ofNat request.versionNo.toNat).toNat +
      2 ^ 32 * (UInt32.ofNat (request.versionNo.toNat / 2 ^ 32)).toNat) = request.versionNo := by
    have := request.versionNo.toNat_lt
    rw [← UInt64.toNat_inj, UInt64.toNat_ofNat', UInt32.toNat_ofNat', UInt32.toNat_ofNat']
    omega
  simp only [ofBytes, toBytes]
  rw [wordAt_words (i := 0) rfl, wordAt_words (i := 1) rfl, wordAt_words (i := 2) rfl,
    wordAt_words (i := 3) rfl, wordAt_words (i := 4) rfl]
  simp only [ok_bind, PageLockType.ofVal_val, hv]
  rfl

theorem PageLockReply.ofBytes_toBytes (reply : PageLockReply) (bs : Bytes) :
    ofBytes (reply.toBytes ++ bs) = .ok reply := by
  simp only [ofBytes, toBytes]
  rw [wordAt_words (i := 0) rfl, wordAt_words (i := 1) rfl, wordAt_words (i := 2) rfl]
  simp only [ok_bind, PageReplyType.ofVal_val]
  rfl

/-! ## The messages -/

theorem groupName_cstr : 0 ∉ remoteLockGroupName := by decide

theorem requestMessType_cstr : 0 ∉ remoteLockRequestMessType := by decide

theorem replyMessType_cstr : 0 ∉ remoteLockReplyMessType := by decide

section
variable {lockServerHost localHostName host : Bytes}

theorem requestContent_valid (hs : 0 ∉ lockServerHost) (hh : 0 ∉ host)
    (request : PageLockRequest) : (requestContent lockServerHost host request).Valid :=
  ⟨groupName_cstr, requestMessType_cstr, hh, hs, rfl⟩

theorem replyContent_valid (hl : 0 ∉ localHostName) (hh : 0 ∉ host)
    (reply : PageLockReply) : (replyContent localHostName host reply).Valid :=
  ⟨groupName_cstr, replyMessType_cstr, hl, hh, rfl⟩

theorem requestMsg_outgoing (hs : 0 ∉ lockServerHost) (hh : 0 ∉ host)
    (request : PageLockRequest) :
    (requestMsg lockServerHost request).outgoing host =
      .ok (requestContent lockServerHost host request) :=
  content_of_eq_ok (str_mem groupName_cstr _) (str_mem requestMessType_cstr _)
    (str_mem hh _) (str_mem hs _) (bytes_mem rfl _) rfl

/-- The reply to a message of the group goes to the host that has sent it. -/
theorem replyMsg_outgoing {c : Content} (hv : c.Valid) (hlt : c.size < 2 ^ 31)
    (hg : c.groupName = remoteLockGroupName) (hl : 0 ∉ localHostName) (reply : PageLockReply) :
    (replyMsg (decoded c) reply).outgoing localHostName =
      .ok (replyContent localHostName c.sendHostName reply) := by
  obtain ⟨hgroup, -, hasker, -⟩ := content_eq_ok (content_decoded hv (by omega))
  rw [hg] at hgroup
  exact content_of_eq_ok hgroup (str_mem replyMessType_cstr _) (str_mem hl _) hasker
    (bytes_mem rfl _) rfl

/-! ## Requests -/

/-- A request that is sent is that of the call, from the client's host. -/
theorem requestPageLock_eq_ok {h h' : EventMessageHandle} {request : PageLockRequest}
    {connects : Bool} {msg : Option EventMessage} (hs : 0 ∉ lockServerHost)
    (hh : 0 ∉ host) (hl : h.localHostName = host)
    (hr : requestPageLock h lockServerHost request connects = .ok (msg, h')) :
    (∀ m, msg = some m → Framed m.bufferStr (requestContent lockServerHost host request)) ∧
      h'.localHostName = host ∧ ∀ g t, h'.callbackInfor g t = h.callbackInfor g t := by
  subst hl
  obtain ⟨⟨v, m, h''⟩, hsend, hr⟩ := bind_eq_ok.1 hr
  dsimp only at hr
  obtain ⟨hv, hl', hk⟩ :=
    EventMessageHandle.sendMessage_keeps (requestMsg_outgoing hs hh request) hsend
  rcases hv with rfl | ⟨rfl, hbuf, -⟩
  · rw [if_pos (by decide)] at hr
    cases hr
    refine ⟨fun m' hm' => ?_, hl', hk⟩
    cases hm'
  · rw [if_neg (by decide)] at hr
    cases hr
    refine ⟨fun m' hm' => ?_, hl', hk⟩
    cases hm'
    exact hbuf

/-- The server answers a request with the reply of the lock manager, sent to the client. -/
theorem lockRequestCallback_eq_ok {t t' : LockTable} {h h' : EventMessageHandle}
    {request : PageLockRequest} {connects : Bool} {event : Event} {msg : EventMessage}
    (hs : 0 ∉ lockServerHost) (hh : 0 ∉ host) (hl : 0 ∉ h.localHostName)
    (hlt : (requestContent lockServerHost host request).size < 2 ^ 31)
    (hr : lockRequestCallback t h (decoded (requestContent lockServerHost host request)) connects =
      .ok (t', event, msg, h')) :
    t' = (checkLockRequest t host request).1 ∧
      event = (⟨host, request⟩, (checkLockRequest t host request).2) ∧
      Framed msg.bufferStr
        (replyContent h.localHostName host (checkLockRequest t host request).2.2) ∧
      msg.reciveHostName.str msg.bufferStr = .ok host ∧ h'.localHostName = h.localHostName ∧
      ∀ g t, h'.callbackInfor g t = h.callbackInfor g t := by
  obtain ⟨-, -, hasker, -, hp, -⟩ := content_eq_ok
    (content_decoded (requestContent_valid hs hh request) (by omega))
  obtain ⟨rest, hrest⟩ := target_of_bytes_eq_ok hp
  have hreq := PageLockRequest.ofBytes_toBytes request rest
  unfold lockRequestCallback at hr
  rw [hasker, ok_bind, hrest] at hr
  obtain ⟨request', hreq', hr⟩ := bind_eq_ok.1 hr
  cases hreq.symm.trans hreq'
  dsimp only at hr
  obtain ⟨⟨v, m, h''⟩, hsend, hr⟩ := bind_eq_ok.1 hr
  dsimp only at hr
  obtain ⟨hv, hl', hk⟩ :=
    EventMessageHandle.sendMessage_keeps
      (replyMsg_outgoing (requestContent_valid hs hh request) hlt rfl hl _) hsend
  rcases hv with rfl | ⟨rfl, hbuf, hrecive⟩
  · rw [if_pos (by decide)] at hr
    cases hr
  · rw [if_neg (by decide)] at hr
    cases hr
    refine ⟨rfl, rfl, hbuf, ?_, hl', hk⟩
    rw [hrecive]
    exact hasker

/-! ## Replies -/

/-- The replies of a server to a host can be received; they all have one size. -/
def ReplyFits (localHostName host : Bytes) : Prop :=
  ∀ r, (replyContent localHostName host r).size < 2 ^ 31

theorem replyFits_of_size {r : PageLockReply}
    (hlt : (replyContent localHostName host r).size < 2 ^ 31) : ReplyFits localHostName host :=
  fun _ => hlt

/-- The filter on a reply compares the pages. -/
theorem filter_decoded (hl : 0 ∉ localHostName) (hh : 0 ∉ host)
    (hfit : ReplyFits localHostName host) (request : PageLockRequest) (reply : PageLockReply) :
    request.filter.call (decoded (replyContent localHostName host reply)) =
      .ok (decide (reply.page = request.page)) := by
  have hlt := hfit reply
  obtain ⟨-, -, -, -, hp, -⟩ := content_eq_ok (content_decoded (replyContent_valid hl hh reply)
    (by omega))
  obtain ⟨rest, hrest⟩ := target_of_bytes_eq_ok hp
  have hs : wordAt ((replyContent localHostName host reply).message ++ rest) 0 =
    .ok reply.spaceId := wordAt_words rfl rest
  have hn : wordAt ((replyContent localHostName host reply).message ++ rest) 1 =
    .ok reply.pageNo := wordAt_words rfl rest
  simp only [PageLockReplyFilter.call, hrest, hs, hn, ok_bind, PageLockRequest.filter,
    PageLockReply.page, PageLockRequest.page, Prod.mk.injEq]
  by_cases hspace : reply.spaceId = request.spaceId
  · simp only [hspace, true_and]
    rfl
  · simp only [hspace, false_and]
    rfl

/-- The replies in a queue, as messages. -/
def replyMessages (localHostName host : Bytes) (rs : List PageLockReply) : List EventMessage :=
  rs.map fun r => decoded (replyContent localHostName host r)

section
variable {h : EventMessageHandle} {request : PageLockRequest} {rs : List PageLockReply}

theorem holds_decoded (hl : 0 ∉ localHostName) (hh : 0 ∉ host)
    (hfit : ReplyFits localHostName host) (request : PageLockRequest) :
    (request.filter.holds ∘ fun r => decoded (replyContent localHostName host r)) =
      fun r => decide (r.page = request.page) := by
  funext r
  simp only [Function.comp_apply, PageLockReplyFilter.holds, filter_decoded hl hh hfit]
  cases decide (r.page = request.page) <;> rfl

theorem filter_replyMessages (hl : 0 ∉ localHostName) (hh : 0 ∉ host)
    (hfit : rs ≠ [] → ReplyFits localHostName host) :
    ∀ m ∈ replyMessages localHostName host rs,
      request.filter.call m = .ok (request.filter.holds m) := by
  intro m hm
  obtain ⟨r, hr, rfl⟩ := List.mem_map.1 hm
  have hfit := hfit (List.ne_nil_of_mem hr)
  have hp := congrFun (holds_decoded hl hh hfit request) r
  simp only [Function.comp_apply] at hp
  rw [hp, filter_decoded hl hh hfit]

theorem find?_replyMessages (hl : 0 ∉ localHostName) (hh : 0 ∉ host)
    (hfit : rs ≠ [] → ReplyFits localHostName host) :
    (replyMessages localHostName host rs).find? request.filter.holds =
      (rs.find? fun r => decide (r.page = request.page)).map
        fun r => decoded (replyContent localHostName host r) := by
  cases rs with
  | nil => rfl
  | cons r rs =>
    rw [replyMessages, List.find?_map, holds_decoded hl hh (hfit (List.cons_ne_nil r rs))]

theorem waitForLockReply_none (hl : 0 ∉ localHostName) (hh : 0 ∉ host)
    (hfit : rs ≠ [] → ReplyFits localHostName host)
    (hcb : replyInfor h = some ⟨none, replyMessages localHostName host rs⟩)
    (hf : rs.find? (fun r => decide (r.page = request.page)) = none) :
    waitForLockReply h request.filter = .ok (.sleeps, h) := by
  obtain ⟨m, hm⟩ := EventMessageHandle.readMessageFilter_none
    (m := ({} : EventMessage).prepareRecive (.mem (remoteLockGroupName ++ [0]))
      (.mem (remoteLockReplyMessType ++ [0]))) rfl
    (str_mem groupName_cstr _) (str_mem replyMessType_cstr _) hcb (filter_replyMessages hl hh hfit)
    (by rw [find?_replyMessages hl hh hfit, hf]; rfl)
  simp only [waitForLockReply, hm, ok_bind]
  rfl

theorem waitForLockReply_some (hl : 0 ∉ localHostName) (hh : 0 ∉ host)
    (hfit : ReplyFits localHostName host)
    (hcb : replyInfor h = some ⟨none, replyMessages localHostName host rs⟩) {r : PageLockReply}
    (hf : rs.find? (fun r => decide (r.page = request.page)) = some r) :
    ∃ h', waitForLockReply h request.filter = .ok (.replied r, h') ∧
      h'.localHostName = h.localHostName ∧ replyInfor h' = some ⟨none,
        replyMessages localHostName host (rs.eraseP fun r => decide (r.page = request.page))⟩ := by
  have hlt := hfit r
  obtain ⟨m, h', hm, hcontent, hl', hcb'⟩ := EventMessageHandle.readMessageFilter_some
    (m := ({} : EventMessage).prepareRecive
      (.mem (remoteLockGroupName ++ [0])) (.mem (remoteLockReplyMessType ++ [0])))
    (c := replyContent localHostName host r) rfl
    (str_mem groupName_cstr _) (str_mem replyMessType_cstr _) hcb
    (filter_replyMessages hl hh fun _ => hfit)
    (by rw [find?_replyMessages hl hh fun _ => hfit, hf]; rfl)
    (replyContent_valid hl hh r) (by omega)
  obtain ⟨-, -, -, -, hp, -⟩ := content_eq_ok hcontent
  obtain ⟨rest, hrest⟩ := target_of_bytes_eq_ok hp
  have hr : PageLockReply.ofBytes ((replyContent localHostName host r).message ++ rest) = .ok r :=
    PageLockReply.ofBytes_toBytes r rest
  refine ⟨h', ?_, hl', ?_⟩
  · simp only [waitForLockReply, hm, ok_bind, hrest, hr]
    rw [if_neg (by decide)]
    rfl
  · rw [replyInfor]
    refine hcb'.trans ?_
    simp only [replyMessages, List.eraseP_map, holds_decoded hl hh hfit]

end

end

end Lock
