import Mtc.Lib.Removal
import Mtc.Lock.Proof.Client
import Mtc.Lock.Server
import Mtc.Net.Proof.SendResult

/-!
# The lock server and any request

On the values of `PageLockType` the server is the manager of `Mtc.Lock.Manager`
(`checkLockRequest_words`). Any other value is stored as it comes, and is an index outside the
matrix for a later request. `serves_iff`: the server stays up exactly as long as every request is
`Servable` in the table it finds; for requests that are `Proper` that is always so.
-/

namespace Lock.Server

open Except (ok_bind bind_eq_ok)
open Net
open Net.EventMessage (Content)

/-! ## Records -/

section
variable {t : LockTable} {fold : UInt64} {r : PageLockT} {asker : Bytes} {request : PageLockRequest}

theorem writeFound_eq_self_iff (g : PageLockT → PageLockT) (h : hashFindInt t fold = some r) :
    writeFound t fold g = t ↔ g r = r := by
  unfold writeFound hashFindInt findRecord at *
  induction t with
  | nil => cases h
  | cons x t ih =>
    rw [List.find?_cons] at h
    rw [writeRecord]
    cases hx : hashKey x.mFold == hashKey fold with
    | true =>
      simp only [hx, Option.some.injEq] at h
      subst h
      simp
    | false =>
      simp only [hx] at h
      simp [ih h]

theorem updateUnlock_eq_self_iff :
    updateUnlockPageLockT asker r = r ↔
      r.lockType = unlock ∧ asker ∉ r.lockHolder ∧ (r.lockHolder ≠ [] ∨ r.waitList = []) := by
  obtain ⟨mFold, spaceId, pageNo, versionNo, lockType, lockHolder, waitList⟩ := r
  simp only [updateUnlockPageLockT, PageLockOf.unlocked]
  by_cases hempty : (lockHolder.filter (· ≠ asker)).isEmpty = true
  · rw [if_pos hempty]
    cases waitList with
    | nil =>
      simp only [PageLockOf.mk.injEq, List.filter_ne_eq_self]
      tauto
    | cons iter rest =>
      -- the first waiter is taken off the list
      refine iff_of_false (fun h => ?_) (fun h => ?_)
      · have hlen := congrArg (·.waitList.length) h
        simp at hlen
      · rw [List.filter_ne_eq_self.2 h.2.1, List.isEmpty_iff] at hempty
        simp [hempty] at h
  · rw [if_neg hempty]
    simp only [PageLockOf.mk.injEq, List.filter_ne_eq_self]
    constructor
    · rintro ⟨-, -, -, -, hu, hmem, -⟩
      refine ⟨hu.symm, hmem, Or.inl fun hnil => ?_⟩
      simp [hnil] at hempty
    · rintro ⟨hu, hmem, -⟩
      exact ⟨trivial, trivial, trivial, trivial, hu.symm, hmem, trivial⟩

theorem updateSuccess_ne : updateSuccessPageLockT asker request r ≠ r := by
  intro h
  have hlen := congrArg (·.lockHolder.length) h
  simp [updateSuccessPageLockT, PageLockOf.granted] at hlen

theorem updateFail_eq_self_iff :
    updateFailPageLockT asker request r = r ↔
      ∀ w ∈ r.waitList, w.name = asker → request.lockType ≤ w.type := by
  obtain ⟨mFold, spaceId, pageNo, versionNo, lockType, lockHolder, waitList⟩ := r
  have hid : ∀ iter : WaitInfor, (if iter.name = asker ∧
      iter.type.toNat < request.lockType.toNat then { iter with type := request.lockType }
        else iter) = id iter ↔
        (iter.name = asker → request.lockType ≤ iter.type) := by
    intro iter
    split_ifs with h
    · refine iff_of_false (fun he => ?_) fun hle => absurd h.2 (UInt32.not_lt.2 (hle h.1))
      have ht := congrArg (·.type) he
      exact absurd h.2 (by simp [show request.lockType = iter.type from ht])
    · exact iff_of_true rfl fun hn => UInt32.not_lt.1 fun hlt => h ⟨hn, hlt⟩
  simp only [updateFailPageLockT, PageLockOf.refused, PageLockOf.mk.injEq, true_and]
  nth_rewrite 2 [← List.map_id waitList]
  rw [List.map_inj_left]
  exact forall₂_congr fun iter _ => hid iter

end

/-! ## `check_lock_request` -/

theorem compatible_eq (req st : UInt32) :
    compatible req st = if req.toNat < 2 ∧ st.toNat < 2 then .ok (decide (req = 0 ∧ st = 0))
      else .error .outOfBounds := by
  have hzero : ∀ x : UInt32, x = 0 ↔ x.toNat = 0 := fun x => by
    rw [← UInt32.toNat_inj]
    rfl
  simp only [compatible, hzero]
  generalize req.toNat = i
  generalize st.toNat = j
  match i, j with
  | 0, 0 | 0, 1 | 1, 0 | 1, 1 => rfl
  | 0, j + 2 | 1, j + 2 => rfl
  | i + 2, j =>
    rw [if_neg (by omega)]
    rfl

section
variable {t : LockTable} {r : PageLockT} {asker : Bytes} {request : PageLockRequest}

theorem checkLockRequest_none
    (h : hashFindInt t (calFold request.spaceId request.pageNo) = none) :
    checkLockRequest t asker request =
      .ok (insertPageLockT asker request :: t, 0, request.reply .lockSuccess) := by
  simp only [checkLockRequest, h]
  rfl

/-- `check_lock_request` when there is a record. -/
theorem checkLockRequest_some
    (h : hashFindInt t (calFold request.spaceId request.pageNo) = some r) :
    checkLockRequest t asker request =
      if request.lockType = unlock then
        .ok (writeFound t (calFold request.spaceId request.pageNo) (updateUnlockPageLockT asker), 2,
          request.reply .unlockSuccess)
      else if r.lockType = unlock ∨ request.lockType = 0 ∧ r.lockType = 0 then
        .ok (writeFound t (calFold request.spaceId request.pageNo)
          (updateSuccessPageLockT asker request), 1, request.reply .lockSuccess)
      else if request.lockType.toNat < 2 ∧ r.lockType.toNat < 2 then
        .ok (writeFound t (calFold request.spaceId request.pageNo)
          (updateFailPageLockT asker request), -1, request.reply .lockFail)
      else .error .outOfBounds := by
  simp only [checkLockRequest, h]
  by_cases hu : request.lockType = unlock
  · rw [if_pos hu, if_pos hu]
    rfl
  rw [if_neg hu, if_neg hu]
  by_cases hr : r.lockType = unlock
  · rw [if_pos hr, if_pos (Or.inl hr)]
    rfl
  rw [if_neg hr, compatible_eq]
  by_cases h0 : request.lockType = 0 ∧ r.lockType = 0
  · rw [if_pos (Or.inr h0), if_pos (by simp [h0])]
    simp [h0, ok_bind]
    rfl
  rw [if_neg (not_or.2 ⟨hr, h0⟩)]
  split_ifs
  · simp only [ok_bind, h0, decide_false]
    rfl
  · rfl

theorem checkLockRequest_ok_iff :
    (∃ x, checkLockRequest t asker request = .ok x) ↔ InMatrix t request := by
  unfold InMatrix
  cases hf : hashFindInt t (calFold request.spaceId request.pageNo) with
  | none => exact iff_of_true ⟨_, checkLockRequest_none hf⟩ trivial
  | some r =>
    rw [checkLockRequest_some hf]
    split_ifs with hu hr hm
    · exact iff_of_true ⟨_, rfl⟩ (Or.inl hu)
    · refine iff_of_true ⟨_, rfl⟩ (Or.inr ?_)
      rcases hr with hr | ⟨h0, h0'⟩
      · exact Or.inl hr
      · exact Or.inr (by rw [h0, h0']; decide)
    · exact iff_of_true ⟨_, rfl⟩ (Or.inr (Or.inr hm))
    · refine iff_of_false (fun ⟨_, h⟩ => by cases h) ?_
      rintro (h | h | h)
      · exact hu h
      · exact hr (Or.inl h)
      · exact hm h

/-- The request leaves the table as it was exactly if it has no effect. -/
theorem noEffect_iff {x : LockTable × Int × PageLockReply}
    (h : checkLockRequest t asker request = .ok x) : x.1 = t ↔ NoEffect t asker request := by
  unfold NoEffect
  cases hf : hashFindInt t (calFold request.spaceId request.pageNo) with
  | none =>
    rw [checkLockRequest_none hf] at h
    cases h
    exact iff_of_false (List.cons_ne_self _ _) not_false
  | some r =>
    rw [checkLockRequest_some hf] at h
    split_ifs at h with hu hr hm
    · cases h
      simp only [if_pos hu, writeFound_eq_self_iff _ hf, updateUnlock_eq_self_iff]
    · cases h
      simp only [if_neg hu, writeFound_eq_self_iff _ hf]
      refine iff_of_false updateSuccess_ne ?_
      rintro ⟨hnu, h0, -⟩
      exact hr.elim hnu h0
    · cases h
      obtain ⟨hnu, h0⟩ := not_or.1 hr
      simp only [if_neg hu, writeFound_eq_self_iff _ hf, updateFail_eq_self_iff, hnu, h0,
        ne_eq, not_false_eq_true, true_and]

end

/-! ## The callback -/

theorem wordAt_eq (bs : Bytes) (i : Nat) :
    wordAt bs i = if 4 * i + 4 ≤ bs.length then .ok ((Bytes.getLe32 (bs.drop (4 * i))).getD 0)
      else .error .outOfBounds := by
  have hlen : (bs.drop (4 * i)).length = bs.length - 4 * i := List.length_drop
  unfold wordAt
  split_ifs with h
  · obtain ⟨x, r, hx⟩ := Bytes.exists_le32 (bs.drop (4 * i)) (by omega)
    rw [hx, Bytes.getLe32_le32]
    rfl
  · match hbs : bs.drop (4 * i) with
    | [] | [_] | [_, _] | [_, _, _] => rfl
    | _ :: _ :: _ :: _ :: _ =>
      rw [hbs] at hlen
      simp only [List.length_cons] at hlen
      omega

namespace Arrival

variable {t : LockTable} {a : Arrival}

theorem ofPayload_eq (a : Arrival) : PageLockRequest.ofPayload a.content.message =
    if 20 ≤ a.content.message.length then .ok a.request else .error .outOfBounds := by
  rw [PageLockRequest.ofPayload, wordAt_eq _ 0, wordAt_eq _ 1, wordAt_eq _ 4]
  by_cases h : 20 ≤ a.content.message.length
  · rw [if_pos (by omega), if_pos (by omega), if_pos (by omega), if_pos h]
    rfl
  · -- the last field is not there, whether or not the others are
    rw [if_neg h, if_neg (show ¬ 4 * 4 + 4 ≤ a.content.message.length from h)]
    split_ifs <;> rfl

/-- The callback in terms of the message's content. -/
theorem callback_eq (a : Arrival) (t : LockTable) :
    a.callback t = PageLockRequest.ofPayload a.content.message >>= fun request =>
      checkLockRequest t a.asker request >>= fun x =>
        a.messHandle.sendMessage (replyMsg (decoded a.content) x.2.2) a.connects >>= fun y =>
          if y.1 < 0 then .error .abort else .ok (x.1, x.2.2, y.2.2) := by
  have hframe : EventMessage.ofFrame a.content.encode = .ok (decoded a.content) := by
    rw [EventMessage.ofFrame, length_encode, if_pos a.size]
    exact initMessagePtr_encode (Nat.lt_trans a.size (by decide))
  obtain ⟨-, -, hasker, -, hp, -⟩ := content_eq_ok
    (content_decoded a.valid (Nat.lt_trans a.size (by decide)))
  simp only [callback, hframe, ok_bind, lockRequestCallback, hasker, hp]
  rfl

theorem outgoing (a : Arrival) (reply : PageLockReply) :
    (replyMsg (decoded a.content) reply).outgoing a.messHandle.localHostName =
      .ok (a.replyContent reply) :=
  replyMsg_outgoing a.valid a.size a.groupName a.localHostName reply

theorem passes_iff {reply : PageLockReply} {group : GroupInfor} {ip : Bytes} {port : Int32} :
    Passes a.messHandle (replyMsg (decoded a.content) reply) (a.replyContent reply) group ip port ↔
      a.Known group ip port :=
  ⟨fun h => ⟨h.findGroup, h.findType, h.findIp, h.findPort, h.ne_zero⟩,
    fun h => ⟨rfl, h.findGroup, h.findType, h.findIp, h.findPort, h.ne_zero⟩⟩

/-- The replies to a message all have one size. -/
theorem answerable_iff (reply : PageLockReply) {group : GroupInfor} {ip : Bytes} {port : Int32} :
    a.Answerable group ip port ↔
      (a.replyContent reply).size < 2 ^ 31 ∧ group.handle.Reaches ip port a.connects :=
  ⟨fun h => ⟨h.1 reply, h.2⟩, fun h => ⟨fun _ => h.1, h.2⟩⟩

/-- What the sending of a reply comes to. -/
theorem sent_iff {reply : PageLockReply} {value : Int32} {m : EventMessage}
    {h' : EventMessageHandle} (hsent : a.messHandle.sendMessage
      (replyMsg (decoded a.content) reply) a.connects = .ok (value, m, h')) :
    value = 1 ∧ (∃ group ip port, a.Known group ip port ∧
        (FrameSent a.messHandle h' (a.replyContent reply) ↔ a.Answerable group ip port)) ∨
      value = -1 ∧ ∀ group ip port, ¬ a.Known group ip port := by
  cases hf : a.messHandle.failedCheck (replyMsg (decoded a.content) reply)
      (a.replyContent reply) with
  | none =>
    obtain ⟨group, ip, port, hp⟩ := passes_of_failedCheck hf
    obtain ⟨rfl, hiff⟩ := frameSent_iff_reaches (a.outgoing reply) hp hsent
    exact Or.inl ⟨rfl, group, ip, port, passes_iff.1 hp, hiff.trans (answerable_iff reply).symm⟩
  | some e =>
    cases (sendMessage_failed (a.outgoing reply) hf a.connects).symm.trans hsent
    refine Or.inr ⟨rfl, fun group ip port hk => ?_⟩
    have hp : Passes _ _ (a.replyContent reply) group ip port := passes_iff.2 hk
    cases hp.failedCheck.symm.trans hf

/-- **One request** is served exactly if it is `Servable`. -/
theorem serves_iff_servable : Serves t a ↔ Servable t a := by
  constructor
  · rintro ⟨t', reply, h', hcall, hsent⟩
    rw [callback_eq, ofPayload_eq] at hcall
    obtain ⟨request, hreq, hcall⟩ := bind_eq_ok.1 hcall
    split_ifs at hreq with hlen
    cases hreq
    obtain ⟨x, hx, hcall⟩ := bind_eq_ok.1 hcall
    obtain ⟨y, hy, hcall⟩ := bind_eq_ok.1 hcall
    split_ifs at hcall with hneg
    cases hcall
    refine ⟨hlen, checkLockRequest_ok_iff.1 ⟨x, hx⟩, ?_⟩
    rcases sent_iff hy with ⟨-, group, ip, port, hk, hiff⟩ | ⟨hv, -⟩
    · exact ⟨group, ip, port, hk, hsent.imp hiff.1 (noEffect_iff hx).1⟩
    · rw [hv] at hneg
      exact absurd (by decide) hneg
  · rintro ⟨hlen, hm, group, ip, port, hk, hans⟩
    obtain ⟨x, hx⟩ := checkLockRequest_ok_iff.2 hm
    obtain ⟨m', h', hsend⟩ :=
      sendMessage_ok a.ready (a.outgoing x.2.2) (passes_iff.2 hk) a.connects
    refine ⟨x.1, x.2.2, h', ?_, ?_⟩
    · rw [callback_eq, ofPayload_eq, if_pos hlen, ok_bind, hx, ok_bind, hsend, ok_bind]
      rfl
    · obtain ⟨-, hiff⟩ := frameSent_iff_reaches (a.outgoing x.2.2) (passes_iff.2 hk) hsend
      exact hans.imp (fun h => hiff.2 ((answerable_iff x.2.2).1 h)) (noEffect_iff hx).2

end Arrival

/-! ## The values of the enumeration -/

section
variable {t : Lock.LockTable} {fold : UInt64}

theorem hashFindInt_words :
    hashFindInt (t.map PageLockT.words) fold = (Lock.hashFindInt t fold).map PageLockT.words := by
  rw [hashFindInt, findRecord, List.find?_map]
  rfl

theorem writeFound_words {g : PageLockT → PageLockT} {g' : Lock.PageLockT → Lock.PageLockT}
    (hg : ∀ r, g r.words = (g' r).words) :
    writeFound (t.map PageLockT.words) fold g =
      (Lock.writeFound t fold g').map PageLockT.words := by
  unfold writeFound Lock.writeFound
  induction t with
  | nil => rfl
  | cons r t ih =>
    have hkey : hashKey r.words.mFold = hashKey r.mFold := rfl
    simp only [List.map_cons, writeRecord, hkey]
    split_ifs
    · rw [hg, List.map_cons]
    · rw [ih, List.map_cons]

theorem word_eq_unlock_iff (y : PageLockType) : y.word = unlock ↔ y = .unlock := by
  cases y <;> decide

theorem word_eq_wLock_iff (y : PageLockType) : y.word = wLock ↔ y = .wLock := by
  cases y <;> decide

theorem toNat_word (y : PageLockType) : y.word.toNat = y.val := by
  cases y <;> decide

theorem updateUnlock_words (asker : Bytes) (r : Lock.PageLockT) :
    updateUnlockPageLockT asker r.words = (Lock.updateUnlockPageLockT asker r).words := by
  obtain ⟨mFold, spaceId, pageNo, versionNo, lockType, lockHolder, waitList⟩ := r
  by_cases hempty : (lockHolder.filter (· ≠ asker)).isEmpty = true
  · refine (if_pos hempty).trans (Eq.trans ?_ (congrArg PageLockT.words (if_pos hempty).symm))
    cases waitList with
    | nil => rfl
    | cons iter rest => rfl
  · refine (if_neg hempty).trans (Eq.trans ?_ (congrArg PageLockT.words (if_neg hempty).symm))
    rfl

theorem updateSuccess_words (asker : Bytes) (request : Lock.PageLockRequest)
    (r : Lock.PageLockT) : updateSuccessPageLockT asker request.words r.words =
      (Lock.updateSuccessPageLockT asker request r).words := by
  simp only [updateSuccessPageLockT, Lock.updateSuccessPageLockT, PageLockOf.granted,
    PageLockT.words, PageLockRequest.words, word_eq_wLock_iff]

theorem updateFail_words (asker : Bytes) (request : Lock.PageLockRequest) (r : Lock.PageLockT) :
    updateFailPageLockT asker request.words r.words =
      (Lock.updateFailPageLockT asker request r).words := by
  simp only [updateFailPageLockT, Lock.updateFailPageLockT, PageLockOf.refused, PageLockT.words,
    List.map_map, PageLockOf.mk.injEq, true_and]
  refine List.map_congr_left fun iter _ => ?_
  simp only [Function.comp_apply, WaitInfor.words, PageLockRequest.words, toNat_word]
  split_ifs <;> rfl

theorem compatible_words {x y : PageLockType} (hx : x ≠ .unlock) (hy : y ≠ .unlock) :
    compatible x.word y.word = .ok (Lock.compatible x y) := by
  cases x <;> cases y <;> first | rfl | contradiction

/-- **On the values of the enumeration the server is the lock manager.** -/
theorem checkLockRequest_words (t : Lock.LockTable) (asker : Bytes)
    (request : Lock.PageLockRequest) :
    checkLockRequest (t.map PageLockT.words) asker request.words =
      .ok ((Lock.checkLockRequest t asker request).1.map PageLockT.words,
        (Lock.checkLockRequest t asker request).2) := by
  have hreply : ∀ y, request.words.reply y = request.reply y := fun _ => rfl
  have hfold : calFold request.words.spaceId request.words.pageNo =
    calFold request.spaceId request.pageNo := rfl
  have htype : request.words.lockType = request.lockType.word := rfl
  simp only [checkLockRequest, Lock.checkLockRequest, hfold, hashFindInt_words, hreply, htype]
  cases Lock.hashFindInt t (calFold request.spaceId request.pageNo) with
  | none => rfl
  | some r =>
    have hr : r.words.lockType = r.lockType.word := rfl
    simp only [Option.map_some, hr, word_eq_unlock_iff]
    by_cases hu : request.lockType = .unlock
    · rw [if_pos hu, if_pos hu, writeFound_words (updateUnlock_words asker)]
      rfl
    rw [if_neg hu, if_neg hu, writeFound_words (updateSuccess_words asker request),
      writeFound_words (updateFail_words asker request)]
    by_cases hl : r.lockType = .unlock
    · rw [if_pos hl, if_pos hl]
      rfl
    rw [if_neg hl, if_neg hl, compatible_words hu hl, ok_bind]
    split_ifs <;> rfl

end

/-- The types in the table are those of the enumeration. -/
def Typed (t : LockTable) : Prop := ∃ t₀ : Lock.LockTable, t = t₀.map PageLockT.words

theorem exists_words {request : PageLockRequest} (h : request.lockType ≤ unlock) :
    ∃ request₀ : Lock.PageLockRequest, request = request₀.words := by
  obtain ⟨spaceId, pageNo, lockType⟩ := request
  obtain ⟨y, rfl⟩ : ∃ y : PageLockType, lockType = y.word := by
    have hle : lockType.toNat ≤ 2 := UInt32.le_iff_toNat_le.1 h
    have hword : ∀ y : PageLockType, lockType.toNat = y.val → lockType = y.word := by
      intro y hy
      rw [← UInt32.toNat_inj, hy]
      cases y <;> rfl
    rcases (by omega : lockType.toNat = 0 ∨ lockType.toNat = 1 ∨ lockType.toNat = 2) with
      h0 | h1 | h2
    · exact ⟨.rLock, hword .rLock h0⟩
    · exact ⟨.wLock, hword .wLock h1⟩
    · exact ⟨.unlock, hword .unlock h2⟩
  exact ⟨⟨spaceId, pageNo, 0, y⟩, rfl⟩

section
variable {t t' : LockTable} {a : Arrival}

/-- A proper request is served, whatever proper requests came before it. -/
theorem Typed.servable (ht : Typed t) (ha : a.Proper) : Servable t a := by
  obtain ⟨t₀, rfl⟩ := ht
  obtain ⟨request, hreq⟩ := exists_words ha.lockType
  obtain ⟨group, ip, port, hk, hans⟩ := ha.known
  have hcheck := checkLockRequest_words t₀ a.asker request
  rw [← hreq] at hcheck
  exact ⟨ha.payload, checkLockRequest_ok_iff.1 ⟨_, hcheck⟩, group, ip, port, hk, Or.inl hans⟩

/-- **One proper request** leaves types of the enumeration only. -/
theorem Typed.next (ht : Typed t) (ha : a.Proper) (h : lockServer.next t a = some t') :
    Typed t' := by
  obtain ⟨t₀, rfl⟩ := ht
  obtain ⟨request, hreq⟩ := exists_words ha.lockType
  obtain ⟨x, hx, rfl⟩ := Option.map_eq_some_iff.1 h
  have hcall : a.callback (t₀.map PageLockT.words) = .ok x := by
    cases hc : a.callback (t₀.map PageLockT.words) with
    | error e => simp [hc, Except.toOption] at hx
    | ok y =>
      simp only [hc, Except.toOption, Option.some.injEq] at hx
      rw [hx]
  rw [Arrival.callback_eq, Arrival.ofPayload_eq, if_pos ha.payload, ok_bind, hreq,
    checkLockRequest_words, ok_bind] at hcall
  obtain ⟨y, -, hcall⟩ := bind_eq_ok.1 hcall
  split_ifs at hcall
  cases hcall
  exact ⟨_, rfl⟩

end

/-- **The lock server and any requests.** The server stays up along the requests exactly if each is
`Servable` in the table that it finds. If all of them are `Proper`, it does. -/
theorem serves_iff (as : List Arrival) :
    (lockServer.Meets Serves lockServer.init as ↔
      lockServer.Meets Servable lockServer.init as) ∧
      ((∀ a ∈ as, a.Proper) → lockServer.Meets Serves lockServer.init as) := by
  have hiff : lockServer.Meets Serves lockServer.init as ↔
      lockServer.Meets Servable lockServer.init as := by
    apply System.meets_congr (I := fun _ => True)
    · exact fun _ _ _ => Arrival.serves_iff_servable
    · exact fun _ _ _ _ _ _ => trivial
    · trivial
  refine ⟨hiff, fun has => hiff.2 ?_⟩
  have hserve : ∀ t a, Typed t → Arrival.Proper a → Servable t a := fun _ _ => Typed.servable
  have hkeep : ∀ t a t', Typed t → Arrival.Proper a → lockServer.next t a = some t' → Typed t' :=
    fun _ _ _ => Typed.next
  exact System.meets_of_forall hserve hkeep ⟨[], rfl⟩ has

/-- The handle of a server that knows the host `h`. -/
def serverOfHost : EventMessageHandle where
  localHostName := [115]
  hostConfigMap := ⟨[([104], [49])], by decide⟩
  messGroupMap := ⟨[(remoteLockGroupName, {
    hostPortMap := ⟨[([104], 1)], by decide⟩
    messCallbackMap := ⟨[(remoteLockReplyMessType, {})], by decide⟩ })], by decide⟩

theorem serverOfHost_ready : SendReady serverOfHost remoteLockGroupName := by
  intro group hg
  have hfind : serverOfHost.messGroupMap.findKey remoteLockGroupName = some {
    hostPortMap := ⟨[([104], 1)], by decide⟩
    messCallbackMap := ⟨[(remoteLockReplyMessType, {})], by decide⟩ } := rfl
  cases hfind.symm.trans hg
  exact ⟨rfl, fun id info h => by cases h⟩

/-- A message of a host with a one-letter name. -/
def arrivalOf (host : UInt8) (payload : Bytes) (connects : Bool) (hh : host ≠ 0)
    (hp : payload.length < 2 ^ 20) : Arrival where
  content := ⟨remoteLockGroupName, remoteLockRequestMessType, [host], [115], payload,
    UInt32.ofNat payload.length⟩
  valid := ⟨groupName_cstr, requestMessType_cstr, by simpa using hh.symm, by simp, by
    rw [UInt32.toNat_ofNat', Nat.mod_eq_of_lt (by omega)]⟩
  groupName := rfl
  messType := rfl
  size := by
    show 24 + (16 + 1) + (15 + 1) + (1 + 1) + (1 + 1) + payload.length < 2 ^ 31
    omega
  messHandle := serverOfHost
  ready := serverOfHost_ready
  localHostName := by decide
  connects := connects

/-- The host `h` asks for a page with a lock type. -/
def askOf (lockType : UInt32) (connects : Bool) : Arrival :=
  arrivalOf 104 (Bytes.words [1, 1, 0, 0, lockType]) connects (by decide) (by simp)

/-- The host asks for a read lock, a write lock and an unlock. -/
theorem serves_iff_host :
    lockServer.Meets Serves lockServer.init [askOf 0 true, askOf 1 true, askOf 2 true] := by
  refine (serves_iff _).2 fun a ha => ?_
  have hknown : ∀ lockType, ∃ group ip port, (askOf lockType true).Known group ip port ∧
      (askOf lockType true).Answerable group ip port := by
    intro lockType
    refine ⟨_, [49], 1, ⟨rfl, ⟨{}, rfl⟩, rfl, rfl, by decide⟩, fun reply => ?_, rfl, by decide⟩
    exact (by decide : 71 < 2 ^ 31)
  simp only [List.mem_cons, List.not_mem_nil, or_false] at ha
  rcases ha with rfl | rfl | rfl
  · exact ⟨by decide, by decide, hknown 0⟩
  · exact ⟨by decide, by decide, hknown 1⟩
  · exact ⟨by decide, by decide, hknown 2⟩

/-- The fault that a callback ends with. -/
def Arrival.fault (a : Arrival) (t : LockTable) : Option Fault :=
  match a.callback t with
  | .ok _ => none
  | .error e => some e

/-- The assert fails for a host that is not configured; a payload of 19 bytes is too short; the type
7 is stored, and a later read request of a configured host is outside the matrix; and a host that
cannot be reached has the lock but no reply. -/
theorem not_serves :
    (arrivalOf 120 (Bytes.words [1, 1, 0, 0, 0]) true (by decide) (by simp)).fault [] =
        some .abort ∧
      (arrivalOf 104 (Bytes.zeros 19) true (by decide) (by simp)).fault [] = some .outOfBounds ∧
      ((lockServer.run [askOf 7 true]).map fun t => (askOf 0 true).fault t) =
        some (some .outOfBounds) ∧
      (((askOf 0 false).callback []).toOption.map fun x => (x.1.length,
        (x.2.2.messGroupMap.findKey remoteLockGroupName).map (·.handle.bevMap.entries.length))) =
        some (1, some 0) := by
  refine ⟨by decide, by decide, by decide, by decide⟩

end Lock.Server
