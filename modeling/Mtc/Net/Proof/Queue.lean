import Mtc.Net.Proof.Send

/-!
# Queues

What sending, receiving and reading do to the entries of the message types
(`EventMessageHandle.callbackInfor`). `sendMessage_keeps`: sending leaves them alone.
`dispatch_decoded_queued`: a message received for a type without a callback goes to the end of its
queue. `readMessageFilter_some`: a read with a filter takes the first message the filter accepts.
-/

namespace Net

open Except (ok_bind bind_eq_ok)
open EventMessage (Content)

namespace EventMessageHandle

variable {h : EventMessageHandle} {g t : Bytes} {group : GroupInfor} {cb : CallbackInfor}

/-! ## Entries -/

theorem callbackInfor_eq_some : h.callbackInfor g t = some cb ↔
    ∃ group, h.messGroupMap.findKey g = some group ∧ group.messCallbackMap.findKey t = some cb := by
  simp only [callbackInfor, Option.bind_eq_bind, Option.bind_eq_some_iff]

/-- Nothing is seen of a change of a group that keeps its message types. -/
theorem callbackInfor_putGroup {group' : GroupInfor} (hg : h.messGroupMap.findKey g = some group)
    (hcb : group'.messCallbackMap = group.messCallbackMap) (g' t : Bytes) :
    (h.putGroup g group').callbackInfor g' t = h.callbackInfor g' t := by
  simp only [callbackInfor, putGroup, AssocMap.findKey_put]
  split_ifs with hgg
  · subst hgg
    rw [hg]
    simp only [Option.map_some, Option.bind_eq_bind, Option.bind_some, hcb]
  · rfl

theorem callbackInfor_putCallback (hg : h.messGroupMap.findKey g = some group)
    (ht : group.messCallbackMap.findKey t = some cb) (cb' : CallbackInfor) :
    (h.putCallback g group t cb').callbackInfor g t = some cb' := by
  rw [callbackInfor_eq_some]
  exact ⟨_, AssocMap.findKey_put_self hg _, AssocMap.findKey_put_self ht _⟩

theorem checkMessType_eq {m : EventMessage} (hg : m.groupName.str m.bufferStr = .ok g)
    (ht : m.messType.str m.bufferStr = .ok t) (hcb : h.callbackInfor g t = some cb) :
    ∃ group, h.messGroupMap.findKey g = some group ∧ group.messCallbackMap.findKey t = some cb ∧
      h.checkMessType m = .ok (.found g t group cb) := by
  obtain ⟨group, hgroup, hcb⟩ := callbackInfor_eq_some.1 hcb
  exact ⟨group, hgroup, hcb, checkMessType_found hg ht hgroup hcb⟩

theorem registerReciveHandler_eq_ok {groupName messType : CharPtr} {f : Nat}
    {h' : EventMessageHandle} (hg : groupName.str [] = .ok g) (ht : messType.str [] = .ok t)
    (hr : h.registerReciveHandler groupName messType f = .ok (true, h')) :
    ∃ cb, h'.callbackInfor g t = some cb ∧ cb.cbFunction = some f := by
  unfold registerReciveHandler at hr
  rcases checkMessType_cases h (m := { groupName, messType }) hg ht with
    ⟨e, hck⟩ | ⟨group, cb, hgroup, hcb, hck⟩
  · rw [hck, ok_bind] at hr
    cases hr
  · rw [hck, ok_bind] at hr
    cases hr
    exact ⟨_, callbackInfor_putCallback hgroup hcb _, rfl⟩

/-! ## Sending -/

theorem getPort_keeps (host g : Bytes) :
    (h.getPort host g).2.localHostName = h.localHostName ∧
      ∀ g' t, (h.getPort host g).2.callbackInfor g' t = h.callbackInfor g' t := by
  cases hg : h.messGroupMap.findKey g with
  | none =>
    have he : h.getPort host g = (0, h) := by rw [getPort, hg]
    rw [he]
    exact ⟨rfl, fun _ _ => rfl⟩
  | some group =>
    rcases getPort_eq host hg with ⟨port, -, he⟩ | he
    · rw [he]
      exact ⟨rfl, fun _ _ => rfl⟩
    · rw [he]
      exact ⟨rfl, callbackInfor_putGroup hg rfl⟩

/-- Sending leaves the name of the host and the entries of the message types alone, and a message
that is sent is encoded. -/
theorem sendMessage_keeps {m m' : EventMessage} {c : Content} {v : Int32}
    {h' : EventMessageHandle} {connects : Bool} (hc : m.outgoing h.localHostName = .ok c)
    (hs : h.sendMessage m connects = .ok (v, m', h')) :
    (v = -1 ∨ v = 1 ∧ Framed m'.bufferStr c ∧ m'.reciveHostName = m.reciveHostName) ∧
      h'.localHostName = h.localHostName ∧
      ∀ g t, h'.callbackInfor g t = h.callbackInfor g t := by
  rcases sendMessage_cases hc connects with ⟨e, h'', hsend, rfl | rfl⟩ | ⟨group, ip, port, hp⟩
  · cases hsend.symm.trans hs
    exact ⟨Or.inl rfl, rfl, fun _ _ => rfl⟩
  · cases hsend.symm.trans hs
    exact ⟨Or.inl rfl, getPort_keeps c.reciveHostName c.groupName⟩
  · rw [sendMessage_passes hc hp] at hs
    obtain ⟨m'', hm, hs⟩ := bind_eq_ok.1 hs
    obtain ⟨⟨id, lib⟩, -, hs⟩ := bind_eq_ok.1 hs
    obtain ⟨⟨b, lib'⟩, -, hs⟩ := bind_eq_ok.1 hs
    cases hs
    obtain ⟨hlen, hrecive⟩ := length_initBufferStr hc hm
    have hframed : Framed m'.bufferStr c := by
      refine ⟨hlen, fun hlt => ?_⟩
      cases (initBufferStr_eq hc (by omega)).symm.trans hm
      rfl
    exact ⟨Or.inr ⟨rfl, hframed, hrecive⟩, rfl, callbackInfor_putGroup hp.findGroup rfl⟩

/-! ## Receiving -/

theorem dispatch_decoded_callback {c : Content} (hv : c.Valid) (hlt : c.size < 2 ^ 32)
    (hcb : h.callbackInfor c.groupName c.messType = some cb) {f : Nat}
    (hf : cb.cbFunction = some f) : h.dispatch (decoded c) = .ok (.callback f) := by
  obtain ⟨hg, ht, -⟩ := content_eq_ok (content_decoded hv hlt)
  obtain ⟨group, -, -, hck⟩ := checkMessType_eq hg ht hcb
  exact dispatch_callback hck hf

theorem dispatch_decoded_queued {c : Content} (hv : c.Valid) (hlt : c.size < 2 ^ 32)
    (hcb : h.callbackInfor c.groupName c.messType = some cb) (hf : cb.cbFunction = none) :
    ∃ h', h.dispatch (decoded c) = .ok (.queued h') ∧ h'.localHostName = h.localHostName ∧
      h'.callbackInfor c.groupName c.messType =
        some { cb with unprocessedMessList := cb.unprocessedMessList ++ [decoded c] } := by
  obtain ⟨hg, ht, -⟩ := content_eq_ok (content_decoded hv hlt)
  obtain ⟨group, hgroup, hcb, hck⟩ := checkMessType_eq hg ht hcb
  exact ⟨_, dispatch_queued hck hf (copy_decoded hlt {}), rfl,
    callbackInfor_putCallback hgroup hcb _⟩

/-! ## Reading -/

/-- On messages that it can read, a filter is a predicate. -/
theorem takeFirst_eq {filter : EventMessage → Except Fault Bool} {p : EventMessage → Bool} :
    ∀ {ms : List EventMessage}, (∀ m ∈ ms, filter m = .ok (p m)) →
    takeFirst filter ms = .ok ((ms.find? p).map fun m => (m, ms.eraseP p))
  | [], _ => rfl
  | m :: ms, hp => by
    have ih := takeFirst_eq fun m' hm => hp m' (List.mem_cons_of_mem m hm)
    rw [takeFirst, hp m (List.mem_cons_self ..), ok_bind]
    cases hm : p m with
    | true =>
      rw [if_pos rfl, List.find?_cons_of_pos hm, List.eraseP_cons_of_pos hm]
      rfl
    | false =>
      have hm' : ¬ p m = true := by rw [hm]; decide
      rw [if_neg (by decide), List.find?_cons_of_neg hm', List.eraseP_cons_of_neg hm', ih, ok_bind]
      cases ms.find? p with
      | none => rfl
      | some m' => rfl

section
variable {m : EventMessage} {filter : EventMessage → Except Fault Bool} {p : EventMessage → Bool}

/-- A read with a filter that accepts no message. -/
theorem readMessageFilter_none (hw : m.willRecive = true)
    (hg : m.groupName.str m.bufferStr = .ok g) (ht : m.messType.str m.bufferStr = .ok t)
    (hcb : h.callbackInfor g t = some cb)
    (hp : ∀ x ∈ cb.unprocessedMessList, filter x = .ok (p x))
    (hfind : cb.unprocessedMessList.find? p = none) :
    ∃ m', h.readMessageFilter m filter = .ok (0, m', h) := by
  obtain ⟨group, -, -, hck⟩ := checkMessType_eq hg ht hcb
  simp only [readMessageFilter, hw, hck, ok_bind, takeFirst_eq hp, hfind]
  cases cb.unprocessedMessList.isEmpty with
  | true => exact ⟨_, rfl⟩
  | false => exact ⟨_, rfl⟩

/-- A read with a filter takes the first message that it accepts. -/
theorem readMessageFilter_some {c : Content} (hw : m.willRecive = true)
    (hg : m.groupName.str m.bufferStr = .ok g) (ht : m.messType.str m.bufferStr = .ok c.messType)
    (hcb : h.callbackInfor g c.messType = some cb)
    (hp : ∀ x ∈ cb.unprocessedMessList, filter x = .ok (p x))
    (hfind : cb.unprocessedMessList.find? p = some (decoded c)) (hv : c.Valid)
    (hlt : c.size < 2 ^ 32) :
    ∃ m' h', h.readMessageFilter m filter = .ok (1, m', h') ∧ m'.content = .ok c ∧
      h'.localHostName = h.localHostName ∧ h'.callbackInfor g c.messType =
        some { cb with unprocessedMessList := cb.unprocessedMessList.eraseP p } := by
  obtain ⟨group, hgroup, hcb, hck⟩ := checkMessType_eq hg ht hcb
  have hcontent := content_decoded hv hlt
  have hne : cb.unprocessedMessList.isEmpty = false := by
    cases hl : cb.unprocessedMessList with
    | nil => rw [hl] at hfind; cases hfind
    | cons x xs => rfl
  have htype : (decoded c).messType.str (decoded c).bufferStr = .ok c.messType :=
    (content_eq_ok hcontent).2.1
  refine ⟨{ decoded c with
      errorNo := m.errorNo, willSend := m.willSend, willRecive := m.willRecive },
    h.putCallback g group c.messType
      { cb with unprocessedMessList := cb.unprocessedMessList.eraseP p },
    ?_, hcontent, rfl, callbackInfor_putCallback hgroup hcb _⟩
  simp only [readMessageFilter, hw, hck, ok_bind, takeFirst_eq hp, hfind, hne, Option.map_some,
    copy_decoded hlt, htype, ne_eq, not_true_eq_false, if_false]
  rfl

end

end EventMessageHandle

end Net
