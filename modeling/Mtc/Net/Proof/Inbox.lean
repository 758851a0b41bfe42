import Mtc.Net.Inbox
import Mtc.Net.Proof.Queue

/-!
# The queues of a host are queues

Every call on the queues of a handle does what `Queues.machine` does (`inboxStep_refines`), as long
as every queued message names the type of its queue (`Own`): a read erases from the queue of the
type of the message it has copied.
-/

namespace Net

open Except (ok_bind bind_eq_ok)
open EventMessage (Content)

/-! ## Queued messages -/

/-- A message in a queue of the type `t`: a copy has its pointers, and so names that type. -/
structure Waits (t : Bytes) (m : EventMessage) : Prop where
  messType : m.messType.str m.bufferStr = .ok t
  copy : ∀ m' : EventMessage, m'.copy m = .ok { m with
    errorNo := m'.errorNo, willSend := m'.willSend, willRecive := m'.willRecive }
  queued : EventMessage.copy {} m = .ok m

/-- A message whose names can be read was decoded from its buffer. -/
theorem waits_of_initMessagePtr {bufferStr : Bytes} {bufferSize : UInt32} {mess : EventMessage}
    {g t : Bytes} (hmess : { bufferStr, bufferSize : EventMessage }.initMessagePtr = .ok mess)
    (hg : mess.groupName.str mess.bufferStr = .ok g)
    (ht : mess.messType.str mess.bufferStr = .ok t) : Waits t mess := by
  have hqueued := hmess
  unfold EventMessage.initMessagePtr at hmess
  split_ifs at hmess with hsize
  · -- without a cursor the names are `NULL`
    cases hmess
    cases hg
  · obtain ⟨w₀, h₀, hmess⟩ := bind_eq_ok.1 hmess
    obtain ⟨w₁, h₁, hmess⟩ := bind_eq_ok.1 hmess
    obtain ⟨w₂, h₂, hmess⟩ := bind_eq_ok.1 hmess
    obtain ⟨w₃, h₃, hmess⟩ := bind_eq_ok.1 hmess
    obtain ⟨w₄, h₄, hmess⟩ := bind_eq_ok.1 hmess
    obtain ⟨w₅, h₅, hmess⟩ := bind_eq_ok.1 hmess
    cases hmess
    refine ⟨ht, fun m' => ?_, hqueued⟩
    dsimp only at hsize h₀ h₁ h₂ h₃ h₄ h₅
    simp only [EventMessage.copy, EventMessage.initMessagePtr, if_neg hsize, h₀, h₁, h₂, h₃, h₄,
      h₅, ok_bind]
    rfl

/-- Frames that `init_buffer_str` writes are deliveries of the message. -/
theorem InboxOp.means_deliver {m e : EventMessage} {c : Content} (hm : m.source = .ok c)
    (hlt : c.size < 2 ^ 32) (he : m.initBufferStr = .ok e) :
    InboxOp.Means (.deliver e.bufferStr e.bufferSize)
      (some ((c.groupName, c.messType), .deliver (decoded c))) := by
  cases (initBufferStr_source hm hlt).symm.trans he
  obtain ⟨hg, ht, -⟩ := content_eq_ok (content_decoded (valid_of_content hm) hlt)
  exact .deliver (initMessagePtr_encode hlt) hg ht

namespace EventMessageHandle

variable {h : EventMessageHandle} {g t : Bytes} {group : GroupInfor} {cb : CallbackInfor}

/-- Every queued message names the type of its queue. -/
def Own (h : EventMessageHandle) : Prop :=
  ∀ g t cb, h.callbackInfor g t = some cb → ∀ m ∈ cb.unprocessedMessList, Waits t m

/-! ## Entries -/

theorem callbackInfor_putCallback_eq (hg : h.messGroupMap.findKey g = some group)
    (ht : group.messCallbackMap.findKey t = some cb) (cb' : CallbackInfor) (g' t' : Bytes) :
    (h.putCallback g group t cb').callbackInfor g' t' =
      if g' = g ∧ t' = t then some cb' else h.callbackInfor g' t' := by
  by_cases hgg : g' = g
  · subst hgg
    simp only [callbackInfor, putCallback, putGroup, AssocMap.findKey_put_self hg, hg,
      Option.bind_eq_bind, Option.bind_some, true_and]
    split_ifs with htt
    · subst htt
      exact AssocMap.findKey_put_self ht cb'
    · rw [AssocMap.findKey_put, if_neg htt]
  · simp only [callbackInfor, putCallback, putGroup, AssocMap.findKey_put, hgg, false_and,
      if_false]

theorem inbox_eq_none (hcb : h.callbackInfor g t = none) : h.inbox (g, t) = none := by
  rw [inbox, hcb]
  rfl

theorem inbox_eq_some (hcb : h.callbackInfor g t = some cb) :
    h.inbox (g, t) = some ⟨cb.cbFunction, cb.unprocessedMessList⟩ := by
  rw [inbox, hcb]
  rfl

theorem inbox_putCallback (hg : h.messGroupMap.findKey g = some group)
    (ht : group.messCallbackMap.findKey t = some cb) (cb' : CallbackInfor) :
    (h.putCallback g group t cb').inbox =
      Function.update h.inbox (g, t) (some ⟨cb'.cbFunction, cb'.unprocessedMessList⟩) := by
  funext ⟨g', t'⟩
  simp only [inbox, callbackInfor_putCallback_eq hg ht, Function.update_apply, Prod.mk.injEq]
  split_ifs with hk
  · rfl
  · rfl

theorem Own.putCallback (hown : Own h) (hg : h.messGroupMap.findKey g = some group)
    (ht : group.messCallbackMap.findKey t = some cb) {cb' : CallbackInfor}
    (hcb : ∀ m ∈ cb'.unprocessedMessList, Waits t m) : Own (h.putCallback g group t cb') := by
  intro g' t' cb'' h' m hm
  rw [callbackInfor_putCallback_eq hg ht] at h'
  split_ifs at h' with hk
  · cases h'
    rw [hk.2]
    exact hcb m hm
  · exact hown g' t' cb'' h' m hm

theorem checkMessType_none {m : EventMessage} (hg : m.groupName.str m.bufferStr = .ok g)
    (ht : m.messType.str m.bufferStr = .ok t) (hcb : h.callbackInfor g t = none) :
    ∃ e, h.checkMessType m = .ok (.failed e) := by
  rcases checkMessType_cases h hg ht with hfailed | ⟨group, cb, hgroup, hfound, -⟩
  · exact hfailed
  · rw [callbackInfor_eq_some.2 ⟨group, hgroup, hfound⟩] at hcb
    cases hcb

/-! ## One call -/

/-- A call returns, and what it returns and leaves behind is the reply and the next state of the
queues. -/
def Answers (x : Except Fault (InboxAnswer × EventMessageHandle))
    (next : (Bytes × Bytes → Option (Queues.Entry EventMessage)) × Queues.Reply EventMessage) :
    Prop :=
  ∃ answer h', x = .ok (answer, h') ∧ answer.Means next.2 ∧ h'.inbox = next.1 ∧ Own h'

section
variable (s₀ : Bytes × Bytes → Option (Queues.Entry EventMessage)) (hown : Own h)
include hown

theorem deliver_refines {bufferStr : Bytes} {bufferSize : UInt32} {mess : EventMessage}
    (hmess : { bufferStr, bufferSize : EventMessage }.initMessagePtr = .ok mess)
    (hg : mess.groupName.str mess.bufferStr = .ok g)
    (ht : mess.messType.str mess.bufferStr = .ok t) :
    Answers (h.inboxStep (.deliver bufferStr bufferSize))
      ((Queues.machine s₀).step h.inbox (some ((g, t), .deliver mess))) := by
  have hwaits := waits_of_initMessagePtr hmess hg ht
  simp only [inboxStep, hmess, ok_bind]
  cases hcb : h.callbackInfor g t with
  | none =>
    obtain ⟨e, hck⟩ := checkMessType_none hg ht hcb
    rw [Queues.step_unknown (inbox_eq_none hcb)]
    simp only [dispatch, hck, ok_bind]
    exact ⟨_, _, rfl, .dropped, rfl, hown⟩
  | some cb =>
    obtain ⟨group, hgroup, htype, hck⟩ := checkMessType_eq hg ht hcb
    rw [Queues.step_known (inbox_eq_some hcb)]
    cases hf : cb.cbFunction with
    | some f =>
      rw [dispatch_callback hck hf, ok_bind]
      refine ⟨_, _, rfl, .called, (Function.update_eq_self_iff.2 ?_).symm, hown⟩
      rw [inbox_eq_some hcb, hf]
      rfl
    | none =>
      rw [dispatch_queued hck hf hwaits.queued, ok_bind]
      refine ⟨_, _, rfl, .queued, ?_, ?_⟩
      · rw [inbox_putCallback hgroup htype, hf]
        rfl
      · refine hown.putCallback hgroup htype fun m hm => ?_
        rcases List.mem_append.1 hm with hm | hm
        · exact hown g t cb hcb m hm
        · rw [List.mem_singleton.1 hm]
          exact hwaits

theorem register_refines {groupName messType : CharPtr} (hg : groupName.str [] = .ok g)
    (ht : messType.str [] = .ok t) (f : Nat) :
    Answers (h.inboxStep (.register groupName messType f))
      ((Queues.machine s₀).step h.inbox (some ((g, t), .register f))) := by
  simp only [inboxStep, registerReciveHandler]
  cases hcb : h.callbackInfor g t with
  | none =>
    obtain ⟨e, hck⟩ := checkMessType_none (m := { groupName, messType }) hg ht hcb
    rw [Queues.step_unknown (inbox_eq_none hcb), hck]
    exact ⟨_, _, rfl, .unregistered, rfl, hown⟩
  | some cb =>
    obtain ⟨group, hgroup, htype, hck⟩ :=
      checkMessType_eq (m := { groupName, messType }) hg ht hcb
    rw [Queues.step_known (inbox_eq_some hcb), hck]
    exact ⟨_, _, rfl, .registered, inbox_putCallback hgroup htype _,
      hown.putCallback hgroup htype (hown g t cb hcb)⟩

theorem readFilter_refines {m : EventMessage} (hw : m.willRecive = true)
    (hg : m.groupName.str m.bufferStr = .ok g) (ht : m.messType.str m.bufferStr = .ok t)
    (filter : EventMessage → Bool) :
    Answers (h.inboxStep (.readFilter m filter))
      ((Queues.machine s₀).step h.inbox (some ((g, t), .take filter))) := by
  simp only [inboxStep]
  cases hcb : h.callbackInfor g t with
  | none =>
    obtain ⟨e, hck⟩ := checkMessType_none hg ht hcb
    rw [Queues.step_unknown (inbox_eq_none hcb)]
    simp only [readMessageFilter, hw, hck, ok_bind]
    exact ⟨_, _, rfl, .refused, rfl, hown⟩
  | some cb =>
    rw [Queues.step_known (inbox_eq_some hcb)]
    have hp : ∀ x ∈ cb.unprocessedMessList, (Except.ok (filter x) : Except Fault Bool) =
      .ok (filter x) := fun _ _ => rfl
    cases hfind : cb.unprocessedMessList.find? filter with
    | none =>
      obtain ⟨m', hread⟩ := readMessageFilter_none hw hg ht hcb hp hfind
      rw [hread, ok_bind]
      simp only [Queues.Entry.act, hfind]
      exact ⟨_, _, rfl, .nothing,
        (Function.update_eq_self_iff.2 (inbox_eq_some hcb).symm).symm, hown⟩
    | some src =>
      obtain ⟨group, hgroup, htype, hck⟩ := checkMessType_eq hg ht hcb
      have hwaits := hown g t cb hcb src (List.mem_of_find?_eq_some hfind)
      have hne : cb.unprocessedMessList.isEmpty = false := by
        cases hl : cb.unprocessedMessList with
        | nil => rw [hl] at hfind; cases hfind
        | cons x xs => rfl
      simp only [readMessageFilter, hw, hck, ok_bind, takeFirst_eq hp, hfind, hne, Option.map_some,
        hwaits.copy, hwaits.messType, ne_eq, not_true_eq_false, if_false, Queues.Entry.act]
      refine ⟨_, _, rfl, .took rfl, inbox_putCallback hgroup htype _, ?_⟩
      exact hown.putCallback hgroup htype fun x hx => hown g t cb hcb x (List.mem_of_mem_eraseP hx)

/-- A read without a filter is a read with one that accepts every message. -/
theorem readMessage_eq {m : EventMessage} (hw : m.willRecive = true)
    (hg : m.groupName.str m.bufferStr = .ok g) (ht : m.messType.str m.bufferStr = .ok t) :
    h.readMessage m = h.readMessageFilter m fun _ => .ok true := by
  cases hcb : h.callbackInfor g t with
  | none =>
    obtain ⟨e, hck⟩ := checkMessType_none hg ht hcb
    simp only [readMessage, readMessageFilter, hw, hck, ok_bind]
  | some cb =>
    obtain ⟨group, hgroup, htype, hck⟩ := checkMessType_eq hg ht hcb
    cases hl : cb.unprocessedMessList with
    | nil => simp [readMessage, readMessageFilter, hw, hck, ok_bind, hl]
    | cons src rest =>
      have hwaits := hown g t cb hcb src (by rw [hl]; exact List.mem_cons_self ..)
      simp [readMessage, readMessageFilter, hw, hck, ok_bind, hl, takeFirst, hwaits.copy,
        hwaits.messType, htype, orFault]

/-- **Every call on the queues of a handle is the request it stands for.** -/
theorem inboxStep_refines {op : InboxOp}
    {req : Option ((Bytes × Bytes) × Queues.Action EventMessage)} (hop : op.Means req) :
    Answers (h.inboxStep op) ((Queues.machine s₀).step h.inbox req) := by
  cases hop with
  | deliver hmess hg ht => exact deliver_refines s₀ hown hmess hg ht
  | register hg ht => exact register_refines s₀ hown hg ht _
  | read hw hg ht =>
    rw [inboxStep, readMessage_eq hown hw hg ht]
    exact readFilter_refines s₀ hown hw hg ht fun _ => true
  | readFilter hw hg ht => exact readFilter_refines s₀ hown hw hg ht _
  | unprepared hw =>
    simp only [inboxStep, readMessage, hw]
    exact ⟨_, _, rfl, .refused, rfl, hown⟩
  | unpreparedFilter hw =>
    simp only [inboxStep, readMessageFilter, hw]
    exact ⟨_, _, rfl, .refused, rfl, hown⟩

end

/-! ## Runs -/

theorem inboxRun_refines (s₀ : Bytes × Bytes → Option (Queues.Entry EventMessage))
    {ops : List InboxOp} {reqs : List (Option ((Bytes × Bytes) × Queues.Action EventMessage))}
    (hops : List.Forall₂ InboxOp.Means ops reqs) :
    ∀ {h : EventMessageHandle}, Own h → ∃ answers h', h.inboxRun ops = .ok (answers, h') ∧
      List.Forall₂ InboxAnswer.Means answers
        (((Queues.machine s₀).traceFrom h.inbox reqs).map (·.2)) ∧
      h'.inbox = (Queues.machine s₀).execFrom h.inbox reqs := by
  induction hops with
  | nil => exact fun _ => ⟨_, _, rfl, .nil, rfl⟩
  | cons hop _ ih =>
    intro h hown
    obtain ⟨answer, h₁, hstep, hmeans, hinbox, hown₁⟩ := inboxStep_refines s₀ hown hop
    obtain ⟨answers, h', hrun, hall, hexec⟩ := ih hown₁
    rw [hinbox] at hall hexec
    refine ⟨answer :: answers, h', ?_, .cons hmeans hall, hexec⟩
    simp only [inboxRun, hstep, ok_bind, hrun]
    rfl

theorem getUnprocessedMessageCount_eq {groupName messType : CharPtr}
    (hg : groupName.str [] = .ok g) (ht : messType.str [] = .ok t) :
    h.getUnprocessedMessageCount groupName messType =
      .ok (UInt32.ofNat (Queues.queue h.inbox (g, t)).length) := by
  unfold getUnprocessedMessageCount
  cases hcb : h.callbackInfor g t with
  | none =>
    obtain ⟨e, hck⟩ := checkMessType_none (m := { groupName, messType }) hg ht hcb
    rw [hck, ok_bind, Queues.queue, inbox_eq_none hcb]
    rfl
  | some cb =>
    obtain ⟨group, -, -, hck⟩ := checkMessType_eq (m := { groupName, messType }) hg ht hcb
    rw [hck, ok_bind, Queues.queue_eq (inbox_eq_some hcb)]
    rfl

theorem own_of_empty (hempty : ∀ k, Queues.queue h.inbox k = []) : Own h := by
  intro g t cb hcb m hm
  have hnil := hempty (g, t)
  rw [Queues.queue_eq (inbox_eq_some hcb)] at hnil
  dsimp only at hnil
  rw [hnil] at hm
  cases hm

/-- **The queues of a host lose and double nothing**: from empty queues, whatever is configured and
registered, every sequence of calls returns what `Queues.machine` replies to the requests they stand
for and leaves the queues it does; and the count of a queue is, as a `uint32_t`, the number of
messages appended to it less the number of those read. -/
theorem inbox_exact (hempty : ∀ k, Queues.queue h.inbox k = []) {ops : List InboxOp}
    {reqs : List (Option ((Bytes × Bytes) × Queues.Action EventMessage))}
    (hops : List.Forall₂ InboxOp.Means ops reqs) :
    let M := Queues.machine h.inbox
    ∃ answers h', h.inboxRun ops = .ok (answers, h') ∧
      List.Forall₂ InboxAnswer.Means answers ((M.trace reqs).map (·.2)) ∧
      h'.inbox = M.exec reqs ∧
      (∀ k, Queues.Ledger k (M.trace reqs) (Queues.queue h'.inbox k)) ∧
      ∀ groupName messType : CharPtr, ∀ g t, groupName.str [] = .ok g → messType.str [] = .ok t →
        h'.getUnprocessedMessageCount groupName messType = .ok (UInt32.ofNat
          (((M.trace reqs).filterMap (Queues.appended (g, t))).length -
            ((M.trace reqs).filterMap (Queues.removed (g, t))).length)) := by
  intro M
  obtain ⟨answers, h', hrun, hanswers, hinbox⟩ :=
    inboxRun_refines h.inbox hops (own_of_empty hempty)
  have hledger : ∀ k, Queues.Ledger k (M.trace reqs) (Queues.queue h'.inbox k) := fun k => by
    rw [hinbox]
    exact Queues.ledger hempty reqs k
  refine ⟨answers, h', hrun, hanswers, hinbox, hledger, fun groupName messType g t hg ht => ?_⟩
  rw [getUnprocessedMessageCount_eq hg ht, (hledger (g, t)).length_eq]

/-- A host with one group that has the message types `t` and `u`. -/
def twoQueues : EventMessageHandle where
  localHostName := [97]
  messGroupMap := (∅ : AssocMap Bytes GroupInfor).assign [103]
    { messCallbackMap :=
        ((∅ : AssocMap Bytes CallbackInfor).assign [116] {}).assign [117] {} }

theorem twoQueues_empty (k : Bytes × Bytes) : Queues.queue twoQueues.inbox k = [] := by
  obtain ⟨g, t⟩ := k
  simp only [Queues.queue, inbox, callbackInfor, twoQueues, AssocMap.findKey_assign]
  by_cases hg : g = [103]
  · by_cases hu : t = [117]
    · simp [hg, hu, AssocMap.findKey_assign]
    · by_cases ht : t = [116]
      · simp [hg, ht, AssocMap.findKey_assign]
      · simp [hg, hu, ht, AssocMap.findKey_assign]
  · simp [hg]

/-- A message of the type `t`, with a payload. -/
def messageOf (t payload : Bytes) : Content :=
  ⟨[103], t, [98], [97], payload, UInt32.ofNat payload.length⟩

/-- What the sender prepares for it. -/
def preparedOf (t payload : Bytes) : EventMessage where
  groupName := .mem [103, 0]
  messType := .mem (t ++ [0])
  sendHostName := .mem [98, 0]
  reciveHostName := .mem [97, 0]
  message := .mem payload
  messageSize := UInt32.ofNat payload.length

/-- The frame of the message. -/
def deliverOf (t payload : Bytes) : InboxOp :=
  .deliver (messageOf t payload).encode (UInt32.ofNat (messageOf t payload).size)

theorem deliverOf_means {t payload : Bytes}
    (hm : (preparedOf t payload).source = .ok (messageOf t payload))
    (hlt : (messageOf t payload).size < 2 ^ 32) : InboxOp.Means (deliverOf t payload)
      (some (([103], t), .deliver (decoded (messageOf t payload)))) :=
  InboxOp.means_deliver hm hlt (initBufferStr_source hm hlt)

theorem deliveries_means (n : Nat) : List.Forall₂ InboxOp.Means
    (List.replicate n (deliverOf [116] []))
    (List.replicate n (some (([103], [116]), .deliver (decoded (messageOf [116] []))))) := by
  induction n with
  | zero => exact .nil
  | succ n ih =>
    rw [List.replicate_succ, List.replicate_succ]
    exact .cons (deliverOf_means (by decide) (by decide)) ih

/-- A read of the type `t`. -/
def readOf (t : Bytes) : EventMessage where
  groupName := .mem [103, 0]
  messType := .mem (t ++ [0])
  willRecive := true

/-- Two messages go to the queue of `t` and one to that of `u`; with a handler registered, the next
one for `u` is handled. The second message of `t` is read first, by its size, and then the first
one, which leaves the message of `u`. -/
theorem inbox_exact_two :
    let first := messageOf [116] []
    let second := messageOf [116] [8]
    let other := messageOf [117] [9]
    let ops : List InboxOp := [deliverOf [116] [], deliverOf [116] [8], deliverOf [117] [9],
      .register (.mem [103, 0]) (.mem [117, 0]) 7, deliverOf [117] [9],
      .readFilter (readOf [116]) fun m => m.messageSize = 1, .read (readOf [116])]
    let reqs : List (Option ((Bytes × Bytes) × Queues.Action EventMessage)) := [
      some (([103], [116]), .deliver (decoded first)),
      some (([103], [116]), .deliver (decoded second)),
      some (([103], [117]), .deliver (decoded other)),
      some (([103], [117]), .register 7),
      some (([103], [117]), .deliver (decoded other)),
      some (([103], [116]), .take fun m => m.messageSize = 1),
      some (([103], [116]), .take fun _ => true)]
    List.Forall₂ InboxOp.Means ops reqs ∧
    ∃ answers h', twoQueues.inboxRun ops = .ok (answers, h') ∧
      List.Forall₂ InboxAnswer.Means answers [.queued, .queued, .queued, .registered,
        .handled 7 (decoded other), .took (decoded second), .took (decoded first)] ∧
      Queues.queue h'.inbox ([103], [116]) = [] ∧
      Queues.queue h'.inbox ([103], [117]) = [decoded other] ∧
      h'.getUnprocessedMessageCount (.mem [103, 0]) (.mem [116, 0]) = .ok 0 ∧
      h'.getUnprocessedMessageCount (.mem [103, 0]) (.mem [117, 0]) = .ok 1 := by
  intro first second other ops reqs
  have hops : List.Forall₂ InboxOp.Means ops reqs := by
    refine .cons (deliverOf_means ?_ ?_) (.cons (deliverOf_means ?_ ?_) (.cons
      (deliverOf_means ?_ ?_) (.cons (.register ?_ ?_) (.cons (deliverOf_means ?_ ?_) (.cons
        (.readFilter rfl ?_ ?_) (.cons (.read rfl ?_ ?_) .nil)))))) <;> decide
  obtain ⟨answers, h', hrun, hanswers, hinbox, hledger, hcount⟩ := inbox_exact twoQueues_empty hops
  have hfirst : Queues.queue h'.inbox ([103], [116]) = [] := by
    rw [hinbox]
    rfl
  have hother : Queues.queue h'.inbox ([103], [117]) = [decoded other] := by
    rw [hinbox]
    rfl
  refine ⟨hops, answers, h', hrun, hanswers, hfirst, hother, ?_, ?_⟩
  · rw [hcount _ _ [103] [116] (by decide) (by decide), ← (hledger _).length_eq, hfirst]
    rfl
  · rw [hcount _ _ [103] [117] (by decide) (by decide), ← (hledger _).length_eq, hother]
    rfl

/-- As many deliveries as there are `uint32_t`s, and the count is `0` again. -/
theorem not_count_exact : ¬ ∀ (h : EventMessageHandle) (ops : List InboxOp)
    (reqs : List (Option ((Bytes × Bytes) × Queues.Action EventMessage)))
    (answers : List InboxAnswer)
    (h' : EventMessageHandle) (groupName messType : CharPtr) (g t : Bytes) (n : UInt32),
    (∀ k, Queues.queue h.inbox k = []) → List.Forall₂ InboxOp.Means ops reqs →
    h.inboxRun ops = .ok (answers, h') → groupName.str [] = .ok g → messType.str [] = .ok t →
    h'.getUnprocessedMessageCount groupName messType = .ok n →
    n.toNat =
      (((Queues.machine h.inbox).trace reqs).filterMap (Queues.appended (g, t))).length -
        (((Queues.machine h.inbox).trace reqs).filterMap (Queues.removed (g, t))).length := by
  intro hcount
  obtain ⟨n, hn⟩ : ∃ n : Nat, n = 2 ^ 32 := ⟨_, rfl⟩
  have hops := deliveries_means n
  obtain ⟨answers, h', hrun, -, hinbox⟩ :=
    inboxRun_refines twoQueues.inbox hops (own_of_empty twoQueues_empty)
  have hexec : h'.inbox = (Queues.machine twoQueues.inbox).exec _ := hinbox
  have hlen : (Queues.queue h'.inbox ([103], [116])).length = n := by
    rw [hinbox, Queues.queue_replicate _ (q := []) (by rfl), List.nil_append,
      List.length_replicate]
  have hledger := Queues.ledger twoQueues_empty
    (List.replicate n (some (([103], [116]), .deliver (decoded (messageOf [116] [])))))
    ([103], [116])
  have hg : (CharPtr.mem [103, 0]).str [] = .ok [103] := by decide
  have ht : (CharPtr.mem [116, 0]).str [] = .ok [116] := by decide
  have hwrong := hcount twoQueues _ _ answers h' _ _ [103] [116] _ twoQueues_empty hops hrun hg ht
    (getUnprocessedMessageCount_eq hg ht)
  rw [← hledger.length_eq, ← hexec, hlen, UInt32.toNat_ofNat', hn] at hwrong
  exact absurd hwrong (by decide)

end EventMessageHandle

end Net
