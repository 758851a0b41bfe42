import Mathlib.Data.List.Nodup
import Mathlib.Data.List.Perm.Basic
import Mathlib.Logic.Function.Basic
import Mathlib.Logic.Relation

/-!
# Calls answered through mailboxes

Clients at many addresses call one server. A request carries a key, the reply repeats it, and
nothing else tells replies apart: a call takes the first letter of its address's mailbox with its
key. Messages arrive in any order, each once. An address has at most one call waiting for a key.

Then every message belongs to the one call that waits for it (`Inv`, kept by every step:
`Inv.step`), and no call accepts the reply of another one (`Inv.accepts_iff`).

Messages carry the number of their call for the history only: no step looks at it.
-/

/-- A server whose replies repeat the key of the request. -/
structure Service (σ Addr Req Rep Key : Type*) where
  answer : σ → Addr → Req → σ × Rep
  key : Req → Key
  tag : Rep → Key
  tag_answer : ∀ s addr req, tag (answer s addr req).2 = key req

namespace Service

/-- A message of a call, with the address of its client. -/
structure Letter (Addr β : Type*) where
  call : Nat
  addr : Addr
  body : β
  deriving Repr, DecidableEq

/-- Where a call is. -/
inductive Call (Addr Req Rep : Type*) where
  | waiting (addr : Addr) (req : Req)
  | returned (addr : Addr) (req : Req) (rep : Rep)
  | failed
  deriving Repr, DecidableEq

/-- The server, the messages in flight, the mailboxes (one list, in order of arrival) and the
calls. `handled` and `taken` are history: the requests with the server's replies, and for every
reply taken from a mailbox the call that took it and the one it was for. -/
structure State (σ Addr Req Rep : Type*) where
  server : σ
  requests : List (Letter Addr Req) := []
  replies : List (Letter Addr Rep) := []
  boxes : List (Letter Addr Rep) := []
  calls : Nat → Option (Call Addr Req Rep) := fun _ => none
  handled : List (Letter Addr (Req × Rep)) := []
  taken : List (Nat × Nat) := []

section
variable {σ Addr Req Rep Key : Type*} (S : Service σ Addr Req Rep Key)

/-! ## Steps -/

/-- A call sends its request. -/
def State.start (s : State σ Addr Req Rep) (call : Nat) (addr : Addr) (req : Req) :
    State σ Addr Req Rep :=
  { s with
    calls := Function.update s.calls call (some (.waiting addr req))
    requests := s.requests ++ [⟨call, addr, req⟩] }

/-- A call ends before it has sent its request. -/
def State.fail (s : State σ Addr Req Rep) (call : Nat) : State σ Addr Req Rep :=
  { s with calls := Function.update s.calls call (some .failed) }

/-- The server handles the request `m`; `rest` stay in flight. -/
def handle (s : State σ Addr Req Rep) (m : Letter Addr Req) (rest : List (Letter Addr Req)) :
    State σ Addr Req Rep :=
  let (server, rep) := S.answer s.server m.addr m.body
  { s with
    server := server
    requests := rest
    replies := s.replies ++ [⟨m.call, m.addr, rep⟩]
    handled := s.handled ++ [⟨m.call, m.addr, m.body, rep⟩] }

/-- The reply `m` reaches its mailbox; `rest` stay in flight. -/
def State.deliver (s : State σ Addr Req Rep) (m : Letter Addr Rep)
    (rest : List (Letter Addr Rep)) : State σ Addr Req Rep :=
  { s with replies := rest, boxes := s.boxes ++ [m] }

section
variable [DecidableEq Addr] [DecidableEq Key]

/-- A letter that a call at `addr` for the key of `req` takes. -/
def accepts (addr : Addr) (req : Req) (m : Letter Addr Rep) : Bool :=
  m.addr = addr && S.tag m.body = S.key req

/-- A call takes the letter `m`, the first it accepts. -/
def take (s : State σ Addr Req Rep) (call : Nat) (addr : Addr) (req : Req)
    (m : Letter Addr Rep) : State σ Addr Req Rep :=
  { s with
    calls := Function.update s.calls call (some (.returned addr req m.body))
    boxes := s.boxes.eraseP (S.accepts addr req)
    taken := s.taken ++ [(call, m.call)] }

/-- A step of a client, the network or the server. -/
inductive Step : State σ Addr Req Rep → State σ Addr Req Rep → Prop
  | start {s call addr req} (hnew : s.calls call = none)
      (hone : ∀ c r, s.calls c = some (.waiting addr r) → S.key r ≠ S.key req) :
      Step s (s.start call addr req)
  | fail {s call} (hnew : s.calls call = none) : Step s (s.fail call)
  | handle {s m as bs} (hm : s.requests = as ++ m :: bs) : Step s (S.handle s m (as ++ bs))
  | deliver {s m as bs} (hm : s.replies = as ++ m :: bs) : Step s (s.deliver m (as ++ bs))
  | take {s call addr req m} (hc : s.calls call = some (.waiting addr req))
      (hm : s.boxes.find? (S.accepts addr req) = some m) : Step s (S.take s call addr req m)

end

/-- The numbers of the calls that have a message in flight or in a mailbox. -/
def State.numbers (s : State σ Addr Req Rep) : List Nat :=
  s.requests.map (·.call) ++ s.replies.map (·.call) ++ s.boxes.map (·.call)

/-! ## The invariant -/

/-- Every message belongs to the one call waiting for it. -/
structure Inv (s : State σ Addr Req Rep) : Prop where
  /-- A request in flight is that of a waiting call. -/
  asked : ∀ m ∈ s.requests, s.calls m.call = some (.waiting m.addr m.body)
  unanswered : ∀ m ∈ s.requests, ∀ e ∈ s.handled, e.call ≠ m.call
  /-- A reply is the server's reply to the request of a call that waits for it. -/
  owed : ∀ m ∈ s.replies ++ s.boxes, ∃ req, s.calls m.call = some (.waiting m.addr req) ∧
    ⟨m.call, m.addr, req, m.body⟩ ∈ s.handled
  once : s.numbers.Nodup
  one : ∀ {c c' addr r r'}, s.calls c = some (.waiting addr r) →
    s.calls c' = some (.waiting addr r') → S.key r = S.key r' → c = c'
  returned : ∀ {c addr req rep}, s.calls c = some (.returned addr req rep) →
    ⟨c, addr, req, rep⟩ ∈ s.handled
  known : ∀ e ∈ s.handled, s.calls e.call ≠ none
  handledOnce : (s.handled.map (·.call)).Nodup
  tags : ∀ e ∈ s.handled, S.tag e.body.2 = S.key e.body.1
  taken : ∀ x ∈ s.taken, x.1 = x.2

section
variable {β : Type*} {f : Nat → Option β} {k c : Nat} {x y : β}

theorem update_eq_some (h : Function.update f k (some x) c = some y) :
    c = k ∧ x = y ∨ c ≠ k ∧ f c = some y := by
  by_cases hc : c = k
  · rw [hc, Function.update_self] at h
    exact Or.inl ⟨hc, Option.some_inj.1 h⟩
  · rw [Function.update_of_ne hc] at h
    exact Or.inr ⟨hc, h⟩

theorem update_of_new (hk : f k = none) (hc : f c = some y) :
    Function.update f k (some x) c = some y := by
  rw [Function.update_of_ne, hc]
  rintro rfl
  rw [hk] at hc
  cases hc

theorem update_ne_none (hc : f c ≠ none) : Function.update f k (some x) c ≠ none := by
  by_cases he : c = k
  · rw [he, Function.update_self]
    exact nofun
  · rwa [Function.update_of_ne he]

end

variable {S} {s : State σ Addr Req Rep} {call : Nat} {addr : Addr} {req : Req}

theorem inv_init (server : σ) : S.Inv { server : State σ Addr Req Rep } := by
  constructor <;> simp [State.numbers]

theorem mem_numbers {c : Nat} : c ∈ s.numbers ↔
    (∃ m ∈ s.requests, m.call = c) ∨ ∃ m ∈ s.replies ++ s.boxes, m.call = c := by
  simp only [State.numbers, ← List.map_append, List.append_assoc, List.mem_append, List.mem_map]

/-- A call that has a message has been started. -/
theorem Inv.mem_calls (h : S.Inv s) {c : Nat} (hc : c ∈ s.numbers) : s.calls c ≠ none := by
  rcases mem_numbers.1 hc with ⟨m, hm, rfl⟩ | ⟨m, hm, rfl⟩
  · simp [h.asked m hm]
  · obtain ⟨req, hreq, -⟩ := h.owed m hm
    simp [hreq]

/-- A call that does not wait takes nobody's key. -/
theorem Inv.one_update (h : S.Inv s) {x : Call Addr Req Rep} (hx : ∀ a r, x ≠ .waiting a r)
    {c c' : Nat} {a : Addr} {r r' : Req}
    (hc : Function.update s.calls call (some x) c = some (.waiting a r))
    (hc' : Function.update s.calls call (some x) c' = some (.waiting a r'))
    (hk : S.key r = S.key r') : c = c' := by
  rcases update_eq_some hc with ⟨-, he⟩ | ⟨-, hc⟩
  · exact absurd he (hx a r)
  rcases update_eq_some hc' with ⟨-, he⟩ | ⟨-, hc'⟩
  · exact absurd he (hx a r')
  exact h.one hc hc' hk

/-- A new call that does not wait. -/
theorem Inv.fail (h : S.Inv s) (hnew : s.calls call = none) :
    S.Inv (s.fail call) := by
  refine ⟨fun m hm => update_of_new hnew (h.asked m hm), h.unanswered, ?_, h.once,
    h.one_update (fun _ _ hx => by cases hx), ?_, fun e he => update_ne_none (h.known e he),
    h.handledOnce, h.tags, h.taken⟩
  · intro m hm
    obtain ⟨req, hreq, he⟩ := h.owed m hm
    exact ⟨req, update_of_new hnew hreq, he⟩
  · intro c addr req rep hc
    rcases update_eq_some hc with ⟨-, hx⟩ | ⟨-, hc⟩
    · cases hx
    exact h.returned hc

/-- A new call for a key that nobody at its address waits for. -/
theorem Inv.start (h : S.Inv s) (hnew : s.calls call = none)
    (hone : ∀ c r, s.calls c = some (.waiting addr r) → S.key r ≠ S.key req) :
    S.Inv (s.start call addr req) := by
  refine ⟨?_, ?_, ?_, ?_, ?_, ?_, fun e he => update_ne_none (h.known e he), h.handledOnce,
    h.tags, h.taken⟩
  · intro m hm
    rcases List.mem_append.1 hm with hm | hm
    · exact update_of_new hnew (h.asked m hm)
    · obtain rfl := List.mem_singleton.1 hm
      exact Function.update_self ..
  · intro m hm e he
    rcases List.mem_append.1 hm with hm | hm
    · exact h.unanswered m hm e he
    · obtain rfl := List.mem_singleton.1 hm
      intro hc
      exact h.known e he (hc ▸ hnew)
  · intro m hm
    obtain ⟨req', hreq, he⟩ := h.owed m hm
    exact ⟨req', update_of_new hnew hreq, he⟩
  · -- the new number is not that of an old message
    have hp : (call :: s.numbers).Nodup := List.nodup_cons.2 ⟨fun hc => h.mem_calls hc hnew, h.once⟩
    refine (List.perm_iff_count.2 fun c => ?_).nodup_iff.1 hp
    simp only [State.numbers, State.start, List.map_append, List.map_cons, List.map_nil,
      List.count_append, List.count_cons, List.count_nil]
    omega
  · intro c c' a r r' hc hc' hk
    rcases update_eq_some hc with ⟨rfl, hx⟩ | ⟨-, hc⟩
    · cases hx
      rcases update_eq_some hc' with ⟨rfl, -⟩ | ⟨-, hc'⟩
      · rfl
      · exact absurd hk.symm (hone c' r' hc')
    · rcases update_eq_some hc' with ⟨rfl, hx⟩ | ⟨-, hc'⟩
      · cases hx
        exact absurd hk (hone c r ‹_›)
      · exact h.one ‹_› hc' hk
  · intro c a r rep hc
    rcases update_eq_some hc with ⟨-, hx⟩ | ⟨-, hc⟩
    · cases hx
    · exact h.returned hc

/-- The server handles a request. -/
theorem Inv.handle (h : S.Inv s) {m : Letter Addr Req} {as bs : List (Letter Addr Req)}
    (hm : s.requests = as ++ m :: bs) :
    S.Inv (S.handle s m (as ++ bs)) := by
  have hmem : m ∈ s.requests := by rw [hm]; simp
  have hsub : ∀ m', m' ∈ as ++ bs → m' ∈ s.requests := by
    rw [hm]
    simp only [List.mem_append, List.mem_cons]
    tauto
  -- the number of the request has moved to the reply
  have hperm : (m.call :: ((as ++ bs).map (·.call) ++ s.replies.map (·.call) ++
      s.boxes.map (·.call))).Perm s.numbers := by
    rw [List.perm_iff_count]
    intro c
    simp only [State.numbers, hm, List.map_append, List.map_cons, List.count_append,
      List.count_cons]
    omega
  have hnew := hperm.nodup_iff.2 h.once
  refine ⟨fun m' hm' => h.asked m' (hsub m' hm'), ?_, ?_, ?_, h.one, ?_, ?_, ?_, ?_, h.taken⟩
  · intro m' hm' e he
    rcases List.mem_append.1 he with he | he
    · exact h.unanswered m' (hsub m' hm') e he
    · obtain rfl := List.mem_singleton.1 he
      rintro hc
      refine (List.nodup_cons.1 hnew).1 ?_
      rw [show m.call = m'.call from hc]
      exact List.mem_append_left _ (List.mem_append_left _ (List.mem_map_of_mem hm'))
  · intro m' hm'
    simp only [Service.handle, List.mem_append, List.mem_singleton, or_assoc] at hm'
    rcases hm' with hm' | rfl | hm'
    · obtain ⟨req, hreq, he⟩ := h.owed m' (List.mem_append_left _ hm')
      exact ⟨req, hreq, List.mem_append_left _ he⟩
    · exact ⟨m.body, h.asked m hmem, List.mem_append_right _ (List.mem_singleton.2 rfl)⟩
    · obtain ⟨req, hreq, he⟩ := h.owed m' (List.mem_append_right _ hm')
      exact ⟨req, hreq, List.mem_append_left _ he⟩
  · refine (List.perm_iff_count.2 fun c => ?_).nodup_iff.1 hnew
    simp only [State.numbers, Service.handle, List.map_append, List.map_cons, List.map_nil,
      List.count_append, List.count_cons, List.count_nil]
    omega
  · intro c addr req rep hc
    exact List.mem_append_left _ (h.returned hc)
  · intro e he
    rcases List.mem_append.1 he with he | he
    · exact h.known e he
    · obtain rfl := List.mem_singleton.1 he
      exact (h.asked m hmem).symm ▸ nofun
  · simp only [Service.handle, List.map_append, List.nodup_append]
    refine ⟨h.handledOnce, List.nodup_singleton _, ?_⟩
    intro c hc c' hc' hcc
    obtain ⟨e, he, rfl⟩ := List.mem_map.1 hc
    obtain rfl := List.mem_singleton.1 hc'
    exact h.unanswered m hmem e he hcc
  · intro e he
    rcases List.mem_append.1 he with he | he
    · exact h.tags e he
    · obtain rfl := List.mem_singleton.1 he
      exact S.tag_answer ..

/-- A reply reaches its mailbox. -/
theorem Inv.deliver (h : S.Inv s) {m : Letter Addr Rep} {as bs : List (Letter Addr Rep)}
    (hm : s.replies = as ++ m :: bs) :
    S.Inv (s.deliver m (as ++ bs)) := by
  refine ⟨h.asked, h.unanswered, ?_, ?_, h.one, h.returned, h.known, h.handledOnce, h.tags,
    h.taken⟩
  · intro m' hm'
    refine h.owed m' ?_
    rw [hm]
    simp only [State.deliver, List.mem_append, List.mem_cons, List.not_mem_nil, or_false] at hm' ⊢
    tauto
  · refine (List.perm_iff_count.2 fun c => ?_).nodup_iff.1 h.once
    simp only [State.numbers, State.deliver, hm, List.map_append, List.map_cons, List.map_nil,
      List.count_append, List.count_cons, List.count_nil]
    omega

/-! ## Taking a reply -/

variable [DecidableEq Addr] [DecidableEq Key]

/-- **A call accepts its own reply only.** -/
theorem Inv.accepts_iff (h : S.Inv s) (hc : s.calls call = some (.waiting addr req))
    {m : Letter Addr Rep} (hm : m ∈ s.replies ++ s.boxes) :
    S.accepts addr req m = true ↔ m.call = call := by
  obtain ⟨req', hreq, he⟩ := h.owed m hm
  have htag : S.tag m.body = S.key req' := h.tags _ he
  rw [accepts, Bool.and_eq_true, decide_eq_true_eq, decide_eq_true_eq]
  constructor
  · intro hacc
    obtain ⟨rfl, hk⟩ := hacc
    exact h.one hreq hc (htag.symm.trans hk)
  · intro hcall
    subst hcall
    cases hreq.symm.trans hc
    exact ⟨rfl, htag⟩

/-- A call takes the first letter it accepts. -/
theorem Inv.take (h : S.Inv s) (hc : s.calls call = some (.waiting addr req))
    {m : Letter Addr Rep} (hm : s.boxes.find? (S.accepts addr req) = some m) :
    S.Inv (S.take s call addr req m) := by
  obtain ⟨hacc, as, bs, hboxes, has⟩ := List.find?_eq_some_iff_append.1 hm
  have hmem : m ∈ s.replies ++ s.boxes := by rw [hboxes]; simp
  have hown : m.call = call := (h.accepts_iff hc hmem).1 hacc
  have herase : s.boxes.eraseP (S.accepts addr req) = as ++ bs := by
    rw [hboxes, List.eraseP_append_right _ (by simpa using has), List.eraseP_cons_of_pos hacc]
  -- `m` is the only message of the call
  have hperm : (call :: (s.requests.map (·.call) ++ s.replies.map (·.call) ++
      (as ++ bs).map (·.call))).Perm s.numbers := by
    rw [List.perm_iff_count]
    intro c
    simp only [State.numbers, hboxes, ← hown, List.map_append, List.map_cons, List.count_append,
      List.count_cons]
    omega
  obtain ⟨hnot, honce⟩ := List.nodup_cons.1 (hperm.nodup_iff.2 h.once)
  simp only [List.mem_append, not_or, List.map_append] at hnot
  obtain ⟨req', hreq', he⟩ := h.owed m hmem
  rw [hown] at hreq' he
  cases hreq'.symm.trans hc
  rw [Service.take, herase]
  refine ⟨?_, h.unanswered, ?_, honce, h.one_update (fun _ _ hx => by cases hx), ?_, ?_,
    h.handledOnce, h.tags, ?_⟩
  · intro m' hm'
    have hne : m'.call ≠ call := fun he => hnot.1.1 (he ▸ List.mem_map_of_mem hm')
    exact (Function.update_of_ne hne ..).trans (h.asked m' hm')
  · intro m' hm'
    have hne : m'.call ≠ call := by
      rintro rfl
      simp only [List.mem_append] at hm'
      rcases hm' with hm' | hm' | hm'
      · exact hnot.1.2 (List.mem_map_of_mem hm')
      · exact hnot.2.1 (List.mem_map_of_mem hm')
      · exact hnot.2.2 (List.mem_map_of_mem hm')
    have hold : m' ∈ s.replies ++ s.boxes := by
      rw [hboxes]
      simp only [List.mem_append, List.mem_cons] at hm' ⊢
      tauto
    obtain ⟨r, hr, he'⟩ := h.owed m' hold
    exact ⟨r, (Function.update_of_ne hne ..).trans hr, he'⟩
  · intro c a r rep hr
    rcases update_eq_some hr with ⟨rfl, hx⟩ | ⟨-, hr⟩
    · cases hx
      exact he
    · exact h.returned hr
  · intro e hm'
    exact update_ne_none (h.known e hm')
  · intro x hx
    rcases List.mem_append.1 hx with hx | hx
    · exact h.taken x hx
    · obtain rfl := List.mem_singleton.1 hx
      exact hown.symm

/-- **Every step keeps the invariant.** -/
theorem Inv.step {t : State σ Addr Req Rep} (h : S.Inv s) (hs : S.Step s t) : S.Inv t := by
  cases hs with
  | start hnew hone => exact h.start hnew hone
  | fail hnew => exact h.fail hnew
  | handle hm => exact h.handle hm
  | deliver hm => exact h.deliver hm
  | take hc hm => exact h.take hc hm

/-! ## One mailbox -/

/-- The replies in the mailbox of an address. -/
def box (boxes : List (Letter Addr Rep)) (addr : Addr) : List Rep :=
  (boxes.filter (·.addr = addr)).map (·.body)

omit [DecidableEq Key] in
theorem box_snoc (boxes : List (Letter Addr Rep)) (m : Letter Addr Rep) (addr : Addr) :
    box (boxes ++ [m]) addr =
      if m.addr = addr then box boxes addr ++ [m.body] else box boxes addr := by
  split_ifs with h <;> simp [box, h]

/-- A call finds its reply by looking at its own mailbox. -/
theorem find?_box (boxes : List (Letter Addr Rep)) (addr : Addr) (req : Req) :
    (box boxes addr).find? (fun r => decide (S.tag r = S.key req)) =
      (boxes.find? (S.accepts addr req)).map (·.body) := by
  rw [box, List.find?_map, List.find?_filter]
  congr 2
  funext m
  simp [accepts]

theorem box_eraseP (boxes : List (Letter Addr Rep)) (addr : Addr) (req : Req) :
    box (boxes.eraseP (S.accepts addr req)) addr =
      (box boxes addr).eraseP (fun r => decide (S.tag r = S.key req)) := by
  rw [box, box, List.eraseP_map, List.eraseP_filter]
  congr 3
  funext m
  simp [accepts, Bool.and_comm]

theorem box_eraseP_ne {addr addr' : Addr} (hne : addr' ≠ addr) (req : Req) :
    ∀ boxes : List (Letter Addr Rep),
      box (boxes.eraseP (S.accepts addr req)) addr' = box boxes addr'
  | [] => rfl
  | m :: boxes => by
    by_cases hm : S.accepts addr req m = true
    · have haddr : m.addr = addr := by
        rw [accepts, Bool.and_eq_true] at hm
        exact of_decide_eq_true hm.1
      rw [List.eraseP_cons_of_pos hm, box, box, List.filter_cons_of_neg]
      simpa [haddr] using hne.symm
    · have ih := box_eraseP_ne hne req boxes
      unfold box at ih ⊢
      rw [List.eraseP_cons_of_neg hm, List.filter_cons, List.filter_cons]
      split_ifs
      · rw [List.map_cons, List.map_cons, ih]
      · exact ih

end

end Service
