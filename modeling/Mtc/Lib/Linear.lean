import Mtc.Lib.Machine
import Mtc.Lib.Mailbox
import Mtc.Lib.System

/-!
# Linearizability

The history of a system with calls is the list of their beginnings and returns, in the order of
time. `Machine.Linearizes M hist lin`: the calls of `lin`, one after the other, explain the history
by the sequential machine `M`. A linearization grows with the history by three rules
(`Linearizes.begins`, `Linearizes.commits`, `Linearizes.returns`).

Calls answered through mailboxes are linearized by the order in which the server handles them: the
steps with what the clients see of them are `Service.Emits`, and `Service.Linear` is kept by every
one (`Linear.emits`).
-/

/-- A call begins, or returns with a reply. -/
inductive CallEvent (α β : Type*) where
  | begins (call : Nat) (a : α)
  | returns (call : Nat) (a : α) (b : β)
  deriving Repr, DecidableEq

theorem List.pair_sublist_snoc {α : Type*} {l : List α} {x y z : α} :
    [x, y].Sublist (l ++ [z]) ↔ [x, y].Sublist l ∨ x ∈ l ∧ y = z := by
  constructor
  · intro h
    obtain ⟨l₁, l₂, he, h₁, h₂⟩ := List.sublist_append_iff.1 h
    rcases List.sublist_singleton.1 h₂ with rfl | rfl
    · rw [List.append_nil] at he
      exact Or.inl (he ▸ h₁)
    · have hsplit : [x] ++ [y] = l₁ ++ [z] := he
      obtain ⟨rfl, hz⟩ := List.append_inj' hsplit rfl
      exact Or.inr ⟨List.singleton_sublist.1 h₁, List.singleton_inj.1 hz⟩
  · rintro (h | ⟨hx, rfl⟩)
    · exact h.trans (List.sublist_append_left l [z])
    · exact List.Sublist.append (List.singleton_sublist.2 hx) (List.Sublist.refl [y])

namespace System

variable {σ α ε : Type*}

/-- The system with the history of the events of its steps. -/
def withHistory (S : System σ α) (events : σ → α → σ → List ε) : System (σ × List ε) α where
  init := (S.init, [])
  next s a := (S.next s.1 a).map fun s' => (s', s.2 ++ events s.1 a s')

variable {S : System σ α} {events : σ → α → σ → List ε}

theorem next_withHistory {s s' : σ × List ε} {a : α}
    (h : (S.withHistory events).next s a = some s') :
    S.next s.1 a = some s'.1 ∧ s'.2 = s.2 ++ events s.1 a s'.1 := by
  obtain ⟨t, ht, rfl⟩ := Option.map_eq_some_iff.1 h
  exact ⟨ht, rfl⟩

/-- Every run has a history. -/
theorem exists_runFrom_withHistory (events : σ → α → σ → List ε) :
    ∀ {as : List α} {s t : σ} (hist : List ε), S.runFrom s as = some t →
      ∃ hist', (S.withHistory events).runFrom (s, hist) as = some (t, hist')
  | [], s, t, hist, h => by
    cases h
    exact ⟨hist, rfl⟩
  | a :: as, s, t, hist, h => by
    obtain ⟨u, hu, h⟩ := runFrom_cons h
    obtain ⟨hist', h'⟩ := exists_runFrom_withHistory events (hist ++ events s a u) h
    refine ⟨hist', ?_⟩
    simp only [runFrom, withHistory, hu, Option.map_some, Option.bind_some]
    exact h'

/-- The history does not matter for a condition on the states. -/
theorem Meets.withHistory {C : σ → α → Prop} (events : σ → α → σ → List ε) :
    ∀ {as : List α} {s : σ} (hist : List ε), S.Meets C s as →
      (S.withHistory events).Meets (fun s a => C s.1 a) (s, hist) as
  | [], _, _, _ => trivial
  | a :: as, s, hist, h => by
    rw [Meets] at h ⊢
    refine ⟨h.1, ?_⟩
    cases hn : S.next s a with
    | none => simp only [System.withHistory, hn, Option.map_none]
    | some t =>
      rw [hn] at h
      simp only [System.withHistory, hn, Option.map_some]
      exact Meets.withHistory events _ h.2

end System

namespace Machine

variable {σ α β : Type*}

/-- The calls `lin`, each with its request and its reply, taken one after the other explain the
history. -/
structure Linearizes (M : Machine σ α β) (hist : List (CallEvent α β))
    (lin : List (Nat × α × β)) : Prop where
  /-- The replies are those of the machine to the requests in this order. -/
  sequential : lin.map Prod.snd = M.trace (lin.map (·.2.1))
  once : (lin.map Prod.fst).Nodup
  begun : ∀ x ∈ lin, .begins x.1 x.2.1 ∈ hist
  /-- A call that returned is in `lin`, with the reply it returned. -/
  returned : ∀ {n a b}, .returns n a b ∈ hist → (n, a, b) ∈ lin
  /-- A call that returned before another one began comes first. -/
  order : ∀ {m a b n a'}, [.returns m a b, .begins n a'].Sublist hist →
    n ∈ lin.map Prod.fst → [m, n].Sublist (lin.map Prod.fst)

variable {M : Machine σ α β} {hist : List (CallEvent α β)} {lin : List (Nat × α × β)} {n : Nat}
  {a : α} {b : β}

theorem linearizes_nil : M.Linearizes [] [] :=
  ⟨rfl, List.nodup_nil, by simp, by simp, by simp⟩

/-- A new call begins. -/
theorem Linearizes.begins (h : M.Linearizes hist lin) (hn : n ∉ lin.map Prod.fst) (a : α) :
    M.Linearizes (hist ++ [.begins n a]) lin := by
  refine ⟨h.sequential, h.once, fun x hx => List.mem_append_left _ (h.begun x hx), ?_, ?_⟩
  · intro m a' b hr
    rcases List.mem_append.1 hr with hr | hr
    · exact h.returned hr
    · cases List.mem_singleton.1 hr
  · intro m a' b n' a'' hs hn'
    rcases List.pair_sublist_snoc.1 hs with hs | ⟨-, he⟩
    · exact h.order hs hn'
    · cases he
      exact absurd hn' hn

/-- A call that has begun takes effect: it is answered after all the others. -/
theorem Linearizes.commits (h : M.Linearizes hist lin) (hb : .begins n a ∈ hist)
    (hn : n ∉ lin.map Prod.fst) :
    M.Linearizes hist (lin ++ [(n, a, (M.step (M.exec (lin.map (·.2.1))) a).2)]) := by
  refine ⟨?_, ?_, ?_, fun hr => List.mem_append_left _ (h.returned hr), ?_⟩
  · simp only [List.map_append, List.map_cons, List.map_nil, trace_snoc, ← h.sequential]
  · rw [List.map_append, List.map_singleton]
    refine List.nodup_append.2 ⟨h.once, List.nodup_singleton _, ?_⟩
    rintro x hx y hy rfl
    rw [List.mem_singleton.1 hy] at hx
    exact hn hx
  · intro x hx
    rcases List.mem_append.1 hx with hx | hx
    · exact h.begun x hx
    · rw [List.mem_singleton.1 hx]
      exact hb
  · intro m a' b n' a'' hs hn'
    rw [List.map_append, List.map_singleton] at hn' ⊢
    rw [List.pair_sublist_snoc]
    rcases List.mem_append.1 hn' with hn' | hn'
    · exact Or.inl (h.order hs hn')
    · -- whatever has returned has already taken effect
      have hm : (m, a', b) ∈ lin := h.returned (hs.subset List.mem_cons_self)
      exact Or.inr ⟨List.mem_map_of_mem hm, List.mem_singleton.1 hn'⟩

/-- A call that has taken effect returns. -/
theorem Linearizes.returns (h : M.Linearizes hist lin) (hm : (n, a, b) ∈ lin) :
    M.Linearizes (hist ++ [.returns n a b]) lin := by
  refine ⟨h.sequential, h.once, fun x hx => List.mem_append_left _ (h.begun x hx), ?_, ?_⟩
  · intro m a' b' hr
    rcases List.mem_append.1 hr with hr | hr
    · exact h.returned hr
    · cases List.mem_singleton.1 hr
      exact hm
  · intro m a' b' n' a'' hs hn'
    rcases List.pair_sublist_snoc.1 hs with hs | ⟨-, he⟩
    · exact h.order hs hn'
    · cases he

end Machine

namespace Service

variable {σ Addr Req Rep Key : Type*} (S : Service σ Addr Req Rep Key)

/-- The server as a machine that answers one request after the other. -/
def machine (init : σ) : Machine σ (Addr × Req) Rep where
  init := init
  step s a := S.answer s a.1 a.2

/-- What the client of call `n` sees when the call goes from `before` to `after`. -/
def callEvents (n : Nat) (before after : Option (Call Addr Req Rep)) :
    List (CallEvent (Addr × Req) Rep) :=
  match before, after with
  | none, some (.waiting addr req) => [.begins n (addr, req)]
  | some (.waiting _ _), some (.returned addr req rep) => [.returns n (addr, req) rep]
  | _, _ => []

theorem callEvents_self (n : Nat) (x : Option (Call Addr Req Rep)) : callEvents n x x = [] := by
  rcases x with - | (- | - | -) <;> rfl

/-- A handled request as a call of a linearization. -/
def Letter.done (e : Letter Addr (Req × Rep)) : Nat × (Addr × Req) × Rep :=
  (e.call, (e.addr, e.body.1), e.body.2)

/-- The order in which the server has handled the calls explains what the clients have seen. -/
structure Linear (init : σ)
    (hist : List (CallEvent (Addr × Req) Rep)) (s : State σ Addr Req Rep) : Prop where
  lin : (S.machine init).Linearizes hist (s.handled.map Letter.done)
  server : s.server = (S.machine init).exec ((s.handled.map Letter.done).map (·.2.1))
  begun : ∀ {n addr req}, s.calls n = some (.waiting addr req) → .begins n (addr, req) ∈ hist

theorem linear_init (init : σ) : S.Linear init [] { server := init : State σ Addr Req Rep } :=
  ⟨Machine.linearizes_nil, rfl, nofun⟩

theorem mem_map_done {s : State σ Addr Req Rep} {n : Nat} :
    n ∈ (s.handled.map Letter.done).map Prod.fst ↔ ∃ e ∈ s.handled, e.call = n := by
  simp [Letter.done]

/-- Requests are handled and replies delivered, any number of them. -/
inductive Moves : State σ Addr Req Rep → State σ Addr Req Rep → Prop
  | refl {s} : Moves s s
  | handle {s t m as bs} (h : Moves s t) (hm : t.requests = as ++ m :: bs) :
      Moves s (S.handle t m (as ++ bs))
  | deliver {s t m as bs} (h : Moves s t) (hm : t.replies = as ++ m :: bs) :
      Moves s (t.deliver m (as ++ bs))

section
variable {S} {s s' : State σ Addr Req Rep}

/-- A request in flight is the only message of its call. -/
theorem Inv.request_alone (hi : S.Inv s) {m : Letter Addr Req} {as bs : List (Letter Addr Req)}
    (hm : s.requests = as ++ m :: bs) :
    (∀ m' ∈ as ++ bs, m'.call ≠ m.call) ∧ ∀ m' ∈ s.replies ++ s.boxes, m'.call ≠ m.call := by
  have hn := hi.once
  simp only [State.numbers, hm, List.map_append, List.map_cons, List.append_assoc,
    List.cons_append] at hn
  have hnot := (List.nodup_cons.1 (List.nodup_middle.1 hn)).1
  simp only [List.mem_append, not_or] at hnot
  refine ⟨fun m' hm' hc => ?_, fun m' hm' hc => ?_⟩
  · rcases List.mem_append.1 hm' with hm' | hm'
    · exact hnot.1 (hc ▸ List.mem_map_of_mem hm')
    · exact hnot.2.1 (hc ▸ List.mem_map_of_mem hm')
  · rcases List.mem_append.1 hm' with hm' | hm'
    · exact hnot.2.2.1 (hc ▸ List.mem_map_of_mem hm')
    · exact hnot.2.2.2 (hc ▸ List.mem_map_of_mem hm')

/-- So is a reply. -/
theorem Inv.reply_alone (hi : S.Inv s) {m : Letter Addr Rep} {as bs : List (Letter Addr Rep)}
    (hm : s.replies = as ++ m :: bs) :
    (∀ m' ∈ s.requests, m'.call ≠ m.call) ∧ ∀ m' ∈ as ++ bs, m'.call ≠ m.call := by
  have hn := hi.once
  simp only [State.numbers, hm, List.map_append, List.map_cons, List.append_assoc,
    List.cons_append] at hn
  rw [← List.append_assoc] at hn
  have hnot := (List.nodup_cons.1 (List.nodup_middle.1 hn)).1
  simp only [List.mem_append, not_or] at hnot
  refine ⟨fun m' hm' hc => hnot.1.1 (hc ▸ List.mem_map_of_mem hm'), fun m' hm' hc => ?_⟩
  rcases List.mem_append.1 hm' with hm' | hm'
  · exact hnot.1.2 (hc ▸ List.mem_map_of_mem hm')
  · exact hnot.2.1 (hc ▸ List.mem_map_of_mem hm')

theorem Moves.calls (h : S.Moves s s') : s'.calls = s.calls := by
  induction h with
  | refl => rfl
  | handle h hm ih => exact ih
  | deliver h hm ih => exact ih

/-- Every waiting call has a message in flight or in a mailbox. -/
def Accounted (s : State σ Addr Req Rep) : Prop :=
  ∀ n addr req, s.calls n = some (.waiting addr req) → n ∈ s.numbers

/-- A step that does not begin or end a call and keeps the numbers. -/
theorem Accounted.of_perm (h : Accounted s) (hc : s'.calls = s.calls)
    (hp : s'.numbers.Perm s.numbers) : Accounted s' := by
  intro n addr req hn
  rw [hc] at hn
  exact hp.mem_iff.2 (h n addr req hn)

end

section
variable [DecidableEq Addr] [DecidableEq Key]

/-- A step, or none, with what the clients see of it. -/
inductive Emits : State σ Addr Req Rep → List (CallEvent (Addr × Req) Rep) →
    State σ Addr Req Rep → Prop
  | stay {s} : Emits s [] s
  | start {s call addr req} (hnew : s.calls call = none) :
      Emits s [.begins call (addr, req)] (s.start call addr req)
  | fail {s call} (hnew : s.calls call = none) : Emits s [] (s.fail call)
  | handle {s m as bs} (hm : s.requests = as ++ m :: bs) : Emits s [] (S.handle s m (as ++ bs))
  | deliver {s m as bs} (hm : s.replies = as ++ m :: bs) : Emits s [] (s.deliver m (as ++ bs))
  | take {s call addr req m} (hc : s.calls call = some (.waiting addr req))
      (hm : s.boxes.find? (S.accepts addr req) = some m) :
      Emits s [.returns call (addr, req) m.body] (S.take s call addr req m)

variable {S} {s s' : State σ Addr Req Rep}

/-- The events of a step that changes no call but `k`. -/
theorem Step.emits (h : S.Step s s') {k : Option Nat}
    (hoff : ∀ n, k ≠ some n → s'.calls n = s.calls n) :
    S.Emits s (k.elim [] fun n => callEvents n (s.calls n) (s'.calls n)) s' := by
  -- where the calls stay as they are, nothing is seen
  have hstay : s'.calls = s.calls →
      (k.elim [] fun n => callEvents n (s.calls n) (s'.calls n)) = [] := by
    intro he
    cases k with
    | none => rfl
    | some n => rw [he]; exact callEvents_self n _
  -- the call that a step changes is `k`
  have hself : ∀ {n x}, s'.calls = Function.update s.calls n (some x) → s.calls n ≠ some x →
      k = some n ∧ s'.calls n = some x := by
    intro n x he hne
    have hn : s'.calls n = some x := by rw [he, Function.update_self]
    refine ⟨not_not.1 fun hk => hne ?_, hn⟩
    rw [← hoff n hk, hn]
  cases h with
  | @start call addr req hnew hone =>
    obtain ⟨rfl, hn⟩ := hself rfl (by rw [hnew]; exact nofun)
    rw [Option.elim_some, hn, hnew]
    exact .start hnew
  | @fail call hnew =>
    obtain ⟨rfl, hn⟩ := hself rfl (by rw [hnew]; exact nofun)
    rw [Option.elim_some, hn, hnew]
    exact .fail hnew
  | handle hm =>
    rw [hstay rfl]
    exact .handle hm
  | deliver hm =>
    rw [hstay rfl]
    exact .deliver hm
  | @take call addr req m hc hm =>
    obtain ⟨rfl, hn⟩ := hself rfl (by rw [hc]; exact nofun)
    rw [Option.elim_some, hn, hc]
    exact .take hc hm

/-- What the steps that no client sees keep. -/
theorem Moves.keeps {I : State σ Addr Req Rep → Prop}
    (hI : ∀ {s s'}, S.Inv s → I s → S.Emits s [] s' → I s') (h : S.Moves s s') (hi : S.Inv s)
    (h0 : I s) : S.Inv s' ∧ I s' := by
  induction h with
  | refl => exact ⟨hi, h0⟩
  | handle h hm ih => exact ⟨ih.1.handle hm, hI ih.1 ih.2 (.handle hm)⟩
  | deliver h hm ih => exact ⟨ih.1.deliver hm, hI ih.1 ih.2 (.deliver hm)⟩

theorem Moves.inv (h : S.Moves s s') (hi : S.Inv s) : S.Inv s' :=
  (h.keeps (I := fun _ => True) (fun _ _ _ => trivial) hi trivial).1

/-- **Every step keeps the calls accounted for.** -/
theorem Accounted.emits (h : Accounted s) (hi : S.Inv s)
    {ev : List (CallEvent (Addr × Req) Rep)} (he : S.Emits s ev s') : Accounted s' := by
  cases he with
  | stay => exact h
  | @start call addr req hnew =>
    intro n addr' req' hn
    have hsplit : n ∈ s.numbers ∨ n = call := by
      rcases update_eq_some hn with ⟨rfl, -⟩ | ⟨-, hn⟩
      · exact Or.inr rfl
      · exact Or.inl (h n addr' req' hn)
    simp only [State.numbers, State.start, List.map_append, List.mem_append, List.map_cons,
      List.map_nil, List.mem_singleton] at hsplit ⊢
    tauto
  | fail hnew =>
    intro n addr req hn
    rcases update_eq_some hn with ⟨-, hx⟩ | ⟨-, hn⟩
    · cases hx
    · exact h n addr req hn
  | @handle m as bs hm =>
    refine h.of_perm rfl (List.perm_iff_count.2 fun c => ?_)
    simp only [State.numbers, Service.handle, hm, List.map_append, List.map_cons, List.map_nil,
      List.count_append, List.count_cons, List.count_nil]
    omega
  | @deliver m as bs hm =>
    refine h.of_perm rfl (List.perm_iff_count.2 fun c => ?_)
    simp only [State.numbers, State.deliver, hm, List.map_append, List.map_cons, List.map_nil,
      List.count_append, List.count_cons, List.count_nil]
    omega
  | @take call addr req m hc hm =>
    -- the letter taken is that of the call, which does not wait any more
    have hmem : m ∈ s.replies ++ s.boxes := List.mem_append_right _ (List.mem_of_find?_eq_some hm)
    have hcall : m.call = call := (hi.accepts_iff hc hmem).1 (List.find?_some hm)
    intro n addr' req' hn
    rcases update_eq_some hn with ⟨-, hx⟩ | ⟨hne, hn⟩
    · cases hx
    have hnum := h n addr' req' hn
    simp only [State.numbers, Service.take, List.mem_append] at hnum ⊢
    rcases hnum with hnum | hnum
    · exact Or.inl hnum
    · obtain ⟨m', hm', rfl⟩ := List.mem_map.1 hnum
      refine Or.inr (List.mem_map_of_mem ((List.mem_eraseP_of_neg ?_).2 hm'))
      rw [hi.accepts_iff hc (List.mem_append_right _ hm')]
      exact hne

/-- In a quiet network every waiting call finds its reply. -/
theorem Accounted.find? (h : Accounted s) (hi : S.Inv s) (hreq : s.requests = [])
    (hrep : s.replies = []) {call : Nat} {addr : Addr} {req : Req}
    (hc : s.calls call = some (.waiting addr req)) :
    ∃ m, s.boxes.find? (S.accepts addr req) = some m := by
  have hn := h call addr req hc
  simp only [State.numbers, hreq, hrep, List.map_nil, List.nil_append] at hn
  obtain ⟨m, hm, hcall⟩ := List.mem_map.1 hn
  rw [← Option.isSome_iff_exists, List.find?_isSome]
  exact ⟨m, hm, (hi.accepts_iff hc (List.mem_append_right _ hm)).2 hcall⟩

/-! ## Linearizability -/

variable {init : σ} {hist ev : List (CallEvent (Addr × Req) Rep)}

/-- The server has handled the request whose reply a call takes. -/
theorem Inv.mem_handled_of_find? (hi : S.Inv s) {call : Nat} {addr : Addr} {req : Req}
    {m : Letter Addr Rep} (hc : s.calls call = some (.waiting addr req))
    (hm : s.boxes.find? (S.accepts addr req) = some m) :
    ⟨call, addr, req, m.body⟩ ∈ s.handled := by
  have hmem : m ∈ s.replies ++ s.boxes := List.mem_append_right _ (List.mem_of_find?_eq_some hm)
  have hcall : m.call = call := (hi.accepts_iff hc hmem).1 (List.find?_some hm)
  obtain ⟨req', hreq, he⟩ := hi.owed m hmem
  rw [hcall, hc] at hreq
  cases hreq
  rwa [hcall] at he

/-- **Every step keeps the linearization.** -/
theorem Linear.emits (h : S.Linear init hist s) (hi : S.Inv s) (he : S.Emits s ev s') :
    S.Linear init (hist ++ ev) s' := by
  obtain ⟨hlin, hserver, hbegun⟩ := h
  cases he with
  | stay =>
    rw [List.append_nil]
    exact ⟨hlin, hserver, hbegun⟩
  | @start call addr req hnew =>
    refine ⟨hlin.begins ?_ _, hserver, ?_⟩
    · intro hn
      obtain ⟨e, he, rfl⟩ := mem_map_done.1 hn
      exact hi.known e he hnew
    · intro n addr' req' hc
      rcases update_eq_some hc with ⟨rfl, hx⟩ | ⟨-, hc⟩
      · cases hx
        exact List.mem_append_right _ List.mem_cons_self
      · exact List.mem_append_left _ (hbegun hc)
  | fail hnew =>
    rw [List.append_nil]
    refine ⟨hlin, hserver, ?_⟩
    intro n addr req hc
    rcases update_eq_some hc with ⟨-, hx⟩ | ⟨-, hc⟩
    · cases hx
    · exact hbegun hc
  | @handle m as bs hm =>
    -- the call takes effect here
    have hmem : m ∈ s.requests := by rw [hm]; simp
    rw [List.append_nil]
    refine ⟨?_, ?_, hbegun⟩
    · have hcommit := hlin.commits (hbegun (hi.asked m hmem)) (fun hn => by
        obtain ⟨e, he, hcall⟩ := mem_map_done.1 hn
        exact hi.unanswered m hmem e he hcall)
      rw [← hserver] at hcommit
      simp only [Service.handle, List.map_append]
      exact hcommit
    · simp only [Service.handle, List.map_append, List.map_cons, List.map_nil, Machine.exec_snoc,
        ← hserver]
      rfl
  | deliver hm =>
    rw [List.append_nil]
    exact ⟨hlin, hserver, hbegun⟩
  | @take call addr req m hc hm =>
    have he := hi.mem_handled_of_find? hc hm
    refine ⟨hlin.returns (List.mem_map_of_mem (f := Letter.done) he), hserver, ?_⟩
    intro n addr' req' hc'
    rcases update_eq_some hc' with ⟨-, hx⟩ | ⟨-, hc'⟩
    · cases hx
    · exact List.mem_append_left _ (hbegun hc')

end

end Service
