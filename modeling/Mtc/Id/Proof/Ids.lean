import Mtc.Id.Server
import Mtc.Lib.Int32

/-!
# Sequence numbers are unique and ordered

`Inv` ties everything that carries an id to the history of the handled requests: the `i`-th
request was given `i + 1`, and every id string, in a response in flight or in a completed call,
is that of a handled request of its own call. The bound on the number of handled requests keeps
`id++` away from the end of `long long`; `Inv` holds while the bound does (`inv_of_run`).

`ids_unique_ordered` is the law of the service: no two calls get one id, a call that starts after
another has completed gets a larger one, and `idmap` maps exactly `1, …, id - 1`, each to the
endpoint of the request that was given it, which is what the call of that request is told.
-/

namespace Id

variable {EndPoint : Type} {endpoint2str : EndPoint → String} {maxRetry : Nat}

/-- `message` is the id string given to a handled request of `call`. -/
def Given (s : Service EndPoint) (call : Nat) (message : String) : Prop :=
  ∃ e ∈ s.handled, e.1.call = call ∧ message = toString e.2.toInt

/-- `message` is the id string given to a handled request of `call`, and `idmap` has the endpoint of
that request under this id. -/
def Registered (endpoint2str : EndPoint → String) (s : Service EndPoint) (call : Nat)
    (message : String) : Prop :=
  ∃ r k, (r, k) ∈ s.handled ∧ r.call = call ∧ message = toString k.toInt ∧
    s.server.idmap.findKey k = some (endpoint2str r.remoteSide)

/-- The invariant (module doc). -/
structure Inv (endpoint2str : EndPoint → String) (s : Service EndPoint) : Prop where
  next : s.server.id.toInt = s.handled.length + 1
  ids : ∀ (i : Nat) e, s.handled[i]? = some e → e.2.toInt = (i : Int) + 1
  idmap : ∀ k, s.server.idmap.findKey k =
    (s.handled.find? fun e => e.2 = k).map fun e => endpoint2str e.1.remoteSide
  responses : ∀ p ∈ s.responses, Given s p.call p.message
  calls : ∀ c m, s.calls c = some (.completed m) → Given s c m

/-- Every request, in flight or handled, belongs to a call that was started. -/
structure Started (s : Service EndPoint) : Prop where
  requests : ∀ r ∈ s.requests, s.calls r.call ≠ none
  handled : ∀ e ∈ s.handled, s.calls e.1.call ≠ none

/-! ## What a step does -/

/-- The handler runs for a request in flight. -/
theorem next_handle {s s' : Service EndPoint} {i : Nat}
    (h : s.next endpoint2str maxRetry (.handle i) = some s') :
    ∃ r ∈ s.requests, s' = { s with
      server := (s.server.idInc endpoint2str r.remoteSide).1
      requests := s.requests.eraseIdx i
      responses := ⟨r.call, toString s.server.id.toInt⟩ :: s.responses
      handled := s.handled ++ [(r, s.server.id)] } := by
  simp only [Service.next] at h
  split at h
  · cases h
  · rename_i r hr
    exact ⟨r, List.mem_of_getElem? hr, (Option.some.inj h).symm⟩

theorem setCall_ne_none {s : Service EndPoint} (call : Nat) (k : Call) {c : Nat}
    (h : s.calls c ≠ none) : (s.setCall call k).calls c ≠ none := by
  unfold Service.setCall
  dsimp only
  split
  · exact Option.some_ne_none k
  · exact h

theorem completed_setCall {s : Service EndPoint} {call c : Nat} {k : Call} {m : String}
    (h : (s.setCall call k).calls c = some (.completed m)) :
    s.calls c = some (.completed m) ∨ c = call ∧ k = .completed m := by
  unfold Service.setCall at h
  dsimp only at h
  split at h
  · rename_i hc
    exact .inr ⟨hc, Option.some.inj h⟩
  · exact .inl h

/-- The server and the history are left alone: requests of started calls are sent, messages are
dropped, and calls complete with responses in flight. -/
structure Quiet (s s' : Service EndPoint) : Prop where
  server : s'.server = s.server
  handled : s'.handled = s.handled
  responses : ∀ p ∈ s'.responses, p ∈ s.responses
  started : ∀ {c}, s.calls c ≠ none → s'.calls c ≠ none
  requests : ∀ r ∈ s'.requests, r ∈ s.requests ∨ s'.calls r.call ≠ none
  completed : ∀ {c m}, s'.calls c = some (.completed m) →
    s.calls c = some (.completed m) ∨ ∃ p ∈ s.responses, p.call = c ∧ p.message = m

/-- A call sends its request, for the first time or again. -/
theorem quiet_send (s : Service EndPoint) (call retries : Nat) (e : EndPoint) :
    Quiet s { s.setCall call (.running retries) with requests := ⟨call, e⟩ :: s.requests } where
  server := rfl
  handled := rfl
  responses _ hp := hp
  started := setCall_ne_none call _
  requests r hr := by
    rcases List.mem_cons.1 hr with rfl | hr
    · exact .inr (by simp [Service.setCall])
    · exact .inl hr
  completed hc := by
    rcases completed_setCall hc with hc | ⟨-, hk⟩
    · exact .inl hc
    · cases hk

/-- A response in flight completes the call it is for. -/
theorem quiet_complete {s : Service EndPoint} {i : Nat} {p : Response}
    (hp : s.responses[i]? = some p) :
    Quiet s (Service.setCall { s with responses := s.responses.eraseIdx i } p.call
      (.completed p.message)) where
  server := rfl
  handled := rfl
  responses _ hq := (List.eraseIdx_sublist _ _).subset hq
  started hc := setCall_ne_none p.call _ hc
  requests _ hr := .inl hr
  completed hc := by
    rcases completed_setCall hc with hc | ⟨rfl, hk⟩
    · exact .inl hc
    · cases hk
      exact .inr ⟨p, List.mem_of_getElem? hp, rfl, rfl⟩

theorem quiet_fail (s : Service EndPoint) (call : Nat) : Quiet s (s.setCall call .failed) where
  server := rfl
  handled := rfl
  responses _ hp := hp
  started := setCall_ne_none call _
  requests _ hr := .inl hr
  completed hc := by
    rcases completed_setCall hc with hc | ⟨-, hk⟩
    · exact .inl hc
    · cases hk

/-- Messages are lost. -/
theorem quiet_lose {s : Service EndPoint} {requests : List (Request EndPoint)}
    {responses : List Response} (hr : requests.Sublist s.requests)
    (hp : responses.Sublist s.responses) :
    Quiet s { s with requests := requests, responses := responses } :=
  ⟨rfl, rfl, fun _ h => hp.subset h, id, fun _ h => .inl (hr.subset h), .inl⟩

/-- Only the handler changes the server and the history. -/
theorem next_other {s s' : Service EndPoint} {a : Action EndPoint} (ha : ∀ i, a ≠ .handle i)
    (h : s.next endpoint2str maxRetry a = some s') : Quiet s s' := by
  cases a with
  | handle i => exact absurd rfl (ha i)
  | start call e =>
    simp only [Service.next] at h
    split at h
    · cases h
      exact quiet_send s call 0 e
    · cases h
  | resend call e =>
    simp only [Service.next] at h
    split at h
    · split at h
      · cases h
        exact quiet_send s call _ e
      · cases h
    · cases h
  | deliver i =>
    simp only [Service.next] at h
    split at h
    · cases h
    · rename_i p hp
      split at h
      · cases h
        exact quiet_complete hp
      · cases h
        exact quiet_lose (List.Sublist.refl _) (List.eraseIdx_sublist _ i)
  | loseRequest i =>
    cases h
    exact quiet_lose (List.eraseIdx_sublist _ i) (List.Sublist.refl _)
  | loseResponse i =>
    cases h
    exact quiet_lose (List.Sublist.refl _) (List.eraseIdx_sublist _ i)
  | fail call =>
    simp only [Service.next] at h
    split at h
    · cases h
      exact quiet_fail s call
    · cases h

/-- The history only grows. -/
theorem next_handled {s s' : Service EndPoint} {a : Action EndPoint}
    (h : s.next endpoint2str maxRetry a = some s') : s.handled <+: s'.handled := by
  by_cases ha : ∃ i, a = .handle i
  · obtain ⟨i, rfl⟩ := ha
    obtain ⟨r, -, rfl⟩ := next_handle h
    exact List.prefix_append _ _
  · exact ⟨[], by rw [List.append_nil, (next_other (fun i he => ha ⟨i, he⟩) h).handled]⟩

/-! ## The invariants -/

theorem inv_init : Inv endpoint2str (idService endpoint2str maxRetry).init where
  next := by simp [idService]
  ids := by
    intro i e h
    simp [idService] at h
  idmap k := rfl
  responses := by
    intro p hp
    cases hp
  calls := by
    intro c m h
    cases h

theorem Given.mono {s s' : Service EndPoint} (h : s.handled <+: s'.handled) {c : Nat} {m : String}
    (hg : Given s c m) : Given s' c m := by
  obtain ⟨e, he, hg⟩ := hg
  exact ⟨e, h.subset he, hg⟩

/-- The handler keeps the invariant, short of the end of `long long`. -/
theorem Inv.handle {s s' : Service EndPoint} (h : Inv endpoint2str s) {i : Nat}
    (hn : s.next endpoint2str maxRetry (.handle i) = some s')
    (hb : s'.handled.length < 2 ^ 63 - 1) : Inv endpoint2str s' := by
  have hpre := next_handled hn
  obtain ⟨r, -, rfl⟩ := next_handle hn
  have hlen : s.handled.length + 1 < 2 ^ 63 - 1 := by simpa using hb
  have hnext := h.next
  refine ⟨?_, ?_, ?_, ?_, ?_⟩
  · -- `id++` does not overflow
    show (s.server.id + 1).toInt = _
    rw [Int64.toInt_add, hnext, show (1 : Int64).toInt = 1 by decide, Int.bmod_eq_of_le]
    · simp
    · omega
    · omega
  · intro j e he
    rw [List.getElem?_append] at he
    split at he
    · exact h.ids j e he
    · rename_i hj
      rw [List.getElem?_singleton] at he
      split at he
      · cases he
        show s.server.id.toInt = _
        omega
      · cases he
  · intro k
    show (s.server.idmap.assign s.server.id (endpoint2str r.remoteSide)).findKey k = _
    rw [AssocMap.findKey_assign, List.find?_append]
    -- `id` is a new key
    have hnew : s.handled.find? (fun e => e.2 = s.server.id) = none := by
      rw [List.find?_eq_none]
      intro e he
      obtain ⟨j, hj⟩ := List.mem_iff_getElem?.1 he
      have hji := h.ids j e hj
      have hlt := (List.getElem?_eq_some_iff.1 hj).1
      rw [decide_eq_true_eq]
      intro hee
      rw [hee] at hji
      omega
    by_cases hk : k = s.server.id
    · subst hk
      simp [hnew]
    · simp [hk, Ne.symm hk, h.idmap k]
  · intro p hp
    rcases List.mem_cons.1 hp with rfl | hp
    · exact ⟨(r, s.server.id), by simp, rfl, rfl⟩
    · exact (h.responses p hp).mono hpre
  · intro c m hc
    exact (h.calls c m hc).mono hpre

theorem Inv.next_of {s s' : Service EndPoint} {a : Action EndPoint} (h : Inv endpoint2str s)
    (hn : s.next endpoint2str maxRetry a = some s') (hb : s'.handled.length < 2 ^ 63 - 1) :
    Inv endpoint2str s' := by
  by_cases ha : ∃ i, a = .handle i
  · obtain ⟨i, rfl⟩ := ha
    exact h.handle hn hb
  · have hpre := next_handled hn
    have hq := next_other (fun i he => ha ⟨i, he⟩) hn
    refine ⟨?_, ?_, ?_, fun p hp => (h.responses p (hq.responses p hp)).mono hpre,
      fun c m hc => ?_⟩
    · rw [hq.server, hq.handled]
      exact h.next
    · rw [hq.handled]
      exact h.ids
    · rw [hq.server, hq.handled]
      exact h.idmap
    · rcases hq.completed hc with hc | ⟨p, hp, rfl, rfl⟩
      · exact (h.calls c m hc).mono hpre
      · exact (h.responses p hp).mono hpre

theorem Started.next_of {s s' : Service EndPoint} {a : Action EndPoint} (h : Started s)
    (hn : s.next endpoint2str maxRetry a = some s') : Started s' := by
  by_cases ha : ∃ i, a = .handle i
  · obtain ⟨i, rfl⟩ := ha
    obtain ⟨r, hr, rfl⟩ := next_handle hn
    refine ⟨fun q hq => h.requests q ((List.eraseIdx_sublist _ _).subset hq), fun e he => ?_⟩
    rcases List.mem_append.1 he with he | he
    · exact h.handled e he
    · rw [List.mem_singleton.1 he]
      exact h.requests r hr
  · have hq := next_other (fun i he => ha ⟨i, he⟩) hn
    refine ⟨fun r hm => ?_, fun e he => ?_⟩
    · rcases hq.requests r hm with hm | hm
      · exact hq.started (h.requests r hm)
      · exact hm
    · rw [hq.handled] at he
      exact hq.started (h.handled e he)

/-! ## Runs -/

theorem runFrom_handled {s s' : Service EndPoint} {as : List (Action EndPoint)}
    (h : (idService endpoint2str maxRetry).runFrom s as = some s') : s.handled <+: s'.handled :=
  System.inv_of_step (S := idService endpoint2str maxRetry) (I := fun t => s.handled <+: t.handled)
    (fun _ _ _ hn hi => hi.trans (next_handled hn)) h (List.prefix_refl _)

theorem inv_of_run {s : Service EndPoint} {as : List (Action EndPoint)}
    (h : (idService endpoint2str maxRetry).run as = some s)
    (hb : s.handled.length < 2 ^ 63 - 1) : Inv endpoint2str s := by
  refine System.inv_of_step (S := idService endpoint2str maxRetry)
    (I := fun t => t.handled.length < 2 ^ 63 - 1 → Inv endpoint2str t)
    (fun t a t' hn hi hb => ?_) h (fun _ => inv_init) hb
  have := (next_handled hn).length_le
  exact (hi (by omega)).next_of hn hb

theorem started_of_run {s : Service EndPoint} {as : List (Action EndPoint)}
    (h : (idService endpoint2str maxRetry).run as = some s) : Started s := by
  refine System.inv_of_step (S := idService endpoint2str maxRetry) (I := Started)
    (fun _ _ _ hn hi => hi.next_of hn) h ⟨?_, ?_⟩
  · intro r hr
    cases hr
  · intro e he
    cases he

/-- No two requests were given one id. -/
theorem Inv.entry_inj {s : Service EndPoint} (h : Inv endpoint2str s)
    {e e' : Request EndPoint × Int64} (he : e ∈ s.handled) (he' : e' ∈ s.handled)
    (hid : e.2.toInt = e'.2.toInt) : e = e' := by
  obtain ⟨i, hi⟩ := List.mem_iff_getElem?.1 he
  obtain ⟨j, hj⟩ := List.mem_iff_getElem?.1 he'
  have hii := h.ids i e hi
  have hjj := h.ids j e' hj
  have hij : i = j := by omega
  subst hij
  exact Option.some.inj (hi.symm.trans hj)

/-- Numbers with one text are equal. -/
theorem toString_natCast_inj {m n : Nat} (h : toString (m : Int) = toString (n : Int)) : m = n := by
  have hd : Nat.toDigits 10 m = Nat.toDigits 10 n := by
    have hr : m.repr = n.repr := h
    rw [← Nat.toList_repr, hr, Nat.toList_repr]
  have hm := Nat.ofDigitChars_ten_toDigits (n := m)
  rwa [hd, Nat.ofDigitChars_ten_toDigits, eq_comm] at hm

/-- The id strings of two handled requests tell them apart. -/
theorem Inv.given_inj {s : Service EndPoint} (h : Inv endpoint2str s) {c c' : Nat} {m : String}
    (hc : Given s c m) (hc' : Given s c' m) : c = c' := by
  obtain ⟨e, he, rfl, hm⟩ := hc
  obtain ⟨e', he', rfl, hm'⟩ := hc'
  obtain ⟨i, hi⟩ := List.mem_iff_getElem?.1 he
  obtain ⟨j, hj⟩ := List.mem_iff_getElem?.1 he'
  have hii : e.2.toInt = ((i + 1 : Nat) : Int) := h.ids i e hi
  have hjj : e'.2.toInt = ((j + 1 : Nat) : Int) := h.ids j e' hj
  rw [hii] at hm
  rw [hjj] at hm'
  have hij := toString_natCast_inj (hm.symm.trans hm')
  rw [h.entry_inj he he' (by rw [hii, hjj, hij])]

/-- The keys of `idmap` and what they map to. -/
theorem Inv.idmap_iff {s : Service EndPoint} (h : Inv endpoint2str s) (k : Int64) (v : String) :
    s.server.idmap.findKey k = some v ↔
      ∃ r, (r, k) ∈ s.handled ∧ v = endpoint2str r.remoteSide := by
  rw [h.idmap k, Option.map_eq_some_iff]
  constructor
  · rintro ⟨e, he, rfl⟩
    have hk : e.2 = k := by simpa using List.find?_some he
    subst hk
    exact ⟨e.1, List.mem_of_find?_eq_some he, rfl⟩
  · rintro ⟨r, hr, rfl⟩
    cases hf : s.handled.find? fun e => e.2 = k with
    | none =>
      rw [List.find?_eq_none] at hf
      exact absurd (by simp) (hf _ hr)
    | some e =>
      have hk : e.2 = k := by simpa using List.find?_some hf
      obtain rfl := h.entry_inj (List.mem_of_find?_eq_some hf) hr (congrArg Int64.toInt hk)
      exact ⟨_, rfl, rfl⟩

/-- What a response or a completed call carries is in `idmap`. -/
theorem Inv.registered {s : Service EndPoint} (h : Inv endpoint2str s) {c : Nat} {m : String}
    (hg : Given s c m) : Registered endpoint2str s c m := by
  obtain ⟨⟨r, k⟩, he, hc, hm⟩ := hg
  exact ⟨r, k, he, hc, hm, (h.idmap_iff k _).2 ⟨r, he, rfl⟩⟩

/-- The ids of the history are `1, …, id - 1`. -/
theorem Inv.handled_iff {s : Service EndPoint} (h : Inv endpoint2str s) (k : Int64) :
    (∃ r, (r, k) ∈ s.handled) ↔ 1 ≤ k.toInt ∧ k.toInt < s.server.id.toInt := by
  have hnext := h.next
  constructor
  · rintro ⟨r, hr⟩
    obtain ⟨i, hi⟩ := List.mem_iff_getElem?.1 hr
    have hii := h.ids i _ hi
    have hlt := (List.getElem?_eq_some_iff.1 hi).1
    dsimp only at hii
    omega
  · rintro ⟨h1, h2⟩
    have hlt : (k.toInt - 1).toNat < s.handled.length := by omega
    have hi := List.getElem?_eq_getElem hlt
    have hii := h.ids _ _ hi
    have hk : s.handled[(k.toInt - 1).toNat].2 = k := Int64.toInt_inj.1 (by omega)
    have hmem := List.getElem_mem hlt
    generalize s.handled[(k.toInt - 1).toNat] = e at hk hmem
    subst hk
    exact ⟨e.1, hmem⟩

/-- **The law of the service**, at a state `s'` and an earlier state `s` of one run: ids are unique,
calls that start after another has completed get larger ids, and `idmap` records who got which: the
id string of a response in flight or of a completed call is that of an entry for one of its call's
requests. -/
theorem ids_unique_ordered {s s' : Service EndPoint} {as as' : List (Action EndPoint)}
    (h : (idService endpoint2str maxRetry).run as = some s)
    (h' : (idService endpoint2str maxRetry).runFrom s as' = some s')
    (hb : s'.handled.length < 2 ^ 63 - 1) :
    (∀ c c' m, s'.calls c = some (.completed m) → s'.calls c' = some (.completed m) → c = c') ∧
    (∀ c c' m m', s.calls c = some (.completed m) → s.calls c' = none →
      s'.calls c' = some (.completed m') →
      ∃ n n' : Int, m = toString n ∧ m' = toString n' ∧ n < n') ∧
    (∀ k, (s'.server.idmap.findKey k).isSome ↔ 1 ≤ k.toInt ∧ k.toInt < s'.server.id.toInt) ∧
    (∀ k v, s'.server.idmap.findKey k = some v ↔
      ∃ r, (r, k) ∈ s'.handled ∧ v = endpoint2str r.remoteSide) ∧
    (∀ p ∈ s'.responses, Registered endpoint2str s' p.call p.message) ∧
    ∀ c m, s'.calls c = some (.completed m) → Registered endpoint2str s' c m := by
  have hinv' := inv_of_run (System.runFrom_append h h') hb
  have hpre := runFrom_handled h'
  have hinv := inv_of_run h (by have := hpre.length_le; omega)
  have hst := started_of_run h
  refine ⟨fun c c' m hc hc' => hinv'.given_inj (hinv'.calls c m hc) (hinv'.calls c' m hc'), ?_,
    fun k => ?_, hinv'.idmap_iff, fun p hp => hinv'.registered (hinv'.responses p hp),
    fun c m hc => hinv'.registered (hinv'.calls c m hc)⟩
  · intro c c' m m' hc hn hc'
    obtain ⟨e, he, -, rfl⟩ := hinv.calls c m hc
    obtain ⟨e', he', rfl, rfl⟩ := hinv'.calls c' m' hc'
    refine ⟨_, _, rfl, rfl, ?_⟩
    obtain ⟨i, hi⟩ := List.mem_iff_getElem?.1 he
    obtain ⟨j, hj⟩ := List.mem_iff_getElem?.1 he'
    have hii := hinv.ids i e hi
    have hjj := hinv'.ids j e' hj
    have hlt := (List.getElem?_eq_some_iff.1 hi).1
    -- the request of the later call was not yet handled in `s`
    have hge : s.handled.length ≤ j := by
      by_contra hlt
      have hj' : s.handled[j]? = some e' := by
        obtain ⟨t, ht⟩ := hpre
        rw [← ht, List.getElem?_append_left (by omega)] at hj
        exact hj
      exact hst.handled e' (List.mem_of_getElem? hj') hn
    omega
  · rw [← hinv'.handled_iff, Option.isSome_iff_exists]
    constructor
    · rintro ⟨v, hv⟩
      obtain ⟨r, hr, -⟩ := (hinv'.idmap_iff k v).1 hv
      exact ⟨r, hr⟩
    · rintro ⟨r, hr⟩
      exact ⟨_, (hinv'.idmap_iff k _).2 ⟨r, hr, rfl⟩⟩

/-- A call completes; a second one, whose request is sent twice and whose first response is lost,
follows it. -/
theorem ids_unique_ordered_retry :
    let endpoint2str : String × Nat → String := fun e => e.1 ++ ":" ++ toString e.2
    let as : List (Action (String × Nat)) := [.start 0 ("10.11.6.1", 4000), .handle 0, .deliver 0]
    let as' : List (Action (String × Nat)) :=
      [.start 1 ("10.11.6.2", 4000), .resend 1 ("10.11.6.2", 4001), .handle 1, .handle 0,
       .loseResponse 1, .deliver 0]
    ∃ s s', (idService endpoint2str 5).run as = some s ∧
      (idService endpoint2str 5).runFrom s as' = some s' ∧ s'.handled.length < 2 ^ 63 - 1 ∧
      (∀ c c' m, s'.calls c = some (.completed m) → s'.calls c' = some (.completed m) → c = c') ∧
      (∀ c c' m m', s.calls c = some (.completed m) → s.calls c' = none →
        s'.calls c' = some (.completed m') →
        ∃ n n' : Int, m = toString n ∧ m' = toString n' ∧ n < n') ∧
      (∀ k, (s'.server.idmap.findKey k).isSome ↔ 1 ≤ k.toInt ∧ k.toInt < s'.server.id.toInt) ∧
      (∀ k v, s'.server.idmap.findKey k = some v ↔
        ∃ r, (r, k) ∈ s'.handled ∧ v = endpoint2str r.remoteSide) ∧
      (∀ p ∈ s'.responses, Registered endpoint2str s' p.call p.message) ∧
      ∀ c m, s'.calls c = some (.completed m) → Registered endpoint2str s' c m := by
  intro endpoint2str as as'
  have hb : (3 : Nat) < 2 ^ 63 - 1 := by decide
  refine ⟨_, _, rfl, rfl, hb, ?_⟩
  exact ids_unique_ordered (show (idService endpoint2str 5).run as = some _ from rfl)
    (show (idService endpoint2str 5).runFrom _ as' = some _ from rfl) hb

end Id
