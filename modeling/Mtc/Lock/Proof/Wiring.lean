import Mtc.Lock.Network
import Mtc.Lock.Proof.Cluster
import Mtc.Net.Proof.Wires

/-!
# What is on the wires of the lock network

The parts of the relation between the network and the letters of `lockService` that are about
clients and the server, beside `Cabled` and `Carries` of `Net.Proof.Wires`:

* `Placed`: where the hosts listen, and that they are online;
* `Mailed`: which letters are on the wires. A letter that could not be written stays in flight for
  ever.

Each comes with what happens to it when a record changes.
-/

namespace Lock

open Net
open Net.EventMessage (Content)
open Service (Letter Call)

/-- The hosts of a network. -/
abbrev HostMap := Option Bytes → Option EventMessageHandle

/-- A client sends to the server, and the server to clients. -/
def Opposite (who who' : Option Bytes) : Prop := who' = none ↔ who ≠ none

theorem Opposite.symm {who who' : Option Bytes} (h : Opposite who who') : Opposite who' who := by
  unfold Opposite at *
  tauto

theorem Opposite.ne {who who' : Option Bytes} (h : Opposite who who') : who ≠ who' := by
  rintro rfl
  exact iff_not_self h

/-! ## The hosts -/

/-- The hosts are online and agree on where each of them listens. -/
structure Placed (lockServerHost : Bytes) (addr : Option Bytes → Option (Bytes × Int32))
    (hosts : HostMap) : Prop where
  apart : ∀ {who who' a}, addr who = some a → addr who' = some a → who = who'
  port : ∀ {who a}, addr who = some a → a.2 ≠ 0
  known : ∀ who, (hosts who).isSome = (addr who).isSome
  short : ∀ name, (hosts (some name)).isSome → name.length < maxNameLength
  online : ∀ who h, hosts who = some h → ∃ lib, h.lib remoteLockGroupName = some lib ∧ lib.Online
  listens : ∀ who h, hosts who = some h → listensAt h = addr who
  /-- The server knows the clients, and the type of its replies. -/
  server : ∀ h, hosts none = some h →
    (h.callbackInfor remoteLockGroupName remoteLockReplyMessType).isSome ∧
    ∀ name, (hosts (some name)).isSome → h.endpoint remoteLockGroupName name = addr (some name)
  /-- A client knows the server, and the type of its requests. -/
  client : ∀ name h, hosts (some name) = some h →
    (h.callbackInfor remoteLockGroupName remoteLockRequestMessType).isSome ∧
    h.endpoint remoteLockGroupName lockServerHost = addr none

section
variable {lockServerHost : Bytes} {addr : Option Bytes → Option (Bytes × Int32)} {hosts : HostMap}
  {who : Option Bytes} {h h' : EventMessageHandle}

/-- A host that keeps its configuration stays where it is. -/
theorem Placed.update (hp : Placed lockServerHost addr hosts) (hh : hosts who = some h)
    (hc : EventMessageHandle.SameConfig remoteLockGroupName h h')
    (ho : ∃ lib, h'.lib remoteLockGroupName = some lib ∧ lib.Online) :
    Placed lockServerHost addr (Function.update hosts who (some h')) := by
  refine ⟨hp.apart, hp.port, fun who' => ?_, fun name hn => ?_, fun who' h'' hf => ?_,
    fun who' h'' hf => ?_, fun h'' hf => ?_, fun name h'' hf => ?_⟩
  · rw [isSome_update hh, hp.known]
  · rw [isSome_update hh] at hn
    exact hp.short name hn
  · rcases host_update hf with ⟨-, rfl⟩ | ⟨-, hf⟩
    · exact ho
    · exact hp.online who' h'' hf
  · rcases host_update hf with ⟨rfl, rfl⟩ | ⟨-, hf⟩
    · rw [← hp.listens who' h hh, listensAt, hc.endpoint, hc.localHostName]
      rfl
    · exact hp.listens who' h'' hf
  · simp only [isSome_update hh]
    rcases host_update hf with ⟨rfl, rfl⟩ | ⟨-, hf⟩
    · obtain ⟨ht, he⟩ := hp.server h hh
      refine ⟨by rw [hc.types]; exact ht, fun name hn => ?_⟩
      rw [hc.endpoint, he name hn]
    · exact hp.server h'' hf
  · rcases host_update hf with ⟨rfl, rfl⟩ | ⟨-, hf⟩
    · obtain ⟨ht, he⟩ := hp.client name h hh
      exact ⟨by rw [hc.types]; exact ht, by rw [hc.endpoint, he]⟩
    · exact hp.client name h'' hf

end

/-! ## The letters -/

/-- A letter as it is on a wire. -/
inductive Mail where
  | request (m : Letter Bytes PageLockRequest)
  | reply (m : Letter Bytes PageLockReply)

namespace Mail

def call : Mail → Nat
  | request m => m.call
  | reply m => m.call

/-- The message of a letter. -/
def content (lockServerHost localHostName : Bytes) : Mail → Content
  | request m => requestContent lockServerHost m.addr m.body
  | reply m => replyContent localHostName m.addr m.body

def InFlight (s : Letters) : Mail → Prop
  | request m => m ∈ s.requests
  | reply m => m ∈ s.replies

/-- The letters in flight once a call has sent its request. -/
theorem inFlight_start (s : Letters) (m : Letter Bytes PageLockRequest) (x : Mail) :
    x.InFlight (s.start m.call m.addr m.body) ↔ x.InFlight s ∨ x = .request m := by
  cases x with
  | request m' =>
    simp only [InFlight, Service.State.start, List.mem_append, List.mem_singleton, request.injEq]
  | reply m' =>
    simp only [InFlight, Service.State.start, reduceCtorEq, or_false]

/-- The letters in flight once the server has handled a request: the reply is a new one. -/
theorem inFlight_handle (s : Letters) (m : Letter Bytes PageLockRequest)
    (rest : List (Letter Bytes PageLockRequest)) (x : Mail) :
    x.InFlight (lockService.handle s m rest) ↔ x.InFlight { s with requests := rest } ∨
      x = .reply ⟨m.call, m.addr, (checkLockRequest s.server m.addr m.body).2.2⟩ := by
  cases x with
  | request m' =>
    simp only [InFlight, Service.handle, reduceCtorEq, or_false]
  | reply m' =>
    simp only [InFlight, Service.handle, lockService, List.mem_append, List.mem_singleton,
      reply.injEq]

/-- A request is sent from its client, and a reply on a record for the endpoint of its client. -/
def SentFrom (addr : Option Bytes → Option (Bytes × Int32)) (records : End → Option BevInfor)
    (e : End) : Mail → Prop
  | request m => e.1 = some m.addr
  | reply m => e.1 = none ∧
      ∃ info, records e = some info ∧ addr (some m.addr) = some (info.ip, info.port)

end Mail

/-- The letters on the wires. Where nothing is lost (`L`), they are all that are in flight. -/
structure Mailed (L : Prop) (addr : Option Bytes → Option (Bytes × Int32))
    (records : End → Option BevInfor) (s : Letters) (pend : End → List Mail) : Prop where
  flight : ∀ e, ∀ m ∈ pend e, m.InFlight s
  sent : ∀ e, ∀ m ∈ pend e, m.SentFrom addr records e
  once : Pipes.Once Mail.call pend
  kept : L → ∀ m : Mail, m.InFlight s → ∃ e, m ∈ pend e

section
variable {L : Prop} {addr : Option Bytes → Option (Bytes × Int32)}
  {records : End → Option BevInfor} {s s' : Letters} {pend : End → List Mail} {e : End}
  {info' : BevInfor}

theorem mailed_init (server : LockTable) :
    Mailed L addr records { server } fun _ => [] := by
  refine ⟨?_, ?_, Pipes.once_nil, fun _ m hm => ?_⟩
  · intro e m hm
    cases hm
  · intro e m hm
    cases hm
  · cases m with
    | request m => cases hm
    | reply m => cases hm

theorem Mail.SentFrom.update (hold : ∀ info, records e = some info → info'.head = info.head)
    {e' : End} {m : Mail} (h : m.SentFrom addr records e') :
    m.SentFrom addr (Function.update records e (some info')) e' := by
  cases m with
  | request m => exact h
  | reply m =>
    obtain ⟨he, info, hr, ha⟩ := h
    refine ⟨he, ?_⟩
    by_cases hee : e' = e
    · subst hee
      refine ⟨info', Function.update_self .., ?_⟩
      rw [(head_eq (hold info hr)).1, ha]
    · exact ⟨info, by rw [Function.update_of_ne hee, hr], ha⟩

/-- A record is written to, read, or added. -/
theorem Mailed.update (hm : Mailed L addr records s pend)
    (hold : ∀ info, records e = some info → info'.head = info.head) :
    Mailed L addr (Function.update records e (some info')) s pend :=
  ⟨hm.flight, fun e' m hme => (hm.sent e' m hme).update hold, hm.once, hm.kept⟩

/-- The letters stay in flight. -/
theorem Mailed.congr (hm : Mailed L addr records s pend)
    (hs : ∀ m : Mail, m.InFlight s' ↔ m.InFlight s) : Mailed L addr records s' pend :=
  ⟨fun e m hme => (hs m).2 (hm.flight e m hme), hm.sent, hm.once,
    fun hL m hf => hm.kept hL m ((hs m).1 hf)⟩

/-- A new letter gets on a wire. -/
theorem Mailed.push (hm : Mailed L addr records s pend) {x : Mail}
    (hnew : ∀ e, ∀ m ∈ pend e, m.call ≠ x.call) (hsent : x.SentFrom addr records e)
    (hs : ∀ m : Mail, m.InFlight s' ↔ m.InFlight s ∨ m = x) :
    Mailed L addr records s' (Function.update pend e (pend e ++ [x])) := by
  refine ⟨fun e' m hme => ?_, fun e' m hme => ?_, hm.once.push hnew e, fun hL m hf => ?_⟩
  · rcases Pipes.mem_update_append hme with hme | ⟨-, rfl⟩
    · exact (hs m).2 (Or.inl (hm.flight e' m hme))
    · exact (hs m).2 (Or.inr rfl)
  · rcases Pipes.mem_update_append hme with hme | ⟨rfl, rfl⟩
    · exact hm.sent e' m hme
    · exact hsent
  · rcases (hs m).1 hf with hf | rfl
    · obtain ⟨e', hme⟩ := hm.kept hL m hf
      refine ⟨e', ?_⟩
      by_cases he : e' = e
      · subst he
        rw [Function.update_self]
        exact List.mem_append_left _ hme
      · rwa [Function.update_of_ne he]
    · refine ⟨e, ?_⟩
      rw [Function.update_self]
      exact List.mem_append_right _ (List.mem_singleton.2 rfl)

/-- A new letter is lost. -/
theorem Mailed.lose (hm : Mailed L addr records s pend) (hL : ¬ L)
    (hs : ∀ m : Mail, m.InFlight s → m.InFlight s') : Mailed L addr records s' pend :=
  ⟨fun e m hme => hs m (hm.flight e m hme), hm.sent, hm.once, fun h => absurd h hL⟩

/-- The first letter on a wire arrives. -/
theorem Mailed.pop (hm : Mailed L addr records s pend) {x : Mail} {ms : List Mail}
    (he : pend e = x :: ms) (hs : ∀ m : Mail, m.call ≠ x.call → (m.InFlight s' ↔ m.InFlight s))
    (hx : ∀ m : Mail, m.InFlight s' → m.call ≠ x.call) :
    Mailed L addr records s' (Function.update pend e ms) ∧
      ∀ e', ∀ m ∈ Function.update pend e ms e', m.call ≠ x.call := by
  obtain ⟨honce, hne⟩ := hm.once.pop he
  refine ⟨⟨fun e' m hme => ?_, fun e' m hme => ?_, honce, fun hL m hf => ?_⟩, hne⟩
  · exact (hs m (hne e' m hme)).2 (hm.flight e' m (Pipes.mem_of_mem_update_tail he hme))
  · exact hm.sent e' m (Pipes.mem_of_mem_update_tail he hme)
  · obtain ⟨e', hme⟩ := hm.kept hL m ((hs m (hx m hf)).1 hf)
    refine ⟨e', ?_⟩
    by_cases hee : e' = e
    · subst hee
      rw [he] at hme
      rw [Function.update_self]
      rcases List.mem_cons.1 hme with rfl | hme
      · exact absurd rfl (hx m hf)
      · exact hme
    · rwa [Function.update_of_ne hee]

/-- The first request on a wire is taken. -/
theorem Mailed.popRequest (hm : Mailed L addr records s pend) (hi : lockService.Inv s)
    {m : Letter Bytes PageLockRequest} {ms : List Mail} (he : pend e = .request m :: ms)
    {as bs : List (Letter Bytes PageLockRequest)} (hsplit : s.requests = as ++ m :: bs) :
    Mailed L addr records { s with requests := as ++ bs } (Function.update pend e ms) ∧
      ∀ e', ∀ m' ∈ Function.update pend e ms e', m'.call ≠ m.call := by
  obtain ⟨halone, halone'⟩ := hi.request_alone hsplit
  refine hm.pop he (fun m' hne => ?_) (fun m' hf => ?_)
  · cases m' with
    | request m' =>
      have hmm : m' ≠ m := fun h => hne (congrArg Letter.call h)
      simp only [Mail.InFlight, hsplit, List.mem_append, List.mem_cons, hmm, false_or]
    | reply m' => exact Iff.rfl
  · cases m' with
    | request m' => exact halone m' hf
    | reply m' => exact halone' m' (List.mem_append_left _ hf)

/-- The first reply on a wire is delivered. -/
theorem Mailed.popReply (hm : Mailed L addr records s pend) (hi : lockService.Inv s)
    {m : Letter Bytes PageLockReply} {ms : List Mail} (he : pend e = .reply m :: ms)
    {as bs : List (Letter Bytes PageLockReply)} (hsplit : s.replies = as ++ m :: bs) :
    Mailed L addr records (s.deliver m (as ++ bs)) (Function.update pend e ms) := by
  obtain ⟨halone, halone'⟩ := hi.reply_alone hsplit
  refine (hm.pop he (fun m' hne => ?_) (fun m' hf => ?_)).1
  · cases m' with
    | request m' => exact Iff.rfl
    | reply m' =>
      have hmm : m' ≠ m := fun h => hne (congrArg Letter.call h)
      simp only [Mail.InFlight, Service.State.deliver, hsplit, List.mem_append, List.mem_cons, hmm,
        false_or]
  · cases m' with
    | request m' => exact halone m' hf
    | reply m' => exact halone' m' hf

end

end Lock
