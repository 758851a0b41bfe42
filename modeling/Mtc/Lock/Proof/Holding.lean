import Mtc.Lock.Proof.Isolation
import Mtc.Lock.Proof.Linear

/-!
# Mutual exclusion of the callers

Callers that ask for write locks only and give up what they hold (`WritesHeld`) exclude one another,
although they know the locks only from replies that are underway while the server goes on.

The owner of a record is in one of three places: a hold that a caller counts on, a `LOCK_SUCCESS`
underway, or an `UNLOCK` underway (`Token`). Every step moves the token of a fold, makes it together
with the owner, or ends it together with the owner (`Tokens.emits`); so there is one at most.
-/

namespace Lock

open Net
open Service (Letter Call)

/-! ## The try-lock at work -/

theorem tryLock_step_ne (owner : UInt64 → Option Bytes) (a : Ask) {f : UInt64} (h : f ≠ a.fold) :
    (tryLock.step owner a).1 f = owner f := by
  unfold tryLock
  dsimp only
  split
  · exact if_neg h
  · split
    · exact if_neg h
    · rfl

/-- A lock that is free is taken, one that has an owner is not. -/
theorem tryLock_step_free {owner : UInt64 → Option Bytes} {a : Ask}
    (hl : a.request.lockType ≠ .unlock) (ho : owner a.fold = none) :
    (tryLock.step owner a).1 a.fold = some a.asker := by
  simp [tryLock, hl, ho]

theorem tryLock_step_owned {owner : UInt64 → Option Bytes} {a : Ask} {c : Bytes}
    (hl : a.request.lockType ≠ .unlock) (ho : owner a.fold = some c) :
    tryLock.step owner a = (owner, a.request.reply .lockFail) := by
  simp [tryLock, hl, ho]

/-- The manager does what the try-lock does. -/
theorem TryLockSim.step {t : LockTable} {owner : UInt64 → Option Bytes} {a : Ask}
    (h : TryLockSim t owner) (hu : OwnerUse owner a) :
    TryLockSim (lockMachine.step t a).1 (tryLock.step owner a).1 ∧
      (lockMachine.step t a).2.2 = (tryLock.step owner a).2 := by
  obtain ⟨r, hr, ha⟩ := step_answers t a
  obtain ⟨hown, hout⟩ := OwnedBy.step (h a.request.spaceId a.request.pageNo) hu ha
  refine ⟨fun s p => ?_, hout⟩
  by_cases hf : calFold s p = a.fold
  · rw [hf]
    change OwnedBy (lookup _ a.key) _
    rw [hr]
    exact hown
  · have hk : a.key ≠ hashKey (calFold s p) := fun hk => hf (hashKey_calFold_inj.1 hk.symm)
    rw [lookup_step_ne t a hk, tryLock_step_ne owner a hf]
    exact h s p

/-! ## Tokens -/

/-- The fold of the page of a request. -/
def PageLockRequest.fold (request : PageLockRequest) : UInt64 :=
  calFold request.spaceId request.pageNo

/-- Where the owner `host` of the record of fold `f` can be found: in a hold, in the reply to a call
that still waits, or in an `UNLOCK` that the server has not handled. -/
inductive Token (hist : List LockEvent) (s : Letters) : Hold ⊕ Nat → Bytes → UInt64 → Prop
  | holds {x} (hx : x ∈ holding hist) : Token hist s (.inl x) x.client x.fold
  | granted {e : Letter Bytes (PageLockRequest × PageLockReply)} (he : e ∈ s.handled)
      (hw : s.calls e.call = some (.waiting e.addr e.body.1)) (hl : e.body.1.lockType ≠ .unlock)
      (hr : e.body.2.replyType = .lockSuccess) : Token hist s (.inr e.call) e.addr e.body.1.fold
  | releases {n host request} (hw : s.calls n = some (.waiting host request))
      (hl : request.lockType = .unlock) (hn : ∀ e ∈ s.handled, e.call ≠ n) :
      Token hist s (.inr n) host request.fold

/-- A fold has one token at most, and it is that of the owner of the record. -/
structure Tokens (hist : List LockEvent) (s : Letters) (owner : UInt64 → Option Bytes) : Prop where
  sim : TryLockSim s.server owner
  owned : ∀ {x host f}, Token hist s x host f → owner f = some host
  one : ∀ {x y host host' f}, Token hist s x host f → Token hist s y host' f → x = y
  writes : ∀ {n host request}, s.calls n = some (.waiting host request) →
    request.lockType = .wLock ∨ request.lockType = .unlock
  modes : ∀ x ∈ holding hist, x.mode = .wLock

section
variable {hist hist' : List LockEvent} {s s' : Letters} {owner : UInt64 → Option Bytes}

theorem holding_snoc (hist : List LockEvent) (e : LockEvent) :
    holding (hist ++ [e]) = holdingStep (holding hist) e :=
  callers.exec_snoc hist e

theorem tokens_init : Tokens [] { server := [] } fun _ => none := by
  have hno : ∀ {x host f}, ¬ Token [] { server := [] : Letters } x host f := by
    rintro x host f (hx | he | hw)
    · cases hx
    · cases he
    · cases hw
  exact ⟨fun _ _ => trivial, fun h => absurd h hno, fun h => absurd h hno, nofun, nofun⟩

/-- The tokens only move. -/
theorem Tokens.move (h : Tokens hist s owner) (φ : Hold ⊕ Nat → Hold ⊕ Nat)
    (hserver : s'.server = s.server)
    (hφ : ∀ {x host f}, Token hist' s' x host f → Token hist s (φ x) host f)
    (hinj : ∀ {x y host host' f}, Token hist' s' x host f → Token hist' s' y host' f →
      φ x = φ y → x = y)
    (hwrites : ∀ {n host request}, s'.calls n = some (.waiting host request) →
      request.lockType = .wLock ∨ request.lockType = .unlock)
    (hmodes : ∀ x ∈ holding hist', x.mode = .wLock) : Tokens hist' s' owner := by
  refine ⟨hserver ▸ h.sim, fun hx => h.owned (hφ hx), fun hx hy => ?_, hwrites, hmodes⟩
  exact hinj hx hy (h.one (hφ hx) (hφ hy))

/-! ## Calls begin and return -/

variable {n : Nat} {host host' : Bytes} {request : PageLockRequest} {reply : PageLockReply}
  {x : Hold ⊕ Nat} {f : UInt64}

theorem Token.mono (h : Token hist s x host f)
    (hsub : ∀ z, x = .inl z → z ∈ holding hist → z ∈ holding hist') : Token hist' s x host f := by
  cases h with
  | holds hx => exact .holds (hsub _ rfl hx)
  | granted he hw hl hr => exact .granted he hw hl hr
  | releases hw hl hn => exact .releases hw hl hn

theorem Token.congr (h : Token hist s' x host f) (hh : s'.handled = s.handled)
    (hc : s'.calls = s.calls) : Token hist s x host f := by
  cases h with
  | holds hx => exact .holds hx
  | granted he hw hl hr => exact .granted (hh ▸ he) (hc ▸ hw) hl hr
  | releases hw hl hn => exact .releases (hc ▸ hw) hl (hh ▸ hn)

/-- The tokens after one call has changed. -/
theorem Token.of_update {y : LockCall} (h : Token hist s' x host f) (hh : s'.handled = s.handled)
    (hc : s'.calls = Function.update s.calls n (some y)) :
    x ≠ .inr n ∧ Token hist s x host f ∨ x = .inr n ∧ ∃ request, y = .waiting host request ∧
      f = request.fold ∧ (request.lockType = .unlock ∨ ∃ e ∈ s.handled, e.call = n) := by
  cases h with
  | holds hx => exact Or.inl ⟨nofun, .holds hx⟩
  | granted he hw hl hr =>
    rw [hh] at he
    rw [hc] at hw
    rcases Service.update_eq_some hw with ⟨rfl, hy⟩ | ⟨hne, hw⟩
    · exact Or.inr ⟨rfl, _, hy, rfl, Or.inr ⟨_, he, rfl⟩⟩
    · exact Or.inl ⟨fun hx => hne (Sum.inr.inj hx), .granted he hw hl hr⟩
  | releases hw hl hn =>
    rw [hh] at hn
    rw [hc] at hw
    rcases Service.update_eq_some hw with ⟨rfl, hy⟩ | ⟨hne, hw⟩
    · exact Or.inr ⟨rfl, _, hy, rfl, Or.inl hl⟩
    · exact Or.inl ⟨fun hx => hne (Sum.inr.inj hx), .releases hw hl hn⟩

/-- The tokens after a call has begun. -/
theorem Token.of_start (hi : lockService.Inv s) (hnew : s.calls n = none)
    (h : Token hist (s.start n host request) x host' f) :
    x ≠ .inr n ∧ Token hist s x host' f ∨
      x = .inr n ∧ host' = host ∧ f = request.fold ∧ request.lockType = .unlock := by
  rcases h.of_update (s := s) rfl rfl with h | ⟨hx, request', hy, hf, hl | ⟨e, he, rfl⟩⟩
  · exact Or.inl h
  · cases hy
    exact Or.inr ⟨hx, rfl, hf, hl⟩
  · exact absurd hnew (hi.known e he)

theorem Tokens.writes_start (h : Tokens hist s owner)
    (hl : request.lockType = .wLock ∨ request.lockType = .unlock) {m : Nat} {host' : Bytes}
    {request' : PageLockRequest}
    (hw : (s.start n host request).calls m = some (.waiting host' request')) :
    request'.lockType = .wLock ∨ request'.lockType = .unlock := by
  rcases Service.update_eq_some hw with ⟨-, hy⟩ | ⟨-, hw⟩
  · cases hy
    exact hl
  · exact h.writes hw

/-- A call for a write lock. -/
theorem Tokens.start_write (h : Tokens hist s owner) (hi : lockService.Inv s)
    (hnew : s.calls n = none) (hl : request.lockType = .wLock) :
    Tokens (hist ++ [.begins n (host, request)]) (s.start n host request) owner := by
  have hhold : holding (hist ++ [.begins n (host, request)]) = holding hist := by
    rw [holding_snoc]
    simp [holdingStep, hl]
  refine h.move id rfl (fun ht => ?_) (fun _ _ hxy => hxy) (h.writes_start (Or.inl hl))
    (hhold ▸ h.modes)
  rcases (ht.mono fun z _ hz => hhold ▸ hz).of_start hi hnew with ⟨-, ht⟩ | ⟨-, -, -, hu⟩
  · exact ht
  · rw [hl] at hu
    cases hu

/-- A call that gives up what its host holds takes over the token. -/
theorem Tokens.start_unlock (h : Tokens hist s owner) (hi : lockService.Inv s)
    (hnew : s.calls n = none) (hl : request.lockType = .unlock) {w : Hold} (hw : w ∈ holding hist)
    (hclient : w.client = host) (hpage : w.page = request.page) :
    Tokens (hist ++ [.begins n (host, request)]) (s.start n host request) owner := by
  have hhold : ∀ z, z ∈ holding (hist ++ [.begins n (host, request)]) ↔
      z ∈ holding hist ∧ ¬ (z.client = host ∧ z.page = request.page) := by
    intro z
    rw [holding_snoc]
    simp only [holdingStep, hl, if_true, List.mem_filter, decide_eq_true_eq]
  have hfold : w.fold = request.fold := by
    unfold Hold.fold
    rw [hpage]
    rfl
  -- the hold is no token any more
  have hgone : ∀ {host' f'}, ¬ Token (hist ++ [.begins n (host, request)])
      (s.start n host request) (.inl w) host' f' := by
    rintro host' f' (hx | -)
    exact ((hhold w).1 hx).2 ⟨hclient, hpage⟩
  refine h.move (fun x => if x = .inr n then .inl w else x) rfl (fun ht => ?_)
    (fun {x y} _ _ _ hx hy hxy => ?_) (h.writes_start (Or.inr hl))
    (fun z hz => h.modes z ((hhold z).1 hz).1)
  · rcases (ht.of_start hi hnew) with ⟨hx, ht⟩ | ⟨rfl, rfl, rfl, -⟩
    · rw [if_neg hx]
      exact ht.mono fun z _ hz => ((hhold z).1 hz).1
    · rw [if_pos rfl, ← hclient, ← hfold]
      exact .holds hw
  · split_ifs at hxy with h₁ h₂ h₂
    · rw [h₁, h₂]
    · exact absurd (hxy ▸ hy) hgone
    · exact absurd (hxy ▸ hx) hgone
    · exact hxy

/-- A call that fails before it has sent its request. -/
theorem Tokens.fail (h : Tokens hist s owner) : Tokens hist (s.fail n) owner := by
  refine h.move id rfl (fun ht => ?_) (fun _ _ hxy => hxy) (fun hw => ?_) h.modes
  · rcases ht.of_update (s := s) rfl rfl with ⟨-, ht⟩ | ⟨-, request, hy, -⟩
    · exact ht
    · cases hy
  · rcases Service.update_eq_some hw with ⟨-, hy⟩ | ⟨-, hw⟩
    · cases hy
    · exact h.writes hw

/-- A call that returns: with `LOCK_SUCCESS`, the token of the reply becomes a hold. -/
theorem Tokens.take (h : Tokens hist s owner) (hi : lockService.Inv s)
    (hc : s.calls n = some (.waiting host request)) {m : Letter Bytes PageLockReply}
    (hm : s.boxes.find? (lockService.accepts host request) = some m) :
    Tokens (hist ++ [.returns n (host, request) m.body]) (lockService.take s n host request m)
      owner := by
  have hback : ∀ {hist x host' f}, Token hist (lockService.take s n host request m) x host' f →
      x ≠ .inr n ∧ Token hist s x host' f := by
    intro hist x host' f ht
    rcases ht.of_update (s := s) rfl rfl with ht | ⟨-, request', hy, -⟩
    · exact ht
    · cases hy
  have hwrites : ∀ {k host' request'},
      (lockService.take s n host request m).calls k = some (.waiting host' request') →
      request'.lockType = .wLock ∨ request'.lockType = .unlock := by
    intro k host' request' hw
    rcases Service.update_eq_some hw with ⟨-, hy⟩ | ⟨-, hw⟩
    · cases hy
    · exact h.writes hw
  by_cases hs : request.lockType ≠ .unlock ∧ m.body.replyType = .lockSuccess
  · have hhold : holding (hist ++ [.returns n (host, request) m.body]) =
        ⟨host, request.page, request.lockType⟩ :: holding hist := by
      rw [holding_snoc]
      exact if_pos hs
    refine h.move (fun x => if x = .inl ⟨host, request.page, request.lockType⟩ then .inr n else x)
      rfl (fun ht => ?_) (fun {x y} _ _ _ hx hy hxy => ?_) hwrites ?_
    · split_ifs with hx
      · subst hx
        cases ht
        exact .granted (hi.mem_handled_of_find? hc hm) hc hs.1 hs.2
      · refine (hback ht).2.mono fun z hz hmem => ?_
        rw [hhold] at hmem
        rcases List.mem_cons.1 hmem with rfl | hmem
        · exact absurd hz hx
        · exact hmem
    · split_ifs at hxy with h₁ h₂ h₂
      · rw [h₁, h₂]
      · exact absurd hxy.symm (hback hy).1
      · exact absurd hxy (hback hx).1
      · exact hxy
    · rw [hhold]
      intro z hz
      rcases List.mem_cons.1 hz with rfl | hz
      · exact (h.writes hc).resolve_right hs.1
      · exact h.modes z hz
  · have hhold : holding (hist ++ [.returns n (host, request) m.body]) = holding hist := by
      rw [holding_snoc]
      exact if_neg hs
    refine h.move id rfl (fun ht => ?_) (fun _ _ hxy => hxy) hwrites (hhold ▸ h.modes)
    exact (hback ht).2.mono fun z _ hz => hhold ▸ hz

/-! ## The server -/

/-- The tokens after the server has handled a request: that of the request is gone, and a lock that
is granted has a new one. -/
theorem Token.of_handle (hi : lockService.Inv s) {m : Letter Bytes PageLockRequest}
    {rest : List (Letter Bytes PageLockRequest)} (hm : m ∈ s.requests)
    (h : Token hist (lockService.handle s m rest) x host f) :
    x ≠ .inr m.call ∧ Token hist s x host f ∨
      x = .inr m.call ∧ host = m.addr ∧ f = m.body.fold ∧ m.body.lockType ≠ .unlock ∧
        (lockService.answer s.server m.addr m.body).2.replyType = .lockSuccess := by
  cases h with
  | holds hx => exact Or.inl ⟨nofun, .holds hx⟩
  | granted he hw hl hr =>
    rcases List.mem_append.1 he with he | he
    · exact Or.inl ⟨fun hx => hi.unanswered m hm _ he (Sum.inr.inj hx), .granted he hw hl hr⟩
    · rw [List.mem_singleton.1 he] at hl hr ⊢
      exact Or.inr ⟨rfl, rfl, rfl, hl, hr⟩
  | @releases n host request hw hl hn =>
    refine Or.inl ⟨fun hx => ?_, .releases hw hl fun e he => hn e (List.mem_append_left _ he)⟩
    exact hn _ (List.mem_append_right _ List.mem_cons_self) (Sum.inr.inj hx).symm

/-- The server handles a request. -/
theorem Tokens.handle (h : Tokens hist s owner) (hi : lockService.Inv s)
    {m : Letter Bytes PageLockRequest} {rest : List (Letter Bytes PageLockRequest)}
    (hm : m ∈ s.requests) :
    ∃ owner', Tokens hist (lockService.handle s m rest) owner' := by
  have hasked := hi.asked m hm
  have htoken : m.body.lockType = .unlock → Token hist s (.inr m.call) m.addr m.body.fold :=
    fun hl => .releases hasked hl (hi.unanswered m hm)
  have huse : OwnerUse owner ⟨m.addr, m.body⟩ :=
    (h.writes hasked).imp id fun hl => ⟨hl, h.owned (htoken hl)⟩
  obtain ⟨hsim, hreply⟩ := h.sim.step huse
  -- the other tokens of the fold stay only where the lock stays as it is
  have hkeep : ∀ {x host f}, x ≠ .inr m.call → Token hist s x host f →
      (tryLock.step owner ⟨m.addr, m.body⟩).1 f = some host := by
    intro x host f hx ht
    by_cases hf : f = m.body.fold
    · subst hf
      by_cases hl : m.body.lockType = .unlock
      · exact absurd (h.one ht (htoken hl)) hx
      · rw [tryLock_step_owned (a := ⟨m.addr, m.body⟩) hl (h.owned ht)]
        exact h.owned ht
    · rw [tryLock_step_ne owner ⟨m.addr, m.body⟩ hf]
      exact h.owned ht
  have hfree : m.body.lockType ≠ .unlock →
      (lockService.answer s.server m.addr m.body).2.replyType = .lockSuccess →
      owner m.body.fold = none := by
    intro hl hr
    cases ho : owner m.body.fold with
    | none => rfl
    | some c =>
      rw [tryLock_step_owned (a := ⟨m.addr, m.body⟩) hl ho] at hreply
      rw [show (lockService.answer s.server m.addr m.body).2 = _ from hreply] at hr
      cases hr
  refine ⟨_, hsim, ?_, ?_, h.writes, h.modes⟩
  · intro x host f ht
    rcases ht.of_handle hi hm with ⟨hx, ht⟩ | ⟨-, rfl, rfl, hl, hr⟩
    · exact hkeep hx ht
    · exact tryLock_step_free (a := ⟨m.addr, m.body⟩) hl (hfree hl hr)
  · -- a new token means that the lock was free, and there was no other one
    intro x y host host' f hx hy
    rcases hx.of_handle hi hm with ⟨-, hx⟩ | ⟨rfl, -, rfl, hl, hr⟩
    · rcases hy.of_handle hi hm with ⟨-, hy⟩ | ⟨-, -, rfl, hl, hr⟩
      · exact h.one hx hy
      · cases (hfree hl hr).symm.trans (h.owned hx)
    · rcases hy.of_handle hi hm with ⟨-, hy⟩ | ⟨rfl, -⟩
      · cases (hfree hl hr).symm.trans (h.owned hy)
      · rfl

/-- **Every step keeps the tokens.** -/
theorem Tokens.emits (h : Tokens hist s owner) (hi : lockService.Inv s) {ev : List LockEvent}
    (hu : WritesHeld (hist ++ ev)) (he : lockService.Emits s ev s') :
    ∃ owner', Tokens (hist ++ ev) s' owner' := by
  cases he with
  | stay => exact ⟨owner, (List.append_nil hist).symm ▸ h⟩
  | start hnew =>
    rcases (Machine.guarded_snoc.1 hu).2 with hl | ⟨hl, w, hw, hclient, hpage⟩
    · exact ⟨owner, h.start_write hi hnew hl⟩
    · exact ⟨owner, h.start_unlock hi hnew hl hw hclient hpage⟩
  | fail => exact ⟨owner, (List.append_nil hist).symm ▸ h.fail⟩
  | handle hm =>
    rw [List.append_nil]
    exact h.handle hi (by rw [hm]; simp)
  | deliver =>
    rw [List.append_nil]
    exact ⟨owner, h.move id rfl (fun ht => ht.congr rfl rfl) (fun _ _ hxy => hxy) h.writes h.modes⟩
  | take hc hm => exact ⟨owner, h.take hi hc hm⟩

end

/-- The tokens of the callers, as long as they keep to write locks. -/
def HasTokens (hist : List LockEvent) (s : Letters) : Prop :=
  WritesHeld hist → ∃ owner, Tokens hist s owner

theorem hasTokens_init : HasTokens [] { server := [] } := fun _ => ⟨_, tokens_init⟩

theorem HasTokens.emits {hist ev : List LockEvent} {s s' : Letters} (ht : HasTokens hist s)
    (hi : lockService.Inv s) (he : lockService.Emits s ev s') : HasTokens (hist ++ ev) s' := by
  intro hu
  obtain ⟨owner, ht⟩ := ht hu.of_append
  exact ht.emits hi hu he

/-- A hold is a token, and its owner is the holder. -/
theorem HasTokens.heldAlone {hist : List LockEvent} {s : Letters} (ht : HasTokens hist s)
    (hu : WritesHeld hist) : HeldAlone s.server (holding hist) := by
  obtain ⟨owner, ht⟩ := ht hu
  intro x hx
  refine ⟨ht.modes x hx, ?_, fun y hy hf => ?_⟩
  · have hown : OwnedBy (lookup s.server (hashKey x.fold)) (owner x.fold) :=
      ht.sim x.page.1 x.page.2
    rw [ht.owned (.holds hx)] at hown
    cases hl : lookup s.server (hashKey x.fold) with
    | none =>
      rw [hl] at hown
      exact hown.elim
    | some r =>
      rw [hl] at hown
      exact ⟨r, hl, hown.1, hown.2.1⟩
  · have hy' : Token hist s (.inl y) y.client x.fold := hf ▸ .holds hy
    exact Sum.inl.inj (ht.one hy' (.holds hx))

/-- **The callers exclude one another.** -/
theorem heldAlone_of_writesHeld {lockServerHost : Bytes} {server : EventMessageHandle}
    {clients : AssocMap Bytes EventMessageHandle} (h : ClusterReady lockServerHost server clients)
    {as : List ClusterAction} {c : Cluster} {hist : List LockEvent}
    (hrun : (lockCalls lockServerHost server clients).run as = some (c, hist))
    (hu : WritesHeld hist) : HeldAlone c.table (holding hist) := by
  obtain ⟨s, hr, -, ht⟩ := letters_of_emits (I := HasTokens) h hasTokens_init
    (fun hi ht he => ht.emits hi he) hrun
  rw [← hr.wire.table]
  exact ht.heldAlone hu

/-- `host1` gives the page up before `lock_client` gets it. -/
theorem heldAlone_overtakes :
    ∃ c hist, (lockCalls (Bytes.ofAscii "lock_server") lockServer twoClients).run overtakes =
        some (c, hist) ∧ holding hist = [⟨Bytes.ofAscii "lock_client", (1, 1), .wLock⟩] ∧
      HeldAlone c.table (holding hist) := by
  have hrun : ((lockCalls (Bytes.ofAscii "lock_server") lockServer twoClients).run
      overtakes).any (fun x => decide (WritesHeld x.2) &&
        decide (holding x.2 = [⟨Bytes.ofAscii "lock_client", (1, 1), .wLock⟩])) = true := by
    decide +kernel
  obtain ⟨⟨c, hist⟩, hrun, hx⟩ := (Option.any_eq_true _ _).1 hrun
  rw [Bool.and_eq_true, decide_eq_true_iff, decide_eq_true_iff] at hx
  exact ⟨c, hist, hrun, hx.2, heldAlone_of_writesHeld twoClients_ready hrun hx.1⟩

end Lock
