import Mtc.Lock.Calls
import Mtc.Lock.Proof.Cluster

/-!
# The lock service is linearizable

The steps of the cluster are those of the letters, with the same events (`Refines.emits`); so the
order in which the server has handled the requests explains the history of every run
(`lockCalls_linearizes`).
-/

namespace Lock

open Net
open Service (Letter Call)

section
variable {lockServerHost localHostName : Bytes} {c c' : Cluster} {s : Letters}
  {server : EventMessageHandle} {clients : AssocMap Bytes EventMessageHandle}

/-- An action changes no call but its own. -/
theorem findKey_calls_next {a : ClusterAction}
    (hn : (lockCluster lockServerHost server clients).next c a = some c') {n : Nat}
    (hne : a.call ≠ some n) : c'.calls.findKey n = c.calls.findKey n := by
  cases a with
  | request call host request connects =>
    have hne : n ≠ call := fun h => hne (congrArg some h.symm)
    change c.request lockServerHost call host request connects = some c' at hn
    unfold Cluster.request at hn
    split_ifs at hn
    obtain ⟨h, -, hn⟩ := Option.bind_eq_some_iff.1 hn
    split at hn
    · cases hn
      rw [AssocMap.findKey_assign_eq_update, Function.update_of_ne hne]
    · cases hn
      rw [AssocMap.findKey_assign_eq_update, Function.update_of_ne hne]
    · cases hn
  | handle i connects =>
    obtain ⟨p, -, hn⟩ := Option.bind_eq_some_iff.1 hn
    split at hn <;> cases hn <;> rfl
  | deliver i =>
    obtain ⟨p, -, hn⟩ := Option.bind_eq_some_iff.1 hn
    split at hn
    · cases hn
      rfl
    · split at hn <;> cases hn <;> rfl
  | wait call =>
    have hne : n ≠ call := fun h => hne (congrArg some h.symm)
    change c.wait call = some c' at hn
    unfold Cluster.wait at hn
    split at hn
    · obtain ⟨h, -, hn⟩ := Option.bind_eq_some_iff.1 hn
      split at hn
      · cases hn
        exact AssocMap.findKey_put_ne hne _ _
      · cases hn
        rfl
      · obtain ⟨m, -, rfl⟩ := Option.map_eq_some_iff.1 hn
        exact AssocMap.findKey_put_ne hne _ _
      · cases hn
    · cases hn

/-- What the cluster does, the letters do, and the callers see the same of it. -/
theorem Refines.emits (hs : 0 ∉ lockServerHost) (hl : 0 ∉ localHostName)
    (hr : Refines lockServerHost localHostName c s) (hi : lockService.Inv s) {a : ClusterAction}
    (hn : (lockCluster lockServerHost server clients).next c a = some c') :
    ∃ s', lockService.Emits s (c.events a c') s' ∧ lockService.Inv s' ∧
      Refines lockServerHost localHostName c' s' := by
  obtain ⟨s', hstep, hr'⟩ := hr.next hs hl hi hn
  have hoff : ∀ n, a.call ≠ some n → s'.calls n = s.calls n := by
    intro n hne
    rw [hr.wire.calls, hr'.wire.calls]
    exact findKey_calls_next hn hne
  have hev : c.events a c' =
      a.call.elim [] fun n => Service.callEvents n (s.calls n) (s'.calls n) := by
    rw [hr.wire.calls, hr'.wire.calls]
    rfl
  rw [hev]
  rcases hstep with rfl | hstep
  · have hself : (a.call.elim [] fun n => Service.callEvents n (s'.calls n) (s'.calls n)) = [] := by
      cases a.call with
      | none => rfl
      | some n => exact Service.callEvents_self n _
    rw [hself]
    exact ⟨s', .stay, hi, hr'⟩
  · exact ⟨s', hstep.emits hoff, hi.step hstep, hr'⟩

/-- The rule for what holds of the letters and of what the callers have seen. -/
theorem letters_of_emits {I : List LockEvent → Letters → Prop}
    (h : ClusterReady lockServerHost server clients) (h0 : I [] { server := [] })
    (hstep : ∀ {hist ev s s'}, lockService.Inv s → I hist s → lockService.Emits s ev s' →
      I (hist ++ ev) s')
    {as : List ClusterAction} {x : Cluster × List LockEvent}
    (hrun : (lockCalls lockServerHost server clients).run as = some x) :
    ∃ s, Refines lockServerHost server.localHostName x.1 s ∧ lockService.Inv s ∧ I x.2 s := by
  refine System.inv_of_step (I := fun x => ∃ s,
    Refines lockServerHost server.localHostName x.1 s ∧ lockService.Inv s ∧ I x.2 s)
    (fun x a x' hn hx => ?_) hrun ⟨_, refines_init h, Service.inv_init [], h0⟩
  obtain ⟨s, hr, hi, hI⟩ := hx
  obtain ⟨hn, hhist⟩ := System.next_withHistory hn
  obtain ⟨s', hemits, hi', hr'⟩ := hr.emits h.lockServerHost h.localHostName hi hn
  rw [hhist]
  exact ⟨s', hr', hi', hstep hi hI hemits⟩

/-- **The lock service is linearizable.** -/
theorem lockCalls_linearizes (h : ClusterReady lockServerHost server clients)
    {as : List ClusterAction}
    (hrun : (lockCluster lockServerHost server clients).run as = some c) :
    ∃ hist, (lockCalls lockServerHost server clients).run as = some (c, hist) ∧
      lockObject.Linearizes hist
        (c.handled.map fun e => (e.1, (e.2.1.asker, e.2.1.request), e.2.2.2)) := by
  obtain ⟨hist, hrun⟩ := System.exists_runFrom_withHistory Cluster.events [] hrun
  obtain ⟨s, hr, -, hlin⟩ := letters_of_emits (I := lockService.Linear []) h
    (Service.linear_init lockService []) (fun hi hl he => hl.emits hi he) hrun
  refine ⟨hist, hrun, ?_⟩
  have hl := hlin.lin
  rw [hr.wire.handled, List.map_map] at hl
  exact hl

end

/-- The call of `host1` begins second and is handled first; it gives the lock up before the server
sees the first call. -/
def overtakes : List ClusterAction :=
  [.request 0 (Bytes.ofAscii "lock_client") ⟨1, 1, 1, .wLock⟩ true,
    .request 1 (Bytes.ofAscii "host1") ⟨1, 1, 1, .wLock⟩ true,
    .handle 1 true, .deliver 0, .wait 1,
    .request 2 (Bytes.ofAscii "host1") ⟨1, 1, 1, .unlock⟩ true,
    .handle 1 true, .handle 0 true, .deliver 0, .deliver 0, .wait 0, .wait 2]

theorem exists_run_overtakes :
    ∃ c, (lockCluster (Bytes.ofAscii "lock_server") lockServer twoClients).run overtakes =
      some c ∧ c.handled.map Prod.fst = [1, 2, 0] := by
  have hrun : ((lockCluster (Bytes.ofAscii "lock_server") lockServer twoClients).run
      overtakes).any (fun c => c.handled.map Prod.fst = [1, 2, 0]) = true := by
    decide +kernel
  obtain ⟨hsome, hc⟩ := (Option.any_eq_true_iff_get _ _).1 hrun
  exact ⟨_, (Option.some_get hsome).symm, of_decide_eq_true hc⟩

theorem lockCalls_linearizes_overtakes :
    ∃ c hist, (lockCalls (Bytes.ofAscii "lock_server") lockServer twoClients).run overtakes =
        some (c, hist) ∧ c.handled.map Prod.fst = [1, 2, 0] ∧
      lockObject.Linearizes hist
        (c.handled.map fun e => (e.1, (e.2.1.asker, e.2.1.request), e.2.2.2)) := by
  obtain ⟨c, hrun, hc⟩ := exists_run_overtakes
  obtain ⟨hist, hrun', hlin⟩ := lockCalls_linearizes twoClients_ready hrun
  exact ⟨c, hist, hrun', hc, hlin⟩

end Lock
