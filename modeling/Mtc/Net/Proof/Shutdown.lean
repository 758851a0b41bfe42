import Mtc.Net.Shutdown
import Mtc.Net.Proof.Listen

/-!
# `free_handle` releases nothing

On an empty table the loop of `free_handle` does not end (`freeHandle_empty`). On any other it does
not begin: the table is cleared (`freeHandle_cleared`) with every connection still open
(`freeHandle_nonempty`).
-/

namespace Net

open Except (ok_bind)

namespace Handle

variable {junk : Nat → Int32} {fuel : Nat} {h h' : Handle}

/-- Nothing is found in an empty table, and it stays empty. -/
theorem removeBuffevent_empty {id : Int32} (he : h.lib.bevMap.entries = [])
    (hr : h.removeBuffevent id = .ok h') : h'.lib.bevMap.entries = [] := by
  have hfind : h.lib.bevMap.findKey id = none := by
    rw [AssocMap.findKey, he]
    rfl
  rw [removeBuffevent, LibeventHandle.removeBuffevent, hfind] at hr
  cases hlock : rwWLock h.lib.bevMapRwLockSingal with
  | none =>
    rw [hlock] at hr
    cases hr
  | some singal =>
    rw [hlock] at hr
    cases hr
    exact he

/-- A loop that has begun does not end. -/
theorem freeLoop_empty (he : h.lib.bevMap.entries = []) : freeLoop junk fuel h ≠ .ok (some h') := by
  induction fuel generalizing h junk with
  | zero =>
    intro hl
    cases hl
  | succ fuel ih =>
    intro hl
    rw [freeLoop, he, if_pos List.isEmpty_nil] at hl
    cases hr : h.removeBuffevent (h.firstId (junk 0)) with
    | error e =>
      rw [hr] at hl
      cases hl
    | ok h₁ =>
      rw [hr, ok_bind] at hl
      exact ih (removeBuffevent_empty he hr) hl

/-- A table with connections: the loop is passed over. -/
theorem freeLoop_nonempty (he : h.lib.bevMap.entries ≠ []) :
    freeLoop junk (fuel + 1) h = .ok (some h) := by
  rw [freeLoop, if_neg (by rwa [List.isEmpty_iff])]
  rfl

section
variable {lib : LibeventHandle} {b : Bool}

/-- A call that returns has got the lock, and its loop has ended. -/
theorem freeHandle_returns (hf : freeHandle junk fuel { lib := lib } = .ok (some (b, h))) :
    ∃ singal h₁, freeLoop junk fuel
        { lib := { lib with bevMapRwLockSingal := singal }, isFree := true } = .ok (some h₁) ∧
      h.freed = h₁.freed := by
  simp only [freeHandle, Bool.false_eq_true, if_false] at hf
  cases hlock : rwWLock lib.bevMapRwLockSingal with
  | none =>
    rw [hlock] at hf
    cases hf
  | some singal =>
    rw [hlock, orFault, ok_bind] at hf
    refine ⟨singal, ?_⟩
    cases hl : freeLoop junk fuel
        { lib := { lib with bevMapRwLockSingal := singal }, isFree := true } with
    | error e =>
      rw [hl] at hf
      cases hf
    | ok o =>
      rw [hl, ok_bind] at hf
      cases o with
      | none => cases hf
      | some h₁ =>
        cases hf
        exact ⟨h₁, rfl, rfl⟩

/-- On an empty table `free_handle` does not return. -/
theorem freeHandle_empty (he : lib.bevMap.entries = []) :
    freeHandle junk fuel { lib := lib } ≠ .ok (some (b, h)) := by
  intro hf
  obtain ⟨singal, h₁, hl, -⟩ := freeHandle_returns hf
  exact freeLoop_empty he hl

/-- From any other it returns with nothing freed. -/
theorem freeHandle_nonempty (he : lib.bevMap.entries ≠ [])
    (hf : freeHandle junk fuel { lib := lib } = .ok (some (b, h))) : h.freed = [] := by
  obtain ⟨singal, h₁, hl, hfreed⟩ := freeHandle_returns hf
  rw [hfreed]
  cases fuel with
  | zero => cases hl
  | succ fuel =>
    rw [freeLoop_nonempty he] at hl
    cases hl
    rfl

/-- On a table at rest it does return, with the table cleared and the locks free. -/
theorem freeHandle_cleared (he : lib.bevMap.entries ≠ []) (hl : lib.AtRest) :
    freeHandle junk (fuel + 1) { lib := lib } = .ok (some (true, {
      lib := { lib with bevMap := ∅, listenIdVector := [] }, isFree := true })) := by
  have hw : rwWUnlock (-1) = 0 := by decide
  obtain ⟨hs, hls⟩ := hl
  obtain ⟨maxBevId, singal, bevMap, listenSingal, listenIdVector⟩ := lib
  subst hs hls
  simp only [freeHandle, Bool.false_eq_true, if_false, rwWLock_zero, ok_bind,
    freeLoop_nonempty (h := ⟨⟨maxBevId, -1, bevMap, 0, listenIdVector⟩, true, []⟩) he, hw]
  rfl

end

/-- **Shutdown releases no table**: on an empty one it does not end, and from any other it frees
no connection. -/
theorem not_releases_all (junk : Nat → Int32) (lib : LibeventHandle) :
    ¬ ReleasesAll junk lib := by
  rintro ⟨fuel, b, h, hf, hperm, -⟩
  by_cases he : lib.bevMap.entries = []
  · exact freeHandle_empty he hf
  · rw [freeHandle_nonempty he hf] at hperm
    exact he (List.map_eq_nil_iff.1 (List.nil_perm.1 hperm))

/-- A table with one connection. -/
def oneConnection : LibeventHandle where
  bevMap := (∅ : AssocMap Int32 BevInfor).assign 0 { ip := [], port := 80, isListen := false }

/-- A table without connections, and one with a connection. -/
theorem not_releases_one : ¬ ReleasesAll (fun _ => 0) {} ∧
    ¬ ReleasesAll (fun _ => 0) oneConnection := by
  constructor
  · rintro ⟨fuel, b, h, hf, -⟩
    exact freeHandle_empty rfl hf
  · rintro ⟨fuel, b, h, hf, hperm, -⟩
    rw [freeHandle_nonempty (by decide) hf] at hperm
    exact absurd (List.nil_perm.1 hperm) (by decide)

end Handle

end Net
