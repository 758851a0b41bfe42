import Mathlib.Data.List.Perm.Basic
import Mathlib.Logic.Function.Basic
import Mtc.Lib.Machine

/-!
# Queues with handlers

Some keys have an entry: a queue of messages and perhaps a handler. A message delivered for such a
key goes to its handler or to the end of its queue; a read takes the first message of the queue
that it accepts. What is asked for any other key is refused.

`ledger`: in every run from empty queues the messages queued for a key are those that were read
and those still in its queue, which are in the order they came in.
-/

namespace Queues

variable {K M : Type*}

/-- What is kept for a key. -/
structure Entry (M : Type*) where
  handler : Option Nat := none
  queue : List M := []

/-- What can be done with an entry. -/
inductive Action (M : Type*) where
  | deliver (m : M)
  | register (f : Nat)
  | take (p : M → Bool)

inductive Reply (M : Type*) where
  | refused
  | handled (f : Nat) (m : M)
  | queued
  | registered
  | nothing
  | took (m : M)

def Entry.act (e : Entry M) : Action M → Entry M × Reply M
  | .deliver m =>
    match e.handler with
    | some f => (e, .handled f m)
    | none => ({ e with queue := e.queue ++ [m] }, .queued)
  | .register f => ({ e with handler := some f }, .registered)
  | .take p =>
    match e.queue.find? p with
    | some m => ({ e with queue := e.queue.eraseP p }, .took m)
    | none => (e, .nothing)

/-- The queue of a key. -/
def queue (s : K → Option (Entry M)) (k : K) : List M := ((s k).map Entry.queue).getD []

theorem queue_eq {s : K → Option (Entry M)} {k : K} {e : Entry M} (h : s k = some e) :
    queue s k = e.queue := by
  rw [queue, h]
  rfl

section
variable [DecidableEq K]

/-- The entries under a request: an action for a key, or nothing. -/
def machine (s : K → Option (Entry M)) :
    Machine (K → Option (Entry M)) (Option (K × Action M)) (Reply M) where
  init := s
  step s
    | none => (s, .refused)
    | some (k, a) =>
      match s k with
      | none => (s, .refused)
      | some e => (Function.update s k (some (e.act a).1), (e.act a).2)

/-- The message that a request of the run appends to the queue of a key. -/
def appended (k : K) : Option (K × Action M) × Reply M → Option M
  | (some (k', .deliver m), .queued) => if k' = k then some m else none
  | _ => none

/-- The message that a request of the run takes from the queue of a key. -/
def removed (k : K) : Option (K × Action M) × Reply M → Option M
  | (some (k', _), .took m) => if k' = k then some m else none
  | _ => none

/-- The account of a queue at the end of a run. -/
structure Ledger (k : K) (tr : List (Option (K × Action M) × Reply M)) (queue : List M) :
    Prop where
  /-- Nothing is lost, and nothing is there twice. -/
  perm : (tr.filterMap (appended k)).Perm (tr.filterMap (removed k) ++ queue)
  /-- What is left is in the order it came in. -/
  order : queue.Sublist (tr.filterMap (appended k))

variable {s s₀ : K → Option (Entry M)} {k k' : K} {tr : List (Option (K × Action M) × Reply M)}

/-! ## One step -/

theorem step_unknown (h : s k = none) (a : Action M) :
    (machine s₀).step s (some (k, a)) = (s, .refused) := by
  simp only [machine, h]

theorem step_known {e : Entry M} (h : s k = some e) (a : Action M) :
    (machine s₀).step s (some (k, a)) =
      (Function.update s k (some (e.act a).1), (e.act a).2) := by
  simp only [machine, h]

theorem queue_update_self (e : Entry M) : queue (Function.update s k (some e)) k = e.queue :=
  queue_eq (Function.update_self k (some e) s)

theorem queue_update_ne (h : k' ≠ k) (e : Option (Entry M)) :
    queue (Function.update s k e) k' = queue s k' := by
  rw [queue, queue, Function.update_of_ne h]

/-! ## Accounts -/

/-- A request that appends nothing to a queue and takes nothing from it keeps its account. -/
theorem Ledger.other {q : List M} (h : Ledger k tr q) {x : Option (K × Action M) × Reply M}
    (ha : appended k x = none) (hr : removed k x = none) : Ledger k (tr ++ [x]) q := by
  have happ : (tr ++ [x]).filterMap (appended k) = tr.filterMap (appended k) := by
    simp [ha]
  have hrem : (tr ++ [x]).filterMap (removed k) = tr.filterMap (removed k) := by
    simp [hr]
  exact ⟨by rw [happ, hrem]; exact h.perm, by rw [happ]; exact h.order⟩

theorem Ledger.append {q : List M} (h : Ledger k tr q) {x : Option (K × Action M) × Reply M}
    {m : M} (ha : appended k x = some m) (hr : removed k x = none) :
    Ledger k (tr ++ [x]) (q ++ [m]) := by
  have happ : (tr ++ [x]).filterMap (appended k) = tr.filterMap (appended k) ++ [m] := by
    simp [ha]
  have hrem : (tr ++ [x]).filterMap (removed k) = tr.filterMap (removed k) := by
    simp [hr]
  refine ⟨?_, ?_⟩
  · rw [happ, hrem, ← List.append_assoc]
    exact h.perm.append_right [m]
  · rw [happ]
    exact h.order.append (List.Sublist.refl [m])

/-- A list is the element found in it and the others. -/
theorem perm_eraseP {q : List M} {p : M → Bool} {m : M} (h : q.find? p = some m) :
    q.Perm (m :: q.eraseP p) := by
  obtain ⟨hm, as, bs, rfl, has⟩ := List.find?_eq_some_iff_append.1 h
  rw [List.eraseP_append_right _ (by simpa using has), List.eraseP_cons_of_pos hm]
  exact List.perm_middle

theorem Ledger.remove {q : List M} (h : Ledger k tr q) {x : Option (K × Action M) × Reply M}
    {m : M} {p : M → Bool} (ha : appended k x = none) (hr : removed k x = some m)
    (hm : q.find? p = some m) : Ledger k (tr ++ [x]) (q.eraseP p) := by
  have happ : (tr ++ [x]).filterMap (appended k) = tr.filterMap (appended k) := by
    simp [ha]
  have hrem : (tr ++ [x]).filterMap (removed k) = tr.filterMap (removed k) ++ [m] := by
    simp [hr]
  refine ⟨?_, by rw [happ]; exact List.eraseP_sublist.trans h.order⟩
  -- the queue is the message taken and the others
  have hq : q.Perm (m :: q.eraseP p) := perm_eraseP hm
  rw [happ, hrem, List.append_assoc]
  exact h.perm.trans (hq.append_left _)

/-- One step keeps the accounts of all queues. -/
theorem Ledger.step (h : ∀ k, Ledger k tr (queue s k)) (op : Option (K × Action M)) (k : K) :
    Ledger k (tr ++ [(op, ((machine s₀).step s op).2)]) (queue ((machine s₀).step s op).1 k) := by
  rcases op with - | ⟨k', a⟩
  · exact (h k).other rfl rfl
  cases hk : s k' with
  | none =>
    rw [step_unknown hk]
    exact (h k).other (by cases a <;> rfl) rfl
  | some e =>
    rw [step_known hk]
    by_cases hne : k' = k
    · subst hne
      have hq := queue_eq hk
      have hl := h k'
      rw [hq] at hl
      rw [queue_update_self]
      cases a with
      | deliver m =>
        cases hf : e.handler with
        | some f =>
          simp only [Entry.act, hf]
          exact hl.other rfl rfl
        | none =>
          simp only [Entry.act, hf]
          exact hl.append (by simp [appended]) rfl
      | register f => exact hl.other rfl rfl
      | take p =>
        cases hm : e.queue.find? p with
        | none =>
          simp only [Entry.act, hm]
          exact hl.other rfl rfl
        | some m =>
          simp only [Entry.act, hm]
          exact hl.remove rfl (by simp [removed]) hm
    · rw [queue_update_ne (Ne.symm hne)]
      refine (h k).other ?_ ?_
      · unfold appended
        split <;> simp_all
      · unfold removed
        split <;> simp_all

/-- **Nothing is lost and nothing is doubled** in a run from empty queues. -/
theorem ledger (h₀ : ∀ k, queue s₀ k = []) (ops : List (Option (K × Action M))) (k : K) :
    Ledger k ((machine s₀).trace ops) (queue ((machine s₀).exec ops) k) := by
  have hrun := (machine s₀).inv_of_step (I := fun tr s => ∀ k, Ledger k tr (queue s k))
    (fun k => by rw [show (machine s₀).init = s₀ from rfl, h₀]; exact ⟨.refl _, .refl _⟩)
    (fun tr s op h => Ledger.step h op) ops
  exact hrun k

/-- Deliveries for a key without a handler pile up. -/
theorem queue_replicate (m : M) : ∀ {n : Nat} {s : K → Option (Entry M)} {q : List M},
    s k = some ⟨none, q⟩ →
    queue ((machine s₀).execFrom s (List.replicate n (some (k, .deliver m)))) k =
      q ++ List.replicate n m
  | 0, s, q, h => by
    rw [List.replicate_zero, List.replicate_zero, List.append_nil]
    exact queue_eq h
  | n + 1, s, q, h => by
    rw [List.replicate_succ, List.replicate_succ, Machine.execFrom, List.foldl_cons, step_known h]
    have ih := queue_replicate m (n := n)
      (Function.update_self k (some ⟨none, q ++ [m]⟩) s)
    rw [List.append_assoc] at ih
    exact ih

/-- The messages in a queue are those appended less those removed. -/
theorem Ledger.length_eq {q : List M} (h : Ledger k tr q) :
    q.length = (tr.filterMap (appended k)).length - (tr.filterMap (removed k)).length := by
  have hlen := h.perm.length_eq
  rw [List.length_append] at hlen
  omega

end

end Queues
