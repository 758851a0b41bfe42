import Mathlib.Data.List.Induction
import Mathlib.Data.List.Nodup
import Mathlib.Data.List.Perm.Basic
import Mathlib.Data.List.Range
import Mathlib.Logic.Function.Basic
import Mtc.Lib.Except

/-!
# Doubly linked lists in memory

Nodes that point to the next and to the previous one. `Linked next prev before head ps`: the nodes
reached from `head` by `next` are `ps`, and their `prev` pointers lead back to `before`; no node
stands twice in a list that begins with a null pointer (`Linked.nodup`). What a program does with
such a list is adding a node at the front (`Linked.push`) or behind the last one (`Linked.snoc`),
and walking along it (`walk`, with the rule `walk_chain`).

`Spread bkt ps chains`: the nodes `ps` are shared out over many lists, each in the one that `bkt`
says.
-/

section
variable {π : Type*}

/-- The nodes `ps`, linked both ways from `head` on. -/
def Linked (next prev : π → Option π) : Option π → Option π → List π → Prop
  | _, head, [] => head = none
  | before, head, p :: ps =>
    head = some p ∧ prev p = before ∧ Linked next prev (some p) (next p) ps

namespace Linked

variable {next prev next' prev' : π → Option π} {before head : Option π} {ps : List π}

/-- Only the pointers of the nodes themselves matter. -/
theorem congr (h : Linked next prev before head ps) (hn : ∀ p ∈ ps, next' p = next p)
    (hp : ∀ p ∈ ps, prev' p = prev p) : Linked next' prev' before head ps := by
  induction ps generalizing before head with
  | nil => exact h
  | cons p ps ih =>
    obtain ⟨hhead, hprev, hrest⟩ := h
    refine ⟨hhead, (hp p List.mem_cons_self).trans hprev, ?_⟩
    rw [hn p List.mem_cons_self]
    exact ih hrest (fun q hq => hn q (List.mem_cons_of_mem p hq))
      fun q hq => hp q (List.mem_cons_of_mem p hq)

theorem head_eq (h : Linked next prev before head ps) : head = ps.head? := by
  cases ps with
  | nil => exact h
  | cons p ps => exact h.1

/-- `next` leads to the node that comes next. -/
theorem next_eq {as bs : List π} {p : π} (h : Linked next prev before head (as ++ p :: bs)) :
    next p = bs.head? := by
  induction as generalizing before head with
  | nil => exact h.2.2.head_eq
  | cons q as ih => exact ih h.2.2

/-- `prev` leads to the node that comes before. -/
theorem prev_eq {as bs : List π} {p : π} (h : Linked next prev before head (as ++ p :: bs)) :
    prev p = as.getLast?.or before := by
  induction as generalizing before head with
  | nil => exact h.2.1
  | cons q as ih =>
    rw [ih h.2.2, List.getLast?_cons]
    cases as.getLast? with
    | none => rfl
    | some r => rfl

/-- No node stands twice: it would have two predecessors, and following both back from there, the
first node of the list would have one. -/
theorem not_twice (as : List π) : ∀ (p : π) (bs cs : List π),
    ¬ Linked next prev none head (as ++ p :: (bs ++ p :: cs)) := by
  induction as using List.reverseRecOn with
  | nil =>
    intro p bs cs h
    have hsecond : prev p = (p :: bs).getLast?.or _ := prev_eq h
    rw [h.2.1, List.getLast?_cons] at hsecond
    cases hsecond
  | append_singleton as q ih =>
    intro p bs cs h
    have hfirst := prev_eq h
    rw [List.getLast?_concat, Option.or_none] at hfirst
    have hagain : Linked next prev none head ((as ++ [q] ++ p :: bs) ++ p :: cs) := by
      simpa using h
    have hsecond := prev_eq hagain
    -- `q` comes before both places
    rw [hfirst, Option.or_none, List.getLast?_append, List.getLast?_cons, Option.some_or,
      ← List.getLast?_cons] at hsecond
    obtain ⟨ds, hds⟩ := List.getLast?_eq_some_iff.1 hsecond.symm
    refine ih q ds (p :: cs) ?_
    have hlist : as ++ [q] ++ p :: (bs ++ p :: cs) = as ++ q :: (ds ++ q :: p :: cs) := by
      rw [← List.cons_append, hds]
      simp
    rwa [hlist] at h

theorem nodup (h : Linked next prev none head ps) : ps.Nodup := by
  suffices hs : ∀ as qs, Linked next prev none head (as ++ qs) → qs.Nodup from hs [] ps h
  intro as qs
  induction qs generalizing as with
  | nil => exact fun _ => List.nodup_nil
  | cons q qs ih =>
    intro h
    refine List.nodup_cons.2 ⟨fun hq => ?_, ih (as ++ [q]) (by simpa using h)⟩
    obtain ⟨bs, cs, rfl⟩ := List.append_of_mem hq
    exact not_twice as q bs cs h

/-- A new node in front of the list. -/
theorem push {x : π} (h : Linked next prev none head ps) (hnext : next' x = head)
    (hprev : prev' x = none) (hfirst : ∀ p, head = some p → prev' p = some x)
    (hn : ∀ p ∈ ps, next' p = next p) (hp : ∀ p ∈ ps, head ≠ some p → prev' p = prev p) :
    Linked next' prev' none (some x) (x :: ps) := by
  refine ⟨rfl, hprev, ?_⟩
  rw [hnext]
  have hnd := h.nodup
  cases ps with
  | nil => exact h
  | cons p ps =>
    obtain ⟨rfl, -, hrest⟩ := h
    refine ⟨rfl, hfirst p rfl, ?_⟩
    rw [hn p List.mem_cons_self]
    refine hrest.congr (fun q hq => hn q (List.mem_cons_of_mem p hq)) fun q hq => ?_
    refine hp q (List.mem_cons_of_mem p hq) ?_
    rintro ⟨⟩
    exact (List.nodup_cons.1 hnd).1 hq

/-- A new node behind the last one. -/
theorem snoc {t x : π} (h : Linked next prev before head (ps ++ [t])) (hlast : next' t = some x)
    (hnext : next' x = none) (hprev : prev' x = some t) (hn : ∀ p ∈ ps, next' p = next p)
    (hp : ∀ p ∈ ps ++ [t], prev' p = prev p) :
    Linked next' prev' before head (ps ++ [t] ++ [x]) := by
  induction ps generalizing before head with
  | nil =>
    refine ⟨h.1, (hp t List.mem_cons_self).trans h.2.1, hlast, hprev, hnext⟩
  | cons p ps ih =>
    obtain ⟨hhead, hpp, hrest⟩ := h
    refine ⟨hhead, (hp p List.mem_cons_self).trans hpp, ?_⟩
    rw [hn p List.mem_cons_self]
    exact ih hrest (fun q hq => hn q (List.mem_cons_of_mem p hq))
      fun q hq => hp q (List.mem_cons_of_mem p hq)

end Linked

end

/-! ## Walking -/

section
variable {ε π σ : Type}

/-- `while (p != NULL)`: the body gives the state and the pointer to go on with. -/
def walk (unfinished : ε) (body : σ → π → Except ε (σ × Option π)) :
    Nat → Option π → σ → Except ε σ
  | _, none, s => .ok s
  | 0, some _, _ => .error unfinished
  | fuel + 1, some p, s => do
    let (s, p) ← body s p
    walk unfinished body fuel p s

/-- The rule for walks: the body goes on to the next node, and `I done rest` is what holds when the
nodes `done` have been visited and `rest` are to come. -/
theorem walk_chain (unfinished : ε) (body : σ → π → Except ε (σ × Option π))
    (I : List π → List π → σ → Prop)
    (hbody : ∀ done p rest s, I done (p :: rest) s →
      ∃ s', body s p = .ok (s', rest.head?) ∧ I (done ++ [p]) rest s') :
    ∀ {rest done : List π} {fuel : Nat} {s : σ}, rest.length ≤ fuel → I done rest s →
      ∃ s', walk unfinished body fuel rest.head? s = .ok s' ∧ I (done ++ rest) [] s' := by
  intro rest
  induction rest with
  | nil =>
    intro done fuel s _ h
    refine ⟨s, ?_, by simpa using h⟩
    cases fuel <;> rfl
  | cons p rest ih =>
    intro done fuel s hf h
    cases fuel with
    | zero => simp at hf
    | succ fuel =>
      obtain ⟨s₁, hs₁, h₁⟩ := hbody done p rest s h
      obtain ⟨s₂, hs₂, h₂⟩ := ih (Nat.le_of_succ_le_succ hf) h₁
      refine ⟨s₂, ?_, by simpa using h₂⟩
      rw [List.head?_cons, walk, hs₁, Except.ok_bind]
      exact hs₂

end

/-! ## Many lists -/

section
variable {π : Type*}

/-- Every node of `ps` is in the list of its `bkt`, as often as in `ps`. -/
def Spread (bkt : π → Nat) (ps : List π) (chains : Nat → List π) : Prop :=
  ∀ i, (chains i).Perm (ps.filter fun p => bkt p = i)

namespace Spread

variable {bkt bkt' : π → Nat} {ps qs : List π} {chains : Nat → List π}

theorem nil : Spread bkt [] fun _ => [] := fun _ => List.Perm.refl []

theorem mem_iff (h : Spread bkt ps chains) {i : Nat} {p : π} :
    p ∈ chains i ↔ p ∈ ps ∧ bkt p = i := by
  rw [(h i).mem_iff, List.mem_filter, decide_eq_true_iff]

theorem perm (h : Spread bkt ps chains) (hp : ps.Perm qs) : Spread bkt qs chains :=
  fun i => (h i).trans (hp.filter _)

theorem congr (h : Spread bkt ps chains) (hb : ∀ p ∈ ps, bkt' p = bkt p) :
    Spread bkt' ps chains := by
  intro i
  have hf : ps.filter (fun p => bkt' p = i) = ps.filter fun p => bkt p = i :=
    List.filter_congr fun p hp => by rw [hb p hp]
  rw [hf]
  exact h i

theorem length_le (h : Spread bkt ps chains) (i : Nat) : (chains i).length ≤ ps.length := by
  rw [(h i).length_eq]
  exact List.length_filter_le _ ps

/-- A node is added in front of its list. -/
theorem push (h : Spread bkt ps chains) (p : π) :
    Spread bkt (ps ++ [p]) (Function.update chains (bkt p) (p :: chains (bkt p))) := by
  intro i
  rw [List.filter_append]
  by_cases hi : bkt p = i
  · subst hi
    have hp : [p].filter (fun q => bkt q = bkt p) = [p] := by simp
    rw [Function.update_self, hp]
    exact ((h (bkt p)).cons p).trans (List.perm_append_singleton p _).symm
  · have hp : [p].filter (fun q => bkt q = i) = [] := by simp [hi]
    rw [Function.update_of_ne (Ne.symm hi), hp, List.append_nil]
    exact h i

/-- The first `n` lists together have the nodes with a `bkt` below `n`. -/
theorem flatMap_range (h : Spread bkt ps chains) (n : Nat) :
    ((List.range n).flatMap chains).Perm (ps.filter fun p => bkt p < n) := by
  induction n with
  | zero => simp
  | succ n ih =>
    rw [List.range_succ, List.flatMap_append, List.flatMap_singleton]
    refine (ih.append (h n)).trans ?_
    have hsplit := List.filter_append_perm (fun p => bkt p < n) (ps.filter fun p => bkt p < n + 1)
    rw [List.filter_filter, List.filter_filter] at hsplit
    have hlt : ps.filter (fun p => decide (bkt p < n) && decide (bkt p < n + 1)) =
        ps.filter fun p => bkt p < n :=
      List.filter_congr fun p _ => by grind
    have heq : ps.filter (fun p => !decide (bkt p < n) && decide (bkt p < n + 1)) =
        ps.filter fun p => bkt p = n :=
      List.filter_congr fun p _ => by grind
    rwa [hlt, heq] at hsplit

/-- All lists together have all nodes. -/
theorem flatMap_perm (h : Spread bkt ps chains) {n : Nat} (hn : ∀ p ∈ ps, bkt p < n) :
    ((List.range n).flatMap chains).Perm ps := by
  have hall : ps.filter (fun p => bkt p < n) = ps :=
    List.filter_eq_self.2 fun p hp => decide_eq_true (hn p hp)
  have hr := h.flatMap_range n
  rwa [hall] at hr

end Spread

end
