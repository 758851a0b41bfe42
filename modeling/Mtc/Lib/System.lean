import Mathlib.Data.List.Basic

/-!
# Step systems

A `System` moves by actions that are not enabled in every state. `runFrom` takes the actions of a
schedule in order, and is `none` when one of them is not enabled. An invariant that every step
keeps holds in every state a schedule reaches (`inv_of_step`); one that only the steps meeting a
condition keep holds along the schedules whose steps all meet it (`inv_of_meets`), and along no
others if the condition is the exact one (`forall_prefix_iff_meets`).
-/

/-- A state machine whose actions may be disabled. -/
structure System (σ α : Type*) where
  init : σ
  next : σ → α → Option σ

namespace System

variable {σ α : Type*} (S : System σ α)

/-- The state a schedule leads to. -/
def runFrom : σ → List α → Option σ
  | s, [] => some s
  | s, a :: as => (S.next s a).bind fun s' => runFrom s' as

/-- The state a schedule leads to from the initial state. -/
def run (as : List α) : Option σ := S.runFrom S.init as

/-- Every step of the schedule meets `C` in the state it is taken in. -/
def Meets (C : σ → α → Prop) : σ → List α → Prop
  | _, [] => True
  | s, a :: as => C s a ∧ match S.next s a with
    | none => True
    | some s' => Meets C s' as

/-- Conditions that can be evaluated can be evaluated along a schedule. -/
def decidableMeets (C : σ → α → Prop) [∀ s a, Decidable (C s a)] :
    ∀ (s : σ) (as : List α), Decidable (S.Meets C s as)
  | _, [] => isTrue trivial
  | s, a :: as => @instDecidableAnd _ _ _ <| match S.next s a with
    | none => isTrue trivial
    | some s' => decidableMeets C s' as

instance (C : σ → α → Prop) [∀ s a, Decidable (C s a)] (s : σ) (as : List α) :
    Decidable (S.Meets C s as) := S.decidableMeets C s as

variable {S}

theorem Meets.step {C : σ → α → Prop} {s t : σ} {a : α} {as : List α}
    (h : S.Meets C s (a :: as)) (ht : S.next s a = some t) : C s a ∧ S.Meets C t as := by
  rw [Meets, ht] at h
  exact h

theorem Meets.cons {C : σ → α → Prop} {s t : σ} {a : α} {as : List α} (hc : C s a)
    (ht : S.next s a = some t) (h : S.Meets C t as) : S.Meets C s (a :: as) := by
  rw [Meets, ht]
  exact ⟨hc, h⟩

theorem Meets.of_append {C : σ → α → Prop} : ∀ {as bs : List α} {s : σ},
    S.Meets C s (as ++ bs) → S.Meets C s as
  | [], _, _, _ => trivial
  | a :: as, bs, s, h => by
    rw [List.cons_append, Meets] at h
    refine ⟨h.1, ?_⟩
    cases hn : S.next s a with
    | none => trivial
    | some t =>
      rw [hn] at h
      exact Meets.of_append h.2

theorem runFrom_cons {s s' : σ} {a : α} {as : List α} (h : S.runFrom s (a :: as) = some s') :
    ∃ t, S.next s a = some t ∧ S.runFrom t as = some s' := by
  simpa only [runFrom, Option.bind_eq_some_iff] using h

theorem runFrom_append_eq : ∀ (as bs : List α) (s : σ),
    S.runFrom s (as ++ bs) = (S.runFrom s as).bind fun t => S.runFrom t bs
  | [], _, _ => rfl
  | a :: as, bs, s => by
    cases hn : S.next s a with
    | none => simp only [List.cons_append, runFrom, hn, Option.bind_none]
    | some t =>
      simp only [List.cons_append, runFrom, hn, Option.bind_some, runFrom_append_eq as bs t]

theorem runFrom_append {as bs : List α} {s t u : σ} (h : S.runFrom s as = some t)
    (h' : S.runFrom t bs = some u) : S.runFrom s (as ++ bs) = some u := by
  rw [runFrom_append_eq, h]
  exact h'

theorem runFrom_snoc {as : List α} {a : α} {s t u : σ} (h : S.runFrom s as = some t)
    (h' : S.next t a = some u) : S.runFrom s (as ++ [a]) = some u := by
  refine runFrom_append h ?_
  rw [runFrom, h']
  rfl

/-- What all actions have is met by every step. -/
theorem Meets.and_forall {C : σ → α → Prop} {Q : α → Prop} : ∀ {as : List α} {s : σ},
    S.Meets C s as → (∀ a ∈ as, Q a) → S.Meets (fun s a => C s a ∧ Q a) s as
  | [], _, _, _ => trivial
  | a :: as, s, h, hq => by
    rw [Meets] at h ⊢
    refine ⟨⟨h.1, hq a List.mem_cons_self⟩, ?_⟩
    cases hn : S.next s a with
    | none => trivial
    | some t =>
      rw [hn] at h
      exact Meets.and_forall h.2 fun b hb => hq b (List.mem_cons_of_mem a hb)

/-- The invariant rule under a condition on the steps. -/
theorem inv_of_meets {C : σ → α → Prop} {I : σ → Prop}
    (hs : ∀ s a s', C s a → S.next s a = some s' → I s → I s') :
    ∀ {as : List α} {s s' : σ}, S.Meets C s as → S.runFrom s as = some s' → I s → I s'
  | [], s, s', _, h, hi => by
    cases h
    exact hi
  | a :: as, s, s', hm, h, hi => by
    obtain ⟨t, ht, h⟩ := runFrom_cons h
    obtain ⟨hc, hm⟩ := hm.step ht
    exact inv_of_meets hs hm h (hs s a t hc ht hi)

/-- Where the steps that meet a condition are enabled and keep an invariant, a schedule that meets
it can be run. -/
theorem exists_run_of_meets {C : σ → α → Prop} {I : σ → Prop}
    (hs : ∀ s a, C s a → I s → ∃ s', S.next s a = some s' ∧ I s') :
    ∀ {as : List α} {s : σ}, S.Meets C s as → I s → ∃ s', S.runFrom s as = some s' ∧ I s'
  | [], s, _, hi => ⟨s, rfl, hi⟩
  | a :: as, s, hm, hi => by
    obtain ⟨t, ht, hi⟩ := hs s a hm.1 hi
    obtain ⟨s', hrun, hi⟩ := exists_run_of_meets hs (hm.step ht).2 hi
    refine ⟨s', ?_, hi⟩
    rw [runFrom, ht]
    exact hrun

/-- Where a state that is not done (`D`) has a step that meets a condition, keeps an invariant and
lowers a measure, a schedule that meets it leads to a state that is done. -/
theorem exists_run_done {C : σ → α → Prop} {I D : σ → Prop} (measure : σ → Nat)
    (hs : ∀ s, I s → ¬ D s →
      ∃ a s', C s a ∧ S.next s a = some s' ∧ I s' ∧ measure s' < measure s) :
    ∀ s, I s → ∃ as s', S.Meets C s as ∧ S.runFrom s as = some s' ∧ I s' ∧ D s' := by
  intro s
  induction hn : measure s using Nat.strongRecOn generalizing s with
  | ind n ih =>
    intro hi
    by_cases hd : D s
    · exact ⟨[], s, trivial, rfl, hi, hd⟩
    · obtain ⟨a, t, hc, ht, hi, hlt⟩ := hs s hi hd
      obtain ⟨as, s', hm, hrun, hi, hd⟩ := ih (measure t) (hn ▸ hlt) t rfl hi
      refine ⟨a :: as, s', hm.cons hc ht, ?_, hi, hd⟩
      rw [runFrom, ht]
      exact hrun

/-- Two conditions on the steps that agree where an invariant holds, which the steps that meet the
first keep. -/
theorem meets_congr {C D : σ → α → Prop} {I : σ → Prop} (hcd : ∀ s a, I s → (C s a ↔ D s a))
    (hs : ∀ s a s', C s a → S.next s a = some s' → I s → I s') :
    ∀ {as : List α} {s : σ}, I s → (S.Meets C s as ↔ S.Meets D s as)
  | [], _, _ => Iff.rfl
  | a :: as, s, hi => by
    rw [Meets, Meets, ← hcd s a hi]
    refine and_congr_right fun hc => ?_
    cases hn : S.next s a with
    | none => exact Iff.rfl
    | some t => exact meets_congr hcd hs (hs s a t hc hn hi)

/-- Actions that meet a condition wherever an invariant holds, which they keep. -/
theorem meets_of_forall {C : σ → α → Prop} {Q : α → Prop} {I : σ → Prop}
    (hc : ∀ s a, I s → Q a → C s a) (hs : ∀ s a s', I s → Q a → S.next s a = some s' → I s') :
    ∀ {as : List α} {s : σ}, I s → (∀ a ∈ as, Q a) → S.Meets C s as
  | [], _, _, _ => trivial
  | a :: as, s, hi, hq => by
    have ha := hq a List.mem_cons_self
    rw [Meets]
    refine ⟨hc s a hi ha, ?_⟩
    cases hn : S.next s a with
    | none => trivial
    | some t =>
      exact meets_of_forall hc hs (hs s a t hi ha hn) fun b hb => hq b (List.mem_cons_of_mem a hb)

/-- The invariant rule. -/
theorem inv_of_step {I : σ → Prop} (hs : ∀ s a s', S.next s a = some s' → I s → I s') :
    ∀ {as : List α} {s s' : σ}, S.runFrom s as = some s' → I s → I s'
  | [], s, s', h, hi => by
    cases h
    exact hi
  | a :: as, s, s', h, hi => by
    obtain ⟨t, ht, h⟩ := runFrom_cons h
    exact inv_of_step hs h (hs s a t ht hi)

/-- The rule for exact conditions, for actions in a domain `D`: where `J` and `P` hold, a step is
enabled and keeps `P` exactly if it meets the condition. Then all first parts of a schedule can be
run and end in `P` exactly if all steps meet the condition. `J` has to be kept only by the steps
that keep `P`. -/
theorem forall_prefix_iff_meets_within {C D : σ → α → Prop} {J P : σ → Prop}
    (hj : ∀ s a s', J s → P s → D s a → S.next s a = some s' → P s' → J s')
    (hs : ∀ s a, J s → P s → D s a → ((∃ s', S.next s a = some s' ∧ P s') ↔ C s a)) :
    ∀ {as : List α} {s : σ}, J s → P s → S.Meets D s as →
      ((∀ pre, pre <+: as → ∃ s', S.runFrom s pre = some s' ∧ P s') ↔ S.Meets C s as)
  | [], s, _, hp, _ => by
    refine iff_of_true (fun pre hpre => ?_) trivial
    rw [List.prefix_nil.1 hpre]
    exact ⟨s, rfl, hp⟩
  | a :: as, s, hi, hp, hd => by
    have hcons : ∀ {t : σ}, S.next s a = some t → ∀ pre,
        S.runFrom s (a :: pre) = S.runFrom t pre := by
      intro t ht pre
      rw [runFrom, ht, Option.bind_some]
    constructor
    · intro h
      obtain ⟨t, hrun, hp'⟩ := h [a] (List.prefix_append [a] as)
      obtain ⟨t, ht, hrun⟩ := runFrom_cons hrun
      obtain rfl : t = _ := Option.some_inj.1 hrun
      have hi' := hj s a t hi hp hd.1 ht hp'
      refine Meets.cons ((hs s a hi hp hd.1).1 ⟨t, ht, hp'⟩) ht ?_
      refine (forall_prefix_iff_meets_within hj hs hi' hp' (hd.step ht).2).1 fun pre hpre => ?_
      rw [← hcons ht]
      exact h (a :: pre) (List.cons_prefix_cons.2 ⟨rfl, hpre⟩)
    · intro hm pre hpre
      obtain ⟨t, ht, hp'⟩ := (hs s a hi hp hd.1).2 hm.1
      have hi' := hj s a t hi hp hd.1 ht hp'
      cases pre with
      | nil => exact ⟨s, rfl, hp⟩
      | cons b pre =>
        obtain ⟨rfl, htail⟩ := List.cons_prefix_cons.1 hpre
        rw [hcons ht]
        exact (forall_prefix_iff_meets_within hj hs hi' hp' (hd.step ht).2).2 (hm.step ht).2 pre
          htail

theorem meets_true : ∀ (as : List α) (s : σ), S.Meets (fun _ _ => True) s as
  | [], _ => trivial
  | a :: as, s => by
    refine ⟨trivial, ?_⟩
    cases S.next s a with
    | none => trivial
    | some t => exact meets_true as t

/-- The rule for exact conditions, for all actions. -/
theorem forall_prefix_iff_meets {C : σ → α → Prop} {J P : σ → Prop}
    (hj : ∀ s a s', S.next s a = some s' → J s → J s')
    (hs : ∀ s a, J s → P s → ((∃ s', S.next s a = some s' ∧ P s') ↔ C s a)) {as : List α} {s : σ}
    (hi : J s) (hp : P s) :
    (∀ pre, pre <+: as → ∃ s', S.runFrom s pre = some s' ∧ P s') ↔ S.Meets C s as :=
  forall_prefix_iff_meets_within (D := fun _ _ => True)
    (fun s a s' hi _ _ hn _ => hj s a s' hn hi) (fun s a hi hp _ => hs s a hi hp) hi hp
    (meets_true as s)

end System
