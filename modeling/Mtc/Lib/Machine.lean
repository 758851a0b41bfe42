import Mathlib.Data.List.Induction

/-!
# Request/reply machines

A `Machine` answers each request with one reply and moves to a next state. A list of requests
has one run from the initial state: `exec` is the state it ends in, `trace` the requests with
their replies, in order; `ghost` carries a value of the history along it. The rules by which
statements about all runs are proved:

* `inv_of_guarded`: an invariant of the trace and the state, kept by every step whose guard
  holds, holds after every run whose steps all meet the guard (`Guarded`).
* `trace_map_of_sim`: a relation between the states of two machines that is kept by every
  guarded step, with equal replies, makes the replies of the two runs equal.
* `trace_filter_of_view`: a part of the state that only the requests of one kind read and change
  makes the replies to those requests independent of all the others.
-/

/-- A state machine with one reply for each request. -/
structure Machine (σ α β : Type*) where
  init : σ
  step : σ → α → σ × β

namespace Machine

variable {σ τ α β γ ν : Type*}

section
variable (M : Machine σ α β)

/-- The state after the requests, from `s`. -/
def execFrom (s : σ) (as : List α) : σ := as.foldl (fun s a => (M.step s a).1) s

/-- The requests with their replies, from `s`. -/
def traceFrom : σ → List α → List (α × β)
  | _, [] => []
  | s, a :: as => (a, (M.step s a).2) :: traceFrom (M.step s a).1 as

/-- The state after the requests. -/
def exec (as : List α) : σ := M.execFrom M.init as

/-- The requests with their replies. -/
def trace (as : List α) : List (α × β) := M.traceFrom M.init as

/-- A value carried along the run from `s`: `f` sees the state before each request. -/
def ghostFrom (f : γ → σ → α → γ) : γ → σ → List α → γ
  | g, _, [] => g
  | g, s, a :: as => ghostFrom f (f g s a) (M.step s a).1 as

/-- A value carried along the run. -/
def ghost (f : γ → σ → α → γ) (g : γ) (as : List α) : γ := M.ghostFrom f g M.init as

theorem traceFrom_append : ∀ (s : σ) (as bs : List α),
    M.traceFrom s (as ++ bs) = M.traceFrom s as ++ M.traceFrom (M.execFrom s as) bs
  | _, [], _ => rfl
  | s, a :: as, bs => by
    simp only [List.cons_append, traceFrom, traceFrom_append (M.step s a).1 as bs]
    rfl

theorem exec_snoc (as : List α) (a : α) :
    M.exec (as ++ [a]) = (M.step (M.exec as) a).1 := by
  simp [exec, execFrom]

theorem trace_snoc (as : List α) (a : α) :
    M.trace (as ++ [a]) = M.trace as ++ [(a, (M.step (M.exec as) a).2)] := by
  rw [trace, traceFrom_append]
  rfl

theorem ghostFrom_append (f : γ → σ → α → γ) : ∀ (g : γ) (s : σ) (as bs : List α),
    M.ghostFrom f g s (as ++ bs) = M.ghostFrom f (M.ghostFrom f g s as) (M.execFrom s as) bs
  | _, _, [], _ => rfl
  | g, s, a :: as, bs => ghostFrom_append f (f g s a) (M.step s a).1 as bs

theorem ghost_snoc (f : γ → σ → α → γ) (g : γ) (as : List α) (a : α) :
    M.ghost f g (as ++ [a]) = f (M.ghost f g as) (M.exec as) a := by
  rw [ghost, ghostFrom_append]
  rfl

theorem trace_map_fst (as : List α) : (M.trace as).map (·.1) = as := by
  induction as using List.reverseRecOn with
  | nil => rfl
  | append_singleton as a ih => rw [trace_snoc]; simp [ih]

/-! ## Guarded runs -/

/-- Every request of the run meets `G` in the trace and the state it arrives at. -/
def Guarded (G : List (α × β) → σ → α → Prop) (as : List α) : Prop :=
  ∀ pre a post, as = pre ++ a :: post → G (M.trace pre) (M.exec pre) a

variable {M}

theorem Guarded.of_append {G : List (α × β) → σ → α → Prop} {as bs : List α}
    (h : M.Guarded G (as ++ bs)) : M.Guarded G as := by
  intro pre a post he
  exact h pre a (post ++ bs) (by simp [he])

theorem guarded_snoc {G : List (α × β) → σ → α → Prop} {as : List α} {a : α} :
    M.Guarded G (as ++ [a]) ↔ M.Guarded G as ∧ G (M.trace as) (M.exec as) a := by
  refine ⟨fun h => ⟨h.of_append, h as a [] rfl⟩, ?_⟩
  rintro ⟨h, ha⟩ pre b post he
  -- the last request is either `b` itself or the last of `post`
  rcases List.eq_nil_or_concat post with rfl | ⟨post', c, rfl⟩
  · obtain ⟨rfl, hb⟩ := List.append_inj' he rfl
    cases hb
    exact ha
  · have he' : as ++ [a] = (pre ++ b :: post') ++ [c] := by simpa using he
    obtain ⟨rfl, -⟩ := List.append_inj' he' rfl
    exact h pre b post' rfl

/-- Guards that can be evaluated can be evaluated along a run. -/
theorem guarded_iff_take {G : List (α × β) → σ → α → Prop} {as : List α} :
    M.Guarded G as ↔
      ∀ i : Fin as.length, G (M.trace (as.take i)) (M.exec (as.take i)) (as.get i) := by
  refine ⟨fun h i => h _ _ (as.drop (i + 1)) ?_, ?_⟩
  · rw [List.get_eq_getElem, ← List.drop_eq_getElem_cons, List.take_append_drop]
  · rintro h pre a post rfl
    have := h ⟨pre.length, by simp⟩
    simpa using this

instance {G : List (α × β) → σ → α → Prop} [∀ tr s a, Decidable (G tr s a)] (as : List α) :
    Decidable (M.Guarded G as) :=
  decidable_of_iff _ guarded_iff_take.symm

/-- The invariant rule of guarded runs. -/
theorem inv_of_guarded {G : List (α × β) → σ → α → Prop} {I : List (α × β) → σ → Prop}
    (h0 : I [] M.init)
    (hs : ∀ tr s a, G tr s a → I tr s → I (tr ++ [(a, (M.step s a).2)]) (M.step s a).1)
    {as : List α} (hg : M.Guarded G as) : I (M.trace as) (M.exec as) := by
  induction as using List.reverseRecOn with
  | nil => exact h0
  | append_singleton as a ih =>
    obtain ⟨hg, ha⟩ := guarded_snoc.1 hg
    rw [trace_snoc, exec_snoc]
    exact hs _ _ _ ha (ih hg)

/-- The invariant rule of all runs. -/
theorem inv_of_step {I : List (α × β) → σ → Prop} (h0 : I [] M.init)
    (hs : ∀ tr s a, I tr s → I (tr ++ [(a, (M.step s a).2)]) (M.step s a).1) (as : List α) :
    I (M.trace as) (M.exec as) :=
  inv_of_guarded (G := fun _ _ _ => True) h0 (fun tr s a _ => hs tr s a) fun _ _ _ _ => trivial

end

/-! ## Two machines -/

/-- The simulation rule: the run of `N` is guarded, and the replies of `M` read as `out`. -/
theorem trace_map_of_sim {M : Machine σ α β} {N : Machine τ α γ} {R : σ → τ → Prop}
    {G : τ → α → Prop} (out : β → γ) (h0 : R M.init N.init)
    (hs : ∀ s t a, R s t → G t a →
      R (M.step s a).1 (N.step t a).1 ∧ out (M.step s a).2 = (N.step t a).2)
    {as : List α} (hg : N.Guarded (fun _ => G) as) :
    R (M.exec as) (N.exec as) ∧
      (M.trace as).map (fun e => out e.2) = (N.trace as).map (fun e => e.2) := by
  induction as using List.reverseRecOn with
  | nil => exact ⟨h0, rfl⟩
  | append_singleton as a ih =>
    obtain ⟨hg, ha⟩ := guarded_snoc.1 hg
    obtain ⟨hR, ht⟩ := ih hg
    obtain ⟨hR', ho⟩ := hs _ _ _ hR ha
    refine ⟨by rw [exec_snoc, exec_snoc]; exact hR', ?_⟩
    rw [trace_snoc, trace_snoc, List.map_append, List.map_append, ht]
    simp [ho]

/-- The isolation rule: `view` is the part of the state the requests in `p` work on. -/
theorem trace_filter_of_view {M : Machine σ α β} (p : α → Bool) (view : σ → ν)
    (hother : ∀ s a, p a = false → view (M.step s a).1 = view s)
    (hsame : ∀ s t a, p a = true → view s = view t →
      view (M.step s a).1 = view (M.step t a).1 ∧ (M.step s a).2 = (M.step t a).2)
    (as : List α) :
    view (M.exec as) = view (M.exec (as.filter p)) ∧
      (M.trace as).filter (fun e => p e.1) = M.trace (as.filter p) := by
  induction as using List.reverseRecOn with
  | nil => exact ⟨rfl, rfl⟩
  | append_singleton as a ih =>
    obtain ⟨hv, ht⟩ := ih
    cases hp : p a with
    | false =>
      refine ⟨?_, ?_⟩
      · rw [exec_snoc, hother _ _ hp, hv]
        simp [hp]
      · rw [trace_snoc, List.filter_append, ht]
        simp [hp]
    | true =>
      obtain ⟨hv', ho⟩ := hsame _ _ a hp hv
      have hf : (as ++ [a]).filter p = as.filter p ++ [a] := by simp [hp]
      refine ⟨by rw [hf, exec_snoc, exec_snoc]; exact hv', ?_⟩
      rw [hf, trace_snoc, trace_snoc, List.filter_append, ht, ← ho]
      simp [hp]

end Machine
