import Mathlib.Logic.Basic

/-!
# Calls that may fail

How `bind` on `Except` takes apart, for models that return `Except`, and rules for folds of such
calls: what one call keeps, all of them keep.
-/

/-- The value, or the error in its place. -/
def Option.orError {ε α : Type} (e : ε) : Option α → Except ε α
  | none => .error e
  | some a => .ok a

theorem Option.orError_some {ε α : Type} (e : ε) (a : α) : (some a).orError e = .ok a := rfl

namespace Except

variable {ε α β : Type}

theorem ok_bind (a : α) (f : α → Except ε β) : (Except.ok a >>= f) = f a := rfl

theorem error_bind (e : ε) (f : α → Except ε β) : (Except.error e >>= f) = .error e := rfl

theorem bind_eq_ok {x : Except ε α} {f : α → Except ε β} {b : β} :
    (x >>= f) = .ok b ↔ ∃ a, x = .ok a ∧ f a = .ok b := by
  cases x with
  | error e => simp [bind, Except.bind]
  | ok a => simp [bind, Except.bind]

theorem toOption_eq_some {x : Except ε α} {a : α} (h : x.toOption = some a) : x = .ok a := by
  cases x with
  | error e => cases h
  | ok b => cases h; rfl

/-! ## Calls that may give up -/

/-- The call ends with a result that meets `P`, or with an error that meets `G`. -/
def EndsOr (G : ε → Prop) (P : α → Prop) (x : Except ε α) : Prop :=
  (∃ e, x = .error e ∧ G e) ∨ ∃ a, x = .ok a ∧ P a

section
variable {G : ε → Prop} {P P' : α → Prop} {Q : β → Prop} {x : Except ε α} {f : α → Except ε β}

theorem EndsOr.bind (hx : EndsOr G P x) (hf : ∀ a, P a → EndsOr G Q (f a)) :
    EndsOr G Q (x >>= f) := by
  rcases hx with ⟨e, rfl, he⟩ | ⟨a, rfl, ha⟩
  · exact .inl ⟨e, rfl, he⟩
  · exact hf a ha

theorem EndsOr.mono (hx : EndsOr G P x) (hp : ∀ a, P a → P' a) : EndsOr G P' x := by
  rcases hx with hx | ⟨a, hx, ha⟩
  · exact .inl hx
  · exact .inr ⟨a, hx, hp a ha⟩

end

/-! ## Folds -/

section
variable {σ τ : Type} {f : σ → α → Except ε σ} {l : List α} {s s' : σ} {t : τ}

/-- Calls next to steps that do not fail. -/
theorem foldlM_refines {g : τ → α → τ} {R : σ → τ → Prop}
    (hstep : ∀ {s t a s'}, R s t → f s a = .ok s' → R s' (g t a)) (h : R s t)
    (hr : l.foldlM f s = .ok s') : R s' (l.foldl g t) := by
  induction l generalizing s t with
  | nil =>
    cases hr
    exact h
  | cons a l ih =>
    rw [List.foldlM_cons] at hr
    obtain ⟨s₁, hs₁, hrest⟩ := bind_eq_ok.1 hr
    exact ih (hstep h hs₁) hrest

/-- The invariant rule. -/
theorem foldlM_inv {I : σ → Prop} (hstep : ∀ {s a s'}, I s → f s a = .ok s' → I s') (h : I s)
    (hr : l.foldlM f s = .ok s') : I s' :=
  foldlM_refines (g := fun (u : Unit) _ => u) (R := fun s _ => I s) (fun h hs => hstep h hs)
    (t := ()) h hr

/-- Calls in lockstep. -/
theorem foldlM_simulates {g : τ → α → Except ε τ} {R : σ → τ → Prop}
    (hstep : ∀ {s t a s'}, R s t → f s a = .ok s' → ∃ t', g t a = .ok t' ∧ R s' t') (h : R s t)
    (hr : l.foldlM f s = .ok s') : ∃ t', l.foldlM g t = .ok t' ∧ R s' t' := by
  induction l generalizing s t with
  | nil =>
    cases hr
    exact ⟨t, rfl, h⟩
  | cons a l ih =>
    rw [List.foldlM_cons] at hr ⊢
    obtain ⟨s₁, hs₁, hrest⟩ := bind_eq_ok.1 hr
    obtain ⟨t₁, ht₁, h₁⟩ := hstep h hs₁
    rw [ht₁, ok_bind]
    exact ih h₁ hrest

end

end Except
