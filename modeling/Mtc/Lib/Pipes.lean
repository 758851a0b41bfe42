import Mathlib.Data.List.Nodup
import Mathlib.Logic.Function.Basic
import Mtc.Lib.Framing

/-!
# Messages on connected byte streams

Ends of connections write messages, each as its frame, and receive what the end they are connected
with has written, in pieces of any size. `Flows` says which messages are on their way from an end:
all it has written while it is not connected, and then those in which its peer waits. What it means
for a receiver to wait in messages, with bytes still to come, is a parameter (`Laws`).

`Once` is for messages that can be told apart: none is at two places.
-/

namespace Pipes

open Framing (stream)

variable {ε ρ μ β κ : Type*}

/-! ## Connections -/

/-- Connections go both ways. -/
def Paired (tcp : ε → Option (ε × Nat)) : Prop :=
  ∀ e e' k, tcp e = some (e', k) → ∃ k', tcp e' = some (e, k')

/-- An end has one peer. -/
theorem Paired.inj {tcp : ε → Option (ε × Nat)} (h : Paired tcp) {e₁ e₂ e' : ε} {k₁ k₂ : Nat}
    (h₁ : tcp e₁ = some (e', k₁)) (h₂ : tcp e₂ = some (e', k₂)) : e₁ = e₂ := by
  obtain ⟨k, hk⟩ := h e₁ e' k₁ h₁
  obtain ⟨k', hk'⟩ := h e₂ e' k₂ h₂
  rw [hk] at hk'
  exact congrArg Prod.fst (Option.some_inj.1 hk')

section
variable [DecidableEq ε]

/-- The connections with one more, between `e` and `e'`. -/
def link (tcp : ε → Option (ε × Nat)) (e e' : ε) : ε → Option (ε × Nat) :=
  Function.update (Function.update tcp e (some (e', 0))) e' (some (e, 0))

theorem link_of_ne {tcp : ε → Option (ε × Nat)} {e e' x : ε} (h : x ≠ e) (h' : x ≠ e') :
    link tcp e e' x = tcp x := by
  rw [link, Function.update_of_ne h', Function.update_of_ne h]

theorem link_left {tcp : ε → Option (ε × Nat)} {e e' : ε} (h : e ≠ e') :
    link tcp e e' e = some (e', 0) := by
  rw [link, Function.update_of_ne h, Function.update_self]

theorem link_right (tcp : ε → Option (ε × Nat)) (e e' : ε) : link tcp e e' e' = some (e, 0) := by
  rw [link, Function.update_self]

/-- A connection between ends that had none. -/
theorem Paired.link {tcp : ε → Option (ε × Nat)} (h : Paired tcp) {e e' : ε} (hne : e ≠ e')
    (he : tcp e = none) (he' : tcp e' = none) : Paired (link tcp e e') := by
  intro x y k hx
  by_cases hxe' : x = e'
  · subst hxe'
    rw [link_right] at hx
    cases hx
    exact ⟨0, link_left hne⟩
  by_cases hxe : x = e
  · subst hxe
    rw [link_left hne] at hx
    cases hx
    exact ⟨0, link_right tcp x e'⟩
  rw [link_of_ne hxe hxe'] at hx
  obtain ⟨k', hk'⟩ := h x y k hx
  refine ⟨k', ?_⟩
  -- an end with a peer is none of the two
  have hye : y ≠ e := by
    intro hy
    rw [hy, he] at hk'
    cases hk'
  have hye' : y ≠ e' := by
    intro hy
    rw [hy, he'] at hk'
    cases hk'
  rw [link_of_ne hye hye', hk']

/-- More bytes of one end have arrived. -/
theorem Paired.update {tcp : ε → Option (ε × Nat)} (h : Paired tcp) {e e' : ε} {k : Nat}
    (he : tcp e = some (e', k)) (k' : Nat) : Paired (Function.update tcp e (some (e', k'))) := by
  have hpeer : ∀ x y l, Function.update tcp e (some (e', k')) x = some (y, l) →
      ∃ l', tcp x = some (y, l') := by
    intro x y l hx
    by_cases hxe : x = e
    · subst hxe
      rw [Function.update_self] at hx
      cases hx
      exact ⟨k, he⟩
    · rw [Function.update_of_ne hxe] at hx
      exact ⟨l, hx⟩
  intro x y l hx
  obtain ⟨l', hl'⟩ := hpeer x y l hx
  obtain ⟨j, hj⟩ := h x y l' hl'
  by_cases hye : y = e
  · subst hye
    rw [he] at hj
    cases hj
    exact ⟨k', Function.update_self ..⟩
  · exact ⟨j, by rw [Function.update_of_ne hye, hj]⟩

end

/-! ## Messages on their way -/

/-- `Waits r ms bs`: the receiver `r` waits in the messages `ms`, and `bs` are the bytes that are
still to come. More can be written behind, and a fresh receiver waits in anything. -/
structure Laws (frame : μ → List β) (Waits : ρ → List μ → List β → Prop) (fresh : ρ) : Prop where
  snoc : ∀ {r ms bs} (m : μ), Waits r ms bs → Waits r (ms ++ [m]) (bs ++ frame m)
  fresh : ∀ ms, Waits fresh ms (stream frame ms)

section
variable {frame : μ → List β} {Waits : ρ → List μ → List β → Prop} {fresh : ρ}
  {out out' : ε → List β} {rcv rcv' : ε → ρ} {tcp tcp' : ε → Option (ε × Nat)} {e e' : ε}
  {ms : List μ}

variable (frame Waits out rcv tcp) in
/-- The messages `ms` are on their way from `e`. A peer comes with the number of bytes it has
received. -/
def Flows (e : ε) (ms : List μ) : Prop :=
  match tcp e with
  | none => out e = stream frame ms
  | some (e', k) => k ≤ (out e).length ∧ Waits (rcv e') ms ((out e).drop k)

theorem flows_unlinked (h : tcp e = none) :
    Flows frame Waits out rcv tcp e ms ↔ out e = stream frame ms := by
  unfold Flows
  rw [h]

theorem flows_linked {k : Nat} (h : tcp e = some (e', k)) :
    Flows frame Waits out rcv tcp e ms ↔
      k ≤ (out e).length ∧ Waits (rcv e') ms ((out e).drop k) := by
  unfold Flows
  rw [h]

/-- Nothing is seen of what happens at other ends. -/
theorem Flows.congr (h : Flows frame Waits out rcv tcp e ms) (hout : out' e = out e)
    (htcp : tcp' e = tcp e) (hrcv : ∀ e' k, tcp e = some (e', k) → rcv' e' = rcv e') :
    Flows frame Waits out' rcv' tcp' e ms := by
  cases ht : tcp e with
  | none =>
    rw [flows_unlinked ht] at h
    rw [flows_unlinked (htcp.trans ht), hout, h]
  | some x =>
    rw [flows_linked ht] at h
    rw [flows_linked (htcp.trans ht), hout, hrcv x.1 x.2 ht]
    exact h

/-- A message is written. -/
theorem Flows.write (hl : Laws frame Waits fresh) (h : Flows frame Waits out rcv tcp e ms) (m : μ)
    (hout : out' e = out e ++ frame m) : Flows frame Waits out' rcv tcp e (ms ++ [m]) := by
  cases ht : tcp e with
  | none =>
    rw [flows_unlinked ht] at h ⊢
    rw [hout, h]
    simp
  | some x =>
    rw [flows_linked ht] at h ⊢
    rw [hout, List.drop_append_of_le_length h.1, List.length_append]
    exact ⟨Nat.le_add_right_of_le h.1, hl.snoc m h.2⟩

/-- The end gets a peer that has received nothing. -/
theorem Flows.connect (hl : Laws frame Waits fresh) (h : Flows frame Waits out rcv tcp e ms)
    (ht : tcp e = none) (ht' : tcp' e = some (e', 0)) (hfresh : rcv e' = fresh) :
    Flows frame Waits out rcv tcp' e ms := by
  rw [flows_unlinked ht] at h
  rw [flows_linked ht', List.drop_zero, hfresh, h]
  exact ⟨Nat.zero_le _, hl.fresh ms⟩

end

/-! ## Messages that can be told apart -/

/-- No message is at two places. -/
structure Once (key : μ → κ) (pend : ε → List μ) : Prop where
  nodup : ∀ e, ((pend e).map key).Nodup
  apart : ∀ {e e' m m'}, m ∈ pend e → m' ∈ pend e' → key m = key m' → e = e'

theorem once_nil {key : μ → κ} : Once key (fun _ : ε => []) :=
  ⟨fun _ => List.nodup_nil, fun hm => nomatch hm⟩

section
variable [DecidableEq ε] {key : μ → κ} {pend : ε → List μ}

theorem mem_update_append {e x : ε} {m m' : μ}
    (h : m' ∈ Function.update pend e (pend e ++ [m]) x) : m' ∈ pend x ∨ x = e ∧ m' = m := by
  by_cases hx : x = e
  · subst hx
    rw [Function.update_self, List.mem_append, List.mem_singleton] at h
    exact h.imp_right fun hm => ⟨rfl, hm⟩
  · rw [Function.update_of_ne hx] at h
    exact Or.inl h

/-- A new message. -/
theorem Once.push (h : Once key pend) {m : μ} (hnew : ∀ e, ∀ m' ∈ pend e, key m' ≠ key m) (e : ε) :
    Once key (Function.update pend e (pend e ++ [m])) := by
  refine ⟨fun x => ?_, fun {x y a b} ha hb hab => ?_⟩
  · by_cases hx : x = e
    · subst hx
      rw [Function.update_self, List.map_append, List.map_singleton]
      refine (h.nodup x).append (List.nodup_singleton _) ?_
      rw [List.disjoint_singleton]
      intro hm
      obtain ⟨m', hm', hk⟩ := List.mem_map.1 hm
      exact hnew x m' hm' hk
    · rw [Function.update_of_ne hx]
      exact h.nodup x
  · rcases mem_update_append ha with hax | ⟨hx, rfl⟩
    · rcases mem_update_append hb with hby | ⟨-, rfl⟩
      · exact h.apart hax hby hab
      · exact absurd hab (hnew x a hax)
    · rcases mem_update_append hb with hby | ⟨hy, -⟩
      · exact absurd hab.symm (hnew y b hby)
      · rw [hx, hy]

theorem mem_of_mem_update_tail {e x : ε} {m m' : μ} {ms : List μ} (he : pend e = m :: ms)
    (h : m' ∈ Function.update pend e ms x) : m' ∈ pend x := by
  by_cases hx : x = e
  · subst hx
    rw [Function.update_self] at h
    rw [he]
    exact List.mem_cons_of_mem m h
  · rwa [Function.update_of_ne hx] at h

/-- The first message of an end leaves; it is nowhere else. -/
theorem Once.pop (h : Once key pend) {e : ε} {m : μ} {ms : List μ} (he : pend e = m :: ms) :
    Once key (Function.update pend e ms) ∧
      ∀ x, ∀ m' ∈ Function.update pend e ms x, key m' ≠ key m := by
  have hn := h.nodup e
  rw [he, List.map_cons, List.nodup_cons] at hn
  refine ⟨⟨fun x => ?_, fun {x y a b} ha hb hab => ?_⟩, fun x m' hm' hk => ?_⟩
  · by_cases hx : x = e
    · subst hx
      rw [Function.update_self]
      exact hn.2
    · rw [Function.update_of_ne hx]
      exact h.nodup x
  · exact h.apart (mem_of_mem_update_tail he ha) (mem_of_mem_update_tail he hb) hab
  · have hx : x = e := by
      refine h.apart (mem_of_mem_update_tail he hm') ?_ hk
      rw [he]
      exact List.mem_cons_self
    subst hx
    rw [Function.update_self] at hm'
    exact hn.1 (hk ▸ List.mem_map_of_mem hm')

end

end Pipes
