import Mathlib.Data.List.Basic

/-!
# Messages on a byte stream

Messages are written one after the other, each as its frame. `marks` notes for each message how
many bytes have been written by its end, and `arrived` are the messages that end within the first
`n` bytes. They are a first part of the messages: those whose frames are complete
(`arrived_marks`).
-/

namespace Framing

variable {μ β : Type*}

/-- The messages whose last byte is among the first `n`. -/
def arrived (marks : List (μ × Nat)) (n : Nat) : List μ :=
  (marks.filter fun x => x.2 ≤ n).map Prod.fst

variable (frame : μ → List β)

/-- The bytes of the messages. -/
def stream (ms : List μ) : List β := ms.flatMap frame

/-- The messages with their ends, from byte `n` on. -/
def marks (n : Nat) : List μ → List (μ × Nat)
  | [] => []
  | m :: ms => (m, n + (frame m).length) :: marks (n + (frame m).length) ms

variable {frame}

@[simp] theorem stream_nil : stream frame [] = [] := rfl

@[simp] theorem stream_cons (m : μ) (ms : List μ) :
    stream frame (m :: ms) = frame m ++ stream frame ms := rfl

@[simp] theorem stream_append (ms ms' : List μ) :
    stream frame (ms ++ ms') = stream frame ms ++ stream frame ms' := List.flatMap_append

/-- Bytes that reach to the end of a first part begin with it. -/
theorem append_split {a b c d : List β} (h : a ++ b = c ++ d) (hl : c.length ≤ a.length) :
    ∃ e, a = c ++ e ∧ e ++ b = d := by
  obtain ⟨e, rfl⟩ := List.prefix_of_prefix_length_le ⟨d, rfl⟩ ⟨b, h⟩ hl
  rw [List.append_assoc] at h
  exact ⟨e, rfl, List.append_cancel_left h⟩

theorem marks_snoc (m : μ) : ∀ (ms : List μ) (n : Nat),
    marks frame n (ms ++ [m]) = marks frame n ms ++ [(m, n + (stream frame (ms ++ [m])).length)]
  | [], n => by simp [marks]
  | m' :: ms, n => by simp [marks, marks_snoc m ms, Nat.add_assoc]

theorem le_of_mem_marks {x : μ × Nat} : ∀ {ms : List μ} {n : Nat}, x ∈ marks frame n ms → n ≤ x.2
  | m :: ms, n, h => by
    obtain rfl | h := List.mem_cons.1 h
    · exact Nat.le_add_right _ _
    · have := le_of_mem_marks h
      omega

/-- Messages that end within the first `n` bytes have arrived. -/
theorem arrived_of_le (rest : List μ) {n : Nat} : ∀ (done : List μ) (k : Nat),
    k + (stream frame done).length ≤ n → done <+: arrived (marks frame k (done ++ rest)) n
  | [], _, _ => List.nil_prefix
  | m :: done, k, h => by
    rw [stream_cons, List.length_append] at h
    have ih := arrived_of_le rest (n := n) done (k + (frame m).length) (by omega)
    have hle : k + (frame m).length ≤ n := by omega
    unfold arrived at ih ⊢
    rw [List.cons_append, marks, List.filter_cons_of_pos (by simpa using hle), List.map_cons]
    exact List.cons_prefix_cons.2 ⟨rfl, ih⟩

/-- **What has arrived are the messages whose frames are complete.** -/
theorem arrived_marks {rest : List μ} {k : Nat}
    (hrest : ∀ m ∈ rest.head?, k < (frame m).length) :
    ∀ (done : List μ) (n : Nat),
      arrived (marks frame n (done ++ rest)) (n + (stream frame done).length + k) = done
  | [], n => by
    unfold arrived
    rw [List.map_eq_nil_iff, List.filter_eq_nil_iff]
    intro x hx
    cases rest with
    | nil => cases hx
    | cons m ms =>
      have hk := hrest m rfl
      have hle : n + (frame m).length ≤ x.2 := by
        obtain rfl | hx := List.mem_cons.1 hx
        · exact Nat.le_refl _
        · exact le_of_mem_marks hx
      intro ht
      have hle' : x.2 ≤ n + 0 + k := of_decide_eq_true ht
      omega
  | m :: done, n => by
    have ih := arrived_marks hrest done (n + (frame m).length)
    have hle : n + (frame m).length ≤ n + (stream frame (m :: done)).length + k := by
      simp only [stream_cons, List.length_append]
      omega
    have heq : n + (stream frame (m :: done)).length + k =
        n + (frame m).length + (stream frame done).length + k := by
      simp only [stream_cons, List.length_append]
      omega
    unfold arrived at ih ⊢
    rw [List.cons_append, marks, List.filter_cons_of_pos (by simpa using hle), List.map_cons, heq,
      ih]

end Framing
