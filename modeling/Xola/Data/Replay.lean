import Mathlib.Data.List.Induction

/-!
# Replaying a list of operations

A state reached by a list of operations is a left fold. An invariant of such a state usually relates
it to the operations that led there; `foldl_invariant` is the induction over runs, done once.
-/

namespace List

variable {α σ : Type*}

/-- A relation between the operations done so far and the state holds of every run if it holds at
the start and each admissible operation preserves it. -/
theorem foldl_invariant {step : σ → α → σ} {s₀ : σ} (I : List α → σ → Prop) {P : α → Prop}
    (start : I [] s₀) (preserved : ∀ ops s a, P a → I ops s → I (ops ++ [a]) (step s a))
    {ops : List α} (hops : ∀ a ∈ ops, P a) : I ops (ops.foldl step s₀) := by
  induction ops using List.reverseRecOn with
  | nil => exact start
  | append_singleton ops a ih =>
    rw [foldl_append]
    exact preserved ops _ a (hops a (by simp)) (ih fun b hb => hops b (by simp [hb]))

/-- A property of the start that every successful step preserves holds of the result of a run that
stops at its first error. -/
theorem foldlM_invariant {ε : Type*} {step : σ → α → Except ε σ} (I : σ → Prop)
    (preserved : ∀ s a s', I s → step s a = .ok s' → I s') {ops : List α} {s₀ s : σ} (start : I s₀)
    (h : ops.foldlM step s₀ = .ok s) : I s := by
  induction ops generalizing s₀ with
  | nil => cases h; exact start
  | cons a ops ih =>
    rw [foldlM_cons] at h
    cases ha : step s₀ a with
    | error e => rw [ha] at h; cases h
    | ok s₁ => rw [ha] at h; exact ih (preserved s₀ a s₁ start ha) h

end List
