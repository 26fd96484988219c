import Xola.Reliability.Interleaving
import Xola.Reliability.Verify.FailureCount

/-!
# What a rejection says

A breaker remembers a count, a time and a state; whoever is turned away by it sees none of the
operations that led there. They can be read off all the same. The streak of failures has reached the
threshold, whatever callers they came from, and the latest failure that was recorded is younger than
the recovery timeout.
-/

namespace Xola.CircuitBreaker

variable {config : CircuitBreakerConfig} {b : CircuitBreaker} {ops : List Operation}

/-! ## The streak -/

theorem apply_failureCount_le (b : CircuitBreaker) (op : Operation) :
    (b.apply op).failureCount ≤ b.failureCount + if op.isFailure then 1 else 0 := by
  cases op with
  | canExecute now =>
    simp only [apply, canExecute, Operation.isFailure]
    split
    · simp
    · simp
    · split <;> simp
  | recordSuccess =>
    simp only [apply, CircuitBreaker.recordSuccess, Operation.isFailure]
    split <;> simp
  | recordFailure now =>
    simp only [apply, CircuitBreaker.recordFailure, Operation.isFailure]
    split <;> simp

theorem apply_state_closed {op : Operation} (hs : b.state ≠ .closed)
    (hc : (b.apply op).state = .closed) : b.state = .halfOpen ∧ op = .recordSuccess := by
  cases op with
  | canExecute now =>
    simp only [apply, canExecute] at hc
    split at hc
    · next h => exact absurd h hs
    · next h => simp [h] at hc
    · next h => split at hc <;> simp [h] at hc
  | recordSuccess =>
    simp only [apply, CircuitBreaker.recordSuccess] at hc
    split at hc
    · next h => exact absurd h hs
    · next h => exact ⟨h, rfl⟩
    · next h => simp [h] at hc
  | recordFailure now =>
    simp only [apply, CircuitBreaker.recordFailure] at hc
    split at hc
    · next h => exact absurd h hs
    · cases hc
    · next h => simp [h] at hc

theorem Restarts.failureCount_eq {op : Operation} (h : b.Restarts op) :
    (b.apply op).failureCount = 0 := by
  rcases h with ⟨hs, rfl⟩ | ⟨hs, hc⟩
  · simp [apply, CircuitBreaker.recordSuccess, hs]
  · obtain ⟨hhalf, rfl⟩ := apply_state_closed hs hc
    simp [apply, CircuitBreaker.recordSuccess, hhalf]

/-- Failures that are not counted lengthen the streak. -/
theorem failureCount_le_streak (config : CircuitBreakerConfig) (ops : List Operation) :
    (after config ops).failureCount ≤ streak config ops := by
  induction ops using List.reverseRecOn with
  | nil => exact Nat.le_refl _
  | append_singleton ops op ih =>
    have hle := apply_failureCount_le (after config ops) op
    rw [after_concat]
    by_cases hr : (after config ops).Restarts op
    · rw [hr.failureCount_eq]
      exact Nat.zero_le _
    · cases op with
      | recordFailure now =>
        rw [streak_failure hr]
        simp only [Operation.isFailure, ↓reduceIte] at hle
        omega
      | canExecute now | recordSuccess =>
        rw [streak_silent hr rfl]
        simp only [Operation.isFailure, Bool.false_eq_true, ↓reduceIte] at hle
        omega

/-! ## The latest failure -/

def Operation.failedAt? : Operation → Option Nat
  | .recordFailure now => some now
  | .canExecute _ | .recordSuccess => none

def lastRecorded (ops : List Operation) : Option Nat := (ops.filterMap Operation.failedAt?).getLast?

theorem lastRecorded_concat (ops : List Operation) (op : Operation) :
    lastRecorded (ops ++ [op]) = op.failedAt?.or (lastRecorded ops) := by
  rw [lastRecorded, List.filterMap_append]
  cases hop : op.failedAt? with
  | none => simp [hop, lastRecorded]
  | some t => simp [hop]

theorem apply_lastFailure (b : CircuitBreaker) (op : Operation) :
    (b.apply op).lastFailure = op.failedAt?.getD b.lastFailure := by
  cases op with
  | canExecute now =>
    simp only [apply, canExecute, Operation.failedAt?, Option.getD_none]
    split
    · rfl
    · rfl
    · split <;> rfl
  | recordSuccess =>
    simp only [apply, CircuitBreaker.recordSuccess, Operation.failedAt?, Option.getD_none]
    split <;> rfl
  | recordFailure now =>
    simp only [apply, CircuitBreaker.recordFailure, Operation.failedAt?, Option.getD_some]
    split <;> rfl

theorem lastFailure_after (config : CircuitBreakerConfig) (ops : List Operation) :
    (after config ops).lastFailure = (lastRecorded ops).getD 0 := by
  induction ops using List.reverseRecOn with
  | nil => rfl
  | append_singleton ops op ih =>
    rw [after_concat, apply_lastFailure, ih, lastRecorded_concat]
    cases op.failedAt? <;> rfl

theorem exists_lastRecorded (h : 0 < streak config ops) : ∃ t, lastRecorded ops = some t := by
  induction ops using List.reverseRecOn with
  | nil => exact absurd h (Nat.lt_irrefl 0)
  | append_singleton ops op ih =>
    rw [lastRecorded_concat]
    by_cases hr : (after config ops).Restarts op
    · rw [streak_restarts hr] at h
      exact absurd h (Nat.lt_irrefl 0)
    · cases op with
      | recordFailure now => exact ⟨now, rfl⟩
      | canExecute now | recordSuccess =>
        rw [streak_silent hr rfl] at h
        exact ih h

/-! ## Rejections -/

/-- What there is behind a rejection at `now`. -/
structure Rejected (config : CircuitBreakerConfig) (ops : List Operation) (now : Nat) : Prop where
  streak_le : max 1 config.failureThreshold ≤ streak config ops
  recent : ∃ t, lastRecorded ops = some t ∧ now - t < config.recoveryTimeout % 2 ^ 64

theorem rejected_of_canExecute {now : Nat} (h : ((after config ops).canExecute now).2 = false) :
    Rejected config ops now := by
  obtain ⟨hopen, hreset⟩ := canExecute_eq_false_iff.mp h
  have hcounts := counts_after config ops
  have hstreak : max 1 config.failureThreshold ≤ streak config ops := by
    rw [← hcounts.tripped (by simp [hopen])]
    exact failureCount_le_streak config ops
  have hpos : 0 < streak config ops := by omega
  obtain ⟨t, ht⟩ := exists_lastRecorded hpos
  refine ⟨hstreak, t, ht, ?_⟩
  have hlast : (after config ops).lastFailure = t := by rw [lastFailure_after, ht, Option.getD_some]
  have hnot := of_decide_eq_false hreset
  rwa [Nat.not_le, recovery, hcounts.config_eq, hlast] at hnot

/-! ## Callers that share a breaker -/

def Action.operation : Action → Operation
  | .canExecute _ now => .canExecute now
  | .recordSuccess _ => .recordSuccess
  | .recordFailure _ now => .recordFailure now

theorem Run.breaker_eq {acts : List Action} {s : Shared} (h : Run config acts s) :
    s.breaker = after config (acts.map Action.operation) := by
  induction h with
  | nil => rfl
  | @snoc acts s a _ _ ih =>
    rw [List.map_append, List.map_singleton, after_concat, ← ih]
    cases a <;> rfl

end Xola.CircuitBreaker
