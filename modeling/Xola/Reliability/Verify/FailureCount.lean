import Mathlib.Data.List.Induction
import Xola.Reliability.CircuitBreaker

/-!
# The failure count

The operations of a breaker may come in any order, from callers that know nothing of each other and
with clocks that go back. Whatever the order, the counter of a closed breaker is the number of
failures since it last started over, and it stops at the threshold: the failure that reaches it opens
the breaker, and the count is left alone until the next recovery.
-/

namespace Xola.CircuitBreaker

inductive Operation where
  | canExecute (now : Nat)
  | recordSuccess
  | recordFailure (now : Nat)
  deriving DecidableEq, Repr

def Operation.isFailure : Operation → Bool
  | .recordFailure _ => true
  | .canExecute _ | .recordSuccess => false

def apply (b : CircuitBreaker) : Operation → CircuitBreaker
  | .canExecute now => (b.canExecute now).1
  | .recordSuccess => b.recordSuccess
  | .recordFailure now => b.recordFailure now

/-- The breaker after the operations, each atomic. -/
def after (config : CircuitBreakerConfig) (ops : List Operation) : CircuitBreaker :=
  ops.foldl apply (.new config)

/-- The operation is a success recorded in `Closed`, or it takes the breaker back to `Closed`. -/
def Restarts (b : CircuitBreaker) (op : Operation) : Prop :=
  b.state = .closed ∧ op = .recordSuccess ∨ b.state ≠ .closed ∧ (b.apply op).state = .closed

instance (b : CircuitBreaker) (op : Operation) : Decidable (b.Restarts op) :=
  inferInstanceAs (Decidable (_ ∨ _))

/-- The operations since the latest restart, or since creation. -/
def sinceRestart (config : CircuitBreakerConfig) (ops : List Operation) : List Operation :=
  (ops.foldl (fun s op => (s.1.apply op, if s.1.Restarts op then [] else s.2 ++ [op]))
    (CircuitBreaker.new config, [])).2

/-- The failures recorded since then. -/
def streak (config : CircuitBreakerConfig) (ops : List Operation) : Nat :=
  (sinceRestart config ops).countP Operation.isFailure

section Streak

variable {config : CircuitBreakerConfig} {ops : List Operation} {op : Operation}

theorem after_concat : after config (ops ++ [op]) = (after config ops).apply op := by
  rw [after, List.foldl_append]
  rfl

theorem sinceRestart_concat : sinceRestart config (ops ++ [op]) =
    if (after config ops).Restarts op then [] else sinceRestart config ops ++ [op] := by
  have hfst : ∀ (ops : List Operation) (s : CircuitBreaker × List Operation),
      (ops.foldl (fun s op => (s.1.apply op, if s.1.Restarts op then [] else s.2 ++ [op])) s).1 =
        ops.foldl apply s.1 := by
    intro ops
    induction ops with
    | nil => exact fun _ => rfl
    | cons op ops ih => exact fun s => ih _
  rw [sinceRestart, List.foldl_append]
  simp only [List.foldl_cons, List.foldl_nil, hfst]
  rfl

theorem streak_restarts (h : (after config ops).Restarts op) :
    streak config (ops ++ [op]) = 0 := by
  rw [streak, sinceRestart_concat, if_pos h]
  rfl

theorem streak_failure {now : Nat} (h : ¬(after config ops).Restarts (.recordFailure now)) :
    streak config (ops ++ [.recordFailure now]) = streak config ops + 1 := by
  rw [streak, sinceRestart_concat, if_neg h, List.countP_append]
  rfl

theorem streak_silent (h : ¬(after config ops).Restarts op) (hf : op.isFailure = false) :
    streak config (ops ++ [op]) = streak config ops := by
  rw [streak, sinceRestart_concat, if_neg h, List.countP_append, List.countP_singleton, hf]
  rfl

end Streak

/-! ## The invariant -/

/-- What the count of the breaker is after the operations. -/
structure Counts (config : CircuitBreakerConfig) (ops : List Operation) (b : CircuitBreaker) :
    Prop where
  config_eq : b.config = config
  closed : b.state = .closed →
    b.failureCount = streak config ops ∧ b.failureCount < max 1 config.failureThreshold
  tripped : b.state ≠ .closed → b.failureCount = max 1 config.failureThreshold

namespace Counts

variable {config : CircuitBreakerConfig} {ops : List Operation}

theorem canExecute (h : Counts config ops (after config ops)) (now : Nat) :
    Counts config (ops ++ [.canExecute now]) ((after config ops).canExecute now).1 := by
  have hstreak : ¬(after config ops).Restarts (.canExecute now) →
      streak config (ops ++ [.canExecute now]) = streak config ops := (streak_silent · rfl)
  generalize after config ops = b at h hstreak
  have hconfig : (b.canExecute now).1.config = config := by rw [canExecute_config, h.config_eq]
  cases hs : b.state with
  | closed =>
    rw [canExecute_closed hs] at hconfig ⊢
    have hnot : ¬b.Restarts (.canExecute now) := by simp [Restarts, hs]
    exact ⟨hconfig, fun _ => hstreak hnot ▸ h.closed hs, h.tripped⟩
  | halfOpen =>
    rw [canExecute_halfOpen hs] at hconfig ⊢
    exact ⟨hconfig, fun hc => by simp [hs] at hc, h.tripped⟩
  | opened =>
    have htripped := h.tripped (by simp [hs])
    cases hr : b.shouldAttemptReset now with
    | true =>
      rw [canExecute_reset hs hr] at hconfig ⊢
      exact ⟨hconfig, nofun, fun _ => htripped⟩
    | false =>
      rw [canExecute_rejects hs hr] at hconfig ⊢
      exact ⟨hconfig, fun hc => by simp [hs] at hc, h.tripped⟩

theorem recordSuccess (h : Counts config ops (after config ops)) :
    Counts config (ops ++ [.recordSuccess]) (after config ops).recordSuccess := by
  have hstreak : (after config ops).Restarts .recordSuccess →
      streak config (ops ++ [.recordSuccess]) = 0 := streak_restarts
  generalize after config ops = b at h hstreak
  have hzero : 0 < max 1 config.failureThreshold := Nat.lt_of_lt_of_le Nat.one_pos (le_max_left _ _)
  cases hs : b.state with
  | closed =>
    have hr : b.Restarts .recordSuccess := .inl ⟨hs, rfl⟩
    simp only [CircuitBreaker.recordSuccess, hs]
    exact ⟨h.config_eq, fun _ => ⟨(hstreak hr).symm, hzero⟩, fun hn => absurd rfl hn⟩
  | halfOpen =>
    have hr : b.Restarts .recordSuccess := by simp [Restarts, apply, CircuitBreaker.recordSuccess, hs]
    simp only [CircuitBreaker.recordSuccess, hs]
    exact ⟨h.config_eq, fun _ => ⟨(hstreak hr).symm, hzero⟩, fun hn => absurd rfl hn⟩
  | opened =>
    simp only [CircuitBreaker.recordSuccess, hs]
    exact ⟨h.config_eq, fun hc => by simp [hs] at hc, h.tripped⟩

theorem recordFailure (h : Counts config ops (after config ops)) (now : Nat) :
    Counts config (ops ++ [.recordFailure now]) ((after config ops).recordFailure now) := by
  have hstreak : ¬(after config ops).Restarts (.recordFailure now) →
      streak config (ops ++ [.recordFailure now]) = streak config ops + 1 := streak_failure
  generalize after config ops = b at h hstreak
  cases hs : b.state with
  | closed =>
    obtain ⟨hcount, hlt⟩ := h.closed hs
    have hnot : ¬b.Restarts (.recordFailure now) := by simp [Restarts, hs]
    have hconfig := h.config_eq
    simp only [CircuitBreaker.recordFailure, hs]
    by_cases hth : b.config.failureThreshold ≤ b.failureCount + 1
    · -- below the threshold before, at it now
      rw [if_pos hth]
      refine ⟨hconfig, nofun, fun _ => ?_⟩
      rw [hconfig] at hth
      dsimp only
      omega
    · rw [if_neg hth]
      refine ⟨hconfig, fun _ => ⟨?_, ?_⟩, fun hn => absurd rfl hn⟩
      · rw [hstreak hnot, hcount]
      · rw [hconfig] at hth
        dsimp only
        omega
  | halfOpen =>
    simp only [CircuitBreaker.recordFailure, hs]
    exact ⟨h.config_eq, nofun, fun _ => h.tripped (by simp [hs])⟩
  | opened =>
    simp only [CircuitBreaker.recordFailure, hs]
    exact ⟨h.config_eq, nofun, fun _ => h.tripped (by simp [hs])⟩

/-- Every operation keeps the invariant. -/
theorem apply (h : Counts config ops (after config ops)) (op : Operation) :
    Counts config (ops ++ [op]) ((after config ops).apply op) := by
  cases op with
  | canExecute now => exact h.canExecute now
  | recordSuccess => exact h.recordSuccess
  | recordFailure now => exact h.recordFailure now

/-- A closed breaker opens on the failure that brings the streak to the threshold. -/
theorem opens_iff (h : Counts config ops (after config ops))
    (hs : (after config ops).state = .closed) (op : Operation) :
    ((after config ops).apply op).state = .opened ↔
      op.isFailure = true ∧ streak config ops + 1 = max 1 config.failureThreshold := by
  obtain ⟨hcount, hlt⟩ := h.closed hs
  rw [← hcount]
  cases op with
  | canExecute now => simp [CircuitBreaker.apply, canExecute_closed hs, hs, Operation.isFailure]
  | recordSuccess =>
    simp [CircuitBreaker.apply, CircuitBreaker.recordSuccess, hs, Operation.isFailure]
  | recordFailure now =>
    simp only [CircuitBreaker.apply, CircuitBreaker.recordFailure, hs, h.config_eq,
      Operation.isFailure, true_and]
    split
    · exact iff_of_true rfl (by omega)
    · exact iff_of_false nofun (by omega)

end Counts

theorem counts_after (config : CircuitBreakerConfig) (ops : List Operation) :
    Counts config ops (after config ops) := by
  induction ops using List.reverseRecOn with
  | nil =>
    exact ⟨rfl, fun _ => ⟨rfl, Nat.lt_of_lt_of_le Nat.one_pos (le_max_left _ _)⟩,
      fun hn => absurd rfl hn⟩
  | append_singleton ops op ih =>
    rw [after_concat]
    exact ih.apply op

/-- **The count after any operations.** While the breaker is closed, it is the number of failures
recorded since the last restart, below the threshold (or one); otherwise it is the threshold. So a
closed breaker opens on the failure that makes the streak as long as the threshold, and on no other
operation. -/
theorem failureCount_after (config : CircuitBreakerConfig) (ops : List Operation) :
    ((after config ops).state = .closed →
      (after config ops).failureCount = streak config ops ∧
        (after config ops).failureCount < max 1 config.failureThreshold) ∧
    ((after config ops).state ≠ .closed →
      (after config ops).failureCount = max 1 config.failureThreshold) ∧
    ((after config ops).state = .closed → ∀ op,
      ((after config (ops ++ [op])).state = .opened ↔
        op.isFailure = true ∧ streak config ops + 1 = max 1 config.failureThreshold)) := by
  have h := counts_after config ops
  refine ⟨h.closed, h.tripped, ?_⟩
  intro hs op
  rw [after_concat]
  exact h.opens_iff hs op

/-- A failed probe opens the breaker again without counting; the success of the next one restarts. -/
example : streak ⟨2, 0⟩ [.recordFailure 1, .recordFailure 2, .canExecute 3, .recordFailure 4,
    .canExecute 5, .recordSuccess, .recordFailure 6] = 1 := by decide

end Xola.CircuitBreaker
