import Mathlib.Algebra.Ring.Nat
import Mathlib.Data.List.Basic

/-!
# Circuit breaker

`runtime/src/reliability/circuit_breaker.rs`. The three atomics of the Rust type are the three
mutable fields here; every method is one transition of the whole record (each operation is taken as
atomic). Clock readings and `last_failure` are the `u64` milliseconds since the epoch that the code
compares; a `Duration` is given in milliseconds, and its `as_millis() as u64` is the reduction
modulo `2 ^ 64`. The failure count is reset or frozen before it can pass the threshold, a `usize`,
so it needs no wrap-around.
-/

namespace Xola

structure CircuitBreakerConfig where
  failureThreshold : Nat
  recoveryTimeout : Nat
  deriving DecidableEq, Repr

/-- `impl Default for CircuitBreakerConfig`. -/
def CircuitBreakerConfig.default : CircuitBreakerConfig := ⟨5, 30000⟩

/-- `Closed`, `Open` and `HalfOpen`. -/
inductive CircuitBreaker.State where
  | closed
  | opened
  | halfOpen
  deriving DecidableEq, Repr

structure CircuitBreaker where
  state : CircuitBreaker.State
  failureCount : Nat
  lastFailure : Nat
  config : CircuitBreakerConfig
  deriving DecidableEq, Repr

namespace CircuitBreaker

def new (config : CircuitBreakerConfig) : CircuitBreaker := ⟨.closed, 0, 0, config⟩

/-- The recovery timeout as the `u64` it is compared with. -/
def recovery (b : CircuitBreaker) : Nat := b.config.recoveryTimeout % 2 ^ 64

/-- `now.saturating_sub(last_failure) >= recovery_timeout`. -/
def shouldAttemptReset (b : CircuitBreaker) (now : Nat) : Bool :=
  b.recovery ≤ now - b.lastFailure

def canExecute (b : CircuitBreaker) (now : Nat) : CircuitBreaker × Bool :=
  match b.state with
  | .closed => (b, true)
  | .halfOpen => (b, true)
  | .opened =>
    if b.shouldAttemptReset now then ({ b with state := .halfOpen }, true) else (b, false)

def recordSuccess (b : CircuitBreaker) : CircuitBreaker :=
  match b.state with
  | .closed => { b with failureCount := 0 }
  | .halfOpen => { b with state := .closed, failureCount := 0 }
  | .opened => b

/-- `last_failure` is stored before the state is looked at. -/
def recordFailure (b : CircuitBreaker) (now : Nat) : CircuitBreaker :=
  match b.state with
  | .closed =>
    { b with
      lastFailure := now
      failureCount := b.failureCount + 1
      state := if b.config.failureThreshold ≤ b.failureCount + 1 then .opened else .closed }
  | .halfOpen => { b with lastFailure := now, state := .opened }
  | .opened => { b with lastFailure := now }

section Config

variable (b : CircuitBreaker) (now : Nat)

@[simp] theorem canExecute_config : (b.canExecute now).1.config = b.config := by
  unfold canExecute
  split
  · rfl
  · rfl
  · split <;> rfl

@[simp] theorem recordSuccess_config : b.recordSuccess.config = b.config := by
  unfold recordSuccess
  split <;> rfl

@[simp] theorem recordFailure_config : (b.recordFailure now).config = b.config := by
  unfold recordFailure
  split <;> rfl

end Config

/-! ## One equation per state and operation -/

section Steps

variable {b : CircuitBreaker} {now : Nat}

theorem canExecute_closed (h : b.state = .closed) : b.canExecute now = (b, true) := by
  simp only [canExecute, h]

theorem canExecute_halfOpen (h : b.state = .halfOpen) : b.canExecute now = (b, true) := by
  simp only [canExecute, h]

theorem canExecute_reset (h : b.state = .opened) (hr : b.shouldAttemptReset now = true) :
    b.canExecute now = ({ b with state := .halfOpen }, true) := by
  simp only [canExecute, h, hr, ↓reduceIte]

theorem canExecute_rejects (h : b.state = .opened) (hr : b.shouldAttemptReset now = false) :
    b.canExecute now = (b, false) := by
  simp only [canExecute, h, hr, Bool.false_eq_true, ↓reduceIte]

/-- A call is rejected exactly by an open breaker whose recovery timeout has not elapsed. -/
theorem canExecute_eq_false_iff :
    (b.canExecute now).2 = false ↔ b.state = .opened ∧ b.shouldAttemptReset now = false := by
  unfold canExecute
  split
  · next h => simp [h]
  · next h => simp [h]
  · next h => by_cases hr : b.shouldAttemptReset now <;> simp [h, hr]

theorem recordSuccess_state_ne (b : CircuitBreaker) : b.recordSuccess.state ≠ .halfOpen := by
  unfold recordSuccess
  split <;> simp [*]

theorem recordFailure_state_ne (b : CircuitBreaker) (now : Nat) :
    (b.recordFailure now).state ≠ .halfOpen := by
  unfold recordFailure
  split
  · dsimp only
    split <;> simp
  · simp
  · simp [*]

end Steps

end CircuitBreaker

end Xola
