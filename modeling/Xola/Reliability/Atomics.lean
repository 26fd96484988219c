import Xola.Interaction.Interleaved
import Xola.Reliability.CircuitBreaker

/-!
# The breaker as three atomics

`runtime/src/reliability/circuit_breaker.rs` again, one level down. A breaker is three atomics, and
its methods, all on `&self`, are programs over single loads, stores and one `fetch_add`. Threads may
come in between any two of them. The accesses of a pool are taken in one order, as in a sequentially
consistent memory; the code asks for acquire and release.

A `usize` has 64 bits, and addition wraps as in a release build.
-/

namespace Xola.CircuitBreaker

open Interaction

/-- `State as u8`. -/
def State.toU8 : State → UInt8
  | .closed => 0
  | .opened => 1
  | .halfOpen => 2

/-- `impl From<u8> for State`. -/
def State.ofU8 (value : UInt8) : State :=
  if value = 0 then .closed
  else if value = 1 then .opened
  else if value = 2 then .halfOpen
  else .closed

@[simp] theorem State.ofU8_toU8 (s : State) : State.ofU8 s.toU8 = s := by
  cases s <;> rfl

/-- The atomics. -/
structure Cells where
  state : UInt8
  failureCount : Nat
  lastFailure : Nat
  deriving DecidableEq, Repr

def Cells.new : Cells := ⟨State.closed.toU8, 0, 0⟩

/-- The accesses of the methods, and their looks at the clock. -/
inductive Access where
  | now
  | loadState
  | storeState (value : UInt8)
  | storeFailureCount (value : Nat)
  | fetchAddFailureCount
  | loadLastFailure
  | storeLastFailure (value : Nat)
  deriving DecidableEq, Repr

abbrev Access.Answer : Access → Type
  | .now | .fetchAddFailureCount | .loadLastFailure => Nat
  | .loadState => UInt8
  | .storeState _ | .storeFailureCount _ | .storeLastFailure _ => Unit

/-- One access, at the time `now`; `fetch_add` answers with the value before. -/
def Cells.access (now : Nat) (m : Cells) : (a : Access) → Cells × a.Answer
  | .now => (m, now)
  | .loadState => (m, m.state)
  | .storeState value => ({ m with state := value }, ())
  | .storeFailureCount value => ({ m with failureCount := value }, ())
  | .fetchAddFailureCount =>
    ({ m with failureCount := (m.failureCount + 1) % 2 ^ 64 }, m.failureCount)
  | .loadLastFailure => (m, m.lastFailure)
  | .storeLastFailure value => ({ m with lastFailure := value }, ())

/-! ## The methods -/

namespace Atomic

abbrev Steps := Prog Access Access.Answer Empty

def shouldAttemptReset (config : CircuitBreakerConfig) : Steps Bool := do
  let now ← Prog.perform .now
  let lastFailure ← Prog.perform .loadLastFailure
  return decide (config.recoveryTimeout % 2 ^ 64 ≤ now - lastFailure)

def canExecute (config : CircuitBreakerConfig) : Steps Bool := do
  match State.ofU8 (← Prog.perform .loadState) with
  | .closed => return true
  | .halfOpen => return true
  | .opened =>
    if ← shouldAttemptReset config then
      Prog.perform (Access.storeState State.halfOpen.toU8)
      return true
    else
      return false

def recordSuccess : Steps Unit := do
  match State.ofU8 (← Prog.perform .loadState) with
  | .closed => Prog.perform (Access.storeFailureCount 0)
  | .halfOpen =>
    Prog.perform (Access.storeState State.closed.toU8)
    Prog.perform (Access.storeFailureCount 0)
  | .opened => return ()

def recordFailure (config : CircuitBreakerConfig) : Steps Unit := do
  let now ← Prog.perform .now
  Prog.perform (Access.storeLastFailure now)
  match State.ofU8 (← Prog.perform .loadState) with
  | .closed =>
    let newCount := ((← Prog.perform .fetchAddFailureCount) + 1) % 2 ^ 64
    if config.failureThreshold ≤ newCount then
      Prog.perform (Access.storeState State.opened.toU8)
    else
      return ()
  | .halfOpen => Prog.perform (Access.storeState State.opened.toU8)
  | .opened => return ()

inductive Method where
  | canExecute
  | recordSuccess
  | recordFailure
  deriving DecidableEq, Repr

/-- A method, with its answer if it has one. -/
def Method.run (config : CircuitBreakerConfig) : Method → Steps (Option Bool)
  | .canExecute => do return some (← Atomic.canExecute config)
  | .recordSuccess => do
    Atomic.recordSuccess
    return none
  | .recordFailure => do
    Atomic.recordFailure config
    return none

abbrev AccessLog := PoolLog Nat Nat Access.Answer

/-- The threads have come this far in their methods; the moment of an entry is the time of it. -/
abbrev Racing (config : CircuitBreakerConfig) (methods : Nat → Method) : AccessLog → Cells → Prop :=
  Interleaved (fun i => (methods i).run config)
    (fun now m a answer m' => m.access now a = (m', answer)) .new

/-- A method that no other thread disturbs. -/
def perform (config : CircuitBreakerConfig) (m : Cells) (method : Method) (now : Nat) :
    Cells × Prog.Ending Empty (Option Bool) :=
  (method.run config).runWith (Cells.access now) m

end Atomic

end Xola.CircuitBreaker
