import Xola.Interaction.Interleaved
import Xola.Reliability.Interleaving
import Xola.Tools.Calls

/-!
# Overlapping calls

After start-up the registry is shared: every executor and every branch of `execute_parallel` calls
`execute_with_timeout` on it at any time. Nothing of it changes then but the breakers, whose
operations are taken as atomic here (`Reliability/Atomics.lean` has their single accesses).
`Overlapped` is the pool of these calls; a call whose future is dropped is one without further
entries.
-/

namespace Xola.ToolRegistry

open Interaction
open CircuitBreaker (Action CallId)

structure Invocation where
  tool : String
  input : Json
  timeout : Nat

/-- `execute_with_timeout` on the registry as it was when the runtime started. -/
def invoke [SerdeJson] (validatorFor : ValidatorFor) (r : ToolRegistry) (c : Invocation) :
    Prog Command Command.Answer ToolError Json :=
  r.executeWithTimeout validatorFor c.tool c.input c.timeout

/-- The breakers at the time `now`; a tool may answer anything. -/
def serve (now : Nat) (r : ToolRegistry) : (c : Command) → c.Answer → ToolRegistry → Prop
  | .canExecute name, admitted, r' =>
    admitted = ((r.breaker name).canExecute now).2 ∧
      r' = r.updateBreaker name fun b => (b.canExecute now).1
  | .execute _ _ _, _, r' => r' = r
  | .recordSuccess name, _, r' => r' = r.updateBreaker name .recordSuccess
  | .recordFailure name, _, r' => r' = r.updateBreaker name (.recordFailure · now)

abbrev CallLog := PoolLog CallId Nat Command.Answer

/-- The calls have come this far, in this order, and have left the registry as `r`. -/
abbrev Overlapped [SerdeJson] (validatorFor : ValidatorFor) (r₀ : ToolRegistry)
    (calls : CallId → Invocation) : CallLog → ToolRegistry → Prop :=
  Interleaved (fun i => invoke validatorFor r₀ (calls i)) serve r₀

/-! ## What the breaker of a tool sees -/

def action? (name : String) : Entry CallId Nat Command.Answer → Option Action
  | ⟨i, now, .canExecute name', _⟩ => if name' = name then some (.canExecute i now) else none
  | ⟨_, _, .execute _ _ _, _⟩ => none
  | ⟨i, _, .recordSuccess name', _⟩ => if name' = name then some (.recordSuccess i) else none
  | ⟨i, now, .recordFailure name', _⟩ => if name' = name then some (.recordFailure i now) else none

def actionsOn (name : String) (log : CallLog) : List Action := log.filterMap (action? name)

/-- The call has been admitted, and its result has not been recorded. -/
def InFlight (c : Invocation) (h : History Command.Answer) : Prop :=
  h = [⟨.canExecute c.tool, true⟩] ∨
    ∃ answer, h = [⟨.canExecute c.tool, true⟩, ⟨.execute c.tool c.input c.timeout, answer⟩]

end Xola.ToolRegistry
