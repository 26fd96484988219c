import Xola.Interaction.Inline
import Xola.Planning.Executor
import Xola.Reliability.Verify.FailureCount
import Xola.Tools.Overlap

/-!
# Tasks on one registry

Every executor holds the same `Arc<ToolRegistry>`, and `execute_parallel` hands it to each of its
branches: `self.registry.execute_with_timeout(…).await` in one task overlaps the calls of all the
others. `raced` is the loop of `Planning/Executor` with its tool calls carried out by the registry,
`Tasks` the pool of any number of such loops; what is left to the environment are the model, the
tools, the clock and the episodic log. A task that its deadline has cut short is one without further
entries.
-/

namespace Xola.Runtime

open Interaction
open CircuitBreaker (Operation)

inductive Command where
  | plan (c : PlanExecutor.Command)
  | tool (c : ToolRegistry.Command)

abbrev Command.Answer : Command → Type
  | .plan c => c.Answer
  | .tool c => c.Answer

abbrev Work (α : Type) := Prog Command Command.Answer PlanError α

variable [SerdeJson]

/-- A tool call is a call of the registry; its errors are what the executor replans on. -/
def carryOut (validatorFor : ValidatorFor) (r : ToolRegistry) :
    (c : PlanExecutor.Command) → Work c.Answer
  | .executeWithTimeout action input timeout =>
    ((r.executeWithTimeout validatorFor action input timeout).embed .tool).attempt
  | .iteration n => .call (.plan (.iteration n)) .ret
  | .pushed stm msg => .call (.plan (.pushed stm msg)) .ret
  | .reason request => .call (.plan (.reason request)) .ret
  | .summarize request => .call (.plan (.summarize request)) .ret
  | .elapsed => .call (.plan .elapsed) .ret
  | .insert episode => .call (.plan (.insert episode)) .ret

/-- What `execute` races against the deadline, down to the breakers. -/
def raced (validatorFor : ValidatorFor) (hs : Hashing) (ex : PlanExecutor) (goal : String) :
    Work TaskResult :=
  (ex.raced hs goal).inline (carryOut validatorFor ex.registry)

/-- The registry at the time `now`; everything else may answer anything. -/
def serve (now : Nat) (r : ToolRegistry) : (c : Command) → c.Answer → ToolRegistry → Prop
  | .plan _, _, r' => r' = r
  | .tool c, x, r' => ToolRegistry.serve now r c x r'

variable {ι : Type}

abbrev TaskLog (ι : Type) := PoolLog ι Nat Command.Answer

/-- The tasks have come this far, in this order, and have left the registry as `r`. -/
abbrev Tasks [DecidableEq ι] (validatorFor : ValidatorFor) (hs : Hashing) (r₀ : ToolRegistry)
    (ex : ι → PlanExecutor) (goal : ι → String) : TaskLog ι → ToolRegistry → Prop :=
  Interleaved (fun i => raced validatorFor hs (ex i) (goal i)) serve r₀

/-! ## What the breaker of a tool sees -/

def operation? (name : String) : Entry ι Nat Command.Answer → Option Operation
  | ⟨_, now, .tool (.canExecute name'), _⟩ => if name' = name then some (.canExecute now) else none
  | ⟨_, _, .tool (.recordSuccess name'), _⟩ => if name' = name then some .recordSuccess else none
  | ⟨_, now, .tool (.recordFailure name'), _⟩ =>
    if name' = name then some (.recordFailure now) else none
  | ⟨_, _, .tool (.execute _ _ _), _⟩ | ⟨_, _, .plan _, _⟩ => none

/-- The operations on the breaker of a tool, whichever task they are from. -/
def operationsOn (name : String) (log : TaskLog ι) : List Operation :=
  log.filterMap (operation? name)

end Xola.Runtime
