import Xola.Ipc.Types
import Xola.Tools.Error

/-!
# Planning errors

`runtime/src/planning/error.rs`.
-/

namespace Xola

/-- A `JoinError` is given by the text it displays. -/
inductive PlanError where
  | maxIterationsReached (iterations : Nat)
  | maxReplansPerStep (replans : Nat) (action : String)
  | maxReplansPerTask (replans : Nat)
  | ipc (e : IpcError)
  | tool (e : ToolError)
  | parallelBranchFailed (msg : String)
  | joinError (msg : String)
  | loop (msg : String)
  | timeout (level : String) (durationMs : Nat)
  deriving DecidableEq, Repr

inductive FailureCategory where
  | timeout
  | parseError
  | toolError
  | loop
  | resourceExhaustion
  | ipcFailure
  | internalError
  deriving DecidableEq, Repr

namespace PlanError

def category : PlanError → FailureCategory
  | .timeout _ _ => .timeout
  | .loop _ => .loop
  | .tool _ => .toolError
  | .ipc _ => .ipcFailure
  | .maxIterationsReached _ | .maxReplansPerStep _ _ | .maxReplansPerTask _ => .resourceExhaustion
  | .joinError _ | .parallelBranchFailed _ => .internalError

def isRetryable (e : PlanError) : Bool :=
  match e.category with
  | .timeout | .toolError | .ipcFailure => true
  | .parseError | .loop | .resourceExhaustion | .internalError => false

def isStuck (e : PlanError) : Bool :=
  match e.category with
  | .loop | .resourceExhaustion => true
  | .timeout | .parseError | .toolError | .ipcFailure | .internalError => false

end PlanError

end Xola
