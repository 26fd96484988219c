import Mathlib.Data.List.Basic

/-!
# Executor configuration

`runtime/src/planning/config.rs`, `tools/timeout_config.rs` and the `TimeoutConfig` of
`reliability/timeout.rs`. Durations are in milliseconds.
-/

namespace Xola

structure ReplanConfig where
  maxReplansPerStep : Nat
  maxReplansPerTask : Nat
  deriving DecidableEq, Repr

/-- `impl Default for ReplanConfig`. -/
def ReplanConfig.default : ReplanConfig := ⟨3, 10⟩

structure PlanConfig where
  maxIterations : Nat
  stmTokenBudget : Nat
  replan : ReplanConfig
  deriving DecidableEq, Repr

/-- `impl Default for PlanConfig`. -/
def PlanConfig.default : PlanConfig := ⟨25, 8000, .default⟩

structure ToolTimeoutConfig where
  defaultTimeoutMs : Nat
  perToolTimeoutMs : List (String × Nat)
  deriving DecidableEq, Repr

namespace ToolTimeoutConfig

/-- `impl Default for ToolTimeoutConfig`. -/
def default : ToolTimeoutConfig := ⟨60000, []⟩

def setTimeout (config : ToolTimeoutConfig) (toolName : String) (timeoutMs : Nat) :
    ToolTimeoutConfig :=
  { config with
    perToolTimeoutMs := (toolName, timeoutMs) ::
      config.perToolTimeoutMs.filter fun e => e.1 ≠ toolName }

def getTimeout (config : ToolTimeoutConfig) (toolName : String) : Nat :=
  (config.perToolTimeoutMs.lookup toolName).getD config.defaultTimeoutMs

end ToolTimeoutConfig

structure TimeoutConfig where
  toolTimeout : Nat
  stepTimeout : Nat
  taskTimeout : Nat
  deriving DecidableEq, Repr

/-- `impl Default for TimeoutConfig`. -/
def TimeoutConfig.default : TimeoutConfig := ⟨30000, 60000, 300000⟩

end Xola
