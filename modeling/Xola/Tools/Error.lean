import Mathlib.Data.List.Basic

/-!
# Tool errors

`runtime/src/tools/mod.rs`. A `serde_json::Error` is given by the text it displays.
-/

namespace Xola

inductive ToolError where
  | invalidInput (msg : String)
  | executionFailed (msg : String)
  | timeout (timeoutMs : Nat)
  | jsonError (msg : String)
  | notFound (name : String)
  | circuitOpen (name : String)
  deriving DecidableEq, Repr

/-- The `#[error("…")]` texts. -/
def ToolError.toString : ToolError → String
  | .invalidInput msg => "Invalid input: " ++ msg
  | .executionFailed msg => "Execution failed: " ++ msg
  | .timeout timeoutMs => "Timeout after " ++ ToString.toString timeoutMs ++ "ms"
  | .jsonError msg => "JSON error: " ++ msg
  | .notFound name => "Tool '" ++ name ++ "' not found in registry"
  | .circuitOpen name =>
    "Circuit breaker is open for tool '" ++ name ++ "' - tool temporarily unavailable"

end Xola
