import Xola.Interaction.Wp
import Xola.Json
import Xola.Reliability.CircuitBreaker
import Xola.Text
import Xola.Tools.Error

/-!
# Tool registry

`runtime/src/tools/registry.rs` and `validator.rs`. The two `HashMap`s are association lists in
their iteration order. The `jsonschema` crate is not part of the repository: its `validator_for` is
the parameter `validatorFor`, which compiles a schema into the function listing the texts of the
errors of an input, or fails with a text of its own.

`execute_with_timeout` talks to the breaker of its tool and to the tool itself; both are commands
here, so that calls can be interleaved, timed and observed. A tool that panics is one whose
execution is never answered.
-/

namespace Xola

open Interaction

structure Tool where
  name : String
  description : String
  inputSchema : Json

/-- A compiled schema lists the errors of an input. -/
abbrev ValidatorFor := Json → Except String (Json → List String)

def InputValidator.validate (validatorFor : ValidatorFor) (schema input : Json) :
    Except ToolError Unit :=
  match validatorFor schema with
  | .error e => .error (.invalidInput ("Invalid schema definition: " ++ e))
  | .ok iterErrors =>
    if iterErrors input = [] then .ok ()
    else .error (.invalidInput
      ("Input validation failed: " ++ String.intercalate ", " (iterErrors input)))

inductive RegistryError where
  | duplicateName (name : String)

def RegistryError.toString : RegistryError → String
  | .duplicateName name => "Tool '" ++ name ++ "' is already registered"

/-- Tools and circuit breakers are entered under the same names, one of each for every name. -/
structure ToolRegistry where
  tools : List (String × Tool)
  circuitBreakers : List (String × CircuitBreaker)
  circuitBreakerConfig : CircuitBreakerConfig
  keys_eq : circuitBreakers.map Prod.fst = tools.map Prod.fst
  nodup : (tools.map Prod.fst).Nodup

/-- `truncate_json`; it panics when the limit falls inside a character. -/
def truncateJson [SerdeJson] (value : Json) (maxChars : Nat) : Option String :=
  let serialized := SerdeJson.toString value
  if maxChars < serialized.utf8ByteSize then
    (sliceTo serialized maxChars).map fun s =>
      s ++ "... [truncated, " ++ toString serialized.utf8ByteSize ++ " bytes total]"
  else some serialized

namespace ToolRegistry

def new (config : CircuitBreakerConfig) : ToolRegistry := ⟨[], [], config, rfl, List.nodup_nil⟩

def register (r : ToolRegistry) (tool : Tool) : Except RegistryError ToolRegistry :=
  if h : tool.name ∈ r.tools.map Prod.fst then .error (.duplicateName tool.name)
  else .ok
    { tools := (tool.name, tool) :: r.tools
      circuitBreakers := (tool.name, .new r.circuitBreakerConfig) :: r.circuitBreakers
      circuitBreakerConfig := r.circuitBreakerConfig
      keys_eq := by rw [List.map_cons, List.map_cons, r.keys_eq]
      nodup := by rw [List.map_cons]; exact List.nodup_cons.2 ⟨h, r.nodup⟩ }

def get (r : ToolRegistry) (name : String) : Option Tool := r.tools.lookup name

def listNames (r : ToolRegistry) : List String := r.tools.map Prod.fst

def listSchemas (r : ToolRegistry) : List Json :=
  r.tools.map fun e =>
    .obj [("description", .str e.2.description), ("name", .str e.2.name),
      ("parameters", e.2.inputSchema)]

def validateInput (validatorFor : ValidatorFor) (r : ToolRegistry) (toolName : String)
    (input : Json) : Except ToolError Unit :=
  match r.get toolName with
  | none => .error (.notFound toolName)
  | some tool => InputValidator.validate validatorFor tool.inputSchema input

/-! ## Executing a tool -/

inductive Command where
  | canExecute (toolName : String)
  | execute (toolName : String) (input : Json) (timeout : Nat)
  | recordSuccess (toolName : String)
  | recordFailure (toolName : String)

/-- An execution that outlasts its timeout is answered with `none`. -/
abbrev Command.Answer : Command → Type
  | .canExecute _ => Bool
  | .execute _ _ _ => Option (Except ToolError Json)
  | .recordSuccess _ => Unit
  | .recordFailure _ => Unit

/-- The result of `tokio::time::timeout(timeout, tool.execute(input))`, timeouts as errors. -/
def flatten (timeout : Nat) : Option (Except ToolError Json) → Except ToolError Json
  | some result => result
  | none => .error (.timeout (timeout % 2 ^ 64))

def executeWithTimeout [SerdeJson] (validatorFor : ValidatorFor) (r : ToolRegistry)
    (toolName : String) (input : Json) (timeout : Nat) : Prog Command Command.Answer ToolError Json :=
  -- the input is rendered for the log before anything else
  match truncateJson input 500 with
  | none => .panic charBoundary
  | some _ =>
    match r.circuitBreakers.lookup toolName with
    | none => .err (.notFound toolName)
    | some _ => do
      if !(← Prog.perform (.canExecute toolName)) then
        .err (.circuitOpen toolName)
      else
        Prog.ofExcept (validateInput validatorFor r toolName input)
        match r.get toolName with
        | none => .err (.notFound toolName)
        | some _ =>
          match flatten timeout (← Prog.perform (.execute toolName input timeout)) with
          | .ok output =>
            Prog.perform (Command.recordSuccess toolName)
            match truncateJson output 500 with
            | none => .panic charBoundary
            | some _ => .ret output
          | .error e =>
            Prog.perform (Command.recordFailure toolName)
            .err e

end ToolRegistry

end Xola
