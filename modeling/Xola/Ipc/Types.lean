import Xola.Json

/-!
# IPC messages

`runtime/src/ipc/types.rs` and `error.rs`: the bodies of the endpoints the executor calls. A
`reqwest::Error` is given by the text it displays.
-/

namespace Xola

structure IpcMessage where
  role : String
  content : String
  deriving DecidableEq, Repr

/-- Request body for `POST /reason`. -/
structure ReasonRequest where
  messages : List IpcMessage
  toolSchemas : List Json
  memoryContext : List String
  taskGoal : String

def IpcMessage.toJson (m : IpcMessage) : Json :=
  .obj [("role", .str m.role), ("content", .str m.content)]

def ReasonRequest.toJson (r : ReasonRequest) : Json :=
  .obj [("messages", .arr (r.messages.map IpcMessage.toJson)), ("tool_schemas", .arr r.toolSchemas),
    ("memory_context", .arr (r.memoryContext.map .str)), ("task_goal", .str r.taskGoal)]

/-- Response body from `POST /reason`. -/
structure ReasonResponse where
  thought : String
  action : Option String
  actionInput : Json
  isFinal : Bool
  finalAnswer : Option String

/-- An `Option<String>` field: absent and `null` are `None`. -/
def optionalString : Option Json → Option (Option String)
  | none | some .null => some none
  | some (.str s) => some (some s)
  | some _ => none

def ReasonResponse.ofFields (thought action actionInput isFinal finalAnswer : Option Json) :
    Option ReasonResponse := do
  let .str thought ← thought | none
  let action ← optionalString action
  let .bool isFinal ← isFinal | none
  let finalAnswer ← optionalString finalAnswer
  return ⟨thought, action, actionInput.getD .null, isFinal, finalAnswer⟩

/-- The derived deserialisation takes an object, or an array with all fields as they are declared. -/
def ReasonResponse.ofJson : Json → Option ReasonResponse
  | .obj fields =>
    ofFields (fields.lookup "thought") (fields.lookup "action") (fields.lookup "action_input")
      (fields.lookup "is_final") (fields.lookup "final_answer")
  | .arr [thought, action, actionInput, isFinal, finalAnswer] =>
    ofFields (some thought) (some action) (some actionInput) (some isFinal) (some finalAnswer)
  | _ => none

/-- Request body for `POST /summarize`. -/
structure SummarizeRequest where
  messages : List Json
  model : Option String
  maxSummaryTokens : Option Nat

/-- Serialisation of a body; fields that are `None` are skipped. -/
def SummarizeRequest.toJson (r : SummarizeRequest) : Json :=
  .obj (("messages", .arr r.messages) ::
    (r.model.toList.map fun m => ("model", .str m)) ++
    (r.maxSummaryTokens.toList.map fun n => ("max_summary_tokens", .int n)))

/-- Response body from `POST /summarize`; the token count is a `u32`. -/
structure SummarizeResponse where
  summary : String
  tokenCount : UInt32

inductive IpcError where
  | transport (msg : String)
  | serverError (status : Nat) (body : String)
  | deserialisation (msg : String)
  deriving DecidableEq, Repr

/-- The `#[error("…")]` texts. -/
def IpcError.toString : IpcError → String
  | .transport msg => "IPC transport error: " ++ msg
  | .serverError status body =>
    "IPC server error: status " ++ ToString.toString status ++ ", body: " ++ body
  | .deserialisation msg => "IPC deserialisation error: " ++ msg

end Xola
