import Xola.LlmSurface.Prompts

/-!
# What `/reason` sends to the model

The request model of `llm_surface/server.py` and the first half of `reason_step`, up to the call of
`client.chat.completions.create`. `REASON_MODEL` of the environment is a parameter.
-/

namespace Xola.LlmSurface

structure ReasonMessage where
  role : String
  content : String
  deriving DecidableEq, Repr

def ReasonMessage.validate : Json → Option ReasonMessage
  | .obj fields => do
    let role ← Pydantic.field none Pydantic.str (fields.lookup "role")
    let content ← Pydantic.field none Pydantic.str (fields.lookup "content")
    return ⟨role, content⟩
  | _ => none

structure ReasonRequest where
  messages : List ReasonMessage
  toolSchemas : List ToolSchema
  memoryContext : List String
  taskGoal : String

/-- `ReasonRequest.model_validate` on a request body; `none` is a 422. -/
def ReasonRequest.modelValidate : Json → Option ReasonRequest
  | .obj fields => do
    let messages ← Pydantic.field (some []) (Pydantic.list ReasonMessage.validate)
      (fields.lookup "messages")
    let toolSchemas ← Pydantic.field (some []) (Pydantic.list ToolSchema.validate)
      (fields.lookup "tool_schemas")
    let memoryContext ← Pydantic.field (some []) (Pydantic.list Pydantic.str)
      (fields.lookup "memory_context")
    let taskGoal ← Pydantic.field none Pydantic.str (fields.lookup "task_goal")
    guard (taskGoal ≠ "")
    return ⟨messages, toolSchemas, memoryContext, taskGoal⟩
  | _ => none

/-- The arguments of `client.chat.completions.create`. -/
structure Completion where
  model : String
  messages : List ReasonMessage
  tools : List Json
  toolChoice : String

/-- The messages are the dumps of the body's, which always have both keys. -/
def chatMessages (messages : List ReasonMessage) (memoryContext : List String) (taskGoal : String) :
    List ReasonMessage :=
  ⟨"system", buildSystemPrompt taskGoal memoryContext⟩ :: messages

/-- What a request with this body makes the server send to the model, if anything. -/
def completionSent (reasonModelEnv : Option String) (body : Json) : Option Completion := do
  let request ← ReasonRequest.modelValidate body
  let openaiTools ← buildToolSchemasForOpenai (request.toolSchemas.map ToolSchema.modelDump)
  return {
    model := reasonModelEnv.getD reasonModel
    messages := chatMessages request.messages request.memoryContext request.taskGoal
    tools := openaiTools
    toolChoice := "auto" }

end Xola.LlmSurface
