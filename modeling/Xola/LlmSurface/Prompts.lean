import Xola.LlmSurface.Pydantic

/-!
# Prompts and tool schemas for the model

The system prompt and the tool descriptors of `llm_surface/prompts.py`, and the body model
`ToolSchema` of `server.py` that the descriptors pass through on their way there.
-/

namespace Xola.LlmSurface

/-- `REASON_MODEL`. -/
def reasonModel : String := "gpt-4o"

/-! ## The system prompt -/

def memoryBlock (memoryContext : List String) : String :=
  if memoryContext = [] then "No relevant memories."
  else String.intercalate "\n" (memoryContext.map fun m => "- " ++ m)

/-- `_SYSTEM_PROMPT_TEMPLATE.format(task_goal=…, memory_block=…)`. -/
def buildSystemPrompt (taskGoal : String) (memoryContext : List String) : String :=
  "You are an autonomous agent. Your goal is:\n\n" ++ taskGoal ++
    "\n\nYou have access to tools. Use them to accomplish your goal.\n" ++
    "When you have gathered enough information to answer, call the `final_answer` tool.\n\n" ++
    "## Relevant context from memory\n\n" ++ memoryBlock memoryContext ++
    "\n\n## Instructions\n\n" ++
    "- Think step by step about what action to take next.\n" ++
    "- Use exactly one tool per turn.\n" ++
    "- When you have the final answer, use the `final_answer` tool.\n" ++
    "- If a tool call fails, analyse the error and try an alternative approach.\n" ++
    "- Do not repeat the same failing action more than twice."

/-! ## The body model -/

structure ToolSchema where
  name : String
  description : String
  parameters : List (String × Json)

namespace ToolSchema

def validate : Json → Option ToolSchema
  | .obj fields => do
    let name ← Pydantic.field none Pydantic.str (fields.lookup "name")
    let description ← Pydantic.field (some "") Pydantic.str (fields.lookup "description")
    let parameters ← Pydantic.field (some []) Pydantic.dictAny (fields.lookup "parameters")
    return ⟨name, description, parameters⟩
  | _ => none

/-- `model_dump()`. -/
def modelDump (schema : ToolSchema) : List (String × Json) :=
  [("name", .str schema.name), ("description", .str schema.description),
    ("parameters", .obj schema.parameters)]

end ToolSchema

/-! ## The `tools` parameter -/

/-- `FINAL_ANSWER_TOOL`. -/
def finalAnswerTool : Json :=
  .obj [("type", .str "function"),
    ("function", .obj [("name", .str "final_answer"),
      ("description", .str ("Call this tool when the task is complete and you have the final " ++
        "result. Pass the result as the 'answer' argument.")),
      ("parameters", .obj [("type", .str "object"),
        ("properties", .obj [("answer", .obj [("type", .str "string"),
          ("description", .str "The final answer to the task.")])]),
        ("required", .arr [.str "answer"])])])]

/-- One entry of the list; `none` is the `KeyError` of a descriptor without a name. -/
def openaiTool (schema : List (String × Json)) : Option Json := do
  let name ← schema.lookup "name"
  return .obj [("type", .str "function"),
    ("function", .obj [("name", name),
      ("description", (schema.lookup "description").getD (.str "")),
      ("parameters", (schema.lookup "parameters").getD (.obj []))])]

/-- `final_answer` is always appended. -/
def buildToolSchemasForOpenai (toolSchemas : List (List (String × Json))) :
    Option (List Json) := do
  let openaiTools ← toolSchemas.mapM openaiTool
  return openaiTools ++ [finalAnswerTool]

/-- What a `/reason` request with these tool schemas sends to the model: nothing, if one of them is
rejected. -/
def toolsSent (toolSchemas : List Json) : Option (List Json) := do
  let schemas ← toolSchemas.mapM ToolSchema.validate
  buildToolSchemasForOpenai (schemas.map ToolSchema.modelDump)

end Xola.LlmSurface
