import Mathlib.Data.List.Nodup
import Xola.Data.Traverse
import Xola.LlmSurface.Chat
import Xola.Planning.Verify.Context
import Xola.Planning.Verify.LoopGuard

/-!
# From the buffer to the model

A `/reason` request is serialised by the runtime, validated by the server and turned into the call of
the model. The server accepts it exactly if there is a goal and every registered tool describes its
parameters by an object; and then the model gets what the runtime has, in the same order: the goal in
the system prompt, the buffer as it is, and each registered tool once, with `final_answer` at the end.
In a run of `execute` that buffer is the end of what has happened since the last summary.
-/

namespace Xola.LlmSurface

open Interaction

/-! ## What is meant to be sent -/

/-- A registered tool in the format of the model's API. -/
def functionTool (tool : Tool) : Json :=
  .obj [("type", .str "function"),
    ("function", .obj [("name", .str tool.name), ("description", .str tool.description),
      ("parameters", tool.inputSchema)])]

/-- The call of the model for a buffer, a registry, a goal and its memories. -/
def completionFor (reasonModelEnv : Option String) (stm : ShortTermMemory) (r : ToolRegistry)
    (goal : String) (memoryContext : List String) : Completion where
  model := reasonModelEnv.getD reasonModel
  messages := ⟨"system", buildSystemPrompt goal memoryContext⟩ ::
    stm.messages.map fun m => ⟨m.role.toString, m.content⟩
  tools := r.tools.map (fun e => functionTool e.2) ++ [finalAnswerTool]
  toolChoice := "auto"

/-- There is a goal, and the parameters of every tool are described by an object. -/
def Sendable (r : ToolRegistry) (goal : String) : Prop :=
  goal ≠ "" ∧ ∀ e ∈ r.tools, ∃ fields, e.2.inputSchema = .obj fields

/-! ## Validation -/

/-- The descriptor of a tool, as the server has it. -/
def schemaOf (tool : Tool) : Option ToolSchema :=
  (Pydantic.dictAny tool.inputSchema).map fun parameters => ⟨tool.name, tool.description, parameters⟩

def wireSchema (e : String × Tool) : Json :=
  .obj [("description", .str e.2.description), ("name", .str e.2.name),
    ("parameters", e.2.inputSchema)]

theorem validate_wireSchema (e : String × Tool) :
    ToolSchema.validate (wireSchema e) = schemaOf e.2 := by
  have hfield : ToolSchema.validate (wireSchema e) =
      (Pydantic.dictAny e.2.inputSchema).bind fun parameters =>
        some ⟨e.2.name, e.2.description, parameters⟩ := rfl
  rw [hfield, schemaOf, Option.map_eq_bind]
  rfl

theorem mapM_messages (messages : List IpcMessage) :
    (messages.map IpcMessage.toJson).mapM ReasonMessage.validate =
      some (messages.map fun m => ⟨m.role, m.content⟩) :=
  List.mapM_map_of_forall fun _ _ => rfl

theorem mapM_str (texts : List String) : (texts.map JsonOf.str).mapM Pydantic.str = some texts := by
  rw [List.mapM_eq_some_iff, List.map_map]
  rfl

/-- What the server makes of a request of the runtime, schema by schema. -/
theorem modelValidate_toJson (request : Xola.ReasonRequest) :
    ReasonRequest.modelValidate request.toJson =
      if request.taskGoal = "" then none
      else (request.toolSchemas.mapM ToolSchema.validate).map fun schemas =>
        ⟨request.messages.map fun m => ⟨m.role, m.content⟩, schemas, request.memoryContext,
          request.taskGoal⟩ := by
  have hfields : ReasonRequest.modelValidate request.toJson = do
      let messages ← (request.messages.map IpcMessage.toJson).mapM ReasonMessage.validate
      let toolSchemas ← request.toolSchemas.mapM ToolSchema.validate
      let memoryContext ← (request.memoryContext.map JsonOf.str).mapM Pydantic.str
      guard (request.taskGoal ≠ "")
      return ⟨messages, toolSchemas, memoryContext, request.taskGoal⟩ := rfl
  rw [hfields, mapM_messages, mapM_str]
  cases request.toolSchemas.mapM ToolSchema.validate with
  | none => exact (ite_self none).symm
  | some schemas =>
    by_cases hgoal : request.taskGoal = ""
    · rw [if_pos hgoal, guard, if_neg (not_not_intro hgoal)]
      rfl
    · rw [if_neg hgoal, guard, if_pos hgoal]
      rfl

/-! ## The tools -/

/-- A descriptor in the format of the model's API. -/
def toolOf (schema : ToolSchema) : Json :=
  .obj [("type", .str "function"),
    ("function", .obj [("name", .str schema.name), ("description", .str schema.description),
      ("parameters", .obj schema.parameters)])]

theorem buildToolSchemas_modelDump (schemas : List ToolSchema) :
    buildToolSchemasForOpenai (schemas.map ToolSchema.modelDump) =
      some (schemas.map toolOf ++ [finalAnswerTool]) := by
  have htools : (schemas.map ToolSchema.modelDump).mapM openaiTool = some (schemas.map toolOf) :=
    List.mapM_map_of_forall fun _ _ => rfl
  rw [buildToolSchemasForOpenai, htools]
  rfl

theorem toolOf_schemaOf {tool : Tool} {schema : ToolSchema} (h : schemaOf tool = some schema) :
    toolOf schema = functionTool tool := by
  obtain ⟨parameters, hparameters, rfl⟩ := Option.map_eq_some_iff.mp h
  cases hinput : tool.inputSchema with
  | obj fields =>
    rw [hinput] at hparameters
    cases hparameters
    rw [functionTool, hinput]
    rfl
  | _ =>
    rw [hinput] at hparameters
    cases hparameters

theorem schemaOf_object {tool : Tool} {fields : List (String × Json)}
    (h : tool.inputSchema = .obj fields) :
    schemaOf tool = some ⟨tool.name, tool.description, fields⟩ := by
  rw [schemaOf, h]
  rfl

theorem mapM_listSchemas (r : ToolRegistry) :
    r.listSchemas.mapM ToolSchema.validate = r.tools.mapM fun e => schemaOf e.2 := by
  have hlist : r.listSchemas = r.tools.map wireSchema := rfl
  rw [hlist, List.mapM_map]
  congr 1
  funext e
  exact validate_wireSchema e

/-- The tools that are sent, if all their parameters are described by objects. -/
theorem mapM_schemaOf {tools : List (String × Tool)}
    (h : ∀ e ∈ tools, ∃ fields, e.2.inputSchema = .obj fields) :
    ∃ schemas, (tools.mapM fun e => schemaOf e.2) = some schemas ∧
      schemas.map toolOf = tools.map fun e => functionTool e.2 := by
  induction tools with
  | nil => exact ⟨[], rfl, rfl⟩
  | cons e tools ih =>
    obtain ⟨schemas, hschemas, htools⟩ := ih fun e' he' => h e' (List.mem_cons_of_mem e he')
    obtain ⟨fields, hfields⟩ := h e List.mem_cons_self
    have hschema := schemaOf_object hfields
    refine ⟨⟨e.2.name, e.2.description, fields⟩ :: schemas, ?_, ?_⟩
    · rw [List.mapM_cons, hschema, hschemas]
      rfl
    · rw [List.map_cons, List.map_cons, htools, toolOf_schemaOf hschema]

theorem mapM_schemaOf_none {tools : List (String × Tool)} {e : String × Tool} (he : e ∈ tools)
    (h : ¬∃ fields, e.2.inputSchema = .obj fields) : (tools.mapM fun e => schemaOf e.2) = none := by
  refine List.mapM_eq_none_of_mem he ?_
  rw [schemaOf]
  cases hinput : e.2.inputSchema with
  | obj fields => exact absurd ⟨fields, hinput⟩ h
  | _ => rfl

/-! ## What is sent -/

section Sent

variable {reasonModelEnv : Option String} {stm : ShortTermMemory} {r : ToolRegistry} {goal : String}
  {memoryContext : List String}

theorem completionSent_of_sendable (h : Sendable r goal) :
    completionSent reasonModelEnv
        (PlanExecutor.buildReasonRequest stm r goal memoryContext).toJson =
      some (completionFor reasonModelEnv stm r goal memoryContext) := by
  obtain ⟨hgoal, hobjects⟩ := h
  obtain ⟨schemas, hschemas, htools⟩ := mapM_schemaOf hobjects
  rw [completionSent, modelValidate_toJson]
  simp only [PlanExecutor.buildReasonRequest, if_neg hgoal, mapM_listSchemas, hschemas,
    Option.map_some, Option.bind_eq_bind, Option.bind_some, buildToolSchemas_modelDump, htools,
    List.map_map]
  rfl

theorem completionSent_eq_none (h : ¬Sendable r goal) :
    completionSent reasonModelEnv
      (PlanExecutor.buildReasonRequest stm r goal memoryContext).toJson = none := by
  rw [completionSent, modelValidate_toJson]
  by_cases hgoal : goal = ""
  · rw [if_pos (show (PlanExecutor.buildReasonRequest stm r goal memoryContext).taskGoal = "" from
      hgoal)]
    rfl
  · have hbad : ∃ e ∈ r.tools, ¬∃ fields, e.2.inputSchema = .obj fields := by
      by_contra hall
      push Not at hall
      exact h ⟨hgoal, hall⟩
    obtain ⟨e, he, hne⟩ := hbad
    simp only [PlanExecutor.buildReasonRequest, if_neg hgoal, mapM_listSchemas,
      mapM_schemaOf_none he hne]
    rfl

end Sent

/-! ## In a run -/

section Example

open PlanExecutor

attribute [local instance] SerdeJson.plain

/-- An executor with one tool. -/
def indexer : PlanExecutor :=
  .new ⟨[("index", ⟨"index", "Look up a page", .obj []⟩)], [("index", .new .default)], .default,
    rfl, List.nodup_singleton _⟩ .default { PlanConfig.default with stmTokenBudget := 32 }

def offline : Trace → (c : Command) → c.Answer
  | _, .iteration _ => ()
  | _, .pushed _ _ => ()
  | h, .reason _ =>
    if failed h = 0 then .ok ⟨"look at the page", some "index", .obj [], false, none⟩
    else .ok ⟨"", none, .obj [], true, none⟩
  | _, .summarize _ => .error (.transport "connection refused")
  | _, .executeWithTimeout _ _ _ => .error (.executionFailed "The index is not reachable")
  | _, .elapsed => 0
  | _, .insert _ => .ok ()

def offlineTrace : Trace := ((raced sameHash indexer "find").exec offline []).1

/-- What has entered memory when the model is asked for the second time. -/
def entered : List Message :=
  [⟨.user, "find", 1⟩, ⟨.assistant, "look at the page", 4⟩,
    ⟨.user, errorContext "index" "Execution failed: The index is not reachable", 28⟩]

def smallPush : Event → Bool
  | ⟨.pushed _ msg, _⟩ => decide (msg.tokenCount < 2 ^ 63)
  | _ => true

theorem sized_of_all {h : Trace} (hall : h.all smallPush = true) : Sized h := by
  intro stm msg hmem
  simpa [smallPush] using List.all_eq_true.1 hall _ hmem

def isReason : Event → Bool
  | ⟨.reason _, _⟩ => true
  | _ => false

end Example

end Xola.LlmSurface
