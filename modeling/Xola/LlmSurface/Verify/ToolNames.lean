import Mathlib.Data.List.Nodup
import Xola.LlmSurface.Prompts
import Xola.LlmSurface.Verify.ReasonContract
import Xola.Tools.Calls

/-!
# Names the model can call

The registry keeps the names of its tools apart. The server adds a tool of its own, `final_answer`,
to the same name space without looking, and `reason_step` goes by the name alone. The executor in
turn takes an empty action for none. So a tool with one of these two names is registered but cannot
be called.
-/

namespace Xola.LlmSurface

open Interaction PlanExecutor

/-- The name of a tool in the `tools` parameter. -/
def toolName (tool : Json) : Option Json := (tool.get "function").bind (·.get "name")

/-- The tools sent to the model have pairwise distinct names. -/
def DistinctNames (r : ToolRegistry) : Prop :=
  ∀ tools, toolsSent r.listSchemas = some tools → (tools.map toolName).Nodup

/-- After this response an executor over `r` dispatches the call, unless the loop detector stops
the run. -/
def Dispatches [SerdeJson] (r : ToolRegistry) (response : ReasonResponse) (action : String)
    (input : Json) : Prop :=
  ∀ hs ex goal h request q, ex.registry = r →
    Prog.Reaches (raced hs ex goal) (h ++ [⟨.reason request, .ok response⟩]) q →
    ∃ t, (∀ e ∈ t, ∃ stm msg, e = ⟨.pushed stm msg, ()⟩) ∧
      ((Looping hs ex.loopDetectorConfig (calls h) ∧ ∃ msg, Prog.Reaches q t (.err (.loop msg))) ∨
        Prog.Pending q t (.executeWithTimeout action input (ex.timeoutConfig.getTimeout action)))

/-- Whatever else the model says, a call of `name` with the text of a JSON object is passed on as
that call, and the executor follows it with what arrives of the object. -/
def Callable [SerdeJson] (loads : PyStr → Except LoadsError PyValue) (r : ToolRegistry)
    (name : String) : Prop :=
  ∀ content arguments fields rest, arguments ≠ [] → loads arguments = .ok (.obj fields) →
    reasonStep loads (.ok ⟨content, .function name arguments :: rest⟩) =
      .ok ⟨strip (content.getD []), some ↑name, .obj fields, false, .null⟩ ∧
    ∀ wire response,
      ipcAnswer wire (reason loads wire (.ok ⟨content, .function name arguments :: rest⟩)) =
        .ok response →
      ∃ input, Arrives (.obj fields) input ∧ Dispatches r response name input

/-! ## The names that are sent -/

section Names

variable {config : CircuitBreakerConfig} {offered : List Tool} {r : ToolRegistry}

/-- Tools are entered under their own names. -/
theorem name_eq_of_ofTools (h : ToolRegistry.ofTools config offered = .ok r) :
    ∀ e ∈ r.tools, e.1 = e.2.name := by
  refine List.foldlM_invariant (fun r : ToolRegistry => ∀ e ∈ r.tools, e.1 = e.2.name) ?_ ?_ h
  · intro r tool r' hr hreg
    unfold ToolRegistry.register at hreg
    split at hreg
    · cases hreg
    · cases hreg
      intro e he
      rcases List.mem_cons.1 he with rfl | he
      · rfl
      · exact hr e he
  · intro e he
    cases he

theorem toolName_openaiTool (schema : ToolSchema) :
    (openaiTool schema.modelDump).map toolName = some (some (.str schema.name)) := rfl

theorem mapM_openaiTool (schemas : List ToolSchema) :
    ∃ tools, (schemas.map ToolSchema.modelDump).mapM openaiTool = some tools ∧
      tools.map toolName = schemas.map fun schema => some (.str schema.name) := by
  induction schemas with
  | nil => exact ⟨[], rfl, rfl⟩
  | cons schema schemas ih =>
    obtain ⟨tools, htools, hnames⟩ := ih
    obtain ⟨tool, htool, hname⟩ := Option.map_eq_some_iff.1 (toolName_openaiTool schema)
    refine ⟨tool :: tools, ?_, ?_⟩
    · rw [List.map_cons, List.mapM_cons, htool, htools]
      rfl
    · rw [List.map_cons, List.map_cons, hname, hnames]

theorem validate_name {e : String × Tool} {schema : ToolSchema}
    (h : ToolSchema.validate (.obj [("description", .str e.2.description), ("name", .str e.2.name),
      ("parameters", e.2.inputSchema)]) = some schema) : schema.name = e.2.name := by
  obtain ⟨parameters, -, h⟩ := Option.bind_eq_some_iff.1 h
  cases h
  rfl

theorem mapM_validate {l : List (String × Tool)} {schemas : List ToolSchema}
    (h : (l.map fun e => JsonOf.obj [("description", .str e.2.description), ("name", .str e.2.name),
      ("parameters", e.2.inputSchema)]).mapM ToolSchema.validate = some schemas) :
    schemas.map ToolSchema.name = l.map fun e => e.2.name := by
  induction l generalizing schemas with
  | nil => cases h; rfl
  | cons e l ih =>
    rw [List.map_cons, List.mapM_cons] at h
    obtain ⟨schema, hschema, h⟩ := Option.bind_eq_some_iff.1 h
    obtain ⟨schemas', hschemas, h⟩ := Option.bind_eq_some_iff.1 h
    cases h
    rw [List.map_cons, List.map_cons, validate_name hschema, ih hschemas]

/-- What is sent carries the names of the registered tools, and `final_answer`. -/
theorem names_sent (h : ToolRegistry.ofTools config offered = .ok r) {tools : List Json}
    (ht : toolsSent r.listSchemas = some tools) :
    tools.map toolName = (r.listNames ++ ["final_answer"]).map fun name => some (.str name) := by
  obtain ⟨schemas, hschemas, ht⟩ := Option.bind_eq_some_iff.1 ht
  obtain ⟨openaiTools, hopenai, ht⟩ := Option.bind_eq_some_iff.1 ht
  obtain ⟨openaiTools', hopenai', hnames⟩ := mapM_openaiTool schemas
  cases hopenai.symm.trans hopenai'
  cases ht
  have hlist : r.listNames = r.tools.map fun e => e.2.name :=
    List.map_congr_left (name_eq_of_ofTools h)
  have hschemaNames := mapM_validate hschemas
  rw [List.map_append, List.map_append, hnames, hlist, ← hschemaNames, List.map_map]
  rfl

theorem distinctNames (h : ToolRegistry.ofTools config offered = .ok r)
    (hf : "final_answer" ∉ r.listNames) : DistinctNames r := by
  intro tools ht
  rw [names_sent h ht]
  refine List.Nodup.map ?_ ?_
  · intro a b hab
    exact JsonOf.str.inj (Option.some.inj hab)
  · rw [List.nodup_append]
    refine ⟨r.nodup, List.nodup_singleton _, ?_⟩
    intro name hname last hlast heq
    rw [List.mem_singleton] at hlast
    exact hf (hlast ▸ heq ▸ hname)

end Names

/-! ## Calling a registered tool -/

section Call

variable {loads : PyStr → Except LoadsError PyValue}

theorem parseArguments_eq {name arguments : PyStr} {v : PyValue} (hne : arguments ≠ [])
    (hv : loads arguments = .ok v) : parseArguments loads name arguments = .ok v := by
  rw [parseArguments, if_neg hne, hv]

/-- The runtime gets the call as the model made it. -/
theorem ipcAnswer_call {wire : Wire} {thought name : PyStr}
    {fields : List (PyStr × PyValue)} {response : ReasonResponse}
    (h : ipcAnswer wire (respond wire ⟨thought, some name, .obj fields, false, .null⟩) =
      .ok response) :
    response.isFinal = false ∧ response.action.map PyStr.ofString = some name ∧
      Arrives (.obj fields) response.actionInput := by
  obtain ⟨b, hb, -, hreceived⟩ := ipcAnswer_respond h
  cases hb
  exact ⟨hreceived.isFinal.symm, hreceived.action.symm, hreceived.actionInput⟩

variable [SerdeJson] {r : ToolRegistry} {name : String}

theorem dispatches_of_call {response : ReasonResponse} {input : Json} (hne : name ≠ "")
    (hfinal : response.isFinal = false) (haction : response.action = some name)
    (hinput : response.actionInput = input) : Dispatches r response name input := by
  intro hs ex goal h request q _ hq
  have hact : response.action.getD "" = name := by rw [haction, Option.getD_some]
  have hreq : requested (h ++ [⟨.reason request, .ok response⟩]) = some (name, input) := by
    rw [← hact, ← hinput]
    exact requested_reason hfinal (hact.symm ▸ hne)
  obtain ⟨t, ht, hend⟩ := settle (Prog.wp_reaches hq (wp_raced hs ex goal)) hreq
  have hcalls : calls (h ++ [⟨.reason request, .ok response⟩]) = calls h := by
    rw [calls_concat]
    exact List.append_nil _
  rw [List.nil_append, hcalls] at hend
  exact ⟨t, ht, hend.imp_right And.right⟩

theorem callable_of_ne (hf : name ≠ "final_answer") (hne : name ≠ "") :
    Callable loads r name := by
  intro content arguments fields rest harguments hloads
  have hstep : reasonStep loads (.ok ⟨content, .function name arguments :: rest⟩) =
      .ok ⟨strip (content.getD []), some ↑name, .obj fields, false, .null⟩ := by
    rw [reasonStep_call (parseArguments_eq harguments hloads),
      if_neg (mt PyStr.ofString_inj.1 hf)]
  refine ⟨hstep, ?_⟩
  intro wire response hanswer
  rw [reason, hstep] at hanswer
  obtain ⟨hfinal, haction, hinput⟩ := ipcAnswer_call hanswer
  obtain ⟨action, haction', heq⟩ := Option.map_eq_some_iff.1 haction
  rw [PyStr.ofString_inj] at heq
  subst heq
  exact ⟨response.actionInput, hinput, dispatches_of_call hne hfinal haction' rfl⟩

theorem not_callable_final_answer (hloads : loads ("\x7b\x7d" : PyStr) = .ok (.obj [])) :
    ¬Callable loads r "final_answer" := by
  intro hc
  obtain ⟨hstep, -⟩ := hc none "\x7b\x7d" [] [] (by decide) hloads
  rw [reasonStep_call (parseArguments_eq (by decide) hloads), if_pos rfl] at hstep
  cases hstep

/-- The response to a call of the tool without a name. -/
def nameless : ReasonResponse := ⟨"", some "", .obj [], false, none⟩

/-- The buffer of a task that has just begun. -/
def begun : ShortTermMemory := ⟨[⟨.user, "find", 1⟩], 1, 8000⟩

/-- An executor whose buffer needs no summary gives up on it. -/
theorem nameless_rejected {hs : Hashing} {ex : PlanExecutor} {goal : String}
    {memoryContext : List String} {remaining i : Nat} {st : RunState}
    (hstm : st.stm.needsSummarization = false) :
    Prog.Reaches (iterate hs ex goal memoryContext (remaining + 1) i st)
      [⟨.iteration i, ()⟩,
        ⟨.reason (buildReasonRequest st.stm ex.registry goal memoryContext), .ok nameless⟩]
      (.err (emptyAction "action is empty but is_final is false")) := by
  rw [iterate]
  simp only [Prog.perform, Prog.call_bind, Prog.ret_bind, summarizeIfNeeded, hstm,
    Bool.false_eq_true, ↓reduceIte]
  refine .step (R := Command.Answer) (c := .iteration i) () ?_
  exact .step (R := Command.Answer) (c := .reason _) (.ok nameless) (.refl _)

theorem not_callable_empty (hloads : loads ("\x7b\x7d" : PyStr) = .ok (.obj [])) :
    ¬Callable loads r "" := by
  intro hc
  obtain ⟨hstep, hdispatches⟩ := hc none "\x7b\x7d" [] [] (by decide) hloads
  have hanswer : ipcAnswer .plain (reason loads .plain
      (.ok ⟨none, [.function ("" : PyStr) "\x7b\x7d"]⟩)) = .ok nameless := by
    rw [reason, hstep]
    rfl
  have hbegun : begun.needsSummarization = false := by decide
  have hreach : Prog.Reaches (raced sameHash (.new r .default .default) "find")
      ([⟨.pushed ⟨[], 0, 8000⟩ ⟨.user, "find", 1⟩, ()⟩, ⟨.iteration 0, ()⟩] ++
        [⟨.reason (buildReasonRequest begun r "find" []), .ok nameless⟩])
      (.err (emptyAction "action is empty but is_final is false")) := by
    refine .step (R := Command.Answer) (c := .pushed _ _) () ?_
    exact nameless_rejected hbegun
  obtain ⟨input, -, hinput⟩ := hdispatches .plain nameless hanswer
  obtain ⟨t, -, hend⟩ := hinput _ _ _ _ _ _ rfl hreach
  rcases hend with ⟨-, msg, hm⟩ | ⟨k, hk⟩
  · cases hm
  · cases hk

end Call

/-! ## Result -/

/-- **Which registries keep all their tools callable.** Those without a tool called `final_answer`
and without one whose name is empty. -/
theorem tools_callable_iff [SerdeJson] {loads : PyStr → Except LoadsError PyValue}
    {config : CircuitBreakerConfig} {offered : List Tool} {r : ToolRegistry}
    (h : ToolRegistry.ofTools config offered = .ok r)
    (hloads : loads ("\x7b\x7d" : PyStr) = .ok (.obj [])) :
    (DistinctNames r ∧ ∀ name ∈ r.listNames, Callable loads r name) ↔
      "final_answer" ∉ r.listNames ∧ "" ∉ r.listNames := by
  constructor
  · intro hr
    obtain ⟨-, hcall⟩ := hr
    exact ⟨fun hmem => not_callable_final_answer hloads (hcall _ hmem),
      fun hmem => not_callable_empty hloads (hcall _ hmem)⟩
  · intro hnames
    obtain ⟨hf, he⟩ := hnames
    refine ⟨distinctNames h hf, ?_⟩
    intro name hmem
    exact callable_of_ne (ne_of_mem_of_not_mem hmem hf) (ne_of_mem_of_not_mem hmem he)

def toolNamed (name : String) : Tool := ⟨name, "", .obj []⟩

/-- The registry with that tool. -/
def registryOf (name : String) : ToolRegistry :=
  ⟨[(name, toolNamed name)], [(name, .new .default)], .default, rfl, List.nodup_singleton _⟩

theorem ofTools_toolNamed (name : String) :
    ToolRegistry.ofTools .default [toolNamed name] = .ok (registryOf name) := rfl

section Example

attribute [local instance] SerdeJson.plain

theorem tools_callable_iff_search : DistinctNames (registryOf "search") ∧
    ∀ name ∈ (registryOf "search").listNames, Callable sampleLoads (registryOf "search") name :=
  (tools_callable_iff (ofTools_toolNamed "search") rfl).2 (by decide)

/-- A tool called `final_answer` is sent beside the synthetic one, and its calls end the task. -/
theorem final_answer_not_callable :
    ToolRegistry.ofTools .default [toolNamed "final_answer"] = .ok (registryOf "final_answer") ∧
      ¬DistinctNames (registryOf "final_answer") ∧
      ¬Callable sampleLoads (registryOf "final_answer") "final_answer" := by
  refine ⟨rfl, ?_, not_callable_final_answer rfl⟩
  intro hd
  have hnodup := hd _ rfl
  revert hnodup
  decide

end Example

end Xola.LlmSurface
