import Xola.Interaction.Wp
import Xola.Ipc.Types
import Xola.Memory.EpisodicLog
import Xola.Memory.ShortTerm
import Xola.Planning.Config
import Xola.Planning.Error
import Xola.Reliability.LoopDetector
import Xola.Tools.Registry

/-!
# Plan executor

`runtime/src/planning/executor.rs`: the ReAct loop as a program over the calls it makes. `/reason`,
`/summarize`, the tool calls, the clock and the episodic log are commands, answered by anything;
two more are there to be observed and change nothing: the `debug!` event at the top of every
iteration, and `pushed`, which shows every message that enters short-term memory together with the
buffer it meets.

`executeInner` is the loop. `execute` races it against the deadline of the task: `Executes` says
which runs there are, cut ones included.
-/

namespace Xola

open Interaction

structure TaskResult where
  outcome : Outcome
  finalAnswer : Option String
  steps : List TaskStep
  durationMs : Int
  iterations : Nat
  totalReplans : Nat
  deriving DecidableEq

inductive StepOutcome where
  | observation (result : Json)
  | finalAnswer (thought : String) (answer : Option String)

structure LongTermMemory where
  pool : String

/-- The transport is the environment of the program. -/
structure PlanExecutor where
  registry : ToolRegistry
  timeoutConfig : ToolTimeoutConfig
  longTermMemory : Option LongTermMemory
  episodicLog : Option EpisodicLog
  config : PlanConfig
  loopDetectorConfig : LoopDetectorConfig
  timeoutCtxConfig : TimeoutConfig

namespace PlanExecutor

def new (registry : ToolRegistry) (timeoutConfig : ToolTimeoutConfig) (config : PlanConfig) :
    PlanExecutor where
  registry := registry
  timeoutConfig := timeoutConfig
  longTermMemory := none
  episodicLog := none
  config := config
  loopDetectorConfig := .default
  timeoutCtxConfig := .default

def withLoopDetectorConfig (ex : PlanExecutor) (config : LoopDetectorConfig) : PlanExecutor :=
  { ex with loopDetectorConfig := config }

def withTimeoutContextConfig (ex : PlanExecutor) (config : TimeoutConfig) : PlanExecutor :=
  { ex with timeoutCtxConfig := config }

def withLongTermMemory (ex : PlanExecutor) (ltm : LongTermMemory) : PlanExecutor :=
  { ex with longTermMemory := some ltm }

def withEpisodicLog (ex : PlanExecutor) (log : EpisodicLog) : PlanExecutor :=
  { ex with episodicLog := some log }

/-! ## Commands -/

inductive Command where
  | iteration (iteration : Nat)
  | pushed (stm : ShortTermMemory) (msg : Message)
  | reason (request : ReasonRequest)
  | summarize (request : SummarizeRequest)
  | executeWithTimeout (action : String) (input : Json) (timeout : Nat)
  | elapsed
  | insert (episode : EpisodeInput)

abbrev Command.Answer : Command → Type
  | .iteration _ => Unit
  | .pushed _ _ => Unit
  | .reason _ => Except IpcError ReasonResponse
  | .summarize _ => Except IpcError SummarizeResponse
  | .executeWithTimeout _ _ _ => Except ToolError Json
  | .elapsed => Nat
  | .insert _ => Except String Unit

/-- The commands that are awaited: the points at which the future can be dropped. -/
def Command.Awaits : Command → Prop
  | .reason _ | .summarize _ | .executeWithTimeout _ _ _ | .insert _ => True
  | .iteration _ | .pushed _ _ | .elapsed => False

abbrev Plan (α : Type) := Prog Command Command.Answer PlanError α

/-! ## Helpers -/

def estimateTokens (text : String) : Nat := max (text.utf8ByteSize / 4) 1

/-- `none` is the panic of a slice that would cut a character. -/
def formatObservation [SerdeJson] (action : String) (result : Json) : Option String :=
  let resultStr := SerdeJson.toStringPretty result
  let truncated :=
    if 4000 < resultStr.utf8ByteSize then
      (sliceTo resultStr 4000).map fun s =>
        s ++ "... [truncated, " ++ toString resultStr.utf8ByteSize ++ " chars total]"
    else some resultStr
  truncated.map fun t => "[Observation from " ++ action ++ "]:\n" ++ t

def buildReasonRequest (stm : ShortTermMemory) (registry : ToolRegistry) (goal : String)
    (memoryContext : List String) : ReasonRequest where
  messages := stm.messages.map fun m => ⟨m.role.toString, m.content⟩
  toolSchemas := registry.listSchemas
  memoryContext := memoryContext
  taskGoal := goal

/-- Long-term memory is not consulted yet. -/
def queryMemoryContext (_goal : String) : List String := []

def errorContext (action errorMsg : String) : String :=
  "Tool '" ++ action ++ "' failed with error: " ++ errorMsg ++
    ". Please try an alternative approach."

/-- `stm.push(Message::new(role, text, estimate_tokens(text)))`. -/
def pushMessage (stm : ShortTermMemory) (role : Role) (text : String) : Plan ShortTermMemory := do
  let msg : Message := ⟨role, text, estimateTokens text⟩
  Prog.perform (Command.pushed stm msg)
  return stm.push msg

/-- A thought is pushed unless it is empty. -/
def pushThought (stm : ShortTermMemory) (thought : String) : Plan ShortTermMemory :=
  if thought = "" then return stm else pushMessage stm .assistant thought

/-- `self.ipc.reason(&build_reason_request(…)).await?`. -/
def callReason (ex : PlanExecutor) (stm : ShortTermMemory) (goal : String)
    (memoryContext : List String) : Plan ReasonResponse := do
  let answer : Except IpcError ReasonResponse ←
    Prog.perform (Command.reason (buildReasonRequest stm ex.registry goal memoryContext))
  Prog.ofExcept (answer.mapError .ipc)

/-- The JSON text of a buffered message in a `/summarize` request. -/
def summarizeMessage (m : Message) : Json :=
  .obj [("content", .str m.content), ("role", .str m.role.toString),
    ("token_count", .int m.tokenCount)]

def summarizeRequest (stm : ShortTermMemory) : SummarizeRequest :=
  ⟨stm.messages.map summarizeMessage, none, none⟩

def maybeSummarize (stm : ShortTermMemory) : Plan ShortTermMemory := do
  let answer : Except IpcError SummarizeResponse ←
    Prog.perform (Command.summarize (summarizeRequest stm))
  let response ← Prog.ofExcept (answer.mapError .ipc)
  return stm.replaceWithSummary ⟨.system, response.summary, response.tokenCount.toNat⟩

/-- The check at the top of an iteration. -/
def summarizeIfNeeded (stm : ShortTermMemory) : Plan ShortTermMemory :=
  if stm.needsSummarization then maybeSummarize stm else return stm

/-- `ms as i64`. -/
def millisI64 (ms : Nat) : Int := (BitVec.ofNat 64 ms).toInt

/-- The episode of a finished task. -/
def episodeOf (goal : String) (result : TaskResult) : EpisodeInput where
  taskGoal := goal
  steps := result.steps
  outcome := result.outcome
  error := if result.outcome = .failure then some "task did not complete successfully" else none
  durationMs := result.durationMs
  error_iff := by by_cases h : result.outcome = .failure <;> simp [h]

/-- A failed insert is logged and ignored. -/
def recordEpisode (ex : PlanExecutor) (goal : String) (result : TaskResult) : Plan Unit := do
  match ex.episodicLog with
  | none => return
  | some _ =>
    let _ ← Prog.perform (Command.insert (episodeOf goal result))
    return

/-! ## The loop -/

variable [SerdeJson]

/-- The mutable state that the two loops share. -/
structure RunState where
  stm : ShortTermMemory
  steps : List TaskStep
  totalReplans : Nat
  loopDetector : LoopDetector

def emptyAction (body : String) : PlanError := .ipc (.serverError 0 body)

/-- `execute_tool_with_replan`, from the top of its loop with `stepReplans` failures behind it. -/
def executeToolWithReplan (hs : Hashing) (ex : PlanExecutor) (goal : String)
    (memoryContext : List String) (stepReplans : Nat) (action : String) (input : Json)
    (st : RunState) : Plan (StepOutcome × RunState) :=
  match st.loopDetector.isLooping hs with
  | some loopMsg => .err (.loop loopMsg)
  | none => do
    let timeout := ex.timeoutConfig.getTimeout action
    let loopDetector := st.loopDetector.record hs action input
    match ← Prog.perform (Command.executeWithTimeout action input timeout) with
    | .ok result =>
      return (.observation result,
        { st with steps := st.steps ++ [.succeeded action input], loopDetector })
    | .error toolError =>
      let errorMsg := toolError.toString
      let steps := st.steps ++ [.failure action input errorMsg]
      let totalReplans := st.totalReplans + 1
      if h : ex.config.replan.maxReplansPerStep ≤ stepReplans + 1 then
        .err (.maxReplansPerStep (stepReplans + 1) action)
      else if ex.config.replan.maxReplansPerTask ≤ totalReplans then
        .err (.maxReplansPerTask totalReplans)
      else
        let stm ← pushMessage st.stm .user (errorContext action errorMsg)
        let response ← callReason ex stm goal memoryContext
        let stm ← pushThought stm response.thought
        let st : RunState := ⟨stm, steps, totalReplans, loopDetector⟩
        if response.isFinal then
          return (.finalAnswer response.thought response.finalAnswer, st)
        else if response.action.getD "" = "" then
          .err (emptyAction "replan returned no action and is_final=false")
        else
          executeToolWithReplan hs ex goal memoryContext (stepReplans + 1)
            (response.action.getD "") response.actionInput st
termination_by ex.config.replan.maxReplansPerStep - stepReplans
decreasing_by omega

/-- Both final answers end the task in the same way. -/
def finish (ex : PlanExecutor) (goal : String) (outcome : Outcome) (answer : Option String)
    (iterations : Nat) (st : RunState) : Plan TaskResult := do
  let elapsed ← Prog.perform Command.elapsed
  let result : TaskResult :=
    ⟨outcome, answer, st.steps, millisI64 elapsed, iterations, st.totalReplans⟩
  recordEpisode ex goal result
  return result

/-- The `for` loop with `remaining` iterations to go, the next one being number `iteration`. -/
def iterate (hs : Hashing) (ex : PlanExecutor) (goal : String) (memoryContext : List String) :
    (remaining iteration : Nat) → RunState → Plan TaskResult
  | 0, _, st => do
    let _ ← finish ex goal .failure none ex.config.maxIterations st
    .err (.maxIterationsReached ex.config.maxIterations)
  | remaining + 1, iteration, st => do
    Prog.perform (Command.iteration iteration)
    let stm ← summarizeIfNeeded st.stm
    let response ← callReason ex stm goal memoryContext
    let stm ← pushThought stm response.thought
    let st := { st with stm }
    if response.isFinal then
      finish ex goal .success response.finalAnswer (iteration + 1) st
    else if response.action.getD "" = "" then
      .err (emptyAction "action is empty but is_final is false")
    else
      let action := response.action.getD ""
      let (outcome, st) ←
        executeToolWithReplan hs ex goal memoryContext 0 action response.actionInput st
      match outcome with
      | .observation result =>
        match formatObservation action result with
        | none => .panic charBoundary
        | some observation =>
          let stm ← pushMessage st.stm .user observation
          iterate hs ex goal memoryContext remaining (iteration + 1) { st with stm }
      | .finalAnswer thought answer =>
        let stm ← pushThought st.stm thought
        finish ex goal .success answer (iteration + 1) { st with stm }

/-- `execute_inner`, after the per-task loop detector has been created. -/
def executeInner (hs : Hashing) (ex : PlanExecutor) (goal : String) (loopDetector : LoopDetector) :
    Plan TaskResult :=
  match ShortTermMemory.new ex.config.stmTokenBudget with
  | none => .panic "max_tokens must be greater than 0"
  | some stm => do
    let stm ← pushMessage stm .user goal
    let memoryContext := queryMemoryContext goal
    iterate hs ex goal memoryContext ex.config.maxIterations 0 ⟨stm, [], 0, loopDetector⟩

/-- What `execute` races against the deadline. -/
def raced (hs : Hashing) (ex : PlanExecutor) (goal : String) : Plan TaskResult :=
  match LoopDetector.fromConfig ex.loopDetectorConfig with
  | none => .panic "capacity overflow"
  | some loopDetector => executeInner hs ex goal loopDetector

/-! ## Runs of `execute` -/

def deadline (ex : PlanExecutor) : PlanError :=
  .timeout "task" (ex.timeoutCtxConfig.taskTimeout % 2 ^ 64)

/-- `execute` returns `res` after the exchanges `h`; `cut` is the command that was still waiting for
its answer when the deadline fired. `select!` may also find the deadline passed before it polls the
loop for the first time. -/
inductive Executes (hs : Hashing) (ex : PlanExecutor) (goal : String) :
    History Command.Answer → (cut : Option Command) → Except PlanError TaskResult → Prop
  | finished {h : History Command.Answer} {res : Except PlanError TaskResult}
      (returns : Prog.Returns (ex.raced hs goal) h res) : Executes hs ex goal h none res
  | deadline {h : History Command.Answer} {c : Command}
      (pending : Prog.Pending (ex.raced hs goal) h c) (awaits : c.Awaits) :
      Executes hs ex goal h (some c) (.error ex.deadline)
  | unpolled (created : LoopDetector.fromConfig ex.loopDetectorConfig ≠ none) :
      Executes hs ex goal [] none (.error ex.deadline)

end PlanExecutor

end Xola
