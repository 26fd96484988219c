import Xola.Planning.Trace

/-!
# The loop as a state machine

The two loops of the executor, cut wherever they exchange something with the outside. A `Phase` is a
point of the loops; a `Turn` leads from one to the next without an exchange, and a `Step` says what an
exchange does to the phase and to the state that the loops share.

`Annotates.wp_raced` is the method of inductive assertions for the program. An assertion at each phase
that turns and steps preserve holds of all runs, so an invariant of runs is proved once for each turn
and each step, away from the text of the program.
-/

namespace Xola.PlanExecutor

open Interaction

/-! ## Phases -/

/-- `i` is the number of the iteration and `f` that of the failures its step has behind it; `first` is
the tool that the iteration asked for. -/
inductive Phase where
  | goal
  | head (i : Nat)
  /-- The check of the buffer is to come. -/
  | opened (i : Nat)
  | asking (i : Nat)
  /-- The thought is to be pushed. -/
  | answered (i : Nat) (response : ReasonResponse)
  | considered (i : Nat) (response : ReasonResponse)
  | calling (i f : Nat) (first action : String) (input : Json)
  /-- The failure is to be pushed. -/
  | failing (i f : Nat) (first text : String)
  | replanning (i f : Nat) (first : String)
  | replanned (i f : Nat) (first : String) (response : ReasonResponse)
  | reconsidered (i f : Nat) (first : String) (response : ReasonResponse)
  /-- `execute_tool_with_replan` has returned. -/
  | handed (i : Nat) (first : String) (outcome : StepOutcome)
  | closing (outcome : Outcome) (answer : Option String) (iterations : Nat)
  | recording (result : TaskResult)
  | recorded (result : TaskResult)
  | ended (e : Prog.Ending PlanError TaskResult)

section Machine

variable [SerdeJson] (hs : Hashing) (ex : PlanExecutor) (goal : String)

/-- What happens between two exchanges; `st` stays as it is. -/
inductive Turn (st : RunState) : Phase → Phase → Prop
  | exhausted : Turn st (.head ex.config.maxIterations)
      (.closing .failure none ex.config.maxIterations)
  | fits {i : Nat} (below : st.stm.needsSummarization = false) : Turn st (.opened i) (.asking i)
  | thoughtless {i : Nat} {response : ReasonResponse} (silent : response.thought = "") :
    Turn st (.answered i response) (.considered i response)
  | final {i : Nat} {response : ReasonResponse} (isFinal : response.isFinal = true) :
    Turn st (.considered i response) (.closing .success response.finalAnswer (i + 1))
  | empty {i : Nat} {response : ReasonResponse} (body : String)
      (isFinal : response.isFinal = false) (action : response.action.getD "" = "") :
    Turn st (.considered i response) (.ended (some (.error (emptyAction body))))
  | acts {i : Nat} {response : ReasonResponse} (isFinal : response.isFinal = false)
      (action : response.action.getD "" ≠ "") :
    Turn st (.considered i response)
      (.calling i 0 (response.action.getD "") (response.action.getD "") response.actionInput)
  | loop {i f : Nat} {first action : String} {input : Json} {msg : String}
      (looping : st.loopDetector.isLooping hs = some msg) :
    Turn st (.calling i f first action input) (.ended (some (.error (.loop msg))))
  | rethoughtless {i f : Nat} {first : String} {response : ReasonResponse}
      (silent : response.thought = "") :
    Turn st (.replanned i f first response) (.reconsidered i f first response)
  | concedes {i f : Nat} {first : String} {response : ReasonResponse}
      (isFinal : response.isFinal = true) :
    Turn st (.reconsidered i f first response)
      (.handed i first (.finalAnswer response.thought response.finalAnswer))
  | reempty {i f : Nat} {first : String} {response : ReasonResponse} (body : String)
      (isFinal : response.isFinal = false) (action : response.action.getD "" = "") :
    Turn st (.reconsidered i f first response) (.ended (some (.error (emptyAction body))))
  | retries {i f : Nat} {first : String} {response : ReasonResponse}
      (isFinal : response.isFinal = false) (action : response.action.getD "" ≠ "") :
    Turn st (.reconsidered i f first response)
      (.calling i f first (response.action.getD "") response.actionInput)
  | unshown {i : Nat} {first : String} {result : Json}
      (cut : formatObservation first result = none) :
    Turn st (.handed i first (.observation result)) (.ended none)
  | said {i : Nat} {first thought : String} {answer : Option String} (silent : thought = "") :
    Turn st (.handed i first (.finalAnswer thought answer)) (.closing .success answer (i + 1))
  | unattached {result : TaskResult} (log : ex.episodicLog = none) :
    Turn st (.recording result) (.recorded result)
  | returns {result : TaskResult} (outcome : result.outcome = .success) :
    Turn st (.recorded result) (.ended (some (.ok result)))
  | reached {result : TaskResult} (outcome : result.outcome = .failure) :
    Turn st (.recorded result)
      (.ended (some (.error (.maxIterationsReached ex.config.maxIterations))))

def message (role : Role) (text : String) : Message := ⟨role, text, estimateTokens text⟩

def pushing (st : RunState) (role : Role) (text : String) : Event :=
  ⟨.pushed st.stm (message role text), ()⟩

/-- The state after it. -/
def RunState.pushed (st : RunState) (role : Role) (text : String) : RunState :=
  { st with stm := st.stm.push (message role text) }

/-- The state after a tool call. -/
def RunState.called (st : RunState) (action : String) (input : Json) :
    Except ToolError Json → RunState
  | .ok _ =>
    { st with
      steps := st.steps ++ [.succeeded action input]
      loopDetector := st.loopDetector.record hs action input }
  | .error e =>
    { st with
      steps := st.steps ++ [.failure action input e.toString]
      totalReplans := st.totalReplans + 1
      loopDetector := st.loopDetector.record hs action input }

def reasonRequest (st : RunState) : ReasonRequest :=
  buildReasonRequest st.stm ex.registry goal (queryMemoryContext goal)

def Command.ofCall (action : String) (input : Json) : Command :=
  .executeWithTimeout action input (ex.timeoutConfig.getTimeout action)

/-- What an exchange does. -/
inductive Step : Phase → RunState → Event → Phase → RunState → Prop
  | goal {st : RunState} : Step .goal st (pushing st .user goal) (.head 0) (st.pushed .user goal)
  | iteration {i : Nat} {st : RunState} (lt : i < ex.config.maxIterations) :
    Step (.head i) st ⟨.iteration i, ()⟩ (.opened i) st
  | summarized {i : Nat} {st : RunState} (response : SummarizeResponse)
      (above : st.stm.needsSummarization = true) :
    Step (.opened i) st ⟨.summarize (summarizeRequest st.stm), .ok response⟩ (.asking i)
      { st with
        stm := st.stm.replaceWithSummary ⟨.system, response.summary, response.tokenCount.toNat⟩ }
  | unsummarized {i : Nat} {st : RunState} (e : IpcError)
      (above : st.stm.needsSummarization = true) :
    Step (.opened i) st ⟨.summarize (summarizeRequest st.stm), .error e⟩
      (.ended (some (.error (.ipc e)))) st
  | answered {i : Nat} {st : RunState} (response : ReasonResponse) :
    Step (.asking i) st ⟨.reason (reasonRequest ex goal st), .ok response⟩
      (.answered i response) st
  | unanswered {i : Nat} {st : RunState} (e : IpcError) :
    Step (.asking i) st ⟨.reason (reasonRequest ex goal st), .error e⟩
      (.ended (some (.error (.ipc e)))) st
  | considered {i : Nat} {st : RunState} {response : ReasonResponse}
      (thought : response.thought ≠ "") :
    Step (.answered i response) st (pushing st .assistant response.thought)
      (.considered i response) (st.pushed .assistant response.thought)
  | succeeded {i f : Nat} {first action : String} {input : Json} {st : RunState} (result : Json)
      (free : st.loopDetector.isLooping hs = none) :
    Step (.calling i f first action input) st ⟨.ofCall ex action input, .ok result⟩
      (.handed i first (.observation result)) (st.called hs action input (.ok result))
  | perStep {i f : Nat} {first action : String} {input : Json} {st : RunState} (e : ToolError)
      (free : st.loopDetector.isLooping hs = none)
      (reached : ex.config.replan.maxReplansPerStep ≤ f + 1) :
    Step (.calling i f first action input) st ⟨.ofCall ex action input, .error e⟩
      (.ended (some (.error (.maxReplansPerStep (f + 1) action))))
      (st.called hs action input (.error e))
  | perTask {i f : Nat} {first action : String} {input : Json} {st : RunState} (e : ToolError)
      (free : st.loopDetector.isLooping hs = none)
      (below : f + 1 < ex.config.replan.maxReplansPerStep)
      (reached : ex.config.replan.maxReplansPerTask ≤ st.totalReplans + 1) :
    Step (.calling i f first action input) st ⟨.ofCall ex action input, .error e⟩
      (.ended (some (.error (.maxReplansPerTask (st.totalReplans + 1)))))
      (st.called hs action input (.error e))
  | failed {i f : Nat} {first action : String} {input : Json} {st : RunState} (e : ToolError)
      (free : st.loopDetector.isLooping hs = none)
      (below : f + 1 < ex.config.replan.maxReplansPerStep)
      (belowTask : st.totalReplans + 1 < ex.config.replan.maxReplansPerTask) :
    Step (.calling i f first action input) st ⟨.ofCall ex action input, .error e⟩
      (.failing i (f + 1) first (errorContext action e.toString))
      (st.called hs action input (.error e))
  | told {i f : Nat} {first text : String} {st : RunState} :
    Step (.failing i f first text) st (pushing st .user text) (.replanning i f first)
      (st.pushed .user text)
  | replanned {i f : Nat} {first : String} {st : RunState} (response : ReasonResponse) :
    Step (.replanning i f first) st ⟨.reason (reasonRequest ex goal st), .ok response⟩
      (.replanned i f first response) st
  | unreplanned {i f : Nat} {first : String} {st : RunState} (e : IpcError) :
    Step (.replanning i f first) st ⟨.reason (reasonRequest ex goal st), .error e⟩
      (.ended (some (.error (.ipc e)))) st
  | reconsidered {i f : Nat} {first : String} {st : RunState} {response : ReasonResponse}
      (thought : response.thought ≠ "") :
    Step (.replanned i f first response) st (pushing st .assistant response.thought)
      (.reconsidered i f first response) (st.pushed .assistant response.thought)
  | observed {i : Nat} {first : String} {result : Json} {st : RunState} {text : String}
      (shown : formatObservation first result = some text) :
    Step (.handed i first (.observation result)) st (pushing st .user text) (.head (i + 1))
      (st.pushed .user text)
  | repeated {i : Nat} {first thought : String} {answer : Option String} {st : RunState}
      (thought_ne : thought ≠ "") :
    Step (.handed i first (.finalAnswer thought answer)) st (pushing st .assistant thought)
      (.closing .success answer (i + 1)) (st.pushed .assistant thought)
  | elapsed {outcome : Outcome} {answer : Option String} {iterations : Nat} {st : RunState}
      (ms : Nat) :
    Step (.closing outcome answer iterations) st ⟨.elapsed, ms⟩
      (.recording ⟨outcome, answer, st.steps, millisI64 ms, iterations, st.totalReplans⟩) st
  | inserted {result : TaskResult} {st : RunState} (answer : Except String Unit)
      (attached : ex.episodicLog ≠ none) :
    Step (.recording result) st ⟨.insert (episodeOf goal result), answer⟩ (.recorded result) st

end Machine

/-! ## Assertions at the phases -/

/-- An assertion at each phase. It is kept, allows only commands in `I`, and ends in `E`. -/
structure Annotates [SerdeJson] (hs : Hashing) (ex : PlanExecutor) (goal : String)
    (Inv : Phase → RunState → Trace → Prop) (I : Trace → Command → Prop)
    (E : Trace → Prog.Ending PlanError TaskResult → Prop) : Prop where
  refused : E [] none
  start : ∀ {stm ld}, ShortTermMemory.new ex.config.stmTokenBudget = some stm →
    LoopDetector.fromConfig ex.loopDetectorConfig = some ld → Inv .goal ⟨stm, [], 0, ld⟩ []
  turn : ∀ {p p' st h}, Turn hs ex st p p' → Inv p st h → Inv p' st h
  step : ∀ {p p' st st' h e}, Step hs ex goal p st e p' st' → Inv p st h → Inv p' st' (h ++ [e])
  asks : ∀ {p p' st st' h} {e : Event}, Step hs ex goal p st e p' st' → Inv p st h → I h e.1
  ends : ∀ {st h e}, Inv (.ended e) st h → E h e

namespace Annotates

variable [SerdeJson] {hs : Hashing} {ex : PlanExecutor} {goal : String}
  {Inv : Phase → RunState → Trace → Prop} {I : Trace → Command → Prop}
  {E : Trace → Prog.Ending PlanError TaskResult → Prop} {p p' : Phase} {st : RunState} {h : Trace}
  {α : Type} {Q : Trace → Prog.Ending PlanError α → Prop}

theorem wp_pushMessage (ha : Annotates hs ex goal Inv I E) {k : ShortTermMemory → Plan α}
    {role : Role} {text : String} (hp : Inv p st h)
    (hstep : Step hs ex goal p st (pushing st role text) p' (st.pushed role text))
    (hk : ∀ stm h', Inv p' { st with stm } h' → Prog.wp I Q (k stm) h') :
    Prog.wp I Q (pushMessage st.stm role text >>= k) h :=
  ⟨ha.asks hstep hp, fun _ => hk _ _ (ha.step hstep hp)⟩

theorem wp_pushThought (ha : Annotates hs ex goal Inv I E) {k : ShortTermMemory → Plan α}
    {thought : String} (hp : Inv p st h) (hturn : thought = "" → Turn hs ex st p p')
    (hstep : thought ≠ "" →
      Step hs ex goal p st (pushing st .assistant thought) p' (st.pushed .assistant thought))
    (hk : ∀ stm h', Inv p' { st with stm } h' → Prog.wp I Q (k stm) h') :
    Prog.wp I Q (pushThought st.stm thought >>= k) h := by
  unfold pushThought
  split
  next hempty => exact hk st.stm h (ha.turn (hturn hempty) hp)
  next hne => exact ha.wp_pushMessage hp (hstep hne) hk

theorem wp_callReason (ha : Annotates hs ex goal Inv I E) {k : ReasonResponse → Plan α}
    {next : ReasonResponse → Phase} (hp : Inv p st h)
    (hok : ∀ response, Step hs ex goal p st ⟨.reason (reasonRequest ex goal st), .ok response⟩
      (next response) st)
    (herror : ∀ e, Step hs ex goal p st ⟨.reason (reasonRequest ex goal st), .error e⟩
      (.ended (some (.error (.ipc e)))) st)
    (hQ : ∀ e h', E h' (some (.error (.ipc e))) → Q h' (some (.error (.ipc e))))
    (hk : ∀ response h', Inv (next response) st h' → Prog.wp I Q (k response) h') :
    Prog.wp I Q (callReason ex st.stm goal (queryMemoryContext goal) >>= k) h := by
  refine ⟨ha.asks (hok ⟨"", none, .null, false, none⟩) hp, ?_⟩
  intro answer
  cases answer with
  | error e => exact hQ e _ (ha.ends (ha.step (herror e) hp))
  | ok response => exact hk response _ (ha.step (hok response) hp)

theorem wp_summarizeIfNeeded (ha : Annotates hs ex goal Inv I E) {k : ShortTermMemory → Plan α}
    {i : Nat} (hp : Inv (.opened i) st h)
    (hQ : ∀ e h', E h' (some (.error (.ipc e))) → Q h' (some (.error (.ipc e))))
    (hk : ∀ stm h', Inv (.asking i) { st with stm } h' → Prog.wp I Q (k stm) h') :
    Prog.wp I Q (summarizeIfNeeded st.stm >>= k) h := by
  unfold summarizeIfNeeded
  split
  next habove =>
    refine ⟨ha.asks (.summarized ⟨"", 0⟩ habove) hp, ?_⟩
    intro answer
    cases answer with
    | error e => exact hQ e _ (ha.ends (ha.step (.unsummarized e habove) hp))
    | ok response => exact hk _ _ (ha.step (.summarized response habove) hp)
  next hbelow => exact hk st.stm h (ha.turn (.fits (by simpa using hbelow)) hp)

theorem wp_finish (ha : Annotates hs ex goal Inv I E)
    {Q : Trace → Prog.Ending PlanError TaskResult → Prop} {outcome : Outcome}
    {answer : Option String} {iterations : Nat} (hp : Inv (.closing outcome answer iterations) st h)
    (hQ : ∀ result h', result.outcome = outcome → Inv (.recorded result) st h' →
      Q h' (some (.ok result))) :
    Prog.wp I Q (finish ex goal outcome answer iterations st) h := by
  refine ⟨ha.asks (.elapsed 0) hp, ?_⟩
  intro ms
  have hrecording := ha.step (.elapsed ms) hp
  unfold recordEpisode
  split
  next hlog => exact hQ _ _ rfl (ha.turn (.unattached hlog) hrecording)
  next log hlog =>
    have hattached : ex.episodicLog ≠ none := by
      rw [hlog]
      exact Option.some_ne_none log
    refine ⟨ha.asks (.inserted (.ok ()) hattached) hrecording, ?_⟩
    intro stored
    exact hQ _ _ rfl (ha.step (.inserted stored hattached) hrecording)

/-- What `execute_tool_with_replan` hands back to its iteration. -/
def Handed (Inv : Phase → RunState → Trace → Prop)
    (E : Trace → Prog.Ending PlanError TaskResult → Prop) (i : Nat) (first : String) (h : Trace) :
    Prog.Ending PlanError (StepOutcome × RunState) → Prop
  | some (.ok (outcome, st)) => Inv (.handed i first outcome) st h
  | some (.error e) => E h (some (.error e))
  | none => False

theorem wp_executeToolWithReplan (ha : Annotates hs ex goal Inv I E) {i f : Nat}
    {first action : String} {input : Json} (hp : Inv (.calling i f first action input) st h) :
    Prog.wp I (Handed Inv E i first)
      (executeToolWithReplan hs ex goal (queryMemoryContext goal) f action input st) h := by
  induction hn : ex.config.replan.maxReplansPerStep - f using Nat.strongRecOn
    generalizing f action input st h with
  | ind n ih =>
    rw [executeToolWithReplan]
    cases hloop : st.loopDetector.isLooping hs with
    | some msg => exact ha.ends (ha.turn (.loop hloop) hp)
    | none =>
      refine ⟨ha.asks (.succeeded .null hloop) hp, ?_⟩
      intro result
      cases result with
      | ok result => exact ha.step (.succeeded result hloop) hp
      | error e =>
        dsimp only
        split
        next hreached => exact ha.ends (ha.step (.perStep e hloop hreached) hp)
        next hstep =>
        split
        next hreached => exact ha.ends (ha.step (.perTask e hloop (by omega) hreached) hp)
        next htask =>
        have hfailed := ha.step (.failed e hloop (by omega) (by omega)) hp
        change Prog.wp I _ (pushMessage (st.called hs action input (.error e)).stm .user
          (errorContext action e.toString) >>= _) _
        refine ha.wp_pushMessage hfailed .told ?_
        intro stm h₁ h₁p
        refine ha.wp_callReason h₁p .replanned .unreplanned (fun _ _ he => he) ?_
        intro response h₂ h₂p
        refine ha.wp_pushThought h₂p .rethoughtless .reconsidered ?_
        intro stm' h₃ h₃p
        split
        next hfinal => exact ha.turn (.concedes hfinal) h₃p
        next hnot =>
        have hnot : response.isFinal = false := by simpa using hnot
        split
        next haction => exact ha.ends (ha.turn (.reempty _ hnot haction) h₃p)
        next haction => exact ih _ (by omega) (ha.turn (.retries hnot haction) h₃p) rfl

theorem wp_iterate (ha : Annotates hs ex goal Inv I E) {remaining i : Nat}
    (hi : i + remaining = ex.config.maxIterations) (hp : Inv (.head i) st h) :
    Prog.wp I E (iterate hs ex goal (queryMemoryContext goal) remaining i st) h := by
  induction remaining generalizing i st h with
  | zero =>
    obtain rfl : i = ex.config.maxIterations := hi
    rw [iterate]
    refine Prog.wp_bind (ha.wp_finish (ha.turn .exhausted hp) ?_)
    intro result h' houtcome hrecorded
    exact ha.ends (ha.turn (.reached houtcome) hrecorded)
  | succ remaining ih =>
    have hlt : i < ex.config.maxIterations := by omega
    have hsuccess : ∀ {st' : RunState} (result : TaskResult) (h' : Trace),
        result.outcome = .success → Inv (.recorded result) st' h' → E h' (some (.ok result)) :=
      fun result h' houtcome hrecorded => ha.ends (ha.turn (.returns houtcome) hrecorded)
    rw [iterate]
    simp only [Prog.perform, Prog.call_bind, Prog.ret_bind]
    rw [Prog.wp_call]
    refine ⟨ha.asks (.iteration hlt) hp, ?_⟩
    intro _
    refine ha.wp_summarizeIfNeeded (ha.step (.iteration hlt) hp) (fun _ _ he => he) ?_
    intro stm h₁ h₁p
    refine ha.wp_callReason h₁p .answered .unanswered (fun _ _ he => he) ?_
    intro response h₂ h₂p
    refine ha.wp_pushThought h₂p .thoughtless .considered ?_
    intro stm' h₃ h₃p
    split
    next hfinal => exact ha.wp_finish (ha.turn (.final hfinal) h₃p) hsuccess
    next hnot =>
    have hnot : response.isFinal = false := by simpa using hnot
    split
    next haction => exact ha.ends (ha.turn (.empty _ hnot haction) h₃p)
    next haction =>
    refine Prog.wp_bind (Prog.wp_mono ?_
      (ha.wp_executeToolWithReplan (ha.turn (.acts hnot haction) h₃p)))
    intro h₄ e₄ hdone
    rcases e₄ with - | e | ⟨outcome, st₄⟩
    · exact hdone.elim
    · exact hdone
    · cases outcome with
      | observation result =>
        dsimp only [Prog.andThen]
        cases hshown : formatObservation (response.action.getD "") result with
        | none => exact ha.ends (ha.turn (.unshown hshown) hdone)
        | some text =>
          refine ha.wp_pushMessage hdone (.observed hshown) ?_
          intro stm₅ h₅ h₅p
          exact ih (by omega) h₅p
      | finalAnswer thought answer =>
        refine ha.wp_pushThought hdone .said .repeated ?_
        intro stm₅ h₅ h₅p
        exact ha.wp_finish h₅p hsuccess

/-- **The rule of the machine.** An assertion that turns and steps keep holds of every run. -/
theorem wp_raced (ha : Annotates hs ex goal Inv I E) : Prog.wp I E (raced hs ex goal) [] := by
  unfold raced
  split
  · exact ha.refused
  next ld hld =>
  unfold executeInner
  split
  · exact ha.refused
  next stm hstm =>
  refine ha.wp_pushMessage (ha.start hstm hld) .goal ?_
  intro stm' h hhead
  exact ha.wp_iterate (Nat.zero_add _) hhead

end Annotates

end Xola.PlanExecutor
