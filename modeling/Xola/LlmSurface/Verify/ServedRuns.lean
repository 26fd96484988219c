import Xola.LlmSurface.Server
import Xola.LlmSurface.Verify.ReasonWire
import Xola.LlmSurface.Verify.SummarizeWire
import Xola.LlmSurface.Verify.ToolNames

/-!
# Runs against the server

The executor alone does what any answer of `/reason` tells it. Behind the server of this repository an
answer is what the model has replied: a tool is called with the name of the first call of the latest
reply and with what arrives of its arguments, and a task succeeds with an answer that some reply has
given. The other endpoint is of no use to a run: its answer is always an error, so a run that asks for
a summary ends there.
-/

namespace Xola.LlmSurface

open Interaction PlanExecutor

/-! ## Replies -/

section Replies

variable {loads : PyStr → Except LoadsError PyValue} {wire : Wire}

/-- The argument text stands for the object; the empty text stands for the empty one. -/
def Decodes (loads : PyStr → Except LoadsError PyValue) (arguments : PyStr)
    (fields : List (PyStr × PyValue)) : Prop :=
  if arguments = [] then fields = [] else loads arguments = .ok (.obj fields)

/-- The first tool call of the reply is this one. -/
def Calls (loads : PyStr → Except LoadsError PyValue) (reply : Reply) (name : PyStr)
    (fields : List (PyStr × PyValue)) : Prop :=
  ∃ content arguments rest, reply = .ok ⟨content, .function name arguments :: rest⟩ ∧
    Decodes loads arguments fields

/-- The reply ends the task with this answer: by a text, or by a call of `final_answer`, where a
missing answer is the empty one. -/
inductive Concludes (loads : PyStr → Except LoadsError PyValue) : Reply → Option PyStr → Prop
  | text {content : Option PyStr} (thought : strip (content.getD []) ≠ []) :
    Concludes loads (.ok ⟨content, []⟩) (some (strip (content.getD [])))
  | answer {reply : Reply} {fields : List (PyStr × PyValue)} {s : PyStr}
      (calls : Calls loads reply "final_answer" fields)
      (answer : fields.lookup ("answer" : PyStr) = some (.str s)) : Concludes loads reply (some s)
  | noAnswer {reply : Reply} {fields : List (PyStr × PyValue)}
      (calls : Calls loads reply "final_answer" fields)
      (answer : fields.lookup ("answer" : PyStr) = none) : Concludes loads reply (some [])
  | null {reply : Reply} {fields : List (PyStr × PyValue)}
      (calls : Calls loads reply "final_answer" fields)
      (answer : fields.lookup ("answer" : PyStr) = some .null) : Concludes loads reply none

/-- What the runtime makes of a reply. -/
inductive Read (loads : PyStr → Except LoadsError PyValue) (reply : Reply)
    (response : ReasonResponse) : Prop
  | call {name : String} {fields : List (PyStr × PyValue)} (goesOn : response.isFinal = false)
      (action : response.action = some name) (ne : name ≠ "final_answer")
      (calls : Calls loads reply name fields)
      (input : Arrives (.obj fields) response.actionInput) : Read loads reply response
  | final (ends : response.isFinal = true)
      (concludes : Concludes loads reply (response.finalAnswer.map PyStr.ofString)) :
    Read loads reply response

theorem decodes_of_parseArguments {name arguments : PyStr} {fields : List (PyStr × PyValue)}
    (h : parseArguments loads name arguments = .ok (.obj fields)) :
    Decodes loads arguments fields := by
  unfold parseArguments at h
  unfold Decodes
  split
  · next hempty =>
    rw [if_pos hempty] at h
    cases h
    rfl
  · next hne =>
    rw [if_neg hne] at h
    split at h
    · next hloads =>
      cases h
      exact hloads
    all_goals cases h

/-- A final result that the runtime can read has a string for its answer, or `null`. -/
theorem ipcAnswer_final {thought : PyStr} {answer : PyValue} {response : ReasonResponse}
    (h : ipcAnswer wire (respond wire ⟨thought, none, .obj [], true, answer⟩) = .ok response) :
    response.isFinal = true ∧ Pydantic.nullable Pydantic.str answer =
      some (response.finalAnswer.map PyStr.ofString) := by
  obtain ⟨b, hb, -, hreceived⟩ := ipcAnswer_respond h
  obtain ⟨a, ha, hb⟩ := Option.bind_eq_some_iff.1 hb
  cases hb
  exact ⟨hreceived.isFinal.symm, hreceived.finalAnswer ▸ ha⟩

theorem concludes_of_call {reply : Reply} {fields : List (PyStr × PyValue)} {answer : PyValue}
    {a : Option PyStr} (hcalls : Calls loads reply "final_answer" fields)
    (hget : getAnswer (.obj fields) = .ok answer)
    (ha : Pydantic.nullable Pydantic.str answer = some a) : Concludes loads reply a := by
  cases hlookup : fields.lookup ("answer" : PyStr) with
  | none =>
    simp only [getAnswer, hlookup, Option.getD_none] at hget
    cases hget
    cases ha
    exact .noAnswer hcalls hlookup
  | some v =>
    simp only [getAnswer, hlookup, Option.getD_some] at hget
    cases hget
    cases answer with
    | null =>
      cases ha
      exact .null hcalls hlookup
    | str s =>
      cases ha
      exact .answer hcalls hlookup
    | _ => cases ha

theorem read_of_text {content : Option PyStr} {response : ReasonResponse}
    (h : ipcAnswer wire (reason loads wire (.ok ⟨content, []⟩)) = .ok response) :
    Read loads (.ok ⟨content, []⟩) response := by
  obtain ⟨result, hstep, h⟩ := ipcAnswer_reason h
  by_cases hthought : strip (content.getD []) = []
  · cases (reasonStep_blank hthought).symm.trans hstep
  · cases (reasonStep_text hthought).symm.trans hstep
    obtain ⟨hends, ha⟩ := ipcAnswer_final h
    refine .final hends ?_
    rw [← Option.some.inj ha]
    exact .text hthought

theorem read_of_function {content : Option PyStr} {name arguments : PyStr} {rest : List ToolCall}
    {response : ReasonResponse}
    (h : ipcAnswer wire (reason loads wire (.ok ⟨content, .function name arguments :: rest⟩)) =
      .ok response) :
    Read loads (.ok ⟨content, .function name arguments :: rest⟩) response := by
  obtain ⟨result, hstep, h⟩ := ipcAnswer_reason h
  cases hv : parseArguments loads name arguments with
  | error e => cases (reasonStep_raises hv).symm.trans hstep
  | ok v =>
    rw [reasonStep_call hv] at hstep
    by_cases hname : name = ("final_answer" : PyStr)
    · rw [if_pos hname] at hstep
      subst hname
      cases v with
      | obj fields =>
        cases hstep
        obtain ⟨hends, ha⟩ := ipcAnswer_final h
        have hcalls := decodes_of_parseArguments hv
        exact .final hends (concludes_of_call ⟨_, _, _, rfl, hcalls⟩ rfl ha)
      | _ => cases hstep
    · rw [if_neg hname] at hstep
      cases hstep
      cases v with
      | obj fields =>
        obtain ⟨hgoes, haction, hinput⟩ := ipcAnswer_call h
        obtain ⟨action, hsome, rfl⟩ := Option.map_eq_some_iff.1 haction
        have hcalls := decodes_of_parseArguments hv
        exact .call hgoes hsome (mt (congrArg PyStr.ofString) hname) ⟨_, _, _, rfl, hcalls⟩ hinput
      | _ =>
        obtain ⟨b, hb, -⟩ := ipcAnswer_respond h
        cases hb

/-- The runtime reads replies, and nothing else, off the answers of the server. -/
theorem read_of_ipcAnswer {reply : Reply} {response : ReasonResponse}
    (h : ipcAnswer wire (reason loads wire reply) = .ok response) : Read loads reply response := by
  rcases reply with msg | ⟨content, calls⟩
  · obtain ⟨result, hstep, -⟩ := ipcAnswer_reason h
    cases hstep
  cases calls with
  | nil => exact read_of_text h
  | cons call rest =>
    cases call with
    | function name arguments => exact read_of_function h
    | custom typeText =>
      obtain ⟨result, hstep, -⟩ := ipcAnswer_reason h
      cases hstep

end Replies

/-! ## Calls and answers of a run -/

section Runs

variable {setup : Setup} {hs : Hashing} {ex : PlanExecutor} {goal : String} {h : Trace}

/-- A call is asked for by a response after which messages have been pushed, and nothing else has
happened. -/
theorem requested_eq_some {action : String} {input : Json}
    (hr : requested h = some (action, input)) :
    ∃ before request response t, h = before ++ ⟨.reason request, .ok response⟩ :: t ∧
      (∀ e ∈ t, ∃ stm msg, e = ⟨.pushed stm msg, ()⟩) ∧ response.isFinal = false ∧
      response.action.getD "" = action ∧ action ≠ "" ∧ response.actionInput = input := by
  induction h using List.reverseRecOn with
  | nil => cases hr
  | append_singleton h e ih =>
    rw [requested_concat] at hr
    obtain ⟨c, a⟩ := e
    cases c with
    | pushed stm msg =>
      obtain ⟨before, request, response, t, rfl, ht, hrest⟩ := ih hr
      refine ⟨before, request, response, t ++ [⟨.pushed stm msg, a⟩], by simp, ?_, hrest⟩
      intro e he
      rcases List.mem_append.mp he with he | he
      · exact ht e he
      · exact ⟨stm, msg, List.mem_singleton.mp he⟩
    | reason request =>
      cases a with
      | error e => cases hr
      | ok response =>
        simp only [Event.request] at hr
        split at hr
        · next hasks =>
          cases hr
          exact ⟨h, request, response, [], rfl, nofun, hasks.1, rfl, hasks.2, rfl⟩
        · cases hr
    | iteration | summarize | executeWithTimeout | elapsed | insert => cases hr

theorem Setup.ServesReason.read (hserves : setup.ServesReason h) {request : Xola.ReasonRequest}
    {response : ReasonResponse} (hmem : (⟨.reason request, .ok response⟩ : Event) ∈ h) :
    ∃ reply, Except.ok response =
        ipcAnswer setup.wire (LlmSurface.reason setup.loads setup.wire reply) ∧
      Read setup.loads reply response := by
  have hanswer := hserves request (.ok response) hmem
  generalize hres : (Except.ok response : Except IpcError ReasonResponse) = answer at hanswer
  cases hanswer with
  | lost | rejected => cases hres
  | replied reply _ => exact ⟨reply, rfl, read_of_ipcAnswer hres.symm⟩

variable [SerdeJson]

/-- Every request to `/reason` is made with some buffer. -/
theorem request_of_mem {q : Plan TaskResult} (hr : Prog.Reaches (raced hs ex goal) h q)
    {request : Xola.ReasonRequest} {answer : Except IpcError ReasonResponse}
    (hmem : (⟨.reason request, answer⟩ : Event) ∈ h) :
    ∃ stm, request = buildReasonRequest stm ex.registry goal (queryMemoryContext goal) := by
  obtain ⟨before, after, rfl⟩ := List.append_of_mem hmem
  obtain ⟨-, stm, -, heq⟩ := Prog.wp_pending annotates_remembersAt.wp_raced hr.pending
  exact ⟨stm, heq⟩

end Runs

/-! ## Summaries -/

section Summaries

variable {setup : Setup} {hs : Hashing} {ex : PlanExecutor} {goal : String} {h : Trace}

theorem summarize_rejected (c : Pydantic.Coercions String) (stm : ShortTermMemory) :
    SummarizeRequest.modelValidate c (summarizeRequest stm).toJson = none := by
  by_cases hne : stm.messages = []
  · rw [summarizeRequest, hne]
    rfl
  · exact modelValidate_summarizeRequest c hne

theorem Setup.ServesSummarize.left {rest : Trace} (hserves : setup.ServesSummarize (h ++ rest)) :
    setup.ServesSummarize h :=
  fun request answer hmem => hserves request answer (List.mem_append_left _ hmem)

/-- The only errors that a request for a summary can end in. -/
inductive NoSummary : IpcError → Prop
  | lost (msg : String) : NoSummary (.transport msg)
  | rejected (detail : String) : NoSummary (.serverError 422 detail)

theorem noSummary_of_serves {stm : ShortTermMemory} {answer : Except IpcError SummarizeResponse}
    (hserves : setup.ServesSummarize (h ++ [⟨.summarize (summarizeRequest stm), answer⟩])) :
    ∃ e, answer = .error e ∧ NoSummary e := by
  cases hserves (summarizeRequest stm) answer (by simp) with
  | lost msg => exact ⟨_, rfl, .lost msg⟩
  | rejected detail => exact ⟨_, rfl, .rejected detail⟩
  | accepted _ hvalid => exact absurd (summarize_rejected _ stm) hvalid

/-- The last thing that happened was a failed request for a summary, the first of the run. -/
def Stopped (h : Trace) (e : Prog.Ending PlanError TaskResult) : Prop :=
  ∃ before request error, h = before ++ [⟨.summarize request, .error error⟩] ∧
    summarizes before = 0 ∧ NoSummary error ∧ e = some (.error (.ipc error))

/-- The assertion: behind the server, no summary has been asked for, or the run is over. -/
def Unsummarized (setup : Setup) : Phase → RunState → Trace → Prop
  | .ended e, _, h => setup.ServesSummarize h → summarizes h = 0 ∨ Stopped h e
  | _, _, h => setup.ServesSummarize h → summarizes h = 0

section Phases

variable {e : Event}

theorem summarizes_silent (hp : setup.ServesSummarize h → summarizes h = 0)
    (he : e.1.isSummarize = false) :
    setup.ServesSummarize (h ++ [e]) → summarizes (h ++ [e]) = 0 := by
  intro hserves
  rw [summarizes_concat, he, hp hserves.left]
  rfl

variable [SerdeJson] {p p' : Phase} {st st' : RunState}

theorem unsummarized_turn (ht : Turn hs ex st p p') (hp : Unsummarized setup p st h) :
    Unsummarized setup p' st h := by
  cases ht with
  | empty | loop | reempty | unshown | returns | reached => exact fun hserves => .inl (hp hserves)
  | exhausted | fits | thoughtless | final | acts | rethoughtless | concedes | retries | said
  | unattached => exact hp

theorem unsummarized_step (hst : Step hs ex goal p st e p' st') (hp : Unsummarized setup p st h) :
    Unsummarized setup p' st' (h ++ [e]) := by
  cases hst with
  | summarized response =>
    intro hserves
    obtain ⟨_, herror, -⟩ := noSummary_of_serves hserves
    cases herror
  | unsummarized e =>
    intro hserves
    obtain ⟨_, herror, hno⟩ := noSummary_of_serves hserves
    cases herror
    exact .inr ⟨h, _, e, rfl, hp hserves.left, hno, rfl⟩
  | unanswered | perStep | perTask | unreplanned =>
    exact fun hserves => .inl (summarizes_silent hp rfl hserves)
  | goal | iteration | answered | considered | succeeded | failed | told | replanned | reconsidered
  | observed | repeated | elapsed | inserted => exact summarizes_silent hp rfl

theorem annotates_unsummarized : Annotates hs ex goal (Unsummarized setup)
    (fun h _ => setup.ServesSummarize h → summarizes h = 0)
    (fun h e => setup.ServesSummarize h → summarizes h = 0 ∨ Stopped h e) where
  refused _ := .inl rfl
  start _ _ _ := rfl
  turn := unsummarized_turn
  step := unsummarized_step
  asks hst hp := by
    cases hst <;> exact hp
  ends hp := hp

end Phases

/-- **A summary ends the run.** Against the server, a run of `execute` that asks for a summary gets an
error, and returns it on the spot; so a task that succeeds has never asked for one. -/
theorem summary_ends_run [SerdeJson] (hserves : setup.ServesSummarize h) {cut : Option Command}
    {res : Except PlanError TaskResult} (hr : Executes hs ex goal h cut res) :
    summarizes h = 0 ∨ cut = none ∧ Stopped h (some res) := by
  cases hr with
  | finished hreturns =>
    have hends := Prog.wp_ends annotates_unsummarized.wp_raced hreturns.ends hserves
    exact hends.imp_right fun hstopped => ⟨rfl, hstopped⟩
  | deadline hpending _ =>
    exact .inl (Prog.wp_pending annotates_unsummarized.wp_raced hpending hserves)
  | unpolled => exact .inl rfl

end Summaries

/-! ## Two runs -/

section Example

attribute [local instance] SerdeJson.plain

def sampleSetup : Setup := ⟨sampleLoads, .plain, none, decimals⟩

/-- A budget that the goal fills. -/
def cramped : PlanExecutor :=
  .new (.new .default) .default { PlanConfig.default with stmTokenBudget := 1 }

/-- The messages of the request are no strings, says the server. -/
def refused : IpcError := .serverError 422 "[]"

def refusing : Trace :=
  [⟨.pushed ⟨[], 0, 1⟩ ⟨.user, "find", 1⟩, ()⟩, ⟨.iteration 0, ()⟩,
    ⟨.summarize (summarizeRequest ⟨[⟨.user, "find", 1⟩], 1, 1⟩), .error refused⟩]

theorem executes_refusing (hs : Hashing) :
    Executes hs cramped "find" refusing none (.error (.ipc refused)) := by
  have hreaches : Prog.Reaches (raced hs cramped "find") refusing (.err (.ipc refused)) := by
    refine .step (R := Command.Answer) (c := .pushed _ _) () ?_
    refine .step (R := Command.Answer) (c := .iteration 0) () ?_
    exact .step (R := Command.Answer) (c := .summarize _) (.error refused) (.refl _)
  exact .finished hreaches

theorem summary_ends_run_refusing : Stopped refusing (some (.error (.ipc refused))) := by
  have hserves : sampleSetup.ServesSummarize refusing := by
    intro request answer hmem
    simp only [refusing, List.mem_cons, List.not_mem_nil, or_false] at hmem
    rcases hmem with heq | heq | heq <;> cases heq
    exact .rejected "[]" (summarize_rejected _ _)
  have hr := executes_refusing ⟨fun _ _ => 0, id, fun _ => .refl _⟩
  exact ((summary_ends_run hserves hr).resolve_left (by decide)).2

end Example

end Xola.LlmSurface
