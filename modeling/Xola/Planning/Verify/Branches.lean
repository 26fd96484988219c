import Xola.Planning.Verify.LoopGuard
import Xola.Planning.Verify.ParallelResults
import Xola.Planning.Verify.Reach
import Xola.Planning.Verify.Verdicts

/-!
# A branch and the executor that spawned it

`execute_parallel` builds the executor of a branch anew. The registry, the tool timeouts and the
limits are handed on; the loop detector configuration, the task deadline and the episodic log are
not, so a branch runs with the default detector, the default deadline and no log.
-/

namespace Xola.PlanExecutor

open Interaction

section Branch

variable {hs : Hashing} {ex : PlanExecutor} {goal : String} {h : Trace}

/-! ## The same program

The two programs are compared from a point `h` of the runs of `root`, where both have the same
exchanges behind them and go on with `K` and `K'`. Everything but the detector is the same.
-/

section Same

variable {α : Type} {root : Plan TaskResult} {stm : ShortTermMemory}

theorem branchExecutor_config : ex.branchExecutor.config = ex.config := rfl

theorem call_congr {c : Command} {k k' : c.Answer → Plan TaskResult} (hk : ∀ r, k r = k' r) :
    (Prog.call c k : Plan TaskResult) = .call c k' :=
  congrArg _ (funext hk)

theorem same_pushMessage {K K' : ShortTermMemory → Plan TaskResult} {role : Role} {text : String}
    (hr : Prog.Reaches root h (pushMessage stm role text >>= K))
    (hK : ∀ stm' h', Prog.Reaches root h' (K stm') → calls h' = calls h →
      requested h' = requested h → K stm' = K' stm') :
    (pushMessage stm role text >>= K) = (pushMessage stm role text >>= K') :=
  call_congr fun _ => hK _ _ (hr.snoc ()) (calls_concat_of_not rfl) (requested_concat _ _)

theorem same_pushThought {K K' : ShortTermMemory → Plan TaskResult} {thought : String}
    (hr : Prog.Reaches root h (pushThought stm thought >>= K))
    (hK : ∀ stm' h', Prog.Reaches root h' (K stm') → calls h' = calls h →
      requested h' = requested h → K stm' = K' stm') :
    (pushThought stm thought >>= K) = (pushThought stm thought >>= K') := by
  by_cases hempty : thought = ""
  · rw [pushThought, if_pos hempty] at hr ⊢
    exact hK _ _ hr rfl rfl
  · rw [pushThought, if_neg hempty] at hr ⊢
    exact same_pushMessage hr hK

theorem same_callReason {K K' : ReasonResponse → Plan TaskResult} {memoryContext : List String}
    (hr : Prog.Reaches root h (callReason ex stm goal memoryContext >>= K))
    (hK : ∀ request response h', Prog.Reaches root h' (K response) → calls h' = calls h →
      requested h' = Event.request ⟨.reason request, .ok response⟩ → K response = K' response) :
    (callReason ex stm goal memoryContext >>= K) =
      (callReason ex.branchExecutor stm goal memoryContext >>= K') := by
  refine call_congr ?_
  intro answer
  cases answer with
  | error e => rfl
  | ok response =>
    exact hK _ response _ (hr.snoc (.ok response)) (calls_concat_of_not rfl) (requested_concat _ _)

theorem same_summarizeIfNeeded {K K' : ShortTermMemory → Plan TaskResult}
    (hr : Prog.Reaches root h (summarizeIfNeeded stm >>= K))
    (hK : ∀ stm' h', Prog.Reaches root h' (K stm') → calls h' = calls h → K stm' = K' stm') :
    (summarizeIfNeeded stm >>= K) = (summarizeIfNeeded stm >>= K') := by
  by_cases hneeded : stm.needsSummarization = true
  · rw [summarizeIfNeeded, if_pos hneeded] at hr ⊢
    refine call_congr ?_
    intro answer
    cases answer with
    | error e => rfl
    | ok response => exact hK _ _ (hr.snoc (.ok response)) (calls_concat_of_not rfl)
  · rw [summarizeIfNeeded, if_neg hneeded] at hr ⊢
    exact hK _ _ hr rfl

/-- Without a log there is nothing to record. -/
theorem same_finish (hlog : ex.episodicLog = none) {outcome : Outcome} {answer : Option String}
    {iterations : Nat} {stm : ShortTermMemory} {steps : List TaskStep} {n : Nat}
    (d d' : LoopDetector) :
    finish ex goal outcome answer iterations ⟨stm, steps, n, d⟩ =
      finish ex.branchExecutor goal outcome answer iterations ⟨stm, steps, n, d'⟩ := by
  refine call_congr ?_
  intro elapsed
  unfold recordEpisode
  rw [hlog]
  rfl

theorem request_ne_none {request : ReasonRequest} {response : ReasonResponse}
    (hfinal : ¬response.isFinal = true) (hempty : response.action.getD "" ≠ "") :
    Event.request ⟨.reason request, .ok response⟩ ≠ none := by
  unfold Event.request
  simp [hfinal, hempty]

variable [SerdeJson]

/-- The two detectors give the same verdict wherever a run has been asked for a call. -/
def Agree (hs : Hashing) (ex : PlanExecutor) (root : Plan TaskResult) : Prop :=
  ∀ h q, Prog.Reaches root h q → requested h ≠ none →
    verdict hs ex.loopDetectorConfig (calls h) = verdict hs .default (calls h)

/-- The configured detector and the default one after the same calls. -/
structure Twins (hs : Hashing) (ex : PlanExecutor) (h : Trace) (d d' : LoopDetector) : Prop where
  own : Detects hs ex.loopDetectorConfig (calls h) d
  default : Detects hs .default (calls h) d'

theorem Twins.of_eq {h' : Trace} {d d' : LoopDetector} (ht : Twins hs ex h d d')
    (hc : calls h' = calls h) : Twins hs ex h' d d' :=
  ⟨hc ▸ ht.own, hc ▸ ht.default⟩

theorem Twins.record {d d' : LoopDetector} (ht : Twins hs ex h d d') (action : String)
    (input : Json) (timeout : Nat) (result : Except ToolError Json) :
    Twins hs ex (h ++ [⟨.executeWithTimeout action input timeout, result⟩])
      (d.record hs action input) (d'.record hs action input) := by
  have hcalls : calls (h ++ [⟨.executeWithTimeout action input timeout, result⟩]) =
      calls h ++ [(action, input)] := by
    rw [calls_concat]
    cases result <;> rfl
  exact ⟨hcalls ▸ ht.own.record action input, hcalls ▸ ht.default.record action input⟩

theorem same_executeToolWithReplan {K K' : StepOutcome × RunState → Plan TaskResult}
    {memoryContext : List String} {f : Nat} {action : String} {input : Json}
    {steps : List TaskStep} {n : Nat} {d d' : LoopDetector} (hv : Agree hs ex root)
    (hr : Prog.Reaches root h
      (executeToolWithReplan hs ex goal memoryContext f action input ⟨stm, steps, n, d⟩ >>= K))
    (hreq : requested h ≠ none) (ht : Twins hs ex h d d')
    (hK : ∀ h' outcome stm steps n d d', Prog.Reaches root h' (K (outcome, ⟨stm, steps, n, d⟩)) →
      Twins hs ex h' d d' → K (outcome, ⟨stm, steps, n, d⟩) = K' (outcome, ⟨stm, steps, n, d'⟩)) :
    (executeToolWithReplan hs ex goal memoryContext f action input ⟨stm, steps, n, d⟩ >>= K) =
      (executeToolWithReplan hs ex.branchExecutor goal memoryContext f action input
        ⟨stm, steps, n, d'⟩ >>= K') := by
  induction hm : ex.config.replan.maxReplansPerStep - f using Nat.strongRecOn
    generalizing f action input stm steps n d d' h with
  | ind m ih =>
    have hverdict : d.isLooping hs = d'.isLooping hs := by
      rw [ht.own.isLooping_eq, ht.default.isLooping_eq]
      exact hv h _ hr hreq
    rw [executeToolWithReplan] at hr
    conv_lhs => rw [executeToolWithReplan]
    conv_rhs => rw [executeToolWithReplan]
    dsimp only at hr ⊢
    rw [hverdict] at hr ⊢
    cases hloop : d'.isLooping hs with
    | some msg => rfl
    | none =>
      rw [hloop] at hr
      simp only [Prog.perform, Prog.call_bind, Prog.ret_bind] at hr ⊢
      refine call_congr ?_
      intro result
      have hr₁ := hr.snoc result
      have ht₁ := ht.record action input (ex.timeoutConfig.getTimeout action) result
      cases result with
      | ok result => exact hK _ _ _ _ _ _ _ hr₁ ht₁
      | error e =>
        dsimp only at hr₁ ⊢
        by_cases hstep : ex.config.replan.maxReplansPerStep ≤ f + 1
        · rw [dif_pos hstep, dif_pos (show ex.branchExecutor.config.replan.maxReplansPerStep ≤ _
            from hstep)]
          rfl
        rw [dif_neg hstep] at hr₁ ⊢
        rw [dif_neg (show ¬ex.branchExecutor.config.replan.maxReplansPerStep ≤ _ from hstep)]
        by_cases htask : ex.config.replan.maxReplansPerTask ≤ n + 1
        · rw [if_pos htask, if_pos (show ex.branchExecutor.config.replan.maxReplansPerTask ≤ _
            from htask)]
          rfl
        rw [if_neg htask] at hr₁ ⊢
        rw [if_neg (show ¬ex.branchExecutor.config.replan.maxReplansPerTask ≤ _ from htask)]
        simp only [Prog.bind_assoc] at hr₁ ⊢
        refine same_pushMessage hr₁ ?_
        intro stm h₂ hr₂ hc₂ _
        refine same_callReason hr₂ ?_
        intro request response h₃ hr₃ hc₃ hq₃
        refine same_pushThought hr₃ ?_
        intro stm' h₄ hr₄ hc₄ hq₄
        have ht₄ := ht₁.of_eq (hc₄.trans (hc₃.trans hc₂))
        by_cases hfinal : response.isFinal = true
        · simp only [if_pos hfinal] at hr₄ ⊢
          exact hK _ _ _ _ _ _ _ hr₄ ht₄
        by_cases hempty : response.action.getD "" = ""
        · simp only [if_neg hfinal, if_pos hempty]
          rfl
        simp only [if_neg hfinal, if_neg hempty] at hr₄ ⊢
        refine ih _ (by omega) hr₄ ?_ ht₄ rfl
        rw [hq₄, hq₃]
        exact request_ne_none hfinal hempty

theorem same_iterate {memoryContext : List String} {remaining i : Nat} {steps : List TaskStep}
    {n : Nat} {d d' : LoopDetector} (hv : Agree hs ex root) (hlog : ex.episodicLog = none)
    (hr : Prog.Reaches root h
      (iterate hs ex goal memoryContext remaining i ⟨stm, steps, n, d⟩))
    (ht : Twins hs ex h d d') :
    iterate hs ex goal memoryContext remaining i ⟨stm, steps, n, d⟩ =
      iterate hs ex.branchExecutor goal memoryContext remaining i ⟨stm, steps, n, d'⟩ := by
  induction remaining generalizing i stm steps n d d' h with
  | zero =>
    rw [iterate, iterate, same_finish hlog d d']
    rfl
  | succ remaining ih =>
    rw [iterate] at hr ⊢
    rw [iterate]
    simp only [Prog.perform, Prog.call_bind, Prog.ret_bind] at hr ⊢
    refine call_congr ?_
    intro _
    have hcalls : calls (h ++ [⟨.iteration i, ()⟩]) = calls h := calls_concat_of_not rfl
    refine same_summarizeIfNeeded (hr.snoc ()) ?_
    intro stm₁ h₁ hr₁ hc₁
    refine same_callReason hr₁ ?_
    intro request response h₂ hr₂ hc₂ hq₂
    refine same_pushThought hr₂ ?_
    intro stm₃ h₃ hr₃ hc₃ hq₃
    have ht₃ := ht.of_eq (hc₃.trans (hc₂.trans (hc₁.trans hcalls)))
    by_cases hfinal : response.isFinal = true
    · simp only [if_pos hfinal]
      exact same_finish hlog _ _
    by_cases hempty : response.action.getD "" = ""
    · simp only [if_neg hfinal, if_pos hempty]
    simp only [if_neg hfinal, if_neg hempty] at hr₃ ⊢
    refine same_executeToolWithReplan hv hr₃ ?_ ht₃ ?_
    · rw [hq₃, hq₂]
      exact request_ne_none hfinal hempty
    intro h₄ outcome stm₄ steps₄ n₄ d₄ d₄' hr₄ ht₄
    cases outcome with
    | observation result =>
      dsimp only at hr₄ ⊢
      cases hobs : formatObservation (response.action.getD "") result with
      | none => rfl
      | some observation =>
        rw [hobs] at hr₄
        refine same_pushMessage hr₄ ?_
        intro stm₅ h₅ hr₅ hc₅ _
        exact ih hr₅ (ht₄.of_eq hc₅)
    | finalAnswer thought answer =>
      refine same_pushThought hr₄ ?_
      intro stm₅ h₅ hr₅ hc₅ _
      exact same_finish hlog _ _

/-- Where nothing that is lost shows, a branch runs the program of its executor. -/
theorem raced_branchExecutor (hld : LoopDetector.fromConfig ex.loopDetectorConfig ≠ none)
    (hlog : ex.episodicLog = none ∨ ex.config.stmTokenBudget = 0)
    (hv : Agree hs ex (raced hs ex goal)) :
    raced hs ex goal = raced hs ex.branchExecutor goal := by
  obtain ⟨ld, hld⟩ := Option.ne_none_iff_exists'.1 hld
  have hraced : raced hs ex goal = executeInner hs ex goal ld := by
    rw [raced, hld]
  have hbranch : raced hs ex.branchExecutor goal =
      executeInner hs ex.branchExecutor goal ⟨[], 10, 3⟩ := rfl
  have hroot : Prog.Reaches (raced hs ex goal) [] (executeInner hs ex goal ld) := hraced ▸ .refl _
  rw [hbranch]
  conv_lhs => rw [hraced]
  unfold executeInner at hroot ⊢
  rw [branchExecutor_config]
  cases hnew : ShortTermMemory.new ex.config.stmTokenBudget with
  | none => rfl
  | some stm =>
    have hnone : ex.episodicLog = none := by
      refine hlog.resolve_right ?_
      intro hzero
      rw [hzero] at hnew
      cases hnew
    rw [hnew] at hroot
    refine same_pushMessage hroot ?_
    intro stm' h' hr' hc' _
    have htwins : Twins hs ex [] ld ⟨[], 10, 3⟩ :=
      ⟨detects_fromConfig hld, detects_fromConfig rfl⟩
    exact same_iterate hv hnone hr' (htwins.of_eq hc')

end Same

/-! ## What a run has been told -/

/-- A response of the sidecar or of a tool. -/
inductive Response where
  | reason (answer : Except IpcError ReasonResponse)
  | summarize (answer : Except IpcError SummarizeResponse)
  | tool (answer : Except ToolError Json)

def response? : Event → Option Response
  | ⟨.reason _, answer⟩ => some (.reason answer)
  | ⟨.summarize _, answer⟩ => some (.summarize answer)
  | ⟨.executeWithTimeout _ _ _, answer⟩ => some (.tool answer)
  | _ => none

def responses (h : Trace) : List Response := h.filterMap response?

/-- The call that is waiting and the calls that were made, after one more response: a tool has
answered the call that was waiting. -/
def readResponse (seen : Option (String × Json) × List (String × Json)) :
    Response → Option (String × Json) × List (String × Json)
  | .reason (.ok response) =>
    (if response.isFinal = false ∧ response.action.getD "" ≠ "" then
      some (response.action.getD "", response.actionInput) else none, seen.2)
  | .reason (.error _) | .summarize _ => (none, seen.2)
  | .tool _ => (none, seen.2 ++ seen.1.toList)

def readResponses (rs : List Response) : Option (String × Json) × List (String × Json) :=
  rs.foldl readResponse (none, [])

theorem responses_concat (h : Trace) (e : Event) :
    readResponses (responses (h ++ [e])) =
      (response? e).toList.foldl readResponse (readResponses (responses h)) := by
  rw [responses, List.filterMap_append, readResponses, List.foldl_append, readResponses, responses]
  cases he : response? e <;> simp [he]

variable [SerdeJson]

/-- The responses of a run determine its calls. -/
theorem readResponses_responses {q : Plan TaskResult}
    (hr : Prog.Reaches (raced hs ex goal) h q) :
    readResponses (responses h) = (requested h, calls h) := by
  induction h using List.reverseRecOn generalizing q with
  | nil => rfl
  | append_singleton h e ih =>
    obtain ⟨k, hk⟩ := hr.pending
    rw [responses_concat, ih hk, requested_concat, calls_concat]
    obtain ⟨c, answer⟩ := e
    cases issues_of_pending ⟨k, hk⟩ with
    | iteration _ hid | elapsed _ hid | insert _ hid =>
      simp [response?, dispatch?, hid, Event.request]
    | pushed _ => simp [response?, dispatch?]
    | reason _ hid =>
      cases answer <;> simp [response?, readResponse, dispatch?, Event.request]
    | summarize _ hid => simp [response?, readResponse, dispatch?, Event.request]
    | dispatch _ hreq _ =>
      cases answer <;>
        simp [response?, readResponse, dispatch?, Event.request, hreq, stepOf, TaskStep.succeeded,
          TaskStep.failure]

omit [SerdeJson] in
/-- The pushes of an executor that settles are neither responses nor calls. -/
theorem filterMap_append_pushes {β : Type} {f : Event → Option β}
    (hf : ∀ stm msg, f ⟨.pushed stm msg, ()⟩ = none) {t : Trace}
    (ht : ∀ e ∈ t, ∃ stm msg, e = ⟨.pushed stm msg, ()⟩) :
    (h ++ t).filterMap f = h.filterMap f := by
  have hnil : t.filterMap f = [] := by
    rw [List.filterMap_eq_nil_iff]
    intro e he
    obtain ⟨stm, msg, rfl⟩ := ht e he
    exact hf stm msg
  rw [List.filterMap_append, hnil, List.append_nil]

omit [SerdeJson] in
theorem responses_append_pushes {t : Trace} (ht : ∀ e ∈ t, ∃ stm msg, e = ⟨.pushed stm msg, ()⟩) :
    responses (h ++ t) = responses h :=
  filterMap_append_pushes (fun _ _ => rfl) ht

omit [SerdeJson] in
theorem calls_append_pushes {t : Trace} (ht : ∀ e ∈ t, ∃ stm msg, e = ⟨.pushed stm msg, ()⟩) :
    calls (h ++ t) = calls h :=
  congrArg (List.map _) (filterMap_append_pushes (fun _ _ => rfl) ht)

/-! ## One branch -/

/-- A result but for the time it took. -/
def untimed (r : TaskResult) : TaskResult := { r with durationMs := 0 }

/-- With the same responses, `execute_parallel` on the one subtask returns what `execute` did, and
attempts the same inserts. -/
def Reproduced (hs : Hashing) (ex : PlanExecutor) (goal : String) (t : Trace)
    (cut : Option Command) (res : Except PlanError TaskResult) : Prop :=
  ∃ runs h out, Parallel.Run hs ex [goal] runs h out ∧ responses (runs 0).1 = responses t ∧
    out.map (·.map untimed) = res.map (fun r => [untimed r]) ∧
    attempted (runs 0).1 (runs 0).2 = attempted t cut

def BehavesAlike (hs : Hashing) (ex : PlanExecutor) (goal : String) : Prop :=
  ∀ t cut res, Executes hs ex goal t cut res → Reproduced hs ex goal t cut res

/-- A run of `execute` has a detector, or it is a panic. -/
theorem Executes.created {t : Trace} {cut : Option Command} {res : Except PlanError TaskResult}
    (he : Executes hs ex goal t cut res) :
    LoopDetector.fromConfig ex.loopDetectorConfig ≠ none := by
  intro hnone
  have hpanic : raced hs ex goal = .panic "capacity overflow" := by
    rw [raced, hnone]
  cases he with
  | finished hr =>
    rw [hpanic] at hr
    cases res <;> cases hr
  | deadline hp _ =>
    rw [hpanic] at hp
    obtain ⟨k, hk⟩ := hp
    cases hk
  | unpolled hld => exact hld hnone

/-- What a branch leaves behind makes no difference: the deadline reads the same, there is no log
that a run could reach, and the detectors agree wherever they are asked. -/
structure Carried (hs : Hashing) (ex : PlanExecutor) (goal : String) : Prop where
  deadline : ex.timeoutCtxConfig.taskTimeout % 2 ^ 64 = 300000
  log : ex.episodicLog = none ∨ ex.config.stmTokenBudget = 0
  verdicts : Agree hs ex (raced hs ex goal)

section OneBranch

variable {runs : Nat → Parallel.TaskTrace} {t : Trace} {cut : Option Command}
  {res : Except PlanError TaskResult}

theorem run_singleton {tail : Parallel.Trace} {out : Except PlanError (List TaskResult)}
    (hr : Parallel.Run hs ex [goal] runs tail out) :
    ∃ taskEnd, Parallel.TaskRun hs ex.branchExecutor goal (runs 0) taskEnd ∧
      out = (Parallel.unwrap taskEnd).map ([·]) := by
  obtain ⟨_, _, rfl, hjoin⟩ := Prog.returns_call.1 hr.returns
  obtain ⟨⟨i, taskEnd⟩, _, rfl, hrest⟩ := Prog.returns_call.1 hjoin
  obtain ⟨subtask, hsub, hrun⟩ := hr.branch (j := (i, taskEnd)) List.mem_cons_self
  have hi : i = 0 := Nat.lt_one_iff.1 (List.getElem?_eq_some_iff.1 hsub).1
  subst hi
  obtain rfl : goal = subtask := Option.some.inj hsub
  refine ⟨taskEnd, hrun, ?_⟩
  rcases taskEnd with msg | (e | r)
  · exact (Prog.returns_err.1 hrest).2
  · exact (Prog.returns_err.1 hrest).2
  · exact (Prog.returns_ret.1 hrest).2

theorem run_of_branch (hb : Executes hs ex.branchExecutor goal t cut res) :
    ∃ h, Parallel.Run hs ex [goal] (fun _ => (t, cut)) h (res.map ([·])) := by
  refine ⟨[⟨.spawn ex.branchExecutor goal, ()⟩, ⟨.joinNext, (0, .ok res)⟩], ?_, ?_⟩
  · refine Prog.returns_call.2 ⟨(), _, rfl, Prog.returns_call.2 ⟨_, _, rfl, ?_⟩⟩
    cases res with
    | error e => exact Prog.returns_err.2 ⟨rfl, rfl⟩
    | ok r => exact Prog.returns_ret.2 ⟨rfl, rfl⟩
  · refine ⟨List.nodup_singleton 0, ?_⟩
    intro j hj
    obtain rfl := List.mem_singleton.1 hj
    exact ⟨_, rfl, .returned hb⟩

theorem reproduced_of_branch (hb : Executes hs ex.branchExecutor goal t cut res) :
    Reproduced hs ex goal t cut res := by
  obtain ⟨h, hrun⟩ := run_of_branch hb
  refine ⟨_, h, _, hrun, rfl, ?_, rfl⟩
  cases res <;> rfl

/-- The failures of `execute` come back from its branch. -/
theorem Reproduced.failed {e : PlanError} (hr : Reproduced hs ex goal t cut (.error e))
    (hjoin : ∀ msg, e ≠ .joinError msg) :
    ∃ t' cut', Executes hs ex.branchExecutor goal t' cut' (.error e) ∧
      responses t' = responses t := by
  obtain ⟨runs, tail, out, hrun, hresp, hout, -⟩ := hr
  obtain ⟨taskEnd, htask, rfl⟩ := run_singleton hrun
  rcases taskEnd with msg | (e' | r)
  · cases hout
    exact absurd rfl (hjoin msg)
  · cases hout
    generalize hrun0 : runs 0 = run at htask hresp
    cases htask with
    | returned hb => exact ⟨_, _, hb, hresp⟩
  · cases hout

/-- An executor without a log inserts nothing. -/
theorem inserts_eq_nil {q : Plan TaskResult} (hlog : ex.episodicLog = none)
    (hr : Prog.Reaches (raced hs ex goal) h q) : inserts h = [] := by
  induction h using List.reverseRecOn generalizing q with
  | nil => rfl
  | append_singleton h e ih =>
    obtain ⟨k, hk⟩ := hr.pending
    refine inserts_concat_nil (ih hk) ?_
    obtain ⟨c, answer⟩ := e
    cases issues_of_pending ⟨k, hk⟩ with
    | insert _ _ hattached => exact absurd hlog hattached
    | iteration | pushed | elapsed | reason | summarize | dispatch => rfl

theorem branch_unlogged {run : Parallel.TaskTrace} {taskEnd : Parallel.TaskEnd}
    (ht : Parallel.TaskRun hs ex.branchExecutor goal run taskEnd) :
    attempted run.1 run.2 = [] := by
  have hlog : ex.branchExecutor.episodicLog = none := rfl
  cases ht with
  | panicked hends =>
    obtain ⟨m, hr⟩ := hends
    rw [attempted, inserts_eq_nil hlog hr]
    rfl
  | returned hb =>
    cases hb with
    | finished hr =>
      rw [attempted, inserts_eq_nil hlog hr]
      rfl
    | unpolled _ => rfl
    | deadline hp _ =>
      have hun := inserts_eq_nil hlog hp.choose_spec
      cases issues_of_pending hp with
      | insert _ _ hattached => exact absurd hlog hattached
      | iteration | pushed | elapsed | reason | summarize | dispatch =>
        rw [attempted, hun]
        rfl

theorem Reproduced.unlogged (hr : Reproduced hs ex goal t cut res) : attempted t cut = [] := by
  obtain ⟨runs, tail, out, hrun, -, -, hatt⟩ := hr
  obtain ⟨taskEnd, htask, -⟩ := run_singleton hrun
  exact hatt ▸ branch_unlogged htask

end OneBranch

theorem executes_timeout {t : Trace} {cut : Option Command} {level : String} {ms : Nat}
    (he : Executes hs ex goal t cut (.error (.timeout level ms))) :
    .timeout level ms = ex.deadline ∧ (t = [] ∨ ∃ c, cut = some c ∧ c.Awaits ∧
      Prog.Pending (raced hs ex goal) t c) := by
  generalize hres : (Except.error (.timeout level ms) : Except PlanError TaskResult) = res at he
  cases he with
  | finished hr =>
    subst hres
    cases exit_of_returns hr
  | deadline hp hawaits => exact ⟨Except.error.inj hres, .inr ⟨_, rfl, hawaits, hp⟩⟩
  | unpolled _ => exact ⟨Except.error.inj hres, .inl rfl⟩

theorem executes_loop {t : Trace} {cut : Option Command} {msg : String}
    (he : Executes hs ex goal t cut (.error (.loop msg))) :
    Prog.Returns (raced hs ex goal) t (.error (.loop msg)) := by
  generalize hres : (Except.error (.loop msg) : Except PlanError TaskResult) = res at he
  cases he with
  | finished hr => exact hres ▸ hr
  | deadline _ _ => cases hres
  | unpolled _ => cases hres

/-! ## Runs that reach the log -/

omit [SerdeJson] in
theorem finish_mayInsert (hlog : ex.episodicLog ≠ none) {outcome : Outcome}
    {answer : Option String} {iterations : Nat} {st : RunState} :
    (finish ex goal outcome answer iterations st).May fun c => ∃ ep, c = .insert ep := by
  refine .call (c := Command.elapsed) 0 ?_
  obtain ⟨log, hlog⟩ := Option.ne_none_iff_exists'.1 hlog
  unfold recordEpisode
  rw [hlog]
  exact .here ⟨_, rfl⟩

theorem raced_mayInsert (hld : LoopDetector.fromConfig ex.loopDetectorConfig ≠ none)
    (hlog : ex.episodicLog ≠ none) (hbudget : ex.config.stmTokenBudget ≠ 0) :
    (raced hs ex goal).May fun c => ∃ ep, c = .insert ep := by
  refine raced_may hld hbudget ?_
  intro stm ld _
  exact iterate_mayFinish fun _ _ _ _ => finish_mayInsert hlog

/-! ## When a branch behaves like its executor -/

theorem Carried.reproduced {t : Trace} {cut : Option Command} {res : Except PlanError TaskResult}
    (hc : Carried hs ex goal) (he : Executes hs ex goal t cut res) :
    Reproduced hs ex goal t cut res := by
  refine reproduced_of_branch ?_
  have hdeadline : ex.deadline = ex.branchExecutor.deadline :=
    congrArg (PlanError.timeout "task") hc.deadline
  have hraced := raced_branchExecutor he.created hc.log hc.verdicts
  cases he with
  | finished hr =>
    rw [hraced] at hr
    exact .finished hr
  | deadline hp hawaits =>
    rw [hraced] at hp
    rw [hdeadline]
    exact .deadline hp hawaits
  | unpolled _ =>
    rw [hdeadline]
    exact .unpolled (Option.some_ne_none _)

theorem deadline_of_behavesAlike (hld : LoopDetector.fromConfig ex.loopDetectorConfig ≠ none)
    (hb : BehavesAlike hs ex goal) : ex.timeoutCtxConfig.taskTimeout % 2 ^ 64 = 300000 := by
  obtain ⟨t, cut, hrun, -⟩ := (hb _ _ _ (.unpolled hld)).failed (by simp [deadline])
  exact (PlanError.timeout.inj (executes_timeout hrun).1).2

theorem log_of_behavesAlike (hld : LoopDetector.fromConfig ex.loopDetectorConfig ≠ none)
    (hb : BehavesAlike hs ex goal) :
    ex.episodicLog = none ∨ ex.config.stmTokenBudget = 0 := by
  by_contra hnot
  obtain ⟨hlog, hbudget⟩ := not_or.1 hnot
  have hmay : (raced hs ex goal).May _ := raced_mayInsert hld hlog hbudget
  obtain ⟨t, c, hp, ep, rfl⟩ := hmay
  have hun := (hb _ _ _ (.deadline hp trivial)).unlogged
  exact absurd hun (by simp [attempted, Command.episode?])

/-- A run that is cut when all its responses are in, the last of them asking for a call, is cut at
that call. -/
theorem not_looping_of_cut {t : Trace} {cut : Option Command} {call : String × Json}
    {cs : List (String × Json)} {level : String} {ms : Nat}
    (he : Executes hs ex goal t cut (.error (.timeout level ms)))
    (hread : readResponses (responses t) = (some call, cs)) :
    ¬Looping hs ex.loopDetectorConfig cs := by
  obtain ⟨-, rfl | ⟨c, -, hawaits, hp⟩⟩ := executes_timeout he
  · cases hread
  · rw [readResponses_responses hp.choose_spec, Prod.mk.injEq] at hread
    obtain ⟨hreq, rfl⟩ := hread
    cases issues_of_pending hp with
    | pushed _ => cases hawaits
    | dispatch _ _ hfree => exact hfree
    | iteration _ hid | elapsed _ hid | reason _ hid | summarize _ hid | insert _ hid =>
      rw [hid] at hreq
      cases hreq

theorem verdicts_of_behavesAlike (hb : BehavesAlike hs ex goal) :
    Agree hs ex (raced hs ex goal) := by
  intro h q hr hreq
  obtain ⟨⟨action, input⟩, hreq⟩ := Option.ne_none_iff_exists'.1 hreq
  have hread := readResponses_responses hr
  have hwp : Prog.wp (Issues hs ex) (Exit hs ex) q h := Prog.wp_reaches hr (wp_raced hs ex goal)
  obtain ⟨t, ht, ⟨-, msg, hm⟩ | ⟨hfree, hp⟩⟩ := settle hwp hreq
  · -- both stop here, with the verdicts as messages
    have hreturns : Prog.Returns (raced hs ex goal) (h ++ t) (.error (.loop msg)) := hr.trans hm
    obtain ⟨t', cut', hbranch, hresp⟩ := (hb _ _ _ (.finished hreturns)).failed (by simp)
    have hreturns' := executes_loop hbranch
    have hcalls : calls t' = calls h := by
      have hread' := readResponses_responses hreturns'
      rw [hresp, responses_append_pushes ht, hread] at hread'
      exact (congrArg Prod.snd hread').symm
    have hown := loopsAs_of_returns hreturns msg rfl
    have hdefault := loopsAs_of_returns hreturns' msg rfl
    rw [calls_append_pushes ht] at hown
    rw [hcalls] at hdefault
    exact hown.trans hdefault.symm
  · -- both dispatch the call, which can be cut there
    obtain ⟨k, hk⟩ := hp
    have hcut : Executes hs ex goal (h ++ t) _ (.error ex.deadline) :=
      .deadline ⟨k, hr.trans hk⟩ trivial
    obtain ⟨t', cut', hbranch, hresp⟩ := (hb _ _ _ hcut).failed (by simp [deadline])
    rw [responses_append_pushes ht] at hresp
    have hfree' := not_looping_of_cut hbranch (by rw [hresp, hread, hreq])
    rw [← verdict_isSome_iff, Option.not_isSome_iff_eq_none] at hfree hfree'
    exact hfree.trans hfree'.symm

end Branch

attribute [local instance] SerdeJson.plain

end Xola.PlanExecutor
