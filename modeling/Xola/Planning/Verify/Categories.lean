import Xola.Planning.Verify.LoopGuard

/-!
# What the category of an error says

`PlanError::category` looks at the error alone. For an error of `execute` it says what the run was
stopped by: the deadline, a request that was not answered as it should be, a repeated call, or a
limit. A tool that fails is never the category; it is what replans are for.
-/

namespace Xola.PlanExecutor

open Interaction

variable {hs : Hashing} {ex : PlanExecutor} {goal : String} {h : Trace} {e : Event}

/-! ## Requests that go wrong -/

/-- A response that neither ends the task nor asks for a call. -/
def Idle (response : ReasonResponse) : Prop :=
  response.isFinal = false ∧ response.action.getD "" = ""

/-- A request that failed, or that the model answered with nothing. -/
inductive Misfired : Event → Prop
  | reason (request : ReasonRequest) (e : IpcError) : Misfired ⟨.reason request, .error e⟩
  | summarize (request : SummarizeRequest) (e : IpcError) : Misfired ⟨.summarize request, .error e⟩
  | idle (request : ReasonRequest) {response : ReasonResponse} (idle : Idle response) :
    Misfired ⟨.reason request, .ok response⟩

/-- Nothing has gone wrong so far. -/
def Smooth (h : Trace) : Prop := ∀ e ∈ h, ¬Misfired e

theorem smooth_nil : Smooth [] := nofun

theorem smooth_concat_iff : Smooth (h ++ [e]) ↔ Smooth h ∧ ¬Misfired e := by
  rw [Smooth, List.forall_mem_append, List.forall_mem_singleton]
  rfl

theorem Smooth.concat (hsm : Smooth h) (he : ¬Misfired e) : Smooth (h ++ [e]) :=
  smooth_concat_iff.mpr ⟨hsm, he⟩

variable [SerdeJson]

/-- An IPC error is what a run that has gone wrong ends in, and no other. -/
def Blames (h : Trace) : Prog.Ending PlanError TaskResult → Prop
  | some (.error (.ipc _)) => ¬Smooth h
  | _ => Smooth h

/-- The assertion: nothing has gone wrong, but for the response that has just come. -/
def Runs : Phase → RunState → Trace → Prop
  | .answered _ response, _, h | .considered _ response, _, h | .replanned _ _ _ response, _, h
  | .reconsidered _ _ _ response, _, h => Smooth h ↔ ¬Idle response
  | .ended e, _, h => Blames h e
  | _, _, h => Smooth h

section Phases

variable {p p' : Phase} {st st' : RunState} {response : ReasonResponse}

omit [SerdeJson] in
theorem not_idle_of_isFinal (hf : response.isFinal = true) : ¬Idle response := by
  rintro ⟨hnot, -⟩
  rw [hf] at hnot
  cases hnot

theorem runs_turn (ht : Turn hs ex st p p') (hp : Runs p st h) : Runs p' st h := by
  cases ht with
  | final isFinal | concedes isFinal => exact hp.mpr (not_idle_of_isFinal isFinal)
  | acts _ action | retries _ action => exact hp.mpr fun hidle => action hidle.2
  | empty body isFinal action | reempty body isFinal action =>
    exact fun hsm => hp.mp hsm ⟨isFinal, action⟩
  | exhausted | fits | thoughtless | loop | rethoughtless | unshown | said | unattached | returns
  | reached => exact hp

theorem runs_step (hst : Step hs ex goal p st e p' st') (hp : Runs p st h) :
    Runs p' st' (h ++ [e]) := by
  cases hst with
  | answered response | replanned response =>
    constructor
    · exact fun hsm hidle => (smooth_concat_iff.mp hsm).2 (.idle _ hidle)
    · intro hnot
      refine hp.concat ?_
      rintro ⟨⟩
      contradiction
  | unanswered e | unreplanned e => exact fun hsm => (smooth_concat_iff.mp hsm).2 (.reason _ e)
  | unsummarized e => exact fun hsm => (smooth_concat_iff.mp hsm).2 (.summarize _ e)
  | @considered _ _ response | @reconsidered _ _ _ _ response =>
    have hsmooth : Smooth (h ++ [pushing st .assistant response.thought]) ↔ Smooth h :=
      smooth_concat_iff.trans (and_iff_left nofun)
    exact hsmooth.trans hp
  | goal | iteration | summarized | succeeded | perStep | perTask | failed | told | observed
  | repeated | elapsed | inserted => exact hp.concat nofun

theorem runs_asks (hst : Step hs ex goal p st e p' st') (hp : Runs p st h) :
    e.1.Awaits → Smooth h := by
  cases hst with
  | summarized | unsummarized | answered | unanswered | succeeded | perStep | perTask | failed
  | replanned | unreplanned | inserted => exact fun _ => hp
  | goal | iteration | considered | told | reconsidered | observed | repeated | elapsed => exact nofun

theorem annotates_runs :
    Annotates hs ex goal Runs (fun h c => c.Awaits → Smooth h) Blames where
  refused := smooth_nil
  start _ _ := smooth_nil
  turn := runs_turn
  step := runs_step
  asks := runs_asks
  ends hp := hp

/-! ## Loops -/

/-- A loop is what a run is stopped by while a call is asked for. -/
def Caught (h : Trace) : Prog.Ending PlanError TaskResult → Prop
  | some (.error (.loop _)) => requested h ≠ none
  | _ => True

/-- The assertion: what a response asks for is asked for until the call is made. -/
def Wants : Phase → RunState → Trace → Prop
  | .answered _ response, _, h | .considered _ response, _, h | .replanned _ _ _ response, _, h
  | .reconsidered _ _ _ response, _, h =>
    response.isFinal = false → response.action.getD "" ≠ "" →
      requested h = some (response.action.getD "", response.actionInput)
  | .calling _ _ _ action input, _, h => requested h = some (action, input)
  | .ended e, _, h => Caught h e
  | _, _, _ => True

theorem wants_turn (ht : Turn hs ex st p p') (hp : Wants p st h) : Wants p' st h := by
  cases ht with
  | acts isFinal action | retries isFinal action => exact hp isFinal action
  | loop =>
    have hwant : requested h = some _ := hp
    rw [Wants, Caught, hwant]
    exact Option.some_ne_none _
  | thoughtless | rethoughtless => exact hp
  | exhausted | fits | final | empty | concedes | reempty | unshown | said | unattached | returns
  | reached => trivial

theorem wants_step (hst : Step hs ex goal p st e p' st') (hp : Wants p st h) :
    Wants p' st' (h ++ [e]) := by
  cases hst with
  | answered | replanned => exact requested_reason
  | @considered _ _ response | @reconsidered _ _ _ _ response =>
    have hsame : requested (h ++ [pushing st .assistant response.thought]) = requested h :=
      requested_concat _ _
    intro isFinal action
    exact hsame.trans (hp isFinal action)
  | goal | iteration | summarized | unsummarized | unanswered | succeeded | perStep | perTask
  | failed | told | unreplanned | observed | repeated | elapsed | inserted => trivial

theorem annotates_wants : Annotates hs ex goal Wants (fun _ _ => True) Caught where
  refused := trivial
  start _ _ := trivial
  turn := wants_turn
  step := wants_step
  asks _ _ := trivial
  ends hp := hp

end Phases

/-! ## The categories -/

/-- The run has used up its iterations, the failures of a step, or those of the task. -/
def LimitReached (ex : PlanExecutor) (h : Trace) : Prop :=
  succeeded h = ex.config.maxIterations ∨
    (∃ b ∈ blocks h, max ex.config.replan.maxReplansPerStep 1 ≤ failed b) ∨
    max ex.config.replan.maxReplansPerTask 1 ≤ failed h

omit [SerdeJson] in
theorem Working.not_limitReached (hw : Working ex h) : ¬LimitReached ex h := by
  rintro (hsucceeded | ⟨b, hb, hfailed⟩ | hfailed)
  · exact absurd hsucceeded hw.succeeded_lt.ne
  · exact absurd hfailed (Nat.not_le.mpr (hw.perStep_lt b hb))
  · exact absurd hfailed (Nat.not_le.mpr hw.failed_lt)

/-- What stopped the run, for each category that an error of `execute` can have. -/
structure Explained (hs : Hashing) (ex : PlanExecutor) (goal : String) (h : Trace) (e : PlanError) :
    Prop where
  timeout : e.category = .timeout ↔ ¬Prog.Returns (raced hs ex goal) h (.error e)
  ipcFailure : e.category = .ipcFailure ↔ ∃ x ∈ h, Misfired x
  loop : e.category = .loop ↔ Prog.Returns (raced hs ex goal) h (.error e) ∧ requested h ≠ none
  resourceExhaustion : e.category = .resourceExhaustion ↔
    Prog.Returns (raced hs ex goal) h (.error e) ∧ LimitReached ex h
  only : e.category ∈ [.timeout, .ipcFailure, .loop, .resourceExhaustion]

omit [SerdeJson] in
theorem not_smooth_iff : ¬Smooth h ↔ ∃ x ∈ h, Misfired x := by
  simp [Smooth]

/-- A run that the deadline has cut. -/
theorem explained_of_cut (hsm : Smooth h)
    (hcut : ¬Prog.Returns (raced hs ex goal) h (.error ex.deadline)) :
    Explained hs ex goal h ex.deadline where
  timeout := iff_of_true rfl hcut
  ipcFailure := iff_of_false nofun fun hmis => not_smooth_iff.mpr hmis hsm
  loop := iff_of_false nofun fun hboth => hcut hboth.1
  resourceExhaustion := iff_of_false nofun fun hboth => hcut hboth.1
  only := by simp [deadline, PlanError.category]

theorem not_returns_deadline : ¬Prog.Returns (raced hs ex goal) h (.error ex.deadline) := by
  intro hr
  cases exit_of_returns hr

theorem explained_of_limit {e : PlanError} (hcategory : e.category = .resourceExhaustion)
    (hr : Prog.Returns (raced hs ex goal) h (.error e)) (hsm : Smooth h) (hidle : requested h = none)
    (hlimit : LimitReached ex h) : Explained hs ex goal h e where
  timeout := by simp [hcategory, hr]
  ipcFailure := iff_of_false (by simp [hcategory]) fun hmis => not_smooth_iff.mpr hmis hsm
  loop := by simp [hcategory, hidle]
  resourceExhaustion := iff_of_true hcategory ⟨hr, hlimit⟩
  only := by simp [hcategory]

/-- A run that has ended by itself. -/
theorem explained_of_returns {e : PlanError}
    (hr : Prog.Returns (raced hs ex goal) h (.error e)) : Explained hs ex goal h e := by
  have hblames : Blames h (some (.error e)) := Prog.wp_ends annotates_runs.wp_raced hr.ends
  have hcaught : Caught h (some (.error e)) := Prog.wp_ends annotates_wants.wp_raced hr.ends
  cases exit_of_returns hr with
  | exhausted _ idle succeeded_eq => exact explained_of_limit rfl hr hblames idle (.inl succeeded_eq)
  | perStep _ idle current _ reached =>
    obtain ⟨b, bs, hb, hfailed, -⟩ := current
    have hmem : b ∈ blocks h := by
      rw [hb]
      exact List.mem_cons_self
    exact explained_of_limit rfl hr hblames idle (.inr (.inl ⟨b, hmem, by omega⟩))
  | perTask _ idle failed_eq _ _ reached =>
    exact explained_of_limit rfl hr hblames idle (.inr (.inr (by omega)))
  | loop working =>
    exact {
      timeout := iff_of_false nofun (not_not_intro hr)
      ipcFailure := iff_of_false nofun fun hmis => not_smooth_iff.mpr hmis hblames
      loop := iff_of_true rfl ⟨hr, hcaught⟩
      resourceExhaustion := iff_of_false nofun fun hboth => working.not_limitReached hboth.2
      only := by simp [PlanError.category] }
  | ipc working idle =>
    exact {
      timeout := iff_of_false nofun (not_not_intro hr)
      ipcFailure := iff_of_true rfl (not_smooth_iff.mp hblames)
      loop := iff_of_false nofun fun hboth => hboth.2 idle
      resourceExhaustion := iff_of_false nofun fun hboth => working.not_limitReached hboth.2
      only := by simp [PlanError.category] }

theorem Explained.isStuck_eq {e : PlanError} (he : Explained hs ex goal h e) :
    e.isStuck = !e.isRetryable := by
  have honly := he.only
  simp only [List.mem_cons, List.not_mem_nil, or_false] at honly
  rcases honly with hc | hc | hc | hc <;> simp [PlanError.isStuck, PlanError.isRetryable, hc]

/-- **What the category of an error says.** Whatever error `execute` returns, its category says what
stopped the run, and the error is either worth a retry or a sign of being stuck. -/
theorem error_explained {cut : Option Command} {e : PlanError}
    (hx : Executes hs ex goal h cut (.error e)) :
    Explained hs ex goal h e ∧ e.isStuck = !e.isRetryable := by
  have he : Explained hs ex goal h e := by
    cases hx with
    | finished hr => exact explained_of_returns hr
    | deadline hp awaits =>
      exact explained_of_cut (Prog.wp_pending annotates_runs.wp_raced hp awaits) not_returns_deadline
    | unpolled => exact explained_of_cut smooth_nil not_returns_deadline
  exact ⟨he, he.isStuck_eq⟩

attribute [local instance] SerdeJson.plain

omit [SerdeJson] in
theorem error_explained_stubborn : ∃ h, LimitReached noTools h ∧ Smooth h ∧
    (PlanError.maxReplansPerStep 3 "search").isRetryable = false := by
  have hres : ((raced sameHash noTools "find").exec stubborn []).2 =
      some (.error (.maxReplansPerStep 3 "search")) := by decide +kernel
  obtain ⟨he, -⟩ := error_explained (.finished (Prog.exec_returns hres))
  have hfine := mt he.ipcFailure.mpr nofun
  exact ⟨_, (he.resourceExhaustion.mp rfl).2, not_not.mp (mt not_smooth_iff.mp hfine), rfl⟩

end Xola.PlanExecutor
