import Xola.Planning.Verify.Ledger
import Xola.Planning.Verify.Phases

/-!
# What every run of the executor owes

`Issues` says when each command is issued, `Exit` says what holds when the run ends, for each of its
ends. `Owes` is the assertion at each phase that establishes both for every run (`wp_raced`), and the
properties of runs are read off from it.
-/

namespace Xola.PlanExecutor

open Interaction

/-! ## Limits -/

/-- The work that a run has done stays within its limits, at every point and at every end. -/
structure Within (ex : PlanExecutor) (h : Trace) : Prop where
  iterations : (blocks h).length ≤ ex.config.maxIterations
  reasons_le : reasons h ≤
    ex.config.maxIterations + (max ex.config.replan.maxReplansPerTask 1 - 1)
  reasons_le_mul : reasons h ≤
    ex.config.maxIterations * max ex.config.replan.maxReplansPerStep 1
  dispatches_le : (dispatches h).length ≤ reasons h
  failed_le : failed h ≤ max ex.config.replan.maxReplansPerTask 1
  perStep : ∀ b ∈ blocks h, failed b ≤ max ex.config.replan.maxReplansPerStep 1
  summarizes_le : summarizes h ≤ ex.config.maxIterations

/-- A run that goes on is strictly below the replan limits. -/
structure Bounded (ex : PlanExecutor) (h : Trace) : Prop extends Within ex h where
  failed_lt : failed h < max ex.config.replan.maxReplansPerTask 1
  perStep_lt : ∀ b ∈ blocks h, failed b < max ex.config.replan.maxReplansPerStep 1

/-- A run whose iterations have not all succeeded, with nothing logged and no final answer yet. -/
structure Working (ex : PlanExecutor) (h : Trace) : Prop extends Bounded ex h where
  succeeded_lt : succeeded h < ex.config.maxIterations
  unlogged : inserts h = []
  unfinal : finalGiven h = false

/-! ## When commands are issued -/

inductive Issues [SerdeJson] (hs : Hashing) (ex : PlanExecutor) (h : Trace) : Command → Prop
  | iteration {i : Nat} (bounded : Bounded ex h) (idle : requested h = none) :
    Issues hs ex h (.iteration i)
  | pushed {stm : ShortTermMemory} {msg : Message} (bounded : Bounded ex h) :
    Issues hs ex h (.pushed stm msg)
  | elapsed (bounded : Bounded ex h) (idle : requested h = none) : Issues hs ex h .elapsed
  | reason {req : ReasonRequest} (working : Working ex h) (idle : requested h = none) :
    Issues hs ex h (.reason req)
  | summarize {req : SummarizeRequest} (working : Working ex h) (idle : requested h = none) :
    Issues hs ex h (.summarize req)
  | dispatch {action : String} {input : Json} (working : Working ex h)
      (requested : requested h = some (action, input))
      (free : ¬Looping hs ex.loopDetectorConfig (calls h)) :
    Issues hs ex h (.executeWithTimeout action input (ex.timeoutConfig.getTimeout action))
  | insert {ep : EpisodeInput} (bounded : Bounded ex h) (idle : requested h = none)
      (attached : ex.episodicLog ≠ none) (unlogged : inserts h = [])
      (outcome : ep.outcome = .success ∧ finalGiven h = true ∧
          succeeded h < ex.config.maxIterations ∨
        ep.outcome = .failure ∧ finalGiven h = false ∧
          succeeded h = ex.config.maxIterations) :
    Issues hs ex h (.insert ep)

/-! ## How runs end -/

/-- The episodes a run with the given outcome leaves behind. -/
def Logged (ex : PlanExecutor) (h : Trace) (outcome : Outcome) : Prop :=
  (inserts h).map EpisodeInput.outcome = if ex.episodicLog = none then [] else [outcome]

/-- A run that gives up in the middle of an iteration. -/
structure GivesUp (ex : PlanExecutor) (h : Trace) : Prop extends Within ex h where
  succeeded_lt : succeeded h < ex.config.maxIterations
  unlogged : inserts h = []
  unfinal : finalGiven h = false

/-- `answer` is the final answer of a `/reason` response of the run. -/
def FinalAnswered (h : Trace) (answer : Option String) : Prop :=
  ∃ request response, (⟨.reason request, .ok response⟩ : Event) ∈ h ∧
    response.isFinal = true ∧ response.finalAnswer = answer

/-- Where an IPC error of the run comes from: it was the answer to a call, or the model asked for
nothing. -/
inductive IpcCause (h : Trace) : IpcError → Prop
  | reason {request : ReasonRequest} {e : IpcError}
    (mem : (⟨.reason request, .error e⟩ : Event) ∈ h) : IpcCause h e
  | summarize {request : SummarizeRequest} {e : IpcError}
    (mem : (⟨.summarize request, .error e⟩ : Event) ∈ h) : IpcCause h e
  | empty {request : ReasonRequest} {response : ReasonResponse} {body : String}
    (mem : (⟨.reason request, .ok response⟩ : Event) ∈ h) (isFinal : response.isFinal = false)
    (action : response.action.getD "" = "") : IpcCause h (.serverError 0 body)

inductive Exit [SerdeJson] (hs : Hashing) (ex : PlanExecutor) (h : Trace) :
    Prog.Ending PlanError TaskResult → Prop
  /-- A final answer, from the loop or from a replan. -/
  | final {st : RunState} {i f : Nat} {answer : Option String} {ms : Int} (bounded : Bounded ex h)
      (ledger : Ledger hs ex h st (i + 1) i (i + 1) f) (idle : requested h = none)
      (given : finalGiven h = true) (logged : Logged ex h .success)
      (answered : FinalAnswered h answer) :
    Exit hs ex h (some (.ok ⟨.success, answer, st.steps, ms, i + 1, st.totalReplans⟩))
  | exhausted (bounded : Bounded ex h) (idle : requested h = none)
      (succeeded_eq : succeeded h = ex.config.maxIterations) (unfinal : finalGiven h = false)
      (logged : Logged ex h .failure) :
    Exit hs ex h (some (.error (.maxIterationsReached ex.config.maxIterations)))
  | perStep {f : Nat} {action : String} (givesUp : GivesUp ex h) (idle : requested h = none)
      (current : Current h (f + 1) (f + 1)) (below : f < max ex.config.replan.maxReplansPerStep 1)
      (reached : ex.config.replan.maxReplansPerStep ≤ f + 1) :
    Exit hs ex h (some (.error (.maxReplansPerStep (f + 1) action)))
  | perTask {n : Nat} (givesUp : GivesUp ex h) (idle : requested h = none)
      (failed_eq : failed h = n + 1) (reasons_eq : reasons h = (blocks h).length + n)
      (below : n < max ex.config.replan.maxReplansPerTask 1)
      (reached : ex.config.replan.maxReplansPerTask ≤ n + 1)
      (step_pos : 0 < ex.config.replan.maxReplansPerStep)
      (perStep_lt : ∀ b ∈ blocks h, failed b < ex.config.replan.maxReplansPerStep) :
    Exit hs ex h (some (.error (.maxReplansPerTask (n + 1))))
  | loop {msg : String} (working : Working ex h)
      (looping : Looping hs ex.loopDetectorConfig (calls h)) :
    Exit hs ex h (some (.error (.loop msg)))
  | ipc {e : IpcError} (working : Working ex h) (idle : requested h = none)
      (cause : IpcCause h e) :
    Exit hs ex h (some (.error (.ipc e)))
  | panic (bounded : Bounded ex h) (idle : requested h = none) : Exit hs ex h none

/-! ## Points of a run -/

/-- Inside iteration `i`, whose step has failed `f` times and asked the model `r` times. -/
structure Mid [SerdeJson] (hs : Hashing) (ex : PlanExecutor) (h : Trace) (st : RunState)
    (i asked f r : Nat) : Prop where
  ledger : Ledger hs ex h st (i + 1) i asked f
  current : Current h f r
  asked_eq : asked = i ∨ asked = i + 1
  lt : i < ex.config.maxIterations
  below : f < max ex.config.replan.maxReplansPerStep 1
  unlogged : inserts h = []

/-- Between iterations: `i` of them have succeeded. -/
structure Head [SerdeJson] (hs : Hashing) (ex : PlanExecutor) (h : Trace) (st : RunState)
    (i : Nat) : Prop where
  ledger : Ledger hs ex h st i i i 0
  le : i ≤ ex.config.maxIterations
  unlogged : inserts h = []
  unfinal : finalGiven h = false
  idle : requested h = none

/-- Nothing but a push may have happened between `h` and `h'`. -/
def AfterPush (h h' : Trace) : Prop := h' = h ∨ ∃ stm msg, h' = h ++ [⟨.pushed stm msg, ()⟩]

section Points

variable [SerdeJson] {hs : Hashing} {ex : PlanExecutor} {h h' : Trace} {st : RunState}
  {started done asked i f r : Nat}

theorem Ledger.bounded (hl : Ledger hs ex h st started done asked f)
    (hstarted : started ≤ ex.config.maxIterations) (hdone : done ≤ asked)
    (hasked : asked ≤ started)
    (htotal : done * (max ex.config.replan.maxReplansPerStep 1 - 1) + f ≤
      started * (max ex.config.replan.maxReplansPerStep 1 - 1)) : Bounded ex h := by
  have hreasons := hl.reasons_eq
  have htask := hl.perTask
  have hle := hl.total_le.trans htotal
  refine ⟨⟨by rw [hl.blocks_length]; exact hstarted, by omega, ?_, ?_, ?_, ?_, ?_⟩, ?_, hl.perStep⟩
  · calc reasons h ≤ started + started * (max ex.config.replan.maxReplansPerStep 1 - 1) := by omega
      _ = started * max ex.config.replan.maxReplansPerStep 1 := by
        rw [Nat.mul_sub_one, Nat.add_sub_cancel' (Nat.le_mul_of_pos_right _ (by omega))]
      _ ≤ _ := Nat.mul_le_mul_right _ hstarted
  · rw [dispatches_length, hl.succeeded_eq, hl.failed_eq]
    omega
  · rw [hl.failed_eq]
    omega
  · exact fun b hb => (hl.perStep b hb).le
  · exact hl.summarizes_le.trans hstarted
  · rw [hl.failed_eq]
    exact htask

/-- Inside iteration `i`, before or after its question to the model. -/
theorem Ledger.bounded_mid (hl : Ledger hs ex h st (i + 1) i asked f)
    (hasked : asked = i ∨ asked = i + 1) (hlt : i < ex.config.maxIterations)
    (hbelow : f < max ex.config.replan.maxReplansPerStep 1) : Bounded ex h := by
  refine hl.bounded hlt ?_ ?_ ?_
  · rcases hasked with h | h <;> omega
  · rcases hasked with h | h <;> omega
  · rw [Nat.succ_mul]
    omega

theorem Mid.bounded (hm : Mid hs ex h st i asked f r) : Bounded ex h :=
  hm.ledger.bounded_mid hm.asked_eq hm.lt hm.below

theorem Mid.working (hm : Mid hs ex h st i asked f r) (hu : finalGiven h = false) :
    Working ex h :=
  ⟨hm.bounded, by rw [hm.ledger.succeeded_eq]; exact hm.lt, hm.unlogged, hu⟩

theorem Head.bounded (hd : Head hs ex h st i) : Bounded ex h :=
  hd.ledger.bounded hd.le le_rfl le_rfl le_rfl

theorem Mid.stm (hm : Mid hs ex h st i asked f r) (stm : ShortTermMemory) :
    Mid hs ex h { st with stm } i asked f r :=
  ⟨hm.ledger.stm stm, hm.current, hm.asked_eq, hm.lt, hm.below, hm.unlogged⟩

theorem Mid.afterPush (hm : Mid hs ex h st i asked f r) (hp : AfterPush h h') :
    Mid hs ex h' st i asked f r := by
  obtain rfl | ⟨stm, msg, rfl⟩ := hp
  · exact hm
  · refine ⟨hm.ledger.pushed stm msg, hm.current.silent rfl rfl, hm.asked_eq, hm.lt, hm.below, ?_⟩
    exact inserts_concat_nil hm.unlogged rfl

omit [SerdeJson] in
theorem AfterPush.requested_eq (hp : AfterPush h h') : requested h' = requested h := by
  obtain rfl | ⟨stm, msg, rfl⟩ := hp
  · rfl
  · rw [requested_concat]

omit [SerdeJson] in
theorem AfterPush.finalGiven_eq (hp : AfterPush h h') : finalGiven h' = finalGiven h := by
  obtain rfl | ⟨stm, msg, rfl⟩ := hp
  · rfl
  · exact finalGiven_concat_of_not rfl

omit [SerdeJson] in
theorem FinalAnswered.mono {answer : Option String} (ha : FinalAnswered h answer)
    (hsub : h ⊆ h') : FinalAnswered h' answer := by
  obtain ⟨request, response, hmem, hfin, heq⟩ := ha
  exact ⟨request, response, hsub hmem, hfin, heq⟩

omit [SerdeJson] in
theorem IpcCause.mono {e : IpcError} (hc : IpcCause h e) (hsub : h ⊆ h') : IpcCause h' e := by
  cases hc with
  | reason hmem => exact .reason (hsub hmem)
  | summarize hmem => exact .summarize (hsub hmem)
  | empty hmem hfin hact => exact .empty (hsub hmem) hfin hact

omit [SerdeJson] in
theorem AfterPush.subset (hp : AfterPush h h') : h ⊆ h' := by
  obtain rfl | ⟨stm, msg, rfl⟩ := hp
  · exact List.Subset.refl _
  · exact List.subset_append_left _ _

theorem Head.afterPush (hd : Head hs ex h st i) (hp : AfterPush h h') (stm : ShortTermMemory) :
    Head hs ex h' { st with stm } i := by
  refine ⟨?_, hd.le, ?_, hp.finalGiven_eq ▸ hd.unfinal, hp.requested_eq ▸ hd.idle⟩
  · obtain rfl | ⟨stm', msg, rfl⟩ := hp
    · exact hd.ledger.stm stm
    · exact (hd.ledger.stm stm).pushed stm' msg
  · obtain rfl | ⟨stm', msg, rfl⟩ := hp
    · exact hd.unlogged
    · exact inserts_concat_nil hd.unlogged rfl

/-- The model is asked in the middle of an iteration. -/
theorem Mid.reason (hm : Mid hs ex h st i i f r) (req : ReasonRequest)
    (a : Except IpcError ReasonResponse) :
    Mid hs ex (h ++ [⟨.reason req, a⟩]) st i (i + 1) f (r + 1) := by
  refine ⟨hm.ledger.reason req a, hm.current.silent rfl rfl, .inr rfl, hm.lt, hm.below, ?_⟩
  exact inserts_concat_nil hm.unlogged rfl

/-- A new iteration begins; the buffer has not been summarised in it. -/
theorem Head.iteration (hd : Head hs ex h st i) (hi : i < ex.config.maxIterations) :
    Mid hs ex (h ++ [⟨.iteration i, ()⟩]) st i i 0 0 ∧
      summarizes (h ++ [⟨.iteration i, ()⟩]) < i + 1 := by
  refine ⟨⟨hd.ledger.iteration i, current_iteration h i, .inl rfl, hi, by omega, ?_⟩, ?_⟩
  · exact inserts_concat_nil hd.unlogged rfl
  · rw [summarizes_concat]
    exact Nat.lt_succ_of_le hd.ledger.summarizes_le

theorem Mid.summarize (hm : Mid hs ex h st i i f r) (hlt : summarizes h < i + 1)
    (req : SummarizeRequest) (a : Except IpcError SummarizeResponse) :
    Mid hs ex (h ++ [⟨.summarize req, a⟩]) st i i f r := by
  refine ⟨hm.ledger.summarize hlt req a, hm.current.silent rfl rfl, .inl rfl, hm.lt, hm.below, ?_⟩
  exact inserts_concat_nil hm.unlogged rfl

end Points

/-! ## What the model answers -/

section Answers

variable [SerdeJson] {hs : Hashing} {ex : PlanExecutor} {h : Trace} {st : RunState} {i f r : Nat}

/-- What the model's answer means for the run. -/
inductive Answered [SerdeJson] (hs : Hashing) (ex : PlanExecutor) (h : Trace) (st : RunState)
    (i f r : Nat) (response : ReasonResponse) : Prop
  | final (mid : Mid hs ex h st i (i + 1) f r) (isFinal : response.isFinal = true)
      (given : finalGiven h = true) (idle : requested h = none)
      (answered : FinalAnswered h response.finalAnswer)
  | empty (mid : Mid hs ex h st i (i + 1) f r) (isFinal : response.isFinal = false)
      (action : response.action.getD "" = "") (unfinal : finalGiven h = false)
      (idle : requested h = none) (cause : ∀ body, IpcCause h (.serverError 0 body))
  | acts (mid : Mid hs ex h st i (i + 1) f r) (isFinal : response.isFinal = false)
      (action : response.action.getD "" ≠ "") (unfinal : finalGiven h = false)
      (requested : requested h = some (response.action.getD "", response.actionInput))

theorem Answered.mid {response : ReasonResponse} (ha : Answered hs ex h st i f r response) :
    Mid hs ex h st i (i + 1) f r := by
  cases ha <;> assumption

theorem Answered.afterPush {h' : Trace} {response : ReasonResponse}
    (ha : Answered hs ex h st i f r response) (hp : AfterPush h h') (stm : ShortTermMemory) :
    Answered hs ex h' { st with stm } i f r response := by
  cases ha with
  | final hm hfin hg hid hans =>
    exact .final ((hm.stm stm).afterPush hp) hfin (hp.finalGiven_eq ▸ hg) (hp.requested_eq ▸ hid)
      (hans.mono hp.subset)
  | empty hm hfin hact hu hid hc =>
    exact .empty ((hm.stm stm).afterPush hp) hfin hact (hp.finalGiven_eq ▸ hu)
      (hp.requested_eq ▸ hid) fun body => (hc body).mono hp.subset
  | acts hm hfin hact hu hr =>
    exact .acts ((hm.stm stm).afterPush hp) hfin hact (hp.finalGiven_eq ▸ hu)
      (hp.requested_eq ▸ hr)

theorem Mid.answered (hm : Mid hs ex h st i i f r) (hu : finalGiven h = false)
    (request : ReasonRequest) (response : ReasonResponse) :
    Answered hs ex (h ++ [⟨.reason request, .ok response⟩]) st i f (r + 1) response := by
  have hmid := hm.reason request (.ok response)
  have hfin := finalGiven_concat h ⟨.reason request, .ok response⟩
  have hreq := requested_concat h ⟨.reason request, .ok response⟩
  rw [hu, Bool.false_or] at hfin
  dsimp only [Event.isFinal, Event.request] at hfin hreq
  cases hresp : response.isFinal with
  | true =>
    rw [hresp] at hfin hreq
    exact .final hmid hresp hfin hreq
      ⟨_, response, List.mem_append_right _ List.mem_cons_self, hresp, rfl⟩
  | false =>
    rw [hresp] at hfin hreq
    by_cases hact : response.action.getD "" = ""
    · exact .empty hmid hresp hact hfin (by rw [hreq, if_neg (by simp [hact])]) fun _ =>
        .empty (List.mem_append_right _ List.mem_cons_self) hresp hact
    · exact .acts hmid hresp hact hfin (by rw [hreq, if_pos ⟨rfl, hact⟩])

/-- The model cannot be reached. -/
theorem Mid.unanswered (hm : Mid hs ex h st i i f r) (hu : finalGiven h = false)
    (request : ReasonRequest) (e : IpcError) :
    Exit hs ex (h ++ [⟨.reason request, .error e⟩]) (some (.error (.ipc e))) := by
  have hmid := hm.reason request (.error e)
  refine .ipc (hmid.working ?_) (requested_concat _ _) ?_
  · exact (finalGiven_concat_of_not rfl).trans hu
  · exact .reason (List.mem_append_right _ List.mem_cons_self)

section Response

variable {response : ReasonResponse} (ha : Answered hs ex h st i f r response)

include ha

theorem Answered.of_final (hfin : response.isFinal = true) :
    Mid hs ex h st i (i + 1) f r ∧ finalGiven h = true ∧ requested h = none ∧
      FinalAnswered h response.finalAnswer := by
  cases ha with
  | final mid _ given idle answered => exact ⟨mid, given, idle, answered⟩
  | empty _ hnot | acts _ hnot => exact absurd (hfin.symm.trans hnot) (by simp)

theorem Answered.of_empty (hnot : response.isFinal = false) (hact : response.action.getD "" = "")
    (body : String) : Exit hs ex h (some (.error (emptyAction body))) := by
  cases ha with
  | final _ hfin => exact absurd (hfin.symm.trans hnot) (by simp)
  | empty mid _ _ unfinal idle cause => exact .ipc (mid.working unfinal) idle (cause body)
  | acts _ _ hne => exact absurd hact hne

theorem Answered.of_acts (hnot : response.isFinal = false) (hact : response.action.getD "" ≠ "") :
    Mid hs ex h st i (i + 1) f r ∧ finalGiven h = false ∧
      requested h = some (response.action.getD "", response.actionInput) := by
  cases ha with
  | final _ hfin => exact absurd (hfin.symm.trans hnot) (by simp)
  | empty _ _ hempty => exact absurd hempty hact
  | acts mid _ _ unfinal requested => exact ⟨mid, unfinal, requested⟩

end Response

/-! ## How a step ends -/

/-- How a step of the loop may end. -/
def StepDone (hs : Hashing) (ex : PlanExecutor) (i : Nat) (h : Trace) :
    Prog.Ending PlanError (StepOutcome × RunState) → Prop
  | some (.ok (.observation _, st)) => Head hs ex h st (i + 1)
  | some (.ok (.finalAnswer _ answer, st)) =>
    ∃ f r, Mid hs ex h st i (i + 1) f r ∧ finalGiven h = true ∧ requested h = none ∧
      FinalAnswered h answer
  | some (.error e) => Exit hs ex h (some (.error e))
  | none => Exit hs ex h none

section Failure

variable {action : String} {input : Json} {e : ToolError} {timeout : Nat}

/-- A failed call that does not exhaust an allowance leads to a replan. -/
theorem Mid.replan (hm : Mid hs ex h st i (i + 1) f (f + 1)) (hu : finalGiven h = false)
    (hstep : f + 1 < ex.config.replan.maxReplansPerStep)
    (htask : st.totalReplans + 1 < ex.config.replan.maxReplansPerTask) :
    Mid hs ex (h ++ [⟨.executeWithTimeout action input timeout, .error e⟩])
        ⟨st.stm, st.steps ++ [.failure action input e.toString], st.totalReplans + 1,
          st.loopDetector.record hs action input⟩ i i (f + 1) (f + 1) ∧
      finalGiven (h ++ [⟨.executeWithTimeout action input timeout, .error e⟩]) = false ∧
      requested (h ++ [⟨.executeWithTimeout action input timeout, .error e⟩]) = none := by
  refine ⟨⟨hm.ledger.failure hm.current (by omega) (by omega) action input e timeout,
    hm.current.failure action input e timeout, .inl rfl, hm.lt, by omega, ?_⟩, ?_, ?_⟩
  · exact inserts_concat_nil hm.unlogged rfl
  · exact (finalGiven_concat_of_not rfl).trans hu
  · exact requested_concat _ _

/-- What a failed call leaves behind when an allowance is exhausted. -/
theorem Mid.givesUp (hm : Mid hs ex h st i (i + 1) f (f + 1)) (hu : finalGiven h = false) :
    GivesUp ex (h ++ [⟨.executeWithTimeout action input timeout, .error e⟩]) := by
  have hb := hm.bounded
  have hfailed : failed (h ++ [⟨.executeWithTimeout action input timeout, .error e⟩]) =
      failed h + 1 := failed_concat _ _
  have hreasons : reasons (h ++ [⟨.executeWithTimeout action input timeout, .error e⟩]) =
      reasons h := reasons_concat _ _
  have hsucceeded : succeeded (h ++ [⟨.executeWithTimeout action input timeout, .error e⟩]) =
      succeeded h := succeeded_concat _ _
  have hblocks : blocks (h ++ [⟨.executeWithTimeout action input timeout, .error e⟩]) =
      (blocks h).modifyHead (· ++ [⟨.executeWithTimeout action input timeout, .error e⟩]) :=
    blocks_concat _ _
  refine ⟨⟨?_, ?_, ?_, ?_, ?_, ?_, ?_⟩, ?_, ?_, ?_⟩
  · rw [hblocks, List.length_modifyHead]
    exact hb.iterations
  · exact hreasons ▸ hb.reasons_le
  · exact hreasons ▸ hb.reasons_le_mul
  · rw [dispatches_length, hreasons, hsucceeded, hfailed, hm.ledger.succeeded_eq,
      hm.ledger.failed_eq, hm.ledger.reasons_eq]
    omega
  · rw [hfailed]
    exact hb.failed_lt
  · rw [hblocks]
    exact forall_mem_modifyHead hb.perStep_lt (fun b hlt => by rw [failed_concat]; exact hlt)
      fun _ => Nat.le_of_lt
  · rw [summarizes_concat]
    exact hb.summarizes_le
  · rw [hsucceeded, hm.ledger.succeeded_eq]
    exact hm.lt
  · exact inserts_concat_nil hm.unlogged rfl
  · exact (finalGiven_concat_of_not rfl).trans hu

theorem Mid.perStep (hm : Mid hs ex h st i (i + 1) f (f + 1)) (hu : finalGiven h = false)
    (hstep : ex.config.replan.maxReplansPerStep ≤ f + 1) :
    Exit hs ex (h ++ [⟨.executeWithTimeout action input timeout, .error e⟩])
      (some (.error (.maxReplansPerStep (f + 1) action))) :=
  .perStep (hm.givesUp hu) (requested_concat _ _) (hm.current.failure action input e timeout)
    hm.below hstep

theorem Mid.perTask (hm : Mid hs ex h st i (i + 1) f (f + 1)) (hu : finalGiven h = false)
    (hstep : f + 1 < ex.config.replan.maxReplansPerStep)
    (htask : ex.config.replan.maxReplansPerTask ≤ st.totalReplans + 1) :
    Exit hs ex (h ++ [⟨.executeWithTimeout action input timeout, .error e⟩])
      (some (.error (.maxReplansPerTask (st.totalReplans + 1)))) := by
  have hblocks : blocks (h ++ [⟨.executeWithTimeout action input timeout, .error e⟩]) =
      (blocks h).modifyHead (· ++ [⟨.executeWithTimeout action input timeout, .error e⟩]) :=
    blocks_concat _ _
  refine .perTask (hm.givesUp hu) (requested_concat _ _) ?_ ?_ hm.ledger.perTask htask
    (by omega) ?_
  · rw [failed_concat, hm.ledger.failed_eq]
    rfl
  · rw [hblocks, List.length_modifyHead, hm.ledger.blocks_length, reasons_concat,
      hm.ledger.reasons_eq]
    rfl
  · obtain ⟨b, bs, hb, hfb, -⟩ := hm.current
    rw [hblocks, hb, List.modifyHead_cons]
    intro b' hb'
    rcases List.mem_cons.1 hb' with rfl | hb'
    · rw [failed_concat, hfb]
      exact hstep
    · have := hm.ledger.perStep b' (by rw [hb]; exact List.mem_cons_of_mem _ hb')
      omega

end Failure

end Answers

/-! ## How a task ends -/

section Endings

variable [SerdeJson] {hs : Hashing} {ex : PlanExecutor} {h h' : Trace} {st : RunState} {f : Nat}
  {outcome : Outcome} {answer : Option String} {iterations : Nat}

/-- The outcome of the task is known. -/
inductive Concluded [SerdeJson] (hs : Hashing) (ex : PlanExecutor) (h : Trace) (st : RunState) :
    Outcome → Option String → Nat → Prop
  | final {i f r : Nat} {answer : Option String} (mid : Mid hs ex h st i (i + 1) f r)
      (given : finalGiven h = true) (idle : requested h = none)
      (answered : FinalAnswered h answer) : Concluded hs ex h st .success answer (i + 1)
  | exhausted (head : Head hs ex h st ex.config.maxIterations) :
    Concluded hs ex h st .failure none ex.config.maxIterations

/-- After the outcome is known, the clock is read and an episode may be recorded. -/
inductive Epilogue (h : Trace) : Trace → Prop
  | elapsed (ms : Nat) : Epilogue h (h ++ [⟨.elapsed, ms⟩])
  | inserted (ms : Nat) (ep : EpisodeInput) (a : Except String Unit) :
    Epilogue h (h ++ [⟨.elapsed, ms⟩] ++ [⟨.insert ep, a⟩])

section Epilogue

variable {h' : Trace} {started done asked : Nat}

theorem Epilogue.ledger (he : Epilogue h h') (hl : Ledger hs ex h st started done asked f) :
    Ledger hs ex h' st started done asked f := by
  cases he with
  | elapsed ms => exact hl.elapsed ms
  | inserted ms ep a => exact (hl.elapsed ms).insert ep a

omit [SerdeJson] in
theorem Epilogue.finalGiven_eq (he : Epilogue h h') : finalGiven h' = finalGiven h := by
  cases he with
  | elapsed ms => exact finalGiven_concat_of_not rfl
  | inserted ms ep a =>
    exact (finalGiven_concat_of_not rfl).trans (finalGiven_concat_of_not rfl)

omit [SerdeJson] in
theorem Epilogue.subset (he : Epilogue h h') : h ⊆ h' := by
  cases he with
  | elapsed ms => exact List.subset_append_left _ _
  | inserted ms ep a =>
    exact List.Subset.trans (List.subset_append_left _ _) (List.subset_append_left _ _)

omit [SerdeJson] in
theorem Epilogue.requested_eq (he : Epilogue h h') : requested h' = none := by
  cases he with
  | elapsed ms => exact requested_concat _ _
  | inserted ms ep a => exact requested_concat _ _

end Epilogue

namespace Concluded

variable (hc : Concluded hs ex h st outcome answer iterations)

include hc

theorem idle : requested h = none := by
  cases hc with
  | final _ _ idle => exact idle
  | exhausted head => exact head.idle

theorem unlogged : inserts h = [] := by
  cases hc with
  | final mid => exact mid.unlogged
  | exhausted head => exact head.unlogged

theorem bounded : Bounded ex h := by
  cases hc with
  | final mid => exact mid.bounded
  | exhausted head => exact head.bounded

theorem bounded_epilogue (he : Epilogue h h') : Bounded ex h' := by
  cases hc with
  | final mid => exact (he.ledger mid.ledger).bounded_mid mid.asked_eq mid.lt mid.below
  | exhausted head => exact (he.ledger head.ledger).bounded le_rfl le_rfl le_rfl le_rfl

/-- What an episode of the task says of it. -/
theorem outcome_or : outcome = .success ∧ finalGiven h = true ∧
      succeeded h < ex.config.maxIterations ∨
    outcome = .failure ∧ finalGiven h = false ∧ succeeded h = ex.config.maxIterations := by
  cases hc with
  | final mid given =>
    refine .inl ⟨rfl, given, ?_⟩
    rw [mid.ledger.succeeded_eq]
    exact mid.lt
  | exhausted head => exact .inr ⟨rfl, head.unfinal, head.ledger.succeeded_eq⟩

/-- Without an episodic log nothing is recorded. -/
theorem logged_elapsed (hlog : ex.episodicLog = none) (ms : Nat) :
    Logged ex (h ++ [⟨.elapsed, ms⟩]) outcome := by
  rw [Logged, inserts_concat_nil hc.unlogged rfl, if_pos hlog]
  rfl

theorem logged_inserted (hlog : ex.episodicLog ≠ none) (ms : Nat) {episode : EpisodeInput}
    (hepisode : episode.outcome = outcome) (stored : Except String Unit) :
    Logged ex (h ++ [⟨.elapsed, ms⟩] ++ [⟨.insert episode, stored⟩]) outcome := by
  have hunlogged : inserts (h ++ [⟨.elapsed, ms⟩]) = [] := inserts_concat_nil hc.unlogged rfl
  rw [Logged, inserts_concat, hunlogged, if_neg hlog, ← hepisode]
  rfl

end Concluded

/-- A task that has been concluded ends with its result. -/
theorem Concluded.returns {answer : Option String}
    (hc : Concluded hs ex h st .success answer iterations) (he : Epilogue h h')
    (hlog : Logged ex h' .success) (ms : Int) :
    Exit hs ex h'
      (some (.ok ⟨.success, answer, st.steps, ms, iterations, st.totalReplans⟩)) := by
  have hbounded := hc.bounded_epilogue he
  cases hc with
  | final mid given idle answered =>
    exact .final hbounded (he.ledger mid.ledger) he.requested_eq (he.finalGiven_eq.trans given)
      hlog (answered.mono he.subset)

theorem Concluded.reached (hc : Concluded hs ex h st .failure answer iterations)
    (he : Epilogue h h') (hlog : Logged ex h' .failure) :
    Exit hs ex h' (some (.error (.maxIterationsReached ex.config.maxIterations))) := by
  have hbounded := hc.bounded_epilogue he
  cases hc with
  | exhausted head =>
    exact .exhausted hbounded he.requested_eq (he.ledger head.ledger).succeeded_eq
      (he.finalGiven_eq.trans head.unfinal) hlog

end Endings

/-! ## The assertions of a run -/

/-- What is owed at each phase. -/
def Owes [SerdeJson] (hs : Hashing) (ex : PlanExecutor) : Phase → RunState → Trace → Prop
  | .goal, st, h => Head hs ex h st 0
  | .head i, st, h => Head hs ex h st i
  | .opened i, st, h =>
    Mid hs ex h st i i 0 0 ∧ summarizes h < i + 1 ∧ finalGiven h = false ∧ requested h = none
  | .asking i, st, h => Mid hs ex h st i i 0 0 ∧ finalGiven h = false ∧ requested h = none
  | .answered i response, st, h | .considered i response, st, h =>
    Answered hs ex h st i 0 1 response
  | .calling i f _ action input, st, h =>
    Mid hs ex h st i (i + 1) f (f + 1) ∧ finalGiven h = false ∧ requested h = some (action, input)
  | .failing i f _ _, st, h | .replanning i f _, st, h =>
    Mid hs ex h st i i f f ∧ finalGiven h = false ∧ requested h = none
  | .replanned i f _ response, st, h | .reconsidered i f _ response, st, h =>
    Answered hs ex h st i f (f + 1) response
  | .handed i _ outcome, st, h => StepDone hs ex i h (some (.ok (outcome, st)))
  | .closing outcome answer iterations, st, h => Concluded hs ex h st outcome answer iterations
  | .recording result, st, h =>
    ∃ h₀ ms, h = h₀ ++ [⟨.elapsed, ms⟩] ∧
      Concluded hs ex h₀ st result.outcome result.finalAnswer result.iterations ∧
      result.steps = st.steps ∧ result.totalReplans = st.totalReplans
  | .recorded result, st, h =>
    ∃ h₀, Epilogue h₀ h ∧ Logged ex h result.outcome ∧
      Concluded hs ex h₀ st result.outcome result.finalAnswer result.iterations ∧
      result.steps = st.steps ∧ result.totalReplans = st.totalReplans
  | .ended e, _, h => Exit hs ex h e

section Phases

variable {hs : Hashing} {ex : PlanExecutor} {goal : String} {h : Trace} {p p' : Phase}
  {st st' : RunState} {e : Event} {i f : Nat}

theorem afterPush_pushing (h : Trace) (st : RunState) (role : Role) (text : String) :
    AfterPush h (h ++ [pushing st role text]) :=
  .inr ⟨_, _, rfl⟩

variable [SerdeJson]

theorem Mid.pushed (hm : Mid hs ex h st i i f f) (hu : finalGiven h = false)
    (hid : requested h = none) (role : Role) (text : String) :
    Mid hs ex (h ++ [pushing st role text]) (st.pushed role text) i i f f ∧
      finalGiven (h ++ [pushing st role text]) = false ∧
      requested (h ++ [pushing st role text]) = none := by
  have hp := afterPush_pushing h st role text
  exact ⟨(hm.stm _).afterPush hp, hp.finalGiven_eq.trans hu, hp.requested_eq.trans hid⟩

theorem Mid.free (hm : Mid hs ex h st i (i + 1) f (f + 1))
    (hfree : st.loopDetector.isLooping hs = none) : ¬Looping hs ex.loopDetectorConfig (calls h) := by
  have hdet := hm.ledger.detects.isLooping_isSome_iff
  rw [hfree] at hdet
  intro hl
  exact absurd (hdet.2 hl) (by simp)

theorem owes_turn (ht : Turn hs ex st p p') (hp : Owes hs ex p st h) : Owes hs ex p' st h := by
  cases ht with
  | exhausted => exact .exhausted hp
  | fits =>
    obtain ⟨hm, -, hu, hid⟩ := hp
    exact ⟨hm, hu, hid⟩
  | thoughtless | rethoughtless => exact hp
  | final isFinal =>
    obtain ⟨hm, hg, hid, hans⟩ := Answered.of_final hp isFinal
    exact .final hm hg hid hans
  | empty body isFinal action | reempty body isFinal action =>
    exact Answered.of_empty hp isFinal action body
  | acts isFinal action | retries isFinal action => exact Answered.of_acts hp isFinal action
  | loop looping =>
    obtain ⟨hm, hu, -⟩ := hp
    have hdet := hm.ledger.detects.isLooping_isSome_iff
    rw [looping] at hdet
    exact .loop (hm.working hu) (hdet.1 rfl)
  | concedes isFinal => exact ⟨_, _, Answered.of_final hp isFinal⟩
  | unshown =>
    have hd : Head hs ex h st _ := hp
    exact .panic hd.bounded hd.idle
  | said =>
    obtain ⟨f, r, hm, hg, hid, hans⟩ := hp
    exact .final hm hg hid hans
  | unattached log =>
    obtain ⟨h₀, ms, rfl, hc, hsteps, hreplans⟩ := hp
    exact ⟨h₀, .elapsed ms, hc.logged_elapsed log ms, hc, hsteps, hreplans⟩
  | @returns result houtcome =>
    obtain ⟨h₀, he, hlog, hc, hsteps, hreplans⟩ := hp
    obtain ⟨outcome, answer, steps, ms, iterations, totalReplans⟩ := result
    obtain rfl : outcome = .success := houtcome
    obtain rfl : steps = st.steps := hsteps
    obtain rfl : totalReplans = st.totalReplans := hreplans
    exact hc.returns he hlog ms
  | reached houtcome =>
    obtain ⟨h₀, he, hlog, hc, -, -⟩ := hp
    rw [houtcome] at hc hlog
    exact hc.reached he hlog

theorem owes_step (hst : Step hs ex goal p st e p' st') (hp : Owes hs ex p st h) :
    Owes hs ex p' st' (h ++ [e]) := by
  cases hst with
  | goal => exact Head.afterPush hp (afterPush_pushing _ _ _ _) _
  | iteration lt =>
    have hd : Head hs ex h st _ := hp
    obtain ⟨hm, hsum⟩ := hd.iteration lt
    exact ⟨hm, hsum, (finalGiven_concat_of_not rfl).trans hd.unfinal, requested_concat _ _⟩
  | summarized response =>
    obtain ⟨hm, hsum, hu, -⟩ := hp
    exact ⟨(hm.summarize hsum _ _).stm _, (finalGiven_concat_of_not rfl).trans hu,
      requested_concat _ _⟩
  | unsummarized e =>
    obtain ⟨hm, hsum, hu, -⟩ := hp
    refine .ipc ((hm.summarize hsum _ _).working ?_) (requested_concat _ _) ?_
    · exact (finalGiven_concat_of_not rfl).trans hu
    · exact .summarize (List.mem_append_right _ List.mem_cons_self)
  | answered response | replanned response =>
    obtain ⟨hm, hu, -⟩ := hp
    exact hm.answered hu _ response
  | unanswered e | unreplanned e =>
    obtain ⟨hm, hu, -⟩ := hp
    exact hm.unanswered hu _ e
  | considered | reconsidered => exact Answered.afterPush hp (afterPush_pushing _ _ _ _) _
  | succeeded result =>
    obtain ⟨hm, hu, -⟩ := hp
    refine Head.mk (hm.ledger.success hm.below _ _ result _) hm.lt ?_ ?_ ?_
    · exact inserts_concat_nil hm.unlogged rfl
    · exact (finalGiven_concat_of_not rfl).trans hu
    · exact requested_concat _ _
  | perStep e _ reached =>
    obtain ⟨hm, hu, -⟩ := hp
    exact hm.perStep hu reached
  | perTask e _ below reached =>
    obtain ⟨hm, hu, -⟩ := hp
    exact hm.perTask hu below reached
  | failed e _ below belowTask =>
    obtain ⟨hm, hu, -⟩ := hp
    exact hm.replan hu below belowTask
  | told =>
    obtain ⟨hm, hu, hid⟩ := hp
    exact hm.pushed hu hid _ _
  | observed => exact Head.afterPush hp (afterPush_pushing _ _ _ _) _
  | @repeated _ _ thought =>
    obtain ⟨f, r, hm, hg, hid, hans⟩ := hp
    have hafter := afterPush_pushing h st .assistant thought
    exact .final ((hm.stm _).afterPush hafter) (hafter.finalGiven_eq.trans hg)
      (hafter.requested_eq.trans hid) (hans.mono hafter.subset)
  | elapsed ms => exact ⟨h, ms, rfl, hp, rfl, rfl⟩
  | inserted stored attached =>
    obtain ⟨h₀, ms, rfl, hc, hsteps, hreplans⟩ := hp
    exact ⟨h₀, .inserted ms _ stored, hc.logged_inserted attached ms rfl stored, hc, hsteps,
      hreplans⟩

theorem owes_asks (hst : Step hs ex goal p st e p' st') (hp : Owes hs ex p st h) :
    Issues hs ex h e.1 := by
  cases hst with
  | goal | observed => exact .pushed (Head.bounded hp)
  | iteration =>
    have hd : Head hs ex h st _ := hp
    exact .iteration hd.bounded hd.idle
  | summarized | unsummarized =>
    obtain ⟨hm, -, hu, hid⟩ := hp
    exact .summarize (hm.working hu) hid
  | answered | unanswered | replanned | unreplanned =>
    obtain ⟨hm, hu, hid⟩ := hp
    exact .reason (hm.working hu) hid
  | considered | reconsidered => exact .pushed (Answered.mid hp).bounded
  | succeeded _ free | perStep _ free | perTask _ free | failed _ free =>
    obtain ⟨hm, hu, hr⟩ := hp
    exact .dispatch (hm.working hu) hr (hm.free free)
  | told => exact .pushed hp.1.bounded
  | repeated =>
    obtain ⟨f, r, hm, -⟩ := hp
    exact .pushed hm.bounded
  | elapsed => exact .elapsed (Concluded.bounded hp) (Concluded.idle hp)
  | inserted stored attached =>
    obtain ⟨h₀, ms, rfl, hc, -, -⟩ := hp
    refine .insert (hc.bounded_epilogue (.elapsed ms)) (requested_concat _ _) attached
      (inserts_concat_nil hc.unlogged rfl) ?_
    have hfin : finalGiven (h₀ ++ [⟨.elapsed, ms⟩]) = finalGiven h₀ := finalGiven_concat_of_not rfl
    have hsucc : succeeded (h₀ ++ [⟨.elapsed, ms⟩]) = succeeded h₀ := succeeded_concat _ _
    rw [hfin, hsucc]
    exact hc.outcome_or

end Phases

/-! ## The whole run -/

section Run

variable (hs : Hashing) (ex : PlanExecutor) (goal : String)

theorem bounded_nil : Bounded ex [] := by
  have htask : 0 < max ex.config.replan.maxReplansPerTask 1 := by omega
  refine ⟨⟨?_, ?_, ?_, ?_, ?_, ?_, ?_⟩, ?_, ?_⟩ <;>
    simp [blocks, reasons, dispatches, failed, summarizes, htask]

variable [SerdeJson]

theorem annotates_owes : Annotates hs ex goal (Owes hs ex) (Issues hs ex) (Exit hs ex) where
  refused := .panic (bounded_nil ex) rfl
  start _ hld := by
    refine ⟨⟨rfl, rfl, rfl, rfl, rfl, by dsimp only; omega, ?_, Nat.zero_le _, Nat.zero_le _,
      detects_fromConfig hld⟩, Nat.zero_le _, rfl, rfl, rfl⟩
    simp [blocks]
  turn := owes_turn
  step := owes_step
  asks := owes_asks
  ends he := he

/-- **Every run meets its obligations.** -/
theorem wp_raced : Prog.wp (Issues hs ex) (Exit hs ex) (raced hs ex goal) [] :=
  (annotates_owes hs ex goal).wp_raced

variable {hs ex goal} {h : Trace} {res : Except PlanError TaskResult}

theorem exit_of_returns (hr : Prog.Returns (raced hs ex goal) h res) : Exit hs ex h (some res) :=
  Prog.wp_ends (wp_raced hs ex goal) hr.ends

theorem issues_of_pending {c : Command} (hp : Prog.Pending (raced hs ex goal) h c) :
    Issues hs ex h c :=
  Prog.wp_pending (wp_raced hs ex goal) hp

theorem Issues.bounded {c : Command} (hi : Issues hs ex h c) : Bounded ex h := by
  cases hi with
  | iteration hb | pushed hb | elapsed hb | insert hb => exact hb
  | reason hw | summarize hw | dispatch hw => exact hw.toBounded

theorem Exit.within {e : Prog.Ending PlanError TaskResult} (he : Exit hs ex h e) :
    Within ex h := by
  cases he with
  | final hb | exhausted hb | panic hb => exact hb.toWithin
  | perStep hg | perTask hg => exact hg.toWithin
  | loop hw | ipc hw => exact hw.toWithin

/-- What is left of the limits at every point of every run. -/
theorem within_of_reaches {q : Plan TaskResult} (hr : Prog.Reaches (raced hs ex goal) h q) :
    Within ex h := by
  rcases Prog.wp_reached (wp_raced hs ex goal) hr with ⟨c, hc⟩ | ⟨e, he⟩
  · exact hc.bounded.toWithin
  · exact he.within

end Run

end Xola.PlanExecutor
