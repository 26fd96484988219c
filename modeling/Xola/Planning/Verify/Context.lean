import Xola.Memory.Verify.EvictionSuffix
import Xola.Planning.Verify.Phases

/-!
# What the model is asked about

A run works on short-term memory by pushes and summaries only, and every call to `/reason` carries the
buffer as it is then. So what the model sees at any point of a run is fixed by what has entered memory
since the last summary: the longest end of it that fits the budget. A call never follows a message of
the model's own. It is made after the goal, an observation, the text of a failure, or a summary.
-/

namespace Xola

namespace ShortTermMemory

/-- The operation leaves a message of somebody else than the model at the end of the buffer. -/
def Op.Prompts : Op → Prop
  | .push msg | .replaceWithSummary msg => msg.role ≠ .assistant
  | .clear => False

/-- `msgs` is what is shown of the messages `kept`: the longest end of them that fits the budget, or
the last message alone when it does not. That one does not come from the model. -/
def Shows (maxTokens : Nat) (kept msgs : List Message) : Prop :=
  ∃ before last, kept = before ++ [last] ∧ last.role ≠ .assistant ∧
    (last.tokenCount ≤ maxTokens → List.IsLongestSuffix (Fits maxTokens) kept msgs) ∧
    (maxTokens < last.tokenCount → msgs = [last])

theorem isLongestSuffix_singleton {maxTokens : Nat} {msg : Message}
    (hfit : msg.tokenCount ≤ maxTokens) :
    List.IsLongestSuffix (Fits maxTokens) [msg] [msg] :=
  ⟨List.suffix_rfl, by simpa [Fits] using hfit, fun _ hu _ => hu.length_le⟩

theorem shows_run {maxTokens : Nat} (hmax : maxTokens < 2 ^ 63) {stm : ShortTermMemory}
    (hnew : new maxTokens = some stm) {before : List Op} {op : Op} (hprompts : op.Prompts)
    (hops : ∀ o ∈ before ++ [op], o.incoming < 2 ^ 63) :
    Shows maxTokens (retained (before ++ [op])) (stm.run (before ++ [op])).messages := by
  have hbefore := retains_run hmax hnew fun o ho => hops o (List.mem_append_left _ ho)
  have hafter := retains_run hmax hnew hops
  have hrun : stm.run (before ++ [op]) = (stm.run before).apply op := by
    simp [run]
  cases op with
  | clear => exact hprompts.elim
  | replaceWithSummary summary =>
    rw [hrun, retained_replaceWithSummary]
    exact ⟨[], summary, rfl, hprompts, isLongestSuffix_singleton, fun _ => rfl⟩
  | push msg =>
    have hmsg : msg.tokenCount < 2 ^ 63 := hops (.push msg) (by simp)
    refine ⟨retained before, msg, retained_push before msg, hprompts, ?_, ?_⟩
    · intro hfit
      have hfits : Fits maxTokens (stm.run (before ++ [.push msg])).messages := by
        rw [hrun]
        exact hbefore.push_fits hmsg hfit
      exact ⟨hafter.suffix, hfits, fun t ht ht' => (hafter.covers t ht ht').length_le⟩
    · intro hbig
      rw [hrun]
      exact hbefore.push_oversized hmsg hbig

end ShortTermMemory

namespace PlanExecutor

open Interaction
open ShortTermMemory (Op Shows retained run)

variable {hs : Hashing} {ex : PlanExecutor} {goal : String} {h : Trace}

/-! ## Memory along a run -/

/-- What an exchange does to short-term memory. -/
def memoryOp? : Event → Option Op
  | ⟨.pushed _ msg, _⟩ => some (.push msg)
  | ⟨.summarize _, .ok response⟩ =>
    some (.replaceWithSummary ⟨.system, response.summary, response.tokenCount.toNat⟩)
  | _ => none

def memoryOps (h : Trace) : List Op := h.filterMap memoryOp?

theorem memoryOps_concat (h : Trace) (e : Event) :
    memoryOps (h ++ [e]) = memoryOps h ++ (memoryOp? e).toList := by
  rw [memoryOps, List.filterMap_append, memoryOps]
  cases he : memoryOp? e <;> simp [he]

/-- The buffer that the operations of the run have made of a new one. -/
def Remembers (ex : PlanExecutor) (h : Trace) (stm : ShortTermMemory) : Prop :=
  ∃ stm₀, ShortTermMemory.new ex.config.stmTokenBudget = some stm₀ ∧ stm = stm₀.run (memoryOps h)

/-- What came in last is not from the model. -/
def Prompted (h : Trace) : Prop := ∃ before op, memoryOps h = before ++ [op] ∧ op.Prompts

/-- The guarantee of a run: pushes and requests are made with the buffer of its operations. -/
def FromMemory (ex : PlanExecutor) (goal : String) (h : Trace) : Command → Prop
  | .pushed stm _ => Remembers ex h stm
  | .summarize request => ∃ stm, Remembers ex h stm ∧ request = summarizeRequest stm
  | .reason request =>
    Prompted h ∧ ∃ stm, Remembers ex h stm ∧
      request = buildReasonRequest stm ex.registry goal (queryMemoryContext goal)
  | _ => True

/-- The assertion: the buffer is that of the operations, and a prompt where the model is asked. -/
def RemembersAt (ex : PlanExecutor) : Phase → RunState → Trace → Prop
  | .head _, st, h | .opened _, st, h | .asking _, st, h | .replanning _ _ _, st, h =>
    Remembers ex h st.stm ∧ Prompted h
  | .ended _, _, _ => True
  | _, st, h => Remembers ex h st.stm

section Phases

variable {p p' : Phase} {st st' : RunState} {e : Event}

theorem Remembers.silent {stm : ShortTermMemory} (hr : Remembers ex h stm)
    (he : memoryOp? e = none) : Remembers ex (h ++ [e]) stm := by
  obtain ⟨stm₀, hnew, rfl⟩ := hr
  refine ⟨stm₀, hnew, ?_⟩
  rw [memoryOps_concat, he, Option.toList_none, List.append_nil]

theorem Remembers.applied {stm : ShortTermMemory} (hr : Remembers ex h stm) {op : Op}
    (he : memoryOp? e = some op) : Remembers ex (h ++ [e]) (stm.apply op) := by
  obtain ⟨stm₀, hnew, rfl⟩ := hr
  refine ⟨stm₀, hnew, ?_⟩
  rw [memoryOps_concat, he, Option.toList_some, run, run, List.foldl_append]
  rfl

theorem Remembers.pushed (hr : Remembers ex h st.stm) (role : Role) (text : String) :
    Remembers ex (h ++ [pushing st role text]) (st.pushed role text).stm := by
  have hop : memoryOp? (pushing st role text) = some (.push (message role text)) := rfl
  exact hr.applied hop

theorem Prompted.silent (hp : Prompted h) (he : memoryOp? e = none) : Prompted (h ++ [e]) := by
  obtain ⟨before, op, heq, hop⟩ := hp
  refine ⟨before, op, ?_, hop⟩
  rw [memoryOps_concat, he, Option.toList_none, List.append_nil, heq]

theorem prompted_concat {op : Op} (he : memoryOp? e = some op) (hop : op.Prompts) :
    Prompted (h ++ [e]) :=
  ⟨memoryOps h, op, by rw [memoryOps_concat, he, Option.toList_some], hop⟩

variable [SerdeJson]

theorem remembersAt_turn (ht : Turn hs ex st p p') (hp : RemembersAt ex p st h) :
    RemembersAt ex p' st h := by
  cases ht with
  | exhausted => exact hp.1
  | fits | thoughtless | acts | rethoughtless | concedes | retries | final | said | unattached =>
    exact hp
  | empty | loop | reempty | unshown | returns | reached => trivial

theorem remembersAt_step (hst : Step hs ex goal p st e p' st') (hp : RemembersAt ex p st h) :
    RemembersAt ex p' st' (h ++ [e]) := by
  cases hst with
  | goal | told | observed => exact ⟨Remembers.pushed hp _ _, prompted_concat rfl nofun⟩
  | iteration => exact ⟨hp.1.silent rfl, hp.2.silent rfl⟩
  | summarized response =>
    have happlied := hp.1.applied (e := ⟨.summarize (summarizeRequest st.stm), .ok response⟩) rfl
    exact ⟨happlied, prompted_concat rfl nofun⟩
  | answered | replanned => exact hp.1.silent rfl
  | considered | reconsidered | repeated => exact Remembers.pushed hp _ _
  | succeeded | failed | elapsed | inserted => exact Remembers.silent hp rfl
  | unsummarized | unanswered | perStep | perTask | unreplanned => trivial

theorem remembersAt_asks (hst : Step hs ex goal p st e p' st') (hp : RemembersAt ex p st h) :
    FromMemory ex goal h e.1 := by
  cases hst with
  | goal | considered | told | reconsidered | observed | repeated => exact hp
  | summarized | unsummarized => exact ⟨st.stm, hp.1, rfl⟩
  | answered | unanswered | replanned | unreplanned => exact ⟨hp.2, st.stm, hp.1, rfl⟩
  | iteration | succeeded | perStep | perTask | failed | elapsed | inserted => trivial

theorem annotates_remembersAt :
    Annotates hs ex goal (RemembersAt ex) (FromMemory ex goal) (fun _ _ => True) where
  refused := trivial
  start hnew _ := ⟨_, hnew, rfl⟩
  turn := remembersAt_turn
  step := remembersAt_step
  asks := remembersAt_asks
  ends _ := trivial

end Phases

/-! ## Requests -/

/-- No message that has entered memory is larger than a string of the program can be. -/
def Sized (h : Trace) : Prop :=
  ∀ stm msg, (⟨.pushed stm msg, ()⟩ : Event) ∈ h → msg.tokenCount < 2 ^ 63

theorem Sized.incoming (hs : Sized h) : ∀ op ∈ memoryOps h, op.incoming < 2 ^ 63 := by
  intro op hop
  obtain ⟨⟨c, a⟩, hmem, he⟩ := List.mem_filterMap.mp hop
  cases c with
  | pushed stm msg =>
    cases he
    exact hs stm msg hmem
  | summarize request =>
    cases a with
    | ok response =>
      cases he
      have hlt := response.tokenCount.toNat_lt
      simp only [Op.incoming]
      omega
    | error e => cases he
  | iteration | reason | executeWithTimeout | elapsed | insert => cases he

/-- A request to `/reason` shows the end of what has entered memory since the last summary. -/
theorem shows_of_pending [SerdeJson] (hbudget : ex.config.stmTokenBudget < 2 ^ 63) (hsized : Sized h)
    {request : ReasonRequest} (hp : Prog.Pending (raced hs ex goal) h (.reason request)) :
    ∃ stm, request = buildReasonRequest stm ex.registry goal (queryMemoryContext goal) ∧
      Shows ex.config.stmTokenBudget (retained (memoryOps h)) stm.messages := by
  obtain ⟨⟨before, op, heq, hop⟩, stm, ⟨stm₀, hnew, rfl⟩, rfl⟩ :=
    Prog.wp_pending annotates_remembersAt.wp_raced hp
  refine ⟨_, rfl, ?_⟩
  have hincoming := hsized.incoming
  rw [heq] at hincoming ⊢
  exact ShortTermMemory.shows_run hbudget hnew hop hincoming

end PlanExecutor

end Xola
