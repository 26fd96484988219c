import Xola.Planning.Executor

/-!
# What a run can come to

Whatever its limits are, a run that gets as far as an iteration is free to ask the model, and the
model is free to answer: with a final answer, or with a call that is then dispatched.
-/

namespace Xola.PlanExecutor

open Interaction

variable {hs : Hashing} {ex : PlanExecutor} {goal : String} {memoryContext : List String}
  {P : Command → Prop} {remaining i : Nat} {st : RunState}

theorem summarizeIfNeeded_may {stm : ShortTermMemory} {k : ShortTermMemory → Plan TaskResult}
    (hk : ∀ stm', (k stm').May P) : (summarizeIfNeeded stm >>= k).May P := by
  unfold summarizeIfNeeded
  split
  · exact .call (c := Command.summarize _) (.ok ⟨"", 0⟩) (hk _)
  · exact hk _

theorem callReason_may {stm : ShortTermMemory} {k : ReasonResponse → Plan TaskResult}
    (response : ReasonResponse) (hk : (k response).May P) :
    (callReason ex stm goal memoryContext >>= k).May P :=
  .call (c := Command.reason _) (.ok response) hk

variable [SerdeJson]

/-- The model is asked at least once. -/
theorem iterate_mayReason (hP : ∀ request, P (.reason request)) :
    (iterate hs ex goal memoryContext (remaining + 1) i st).May P := by
  rw [iterate]
  simp only [Prog.perform, Prog.call_bind, Prog.ret_bind]
  refine .call (c := Command.iteration i) () (summarizeIfNeeded_may ?_)
  intro stm
  exact .here (hP _)

/-- A call that the model asks for is dispatched, if there is no loop yet. -/
theorem iterate_mayDispatch {action : String} (haction : action ≠ "")
    (hfree : st.loopDetector.isLooping hs = none)
    (hP : P (.executeWithTimeout action .null (ex.timeoutConfig.getTimeout action))) :
    (iterate hs ex goal memoryContext (remaining + 1) i st).May P := by
  rw [iterate]
  simp only [Prog.perform, Prog.call_bind, Prog.ret_bind]
  refine .call (c := Command.iteration i) () (summarizeIfNeeded_may ?_)
  intro stm
  refine callReason_may ⟨"", some action, .null, false, none⟩ ?_
  have hsilent : ∀ k : ShortTermMemory → Plan TaskResult, (pushThought stm "" >>= k) = k stm :=
    fun _ => rfl
  simp only [hsilent, Option.getD_some, if_neg haction, Bool.false_eq_true, if_false]
  refine .bind ?_ _
  rw [executeToolWithReplan, hfree]
  exact .here hP

/-- A final answer ends the loop at the first chance. -/
theorem iterate_mayFinish
    (hk : ∀ outcome answer iterations st,
      (finish ex goal outcome answer iterations st).May P) :
    (iterate hs ex goal memoryContext remaining i st).May P := by
  cases remaining with
  | zero =>
    rw [iterate]
    exact (hk _ _ _ _).bind _
  | succ remaining =>
    rw [iterate]
    simp only [Prog.perform, Prog.call_bind, Prog.ret_bind]
    refine .call (c := Command.iteration i) () (summarizeIfNeeded_may ?_)
    intro stm
    exact callReason_may ⟨"", none, .null, true, none⟩ (hk _ _ _ _)

theorem raced_may (hld : LoopDetector.fromConfig ex.loopDetectorConfig ≠ none)
    (hbudget : ex.config.stmTokenBudget ≠ 0)
    (hk : ∀ stm ld, LoopDetector.fromConfig ex.loopDetectorConfig = some ld →
      (iterate hs ex goal (queryMemoryContext goal) ex.config.maxIterations 0
        ⟨stm, [], 0, ld⟩).May P) :
    (raced hs ex goal).May P := by
  obtain ⟨ld, hld⟩ := Option.ne_none_iff_exists'.1 hld
  have hnew : ShortTermMemory.new ex.config.stmTokenBudget =
      some ⟨[], 0, ex.config.stmTokenBudget⟩ := if_pos (Nat.pos_of_ne_zero hbudget)
  rw [raced, hld]
  dsimp only
  rw [executeInner, hnew]
  exact .call (c := Command.pushed _ _) () (hk _ ld hld)

end Xola.PlanExecutor
