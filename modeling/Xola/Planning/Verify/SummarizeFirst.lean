import Xola.Planning.Verify.Accounting
import Xola.Planning.Verify.Phases

/-!
# Summarise before evict

The threshold is tested once in an iteration, at its top, and the messages of the iteration are
pushed after that. The first of them meets the buffer that was tested. What comes later meets a
buffer that has been filled since, by the messages before it or by the summary, and is pushed
whether there is room or not.
-/

namespace Xola

namespace ShortTermMemory

variable {stm : ShortTermMemory} {msg : Message}

theorem evict_length_le {maxTokens incoming : Nat} {ms : List Message} {count : Nat} :
    (evict maxTokens incoming ms count).1.length ≤ ms.length := by
  induction ms generalizing count with
  | nil => exact Nat.le_refl _
  | cons m ms ih =>
    unfold evict
    split
    · exact ih.trans (Nat.le_succ _)
    · exact Nat.le_refl _

/-- A push evicts nothing exactly if the count and the incoming tokens stay within the budget. -/
theorem push_keeps_iff (hne : stm.messages ≠ []) :
    (stm.push msg).messages = stm.messages ++ [msg] ↔
      usizeAdd stm.tokenCount msg.tokenCount ≤ stm.maxTokens := by
  obtain ⟨messages, count, maxTokens⟩ := stm
  cases messages with
  | nil => exact absurd rfl hne
  | cons m ms =>
    unfold push
    dsimp only
    rw [List.append_left_inj, evict]
    constructor
    · intro hkept
      by_contra hfull
      rw [if_pos (Nat.lt_of_not_le hfull)] at hkept
      have hle : (evict maxTokens msg.tokenCount ms (count - m.tokenCount)).1.length ≤ ms.length :=
        evict_length_le
      rw [hkept] at hle
      exact absurd hle (Nat.not_succ_le_self _)
    · intro hroom
      rw [if_neg (Nat.not_lt.2 hroom)]

theorem push_keeps_of_nil (hnil : stm.messages = []) :
    (stm.push msg).messages = stm.messages ++ [msg] := by
  unfold push
  rw [hnil]
  rfl

theorem push_ne_nil : (stm.push msg).messages ≠ [] := by
  unfold push
  simp

end ShortTermMemory

namespace PlanExecutor

open Interaction

variable {hs : Hashing} {ex : PlanExecutor} {goal : String} {h : Trace} {stm : ShortTermMemory}

/-- No message is pushed out of a buffer that has crossed the threshold, unless for one that is
larger than the budget. -/
def SummarizedFirst (h : Trace) : Prop :=
  ∀ stm msg, (⟨.pushed stm msg, ()⟩ : Event) ∈ h → stm.needsSummarization = true →
    msg.tokenCount ≤ stm.maxTokens → (stm.push msg).messages = stm.messages ++ [msg]

/-- Something has come into the buffer since the threshold was tested. -/
def stale (h : Trace) : Bool :=
  h.foldl (fun s e => match e with
    | ⟨.iteration _, _⟩ => false
    | ⟨.pushed _ _, _⟩ => true
    | ⟨.summarize _, .ok _⟩ => true
    | _ => s) false

/-- A message that meets such a buffer above the threshold still fits. -/
def FitsWhenStale (h : Trace) : Prop :=
  ∀ before stm msg, before ++ [⟨.pushed stm msg, ()⟩] <+: h → stale before = true →
    stm.needsSummarization = true → msg.tokenCount ≤ stm.maxTokens →
    usizeAdd stm.tokenCount msg.tokenCount ≤ stm.maxTokens

/-! ## The buffer at a push -/

/-- What is known of the buffer when it is not filled since the test, and when it is. -/
def Tested (h : Trace) (stm : ShortTermMemory) : Prop :=
  if stale h then stm.messages ≠ [] else stm.messages = [] ∨ stm.needsSummarization = false

/-- The guarantee of a run: every push is made on a tested buffer. -/
def PushesTested (h : Trace) : Command → Prop
  | .pushed stm _ => Tested h stm
  | _ => True

theorem stale_concat (h : Trace) (e : Event) : stale (h ++ [e]) =
    match e with
    | ⟨.iteration _, _⟩ => false
    | ⟨.pushed _ _, _⟩ => true
    | ⟨.summarize _, .ok _⟩ => true
    | _ => stale h := by
  rw [stale, List.foldl_append]
  rfl

theorem Tested.filled {e : Event} (he : stale (h ++ [e]) = true) (hne : stm.messages ≠ []) :
    Tested (h ++ [e]) stm := by
  rw [Tested, if_pos he]
  exact hne

theorem Tested.silent {e : Event} (ht : Tested h stm) (he : stale (h ++ [e]) = stale h) :
    Tested (h ++ [e]) stm := by
  rw [Tested, he]
  exact ht

/-- A step hands back a tested buffer. -/
def HandsBack (h : Trace) : Prog.Ending PlanError (StepOutcome × RunState) → Prop
  | some (.ok out) => Tested h out.2.stm
  | _ => True

/-- The assertion: the buffer is tested from the check at the top of an iteration to its last
push. -/
def TestedAt : Phase → RunState → Trace → Prop
  | .opened _, _, h => stale h = false
  | .handed _ _ outcome, st, h => HandsBack h (some (.ok (outcome, st)))
  | .head _, _, _ | .closing _ _ _, _, _ | .recording _, _, _ | .recorded _, _, _
  | .ended _, _, _ => True
  | _, st, h => Tested h st.stm

section Phases

variable [SerdeJson] {p p' : Phase} {st st' : RunState} {e : Event}

theorem testedAt_turn (ht : Turn hs ex st p p') (hp : TestedAt p st h) : TestedAt p' st h := by
  cases ht with
  | fits below =>
    have hfresh : ¬stale h = true := by
      rw [show stale h = false from hp]
      exact Bool.false_ne_true
    refine (?_ : Tested h st.stm)
    rw [Tested, if_neg hfresh]
    exact .inr below
  | thoughtless | acts | rethoughtless | concedes | retries => exact hp
  | exhausted | final | empty | loop | reempty | unshown | said | unattached | returns | reached =>
    trivial

theorem testedAt_step (hst : Step hs ex goal p st e p' st') (hp : TestedAt p st h) :
    TestedAt p' st' (h ++ [e]) := by
  cases hst with
  | iteration => exact stale_concat _ _
  | summarized => exact .filled (stale_concat _ _) (List.cons_ne_nil _ _)
  | considered | told | reconsidered =>
    exact .filled (stale_concat _ _) ShortTermMemory.push_ne_nil
  | answered | succeeded | failed | replanned => exact Tested.silent hp (stale_concat _ _)
  | goal | unsummarized | unanswered | perStep | perTask | unreplanned | observed | repeated
  | elapsed | inserted => trivial

theorem testedAt_asks (hst : Step hs ex goal p st e p' st') (hp : TestedAt p st h) :
    PushesTested h e.1 := by
  cases hst with
  | goal | considered | told | reconsidered | observed | repeated => exact hp
  | iteration | summarized | unsummarized | answered | unanswered | succeeded | perStep | perTask
  | failed | replanned | unreplanned | elapsed | inserted => trivial

theorem annotates_testedAt :
    Annotates hs ex goal TestedAt PushesTested (fun _ _ => True) where
  refused := trivial
  start hnew _ := by
    unfold ShortTermMemory.new at hnew
    split at hnew
    · cases hnew
      exact .inl rfl
    · cases hnew
  turn := testedAt_turn
  step := testedAt_step
  asks := testedAt_asks
  ends _ := trivial

end Phases

/-! ## Every push of a run -/

theorem tested_of_prefix [SerdeJson] {q : Plan TaskResult} (hr : Prog.Reaches (raced hs ex goal) h q)
    {before : Trace} {msg : Message} (hp : before ++ [⟨.pushed stm msg, ()⟩] <+: h) :
    Tested before stm := by
  obtain ⟨after, rfl⟩ := hp
  rw [List.append_assoc] at hr
  exact Prog.wp_pending annotates_testedAt.wp_raced hr.pending

/-- **When the summary comes before the eviction.** In every run a message that meets a buffer
above the threshold evicts nothing exactly if those messages fit that come after something else
has filled the buffer since the test. The first message after the test is never the one. -/
theorem summarizedFirst_iff [SerdeJson] {q : Plan TaskResult}
    (hr : Prog.Reaches (raced hs ex goal) h q) :
    SummarizedFirst h ↔ FitsWhenStale h := by
  constructor
  · intro hfirst before stm msg hp hstale hneeds hle
    have ht := tested_of_prefix hr hp
    rw [Tested, if_pos hstale] at ht
    exact (ShortTermMemory.push_keeps_iff ht).1 (hfirst stm msg (hp.mem (by simp)) hneeds hle)
  · intro hfits stm msg hmem hneeds hle
    obtain ⟨before, after, rfl⟩ := List.append_of_mem hmem
    have hp : before ++ [⟨.pushed stm msg, ()⟩] <+: before ++ ⟨.pushed stm msg, ()⟩ :: after :=
      ⟨after, by simp⟩
    have ht := tested_of_prefix hr hp
    by_cases hstale : stale before = true
    · rw [Tested, if_pos hstale] at ht
      exact (ShortTermMemory.push_keeps_iff ht).2 (hfits before stm msg hp hstale hneeds hle)
    · rw [Tested, if_neg hstale, hneeds] at ht
      exact ShortTermMemory.push_keeps_of_nil (ht.resolve_right (by simp))

/-! A budget of 40 tokens, of which 32 are the threshold. The goal takes one, and the first thought
fills the buffer to the threshold. -/

def narrow : PlanExecutor :=
  .new (.new .default) .default { PlanConfig.default with stmTokenBudget := 40 }

def longThought : String := String.ofList (List.replicate 124 'x')

/-- The observation still fits; then there is a summary, and the model is done. -/
def digesting : Trace → (c : Command) → c.Answer
  | _, .iteration _ => ()
  | _, .pushed _ _ => ()
  | h, .reason _ =>
    if succeeded h = 0 then .ok ⟨longThought, some "search", .obj [], false, none⟩
    else .ok ⟨"", none, .obj [], true, some "done"⟩
  | _, .summarize _ => .ok ⟨"The search found nothing.", 6⟩
  | _, .executeWithTimeout _ _ _ => .ok .null
  | _, .elapsed => 0
  | _, .insert _ => .ok ()

/-- A push onto a buffer above the threshold. -/
def pushesAbove : Event → Bool
  | ⟨.pushed stm _, _⟩ => stm.needsSummarization
  | _ => false

/-- What `FitsWhenStale` asks of the last event. -/
def fitsLast (h : Trace) : Bool :=
  match h.getLast? with
  | some ⟨.pushed stm msg, _⟩ =>
    !(stale h.dropLast && stm.needsSummarization && decide (msg.tokenCount ≤ stm.maxTokens)) ||
      decide (usizeAdd stm.tokenCount msg.tokenCount ≤ stm.maxTokens)
  | _ => true

theorem fitsWhenStale_of_all (hall : h.inits.all fitsLast = true) : FitsWhenStale h := by
  intro before stm msg hp hstale hneeds hle
  have hlast := List.all_eq_true.1 hall _ ((List.mem_inits _ _).2 hp)
  simp only [fitsLast, List.getLast?_concat, List.dropLast_concat, hstale, hneeds, hle, decide_true,
    Bool.and_self, Bool.not_true, Bool.false_or, decide_eq_true_eq] at hlast
  exact hlast

section Example

attribute [local instance] SerdeJson.plain

theorem summarizedFirst_iff_digesting : ∃ h res,
    Prog.Returns (raced sameHash narrow "find") h res ∧ h.any pushesAbove = true ∧
      summarizes h = 1 ∧ SummarizedFirst h := by
  have hres : ((raced sameHash narrow "find").exec digesting []).2 =
      some (.ok ⟨.success, some "done", [.succeeded "search" (.obj [])], 0, 2, 0⟩) := by
    decide +kernel
  have hreturns := Prog.exec_returns hres
  refine ⟨_, _, hreturns, by decide +kernel, by decide +kernel, ?_⟩
  exact (summarizedFirst_iff hreturns).2 (fitsWhenStale_of_all (by decide +kernel))

end Example

/-! A call that fails instead, on the same budget: the text of the error pushes the goal out. -/

def pondering : Trace → (c : Command) → c.Answer
  | _, .iteration _ => ()
  | _, .pushed _ _ => ()
  | h, .reason _ =>
    if failed h = 0 then
      .ok ⟨longThought, some "search", .obj [], false, none⟩
    else .ok ⟨"", none, .obj [], true, none⟩
  | _, .summarize _ => .error (.transport "connection refused")
  | _, .executeWithTimeout action _ _ => .error (.notFound action)
  | _, .elapsed => 0
  | _, .insert _ => .ok ()

/-- A push that evicts what should have been summarised. -/
def evictsUnsummarized : Event → Bool
  | ⟨.pushed stm msg, _⟩ =>
    stm.needsSummarization && decide (msg.tokenCount ≤ stm.maxTokens) &&
      decide ((stm.push msg).messages ≠ stm.messages ++ [msg])
  | _ => false

theorem not_summarizedFirst_of_any (hany : h.any evictsUnsummarized = true) :
    ¬SummarizedFirst h := by
  intro hfirst
  obtain ⟨⟨c, a⟩, hmem, hbad⟩ := List.any_eq_true.1 hany
  cases c with
  | pushed stm msg =>
    simp only [evictsUnsummarized, Bool.and_eq_true, decide_eq_true_eq] at hbad
    exact hbad.2 (hfirst stm msg hmem hbad.1.1 hbad.1.2)
  | iteration | reason | summarize | executeWithTimeout | elapsed | insert => cases hbad

def ponderedStep : TaskStep :=
  .failure "search" (.obj []) "Tool 'search' not found in registry"

section Example

attribute [local instance] SerdeJson.plain

theorem pondering_not_summarizedFirst :
    ∃ h, Executes sameHash narrow "find" h none
        (.ok ⟨.success, none, [ponderedStep], 0, 1, 1⟩) ∧ ¬SummarizedFirst h := by
  have hres : ((raced sameHash narrow "find").exec pondering []).2 =
      some (.ok ⟨.success, none, [ponderedStep], 0, 1, 1⟩) := by decide +kernel
  refine ⟨_, .finished (Prog.exec_returns hres), not_summarizedFirst_of_any ?_⟩
  decide +kernel

end Example

end PlanExecutor

end Xola
