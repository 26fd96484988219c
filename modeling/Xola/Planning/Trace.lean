import Xola.Planning.Executor

/-!
# What a run of the executor shows

Readings of the exchanges of a run: the tool calls and how they ended, the calls to `/reason` and
`/summarize`, the inserts into the episodic log, and all of these iteration by iteration.
-/

namespace Xola.PlanExecutor

open Interaction

abbrev Event := Exchange Command.Answer

/-- Exchanges, oldest first. -/
abbrev Trace := History Command.Answer

/-! ## Tool calls -/

/-- The step that a tool call and its result make. -/
def stepOf (action : String) (input : Json) : Except ToolError Json → TaskStep
  | .ok _ => .succeeded action input
  | .error e => .failure action input e.toString

def dispatch? : Event → Option TaskStep
  | ⟨.executeWithTimeout action input _, result⟩ => some (stepOf action input result)
  | _ => none

/-- Every tool call of the run with its outcome. -/
def dispatches (h : Trace) : List TaskStep := h.filterMap dispatch?

/-- The calls dispatched so far: tool and input. -/
def calls (h : Trace) : List (String × Json) := (dispatches h).map fun s => (s.action, s.input)

def succeeded (h : Trace) : Nat := (dispatches h).countP (·.success)

def failed (h : Trace) : Nat := (dispatches h).countP (!·.success)

theorem dispatches_length (h : Trace) : (dispatches h).length = succeeded h + failed h := by
  rw [succeeded, failed, List.length_eq_countP_add_countP (fun s : TaskStep => s.success)]
  congr 1
  exact List.countP_congr fun s _ => by cases s.success <;> simp

/-! ## Calls to the model -/

def Command.isReason : Command → Bool
  | .reason _ => true
  | _ => false

def Command.isSummarize : Command → Bool
  | .summarize _ => true
  | _ => false

def reasons (h : Trace) : Nat := h.countP (·.1.isReason)

def summarizes (h : Trace) : Nat := h.countP (·.1.isSummarize)

def Event.isFinal : Event → Bool
  | ⟨.reason _, .ok response⟩ => response.isFinal
  | _ => false

/-- Some `/reason` response was final. -/
def finalGiven (h : Trace) : Bool := h.any Event.isFinal

/-- The call a `/reason` response asks for. -/
def Event.request : Event → Option (String × Json)
  | ⟨.reason _, .ok response⟩ =>
    if response.isFinal = false ∧ response.action.getD "" ≠ "" then
      some (response.action.getD "", response.actionInput)
    else none
  | _ => none

/-- The call that has been asked for and is about to be dispatched: nothing but pushes has happened
since. -/
def requested (h : Trace) : Option (String × Json) :=
  h.foldl (fun r e => match e.1 with
    | .pushed _ _ => r
    | _ => Event.request e) none

/-! ## Episodes -/

def Command.episode? : Command → Option EpisodeInput
  | .insert episode => some episode
  | _ => none

def inserts (h : Trace) : List EpisodeInput := h.filterMap (·.1.episode?)

/-! ## Iterations -/

def Command.isIteration : Command → Bool
  | .iteration _ => true
  | _ => false

/-- The run cut at its `debug!` events: what happened in each iteration, the latest first. -/
def blocks (h : Trace) : List Trace :=
  h.foldl (fun bs e => if e.1.isIteration then [] :: bs else bs.modifyHead (· ++ [e])) []

/-! ## One more exchange -/

section Concat

variable (h : Trace) (e : Event)

theorem dispatches_concat : dispatches (h ++ [e]) = dispatches h ++ (dispatch? e).toList := by
  rw [dispatches, List.filterMap_append, dispatches]
  cases he : dispatch? e <;> simp [he]

theorem reasons_concat :
    reasons (h ++ [e]) = reasons h + if e.1.isReason then 1 else 0 := by
  simp [reasons]

theorem summarizes_concat :
    summarizes (h ++ [e]) = summarizes h + if e.1.isSummarize then 1 else 0 := by
  simp [summarizes]

theorem finalGiven_concat : finalGiven (h ++ [e]) = (finalGiven h || e.isFinal) := by
  simp [finalGiven]

theorem requested_concat : requested (h ++ [e]) =
    match e.1 with
    | .pushed _ _ => requested h
    | _ => Event.request e := by
  simp [requested]

theorem inserts_concat : inserts (h ++ [e]) = inserts h ++ (e.1.episode?).toList := by
  rw [inserts, List.filterMap_append, inserts]
  cases he : e.1.episode? <;> simp [he]

theorem blocks_concat : blocks (h ++ [e]) =
    if e.1.isIteration then [] :: blocks h else (blocks h).modifyHead (· ++ [e]) := by
  simp [blocks]

theorem calls_concat : calls (h ++ [e]) =
    calls h ++ (dispatch? e).toList.map fun s => (s.action, s.input) := by
  rw [calls, dispatches_concat, List.map_append, calls]

theorem succeeded_concat :
    succeeded (h ++ [e]) = succeeded h + (dispatch? e).toList.countP (·.success) := by
  rw [succeeded, dispatches_concat, List.countP_append, succeeded]

theorem failed_concat :
    failed (h ++ [e]) = failed h + (dispatch? e).toList.countP (!·.success) := by
  rw [failed, dispatches_concat, List.countP_append, failed]

variable {h e}

theorem inserts_concat_nil (h₀ : inserts h = []) (he : e.1.episode? = none) :
    inserts (h ++ [e]) = [] := by
  rw [inserts_concat, h₀, he]
  rfl

theorem finalGiven_concat_of_not (he : e.isFinal = false) :
    finalGiven (h ++ [e]) = finalGiven h := by
  rw [finalGiven_concat, he, Bool.or_false]

end Concat

end Xola.PlanExecutor
