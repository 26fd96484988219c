import Xola.Planning.Trace

/-!
# Time in a run of `execute`

Time passes only while a command is awaited. A tool call is wrapped into a timeout of its own, and
nothing is awaited for a tool that is not registered; the other awaited commands may take any time.
`select!` polls the loop until the deadline of the task has passed, so the moments of a run are
those at which a command has been waiting and the deadline has not been exceeded.
-/

namespace Xola.PlanExecutor

open Interaction

/-- The exchanges of a run with the time each of them took. -/
abbrev TimedTrace := List (Event × Nat)

def events (t : TimedTrace) : Trace := t.map Prod.fst

def totalTime (t : TimedTrace) : Nat := (t.map Prod.snd).sum

/-- The command can have been waiting for `w`. -/
def Waits (ex : PlanExecutor) : Command → Nat → Prop
  | .reason _, _ | .summarize _, _ | .insert _, _ => True
  | .executeWithTimeout action _ timeout, w =>
    w ≤ if (ex.registry.get action).isSome then timeout else 0
  | .iteration _, w | .pushed _ _, w | .elapsed, w => w = 0

/-- In a run of `execute`, `c` has been waiting for `w` after the exchanges `t`. -/
structure Moment [SerdeJson] (hs : Hashing) (ex : PlanExecutor) (goal : String) (t : TimedTrace)
    (c : Command) (w : Nat) : Prop where
  pending : Prog.Pending (raced hs ex goal) (events t) c
  took : ∀ e ∈ t, Waits ex e.1.1 e.2
  waits : Waits ex c w
  inTime : totalTime t + w ≤ ex.timeoutCtxConfig.taskTimeout

/-- The commands an iteration consists of: reason, tool calls and the summary before them. -/
def Command.isStep : Command → Bool
  | .reason _ | .summarize _ | .executeWithTimeout _ _ _ => true
  | _ => false

def Command.isToolCall : Command → Bool
  | .executeWithTimeout _ _ _ => true
  | _ => false

/-- The time that the latest iteration has taken. -/
def iterationTime (t : TimedTrace) : Nat :=
  t.foldl (fun time e =>
    if e.1.1.isIteration then 0 else if e.1.1.isStep then time + e.2 else time) 0

end Xola.PlanExecutor
