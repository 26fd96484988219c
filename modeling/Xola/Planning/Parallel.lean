import Xola.Planning.Executor

/-!
# Parallel execution

`execute_parallel` of `runtime/src/planning/executor.rs` as a program over its `JoinSet`. A task is
known by the position at which it was spawned; `join_next` is answered with the task that has ended
and how: with what its `execute` returned, or, after a panic, with the text of the `JoinError`. On an
empty set it does not wait, so the loop runs once for each task.
-/

namespace Xola.PlanExecutor

open Interaction

/-- The executor that a task builds for its subtask. -/
def branchExecutor (ex : PlanExecutor) : PlanExecutor :=
  .new ex.registry ex.timeoutConfig ex.config

namespace Parallel

/-- How a task ends. -/
abbrev TaskEnd := Except String (Except PlanError TaskResult)

inductive Command where
  | spawn (branch : PlanExecutor) (subtask : String)
  | joinNext

abbrev Command.Answer : Command → Type
  | .spawn _ _ => Unit
  | .joinNext => Nat × TaskEnd

abbrev Event := Exchange Command.Answer

abbrev Trace := History Command.Answer

abbrev Fan (α : Type) := Prog Command Command.Answer PlanError α

/-- `let task_result = join_result??`. -/
def unwrap : TaskEnd → Except PlanError TaskResult
  | .error msg => .error (.joinError msg)
  | .ok result => result

/-- The `for` loop over the subtasks. -/
def spawnAll (branch : PlanExecutor) : List String → Fan Unit
  | [] => return
  | subtask :: subtasks => do
    Prog.perform (Command.spawn branch subtask)
    spawnAll branch subtasks

/-- The `while` loop, with the given number of tasks still in the set. -/
def joinAll : Nat → List TaskResult → Fan (List TaskResult)
  | 0, results => return results
  | remaining + 1, results => do
    let joined ← Prog.perform Command.joinNext
    let taskResult ← Prog.ofExcept (unwrap joined.2)
    joinAll remaining (results ++ [taskResult])

end Parallel

def executeParallel (ex : PlanExecutor) (subtasks : List String) :
    Parallel.Fan (List TaskResult) := do
  Parallel.spawnAll ex.branchExecutor subtasks
  Parallel.joinAll subtasks.length []

namespace Parallel

/-! ## Runs -/

def spawned? : Event → Option (PlanExecutor × String)
  | ⟨.spawn branch subtask, _⟩ => some (branch, subtask)
  | _ => none

def joined? : Event → Option (Nat × TaskEnd)
  | ⟨.joinNext, joined⟩ => some joined
  | _ => none

/-- The tasks in the order they were spawned. -/
def spawned (h : Trace) : List (PlanExecutor × String) := h.filterMap spawned?

/-- The tasks in the order they were joined, with their ends. -/
def joined (h : Trace) : List (Nat × TaskEnd) := h.filterMap joined?

/-- The exchanges of a task, and the command it was waiting for when its deadline fired. -/
abbrev TaskTrace := History PlanExecutor.Command.Answer × Option PlanExecutor.Command

/-- A task ends as a run of its executor does. -/
inductive TaskRun [SerdeJson] (hs : Hashing) (branch : PlanExecutor) (subtask : String) :
    TaskTrace → TaskEnd → Prop
  | returned {t : History PlanExecutor.Command.Answer} {cut : Option PlanExecutor.Command}
      {res : Except PlanError TaskResult} (run : Executes hs branch subtask t cut res) :
      TaskRun hs branch subtask (t, cut) (.ok res)
  | panicked {t : History PlanExecutor.Command.Answer} {msg : String}
      (ends : Prog.Ends (raced hs branch subtask) t none) :
      TaskRun hs branch subtask (t, none) (.error msg)

/-- The set hands out each task at most once, and as it ended; `runs` are the runs of the tasks. -/
structure Served [SerdeJson] (hs : Hashing) (runs : Nat → TaskTrace) (h : Trace) : Prop where
  nodup : ((joined h).map Prod.fst).Nodup
  ended : ∀ j ∈ joined h, ∃ task, (spawned h)[j.1]? = some task ∧
    TaskRun hs task.1 task.2 (runs j.1) j.2

/-- `execute_parallel` returns `res` after the exchanges `h` with its `JoinSet`. -/
structure Run [SerdeJson] (hs : Hashing) (ex : PlanExecutor) (subtasks : List String)
    (runs : Nat → TaskTrace) (h : Trace) (res : Except PlanError (List TaskResult)) : Prop where
  returns : Prog.Returns (executeParallel ex subtasks) h res
  served : Served hs runs h

end Parallel

end Xola.PlanExecutor
