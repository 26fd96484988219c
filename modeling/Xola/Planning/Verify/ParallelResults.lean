import Mathlib.Data.List.Perm.Subperm
import Mathlib.Data.List.Nodup
import Xola.Planning.Parallel
import Xola.Planning.Verify.Accounting

/-!
# Results of parallel branches

`join_next` hands out tasks as they finish, and `execute_parallel` keeps that order: the vector it
returns is the results of all branches in the order of their completion. Nothing in a result tells
which subtask it is for.
-/

namespace Xola.PlanExecutor.Parallel

open Interaction

variable {hs : Hashing} {ex : PlanExecutor} {subtasks : List String} {h : Trace}
  {runs : Nat → TaskTrace}

/-! ## The two loops -/

/-- The set has been joined as in `js`, and nothing else has happened. -/
def joins (js : List (Nat × TaskEnd)) : Trace := js.map fun j => ⟨.joinNext, j⟩

def spawns (branch : PlanExecutor) (subtasks : List String) : Trace :=
  subtasks.map fun subtask => ⟨.spawn branch subtask, ()⟩

@[simp] theorem joined_joins (js : List (Nat × TaskEnd)) : joined (joins js) = js := by
  induction js with
  | nil => rfl
  | cons j js ih => exact congrArg (j :: ·) ih

@[simp] theorem spawned_joins (js : List (Nat × TaskEnd)) : spawned (joins js) = [] := by
  induction js with
  | nil => rfl
  | cons j js ih => exact ih

@[simp] theorem joined_spawns (branch : PlanExecutor) (subtasks : List String) :
    joined (spawns branch subtasks) = [] := by
  induction subtasks with
  | nil => rfl
  | cons subtask subtasks ih => exact ih

@[simp] theorem spawned_spawns (branch : PlanExecutor) (subtasks : List String) :
    spawned (spawns branch subtasks) = subtasks.map (branch, ·) := by
  induction subtasks with
  | nil => rfl
  | cons subtask subtasks ih => exact congrArg ((branch, subtask) :: ·) ih

theorem spawnAll_returns {branch : PlanExecutor} {k : Unit → Fan (List TaskResult)}
    {res : Except PlanError (List TaskResult)}
    (hr : Prog.Returns (spawnAll branch subtasks >>= k) h res) :
    ∃ h', h = spawns branch subtasks ++ h' ∧ Prog.Returns (k ()) h' res := by
  induction subtasks generalizing h with
  | nil => exact ⟨h, rfl, hr⟩
  | cons subtask subtasks ih =>
    obtain ⟨_, t, rfl, hrest⟩ := Prog.returns_call.1 hr
    obtain ⟨h', rfl, hk⟩ := ih hrest
    exact ⟨h', rfl, hk⟩

/-- The loop adds the results it is handed until one of the tasks has failed. -/
theorem joinAll_returns {n : Nat} {results : List TaskResult}
    {res : Except PlanError (List TaskResult)} (hr : Prog.Returns (joinAll n results) h res) :
    ∃ js, h = joins js ∧
      ((∃ rs, res = .ok (results ++ rs) ∧ rs.length = n ∧
          js.map Prod.snd = rs.map fun r => .ok (.ok r)) ∨
        ∃ e j, res = .error e ∧ j ∈ js ∧ unwrap j.2 = .error e) := by
  induction n generalizing results h with
  | zero =>
    obtain ⟨rfl, rfl⟩ := Prog.returns_ret.1 hr
    exact ⟨[], rfl, .inl ⟨[], by simp, rfl, rfl⟩⟩
  | succ n ih =>
    obtain ⟨j, t, rfl, hrest⟩ := Prog.returns_call.1 hr
    obtain ⟨i, taskEnd⟩ := j
    rcases taskEnd with msg | (e | r)
    · obtain ⟨rfl, rfl⟩ := Prog.returns_err.1 hrest
      exact ⟨[(i, .error msg)], rfl, .inr ⟨_, _, rfl, List.mem_singleton_self _, rfl⟩⟩
    · obtain ⟨rfl, rfl⟩ := Prog.returns_err.1 hrest
      exact ⟨[(i, .ok (.error e))], rfl, .inr ⟨_, _, rfl, List.mem_singleton_self _, rfl⟩⟩
    · obtain ⟨js, rfl, hjs⟩ := ih hrest
      refine ⟨(i, .ok (.ok r)) :: js, rfl, ?_⟩
      rcases hjs with ⟨rs, rfl, rfl, hrs⟩ | ⟨e, j, rfl, hj, hun⟩
      · exact .inl ⟨r :: rs, by simp, rfl, congrArg (_ :: ·) hrs⟩
      · exact .inr ⟨e, j, rfl, List.mem_cons_of_mem _ hj, hun⟩

/-! ## Results -/

/-- `rs` are the results of the `n` tasks, each of them once, in the order they were joined. -/
structure CompletionOrder (n : Nat) (h : Trace) (rs : List TaskResult) : Prop where
  length_eq : rs.length = n
  tasks : ((joined h).map Prod.fst).Perm (List.range n)
  results : (joined h).map Prod.snd = rs.map fun r => .ok (.ok r)

section Run

variable [SerdeJson] {res : Except PlanError (List TaskResult)}

/-- What a run of `execute_parallel` looks like. -/
theorem Run.shape (hr : Run hs ex subtasks runs h res) :
    ∃ js, h = spawns ex.branchExecutor subtasks ++ joins js ∧
      ((∃ rs, res = .ok rs ∧ rs.length = subtasks.length ∧
          js.map Prod.snd = rs.map fun r => .ok (.ok r)) ∨
        ∃ e j, res = .error e ∧ j ∈ js ∧ unwrap j.2 = .error e) := by
  obtain ⟨h', rfl, hjoin⟩ := spawnAll_returns hr.returns
  obtain ⟨js, rfl, hjs⟩ := joinAll_returns hjoin
  exact ⟨js, rfl, hjs⟩

omit [SerdeJson] in
theorem joined_shape {branch : PlanExecutor} {js : List (Nat × TaskEnd)} :
    joined (spawns branch subtasks ++ joins js) = js := by
  rw [joined, List.filterMap_append]
  exact (congrArg₂ (· ++ ·) (joined_spawns branch subtasks) (joined_joins js))

/-- Every task that is joined is the run of a branch on its own subtask. -/
theorem Run.branch (hr : Run hs ex subtasks runs h res) {j : Nat × TaskEnd}
    (hj : j ∈ joined h) : ∃ subtask, subtasks[j.1]? = some subtask ∧
      TaskRun hs ex.branchExecutor subtask (runs j.1) j.2 := by
  obtain ⟨task, htask, hrun⟩ := hr.served.ended j hj
  obtain ⟨js, rfl, -⟩ := hr.shape
  have hspawned : spawned (spawns ex.branchExecutor subtasks ++ joins js) =
      subtasks.map (ex.branchExecutor, ·) := by
    rw [spawned, List.filterMap_append]
    exact (congrArg₂ (· ++ ·) (spawned_spawns _ _) (spawned_joins js)).trans (List.append_nil _)
  rw [hspawned, List.getElem?_map, Option.map_eq_some_iff] at htask
  obtain ⟨subtask, hsub, rfl⟩ := htask
  exact ⟨subtask, hsub, hrun⟩

theorem Run.index_lt (hr : Run hs ex subtasks runs h res) {j : Nat × TaskEnd}
    (hj : j ∈ joined h) : j.1 < subtasks.length := by
  obtain ⟨subtask, hsub, -⟩ := hr.branch hj
  exact (List.getElem?_eq_some_iff.1 hsub).1

theorem Run.completionOrder {rs : List TaskResult} (hr : Run hs ex subtasks runs h (.ok rs)) :
    CompletionOrder subtasks.length h rs := by
  have hbranch : ∀ j ∈ joined h, j.1 < subtasks.length := fun _ => hr.index_lt
  have hnodup := hr.served.nodup
  obtain ⟨js, rfl, hjs⟩ := hr.shape
  rw [joined_shape] at hbranch hnodup
  rcases hjs with ⟨rs', hrs', hlen, hresults⟩ | ⟨e, j, he, -⟩
  · cases hrs'
    refine ⟨hlen, ?_, by rw [joined_shape, hresults]⟩
    rw [joined_shape]
    have hsub : js.map Prod.fst ⊆ List.range subtasks.length := by
      intro i hi
      obtain ⟨j, hj, rfl⟩ := List.mem_map.1 hi
      exact List.mem_range.2 (hbranch j hj)
    have hlength : js.length = rs.length := by
      rw [← List.length_map Prod.snd, hresults, List.length_map]
    refine (hnodup.subperm hsub).perm_of_length_le ?_
    rw [List.length_range, List.length_map, hlength, hlen]
  · cases he

/-- All tasks are joined, with a result each, exactly if the call returns one. -/
theorem Run.ok_iff (hr : Run hs ex subtasks runs h res) :
    (∃ rs, res = .ok rs) ↔ ∀ i < subtasks.length, ∃ r, (i, .ok (.ok r)) ∈ joined h := by
  constructor
  · intro hok i hi
    obtain ⟨rs, rfl⟩ := hok
    have hc := hr.completionOrder
    obtain ⟨j, hj, rfl⟩ := List.mem_map.1 (hc.tasks.mem_iff.2 (List.mem_range.2 hi))
    have hmem : j.2 ∈ rs.map fun r => (.ok (.ok r) : TaskEnd) :=
      hc.results ▸ List.mem_map_of_mem hj
    obtain ⟨r, -, heq⟩ := List.mem_map.1 hmem
    exact ⟨r, by rw [heq]; exact hj⟩
  · intro hall
    have hbranch : ∀ j ∈ joined h, j.1 < subtasks.length := fun _ => hr.index_lt
    have hnodup := hr.served.nodup
    obtain ⟨js, rfl, hjs⟩ := hr.shape
    rw [joined_shape] at hbranch hnodup hall
    rcases hjs with ⟨rs, rfl, -⟩ | ⟨e, j, rfl, hj, hun⟩
    · exact ⟨rs, rfl⟩
    · obtain ⟨r, hmem⟩ := hall j.1 (hbranch j hj)
      have heq := List.inj_on_of_nodup_map hnodup hj hmem rfl
      rw [heq] at hun
      cases hun

/-- **What `execute_parallel` returns.** Every task it joins is a run of a branch on its own
subtask. A result holds those of all branches, each of them once, in the order of completion; there
is one exactly if every branch has returned one; and with the same ends of the branches another
order of completion gives the same results, in that order. -/
theorem parallel_results (hr : Run hs ex subtasks runs h res) :
    (∀ j ∈ joined h, ∃ subtask, subtasks[j.1]? = some subtask ∧
      TaskRun hs ex.branchExecutor subtask (runs j.1) j.2) ∧
    (∀ rs, res = .ok rs → CompletionOrder subtasks.length h rs) ∧
    ((∃ rs, res = .ok rs) ↔ ∀ i < subtasks.length, ∃ r, (i, .ok (.ok r)) ∈ joined h) ∧
    ∀ h' res' rs, Run hs ex subtasks runs h' res' → (joined h').Perm (joined h) → res = .ok rs →
      ∃ rs', res' = .ok rs' ∧ rs'.Perm rs := by
  refine ⟨fun _ => hr.branch, ?_, hr.ok_iff, ?_⟩
  · rintro rs rfl
    exact hr.completionOrder
  · rintro h' res' rs hr' hperm rfl
    obtain ⟨rs', rfl⟩ : ∃ rs', res' = .ok rs' := by
      refine hr'.ok_iff.2 ?_
      intro i hi
      obtain ⟨r, hmem⟩ := hr.ok_iff.1 ⟨rs, rfl⟩ i hi
      exact ⟨r, hperm.mem_iff.2 hmem⟩
    refine ⟨rs', rfl, ?_⟩
    have hresults := hperm.map Prod.snd
    rw [hr.completionOrder.results, hr'.completionOrder.results] at hresults
    refine (List.map_perm_map_iff ?_).1 hresults
    intro r r' heq
    exact Except.ok.inj (Except.ok.inj heq)

end Run

/-- The promise that results line up with subtasks. -/
def LinedUp (n : Nat) (h : Trace) (rs : List TaskResult) : Prop :=
  rs.length = n ∧ ∀ i r, rs[i]? = some r → (i, .ok (.ok r)) ∈ joined h

/-! Two subtasks; the model repeats the goal, and the second branch is the first to finish. -/

def repeating : History PlanExecutor.Command.Answer → (c : PlanExecutor.Command) → c.Answer
  | _, .iteration _ => ()
  | _, .pushed _ _ => ()
  | _, .reason request => .ok ⟨"", none, .obj [], true, some request.taskGoal⟩
  | _, .summarize _ => .error (.transport "connection refused")
  | _, .executeWithTimeout action _ _ => .error (.notFound action)
  | _, .elapsed => 7
  | _, .insert _ => .ok ()

def repeated (goal : String) : TaskResult := ⟨.success, some goal, [], 7, 1, 0⟩

section Example

attribute [local instance] SerdeJson.plain

def firstRun : History PlanExecutor.Command.Answer :=
  ((raced sameHash noTools "first").exec repeating []).1

def secondRun : History PlanExecutor.Command.Answer :=
  ((raced sameHash noTools "second").exec repeating []).1

theorem executes_firstRun :
    PlanExecutor.Executes sameHash noTools "first" firstRun none (.ok (repeated "first")) :=
  .finished (Prog.exec_returns (by decide +kernel))

theorem executes_secondRun :
    PlanExecutor.Executes sameHash noTools "second" secondRun none (.ok (repeated "second")) :=
  .finished (Prog.exec_returns (by decide +kernel))

def secondFirst : Trace :=
  spawns noTools ["first", "second"] ++
    joins [(1, .ok (.ok (repeated "second"))), (0, .ok (.ok (repeated "first")))]

def branchRuns (i : Nat) : TaskTrace := (if i = 0 then firstRun else secondRun, none)

theorem run_secondFirst : Run sameHash noTools ["first", "second"] branchRuns secondFirst
    (.ok [repeated "second", repeated "first"]) := by
  have hreturns : Prog.Returns (executeParallel noTools ["first", "second"]) secondFirst
      (.ok [repeated "second", repeated "first"]) := by
    refine Prog.returns_call.2 ⟨(), _, rfl, Prog.returns_call.2 ⟨(), _, rfl, ?_⟩⟩
    refine Prog.returns_call.2 ⟨_, _, rfl, Prog.returns_call.2 ⟨_, _, rfl, ?_⟩⟩
    exact Prog.returns_ret.2 ⟨rfl, rfl⟩
  refine ⟨hreturns, ⟨by decide, ?_⟩⟩
  intro j hj
  rw [secondFirst, joined_shape] at hj
  simp only [List.mem_cons, List.not_mem_nil, or_false] at hj
  rcases hj with rfl | rfl
  · exact ⟨(noTools, "second"), rfl, .returned executes_secondRun⟩
  · exact ⟨(noTools, "first"), rfl, .returned executes_firstRun⟩

theorem parallel_results_secondFirst :
    CompletionOrder 2 secondFirst [repeated "second", repeated "first"] :=
  (parallel_results run_secondFirst).2.1 _ rfl

theorem secondFirst_not_linedUp :
    Run sameHash noTools ["first", "second"] branchRuns secondFirst
        (.ok [repeated "second", repeated "first"]) ∧
      ¬LinedUp 2 secondFirst [repeated "second", repeated "first"] := by
  refine ⟨run_secondFirst, ?_⟩
  intro hlined
  have hmem := hlined.2 0 _ rfl
  rw [secondFirst, joined_shape] at hmem
  revert hmem
  decide

end Example

end Xola.PlanExecutor.Parallel
