import Mathlib.Data.List.Nodup
import Xola.Memory.Verify.EpisodeStore
import Xola.Planning.Verify.Episodes

/-!
# Tasks that share a log

Any number of tasks run side by side, each with an executor of its own, and record their episodes in one
table. `insert` is the only method of the log that the executor calls. So the table is a chronicle of the
tasks: every row tells of one task, no two of the same, and what it tells is what has happened in that
task; and an insert that succeeded has left a row.
-/

namespace Xola.PlanExecutor

open Interaction
open EpisodicLog (Call Holds Spec)

/-! ## Recording -/

/-- What the commands of a task do to the table. The insert of a task that the deadline has dropped may
still be executed; its answer is then one that nobody reads. -/
def Recording (pg : Postgres) (now : Timestamp) (rows : List RawEpisodeRow) :
    (c : Command) → c.Answer → List RawEpisodeRow → Prop
  | .insert ep, answer, rows' =>
    ∃ served res, pg.Serves now rows (Call.insert ep).query served rows' ∧
      Prog.Returns (EpisodicLog.insert ep) [⟨_, served⟩] res ∧
      (answer = .ok () ↔ ∃ id, res = .ok id)
  | _, _, rows' => rows' = rows

/-- The record is that of the run. -/
structure Chronicles (pg : Postgres) (ex : PlanExecutor) (goal : String) (h : Trace)
    (e : EpisodeRecord) : Prop where
  inserted : inserts h ≠ []
  taskGoal : e.taskGoal = goal
  steps : List.Forall₂ (TaskStep.Restored pg) (dispatches h) e.steps
  outcome : e.outcome = .success ∧ e.error = none ∧ finalGiven h = true ∨
    e.outcome = .failure ∧ e.error = some "task did not complete successfully" ∧
      finalGiven h = false ∧ succeeded h = ex.config.maxIterations
  durationMs : ∃ ms, (⟨.elapsed, ms⟩ : Event) ∈ h ∧ e.durationMs = millisI64 ms

/-- The insert of the run has succeeded. -/
def Acknowledged (h : Trace) : Prop := ∃ ep, (⟨.insert ep, .ok ()⟩ : Event) ∈ h

/-! ## Episodes of one task -/

variable {hs : Hashing} {ex : PlanExecutor} {goal : String} {h : Trace}

/-- The episode is that of the run so far. -/
structure Sums (goal : String) (h : Trace) (ep : EpisodeInput) : Prop where
  taskGoal : ep.taskGoal = goal
  steps : ep.steps = dispatches h
  error : ep.error =
    if ep.outcome = .failure then some "task did not complete successfully" else none
  durationMs : ∃ ms, (⟨.elapsed, ms⟩ : Event) ∈ h ∧ ep.durationMs = millisI64 ms

/-- The guarantee of a run: an episode is inserted once, and sums the run up. -/
def InsertsOnce (goal : String) (h : Trace) (c : Command) : Prop :=
  inserts h = [] ∧ ∀ ep, c = .insert ep → Sums goal h ep

def SumsAt (goal : String) : Phase → RunState → Trace → Prop
  | .recording result, _, h => inserts h = [] ∧ Sums goal h (episodeOf goal result)
  | .recorded _, _, _ | .ended _, _, _ => True
  | _, st, h => inserts h = [] ∧ st.steps = dispatches h

section Phases

variable [SerdeJson] {p p' : Phase} {st st' : RunState} {e : Event}

theorem sumsAt_turn (ht : Turn hs ex st p p') (hp : SumsAt goal p st h) : SumsAt goal p' st h := by
  cases ht with
  | exhausted | fits | thoughtless | acts | rethoughtless | concedes | retries | final | said =>
    exact hp
  | unattached | empty | loop | reempty | unshown | returns | reached => trivial

omit [SerdeJson] in
theorem sums_silent (hp : inserts h = [] ∧ st.steps = dispatches h) (he : e.1.episode? = none)
    (hd : dispatch? e = none) : inserts (h ++ [e]) = [] ∧ st.steps = dispatches (h ++ [e]) := by
  refine ⟨inserts_concat_nil hp.1 he, ?_⟩
  rw [dispatches_concat, hd, hp.2]
  exact (List.append_nil _).symm

theorem sums_called (hp : inserts h = [] ∧ st.steps = dispatches h) (action : String)
    (input : Json) (answer : Except ToolError Json) :
    inserts (h ++ [⟨.ofCall ex action input, answer⟩]) = [] ∧
      (st.called hs action input answer).steps =
        dispatches (h ++ [⟨.ofCall ex action input, answer⟩]) := by
  refine ⟨inserts_concat_nil hp.1 rfl, ?_⟩
  rw [dispatches_concat, ← hp.2]
  cases answer <;> rfl

theorem sumsAt_step (hst : Step hs ex goal p st e p' st') (hp : SumsAt goal p st h) :
    SumsAt goal p' st' (h ++ [e]) := by
  cases hst with
  | goal | iteration | summarized | answered | considered | told | replanned | reconsidered
  | observed | repeated => exact sums_silent hp rfl rfl
  | succeeded | failed => exact sums_called hp _ _ _
  | elapsed ms =>
    have hsums := sums_silent (e := ⟨.elapsed, ms⟩) hp rfl rfl
    exact ⟨hsums.1, rfl, hsums.2, rfl, ms, by simp, rfl⟩
  | inserted | perStep | perTask | unsummarized | unanswered | unreplanned => trivial

theorem sumsAt_asks (hst : Step hs ex goal p st e p' st') (hp : SumsAt goal p st h) :
    InsertsOnce goal h e.1 := by
  refine ⟨?_, ?_⟩
  · cases hst <;> exact hp.1
  · cases hst with
    | inserted =>
      intro ep hep
      cases hep
      exact hp.2
    | _ => nofun

theorem annotates_sumsAt :
    Annotates hs ex goal (SumsAt goal) (InsertsOnce goal) (fun _ _ => True) where
  refused := trivial
  start _ _ := ⟨rfl, rfl⟩
  turn := sumsAt_turn
  step := sumsAt_step
  asks := sumsAt_asks
  ends _ := trivial

end Phases

/-- The record that an insert leaves behind is that of the run. -/
theorem Sums.chronicles [SerdeJson] {pg : Postgres} {ep : EpisodeInput} {now : Timestamp}
    {e : EpisodeRecord} (hsums : Sums goal h ep) (hissues : Issues hs ex h (.insert ep))
    (he : ep.Recorded pg now e) (answer : Except String Unit) : Chronicles pg ex goal (h ++ [⟨.insert ep, answer⟩]) e where
  inserted := by
    rw [inserts_concat]
    exact List.append_ne_nil_of_right_ne_nil _ nofun
  taskGoal := he.taskGoal.trans hsums.taskGoal
  steps := by
    rw [dispatches_concat, ← hsums.steps]
    exact (List.append_nil ep.steps).symm ▸ he.steps
  outcome := by
    have herror := he.error.trans hsums.error
    rw [finalGiven_concat_of_not rfl, succeeded_concat, he.outcome, herror]
    cases hissues with
    | insert _ _ _ _ houtcome =>
      rcases houtcome with ⟨hsuccess, hfinal, -⟩ | ⟨hfailure, hfinal, hall⟩
      · exact .inl ⟨hsuccess, by simp [hsuccess], hfinal⟩
      · exact .inr ⟨hfailure, by simp [hfailure], hfinal, hall⟩
  durationMs := by
    obtain ⟨ms, hms, hduration⟩ := hsums.durationMs
    exact ⟨ms, List.mem_append_left _ hms, he.durationMs.trans hduration⟩

/-! ## The table -/

section Pool

variable {ι : Type} [DecidableEq ι] {hs : ι → Hashing} {ex : ι → PlanExecutor} {goal : ι → String}
  {pg : Postgres} {log : PoolLog ι Timestamp Command.Answer} {rows rows' : List RawEpisodeRow}
  {entries : List (ι × EpisodeRecord)}

/-- The episodes in the table, each with the task that it tells of. -/
structure Chronicle (pg : Postgres) (ex : ι → PlanExecutor) (goal : ι → String)
    (log : PoolLog ι Timestamp Command.Answer) (rows : List RawEpisodeRow)
    (entries : List (ι × EpisodeRecord)) : Prop where
  holds : Holds rows (entries.map Prod.snd)
  nodup : (entries.map Prod.fst).Nodup
  tells : ∀ x ∈ entries, Chronicles pg (ex x.1) (goal x.1) (own x.1 log) x.2
  complete : ∀ i, Acknowledged (own i log) → i ∈ entries.map Prod.fst

namespace Chronicle

variable {j : ι} {now : Timestamp} {e : Event}

/-- A task that has not inserted its episode is not in the table. -/
theorem not_mem (hc : Chronicle pg ex goal log rows entries) (hj : inserts (own j log) = []) :
    j ∉ entries.map Prod.fst := by
  intro hmem
  obtain ⟨x, hx, rfl⟩ := List.mem_map.mp hmem
  exact (hc.tells x hx).inserted hj

/-- What such a task does tells nothing new about the others. -/
theorem tells_concat (hc : Chronicle pg ex goal log rows entries) (hj : inserts (own j log) = [])
    {x : ι × EpisodeRecord} (hx : x ∈ entries) :
    Chronicles pg (ex x.1) (goal x.1) (own x.1 (log ++ [⟨j, now, e⟩])) x.2 := by
  have hne : j ≠ x.1 := fun heq => hc.not_mem hj (heq ▸ List.mem_map_of_mem hx)
  rw [own_concat_of_ne hne]
  exact hc.tells x hx

theorem acknowledged_concat {i : ι} (hi : Acknowledged (own i (log ++ [⟨j, now, e⟩]))) :
    Acknowledged (own i log) ∨ j = i ∧ ∃ ep, e = ⟨.insert ep, .ok ()⟩ := by
  by_cases hij : j = i
  · subst hij
    rw [own_concat_self] at hi
    obtain ⟨ep, hep⟩ := hi
    rcases List.mem_append.mp hep with hep | hep
    · exact .inl ⟨ep, hep⟩
    · exact .inr ⟨rfl, ep, (List.mem_singleton.mp hep).symm⟩
  · rw [own_concat_of_ne hij] at hi
    exact .inl hi

/-- An exchange that does not write to the table. -/
theorem unwritten (hc : Chronicle pg ex goal log rows entries) (hj : inserts (own j log) = [])
    (he : ∀ ep, e ≠ ⟨.insert ep, .ok ()⟩) :
    Chronicle pg ex goal (log ++ [⟨j, now, e⟩]) rows entries where
  holds := hc.holds
  nodup := hc.nodup
  tells _ hx := hc.tells_concat hj hx
  complete i hi := by
    rcases acknowledged_concat hi with hi | ⟨-, ep, hep⟩
    · exact hc.complete i hi
    · exact absurd hep (he ep)

/-- An insert that was executed, acknowledged or not. -/
theorem written (hc : Chronicle pg ex goal log rows entries) (hj : inserts (own j log) = [])
    {record : EpisodeRecord} (hholds : Holds rows' (entries.map Prod.snd ++ [record]))
    (htells : Chronicles pg (ex j) (goal j) (own j log ++ [e]) record) :
    Chronicle pg ex goal (log ++ [⟨j, now, e⟩]) rows' (entries ++ [(j, record)]) where
  holds := by rwa [List.map_append]
  nodup := by
    rw [List.map_append]
    have hconcat := hc.nodup.concat (hc.not_mem hj)
    rwa [List.concat_eq_append] at hconcat
  tells x hx := by
    rcases List.mem_append.mp hx with hx | hx
    · exact hc.tells_concat hj hx
    · obtain rfl := List.mem_singleton.mp hx
      rw [own_concat_self]
      exact htells
  complete i hi := by
    rw [List.map_append, List.mem_append]
    rcases acknowledged_concat hi with hi | ⟨rfl, -⟩
    · exact .inl (hc.complete i hi)
    · exact .inr (List.mem_singleton_self _)

theorem inserted [SerdeJson] (hpg : pg.Documented) (hc : Chronicle pg ex goal log rows entries)
    (hj : inserts (own j log) = []) {ep : EpisodeInput} (hsums : Sums (goal j) (own j log) ep)
    (hissues : Issues (hs j) (ex j) (own j log) (.insert ep)) {answer : Except String Unit}
    (hrecording : Recording pg now rows (.insert ep) answer rows') :
    ∃ entries', Chronicle pg ex goal (log ++ [⟨j, now, .insert ep, answer⟩]) rows' entries' := by
  obtain ⟨served, res, hserves, hreturns, hanswer⟩ := hrecording
  have hinsert : pg.Serves now rows (Call.insert ep).query served rows' := hserves
  obtain ⟨es, hspec, hholds⟩ := hc.holds.serves hpg hinsert
  cases served with
  | ok id =>
    rw [show (Call.insert ep).reply (.ok id) = .ok (.inserted id) from rfl] at hspec
    cases hspec with
    | insert _ hrecorded => exact ⟨_, hc.written hj hholds (hsums.chronicles hissues hrecorded _)⟩
  | error msg =>
    obtain rfl := hreturns.functional (EpisodicLog.insert_returns ep (.error msg))
    have hfailed : answer ≠ .ok () := fun hok => by
      obtain ⟨id, hid⟩ := hanswer.mp hok
      cases hid
    rw [EpisodicLog.Call.reply_error] at hspec
    cases hspec with
    | failed =>
      refine ⟨entries, ?_⟩
      have hunwritten :
          Chronicle pg ex goal (log ++ [⟨j, now, .insert ep, answer⟩]) rows entries := by
        refine hc.unwritten hj ?_
        intro ep' heq
        cases heq
        exact hfailed rfl
      exact ⟨hholds, hunwritten.nodup, hunwritten.tells, hunwritten.complete⟩
    | unacknowledged _ hdone =>
      cases hdone with
      | insert _ hrecorded =>
        exact ⟨_, hc.written hj hholds (hsums.chronicles hissues hrecorded _)⟩

end Chronicle

/-- **The table is a chronicle of the tasks.** Whatever tasks run side by side, in whatever order the
database executes their inserts, the rows of the table are the episodes of different tasks, each with
the goal, the tool calls and the outcome of its task; and a task whose insert succeeded has one. -/
theorem table_chronicles [SerdeJson] (hpg : pg.Documented)
    (h : Interleaved (fun i => raced (hs i) (ex i) (goal i)) (Recording pg) [] log rows) :
    ∃ entries, Chronicle pg ex goal log rows entries := by
  refine h.rule (fun log rows => ∃ entries, Chronicle pg ex goal log rows entries)
    (fun i => Prog.wp_and (wp_raced (hs i) (ex i) (goal i)) annotates_sumsAt.wp_raced) ?_ ?_
  · refine ⟨[], .nil, .nil, nofun, ?_⟩
    rintro i ⟨ep, hep⟩
    cases hep
  · rintro log rows rows' j now c answer ⟨entries, hc⟩ ⟨hissues, hnone, hinsert⟩ hrecording
    cases c with
    | insert ep => exact hc.inserted hpg hnone (hinsert ep rfl) hissues hrecording
    | iteration | pushed | reason | summarize | executeWithTimeout | elapsed =>
      obtain rfl := hrecording
      exact ⟨entries, hc.unwritten hnone nofun⟩

end Pool

/-! Two tasks that call a tool and then conclude, one after the other on one table. -/

/-- The rows get the identifiers `1` and `2`. -/
def concluding (rows : List RawEpisodeRow) : (c : Command) → List RawEpisodeRow × c.Answer
  | .iteration _ | .pushed _ _ => (rows, ())
  | .reason request =>
    if request.messages.length = 1 then (rows, .ok ⟨"", some "search", .obj [], false, none⟩)
    else (rows, .ok ⟨"", none, .obj [], true, some "done"⟩)
  | .summarize _ => (rows, .error (.transport "connection refused"))
  | .executeWithTimeout _ _ _ => (rows, .ok .null)
  | .elapsed => (rows, (7 : Nat))
  | .insert ep =>
    let id : Uuid := if rows.isEmpty then 1 else 2
    if ∀ row ∈ rows, row.id ≠ id then
      (rows ++ [⟨id, ep.taskGoal, stepsJson ep.steps, ep.outcome.asStr, ep.error, ep.durationMs, 3⟩],
        .ok ())
    else (rows, .error "database error: pool timed out")

theorem recording_concluding (rows : List RawEpisodeRow) (c : Command) :
    Recording EpisodicLog.plain 3 rows c (concluding rows c).2 (concluding rows c).1 := by
  cases c with
  | insert ep =>
    dsimp only [concluding]
    generalize (if rows.isEmpty then 1 else 2 : Uuid) = id
    split
    · next hfresh =>
      refine ⟨.ok id, _, ⟨hfresh, _, rfl, rfl⟩, EpisodicLog.insert_returns ep _, ?_⟩
      exact iff_of_true rfl ⟨_, rfl⟩
    · refine ⟨.error "pool timed out", _, .inl rfl, EpisodicLog.insert_returns ep _, ?_⟩
      exact iff_of_false nofun nofun
  | reason request =>
    dsimp only [concluding]
    split <;> rfl
  | iteration | pushed | summarize | executeWithTimeout | elapsed => rfl

def taskGoals : Bool → String
  | false => "find the release date"
  | true => "compare the versions"

def concludedRow (id : Uuid) (i : Bool) : RawEpisodeRow :=
  ⟨id, taskGoals i, stepsJson [.succeeded "search" (.obj [])], "success", none, 7, 3⟩

section Example

attribute [local instance] SerdeJson.plain

/-- The pool of the two tasks, as far as it has come. -/
abbrev Concluding (log : PoolLog Bool Timestamp Command.Answer) (rows : List RawEpisodeRow) : Prop :=
  Interleaved (fun i => raced sameHash logged (taskGoals i)) (Recording EpisodicLog.plain) [] log rows

/-- A task that has not begun yet runs to its end. -/
theorem Concluding.concludes {i : Bool} {log : PoolLog Bool Timestamp Command.Answer}
    {rows rows' : List RawEpisodeRow} {res : Except PlanError TaskResult}
    (before : Concluding log rows) (hidle : own i log = [])
    (hrun : (raced sameHash logged (taskGoals i)).runWith concluding rows = (rows', some res)) :
    ∃ h : Trace, Concluding (log ++ h.map (⟨i, 3, ·⟩)) rows' := by
  obtain ⟨h, hreturns, hhandled⟩ := Prog.runWith_returns hrun
  have hruns : Prog.Returns (raced sameHash logged (taskGoals i)) (own i log ++ h) res := by
    rwa [hidle, List.nil_append]
  exact ⟨h, Interleaved.undisturbed recording_concluding before hruns hhandled⟩

theorem table_chronicles_concluding :
    ∃ log entries, Chronicle EpisodicLog.plain (fun _ => logged) taskGoals log
      [concludedRow 1 false, concludedRow 2 true] entries := by
  have hfirst : (raced sameHash logged (taskGoals false)).runWith concluding [] =
      ([concludedRow 1 false],
        some (.ok ⟨.success, some "done", [.succeeded "search" (.obj [])], 7, 2, 0⟩)) := by
    decide +kernel
  have hsecond :
      (raced sameHash logged (taskGoals true)).runWith concluding [concludedRow 1 false] =
        ([concludedRow 1 false, concludedRow 2 true],
          some (.ok ⟨.success, some "done", [.succeeded "search" (.obj [])], 7, 2, 0⟩)) := by
    decide +kernel
  obtain ⟨h, hone⟩ := Concluding.concludes .nil rfl hfirst
  have hidle : own true ([] ++ h.map fun x => (⟨false, 3, x⟩ : Entry Bool Timestamp _)) = [] := by
    refine own_eq_nil fun e he => ?_
    obtain ⟨x, -, rfl⟩ := List.mem_map.mp he
    exact Bool.false_ne_true
  obtain ⟨h', htwo⟩ := hone.concludes hidle hsecond
  exact ⟨_, table_chronicles EpisodicLog.plain_documented htwo⟩

end Example

end Xola.PlanExecutor
