import Xola.Data.OrderedSelection
import Xola.Interaction.Linearize
import Xola.Ipc.Types
import Xola.Memory.EpisodicLog

/-!
# Episodes in the database

`runtime/src/memory/episodic_log.rs`: the methods of `EpisodicLog`, each one statement and what is made
of its answer, over the table of `migrations/0002_create_episodes_table.sql`. A database error is given
by the text it displays.

The database is not part of the repository. `Postgres.Executes` is what its documentation says of the
four statements, and what they leave to it is a parameter: how the collation folds characters, and what
a document reads back as from a `jsonb` column.
-/

namespace Xola

open Interaction

/-! ## Columns -/

abbrev Uuid := BitVec 128

/-- Microseconds. -/
abbrev Timestamp := Int

def Outcome.asStr : Outcome → String
  | .success => "success"
  | .failure => "failure"

/-- `Outcome::from_str`. -/
def Outcome.fromStr (s : String) : Except String Outcome :=
  if s = "success" then .ok .success
  else if s = "failure" then .ok .failure
  else .error ("unknown outcome: '" ++ s ++ "'")

/-- Serialisation of a step; an error that is `None` is skipped. -/
def TaskStep.toJson (s : TaskStep) : Json :=
  .obj (("action", .str s.action) :: (s.error.toList.map fun e => ("error", .str e)) ++
    [("input", s.input), ("success", .bool s.success)])

/-- The fields of a step. -/
def TaskStep.ofFields (action input success error : Option Json) : Option TaskStep := do
  let some (.str action) := action | none
  let input ← input
  let some (.bool success) := success | none
  let error ← optionalString error
  return ⟨action, input, success, error⟩

/-- Deserialisation of a step, from an object or from the sequence of its fields. -/
def TaskStep.ofJson : Json → Option TaskStep
  | .obj fields =>
    ofFields (fields.lookup "action") (fields.lookup "input") (fields.lookup "success")
      (fields.lookup "error")
  | .arr [action, input, success, error] => ofFields action input success error
  | _ => none

/-- `serde_json::to_value(ep.steps)`. -/
def stepsJson (steps : List TaskStep) : Json := .arr (steps.map TaskStep.toJson)

/-- `serde_json::from_value(row.steps)`. -/
def stepsOfJson : Json → Option (List TaskStep)
  | .arr items => items.mapM TaskStep.ofJson
  | _ => none

structure RawEpisodeRow where
  id : Uuid
  taskGoal : String
  steps : Json
  outcome : String
  error : Option String
  durationMs : Int
  createdAt : Timestamp
  deriving DecidableEq

structure EpisodeRecord where
  id : Uuid
  taskGoal : String
  steps : List TaskStep
  outcome : Outcome
  error : Option String
  durationMs : Int
  createdAt : Timestamp

inductive EpisodeError where
  | database (msg : String)
  | invalidOutcome (value : String)
  | deserialization

def mapEpisodeRow (row : RawEpisodeRow) : Except EpisodeError EpisodeRecord := do
  let outcome ← (Outcome.fromStr row.outcome).mapError fun _ => .invalidOutcome row.outcome
  match stepsOfJson row.steps with
  | none => .error .deserialization
  | some steps =>
    return ⟨row.id, row.taskGoal, steps, outcome, row.error, row.durationMs, row.createdAt⟩

/-! ## Statements -/

inductive Query where
  | insert (taskGoal : String) (steps : Json) (outcome : String) (error : Option String)
    (durationMs : Int)
  | recent (limit : Int)
  | similar (pattern : String) (limit : Int)
  | delete (id : Uuid)

/-- `delete` results in the number of rows affected. -/
abbrev Query.Result : Query → Type
  | .insert _ _ _ _ _ => Uuid
  | .recent _ | .similar _ _ => List RawEpisodeRow
  | .delete _ => Nat

abbrev Query.Answer (q : Query) : Type := Except String q.Result

/-- What a statement leaves to the database. -/
structure Postgres where
  Folded : Type
  decEq : DecidableEq Folded
  fold : Char → Folded
  /-- Nothing for a document that the column does not take. -/
  jsonb : Json → Option Json

namespace Postgres

instance (pg : Postgres) : DecidableEq pg.Folded := pg.decEq

/-- What is known of a `jsonb` column. Of numbers and of what is not taken nothing is assumed. -/
structure Documented (pg : Postgres) : Prop where
  bool : ∀ {b v}, pg.jsonb (.bool b) = some v → v = .bool b
  str : ∀ {s v}, pg.jsonb (.str s) = some v → v = .str s
  arr : ∀ {items v}, pg.jsonb (.arr items) = some v →
    ∃ stored, items.mapM pg.jsonb = some stored ∧ v = .arr stored
  obj : ∀ {fields v}, (fields.map Prod.fst).Nodup → pg.jsonb (.obj fields) = some v →
    ∃ stored, v = .obj stored ∧
      ∀ key, (stored.lookup key).map some = (fields.lookup key).map pg.jsonb

variable (pg : Postgres)

/-- `task_goal ILIKE pattern`. -/
def ilike (pattern taskGoal : String) : Option Bool :=
  Like.like pg.fold EpisodicLog.likeSyntax pattern.toList taskGoal.toList

/-- The statement succeeds at `now` on the table `rows` and leaves it as `rows'`. -/
def Executes (now : Timestamp) (rows : List RawEpisodeRow) :
    (q : Query) → q.Result → List RawEpisodeRow → Prop
  | .insert taskGoal steps outcome error durationMs, id, rows' =>
    -- the primary key is unique
    (∀ row ∈ rows, row.id ≠ id) ∧ ∃ stored, pg.jsonb steps = some stored ∧
      rows' = rows ++ [⟨id, taskGoal, stored, outcome, error, durationMs, now⟩]
  | .recent limit, found, rows' =>
    0 ≤ limit ∧ rows.Selects RawEpisodeRow.createdAt limit.toNat found ∧ rows' = rows
  | .similar pattern limit, found, rows' =>
    0 ≤ limit ∧ (∀ row ∈ rows, pg.ilike pattern row.taskGoal ≠ none) ∧
      (rows.filter fun row => pg.ilike pattern row.taskGoal = some true).Selects
        RawEpisodeRow.createdAt limit.toNat found ∧ rows' = rows
  | .delete id, affected, rows' =>
    affected = rows.countP (·.id = id) ∧ rows' = rows.filter (·.id ≠ id)

/-- An error is reported of a statement that has not been executed, or of one whose result was lost. -/
def Serves (now : Timestamp) (rows : List RawEpisodeRow) (q : Query) :
    q.Answer → List RawEpisodeRow → Prop
  | .ok result, rows' => pg.Executes now rows q result rows'
  | .error _, rows' => rows' = rows ∨ ∃ result, pg.Executes now rows q result rows'

end Postgres

/-! ## Methods -/

namespace EpisodicLog

abbrev Db (α : Type) := Prog Query Query.Answer EpisodeError α

/-- The rows of both selections are mapped in the same way. -/
def fetched (answer : Except String (List RawEpisodeRow)) :
    Except EpisodeError (List EpisodeRecord) := do
  let rows ← answer.mapError .database
  rows.mapM mapEpisodeRow

def insert (ep : EpisodeInput) : Db Uuid :=
  .once (.insert ep.taskGoal (stepsJson ep.steps) ep.outcome.asStr ep.error ep.durationMs)
    fun answer => answer.mapError .database

/-- The limit is cast to `i64`. -/
def recent (limit : UInt64) : Db (List EpisodeRecord) :=
  .once (.recent limit.toInt64.toInt) fetched

def findSimilarGoals (keyword : String) (limit : UInt64) : Db (List EpisodeRecord) :=
  .once (.similar (pattern keyword) limit.toInt64.toInt) fetched

def delete (id : Uuid) : Db Bool :=
  .once (.delete id) fun answer =>
    (answer.mapError .database).map fun affected : Nat => decide (0 < affected)

/-! ## Calls -/

/-- A call of one of the methods. -/
inductive Call where
  | insert (ep : EpisodeInput)
  | recent (limit : UInt64)
  | findSimilarGoals (keyword : String) (limit : UInt64)
  | delete (id : Uuid)

inductive Reply where
  | inserted (id : Uuid)
  | episodes (records : List EpisodeRecord)
  | deleted (deleted : Bool)

def Call.run : Call → Db Reply
  | .insert ep => .inserted <$> EpisodicLog.insert ep
  | .recent limit => .episodes <$> EpisodicLog.recent limit
  | .findSimilarGoals keyword limit => .episodes <$> EpisodicLog.findSimilarGoals keyword limit
  | .delete id => .deleted <$> EpisodicLog.delete id

end EpisodicLog

end Xola
