import Xola.Data.Like
import Xola.Json
import Xola.Text

/-!
# Episodic log

`runtime/src/memory/episodic_log.rs`: the types of the write path, and the search of the read path.
The log itself is a handle to a database. Of the query, `find_similar_goals` decides the pattern; the
semantics of `ILIKE` is that of `LIKE` under a case folding, with the escape that is PostgreSQL's
default.
-/

namespace Xola

inductive Outcome where
  | success
  | failure
  deriving DecidableEq, Repr

structure TaskStep where
  action : String
  input : Json
  success : Bool
  error : Option String
  deriving DecidableEq

/-- `TaskStep::success`. -/
def TaskStep.succeeded (action : String) (input : Json) : TaskStep := ⟨action, input, true, none⟩

/-- `TaskStep::failure`. -/
def TaskStep.failure (action : String) (input : Json) (error : String) : TaskStep :=
  ⟨action, input, false, some error⟩

/-- The invariant that `insert` asserts is a field. -/
structure EpisodeInput where
  taskGoal : String
  steps : List TaskStep
  outcome : Outcome
  error : Option String
  durationMs : Int
  error_iff : error.isSome ↔ outcome = .failure

structure EpisodicLog where
  pool : String

namespace EpisodicLog

/-! ## Searching goals -/

/-- The special characters of `LIKE`. -/
def likeSyntax : Like.Syntax Char where
  any := '%'
  one := '_'
  escape := '\\'
  any_ne := by decide
  one_ne := by decide

/-- The keyword with its wildcards escaped. -/
def escaped (keyword : String) : String :=
  replaceChar (replaceChar (replaceChar keyword '\\' "\\\\") '%' "\\%") '_' "\\_"

/-- `format!("%{escaped}%")`. -/
def pattern (keyword : String) : String := "%" ++ escaped keyword ++ "%"

/-- `task_goal ILIKE pattern`; a pattern that ends in an escape is an error. -/
def similarGoal {β : Type} [DecidableEq β] (fold : Char → β) (keyword taskGoal : String) :
    Option Bool :=
  Like.like fold likeSyntax (pattern keyword).toList taskGoal.toList

end EpisodicLog

end Xola
