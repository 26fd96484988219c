import Xola.Planning.Verify.Episodes
import Xola.Planning.Verify.Phases

/-!
# The verdicts of the loop detector

What a detector says is a function of its configuration and of the calls of the run so far. A run
that stops on a loop reports the verdict on its calls.
-/

namespace Xola.PlanExecutor

open Interaction

variable [SerdeJson] {hs : Hashing} {ex : PlanExecutor} {goal : String} {h : Trace}

/-! ## The verdict on the calls so far -/

/-- What a detector with this configuration says after the calls `cs`. -/
def verdict (hs : Hashing) (config : LoopDetectorConfig) (cs : List (String × Json)) :
    Option String :=
  LoopDetector.isLooping hs ⟨window hs config cs, config.windowSize, config.repeatThreshold⟩

theorem Detects.isLooping_eq {config : LoopDetectorConfig} {cs : List (String × Json)}
    {ld : LoopDetector} (hd : Detects hs config cs ld) :
    ld.isLooping hs = verdict hs config cs := by
  obtain ⟨w, size, threshold⟩ := ld
  obtain ⟨rfl, rfl, rfl⟩ := hd
  rfl

theorem verdict_isSome_iff {config : LoopDetectorConfig} {cs : List (String × Json)} :
    (verdict hs config cs).isSome ↔ Looping hs config cs :=
  Detects.isLooping_isSome_iff ⟨rfl, rfl, rfl⟩

omit [SerdeJson] in
theorem calls_concat_of_not {e : Event} (he : dispatch? e = none) : calls (h ++ [e]) = calls h := by
  rw [calls_concat, he]
  exact List.append_nil _

/-! ## Why a run stops on a loop -/

/-- A run that stops on a loop reports the verdict on its calls. -/
def LoopsAs {α : Type} (hs : Hashing) (ex : PlanExecutor) (h : Trace)
    (e : Prog.Ending PlanError α) : Prop :=
  ∀ msg, e = some (.error (.loop msg)) →
    verdict hs ex.loopDetectorConfig (calls h) = some msg

/-- And the detector goes on being the configured one after the calls of the run. -/
def Tracked (hs : Hashing) (ex : PlanExecutor) (h : Trace) :
    Prog.Ending PlanError (StepOutcome × RunState) → Prop
  | some (.ok out) => Detects hs ex.loopDetectorConfig (calls h) out.2.loopDetector
  | e => LoopsAs hs ex h e

abbrev Any (_ : Trace) (_ : Command) : Prop := True

/-- The assertion: the detector is the configured one after the calls so far, and a run that has
ended on a loop has reported its verdict. -/
def Tracks (hs : Hashing) (ex : PlanExecutor) : Phase → RunState → Trace → Prop
  | .ended e, _, h => LoopsAs hs ex h e
  | .handed _ _ outcome, st, h => Tracked hs ex h (some (.ok (outcome, st)))
  | _, st, h => Detects hs ex.loopDetectorConfig (calls h) st.loopDetector

section Tracking

variable {α : Type} {p p' : Phase} {st st' : RunState} {e : Event} {ld : LoopDetector}

theorem loopsAs_of_ne {e : Prog.Ending PlanError α} (he : ∀ msg, e ≠ some (.error (.loop msg))) :
    LoopsAs hs ex h e :=
  fun msg h => absurd h (he msg)

theorem Detects.silent (hd : Detects hs ex.loopDetectorConfig (calls h) ld)
    (he : dispatch? e = none) : Detects hs ex.loopDetectorConfig (calls (h ++ [e])) ld := by
  rw [calls_concat_of_not he]
  exact hd

theorem Detects.called (hd : Detects hs ex.loopDetectorConfig (calls h) st.loopDetector)
    (action : String) (input : Json) (result : Except ToolError Json) :
    Detects hs ex.loopDetectorConfig (calls (h ++ [⟨.ofCall ex action input, result⟩]))
      (st.called hs action input result).loopDetector := by
  rw [calls_concat]
  cases result with
  | ok result => exact hd.record action input
  | error e => exact hd.record action input

theorem tracks_turn (ht : Turn hs ex st p p') (hp : Tracks hs ex p st h) :
    Tracks hs ex p' st h := by
  cases ht with
  | loop looping =>
    intro msg he
    cases he
    exact (Detects.isLooping_eq hp).symm.trans looping
  | empty | reempty => exact loopsAs_of_ne (by simp [emptyAction])
  | unshown | returns | reached => exact loopsAs_of_ne (by simp)
  | exhausted | fits | thoughtless | final | acts | rethoughtless | concedes | retries | said
  | unattached => exact hp

theorem tracks_step (hst : Step hs ex goal p st e p' st') (hp : Tracks hs ex p st h) :
    Tracks hs ex p' st' (h ++ [e]) := by
  cases hst with
  | succeeded result => exact Detects.called hp _ _ (.ok result)
  | failed e => exact Detects.called hp _ _ (.error e)
  | perStep | perTask | unsummarized | unanswered | unreplanned => exact loopsAs_of_ne (by simp)
  | goal | iteration | summarized | answered | considered | told | replanned | reconsidered
  | observed | repeated | elapsed | inserted => exact Detects.silent hp rfl

theorem annotates_tracks : Annotates hs ex goal (Tracks hs ex) Any (LoopsAs hs ex) where
  refused := loopsAs_of_ne (by simp)
  start _ hld := detects_fromConfig hld
  turn := tracks_turn
  step := tracks_step
  asks _ _ := trivial
  ends he := he

end Tracking

theorem loopsAs_of_returns {res : Except PlanError TaskResult}
    (hr : Prog.Returns (raced hs ex goal) h res) : LoopsAs hs ex h (some res) :=
  Prog.wp_ends annotates_tracks.wp_raced hr.ends

end Xola.PlanExecutor
