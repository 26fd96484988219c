import Xola.Planning.Verify.Accounting

/-!
# Episodes of a run

`EpisodicLog::insert` is documented to be called at the end of every task. `execute` calls it at
three of its ends: the two final answers and the exhausted iterations. The errors that leave the
loop through `?` or an early return, and the deadline, pass it by.
-/

namespace Xola.PlanExecutor

open Interaction

/-- The episodes whose insert has been issued, an interrupted one included. -/
def attempted (h : Trace) (cut : Option Command) : List EpisodeInput :=
  inserts h ++ cut.toList.filterMap Command.episode?

/-- One insert has been attempted, and its outcome agrees with what `execute` returns. -/
def LoggedOnce (h : Trace) (cut : Option Command) (res : Except PlanError TaskResult) : Prop :=
  ∃ ep, attempted h cut = [ep] ∧ (ep.outcome = .success ↔ ∃ r, res = .ok r)

/-- The loop came to its end with a final answer or with all its iterations used, or was cut when
all its iterations were used. -/
def ReachesLog (ex : PlanExecutor) (h : Trace) (cut : Option Command) : Prop :=
  cut = none ∧ h ≠ [] ∧ (finalGiven h = true ∨ succeeded h = ex.config.maxIterations) ∨
    cut ≠ none ∧ succeeded h = ex.config.maxIterations

variable {hs : Hashing} {ex : PlanExecutor} {goal : String} {h : Trace} {cut : Option Command}
  {res : Except PlanError TaskResult}

theorem not_loggedOnce_of_attempted_nil (h₀ : attempted h cut = []) : ¬LoggedOnce h cut res := by
  intro hlogged
  obtain ⟨ep, he, -⟩ := hlogged
  rw [h₀] at he
  cases he

/-- The episode of a run that recorded its outcome. -/
theorem Logged.attempted {outcome : Outcome} (hl : Logged ex h outcome)
    (hlog : ex.episodicLog ≠ none) : ∃ ep, attempted h none = [ep] ∧ ep.outcome = outcome := by
  rw [Logged, if_neg hlog] at hl
  obtain ⟨ep, hep, hout⟩ := List.map_eq_singleton_iff.1 hl
  exact ⟨ep, by simp [PlanExecutor.attempted, hep], hout⟩

/-- A run that gave up has neither recorded an episode nor come near one. -/
theorem not_reachesLog (hsucc : succeeded h < ex.config.maxIterations)
    (hfin : cut = none → finalGiven h = false) : ¬ReachesLog ex h cut := by
  rintro (⟨hcut, -, hg | hs⟩ | ⟨-, hs⟩)
  · rw [hfin hcut] at hg
    cases hg
  · omega
  · omega

/-- **When a task is logged.** With a log attached, one insert that agrees with the result is
attempted exactly if the loop reaches one of the ends that record an episode and, should it be a
final answer, the deadline does not fire during the insert. -/
theorem loggedOnce_iff [SerdeJson] (hlog : ex.episodicLog ≠ none) (hr : Executes hs ex goal h cut res) :
    LoggedOnce h cut res ↔ ReachesLog ex h cut := by
  cases hr with
  | unpolled _ =>
    refine iff_of_false (not_loggedOnce_of_attempted_nil rfl) ?_
    rintro (⟨-, hne, -⟩ | ⟨hne, -⟩)
    · exact hne rfl
    · exact hne rfl
  | @deadline h c hp hawaits =>
    cases issues_of_pending hp with
    | iteration | pushed | elapsed => cases hawaits
    | reason hw | summarize hw | dispatch hw =>
      refine iff_of_false (not_loggedOnce_of_attempted_nil ?_)
        (not_reachesLog hw.succeeded_lt fun _ => hw.unfinal)
      rw [attempted, hw.unlogged]
      rfl
    | @insert ep hb _ _ hun hout =>
      have hatt : attempted h (some (.insert ep)) = [ep] := by
        rw [attempted, hun]
        rfl
      rcases hout with ⟨hsuccess, -, hlt⟩ | ⟨hfailure, -, heq⟩
      · -- the episode says success, the caller sees the deadline
        refine iff_of_false ?_ (not_reachesLog hlt nofun)
        intro hlogged
        obtain ⟨ep', hep', hiff⟩ := hlogged
        obtain rfl : ep = ep' := List.singleton_inj.1 (hatt.symm.trans hep')
        obtain ⟨r, hr⟩ := hiff.1 hsuccess
        cases hr
      · refine iff_of_true ⟨ep, hatt, ?_⟩ (.inr ⟨nofun, heq⟩)
        rw [hfailure]
        exact iff_of_false nofun nofun
  | finished hr =>
    have hgaveUp : ∀ {res}, succeeded h < ex.config.maxIterations → inserts h = [] →
        finalGiven h = false → (LoggedOnce h none res ↔ ReachesLog ex h none) := by
      intro res hlt hun hfin
      refine iff_of_false (not_loggedOnce_of_attempted_nil ?_) (not_reachesLog hlt fun _ => hfin)
      rw [attempted, hun]
      rfl
    cases exit_of_returns hr with
    | final _ _ _ hg hl =>
      obtain ⟨ep, hatt, hout⟩ := hl.attempted hlog
      refine iff_of_true ⟨ep, hatt, iff_of_true hout ⟨_, rfl⟩⟩ (.inl ⟨rfl, ?_, .inl hg⟩)
      rintro rfl
      cases hg
    | exhausted _ _ hs _ hl =>
      obtain ⟨ep, hatt, hout⟩ := hl.attempted hlog
      refine iff_of_true ⟨ep, hatt, ?_⟩ (.inl ⟨rfl, ?_, .inr hs⟩)
      · rw [hout]
        exact iff_of_false nofun nofun
      · rintro rfl
        cases hatt
    | perStep hg | perTask hg => exact hgaveUp hg.succeeded_lt hg.unlogged hg.unfinal
    | loop hw | ipc hw => exact hgaveUp hw.succeeded_lt hw.unlogged hw.unfinal

/-! The runs of `recovering` and `stubborn`, with a log attached. -/

def logged : PlanExecutor := noTools.withEpisodicLog ⟨"postgres://localhost/xola"⟩

attribute [local instance] SerdeJson.plain

theorem loggedOnce_iff_recovering :
    LoggedOnce ((raced sameHash logged "find").exec recovering []).1 none (.ok recovered) := by
  have hres : ((raced sameHash logged "find").exec recovering []).2 = some (.ok recovered) := by
    decide +kernel
  have hlogged := loggedOnce_iff (by decide) (.finished (Prog.exec_returns hres))
  refine hlogged.2 (.inl ⟨rfl, ?_, .inl ?_⟩)
  · exact fun hnil => absurd (congrArg finalGiven hnil) (by decide +kernel)
  · decide +kernel

/-- A task that fails on its replan limit leaves no episode. -/
theorem stubborn_not_logged :
    ∃ h res, Executes sameHash logged "find" h none res ∧ ¬LoggedOnce h none res := by
  have hres : ((raced sameHash logged "find").exec stubborn []).2 =
      some (.error (.maxReplansPerStep 3 "search")) := by decide +kernel
  refine ⟨_, _, .finished (Prog.exec_returns hres), ?_⟩
  have hnone : (attempted ((raced sameHash logged "find").exec stubborn []).1 none).length = 0 := by
    decide +kernel
  exact not_loggedOnce_of_attempted_nil (List.length_eq_zero_iff.1 hnone)

end Xola.PlanExecutor
