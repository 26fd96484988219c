import Xola.Planning.Verify.Obligations

/-!
# Run accounting

What the counters of a successful run count, how much work a run can do, and how the replan limits
relate to the replans that are made before they strike.
-/

namespace Xola.PlanExecutor

open Interaction

variable {hs : Hashing} {ex : PlanExecutor} {goal : String} {h : Trace} {cut : Option Command}
  {res : Except PlanError TaskResult}

/-- **A successful run adds up.** Its steps are its tool calls in order; all iterations but the last
ended in a successful call; the replans are the failed calls; and the model was asked once in each
iteration and once for each replan. -/
theorem execute_accounting [SerdeJson] {r : TaskResult} (hr : Executes hs ex goal h cut (.ok r)) :
    r.steps = dispatches h ∧
    r.steps.countP (·.success) = r.iterations - 1 ∧
    r.steps.countP (!·.success) = r.totalReplans ∧
    reasons h = r.iterations + r.totalReplans ∧
    1 ≤ r.iterations ∧ r.iterations ≤ ex.config.maxIterations ∧
    (r.totalReplans = 0 ∨ r.totalReplans < ex.config.replan.maxReplansPerTask) ∧
    (blocks h).length = r.iterations ∧
    ∀ b ∈ blocks h, failed b ≤ max ex.config.replan.maxReplansPerStep 1 - 1 := by
  cases hr with
  | finished hr =>
    cases exit_of_returns hr with
    | final hb hl _ _ _ =>
      have hsucc := hl.succeeded_eq
      have hfail := hl.failed_eq
      have htask := hl.perTask
      have hlen := hb.iterations
      rw [hl.blocks_length] at hlen
      rw [succeeded, ← hl.steps_eq] at hsucc
      rw [failed, ← hl.steps_eq] at hfail
      refine ⟨hl.steps_eq, hsucc, hfail, hl.reasons_eq, by simp, hlen, ?_, hl.blocks_length, ?_⟩
      · dsimp only
        omega
      · exact fun b hb' => Nat.le_sub_one_of_lt (hl.perStep b hb')

/-! A run on the default limits: a call fails, the replan succeeds, then the model is done. -/

def sameHash : Hashing := ⟨fun _ _ => 0, id, fun _ => .refl _⟩

/-- An executor with the default limits and no tools. -/
def noTools : PlanExecutor := .new (.new .default) .default .default

def recovering : Trace → (c : Command) → c.Answer
  | _, .iteration _ => ()
  | _, .pushed _ _ => ()
  | h, .reason _ =>
    if succeeded h = 0 then .ok ⟨"look it up", some "search", .obj [], false, none⟩
    else .ok ⟨"", none, .obj [], true, some "done"⟩
  | _, .summarize _ => .error (.transport "connection refused")
  | h, .executeWithTimeout action _ _ =>
    if failed h = 0 then .error (.notFound action) else .ok .null
  | _, .elapsed => 7
  | _, .insert _ => .ok ()

def recovered : TaskResult where
  outcome := .success
  finalAnswer := some "done"
  steps := [.failure "search" (.obj []) "Tool 'search' not found in registry",
    .succeeded "search" (.obj [])]
  durationMs := 7
  iterations := 2
  totalReplans := 1

section Example

attribute [local instance] SerdeJson.plain

def recoveringTrace : Trace := ((raced sameHash noTools "find").exec recovering []).1

theorem executes_recovering :
    Executes sameHash noTools "find" recoveringTrace none (.ok recovered) :=
  .finished (Prog.exec_returns (by decide +kernel))

theorem execute_accounting_recovering :
    recovered.steps = dispatches recoveringTrace ∧ reasons recoveringTrace = 3 := by
  have h := execute_accounting executes_recovering
  exact ⟨h.1, h.2.2.2.1⟩

end Example

/-- **Bounded work.** Against every environment the loop comes to an end, and at every point on the
way, the deadline's included, its work is within the limits. -/
theorem execute_bounded [SerdeJson] (hs : Hashing) (ex : PlanExecutor) (goal : String) :
    (∀ env, ∃ h e, Prog.Ends (raced hs ex goal) h e ∧ (raced hs ex goal).exec env [] = (h, e)) ∧
    ∀ h q, Prog.Reaches (raced hs ex goal) h q →
      reasons h ≤ ex.config.maxIterations + max ex.config.replan.maxReplansPerTask 1 - 1 ∧
      reasons h ≤ ex.config.maxIterations * max ex.config.replan.maxReplansPerStep 1 ∧
      (dispatches h).length ≤ reasons h ∧
      failed h ≤ max ex.config.replan.maxReplansPerTask 1 ∧
      (∀ b ∈ blocks h, failed b ≤ max ex.config.replan.maxReplansPerStep 1) ∧
      summarizes h ≤ ex.config.maxIterations := by
  constructor
  · intro env
    obtain ⟨t, ht, hh⟩ := Prog.exec_ends env (raced hs ex goal) []
    exact ⟨t, _, ht, Prod.ext hh rfl⟩
  · intro h q hr
    have hw := within_of_reaches hr
    have hreasons := hw.reasons_le
    exact ⟨by omega, hw.reasons_le_mul, hw.dispatches_le, hw.failed_le, hw.perStep,
      hw.summarizes_le⟩

section Example

attribute [local instance] SerdeJson.plain

theorem execute_bounded_recovering :
    reasons recoveringTrace ≤ 34 ∧ failed recoveringTrace ≤ 10 := by
  have hr : Prog.Returns (raced sameHash noTools "find") recoveringTrace (.ok recovered) :=
    Prog.exec_returns (by decide +kernel)
  have h := (execute_bounded sameHash noTools "find").2 _ _ hr
  exact ⟨h.1, h.2.2.2.1⟩

end Example

/-! ## The replan allowance -/

/-- The replans of an iteration: its calls to `/reason` after the first. -/
def stepReplans (b : Trace) : Nat := reasons b - 1

/-- The replans of a run: its calls to `/reason` beyond one in each iteration. -/
def taskReplans (h : Trace) : Nat := reasons h - (blocks h).length

/-- A run that gives up on a replan limit has made that many replans. -/
def FullAllowance (ex : PlanExecutor) (h : Trace) (res : Except PlanError TaskResult) : Prop :=
  (∀ n action, res = .error (.maxReplansPerStep n action) →
    ∀ b ∈ (blocks h).head?, stepReplans b = ex.config.replan.maxReplansPerStep) ∧
  ∀ n, res = .error (.maxReplansPerTask n) → taskReplans h = ex.config.replan.maxReplansPerTask

/-- No limit is reached: every iteration has fewer failed calls than the step limit, and the run
fewer than the task limit. A task limit of zero, which the first failure exceeds, counts as met. -/
def LimitsUnreached (ex : PlanExecutor) (h : Trace) : Prop :=
  (∀ b ∈ blocks h, failed b < ex.config.replan.maxReplansPerStep) ∧
    (ex.config.replan.maxReplansPerTask = 0 ∨ failed h < ex.config.replan.maxReplansPerTask)

/-- A run that goes on has not reached a limit. -/
theorem Bounded.limitsUnreached (hb : Bounded ex h)
    (hs : ex.config.replan.maxReplansPerStep ≠ 0) : LimitsUnreached ex h := by
  constructor
  · intro b hmem
    have := hb.perStep_lt b hmem
    omega
  · have := hb.failed_lt
    omega

theorem fullAllowance_of_other
    (hstep : ∀ n action, res ≠ .error (.maxReplansPerStep n action))
    (htask : ∀ n, res ≠ .error (.maxReplansPerTask n)) : FullAllowance ex h res :=
  ⟨fun n action he => absurd he (hstep n action), fun n he => absurd he (htask n)⟩

/-- The step limit strikes one replan early, unless it is zero. -/
theorem fullAllowance_perStep {f : Nat} {action : String} (hc : Current h (f + 1) (f + 1))
    (hbelow : f < max ex.config.replan.maxReplansPerStep 1) :
    FullAllowance ex h (.error (.maxReplansPerStep (f + 1) action)) ↔
      ex.config.replan.maxReplansPerStep = 0 := by
  obtain ⟨b, bs, hb, -, hr⟩ := hc
  have hhead : stepReplans b = f := by rw [stepReplans, hr, Nat.add_sub_cancel]
  constructor
  · intro hboth
    obtain ⟨hfull, -⟩ := hboth
    have := hfull _ _ rfl b (by rw [hb]; rfl)
    omega
  · intro hzero
    refine ⟨?_, nofun⟩
    intro n a _ b' hb'
    rw [hb] at hb'
    cases hb'
    omega

/-- The task limit strikes one replan early, unless it is zero. -/
theorem fullAllowance_perTask {n : Nat} (hreasons : reasons h = (blocks h).length + n)
    (hbelow : n < max ex.config.replan.maxReplansPerTask 1) :
    FullAllowance ex h (.error (.maxReplansPerTask (n + 1))) ↔
      ex.config.replan.maxReplansPerTask = 0 := by
  have htask : taskReplans h = n := by rw [taskReplans, hreasons, Nat.add_sub_cancel_left]
  constructor
  · intro hboth
    obtain ⟨-, hfull⟩ := hboth
    have := hfull _ rfl
    omega
  · intro hzero
    exact ⟨nofun, fun m _ => by omega⟩

/-- **The allowance is one short.** A run that ends makes full use of its replan allowance exactly
if the step limit is zero or no limit is reached. -/
theorem fullAllowance_iff [SerdeJson] (hr : Executes hs ex goal h cut res) :
    FullAllowance ex h res ↔
      ex.config.replan.maxReplansPerStep = 0 ∨ LimitsUnreached ex h := by
  have hother : ∀ {res}, (∀ n action, res ≠ .error (.maxReplansPerStep n action)) →
      (∀ n, res ≠ .error (.maxReplansPerTask n)) → Bounded ex h → (FullAllowance ex h res ↔
        ex.config.replan.maxReplansPerStep = 0 ∨ LimitsUnreached ex h) := fun h₁ h₂ hb =>
    iff_of_true (fullAllowance_of_other h₁ h₂)
      (Classical.or_iff_not_imp_left.2 hb.limitsUnreached)
  cases hr with
  | unpolled _ => exact hother nofun nofun (bounded_nil ex)
  | deadline hp _ => exact hother nofun nofun (issues_of_pending hp).bounded
  | finished hr =>
    cases exit_of_returns hr with
    | final hb | exhausted hb => exact hother nofun nofun hb
    | loop hw | ipc hw => exact hother nofun nofun hw.toBounded
    | perStep _ _ hc hbelow hreached =>
      rw [fullAllowance_perStep hc hbelow]
      refine ⟨.inl, fun h => h.elim id ?_⟩
      intro hlim
      obtain ⟨b, bs, hb, hf, -⟩ := hc
      have := hlim.1 b (by rw [hb]; exact List.mem_cons_self)
      omega
    | perTask _ _ hfailed hreasons hbelow hreached hpos hlt =>
      rw [fullAllowance_perTask hreasons hbelow]
      constructor
      · exact fun hzero => .inr ⟨hlt, .inl hzero⟩
      · rintro (hzero | ⟨-, hzero | hlt⟩)
        · omega
        · exact hzero
        · omega

section Example

attribute [local instance] SerdeJson.plain

theorem fullAllowance_iff_recovering : FullAllowance noTools recoveringTrace (.ok recovered) := by
  refine (fullAllowance_iff executes_recovering).2 (.inr ?_)
  unfold LimitsUnreached
  decide +kernel

end Example

/-- A model that keeps asking for a tool that does not exist. -/
def stubborn : Trace → (c : Command) → c.Answer
  | _, .iteration _ => ()
  | _, .pushed _ _ => ()
  | _, .reason _ => .ok ⟨"", some "search", .obj [], false, none⟩
  | _, .summarize _ => .error (.transport "connection refused")
  | _, .executeWithTimeout action _ _ => .error (.notFound action)
  | _, .elapsed => 0
  | _, .insert _ => .ok ()

section Example

attribute [local instance] SerdeJson.plain

/-- On the default step limit of three, two replans are made. -/
theorem stubborn_not_fullAllowance :
    ∃ h res, Executes sameHash noTools "find" h none res ∧ ¬FullAllowance noTools h res := by
  have hres : ((raced sameHash noTools "find").exec stubborn []).2 =
      some (.error (.maxReplansPerStep 3 "search")) := by decide +kernel
  refine ⟨_, _, .finished (Prog.exec_returns hres), ?_⟩
  intro hfull
  have hhead : (blocks ((raced sameHash noTools "find").exec stubborn []).1).head?.map
      stepReplans = some 2 := by decide +kernel
  obtain ⟨b, hb, hreplans⟩ := Option.map_eq_some_iff.1 hhead
  have hthree := hfull.1 _ _ rfl b hb
  rw [hreplans] at hthree
  exact absurd hthree (by decide)

end Example

end Xola.PlanExecutor
