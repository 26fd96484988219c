import Xola.Planning.Timed
import Xola.Planning.Verify.Accounting
import Xola.Planning.Verify.Reach

/-!
# Nested deadlines

Of the three timeouts of a `TimeoutConfig`, `execute` reads that of the task. Tool calls are bounded
by the other configuration, the one of tool timeouts, and iterations by nothing: the budgets of
tools and steps are kept only where the timeouts that are enforced imply them.
-/

namespace Xola.PlanExecutor

open Interaction

section Budgets

variable [SerdeJson] {hs : Hashing} {ex : PlanExecutor} {goal : String}

/-- What is within the budgets when `c` has been waiting for `w`: the tool call, the iteration and
the task. -/
structure WithinBudgets (config : TimeoutConfig) (t : TimedTrace) (c : Command) (w : Nat) :
    Prop where
  tool : c.isToolCall = true → w ≤ config.toolTimeout
  step : c.isStep = true → iterationTime t + w ≤ config.stepTimeout
  task : totalTime t + w ≤ config.taskTimeout

/-- No moment of a run exceeds a budget: what would have done so has been cancelled. -/
def Enforced (hs : Hashing) (ex : PlanExecutor) (goal : String) : Prop :=
  ∀ t c w, Moment hs ex goal t c w → WithinBudgets ex.timeoutCtxConfig t c w

/-- A run can get as far as an iteration. -/
structure CanIterate (ex : PlanExecutor) : Prop where
  created : LoopDetector.fromConfig ex.loopDetectorConfig ≠ none
  budget : ex.config.stmTokenBudget ≠ 0
  iterations : ex.config.maxIterations ≠ 0

/-- The timeouts that are enforced imply the others: that of the task the one of a step, and those
of the tools, as far as the task leaves them time, the one of a tool. -/
structure Implied (ex : PlanExecutor) : Prop where
  step : ex.timeoutCtxConfig.taskTimeout ≤ ex.timeoutCtxConfig.stepTimeout
  tool : ∀ action ≠ "", (ex.registry.get action).isSome = true →
    min (ex.timeoutConfig.getTimeout action) ex.timeoutCtxConfig.taskTimeout ≤
      ex.timeoutCtxConfig.toolTimeout

omit [SerdeJson] in
theorem iterationTime_le_totalTime (t : TimedTrace) : iterationTime t ≤ totalTime t := by
  induction t using List.reverseRecOn with
  | nil => exact Nat.le_refl _
  | append_singleton t e ih =>
    have htotal : totalTime (t ++ [e]) = totalTime t + e.2 := by
      simp [totalTime]
    have htime : iterationTime (t ++ [e]) =
        if e.1.1.isIteration then 0 else
          if e.1.1.isStep then iterationTime t + e.2 else iterationTime t := by
      simp [iterationTime]
    rw [htotal, htime]
    split
    · exact Nat.zero_le _
    split
    · exact Nat.add_le_add_right ih _
    · exact ih.trans (Nat.le_add_right _ _)

/-! ## Moments of a run -/

omit [SerdeJson] in
theorem events_undelayed (h : Trace) : events (h.map (·, 0)) = h := by
  rw [events, List.map_map]
  exact List.map_id _

omit [SerdeJson] in
theorem totalTime_undelayed (h : Trace) : totalTime (h.map (·, 0)) = 0 := by
  induction h with
  | nil => rfl
  | cons e h ih => simpa [totalTime] using ih

/-- A run without delays gets to every command that the program may issue, and it may wait there. -/
theorem moment_of_may {P : Command → Prop} {w : Nat} (hmay : (raced hs ex goal).May P)
    (hw : ∀ c, P c → Waits ex c w) (htask : w ≤ ex.timeoutCtxConfig.taskTimeout) :
    ∃ t c, Moment hs ex goal t c w ∧ P c := by
  obtain ⟨h, c, hp, hc⟩ := hmay
  have hevents := events_undelayed h
  have htotal := totalTime_undelayed h
  refine ⟨h.map (·, 0), c, ⟨hevents.symm ▸ hp, ?_, hw c hc, by omega⟩, hc⟩
  intro e he
  obtain ⟨⟨c', a⟩, -, rfl⟩ := List.mem_map.1 he
  cases c' <;> simp [Waits]

theorem canIterate_of_pending {h : Trace} {c : Command}
    (hp : Prog.Pending (raced hs ex goal) h c) (hc : c.isStep = true) : CanIterate ex := by
  have hworking : Working ex h := by
    cases issues_of_pending hp with
    | reason hw | summarize hw | dispatch hw => exact hw
    | iteration | pushed | elapsed | insert => cases hc
  have hlt := hworking.succeeded_lt
  refine ⟨?_, ?_, by omega⟩
  · intro hnone
    rw [raced, hnone] at hp
    obtain ⟨k, hk⟩ := hp
    cases hk
  · intro hzero
    obtain ⟨k, hk⟩ := hp
    unfold raced executeInner at hk
    rw [hzero] at hk
    split at hk <;> cases hk

theorem mayReason (hi : CanIterate ex) :
    (raced hs ex goal).May fun c => ∃ request, c = .reason request := by
  refine raced_may hi.created hi.budget ?_
  intro stm ld _
  obtain ⟨n, hn⟩ := Nat.exists_eq_succ_of_ne_zero hi.iterations
  rw [hn]
  exact iterate_mayReason fun request => ⟨request, rfl⟩

theorem mayDispatch (hi : CanIterate ex) {action : String} (haction : action ≠ "") :
    (raced hs ex goal).May
      (· = .executeWithTimeout action .null (ex.timeoutConfig.getTimeout action)) := by
  refine raced_may hi.created hi.budget ?_
  intro stm ld hld
  obtain ⟨n, hn⟩ := Nat.exists_eq_succ_of_ne_zero hi.iterations
  rw [hn]
  refine iterate_mayDispatch haction ?_ rfl
  rw [← Option.not_isSome_iff_eq_none, (detects_fromConfig hld).isLooping_isSome_iff]
  rintro ⟨x, hx, -⟩
  simp [window, List.rtake] at hx

omit [SerdeJson] in
/-- What is asked for has a name. -/
theorem ne_empty_of_requested {h : Trace} {action : String} {input : Json}
    (hr : requested h = some (action, input)) : action ≠ "" := by
  induction h using List.reverseRecOn with
  | nil => cases hr
  | append_singleton h e ih =>
    rw [requested_concat] at hr
    obtain ⟨c, answer⟩ := e
    cases c with
    | pushed => exact ih hr
    | reason request =>
      cases answer with
      | error e => cases hr
      | ok response =>
        simp only [Event.request, Option.ite_none_right_eq_some, Option.some.injEq,
          Prod.mk.injEq] at hr
        exact hr.2.1 ▸ hr.1.2
    | iteration | summarize | executeWithTimeout | elapsed | insert => cases hr

/-- A tool call that lasts is a call of a registered tool, within the timeout of that tool. -/
theorem Moment.toolCall {t : TimedTrace} {action : String} {input : Json} {timeout w : Nat}
    (hm : Moment hs ex goal t (.executeWithTimeout action input timeout) w) (hw : w ≠ 0) :
    action ≠ "" ∧ (ex.registry.get action).isSome = true ∧ w ≤ ex.timeoutConfig.getTimeout action := by
  have hle := hm.waits
  rw [Waits] at hle
  split at hle
  next hreg =>
    cases issues_of_pending hm.pending with
    | dispatch _ hreq _ => exact ⟨ne_empty_of_requested hreq, hreg, hle⟩
  next => exact absurd (Nat.le_zero.1 hle) hw

/-! ## When the budgets are kept -/

theorem Implied.enforced (hi : Implied ex) : Enforced hs ex goal := by
  intro t c w hm
  have htotal := iterationTime_le_totalTime t
  have htask := hm.inTime
  refine ⟨?_, ?_, htask⟩
  · intro hc
    cases c with
    | executeWithTimeout action input timeout =>
      by_cases hw : w = 0
      · omega
      · obtain ⟨haction, hreg, hle⟩ := hm.toolCall hw
        have htool := hi.tool action haction hreg
        omega
    | iteration | pushed | reason | summarize | elapsed | insert => cases hc
  · intro _
    have hstep := hi.step
    omega

theorem enforced_of_not_canIterate (hi : ¬CanIterate ex) : Enforced hs ex goal := by
  intro t c w hm
  have hstep : c.isStep = true → False := fun hc => hi (canIterate_of_pending hm.pending hc)
  refine ⟨?_, fun hc => (hstep hc).elim, hm.inTime⟩
  intro hc
  cases c with
  | executeWithTimeout => exact (hstep rfl).elim
  | iteration | pushed | reason | summarize | elapsed | insert => cases hc

theorem implied_of_enforced (hi : CanIterate ex) (he : Enforced hs ex goal) : Implied ex := by
  constructor
  · by_contra hlt
    have hw : ∀ c : Command, (∃ request, c = .reason request) →
        Waits ex c (ex.timeoutCtxConfig.stepTimeout + 1) := by
      rintro c ⟨request, rfl⟩
      trivial
    obtain ⟨t, _, hm, request, rfl⟩ := moment_of_may (mayReason hi) hw (Nat.lt_of_not_le hlt)
    have hstep := (he _ _ _ hm).step rfl
    omega
  · intro action haction hreg
    by_contra hlt
    have hw : ∀ c : Command,
        c = .executeWithTimeout action .null (ex.timeoutConfig.getTimeout action) →
          Waits ex c (ex.timeoutCtxConfig.toolTimeout + 1) := by
      rintro c rfl
      rw [Waits, if_pos hreg]
      omega
    obtain ⟨t, _, hm, rfl⟩ := moment_of_may (mayDispatch hi haction) hw (by omega)
    have htool := (he _ _ _ hm).tool rfl
    omega

end Budgets

attribute [local instance] SerdeJson.plain

end Xola.PlanExecutor
