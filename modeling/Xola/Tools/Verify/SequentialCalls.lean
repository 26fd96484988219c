import Xola.Tools.Calls

/-!
# When the registry rejects a call

For calls that do not overlap, the three fields of a breaker are a function of the executions its
tool has had. `Tracks` says which, state by state: the failure count is the length of the trailing
run of failures while the breaker is closed, and is left alone afterwards, when only the time of the
last failure matters. Every operation of a call keeps it, and it decides `can_execute`.
-/

namespace Xola

open Interaction

/-! ## Trailing failures -/

def executionsOf (tool : String) (execs : List Execution) : List Execution :=
  execs.filter (·.tool = tool)

/-- The failed executions of the tool since its last successful one. -/
def trailingFailures (tool : String) (execs : List Execution) : List Execution :=
  (executionsOf tool execs).rtakeWhile (·.failed)

def lastFailed (tool : String) (execs : List Execution) : Option Execution :=
  ((executionsOf tool execs).filter (·.failed)).getLast?

section Append

variable {tool : String} {execs : List Execution} {e : Execution}

theorem executionsOf_append (h : e.tool = tool) :
    executionsOf tool (execs ++ [e]) = executionsOf tool execs ++ [e] := by
  simp [executionsOf, h]

theorem executionsOf_append_other (h : e.tool ≠ tool) :
    executionsOf tool (execs ++ [e]) = executionsOf tool execs := by
  simp [executionsOf, h]

theorem trailingFailures_failed (h : e.tool = tool) (hf : e.failed = true) :
    trailingFailures tool (execs ++ [e]) = trailingFailures tool execs ++ [e] := by
  unfold trailingFailures
  rw [executionsOf_append h, List.rtakeWhile_concat_pos _ _ _ hf]

theorem trailingFailures_succeeded (h : e.tool = tool) (hf : e.failed = false) :
    trailingFailures tool (execs ++ [e]) = [] := by
  unfold trailingFailures
  rw [executionsOf_append h, List.rtakeWhile_concat_neg _ _ _ (by simp [hf])]

theorem lastFailed_failed (h : e.tool = tool) (hf : e.failed = true) :
    lastFailed tool (execs ++ [e]) = some e := by
  unfold lastFailed
  rw [executionsOf_append h, List.filter_append, List.filter_singleton, hf]
  simp

end Append

/-! ## The invariant of one breaker -/

/-- The trailing failures of the tool have reached the threshold, and the breaker knows the last. -/
structure Tripped (tool : String) (execs : List Execution) (b : CircuitBreaker) : Prop where
  run : max 1 b.config.failureThreshold ≤ (trailingFailures tool execs).length
  last : ∃ e, lastFailed tool execs = some e ∧ e.finish = b.lastFailure

/-- What the breaker of the tool holds at `clock` after the executions. -/
inductive Tracks (tool : String) (execs : List Execution) (clock : Nat) (b : CircuitBreaker) : Prop
  | closed (state : b.state = .closed)
      (count : b.failureCount = (trailingFailures tool execs).length)
      (below : (trailingFailures tool execs).length < max 1 b.config.failureThreshold)
  | opened (state : b.state = .opened) (tripped : Tripped tool execs b)
  | halfOpen (state : b.state = .halfOpen) (tripped : Tripped tool execs b)
      (elapsed : b.recovery ≤ clock - b.lastFailure)

namespace Tracks

variable {tool : String} {execs : List Execution} {clock now : Nat} {b : CircuitBreaker}

theorem mono (h : Tracks tool execs clock b) (hle : clock ≤ now) : Tracks tool execs now b := by
  cases h with
  | closed hs hc hb => exact .closed hs hc hb
  | opened hs ht => exact .opened hs ht
  | halfOpen hs ht he => exact .halfOpen hs ht (by omega)

/-- Executions of other tools leave the breaker as it is. -/
theorem other (h : Tracks tool execs clock b) {e : Execution} (he : e.tool ≠ tool) :
    Tracks tool (execs ++ [e]) clock b := by
  have hr : trailingFailures tool (execs ++ [e]) = trailingFailures tool execs := by
    rw [trailingFailures, executionsOf_append_other he, trailingFailures]
  have hl : lastFailed tool (execs ++ [e]) = lastFailed tool execs := by
    rw [lastFailed, executionsOf_append_other he, lastFailed]
  cases h with
  | closed hs hc hb => exact .closed hs (hr ▸ hc) (hr ▸ hb)
  | opened hs ht => exact .opened hs ⟨hr ▸ ht.run, hl ▸ ht.last⟩
  | halfOpen hs ht hel => exact .halfOpen hs ⟨hr ▸ ht.run, hl ▸ ht.last⟩ hel

theorem canExecute (h : Tracks tool execs clock b) (hle : clock ≤ now) :
    Tracks tool execs now (b.canExecute now).1 := by
  cases h with
  | closed hs hc hb =>
    rw [CircuitBreaker.canExecute_closed hs]
    exact .closed hs hc hb
  | opened hs ht =>
    cases hr : b.shouldAttemptReset now with
    | false =>
      rw [CircuitBreaker.canExecute_rejects hs hr]
      exact .opened hs ht
    | true =>
      rw [CircuitBreaker.canExecute_reset hs hr]
      exact .halfOpen rfl ⟨ht.run, ht.last⟩ (of_decide_eq_true hr)
  | halfOpen hs ht he =>
    rw [CircuitBreaker.canExecute_halfOpen hs]
    exact .halfOpen hs ht (he.trans (Nat.sub_le_sub_right hle _))

/-- An admitted call finds the breaker closed or half-open. -/
theorem admitted_state (hadm : (b.canExecute now).2 = true) :
    (b.canExecute now).1.state ≠ .opened := by
  cases hs : b.state with
  | closed => rw [CircuitBreaker.canExecute_closed hs, hs]; simp
  | halfOpen => rw [CircuitBreaker.canExecute_halfOpen hs, hs]; simp
  | opened =>
    cases hr : b.shouldAttemptReset now with
    | true => rw [CircuitBreaker.canExecute_reset hs hr]; simp
    | false => rw [CircuitBreaker.canExecute_rejects hs hr] at hadm; cases hadm

theorem recordSuccess (h : Tracks tool execs clock b) (hs : b.state ≠ .opened) (finish : Nat) :
    Tracks tool (execs ++ [⟨tool, finish, false⟩]) finish b.recordSuccess := by
  have hr : trailingFailures tool (execs ++ [⟨tool, finish, false⟩]) = [] :=
    trailingFailures_succeeded rfl rfl
  have hclosed : b.recordSuccess.state = .closed ∧ b.recordSuccess.failureCount = 0 := by
    unfold CircuitBreaker.recordSuccess
    cases h with
    | closed hs' _ _ => simp [hs']
    | opened hs' _ => exact absurd hs' hs
    | halfOpen hs' _ _ => simp [hs']
  refine .closed hclosed.1 (by rw [hr]; exact hclosed.2) ?_
  rw [hr, List.length_nil]
  omega

theorem recordFailure (h : Tracks tool execs clock b) (hs : b.state ≠ .opened) (finish : Nat) :
    Tracks tool (execs ++ [⟨tool, finish, true⟩]) finish (b.recordFailure finish) := by
  have hr : trailingFailures tool (execs ++ [⟨tool, finish, true⟩]) =
      trailingFailures tool execs ++ [⟨tool, finish, true⟩] := trailingFailures_failed rfl rfl
  have hl : lastFailed tool (execs ++ [⟨tool, finish, true⟩]) = some ⟨tool, finish, true⟩ :=
    lastFailed_failed rfl rfl
  have hlen : (trailingFailures tool (execs ++ [⟨tool, finish, true⟩])).length =
      (trailingFailures tool execs).length + 1 := by rw [hr]; simp
  cases h with
  | opened hs' _ => exact absurd hs' hs
  | halfOpen hs' ht _ =>
    simp only [CircuitBreaker.recordFailure, hs']
    exact .opened rfl ⟨by rw [hlen]; exact ht.run.trans (Nat.le_succ _), _, hl, rfl⟩
  | closed hs' hc hb =>
    simp only [CircuitBreaker.recordFailure, hs']
    by_cases hth : b.config.failureThreshold ≤ b.failureCount + 1
    · rw [if_pos hth]
      refine .opened rfl ⟨?_, _, hl, rfl⟩
      rw [hlen, ← hc]
      exact Nat.max_le.2 ⟨by omega, hth⟩
    · rw [if_neg hth]
      refine .closed rfl (by rw [hlen, hc]) ?_
      rw [hlen, ← hc]
      exact Nat.lt_of_not_le hth |>.trans_le (Nat.le_max_right _ _)

/-- The history decides `can_execute`. -/
theorem rejects_iff (h : Tracks tool execs clock b) (hle : clock ≤ now) :
    (b.canExecute now).2 = false ↔
      max 1 b.config.failureThreshold ≤ (trailingFailures tool execs).length ∧
        ∃ e, lastFailed tool execs = some e ∧ now - e.finish < b.recovery := by
  rw [CircuitBreaker.canExecute_eq_false_iff, CircuitBreaker.shouldAttemptReset,
    decide_eq_false_iff_not, Nat.not_le]
  cases h with
  | closed hs _ hb =>
    constructor
    · intro hopen
      obtain ⟨hs', -⟩ := hopen
      rw [hs] at hs'
      cases hs'
    · intro hfails
      obtain ⟨hle', -⟩ := hfails
      exact absurd hle' (Nat.not_le.2 hb)
  | opened hs ht =>
    obtain ⟨e, he, hf⟩ := ht.last
    constructor
    · intro hopen
      obtain ⟨-, hlt⟩ := hopen
      exact ⟨ht.run, e, he, hf ▸ hlt⟩
    · intro hfails
      obtain ⟨-, e', he', hlt⟩ := hfails
      cases he.symm.trans he'
      exact ⟨hs, hf ▸ hlt⟩
  | halfOpen hs ht hel =>
    obtain ⟨e, he, hf⟩ := ht.last
    constructor
    · intro hopen
      obtain ⟨hs', -⟩ := hopen
      rw [hs] at hs'
      cases hs'
    · intro hfails
      obtain ⟨-, e', he', hlt⟩ := hfails
      cases he.symm.trans he'
      omega

end Tracks

/-! ## Sessions -/

namespace Session

section Sound

/-- Every breaker of the session tracks the executions of its tool. -/
structure Sound (config : CircuitBreakerConfig) (s : Session) (clock : Nat) : Prop where
  config_eq : ∀ tool, (s.registry.breaker tool).config = config
  tracks : ∀ tool, Tracks tool s.executions clock (s.registry.breaker tool)

variable {config : CircuitBreakerConfig} {validatorFor : ValidatorFor} {s s' : Session}
  {clock : Nat} {c : Call} {res : Except ToolError Json}

/-- A call changes one breaker; the others see at most an execution of another tool. -/
theorem Sound.update (h : Sound config s clock) {b : CircuitBreaker} (hb : b.config = config)
    (hreg : s'.registry.breaker = Function.update s.registry.breaker c.tool b)
    (htool : Tracks c.tool s'.executions c.finish b)
    (hothers : ∀ tool ≠ c.tool, Tracks tool s.executions c.finish (s.registry.breaker tool) →
      Tracks tool s'.executions c.finish (s.registry.breaker tool))
    (hclock : clock ≤ c.finish) : Sound config s' c.finish := by
  constructor
  · intro tool
    by_cases ht : tool = c.tool
    · rw [hreg, ht, Function.update_self, hb]
    · rw [hreg, Function.update_of_ne ht]
      exact h.config_eq tool
  · intro tool
    by_cases ht : tool = c.tool
    · rw [hreg, ht, Function.update_self]
      exact htool
    · rw [hreg, Function.update_of_ne ht]
      exact hothers tool ht ((h.tracks tool).mono hclock)

variable [SerdeJson]

theorem Sound.call (h : Sound config s clock) (hstart : clock ≤ c.start)
    (hfinish : c.start ≤ c.finish) (hcall : s.call validatorFor c = (s', some res)) :
    Sound config s' c.finish := by
  have hclock : clock ≤ c.finish := hstart.trans hfinish
  have hb := (h.tracks c.tool).canExecute hstart
  have hconfig : ((s.registry.breaker c.tool).canExecute c.start).1.config = config := by
    rw [CircuitBreaker.canExecute_config, h.config_eq]
  cases callEffect hcall with
  | unregistered _ => exact ⟨h.config_eq, fun tool => (h.tracks tool).mono hclock⟩
  | rejected _ hreg hex =>
    exact h.update hconfig hreg (hex ▸ hb.mono hfinish) (fun _ _ ht => hex ▸ ht) hclock
  | invalid _ hreg hex _ =>
    exact h.update hconfig hreg (hex ▸ hb.mono hfinish) (fun _ _ ht => hex ▸ ht) hclock
  | executed hadm hreg hex =>
    have hstate := Tracks.admitted_state hadm
    refine h.update ?_ hreg ?_ (fun tool ht htr => hex ▸ htr.other (Ne.symm ht)) hclock
    · split <;> simp [h.config_eq]
    · rw [hex]
      cases hf : c.fails with
      | false => exact hb.recordSuccess hstate c.finish
      | true => exact hb.recordFailure hstate c.finish

theorem Run.sound {tools : List Tool} {r : ToolRegistry} {calls : List Call}
    (hr : ToolRegistry.ofTools config tools = .ok r) (h : Run validatorFor r calls s clock) :
    Sound config s clock := by
  induction h with
  | nil =>
    have hfresh := ToolRegistry.fresh_ofTools hr
    constructor
    · intro tool
      rw [hfresh.breaker_eq]
      rfl
    · intro tool
      rw [hfresh.breaker_eq]
      exact .closed rfl rfl (Nat.lt_of_lt_of_le Nat.one_pos (Nat.le_max_left _ _))
  | snoc _ hstart hfinish hcall ih => exact ih.call hstart hfinish hcall

/-- **When a call is rejected.** After any completed calls to any tools, a call that completes is
turned away by the breaker exactly when the failed executions of its tool since the last successful
one have reached the threshold and less than the recovery timeout has passed since the last. -/
theorem rejected_iff_trailingFailures {tools : List Tool} {r : ToolRegistry} {calls : List Call}
    (hrecovery : config.recoveryTimeout < 2 ^ 64)
    (hr : ToolRegistry.ofTools config tools = .ok r) (h : Run validatorFor r calls s clock)
    (hstart : clock ≤ c.start) (hcall : s.call validatorFor c = (s', some res)) :
    (res = .error (.circuitOpen c.tool) ∧ s'.executions = s.executions) ↔
      max 1 config.failureThreshold ≤ (trailingFailures c.tool s.executions).length ∧
        ∃ e, lastFailed c.tool s.executions = some e ∧
          c.start - e.finish < config.recoveryTimeout := by
  have hsound := h.sound hr
  have hrejects := (hsound.tracks c.tool).rejects_iff hstart
  have hrec : (s.registry.breaker c.tool).recovery = config.recoveryTimeout := by
    rw [CircuitBreaker.recovery, hsound.config_eq, Nat.mod_eq_of_lt hrecovery]
  rw [hrec, hsound.config_eq] at hrejects
  rw [← hrejects]
  cases callEffect hcall with
  | unregistered hb =>
    have hadm : ((s.registry.breaker c.tool).canExecute c.start).2 = true := by
      rw [hb]
      rfl
    rw [hadm]
    simp
  | rejected hadm _ hex => exact ⟨fun _ => hadm, fun _ => ⟨rfl, hex⟩⟩
  | invalid hadm _ _ he =>
    rw [hadm]
    simp [he]
  | executed hadm _ hex =>
    rw [hadm, hex]
    simp

end Sound

/-- One tool that accepts any input; its breaker opens on the first failure. -/
def fetchRegistry : ToolRegistry where
  tools := [("fetch", ⟨"fetch", "Fetch a page", .obj []⟩)]
  circuitBreakers := [("fetch", .new ⟨1, 30000⟩)]
  circuitBreakerConfig := ⟨1, 30000⟩
  keys_eq := rfl
  nodup := by decide

def acceptAll : ValidatorFor := fun _ => .ok fun _ => []

def down : Call := ⟨"fetch", .obj [], 1000, 0, 7, some (.error (.executionFailed "down"))⟩
def retry : Call := ⟨"fetch", .obj [], 1000, 100, 120, some (.ok .null)⟩

attribute [local instance] SerdeJson.plain

theorem rejected_iff_trailingFailures_retry :
    ∃ s s', Run acceptAll fetchRegistry [down] s 7 ∧
      s.call acceptAll retry = (s', some (.error (.circuitOpen "fetch"))) ∧
      s'.executions = s.executions := by
  have hr : ToolRegistry.ofTools ⟨1, 30000⟩ [⟨"fetch", "Fetch a page", .obj []⟩] =
      .ok fetchRegistry := rfl
  have hdown : (Session.mk fetchRegistry []).call acceptAll down =
      (((Session.mk fetchRegistry []).call acceptAll down).1,
        some (.error (.executionFailed "down"))) := rfl
  have h : Run acceptAll fetchRegistry [down] _ 7 := Run.nil.snoc (by decide) (by decide) hdown
  have hretry : (((Session.mk fetchRegistry []).call acceptAll down).1).call acceptAll retry =
      ((((Session.mk fetchRegistry []).call acceptAll down).1.call acceptAll retry).1,
        some (.error (.circuitOpen "fetch"))) := rfl
  refine ⟨_, _, h, hretry, ?_⟩
  exact ((rejected_iff_trailingFailures (by decide) hr h (by decide) hretry).2
    ⟨by decide, ⟨"fetch", 7, true⟩, rfl, by decide⟩).2

end Session

end Xola
