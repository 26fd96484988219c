import Mathlib.Data.List.DropRight
import Xola.Data.Replay
import Xola.Tools.Registry

/-!
# Calls through the registry

What the operations of the breaker inside `execute_with_timeout` do to the registry, and runs of
calls that do not overlap. A session keeps, besides the registry, the executions of tools: they are
what an observer outside the registry can see of its past.
-/

namespace Xola

open Interaction

namespace ToolRegistry

/-- The breaker of a tool; names that are not registered have none, and read as a new one. -/
def breaker (r : ToolRegistry) (name : String) : CircuitBreaker :=
  (r.circuitBreakers.lookup name).getD (.new r.circuitBreakerConfig)

/-- Run an operation on the breaker of a tool. -/
def updateBreaker (r : ToolRegistry) (name : String) (f : CircuitBreaker → CircuitBreaker) :
    ToolRegistry :=
  { r with
    circuitBreakers := r.circuitBreakers.map fun e => if e.1 = name then (e.1, f e.2) else e
    keys_eq := by
      rw [List.map_map, ← r.keys_eq]
      apply List.map_congr_left
      intro e _
      by_cases h : e.1 = name <;> simp [h] }

theorem lookup_update {f : CircuitBreaker → CircuitBreaker} {name name' : String}
    (l : List (String × CircuitBreaker)) :
    (l.map fun e => if e.1 = name then (e.1, f e.2) else e).lookup name' =
      if name' = name then (l.lookup name').map f else l.lookup name' := by
  induction l with
  | nil => simp
  | cons e l ih =>
    obtain ⟨k, b⟩ := e
    rw [List.map_cons]
    by_cases hk : name' = k
    · subst hk
      by_cases hn : name' = name <;> simp [hn]
    · have hbeq : (name' == k) = false := beq_false_of_ne hk
      by_cases hn : k = name
      · subst hn
        simp only [↓reduceIte, List.lookup_cons, hbeq, ih]
      · simp only [hn, ↓reduceIte, List.lookup_cons, hbeq, ih]

section Update

variable {r : ToolRegistry} {name : String} {f : CircuitBreaker → CircuitBreaker}

theorem updateBreaker_self {b : CircuitBreaker} (h : r.circuitBreakers.lookup name = some b) :
    (r.updateBreaker name f).circuitBreakers.lookup name = some (f b) := by
  simp only [updateBreaker, lookup_update, ↓reduceIte, h, Option.map_some]

theorem breaker_updateBreaker {b : CircuitBreaker}
    (h : r.circuitBreakers.lookup name = some b) :
    (r.updateBreaker name f).breaker = Function.update r.breaker name (f (r.breaker name)) := by
  funext name'
  by_cases hn : name' = name
  · subst hn
    rw [Function.update_self]
    simp only [breaker, updateBreaker_self h, h, Option.getD_some]
  · rw [Function.update_of_ne hn]
    simp only [breaker, updateBreaker, lookup_update, if_neg hn]

end Update

/-! ## Registering -/

/-- A registry after start-up. -/
def ofTools (config : CircuitBreakerConfig) (tools : List Tool) :
    Except RegistryError ToolRegistry :=
  tools.foldlM register (.new config)

/-- No breaker has been used yet. -/
structure Fresh (config : CircuitBreakerConfig) (r : ToolRegistry) : Prop where
  config_eq : r.circuitBreakerConfig = config
  breaker_eq : ∀ name, r.breaker name = .new config

theorem Fresh.register {config : CircuitBreakerConfig} {r r' : ToolRegistry} {tool : Tool}
    (h : Fresh config r) (hr : r.register tool = .ok r') : Fresh config r' := by
  unfold ToolRegistry.register at hr
  split at hr
  · cases hr
  · cases hr
    refine ⟨h.config_eq, ?_⟩
    intro name
    have hb := h.breaker_eq name
    unfold breaker at hb ⊢
    rw [List.lookup_cons]
    split
    · rw [Option.getD_some, h.config_eq]
    · exact hb

theorem fresh_ofTools {config : CircuitBreakerConfig} {tools : List Tool} {r : ToolRegistry}
    (h : ofTools config tools = .ok r) : Fresh config r := by
  exact List.foldlM_invariant (Fresh config) (fun _ _ _ hb hr => hb.register hr)
    ⟨rfl, fun _ => rfl⟩ h

/-! ## The exchanges of one call -/

/-- The ways in which `execute_with_timeout` can return: what it asked for, and its result. -/
inductive CallTrace (validatorFor : ValidatorFor) (r : ToolRegistry) (toolName : String)
    (input : Json) (timeout : Nat) : History Command.Answer → Except ToolError Json → Prop
  | unregistered (none : r.circuitBreakers.lookup toolName = none) :
    CallTrace validatorFor r toolName input timeout [] (.error (.notFound toolName))
  | rejected {b : CircuitBreaker} (registered : r.circuitBreakers.lookup toolName = some b) :
    CallTrace validatorFor r toolName input timeout [⟨.canExecute toolName, false⟩]
      (.error (.circuitOpen toolName))
  | invalid {b : CircuitBreaker} {e : ToolError}
      (registered : r.circuitBreakers.lookup toolName = some b)
      (fails : validateInput validatorFor r toolName input = .error e) :
    CallTrace validatorFor r toolName input timeout [⟨.canExecute toolName, true⟩] (.error e)
  | succeeded {b : CircuitBreaker} {answer : Option (Except ToolError Json)} {output : Json}
      (registered : r.circuitBreakers.lookup toolName = some b)
      (result : flatten timeout answer = .ok output) :
    CallTrace validatorFor r toolName input timeout
      [⟨.canExecute toolName, true⟩, ⟨.execute toolName input timeout, answer⟩,
        ⟨.recordSuccess toolName, ()⟩] (.ok output)
  | failed {b : CircuitBreaker} {answer : Option (Except ToolError Json)} {e : ToolError}
      (registered : r.circuitBreakers.lookup toolName = some b)
      (result : flatten timeout answer = .error e) :
    CallTrace validatorFor r toolName input timeout
      [⟨.canExecute toolName, true⟩, ⟨.execute toolName input timeout, answer⟩,
        ⟨.recordFailure toolName, ()⟩] (.error e)

/-- The exchange that records the result of an execution. -/
def recording (toolName : String) : Except ToolError Json → Exchange Command.Answer
  | .ok _ => ⟨.recordSuccess toolName, ()⟩
  | .error _ => ⟨.recordFailure toolName, ()⟩

variable [SerdeJson]

/-- How a call ends with the result of its tool: an output is rendered for the log. -/
def ending : Except ToolError Json → Prog.Ending ToolError Json
  | .ok output => (truncateJson output 500).map fun _ => .ok output
  | .error e => some (.error e)

/-- The ways in which a call can end: what it asked for, and its ending. -/
inductive CallSteps (validatorFor : ValidatorFor) (r : ToolRegistry) (toolName : String)
    (input : Json) (timeout : Nat) : History Command.Answer → Prog.Ending ToolError Json → Prop
  | unrendered (panics : truncateJson input 500 = none) :
    CallSteps validatorFor r toolName input timeout [] none
  | unregistered (rendered : truncateJson input 500 ≠ none)
      (none : r.circuitBreakers.lookup toolName = none) :
    CallSteps validatorFor r toolName input timeout [] (some (.error (.notFound toolName)))
  | rejected {b : CircuitBreaker} (rendered : truncateJson input 500 ≠ none)
      (registered : r.circuitBreakers.lookup toolName = some b) :
    CallSteps validatorFor r toolName input timeout [⟨.canExecute toolName, false⟩]
      (some (.error (.circuitOpen toolName)))
  | invalid {b : CircuitBreaker} {e : ToolError} (rendered : truncateJson input 500 ≠ none)
      (registered : r.circuitBreakers.lookup toolName = some b)
      (fails : validateInput validatorFor r toolName input = .error e) :
    CallSteps validatorFor r toolName input timeout [⟨.canExecute toolName, true⟩]
      (some (.error e))
  | executed {b : CircuitBreaker} {answer : Option (Except ToolError Json)}
      (rendered : truncateJson input 500 ≠ none)
      (registered : r.circuitBreakers.lookup toolName = some b)
      (valid : validateInput validatorFor r toolName input = .ok ()) :
    CallSteps validatorFor r toolName input timeout
      [⟨.canExecute toolName, true⟩, ⟨.execute toolName input timeout, answer⟩,
        recording toolName (flatten timeout answer)] (ending (flatten timeout answer))

/-- Where a call waits for its tool. -/
def Awaited (validatorFor : ValidatorFor) (r : ToolRegistry) (toolName : String) (input : Json)
    (h : History Command.Answer) : Command → Prop
  | .execute _ _ _ => h = [⟨.canExecute toolName, true⟩] ∧
      r.circuitBreakers.lookup toolName ≠ none ∧
      validateInput validatorFor r toolName input = .ok ()
  | .canExecute _ | .recordSuccess _ | .recordFailure _ => True

theorem callSteps_wp (validatorFor : ValidatorFor) (r : ToolRegistry) (toolName : String)
    (input : Json) (timeout : Nat) :
    Prog.wp (Awaited validatorFor r toolName input) (CallSteps validatorFor r toolName input timeout)
      (r.executeWithTimeout validatorFor toolName input timeout) [] := by
  unfold executeWithTimeout
  split
  next hpanics => exact .unrendered hpanics
  next hshown =>
  have hrendered : truncateJson input 500 ≠ none := by rw [hshown]; exact Option.some_ne_none _
  split
  next hnone => exact .unregistered hrendered hnone
  next b hb =>
  simp only [Prog.perform, Prog.call_bind, Prog.ret_bind]
  refine ⟨trivial, ?_⟩
  intro admitted
  cases admitted with
  | false => exact .rejected hrendered hb
  | true =>
    simp only [Bool.not_true, Bool.false_eq_true, ↓reduceIte]
    cases hv : validateInput validatorFor r toolName input with
    | error e => exact .invalid hrendered hb hv
    | ok _ =>
      simp only [Prog.ofExcept_ok, Prog.ret_bind]
      split
      · next hnone =>
        -- validation has already looked the tool up
        simp only [validateInput, hnone] at hv
        cases hv
      · refine ⟨⟨rfl, by rw [hb]; exact Option.some_ne_none _, hv⟩, ?_⟩
        intro answer
        have hdone : CallSteps validatorFor r toolName input timeout
            [⟨.canExecute toolName, true⟩, ⟨.execute toolName input timeout, answer⟩,
              recording toolName (flatten timeout answer)] (ending (flatten timeout answer)) :=
          .executed hrendered hb hv
        dsimp only
        cases hf : flatten timeout answer with
        | error e =>
          rw [hf] at hdone
          exact ⟨trivial, fun _ => hdone⟩
        | ok output =>
          refine ⟨trivial, ?_⟩
          intro _
          rw [hf, ending] at hdone
          cases ho : truncateJson output 500 with
          | none =>
            rw [ho] at hdone
            exact hdone
          | some _ =>
            rw [ho] at hdone
            exact hdone

theorem callTrace_of_returns {validatorFor : ValidatorFor} {r : ToolRegistry} {toolName : String}
    {input : Json} {timeout : Nat} {h : History Command.Answer} {res : Except ToolError Json}
    (hr : Prog.Returns (r.executeWithTimeout validatorFor toolName input timeout) h res) :
    CallTrace validatorFor r toolName input timeout h res := by
  have hsteps := Prog.wp_ends (callSteps_wp validatorFor r toolName input timeout) hr.ends
  generalize he : some res = e at hsteps
  cases hsteps with
  | unrendered => cases he
  | unregistered _ hnone => cases he; exact .unregistered hnone
  | rejected _ hb => cases he; exact .rejected hb
  | invalid _ hb hv => cases he; exact .invalid hb hv
  | @executed _ answer _ hb _ =>
    cases hf : flatten timeout answer with
    | error e =>
      rw [hf] at he
      cases he
      exact .failed hb hf
    | ok output =>
      rw [hf] at he
      obtain ⟨_, -, hres⟩ := Option.map_eq_some_iff.1 he.symm
      cases hres
      exact .succeeded hb hf

omit [SerdeJson] in
/-- Validation fails with a validation error, never with one of the breaker. -/
theorem validateInput_ne_circuitOpen {validatorFor : ValidatorFor} {r : ToolRegistry}
    {toolName name : String} {input : Json} :
    validateInput validatorFor r toolName input ≠ .error (.circuitOpen name) := by
  unfold validateInput InputValidator.validate
  split
  · simp
  split
  · simp
  · split <;> simp

end ToolRegistry

/-! ## Calls one after another -/

/-- A call, with the clock readings at its `can_execute` and at its end and with what the tool
answers should it be executed. -/
structure Call where
  tool : String
  input : Json
  timeout : Nat
  start : Nat
  finish : Nat
  answer : Option (Except ToolError Json)

/-- An execution of a tool, as seen from outside. -/
structure Execution where
  tool : String
  finish : Nat
  failed : Bool
  deriving DecidableEq, Repr

structure Session where
  registry : ToolRegistry
  /-- The executions so far, oldest first. -/
  executions : List Execution

/-- Did the execution end with an error or a timeout? -/
def Call.fails (c : Call) : Bool :=
  match ToolRegistry.flatten c.timeout c.answer with
  | .ok _ => false
  | .error _ => true

namespace Session

open ToolRegistry

variable [SerdeJson]

/-- The breakers and the tools, at the times of the call `c`. -/
def handle (c : Call) (s : Session) : (cmd : Command) → Session × cmd.Answer
  | .canExecute name =>
    ({ s with registry := s.registry.updateBreaker name fun b => (b.canExecute c.start).1 },
      ((s.registry.breaker name).canExecute c.start).2)
  | .execute name _ _ =>
    ({ s with executions := s.executions ++ [⟨name, c.finish, c.fails⟩] }, c.answer)
  | .recordSuccess name =>
    ({ s with registry := s.registry.updateBreaker name .recordSuccess }, ())
  | .recordFailure name =>
    ({ s with registry := s.registry.updateBreaker name (.recordFailure · c.finish) }, ())

def call (validatorFor : ValidatorFor) (s : Session) (c : Call) :
    Session × Prog.Ending ToolError Json :=
  (s.registry.executeWithTimeout validatorFor c.tool c.input c.timeout).runWith (handle c) s

/-- Completed calls, each starting at or after the end of the one before; the last index is the
clock after them. -/
inductive Run (validatorFor : ValidatorFor) (r : ToolRegistry) : List Call → Session → Nat → Prop
  | nil : Run validatorFor r [] ⟨r, []⟩ 0
  | snoc {calls : List Call} {s s' : Session} {clock : Nat} {c : Call}
      {res : Except ToolError Json} (before : Run validatorFor r calls s clock)
      (start : clock ≤ c.start) (finish : c.start ≤ c.finish)
      (completed : s.call validatorFor c = (s', some res)) :
    Run validatorFor r (calls ++ [c]) s' c.finish

/-- What a completed call has done to the session: it was turned away by the registry, by the
breaker or by validation, or the tool was executed and the breaker told how that went. -/
inductive CallEffect (s : Session) (c : Call) : Session → Except ToolError Json → Prop
  | unregistered (breaker : s.registry.breaker c.tool = .new s.registry.circuitBreakerConfig) :
    CallEffect s c s (.error (.notFound c.tool))
  | rejected {s' : Session}
      (admitted : ((s.registry.breaker c.tool).canExecute c.start).2 = false)
      (breaker : s'.registry.breaker = Function.update s.registry.breaker c.tool
        ((s.registry.breaker c.tool).canExecute c.start).1)
      (executions : s'.executions = s.executions) :
    CallEffect s c s' (.error (.circuitOpen c.tool))
  | invalid {s' : Session} {e : ToolError}
      (admitted : ((s.registry.breaker c.tool).canExecute c.start).2 = true)
      (breaker : s'.registry.breaker = Function.update s.registry.breaker c.tool
        ((s.registry.breaker c.tool).canExecute c.start).1)
      (executions : s'.executions = s.executions) (error : e ≠ .circuitOpen c.tool) :
    CallEffect s c s' (.error e)
  | executed {s' : Session} {res : Except ToolError Json}
      (admitted : ((s.registry.breaker c.tool).canExecute c.start).2 = true)
      (breaker : s'.registry.breaker = Function.update s.registry.breaker c.tool
        (if c.fails then ((s.registry.breaker c.tool).canExecute c.start).1.recordFailure c.finish
          else ((s.registry.breaker c.tool).canExecute c.start).1.recordSuccess))
      (executions : s'.executions = s.executions ++ [⟨c.tool, c.finish, c.fails⟩]) :
    CallEffect s c s' res

theorem callEffect {validatorFor : ValidatorFor} {s s' : Session} {c : Call}
    {res : Except ToolError Json} (h : s.call validatorFor c = (s', some res)) :
    CallEffect s c s' res := by
  obtain ⟨t, hr, ht⟩ := Prog.runWith_returns h
  cases callTrace_of_returns hr with
  | unregistered hnone =>
    obtain rfl : s' = s := ht
    exact .unregistered (by rw [ToolRegistry.breaker, hnone, Option.getD_none])
  | rejected hb =>
    obtain ⟨hadm, rfl⟩ := ht
    exact .rejected hadm.symm (breaker_updateBreaker hb) rfl
  | invalid hb hv =>
    obtain ⟨hadm, rfl⟩ := ht
    refine .invalid hadm.symm (breaker_updateBreaker hb) rfl ?_
    intro he
    exact validateInput_ne_circuitOpen (he ▸ hv)
  | succeeded hb hf =>
    obtain ⟨hadm, rfl, -, rfl⟩ := ht
    have hans : flatten c.timeout c.answer = .ok _ := hf
    have hfails : c.fails = false := by simp only [Call.fails, hans]
    refine .executed hadm.symm ?_ rfl
    rw [hfails]
    simp only [handle]
    rw [breaker_updateBreaker (updateBreaker_self hb), breaker_updateBreaker hb]
    simp
  | failed hb hf =>
    obtain ⟨hadm, rfl, -, rfl⟩ := ht
    have hans : flatten c.timeout c.answer = .error _ := hf
    have hfails : c.fails = true := by simp only [Call.fails, hans]
    refine .executed hadm.symm ?_ rfl
    rw [hfails]
    simp only [handle]
    rw [breaker_updateBreaker (updateBreaker_self hb), breaker_updateBreaker hb]
    simp

end Session

end Xola
