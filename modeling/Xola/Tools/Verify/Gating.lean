import Xola.Reliability.Verify.FailureCount
import Xola.Tools.Calls

/-!
# Gating and isolation

A call reaches its tool through the breaker and the validation of its input, and all it does to the
registry is done to the breaker of its own tool: one `can_execute`, and one record for an execution
that has come back. So in any history of registrations and calls, each breaker is what its own
operations have made of a new one. A call that is turned away records nothing; the only trace it may
leave is that of `can_execute`, which has taken it for the probe of a breaker that was to recover.
-/

namespace Xola

open Interaction

namespace CircuitBreaker

/-- The recovery timeout of an open breaker has elapsed: the next call is taken for a probe. -/
def Probing (b : CircuitBreaker) (now : Nat) : Prop :=
  b.state = .opened ∧ b.shouldAttemptReset now = true

instance (b : CircuitBreaker) (now : Nat) : Decidable (b.Probing now) :=
  inferInstanceAs (Decidable (_ ∧ _))

theorem canExecute_fst (b : CircuitBreaker) (now : Nat) :
    (b.canExecute now).1 = if b.Probing now then { b with state := .halfOpen } else b := by
  cases hs : b.state with
  | closed => rw [canExecute_closed hs, if_neg (by simp [Probing, hs])]
  | halfOpen => rw [canExecute_halfOpen hs, if_neg (by simp [Probing, hs])]
  | opened =>
    cases hr : b.shouldAttemptReset now with
    | true => rw [canExecute_reset hs hr, if_pos ⟨hs, hr⟩]
    | false => rw [canExecute_rejects hs hr, if_neg (by simp [Probing, hr])]

theorem Probing.admits {b : CircuitBreaker} {now : Nat} (h : b.Probing now) :
    (b.canExecute now).2 = true := by
  rw [canExecute_reset h.1 h.2]

end CircuitBreaker

namespace ToolRegistry

/-! ## What a call does to the registry -/

def Command.toolName : Command → String
  | .canExecute toolName | .execute toolName _ _ | .recordSuccess toolName
  | .recordFailure toolName => toolName

/-- `r'` is `r` after the operations on the breaker of the tool. -/
structure Acts (tool : String) (ops : List CircuitBreaker.Operation) (r r' : ToolRegistry) :
    Prop where
  tools_eq : r'.tools = r.tools
  config_eq : r'.circuitBreakerConfig = r.circuitBreakerConfig
  lookup_eq : ∀ name, r'.circuitBreakers.lookup name =
    (r.circuitBreakers.lookup name).map fun b =>
      if name = tool then ops.foldl CircuitBreaker.apply b else b

section Acts

variable {tool : String} {ops ops' : List CircuitBreaker.Operation} {r r' r'' : ToolRegistry}

theorem Acts.refl (tool : String) (r : ToolRegistry) : Acts tool [] r r := by
  refine ⟨rfl, rfl, fun name => ?_⟩
  simp only [List.foldl_nil, ite_self, Option.map_id']

theorem Acts.trans (h : Acts tool ops r r') (h' : Acts tool ops' r' r'') :
    Acts tool (ops ++ ops') r r'' := by
  refine ⟨h'.tools_eq.trans h.tools_eq, h'.config_eq.trans h.config_eq, ?_⟩
  intro name
  rw [h'.lookup_eq, h.lookup_eq, Option.map_map]
  congr 1
  funext b
  by_cases hn : name = tool
  · simp only [Function.comp_apply, if_pos hn, List.foldl_append]
  · simp only [Function.comp_apply, if_neg hn]

theorem acts_updateBreaker (r : ToolRegistry) (tool : String) (op : CircuitBreaker.Operation) :
    Acts tool [op] r (r.updateBreaker tool (·.apply op)) := by
  refine ⟨rfl, rfl, fun name => ?_⟩
  refine (@lookup_update (fun b => b.apply op) tool name r.circuitBreakers).trans ?_
  by_cases hn : name = tool
  · simp only [if_pos hn, List.foldl_cons, List.foldl_nil]
  · simp only [if_neg hn, Option.map_id']

end Acts

/-- A call concerns its own tool only. -/
theorem CallSteps.own [SerdeJson] {validatorFor : ValidatorFor} {r : ToolRegistry} {toolName : String}
    {input : Json} {timeout : Nat} {h : History Command.Answer} {e : Prog.Ending ToolError Json}
    (hsteps : CallSteps validatorFor r toolName input timeout h e) :
    ∀ x ∈ h, x.1.toolName = toolName := by
  have hrecording : ∀ result, (recording toolName result).1.toolName = toolName := by
    intro result
    cases result <;> rfl
  cases hsteps with
  | unrendered | unregistered => exact nofun
  | rejected | invalid => exact List.forall_mem_singleton.2 rfl
  | executed =>
    refine List.forall_mem_cons.2 ⟨rfl, List.forall_mem_cons.2 ⟨rfl, ?_⟩⟩
    exact List.forall_mem_singleton.2 (hrecording _)

theorem CallSteps.nil_of_unregistered [SerdeJson] {validatorFor : ValidatorFor}
    {r : ToolRegistry} {toolName : String} {input : Json} {timeout : Nat} {h : History Command.Answer}
    {e : Prog.Ending ToolError Json} (hsteps : CallSteps validatorFor r toolName input timeout h e)
    (hnone : r.circuitBreakers.lookup toolName = none) : h = [] := by
  cases hsteps with
  | unrendered | unregistered => rfl
  | rejected _ hb | invalid _ hb | executed _ hb => exact absurd (hb.symm.trans hnone) nofun

/-- The registry after a registration, be it rejected or not. -/
def registered (r : ToolRegistry) (tool : Tool) : ToolRegistry :=
  match r.register tool with
  | .ok r' => r'
  | .error _ => r

theorem registered_of_mem {r : ToolRegistry} {tool : Tool}
    (h : tool.name ∈ r.tools.map Prod.fst) :
    r.registered tool = r ∧ r.register tool = .error (.duplicateName tool.name) := by
  have hreg : r.register tool = .error (.duplicateName tool.name) := dif_pos h
  exact ⟨by rw [registered, hreg], hreg⟩

theorem registered_of_notMem {r : ToolRegistry} {tool : Tool}
    (h : tool.name ∉ r.tools.map Prod.fst) :
    (r.registered tool).circuitBreakerConfig = r.circuitBreakerConfig ∧
    (r.registered tool).tools = (tool.name, tool) :: r.tools ∧
    (r.registered tool).circuitBreakers =
      (tool.name, .new r.circuitBreakerConfig) :: r.circuitBreakers := by
  unfold registered register
  rw [dif_neg h]
  exact ⟨rfl, rfl, rfl⟩

theorem lookup_isSome_iff {β : Type} {l : List (String × β)} {name : String} :
    (l.lookup name).isSome ↔ name ∈ l.map Prod.fst := by
  rw [List.lookup_isSome_iff, List.mem_map]
  simp only [beq_iff_eq, @eq_comm _ name]

/-- A name has a breaker exactly if it has a tool. -/
theorem breaker_isSome (r : ToolRegistry) (name : String) :
    (r.circuitBreakers.lookup name).isSome = (r.get name).isSome := by
  rw [Bool.eq_iff_iff, lookup_isSome_iff, r.keys_eq, ToolRegistry.get, lookup_isSome_iff]

end ToolRegistry

namespace Session

open ToolRegistry

/-- What an exchange of the call is to the breaker of its tool. -/
def operation? (c : Call) : Exchange Command.Answer → Option CircuitBreaker.Operation
  | ⟨.canExecute _, _⟩ => some (.canExecute c.start)
  | ⟨.execute _ _ _, _⟩ => none
  | ⟨.recordSuccess _, _⟩ => some .recordSuccess
  | ⟨.recordFailure _, _⟩ => some (.recordFailure c.finish)

def operations (c : Call) (h : History Command.Answer) : List CircuitBreaker.Operation :=
  h.filterMap (operation? c)

theorem acts_of_handled {c : Call} {h : History Command.Answer} {s s' : Session}
    (hown : ∀ x ∈ h, x.1.toolName = c.tool) (hh : Prog.Handled (handle c) s h s') :
    Acts c.tool (operations c h) s.registry s'.registry := by
  induction h generalizing s with
  | nil =>
    obtain rfl : s' = s := hh
    exact .refl _ _
  | cons x h ih =>
    obtain ⟨cmd, answer⟩ := x
    obtain ⟨-, hrest⟩ := hh
    have htail := ih (fun y hy => hown y (List.mem_cons_of_mem _ hy)) hrest
    have hname : cmd.toolName = c.tool := hown _ List.mem_cons_self
    cases cmd with
    | canExecute name =>
      obtain rfl : name = c.tool := hname
      exact (acts_updateBreaker s.registry _ (.canExecute c.start)).trans htail
    | execute name input timeout => exact htail
    | recordSuccess name =>
      obtain rfl : name = c.tool := hname
      exact (acts_updateBreaker s.registry _ .recordSuccess).trans htail
    | recordFailure name =>
      obtain rfl : name = c.tool := hname
      exact (acts_updateBreaker s.registry _ (.recordFailure c.finish)).trans htail

theorem breaker_of_lookup {r : ToolRegistry} {name : String} {b : CircuitBreaker}
    (hb : r.circuitBreakers.lookup name = some b) : r.breaker name = b := by
  rw [breaker, hb, Option.getD_some]

/-! ## Calls that are turned away -/

/-- What is left of a call that did not get beyond its breaker. -/
theorem lookup_canExecute {c : Call} {r r' : ToolRegistry}
    (hacts : Acts c.tool [.canExecute c.start] r r') (name : String) :
    r'.circuitBreakers.lookup name = (r.circuitBreakers.lookup name).map fun b =>
      if name = c.tool ∧ b.Probing c.start then { b with state := .halfOpen } else b := by
  rw [hacts.lookup_eq]
  congr 1
  funext b
  by_cases hn : name = c.tool
  · simp only [hn, true_and, ↓reduceIte, List.foldl_cons, List.foldl_nil]
    exact b.canExecute_fst c.start
  · simp only [hn, false_and, ↓reduceIte]

/-- An execution that has come back is remembered. -/
theorem executions_of_executed {c : Call} {s s' : Session} {b : Bool}
    {answer : Option (Except ToolError Json)} {result : Except ToolError Json}
    (hh : Prog.Handled (handle c) s [⟨.canExecute c.tool, b⟩,
      ⟨.execute c.tool c.input c.timeout, answer⟩, recording c.tool result] s') :
    s'.executions = s.executions ++ [⟨c.tool, c.finish, c.fails⟩] := by
  obtain ⟨-, -, hh⟩ := hh
  cases result <;> (obtain ⟨-, rfl⟩ := hh; rfl)

/-- **Calls that do not run the tool.** Such a call leaves the tools and the breakers as they were,
counts and times included; but a breaker whose recovery timeout has elapsed is half-open after the
call has passed it and failed its validation. -/
theorem untouched_unless_probing [SerdeJson] {validatorFor : ValidatorFor} {s s' : Session}
    {c : Call} {res : Except ToolError Json} (h : s.call validatorFor c = (s', some res))
    (hnot : s'.executions = s.executions) :
    s'.registry.tools = s.registry.tools ∧
    (∀ name, s'.registry.circuitBreakers.lookup name =
      (s.registry.circuitBreakers.lookup name).map fun b =>
        if name = c.tool ∧ b.Probing c.start then { b with state := .halfOpen } else b) ∧
    ∀ b, s.registry.circuitBreakers.lookup c.tool = some b → b.Probing c.start →
      ∃ e, validateInput validatorFor s.registry c.tool c.input = .error e ∧ res = .error e := by
  obtain ⟨t, hr, hh⟩ := Prog.runWith_returns h
  have hsteps := Prog.wp_ends (callSteps_wp validatorFor s.registry c.tool c.input c.timeout) hr.ends
  have hacts := acts_of_handled hsteps.own hh
  generalize he : some res = e at hsteps
  cases hsteps with
  | unrendered => cases he
  | unregistered _ hnone =>
    refine ⟨hacts.tools_eq, fun name => ?_, fun b hb => absurd (hb.symm.trans hnone) nofun⟩
    rw [hacts.lookup_eq]
    by_cases hn : name = c.tool
    · rw [hn, hnone]
      rfl
    · simp only [hn, false_and, ↓reduceIte]
  | rejected _ hb =>
    refine ⟨hacts.tools_eq, lookup_canExecute hacts, fun b' hb' hprobing => ?_⟩
    -- the breaker would have admitted a probe
    have hadm : false = ((s.registry.breaker c.tool).canExecute c.start).2 := hh.1
    rw [breaker_of_lookup hb', hprobing.admits] at hadm
    cases hadm
  | invalid _ hb hv =>
    exact ⟨hacts.tools_eq, lookup_canExecute hacts, fun _ _ _ => ⟨_, hv, Option.some.inj he⟩⟩
  | executed =>
    have hexecuted := executions_of_executed hh
    rw [hnot, List.self_eq_append_right] at hexecuted
    cases hexecuted

/-- A tool whose breaker has opened on its first failure, at time zero. -/
def trippedRegistry : ToolRegistry where
  tools := [("search", ⟨"search", "Search the web", .obj []⟩)]
  circuitBreakers := [("search", ⟨.opened, 1, 0, ⟨1, 30000⟩⟩)]
  circuitBreakerConfig := ⟨1, 30000⟩
  keys_eq := rfl
  nodup := by decide

def rejectAll : ValidatorFor := fun _ => .ok fun _ => ["not allowed"]

/-- A call after the recovery timeout. -/
def late : Call := ⟨"search", .null, 1000, 30000, 30001, some (.ok .null)⟩

section Example

attribute [local instance] SerdeJson.plain

/-- The failure count is kept, and the breaker is half-open. -/
theorem untouched_unless_probing_late : ∃ s',
    (Session.mk trippedRegistry []).call rejectAll late =
      (s', some (.error (.invalidInput "Input validation failed: not allowed"))) ∧
    s'.registry.circuitBreakers.lookup "search" = some ⟨.halfOpen, 1, 0, ⟨1, 30000⟩⟩ := by
  have hcall : (Session.mk trippedRegistry []).call rejectAll late =
      (((Session.mk trippedRegistry []).call rejectAll late).1,
        some (.error (.invalidInput "Input validation failed: not allowed"))) := rfl
  refine ⟨_, hcall, ?_⟩
  rw [(untouched_unless_probing hcall rfl).2.1]
  decide

/-- The tool has not run, and its breaker is not what it was. -/
theorem late_not_untouched : ∃ s',
    (Session.mk trippedRegistry []).call rejectAll late =
      (s', some (.error (.invalidInput "Input validation failed: not allowed"))) ∧
    s'.executions = [] ∧
    s'.registry.circuitBreakers.lookup "search" ≠
      trippedRegistry.circuitBreakers.lookup "search" := by
  refine ⟨_, rfl, rfl, ?_⟩
  decide

end Example

/-! ## Any history of registrations and calls -/

/-- What has been offered for registration, and what each call has asked for. A call ends, possibly
in a panic, or is dropped while it waits for its tool. -/
inductive Reached [SerdeJson] (validatorFor : ValidatorFor) (config : CircuitBreakerConfig) :
    List Tool → List (Call × History Command.Answer) → Session → Prop
  | new : Reached validatorFor config [] [] ⟨.new config, []⟩
  | register {offered : List Tool} {log : List (Call × History Command.Answer)} {s : Session}
      (before : Reached validatorFor config offered log s) (tool : Tool) :
    Reached validatorFor config (offered ++ [tool]) log
      { s with registry := s.registry.registered tool }
  | call {offered : List Tool} {log : List (Call × History Command.Answer)} {s s' : Session}
      {c : Call} {h : History Command.Answer} {e : Prog.Ending ToolError Json}
      (before : Reached validatorFor config offered log s)
      (ends : Prog.Ends (s.registry.executeWithTimeout validatorFor c.tool c.input c.timeout) h e)
      (handled : Prog.Handled (handle c) s h s') :
    Reached validatorFor config offered (log ++ [(c, h)]) s'
  | drop {offered : List Tool} {log : List (Call × History Command.Answer)} {s s' : Session}
      {c : Call} {h : History Command.Answer}
      (before : Reached validatorFor config offered log s)
      (waits : Prog.Pending (s.registry.executeWithTimeout validatorFor c.tool c.input c.timeout) h
        (.execute c.tool c.input c.timeout))
      (handled : Prog.Handled (handle c) s h s') :
    Reached validatorFor config offered (log ++ [(c, h)]) s'

/-- The operations that the calls of the tool have made on its breaker. -/
def operationsOn (name : String) (log : List (Call × History Command.Answer)) :
    List CircuitBreaker.Operation :=
  log.flatMap fun entry => if entry.1.tool = name then operations entry.1 entry.2 else []

/-- The registry after what has been offered and asked for. -/
structure Kept (config : CircuitBreakerConfig) (offered : List Tool)
    (log : List (Call × History Command.Answer)) (r : ToolRegistry) : Prop where
  config_eq : r.circuitBreakerConfig = config
  get_eq : ∀ name, r.get name = offered.find? (·.name = name)
  lookup_eq : ∀ name ∈ offered.map Tool.name, r.circuitBreakers.lookup name =
    some (.after config (operationsOn name log))
  unused : ∀ name ∉ offered.map Tool.name, operationsOn name log = []

section Kept

variable {validatorFor : ValidatorFor} {config : CircuitBreakerConfig} {offered : List Tool}
  {log : List (Call × History Command.Answer)} {r r' : ToolRegistry} {name : String}

theorem mem_offered_iff : name ∈ offered.map Tool.name ↔ (offered.find? (·.name = name)).isSome := by
  rw [List.find?_isSome, List.mem_map]
  simp only [decide_eq_true_eq]

theorem operationsOn_concat (c : Call) (h : History Command.Answer) :
    operationsOn name (log ++ [(c, h)]) =
      operationsOn name log ++ if c.tool = name then operations c h else [] := by
  rw [operationsOn, List.flatMap_append, List.flatMap_singleton, operationsOn]

theorem Kept.mem_iff (hk : Kept config offered log r) :
    name ∈ r.tools.map Prod.fst ↔ name ∈ offered.map Tool.name := by
  rw [mem_offered_iff, ← hk.get_eq, ToolRegistry.get, lookup_isSome_iff]

theorem Kept.lookup_eq_none_iff (hk : Kept config offered log r) :
    r.circuitBreakers.lookup name = none ↔ name ∉ offered.map Tool.name := by
  rw [← Option.not_isSome_iff_eq_none, breaker_isSome, hk.get_eq, ← mem_offered_iff]

/-- A name that has a breaker has a tool. -/
theorem Kept.get_of_lookup (hk : Kept config offered log r) {b : CircuitBreaker}
    (hb : r.circuitBreakers.lookup name = some b) : ∃ tool, r.get name = some tool := by
  rw [← Option.isSome_iff_exists, hk.get_eq, ← mem_offered_iff]
  by_contra hnot
  exact absurd (hb.symm.trans (hk.lookup_eq_none_iff.2 hnot)) nofun

theorem kept_new (config : CircuitBreakerConfig) : Kept config [] [] (.new config) :=
  ⟨rfl, fun _ => rfl, nofun, fun _ _ => rfl⟩

theorem Kept.register (hk : Kept config offered log r) (tool : Tool) :
    Kept config (offered ++ [tool]) log (r.registered tool) := by
  by_cases hmem : tool.name ∈ offered.map Tool.name
  · -- the name is taken
    rw [(registered_of_mem (hk.mem_iff.2 hmem)).1]
    have hoffered : ∀ name, name ∈ (offered ++ [tool]).map Tool.name ↔
        name ∈ offered.map Tool.name := by
      intro name
      rw [List.map_append, List.mem_append, List.map_singleton, List.mem_singleton]
      exact ⟨fun h => h.elim id fun heq => heq ▸ hmem, .inl⟩
    refine ⟨hk.config_eq, ?_, ?_, ?_⟩
    · intro name
      rw [hk.get_eq, List.find?_append]
      cases hfind : offered.find? (·.name = name) with
      | some first => rfl
      | none =>
        have hne : tool.name ≠ name := by
          rintro rfl
          rw [mem_offered_iff, hfind] at hmem
          cases hmem
        simp only [Option.none_or, List.find?_cons, hne, decide_false, List.find?_nil]
    · intro name hname
      exact hk.lookup_eq name ((hoffered name).1 hname)
    · intro name hname
      exact hk.unused name fun h => hname ((hoffered name).2 h)
  · obtain ⟨hconfig, htools, hbreakers⟩ := registered_of_notMem fun h => hmem (hk.mem_iff.1 h)
    refine ⟨hconfig.trans hk.config_eq, ?_, ?_, ?_⟩
    · intro name
      rw [ToolRegistry.get, htools, List.lookup_cons, List.find?_append]
      by_cases hname : name = tool.name
      · subst hname
        have hfind : offered.find? (·.name = tool.name) = none := by
          rw [← Option.not_isSome_iff_eq_none, ← mem_offered_iff]
          exact hmem
        simp [hfind]
      · rw [beq_false_of_ne hname]
        have hother := hk.get_eq name
        rw [ToolRegistry.get] at hother
        simp [hother, Ne.symm hname]
    · intro name hname
      rw [hbreakers, List.lookup_cons]
      by_cases heq : name = tool.name
      · rw [heq, beq_self_eq_true, hk.unused tool.name hmem, hk.config_eq]
        rfl
      · rw [beq_false_of_ne heq]
        rw [List.map_append, List.mem_append, List.map_singleton, List.mem_singleton] at hname
        exact hk.lookup_eq name (hname.resolve_right heq)
    · intro name hname
      rw [List.map_append, List.mem_append, not_or] at hname
      exact hk.unused name hname.1

/-- The operations of a call change the breaker of its tool, and a call of a tool that is not
registered has none. -/
theorem Kept.acts (hk : Kept config offered log r) {c : Call} {h : History Command.Answer}
    (hacts : Acts c.tool (operations c h) r r')
    (hnone : c.tool ∉ offered.map Tool.name → h = []) :
    Kept config offered (log ++ [(c, h)]) r' := by
  refine ⟨hacts.config_eq.trans hk.config_eq, ?_, ?_, ?_⟩
  · intro name
    rw [ToolRegistry.get, hacts.tools_eq]
    exact hk.get_eq name
  · intro name hname
    rw [hacts.lookup_eq, hk.lookup_eq name hname, operationsOn_concat, Option.map_some]
    by_cases heq : name = c.tool
    · rw [if_pos heq, if_pos heq.symm, CircuitBreaker.after, CircuitBreaker.after,
        List.foldl_append]
    · rw [if_neg heq, if_neg fun hc => heq hc.symm, List.append_nil]
  · intro name hname
    rw [operationsOn_concat, hk.unused name hname, List.nil_append]
    split
    next heq =>
      rw [hnone (heq ▸ hname)]
      rfl
    next => rfl

theorem kept_of_reached [SerdeJson] {s : Session} (hr : Reached validatorFor config offered log s) :
    Kept config offered log s.registry := by
  induction hr with
  | new => exact kept_new config
  | register _ tool ih => exact ih.register tool
  | @call offered log s s' c h e _ hends hh ih =>
    have hsteps := Prog.wp_ends (callSteps_wp _ _ _ _ _) hends
    refine ih.acts (acts_of_handled hsteps.own hh) fun hnot => ?_
    exact hsteps.nil_of_unregistered (ih.lookup_eq_none_iff.2 hnot)
  | @drop offered log s s' c h _ hwaits hh ih =>
    obtain ⟨rfl, hreg, -⟩ := Prog.wp_pending (callSteps_wp _ _ _ _ _) hwaits
    refine ih.acts (acts_of_handled (List.forall_mem_singleton.2 rfl) hh) fun hnot => ?_
    exact absurd (ih.lookup_eq_none_iff.2 hnot) hreg

end Kept

/-! ## The gate -/

def invoked? : Exchange Command.Answer → Bool
  | ⟨.execute _ _ _, _⟩ => true
  | _ => false

/-- The tool has been executed, and its execution has come back. -/
def invoked (h : History Command.Answer) : Bool := h.any invoked?

/-- Whether an execution that has come back succeeded. -/
def completion? : Exchange Command.Answer → Option Bool
  | ⟨.execute _ _ timeout, answer⟩ => some (flatten timeout answer).isOk
  | _ => none

/-- What is recorded on the breaker. -/
def record? : Exchange Command.Answer → Option Bool
  | ⟨.recordSuccess _, _⟩ => some true
  | ⟨.recordFailure _, _⟩ => some false
  | _ => none

/-- The name is registered, its breaker admits the call, and the input fits the tool's schema. -/
def Admitted (validatorFor : ValidatorFor) (r : ToolRegistry) (c : Call) : Prop :=
  ∃ b tool, r.circuitBreakers.lookup c.tool = some b ∧ (b.canExecute c.start).2 = true ∧
    r.get c.tool = some tool ∧
    InputValidator.validate validatorFor tool.inputSchema c.input = .ok ()

section Gate

variable {validatorFor : ValidatorFor} {config : CircuitBreakerConfig} {offered : List Tool}
  {log : List (Call × History Command.Answer)} {s s' : Session} {c : Call}
  {h : History Command.Answer} {e : Prog.Ending ToolError Json}

theorem admitted_iff {b : CircuitBreaker} {tool : Tool}
    (hb : s.registry.circuitBreakers.lookup c.tool = some b)
    (htool : s.registry.get c.tool = some tool) :
    Admitted validatorFor s.registry c ↔ (b.canExecute c.start).2 = true ∧
      validateInput validatorFor s.registry c.tool c.input = .ok () := by
  rw [validateInput, htool]
  constructor
  · rintro ⟨b', tool', hb', hadm, htool', hv⟩
    obtain rfl : b' = b := Option.some.inj (hb'.symm.trans hb)
    obtain rfl : tool' = tool := Option.some.inj (htool'.symm.trans htool)
    exact ⟨hadm, hv⟩
  · rintro ⟨hadm, hv⟩
    exact ⟨b, tool, hb, hadm, htool, hv⟩

theorem records_of_steps [SerdeJson] {toolName : String} {input : Json} {timeout : Nat}
    {r : ToolRegistry} (hsteps : CallSteps validatorFor r toolName input timeout h e) :
    h.filterMap record? = h.filterMap completion? := by
  cases hsteps with
  | unrendered | unregistered | rejected | invalid => rfl
  | @executed _ answer =>
    have hrecord : ∀ result, record? (recording toolName result) = some result.isOk := by
      intro result
      cases result <;> rfl
    have hcompletion : ∀ result, completion? (recording toolName result) = none := by
      intro result
      cases result <;> rfl
    simp only [List.filterMap_cons, List.filterMap_nil, hrecord, hcompletion]
    rfl

theorem records_of_reached [SerdeJson] (hr : Reached validatorFor config offered log s) :
    ∀ entry ∈ log, entry.2.filterMap record? = entry.2.filterMap completion? := by
  induction hr with
  | new => exact nofun
  | register _ _ ih => exact ih
  | call _ hends _ ih =>
    intro entry hmem
    rcases List.mem_append.1 hmem with hmem | hmem
    · exact ih entry hmem
    · obtain rfl := List.mem_singleton.1 hmem
      exact records_of_steps (Prog.wp_ends (callSteps_wp _ _ _ _ _) hends)
  | drop _ hwaits _ ih =>
    intro entry hmem
    rcases List.mem_append.1 hmem with hmem | hmem
    · exact ih entry hmem
    · obtain rfl := List.mem_singleton.1 hmem
      obtain ⟨rfl, -⟩ := Prog.wp_pending (callSteps_wp _ _ _ _ _) hwaits
      rfl

/-- The call runs its tool if and only if it is admitted, and is answered with `NotFound` if and
only if the name was never offered. -/
structure Promised (validatorFor : ValidatorFor) (offered : List Tool) (s : Session) (c : Call)
    (h : History Command.Answer) (e : Prog.Ending ToolError Json) : Prop where
  invoked_iff : invoked h = true ↔ Admitted validatorFor s.registry c
  notFound_iff : (∃ name, e = some (.error (.notFound name))) ↔ c.tool ∉ offered.map Tool.name

/-- Neither the rendering for the log nor the tool's own error comes between: an input whose log
line panics is that of a call the breaker or the schema turns away, and an admitted call has a tool
that does not answer `NotFound` itself. -/
structure Untroubled [SerdeJson] (validatorFor : ValidatorFor) (offered : List Tool) (s : Session)
    (c : Call) : Prop where
  rendered : truncateJson c.input 500 = none →
    c.tool ∈ offered.map Tool.name ∧ ¬Admitted validatorFor s.registry c
  answered : Admitted validatorFor s.registry c →
    ∀ name, c.answer ≠ some (.error (.notFound name))

/-- How the next call fares: what it may touch, when it runs its tool and finds none if its input
can be rendered for the log, and when it does as promised at all. -/
structure Gated [SerdeJson] (validatorFor : ValidatorFor) (offered : List Tool) (s s' : Session)
    (c : Call) (h : History Command.Answer) (e : Prog.Ending ToolError Json) : Prop where
  tools_eq : s'.registry.tools = s.registry.tools
  others : ∀ name ≠ c.tool,
    s'.registry.circuitBreakers.lookup name = s.registry.circuitBreakers.lookup name
  invoked_iff : truncateJson c.input 500 ≠ none →
    (invoked h = true ↔ Admitted validatorFor s.registry c)
  notFound_iff : truncateJson c.input 500 ≠ none →
    (e = some (.error (.notFound c.tool)) ∧ invoked h = false ↔
      c.tool ∉ offered.map Tool.name)
  promised_iff : Promised validatorFor offered s c h e ↔ Untroubled validatorFor offered s c

theorem validateInput_ne_notFound {r : ToolRegistry} {toolName name : String} {input : Json}
    {tool : Tool} (htool : r.get toolName = some tool) :
    validateInput validatorFor r toolName input ≠ .error (.notFound name) := by
  unfold validateInput InputValidator.validate
  rw [htool]
  dsimp only
  split
  · simp
  · split <;> simp

/-- Whether the tool is run is decided by the breaker and the schema. -/
theorem invoked_iff_admitted [SerdeJson] (hk : Kept config offered log s.registry)
    (hrendered : truncateJson c.input 500 ≠ none)
    (hsteps : CallSteps validatorFor s.registry c.tool c.input c.timeout h e)
    (hh : Prog.Handled (handle c) s h s') :
    invoked h = true ↔ Admitted validatorFor s.registry c := by
  cases hsteps with
  | unrendered hpanics => exact absurd hpanics hrendered
  | unregistered _ hnone =>
    refine iff_of_false Bool.false_ne_true ?_
    rintro ⟨b, tool, hb, -⟩
    exact absurd (hb.symm.trans hnone) nofun
  | rejected _ hb =>
    obtain ⟨tool, htool⟩ := hk.get_of_lookup hb
    have hadm : false = ((s.registry.breaker c.tool).canExecute c.start).2 := hh.1
    rw [breaker_of_lookup hb] at hadm
    rw [admitted_iff hb htool, ← hadm]
    exact iff_of_false Bool.false_ne_true fun hboth => Bool.false_ne_true hboth.1
  | invalid _ hb hv =>
    obtain ⟨tool, htool⟩ := hk.get_of_lookup hb
    rw [admitted_iff hb htool, hv]
    exact iff_of_false Bool.false_ne_true fun hboth => absurd hboth.2 nofun
  | executed _ hb hv =>
    obtain ⟨tool, htool⟩ := hk.get_of_lookup hb
    have hadm : true = ((s.registry.breaker c.tool).canExecute c.start).2 := hh.1
    rw [breaker_of_lookup hb] at hadm
    rw [admitted_iff hb htool]
    exact iff_of_true rfl ⟨hadm.symm, hv⟩

/-- The registry itself finds no tool for the names that were not offered. -/
theorem notFound_unasked_iff [SerdeJson] (hk : Kept config offered log s.registry)
    (hrendered : truncateJson c.input 500 ≠ none)
    (hsteps : CallSteps validatorFor s.registry c.tool c.input c.timeout h e) :
    e = some (.error (.notFound c.tool)) ∧ invoked h = false ↔ c.tool ∉ offered.map Tool.name := by
  rw [← hk.lookup_eq_none_iff]
  cases hsteps with
  | unrendered hpanics => exact absurd hpanics hrendered
  | unregistered _ hnone => exact iff_of_true ⟨rfl, rfl⟩ hnone
  | rejected _ hb =>
    rw [hb]
    exact iff_of_false (fun hboth => absurd hboth.1 (by simp)) nofun
  | invalid _ hb hv =>
    obtain ⟨tool, htool⟩ := hk.get_of_lookup hb
    rw [hb]
    refine iff_of_false ?_ nofun
    rintro ⟨he, -⟩
    simp only [Option.some.injEq, Except.error.injEq] at he
    exact validateInput_ne_notFound htool (he ▸ hv)
  | executed _ hb =>
    rw [hb]
    exact iff_of_false (fun hboth => absurd hboth.2 (by simp [invoked, invoked?])) nofun

theorem ending_eq_notFound_iff [SerdeJson] {timeout : Nat} {name : String}
    {answer : Option (Except ToolError Json)} :
    ending (flatten timeout answer) = some (.error (.notFound name)) ↔
      answer = some (.error (.notFound name)) := by
  rcases answer with _ | _ | output
  · simp [flatten, ending]
  · simp [flatten, ending]
  · cases hshown : truncateJson output 500 <;> simp [flatten, ending, hshown]

/-- `NotFound` is the answer of the registry or that of the tool. -/
theorem notFound_iff_of_rendered [SerdeJson] (hk : Kept config offered log s.registry)
    (hrendered : truncateJson c.input 500 ≠ none)
    (hsteps : CallSteps validatorFor s.registry c.tool c.input c.timeout h e)
    (hh : Prog.Handled (handle c) s h s') :
    (∃ name, e = some (.error (.notFound name))) ↔ c.tool ∉ offered.map Tool.name ∨
      invoked h = true ∧ ∃ name, c.answer = some (.error (.notFound name)) := by
  rw [← hk.lookup_eq_none_iff]
  cases hsteps with
  | unrendered hpanics => exact absurd hpanics hrendered
  | unregistered _ hnone => exact iff_of_true ⟨_, rfl⟩ (.inl hnone)
  | rejected _ hb =>
    rw [hb]
    simp [invoked, invoked?]
  | invalid _ hb hv =>
    obtain ⟨tool, htool⟩ := hk.get_of_lookup hb
    rw [hb]
    refine iff_of_false ?_ (by simp [invoked, invoked?])
    rintro ⟨name, he⟩
    simp only [Option.some.injEq, Except.error.injEq] at he
    exact validateInput_ne_notFound htool (he ▸ hv)
  | @executed _ answer _ hb =>
    obtain rfl : answer = c.answer := hh.2.1
    rw [hb]
    simp only [ending_eq_notFound_iff, reduceCtorEq, false_or]
    exact ⟨fun hanswer => ⟨rfl, hanswer⟩, And.right⟩

theorem promised_iff_untroubled [SerdeJson] (hk : Kept config offered log s.registry)
    (hsteps : CallSteps validatorFor s.registry c.tool c.input c.timeout h e)
    (hh : Prog.Handled (handle c) s h s') :
    Promised validatorFor offered s c h e ↔ Untroubled validatorFor offered s c := by
  by_cases hrendered : truncateJson c.input 500 = none
  · -- the call panics before it has looked at its tool
    obtain ⟨rfl, rfl⟩ : h = [] ∧ e = none := by
      cases hsteps with
      | unrendered => exact ⟨rfl, rfl⟩
      | unregistered hne | rejected hne | invalid hne | executed hne => exact absurd hrendered hne
    constructor
    · intro hp
      have hnot : ¬Admitted validatorFor s.registry c :=
        fun hadm => Bool.false_ne_true (hp.invoked_iff.2 hadm)
      have hmem : c.tool ∈ offered.map Tool.name := by
        by_contra hnone
        obtain ⟨_, he⟩ := hp.notFound_iff.2 hnone
        cases he
      exact ⟨fun _ => ⟨hmem, hnot⟩, fun hadm => absurd hadm hnot⟩
    · intro hu
      obtain ⟨hmem, hnot⟩ := hu.rendered hrendered
      exact ⟨iff_of_false Bool.false_ne_true hnot, iff_of_false nofun (not_not_intro hmem)⟩
  · have hinvoked := invoked_iff_admitted hk hrendered hsteps hh
    have hnotFound := notFound_iff_of_rendered hk hrendered hsteps hh
    rw [hinvoked] at hnotFound
    constructor
    · intro hp
      refine ⟨fun hpanics => absurd hpanics hrendered, fun hadm name hanswer => ?_⟩
      -- a tool that runs has been offered
      have hnone := hp.notFound_iff.1 (hnotFound.2 (.inr ⟨hadm, name, hanswer⟩))
      obtain ⟨b, -, hb, -⟩ := hadm
      exact absurd (hb.symm.trans (hk.lookup_eq_none_iff.2 hnone)) nofun
    · intro hu
      refine ⟨hinvoked, hnotFound.trans (or_iff_left ?_)⟩
      rintro ⟨hadm, name, hanswer⟩
      exact hu.answered hadm name hanswer

theorem gated_of_kept [SerdeJson] (hk : Kept config offered log s.registry)
    (hsteps : CallSteps validatorFor s.registry c.tool c.input c.timeout h e)
    (hh : Prog.Handled (handle c) s h s') : Gated validatorFor offered s s' c h e := by
  have hacts := acts_of_handled hsteps.own hh
  refine ⟨hacts.tools_eq, ?_, ?_, ?_, promised_iff_untroubled hk hsteps hh⟩
  · intro name hne
    rw [hacts.lookup_eq]
    simp only [hne, ↓reduceIte, Option.map_id']
  · intro hrendered
    exact invoked_iff_admitted hk hrendered hsteps hh
  · intro hrendered
    exact notFound_unasked_iff hk hrendered hsteps

/-- A call that waits for its tool has been admitted. -/
theorem admitted_of_waits [SerdeJson] (hk : Kept config offered log s.registry)
    (hwaits : Prog.Pending (s.registry.executeWithTimeout validatorFor c.tool c.input c.timeout) h
      (.execute c.tool c.input c.timeout))
    (hh : Prog.Handled (handle c) s h s') : Admitted validatorFor s.registry c := by
  obtain ⟨rfl, hreg, hv⟩ := Prog.wp_pending (callSteps_wp _ _ _ _ _) hwaits
  obtain ⟨b, hb⟩ := Option.ne_none_iff_exists'.1 hreg
  obtain ⟨tool, htool⟩ := hk.get_of_lookup hb
  have hadm : true = ((s.registry.breaker c.tool).canExecute c.start).2 := hh.1
  rw [breaker_of_lookup hb] at hadm
  exact (admitted_iff hb htool).2 ⟨hadm.symm, hv⟩

/-- **Gating and isolation.** After any history of registrations and calls: tools and breakers stand
under the names that have been offered, each name with the tool that came first, and a later offer
changes nothing; each breaker is what the operations of its own calls have made of a new one; and
every execution that came back was recorded once. The next call touches no other breaker; and it
runs its tool if and only if it is admitted, and is answered with `NotFound` if and only if the name
was never offered, if and only if the log and the tool's own error do not come between. -/
theorem registry_gating [SerdeJson] (hr : Reached validatorFor config offered log s) :
    (∀ name, (name ∈ s.registry.tools.map Prod.fst ↔ name ∈ offered.map Tool.name) ∧
      (name ∈ s.registry.circuitBreakers.map Prod.fst ↔ name ∈ offered.map Tool.name)) ∧
    (∀ name, s.registry.get name = offered.find? (·.name = name)) ∧
    (∀ tool, tool.name ∈ offered.map Tool.name → s.registry.registered tool = s.registry ∧
      s.registry.register tool = .error (.duplicateName tool.name)) ∧
    (∀ name ∈ offered.map Tool.name, s.registry.circuitBreakers.lookup name =
      some (.after config (operationsOn name log))) ∧
    (∀ entry ∈ log, entry.2.filterMap record? = entry.2.filterMap completion?) ∧
    (∀ c h e s',
      Prog.Ends (s.registry.executeWithTimeout validatorFor c.tool c.input c.timeout) h e →
        Prog.Handled (handle c) s h s' → Gated validatorFor offered s s' c h e) ∧
    ∀ c h s',
      Prog.Pending (s.registry.executeWithTimeout validatorFor c.tool c.input c.timeout) h
        (.execute c.tool c.input c.timeout) →
        Prog.Handled (handle c) s h s' → Admitted validatorFor s.registry c := by
  have hk := kept_of_reached hr
  refine ⟨?_, hk.get_eq, ?_, hk.lookup_eq, records_of_reached hr, ?_, ?_⟩
  · intro name
    rw [s.registry.keys_eq]
    exact ⟨hk.mem_iff, hk.mem_iff⟩
  · intro tool hmem
    exact registered_of_mem (hk.mem_iff.2 hmem)
  · intro c h e s' hends hh
    exact gated_of_kept hk (Prog.wp_ends (callSteps_wp _ _ _ _ _) hends) hh
  · intro c h s' hwaits hh
    exact admitted_of_waits hk hwaits hh

end Gate

/-! A tool that is offered twice, fails once, and answers as the registry does for a name it does
not know. -/

def index : Tool := ⟨"index", "Look up a page", .obj []⟩

def admitAll : ValidatorFor := fun _ => .ok fun _ => []

def startedRegistry : ToolRegistry := (ToolRegistry.new .default).registered index

def missing : Call := ⟨"index", .null, 1000, 0, 5, some (.error (.notFound "index"))⟩

def failing : Call := ⟨"index", .null, 1000, 6, 9, some (.error (.executionFailed "no connection"))⟩

def found : Call := ⟨"index", .null, 1000, 12, 15, some (.ok (.str "The release date"))⟩

section Example

attribute [local instance] SerdeJson.plain

theorem reached_index : Reached admitAll .default [index] [] ⟨startedRegistry, []⟩ :=
  Reached.new.register index

def failingHistory : History Command.Answer :=
  [⟨.canExecute "index", true⟩, ⟨.execute "index" .null 1000, failing.answer⟩,
    ⟨.recordFailure "index", ()⟩]

/-- The tool has been offered again, under another description, and has failed once. -/
def failedOnce : Session :=
  ((Session.mk ((startedRegistry.registered ⟨"index", "Another", .null⟩)) []).call admitAll failing).1

theorem reached_failedOnce : Reached admitAll .default [index, ⟨"index", "Another", .null⟩]
    [(failing, failingHistory)] failedOnce := by
  refine (reached_index.register ⟨"index", "Another", .null⟩).call
    (e := some (.error (.executionFailed "no connection"))) ⟨"", ?_⟩ ⟨rfl, rfl, rfl, rfl⟩
  exact .step _ (.step _ (.step _ (.refl _)))

theorem registry_gating_index :
    failedOnce.registry.get "index" = some index ∧
    failedOnce.registry.circuitBreakers.lookup "index" = some ⟨.closed, 1, 9, .default⟩ ∧
    ∀ h e s', Prog.Ends (failedOnce.registry.executeWithTimeout admitAll "index" .null 1000) h e →
      Prog.Handled (handle found) failedOnce h s' → invoked h = true := by
  obtain ⟨-, hget, -, hlookup, -, hcalls, -⟩ := registry_gating reached_failedOnce
  refine ⟨hget "index", hlookup "index" (by decide), fun h e s' hends hh => ?_⟩
  have hadmitted : Admitted admitAll failedOnce.registry found :=
    ⟨_, index, hlookup "index" (by decide), rfl, hget "index", rfl⟩
  have hpromised := (hcalls found h e s' hends hh).promised_iff.2 ⟨nofun, fun _ => nofun⟩
  exact hpromised.invoked_iff.2 hadmitted

/-- The tool's own answer is passed on, although it is registered. -/
theorem missing_notFound :
    Reached admitAll .default [index] [] ⟨startedRegistry, []⟩ ∧
    "index" ∈ startedRegistry.tools.map Prod.fst ∧
    ∃ s', (Session.mk startedRegistry []).call admitAll missing =
      (s', some (.error (.notFound "index"))) :=
  ⟨reached_index, by decide, _, rfl⟩

end Example

end Session

end Xola
