import Xola.Reliability.Verify.Stragglers
import Xola.Tools.Overlap
import Xola.Tools.Verify.Gating

/-!
# The registry refines the shared breaker

`Reliability/Interleaving` takes the callers of one tool for abstract ids that ask, are admitted and
record. Here this is what `execute_with_timeout` does: however the calls through the registry overlap,
whichever are dropped and whatever the tools answer, the operations on the breaker of each tool are a
run of that model, with the breaker of the registry in it. For a tool that accepts some input the
converse holds as well: every run of the model is one that calls can produce.
-/

namespace Xola.ToolRegistry

open Interaction
open CircuitBreaker (Action CallId Run Shared)

/-! ## One call -/

/-- Where a call issues its commands. -/
inductive Issued (c : Invocation) : History Command.Answer → Command → Prop
  | asks : Issued c [] (.canExecute c.tool)
  | executes : Issued c [⟨.canExecute c.tool, true⟩] (.execute c.tool c.input c.timeout)
  | succeeds {answer : Option (Except ToolError Json)} :
    Issued c [⟨.canExecute c.tool, true⟩, ⟨.execute c.tool c.input c.timeout, answer⟩]
      (.recordSuccess c.tool)
  | fails {answer : Option (Except ToolError Json)} :
    Issued c [⟨.canExecute c.tool, true⟩, ⟨.execute c.tool c.input c.timeout, answer⟩]
      (.recordFailure c.tool)

/-- And that its tool is registered. -/
def Guarantees (r : ToolRegistry) (c : Invocation) (h : History Command.Answer) (cmd : Command) :
    Prop :=
  (r.circuitBreakers.lookup c.tool).isSome ∧ Issued c h cmd

theorem guarantees_wp [SerdeJson] (validatorFor : ValidatorFor) (r : ToolRegistry) (c : Invocation) :
    Prog.wp (Guarantees r c) (fun _ _ => True) (invoke validatorFor r c) [] := by
  unfold invoke executeWithTimeout
  split
  · trivial
  split
  · trivial
  next b hb =>
  have hreg : (r.circuitBreakers.lookup c.tool).isSome := by rw [hb]; rfl
  simp only [Prog.perform, Prog.call_bind, Prog.ret_bind]
  refine ⟨⟨hreg, .asks⟩, ?_⟩
  intro admitted
  cases admitted with
  | false => trivial
  | true =>
    simp only [Bool.not_true, Bool.false_eq_true, ↓reduceIte]
    cases validateInput validatorFor r c.tool c.input with
    | error e => trivial
    | ok _ =>
      simp only [Prog.ofExcept_ok, Prog.ret_bind]
      split
      · trivial
      · refine ⟨⟨hreg, .executes⟩, ?_⟩
        intro answer
        dsimp only
        cases flatten c.timeout answer with
        | error e => exact ⟨⟨hreg, .fails⟩, fun _ => trivial⟩
        | ok output =>
          refine ⟨⟨hreg, .succeeds⟩, ?_⟩
          intro _
          cases truncateJson output 500 <;> trivial

/-! ## The breaker of one tool -/

section Breaker

variable {r r₀ : ToolRegistry} {name tool : String} {f : CircuitBreaker → CircuitBreaker}

theorem breaker_update_self (h : (r.circuitBreakers.lookup name).isSome) :
    (r.updateBreaker name f).breaker name = f (r.breaker name) := by
  obtain ⟨b, hb⟩ := Option.isSome_iff_exists.mp h
  rw [breaker_updateBreaker hb, Function.update_self]

theorem breaker_update_of_ne (hne : tool ≠ name) :
    (r.updateBreaker tool f).breaker name = r.breaker name := by
  simp only [breaker, updateBreaker, lookup_update, if_neg hne.symm]

theorem lookup_isSome_congr (h : r.tools = r₀.tools) :
    (r.circuitBreakers.lookup name).isSome = (r₀.circuitBreakers.lookup name).isSome := by
  rw [breaker_isSome, breaker_isSome, get, get, h]

theorem actionsOn_concat (log : CallLog) (e : Entry CallId Nat Command.Answer) :
    actionsOn name (log ++ [e]) = actionsOn name log ++ (action? name e).toList := by
  rw [actionsOn, List.filterMap_append, actionsOn]
  cases he : action? name e <;> simp [he]

end Breaker

/-! ## The simulation -/

/-- The state `s` of the shared breaker is what the log has made of the tool. -/
structure Simulates (name : String) (calls : CallId → Invocation) (log : CallLog)
    (r : ToolRegistry) (s : Shared) : Prop where
  breaker_eq : s.breaker = r.breaker name
  asked_iff : ∀ i, i ∈ s.asked ↔ (calls i).tool = name ∧ own i log ≠ []
  nodup : s.inFlight.Nodup
  inFlight_iff : ∀ i, i ∈ s.inFlight ↔ (calls i).tool = name ∧ InFlight (calls i) (own i log)

section Simulation

variable {name : String} {calls : CallId → Invocation} {log : CallLog} {r r' : ToolRegistry}
  {s : Shared} {i j : CallId} {now : Nat} {x : Exchange Command.Answer}

/-- What an entry of another task, or of a call of another tool, leaves as it is. -/
theorem own_of_other (hne : (calls j).tool = name → j ≠ i) (hi : (calls i).tool = name) :
    own i (log ++ [⟨j, now, x⟩]) = own i log := by
  refine own_concat_of_ne fun hji => ?_
  subst hji
  exact hne hi rfl

theorem Simulates.other (hs : Simulates name calls log r s) (hj : (calls j).tool ≠ name)
    (hr : r'.breaker name = r.breaker name) :
    Simulates name calls (log ++ [⟨j, now, x⟩]) r' s where
  breaker_eq := hs.breaker_eq.trans hr.symm
  asked_iff i := by
    rw [hs.asked_iff]
    refine and_congr_right fun hi => ?_
    rw [own_of_other (fun h => absurd h hj) hi]
  nodup := hs.nodup
  inFlight_iff i := by
    rw [hs.inFlight_iff]
    refine and_congr_right fun hi => ?_
    rw [own_of_other (fun h => absurd h hj) hi]

/-- The call has had an answer from its breaker before. -/
theorem InFlight.ne_nil {c : Invocation} {h : History Command.Answer} (hf : InFlight c h) :
    h ≠ [] := by
  rcases hf with rfl | ⟨_, rfl⟩ <;> exact List.cons_ne_nil _ _

theorem not_inFlight_rejected {c : Invocation} : ¬InFlight c [⟨.canExecute c.tool, false⟩] := by
  rintro (h | ⟨_, h⟩) <;> cases h

theorem not_inFlight_recorded {c : Invocation} {x y z : Exchange Command.Answer} :
    ¬InFlight c [x, y, z] := by
  rintro (h | ⟨_, h⟩) <;> cases h

/-- A call asks its breaker. -/
theorem Simulates.asks (hs : Simulates name calls log r s) (hj : (calls j).tool = name)
    (hnew : own j log = []) (hreg : (r.circuitBreakers.lookup name).isSome) :
    s.Enabled (.canExecute j now) ∧
    Simulates name calls
      (log ++ [⟨j, now, .canExecute name, ((r.breaker name).canExecute now).2⟩])
      (r.updateBreaker name fun b => (b.canExecute now).1) (s.step (.canExecute j now)) := by
  have hfresh : j ∉ s.asked := fun hmem => ((hs.asked_iff j).mp hmem).2 hnew
  have hidle : j ∉ s.inFlight := by
    intro hmem
    exact ((hs.inFlight_iff j).mp hmem).2.ne_nil hnew
  refine ⟨hfresh, ?_, ?_, ?_, ?_⟩
  · rw [breaker_update_self hreg, ← hs.breaker_eq]
    rfl
  · intro i
    rw [Shared.step, List.mem_cons, hs.asked_iff, own_concat]
    by_cases hi : j = i
    · subst hi
      simp [hj]
    · simp [Ne.symm hi, hi]
  · simp only [Shared.step]
    split
    · exact List.nodup_cons.mpr ⟨hidle, hs.nodup⟩
    · exact hs.nodup
  · intro i
    simp only [Shared.step, hs.breaker_eq]
    by_cases hi : j = i
    · subst hi
      rw [own_concat, if_pos rfl, hnew, List.nil_append]
      cases ((r.breaker name).canExecute now).2 with
      | true => simp [InFlight, hj]
      | false =>
        refine iff_of_false hidle ?_
        rintro ⟨-, hf⟩
        rw [← hj] at hf
        exact not_inFlight_rejected hf
    · rw [own_concat, if_neg hi, List.append_nil, ← hs.inFlight_iff]
      split
      · simp [Ne.symm hi]
      · exact Iff.rfl

/-- Its tool is executed, which its breaker does not see. -/
theorem Simulates.executes (hs : Simulates name calls log r s) {answer : Option (Except ToolError Json)}
    (hown : own j log = [⟨.canExecute (calls j).tool, true⟩]) :
    Simulates name calls (log ++
      [⟨j, now, .execute (calls j).tool (calls j).input (calls j).timeout, answer⟩]) r s where
  breaker_eq := hs.breaker_eq
  asked_iff i := by
    rw [hs.asked_iff, own_concat]
    by_cases hi : j = i
    · subst hi
      simp [hown]
    · simp [hi]
  nodup := hs.nodup
  inFlight_iff i := by
    rw [hs.inFlight_iff, own_concat]
    by_cases hi : j = i
    · subst hi
      simp [InFlight, hown]
    · simp [hi]

/-- The result of the execution is recorded, by the action `a`. -/
theorem Simulates.records (hs : Simulates name calls log r s) (hj : (calls j).tool = name)
    {answer : Option (Except ToolError Json)} {x : Exchange Command.Answer} {a : Action}
    (hown : own j log = [⟨.canExecute (calls j).tool, true⟩,
      ⟨.execute (calls j).tool (calls j).input (calls j).timeout, answer⟩])
    (hstep : s.step a =
      { s with breaker := (s.step a).breaker, inFlight := s.inFlight.erase j })
    (hr : r'.breaker name = (s.step a).breaker) :
    j ∈ s.inFlight ∧ Simulates name calls (log ++ [⟨j, now, x⟩]) r' (s.step a) := by
  have hflying : j ∈ s.inFlight := (hs.inFlight_iff j).mpr ⟨hj, .inr ⟨answer, hown⟩⟩
  rw [hstep]
  refine ⟨hflying, hr.symm, ?_, hs.nodup.erase j, ?_⟩
  · intro i
    rw [hs.asked_iff, own_concat]
    by_cases hi : j = i
    · subst hi
      simp [hown]
    · simp [hi]
  · intro i
    rw [hs.nodup.mem_erase_iff, hs.inFlight_iff, own_concat]
    by_cases hi : j = i
    · subst hi
      rw [if_pos rfl, hown]
      refine iff_of_false (fun h => h.1 rfl) ?_
      rintro ⟨-, hf⟩
      exact not_inFlight_recorded hf
    · rw [if_neg hi, List.append_nil]
      exact and_iff_right (Ne.symm hi)

end Simulation

/-! ## Result -/

variable {validatorFor : ValidatorFor} {config : CircuitBreakerConfig} {tools : List Tool}
  {r₀ r : ToolRegistry} {calls : CallId → Invocation} {log : CallLog}

/-- The invariant of the pool: the tools stay, and the shared breaker has taken every step. -/
def Followed (config : CircuitBreakerConfig) (r₀ : ToolRegistry) (calls : CallId → Invocation)
    (name : String) (log : CallLog) (r : ToolRegistry) : Prop :=
  r.tools = r₀.tools ∧
    ∃ s, Run config (actionsOn name log) s ∧ Simulates name calls log r s

section Result

variable [SerdeJson]

theorem followed (hr : ofTools config tools = .ok r₀)
    (h : Overlapped validatorFor r₀ calls log r) (name : String) :
    Followed config r₀ calls name log r := by
  refine h.rule (Followed config r₀ calls name) (fun i => guarantees_wp validatorFor r₀ (calls i))
    ?_ ?_
  · refine ⟨rfl, _, .nil, ((fresh_ofTools hr).breaker_eq name).symm, ?_, List.nodup_nil, ?_⟩
    · simp [Shared.initial]
    · simp [Shared.initial, InFlight]
  · rintro log r r' j now c a ⟨htools, s, hrun, hs⟩ ⟨hreg, hissued⟩ hserved
    rw [← lookup_isSome_congr htools] at hreg
    by_cases hj : (calls j).tool = name
    · rw [hj] at hreg
      generalize hown : own j log = h at hissued
      cases hissued with
      | asks =>
        obtain ⟨rfl, rfl⟩ := hserved
        rw [hj]
        obtain ⟨henabled, hnext⟩ := hs.asks hj hown hreg
        refine ⟨htools, _, ?_, hnext⟩
        rw [actionsOn_concat]
        simpa [action?] using hrun.snoc henabled
      | executes =>
        obtain rfl : r' = r := hserved
        refine ⟨htools, s, ?_, hs.executes hown⟩
        rw [actionsOn_concat]
        simpa [action?] using hrun
      | succeeds =>
        obtain rfl : r' = r.updateBreaker (calls j).tool .recordSuccess := hserved
        have hbreaker : (r.updateBreaker (calls j).tool .recordSuccess).breaker name =
            (s.step (.recordSuccess j)).breaker := by
          rw [hj, breaker_update_self hreg, ← hs.breaker_eq]
          rfl
        obtain ⟨hflying, hnext⟩ := hs.records hj hown rfl hbreaker
        refine ⟨htools, _, ?_, hnext⟩
        rw [actionsOn_concat]
        simpa [action?, hj] using hrun.snoc (a := .recordSuccess j) hflying
      | fails =>
        obtain rfl : r' = r.updateBreaker (calls j).tool (.recordFailure · now) := hserved
        have hbreaker : (r.updateBreaker (calls j).tool (.recordFailure · now)).breaker name =
            (s.step (.recordFailure j now)).breaker := by
          rw [hj, breaker_update_self hreg, ← hs.breaker_eq]
          rfl
        obtain ⟨hflying, hnext⟩ := hs.records hj hown rfl hbreaker
        refine ⟨htools, _, ?_, hnext⟩
        rw [actionsOn_concat]
        simpa [action?, hj] using hrun.snoc (a := .recordFailure j now) hflying
    · generalize own j log = h at hissued
      cases hissued with
      | asks =>
        obtain ⟨-, rfl⟩ := hserved
        refine ⟨htools, s, ?_, hs.other hj (breaker_update_of_ne hj)⟩
        rw [actionsOn_concat]
        simpa [action?, hj] using hrun
      | executes =>
        obtain rfl : r' = r := hserved
        refine ⟨htools, s, ?_, hs.other hj rfl⟩
        rw [actionsOn_concat]
        simpa [action?] using hrun
      | succeeds | fails =>
        cases hserved
        refine ⟨htools, s, ?_, hs.other hj (breaker_update_of_ne hj)⟩
        rw [actionsOn_concat]
        simpa [action?, hj] using hrun

theorem Simulates.of_run (hr : ofTools config tools = .ok r₀) {name : String} {acts : List Action}
    {s : Shared} (h : Overlapped validatorFor r₀ calls log r) (hlog : actionsOn name log = acts)
    (hrun : Run config acts s) : Simulates name calls log r s := by
  obtain ⟨-, s', hrun', hs⟩ := followed hr h name
  rw [hlog] at hrun'
  rw [hrun.functional hrun']
  exact hs

/-- However calls overlap, the operations on the breaker of each tool are a run of the shared
breaker, which ends in the breaker of the registry with the calls in flight that have been admitted
and have not recorded their result. -/
theorem overlapped_refines_run (hr : ofTools config tools = .ok r₀)
    (h : Overlapped validatorFor r₀ calls log r) :
    r.tools = r₀.tools ∧ ∀ name, ∃ s, Run config (actionsOn name log) s ∧
      s.breaker = r.breaker name ∧
      ∀ i, i ∈ s.inFlight ↔ (calls i).tool = name ∧ InFlight (calls i) (own i log) := by
  refine ⟨(followed hr h "").1, fun name => ?_⟩
  obtain ⟨-, s, hrun, hs⟩ := followed hr h name
  exact ⟨s, hrun, hs.breaker_eq, hs.inFlight_iff⟩

end Result

/-- One tool that accepts any input; its breaker opens on the first failure. -/
def clockRegistry : ToolRegistry where
  tools := [("clock", ⟨"clock", "Tell the time", .obj []⟩)]
  circuitBreakers := [("clock", .new ⟨1, 30000⟩)]
  circuitBreakerConfig := ⟨1, 30000⟩
  keys_eq := rfl
  nodup := by decide

def lenient : ValidatorFor := fun _ => .ok fun _ => []

def clockCall : Invocation := ⟨"clock", .null, 1000⟩

theorem ofTools_clockRegistry :
    ofTools ⟨1, 30000⟩ [⟨"clock", "Tell the time", .obj []⟩] = .ok clockRegistry := rfl

/-- Two calls ask, one after the other. -/
def bothAsked : CallLog :=
  [⟨0, 3, .canExecute "clock", true⟩, ⟨1, 4, .canExecute "clock", true⟩]

section Example

attribute [local instance] SerdeJson.plain

theorem overlapped_refines_run_bothAsked :
    ∃ s, Run ⟨1, 30000⟩ [.canExecute 0 3, .canExecute 1 4] s ∧ 0 ∈ s.inFlight := by
  have hpool : ∃ r, Overlapped lenient clockRegistry (fun _ => clockCall) bothAsked r := by
    have hasks : Prog.Pending (invoke lenient clockRegistry clockCall) [] (.canExecute "clock") :=
      ⟨_, .refl _⟩
    exact ⟨_, .snoc 1 4 (.snoc 0 3 .nil hasks ⟨rfl, rfl⟩) hasks ⟨rfl, rfl⟩⟩
  obtain ⟨r, hpool⟩ := hpool
  obtain ⟨s, hrun, -, hflying⟩ :=
    (overlapped_refines_run ofTools_clockRegistry hpool).2 "clock"
  exact ⟨s, hrun, (hflying 0).mpr ⟨rfl, .inl rfl⟩⟩

end Example

/-! ## The converse -/

section Accepted

variable [SerdeJson] {c : Invocation}

/-- The call gets to its tool once its breaker admits it. -/
structure Accepted (validatorFor : ValidatorFor) (r : ToolRegistry) (c : Invocation) : Prop where
  rendered : truncateJson c.input 500 ≠ none
  valid : validateInput validatorFor r c.tool c.input = .ok ()

theorem Accepted.registered (h : Accepted validatorFor r c) :
    ∃ tool b, r.get c.tool = some tool ∧ r.circuitBreakers.lookup c.tool = some b := by
  have hvalid := h.valid
  unfold validateInput at hvalid
  split at hvalid
  · cases hvalid
  · next tool htool =>
    have hkey : (r.circuitBreakers.lookup c.tool).isSome := by
      rw [breaker_isSome, htool]
      rfl
    obtain ⟨b, hb⟩ := Option.isSome_iff_exists.mp hkey
    exact ⟨tool, b, htool, hb⟩

/-- What an accepted call does, without the checks it passes. -/
theorem Accepted.invoke_eq (h : Accepted validatorFor r c) :
    invoke validatorFor r c = .call (.canExecute c.tool) fun admitted =>
      if !admitted then .err (.circuitOpen c.tool)
      else .call (.execute c.tool c.input c.timeout) fun answer =>
        match flatten c.timeout answer with
        | .ok output => .call (.recordSuccess c.tool) fun _ =>
          match truncateJson output 500 with
          | none => .panic charBoundary
          | some _ => .ret output
        | .error e => .call (.recordFailure c.tool) fun _ => .err e := by
  obtain ⟨tool, b, htool, hb⟩ := h.registered
  obtain ⟨shown, hshown⟩ := Option.ne_none_iff_exists'.mp h.rendered
  simp only [invoke, executeWithTimeout, hshown, hb, h.valid, htool]
  rfl

theorem Accepted.asks (h : Accepted validatorFor r c) :
    Prog.Pending (invoke validatorFor r c) [] (.canExecute c.tool) := by
  rw [h.invoke_eq]
  exact .here _ _

theorem Accepted.executes (h : Accepted validatorFor r c) :
    Prog.Pending (invoke validatorFor r c) [⟨.canExecute c.tool, true⟩]
      (.execute c.tool c.input c.timeout) := by
  rw [h.invoke_eq]
  exact .after (.here _ _)

theorem Accepted.succeeds (h : Accepted validatorFor r c) (output : Json) :
    Prog.Pending (invoke validatorFor r c) [⟨.canExecute c.tool, true⟩,
      ⟨.execute c.tool c.input c.timeout, some (.ok output)⟩] (.recordSuccess c.tool) := by
  rw [h.invoke_eq]
  exact .after (.after (.here _ _))

theorem Accepted.fails (h : Accepted validatorFor r c) :
    Prog.Pending (invoke validatorFor r c) [⟨.canExecute c.tool, true⟩,
      ⟨.execute c.tool c.input c.timeout, none⟩] (.recordFailure c.tool) := by
  rw [h.invoke_eq]
  exact .after (.after (.here _ _))

end Accepted

/-- A pool of accepted calls that gives rise to the run: whoever is in flight still waits for its
tool. -/
structure Produces [SerdeJson] (validatorFor : ValidatorFor) (r₀ : ToolRegistry) (c : Invocation)
    (acts : List Action) (s : Shared) (log : CallLog) (r : ToolRegistry) : Prop where
  pool : Overlapped validatorFor r₀ (fun _ => c) log r
  acts_eq : actionsOn c.tool log = acts
  waits : ∀ i ∈ s.inFlight, own i log = [⟨.canExecute c.tool, true⟩]

section Produces

variable [SerdeJson] {c : Invocation} {acts : List Action} {s : Shared} {i : CallId} {now : Nat}

theorem Produces.asks (hr : ofTools config tools = .ok r₀) (hc : Accepted validatorFor r₀ c)
    (hrun : Run config acts s) (h : Produces validatorFor r₀ c acts s log r) (hnew : i ∉ s.asked) :
    ∃ log' r', Produces validatorFor r₀ c (acts ++ [.canExecute i now])
      (s.step (.canExecute i now)) log' r' := by
  have hs := Simulates.of_run hr h.pool h.acts_eq hrun
  have hown : own i log = [] := by
    by_contra hne
    exact hnew ((hs.asked_iff i).mpr ⟨rfl, hne⟩)
  have hwaiting : Prog.Pending (invoke validatorFor r₀ c) (own i log) (.canExecute c.tool) := by
    rw [hown]
    exact hc.asks
  refine ⟨_, _, .snoc i now h.pool hwaiting ⟨rfl, rfl⟩, ?_, ?_⟩
  · rw [actionsOn_concat, h.acts_eq]
    simp [action?]
  · intro j hj
    rw [own_concat]
    by_cases hij : i = j
    · subst hij
      simp only [Shared.step, hs.breaker_eq] at hj
      split at hj
      · next hadm => simp [hown, hadm]
      · exact absurd ((hs.inFlight_iff i).mp hj).2.ne_nil (by simp [hown])
    · rw [if_neg hij, List.append_nil]
      refine h.waits j ?_
      simp only [Shared.step] at hj
      split at hj
      · exact (List.mem_cons.mp hj).resolve_left (Ne.symm hij)
      · exact hj

/-- An execution and the record of its result, by the action `a`. -/
theorem Produces.records (hr : ofTools config tools = .ok r₀) (hc : Accepted validatorFor r₀ c)
    (hrun : Run config acts s) (h : Produces validatorFor r₀ c acts s log r) (hi : i ∈ s.inFlight)
    {answer : Option (Except ToolError Json)} {cmd : Command} {x : cmd.Answer} {a : Action}
    {r' : ToolRegistry}
    (hrecord : Prog.Pending (invoke validatorFor r₀ c)
      [⟨.canExecute c.tool, true⟩, ⟨.execute c.tool c.input c.timeout, answer⟩] cmd)
    (hserved : serve now r cmd x r') (haction : action? c.tool ⟨i, now, cmd, x⟩ = some a)
    (hstep : (s.step a).inFlight = s.inFlight.erase i) :
    ∃ log' r', Produces validatorFor r₀ c (acts ++ [a]) (s.step a) log' r' := by
  have hs := Simulates.of_run hr h.pool h.acts_eq hrun
  have hexecutes : Prog.Pending (invoke validatorFor r₀ c) (own i log)
      (.execute c.tool c.input c.timeout) := by
    rw [h.waits i hi]
    exact hc.executes
  have hexecuted : Overlapped validatorFor r₀ (fun _ => c)
      (log ++ [⟨i, now, .execute c.tool c.input c.timeout, answer⟩]) r :=
    .snoc i now h.pool hexecutes rfl
  have hwaiting : Prog.Pending (invoke validatorFor r₀ c)
      (own i (log ++ [⟨i, now, .execute c.tool c.input c.timeout, answer⟩])) cmd := by
    rw [own_concat_self, h.waits i hi]
    exact hrecord
  refine ⟨_, r', .snoc i now hexecuted hwaiting hserved, ?_, ?_⟩
  · rw [actionsOn_concat, actionsOn_concat, h.acts_eq, haction]
    simp [action?]
  · intro j hj
    rw [hstep, hs.nodup.mem_erase_iff] at hj
    have hij : i ≠ j := Ne.symm hj.1
    rw [own_concat_of_ne hij, own_concat_of_ne hij]
    exact h.waits j hj.2

/-- Every run of the shared breaker is one of overlapping calls. -/
theorem exists_produces (hr : ofTools config tools = .ok r₀) (hc : Accepted validatorFor r₀ c)
    (hrun : Run config acts s) : ∃ log r, Produces validatorFor r₀ c acts s log r := by
  induction hrun with
  | nil => exact ⟨[], r₀, .nil, rfl, by simp [Shared.initial]⟩
  | @snoc acts s a before enabled ih =>
    obtain ⟨log, r, h⟩ := ih
    cases a with
    | canExecute i now => exact h.asks hr hc before enabled
    | recordSuccess i =>
      have haction : action? c.tool ⟨i, 0, .recordSuccess c.tool, ()⟩ = some (.recordSuccess i) := by
        simp [action?]
      exact h.records hr hc before enabled (hc.succeeds .null) rfl haction rfl
    | recordFailure i now =>
      have haction : action? c.tool ⟨i, now, .recordFailure c.tool, ()⟩ =
          some (.recordFailure i now) := by
        simp [action?]
      exact h.records hr hc before enabled hc.fails rfl haction rfl

end Produces

/-- The shared breaker is exact: for a tool that accepts some call, its runs are the operations that
overlapping calls can perform on the breaker of the tool, with the same outcome. -/
theorem run_iff_overlapped [SerdeJson] (hr : ofTools config tools = .ok r₀) {c : Invocation}
    (hc : Accepted validatorFor r₀ c) (acts : List Action) (b : CircuitBreaker) :
    (∃ s, Run config acts s ∧ s.breaker = b) ↔
      ∃ calls log r, Overlapped validatorFor r₀ calls log r ∧ actionsOn c.tool log = acts ∧
        r.breaker c.tool = b := by
  constructor
  · rintro ⟨s, hrun, rfl⟩
    obtain ⟨log, r, h⟩ := exists_produces hr hc hrun
    have hs := Simulates.of_run hr h.pool h.acts_eq hrun
    exact ⟨_, log, r, h.pool, h.acts_eq, hs.breaker_eq.symm⟩
  · rintro ⟨calls, log, r, hpool, rfl, rfl⟩
    obtain ⟨-, s, hrun, hs⟩ := followed hr hpool c.tool
    exact ⟨s, hrun, hs.breaker_eq⟩

attribute [local instance] SerdeJson.plain

/-- The second failure arrives in `Open`. -/
def straggling : List Action :=
  [.canExecute 0 0, .canExecute 1 0, .recordFailure 0 5, .recordFailure 1 9]

theorem run_iff_overlapped_straggling :
    ∃ calls log r, Overlapped lenient clockRegistry calls log r ∧
      actionsOn "clock" log = straggling ∧
      r.breaker "clock" = ⟨.opened, 1, 9, ⟨1, 30000⟩⟩ := by
  have haccepted : Accepted lenient clockRegistry clockCall := ⟨by decide, rfl⟩
  exact (run_iff_overlapped ofTools_clockRegistry haccepted straggling _).mp
    ⟨_, .of_along (by decide), rfl⟩

end Xola.ToolRegistry
