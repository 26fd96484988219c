import Xola.Planning.Runtime
import Xola.Planning.Verify.Accounting
import Xola.Reliability.Verify.Rejection
import Xola.Tools.Verify.Overlap

/-!
# The runtime refines its parts

However many tasks run on one registry, and however their steps interleave, the part of each task is
a run of its executor in which every tool call has returned what `execute_with_timeout` returned to
it; and the operations that all of them make on the breaker of a tool are a run of the shared
breaker. So what holds of executor runs holds of each task, and what holds of breakers under any
callers holds of the breakers that the tasks share.

The proof keeps a pool of calls beside the pool of tasks. A call begins with the first command that
the registry issues for it; until it is over it belongs to its task, and what is left of the task is
what is left of the call, followed by the rest of the loop.
-/

namespace Xola.Runtime

open Interaction ToolRegistry
open CircuitBreaker (Action CallId Operation Rejected Run rejected_of_canExecute)

section Tasks

variable [SerdeJson] {ι : Type} {validatorFor : ValidatorFor} {hs : Hashing} {r₀ : ToolRegistry}

/-! ## What a task does next -/

/-- A program that goes on with a command of its loop, or with the first command of a call. -/
inductive Next (validatorFor : ValidatorFor) (r₀ : ToolRegistry) : Work TaskResult → Prop
  | plan (c : PlanExecutor.Command) (k : c.Answer → PlanExecutor.Plan TaskResult) :
    Next validatorFor r₀ (.call (.plan c) fun x => (k x).inline (carryOut validatorFor r₀))
  | tool (call : Invocation) {c : ToolRegistry.Command}
      {p : c.Answer → Prog ToolRegistry.Command ToolRegistry.Command.Answer ToolError Json}
      (k : Except ToolError Json → PlanExecutor.Plan TaskResult)
      (starts : invoke validatorFor r₀ call = .call c p) :
    Next validatorFor r₀ (.call (.tool c) fun x =>
      ((p x).embed .tool).attempt >>= fun res => (k res).inline (carryOut validatorFor r₀))

theorem next_of_inline {p : PlanExecutor.Plan TaskResult} {c : Command}
    {k : c.Answer → Work TaskResult}
    (h : p.inline (carryOut validatorFor r₀) = .call c k) :
    Next validatorFor r₀ (.call c k) := by
  induction p with
  | ret a | err e | panic m => cases h
  | call c₀ k₀ ih =>
    cases c₀ with
    | executeWithTimeout action input timeout =>
      have hcall : (((invoke validatorFor r₀ ⟨action, input, timeout⟩).embed .tool).attempt >>=
          fun res => (k₀ res).inline (carryOut validatorFor r₀)) = .call c k := h
      -- a call that the registry ends without a command leaves the task to its loop
      cases hp : invoke validatorFor r₀ ⟨action, input, timeout⟩ with
      | ret a =>
        rw [hp] at hcall
        exact ih (.ok a) hcall
      | err e =>
        rw [hp] at hcall
        exact ih (.error e) hcall
      | panic m =>
        rw [hp] at hcall
        cases hcall
      | call c₁ p =>
        rw [hp] at hcall
        cases hcall
        exact .tool _ k₀ hp
    | iteration n => cases h; exact .plan _ k₀
    | pushed stm msg => cases h; exact .plan _ k₀
    | reason request => cases h; exact .plan _ k₀
    | summarize request => cases h; exact .plan _ k₀
    | elapsed => cases h; exact .plan _ k₀
    | insert episode => cases h; exact .plan _ k₀

/-! ## The pool of calls -/

/-- The calls that the tasks have begun, and the tasks they are from. -/
structure Calls (ι : Type) where
  calls : CallId → Invocation
  owner : CallId → Option ι
  /-- The ids below it are taken. -/
  next : CallId
  log : CallLog

/-- The task `i` begins a call. -/
def Calls.begin (b : Calls ι) (i : ι) (call : Invocation) (now : Nat)
    (x : Exchange ToolRegistry.Command.Answer) : Calls ι where
  calls := Function.update b.calls b.next call
  owner := Function.update b.owner b.next (some i)
  next := b.next + 1
  log := b.log ++ [⟨b.next, now, x⟩]

def Calls.continue (b : Calls ι) (id : CallId) (now : Nat)
    (x : Exchange ToolRegistry.Command.Answer) : Calls ι :=
  { b with log := b.log ++ [⟨id, now, x⟩] }

/-- What may be left of the task `i`. -/
inductive Left (validatorFor : ValidatorFor) (r₀ : ToolRegistry) (b : Calls ι) (i : ι) :
    Work TaskResult → Prop
  | idle (p : PlanExecutor.Plan TaskResult) :
    Left validatorFor r₀ b i (p.inline (carryOut validatorFor r₀))
  | calling {id : CallId} {q : Prog ToolRegistry.Command ToolRegistry.Command.Answer ToolError Json}
      (k : Except ToolError Json → PlanExecutor.Plan TaskResult) (taken : id < b.next)
      (mine : b.owner id = some i)
      (running : Prog.Reaches (invoke validatorFor r₀ (b.calls id)) (own id b.log) q) :
    Left validatorFor r₀ b i
      ((q.embed .tool).attempt >>= fun res => (k res).inline (carryOut validatorFor r₀))

section Left

variable {b : Calls ι} {i j : ι} {id : CallId} {call : Invocation} {now : Nat}
  {x : Exchange ToolRegistry.Command.Answer} {q : Work TaskResult}

theorem Left.begin_other (hl : Left validatorFor r₀ b j q) :
    Left validatorFor r₀ (b.begin i call now x) j q := by
  cases hl with
  | idle p => exact .idle p
  | @calling id q k taken mine running =>
    have hne : id ≠ b.next := taken.ne
    refine .calling k (Nat.lt_succ_of_lt taken) ?_ ?_
    · simpa [Calls.begin, hne] using mine
    · simpa [Calls.begin, hne, own_concat_of_ne hne.symm] using running

theorem Left.continue_other (hid : b.owner id = some i) (hj : j ≠ i)
    (hl : Left validatorFor r₀ b j q) : Left validatorFor r₀ (b.continue id now x) j q := by
  cases hl with
  | idle p => exact .idle p
  | @calling id' q k taken mine running =>
    have hne : id ≠ id' := by
      rintro rfl
      exact hj (Option.some.inj (mine.symm.trans hid))
    refine .calling k taken mine ?_
    simpa [Calls.continue, own_concat_of_ne hne] using running

end Left

/-! ## The simulation -/

section Operations

variable {clog : CallLog} {log : TaskLog ι} {name : String} {now : Nat}

omit [SerdeJson] in
theorem operationsOn_concat (e : Entry ι Nat Command.Answer) :
    operationsOn name (log ++ [e]) = operationsOn name log ++ (operation? name e).toList := by
  rw [operationsOn, List.filterMap_append, operationsOn]
  cases he : operation? name e <;> simp [he]

omit [SerdeJson] in
/-- A command of the registry is the same operation in both pools. -/
theorem operation_eq (id : CallId) (i : ι) {c : ToolRegistry.Command} (x : c.Answer) :
    (action? name ⟨id, now, c, x⟩).map Action.operation =
      operation? name (⟨i, now, .tool c, x⟩ : Entry ι Nat Command.Answer) := by
  cases c with
  | canExecute name' | recordSuccess name' | recordFailure name' =>
    simp only [action?, operation?]
    split <;> rfl
  | execute _ _ _ => rfl

omit [SerdeJson] in
theorem operations_concat {id : CallId} {i : ι} {c : ToolRegistry.Command} {x : c.Answer}
    (h : (actionsOn name clog).map Action.operation = operationsOn name log) :
    (actionsOn name (clog ++ [⟨id, now, c, x⟩])).map Action.operation =
      operationsOn name (log ++ [⟨i, now, .tool c, x⟩]) := by
  rw [actionsOn_concat, operationsOn_concat, List.map_append, h, ← operation_eq id i x]
  cases action? name ⟨id, now, c, x⟩ <;> rfl

end Operations

variable [DecidableEq ι] {ex : ι → PlanExecutor} {goal : ι → String}

/-- The calls `b` are those of the tasks, and have left the registry as `r`. -/
structure Carries (validatorFor : ValidatorFor) (hs : Hashing) (r₀ : ToolRegistry)
    (ex : ι → PlanExecutor) (goal : ι → String) (b : Calls ι) (log : TaskLog ι)
    (r : ToolRegistry) : Prop where
  pool : Overlapped validatorFor r₀ b.calls b.log r
  taken : ∀ e ∈ b.log, e.task < b.next
  operations : ∀ name, (actionsOn name b.log).map Action.operation = operationsOn name log
  left : ∀ i, ∃ q, Prog.Reaches (raced validatorFor hs (ex i) (goal i)) (own i log) q ∧
    Left validatorFor r₀ b i q

namespace Carries

variable {b b' : Calls ι} {log : TaskLog ι} {r r' : ToolRegistry} {i : ι} {now : Nat}

/-- One exchange of the task `i` leaves the others where they are. -/
theorem left_concat (hc : Carries validatorFor hs r₀ ex goal b log r) {c : Command} {x : c.Answer}
    {k : c.Answer → Work TaskResult}
    (hk : Prog.Reaches (raced validatorFor hs (ex i) (goal i)) (own i log) (.call c k))
    (hself : Left validatorFor r₀ b' i (k x))
    (hother : ∀ j q, j ≠ i → Left validatorFor r₀ b j q → Left validatorFor r₀ b' j q) (j : ι) :
    ∃ q, Prog.Reaches (raced validatorFor hs (ex j) (goal j)) (own j (log ++ [⟨i, now, c, x⟩])) q ∧
      Left validatorFor r₀ b' j q := by
  by_cases hj : i = j
  · subst hj
    rw [own_concat_self]
    exact ⟨_, hk.snoc x, hself⟩
  · rw [own_concat_of_ne hj]
    obtain ⟨q, hq, hl⟩ := hc.left j
    exact ⟨q, hq, hother j q (Ne.symm hj) hl⟩

theorem next_fresh (hc : Carries validatorFor hs r₀ ex goal b log r) : own b.next b.log = [] :=
  own_eq_nil fun e he => (hc.taken e he).ne

/-- The task goes on with its loop. -/
theorem next (hc : Carries validatorFor hs r₀ ex goal b log r) {c : Command} {x : c.Answer}
    {k : c.Answer → Work TaskResult}
    (hk : Prog.Reaches (raced validatorFor hs (ex i) (goal i)) (own i log) (.call c k))
    (hnext : Next validatorFor r₀ (.call c k)) (served : serve now r c x r') :
    ∃ b', Carries validatorFor hs r₀ ex goal b' (log ++ [⟨i, now, c, x⟩]) r' := by
  cases hnext with
  | plan c₀ k₀ =>
    obtain rfl : r' = r := served
    refine ⟨b, hc.pool, hc.taken, fun name => ?_,
      hc.left_concat hk (.idle _) fun j q _ hl => hl⟩
    rw [operationsOn_concat, hc.operations]
    exact (List.append_nil _).symm
  | @tool call c₁ p k₀ starts =>
    have hfresh := hc.next_fresh
    have hpool : Overlapped validatorFor r₀ (b.begin i call now ⟨c₁, x⟩).calls b.log r := by
      refine hc.pool.congr fun e he => ?_
      simp [Calls.begin, (hc.taken e he).ne]
    have hwaiting : Prog.Pending (invoke validatorFor r₀ call) (own b.next b.log) c₁ := by
      rw [hfresh, starts]
      exact .here _ _
    refine ⟨b.begin i call now ⟨c₁, x⟩, ?_, ?_, fun name => operations_concat (hc.operations name),
      hc.left_concat hk ?_ fun j q _ hl => hl.begin_other⟩
    · exact hpool.snoc b.next now (by simpa [Calls.begin] using hwaiting) served
    · intro e he
      rcases List.mem_append.mp he with he | he
      · exact Nat.lt_succ_of_lt (hc.taken e he)
      · obtain rfl := List.mem_singleton.mp he
        exact Nat.lt_succ_self _
    · refine .calling k₀ (Nat.lt_succ_self _) (by simp [Calls.begin]) ?_
      have hown : own b.next (b.begin i call now ⟨c₁, x⟩).log = [⟨c₁, x⟩] := by
        simp [Calls.begin, own_concat_self, hfresh]
      rw [hown]
      simp only [Calls.begin, Function.update_self, starts]
      exact .step (c := c₁) (k := p) x (.refl _)

/-- Every exchange of a task is one of its loop or of its call. -/
theorem step (hc : Carries validatorFor hs r₀ ex goal b log r) {c : Command} {x : c.Answer}
    (waiting : Prog.Pending (raced validatorFor hs (ex i) (goal i)) (own i log) c)
    (served : serve now r c x r') :
    ∃ b', Carries validatorFor hs r₀ ex goal b' (log ++ [⟨i, now, c, x⟩]) r' := by
  obtain ⟨q, hq, hleft⟩ := hc.left i
  obtain ⟨k, hk⟩ := waiting
  have hqk := hq.functional hk
  cases hleft with
  | idle p => exact hc.next hk (next_of_inline hqk) served
  | @calling id q k₀ taken mine running =>
    cases q with
    | ret a => exact hc.next hk (next_of_inline hqk) served
    | err e => exact hc.next hk (next_of_inline hqk) served
    | panic m => cases hqk
    | call c₁ p =>
      cases hqk
      refine ⟨b.continue id now ⟨c₁, x⟩, ?_, ?_, fun name => operations_concat (hc.operations name),
        hc.left_concat hk ?_ fun j q hj hl => hl.continue_other mine hj⟩
      · exact hc.pool.snoc id now ⟨_, running⟩ served
      · intro e he
        rcases List.mem_append.mp he with he | he
        · exact hc.taken e he
        · obtain rfl := List.mem_singleton.mp he
          exact taken
      · refine .calling k₀ taken mine ?_
        simp only [Calls.continue, own_concat_self]
        exact running.snoc x

end Carries

theorem exists_carries {log : TaskLog ι} {r : ToolRegistry} (shares : ∀ i, (ex i).registry = r₀)
    (h : Tasks validatorFor hs r₀ ex goal log r) :
    ∃ b, Carries validatorFor hs r₀ ex goal b log r := by
  induction h with
  | nil =>
    refine ⟨⟨fun _ => ⟨"", .null, 0⟩, fun _ => none, 0, []⟩, .nil, nofun, fun _ => rfl,
      fun i => ⟨_, .refl _, ?_⟩⟩
    rw [raced, shares]
    exact .idle _
  | snoc i now _ waiting served ih =>
    obtain ⟨b, hc⟩ := ih
    exact hc.step waiting served

/-! ## Runs of the tasks -/

/-- The exchanges of a task are a run of its executor, every command of which has been carried out;
of the one that it waits for, a part may be done. -/
inductive Executing (validatorFor : ValidatorFor) (hs : Hashing) (ex : PlanExecutor)
    (goal : String) : History Command.Answer → Prop
  | between {h : PlanExecutor.Trace} {g : History Command.Answer}
      {p : PlanExecutor.Plan TaskResult} (run : Prog.Reaches (ex.raced hs goal) h p)
      (done : Prog.Expands (carryOut validatorFor ex.registry) h g) :
    Executing validatorFor hs ex goal g
  | within {h : PlanExecutor.Trace} {g t : History Command.Answer} {c : PlanExecutor.Command}
      {q : Work c.Answer} (run : Prog.Pending (ex.raced hs goal) h c)
      (done : Prog.Expands (carryOut validatorFor ex.registry) h g)
      (part : Prog.Reaches (carryOut validatorFor ex.registry c) t q) :
    Executing validatorFor hs ex goal (g ++ t)

/-- Executing is all that a task does. -/
theorem executing_iff {ex : PlanExecutor} {goal : String} {g : History Command.Answer} :
    Executing validatorFor hs ex goal g ↔
      ∃ q, Prog.Reaches (raced validatorFor hs ex goal) g q := by
  constructor
  · rintro (⟨run, done⟩ | ⟨⟨k, run⟩, done, part⟩)
    · exact ⟨_, done.reaches run⟩
    · exact ⟨_, (done.reaches run).trans (part.bind _)⟩
  · rintro ⟨q, hr⟩
    obtain ⟨h, done, t, rfl, hdone, hunder⟩ := Prog.reaches_inline hr
    cases hunder with
    | between run =>
      rw [List.append_nil]
      exact .between run hdone
    | within run part => exact .within ⟨_, run⟩ hdone part

/-- **The runtime refines its parts.** On a registry that any number of tasks share, each task makes a
run of its executor, whose tool calls return what `execute_with_timeout` on that registry returns, and
the operations of all tasks on the breaker of each tool are a run of the shared breaker, which leaves
it as the registry has it. -/
theorem tasks_refine {config : CircuitBreakerConfig} {tools : List Tool} {log : TaskLog ι}
    {r : ToolRegistry} (hr : ofTools config tools = .ok r₀) (shares : ∀ i, (ex i).registry = r₀)
    (h : Tasks validatorFor hs r₀ ex goal log r) :
    (∀ i, Executing validatorFor hs (ex i) (goal i) (own i log)) ∧
    ∀ name, ∃ acts s, Run config acts s ∧ acts.map Action.operation = operationsOn name log ∧
      s.breaker = r.breaker name := by
  constructor
  · exact fun i => executing_iff.mpr (h.reaches i)
  · intro name
    obtain ⟨b, hc⟩ := exists_carries shares h
    obtain ⟨-, s, hrun, hs⟩ := followed hr hc.pool name
    exact ⟨_, s, hrun, hc.operations name, hs.breaker_eq⟩

end Tasks

/-! Two tasks call the same tool, which does not answer in time; its breaker opens on the first
failure. -/

def clocked : PlanExecutor := .new clockRegistry .default .default

/-- A model that only ever asks for the tool, at the time `5`. -/
def insistent (r : ToolRegistry) : (c : Command) → ToolRegistry × c.Answer
  | .plan (.iteration _) | .plan (.pushed _ _) => (r, ())
  | .plan (.reason _) => (r, .ok ⟨"", some "clock", .null, false, none⟩)
  | .plan (.summarize _) => (r, .error (.transport "connection refused"))
  | .plan (.executeWithTimeout action _ _) => (r, .error (.notFound action))
  | .plan .elapsed => (r, 0)
  | .plan (.insert _) => (r, .ok ())
  | .tool (.canExecute name) =>
    (r.updateBreaker name fun b => (b.canExecute 5).1, ((r.breaker name).canExecute 5).2)
  | .tool (.execute _ _ _) => (r, none)
  | .tool (.recordSuccess name) => (r.updateBreaker name .recordSuccess, ())
  | .tool (.recordFailure name) => (r.updateBreaker name (.recordFailure · 5), ())

theorem serve_insistent (r : ToolRegistry) (c : Command) :
    serve 5 r c (insistent r c).2 (insistent r c).1 := by
  cases c with
  | plan c => cases c <;> rfl
  | tool c =>
    cases c with
    | canExecute name => exact ⟨rfl, rfl⟩
    | execute _ _ _ | recordSuccess name | recordFailure name => rfl

section Example

attribute [local instance] SerdeJson.plain

/-- A whole task on the registry `r`. -/
def turn (r : ToolRegistry) : History Command.Answer :=
  ((raced lenient PlanExecutor.sameHash clocked "the time").exec
    (fun h c => (insistent (Prog.replay insistent r h) c).2) []).1

/-- One task after the other. -/
def turns : TaskLog Nat :=
  (turn clockRegistry).map (⟨0, 5, ·⟩) ++
    (turn (Prog.replay insistent clockRegistry (turn clockRegistry))).map (⟨1, 5, ·⟩)

theorem tasks_turn {log : TaskLog Nat} {r : ToolRegistry} {i : Nat}
    (h : Tasks lenient PlanExecutor.sameHash clockRegistry (fun _ => clocked) (fun _ => "the time")
      log r) (hi : own i log = []) :
    Tasks lenient PlanExecutor.sameHash clockRegistry (fun _ => clocked) (fun _ => "the time")
      (log ++ (turn r).map (⟨i, 5, ·⟩)) (Prog.replay insistent r (turn r)) := by
  obtain ⟨t, hexec, ⟨m, hends⟩, hhandled⟩ := Prog.exec_replay insistent
    (raced lenient PlanExecutor.sameHash clocked "the time") r []
  rw [List.nil_append] at hexec hhandled
  have hturn : turn r = t := hexec
  rw [hturn]
  obtain ⟨q, hq⟩ : ∃ q, Prog.Reaches (raced lenient PlanExecutor.sameHash clocked "the time") t q :=
    ⟨_, hends⟩
  have hrun : Prog.Reaches (raced lenient PlanExecutor.sameHash clocked "the time")
      (own i log ++ t) q := by
    rwa [hi, List.nil_append]
  exact h.undisturbed (i := i) serve_insistent hrun hhandled

theorem tasks_turns : ∃ r, Tasks lenient PlanExecutor.sameHash clockRegistry (fun _ => clocked)
    (fun _ => "the time") turns r := by
  have hfirst := tasks_turn (i := 0) .nil rfl
  refine ⟨_, tasks_turn (i := 1) hfirst ?_⟩
  refine own_eq_nil fun e he => ?_
  obtain ⟨x, -, rfl⟩ := List.mem_map.mp he
  exact Nat.zero_ne_one

theorem tasks_refine_turns : ∃ acts s, Run ⟨1, 30000⟩ acts s ∧ acts.map Action.operation =
    .canExecute 5 :: .recordFailure 5 :: List.replicate 5 (.canExecute 5) := by
  obtain ⟨r, hr⟩ := tasks_turns
  obtain ⟨acts, s, hrun, hacts, -⟩ :=
    (tasks_refine ofTools_clockRegistry (fun _ => rfl) hr).2 "clock"
  refine ⟨acts, s, hrun, ?_⟩
  rw [hacts]
  decide +kernel

end Example

/-- **Why a task is turned away.** When the registry turns a call of some task away, the tasks between
them have recorded a streak of failures of that tool as long as the threshold, and the latest of its
failures is younger than the recovery timeout. -/
theorem turned_away [SerdeJson] {ι : Type} [DecidableEq ι] {validatorFor : ValidatorFor}
    {hs : Hashing} {r₀ r : ToolRegistry} {ex : ι → PlanExecutor} {goal : ι → String}
    {config : CircuitBreakerConfig} {tools : List Tool} {log rest : TaskLog ι} {i : ι} {now : Nat}
    {name : String} (hr : ofTools config tools = .ok r₀)
    (shares : ∀ i, (ex i).registry = r₀)
    (h : Tasks validatorFor hs r₀ ex goal
      (log ++ ⟨i, now, .tool (.canExecute name), false⟩ :: rest) r) :
    Rejected config (operationsOn name log) now := by
  obtain ⟨r₁, r₂, hbefore, hrejects, -⟩ := h.before
  obtain ⟨b, hc⟩ := exists_carries shares hbefore
  obtain ⟨-, s, hrun, hs⟩ := followed hr hc.pool name
  refine rejected_of_canExecute ?_
  rw [← hc.operations name, ← hrun.breaker_eq, hs.breaker_eq]
  exact hrejects.symm

/-- The second task asks, and may not. -/
def secondRejected : Entry Nat Nat Command.Answer → Bool
  | ⟨1, 5, .tool (.canExecute "clock"), false⟩ => true
  | _ => false

section Example

attribute [local instance] SerdeJson.plain

theorem turned_away_turns : ∃ log rest,
    turns = log ++ ⟨1, 5, .tool (.canExecute "clock"), false⟩ :: rest ∧
      Rejected ⟨1, 30000⟩ (operationsOn "clock" log) 5 := by
  obtain ⟨r, hr⟩ := tasks_turns
  have hany : turns.any secondRejected = true := by decide +kernel
  obtain ⟨e, hmem, he⟩ := List.any_eq_true.mp hany
  unfold secondRejected at he
  split at he
  · obtain ⟨log, rest, hturns⟩ := List.append_of_mem hmem
    rw [hturns] at hr
    exact ⟨log, rest, hturns, turned_away ofTools_clockRegistry (fun _ => rfl) hr⟩
  · cases he

end Example

end Xola.Runtime
