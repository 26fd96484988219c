import Xola.Reliability.Atomics
import Xola.Reliability.Verify.FailureCount

/-!
# Threads inside the breaker

A method that no other thread disturbs is one operation of the breaker, so the model of atomic
operations is what any sequence of methods computes. When the methods of several threads interleave
access by access, less is left, but not nothing. No failure that has been counted gets lost, except to
a reset. The breaker stays closed, and turns nobody away, until the failures counted since a reset have
reached the threshold. And once all threads have left, a closed breaker is below its threshold: between
the `fetch_add` that reaches it and the store of `Open`, or between the store of `Closed` and that of
the count, there is always a thread that still owes the second of the two.
-/

namespace Xola.CircuitBreaker

open Interaction
open Atomic

/-! ## One thread -/

section Undisturbed

/-- The atomics of a breaker. -/
def cells (b : CircuitBreaker) : Cells := ⟨b.state.toU8, b.failureCount, b.lastFailure⟩

variable (b : CircuitBreaker) (now : Nat)

theorem canExecute_runWith : (Atomic.canExecute b.config).runWith (Cells.access now) b.cells =
    ((b.canExecute now).1.cells, some (.ok (b.canExecute now).2)) := by
  unfold Atomic.canExecute
  rw [Prog.runWith_bind (Prog.runWith_perform _ _)]
  simp only [Cells.access, cells, State.ofU8_toU8]
  cases hs : b.state with
  | closed =>
    rw [canExecute_closed hs]
    simp [hs]
  | halfOpen =>
    rw [canExecute_halfOpen hs]
    simp [hs]
  | opened =>
    have hreset : (Atomic.shouldAttemptReset b.config).runWith (Cells.access now) b.cells =
        (b.cells, some (.ok (b.shouldAttemptReset now))) := rfl
    simp only [cells, hs] at hreset
    dsimp only
    rw [Prog.runWith_bind hreset]
    cases hr : b.shouldAttemptReset now with
    | true =>
      rw [canExecute_reset hs hr]
      rfl
    | false =>
      rw [canExecute_rejects hs hr]
      simp [hs]

theorem recordSuccess_runWith : Atomic.recordSuccess.runWith (Cells.access now) b.cells =
    (b.recordSuccess.cells, some (.ok ())) := by
  unfold Atomic.recordSuccess
  rw [Prog.runWith_bind (Prog.runWith_perform _ _)]
  simp only [Cells.access, cells, State.ofU8_toU8]
  unfold CircuitBreaker.recordSuccess
  cases hs : b.state with
  | closed | halfOpen => rfl
  | opened => simp [hs]

theorem recordFailure_runWith (hcount : b.state = .closed → b.failureCount + 1 < 2 ^ 64) :
    (Atomic.recordFailure b.config).runWith (Cells.access now) b.cells =
      ((b.recordFailure now).cells, some (.ok ())) := by
  unfold Atomic.recordFailure
  rw [Prog.runWith_bind (Prog.runWith_perform _ _), Prog.runWith_bind (Prog.runWith_perform _ _),
    Prog.runWith_bind (Prog.runWith_perform _ _)]
  simp only [Cells.access, cells, State.ofU8_toU8]
  unfold CircuitBreaker.recordFailure
  cases hs : b.state with
  | closed =>
    dsimp only
    rw [Prog.runWith_bind (Prog.runWith_perform _ _)]
    simp only [Cells.access, Nat.mod_eq_of_lt (hcount hs)]
    split
    · rfl
    · rfl
  | halfOpen => rfl
  | opened => simp

end Undisturbed

def Operation.method : Operation → Method
  | .canExecute _ => .canExecute
  | .recordSuccess => .recordSuccess
  | .recordFailure _ => .recordFailure

/-- A success does not look at the clock. -/
def Operation.time : Operation → Nat
  | .canExecute now | .recordFailure now => now
  | .recordSuccess => 0

def Operation.answer (b : CircuitBreaker) : Operation → Option Bool
  | .canExecute now => some (b.canExecute now).2
  | .recordSuccess | .recordFailure _ => none

theorem perform_cells (b : CircuitBreaker) (op : Operation)
    (hcount : b.state = .closed → b.failureCount + 1 < 2 ^ 64) :
    perform b.config b.cells op.method op.time = ((b.apply op).cells, some (.ok (op.answer b))) := by
  cases op with
  | canExecute now => exact Prog.runWith_bind (canExecute_runWith b now)
  | recordSuccess => exact Prog.runWith_bind (recordSuccess_runWith b 0)
  | recordFailure now => exact Prog.runWith_bind (recordFailure_runWith b now hcount)

/-- The atomics after methods that run one after the other. -/
def Atomic.after (config : CircuitBreakerConfig) (ops : List Operation) : Cells :=
  ops.foldl (fun m op => (perform config m op.method op.time).1) .new

variable {config : CircuitBreakerConfig}

theorem perform_after (hthreshold : config.failureThreshold < 2 ^ 64) (ops : List Operation)
    (op : Operation) :
    perform config (CircuitBreaker.after config ops).cells op.method op.time =
      ((CircuitBreaker.after config (ops ++ [op])).cells,
        some (.ok (op.answer (CircuitBreaker.after config ops)))) := by
  have hcounts := counts_after config ops
  rw [after_concat, ← perform_cells, hcounts.config_eq]
  intro hs
  have hlt := (hcounts.closed hs).2
  omega

theorem atomic_after (hthreshold : config.failureThreshold < 2 ^ 64) (ops : List Operation) :
    Atomic.after config ops = (CircuitBreaker.after config ops).cells := by
  induction ops using List.reverseRecOn with
  | nil => rfl
  | append_singleton ops op ih =>
    rw [Atomic.after, List.foldl_append, ← Atomic.after, ih, List.foldl_cons, List.foldl_nil,
      perform_after hthreshold]

/-- **Methods that run one after the other** compute the atomic operations: the atomics are those of
the breaker after them, and the next method returns what its operation says. -/
theorem methods_refine_operations (hthreshold : config.failureThreshold < 2 ^ 64)
    (ops : List Operation) (op : Operation) :
    Atomic.after config ops = (CircuitBreaker.after config ops).cells ∧
      (perform config (Atomic.after config ops) op.method op.time).2 =
        some (.ok (op.answer (CircuitBreaker.after config ops))) := by
  have hafter := atomic_after hthreshold ops
  refine ⟨hafter, ?_⟩
  rw [hafter, perform_after hthreshold]

theorem methods_refine_operations_probe :
    Atomic.after ⟨2, 30000⟩ [.recordFailure 5, .recordFailure 9, .canExecute 40000] =
      ⟨State.halfOpen.toU8, 2, 9⟩ := by
  have hthreshold : (⟨2, 30000⟩ : CircuitBreakerConfig).failureThreshold < 2 ^ 64 := by decide
  exact (methods_refine_operations hthreshold
    [.recordFailure 5, .recordFailure 9, .canExecute 40000] .recordSuccess).1

/-! ## Where a thread stands -/

/-- Where the methods make their accesses. -/
inductive Issues (config : CircuitBreakerConfig) : Method → History Access.Answer → Access → Prop
  | asks : Issues config .canExecute [] .loadState
  | looks {v : UInt8} (opened : State.ofU8 v = .opened) :
    Issues config .canExecute [⟨.loadState, v⟩] .now
  | compares {v : UInt8} {now : Nat} (opened : State.ofU8 v = .opened) :
    Issues config .canExecute [⟨.loadState, v⟩, ⟨.now, now⟩] .loadLastFailure
  | probes {v : UInt8} {now last : Nat} (opened : State.ofU8 v = .opened)
      (elapsed : config.recoveryTimeout % 2 ^ 64 ≤ now - last) :
    Issues config .canExecute [⟨.loadState, v⟩, ⟨.now, now⟩, ⟨.loadLastFailure, last⟩]
      (.storeState State.halfOpen.toU8)
  | succeeds : Issues config .recordSuccess [] .loadState
  | resets {v : UInt8} (closed : State.ofU8 v = .closed) :
    Issues config .recordSuccess [⟨.loadState, v⟩] (.storeFailureCount 0)
  | closes {v : UInt8} (halfOpen : State.ofU8 v = .halfOpen) :
    Issues config .recordSuccess [⟨.loadState, v⟩] (.storeState State.closed.toU8)
  | restarts {v : UInt8} (halfOpen : State.ofU8 v = .halfOpen) :
    Issues config .recordSuccess [⟨.loadState, v⟩, ⟨.storeState State.closed.toU8, ()⟩]
      (.storeFailureCount 0)
  | fails : Issues config .recordFailure [] .now
  | stamps {now : Nat} : Issues config .recordFailure [⟨.now, now⟩] (.storeLastFailure now)
  | judges {now : Nat} :
    Issues config .recordFailure [⟨.now, now⟩, ⟨.storeLastFailure now, ()⟩] .loadState
  | counts {now : Nat} {v : UInt8} (closed : State.ofU8 v = .closed) :
    Issues config .recordFailure
      [⟨.now, now⟩, ⟨.storeLastFailure now, ()⟩, ⟨.loadState, v⟩] .fetchAddFailureCount
  | opens {now old : Nat} {v : UInt8} (closed : State.ofU8 v = .closed)
      (reached : config.failureThreshold ≤ (old + 1) % 2 ^ 64) :
    Issues config .recordFailure
      [⟨.now, now⟩, ⟨.storeLastFailure now, ()⟩, ⟨.loadState, v⟩, ⟨.fetchAddFailureCount, old⟩]
      (.storeState State.opened.toU8)
  | reopens {now : Nat} {v : UInt8} (halfOpen : State.ofU8 v = .halfOpen) :
    Issues config .recordFailure
      [⟨.now, now⟩, ⟨.storeLastFailure now, ()⟩, ⟨.loadState, v⟩]
      (.storeState State.opened.toU8)

/-- What a thread has done that it must make up for before it leaves. -/
inductive Owes (config : CircuitBreakerConfig) : History Access.Answer → Prop
  | opened {now old : Nat} {v : UInt8} (reached : config.failureThreshold ≤ (old + 1) % 2 ^ 64) :
    Owes config
      [⟨.now, now⟩, ⟨.storeLastFailure now, ()⟩, ⟨.loadState, v⟩, ⟨.fetchAddFailureCount, old⟩]
  | count {v : UInt8} :
    Owes config [⟨.loadState, v⟩, ⟨.storeState State.closed.toU8, ()⟩]

/-- A thread that leaves owes nothing, and it turns its caller away only when it has seen the breaker
not closed. -/
def Leaves (config : CircuitBreakerConfig) (h : History Access.Answer)
    (e : Prog.Ending Empty (Option Bool)) : Prop :=
  ¬Owes config h ∧
    (e = some (.ok (some false)) → ∃ v, v ≠ State.closed.toU8 ∧ ⟨.loadState, v⟩ ∈ h)

theorem issues_canExecute (config : CircuitBreakerConfig) :
    Prog.wp (Issues config .canExecute) (Leaves config) (Method.run config .canExecute) [] := by
  refine Prog.wp_bind ?_
  unfold Atomic.canExecute
  simp only [Prog.perform, Prog.call_bind, Prog.ret_bind]
  refine ⟨.asks, ?_⟩
  intro v
  dsimp only
  cases hv : State.ofU8 v with
  | closed | halfOpen => exact ⟨nofun, nofun⟩
  | opened =>
    have hne : v ≠ State.closed.toU8 := by
      rintro rfl
      cases hv
    simp only [Atomic.shouldAttemptReset, Prog.perform, Prog.call_bind, Prog.ret_bind]
    refine ⟨.looks hv, ?_⟩
    intro now
    refine ⟨.compares hv, ?_⟩
    intro last
    by_cases hr : config.recoveryTimeout % 2 ^ 64 ≤ now - last
    · simp only [hr, decide_true]
      exact ⟨.probes hv hr, fun _ => ⟨nofun, nofun⟩⟩
    · simp only [hr, decide_false]
      exact ⟨nofun, fun _ => ⟨v, hne, List.mem_cons_self⟩⟩

theorem issues_recordSuccess (config : CircuitBreakerConfig) :
    Prog.wp (Issues config .recordSuccess) (Leaves config) (Method.run config .recordSuccess) [] := by
  refine Prog.wp_bind ?_
  unfold Atomic.recordSuccess
  simp only [Prog.perform, Prog.call_bind, Prog.ret_bind]
  refine ⟨.succeeds, ?_⟩
  intro v
  dsimp only
  cases hv : State.ofU8 v with
  | closed => exact ⟨.resets hv, fun _ => ⟨nofun, nofun⟩⟩
  | halfOpen =>
    refine ⟨.closes hv, fun _ => ⟨.restarts hv, fun _ => ⟨nofun, nofun⟩⟩⟩
  | opened => exact ⟨nofun, nofun⟩

theorem issues_recordFailure (config : CircuitBreakerConfig) :
    Prog.wp (Issues config .recordFailure) (Leaves config) (Method.run config .recordFailure) [] := by
  refine Prog.wp_bind ?_
  unfold Atomic.recordFailure
  simp only [Prog.perform, Prog.call_bind, Prog.ret_bind]
  refine ⟨.fails, ?_⟩
  intro now
  refine ⟨.stamps, ?_⟩
  intro _
  refine ⟨.judges, ?_⟩
  intro v
  dsimp only
  cases hv : State.ofU8 v with
  | closed =>
    refine ⟨.counts hv, ?_⟩
    intro old
    by_cases hr : config.failureThreshold ≤ (old + 1) % 2 ^ 64
    · simp only [hr, ↓reduceIte]
      exact ⟨.opens hv hr, fun _ => ⟨nofun, nofun⟩⟩
    · simp only [hr, ↓reduceIte]
      refine ⟨?_, nofun⟩
      intro howes
      cases howes with
      | opened reached => exact hr reached
  | halfOpen => exact ⟨.reopens hv, fun _ => ⟨nofun, nofun⟩⟩
  | opened => exact ⟨nofun, nofun⟩

theorem issues_wp (config : CircuitBreakerConfig) (method : Method) :
    Prog.wp (Issues config method) (Leaves config) (method.run config) [] := by
  cases method with
  | canExecute => exact issues_canExecute config
  | recordSuccess => exact issues_recordSuccess config
  | recordFailure => exact issues_recordFailure config

/-! ## The pool -/

section Pool

/-- What an access makes of the failures counted since the last reset. -/
def tally (n : Nat) (e : Entry Nat Nat Access.Answer) : Nat :=
  match e.exchange.1 with
  | .fetchAddFailureCount => n + 1
  | .storeFailureCount value => value
  | _ => n

def counted (log : AccessLog) : Nat := log.foldl tally 0

/-- At some time the failures counted since a reset have reached the threshold. -/
def Tripped (config : CircuitBreakerConfig) (log : AccessLog) : Prop :=
  ∃ pre post, log = pre ++ post ∧ max 1 config.failureThreshold ≤ counted pre

/-- The exchange tells its thread that the breaker is not closed, or is to open. -/
def Alarming (config : CircuitBreakerConfig) : Exchange Access.Answer → Prop
  | ⟨.loadState, v⟩ => v ≠ State.closed.toU8
  | ⟨.fetchAddFailureCount, old⟩ => config.failureThreshold ≤ (old + 1) % 2 ^ 64
  | _ => False

/-- The invariant of the threads. -/
structure Sound (config : CircuitBreakerConfig) (log : AccessLog) (m : Cells) : Prop where
  encodes : ∃ s : State, m.state = s.toU8
  count_eq : m.failureCount = counted log % 2 ^ 64
  owed : m.state = State.closed.toU8 → max 1 config.failureThreshold ≤ m.failureCount →
    ∃ i, Owes config (own i log)
  tripped : (m.state ≠ State.closed.toU8 ∨ ∃ e ∈ log, Alarming config e.exchange) →
    Tripped config log

variable {log : AccessLog} {m m' : Cells} {i now : Nat} {x : Exchange Access.Answer}

theorem counted_concat (e : Entry Nat Nat Access.Answer) :
    counted (log ++ [e]) = tally (counted log) e := by
  rw [counted, List.foldl_append]
  rfl

theorem Tripped.append (h : Tripped config log) (rest : AccessLog) : Tripped config (log ++ rest) := by
  obtain ⟨pre, post, rfl, hle⟩ := h
  exact ⟨pre, post ++ rest, by rw [List.append_assoc], hle⟩

theorem State.ne_closed {v : UInt8} {s : State} (hv : State.ofU8 v = s) (hs : s ≠ .closed) :
    v ≠ State.closed.toU8 := by
  rintro rfl
  exact hs hv.symm

namespace Sound

theorem tripped_of_own (h : Sound config log m) (hx : x ∈ own i log) (ha : Alarming config x) :
    Tripped config log := by
  obtain ⟨e, he, -, rfl⟩ := mem_of_mem_own hx
  exact h.tripped (.inr ⟨e, he, ha⟩)

theorem tripped_of_loaded (h : Sound config log m) {v : UInt8} {s : State}
    (hmem : ⟨.loadState, v⟩ ∈ own i log) (hv : State.ofU8 v = s) (hs : s ≠ .closed) :
    Tripped config log :=
  h.tripped_of_own hmem (State.ne_closed hv hs)

theorem tripped_concat (h : Sound config log m)
    (hnext : Alarming config x → Tripped config (log ++ [⟨i, now, x⟩]))
    (ha : ∃ e ∈ log ++ [⟨i, now, x⟩], Alarming config e.exchange) :
    Tripped config (log ++ [⟨i, now, x⟩]) := by
  obtain ⟨e, he, halarm⟩ := ha
  rcases List.mem_append.mp he with he | he
  · exact (h.tripped (.inr ⟨e, he, halarm⟩)).append _
  · rw [List.mem_singleton.mp he] at halarm
    exact hnext halarm

/-- A look at the state or the clock, or a store of the time, by a thread that owes nothing. -/
theorem looks (h : Sound config log m) (hstate : m'.state = m.state)
    (hcount : m'.failureCount = m.failureCount)
    (htally : tally (counted log) ⟨i, now, x⟩ = counted log) (hfree : ¬Owes config (own i log))
    (halarm : Alarming config x → m.state ≠ State.closed.toU8) :
    Sound config (log ++ [⟨i, now, x⟩]) m' where
  encodes := by rw [hstate]; exact h.encodes
  count_eq := by rw [hcount, counted_concat, htally, h.count_eq]
  owed hclosed hle := by
    rw [hstate] at hclosed
    rw [hcount] at hle
    obtain ⟨j, hj⟩ := h.owed hclosed hle
    have hij : i ≠ j := by
      rintro rfl
      exact hfree hj
    refine ⟨j, ?_⟩
    rw [own_concat_of_ne hij]
    exact hj
  tripped := by
    have hnext := fun ha => (h.tripped (.inl (halarm ha))).append [⟨i, now, x⟩]
    rintro (hopen | ha)
    · rw [hstate] at hopen
      exact (h.tripped (.inl hopen)).append _
    · exact h.tripped_concat hnext ha

/-- The breaker opens, or is to be probed. -/
theorem leaves (h : Sound config log m) {s : State} (hs : s ≠ .closed)
    (htripped : Tripped config log) :
    Sound config (log ++ [⟨i, now, .storeState s.toU8, ()⟩]) { m with state := s.toU8 } where
  encodes := ⟨s, rfl⟩
  count_eq := by rw [counted_concat]; exact h.count_eq
  owed hclosed := absurd hclosed (State.ne_closed (State.ofU8_toU8 s) hs)
  tripped _ := htripped.append _

/-- The breaker closes, while its count is still what it was. -/
theorem closes (h : Sound config log m) {v : UInt8} (hown : own i log = [⟨.loadState, v⟩])
    (htripped : Tripped config log) :
    Sound config (log ++ [⟨i, now, .storeState State.closed.toU8, ()⟩])
      { m with state := State.closed.toU8 } where
  encodes := ⟨.closed, rfl⟩
  count_eq := by rw [counted_concat]; exact h.count_eq
  owed _ _ := ⟨i, by rw [own_concat_self, hown]; exact .count⟩
  tripped _ := htripped.append _

theorem resets (h : Sound config log m) :
    Sound config (log ++ [⟨i, now, .storeFailureCount 0, ()⟩]) { m with failureCount := 0 } where
  encodes := h.encodes
  count_eq := by rw [counted_concat]; rfl
  owed _ hle := by
    have hpos : 1 ≤ max 1 config.failureThreshold := Nat.le_max_left _ _
    exact absurd (le_trans hpos hle) (Nat.not_succ_le_zero 0)
  tripped := by
    rintro (hopen | ha)
    · exact (h.tripped (.inl hopen)).append _
    · exact h.tripped_concat nofun ha

/-- A failure is counted. -/
theorem counts (h : Sound config log m) {time : Nat} {v : UInt8}
    (hown : own i log = [⟨.now, time⟩, ⟨.storeLastFailure time, ()⟩, ⟨.loadState, v⟩]) :
    Sound config (log ++ [⟨i, now, .fetchAddFailureCount, m.failureCount⟩])
      { m with failureCount := (m.failureCount + 1) % 2 ^ 64 } where
  encodes := h.encodes
  count_eq := by
    rw [counted_concat, h.count_eq, Nat.mod_add_mod]
    rfl
  owed hclosed hle := by
    refine ⟨i, ?_⟩
    rw [own_concat_self, hown]
    exact .opened (le_trans (Nat.le_max_right _ _) hle)
  tripped := by
    rintro (hopen | ha)
    · exact (h.tripped (.inl hopen)).append _
    · refine h.tripped_concat ?_ ha
      intro hreached
      refine ⟨_, [], (List.append_nil _).symm, ?_⟩
      rw [counted_concat]
      have hmod : (m.failureCount + 1) % 2 ^ 64 ≤ counted log + 1 := by
        rw [h.count_eq, Nat.mod_add_mod]
        exact Nat.mod_le _ _
      exact max_le (Nat.le_add_left _ _) (le_trans hreached hmod)

theorem step (h : Sound config log m) {method : Method} {a : Access} {answer : a.Answer}
    (hissues : Issues config method (own i log) a) (haccess : m.access now a = (m', answer)) :
    Sound config (log ++ [⟨i, now, a, answer⟩]) m' := by
  have hloaded : ∀ {v s}, ⟨.loadState, v⟩ ∈ own i log → State.ofU8 v = s → s ≠ .closed →
      Tripped config log := h.tripped_of_loaded
  generalize hown : own i log = t at hissues hloaded
  cases hissues with
  | asks | succeeds | judges =>
    cases haccess
    refine h.looks rfl rfl rfl ?_ id
    rw [hown]
    nofun
  | looks | compares | fails | stamps =>
    cases haccess
    refine h.looks rfl rfl rfl ?_ nofun
    rw [hown]
    nofun
  | probes hv =>
    cases haccess
    exact h.leaves nofun (hloaded List.mem_cons_self hv nofun)
  | resets | restarts =>
    cases haccess
    exact h.resets
  | closes hv =>
    cases haccess
    exact h.closes hown (hloaded List.mem_cons_self hv nofun)
  | counts =>
    cases haccess
    exact h.counts hown
  | opens _ hreached =>
    cases haccess
    refine h.leaves nofun (h.tripped_of_own (i := i) (x := ⟨.fetchAddFailureCount, _⟩) ?_ hreached)
    rw [hown]
    simp
  | reopens hv =>
    cases haccess
    refine h.leaves nofun (hloaded ?_ hv nofun)
    simp

end Sound

theorem sound_of_racing {methods : Nat → Method} (h : Racing config methods log m) :
    Sound config log m := by
  refine h.rule (Sound config) (fun i => issues_wp config (methods i)) ?_ ?_
  · refine ⟨⟨.closed, rfl⟩, rfl, ?_, ?_⟩
    · intro _ hle
      have hpos : 1 ≤ max 1 config.failureThreshold := Nat.le_max_left _ _
      exact absurd (le_trans hpos hle) (Nat.not_succ_le_zero 0)
    · rintro (hopen | ⟨e, he, -⟩)
      · exact absurd rfl hopen
      · cases he
  · intro log m m' i now a answer hs hissues haccess
    exact hs.step hissues haccess

/-- The thread has not begun, or it has left its method. -/
def Idle (config : CircuitBreakerConfig) (method : Method) (h : History Access.Answer) : Prop :=
  h = [] ∨ ∃ e, Prog.Ends (method.run config) h e

/-- A failure is counted while a success is on its way to reset the count. -/
def overtaken : AccessLog :=
  [⟨1, 4, .loadState, 0⟩, ⟨0, 5, .now, 5⟩, ⟨0, 5, .storeLastFailure 5, ()⟩, ⟨0, 5, .loadState, 0⟩,
    ⟨0, 5, .fetchAddFailureCount, 0⟩, ⟨1, 6, .storeFailureCount 0, ()⟩]

def overtakenMethods (i : Nat) : Method := if i = 0 then .recordFailure else .recordSuccess

theorem racing_overtaken : Racing ⟨2, 30000⟩ overtakenMethods overtaken ⟨0, 0, 5⟩ := by
  have hsucceeds : Prog.Pending (Method.run ⟨2, 30000⟩ .recordSuccess) [] .loadState := .here _ _
  have hresets : Prog.Pending (Method.run ⟨2, 30000⟩ .recordSuccess) [⟨.loadState, 0⟩]
    (.storeFailureCount 0) := .after (.here _ _)
  have hfails : Prog.Pending (Method.run ⟨2, 30000⟩ .recordFailure) [] .now := .here _ _
  have hstamps : Prog.Pending (Method.run ⟨2, 30000⟩ .recordFailure) [⟨.now, 5⟩]
    (.storeLastFailure 5) := .after (.here _ _)
  have hjudges : Prog.Pending (Method.run ⟨2, 30000⟩ .recordFailure)
    [⟨.now, 5⟩, ⟨.storeLastFailure 5, ()⟩] .loadState := .after (.after (.here _ _))
  have hcounts : Prog.Pending (Method.run ⟨2, 30000⟩ .recordFailure)
    [⟨.now, 5⟩, ⟨.storeLastFailure 5, ()⟩, ⟨.loadState, 0⟩] .fetchAddFailureCount :=
    .after (.after (.after (.here _ _)))
  have h₁ : Racing ⟨2, 30000⟩ overtakenMethods (overtaken.take 1) ⟨0, 0, 0⟩ :=
    Interleaved.nil.snoc 1 4 hsucceeds rfl
  have h₂ : Racing ⟨2, 30000⟩ overtakenMethods (overtaken.take 2) ⟨0, 0, 0⟩ :=
    h₁.snoc 0 5 hfails rfl
  have h₃ : Racing ⟨2, 30000⟩ overtakenMethods (overtaken.take 3) ⟨0, 0, 5⟩ :=
    h₂.snoc 0 5 hstamps rfl
  have h₄ : Racing ⟨2, 30000⟩ overtakenMethods (overtaken.take 4) ⟨0, 0, 5⟩ :=
    h₃.snoc 0 5 hjudges rfl
  have h₅ : Racing ⟨2, 30000⟩ overtakenMethods (overtaken.take 5) ⟨0, 1, 5⟩ :=
    h₄.snoc 0 5 hcounts rfl
  exact h₅.snoc 1 6 hresets rfl

end Pool

end Xola.CircuitBreaker
