import Xola.Data.Window
import Xola.Planning.Trace

/-!
# The ledger of a run

The two loops of the executor share a step list, a replan counter and a loop detector. `Ledger`
relates them to the exchanges of the run, at any point of an iteration: how many iterations have
started, how many tool calls have succeeded, how often the model has been asked, and how many
failures the current step has behind it. There is one lemma for each kind of exchange.
-/

namespace Xola.PlanExecutor

open Interaction

variable [SerdeJson] {hs : Hashing} {ex : PlanExecutor}

/-! ## The loop detector -/

def hashOf (hs : Hashing) (c : String × Json) : UInt64 := LoopDetector.hashCall hs c.1 c.2

/-- The detector's window after the calls `cs`. A window of size zero works as one of size one. -/
def window (hs : Hashing) (config : LoopDetectorConfig) (cs : List (String × Json)) :
    List UInt64 :=
  (cs.map (hashOf hs)).rtake (max config.windowSize 1)

/-- The detector is the configured one after the calls `cs`. -/
structure Detects (hs : Hashing) (config : LoopDetectorConfig) (cs : List (String × Json))
    (ld : LoopDetector) : Prop where
  windowSize : ld.windowSize = config.windowSize
  repeatThreshold : ld.repeatThreshold = config.repeatThreshold
  window_eq : ld.window = window hs config cs

theorem Detects.record {config : LoopDetectorConfig} {cs : List (String × Json)}
    {ld : LoopDetector} (h : Detects hs config cs ld) (action : String) (input : Json) :
    Detects hs config (cs ++ [(action, input)]) (ld.record hs action input) := by
  refine ⟨h.windowSize, h.repeatThreshold, ?_⟩
  have hwindow : ld.window = (cs.map (hashOf hs)).rtake (max ld.windowSize 1) := by
    rw [h.windowSize, h.window_eq, window]
  rw [LoopDetector.record_window hwindow, h.windowSize, window, List.map_append]
  rfl

/-- Some hash of the window has reached the threshold. -/
def Looping (hs : Hashing) (config : LoopDetectorConfig) (cs : List (String × Json)) : Prop :=
  ∃ hash ∈ window hs config cs, config.repeatThreshold ≤ (window hs config cs).count hash

theorem Detects.isLooping_isSome_iff {config : LoopDetectorConfig} {cs : List (String × Json)}
    {ld : LoopDetector} (h : Detects hs config cs ld) :
    (ld.isLooping hs).isSome ↔ Looping hs config cs := by
  rw [LoopDetector.isLooping_isSome_iff, h.window_eq, h.repeatThreshold]
  rfl

theorem detects_fromConfig {config : LoopDetectorConfig} {ld : LoopDetector}
    (h : LoopDetector.fromConfig config = some ld) : Detects hs config [] ld := by
  unfold LoopDetector.fromConfig LoopDetector.new at h
  split at h
  · cases h
    exact ⟨rfl, rfl, by simp [window, List.rtake]⟩
  · cases h

/-! ## The invariant -/

/-- The bookkeeping after `h`: `started` iterations have begun, `done` tool calls have succeeded,
the model has been asked `asked` times besides the replans, and the current step has failed `f`
times. -/
structure Ledger (hs : Hashing) (ex : PlanExecutor) (h : Trace) (st : RunState)
    (started done asked f : Nat) : Prop where
  blocks_length : (blocks h).length = started
  succeeded_eq : succeeded h = done
  failed_eq : failed h = st.totalReplans
  reasons_eq : reasons h = asked + st.totalReplans
  steps_eq : st.steps = dispatches h
  perTask : st.totalReplans < max ex.config.replan.maxReplansPerTask 1
  perStep : ∀ b ∈ blocks h, failed b < max ex.config.replan.maxReplansPerStep 1
  total_le : st.totalReplans ≤ done * (max ex.config.replan.maxReplansPerStep 1 - 1) + f
  summarizes_le : summarizes h ≤ started
  detects : Detects hs ex.loopDetectorConfig (calls h) st.loopDetector

/-- The latest iteration has `f` failed tool calls and `r` calls to `/reason`. -/
def Current (h : Trace) (f r : Nat) : Prop :=
  ∃ b bs, blocks h = b :: bs ∧ failed b = f ∧ reasons b = r

omit [SerdeJson] in
theorem forall_mem_modifyHead {α : Type*} {p q : α → Prop} {g : α → α} {l : List α}
    (hp : ∀ a ∈ l, p a) (hg : ∀ a, p a → q (g a)) (hpq : ∀ a, p a → q a) :
    ∀ a ∈ l.modifyHead g, q a := by
  cases l with
  | nil => simp
  | cons a l =>
    intro b hb
    rw [List.modifyHead_cons] at hb
    rcases List.mem_cons.1 hb with rfl | hb
    · exact hg a (hp a (by simp))
    · exact hpq b (hp b (by simp [hb]))

/-! ## One lemma for each kind of exchange -/

section Steps

variable {h : Trace} {st : RunState} {started done asked f r : Nat}

/-- The buffer is not part of the ledger. -/
theorem Ledger.stm (hl : Ledger hs ex h st started done asked f) (stm : ShortTermMemory) :
    Ledger hs ex h { st with stm } started done asked f :=
  ⟨hl.blocks_length, hl.succeeded_eq, hl.failed_eq, hl.reasons_eq, hl.steps_eq, hl.perTask,
    hl.perStep, hl.total_le, hl.summarizes_le, hl.detects⟩

/-- An exchange within an iteration that is no tool call: pushes, the clock, `/summarize`,
`/reason` and inserts. -/
theorem Ledger.silent (hl : Ledger hs ex h st started done asked f) {e : Event}
    (hd : dispatch? e = none) (hi : e.1.isIteration = false)
    (hsum : summarizes (h ++ [e]) ≤ started) :
    Ledger hs ex (h ++ [e]) st started done (asked + if e.1.isReason then 1 else 0) f where
  blocks_length := by
    rw [blocks_concat, hi, ← hl.blocks_length]
    exact List.length_modifyHead
  succeeded_eq := by rw [succeeded_concat, hd, ← hl.succeeded_eq]; rfl
  failed_eq := by rw [failed_concat, hd, ← hl.failed_eq]; rfl
  reasons_eq := by rw [reasons_concat, hl.reasons_eq]; omega
  steps_eq := by rw [dispatches_concat, hd, hl.steps_eq]; exact (List.append_nil _).symm
  perTask := hl.perTask
  perStep := by
    rw [blocks_concat, hi]
    exact forall_mem_modifyHead hl.perStep (fun b hb => by rwa [failed_concat, hd]) fun _ => id
  total_le := hl.total_le
  summarizes_le := hsum
  detects := by
    rw [calls_concat, hd]
    simpa using hl.detects

omit [SerdeJson] in
theorem Current.silent (hc : Current h f r) {e : Event} (hd : dispatch? e = none)
    (hi : e.1.isIteration = false) :
    Current (h ++ [e]) f (r + if e.1.isReason then 1 else 0) := by
  obtain ⟨b, bs, hb, hf, hr⟩ := hc
  refine ⟨b ++ [e], bs, ?_, ?_, by rw [reasons_concat, hr]⟩
  · rw [blocks_concat, hi, hb]
    rfl
  · rw [failed_concat, hd, hf]
    rfl

theorem Ledger.pushed (hl : Ledger hs ex h st started done asked f) (stm : ShortTermMemory)
    (msg : Message) : Ledger hs ex (h ++ [⟨.pushed stm msg, ()⟩]) st started done asked f :=
  hl.silent rfl rfl (by rw [summarizes_concat]; exact hl.summarizes_le)

theorem Ledger.elapsed (hl : Ledger hs ex h st started done asked f) (ms : Nat) :
    Ledger hs ex (h ++ [⟨.elapsed, ms⟩]) st started done asked f :=
  hl.silent rfl rfl (by rw [summarizes_concat]; exact hl.summarizes_le)

theorem Ledger.insert (hl : Ledger hs ex h st started done asked f) (ep : EpisodeInput)
    (a : Except String Unit) : Ledger hs ex (h ++ [⟨.insert ep, a⟩]) st started done asked f :=
  hl.silent rfl rfl (by rw [summarizes_concat]; exact hl.summarizes_le)

/-- The model is asked. -/
theorem Ledger.reason (hl : Ledger hs ex h st started done asked f) (req : ReasonRequest)
    (a : Except IpcError ReasonResponse) :
    Ledger hs ex (h ++ [⟨.reason req, a⟩]) st started done (asked + 1) f :=
  hl.silent rfl rfl (by rw [summarizes_concat]; exact hl.summarizes_le)

/-- The buffer is summarised. -/
theorem Ledger.summarize (hl : Ledger hs ex h st started done asked f)
    (hlt : summarizes h < started) (req : SummarizeRequest)
    (a : Except IpcError SummarizeResponse) :
    Ledger hs ex (h ++ [⟨.summarize req, a⟩]) st started done asked f :=
  hl.silent rfl rfl (by rw [summarizes_concat]; exact hlt)

/-- A new iteration begins. -/
theorem Ledger.iteration (hl : Ledger hs ex h st started done asked f) (i : Nat) :
    Ledger hs ex (h ++ [⟨.iteration i, ()⟩]) st (started + 1) done asked f where
  blocks_length := by rw [blocks_concat, ← hl.blocks_length]; rfl
  succeeded_eq := by rw [succeeded_concat, ← hl.succeeded_eq]; rfl
  failed_eq := by rw [failed_concat, ← hl.failed_eq]; rfl
  reasons_eq := by rw [reasons_concat, ← hl.reasons_eq]; rfl
  steps_eq := by rw [dispatches_concat, hl.steps_eq]; exact (List.append_nil _).symm
  perTask := hl.perTask
  perStep := by
    rw [blocks_concat]
    intro b hb
    rcases List.mem_cons.1 hb with rfl | hb
    · exact Nat.lt_of_lt_of_le Nat.one_pos (Nat.le_max_right _ _)
    · exact hl.perStep b hb
  total_le := hl.total_le
  summarizes_le := by
    rw [summarizes_concat]
    exact hl.summarizes_le.trans (Nat.le_succ _)
  detects := by
    rw [calls_concat]
    simpa [dispatch?] using hl.detects

omit [SerdeJson] in
theorem current_iteration (h : Trace) (i : Nat) : Current (h ++ [⟨.iteration i, ()⟩]) 0 0 :=
  ⟨[], blocks h, blocks_concat _ _, rfl, rfl⟩

/-- A tool call succeeds and ends its step. -/
theorem Ledger.success (hl : Ledger hs ex h st started done asked f)
    (hf : f < max ex.config.replan.maxReplansPerStep 1) (action : String) (input result : Json)
    (timeout : Nat) :
    Ledger hs ex (h ++ [⟨.executeWithTimeout action input timeout, .ok result⟩])
      { st with
        steps := st.steps ++ [.succeeded action input]
        loopDetector := st.loopDetector.record hs action input }
      started (done + 1) asked 0 where
  blocks_length := by
    rw [blocks_concat, ← hl.blocks_length]
    exact List.length_modifyHead
  succeeded_eq := by rw [succeeded_concat, hl.succeeded_eq]; rfl
  failed_eq := by rw [failed_concat, ← hl.failed_eq]; rfl
  reasons_eq := by rw [reasons_concat, ← hl.reasons_eq]; rfl
  steps_eq := by rw [dispatches_concat, hl.steps_eq]; rfl
  perTask := hl.perTask
  perStep := by
    rw [blocks_concat]
    exact forall_mem_modifyHead hl.perStep (fun b hb => by rwa [failed_concat]) fun _ => id
  total_le := by
    have ht := hl.total_le
    dsimp only
    rw [Nat.succ_mul]
    omega
  summarizes_le := by
    rw [summarizes_concat]
    exact hl.summarizes_le
  detects := by
    rw [calls_concat]
    exact hl.detects.record action input

/-- A tool call fails and the step goes on. -/
theorem Ledger.failure (hl : Ledger hs ex h st started done (asked + 1) f) (hc : Current h f r)
    (hf : f + 1 < max ex.config.replan.maxReplansPerStep 1)
    (ht : st.totalReplans + 1 < max ex.config.replan.maxReplansPerTask 1) (action : String)
    (input : Json) (e : ToolError) (timeout : Nat) :
    Ledger hs ex (h ++ [⟨.executeWithTimeout action input timeout, .error e⟩])
      ⟨st.stm, st.steps ++ [.failure action input e.toString], st.totalReplans + 1,
        st.loopDetector.record hs action input⟩
      started done asked (f + 1) where
  blocks_length := by
    rw [blocks_concat, ← hl.blocks_length]
    exact List.length_modifyHead
  succeeded_eq := by rw [succeeded_concat, ← hl.succeeded_eq]; rfl
  failed_eq := by rw [failed_concat, hl.failed_eq]; rfl
  reasons_eq := by
    have hr := hl.reasons_eq
    rw [reasons_concat]
    show reasons h + 0 = asked + (st.totalReplans + 1)
    omega
  steps_eq := by rw [dispatches_concat, hl.steps_eq]; rfl
  perTask := ht
  perStep := by
    obtain ⟨b, bs, hb, hfb, -⟩ := hc
    rw [blocks_concat, hb]
    intro b' hb'
    rcases List.mem_cons.1 hb' with rfl | hb'
    · rw [failed_concat, hfb]
      exact hf
    · exact hl.perStep b' (by rw [hb]; exact List.mem_cons_of_mem _ hb')
  total_le := by
    have ht := hl.total_le
    dsimp only
    omega
  summarizes_le := by
    rw [summarizes_concat]
    exact hl.summarizes_le
  detects := by
    rw [calls_concat]
    exact hl.detects.record action input

omit [SerdeJson] in
theorem Current.failure (hc : Current h f r) (action : String) (input : Json) (e : ToolError)
    (timeout : Nat) :
    Current (h ++ [⟨.executeWithTimeout action input timeout, .error e⟩]) (f + 1) r := by
  obtain ⟨b, bs, hb, hf, hr⟩ := hc
  refine ⟨b ++ [⟨.executeWithTimeout action input timeout, .error e⟩], bs, ?_, ?_, ?_⟩
  · rw [blocks_concat, hb]
    rfl
  · rw [failed_concat, hf]
    rfl
  · rw [reasons_concat, hr]
    rfl

end Steps

end Xola.PlanExecutor
