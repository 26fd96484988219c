import Xola.Planning.Verify.Episodes

/-!
# Loop detection over a run

The detector is asked before every dispatch and told about it, from inside the replan loop, over all
iterations of a task. So what it sees at each dispatch is the window of all calls of the run so far:
the run goes on exactly if no call has filled its share of that window, and no stretch of the calls
of a run repeats a call more often than the threshold.

The detector compares hashes. `CollisionFree` is asked only of the calls of the run at hand.
-/

namespace Xola.PlanExecutor

open Interaction

/-- Calls with the same hash are the same call. -/
def CollisionFree [SerdeJson] (hs : Hashing) (cs : List (String × Json)) : Prop :=
  ∀ c ∈ cs, ∀ c' ∈ cs, hashOf hs c = hashOf hs c' → c = c'

/-- Some call occurs at least `M` times among the last `K`. -/
def Repeats (K M : Nat) (cs : List (String × Json)) : Prop :=
  ∃ c ∈ cs.rtake K, M ≤ (cs.rtake K).count c

/-- Without collisions, the hashes in the window repeat exactly as the calls do. -/
theorem looping_iff [SerdeJson] {hs : Hashing} {config : LoopDetectorConfig} {cs : List (String × Json)}
    (hK : 1 ≤ config.windowSize) (hfree : CollisionFree hs cs) :
    Looping hs config cs ↔ Repeats config.windowSize config.repeatThreshold cs := by
  have hw : window hs config cs = (cs.rtake config.windowSize).map (hashOf hs) := by
    rw [window, Nat.max_eq_left hK, List.rtake_map]
  have hsuf := List.rtake_suffix cs config.windowSize
  rw [Looping, hw]
  exact List.exists_count_map_iff fun c hc c' hc' => hfree c (hsuf.mem hc) c' (hsuf.mem hc')

section Run

variable [SerdeJson] {hs : Hashing} {ex : PlanExecutor} {goal : String} {h : Trace}

/-! ## At a call that has been asked for -/

/-- Once a call has been asked for, the run pushes messages and then dispatches the call or stops on
a loop. -/
theorem settle {q : Plan TaskResult} {action : String} {input : Json}
    (hq : Prog.wp (Issues hs ex) (Exit hs ex) q h) (hr : requested h = some (action, input)) :
    ∃ t, (∀ e ∈ t, ∃ stm msg, e = ⟨.pushed stm msg, ()⟩) ∧
      ((Looping hs ex.loopDetectorConfig (calls h) ∧ ∃ msg, Prog.Reaches q t (.err (.loop msg))) ∨
        (¬Looping hs ex.loopDetectorConfig (calls h) ∧ Prog.Pending q t
          (.executeWithTimeout action input (ex.timeoutConfig.getTimeout action)))) := by
  have hidle : requested h ≠ none := by rw [hr]; simp
  induction q generalizing h with
  | ret r => cases hq with | final _ _ hid => exact absurd hid hidle
  | panic m => cases hq with | panic _ hid => exact absurd hid hidle
  | err e =>
    cases hq with
    | loop _ hl => exact ⟨[], by simp, .inl ⟨hl, _, .refl _⟩⟩
    | exhausted _ hid => exact absurd hid hidle
    | perStep _ hid => exact absurd hid hidle
    | perTask _ hid => exact absurd hid hidle
    | ipc _ hid => exact absurd hid hidle
  | call c k ih =>
    obtain ⟨hi, hk⟩ := hq
    cases hi with
    | iteration _ hid => exact absurd hid hidle
    | elapsed _ hid => exact absurd hid hidle
    | reason _ hid => exact absurd hid hidle
    | summarize _ hid => exact absurd hid hidle
    | insert _ hid => exact absurd hid hidle
    | dispatch _ hreq hfree =>
      cases hreq.symm.trans hr
      exact ⟨[], by simp, .inr ⟨hfree, k, .refl _⟩⟩
    | @pushed stm msg _ =>
      have hreq : requested (h ++ [⟨.pushed stm msg, ()⟩]) = requested h := requested_concat _ _
      have hcalls : calls (h ++ [⟨.pushed stm msg, ()⟩]) = calls h := by
        rw [calls_concat]
        exact List.append_nil _
      obtain ⟨t, ht, hend⟩ := ih () (hk ()) (hreq.trans hr) (hreq ▸ hidle)
      rw [hcalls] at hend
      refine ⟨⟨.pushed stm msg, ()⟩ :: t, ?_, ?_⟩
      · intro e he
        rcases List.mem_cons.1 he with rfl | he
        · exact ⟨stm, msg, rfl⟩
        · exact ht e he
      · rcases hend with ⟨hl, m, hm⟩ | ⟨hl, k', hk'⟩
        · exact .inl ⟨hl, m, .step (R := Command.Answer) (c := .pushed stm msg) (k := k) () hm⟩
        · exact .inr ⟨hl, k', .step (R := Command.Answer) (c := .pushed stm msg) (k := k) () hk'⟩

/-! ## The calls of a run -/

/-- Every call of a run was dispatched after the calls before it, in a window without a loop. -/
theorem not_looping_before {q : Plan TaskResult} (hr : Prog.Reaches (raced hs ex goal) h q)
    {before : List (String × Json)} {c : String × Json} (hp : before ++ [c] <+: calls h) :
    ¬Looping hs ex.loopDetectorConfig before := by
  obtain ⟨rest, hrest⟩ := hp
  rw [List.append_assoc, calls] at hrest
  obtain ⟨l₁, l₂, hl, hl₁, hl₂⟩ := List.map_eq_append_iff.1 hrest.symm
  obtain ⟨h₁, h₂, rfl, hh₁, hh₂⟩ := List.filterMap_eq_append_iff.1 hl
  obtain ⟨s, l₃, rfl, -, -⟩ := List.map_eq_cons_iff.1 hl₂
  obtain ⟨h₃, x, h₄, rfl, hnone, hx, -⟩ := List.filterMap_eq_cons_iff.1 hh₂
  have hcalls : calls (h₁ ++ h₃) = before := by
    rw [calls, dispatches, List.filterMap_append, hh₁, List.filterMap_eq_nil_iff.2 hnone,
      List.append_nil, hl₁]
  have hpend : Prog.Pending (raced hs ex goal) (h₁ ++ h₃) x.1 :=
    Prog.Reaches.pending (t := h₄) (by simpa using hr)
  rw [← hcalls]
  obtain ⟨c', r⟩ := x
  cases issues_of_pending hpend with
  | dispatch _ _ hfree => exact hfree
  | iteration | pushed | elapsed | reason | summarize | insert => cases hx

omit [SerdeJson] in
/-- What a final or empty response does not do: it asks for a call. -/
theorem requested_reason {request : ReasonRequest} {response : ReasonResponse}
    (hf : response.isFinal = false) (ha : response.action.getD "" ≠ "") :
    requested (h ++ [⟨.reason request, .ok response⟩]) =
      some (response.action.getD "", response.actionInput) := by
  rw [requested_concat]
  exact if_pos ⟨hf, ha⟩

/-- **Loop detection is exact over a run.** When the model has asked for a call, the run stops on a
loop if some call fills `M` places of the last `K`, and dispatches the call if none does. It stops
on a loop only then. And no `K` consecutive calls of a run hold more than `M` copies of one. -/
theorem loop_detection_exact (hK : 1 ≤ ex.loopDetectorConfig.windowSize)
    (hM : 1 ≤ ex.loopDetectorConfig.repeatThreshold) :
    (∀ h request response q, CollisionFree hs (calls h) →
      Prog.Reaches (raced hs ex goal) (h ++ [⟨.reason request, .ok response⟩]) q →
      response.isFinal = false → response.action.getD "" ≠ "" →
      ∃ t, (∀ e ∈ t, ∃ stm msg, e = ⟨.pushed stm msg, ()⟩) ∧
        (Repeats ex.loopDetectorConfig.windowSize ex.loopDetectorConfig.repeatThreshold
          (calls h) → ∃ msg, Prog.Reaches q t (.err (.loop msg))) ∧
        (¬Repeats ex.loopDetectorConfig.windowSize ex.loopDetectorConfig.repeatThreshold
          (calls h) → Prog.Pending q t
            (.executeWithTimeout (response.action.getD "") response.actionInput
              (ex.timeoutConfig.getTimeout (response.action.getD ""))))) ∧
    (∀ h msg, CollisionFree hs (calls h) →
      Prog.Returns (raced hs ex goal) h (.error (.loop msg)) →
      Repeats ex.loopDetectorConfig.windowSize ex.loopDetectorConfig.repeatThreshold (calls h)) ∧
    ∀ h q w c, CollisionFree hs (calls h) → Prog.Reaches (raced hs ex goal) h q →
      w <:+: calls h → w.length ≤ ex.loopDetectorConfig.windowSize →
      w.count c ≤ ex.loopDetectorConfig.repeatThreshold := by
  refine ⟨?_, ?_, ?_⟩
  · intro h request response q hc hr hf ha
    have hwp := Prog.wp_reaches hr (wp_raced hs ex goal)
    obtain ⟨t, ht, hend⟩ := settle hwp (requested_reason hf ha)
    have hcalls : calls (h ++ [⟨.reason request, .ok response⟩]) = calls h := by
      rw [calls_concat]
      exact List.append_nil _
    rw [List.nil_append, hcalls, looping_iff hK hc] at hend
    refine ⟨t, ht, ?_, ?_⟩
    · intro hrep
      rcases hend with ⟨-, hm⟩ | ⟨hnot, -⟩
      · exact hm
      · exact absurd hrep hnot
    · intro hrep
      rcases hend with ⟨hyes, -⟩ | ⟨-, hp⟩
      · exact absurd hyes hrep
      · exact hp
  · intro h msg hc hr
    cases exit_of_returns hr with
    | loop _ hl => exact (looping_iff hK hc).1 hl
  · intro h q w c hc hr hw hlen
    refine List.count_le_of_window ?_ hw hlen c
    intro before a hp
    have hsub : ∀ b ∈ before, b ∈ calls h := fun b hb =>
      hp.mem (List.mem_append_left _ hb)
    have hnot := mt (looping_iff hK fun c hc' c' hc'' => hc c (hsub c hc') c' (hsub c' hc'')).2
      (not_looping_before hr hp)
    by_contra hle
    have hpos : 0 < (before.rtake ex.loopDetectorConfig.windowSize).count a := by omega
    exact hnot ⟨a, List.count_pos_iff.1 hpos, Nat.le_of_not_lt hle⟩

end Run

/-- Limits that leave the stubborn model to the loop detector. -/
def patient : PlanExecutor :=
  .new (.new .default) .default { PlanConfig.default with replan := ⟨10, 10⟩ }

attribute [local instance] SerdeJson.plain

theorem loop_detection_exact_patient :
    Repeats 10 3 (calls ((raced sameHash patient "find").exec stubborn []).1) := by
  have hres : ((raced sameHash patient "find").exec stubborn []).2 = some (.error
      (.loop "Detected loop: tool called 3 times with identical input (hash: 0)")) := by
    decide +kernel
  have hexact := @loop_detection_exact _ sameHash patient "find" (by decide) (by decide)
  refine hexact.2.1 _ _ ?_ (Prog.exec_returns hres)
  unfold CollisionFree
  decide +kernel

end Xola.PlanExecutor
