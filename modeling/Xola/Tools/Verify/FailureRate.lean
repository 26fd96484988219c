import Mathlib.Data.List.Chain
import Xola.Tools.Verify.SequentialCalls

/-!
# How often a failing tool is run

A breaker is there to spare a tool that is down. Once a streak of failures has reached the threshold,
the next execution comes a recovery timeout after the last at the earliest, and if it fails, so does
the one after it: the executions of a tool that keeps failing are spaced out from then on, and in any
stretch of time there are no more of them than the threshold and one for every timeout that fits into
it.
-/

namespace List

variable {α : Type*} {f : α → Nat} {d : Nat}

/-- Entries that are at least `d` apart take `d` for each step. -/
theorem IsChain.add_mul_le {l : List α} (h : l.IsChain fun a b => f a + d ≤ f b) {a b : α}
    (ha : l.head? = some a) (hb : l.getLast? = some b) : f a + (l.length - 1) * d ≤ f b := by
  induction l generalizing a with
  | nil => cases ha
  | cons x l ih =>
    cases ha
    cases l with
    | nil =>
      cases hb
      simp
    | cons y l =>
      obtain ⟨hxy, hrest⟩ := isChain_cons_cons.mp h
      have hle := ih hrest rfl (by simpa using hb)
      have hlen : (x :: y :: l).length - 1 = (y :: l).length - 1 + 1 := by simp
      rw [hlen, Nat.add_mul]
      omega

/-- One more entry of a chain whose beginning does not matter. -/
theorem IsChain.drop_concat {R : α → α → Prop} {l : List α} {k : Nat} {a : α}
    (h : (l.drop k).IsChain R) (ha : k < l.length → ∀ b, l.getLast? = some b → R b a) :
    ((l ++ [a]).drop k).IsChain R := by
  by_cases hk : k ≤ l.length
  · rw [drop_append_of_le_length hk]
    refine h.append (isChain_singleton a) ?_
    intro b hb c hc
    obtain rfl : a = c := Option.some.inj hc
    rw [getLast?_drop] at hb
    split at hb
    · cases hb
    · exact ha (by omega) b hb
  · have hnil : (l ++ [a]).drop k = [] := drop_eq_nil_of_le (by simp; omega)
    rw [hnil]
    exact .nil

end List

namespace Xola

open Interaction

variable {tool : String} {execs : List Execution}

/-! ## Trailing failures in time -/

theorem trailingFailures_sublist (tool : String) (execs : List Execution) :
    (trailingFailures tool execs).Sublist execs :=
  (List.rtakeWhile_suffix _ _).sublist.trans List.filter_sublist

/-- The last of them is the last failure there was. -/
theorem getLast?_trailingFailures (h : trailingFailures tool execs ≠ []) :
    (trailingFailures tool execs).getLast? = lastFailed tool execs := by
  unfold trailingFailures lastFailed at *
  generalize executionsOf tool execs = es at *
  induction es using List.reverseRecOn with
  | nil => simp at h
  | append_singleton es e _ =>
    by_cases he : e.failed = true
    · rw [List.rtakeWhile_concat_pos _ _ _ he, List.filter_append, List.filter_singleton, he]
      simp
    · rw [List.rtakeWhile_concat_neg _ _ _ he] at h
      exact absurd rfl h

/-! ## Sessions -/

namespace Session

/-- The executions have come one after another, and those of a tool that keeps failing are apart. -/
structure Paced (config : CircuitBreakerConfig) (s : Session) (clock : Nat) : Prop where
  sorted : s.executions.Pairwise fun e e' => e.finish ≤ e'.finish
  past : ∀ e ∈ s.executions, e.finish ≤ clock
  spaced : ∀ tool, ((trailingFailures tool s.executions).drop
    (max 1 config.failureThreshold - 1)).IsChain
      fun e e' => e.finish + config.recoveryTimeout % 2 ^ 64 ≤ e'.finish

section Paced

variable {config : CircuitBreakerConfig} {validatorFor : ValidatorFor} {s s' : Session}
  {clock : Nat} {c : Call} {res : Except ToolError Json}

theorem Paced.of_eq (h : Paced config s clock) (hex : s'.executions = s.executions)
    (hclock : clock ≤ c.finish) : Paced config s' c.finish where
  sorted := hex ▸ h.sorted
  past e he := (h.past e (hex ▸ he)).trans hclock
  spaced := hex ▸ h.spaced

/-- An admitted call has waited for the timeout, if it had to. -/
theorem Paced.waited (h : Paced config s clock) (hsound : Sound config s clock)
    (hstart : clock ≤ c.start) (hadm : ((s.registry.breaker c.tool).canExecute c.start).2 = true)
    (hlong : max 1 config.failureThreshold ≤ (trailingFailures c.tool s.executions).length)
    {e : Execution} (he : (trailingFailures c.tool s.executions).getLast? = some e) :
    e.finish + config.recoveryTimeout % 2 ^ 64 ≤ c.start := by
  have hne : trailingFailures c.tool s.executions ≠ [] := by
    rintro hnil
    rw [hnil] at he
    cases he
  have hlast : lastFailed c.tool s.executions = some e := by
    rw [← getLast?_trailingFailures hne, he]
  have hpast : e.finish ≤ clock :=
    h.past e ((trailingFailures_sublist _ _).subset (List.mem_of_getLast? he))
  have hrejects := (hsound.tracks c.tool).rejects_iff hstart
  rw [hadm, CircuitBreaker.recovery, hsound.config_eq] at hrejects
  have hnot : ¬c.start - e.finish < config.recoveryTimeout % 2 ^ 64 := by
    intro hlt
    cases hrejects.mpr ⟨hlong, e, hlast, hlt⟩
  omega

variable [SerdeJson]

theorem Paced.call (h : Paced config s clock) (hsound : Sound config s clock)
    (hstart : clock ≤ c.start) (hfinish : c.start ≤ c.finish)
    (hcall : s.call validatorFor c = (s', some res)) : Paced config s' c.finish := by
  have hclock : clock ≤ c.finish := hstart.trans hfinish
  cases callEffect hcall with
  | unregistered _ => exact h.of_eq rfl hclock
  | rejected _ _ hex => exact h.of_eq hex hclock
  | invalid _ _ hex _ => exact h.of_eq hex hclock
  | executed hadm _ hex =>
    constructor
    · rw [hex, List.pairwise_append]
      refine ⟨h.sorted, List.pairwise_singleton _ _, ?_⟩
      intro e he e' he'
      obtain rfl := List.mem_singleton.mp he'
      exact (h.past e he).trans hclock
    · intro e he
      rw [hex] at he
      rcases List.mem_append.mp he with he | he
      · exact (h.past e he).trans hclock
      · obtain rfl := List.mem_singleton.mp he
        exact Nat.le_refl _
    · intro tool
      rw [hex]
      by_cases ht : c.tool = tool
      · subst ht
        cases hf : c.fails with
        | false =>
          have hnone : trailingFailures c.tool (s.executions ++ [⟨c.tool, c.finish, false⟩]) = [] :=
            trailingFailures_succeeded rfl rfl
          rw [hnone, List.drop_nil]
          exact .nil
        | true =>
          have hlonger : trailingFailures c.tool (s.executions ++ [⟨c.tool, c.finish, true⟩]) =
              trailingFailures c.tool s.executions ++ [⟨c.tool, c.finish, true⟩] :=
            trailingFailures_failed rfl rfl
          rw [hlonger]
          refine (h.spaced c.tool).drop_concat ?_
          intro hlong e he
          have hwaited := h.waited hsound hstart hadm (by omega) he
          exact hwaited.trans hfinish
      · have hsame : trailingFailures tool (s.executions ++ [⟨c.tool, c.finish, c.fails⟩]) =
            trailingFailures tool s.executions := by
          rw [trailingFailures, executionsOf_append_other ht, trailingFailures]
        rw [hsame]
        exact h.spaced tool

theorem Run.paced {tools : List Tool} {r : ToolRegistry} {calls : List Call}
    (hr : ToolRegistry.ofTools config tools = .ok r) (h : Run validatorFor r calls s clock) :
    Paced config s clock := by
  induction h with
  | nil => exact ⟨.nil, nofun, fun _ => by simp [trailingFailures, executionsOf]⟩
  | snoc before hstart hfinish hcall ih => exact ih.call (before.sound hr) hstart hfinish hcall

omit [SerdeJson] in
/-- From the failure that reaches the threshold on, each takes a timeout. -/
theorem Paced.bounded (h : Paced config s clock) {tool : String} {first : Execution}
    (hfirst : (trailingFailures tool s.executions).head? = some first) :
    ((trailingFailures tool s.executions).length - max 1 config.failureThreshold) *
      (config.recoveryTimeout % 2 ^ 64) ≤ clock - first.finish := by
  have hspaced := h.spaced tool
  have hsorted := h.sorted.sublist (trailingFailures_sublist tool s.executions)
  have hpast : ∀ e ∈ trailingFailures tool s.executions, e.finish ≤ clock := fun e he =>
    h.past e ((trailingFailures_sublist tool s.executions).subset he)
  generalize trailingFailures tool s.executions = fs at *
  generalize hm : max 1 config.failureThreshold = m at *
  by_cases hlong : m ≤ fs.length
  · have hlen : (fs.drop (m - 1)).length = fs.length - m + 1 := by
      rw [List.length_drop]
      omega
    have hne : fs.drop (m - 1) ≠ [] := List.ne_nil_of_length_eq_add_one hlen
    have ha := List.head?_eq_some_head hne
    have hb := List.getLast?_eq_some_getLast hne
    generalize (fs.drop (m - 1)).head hne = a at ha
    generalize (fs.drop (m - 1)).getLast hne = b at hb
    have hchain := hspaced.add_mul_le ha hb
    rw [hlen, Nat.add_sub_cancel] at hchain
    have hbpast : b.finish ≤ clock := hpast b (List.mem_of_mem_drop (List.mem_of_getLast? hb))
    have hafter : first.finish ≤ a.finish := by
      have hmem : a ∈ fs := List.mem_of_mem_drop (List.mem_of_head? ha)
      cases fs with
      | nil => cases hfirst
      | cons x fs =>
        cases hfirst
        rcases List.mem_cons.mp hmem with rfl | hmem
        · exact Nat.le_refl _
        · exact (List.pairwise_cons.mp hsorted).1 a hmem
    omega
  · rw [Nat.sub_eq_zero_of_le (by omega), Nat.zero_mul]
    exact Nat.zero_le _

end Paced

attribute [local instance] SerdeJson.plain

def stillDown : Call :=
  ⟨"fetch", .obj [], 1000, 40000, 40010, some (.error (.executionFailed "still down"))⟩

end Session

end Xola
