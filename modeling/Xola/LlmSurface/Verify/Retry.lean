import Mathlib.Algebra.Order.Ring.Int
import Xola.LlmSurface.Verify.ParserContract

/-!
# The corrective loop

Whatever the model replies, `parse_with_retry` goes through the outputs one by one: the raw text, then
each reply. It stops at the first that validates, at the first call that fails, or when the attempts
are used up, the last of which is not followed by a call. The variable that holds the last failure is
bound inside the loop, so without a single attempt there is nothing to return. And the schema is dumped
into each prompt outside the `try`, so a schema that has no text makes the loop raise.
-/

namespace Xola.LlmSurface

open Interaction

section Contract

variable (lib : Library) (loads : PyStr → Except LoadsError PyValue)
  (dumps : List (PyStr × PyValue) → Except ParserError String) (schema : List (PyStr × PyValue))
  (model : PyStr) (maxRetries : Int) (raw : PyStr) (replies : Nat → Except PyStr (Option PyStr))

/-- The text to be parsed at each attempt, counted from zero. -/
def output : Nat → PyStr
  | 0 => raw
  | i + 1 =>
    match replies i with
    | .ok content => content.getD []
    | .error _ => []

/-- What validation says of it. -/
abbrev verdict (i : Nat) : ParseResponse :=
  validateAgainstSchema lib loads (output raw replies i) schema

/-- The replies as the environment of the loop. -/
def replying (h : History RetryCommand.Answer) : (c : RetryCommand) → c.Answer
  | .create _ _ _ => replies h.length

/-- The output `i` validates, and no call has failed before it. -/
def Validates (i : Nat) : Prop :=
  (verdict lib loads schema raw replies i).success = true ∧ ∀ j < i, ∃ content, replies j = .ok content

/-- What `parse_with_retry` promises of its result, after the calls `h`. -/
structure Corrects (h : History RetryCommand.Answer) (result : ParseResponse) : Prop where
  success_iff : result.success = true ↔
    ∃ i : Nat, (i : Int) < max 1 maxRetries ∧ Validates lib loads schema raw replies i
  first : ∀ i : Nat, (i : Int) < max 1 maxRetries → Validates lib loads schema raw replies i →
    (∀ j < i, ¬Validates lib loads schema raw replies j) →
    result = verdict lib loads schema raw replies i ∧ h.length = i
  failure : result.success = false → (h.length : Int) ≤ max 0 (maxRetries - 1) ∧
    (result = verdict lib loads schema raw replies h.length ∨
      ∃ i e, h.length = i + 1 ∧ replies i = .error e ∧
        result = ⟨none, false, some ("Retry failed: " ++ e)⟩)
  prompts : ∀ i model content temperature answer,
    h[i]? = some ⟨.create model content temperature, answer⟩ →
    ∃ e, (verdict lib loads schema raw replies i).error = some e ∧
      buildCorrectivePrompt dumps (output raw replies i) e schema = .ok content

/-- It returns a result, and keeps its promise. -/
def ReturnsCorrected : Prop :=
  ∃ h result, (parseWithRetry lib loads dumps schema model maxRetries raw).exec (replying replies) [] =
    (h, some (.ok result)) ∧
      Corrects lib loads dumps schema maxRetries raw replies h result

end Contract

section Retry

variable {lib : Library} {loads : PyStr → Except LoadsError PyValue}
  {dumps : List (PyStr × PyValue) → Except ParserError String} {schema : List (PyStr × PyValue)}
  {model : PyStr} {maxRetries : Int} {raw : PyStr} {replies : Nat → Except PyStr (Option PyStr)}
  {k : Nat} {h : History RetryCommand.Answer}

/-! ## One attempt -/

theorem errorText_eq {e : PyStr} (he : e ≠ []) :
    ParseResponse.errorText ⟨none, false, some e⟩ = e :=
  if_neg he

/-- A failed validation comes with an error of its own. -/
theorem errorText_of_failed {output : PyStr}
    (hf : (validateAgainstSchema lib loads output schema).success = false) :
    ∃ e, (validateAgainstSchema lib loads output schema).error = some e ∧
      (validateAgainstSchema lib loads output schema).errorText = e := by
  have hne : ∀ kind msg : PyStr, kind ≠ [] → kind ++ msg ≠ [] := by
    intro kind msg hkind hnil
    exact hkind (List.append_eq_nil_iff.1 hnil).1
  unfold validateAgainstSchema at hf ⊢
  split at hf
  · cases hf
  all_goals exact ⟨_, rfl, errorText_eq (hne _ _ (by decide))⟩

/-- The first `k` outputs have failed, and each has been sent back to the model, with its error, for
the next one. -/
structure Attempted (lib : Library) (loads : PyStr → Except LoadsError PyValue)
    (dumps : List (PyStr × PyValue) → Except ParserError String) (schema : List (PyStr × PyValue))
    (raw : PyStr) (replies : Nat → Except PyStr (Option PyStr)) (k : Nat)
    (h : History RetryCommand.Answer) : Prop where
  length_eq : h.length = k
  failed : ∀ j < k, (verdict lib loads schema raw replies j).success = false
  prompts : ∀ i model content temperature answer,
    h[i]? = some ⟨.create model content temperature, answer⟩ →
    ∃ e, (verdict lib loads schema raw replies i).error = some e ∧
      buildCorrectivePrompt dumps (output raw replies i) e schema = .ok content

theorem Attempted.snoc (ha : Attempted lib loads dumps schema raw replies k h)
    (hf : (verdict lib loads schema raw replies k).success = false) (model : PyStr)
    (temperature : JsonFloat) (answer : Except PyStr (Option PyStr)) {prompt : PyStr}
    (hprompt : buildCorrectivePrompt dumps (output raw replies k)
      (verdict lib loads schema raw replies k).errorText schema = .ok prompt) :
    Attempted lib loads dumps schema raw replies (k + 1)
      (h ++ [⟨.create model prompt temperature, answer⟩]) := by
  obtain ⟨hlen, hfailed, hprompts⟩ := ha
  refine ⟨by rw [List.length_append, hlen]; rfl, ?_, ?_⟩
  · intro j hj
    rcases Nat.lt_succ_iff_lt_or_eq.1 hj with hj | rfl
    · exact hfailed j hj
    · exact hf
  · intro i model' content temperature' answer' hi
    rcases Nat.lt_or_ge i h.length with hlt | hge
    · rw [List.getElem?_append_left hlt] at hi
      exact hprompts i _ _ _ _ hi
    · rw [List.getElem?_append_right hge] at hi
      obtain ⟨hzero, hi⟩ := List.getElem?_eq_some_iff.1 hi
      obtain rfl : i = k := by
        rw [List.length_singleton] at hzero
        omega
      obtain ⟨e, he, htext⟩ := errorText_of_failed hf
      simp only [hlen, Nat.sub_self, List.getElem_cons_zero] at hi
      cases hi
      rw [htext] at hprompt
      exact ⟨e, he, hprompt⟩

/-! ## The three exits -/

/-- How the loop ends: with an output that validates, with a call that fails, or after the last
attempt. -/
inductive Exit (lib : Library) (loads : PyStr → Except LoadsError PyValue)
    (dumps : List (PyStr × PyValue) → Except ParserError String) (schema : List (PyStr × PyValue))
    (raw : PyStr) (replies : Nat → Except PyStr (Option PyStr)) (n : Nat) :
    History RetryCommand.Answer → ParseResponse → Prop
  | parsed {i : Nat} {h : History RetryCommand.Answer} (lt : i < n)
      (attempted : Attempted lib loads dumps schema raw replies i h)
      (answered : ∀ j < i, ∃ content, replies j = .ok content)
      (success : (verdict lib loads schema raw replies i).success = true) :
      Exit lib loads dumps schema raw replies n h (verdict lib loads schema raw replies i)
  | retryFailed {i : Nat} {h : History RetryCommand.Answer} {e : PyStr} (lt : i + 1 < n)
      (attempted : Attempted lib loads dumps schema raw replies (i + 1) h)
      (raised : replies i = .error e) :
      Exit lib loads dumps schema raw replies n h ⟨none, false, some ("Retry failed: " ++ e)⟩
  | exhausted {i : Nat} {h : History RetryCommand.Answer} (eq : i + 1 = n)
      (attempted : Attempted lib loads dumps schema raw replies i h)
      (failed : (verdict lib loads schema raw replies i).success = false) :
      Exit lib loads dumps schema raw replies n h (verdict lib loads schema raw replies i)

theorem buildCorrectivePrompt_ok {text : String} (hdumps : dumps schema = .ok text)
    (original error : PyStr) :
    ∃ prompt, buildCorrectivePrompt dumps original error schema = .ok prompt := by
  rw [buildCorrectivePrompt, hdumps]
  exact ⟨_, rfl⟩

variable (model) in
/-- The loop from an attempt on, if no corrective prompt is needed or the schema can be dumped. -/
theorem retry_exits {n remaining : Nat} (prev : Option ParseResponse)
    (hn : k + (remaining + 1) = n) (ha : Attempted lib loads dumps schema raw replies k h)
    (hanswered : ∀ j < k, ∃ content, replies j = .ok content)
    (hdumps : remaining = 0 ∨ (verdict lib loads schema raw replies k).success = true ∨
      ∃ text, dumps schema = .ok text) :
    ∃ h' result, (retry lib loads dumps schema model n (remaining + 1) (k + 1 : Nat)
        (output raw replies k) prev).exec (replying replies) h = (h', some (.ok result)) ∧
      Exit lib loads dumps schema raw replies n h' result := by
  induction remaining generalizing k h prev with
  | zero =>
    rw [retry]
    have hlast : ¬((k + 1 : Nat) : Int) < (n : Int) := by omega
    cases hv : (verdict lib loads schema raw replies k).success with
    | true =>
      rw [if_pos rfl]
      exact ⟨h, _, rfl, .parsed (by omega) ha hanswered hv⟩
    | false =>
      rw [if_neg Bool.false_ne_true, if_neg hlast]
      exact ⟨h, _, rfl, .exhausted (by omega) ha hv⟩
  | succ remaining ih =>
    rw [retry]
    have hmore : ((k + 1 : Nat) : Int) < (n : Int) := by omega
    cases hv : (verdict lib loads schema raw replies k).success with
    | true =>
      rw [if_pos rfl]
      exact ⟨h, _, rfl, .parsed (by omega) ha hanswered hv⟩
    | false =>
      obtain ⟨text, htext⟩ : ∃ text, dumps schema = .ok text := by
        rcases hdumps with hzero | hs | hd
        · cases hzero
        · cases hs.symm.trans hv
        · exact hd
      obtain ⟨prompt, hprompt⟩ := buildCorrectivePrompt_ok htext (output raw replies k)
        (verdict lib loads schema raw replies k).errorText
      have hnext := ha.snoc hv model (.finite false 0 0) (replies k) hprompt
      have hreply : replies h.length = replies k := congrArg replies ha.length_eq
      rw [if_neg Bool.false_ne_true, if_pos hmore, hprompt]
      simp only [Prog.exec, replying, hreply]
      cases hr : replies k with
      | error e =>
        rw [hr] at hnext
        exact ⟨_, _, rfl, .retryFailed (by omega) hnext hr⟩
      | ok content =>
        rw [hr] at hnext
        have hout : output raw replies (k + 1) = content.getD [] := by rw [output, hr]
        dsimp only
        rw [← hout]
        refine ih _ (by omega) hnext ?_ (.inr (.inr ⟨text, htext⟩))
        intro j hj
        rcases Nat.lt_succ_iff_lt_or_eq.1 hj with hj | rfl
        · exact hanswered j hj
        · exact ⟨content, hr⟩

/-- An exception of `json.dumps` is not handled. -/
theorem parseWithRetry_raises {e : ParserError} (hmore : 1 < maxRetries)
    (hf : (validateAgainstSchema lib loads raw schema).success = false)
    (he : dumps schema = .error e) :
    parseWithRetry lib loads dumps schema model maxRetries raw = .err e := by
  obtain ⟨n, hn⟩ : ∃ n, maxRetries.toNat = n + 1 := ⟨maxRetries.toNat - 1, by omega⟩
  have hprompt : ∀ original error,
      buildCorrectivePrompt dumps original error schema = .error e := by
    intro original error
    rw [buildCorrectivePrompt, he]
    rfl
  rw [parseWithRetry, hn, retry, if_neg (ne_true_of_eq_false hf), if_pos hmore, hprompt]

/-! ## What the exits promise -/

theorem Attempted.not_validates (ha : Attempted lib loads dumps schema raw replies k h) {i : Nat}
    (hi : i < k) : ¬Validates lib loads schema raw replies i := by
  intro hv
  have hs := hv.1
  rw [ha.failed i hi] at hs
  cases hs

/-- A failure is returned when no output validates. -/
theorem Attempted.corrects (ha : Attempted lib loads dumps schema raw replies k h)
    {result : ParseResponse} (hfailed : result.success = false)
    (hnone : ∀ j : Nat, (j : Int) < max 1 maxRetries → ¬Validates lib loads schema raw replies j)
    (hcalls : (h.length : Int) ≤ max 0 (maxRetries - 1))
    (hresult : result = verdict lib loads schema raw replies h.length ∨
      ∃ i e, h.length = i + 1 ∧ replies i = .error e ∧
        result = ⟨none, false, some ("Retry failed: " ++ e)⟩) :
    Corrects lib loads dumps schema maxRetries raw replies h result := by
  refine ⟨iff_of_false (ne_true_of_eq_false hfailed) ?_, ?_, fun _ => ⟨hcalls, hresult⟩, ha.prompts⟩
  · rintro ⟨j, hlt, hj⟩
    exact hnone j hlt hj
  · intro j hlt hj _
    exact absurd hj (hnone j hlt)

theorem Exit.corrects {n : Nat} {result : ParseResponse}
    (he : Exit lib loads dumps schema raw replies n h result) :
    Corrects lib loads dumps schema n raw replies h result := by
  cases he with
  | @parsed i _ lt ha hanswered hsuccess =>
    have hvalid : Validates lib loads schema raw replies i := ⟨hsuccess, hanswered⟩
    refine ⟨iff_of_true hsuccess ⟨i, by omega, hvalid⟩, ?_, ?_, ha.prompts⟩
    · intro j _ hj hfirst
      rcases Nat.lt_trichotomy i j with hlt | rfl | hlt
      · exact absurd hvalid (hfirst i hlt)
      · exact ⟨rfl, ha.length_eq⟩
      · exact absurd hj (ha.not_validates hlt)
    · intro hfailed
      rw [hsuccess] at hfailed
      cases hfailed
  | @retryFailed i _ e lt ha hraised =>
    have hlen := ha.length_eq
    refine ha.corrects rfl ?_ (by omega) (.inr ⟨i, e, hlen, hraised, rfl⟩)
    intro j _ hj
    rcases Nat.lt_or_ge j (i + 1) with hlt | hge
    · exact ha.not_validates hlt hj
    · obtain ⟨content, hcontent⟩ := hj.2 i hge
      rw [hraised] at hcontent
      cases hcontent
  | @exhausted i _ hn ha hfailed =>
    have hlen := ha.length_eq
    refine ha.corrects hfailed ?_ (by omega) (.inl (by rw [hlen]))
    intro j hlt hj
    rcases Nat.lt_or_ge j i with hji | hge
    · exact ha.not_validates hji hj
    · obtain rfl : j = i := by omega
      have hs := hj.1
      rw [hfailed] at hs
      cases hs

/-- **When the corrective loop keeps its promise.** For whatever replies, it returns the first output
that validates, or the failure it stopped at, exactly if it is allowed at least one attempt, and, when
a corrective prompt is needed, `json.dumps` has a text for the schema. Otherwise it raises. -/
theorem returnsCorrected_iff : ReturnsCorrected lib loads dumps schema model maxRetries raw replies ↔
    1 ≤ maxRetries ∧ (maxRetries = 1 ∨ (validateAgainstSchema lib loads raw schema).success = true ∨
      ∃ text, dumps schema = .ok text) := by
  rcases lt_or_ge maxRetries 1 with hlt | hge
  · have hzero : maxRetries.toNat = 0 := by omega
    refine iff_of_false ?_ (by omega)
    rintro ⟨h, result, hexec, -⟩
    rw [parseWithRetry, hzero] at hexec
    cases hexec
  · constructor
    · rintro ⟨h, result, hexec, -⟩
      refine ⟨hge, ?_⟩
      by_contra hraises
      simp only [not_or, Bool.not_eq_true] at hraises
      obtain ⟨hone, hf, hdumps⟩ := hraises
      cases he : dumps schema with
      | ok text => exact hdumps ⟨text, he⟩
      | error e =>
        rw [parseWithRetry_raises (by omega) hf he] at hexec
        cases hexec
    · rintro ⟨-, hdumps⟩
      obtain ⟨n, rfl⟩ : ∃ n : Nat, maxRetries = (n + 1 : Nat) := ⟨(maxRetries - 1).toNat, by omega⟩
      have hstart : Attempted lib loads dumps schema raw replies 0 [] := ⟨rfl, nofun, nofun⟩
      obtain ⟨h, result, hexec, hexit⟩ := retry_exits (n := n + 1) model none (Nat.zero_add _)
        hstart nofun (hdumps.imp_left fun hone => by omega)
      exact ⟨h, result, hexec, hexit.corrects⟩

end Retry

/-- A client that need not be asked. -/
theorem zero_not_returnsCorrected : ¬ReturnsCorrected plain (loadsObject alice)
    (fun _ => .ok "\x7b\x7d") personSchema "gpt-4o-mini" 0 aliceText (fun _ => .ok none) := by
  rintro ⟨h, result, hexec, -⟩
  cases hexec

end Xola.LlmSurface
