import Xola.Tools.JsonSchema
import Xola.Tools.WebSearch

/-!
# Numbers that a schema admits

The validator and the tools read a number differently. To the schema an `integer` is a number
without a fractional part, however it is written; `as_i64` gives nothing for one that was written
as a float, and the default is used in its place. Of the numbers that the schema admits these are
the only ones that are replaced: its bounds are those of the `clamp`.
-/

namespace Xola

open Interaction JsonSchema

/-! ## One field -/

/-- The number that is used is the one supplied, or the default where there is none. -/
def Used (input : Json) (key : String) (default n : Int) : Prop :=
  match input.get key with
  | none => n = default
  | some v => v.number? = some (n : Rat)

/-- The field is not written as a float, but for the default itself. -/
def NotFloat (input : Json) (key : String) (default : Int) : Prop :=
  ∀ x, input.get key = some (.float x) → x.number? = some (default : Rat)

section Field

variable {input v : Json} {key : String} {d hi n : Int}

theorem clampedField_of_none (hd : 1 ≤ d) (hdhi : d ≤ hi)
    (h : (input.get key).bind CodeExec.asI64 = none) :
    WebSearch.clampedField input key d hi = d := by
  rw [WebSearch.clampedField, h, Option.getD_none]
  omega

theorem clampedField_of_int (hi64 : hi < 2 ^ 63) (hlo : 1 ≤ n) (hhi : n ≤ hi)
    (h : input.get key = some (.int n)) : WebSearch.clampedField input key d hi = n := by
  have hread : (input.get key).bind CodeExec.asI64 = some n := by
    rw [h, Option.bind_some, CodeExec.asI64, if_pos (by omega)]
  rw [WebSearch.clampedField, hread, Option.getD_some]
  omega

theorem used_clampedField_iff (hd : 1 ≤ d) (hdhi : d ≤ hi) (hi64 : hi < 2 ^ 63)
    (hs : ∀ v, input.get key = some v → ∃ n : Int, v.number? = some (n : Rat) ∧ 1 ≤ n ∧ n ≤ hi) :
    Used input key d (WebSearch.clampedField input key d hi) ↔ NotFloat input key d := by
  unfold Used NotFloat
  cases hget : input.get key with
  | none =>
    rw [clampedField_of_none hd hdhi (by rw [hget]; rfl)]
    exact iff_of_true rfl fun x hx => by cases hx
  | some v =>
    obtain ⟨n, hn, hlo, hhi⟩ := hs v hget
    cases v with
    | int m =>
      obtain rfl : m = n := Rat.intCast_inj.mp (Option.some.inj hn)
      rw [clampedField_of_int hi64 hlo hhi hget]
      exact iff_of_true hn fun x hx => by cases hx
    | float x =>
      rw [clampedField_of_none hd hdhi (by rw [hget]; rfl)]
      constructor
      · rintro hused y hy
        cases hy
        exact hused
      · intro hfloat
        exact hfloat x rfl
    | null | bool _ | str _ | arr _ | obj _ => cases hn

end Field

/-! ## The two tools -/

theorem CodeExec.timeoutSeconds_eq (input : Json) : CodeExec.timeoutSeconds input =
    WebSearch.clampedField input "timeout_seconds" 10 30 := rfl

theorem CodeExec.used_timeoutSeconds_iff {input : Json}
    (h : accepts CodeExec.inputSchema input = true) :
    Used input "timeout_seconds" 10 (CodeExec.timeoutSeconds input) ↔
      NotFloat input "timeout_seconds" 10 := by
  rw [CodeExec.timeoutSeconds_eq]
  refine used_clampedField_iff (by omega) (by omega) (by omega) ?_
  intro v hv
  have hfield := accepts_property h (.head _) (.tail _ (.tail _ (.head _))) hv
  exact integer_of_accepts hfield (by simp) (by simp) (by simp [CodeExec.maxTimeoutSeconds])

namespace WebSearch

theorem used_numResults_iff {input : Json} (h : accepts inputSchema input = true) :
    Used input "num_results" 5 (numResults input) ↔ NotFloat input "num_results" 5 := by
  refine used_clampedField_iff (by omega) (by omega) (by omega) ?_
  intro v hv
  have hfield := accepts_property h (.head _) (.head _) hv
  exact integer_of_accepts hfield (by simp) (by simp) (by simp)

theorem query_of_accepts {input : Json} (h : accepts inputSchema input = true) :
    ∃ query, CodeExec.stringField input "query" = .ok query := by
  obtain ⟨w, hw⟩ := required_of_accepts h (.tail _ (.tail _ (.head _))) (.tail _ (.head _))
    (.head _)
  obtain ⟨query, rfl⟩ := string_of_accepts
    (accepts_property h (.head _) (.tail _ (.head _)) hw) (.tail _ (.head _))
  exact ⟨query, by rw [CodeExec.stringField, hw]⟩

/-- Some run of the tool asks the API for `n` results. -/
def Requested (input : Json) (n : Int) : Prop :=
  ∃ t apiKey body, Prog.Pending (execute input) t (.send url apiKey body) ∧
    body.get "num" = some (.int n)

/-- The requests that a run may make: they ask for `num_results`. -/
def Asks (input : Json) (_ : History Command.Answer) : Command → Prop
  | .send _ _ body => body.get "num" = some (.int (numResults input))
  | .var _ | .json => True

section Asks

variable {input : Json} {query : String} {n : Int} {t : History Command.Answer}

theorem asks_readResults (response : Response) :
    Prog.wp (Asks input) (fun _ _ => True) (readResults response) t := by
  unfold readResults
  split
  · trivial
  · refine ⟨trivial, ?_⟩
    intro body
    cases body with
    | error e => trivial
    | ok responseJson =>
      change Prog.wp _ _ (Prog.ofExcept (structuredResults responseJson)) _
      cases structuredResults responseJson <;> trivial

theorem asks_execute (input : Json) :
    Prog.wp (Asks input) (fun _ _ => True) (execute input) [] := by
  unfold execute
  cases CodeExec.stringField input "query" with
  | error e => trivial
  | ok query =>
    refine ⟨trivial, ?_⟩
    intro apiKey
    cases apiKey with
    | none => trivial
    | some apiKey =>
      refine ⟨rfl, ?_⟩
      intro sent
      cases sent with
      | error e => trivial
      | ok response => exact asks_readResults response

theorem requested_iff (h : CodeExec.stringField input "query" = .ok query) :
    Requested input n ↔ n = numResults input := by
  constructor
  · rintro ⟨t, apiKey, body, hpending, hnum⟩
    have hasks : body.get "num" = some (.int (numResults input)) :=
      Prog.wp_pending (asks_execute input) hpending
    exact JsonOf.int.inj (Option.some.inj (hnum.symm.trans hasks))
  · rintro rfl
    refine ⟨[⟨.var "SERPER_API_KEY", some ""⟩], "", requestBody query (numResults input), ?_, rfl⟩
    unfold execute
    rw [h]
    exact ⟨_, .step _ (.refl _)⟩

end Asks

end WebSearch

def byKeywords : ValidatorFor := fun schema =>
  .ok fun v => if accepts schema v then [] else ["the value does not satisfy its schema"]

theorem conforms_byKeywords (schema : Json) : Conforms byKeywords schema := by
  refine ⟨_, rfl, ?_⟩
  intro v
  by_cases hv : accepts schema v = true
  · rw [if_pos hv]
    exact iff_of_true rfl hv
  · rw [if_neg hv]
    exact iff_of_false (List.cons_ne_nil _ _) hv

def whole : Json :=
  .obj [("code", .str "1"), ("language", .str "python"), ("num_results", .int 7),
    ("query", .str "rust"), ("timeout_seconds", .int 20)]

/-- Twenty seconds, as a float. -/
def floating : Json :=
  .obj [("code", .str "1"), ("language", .str "python"),
    ("timeout_seconds", .float (.finite false 2 1))]

end Xola
