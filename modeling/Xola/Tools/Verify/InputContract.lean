import Xola.Tools.Calls
import Xola.Tools.JsonSchema
import Xola.Tools.UrlFetch
import Xola.Tools.Verify.Containers
import Xola.Tools.Verify.Gating
import Xola.Tools.Verify.ValidatedNumbers

/-!
# What validation promises to a tool

The trait `Tool` lets `execute` assume that its input matches the schema. The tools check their input
all the same, field by field; for an input that the schema admits none of these checks fails, so every
tool gets as far as its first request, and whatever goes wrong from there on is an `ExecutionFailed`.
Through the registry `InvalidInput` therefore has one cause: a call that was admitted by the breaker
with an input that the schema of the tool rejects.
-/

namespace Xola

open Interaction JsonSchema
open CodeExec (stringField)

/-! ## Reading an admitted input -/

/-- The shape that the schemas of the tools have. -/
def objectSchema (properties : List (String × Json)) (keys : List Json) : Json :=
  .obj [("properties", .obj properties), ("required", .arr keys), ("type", .str "object")]

section Reading

variable {properties keywords : List (String × Json)} {keys : List Json} {key : String}
  {input : Json}

theorem string_of_admitted (h : accepts (objectSchema properties keys) input = true)
    (hk : .str key ∈ keys) (hp : (key, .obj keywords) ∈ properties)
    (ht : ("type", .str "string") ∈ keywords) :
    ∃ s, stringField input key = .ok s ∧ accepts (.obj keywords) (.str s) = true := by
  obtain ⟨v, hv⟩ := required_of_accepts h (.tail _ (.tail _ (.head _))) (.tail _ (.head _)) hk
  have hfield := accepts_property h (.head _) hp hv
  obtain ⟨s, rfl⟩ := string_of_accepts hfield ht
  exact ⟨s, by rw [stringField, hv], hfield⟩

theorem mem_of_enum {items : List Json} {v : Json} (h : accepts (.obj keywords) v = true)
    (he : ("enum", .arr items) ∈ keywords) : v ∈ items := by
  rw [accepts] at h
  have hasserts : asserts "enum" (.arr items) v = true := acceptsKeyword_of_mem h he
  exact List.contains_iff_mem.mp hasserts

theorem MockTool.reads (h : accepts MockTool.inputSchema input = true) :
    ∃ message, stringField input "message" = .ok message := by
  obtain ⟨message, hm, -⟩ := string_of_admitted h (.head _) (.head _) (.tail _ (.head _))
  exact ⟨message, hm⟩

theorem UrlFetch.reads (h : accepts UrlFetch.inputSchema input = true) :
    ∃ url, stringField input "url" = .ok url := by
  obtain ⟨url, hu, -⟩ := string_of_admitted h (.head _) (.head _) (.tail _ (.head _))
  exact ⟨url, hu⟩

theorem CodeExec.reads (h : accepts CodeExec.inputSchema input = true) :
    ∃ language code image, stringField input "language" = .ok language ∧
      stringField input "code" = .ok code ∧ imageForLanguage language = .ok image := by
  obtain ⟨language, hlanguage, hadmitted⟩ :=
    string_of_admitted h (.head _) (.tail _ (.head _)) (.tail _ (.tail _ (.head _)))
  obtain ⟨code, hcode, -⟩ :=
    string_of_admitted h (.tail _ (.head _)) (.head _) (.tail _ (.head _))
  have himage : ∃ image, imageForLanguage language = .ok image := by
    have hmem := mem_of_enum hadmitted (.tail _ (.head _))
    simp only [List.mem_cons, JsonOf.str.injEq, List.not_mem_nil, or_false] at hmem
    rcases hmem with rfl | rfl | rfl <;> exact ⟨_, rfl⟩
  obtain ⟨image, himage⟩ := himage
  exact ⟨language, code, image, hlanguage, hcode, himage⟩

end Reading

/-! ## What a tool returns -/

/-- Whatever went wrong, it was in the execution. -/
def Honest {α : Type} : Except ToolError α → Prop
  | .ok _ => True
  | .error e => ∃ msg, e = .executionFailed msg

/-- It gets to its first request, and fails honestly. -/
structure Serves {C : Type} {R : C → Type} (p : Prog C R ToolError Json) : Prop where
  begins : ∃ c, Prog.Pending p [] c
  honest : ∀ t res, Prog.Returns p t res → Honest res

/-- The ending of an honest program; it may as well have panicked. -/
def HonestEnd {α : Type} : Prog.Ending ToolError α → Prop
  | some res => Honest res
  | none => True

theorem serves_of_wp {C : Type} {R : C → Type} {c : C} {k : R c → Prog C R ToolError Json}
    (h : Prog.wp (fun _ _ => True) (fun _ e => HonestEnd e) (.call c k) []) :
    Serves (.call c k) :=
  ⟨⟨c, .here c k⟩, fun _ _ hr => Prog.wp_ends h hr.ends⟩

theorem MockTool.serves {input : Json} (h : accepts MockTool.inputSchema input = true) :
    Serves (MockTool.execute input) := by
  obtain ⟨message, hm⟩ := MockTool.reads h
  rw [MockTool.execute, hm]
  exact serves_of_wp ⟨trivial, fun _ => trivial⟩

theorem UrlFetch.serves {input : Json} (h : accepts UrlFetch.inputSchema input = true) :
    Serves (UrlFetch.execute input) := by
  obtain ⟨url, hu⟩ := UrlFetch.reads h
  rw [UrlFetch.execute, hu]
  refine serves_of_wp ⟨trivial, ?_⟩
  intro sent
  cases sent with
  | error e => exact ⟨_, rfl⟩
  | ok response =>
    change Prog.wp _ _ (readContent response) _
    unfold readContent
    split
    · exact ⟨_, rfl⟩
    · refine ⟨trivial, ?_⟩
      intro body
      cases body with
      | error e => exact ⟨_, rfl⟩
      | ok content => trivial

theorem WebSearch.honest_structuredResults (responseJson : Json) :
    Honest (structuredResults responseJson) := by
  unfold structuredResults
  split
  · trivial
  · exact ⟨_, rfl⟩

theorem WebSearch.serves {input : Json} (h : accepts WebSearch.inputSchema input = true) :
    Serves (WebSearch.execute input) := by
  obtain ⟨query, hq⟩ := query_of_accepts h
  rw [WebSearch.execute, hq]
  refine serves_of_wp ⟨trivial, ?_⟩
  intro apiKey
  cases apiKey with
  | none => exact ⟨_, rfl⟩
  | some apiKey =>
    refine ⟨trivial, ?_⟩
    intro sent
    cases sent with
    | error e => exact ⟨_, rfl⟩
    | ok response =>
      change Prog.wp _ _ (readResults response) _
      unfold readResults
      split
      · exact ⟨_, rfl⟩
      · refine ⟨trivial, ?_⟩
        intro body
        cases body with
        | error e => exact ⟨_, rfl⟩
        | ok responseJson =>
          change Prog.wp _ _ (Prog.ofExcept (structuredResults responseJson)) _
          have hhonest := honest_structuredResults responseJson
          cases hres : structuredResults responseJson with
          | error e =>
            rw [hres] at hhonest
            exact hhonest
          | ok results => trivial

namespace CodeExec

theorem honest_outcome (bufs : String × String) (code : Int) : Honest (outcome bufs code) := by
  unfold outcome
  split
  · exact ⟨_, rfl⟩
  · trivial

/-- What a run in a container comes to. -/
def Comes : Prog.Ending ToolError (Option (Except ToolError Json)) → Prop
  | some (.ok (some res)) => Honest res
  | some (.ok none) => True
  | some (.error _) | none => False

theorem comes_runContainerInner (id : String) (h : History Command.Answer) :
    Prog.wp (fun _ _ => True) (fun _ e => Comes e) (runContainerInner id) h := by
  unfold runContainerInner
  refine ⟨trivial, ?_⟩
  intro started
  rcases started with - | e | -
  · trivial
  · exact ⟨_, rfl⟩
  · refine ⟨trivial, ?_⟩
    intro logged
    cases logged with
    | none => trivial
    | some messages =>
      refine ⟨trivial, ?_⟩
      intro inspected
      rcases inspected with - | e | response
      · trivial
      · exact ⟨_, rfl⟩
      · exact honest_outcome _ _

theorem honest_runContainer (id : String) (timeoutSeconds : Int) (h : History Command.Answer) :
    Prog.wp (fun _ _ => True) (fun _ e => ∃ res, e = some (.ok res) ∧ Honest res)
      (runContainer id timeoutSeconds) h := by
  unfold runContainer
  refine Prog.wp_bind (Prog.wp_mono ?_ (comes_runContainerInner id h))
  rintro t (- | e | - | res) hcomes
  · cases hcomes
  · cases hcomes
  · exact ⟨_, rfl, _, rfl⟩
  · exact ⟨res, rfl, hcomes⟩

theorem serves {input : Json} (h : accepts inputSchema input = true) : Serves (execute input) := by
  obtain ⟨language, code, image, hlanguage, hcode, himage⟩ := reads h
  rw [execute, hlanguage, hcode]
  simp only [Prog.ofExcept_ok, Prog.ret_bind, himage]
  refine serves_of_wp ⟨trivial, ?_⟩
  intro connected
  cases connected with
  | error e => exact ⟨_, rfl⟩
  | ok _ =>
    refine ⟨trivial, ?_⟩
    intro uuid
    refine ⟨trivial, ?_⟩
    intro created
    cases created with
    | error e => exact ⟨_, rfl⟩
    | ok id =>
      change Prog.wp _ _ (runContainer id (timeoutSeconds input) >>= _) _
      refine Prog.wp_bind (Prog.wp_mono ?_ (honest_runContainer id (timeoutSeconds input) _))
      rintro t - ⟨res, rfl, hhonest⟩
      refine ⟨trivial, ?_⟩
      intro removed
      cases res with
      | error e => exact hhonest
      | ok output => trivial

end CodeExec

/-! ## Through the registry -/

inductive BuiltIn where
  | mockEcho
  | urlFetch
  | webSearch
  | codeExec

namespace BuiltIn

def tool : BuiltIn → Tool
  | .mockEcho => MockTool.mockTool
  | .urlFetch => UrlFetch.urlFetchTool
  | .webSearch => WebSearch.webSearchTool
  | .codeExec => CodeExec.codeExecTool

/-- `execute` gets past its own checks of the input. -/
def Begins (b : BuiltIn) (input : Json) : Prop :=
  match b with
  | .mockEcho => ∃ c, Prog.Pending (MockTool.execute input) [] c
  | .urlFetch => ∃ c, Prog.Pending (UrlFetch.execute input) [] c
  | .webSearch => ∃ c, Prog.Pending (WebSearch.execute input) [] c
  | .codeExec => ∃ c, Prog.Pending (CodeExec.execute input) [] c

/-- `execute` may return `res`. -/
def Yields (b : BuiltIn) (input : Json) (res : Except ToolError Json) : Prop :=
  match b with
  | .mockEcho => ∃ t, Prog.Returns (MockTool.execute input) t res
  | .urlFetch => ∃ t, Prog.Returns (UrlFetch.execute input) t res
  | .webSearch => ∃ t, Prog.Returns (WebSearch.execute input) t res
  | .codeExec => ∃ t, Prog.Returns (CodeExec.execute input) t res

variable {b : BuiltIn} {input : Json}

theorem begins (h : accepts b.tool.inputSchema input = true) : b.Begins input := by
  cases b with
  | mockEcho => exact (MockTool.serves h).begins
  | urlFetch => exact (UrlFetch.serves h).begins
  | webSearch => exact (WebSearch.serves h).begins
  | codeExec => exact (CodeExec.serves h).begins

theorem honest {res : Except ToolError Json} (h : accepts b.tool.inputSchema input = true)
    (hy : b.Yields input res) : Honest res := by
  cases b with
  | mockEcho =>
    obtain ⟨t, ht⟩ := hy
    exact (MockTool.serves h).honest t res ht
  | urlFetch =>
    obtain ⟨t, ht⟩ := hy
    exact (UrlFetch.serves h).honest t res ht
  | webSearch =>
    obtain ⟨t, ht⟩ := hy
    exact (WebSearch.serves h).honest t res ht
  | codeExec =>
    obtain ⟨t, ht⟩ := hy
    exact (CodeExec.serves h).honest t res ht

end BuiltIn

namespace ToolRegistry

variable {validatorFor : ValidatorFor} {r : ToolRegistry} {b : BuiltIn} {input : Json}
  {timeout : Nat} {h : History Command.Answer} {e : Prog.Ending ToolError Json}

/-- What the errors of a call to a built-in tool can be. -/
inductive Caused (name : String) (timeout : Nat) : ToolError → Prop
  | rejected : Caused name timeout (.circuitOpen name)
  | invalid (msg : String) : Caused name timeout (.invalidInput msg)
  | failed (msg : String) : Caused name timeout (.executionFailed msg)
  | timedOut : Caused name timeout (.timeout (timeout % 2 ^ 64))

theorem validateInput_error (hget : r.get b.tool.name = some b.tool) {e : ToolError}
    (he : validateInput validatorFor r b.tool.name input = .error e) :
    ∃ msg, e = .invalidInput msg := by
  rw [validateInput, hget] at he
  dsimp only [InputValidator.validate] at he
  split at he
  · exact ⟨_, (Except.error.inj he).symm⟩
  · split at he
    · cases he
    · exact ⟨_, (Except.error.inj he).symm⟩

theorem validateInput_iff (hconf : Conforms validatorFor b.tool.inputSchema)
    (hget : r.get b.tool.name = some b.tool) :
    validateInput validatorFor r b.tool.name input = .ok () ↔
      accepts b.tool.inputSchema input = true := by
  rw [validateInput, hget]
  exact hconf.validate_iff

/-- What an execution comes to, its timeout included. -/
theorem caused_of_flatten {name : String} {answer : Option (Except ToolError Json)} {e : ToolError}
    (hhonest : ∀ res ∈ answer, Honest res) (he : flatten timeout answer = .error e) :
    Caused name timeout e ∧ ∀ msg, e ≠ .invalidInput msg := by
  cases answer with
  | none =>
    cases he
    exact ⟨.timedOut, nofun⟩
  | some res =>
    obtain rfl : res = .error e := he
    obtain ⟨msg, rfl⟩ := hhonest _ rfl
    exact ⟨.failed msg, nofun⟩

theorem caused_of_ending [SerdeJson] (name : String) {answer : Option (Except ToolError Json)}
    {e : ToolError} (hhonest : ∀ res ∈ answer, Honest res)
    (he : ending (flatten timeout answer) = some (.error e)) :
    Caused name timeout e ∧ ∀ msg, e ≠ .invalidInput msg := by
  cases hf : flatten timeout answer with
  | ok output =>
    rw [hf] at he
    obtain ⟨_, -, hres⟩ := Option.map_eq_some_iff.mp he
    cases hres
  | error e' =>
    rw [hf] at he
    cases he
    exact caused_of_flatten hhonest hf

/-- **One cause of `InvalidInput`.** A call to a built-in tool returns it exactly if its input can be
rendered for the log, the breaker does not turn the call away and the schema of the tool rejects the
input. Whenever the tool is run, it gets past its own checks of the input, and what it fails with is an
`ExecutionFailed`. -/
theorem invalidInput_iff [SerdeJson] (hconf : Conforms validatorFor b.tool.inputSchema)
    (hget : r.get b.tool.name = some b.tool)
    (hends : Prog.Ends (r.executeWithTimeout validatorFor b.tool.name input timeout) h e)
    (hserved : ∀ answer, ⟨.execute b.tool.name input timeout, some answer⟩ ∈ h →
      b.Yields input answer) :
    ((∃ msg, e = some (.error (.invalidInput msg))) ↔ truncateJson input 500 ≠ none ∧
      ⟨.canExecute b.tool.name, false⟩ ∉ h ∧ accepts b.tool.inputSchema input = false) ∧
    ((∃ answer, ⟨.execute b.tool.name input timeout, answer⟩ ∈ h) → b.Begins input) ∧
    ∀ err, e = some (.error err) → Caused b.tool.name timeout err := by
  cases Prog.wp_ends (callSteps_wp validatorFor r b.tool.name input timeout) hends with
  | unrendered hpanics =>
    refine ⟨iff_of_false nofun fun hboth => hboth.1 hpanics, ?_, nofun⟩
    rintro ⟨answer, hmem⟩
    cases hmem
  | unregistered _ hnone =>
    have hkey := breaker_isSome r b.tool.name
    rw [hnone, hget] at hkey
    cases hkey
  | rejected =>
    refine ⟨iff_of_false nofun fun hboth => hboth.2.1 (.head _), ?_, ?_⟩
    · rintro ⟨answer, hmem⟩
      simp at hmem
    · rintro err ⟨⟩
      exact .rejected
  | invalid hrendered _ hfails =>
    obtain ⟨msg, rfl⟩ := validateInput_error hget hfails
    have hnot : accepts b.tool.inputSchema input = false := by
      rw [← Bool.not_eq_true, ← validateInput_iff hconf hget, hfails]
      nofun
    refine ⟨iff_of_true ⟨msg, rfl⟩ ⟨hrendered, by simp, hnot⟩, ?_, ?_⟩
    · rintro ⟨answer, hmem⟩
      simp at hmem
    · rintro err ⟨⟩
      exact .invalid msg
  | @executed _ answer _ _ hvalid =>
    have haccepts := (validateInput_iff hconf hget).mp hvalid
    have hhonest : ∀ res ∈ answer, Honest res := by
      rintro res rfl
      exact BuiltIn.honest haccepts (hserved res (by simp))
    refine ⟨iff_of_false ?_ ?_, fun _ => BuiltIn.begins haccepts,
      fun err herr => (caused_of_ending _ hhonest herr).1⟩
    · rintro ⟨msg, hmsg⟩
      exact (caused_of_ending b.tool.name hhonest hmsg).2 msg rfl
    · rintro ⟨-, -, hnot⟩
      rw [haccepts] at hnot
      cases hnot

/-! A program in a language that has no image. -/

def ruby : Json := .obj [("code", .str "puts 1"), ("language", .str "ruby")]

/-- Nothing is rejected, and nothing is run in time. -/
def admitting : History Command.Answer → (c : Command) → c.Answer
  | _, .canExecute _ => true
  | _, .execute _ _ _ => none
  | _, .recordSuccess _ | _, .recordFailure _ => ()

attribute [local instance] SerdeJson.plain

def rubyTrace : History Command.Answer :=
  ((CodeExec.sandboxed.executeWithTimeout byKeywords "code_exec" ruby 60000).exec admitting []).1

theorem invalidInput_iff_ruby :
    truncateJson ruby 500 ≠ none ∧ accepts CodeExec.inputSchema ruby = false := by
  have hres : ((CodeExec.sandboxed.executeWithTimeout byKeywords "code_exec" ruby 60000).exec
      admitting []).2 = some (.error (.invalidInput
        "Input validation failed: the value does not satisfy its schema")) := by decide +kernel
  have hserved : ∀ answer, ⟨.execute "code_exec" ruby 60000, some answer⟩ ∈ rubyTrace →
      BuiltIn.codeExec.Yields ruby answer := by
    intro answer hmem
    rcases Prog.exec_answers hmem with hnil | ⟨t, ht⟩
    · cases hnil
    · cases ht
  have hcause := (invalidInput_iff (b := .codeExec) (conforms_byKeywords _) rfl
    (Prog.exec_returns hres).ends hserved).1.mp ⟨_, rfl⟩
  exact ⟨hcause.1, hcause.2.2⟩

end ToolRegistry

end Xola
