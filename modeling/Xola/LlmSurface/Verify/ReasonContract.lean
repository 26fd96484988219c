import Mathlib.Logic.Basic
import Mathlib.Tactic.MkIffOfInductiveProp
import Xola.LlmSurface.Verify.Wire
import Xola.Planning.Verify.LoopGuard

/-!
# The contract of `/reason`

The IPC contract knows two bodies: a final one with an answer, and one with an action and its input.
`reason_step` takes the arguments of the model's first tool call for a JSON object with a string
`answer`, and the texts of a reply are taken for such as UTF-8 can encode. They are whatever the model
has written: `WellFormed` says which replies are honoured.
-/

namespace Xola.LlmSurface

open Interaction

/-! ## The contract -/

@[mk_iff]
structure FinalBody (body : PyValue) : Prop where
  isFinal : body.get "is_final" = some (.bool true)
  action : body.get "action" = some .null
  actionInput : body.get "action_input" = some (.obj [])
  finalAnswer : ∃ answer, body.get "final_answer" = some (.str answer)

@[mk_iff]
structure ActionBody (body : PyValue) : Prop where
  isFinal : body.get "is_final" = some (.bool false)
  action : ∃ action, action ≠ [] ∧ body.get "action" = some (.str action)
  actionInput : ∃ fields, body.get "action_input" = some (.obj fields)
  finalAnswer : body.get "final_answer" = some .null

/-- A 422, a 502, or a body of exactly one of the two kinds. -/
def Honours : HttpResponse → Prop
  | .ok body => Xor (FinalBody body) (ActionBody body)
  | .error status _ => status = 422 ∨ status = 502
  | .unhandled => False

/-! ## Bodies -/

@[simp] theorem optionValue_eq_null {o : Option PyStr} : optionValue o = .null ↔ o = none := by
  cases o <;> simp [optionValue]

@[simp] theorem optionValue_eq_str {o : Option PyStr} {s : PyStr} :
    optionValue o = .str s ↔ o = some s := by
  cases o <;> simp [optionValue]

section Bodies

variable {b : ReasonBody} {body : PyValue} {loads : PyStr → Except LoadsError PyValue} {wire : Wire}
  {reply : Reply} {response : ReasonResponse}

theorem finalBody_toDict_iff : FinalBody b.toDict ↔
    b.isFinal = true ∧ b.action = none ∧ b.actionInput = [] ∧ b.finalAnswer ≠ none := by
  simp [finalBody_iff, ReasonBody.toDict, JsonOf.get, List.lookup_cons,
    Option.ne_none_iff_exists']

theorem actionBody_toDict_iff : ActionBody b.toDict ↔
    b.isFinal = false ∧ (∃ action, action ≠ [] ∧ b.action = some action) ∧
      b.finalAnswer = none := by
  simp [actionBody_iff, ReasonBody.toDict, JsonOf.get, List.lookup_cons]

theorem not_actionBody_of_final (h : FinalBody body) : ¬ActionBody body := by
  intro h'
  have := h.isFinal.symm.trans h'.isFinal
  cases this

/-- The two kinds exclude each other. -/
theorem honours_ok_iff : Honours (.ok body) ↔ FinalBody body ∨ ActionBody body := by
  constructor
  · exact Xor.or
  · rintro (h | h)
    · exact .inl ⟨h, not_actionBody_of_final h⟩
    · exact .inr ⟨h, fun hf => not_actionBody_of_final hf h⟩

/-- The exceptions of the handler, unless their text cannot be encoded. -/
theorem honours_httpException {status : Nat} {detail : PyStr} (hs : status = 422 ∨ status = 502) :
    Honours (httpException status detail) ↔ detail.encodable = true := by
  unfold httpException PyStr.encodable
  cases detail.encode? with
  | none => exact iff_of_false id Bool.false_ne_true
  | some text => exact iff_of_true hs rfl

theorem respond_eq {result : ReasonResult} (hb : ReasonBody.validate result = some b) :
    respond wire result = if b.renders wire then .ok b.toDict else .unhandled := by
  rw [respond, hb]

/-- A response that the runtime can use is one that the handler built. -/
theorem ipcAnswer_respond {result : ReasonResult}
    (h : ipcAnswer wire (respond wire result) = .ok response) :
    ∃ b, ReasonBody.validate result = some b ∧ respond wire result = .ok b.toDict ∧
      Received b response := by
  cases hb : ReasonBody.validate result with
  | none =>
    rw [respond, hb] at h
    cases h
  | some b =>
    have hrespond : respond wire result = _ := respond_eq hb
    by_cases hr : b.renders wire = true
    · rw [if_pos hr] at hrespond
      rw [hrespond] at h
      exact ⟨b, rfl, hrespond, received_of_ipcAnswer h⟩
    · rw [hrespond, if_neg hr] at h
      cases h

theorem ipcAnswer_reason (h : ipcAnswer wire (reason loads wire reply) = .ok response) :
    ∃ result, reasonStep loads reply = .ok result ∧
      ipcAnswer wire (respond wire result) = .ok response := by
  unfold reason at h
  split at h
  · next msg _ =>
    unfold httpException at h
    split at h <;> cases h
  · next msg _ =>
    unfold httpException at h
    split at h <;> cases h
  · cases h
  · next result hstep => exact ⟨result, hstep, h⟩

/-- The runtime reads an honoured body as a final answer or as a call. -/
theorem actionable_of_honours (h : Honours (reason loads wire reply))
    (hr : ipcAnswer wire (reason loads wire reply) = .ok response) :
    (response.isFinal = true ∧ response.finalAnswer ≠ none) ∨
      (response.isFinal = false ∧ response.action.getD "" ≠ "") := by
  obtain ⟨result, hstep, hresponse⟩ := ipcAnswer_reason hr
  obtain ⟨b, -, hok, hreceived⟩ := ipcAnswer_respond hresponse
  simp only [reason, hstep, hok] at h
  rcases honours_ok_iff.1 h with hf | ha
  · obtain ⟨hfinal, -, -, hanswer⟩ := finalBody_toDict_iff.1 hf
    refine .inl ⟨hreceived.isFinal ▸ hfinal, ?_⟩
    intro hnone
    rw [hreceived.finalAnswer, hnone] at hanswer
    exact hanswer rfl
  · obtain ⟨hfinal, ⟨action, hne, haction⟩, -⟩ := actionBody_toDict_iff.1 ha
    refine .inr ⟨hreceived.isFinal ▸ hfinal, ?_⟩
    rw [hreceived.action] at haction
    obtain ⟨name, hname, rfl⟩ := Option.map_eq_some_iff.1 haction
    rw [hname, Option.getD_some]
    rintro rfl
    exact hne rfl

end Bodies

/-! ## Replies -/

section Replies

variable (loads : PyStr → Except LoadsError PyValue) (wire : Wire)

/-- `reason_step` can use `arguments` in a call of `name`. -/
def Usable (name : PyStr) (arguments : PyValue) : Prop :=
  ∃ fields, arguments = .obj fields ∧
    if name = ("final_answer" : PyStr) then
      ∀ answer, fields.lookup ("answer" : PyStr) = some answer →
        ∃ s, answer = .str s ∧ s.encodable = true
    else name ≠ [] ∧ name.encodable = true ∧ wire.renders arguments = true

/-- The argument string is malformed, and reported as such, or it can be used. -/
def WellFormedCall (thought name arguments : PyStr) : Prop :=
  if arguments = [] then thought.encodable = true ∧ Usable wire name (.obj [])
  else
    match loads arguments with
    -- the report has the name in it
    | .error (.jsonDecodeError _) => name.encodable = true
    | .error (.valueError _) => True
    | .error (.recursionError _) => False
    | .ok v => thought.encodable = true ∧ Usable wire name v

/-- The first tool call of the reply, if it has one, is well formed, and the texts that go into the
answer can be encoded. -/
def WellFormed : Reply → Prop
  | .ok ⟨content, .function name arguments :: _⟩ =>
    WellFormedCall loads wire (strip (content.getD [])) name arguments
  | .ok ⟨_, .custom _ :: _⟩ => True
  | .ok ⟨content, []⟩ => (strip (content.getD [])).encodable = true
  | .error msg => msg.encodable = true

variable {loads wire}

/-- A final answer has to be a string. -/
theorem honours_respond_final {thought : PyStr} {answer : PyValue} :
    Honours (respond wire ⟨thought, none, .obj [], true, answer⟩) ↔
      thought.encodable = true ∧ ∃ s, answer = .str s ∧ s.encodable = true := by
  cases answer with
  | str s =>
    rw [respond_eq (b := ⟨thought, none, [], true, some s⟩) rfl]
    by_cases hr : thought.encodable = true ∧ s.encodable = true
    · rw [if_pos (by simp [ReasonBody.renders, hr, wire.renders_empty])]
      refine iff_of_true ?_ ⟨hr.1, s, rfl, hr.2⟩
      exact honours_ok_iff.2 (.inl (finalBody_toDict_iff.2 ⟨rfl, rfl, rfl, nofun⟩))
    · rw [if_neg (by simpa [ReasonBody.renders, wire.renders_empty] using hr)]
      refine iff_of_false id ?_
      rintro ⟨ht, s', hs, hs'⟩
      cases hs
      exact hr ⟨ht, hs'⟩
  | null =>
    rw [respond_eq (b := ⟨thought, none, [], true, none⟩) rfl]
    refine iff_of_false ?_ nofun
    split
    · simp [honours_ok_iff, finalBody_toDict_iff, actionBody_toDict_iff]
    · exact id
  | _ => exact iff_of_false id nofun

/-- The call of a tool needs a name, and an object that can be rendered. -/
theorem honours_respond_action {thought name : PyStr} {arguments : PyValue} :
    Honours (respond wire ⟨thought, some name, arguments, false, .null⟩) ↔
      thought.encodable = true ∧ ∃ fields, arguments = .obj fields ∧ name ≠ [] ∧
        name.encodable = true ∧ wire.renders arguments = true := by
  cases arguments with
  | obj fields =>
    rw [respond_eq (b := ⟨thought, some name, fields, false, none⟩) rfl]
    by_cases hr : ReasonBody.renders wire ⟨thought, some name, fields, false, none⟩ = true
    · rw [if_pos hr, honours_ok_iff]
      simp only [ReasonBody.renders, Option.all_some, Option.all_none, Bool.and_true,
        Bool.and_eq_true] at hr
      obtain ⟨⟨ht, hn⟩, hi⟩ := hr
      simp [finalBody_toDict_iff, actionBody_toDict_iff, ht, hn, hi]
    · rw [if_neg hr]
      refine iff_of_false id ?_
      rintro ⟨ht, _, hfields, -, hn, hi⟩
      cases hfields
      exact hr (by simp [ReasonBody.renders, ht, hn, hi])
  | _ => exact iff_of_false id nofun

section Calls

variable {content : Option PyStr} {name arguments : PyStr} {rest : List ToolCall}

theorem reasonStep_blank (hthought : strip (content.getD []) = []) :
    reasonStep loads (.ok ⟨content, []⟩) = .error (.valueError emptyResponse) :=
  if_neg (not_not_intro hthought)

theorem reasonStep_text (hthought : strip (content.getD []) ≠ []) :
    reasonStep loads (.ok ⟨content, []⟩) =
      .ok ⟨strip (content.getD []), none, .obj [], true, .str (strip (content.getD []))⟩ :=
  if_pos hthought

theorem reasonStep_raises {e : Raised} (hv : parseArguments loads name arguments = .error e) :
    reasonStep loads (.ok ⟨content, .function name arguments :: rest⟩) = .error e := by
  simp only [reasonStep, hv]
  rfl

theorem reasonStep_call {v : PyValue} (hv : parseArguments loads name arguments = .ok v) :
    reasonStep loads (.ok ⟨content, .function name arguments :: rest⟩) =
      if name = ("final_answer" : PyStr) then
        (getAnswer v).map fun answer => ⟨strip (content.getD []), none, .obj [], true, answer⟩
      else .ok ⟨strip (content.getD []), some name, v, false, .null⟩ := by
  simp only [reasonStep, hv]
  rfl

/-- A tool call whose arguments have been decoded. -/
theorem honours_call {v : PyValue} (hv : parseArguments loads name arguments = .ok v) :
    Honours (reason loads wire (.ok ⟨content, .function name arguments :: rest⟩)) ↔
      (strip (content.getD [])).encodable = true ∧ Usable wire name v := by
  rw [reason, reasonStep_call hv]
  by_cases hname : name = ("final_answer" : PyStr)
  · simp only [Usable, if_pos hname]
    cases v with
    | obj fields =>
      apply honours_respond_final.trans
      cases hans : fields.lookup ("answer" : PyStr) with
      | none => simp [hans, PyStr.encodable, PyStr.encode?]
      | some answer => simp [hans]
    | null | bool | int | float | str | arr =>
      refine iff_of_false id ?_
      rintro ⟨-, _, hobj, -⟩
      cases hobj
  · simp only [Usable, if_neg hname]
    exact honours_respond_action

theorem honours_function :
    Honours (reason loads wire (.ok ⟨content, .function name arguments :: rest⟩)) ↔
      WellFormedCall loads wire (strip (content.getD [])) name arguments := by
  unfold WellFormedCall
  split
  · next hempty => exact honours_call (if_pos hempty)
  next hempty =>
  have hparse : parseArguments loads name arguments = _ := if_neg hempty
  cases hloads : loads arguments with
  | ok v =>
    rw [hloads] at hparse
    exact honours_call hparse
  | error e =>
    rw [hloads] at hparse
    rw [reason]
    cases e with
    | jsonDecodeError msg =>
      rw [reasonStep_raises hparse]
      simp [honours_httpException]
    | valueError msg =>
      rw [reasonStep_raises hparse]
      simp [honours_httpException]
    | recursionError =>
      rw [reasonStep_raises hparse]
      exact iff_of_false id id

end Calls

/-- **When a reply is answered within the contract.** -/
theorem honours_iff (reply : Reply) :
    Honours (reason loads wire reply) ↔ WellFormed loads wire reply := by
  cases reply with
  | error msg => simp [reason, reasonStep, honours_httpException, WellFormed]
  | ok message =>
    obtain ⟨content, calls⟩ := message
    cases calls with
    | nil =>
      by_cases hthought : strip (content.getD []) = []
      · rw [reason, reasonStep_blank hthought, WellFormed, hthought]
        exact (honours_httpException (.inl rfl)).trans (iff_of_true (by simp) rfl)
      · rw [reason, reasonStep_text hthought]
        exact honours_respond_final.trans ⟨fun h => h.1, fun h => ⟨h, _, rfl, h⟩⟩
    | cons call rest =>
      cases call with
      | function name arguments => exact honours_function
      | custom typeText => simp [reason, reasonStep, honours_httpException, WellFormed]

end Replies

/-! ## Runs -/

section Runs

open PlanExecutor

/-- Every `/reason` response of the run is the server's to a well-formed reply. -/
def ServedBy (loads : PyStr → Except LoadsError PyValue) (wire : Wire) (h : Trace) : Prop :=
  ∀ request response, (⟨.reason request, .ok response⟩ : Event) ∈ h →
    ∃ reply, WellFormed loads wire reply ∧ ipcAnswer wire (reason loads wire reply) = .ok response

/-- **The contract of `/reason`.** A reply is answered within the contract exactly if it is well
formed. In every run that is served such replies, each response is a final answer or a call, an IPC
error is one that a call was answered with, and a task that succeeds has a final answer. -/
theorem reason_contract [SerdeJson] (loads : PyStr → Except LoadsError PyValue) (wire : Wire) :
    (∀ reply, Honours (reason loads wire reply) ↔ WellFormed loads wire reply) ∧
    ∀ hs ex goal h cut res, Executes hs ex goal h cut res → ServedBy loads wire h →
      (∀ request response, (⟨.reason request, .ok response⟩ : Event) ∈ h →
        (response.isFinal = true ∧ response.finalAnswer ≠ none) ∨
          (response.isFinal = false ∧ response.action.getD "" ≠ "")) ∧
      (∀ e, res = .error (.ipc e) →
        (∃ request, (⟨.reason request, .error e⟩ : Event) ∈ h) ∨
          ∃ request, (⟨.summarize request, .error e⟩ : Event) ∈ h) ∧
      ∀ r, res = .ok r → r.finalAnswer ≠ none := by
  refine ⟨honours_iff, ?_⟩
  intro hs ex goal h cut res hr hserved
  have hresponse : ∀ request response, (⟨.reason request, .ok response⟩ : Event) ∈ h →
      (response.isFinal = true ∧ response.finalAnswer ≠ none) ∨
        (response.isFinal = false ∧ response.action.getD "" ≠ "") := by
    intro request response hmem
    obtain ⟨reply, hwf, hanswer⟩ := hserved request response hmem
    exact actionable_of_honours ((honours_iff reply).2 hwf) hanswer
  cases hr with
  | deadline _ _ | unpolled _ => exact ⟨hresponse, nofun, nofun⟩
  | finished hr =>
    refine ⟨hresponse, ?_, ?_⟩
    · intro e he
      rw [he] at hr
      cases exit_of_returns hr with
      | ipc _ _ hcause =>
        cases hcause with
        | reason hmem => exact .inl ⟨_, hmem⟩
        | summarize hmem => exact .inr ⟨_, hmem⟩
        | empty hmem hfin hact =>
          rcases hresponse _ _ hmem with ⟨hfin', -⟩ | ⟨-, hact'⟩
          · rw [hfin] at hfin'
            cases hfin'
          · exact absurd hact hact'
    · intro r hres
      rw [hres] at hr
      cases exit_of_returns hr with
      | final _ _ _ _ _ hans =>
        obtain ⟨request, response, hmem, hfin, rfl⟩ := hans
        rcases hresponse _ _ hmem with ⟨-, hne⟩ | ⟨hfin', -⟩
        · exact hne
        · rw [hfin] at hfin'
          cases hfin'

/-! A model that calls a tool and then answers in plain text. -/

/-- `json.loads` on the texts below. -/
def sampleLoads (text : PyStr) : Except LoadsError PyValue :=
  if text = ("\x7b\x7d" : PyStr) then .ok (.obj [])
  else if text = ("[1]" : PyStr) then .ok (.arr [.int 1])
  else if text = ("\x7b\"answer\": null\x7d" : PyStr) then .ok (.obj [("answer", .null)])
  else if text = ("\x7b\"answer\": \"\\ud83d\"\x7d" : PyStr) then
    .ok (.obj [("answer", .str [.surrogate 61])])
  else .error (.jsonDecodeError "Expecting value: line 1 column 1 (char 0)")

def searching : Reply := .ok ⟨some "look it up", [.function "search" "\x7b\x7d"]⟩

def concluding : Reply := .ok ⟨some " done ", []⟩

theorem wellFormed_searching : WellFormed sampleLoads .plain searching :=
  ⟨rfl, [], rfl, by decide, rfl, rfl⟩

theorem wellFormed_concluding : WellFormed sampleLoads .plain concluding := by
  simp only [WellFormed, concluding]
  decide

section Example

attribute [local instance] SerdeJson.plain

def served : Trace → (c : Command) → c.Answer
  | _, .iteration _ => ()
  | _, .pushed _ _ => ()
  | h, .reason _ =>
    ipcAnswer .plain (reason sampleLoads .plain (if failed h = 0 then searching else concluding))
  | _, .summarize _ => .error (.transport "connection refused")
  | _, .executeWithTimeout action _ _ => .error (.notFound action)
  | _, .elapsed => 7
  | _, .insert _ => .ok ()

def servedResult : TaskResult where
  outcome := .success
  finalAnswer := some "done"
  steps := [.failure "search" (.obj []) "Tool 'search' not found in registry"]
  durationMs := 7
  iterations := 1
  totalReplans := 1

theorem reason_contract_served :
    Honours (reason sampleLoads .plain searching) ∧ servedResult.finalAnswer ≠ none := by
  have hres : ((raced sameHash noTools "find").exec served []).2 = some (.ok servedResult) := by
    decide +kernel
  have hc := reason_contract sampleLoads .plain
  refine ⟨(hc.1 searching).2 wellFormed_searching, ?_⟩
  refine (hc.2 _ _ _ _ _ _ (.finished (Prog.exec_returns hres)) ?_).2.2 servedResult rfl
  intro request response hmem
  rcases Prog.exec_answers hmem with hnil | ⟨t, ht⟩
  · cases hnil
  · refine ⟨if failed t = 0 then searching else concluding, ?_, ?_⟩
    · split
      · exact wellFormed_searching
      · exact wellFormed_concluding
    · injection ht with _ ht
      exact ht.symm

end Example

/-- Arguments that are JSON but no object are a 500, and a `null` answer is passed on; half of a
surrogate pair cannot be encoded. -/
theorem finalAnswer_not_honoured :
    ¬Honours (reason sampleLoads .plain (.ok ⟨none, [.function "final_answer" "[1]"]⟩)) ∧
    ¬Honours (reason sampleLoads .plain
      (.ok ⟨none, [.function "final_answer" "\x7b\"answer\": null\x7d"]⟩)) ∧
    ¬Honours (reason sampleLoads .plain
      (.ok ⟨none, [.function "final_answer" "\x7b\"answer\": \"\\ud83d\"\x7d"]⟩)) := by
  refine ⟨?_, ?_, ?_⟩ <;> rw [honours_iff]
  · rintro ⟨-, fields, hfields, -⟩
    cases hfields
  · rintro ⟨-, fields, hfields, hanswer⟩
    cases hfields
    obtain ⟨s, hs, -⟩ := hanswer .null rfl
    cases hs
  · rintro ⟨-, fields, hfields, hanswer⟩
    cases hfields
    obtain ⟨s, hs, hencodable⟩ := hanswer (.str [.surrogate 61]) rfl
    cases hs
    cases hencodable

end Runs

end Xola.LlmSurface
