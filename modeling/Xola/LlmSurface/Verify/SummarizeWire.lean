import Xola.LlmSurface.Summarize
import Xola.Planning.Executor

/-!
# The wire format of `/summarize`

The runtime writes the token count of every message as a JSON integer; the server declares its
messages as `list[dict[str, str]]`, in which every value is a string. The model's docstring shows
the runtime's format and says that the token count is accepted and ignored; its types reject it.
-/

namespace Xola.LlmSurface

open PlanExecutor

/-- The server accepts the body that the runtime sends for the buffer, and reads the same roles and
contents in the same order. -/
def WireAgrees (c : Pydantic.Coercions String) (stm : ShortTermMemory) : Prop :=
  ∃ request,
    SummarizeRequest.modelValidate c (summarizeRequest stm).toJson = some request ∧
    request.messages.map (fun m => (m.lookup "role", m.lookup "content")) =
      stm.messages.map fun m => (some m.role.toString, some m.content)

/-- A message with an integer in it is no `dict[str, str]`. -/
theorem dict_summarizeMessage (m : Message) :
    Pydantic.dict Pydantic.str (summarizeMessage m) = none := rfl

theorem modelValidate_summarizeRequest (c : Pydantic.Coercions String) {stm : ShortTermMemory}
    (h : stm.messages ≠ []) :
    SummarizeRequest.modelValidate c (summarizeRequest stm).toJson = none := by
  obtain ⟨m, ms, hm⟩ := List.exists_cons_of_ne_nil h
  have hmessages : Pydantic.list (Pydantic.dict Pydantic.str)
      (.arr (stm.messages.map summarizeMessage)) = none := by
    simp only [hm, List.map_cons, Pydantic.list, List.mapM_cons, dict_summarizeMessage]
    rfl
  have hget : (summarizeRequest stm).toJson.get "messages" =
      some (.arr (stm.messages.map summarizeMessage)) := rfl
  rw [SummarizeRequest.modelValidate, hget, Pydantic.field, hmessages]
  rfl

/-- **No buffer can be summarised.** Whatever a non-empty buffer holds, the server rejects the body
that the runtime sends for it. -/
theorem not_wireAgrees (c : Pydantic.Coercions String) {stm : ShortTermMemory}
    (h : stm.messages ≠ []) : ¬WireAgrees c stm := by
  intro hagrees
  obtain ⟨request, hv, -⟩ := hagrees
  rw [modelValidate_summarizeRequest c h] at hv
  cases hv

/-- Decimal strings are integers; the rest is not needed. -/
def decimals : Pydantic.Coercions String where
  strAsInt := String.toInt?
  strAsFloat _ := none
  strAsBool _ := none
  intAsFloat _ := none
  floatAsInt _ := none
  floatAsInt_eq := nofun

/-- The buffer of a task that has only its goal. -/
def goalBuffer : ShortTermMemory := ⟨[⟨.user, "Find the release date", 5⟩], 5, 8000⟩

theorem not_wireAgrees_goalBuffer : ¬WireAgrees decimals goalBuffer :=
  not_wireAgrees decimals (by decide)

theorem goalBuffer_rejected :
    SummarizeRequest.modelValidate decimals (summarizeRequest goalBuffer).toJson = none ∧
      ¬WireAgrees decimals goalBuffer := by
  have hv : SummarizeRequest.modelValidate decimals (summarizeRequest goalBuffer).toJson =
      none := modelValidate_summarizeRequest _ (by decide)
  refine ⟨hv, ?_⟩
  intro hagrees
  obtain ⟨request, hr, -⟩ := hagrees
  rw [hv] at hr
  cases hr

end Xola.LlmSurface
