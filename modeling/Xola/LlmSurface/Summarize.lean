import Xola.LlmSurface.Pydantic

/-!
# `POST /summarize`

The request model of `llm_surface/server.py`.
-/

namespace Xola.LlmSurface

/-- `SUMMARIZE_MODEL`. -/
def summarizeModel : String := "gpt-4o-mini"

/-- `SUMMARY_MAX_TOKENS`. -/
def summaryMaxTokens : Int := 512

structure SummarizeRequest where
  messages : List (List (String × String))
  model : String
  maxSummaryTokens : Int

/-- `SummarizeRequest.model_validate` on a request body. -/
def SummarizeRequest.modelValidate (c : Pydantic.Coercions String) (body : Json) :
    Option SummarizeRequest := do
  let messages ← Pydantic.field none (Pydantic.list (Pydantic.dict Pydantic.str))
    (body.get "messages")
  guard (1 ≤ messages.length)
  let model ← Pydantic.field (some summarizeModel) Pydantic.str (body.get "model")
  let maxSummaryTokens ← Pydantic.field (some summaryMaxTokens) (Pydantic.int c)
    (body.get "max_summary_tokens")
  guard (1 ≤ maxSummaryTokens)
  return ⟨messages, model, maxSummaryTokens⟩

end Xola.LlmSurface
