import Xola.LlmSurface.Chat
import Xola.LlmSurface.Reason
import Xola.LlmSurface.Summarize
import Xola.Planning.Trace

/-!
# The server as the environment of a run

What the runtime's IPC client can get from the server of this repository. A body that its models
reject is a 422 whose text is left open, and a connection can be lost. The model of the language model
is a reply to each call; nothing is said about the replies.
-/

namespace Xola.LlmSurface

open Interaction PlanExecutor

/-- What the server depends on. -/
structure Setup where
  loads : PyStr → Except LoadsError PyValue
  wire : Wire
  reasonModelEnv : Option String
  coercions : Pydantic.Coercions String

namespace Setup

variable (setup : Setup)

/-- `POST /reason`. -/
inductive ReasonAnswer (request : Xola.ReasonRequest) : Except IpcError ReasonResponse → Prop
  | lost (msg : String) : ReasonAnswer request (.error (.transport msg))
  | rejected (detail : String)
      (invalid : completionSent setup.reasonModelEnv request.toJson = none) :
    ReasonAnswer request (.error (.serverError 422 detail))
  | replied (reply : Reply)
      (sent : completionSent setup.reasonModelEnv request.toJson ≠ none) :
    ReasonAnswer request (ipcAnswer setup.wire (reason setup.loads setup.wire reply))

/-- `POST /summarize`; what it does with a body that it accepts is left open. -/
inductive SummarizeAnswer (request : Xola.SummarizeRequest) :
    Except IpcError SummarizeResponse → Prop
  | lost (msg : String) : SummarizeAnswer request (.error (.transport msg))
  | rejected (detail : String)
      (invalid : SummarizeRequest.modelValidate setup.coercions request.toJson = none) :
    SummarizeAnswer request (.error (.serverError 422 detail))
  | accepted (answer : Except IpcError SummarizeResponse)
      (valid : SummarizeRequest.modelValidate setup.coercions request.toJson ≠ none) :
    SummarizeAnswer request answer

/-- The answers to the run's requests for a step are the server's. -/
def ServesReason (h : Trace) : Prop :=
  ∀ request answer, (⟨.reason request, answer⟩ : Event) ∈ h → setup.ReasonAnswer request answer

/-- The answers to the run's requests for a summary are the server's. -/
def ServesSummarize (h : Trace) : Prop :=
  ∀ request answer, (⟨.summarize request, answer⟩ : Event) ∈ h →
    setup.SummarizeAnswer request answer

end Setup

end Xola.LlmSurface
