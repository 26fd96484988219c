import Xola.Ipc.Types
import Xola.LlmSurface.Pydantic
import Xola.LlmSurface.React

/-!
# `POST /reason`

The response model and the handler of `llm_surface/server.py`, and what the runtime's IPC client makes
of a response. The web framework that renders responses and the JSON reader of the client are not part
of the repository; `Wire` has what the two are relied on for. A response is encoded as UTF-8, so a
string with a surrogate in it is an error outside every `try`.
-/

namespace Xola.LlmSurface

/-- The response model `ReasonResponse`. -/
structure ReasonBody where
  thought : PyStr
  action : Option PyStr
  actionInput : List (PyStr × PyValue)
  isFinal : Bool
  finalAnswer : Option PyStr

/-- `ReasonResponse(**result)`; the three other fields always have their declared types. -/
def ReasonBody.validate (result : ReasonResult) : Option ReasonBody := do
  let actionInput ← Pydantic.dictAny result.actionInput
  let finalAnswer ← Pydantic.nullable Pydantic.str result.finalAnswer
  return ⟨result.thought, result.action, actionInput, result.isFinal, finalAnswer⟩

/-- A `str | None` in a response body. -/
def optionValue : Option PyStr → PyValue
  | none => .null
  | some s => .str s

def ReasonBody.toDict (b : ReasonBody) : PyValue :=
  .obj [("thought", .str b.thought), ("action", optionValue b.action),
    ("action_input", .obj b.actionInput), ("is_final", .bool b.isFinal),
    ("final_answer", optionValue b.finalAnswer)]

structure Wire where
  /-- Whether the framework renders a value of `action_input`. -/
  renders : PyValue → Bool
  renders_empty : renders (.obj []) = true
  /-- The body of an error response. -/
  detailText : String → String
  /-- What the client reads of a rendered body, if it can. -/
  read : PyValue → Option Json
  read_arrives : ∀ v j, read v = some j → Arrives v j

/-- Whether the framework renders the body. -/
def ReasonBody.renders (wire : Wire) (b : ReasonBody) : Bool :=
  b.thought.encodable && b.action.all PyStr.encodable && wire.renders (.obj b.actionInput) &&
    b.finalAnswer.all PyStr.encodable

/-- An answer of the server: a body with status 200, an `HTTPException`, or an exception that no
handler catches, which is a 500. -/
inductive HttpResponse where
  | ok (body : PyValue)
  | error (status : Nat) (detail : String)
  | unhandled

/-- `return ReasonResponse(**result)`, outside the `try`: a `ValidationError` is not handled. -/
def respond (wire : Wire) (result : ReasonResult) : HttpResponse :=
  match ReasonBody.validate result with
  | none => .unhandled
  | some body => if body.renders wire then .ok body.toDict else .unhandled

/-- `raise HTTPException(status_code=…, detail=…)`; the detail is rendered, too. -/
def httpException (status : Nat) (detail : PyStr) : HttpResponse :=
  match detail.encode? with
  | some text => .error status text
  | none => .unhandled

def reason (loads : PyStr → Except LoadsError PyValue) (wire : Wire) (reply : Reply) :
    HttpResponse :=
  match reasonStep loads reply with
  | .error (.valueError msg) => httpException 422 msg
  | .error (.apiError msg) => httpException 502 ("OpenAI API error: " ++ msg)
  | .error (.other _) => .unhandled
  | .ok result => respond wire result

/-- `IpcClient::post` on the response. -/
def ipcAnswer (wire : Wire) : HttpResponse → Except IpcError ReasonResponse
  | .ok body =>
    match (wire.read body).bind ReasonResponse.ofJson with
    | some response => .ok response
    | none => .error (.deserialisation "error decoding response body")
  | .error status detail => .error (.serverError status (wire.detailText detail))
  | .unhandled => .error (.serverError 500 "Internal Server Error")

end Xola.LlmSurface
