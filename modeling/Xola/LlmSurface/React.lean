import Mathlib.Data.List.DropRight
import Xola.LlmSurface.Python

/-!
# A reasoning step

`llm_surface/react.py`: what `reason_step` makes of the model's reply. `json.loads` is the parameter
`loads`; besides `JSONDecodeError` it raises other `ValueError`s (integers with too many digits) and
`RecursionError` (deep nesting), with texts in ASCII. The prompt that is sent is left out here
(`Chat.lean`).
-/

namespace Xola.LlmSurface

/-- `str.isspace` of a one-character string. -/
def isSpace : PyChar → Bool
  | .scalar c =>
    (9 ≤ c.toNat && c.toNat ≤ 13) || (28 ≤ c.toNat && c.toNat ≤ 32) ||
      (0x2000 ≤ c.toNat && c.toNat ≤ 0x200a) ||
      [0x85, 0xa0, 0x1680, 0x2028, 0x2029, 0x202f, 0x205f, 0x3000].contains c.toNat
  | .surrogate _ => false

/-- `str.strip()`. -/
def strip (s : PyStr) : PyStr := (s.dropWhile isSpace).rdropWhile isSpace

inductive ToolCall where
  | function (name arguments : PyStr)
  /-- A call without a `function`, with the text of its type. -/
  | custom (typeText : String)

/-- The message of the first choice; `tool_calls = None` is the empty list. -/
structure ChatMessage where
  content : Option PyStr
  toolCalls : List ToolCall

/-- The model's reply: a message, or an `openai.APIError` with its text. -/
abbrev Reply := Except PyStr ChatMessage

/-- What `json.loads` raises. -/
inductive LoadsError where
  | jsonDecodeError (msg : String)
  | valueError (msg : String)
  | recursionError (msg : String)

/-- What `reason_step` raises: `other` stands for the exceptions that nobody handles. -/
inductive Raised where
  | valueError (msg : PyStr)
  | apiError (msg : PyStr)
  | other (msg : String)

/-- The dict that `reason_step` returns. -/
structure ReasonResult where
  thought : PyStr
  action : Option PyStr
  actionInput : PyValue
  isFinal : Bool
  finalAnswer : PyValue

/-- `type(v).__name__` of a decoded value. -/
def typeName : PyValue → String
  | .null => "NoneType"
  | .bool _ => "bool"
  | .int _ => "int"
  | .float _ => "float"
  | .str _ => "str"
  | .arr _ => "list"
  | .obj _ => "dict"

section Step

variable (loads : PyStr → Except LoadsError PyValue)

/-- `json.loads(func.arguments) if func.arguments else {}`. -/
def parseArguments (name arguments : PyStr) : Except Raised PyValue :=
  if arguments = [] then .ok (.obj [])
  else
    match loads arguments with
    | .ok v => .ok v
    | .error (.jsonDecodeError msg) =>
      .error (.valueError ("Malformed tool call arguments for '" ++ name ++ ("': " ++ msg)))
    | .error (.valueError msg) => .error (.valueError msg)
    | .error (.recursionError msg) => .error (.other msg)

/-- `arguments.get("answer", "")`. -/
def getAnswer : PyValue → Except Raised PyValue
  | .obj fields => .ok ((fields.lookup ("answer" : PyStr)).getD (.str []))
  | v => .error (.other ("'" ++ typeName v ++ "' object has no attribute 'get'"))

def emptyResponse : String :=
  "LLM returned an empty response with no tool call. " ++
    "This may indicate a safety filter or malformed request."

def reasonStep : Reply → Except Raised ReasonResult
  | .error msg => .error (.apiError msg)
  | .ok message =>
    let thought := strip (message.content.getD [])
    match message.toolCalls with
    | .custom typeText :: _ => .error (.valueError ("Unexpected tool call type: " ++ typeText))
    | .function name arguments :: _ => do
      let arguments ← parseArguments loads name arguments
      if name = ("final_answer" : PyStr) then
        let answer ← getAnswer arguments
        return ⟨thought, none, .obj [], true, answer⟩
      else return ⟨thought, some name, arguments, false, .null⟩
    | [] =>
      if thought ≠ [] then .ok ⟨thought, none, .obj [], true, .str thought⟩
      else .error (.valueError emptyResponse)

end Step

end Xola.LlmSurface
