import Xola.Tools.CodeExec

/-!
# Web search

`runtime/src/tools/web_search.rs`: `WebSearchTool::execute` as a program over the environment
variable it reads and the HTTP request it makes. A `reqwest` error is given by the text it displays.
-/

namespace Xola.WebSearch

open Interaction
open CodeExec (asI64 stringField)

/-! ## Requests and responses -/

structure Response where
  status : Nat
  canonicalReason : Option String

def Response.isSuccess (response : Response) : Bool :=
  200 ≤ response.status && response.status < 300

inductive Command where
  | var (name : String)
  | send (url apiKey : String) (body : Json)
  | json

/-- `json` reads the body of the response to the request. -/
abbrev Command.Answer : Command → Type
  | .var _ => Option String
  | .send _ _ _ => Except String Response
  | .json => Except String Json

abbrev Search (α : Type) := Prog Command Command.Answer ToolError α

/-! ## The tool -/

def inputSchema : Json :=
  .obj [("properties", .obj [
      ("num_results", .obj [("default", .int 5),
        ("description", .str "Number of results to return (1-10)"), ("maximum", .int 10),
        ("minimum", .int 1), ("type", .str "integer")]),
      ("query", .obj [("description", .str "The search query"), ("type", .str "string")])]),
    ("required", .arr [.str "query"]), ("type", .str "object")]

def webSearchTool : Tool where
  name := "web_search"
  description := "Searches the web using Google Search API"
  inputSchema := inputSchema

/-- `input.get(key).and_then(|v| v.as_i64()).unwrap_or(default).clamp(1, max)`. -/
def clampedField (input : Json) (key : String) (default hi : Int) : Int :=
  min (max (((input.get key).bind asI64).getD default) 1) hi

/-- It is positive: the cast to `u64` leaves it as it is. -/
def numResults (input : Json) : Int := clampedField input "num_results" 5 10

def url : String := "https://google.serper.dev/search"

def requestBody (query : String) (numResults : Int) : Json :=
  .obj [("num", .int numResults), ("q", .str query)]

/-- `value.get(key).and_then(|v| v.as_str()).unwrap_or("")`. -/
def textField (value : Json) (key : String) : Json :=
  match value.get key with
  | some (.str s) => .str s
  | _ => .str ""

def simplified (result : Json) : Json :=
  .obj [("snippet", textField result "snippet"), ("title", textField result "title"),
    ("url", textField result "link")]

def structuredResults (responseJson : Json) : Except ToolError Json :=
  match responseJson.get "organic" with
  | some (.arr organic) => .ok (.obj [("results", .arr (organic.map simplified))])
  | _ => .error (.executionFailed "Missing 'organic' field in API response")

def readResults (response : Response) : Search Json :=
  if !response.isSuccess then
    .err (.executionFailed ("Search API request failed with status " ++
      toString response.status ++ ": " ++ response.canonicalReason.getD "Unknown"))
  else do
    match ← Prog.perform Command.json with
    | .error e => .err (.executionFailed ("Failed to parse response: " ++ e))
    | .ok responseJson => Prog.ofExcept (structuredResults responseJson)

def search (query : String) (numResults : Int) (apiKey : String) : Search Json := do
  match ← Prog.perform (Command.send url apiKey (requestBody query numResults)) with
  | .error e => .err (.executionFailed ("HTTP request failed: " ++ e))
  | .ok response => readResults response

def execute (input : Json) : Search Json := do
  let query ← Prog.ofExcept (stringField input "query")
  match ← Prog.perform (Command.var "SERPER_API_KEY") with
  | none => .err (.executionFailed "SERPER_API_KEY environment variable not set")
  | some apiKey => search query (numResults input) apiKey

end Xola.WebSearch
