import Xola.Tools.WebSearch

/-!
# URL fetch and mock echo

`runtime/src/tools/url_fetch.rs` as a program over its request and the reading of the body, and
`mock.rs` as one over the clock. A `reqwest` error is given by the text it displays.
-/

namespace Xola

open Interaction
open CodeExec (stringField)

namespace UrlFetch

/-- `content_length` is the header, where there is one. -/
structure Response extends WebSearch.Response where
  contentLength : Option Nat

inductive Command where
  | get (url : String)
  | text

/-- `text` reads the body of the response to the request. -/
abbrev Command.Answer : Command → Type
  | .get _ => Except String Response
  | .text => Except String String

abbrev Fetch (α : Type) := Prog Command Command.Answer ToolError α

def inputSchema : Json :=
  .obj [("properties", .obj [
      ("url", .obj [("description", .str "The URL to fetch (must include http:// or https://)"),
        ("type", .str "string")])]),
    ("required", .arr [.str "url"]), ("type", .str "object")]

def urlFetchTool : Tool where
  name := "url_fetch"
  description := "Fetches the text content of a URL"
  inputSchema := inputSchema

def readContent (response : Response) : Fetch Json :=
  if !response.isSuccess then
    .err (.executionFailed ("HTTP request failed with status " ++ toString response.status ++ ": " ++
      response.canonicalReason.getD "Unknown"))
  else do
    match ← Prog.perform Command.text with
    | .error e => .err (.executionFailed ("Failed to read response body: " ++ e))
    | .ok content =>
      return .obj [("content", .str content),
        ("content_length", .int (response.contentLength.getD 0)),
        ("status_code", .int response.status)]

def execute (input : Json) : Fetch Json := do
  let url ← Prog.ofExcept (stringField input "url")
  match ← Prog.perform (Command.get url) with
  | .error e => .err (.executionFailed ("HTTP request failed: " ++ e))
  | .ok response => readContent response

end UrlFetch

namespace MockTool

/-- The clock, in seconds since the epoch. -/
inductive Command where
  | now

abbrev Command.Answer : Command → Type
  | .now => Nat

abbrev Echo (α : Type) := Prog Command Command.Answer ToolError α

def inputSchema : Json :=
  .obj [("properties", .obj [
      ("message", .obj [("description", .str "The message to echo back"),
        ("type", .str "string")])]),
    ("required", .arr [.str "message"]), ("type", .str "object")]

def mockTool : Tool where
  name := "mock_echo"
  description := "A mock tool that echoes back the input message"
  inputSchema := inputSchema

def execute (input : Json) : Echo Json := do
  let message ← Prog.ofExcept (stringField input "message")
  let timestamp : Nat ← Prog.perform Command.now
  return .obj [("echoed", .str message), ("timestamp", .int timestamp)]

end MockTool

end Xola
