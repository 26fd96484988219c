import Mathlib.Algebra.Ring.Int.Defs
import Xola.Data.Utf8
import Xola.Tools.Registry

/-!
# Code execution in a container

`runtime/src/tools/code_exec.rs`: `CodeExecTool::execute` as a program over its calls to the Docker
daemon. A `bollard` error is given by the text it displays.

`run_container` puts a timeout around `run_container_inner`: each of the three calls inside is
answered with `none` when that timeout fires while the call is waiting. The log stream is one
exchange, answered with all its messages up to the end of the stream.
-/

namespace Xola.CodeExec

open Interaction

/-! ## Requests and responses -/

structure HostConfig where
  memory : Int
  readonlyRootfs : Bool
  networkMode : String
  pidsLimit : Int

structure ContainerCreateBody where
  image : String
  cmd : List String
  networkDisabled : Bool
  hostConfig : HostConfig
  attachStdout : Bool
  attachStderr : Bool

/-- A message of the log stream. -/
inductive LogOutput where
  | stdErr (message : List UInt8)
  | stdOut (message : List UInt8)
  | stdIn (message : List UInt8)
  | console (message : List UInt8)

structure ContainerState where
  exitCode : Option Int

structure ContainerInspectResponse where
  state : Option ContainerState

inductive Command where
  | connectWithSocketDefaults
  | newV4
  | createContainer (name : String) (body : ContainerCreateBody)
  | startContainer (id : String)
  | logs (id : String)
  | inspectContainer (id : String)
  | removeContainer (id : String) (force : Bool)

/-- `create_container` answers with the id of the new container. -/
abbrev Command.Answer : Command → Type
  | .connectWithSocketDefaults => Except String Unit
  | .newV4 => String
  | .createContainer _ _ => Except String String
  | .startContainer _ => Option (Except String Unit)
  | .logs _ => Option (List (Except String LogOutput))
  | .inspectContainer _ => Option (Except String ContainerInspectResponse)
  | .removeContainer _ _ => Except String Unit

/-- The commands that are awaited: the points at which the future can be dropped. -/
def Command.Awaits : Command → Prop
  | .connectWithSocketDefaults | .newV4 => False
  | .createContainer _ _ | .startContainer _ | .logs _ | .inspectContainer _
  | .removeContainer _ _ => True

abbrev Sandbox (α : Type) := Prog Command Command.Answer ToolError α

/-! ## Languages -/

def maxTimeoutSeconds : Int := 30

def defaultTimeoutSeconds : Int := 10

def memoryLimitBytes : Int := 128 * 1024 * 1024

def exitCodeUnknown : Int := -1

def exitCodeOomKilled : Int := 137

def imageForLanguage (language : String) : Except ToolError String :=
  if language = "python" then .ok "python:3.12-alpine"
  else if language = "javascript" then .ok "node:22-alpine"
  else if language = "bash" then .ok "alpine:3.21"
  else .error (.executionFailed
    ("Unsupported language '" ++ language ++ "'. Supported: python, javascript, bash"))

def cmdForLanguage (language code : String) : List String :=
  if language = "python" then ["python3", "-c", code]
  else if language = "javascript" then ["node", "-e", code]
  else ["sh", "-c", code]

/-! ## The tool -/

def inputSchema : Json :=
  .obj [("properties", .obj [
      ("code", .obj [("description", .str "Source code snippet to execute"),
        ("type", .str "string")]),
      ("language", .obj [("description", .str "Programming language to use"),
        ("enum", .arr [.str "python", .str "javascript", .str "bash"]),
        ("type", .str "string")]),
      ("timeout_seconds", .obj [("default", .int defaultTimeoutSeconds),
        ("description", .str "Execution timeout in seconds (1-30, default 10)"),
        ("maximum", .int maxTimeoutSeconds), ("minimum", .int 1), ("type", .str "integer")])]),
    ("required", .arr [.str "language", .str "code"]), ("type", .str "object")]

def codeExecTool : Tool where
  name := "code_exec"
  description :=
    "Executes code in a sandboxed Docker container and returns stdout, stderr, and exit code"
  inputSchema := inputSchema

/-- `input.get(key).and_then(|v| v.as_str())`, or the error for the field. -/
def stringField (input : Json) (key : String) : Except ToolError String :=
  match input.get key with
  | some (.str s) => .ok s
  | _ => .error (.invalidInput ("missing or invalid '" ++ key ++ "' field"))

/-- `v.as_i64()`. -/
def asI64 : Json → Option Int
  | .int n => if -2 ^ 63 ≤ n ∧ n < 2 ^ 63 then some n else none
  | _ => none

/-- The `timeout_seconds` of the input, clamped. -/
def timeoutSeconds (input : Json) : Int :=
  min (max (((input.get "timeout_seconds").bind asI64).getD defaultTimeoutSeconds) 1)
    maxTimeoutSeconds

def containerBody (image : String) (cmd : List String) : ContainerCreateBody where
  image := image
  cmd := cmd
  networkDisabled := true
  hostConfig := ⟨memoryLimitBytes, true, "none", 64⟩
  attachStdout := true
  attachStderr := true

/-- `String::from_utf8_lossy`. -/
def fromUtf8Lossy (bytes : List UInt8) : String := String.ofList (Utf8.lossy bytes)

/-- One turn of the loop over the log stream, on `stdout_buf` and `stderr_buf`; an error of the
stream is logged and skipped. -/
def collect (bufs : String × String) : Except String LogOutput → String × String
  | .ok (.stdOut message) => (bufs.1 ++ fromUtf8Lossy message, bufs.2)
  | .ok (.stdErr message) => (bufs.1, bufs.2 ++ fromUtf8Lossy message)
  | .ok (.stdIn _) | .ok (.console _) => bufs
  | .error _ => bufs

def exitCode (response : ContainerInspectResponse) : Int :=
  (response.state.bind ContainerState.exitCode).getD exitCodeUnknown

/-- What a container that has exited amounts to. -/
def outcome (bufs : String × String) (code : Int) : Except ToolError Json :=
  if code = exitCodeOomKilled then
    .error (.executionFailed "Code execution exceeded 128 MB memory limit (OOM kill)")
  else .ok (.obj [("exit_code", .int code), ("stderr", .str bufs.2), ("stdout", .str bufs.1)])

/-- `none` when the timeout around it fires while it waits. -/
def runContainerInner (id : String) : Sandbox (Option (Except ToolError Json)) := do
  match ← Prog.perform (Command.startContainer id) with
  | none => return none
  | some (.error e) =>
    return some (.error (.executionFailed ("Failed to start container: " ++ e)))
  | some (.ok ()) =>
    match ← Prog.perform (Command.logs id) with
    | none => return none
    | some messages =>
      match ← Prog.perform (Command.inspectContainer id) with
      | none => return none
      | some (.error e) =>
        return some (.error (.executionFailed ("Failed to inspect container: " ++ e)))
      | some (.ok response) =>
        return some (outcome (messages.foldl collect ("", "")) (exitCode response))

def runContainer (id : String) (timeoutSeconds : Int) : Sandbox (Except ToolError Json) := do
  match ← runContainerInner id with
  | some result => return result
  | none => return .error (.executionFailed
      ("Container execution exceeded timeout of " ++ toString timeoutSeconds ++ "s"))

/-- From the creation of the container on. -/
def runInSandbox (name : String) (body : ContainerCreateBody) (timeoutSeconds : Int) :
    Sandbox Json := do
  match ← Prog.perform (Command.createContainer name body) with
  | .error e => .err (.executionFailed ("Failed to create container: " ++ e))
  | .ok id =>
    let result ← runContainer id timeoutSeconds
    -- a failure to remove the container is logged, never propagated
    let _ ← Prog.perform (Command.removeContainer id true)
    Prog.ofExcept result

def execute (input : Json) : Sandbox Json := do
  let language ← Prog.ofExcept (stringField input "language")
  let code ← Prog.ofExcept (stringField input "code")
  let image ← Prog.ofExcept (imageForLanguage language)
  match ← Prog.perform Command.connectWithSocketDefaults with
  | .error e => .err (.executionFailed ("Failed to connect to Docker daemon: " ++ e))
  | .ok () =>
    let uuid : String ← Prog.perform Command.newV4
    runInSandbox ("xola-code-exec-" ++ uuid) (containerBody image (cmdForLanguage language code))
      (timeoutSeconds input)

/-! ## Invocations through the registry -/

/-- Runs of the tool inside `execute_with_timeout`: its exchanges `t` with the daemon, and the call
`cut` that was waiting for its answer when the future was dropped, if it was. The registry drops it
when the timeout fires; or the registry's own future is dropped, at the deadline of the task. -/
inductive Invoked [SerdeJson] (validatorFor : ValidatorFor) (r : ToolRegistry) (input : Json)
    (timeout : Nat) : History Command.Answer → (cut : Option Command) → Prop
  | finished {h : History ToolRegistry.Command.Answer} {t : History Command.Answer}
      {res : Except ToolError Json} {q : Prog _ _ _ _}
      (returns : Prog.Returns (execute input) t res)
      (answered : Prog.Reaches (r.executeWithTimeout validatorFor "code_exec" input timeout)
        (h ++ [⟨.execute "code_exec" input timeout, some res⟩]) q) :
      Invoked validatorFor r input timeout t none
  | timedOut {h : History ToolRegistry.Command.Answer} {t : History Command.Answer} {c : Command}
      {q : Prog _ _ _ _} (pending : Prog.Pending (execute input) t c) (awaits : c.Awaits)
      (answered : Prog.Reaches (r.executeWithTimeout validatorFor "code_exec" input timeout)
        (h ++ [⟨.execute "code_exec" input timeout, none⟩]) q) :
      Invoked validatorFor r input timeout t (some c)
  | dropped {h : History ToolRegistry.Command.Answer} {t : History Command.Answer} {c : Command}
      (pending : Prog.Pending (execute input) t c) (awaits : c.Awaits)
      (waiting : Prog.Pending (r.executeWithTimeout validatorFor "code_exec" input timeout) h
        (.execute "code_exec" input timeout)) :
      Invoked validatorFor r input timeout t (some c)

end Xola.CodeExec
