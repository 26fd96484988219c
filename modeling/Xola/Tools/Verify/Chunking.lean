import Xola.Tools.Verify.Containers

/-!
# Container output and the frames it comes in

Every frame of the log stream is decoded on its own, and Docker decides where a frame ends. The
strings that are returned are the decoded streams exactly when no character is cut at the end of a
frame: the two halves of such a character are replaced one by one.
-/

namespace Xola.CodeExec

open Interaction Utf8

/-! ## The two streams -/

def LogOutput.stdOut? : LogOutput → Option (List UInt8)
  | .stdOut message => some message
  | .stdErr _ | .stdIn _ | .console _ => none

def LogOutput.stdErr? : LogOutput → Option (List UInt8)
  | .stdErr message => some message
  | .stdOut _ | .stdIn _ | .console _ => none

/-- The bytes of the frames of one stream; errors of the log stream and other kinds are no frames. -/
def frames (kind : LogOutput → Option (List UInt8)) (messages : List (Except String LogOutput)) :
    List (List UInt8) :=
  messages.filterMap fun message => message.toOption.bind kind

abbrev stdoutFrames := frames LogOutput.stdOut?

abbrev stderrFrames := frames LogOutput.stdErr?

/-- What the program has written to a stream. -/
def bytes (fs : List (List UInt8)) : List UInt8 := fs.flatten

/-- What a buffer receives: every frame is decoded on its own. -/
def decoded (fs : List (List UInt8)) : String := String.ofList (fs.map lossy).flatten

theorem decoded_cons (f : List UInt8) (fs : List (List UInt8)) :
    decoded (f :: fs) = fromUtf8Lossy f ++ decoded fs := by
  rw [decoded, List.map_cons, List.flatten_cons, String.ofList_append]
  rfl

theorem decoded_eq_iff {fs : List (List UInt8)} :
    decoded fs = fromUtf8Lossy (bytes fs) ↔ Unbroken fs := by
  rw [decoded, fromUtf8Lossy, String.ofList_inj, bytes, lossy_flatten_iff]

theorem fromUtf8Lossy_toByteArray (s : String) :
    fromUtf8Lossy s.toByteArray.data.toList = s := by
  rw [fromUtf8Lossy, lossy_toByteArray, String.ofList_toList]

/-- The loop over the log stream. -/
theorem foldl_collect (messages : List (Except String LogOutput)) (bufs : String × String) :
    messages.foldl collect bufs =
      (bufs.1 ++ decoded (stdoutFrames messages), bufs.2 ++ decoded (stderrFrames messages)) := by
  induction messages generalizing bufs with
  | nil => exact Prod.ext (String.append_empty).symm (String.append_empty).symm
  | cons message messages ih =>
    rw [List.foldl_cons, ih]
    match message with
    | .ok (.stdOut f) =>
      refine Prod.ext ?_ rfl
      rw [collect, String.append_assoc, ← decoded_cons]
      rfl
    | .ok (.stdErr f) =>
      refine Prod.ext rfl ?_
      rw [collect, String.append_assoc, ← decoded_cons]
      rfl
    | .ok (.stdIn _) | .ok (.console _) => rfl
    | .error _ => rfl

/-! ## Runs -/

/-- What the log stream has delivered in a run. -/
def delivered : Event → List (Except String LogOutput)
  | ⟨.logs _, some messages⟩ => messages
  | _ => []

def logged (t : Trace) : List (Except String LogOutput) := t.flatMap delivered

/-- A run that ends with output has read it from the log stream, to its end. -/
def Printed (t : Trace) (e : Prog.Ending ToolError (Option (Except ToolError Json))) : Prop :=
  ∀ v, e = some (.ok (some (.ok v))) → ∃ code : Int, v = .obj [("exit_code", .int code),
    ("stderr", .str (decoded (stderrFrames (logged t)))),
    ("stdout", .str (decoded (stdoutFrames (logged t))))]

theorem Printed.of_ne {t : Trace} {e : Prog.Ending ToolError (Option (Except ToolError Json))}
    (h : ∀ v, e ≠ some (.ok (some (.ok v)))) : Printed t e := fun v hv => absurd hv (h v)

theorem printed_outcome {t : Trace} {messages : List (Except String LogOutput)} {code : Int}
    (h : logged t = messages) :
    Printed t (some (.ok (some (outcome (messages.foldl collect ("", "")) code)))) := by
  intro v hv
  have hout := Option.some.inj (Except.ok.inj (Option.some.inj hv))
  rw [foldl_collect, String.empty_append, String.empty_append] at hout
  unfold outcome at hout
  split at hout
  · cases hout
  · rw [h]
    exact ⟨code, (Except.ok.inj hout).symm⟩

theorem printed_runContainerInner (id : String) :
    Prog.wp (fun _ _ => True) Printed (runContainerInner id) [] := by
  unfold runContainerInner
  refine ⟨trivial, ?_⟩
  intro started
  rcases started with - | (e | _)
  · exact .of_ne fun v hv => by cases hv
  · exact .of_ne fun v hv => by cases hv
  refine ⟨trivial, ?_⟩
  intro messages
  rcases messages with - | messages
  · exact .of_ne fun v hv => by cases hv
  refine ⟨trivial, ?_⟩
  intro response
  rcases response with - | (e | response)
  · exact .of_ne fun v hv => by cases hv
  · exact .of_ne fun v hv => by cases hv
  · exact printed_outcome (List.append_nil messages)

/-- One of the strings that are returned is the stream as a whole; well-formed output is then
returned as it is. -/
structure Whole (v : Json) (key : String) (fs : List (List UInt8)) : Prop where
  lossy : v.get key = some (.str (fromUtf8Lossy (bytes fs)))
  unchanged : ∀ s : String, bytes fs = s.toByteArray.data.toList → v.get key = some (.str s)

theorem whole_iff {v : Json} {key : String} {fs : List (List UInt8)}
    (h : v.get key = some (.str (decoded fs))) : Whole v key fs ↔ Unbroken fs := by
  rw [← decoded_eq_iff]
  constructor
  · rintro ⟨hlossy, -⟩
    exact JsonOf.str.inj (Option.some.inj (h.symm.trans hlossy))
  · intro heq
    refine ⟨by rw [h, heq], ?_⟩
    intro s hs
    rw [h, heq, hs, fromUtf8Lossy_toByteArray]

/-- Streams of the same bytes give the same string, whatever their frames. -/
theorem Whole.congr {v v' : Json} {key : String} {fs fs' : List (List UInt8)} (h : Whole v key fs)
    (h' : Whole v' key fs') (hbytes : bytes fs = bytes fs') : v.get key = v'.get key := by
  rw [h.lossy, h'.lossy, hbytes]

/-- **When the output does not depend on the frames.** The two strings are the decoded streams
exactly when no frame ends within a character that the next bytes of its stream go on with. -/
theorem output_whole_iff {id : String} {t : Trace} {v : Json}
    (h : Prog.Returns (runContainerInner id) t (.ok (some (.ok v)))) :
    Whole v "stdout" (stdoutFrames (logged t)) ∧ Whole v "stderr" (stderrFrames (logged t)) ↔
      Unbroken (stdoutFrames (logged t)) ∧ Unbroken (stderrFrames (logged t)) := by
  obtain ⟨code, rfl⟩ := Prog.wp_ends (printed_runContainerInner id) h.ends v rfl
  exact and_congr (whole_iff rfl) (whole_iff rfl)

/-! A container that exits with code 0. -/

def session (messages : List (Except String LogOutput)) : Trace :=
  [⟨.startContainer "c1", some (.ok ())⟩, ⟨.logs "c1", some messages⟩,
    ⟨.inspectContainer "c1", some (.ok ⟨some ⟨some 0⟩⟩)⟩]

def output (messages : List (Except String LogOutput)) : Json :=
  .obj [("exit_code", .int 0), ("stderr", .str (decoded (stderrFrames messages))),
    ("stdout", .str (decoded (stdoutFrames messages)))]

theorem returns_session (messages : List (Except String LogOutput)) :
    Prog.Returns (runContainerInner "c1") (session messages)
      (.ok (some (.ok (output messages)))) := by
  have hout : outcome (messages.foldl collect ("", "")) 0 = .ok (output messages) := by
    rw [foldl_collect, String.empty_append, String.empty_append]
    rfl
  rw [← hout]
  exact .step _ (.step _ (.step _ (.refl _)))

/-- "é!", the character in one frame. -/
def kept : List (Except String LogOutput) :=
  [.ok (.stdOut [0xC3, 0xA9]), .ok (.stdErr []), .ok (.stdOut [0x21])]

theorem output_whole_kept : Whole (output kept) "stdout" (stdoutFrames kept) ∧
    Whole (output kept) "stderr" (stderrFrames kept) :=
  (output_whole_iff (returns_session kept)).mpr
    ⟨lossy_flatten_iff.mp (by decide), lossy_flatten_iff.mp (by decide)⟩

/-- "é", a byte a frame. -/
def halved : List (Except String LogOutput) := [.ok (.stdOut [0xC3]), .ok (.stdOut [0xA9])]

theorem halved_not_whole :
    Prog.Returns (runContainerInner "c1") (session halved) (.ok (some (.ok (output halved)))) ∧
      bytes (stdoutFrames halved) = "é".toByteArray.data.toList ∧
      fromUtf8Lossy (bytes (stdoutFrames halved)) = "é" ∧
      (output halved).get "stdout" = some (.str "\uFFFD\uFFFD") := by
  have hbytes : bytes (stdoutFrames halved) = "é".toByteArray.data.toList := by decide +kernel
  refine ⟨returns_session halved, hbytes, ?_, ?_⟩
  · rw [hbytes, fromUtf8Lossy_toByteArray]
  · decide +kernel

end Xola.CodeExec
