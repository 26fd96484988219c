import Xola.Planning.Verify.Transcript
import Xola.Tools.Calls

/-!
# Truncation

The inputs and outputs of tools are cut to a number of bytes, for the log and for the model. The cut
is a slice, and the limits are byte offsets into JSON text that holds the characters as they are: it
panics where the limit falls inside a character. This says for which values that is, and for which
runs of a tool call and of the loop.
-/

namespace Xola

open Interaction

/-! ## Texts under a limit -/

/-- What may stand for a text under a limit: the text, or a part of it with a note if it is longer. -/
def Truncates (s : String) (limit : Nat) (note out : String) : Prop :=
  if s.utf8ByteSize ≤ limit then out = s
  else ∃ head tail, head ++ tail = s ∧ head.utf8ByteSize ≤ limit ∧ out = head ++ note

/-- The text need not be cut, or the cut meets a boundary. -/
def Fits (s : String) (limit : Nat) : Prop := s.utf8ByteSize ≤ limit ∨ CharBoundary s limit

/-- The common part of the two truncations. -/
def truncate (s : String) (limit : Nat) (note : String) : Option String :=
  if limit < s.utf8ByteSize then (sliceTo s limit).map (· ++ note) else some s

/-- The note, which counts the bytes as bytes or as chars. -/
def truncationNote (s unit : String) : String :=
  "... [truncated, " ++ toString s.utf8ByteSize ++ unit

section Truncate

variable {s note out : String} {limit : Nat}

theorem truncate_isSome_iff : (truncate s limit note).isSome ↔ Fits s limit := by
  unfold truncate Fits
  split
  next hlt => rw [Option.isSome_map, sliceTo_isSome_iff, or_iff_right (Nat.not_le_of_gt hlt)]
  next hge => exact iff_of_true rfl (.inl (Nat.le_of_not_gt hge))

theorem truncates_of_truncate (h : truncate s limit note = some out) :
    Truncates s limit note out := by
  unfold truncate at h
  unfold Truncates
  split at h
  next hlt =>
    obtain ⟨head, hhead, rfl⟩ := Option.map_eq_some_iff.1 h
    obtain ⟨⟨tail, htail⟩, hsize⟩ := sliceTo_eq_some_iff.1 hhead
    rw [if_neg (Nat.not_le_of_gt hlt)]
    exact ⟨head, tail, htail, Nat.le_of_eq hsize, rfl⟩
  next hge =>
    rw [if_pos (Nat.le_of_not_gt hge)]
    exact (Option.some.inj h).symm

/-- A truncation that does not panic is a right one. -/
theorem truncate_iff {α : Type} (f : String → α) :
    (∃ out, (truncate s limit note).map f = some (f out) ∧ Truncates s limit note out) ↔
      Fits s limit := by
  have hsome : (truncate s limit note).isSome ↔ Fits s limit := truncate_isSome_iff
  rw [← hsome, Option.isSome_iff_exists]
  constructor
  · rintro ⟨out, hout, -⟩
    obtain ⟨out', hout', -⟩ := Option.map_eq_some_iff.1 hout
    exact ⟨out', hout'⟩
  · rintro ⟨out, hout⟩
    exact ⟨out, by rw [hout]; rfl, truncates_of_truncate hout⟩

theorem append_note (a b c : String) :
    (fun s : String => s ++ a ++ b ++ c) = fun s => s ++ (a ++ b ++ c) := by
  funext s
  rw [String.append_assoc, String.append_assoc, String.append_assoc]

end Truncate

section Printer

variable [SerdeJson]

theorem truncateJson_eq (value : Json) (maxChars : Nat) : truncateJson value maxChars =
    truncate (SerdeJson.toString value) maxChars
      (truncationNote (SerdeJson.toString value) " bytes total]") := by
  unfold truncateJson truncate truncationNote
  dsimp only
  rw [append_note]

theorem truncateJson_eq_none_iff {value : Json} {maxChars : Nat} :
    truncateJson value maxChars = none ↔ ¬Fits (SerdeJson.toString value) maxChars := by
  rw [truncateJson_eq, ← truncate_isSome_iff, Option.not_isSome_iff_eq_none]

theorem fits_of_rendered {value : Json} {maxChars : Nat}
    (h : truncateJson value maxChars ≠ none) : Fits (SerdeJson.toString value) maxChars :=
  not_not.1 fun hnot => h (truncateJson_eq_none_iff.2 hnot)

/-! ## Calls -/

namespace ToolRegistry

def output? : Exchange Command.Answer → Option Json
  | ⟨.execute _ _ _, some (.ok output)⟩ => some output
  | _ => none

/-- The results that tools have returned in time. -/
def outputs (h : History Command.Answer) : List Json := h.filterMap output?

/-- A call panics exactly on an input or an output that does not fit the log. -/
theorem executeWithTimeout_panics_iff {validatorFor : ValidatorFor} {r : ToolRegistry}
    {toolName : String} {input : Json} {timeout : Nat} {h : History Command.Answer}
    {e : Prog.Ending ToolError Json}
    (he : Prog.Ends (r.executeWithTimeout validatorFor toolName input timeout) h e) :
    e ≠ none ↔ Fits (SerdeJson.toString input) 500 ∧
      ∀ output ∈ outputs h, Fits (SerdeJson.toString output) 500 := by
  cases Prog.wp_ends (callSteps_wp validatorFor r toolName input timeout) he with
  | unrendered hpanics =>
    exact iff_of_false (fun hne => hne rfl) fun hfits =>
      truncateJson_eq_none_iff.1 hpanics hfits.1
  | unregistered hrendered | rejected hrendered | invalid hrendered =>
    exact iff_of_true (Option.some_ne_none _) ⟨fits_of_rendered hrendered, nofun⟩
  | @executed _ answer hrendered =>
    rw [and_iff_right (fits_of_rendered hrendered)]
    rcases answer with - | e | output
    · exact iff_of_true (Option.some_ne_none _) nofun
    · exact iff_of_true (Option.some_ne_none _) nofun
    · have houtputs : outputs [⟨.canExecute toolName, true⟩,
          ⟨.execute toolName input timeout, some (.ok output)⟩,
          recording toolName (.ok output)] = [output] := rfl
      rw [flatten, houtputs, List.forall_mem_singleton, ending, Ne, Option.map_eq_none_iff,
        truncateJson_eq_none_iff, not_not]

theorem ends_of_truncateJson {validatorFor : ValidatorFor} {r : ToolRegistry} {toolName : String}
    {input : Json} {timeout : Nat} (hnone : truncateJson input 500 = none) :
    Prog.Ends (r.executeWithTimeout validatorFor toolName input timeout) [] none := by
  unfold executeWithTimeout
  rw [hnone]
  exact ⟨charBoundary, .refl _⟩

end ToolRegistry

/-! ## The loop -/

namespace PlanExecutor

theorem formatObservation_eq (action : String) (result : Json) : formatObservation action result =
    (truncate (SerdeJson.toStringPretty result) 4000
      (truncationNote (SerdeJson.toStringPretty result) " chars total]")).map
      ("[Observation from " ++ action ++ "]:\n" ++ ·) := by
  unfold formatObservation truncate truncationNote
  dsimp only
  rw [append_note]

theorem formatObservation_eq_none_iff {action : String} {result : Json} :
    formatObservation action result = none ↔ ¬Fits (SerdeJson.toStringPretty result) 4000 := by
  rw [formatObservation_eq, Option.map_eq_none_iff, ← truncate_isSome_iff,
    Option.not_isSome_iff_eq_none]

def result? : Event → Option Json
  | ⟨.executeWithTimeout _ _ _, .ok result⟩ => some result
  | _ => none

/-- The results that tool calls have returned. -/
def results (h : Trace) : List Json := h.filterMap result?

theorem shown_iff {h : Trace} :
    (∀ e ∈ h, Shown e) ↔ ∀ result ∈ results h, Fits (SerdeJson.toStringPretty result) 4000 := by
  have hevent : ∀ e : Event, Shown e ↔
      ∀ result ∈ result? e, Fits (SerdeJson.toStringPretty result) 4000 := by
    intro e
    obtain ⟨c, r⟩ := e
    cases c with
    | executeWithTimeout action input timeout =>
      cases r with
      | error e => exact iff_of_true trivial fun _ hmem => absurd hmem (Option.not_mem_none _)
      | ok result =>
        rw [Shown, Ne, formatObservation_eq_none_iff, not_not]
        exact ⟨fun hf result' hmem => Option.some.inj hmem ▸ hf, fun hf => hf result rfl⟩
    | iteration | pushed | reason | summarize | elapsed | insert =>
      exact iff_of_true trivial fun _ hmem => absurd hmem (Option.not_mem_none _)
  constructor
  · intro hs result hmem
    obtain ⟨e, he, hr⟩ := List.mem_filterMap.1 hmem
    exact (hevent e).1 (hs e he) result hr
  · intro hf e he
    exact (hevent e).2 fun result hr => hf result (List.mem_filterMap.2 ⟨e, he, hr⟩)

/-- The loop panics exactly on a result that does not fit the observation. -/
theorem raced_panics_iff {hs : Hashing} {ex : PlanExecutor} {goal : String} {h : Trace}
    {e : Prog.Ending PlanError TaskResult} (he : Prog.Ends (raced hs ex goal) h e) (hne : h ≠ []) :
    e ≠ none ↔ ∀ result ∈ results h, Fits (SerdeJson.toStringPretty result) 4000 := by
  rw [← shown_iff]
  have hend : EndsFaithful goal h e := Prog.wp_ends told_raced he
  cases e with
  | some res => exact iff_of_true (Option.some_ne_none _) hend.shown
  | none =>
    refine iff_of_false (fun hnone => hnone rfl) ?_
    intro hs
    obtain ⟨x, hx, hnot⟩ := hend.resolve_left hne
    exact hnot (hs x hx)

end PlanExecutor

/-! ## When truncation is safe -/

/-- **Truncation is safe on boundaries.** Both truncations return what they should, and neither a
tool call nor the loop panics, exactly as long as every text that is longer than its limit has a
character boundary there. -/
theorem truncation_iff (value : Json) (maxChars : Nat) (action : String) :
    ((∃ out, truncateJson value maxChars = some out ∧
        Truncates (SerdeJson.toString value) maxChars
          (truncationNote (SerdeJson.toString value) " bytes total]") out) ↔
      Fits (SerdeJson.toString value) maxChars) ∧
    ((∃ out,
        PlanExecutor.formatObservation action value =
          some ("[Observation from " ++ action ++ "]:\n" ++ out) ∧
        Truncates (SerdeJson.toStringPretty value) 4000
          (truncationNote (SerdeJson.toStringPretty value) " chars total]") out) ↔
      Fits (SerdeJson.toStringPretty value) 4000) ∧
    (∀ validatorFor r toolName input timeout h e,
      Prog.Ends (ToolRegistry.executeWithTimeout validatorFor r toolName input timeout) h e →
        (e ≠ none ↔ Fits (SerdeJson.toString input) 500 ∧
          ∀ output ∈ ToolRegistry.outputs h, Fits (SerdeJson.toString output) 500)) ∧
    ∀ hs ex goal h e, Prog.Ends (PlanExecutor.raced hs ex goal) h e → h ≠ [] →
      (e ≠ none ↔ ∀ result ∈ PlanExecutor.results h, Fits (SerdeJson.toStringPretty result) 4000) := by
  refine ⟨?_, ?_, ?_, ?_⟩
  · have hiff := @truncate_iff (SerdeJson.toString value)
      (truncationNote (SerdeJson.toString value) " bytes total]") maxChars String id
    simpa only [truncateJson_eq, Option.map_id, id_eq] using hiff
  · rw [PlanExecutor.formatObservation_eq]
    exact truncate_iff _
  · intro validatorFor r toolName input timeout h e he
    exact ToolRegistry.executeWithTimeout_panics_iff he
  · intro hs ex goal h e he hne
    exact PlanExecutor.raced_panics_iff he hne

end Printer

/-- A string of 498 letters and an `é`, whose two bytes come 500th and 501st with the quote. -/
def straddling : Json := .str (String.ofList (List.replicate 498 'x' ++ ['é']))

attribute [local instance] SerdeJson.plain

theorem straddling_toList :
    (SerdeJson.toString straddling).toList = '"' :: (List.replicate 498 'x' ++ ['é', '"']) := by
  have hx : (Json.escapeChar 'x').toList = ['x'] := by decide
  have hé : (Json.escapeChar 'é').toList = ['é'] := by decide
  have hplain : (List.replicate 498 'x' ++ ['é']).flatMap (fun c => (Json.escapeChar c).toList) =
      List.replicate 498 'x' ++ ['é'] := by
    rw [List.flatMap_append, List.flatMap_replicate, List.flatMap_singleton, hx, hé,
      List.flatten_replicate_singleton]
  have hprint : SerdeJson.toString straddling =
      Json.quote (String.ofList (List.replicate 498 'x' ++ ['é'])) := by
    simp only [SerdeJson.toString, straddling, Json.print]
  rw [hprint, Json.toList_quote, String.toList_ofList, hplain, List.cons_append, List.append_assoc,
    List.singleton_append]

theorem not_fits_straddling : ¬Fits (SerdeJson.toString straddling) 500 := by
  rintro (hle | hboundary)
  · have hsize : (SerdeJson.toString straddling).utf8ByteSize = 502 := by
      have hslice : sliceChars 502 ('"' :: (List.replicate 498 'x' ++ ['é', '"'])) =
          some ('"' :: (List.replicate 498 'x' ++ ['é', '"'])) := by decide +kernel
      rw [← String.ofList_toList (s := SerdeJson.toString straddling), straddling_toList]
      exact (sliceChars_eq_some_iff.1 hslice).2
    omega
  · have hnone : sliceTo (SerdeJson.toString straddling) 500 = none := by
      rw [sliceTo, straddling_toList]
      decide +kernel
    exact absurd (sliceTo_isSome_iff.2 hboundary) (by rw [hnone]; exact Bool.false_ne_true)

/-- As an input it makes every call panic, whatever the tool. -/
theorem straddling_panics :
    truncateJson straddling 500 = none ∧ ∀ validatorFor r toolName timeout, Prog.Ends
      (ToolRegistry.executeWithTimeout validatorFor r toolName straddling timeout) [] none := by
  have hnone := truncateJson_eq_none_iff.2 not_fits_straddling
  exact ⟨hnone, fun _ _ _ _ => ToolRegistry.ends_of_truncateJson hnone⟩

end Xola
