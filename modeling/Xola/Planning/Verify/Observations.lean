import Xola.Interaction.Lockstep
import Xola.Planning.Verify.Deadlines
import Xola.Planning.Verify.Truncation

/-!
# What the loop makes of a result

The loop sees an observation of the result of a tool and the text of an error, nothing else. Results
with one observation are the same to it, and an insert is the same whether it fails or not: the run
goes on and ends alike. On the other side nothing is lost but what the cut takes away. Two results of
one call that are pushed as the same message are printed as the same text, or as texts that are as
long as each other and longer than the limit, with the same beginning.
-/

namespace Xola

open Interaction

/-! ## Texts that are cut alike -/

/-- Both are longer than the limit, and what is shown of them is the same. -/
def CutAlike (limit : Nat) (s s' : String) : Prop :=
  limit < s.utf8ByteSize ∧ s.utf8ByteSize = s'.utf8ByteSize ∧ sliceTo s limit = sliceTo s' limit

section Truncate

variable {s s' unit note out out' : String} {limit : Nat}

theorem CutAlike.symm (h : CutAlike limit s s') : CutAlike limit s' s :=
  ⟨h.2.1 ▸ h.1, h.2.1.symm, h.2.2.symm⟩

theorem truncate_cut (h : truncate s limit note = some out) (hlt : limit < s.utf8ByteSize) :
    ∃ head, sliceTo s limit = some head ∧ head.utf8ByteSize = limit ∧ out = head ++ note := by
  rw [truncate, if_pos hlt] at h
  obtain ⟨head, hhead, rfl⟩ := Option.map_eq_some_iff.1 h
  exact ⟨head, hhead, (sliceTo_eq_some_iff.1 hhead).2, rfl⟩

theorem truncate_whole (h : truncate s limit note = some out) (hle : s.utf8ByteSize ≤ limit) :
    out = s := by
  rw [truncate, if_neg (Nat.not_lt_of_ge hle)] at h
  exact (Option.some.inj h).symm

/-- A text that is cut is longer than the limit with its note. -/
theorem lt_size_cut {head : String} (hsize : head.utf8ByteSize = limit) :
    limit < (head ++ truncationNote s unit).utf8ByteSize := by
  have hnote : "... [truncated, ".utf8ByteSize = 16 := by decide
  simp only [truncationNote, String.utf8ByteSize_append, hsize, hnote]
  omega

theorem truncationNote_inj (h : truncationNote s unit = truncationNote s' unit) :
    s.utf8ByteSize = s'.utf8ByteSize := by
  simp only [truncationNote, String.append_left_inj, String.append_right_inj] at h
  have hdigits : s.utf8ByteSize.repr = s'.utf8ByteSize.repr := h
  have hread := congrArg (fun digits => Nat.ofDigitChars 10 digits.toList 0) hdigits
  simpa only [Nat.toList_repr, Nat.ofDigitChars_ten_toDigits] using hread

theorem truncate_eq_iff (h : truncate s limit (truncationNote s unit) = some out)
    (h' : truncate s' limit (truncationNote s' unit) = some out') :
    out = out' ↔ s = s' ∨ CutAlike limit s s' := by
  constructor
  · rintro rfl
    rcases Nat.lt_or_ge limit s.utf8ByteSize with hlt | hle <;>
      rcases Nat.lt_or_ge limit s'.utf8ByteSize with hlt' | hle'
    · obtain ⟨head, hhead, hsize, rfl⟩ := truncate_cut h hlt
      obtain ⟨head', hhead', hsize', heq⟩ := truncate_cut h' hlt'
      -- the heads are slices of one text
      have hslice : sliceTo (head ++ truncationNote s unit) limit = some head :=
        sliceTo_eq_some_iff.2 ⟨⟨_, rfl⟩, hsize⟩
      have hslice' : sliceTo (head ++ truncationNote s unit) limit = some head' :=
        sliceTo_eq_some_iff.2 ⟨⟨_, heq.symm⟩, hsize'⟩
      obtain rfl : head = head' := Option.some.inj (hslice.symm.trans hslice')
      have hnote := (String.append_right_inj head).1 heq
      exact .inr ⟨hlt, truncationNote_inj hnote, hhead.trans hhead'.symm⟩
    · obtain ⟨head, -, hsize, rfl⟩ := truncate_cut h hlt
      obtain rfl := truncate_whole h' hle'
      exact absurd (lt_size_cut hsize) (Nat.not_lt_of_ge hle')
    · obtain ⟨head', -, hsize', heq⟩ := truncate_cut h' hlt'
      obtain rfl := truncate_whole h hle
      rw [heq] at hle
      exact absurd (lt_size_cut hsize') (Nat.not_lt_of_ge hle)
    · exact .inl ((truncate_whole h hle).symm.trans (truncate_whole h' hle'))
  · rintro (rfl | ⟨hlt, hsize, hslice⟩)
    · exact Option.some.inj (h.symm.trans h')
    · rw [truncate, if_pos hlt, hslice, truncationNote, hsize] at h
      rw [truncate, if_pos (hsize ▸ hlt), truncationNote] at h'
      exact Option.some.inj (h.symm.trans h')

end Truncate

namespace PlanExecutor

/-! ## Answers that the loop cannot tell apart -/

section Answers

variable [SerdeJson]

/-- Results that are shown alike: printed alike or cut alike. -/
def SeenAlike (result result' : Json) : Prop :=
  SerdeJson.toStringPretty result = SerdeJson.toStringPretty result' ∨
    CutAlike 4000 (SerdeJson.toStringPretty result) (SerdeJson.toStringPretty result')

theorem SeenAlike.formatObservation_eq {result result' : Json} (h : SeenAlike result result')
    (action : String) : formatObservation action result = formatObservation action result' := by
  unfold formatObservation
  dsimp only
  rcases h with heq | ⟨hlt, hsize, hslice⟩
  · rw [heq]
  · rw [if_pos hlt, if_pos (hsize ▸ hlt), hslice, hsize]

/-- Errors of tools are told apart by their texts, results by their observations, and the answers to
an insert not at all. -/
def Alike : (c : Command) → c.Answer → c.Answer → Prop
  | .executeWithTimeout _ _ _, .ok result, .ok result' => SeenAlike result result'
  | .executeWithTimeout _ _ _, .error e, .error e' => e.toString = e'.toString
  | .executeWithTimeout _ _ _, .ok _, .error _ | .executeWithTimeout _ _ _, .error _, .ok _ => False
  | .insert _, _, _ => True
  | .iteration _, _, _ | .pushed _ _, _, _ => True
  | .reason _, answer, answer' => answer = answer'
  | .summarize _, answer, answer' => answer = answer'
  | .elapsed, ms, ms' => ms = ms'

theorem alike_refl (c : Command) (r : c.Answer) : Alike c r r := by
  cases c with
  | executeWithTimeout =>
    cases r with
    | ok result => exact .inl rfl
    | error e => exact rfl
  | insert | iteration | pushed => trivial
  | reason | summarize | elapsed => rfl

theorem alike_symm (c : Command) (r r' : c.Answer) (h : Alike c r r') : Alike c r' r := by
  cases c with
  | executeWithTimeout =>
    cases r <;> cases r' <;> simp only [Alike] at h ⊢
    · exact h.symm
    · exact h.imp Eq.symm CutAlike.symm
  | insert | iteration | pushed => trivial
  | reason | summarize | elapsed => exact Eq.symm h

section Lockstep

variable {hs : Hashing} {ex : PlanExecutor} {goal : String} {memoryContext : List String}
  {stm : ShortTermMemory} {st : RunState} {α : Type} {S : α → α → Prop}

theorem lockstep_pushMessage {k k' : ShortTermMemory → Plan α} {role : Role} {text : String}
    (hk : ∀ stm, Prog.Lockstep Alike S (k stm) (k' stm)) :
    Prog.Lockstep Alike S (pushMessage stm role text >>= k) (pushMessage stm role text >>= k') :=
  .call fun _ _ _ => hk _

theorem lockstep_pushThought {k k' : ShortTermMemory → Plan α} {thought : String}
    (hk : ∀ stm, Prog.Lockstep Alike S (k stm) (k' stm)) :
    Prog.Lockstep Alike S (pushThought stm thought >>= k) (pushThought stm thought >>= k') := by
  unfold pushThought
  split
  · exact hk stm
  · exact lockstep_pushMessage hk

theorem lockstep_callReason {k k' : ReasonResponse → Plan α}
    (hk : ∀ response, Prog.Lockstep Alike S (k response) (k' response)) :
    Prog.Lockstep Alike S (callReason ex stm goal memoryContext >>= k)
      (callReason ex stm goal memoryContext >>= k') := by
  refine .perform (c := Command.reason _) (fun _ _ => id) ?_
  intro answer
  cases answer with
  | error e => exact .err (PlanError.ipc e)
  | ok response => exact hk response

theorem lockstep_summarizeIfNeeded {k k' : ShortTermMemory → Plan α}
    (hk : ∀ stm, Prog.Lockstep Alike S (k stm) (k' stm)) :
    Prog.Lockstep Alike S (summarizeIfNeeded stm >>= k) (summarizeIfNeeded stm >>= k') := by
  unfold summarizeIfNeeded
  split
  · refine .perform (c := Command.summarize _) (fun _ _ => id) ?_
    intro answer
    cases answer with
    | error e => exact .err (PlanError.ipc e)
    | ok response => exact hk _
  · exact hk stm

/-- The result of the task is made before the insert. -/
theorem lockstep_finish {outcome : Outcome} {answer : Option String} {iterations : Nat} :
    Prog.Lockstep Alike Eq (finish ex goal outcome answer iterations st)
      (finish ex goal outcome answer iterations st) := by
  refine .perform (c := Command.elapsed) (fun _ _ => id) ?_
  intro elapsed
  unfold recordEpisode
  split
  · exact .ret rfl
  · exact .call fun _ _ _ => .ret rfl

/-- The tool calls of one iteration end in one state, with one final answer or with results that are
shown alike. -/
inductive HandsAlike : StepOutcome × RunState → StepOutcome × RunState → Prop
  | observation {result result' : Json} (st : RunState) (alike : SeenAlike result result') :
    HandsAlike (.observation result, st) (.observation result', st)
  | finalAnswer (thought : String) (answer : Option String) (st : RunState) :
    HandsAlike (.finalAnswer thought answer, st) (.finalAnswer thought answer, st)

theorem lockstep_executeToolWithReplan {f : Nat} {action : String} {input : Json} :
    Prog.Lockstep Alike HandsAlike
      (executeToolWithReplan hs ex goal memoryContext f action input st)
      (executeToolWithReplan hs ex goal memoryContext f action input st) := by
  induction hn : ex.config.replan.maxReplansPerStep - f using Nat.strongRecOn
    generalizing f action input st with
  | ind n ih =>
    rw [executeToolWithReplan]
    cases st.loopDetector.isLooping hs with
    | some msg => exact .err (PlanError.loop msg)
    | none =>
      simp only [Prog.perform, Prog.call_bind, Prog.ret_bind]
      refine .call ?_
      intro r r' alike
      rcases r with e | result <;> rcases r' with e' | result'
      · have htext : e.toString = e'.toString := alike
        dsimp only
        rw [htext]
        split
        · exact .err (PlanError.maxReplansPerStep _ _)
        split
        · exact .err (PlanError.maxReplansPerTask _)
        refine lockstep_pushMessage fun stm => lockstep_callReason fun response =>
          lockstep_pushThought fun stm => ?_
        split
        · exact .ret (.finalAnswer _ _ _)
        split
        · exact .err (emptyAction _)
        · exact ih _ (by omega) rfl
      · exact alike.elim
      · exact alike.elim
      · exact .ret (.observation _ alike)

theorem lockstep_iterate {remaining i : Nat} :
    Prog.Lockstep Alike Eq (iterate hs ex goal memoryContext remaining i st)
      (iterate hs ex goal memoryContext remaining i st) := by
  induction remaining generalizing i st with
  | zero =>
    rw [iterate]
    exact lockstep_finish.bind fun _ _ _ => .err (PlanError.maxIterationsReached _)
  | succ remaining ih =>
    rw [iterate]
    simp only [Prog.perform, Prog.call_bind, Prog.ret_bind]
    refine .call fun _ _ _ => lockstep_summarizeIfNeeded fun stm =>
      lockstep_callReason fun response => lockstep_pushThought fun stm => ?_
    split
    · exact lockstep_finish
    split
    · exact .err (emptyAction _)
    refine lockstep_executeToolWithReplan.bind ?_
    intro a b hab
    cases hab with
    | @observation result result' st alike =>
      dsimp only
      rw [alike.formatObservation_eq]
      split
      · exact .panic charBoundary
      · exact lockstep_pushMessage fun stm => ih
    | finalAnswer thought answer st => exact lockstep_pushThought fun stm => lockstep_finish

theorem lockstep_raced :
    Prog.Lockstep Alike Eq (raced hs ex goal) (raced hs ex goal) := by
  unfold raced
  split
  · exact .panic _
  unfold executeInner
  split
  · exact .panic _
  · exact lockstep_pushMessage fun stm => lockstep_iterate

end Lockstep

/-! ## The message that follows a call -/

def received? : Event → Option (String × Except ToolError Json)
  | ⟨.executeWithTimeout action _ _, answer⟩ => some (action, answer)
  | _ => none

/-- The tool call that the run ends with, and its result. -/
def received (h : Trace) : Option (String × Except ToolError Json) := h.getLast?.bind received?

omit [SerdeJson] in
theorem received_concat (h : Trace) (e : Event) : received (h ++ [e]) = received? e := by
  simp [received]

/-- What the model is told of a result. -/
def relay (asked : Option String) (action : String) : Except ToolError Json → Option String
  | .ok result => formatObservation (byRequest asked action) result
  | .error e => some (errorContext action e.toString)

/-- The guarantee of a run: what comes after a call is the message about it. -/
def Relays (h : Trace) (c : Command) : Prop :=
  ∀ action answer, received h = some (action, answer) → ∃ stm text,
    c = .pushed stm (message .user text) ∧
    relay (narration byRequest h).asked action answer = some text

/-- A run that ends with a result could not show it. -/
def Unseen (h : Trace) : Prop :=
  ∀ action result, received h = some (action, .ok result) → formatObservation action result = none

/-- The assertion: only where a step has handed back a result, or a failure is to be told, has the
last exchange been a call. -/
def RelaysAt : Phase → Trace → Prop
  | .handed _ first (.observation result), h =>
    ∃ action, received h = some (action, .ok result) ∧ (narration byRequest h).asked = some first
  | .failing _ _ _ text, h =>
    ∃ action e, received h = some (action, .error e) ∧ text = errorContext action e.toString
  | .ended _, h => Unseen h
  | _, h => received h = none

section Phases

variable {hs : Hashing} {ex : PlanExecutor} {goal : String} {h : Trace} {p p' : Phase}
  {st st' : RunState} {e : Event}

theorem unseen_of_none (hnone : received h = none) : Unseen h := by
  intro action result hreceived
  rw [hnone] at hreceived
  cases hreceived

theorem relays_of_none {c : Command} (hnone : received h = none) : Relays h c := by
  intro action answer hreceived
  rw [hnone] at hreceived
  cases hreceived

theorem relaysAt_turn (ht : Turn hs ex st p p') (hp : RelaysAt p h) : RelaysAt p' h := by
  cases ht with
  | exhausted | fits | thoughtless | final | acts | rethoughtless | concedes | retries | said
  | unattached => exact hp
  | empty | loop | reempty | returns | reached => exact unseen_of_none hp
  | unshown cut =>
    obtain ⟨action, hreceived, -⟩ := hp
    intro action' result' hreceived'
    cases hreceived.symm.trans hreceived'
    exact formatObservation_eq_none cut

theorem relaysAt_step (hst : Step hs ex goal p st e p' st') (ht : Tells goal p st h) :
    RelaysAt p' (h ++ [e]) := by
  cases hst with
  | goal | iteration | summarized | answered | considered | told | replanned | reconsidered
  | observed | repeated | elapsed | inserted => exact received_concat h _
  | unsummarized | unanswered | unreplanned => exact unseen_of_none (received_concat h _)
  | succeeded result =>
    refine ⟨_, received_concat h _, ?_⟩
    rw [narration_concat]
    exact Told.asked_eq ht
  | perStep e | perTask e =>
    intro action result hreceived
    rw [received_concat] at hreceived
    cases hreceived
  | failed e => exact ⟨_, e, received_concat h _, rfl⟩

theorem relaysAt_asks (hst : Step hs ex goal p st e p' st') (hp : RelaysAt p h) :
    Relays h e.1 := by
  cases hst with
  | goal | iteration | summarized | unsummarized | answered | unanswered | considered | succeeded
  | perStep | perTask | failed | replanned | unreplanned | reconsidered | repeated | elapsed
  | inserted => exact relays_of_none hp
  | told =>
    obtain ⟨action, e, hreceived, rfl⟩ := hp
    intro action' answer hreceived'
    cases hreceived.symm.trans hreceived'
    exact ⟨_, _, rfl, rfl⟩
  | observed shown =>
    obtain ⟨action, hreceived, hasked⟩ := hp
    intro action' answer hreceived'
    cases hreceived.symm.trans hreceived'
    refine ⟨_, _, rfl, ?_⟩
    rw [hasked]
    exact shown

theorem annotates_relaysAt :
    Annotates hs ex goal (fun p st h => Tells goal p st h ∧ RelaysAt p h) Relays
      fun h _ => Unseen h where
  refused := unseen_of_none rfl
  start _ _ := ⟨rfl, rfl⟩
  turn ht hp := ⟨tells_turn ht hp.1, relaysAt_turn ht hp.2⟩
  step hst hp := ⟨tells_step hst hp.1, relaysAt_step hst hp.1⟩
  asks hst hp := relaysAt_asks hst hp.2
  ends hp := hp.2

end Phases

section Runs

variable {hs : Hashing} {ex : PlanExecutor} {goal action : String} {input : Json} {timeout : Nat}
  {h h' : Trace}

theorem relay_of_pending {answer : Except ToolError Json} {c : Command}
    (hc : Prog.Pending (raced hs ex goal) (h ++ [⟨.executeWithTimeout action input timeout, answer⟩])
      c) :
    ∃ stm text, c = .pushed stm (message .user text) ∧
      relay (narration byRequest h).asked action answer = some text := by
  obtain ⟨stm, text, hpushed, hrelay⟩ := Prog.wp_pending annotates_relaysAt.wp_raced hc action answer
    (received_concat h _)
  refine ⟨stm, text, hpushed, ?_⟩
  have hasked : (narration byRequest
      (h ++ [⟨.executeWithTimeout action input timeout, answer⟩])).asked =
        (narration byRequest h).asked := by
    rw [narration_concat]
    cases answer <;> rfl
  rwa [hasked] at hrelay

/-- The run goes on after a result that can be shown. -/
theorem pending_of_shown {result : Json}
    (hc : Prog.Pending (raced hs ex goal) h (.executeWithTimeout action input timeout))
    (hshown : formatObservation action result ≠ none) :
    ∃ c, Prog.Pending (raced hs ex goal)
      (h ++ [⟨.executeWithTimeout action input timeout, .ok result⟩]) c := by
  obtain ⟨k, hk⟩ := hc
  refine (hk.snoc (.ok result)).waits_or_ends.resolve_right ?_
  rintro ⟨e, he⟩
  exact hshown (Prog.wp_ends annotates_relaysAt.wp_raced he action result (received_concat h _))

end Runs

/-! ## What the message tells -/

theorem seenAlike_of_observation {action text : String} {result result' : Json}
    (h : formatObservation action result = some text)
    (h' : formatObservation action result' = some text) : SeenAlike result result' := by
  rw [formatObservation_eq] at h h'
  obtain ⟨out, hout, rfl⟩ := Option.map_eq_some_iff.1 h
  obtain ⟨out', hout', heq⟩ := Option.map_eq_some_iff.1 h'
  have hsame : out = out' := (String.append_right_inj _).1 heq.symm
  rwa [truncate_eq_iff hout hout'] at hsame

/-- An observation begins otherwise than a failure. -/
theorem observation_ne_errorContext {first action text msg : String} {result : Json}
    (h : formatObservation first result = some text) : text ≠ errorContext action msg := by
  rw [formatObservation_eq] at h
  obtain ⟨out, -, rfl⟩ := Option.map_eq_some_iff.1 h
  intro heq
  have hhead := congrArg (fun s => s.toList.head?) heq
  simp [errorContext] at hhead

theorem alike_of_relay {asked : Option String} {action text : String} {input : Json} {timeout : Nat}
    {answer answer' : Except ToolError Json} (h : relay asked action answer = some text)
    (h' : relay asked action answer' = some text) :
    Alike (.executeWithTimeout action input timeout) answer answer' := by
  cases answer with
  | ok result =>
    cases answer' with
    | ok result' => exact seenAlike_of_observation h h'
    | error e' => exact absurd (Option.some.inj h').symm (observation_ne_errorContext h)
  | error e =>
    cases answer' with
    | ok result' => exact absurd (Option.some.inj h).symm (observation_ne_errorContext h')
    | error e' =>
      have htext : e.toString = e'.toString := by
        simpa [errorContext] using Option.some.inj (h.trans h'.symm)
      exact htext

/-! ## Telling results apart -/

section Runs

variable {hs : Hashing} {ex : PlanExecutor} {goal : String} {h h' : Trace}

/-- **What the loop can tell of a result.** Runs whose answers are alike go on and end in the same way.
After runs that are alike, two results of one call make the loop go on in the same way exactly if they
are alike, too: of a printed result only the part that is cut away is lost. -/
theorem told_apart_iff (hh : List.Forall₂ (Matched Alike) h h') :
    (∀ c, Prog.Pending (raced hs ex goal) h c ↔ Prog.Pending (raced hs ex goal) h' c) ∧
    (∀ e, Prog.Ends (raced hs ex goal) h e ↔ Prog.Ends (raced hs ex goal) h' e) ∧
    ∀ action input timeout answer answer' c c',
      Prog.Pending (raced hs ex goal) (h ++ [⟨.executeWithTimeout action input timeout, answer⟩]) c →
      Prog.Pending (raced hs ex goal) (h' ++ [⟨.executeWithTimeout action input timeout, answer'⟩])
        c' →
      (c = c' ↔ Alike (.executeWithTimeout action input timeout) answer answer') := by
  have hloop : Prog.Lockstep Alike Eq (raced hs ex goal) (raced hs ex goal) := lockstep_raced
  obtain ⟨hpending, hends⟩ := hloop.indistinguishable alike_symm hh
  refine ⟨hpending, hends, ?_⟩
  intro action input timeout answer answer' c c' hc hc'
  constructor
  · rintro rfl
    -- both answers may be taken to come after `h`
    have hsame := matched_refl alike_refl [⟨.executeWithTimeout action input timeout, answer'⟩]
    obtain ⟨hback, -⟩ := hloop.indistinguishable alike_symm (List.rel_append hh hsame)
    obtain ⟨stm, text, rfl, hrelay⟩ := relay_of_pending hc
    obtain ⟨stm', text', heq, hrelay'⟩ := relay_of_pending ((hback _).2 hc')
    cases heq
    exact alike_of_relay hrelay hrelay'
  · intro alike
    have hlast : List.Forall₂ (Matched Alike)
        [⟨.executeWithTimeout action input timeout, answer⟩]
        [⟨.executeWithTimeout action input timeout, answer'⟩] := .cons ⟨alike⟩ .nil
    obtain ⟨hforth, -⟩ := hloop.indistinguishable alike_symm (List.rel_append hh hlast)
    exact ((hforth c).1 hc).functional hc'

end Runs

end Answers

def probe : Command := .ofCall noTools "probe" .null

attribute [local instance] SerdeJson.plain

/-- A failed insert is as good as any, and `1` is not taken for `2`. -/
theorem told_apart_iff_probe :
    (∀ h episode e, Prog.Ends (raced sameHash noTools "count") (h ++ [⟨.insert episode, .ok ()⟩]) e ↔
      Prog.Ends (raced sameHash noTools "count") (h ++ [⟨.insert episode, .error "locked"⟩]) e) ∧
    ∃ h c c', Prog.Pending (raced sameHash noTools "count") (h ++ [⟨probe, .ok (.int 1)⟩]) c ∧
      Prog.Pending (raced sameHash noTools "count") (h ++ [⟨probe, .ok (.int 2)⟩]) c' ∧ c ≠ c' := by
  constructor
  · intro h episode e
    have hinsert : List.Forall₂ (Matched Alike) [⟨.insert episode, .ok ()⟩]
        [⟨.insert episode, .error "locked"⟩] := .cons ⟨trivial⟩ .nil
    exact (told_apart_iff (List.rel_append (matched_refl alike_refl h) hinsert)).2.1 e
  · have hcan : CanIterate noTools := ⟨by decide +kernel, by decide, by decide⟩
    have hmay : (raced sameHash noTools "count").May (· = probe) := mayDispatch hcan (by decide)
    obtain ⟨h, _, hprobe, rfl⟩ := hmay
    have hshown : formatObservation "probe" (.int 1) ≠ none ∧
        formatObservation "probe" (.int 2) ≠ none := by decide +kernel
    obtain ⟨c, hc⟩ := pending_of_shown hprobe hshown.1
    obtain ⟨c', hc'⟩ := pending_of_shown hprobe hshown.2
    refine ⟨h, c, c', hc, hc', ?_⟩
    have htold := (told_apart_iff (matched_refl alike_refl h)).2.2 "probe" .null _ _ _ c c'
      hc hc'
    rw [Ne, htold]
    rintro (heq | ⟨hlt, -⟩)
    · exact absurd heq (by decide +kernel)
    · exact absurd hlt (by decide +kernel)

end PlanExecutor

end Xola
