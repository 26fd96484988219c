import Xola.Planning.Verify.Accounting
import Xola.Planning.Verify.Phases

/-!
# The transcript in short-term memory

The transcript of a run is read from the answers of the model and of the tools alone: the goal, then
each thought, each observation under the name of the tool it comes from, and each failure that the
model is asked about again. The messages that the loop pushes are this transcript, up to two slips.
The thought of a final answer given in a replan is pushed where it is received and once more where
the task ends; and an observation is headed by the tool that the iteration asked for first, which
after a replan need not be the one that was called.
-/

namespace Xola.PlanExecutor

open Interaction

/-! ## Pushes and transcripts -/

section Transcripts

variable [SerdeJson]

def pushed? : Event → Option Message
  | ⟨.pushed _ msg, _⟩ => some msg
  | _ => none

/-- The messages that entered short-term memory. -/
def pushes (h : Trace) : List Message := h.filterMap pushed?

/-- A thought is told unless it is empty. -/
def thoughts (thought : String) : List Message :=
  if thought = "" then [] else [message .assistant thought]

def observations (action : String) (result : Json) : List Message :=
  ((formatObservation action result).map (message .user)).toList

/-- What has been told, the failure that is told once the model is asked again, and the tool that
the current iteration asked for first. -/
structure Narration where
  told : List Message
  failure : Option Message
  asked : Option String

/-- How an observation is headed, given the tool asked for first and the one that was called. -/
abbrev Heading := Option String → String → String

/-- By the tool that was called. -/
def byCall : Heading := fun _ action => action

/-- By the tool that was asked for first. -/
def byRequest : Heading := fun asked action => asked.getD action

def narrate (heading : Heading) (n : Narration) : Event → Narration
  | ⟨.iteration _, _⟩ => { n with asked := none }
  | ⟨.reason _, .ok response⟩ =>
    ⟨n.told ++ n.failure.toList ++ thoughts response.thought, none,
      n.asked.or (some (response.action.getD ""))⟩
  | ⟨.reason _, .error _⟩ => ⟨n.told ++ n.failure.toList, none, n.asked⟩
  | ⟨.executeWithTimeout action _ _, .ok result⟩ =>
    { n with told := n.told ++ observations (heading n.asked action) result, failure := none }
  | ⟨.executeWithTimeout action _ _, .error e⟩ =>
    { n with failure := some (message .user (errorContext action e.toString)) }
  | _ => n

def narration (heading : Heading) (h : Trace) : Narration := h.foldl (narrate heading) ⟨[], none, none⟩

/-- The messages that the run `h` should have pushed. A failure is told when the model is asked
again, be it for the call that is still waiting. -/
def transcript (heading : Heading) (goal : String) (h : Trace) (cut : Option Command) :
    List Message :=
  message .user goal :: (narration heading h).told ++
    if cut.any Command.isReason then (narration heading h).failure.toList else []

/-- A final answer with a thought, given in a replan. -/
def RepeatsThought (before : Trace) : Event → Prop
  | ⟨.reason _, .ok response⟩ =>
    (narration byCall before).failure ≠ none ∧ response.isFinal = true ∧ response.thought ≠ ""
  | _ => False

/-- A successful call of another tool than the one that the iteration asked for first. -/
def Renames (before : Trace) : Event → Prop
  | ⟨.executeWithTimeout action _ _, .ok _⟩ =>
    ∃ first, (narration byCall before).asked = some first ∧ first ≠ action
  | _ => False

/-- Some event of the run is such. -/
def Occurs (P : Trace → Event → Prop) (h : Trace) : Prop := ∃ before e, before ++ [e] <+: h ∧ P before e

section Readings

variable {goal : String} {h : Trace} {e : Event} {heading : Heading}

omit [SerdeJson] in
theorem pushes_concat (h : Trace) (e : Event) :
    pushes (h ++ [e]) = pushes h ++ (pushed? e).toList := by
  rw [pushes, List.filterMap_append, pushes]
  cases he : pushed? e <;> simp only [List.filterMap_cons, List.filterMap_nil, he] <;> rfl

theorem narration_concat (h : Trace) (e : Event) :
    narration heading (h ++ [e]) = narrate heading (narration heading h) e := by
  rw [narration, List.foldl_append]
  rfl

omit [SerdeJson] in
theorem occurs_concat {P : Trace → Event → Prop} :
    Occurs P (h ++ [e]) ↔ Occurs P h ∨ P h e := by
  constructor
  · rintro ⟨before, e', hp, hP⟩
    rcases List.prefix_concat_iff.1 hp with heq | hp
    · obtain ⟨rfl, hsingle⟩ := List.append_inj' heq rfl
      obtain rfl := List.singleton_inj.1 hsingle
      exact .inr hP
    · exact .inl ⟨before, e', hp, hP⟩
  · rintro (⟨before, e', hp, hP⟩ | hP)
    · exact ⟨before, e', hp.trans (List.prefix_append h [e]), hP⟩
    · exact ⟨h, e, List.prefix_refl _, hP⟩

omit [SerdeJson] in
theorem not_occurs_nil {P : Trace → Event → Prop} : ¬Occurs P [] := by
  rintro ⟨before, e, hp, -⟩
  exact absurd (List.prefix_nil.1 hp) (by simp)

/-! ## The two headings -/

/-- A successful call whose observation can be shown: the cut does not fall inside a character. -/
def Shown : Event → Prop
  | ⟨.executeWithTimeout action _ _, .ok result⟩ => formatObservation action result ≠ none
  | _ => True

theorem formatObservation_inj {first action text : String} {result : Json}
    (h₁ : formatObservation first result = some text)
    (h₂ : formatObservation action result = some text) : first = action := by
  unfold formatObservation at h₁ h₂
  obtain ⟨body, hbody, rfl⟩ := Option.map_eq_some_iff.1 h₁
  obtain ⟨body', hbody', heq⟩ := Option.map_eq_some_iff.1 h₂
  obtain rfl : body' = body := Option.some.inj (hbody'.symm.trans hbody)
  simpa [String.append_left_inj, String.append_right_inj] using heq.symm

/-- Whether an observation can be shown does not depend on its heading. -/
theorem formatObservation_eq_none {first action : String} {result : Json}
    (hnone : formatObservation first result = none) : formatObservation action result = none := by
  unfold formatObservation at hnone ⊢
  exact Option.map_eq_none_iff.2 (Option.map_eq_none_iff.1 hnone)

theorem observations_inj {first action : String} {result : Json}
    (hs : formatObservation action result ≠ none) :
    observations first result = observations action result ↔ first = action := by
  refine ⟨?_, fun heq => by rw [heq]⟩
  intro heq
  obtain ⟨text, htext⟩ := Option.ne_none_iff_exists'.1 hs
  cases hfirst : formatObservation first result with
  | none => exact absurd (formatObservation_eq_none hfirst) hs
  | some text' =>
    unfold observations at heq
    simp only [hfirst, htext, Option.map_some, Option.toList_some, List.cons.injEq, message,
      Message.mk.injEq] at heq
    exact formatObservation_inj (heq.1.2.1 ▸ hfirst) htext

theorem observations_length (first action : String) (result : Json) :
    (observations first result).length = (observations action result).length := by
  unfold observations
  cases hfirst : formatObservation first result with
  | none => rw [formatObservation_eq_none hfirst]
  | some text =>
    cases haction : formatObservation action result with
    | none =>
      have hnone : formatObservation first result = none := formatObservation_eq_none haction
      exact absurd (hfirst.symm.trans hnone) (Option.some_ne_none _)
    | some text' => rfl

/-- The headings make no difference to the rest of the narration. -/
theorem narration_byRequest (h : Trace) :
    (narration byRequest h).failure = (narration byCall h).failure ∧
      (narration byRequest h).asked = (narration byCall h).asked ∧
      (narration byRequest h).told.length = (narration byCall h).told.length := by
  induction h using List.reverseRecOn with
  | nil => exact ⟨rfl, rfl, rfl⟩
  | append_singleton h e ih =>
    obtain ⟨hfailure, hasked, hlength⟩ := ih
    simp only [narration_concat]
    obtain ⟨c, r⟩ := e
    cases c with
    | iteration | pushed | summarize | elapsed | insert =>
      exact ⟨hfailure, by simp only [narrate, hasked], hlength⟩
    | reason req =>
      cases r <;> simp only [narrate, List.length_append, hfailure, hasked, hlength, and_self]
    | executeWithTimeout action input timeout =>
      cases r with
      | error e => exact ⟨rfl, hasked, hlength⟩
      | ok result =>
        refine ⟨rfl, hasked, ?_⟩
        simp only [narrate, List.length_append, hlength]
        rw [observations_length _ action, byCall]

/-- The observations are headed alike as long as no other tool is called. -/
theorem told_byRequest_iff (hs : ∀ e ∈ h, Shown e) :
    (narration byRequest h).told = (narration byCall h).told ↔ ¬Occurs Renames h := by
  induction h using List.reverseRecOn with
  | nil => exact iff_of_true rfl not_occurs_nil
  | append_singleton h e ih =>
    have ih := ih fun e' he' => hs e' (List.mem_append_left _ he')
    obtain ⟨hfailure, hasked, hlength⟩ := narration_byRequest h
    rw [occurs_concat, narration_concat, narration_concat, not_or, ← ih]
    obtain ⟨c, r⟩ := e
    cases c with
    | iteration | pushed | summarize | elapsed | insert =>
      simp only [narrate, Renames, not_false_eq_true, and_true]
    | reason req =>
      cases r <;>
        simp only [narrate, Renames, hfailure, List.append_left_inj, not_false_eq_true, and_true]
    | executeWithTimeout action input timeout =>
      cases r with
      | error e => simp only [narrate, Renames, not_false_eq_true, and_true]
      | ok result =>
        have hshown : formatObservation action result ≠ none :=
          hs ⟨.executeWithTimeout action input timeout, .ok result⟩ (by simp)
        have hheading : byRequest (narration byCall h).asked action = action ↔
            ¬∃ first, (narration byCall h).asked = some first ∧ first ≠ action := by
          cases (narration byCall h).asked <;> simp [byRequest]
        simp only [narrate, Renames, hasked, byCall]
        rw [← hheading, ← observations_inj hshown]
        constructor
        · exact fun heq => List.append_inj heq hlength
        · rintro ⟨htold, hobs⟩
          rw [htold, hobs]

/-- The transcript is told with the failure that a waiting call to the model answers. -/
theorem transcript_byRequest_iff (hs : ∀ e ∈ h, Shown e) (cut : Option Command) :
    transcript byRequest goal h cut = transcript byCall goal h cut ↔ ¬Occurs Renames h := by
  unfold transcript
  rw [(narration_byRequest h).1, List.append_left_inj, List.cons_inj_right, told_byRequest_iff hs]

theorem transcript_length (h : Trace) (cut : Option Command) :
    (transcript byRequest goal h cut).length = (transcript byCall goal h cut).length := by
  obtain ⟨hfailure, -, hlength⟩ := narration_byRequest h
  simp only [transcript, List.length_append, List.length_cons, hfailure, hlength]

end Readings

/-! ## What has been pushed at each point of the loop -/

/-- The pushes are the transcript, and a message more if a thought is repeated. -/
structure Faithful (goal : String) (h : Trace) (cut : Option Command) : Prop where
  shown : ∀ e ∈ h, Shown e
  pushes_eq : ∃ extra, pushes h = transcript byRequest goal h cut ++ extra ∧
    (extra = [] ↔ ¬Occurs RepeatsThought h)

/-- In an iteration whose first call goes to `asked`, what has been told is pushed up to `rest`, and
`twice` says whether a thought is going to be repeated. -/
structure Told (goal : String) (asked : Option String) (twice : Prop) (rest : List Message)
    (h : Trace) : Prop where
  shown : ∀ e ∈ h, Shown e
  twice_iff : Occurs RepeatsThought h ↔ twice
  pushes_eq : pushes h ++ rest = message .user goal :: (narration byRequest h).told
  failure_eq : (narration byRequest h).failure = none
  asked_eq : (narration byRequest h).asked = asked

/-- After a call that failed with `msg`, of which `ahead` has been pushed. -/
structure Failed (goal : String) (asked : Option String) (msg : Message) (ahead : List Message)
    (h : Trace) : Prop where
  shown : ∀ e ∈ h, Shown e
  once : ¬Occurs RepeatsThought h
  pushes_eq : pushes h = message .user goal :: (narration byRequest h).told ++ ahead
  failure_eq : (narration byRequest h).failure = some msg
  asked_eq : (narration byRequest h).asked = asked

/-- The task is about to end. -/
structure Closing (goal : String) (h : Trace) : Prop where
  shown : ∀ e ∈ h, Shown e
  failure_eq : (narration byRequest h).failure = none
  pushes_eq : ∃ extra, pushes h = message .user goal :: (narration byRequest h).told ++ extra ∧
    (extra = [] ↔ ¬Occurs RepeatsThought h)

section Steps

variable {goal first : String} {h : Trace} {asked : Option String} {msg : Message} {twice : Prop}
  {ahead rest : List Message}

/-- An exchange that tells nothing. -/
structure Quiet (e : Event) : Prop where
  shown : Shown e
  once : ∀ h, ¬RepeatsThought h e
  pushed_eq : pushed? e = none
  narrate_eq : ∀ n, narrate byRequest n e = n

theorem quiet_summarize (request : SummarizeRequest)
    (answer : Except IpcError SummarizeResponse) : Quiet ⟨.summarize request, answer⟩ :=
  ⟨trivial, fun _ => id, rfl, fun _ => rfl⟩

theorem quiet_elapsed (ms : Nat) : Quiet ⟨.elapsed, ms⟩ :=
  ⟨trivial, fun _ => id, rfl, fun _ => rfl⟩

theorem quiet_insert (episode : EpisodeInput) (answer : Except String Unit) :
    Quiet ⟨.insert episode, answer⟩ :=
  ⟨trivial, fun _ => id, rfl, fun _ => rfl⟩

theorem Quiet.pushes_concat {e : Event} (he : Quiet e) : pushes (h ++ [e]) = pushes h := by
  rw [PlanExecutor.pushes_concat, he.pushed_eq]
  exact List.append_nil _

theorem Quiet.narration_concat {e : Event} (he : Quiet e) :
    narration byRequest (h ++ [e]) = narration byRequest h := by
  rw [PlanExecutor.narration_concat, he.narrate_eq]

theorem shown_concat {e : Event} (hs : ∀ e' ∈ h, Shown e') (he : Shown e) :
    ∀ e' ∈ h ++ [e], Shown e' := by
  intro e' he'
  rcases List.mem_append.1 he' with he' | he'
  · exact hs e' he'
  · obtain rfl := List.mem_singleton.1 he'
    exact he

theorem occurs_concat_iff {e : Event} (ho : Occurs RepeatsThought h ↔ twice)
    (he : ¬RepeatsThought h e) : Occurs RepeatsThought (h ++ [e]) ↔ twice := by
  rw [occurs_concat, or_iff_left he, ho]

theorem Closing.faithful (hc : Closing goal h) (cut : Option Command) : Faithful goal h cut := by
  obtain ⟨hs, hfailure, extra, hpushes, honce⟩ := hc
  refine ⟨hs, extra, ?_, honce⟩
  rw [hpushes, transcript, hfailure]
  split <;> simp

theorem Closing.quiet {e : Event} (hc : Closing goal h) (he : Quiet e) :
    Closing goal (h ++ [e]) := by
  obtain ⟨hs, hfailure, extra, hpushes, honce⟩ := hc
  refine ⟨shown_concat hs he.shown, ?_, extra, ?_, ?_⟩
  · rw [he.narration_concat, hfailure]
  · rw [he.narration_concat, he.pushes_concat, hpushes]
  · rw [honce, occurs_concat_iff Iff.rfl (he.once h)]

theorem Told.closing (ht : Told goal asked twice [] h) (hn : ¬twice) : Closing goal h :=
  ⟨ht.shown, ht.failure_eq, [], by simpa using ht.pushes_eq,
    iff_of_true rfl fun htwice => hn (ht.twice_iff.1 htwice)⟩

theorem Told.faithful (ht : Told goal asked False [] h) (cut : Option Command) :
    Faithful goal h cut :=
  (ht.closing id).faithful cut

theorem Failed.faithful (hf : Failed goal asked msg [] h) : Faithful goal h none :=
  ⟨hf.shown, [], by simpa [transcript] using hf.pushes_eq, iff_of_true rfl hf.once⟩

/-! ## One more exchange -/

theorem Told.quiet {e : Event} (ht : Told goal asked twice rest h) (he : Quiet e) :
    Told goal asked twice rest (h ++ [e]) := by
  obtain ⟨hs, honce, hpushes, hfailure, hasked⟩ := ht
  refine ⟨shown_concat hs he.shown, occurs_concat_iff honce (he.once h), ?_, ?_, ?_⟩
  · rw [he.narration_concat, he.pushes_concat, hpushes]
  · rw [he.narration_concat, hfailure]
  · rw [he.narration_concat, hasked]

theorem Told.iteration (ht : Told goal asked twice rest h) (i : Nat) :
    Told goal none twice rest (h ++ [⟨.iteration i, ()⟩]) := by
  obtain ⟨hs, honce, hpushes, hfailure, -⟩ := ht
  refine ⟨shown_concat hs trivial, occurs_concat_iff honce id, ?_, ?_, ?_⟩ <;>
    rw [narration_concat]
  · rw [pushes_concat]
    exact (congrArg (· ++ rest) (List.append_nil _)).trans hpushes
  · exact hfailure
  · rfl

theorem Told.pushed (ht : Told goal asked twice (msg :: rest) h) (stm : ShortTermMemory) :
    Told goal asked twice rest (h ++ [⟨.pushed stm msg, ()⟩]) := by
  obtain ⟨hs, honce, hpushes, hfailure, hasked⟩ := ht
  refine ⟨shown_concat hs trivial, occurs_concat_iff honce id, ?_, ?_, ?_⟩ <;>
    rw [narration_concat]
  · rw [pushes_concat, List.append_assoc]
    exact hpushes
  · exact hfailure
  · exact hasked

/-- The repetition itself. -/
theorem Told.repeated (ht : Told goal asked twice [] h) (htwice : twice) (stm : ShortTermMemory)
    (msg : Message) : Closing goal (h ++ [⟨.pushed stm msg, ()⟩]) := by
  obtain ⟨hs, honce, hpushes, hfailure, -⟩ := ht
  refine ⟨shown_concat hs trivial, ?_, [msg], ?_, ?_⟩
  · rw [narration_concat]
    exact hfailure
  · rw [pushes_concat, narration_concat, ← List.append_nil (pushes h), hpushes]
    rfl
  · rw [occurs_concat_iff honce id]
    exact iff_of_false (List.cons_ne_nil _ _) (not_not_intro htwice)

/-- The model answers the request of the iteration. -/
theorem Told.response (ht : Told goal none twice [] h) (request : ReasonRequest)
    (response : ReasonResponse) :
    Told goal (some (response.action.getD "")) twice (thoughts response.thought)
      (h ++ [⟨.reason request, .ok response⟩]) := by
  obtain ⟨hs, honce, hpushes, hfailure, hasked⟩ := ht
  rw [List.append_nil] at hpushes
  refine ⟨shown_concat hs trivial, occurs_concat_iff honce ?_, ?_, ?_, ?_⟩
  · rintro ⟨hreplan, -⟩
    exact hreplan ((narration_byRequest h).1.symm.trans hfailure)
  · rw [pushes_concat, narration_concat]
    simp [pushed?, narrate, hfailure, hpushes]
  · rw [narration_concat]
    rfl
  · rw [narration_concat]
    simp only [narrate, hasked, Option.none_or]

theorem Told.refused (ht : Told goal asked False [] h) (request : ReasonRequest) (e : IpcError) :
    Closing goal (h ++ [⟨.reason request, .error e⟩]) := by
  obtain ⟨hs, honce, hpushes, hfailure, -⟩ := ht
  rw [List.append_nil] at hpushes
  refine ⟨shown_concat hs trivial, ?_, [], ?_, ?_⟩
  · rw [narration_concat]
    rfl
  · rw [pushes_concat, narration_concat]
    simp [pushed?, narrate, hfailure, hpushes]
  · exact iff_of_true rfl fun hboth => (occurs_concat_iff honce id).1 hboth

/-- The call that the iteration asked for, or that a replan asked for instead, succeeds. -/
theorem Told.called {text : String} (ht : Told goal (some first) twice [] h) {action : String}
    {input : Json} {timeout : Nat} {result : Json}
    (htext : formatObservation first result = some text) :
    Told goal (some first) twice [message .user text]
      (h ++ [⟨.executeWithTimeout action input timeout, .ok result⟩]) := by
  obtain ⟨hs, honce, hpushes, hfailure, hasked⟩ := ht
  rw [List.append_nil] at hpushes
  have hshown : formatObservation action result ≠ none := by
    intro hnone
    have hnone' : formatObservation first result = none := formatObservation_eq_none hnone
    exact absurd (htext.symm.trans hnone') (Option.some_ne_none _)
  refine ⟨shown_concat hs hshown, occurs_concat_iff honce id, ?_, ?_, ?_⟩
  · rw [pushes_concat, narration_concat]
    simp [pushed?, narrate, hasked, byRequest, observations, htext, hpushes]
  · rw [narration_concat]
    rfl
  · rw [narration_concat]
    exact hasked

theorem Told.failed (ht : Told goal asked False [] h) (action : String) (input : Json)
    (timeout : Nat) (e : ToolError) :
    Failed goal asked (message .user (errorContext action e.toString)) []
      (h ++ [⟨.executeWithTimeout action input timeout, .error e⟩]) := by
  obtain ⟨hs, honce, hpushes, hfailure, hasked⟩ := ht
  rw [List.append_nil] at hpushes
  refine ⟨shown_concat hs trivial, (occurs_concat_iff honce id).1, ?_, ?_, ?_⟩ <;>
    rw [narration_concat]
  · rw [pushes_concat]
    simp [pushed?, narrate, hpushes]
  · rfl
  · exact hasked

theorem Failed.pushed (hf : Failed goal asked msg [] h) (stm : ShortTermMemory) :
    Failed goal asked msg [msg] (h ++ [⟨.pushed stm msg, ()⟩]) := by
  obtain ⟨hs, honce, hpushes, hfailure, hasked⟩ := hf
  refine ⟨shown_concat hs trivial, (occurs_concat_iff (iff_false_intro honce) id).1, ?_, ?_, ?_⟩ <;>
    rw [narration_concat]
  · rw [pushes_concat, hpushes]
    simp [pushed?, narrate]
  · exact hfailure
  · exact hasked

/-- The failure belongs to the transcript as soon as the model is being asked again. -/
theorem Failed.asks (hf : Failed goal asked msg [msg] h) (request : ReasonRequest) :
    Faithful goal h (some (.reason request)) := by
  refine ⟨hf.shown, [], ?_, iff_of_true rfl hf.once⟩
  rw [hf.pushes_eq, transcript, hf.failure_eq]
  simp [Command.isReason]

/-- The model answers a replan. -/
theorem Failed.response (hf : Failed goal (some first) msg [msg] h) (request : ReasonRequest)
    (response : ReasonResponse) :
    Told goal (some first) (response.isFinal = true ∧ response.thought ≠ "")
      (thoughts response.thought) (h ++ [⟨.reason request, .ok response⟩]) := by
  obtain ⟨hs, honce, hpushes, hfailure, hasked⟩ := hf
  refine ⟨shown_concat hs trivial, ?_, ?_, ?_, ?_⟩
  · have hreplan : (narration byCall h).failure ≠ none := by
      rw [← (narration_byRequest h).1, hfailure]
      exact Option.some_ne_none _
    rw [occurs_concat, or_iff_right honce]
    exact and_iff_right hreplan
  · rw [pushes_concat, narration_concat, hpushes]
    simp [pushed?, narrate, hfailure]
  · rw [narration_concat]
    rfl
  · rw [narration_concat]
    simp only [narrate, hasked, Option.some_or]

theorem Failed.refused (hf : Failed goal asked msg [msg] h) (request : ReasonRequest)
    (e : IpcError) : Closing goal (h ++ [⟨.reason request, .error e⟩]) := by
  obtain ⟨hs, honce, hpushes, hfailure, -⟩ := hf
  refine ⟨shown_concat hs trivial, ?_, [], ?_, ?_⟩
  · rw [narration_concat]
    rfl
  · rw [pushes_concat, narration_concat, hpushes]
    simp [pushed?, narrate, hfailure]
  · exact iff_of_true rfl (occurs_concat_iff (iff_false_intro honce) id).1

end Steps

/-! ## The assertions of a run -/

/-- The guarantee of a run: where it waits, and may be cut, the pushes are faithful. -/
def WaitsFaithful (goal : String) (h : Trace) (c : Command) : Prop :=
  c.Awaits → Faithful goal h (some c)

/-- A run panics before its first push, or on an observation that cannot be shown. -/
def EndsFaithful {α : Type} (goal : String) (h : Trace) : Prog.Ending PlanError α → Prop
  | some _ => Faithful goal h none
  | none => h = [] ∨ ∃ e ∈ h, ¬Shown e

/-- After a call that succeeded: its observation is told, or cannot be shown. -/
def Observed (goal first : String) (result : Json) (h : Trace) : Prop :=
  match formatObservation first result with
  | some text => Told goal (some first) False [message .user text] h
  | none => ∃ e ∈ h, ¬Shown e

theorem Told.observed {goal first action : String} {h : Trace}
    (ht : Told goal (some first) False [] h) (input : Json) (timeout : Nat) (result : Json) :
    Observed goal first result
      (h ++ [⟨.executeWithTimeout action input timeout, .ok result⟩]) := by
  unfold Observed
  cases htext : formatObservation first result with
  | some text => exact ht.called htext
  | none =>
    refine ⟨_, List.mem_concat_self, ?_⟩
    exact not_not_intro (formatObservation_eq_none htext)

/-- What a step hands back to the iteration. -/
def HandsTold (goal first : String) (h : Trace) :
    Prog.Ending PlanError (StepOutcome × RunState) → Prop
  | some (.ok (.observation result, _)) => Observed goal first result h
  | some (.ok (.finalAnswer thought _, _)) => Told goal (some first) (thought ≠ "") [] h
  | some (.error _) => Faithful goal h none
  | none => False

/-- The assertion. -/
def Tells (goal : String) : Phase → RunState → Trace → Prop
  | .goal, _, h => h = []
  | .head _, _, h => ∃ asked, Told goal asked False [] h
  | .opened _, _, h | .asking _, _, h => Told goal none False [] h
  | .answered _ response, _, h =>
    Told goal (some (response.action.getD "")) False (thoughts response.thought) h
  | .considered _ response, _, h => Told goal (some (response.action.getD "")) False [] h
  | .calling _ _ first _ _, _, h => Told goal (some first) False [] h
  | .failing _ _ first text, _, h => Failed goal (some first) (message .user text) [] h
  | .replanning _ _ first, _, h => ∃ msg, Failed goal (some first) msg [msg] h
  | .replanned _ _ first response, _, h =>
    Told goal (some first) (response.isFinal = true ∧ response.thought ≠ "")
      (thoughts response.thought) h
  | .reconsidered _ _ first response, _, h =>
    Told goal (some first) (response.isFinal = true ∧ response.thought ≠ "") [] h
  | .handed _ first outcome, st, h => HandsTold goal first h (some (.ok (outcome, st)))
  | .closing _ _ _, _, h | .recording _, _, h | .recorded _, _, h => Closing goal h
  | .ended e, _, h => EndsFaithful goal h e

section Phases

variable {hs : Hashing} {ex : PlanExecutor} {goal first : String} {h : Trace} {p p' : Phase}
  {st st' : RunState} {e : Event} {asked : Option String} {twice : Prop} {thought : String}

theorem Told.silent (ht : Told goal asked twice (thoughts thought) h) (hempty : thought = "") :
    Told goal asked twice [] h := by
  rwa [thoughts, if_pos hempty] at ht

theorem Told.considered (ht : Told goal asked twice (thoughts thought) h) (hne : thought ≠ "")
    (st : RunState) : Told goal asked twice [] (h ++ [pushing st .assistant thought]) := by
  rw [thoughts, if_neg hne] at ht
  exact ht.pushed st.stm

/-- A response that is not final repeats nothing. -/
theorem Told.unfinal {response : ReasonResponse} {rest : List Message}
    (ht : Told goal asked (response.isFinal = true ∧ response.thought ≠ "") rest h)
    (hnot : response.isFinal = false) : Told goal asked False rest h := by
  simpa [hnot] using ht

theorem tells_turn (ht : Turn hs ex st p p') (hp : Tells goal p st h) : Tells goal p' st h := by
  cases ht with
  | exhausted =>
    obtain ⟨asked, hp⟩ := hp
    exact hp.closing id
  | fits | acts => exact hp
  | thoughtless silent => exact Told.silent hp silent
  | final => exact Told.closing hp id
  | empty | loop => exact Told.faithful hp none
  | rethoughtless silent => exact Told.silent hp silent
  | concedes isFinal =>
    have hhanded := hp
    simp only [Tells, isFinal, true_and] at hhanded
    exact hhanded
  | reempty _ isFinal => exact (Told.unfinal hp isFinal).faithful none
  | retries isFinal => exact Told.unfinal hp isFinal
  | unshown cut =>
    refine .inr ?_
    have hobserved : Observed _ _ _ h := hp
    rwa [Observed, cut] at hobserved
  | said silent => exact Told.closing hp (not_not_intro silent)
  | unattached => exact hp
  | returns | reached => exact Closing.faithful hp none

theorem tells_step (hst : Step hs ex goal p st e p' st') (hp : Tells goal p st h) :
    Tells goal p' st' (h ++ [e]) := by
  cases hst with
  | goal =>
    obtain rfl : h = [] := hp
    refine ⟨none, ?_, ?_, rfl, rfl, rfl⟩
    · exact shown_concat (fun _ he => absurd he List.not_mem_nil) trivial
    · exact occurs_concat_iff (iff_false_intro not_occurs_nil) id
  | iteration =>
    obtain ⟨asked, hp⟩ := hp
    exact hp.iteration _
  | summarized => exact Told.quiet hp (quiet_summarize _ _)
  | unsummarized => exact (Told.quiet hp (quiet_summarize _ _)).faithful none
  | answered response => exact Told.response hp _ response
  | unanswered e => exact (Told.refused hp _ e).faithful none
  | considered hne => exact Told.considered hp hne st
  | succeeded result => exact Told.observed hp _ _ result
  | perStep e | perTask e => exact (Told.failed hp _ _ _ e).faithful
  | failed e => exact Told.failed hp _ _ _ e
  | told => exact ⟨_, Failed.pushed hp _⟩
  | replanned response =>
    obtain ⟨msg, hp⟩ := hp
    exact hp.response _ response
  | unreplanned e =>
    obtain ⟨msg, hp⟩ := hp
    exact (hp.refused _ e).faithful none
  | reconsidered hne => exact Told.considered hp hne st
  | observed shown =>
    have hobserved : Observed _ _ _ h := hp
    rw [Observed, shown] at hobserved
    exact ⟨_, hobserved.pushed _⟩
  | repeated hne =>
    -- the thought has been told and pushed when the replan was answered
    exact Told.repeated hp hne _ _
  | elapsed ms => exact Closing.quiet hp (quiet_elapsed ms)
  | inserted answer => exact Closing.quiet hp (quiet_insert _ answer)

theorem tells_asks (hst : Step hs ex goal p st e p' st') (hp : Tells goal p st h) :
    WaitsFaithful goal h e.1 := by
  cases hst with
  | goal | iteration | considered | told | reconsidered | observed | repeated | elapsed =>
    exact False.elim
  | summarized | unsummarized | answered | unanswered | succeeded | perStep | perTask | failed =>
    exact fun _ => Told.faithful hp _
  | replanned | unreplanned =>
    obtain ⟨msg, hp⟩ := hp
    exact fun _ => hp.asks _
  | inserted => exact fun _ => Closing.faithful hp _

theorem annotates_tells :
    Annotates hs ex goal (Tells goal) (WaitsFaithful goal) (EndsFaithful goal) where
  refused := .inl rfl
  start _ _ := rfl
  turn := tells_turn
  step := tells_step
  asks := tells_asks
  ends he := he

theorem told_raced : Prog.wp (WaitsFaithful goal) (EndsFaithful goal) (raced hs ex goal) [] :=
  annotates_tells.wp_raced

end Phases

/-! ## Every run of `execute` -/

section Runs

variable {hs : Hashing} {ex : PlanExecutor} {goal : String} {h : Trace} {cut : Option Command}
  {res : Except PlanError TaskResult}

/-- A run that has been polled. -/
theorem faithful_of_executes (hr : Executes hs ex goal h cut res) (hne : h ≠ []) :
    Faithful goal h cut := by
  cases hr with
  | finished hreturns => exact Prog.wp_ends told_raced hreturns.ends
  | deadline hpending hawaits => exact Prog.wp_pending told_raced hpending hawaits
  | unpolled _ => exact absurd rfl hne

/-- **When the transcript is faithful.** What a run of `execute` pushes into short-term memory is
its transcript exactly if the loop was polled before the deadline, no final answer with a thought was
given in a replan, and no call succeeded that a replan had moved to another tool. -/
theorem pushes_transcript_iff (hr : Executes hs ex goal h cut res) :
    pushes h = transcript byCall goal h cut ↔
      h ≠ [] ∧ ¬Occurs RepeatsThought h ∧ ¬Occurs Renames h := by
  by_cases hnil : h = []
  · subst hnil
    exact iff_of_false (List.cons_ne_nil _ _).symm fun hboth => hboth.1 rfl
  obtain ⟨hshown, extra, hpushes, hextra⟩ := faithful_of_executes hr hnil
  rw [and_iff_right hnil, ← hextra, ← transcript_byRequest_iff hshown cut, hpushes]
  constructor
  · intro heq
    have hlength := congrArg List.length heq
    rw [List.length_append, transcript_length, Nat.add_eq_left, List.length_eq_zero_iff] at hlength
    subst hlength
    exact ⟨rfl, by simpa using heq⟩
  · rintro ⟨rfl, heq⟩
    rw [List.append_nil, heq]

end Runs

end Transcripts

attribute [local instance] SerdeJson.plain

/-- In the run of `recovering` the replan asks for the same tool again. -/
theorem pushes_transcript_recovering :
    ¬Occurs RepeatsThought recoveringTrace ∧ ¬Occurs Renames recoveringTrace :=
  ((pushes_transcript_iff executes_recovering).1 (by decide +kernel)).2

/-! A model that asks for a tool that does not exist and then answers without it. -/

def conceding : Trace → (c : Command) → c.Answer
  | _, .iteration _ => ()
  | _, .pushed _ _ => ()
  | h, .reason _ =>
    if failed h = 0 then
      .ok ⟨"Try nonexistent tool.", some "does_not_exist", .obj [], false, none⟩
    else
      .ok ⟨"Actually, I can answer without tools.", none, .obj [], true, some "Direct answer"⟩
  | _, .summarize _ => .error (.transport "connection refused")
  | _, .executeWithTimeout action _ _ => .error (.notFound action)
  | _, .elapsed => 0
  | _, .insert _ => .ok ()

def concededStep : TaskStep :=
  .failure "does_not_exist" (.obj []) "Tool 'does_not_exist' not found in registry"

/-- The answer's thought is in the buffer twice. -/
theorem conceding_repeats :
    ∃ h, Executes sameHash noTools "Test replan final" h none
        (.ok ⟨.success, some "Direct answer", [concededStep], 0, 1, 1⟩) ∧
      pushes h ≠ transcript byCall "Test replan final" h none := by
  have hres : ((raced sameHash noTools "Test replan final").exec conceding []).2 =
      some (.ok ⟨.success, some "Direct answer", [concededStep], 0, 1, 1⟩) := by decide +kernel
  refine ⟨_, .finished (Prog.exec_returns hres), ?_⟩
  decide +kernel

/-! A model that moves to another tool, whose observation comes under the name of the first. -/

def moving : Trace → (c : Command) → c.Answer
  | _, .iteration _ => ()
  | _, .pushed _ _ => ()
  | h, .reason _ =>
    if failed h = 0 then .ok ⟨"", some "does_not_exist", .obj [], false, none⟩
    else if succeeded h = 0 then .ok ⟨"", some "mock_echo", .obj [], false, none⟩
    else .ok ⟨"", none, .obj [], true, some "Recovered successfully"⟩
  | _, .summarize _ => .error (.transport "connection refused")
  | _, .executeWithTimeout action _ _ =>
    if action = "mock_echo" then .ok .null else .error (.notFound action)
  | _, .elapsed => 0
  | _, .insert _ => .ok ()

example : (pushes ((raced sameHash noTools "Test replan").exec moving []).1)[2]? =
    some (message .user "[Observation from does_not_exist]:\nnull") := by decide +kernel

end Xola.PlanExecutor
