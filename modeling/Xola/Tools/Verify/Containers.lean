import Mathlib.Data.List.Nodup
import Xola.Tools.CodeExec

/-!
# Containers and their removal

The removal of a container is the statement after the run in it, so it is reached on every path that
`execute` itself can take: start failures, broken log streams, the inner timeout, OOM kills. It is
not reached when the future is dropped in the middle of the run, which is what both outer deadlines
do.
-/

namespace Xola.CodeExec

open Interaction

abbrev Event := Exchange Command.Answer

abbrev Trace := History Command.Answer

/-! ## What a run shows -/

def created? : Event → Option String
  | ⟨.createContainer _ _, .ok id⟩ => some id
  | _ => none

/-- The ids of the containers that have been created. -/
def created (t : Trace) : List String := t.filterMap created?

def Command.removed? : Command → Option String
  | .removeContainer id _ => some id
  | _ => none

/-- The requests that were made, the unanswered one included. -/
def issued (t : Trace) (cut : Option Command) : List Command := t.map Sigma.fst ++ cut.toList

/-- The containers whose removal has been requested. -/
def removed (t : Trace) (cut : Option Command) : List String :=
  (issued t cut).filterMap Command.removed?

/-- "Automatic container cleanup on every exit path": one request for each container. -/
def CleanedUp (t : Trace) (cut : Option Command) : Prop :=
  ∀ id ∈ created t, (removed t cut).count id = 1

/-- The calls between the creation of a container and its removal. -/
def Command.Running : Command → Prop
  | .startContainer _ | .logs _ | .inspectContainer _ => True
  | .connectWithSocketDefaults | .newV4 | .createContainer _ _ | .removeContainer _ _ => False

theorem Command.Running.removed?_eq {c : Command} (h : c.Running) : c.removed? = none := by
  cases c with
  | removeContainer id force => cases h
  | _ => rfl

/-! ## Stages of a run -/

structure Stage (t : Trace) (ids gone : List String) : Prop where
  created_eq : created t = ids
  removed_eq : removed t none = gone

section Stage

variable {t : Trace} {ids gone : List String} {c : Command}

theorem removed_eq_append (t : Trace) (cut : Option Command) :
    removed t cut = removed t none ++ cut.toList.filterMap Command.removed? := by
  simp [removed, issued]

theorem Stage.concat (h : Stage t ids gone) (e : Event) :
    Stage (t ++ [e]) (ids ++ (created? e).toList) (gone ++ e.1.removed?.toList) := by
  obtain ⟨rfl, rfl⟩ := h
  constructor
  · cases hc : created? e <;> simp [created, hc]
  · cases hr : e.1.removed? <;> simp [removed, issued, hr]

/-- An exchange that neither creates nor removes. -/
theorem Stage.silent {a : c.Answer} (h : Stage t ids gone) (hc : created? ⟨c, a⟩ = none)
    (hr : c.removed? = none) : Stage (t ++ [⟨c, a⟩]) ids gone := by
  have hn := h.concat ⟨c, a⟩
  rw [hc, hr] at hn
  simpa using hn

end Stage

/-- When the daemon is called. -/
inductive Issues (t : Trace) : Command → Prop
  | before {c : Command} (stage : Stage t [] []) (idle : ¬c.Running) : Issues t c
  | running {c : Command} {id : String} (stage : Stage t [id] []) (running : c.Running) :
    Issues t c
  | removal {id : String} {force : Bool} (stage : Stage t [id] []) :
    Issues t (.removeContainer id force)

/-- A run that is not dropped has created nothing, or has asked for the removal. -/
inductive Ended (t : Trace) : Prog.Ending ToolError Json → Prop
  | nothing {e : Prog.Ending ToolError Json} (stage : Stage t [] []) : Ended t e
  | cleaned {e : Prog.Ending ToolError Json} {id : String} (stage : Stage t [id] [id]) : Ended t e

/-! ## Every run goes through the stages -/

section Programs

variable {t : Trace} {id : String}

theorem wp_runContainerInner {α : Type} {Q : Trace → Prog.Ending ToolError α → Prop}
    {k : Option (Except ToolError Json) → Sandbox α} (hs : Stage t [id] [])
    (hk : ∀ r t', Stage t' [id] [] → Prog.wp Issues Q (k r) t') :
    Prog.wp Issues Q (runContainerInner id >>= k) t := by
  unfold runContainerInner
  refine ⟨.running hs trivial, ?_⟩
  intro started
  have hstart : Stage (t ++ [⟨.startContainer id, started⟩]) [id] [] := hs.silent rfl rfl
  rcases started with - | (e | _)
  · exact hk _ _ hstart
  · exact hk _ _ hstart
  · refine ⟨.running hstart trivial, ?_⟩
    intro messages
    have hlogs := hstart.silent (c := .logs id) (a := messages) rfl rfl
    rcases messages with - | messages
    · exact hk _ _ hlogs
    · refine ⟨.running hlogs trivial, ?_⟩
      intro response
      have hinspect := hlogs.silent (c := .inspectContainer id) (a := response) rfl rfl
      rcases response with - | (e | response)
      · exact hk _ _ hinspect
      · exact hk _ _ hinspect
      · exact hk _ _ hinspect

theorem wp_runContainer {α : Type} {Q : Trace → Prog.Ending ToolError α → Prop}
    {k : Except ToolError Json → Sandbox α} {timeoutSeconds : Int} (hs : Stage t [id] [])
    (hk : ∀ r t', Stage t' [id] [] → Prog.wp Issues Q (k r) t') :
    Prog.wp Issues Q (runContainer id timeoutSeconds >>= k) t := by
  unfold runContainer
  apply Prog.wp_bind
  apply wp_runContainerInner hs
  intro result t' hrun
  cases result with
  | none => exact hk _ _ hrun
  | some r => exact hk r _ hrun

theorem wp_runInSandbox {name : String} {body : ContainerCreateBody} {timeoutSeconds : Int}
    (hs : Stage t [] []) :
    Prog.wp Issues Ended (runInSandbox name body timeoutSeconds) t := by
  refine ⟨.before hs id, ?_⟩
  intro container
  have hc := hs.concat ⟨.createContainer name body, container⟩
  cases container with
  | error e => exact .nothing hc
  | ok id =>
    refine wp_runContainer hc ?_
    intro r t' hrun
    refine ⟨.removal hrun, ?_⟩
    intro answer
    have hgone := hrun.concat ⟨.removeContainer id true, answer⟩
    cases r with
    | error e => exact .cleaned hgone
    | ok v => exact .cleaned hgone

theorem wp_execute (input : Json) : Prog.wp Issues Ended (execute input) [] := by
  have hnew : Stage [] [] [] := ⟨rfl, rfl⟩
  unfold execute
  cases stringField input "language" with
  | error e => exact .nothing hnew
  | ok language =>
  cases stringField input "code" with
  | error e => exact .nothing hnew
  | ok code =>
  simp only [Prog.ofExcept_ok, Prog.ret_bind]
  cases imageForLanguage language with
  | error e => exact .nothing hnew
  | ok image =>
  refine ⟨.before hnew id, ?_⟩
  intro docker
  have hdocker := hnew.silent (c := .connectWithSocketDefaults) (a := docker) rfl rfl
  cases docker with
  | error e => exact .nothing hdocker
  | ok _ =>
  refine ⟨.before hdocker id, ?_⟩
  intro uuid
  exact wp_runInSandbox (hdocker.silent (c := .newV4) (a := uuid) rfl rfl)

end Programs

/-! ## Result -/

/-- Every invocation has returned at a point where its program has ended, or was dropped at a call
that its program made. -/
theorem Invoked.stage [SerdeJson] {validatorFor : ValidatorFor} {r : ToolRegistry} {input : Json}
    {n : Nat} {t : Trace} {cut : Option Command} (h : Invoked validatorFor r input n t cut) :
    (∃ e, cut = none ∧ Ended t e) ∨ ∃ c, cut = some c ∧ Issues t c := by
  cases h with
  | finished returns _ => exact .inl ⟨_, rfl, Prog.wp_ends (wp_execute input) returns.ends⟩
  | timedOut pending _ _ => exact .inr ⟨_, rfl, Prog.wp_pending (wp_execute input) pending⟩
  | dropped pending _ _ => exact .inr ⟨_, rfl, Prog.wp_pending (wp_execute input) pending⟩

/-- **When containers are removed.** Every container of an invocation has its removal requested
exactly once, unless the future is dropped while it waits for the container to start, for its logs
or for its state. -/
theorem cleanedUp_iff [SerdeJson] {validatorFor : ValidatorFor} {r : ToolRegistry} {input : Json}
    {n : Nat} {t : Trace} {cut : Option Command} (h : Invoked validatorFor r input n t cut) :
    CleanedUp t cut ↔ ∀ c, cut = some c → ¬c.Running := by
  rcases h.stage with ⟨e, rfl, hend⟩ | ⟨c, rfl, hissue⟩
  · refine iff_of_true ?_ (by simp)
    intro id hid
    cases hend with
    | nothing stage =>
      rw [stage.created_eq] at hid
      cases hid
    | cleaned stage =>
      rw [stage.created_eq, List.mem_singleton] at hid
      rw [stage.removed_eq, hid, List.count_singleton_self]
  · simp only [Option.some.injEq, forall_eq']
    cases hissue with
    | before stage idle =>
      refine iff_of_true ?_ idle
      intro id hid
      rw [stage.created_eq] at hid
      cases hid
    | running stage running =>
      refine iff_of_false ?_ (not_not_intro running)
      intro hclean
      have hone := hclean _ (stage.created_eq ▸ List.mem_singleton_self _)
      rw [removed_eq_append, stage.removed_eq] at hone
      simp [running.removed?_eq] at hone
    | removal stage =>
      refine iff_of_true ?_ id
      intro id hid
      rw [stage.created_eq, List.mem_singleton] at hid
      rw [removed_eq_append, stage.removed_eq, hid]
      exact List.count_singleton_self

/-! A registry with nothing but this tool, a validator that accepts everything, and a daemon that
obliges. -/

def sandboxed : ToolRegistry :=
  ⟨[("code_exec", codeExecTool)], [("code_exec", .new .default)], .default, rfl,
    List.nodup_singleton _⟩

def acceptAll : ValidatorFor := fun _ => .ok fun _ => []

def printHello : Json := .obj [("code", .str "print('hello')"), ("language", .str "python")]

attribute [local instance] SerdeJson.plain

theorem pending_printHello : Prog.Pending
    (sandboxed.executeWithTimeout acceptAll "code_exec" printHello 5000)
    [⟨.canExecute "code_exec", true⟩] (.execute "code_exec" printHello 5000) := by
  have hinput : truncateJson printHello 500 = some (SerdeJson.toString printHello) := by decide +kernel
  unfold ToolRegistry.executeWithTimeout
  rw [hinput]
  exact ⟨_, .step (R := ToolRegistry.Command.Answer) (c := .canExecute _) true (.refl _)⟩

def obliging : Trace → (c : Command) → c.Answer
  | _, .connectWithSocketDefaults => .ok ()
  | _, .newV4 => "0c8a"
  | _, .createContainer _ _ => .ok "c1"
  | _, .startContainer _ => some (.ok ())
  | _, .logs _ => some [.ok (.stdOut [104, 101, 108, 108, 111, 10])]
  | _, .inspectContainer _ => some (.ok ⟨some ⟨some 0⟩⟩)
  | _, .removeContainer _ _ => .ok ()

def printed : Json :=
  .obj [("exit_code", .int 0), ("stderr", .str ""), ("stdout", .str "hello\n")]

theorem cleanedUp_iff_printHello :
    CleanedUp ((execute printHello).exec obliging []).1 none := by
  have hres : ((execute printHello).exec obliging []).2 = some (.ok printed) := by
    decide +kernel
  obtain ⟨k, hk⟩ := pending_printHello
  have hinvoked := Invoked.finished (Prog.exec_returns hres) (hk.snoc (some (.ok printed)))
  refine (cleanedUp_iff hinvoked).2 ?_
  intro c hc
  cases hc

/-- The container is running when the timeout of the registry fires, before the tool's own ten
seconds are over. -/
def abandoned : Trace :=
  [⟨.connectWithSocketDefaults, .ok ()⟩, ⟨.newV4, "0c8a"⟩,
    ⟨.createContainer "xola-code-exec-0c8a"
      (containerBody "python:3.12-alpine" ["python3", "-c", "print('hello')"]), .ok "c1"⟩,
    ⟨.startContainer "c1", some (.ok ())⟩]

theorem abandoned_not_cleanedUp :
    Invoked acceptAll sandboxed printHello 5000 abandoned (some (.logs "c1")) ∧
      ¬CleanedUp abandoned (some (.logs "c1")) := by
  constructor
  · obtain ⟨k, hk⟩ := pending_printHello
    refine .timedOut ?_ trivial (hk.snoc none)
    exact ⟨_, .step _ (.step _ (.step _ (.step _ (.refl _))))⟩
  · intro hclean
    have hone := hclean "c1" (by decide)
    revert hone
    decide

end Xola.CodeExec
