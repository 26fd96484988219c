import Xola.Interaction.Interleaved
import Xola.Tools.Verify.Containers

/-!
# Invocations that share a daemon

Any number of invocations of the sandbox talk to one Docker daemon. Each minds its own container: it
asks for one at most, confined to the limits, and from then on addresses no other. So a container that is
alive belongs to one invocation, no invocation finds its container gone, and a container outlives an
invocation that has come to its end only where the daemon reported an error.
-/

namespace Xola.CodeExec

open Interaction

/-! ## The daemon -/

structure Container where
  id : String
  name : String
  body : ContainerCreateBody

/-- What a call that has been answered does to the containers; ids are not given twice. A call that is
answered with an error may have had its effect, and so may one whose future has been dropped: its answer
is then one that nobody reads. -/
def Daemon (live : List Container) : (c : Command) → c.Answer → List Container → Prop
  | .createContainer name body, .ok id, live' =>
    (∀ c ∈ live, c.id ≠ id) ∧ live' = live ++ [⟨id, name, body⟩]
  | .createContainer name body, .error _, live' =>
    live' = live ∨ ∃ id, (∀ c ∈ live, c.id ≠ id) ∧ live' = live ++ [⟨id, name, body⟩]
  | .removeContainer id _, .ok _, live' => live' = live.filter (·.id ≠ id)
  | .removeContainer id _, .error _, live' => live' = live ∨ live' = live.filter (·.id ≠ id)
  | _, _, live' => live' = live

/-! ## One invocation -/

/-- The container for the code of the input, with all limits set. -/
def Confined (input : Json) (body : ContainerCreateBody) : Prop :=
  ∃ language code image, stringField input "language" = .ok language ∧
    stringField input "code" = .ok code ∧ imageForLanguage language = .ok image ∧
    body = containerBody image (cmdForLanguage language code)

def attempt? : Event → Option (String × ContainerCreateBody)
  | ⟨.createContainer name body, _⟩ => some (name, body)
  | _ => none

/-- The containers that have been asked for. -/
def attempts (t : Trace) : List (String × ContainerCreateBody) := t.filterMap attempt?

/-- The container that a call is about. -/
def Command.target? : Command → Option String
  | .startContainer id | .logs id | .inspectContainer id | .removeContainer id _ => some id
  | .connectWithSocketDefaults | .newV4 | .createContainer _ _ => none

/-- The guarantee of an invocation: one container is asked for, confined, and no other is addressed,
nor that one after its removal. -/
def Minds (input : Json) (t : Trace) (c : Command) : Prop :=
  (∀ name body, c = .createContainer name body →
      Stage t [] [] ∧ attempts t = [] ∧ Confined input body) ∧
    ∀ id, c.target? = some id → Stage t [id] []

section Programs

variable {input : Json} {t : Trace} {id : String}

theorem minds_idle {c : Command} (hc : c.target? = none)
    (hnot : ∀ name body, c ≠ .createContainer name body) : Minds input t c := by
  constructor
  · exact fun name body heq => absurd heq (hnot name body)
  · intro id hid
    rw [hc] at hid
    cases hid

theorem minds_target {c : Command} (hs : Stage t [id] []) (hc : c.target? = some id) :
    Minds input t c := by
  constructor
  · rintro name body rfl
    cases hc
  · intro id' hid
    rw [hc] at hid
    cases hid
    exact hs

theorem minds_runContainerInner {α : Type} {Q : Trace → Prog.Ending ToolError α → Prop}
    {k : Option (Except ToolError Json) → Sandbox α} (hs : Stage t [id] [])
    (hk : ∀ r t', Stage t' [id] [] → Prog.wp (Minds input) Q (k r) t') :
    Prog.wp (Minds input) Q (runContainerInner id >>= k) t := by
  unfold runContainerInner
  refine ⟨minds_target hs rfl, ?_⟩
  intro started
  have hstart : Stage (t ++ [⟨.startContainer id, started⟩]) [id] [] := hs.silent rfl rfl
  rcases started with - | (e | _)
  · exact hk _ _ hstart
  · exact hk _ _ hstart
  · refine ⟨minds_target hstart rfl, ?_⟩
    intro messages
    have hlogs := hstart.silent (c := .logs id) (a := messages) rfl rfl
    rcases messages with - | messages
    · exact hk _ _ hlogs
    · refine ⟨minds_target hlogs rfl, ?_⟩
      intro response
      have hinspect := hlogs.silent (c := .inspectContainer id) (a := response) rfl rfl
      rcases response with - | (e | response)
      · exact hk _ _ hinspect
      · exact hk _ _ hinspect
      · exact hk _ _ hinspect

theorem minds_runContainer {α : Type} {Q : Trace → Prog.Ending ToolError α → Prop}
    {k : Except ToolError Json → Sandbox α} {timeoutSeconds : Int} (hs : Stage t [id] [])
    (hk : ∀ r t', Stage t' [id] [] → Prog.wp (Minds input) Q (k r) t') :
    Prog.wp (Minds input) Q (runContainer id timeoutSeconds >>= k) t := by
  unfold runContainer
  apply Prog.wp_bind
  apply minds_runContainerInner hs
  intro result t' hrun
  cases result with
  | none => exact hk _ _ hrun
  | some r => exact hk r _ hrun

theorem minds_runInSandbox {name : String} {body : ContainerCreateBody} {timeoutSeconds : Int}
    (hs : Stage t [] []) (hnone : attempts t = []) (hbody : Confined input body) :
    Prog.wp (Minds input) (fun _ _ => True) (runInSandbox name body timeoutSeconds) t := by
  refine ⟨⟨?_, nofun⟩, ?_⟩
  · rintro _ _ heq
    cases heq
    exact ⟨hs, hnone, hbody⟩
  intro container
  have hc := hs.concat ⟨.createContainer name body, container⟩
  cases container with
  | error e => trivial
  | ok id =>
    refine minds_runContainer hc ?_
    intro r t' hrun
    refine ⟨minds_target hrun rfl, ?_⟩
    intro answer
    cases r <;> trivial

theorem minds_execute (input : Json) :
    Prog.wp (Minds input) (fun _ _ => True) (execute input) [] := by
  have hnew : Stage [] [] [] := ⟨rfl, rfl⟩
  unfold execute
  cases hlanguage : stringField input "language" with
  | error e => trivial
  | ok language =>
  cases hcode : stringField input "code" with
  | error e => trivial
  | ok code =>
  simp only [Prog.ofExcept_ok, Prog.ret_bind]
  cases himage : imageForLanguage language with
  | error e => trivial
  | ok image =>
  refine ⟨minds_idle rfl nofun, ?_⟩
  intro docker
  have hdocker := hnew.silent (c := .connectWithSocketDefaults) (a := docker) rfl rfl
  cases docker with
  | error e => trivial
  | ok _ =>
  refine ⟨minds_idle rfl nofun, ?_⟩
  intro uuid
  exact minds_runInSandbox (hdocker.silent (c := .newV4) (a := uuid) rfl rfl) rfl
    ⟨language, code, image, hlanguage, hcode, himage, rfl⟩

end Programs

/-! ## The containers that are alive -/

/-- The container is the one that the invocation has asked for. The id is not known to an invocation
whose request was answered with an error. -/
structure Tenant (input : Json) (t : Trace) (c : Container) : Prop where
  asked : attempts t = [(c.name, c.body)]
  confined : Confined input c.body
  named : created t = [c.id] ∨ created t = []
  standing : ∀ force, (⟨.removeContainer c.id force, .ok ()⟩ : Event) ∉ t

theorem Stage.standing {t : Trace} {ids : List String} (h : Stage t ids []) {id : String}
    {force : Bool} {answer : Except String Unit} :
    (⟨.removeContainer id force, answer⟩ : Event) ∉ t := by
  intro hmem
  have hremoved : id ∈ removed t none := by
    refine List.mem_filterMap.mpr ⟨.removeContainer id force, ?_, rfl⟩
    exact List.mem_append_left _ (List.mem_map.mpr ⟨_, hmem, rfl⟩)
  rw [h.removed_eq] at hremoved
  cases hremoved

theorem attempts_concat (t : Trace) (e : Event) :
    attempts (t ++ [e]) = attempts t ++ (attempt? e).toList := by
  rw [attempts, List.filterMap_append, attempts]
  cases he : attempt? e <;> simp [he]

theorem Tenant.silent {input : Json} {t : Trace} {c : Container} {e : Event}
    (h : Tenant input t c) (ha : attempt? e = none) (hc : created? e = none)
    (hr : ∀ force, e ≠ ⟨.removeContainer c.id force, .ok ()⟩) : Tenant input (t ++ [e]) c where
  asked := by rw [attempts_concat, ha, h.asked]; rfl
  confined := h.confined
  named := by
    rw [created, List.filterMap_append, List.filterMap_cons_none hc]
    simpa [created] using h.named
  standing force hmem := by
    rcases List.mem_append.mp hmem with hmem | hmem
    · exact h.standing force hmem
    · exact hr force (List.mem_singleton.mp hmem).symm

theorem stage_concat_iff {t : Trace} {e : Event} {ids : List String} (hc : created? e = none)
    (hr : e.1.removed? = none) : Stage (t ++ [e]) ids [] ↔ Stage t ids [] := by
  have hcreated : created (t ++ [e]) = created t := by simp [created, hc]
  have hremoved : removed (t ++ [e]) none = removed t none := by simp [removed, issued, hr]
  constructor
  · rintro ⟨rfl, hgone⟩
    exact ⟨hcreated.symm, by rw [← hremoved, hgone]⟩
  · rintro ⟨rfl, hgone⟩
    exact ⟨hcreated, by rw [hremoved, hgone]⟩

section Pool

variable {ι : Type} [DecidableEq ι] {input : ι → Json} {log : PoolLog ι Unit Command.Answer}
  {live live' : List Container} {owned : List (ι × Container)}

/-- The containers that are alive, each with the invocation that it belongs to. -/
structure Tenancy (input : ι → Json) (log : PoolLog ι Unit Command.Answer) (live : List Container)
    (owned : List (ι × Container)) : Prop where
  live_eq : owned.map Prod.snd = live
  ids : (owned.map (·.2.id)).Nodup
  owners : (owned.map Prod.fst).Nodup
  tenant : ∀ x ∈ owned, Tenant (input x.1) (own x.1 log) x.2
  housed : ∀ i id, Stage (own i log) [id] [] → ∃ c, (i, c) ∈ owned ∧ c.id = id

namespace Tenancy

variable {j : ι} {e : Event}

theorem not_mem (h : Tenancy input log live owned) (hj : attempts (own j log) = []) :
    ∀ x ∈ owned, j ≠ x.1 := by
  rintro x hx rfl
  rw [(h.tenant x hx).asked] at hj
  cases hj

/-- An exchange that neither creates nor removes a container. -/
theorem silent (h : Tenancy input log live owned) (ha : attempt? e = none)
    (hc : created? e = none) (hr : e.1.removed? = none) :
    Tenancy input (log ++ [⟨j, (), e⟩]) live owned where
  live_eq := h.live_eq
  ids := h.ids
  owners := h.owners
  tenant x hx := by
    by_cases hj : j = x.1
    · subst hj
      rw [own_concat_self]
      refine (h.tenant x hx).silent ha hc ?_
      rintro force rfl
      cases hr
    · rw [own_concat_of_ne hj]
      exact h.tenant x hx
  housed i id hstage := by
    by_cases hj : j = i
    · subst hj
      rw [own_concat_self, stage_concat_iff hc hr] at hstage
      exact h.housed j id hstage
    · rw [own_concat_of_ne hj] at hstage
      exact h.housed i id hstage

/-- A request for a container that was not created. -/
theorem refused (h : Tenancy input log live owned) (hj : attempts (own j log) = [])
    (hc : created? e = none) (hr : e.1.removed? = none) :
    Tenancy input (log ++ [⟨j, (), e⟩]) live owned where
  live_eq := h.live_eq
  ids := h.ids
  owners := h.owners
  tenant x hx := by
    rw [own_concat_of_ne (h.not_mem hj x hx)]
    exact h.tenant x hx
  housed i id hstage := by
    by_cases hj : j = i
    · subst hj
      rw [own_concat_self, stage_concat_iff hc hr] at hstage
      exact h.housed j id hstage
    · rw [own_concat_of_ne hj] at hstage
      exact h.housed i id hstage

/-- A container that was created, whether or not its id has become known. -/
theorem created (h : Tenancy input log live owned) {c : Container}
    {answer : Except String String} (hstage : Stage (own j log) [] [])
    (hj : attempts (own j log) = []) (hbody : Confined (input j) c.body)
    (hfresh : ∀ c' ∈ live, c'.id ≠ c.id) (hanswer : ∀ id, answer = .ok id → c.id = id) :
    Tenancy input (log ++ [⟨j, (), .createContainer c.name c.body, answer⟩]) (live ++ [c])
      (owned ++ [(j, c)]) := by
  have hnew : (CodeExec.created (own j log ++ [⟨.createContainer c.name c.body, answer⟩])) =
      [c.id] ∨
      (CodeExec.created (own j log ++ [⟨.createContainer c.name c.body, answer⟩])) = [] := by
    have hconcat := (hstage.concat ⟨.createContainer c.name c.body, answer⟩).created_eq
    cases answer with
    | ok id => exact .inl (hanswer id rfl ▸ hconcat)
    | error e => exact .inr hconcat
  constructor
  · rw [List.map_append, h.live_eq]
    rfl
  · rw [List.map_append, List.map_singleton, ← List.concat_eq_append]
    refine h.ids.concat ?_
    intro hmem
    obtain ⟨x, hx, hid⟩ := List.mem_map.mp hmem
    exact hfresh x.2 (h.live_eq ▸ List.mem_map_of_mem hx) hid
  · rw [List.map_append, List.map_singleton, ← List.concat_eq_append]
    refine h.owners.concat ?_
    intro hmem
    obtain ⟨x, hx, hid⟩ := List.mem_map.mp hmem
    exact h.not_mem hj x hx hid.symm
  · intro x hx
    rcases List.mem_append.mp hx with hx | hx
    · rw [own_concat_of_ne (h.not_mem hj x hx)]
      exact h.tenant x hx
    · obtain rfl := List.mem_singleton.mp hx
      rw [own_concat_self]
      refine ⟨?_, hbody, hnew, ?_⟩
      · rw [attempts_concat, hj]
        rfl
      · intro force hmem
        rcases List.mem_append.mp hmem with hmem | hmem
        · exact hstage.standing hmem
        · cases List.mem_singleton.mp hmem
  · intro i id hi
    by_cases hij : j = i
    · subst hij
      rw [own_concat_self] at hi
      refine ⟨c, List.mem_append_right _ (List.mem_singleton_self _), ?_⟩
      rcases hnew with hnew | hnew
      · rw [hi.created_eq] at hnew
        exact (List.singleton_inj.mp hnew).symm
      · rw [hi.created_eq] at hnew
        cases hnew
    · rw [own_concat_of_ne hij] at hi
      obtain ⟨c', hc', hid⟩ := h.housed i id hi
      exact ⟨c', List.mem_append_left _ hc', hid⟩

/-- After a request for a removal the invocation addresses no container. -/
theorem not_stage_remove {id id' : String} {force : Bool} {answer : Except String Unit} :
    ¬Stage (own j (log ++ [⟨j, (), .removeContainer id force, answer⟩])) [id'] [] := by
  rw [own_concat_self]
  intro hstage
  exact hstage.standing (List.mem_append_right _ (List.mem_singleton_self _))

/-- A removal that had no effect. -/
theorem kept (h : Tenancy input log live owned) {id : String} {force : Bool} {msg : String} :
    Tenancy input (log ++ [⟨j, (), .removeContainer id force, .error msg⟩]) live owned where
  live_eq := h.live_eq
  ids := h.ids
  owners := h.owners
  tenant x hx := by
    by_cases hj : j = x.1
    · subst hj
      rw [own_concat_self]
      exact (h.tenant x hx).silent rfl rfl nofun
    · rw [own_concat_of_ne hj]
      exact h.tenant x hx
  housed i id' hstage := by
    by_cases hj : j = i
    · subst hj
      exact absurd hstage not_stage_remove
    · rw [own_concat_of_ne hj] at hstage
      exact h.housed i id' hstage

/-- A removal by the invocation that the container belongs to. -/
theorem removed (h : Tenancy input log live owned) {id : String} {force : Bool}
    {answer : Except String Unit} (hstage : Stage (own j log) [id] []) :
    Tenancy input (log ++ [⟨j, (), .removeContainer id force, answer⟩])
      (live.filter (·.id ≠ id)) (owned.filter (·.2.id ≠ id)) := by
  obtain ⟨c, hc, hid⟩ := h.housed j id hstage
  constructor
  · rw [← h.live_eq, List.filter_map]
    rfl
  · exact h.ids.sublist (List.filter_sublist.map _)
  · exact h.owners.sublist (List.filter_sublist.map _)
  · intro x hx
    obtain ⟨hx, hne⟩ := List.mem_filter.mp hx
    have hj : j ≠ x.1 := by
      intro heq
      have hsame : (j, c) = x := List.inj_on_of_nodup_map h.owners hc hx heq
      subst hsame
      simp [hid] at hne
    rw [own_concat_of_ne hj]
    exact h.tenant x hx
  · intro i id' hi
    by_cases hj : j = i
    · subst hj
      exact absurd hi not_stage_remove
    · rw [own_concat_of_ne hj] at hi
      obtain ⟨c', hc', hid'⟩ := h.housed i id' hi
      refine ⟨c', List.mem_filter.mpr ⟨hc', ?_⟩, hid'⟩
      refine decide_eq_true fun heq => hj ?_
      have hsame : (j, c) = (i, c') :=
        List.inj_on_of_nodup_map h.ids hc hc' (hid.trans heq.symm)
      exact congrArg Prod.fst hsame

end Tenancy

/-- Every exchange keeps the tenancy. -/
theorem Tenancy.daemon (h : Tenancy input log live owned) {j : ι} {c : Command} {answer : c.Answer}
    (hminds : Minds (input j) (own j log) c) (hd : Daemon live c answer live') :
    ∃ owned', Tenancy input (log ++ [⟨j, (), c, answer⟩]) live' owned' := by
  cases c with
  | connectWithSocketDefaults | newV4 | startContainer | logs | inspectContainer =>
    obtain rfl : live' = live := by simpa only [Daemon] using hd
    exact ⟨owned, h.silent rfl rfl rfl⟩
  | createContainer name body =>
    obtain ⟨hstage, hj, hbody⟩ := hminds.1 name body rfl
    cases answer with
    | ok id =>
      obtain ⟨hfresh, rfl⟩ := hd
      exact ⟨_, h.created (c := ⟨id, name, body⟩) hstage hj hbody hfresh
        fun _ heq => Except.ok.inj heq⟩
    | error msg =>
      rcases hd with rfl | ⟨id, hfresh, rfl⟩
      · exact ⟨owned, h.refused hj rfl rfl⟩
      · exact ⟨_, h.created (c := ⟨id, name, body⟩) hstage hj hbody hfresh nofun⟩
  | removeContainer id force =>
    have hstage := hminds.2 id rfl
    cases answer with
    | ok answer =>
      obtain rfl := hd
      exact ⟨_, h.removed hstage⟩
    | error msg =>
      rcases hd with rfl | rfl
      · exact ⟨owned, h.kept⟩
      · exact ⟨_, h.removed hstage⟩

end Pool

/-- The daemon has reported an error for a creation or for a removal. -/
def Reported (t : Trace) : Prop :=
  (∃ name body msg, (⟨.createContainer name body, .error msg⟩ : Event) ∈ t) ∨
    ∃ id force msg, (⟨.removeContainer id force, .error msg⟩ : Event) ∈ t

/-- A container outlives an invocation that has ended only if its removal or the answer to its
creation went wrong. -/
theorem Tenant.reported {input : Json} {t : Trace} {c : Container} (h : Tenant input t c)
    {e : Prog.Ending ToolError Json} (hend : Ended t e) : Reported t := by
  have hasked : (c.name, c.body) ∈ attempts t := by
    rw [h.asked]
    exact List.mem_singleton_self _
  cases hend with
  | nothing stage =>
    obtain ⟨⟨command, answer⟩, hmem, hattempt⟩ := List.mem_filterMap.mp hasked
    cases command with
    | createContainer name body =>
      cases answer with
      | ok id =>
        have hcreated : id ∈ created t := List.mem_filterMap.mpr ⟨_, hmem, rfl⟩
        rw [stage.created_eq] at hcreated
        cases hcreated
      | error msg => exact .inl ⟨name, body, msg, hmem⟩
    | connectWithSocketDefaults | newV4 | startContainer | logs | inspectContainer
    | removeContainer => cases hattempt
  | @cleaned id stage =>
    obtain rfl : c.id = id := by
      rcases h.named with hnamed | hnamed
      · rw [stage.created_eq] at hnamed
        exact (List.singleton_inj.mp hnamed).symm
      · rw [stage.created_eq] at hnamed
        cases hnamed
    have hremoved : c.id ∈ removed t none := by
      rw [stage.removed_eq]
      exact List.mem_singleton_self _
    obtain ⟨command, hissued, hremoved⟩ := List.mem_filterMap.mp hremoved
    rw [issued, Option.toList_none, List.append_nil] at hissued
    obtain ⟨⟨command, answer⟩, hmem, rfl⟩ := List.mem_map.mp hissued
    cases command with
    | removeContainer id force =>
      cases hremoved
      cases answer with
      | ok answer => exact absurd hmem (h.standing force)
      | error msg => exact .inr ⟨c.id, force, msg, hmem⟩
    | connectWithSocketDefaults | newV4 | startContainer | logs | inspectContainer
    | createContainer => cases hremoved

/-- **Containers stay apart.** Whatever invocations share the daemon, in whatever order it answers
them: every container that is alive was asked for by one invocation, with all limits set, and no two by
the same; every call addresses the container of its own invocation, which is alive; and a container
outlives an invocation that has ended only if the daemon reported an error to it. -/
theorem containers_apart {ι : Type} [DecidableEq ι] {input : ι → Json}
    {log : PoolLog ι Unit Command.Answer} {live : List Container}
    (h : Interleaved (fun i => execute (input i)) (fun _ => Daemon) [] log live) :
    ∃ owned, Tenancy input log live owned ∧
      (∀ i c id, Prog.Pending (execute (input i)) (own i log) c → c.target? = some id →
        ∃ container, (i, container) ∈ owned ∧ container.id = id) ∧
      ∀ i container res, (i, container) ∈ owned →
        Prog.Returns (execute (input i)) (own i log) res → Reported (own i log) := by
  obtain ⟨owned, htenancy⟩ : ∃ owned, Tenancy input log live owned := by
    refine h.rule (fun log live => ∃ owned, Tenancy input log live owned)
      (fun i => minds_execute (input i)) ?_ ?_
    · exact ⟨[], rfl, .nil, .nil, nofun, fun i id hstage => nomatch hstage.created_eq⟩
    · rintro log live live' i - c answer ⟨owned, htenancy⟩ hminds hd
      exact htenancy.daemon hminds hd
  refine ⟨owned, htenancy, ?_, ?_⟩
  · intro i c id hpending htarget
    exact htenancy.housed i id ((Prog.wp_pending (minds_execute (input i)) hpending).2 id htarget)
  · intro i container res hmem hreturns
    exact (htenancy.tenant _ hmem).reported (Prog.wp_ends (wp_execute (input i)) hreturns.ends)

/-! One invocation has run to its end when another has just started its container. -/

/-- A daemon with room for one container. -/
def roomForOne : List Container → (c : Command) → List Container × c.Answer
  | live, .connectWithSocketDefaults => (live, .ok ())
  | live, .newV4 => (live, "0c8a")
  | [], .createContainer name body => ([⟨"c1", name, body⟩], .ok "c1")
  | live, .createContainer _ _ => (live, .error "no room")
  | live, .startContainer _ => (live, some (.ok ()))
  | live, .logs _ => (live, some [])
  | live, .inspectContainer _ => (live, some (.ok ⟨some ⟨some 0⟩⟩))
  | live, .removeContainer id _ => (live.filter (·.id ≠ id), .ok ())

theorem daemon_roomForOne (live : List Container) (c : Command) :
    Daemon live c (roomForOne live c).2 (roomForOne live c).1 := by
  cases c with
  | createContainer name body =>
    cases live with
    | nil => exact ⟨nofun, rfl⟩
    | cons c live => exact .inl rfl
  | connectWithSocketDefaults | newV4 | startContainer | logs | inspectContainer
  | removeContainer => cases live <;> rfl

def helloContainer : Container :=
  ⟨"c1", "xola-code-exec-0c8a",
    containerBody "python:3.12-alpine" ["python3", "-c", "print('hello')"]⟩

theorem containers_apart_roomForOne :
    ∃ log owned, Tenancy (fun _ : Bool => printHello) log [helloContainer] owned ∧
      ∃ container, (false, container) ∈ owned ∧ container.id = "c1" := by
  have hrun : (execute printHello).runWith roomForOne [] =
      ([], some (.ok (.obj [("exit_code", .int 0), ("stderr", .str ""), ("stdout", .str "")]))) := by
    rfl
  obtain ⟨t, hreturns, hhandled⟩ := Prog.runWith_returns hrun
  have hfirst : Interleaved (fun _ : Bool => execute printHello) (fun _ => Daemon) []
      ([] ++ t.map fun x => ⟨true, (), x⟩) [] :=
    .undisturbed daemon_roomForOne .nil hreturns hhandled
  obtain ⟨k, hk⟩ : Prog.Pending (execute printHello) abandoned (.logs "c1") :=
    ⟨_, .step _ (.step _ (.step _ (.step _ (.refl _))))⟩
  have hnew : own false ([] ++ t.map fun x => (⟨true, (), x⟩ : Entry Bool Unit Command.Answer)) =
      [] := by
    simp [own]
  have hhandled : Prog.Handled roomForOne [] abandoned [helloContainer] :=
    ⟨rfl, rfl, rfl, rfl, rfl⟩
  have hsecond := hfirst.undisturbed (i := false) (t := ()) daemon_roomForOne
    (by rw [hnew]; exact hk) hhandled
  have hown : own false (([] ++ t.map fun x =>
      (⟨true, (), x⟩ : Entry Bool Unit Command.Answer)) ++ abandoned.map fun x => ⟨false, (), x⟩) =
      abandoned := by
    simp [own]
  obtain ⟨owned, htenancy, hlive, -⟩ := containers_apart hsecond
  refine ⟨_, owned, htenancy, hlive false (.logs "c1") "c1" ⟨k, ?_⟩ rfl⟩
  rw [hown]
  exact hk

end Xola.CodeExec
