import Mathlib.Data.Fintype.EquivFin
import Xola.Reliability.Interleaving

/-!
# Probes of a half-open breaker

`State::HalfOpen` is documented as "One probe call allowed after cooldown". `can_execute` does not
keep count of the probe: it answers `true` to everyone who asks in `HalfOpen`. And it does not know
which call is the probe, so that a call admitted long before, completing in `HalfOpen`, moves the
breaker on while the probe is still out.

`SingleProbe` is the documented promise. It holds in runs that avoid both situations, and each of
them breaks it.
-/

namespace Xola.CircuitBreaker

/-- From the moment call `i` takes the breaker to `HalfOpen` until `i` completes, every other
`can_execute` answers `false`. -/
def SingleProbe (config : CircuitBreakerConfig) (acts : List Action) : Prop :=
  ∀ pre i t mid j t' post s s', acts = pre ++ .canExecute i t :: mid ++ .canExecute j t' :: post →
    Run config pre s → s.Enters t → (∀ a ∈ mid, ¬a.Completes i) →
    Run config (pre ++ .canExecute i t :: mid) s' → (s'.breaker.canExecute t').2 = false

/-- Nobody asks while the breaker is half-open, and only the probe completes then. -/
def Shared.Disciplined (s : Shared) : Action → Prop
  | .canExecute _ _ => s.breaker.state ≠ .halfOpen
  | .recordSuccess id => s.breaker.state = .halfOpen → s.probe = some id
  | .recordFailure id _ => s.breaker.state = .halfOpen → s.probe = some id

instance (s : Shared) : (a : Action) → Decidable (s.Disciplined a)
  | .canExecute _ _ => inferInstanceAs (Decidable (s.breaker.state ≠ .halfOpen))
  | .recordSuccess id | .recordFailure id _ =>
    inferInstanceAs (Decidable (s.breaker.state = .halfOpen → s.probe = some id))

/-- Every action of the run meets `P` in the state before it. -/
def Throughout (config : CircuitBreakerConfig) (P : Shared → Action → Prop)
    (acts : List Action) : Prop :=
  ∀ pre a post s, acts = pre ++ a :: post → Run config pre s → P s a

variable {config : CircuitBreakerConfig} {acts : List Action} {s : Shared}

theorem Throughout.of_along {P : Shared → Action → Prop}
    (h : Shared.Along P (.initial config) acts) : Throughout config P acts := by
  intro pre a post s hacts hpre
  obtain rfl := hpre.state_eq
  subst hacts
  obtain ⟨-, ha, -⟩ := Shared.along_append.1 h
  exact ha

/-! ## How a run got to `HalfOpen` -/

theorem Shared.step_enters {i : CallId} {t : Nat} (h : s.Enters t) :
    (s.step (.canExecute i t)).breaker.state = .halfOpen ∧
      (s.step (.canExecute i t)).probe = some i := by
  refine ⟨?_, if_pos h⟩
  simp only [Shared.step, canExecute_reset h.1 h.2]

/-- The breaker got to `HalfOpen` by the attempt of the probe, and since then calls have only
asked. -/
theorem Run.halfOpen (h : Run config acts s) (ho : s.breaker.state = .halfOpen) :
    ∃ pre i t mid s₀, acts = pre ++ .canExecute i t :: mid ∧ Run config pre s₀ ∧ s₀.Enters t ∧
      s.probe = some i ∧ ∀ a ∈ mid, ∃ j u, a = .canExecute j u := by
  induction h with
  | nil => cases ho
  | @snoc acts s a before _ ih =>
    cases a with
    | recordSuccess id => exact absurd ho (recordSuccess_state_ne _)
    | recordFailure id now => exact absurd ho (recordFailure_state_ne _ _)
    | canExecute id now =>
      by_cases he : s.Enters now
      · exact ⟨acts, id, now, [], s, rfl, before, he, (Shared.step_enters he).2, by simp⟩
      · have hs : s.breaker.state = .halfOpen := by
          simp only [Shared.step] at ho
          rcases hstate : s.breaker.state with - | - | -
          · rw [canExecute_closed hstate, hstate] at ho
            cases ho
          · have hr : s.breaker.shouldAttemptReset now = false :=
              Bool.eq_false_iff.2 fun hr => he ⟨hstate, hr⟩
            rw [canExecute_rejects hstate hr, hstate] at ho
            cases ho
          · rfl
        obtain ⟨pre, i, t, mid, s₀, rfl, hpre, hent, hp, hmid⟩ := ih hs
        refine ⟨pre, i, t, mid ++ [.canExecute id now], s₀, by simp, hpre, hent, ?_, ?_⟩
        · rw [← hp]
          exact if_neg he
        · intro a ha
          rcases List.mem_append.1 ha with ha | ha
          · exact hmid a ha
          · exact ⟨id, now, List.mem_singleton.1 ha⟩

/-- What an attempt asking in `HalfOpen` does to the promise. -/
theorem not_singleProbe_of_halfOpen (h : Run config acts s) (ho : s.breaker.state = .halfOpen)
    (j : CallId) (now : Nat) (post : List Action) :
    ¬SingleProbe config (acts ++ .canExecute j now :: post) := by
  intro hp
  obtain ⟨pre, i, t, mid, s₀, rfl, hpre, hent, -, hmid⟩ := h.halfOpen ho
  have hmid' : ∀ a ∈ mid, ¬a.Completes i := by
    intro a ha
    obtain ⟨j, u, rfl⟩ := hmid a ha
    exact id
  have := hp pre i t mid j now post s₀ s (by simp) hpre hent hmid' h
  rw [canExecute_halfOpen ho] at this
  cases this

/-! ## Disciplined runs -/

/-- In a disciplined run nothing happens between the entry to `HalfOpen` and the completion of the
probe. -/
theorem Throughout.mid_eq_nil {pre mid post : List Action} {i : CallId} {t : Nat}
    (h : Throughout config Shared.Disciplined (pre ++ .canExecute i t :: (mid ++ post)))
    (hpre : Run config pre s) (hent : s.Enters t) (hasks : i ∉ s.asked)
    (hmid : ∀ a ∈ mid, ¬a.Completes i) : mid = [] := by
  cases mid with
  | nil => rfl
  | cons a mid =>
    have hrun : Run config (pre ++ [.canExecute i t]) (s.step (.canExecute i t)) :=
      hpre.snoc hasks
    obtain ⟨hstate, hprobe⟩ := Shared.step_enters (i := i) hent
    have hd := h (pre ++ [.canExecute i t]) a (mid ++ post) _ (by simp) hrun
    have hne := hmid a (by simp)
    cases a with
    | canExecute j u => exact absurd hstate hd
    | recordSuccess id =>
      have := hprobe.symm.trans (hd hstate)
      exact absurd (Option.some.inj this).symm hne
    | recordFailure id now =>
      have := hprobe.symm.trans (hd hstate)
      exact absurd (Option.some.inj this).symm hne

theorem singleProbe_of_disciplined (h : Run config acts s)
    (hd : Throughout config Shared.Disciplined acts) : SingleProbe config acts := by
  intro pre i t mid j t' post s₀ s' heq hpre hent hmid hmidrun
  subst heq
  have hrun : Run config (pre ++ .canExecute i t :: (mid ++ .canExecute j t' :: post)) s := by
    simpa using h
  obtain ⟨s₁, hs₁, hen⟩ := hrun.before
  obtain rfl := hs₁.functional hpre
  obtain rfl := Throughout.mid_eq_nil (by simpa using hd) hpre hent hen hmid
  -- the attempt after the entry would be one in `HalfOpen`
  have hj := hd (pre ++ [.canExecute i t]) (.canExecute j t') post _ (by simp) (hpre.snoc hen)
  exact absurd (Shared.step_enters hent).1 hj

/-! ## Stragglers -/

/-- Some time after any completion in `HalfOpen` the breaker admits calls again. -/
theorem Shared.admits_after_completion {a : Action} {id : CallId} (ha : a.Completes id)
    (ho : s.breaker.state = .halfOpen) :
    ∃ now₀, ∀ now ≥ now₀, ((s.step a).breaker.canExecute now).2 = true := by
  cases a with
  | canExecute j u => cases ha
  | recordSuccess id =>
    refine ⟨0, ?_⟩
    intro now _
    simp only [Shared.step, recordSuccess, ho]
    rfl
  | recordFailure id t =>
    refine ⟨t + s.breaker.recovery, ?_⟩
    intro now hnow
    have hle : s.breaker.recovery ≤ now - t := by omega
    simp only [Shared.step, recordFailure, ho]
    rw [canExecute_reset rfl (decide_eq_true hle)]

theorem Action.Completes.eq {a : Action} {i j : CallId} (hi : a.Completes i)
    (hj : a.Completes j) : i = j := by
  cases a with
  | canExecute => cases hi
  | recordSuccess => exact hi.symm.trans hj
  | recordFailure => exact hi.symm.trans hj

/-- A call other than the probe that completes in `HalfOpen` opens the way for a second call. -/
theorem exists_call_of_straggler {a : Action} {id : CallId} (h : Run config acts s)
    (hen : s.Enabled a) (ho : s.breaker.state = .halfOpen) (ha : a.Completes id)
    (hid : s.probe ≠ some id) :
    ∃ j now₀, (s.step a).Enabled (.canExecute j now₀) ∧
      ∀ now ≥ now₀, ¬SingleProbe config (acts ++ [a] ++ [.canExecute j now]) := by
  obtain ⟨now₀, hnow₀⟩ := Shared.admits_after_completion ha ho
  obtain ⟨j, hj⟩ := Infinite.exists_notMem_finset (s.step a).asked.toFinset
  refine ⟨j, now₀, by simpa [Shared.Enabled] using hj, ?_⟩
  intro now hnow hp
  obtain ⟨pre, i, t, mid, s₀, rfl, hpre, hent, hprobe, hmid⟩ := h.halfOpen ho
  have hmid' : ∀ b ∈ mid ++ [a], ¬b.Completes i := by
    intro b hb hc
    rcases List.mem_append.1 hb with hb | hb
    · obtain ⟨j, u, rfl⟩ := hmid b hb
      exact hc
    · obtain rfl := List.mem_singleton.1 hb
      exact hid (ha.eq hc ▸ hprobe)
  have hrun : Run config (pre ++ .canExecute i t :: (mid ++ [a])) (s.step a) := by
    simpa using h.snoc hen
  have hrejected := hp pre i t (mid ++ [a]) j now [] s₀ _ (by simp) hpre hent hmid' hrun
  rw [hnow₀ now hnow] at hrejected
  cases hrejected

/-! ## Result -/

/-- **When at most one probe is out.** A run in which nobody asks while the breaker is half-open
and only the probe completes then keeps the promise. A run that keeps it has no attempt in
`HalfOpen`; and once another call than the probe completes there, an attempt that comes late enough
breaks it. -/
theorem singleProbe_discipline (h : Run config acts s) :
    (Throughout config Shared.Disciplined acts → SingleProbe config acts) ∧
    (SingleProbe config acts → Throughout config
      (fun t a => ∀ j now, a = .canExecute j now → t.breaker.state ≠ .halfOpen) acts) ∧
    ∀ pre a post t id, acts = pre ++ a :: post → Run config pre t → a.Completes id →
      t.breaker.state = .halfOpen → t.probe ≠ some id →
      ∃ j now₀, (t.step a).Enabled (.canExecute j now₀) ∧
        ∀ now ≥ now₀, ¬SingleProbe config (pre ++ [a] ++ [.canExecute j now]) := by
  refine ⟨singleProbe_of_disciplined h, ?_, ?_⟩
  · intro hp pre a post t hacts hpre j now ha ho
    subst hacts ha
    exact not_singleProbe_of_halfOpen hpre ho j now post hp
  · intro pre a post t id hacts hpre ha ho hid
    subst hacts
    obtain ⟨t', ht', hen⟩ := h.before
    obtain rfl := ht'.functional hpre
    exact exists_call_of_straggler hpre hen ho ha hid

/-- A breaker that opens on its first failure, and its probe after the cooldown. -/
def probeRun : List Action :=
  [.canExecute 0 0, .recordFailure 0 5, .canExecute 1 40000, .recordSuccess 1]

theorem singleProbe_discipline_probeRun : SingleProbe ⟨1, 30000⟩ probeRun := by
  have hrun : Run ⟨1, 30000⟩ probeRun _ := .of_along (by decide)
  have hdisciplined : Throughout ⟨1, 30000⟩ Shared.Disciplined probeRun := .of_along (by decide)
  exact (singleProbe_discipline hrun).1 hdisciplined

/-- Call `2` asks while the probe, call `1`, is out, and is admitted as well. -/
def secondProbe : List Action :=
  [.canExecute 0 0, .recordFailure 0 5, .canExecute 1 40000, .canExecute 2 40001]

theorem secondProbe_not_singleProbe :
    ∃ s, Run ⟨1, 30000⟩ secondProbe s ∧ ¬SingleProbe ⟨1, 30000⟩ secondProbe := by
  have hopened : Run ⟨1, 30000⟩ [.canExecute 0 0, .recordFailure 0 5] _ := .of_along (by decide)
  have hprobe : Run ⟨1, 30000⟩ [.canExecute 0 0, .recordFailure 0 5, .canExecute 1 40000] _ :=
    .of_along (by decide)
  refine ⟨_, .of_along (by decide), ?_⟩
  intro hp
  have := hp [.canExecute 0 0, .recordFailure 0 5] 1 40000 [] 2 40001 [] _ _ rfl hopened (by decide)
    (by simp) hprobe
  exact absurd this (by decide)

end Xola.CircuitBreaker
