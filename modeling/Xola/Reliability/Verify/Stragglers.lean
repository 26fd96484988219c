import Xola.Reliability.Verify.HalfOpenProbe

/-!
# Stragglers

A call admitted while the breaker was closed may complete after others have opened it. Completions
carry no identity, so the breaker takes such a straggler for what it is not. A straggler that fails
in `Open` stores its own time as the last failure and starts the cooldown anew, although
`record_failure` is documented as a no-op there. A straggler that completes in `HalfOpen` is taken
for the probe.
-/

namespace Xola.CircuitBreaker

variable {config : CircuitBreakerConfig} {acts : List Action} {s : Shared}

theorem Throughout.left {P : Shared → Action → Prop} {rest : List Action}
    (h : Throughout config P (acts ++ rest)) : Throughout config P acts := by
  intro pre b post t heq hpre
  exact h pre b (post ++ rest) t (by simp [heq]) hpre

/-! ## Failures in `Open` -/

def Action.now? : Action → Option Nat
  | .canExecute _ now => some now
  | .recordSuccess _ => none
  | .recordFailure _ now => some now

def Action.failedAt? : Action → Option Nat
  | .recordFailure _ now => some now
  | _ => none

/-- The clock readings of the run. -/
def readings (acts : List Action) : List Nat := acts.filterMap Action.now?

/-- The clock does not go back. -/
def Clocked (acts : List Action) : Prop := (readings acts).Pairwise (· ≤ ·)

instance (acts : List Action) : Decidable (Clocked acts) :=
  inferInstanceAs (Decidable (List.Pairwise _ _))

theorem readings_append (acts rest : List Action) :
    readings (acts ++ rest) = readings acts ++ readings rest :=
  List.filterMap_append

theorem Clocked.append {rest : List Action} (h : Clocked (acts ++ rest)) :
    Clocked acts ∧ ∀ f ∈ readings acts, ∀ u ∈ readings rest, f ≤ u := by
  rw [Clocked, readings_append] at h
  exact ⟨(List.pairwise_append.1 h).1, (List.pairwise_append.1 h).2.2⟩

/-- After `acts` the breaker of `s` is `Open`; it opened at `t`, and failures were recorded at
`late` since then. -/
inductive OpenSince (config : CircuitBreakerConfig) :
    List Action → Shared → (t : Nat) → (late : List Nat) → Prop
  | opens {acts : List Action} {s : Shared} {id : CallId} {t : Nat} (before : Run config acts s)
      (enabled : s.Enabled (.recordFailure id t)) (was : s.breaker.state ≠ .opened)
      (now : (s.step (.recordFailure id t)).breaker.state = .opened) :
      OpenSince config (acts ++ [.recordFailure id t]) (s.step (.recordFailure id t)) t []
  | stays {acts : List Action} {s : Shared} {a : Action} {t : Nat} {late : List Nat}
      (since : OpenSince config acts s t late) (enabled : s.Enabled a)
      (now : (s.step a).breaker.state = .opened) :
      OpenSince config (acts ++ [a]) (s.step a) t (late ++ a.failedAt?.toList)

/-- The documented promise: while the breaker is open a failure changes nothing, and an attempt
that comes the recovery timeout after the opening, or later, is admitted. -/
def FailuresIgnored (config : CircuitBreakerConfig) (acts : List Action) : Prop :=
  ∀ pre a post s t late, acts = pre ++ a :: post → OpenSince config pre s t late →
    (∀ id now, a = .recordFailure id now → s.breaker.recordFailure now = s.breaker) ∧
    ∀ id u, a = .canExecute id u → t + config.recoveryTimeout ≤ u →
      (s.breaker.canExecute u).2 = true

/-- A failure that arrives in `Open` carries the time that is stored already. -/
def Shared.Punctual (s : Shared) : Action → Prop
  | .recordFailure _ now => s.breaker.state = .opened → now = s.breaker.lastFailure
  | _ => True

instance (s : Shared) : (a : Action) → Decidable (s.Punctual a)
  | .recordFailure _ now =>
    inferInstanceAs (Decidable (s.breaker.state = .opened → now = s.breaker.lastFailure))
  | .canExecute _ _ | .recordSuccess _ => inferInstanceAs (Decidable True)

theorem recordFailure_opened {b : CircuitBreaker} {now : Nat} (h : b.state = .opened) :
    b.recordFailure now = { b with lastFailure := now } := by
  simp only [recordFailure, h]

/-- In `Open` a failure is a no-op exactly when it has nothing new to store. -/
theorem recordFailure_eq_self_iff {b : CircuitBreaker} {now : Nat} (h : b.state = .opened) :
    b.recordFailure now = b ↔ now = b.lastFailure := by
  rw [recordFailure_opened h]
  constructor
  · intro heq
    exact congrArg lastFailure heq
  · rintro rfl
    rfl

theorem Run.config_eq (h : Run config acts s) : s.breaker.config = config := by
  induction h with
  | nil => rfl
  | @snoc acts s a _ _ ih =>
    rw [← ih]
    cases a with
    | canExecute id now => exact canExecute_config _ _
    | recordSuccess id => exact recordSuccess_config _
    | recordFailure id now => exact recordFailure_config _ _

/-- What an action does to a breaker that is open and stays open. -/
theorem Shared.step_stays {a : Action} (ho : s.breaker.state = .opened)
    (hn : (s.step a).breaker.state = .opened) :
    (s.step a).breaker =
      { s.breaker with lastFailure := a.failedAt?.getD s.breaker.lastFailure } := by
  cases a with
  | canExecute id now =>
    simp only [Shared.step] at hn ⊢
    by_cases hr : s.breaker.shouldAttemptReset now = true
    · rw [canExecute_reset ho hr] at hn
      cases hn
    · rw [canExecute_rejects ho (Bool.eq_false_iff.2 hr)]
      rfl
  | recordSuccess id =>
    simp only [Shared.step, recordSuccess, ho]
    exact congrArg (fun st => { s.breaker with state := st }) ho
  | recordFailure id now => exact recordFailure_opened ho

/-- The failure that opens the breaker is stored. -/
theorem Shared.step_opens {id : CallId} {t : Nat} (was : s.breaker.state ≠ .opened) :
    (s.step (.recordFailure id t)).breaker.lastFailure = t := by
  simp only [Shared.step, recordFailure]
  split
  · rfl
  · rfl
  · next ho => exact absurd ho was

namespace OpenSince

variable {t : Nat} {late : List Nat}

theorem run (h : OpenSince config acts s t late) : Run config acts s := by
  induction h with
  | opens before enabled => exact before.snoc enabled
  | stays _ enabled _ ih => exact ih.snoc enabled

theorem state_eq (h : OpenSince config acts s t late) : s.breaker.state = .opened := by
  cases h with
  | opens _ _ _ now => exact now
  | stays _ _ now => exact now

/-- As long as failures are punctual, the stored time is that of the opening. -/
theorem lastFailure_eq (h : OpenSince config acts s t late)
    (hp : Throughout config Shared.Punctual acts) : s.breaker.lastFailure = t := by
  induction h with
  | opens _ _ was _ => exact Shared.step_opens was
  | @stays acts s a t late since _ now ih =>
    have ht : s.breaker.lastFailure = t := ih hp.left
    have ha : s.Punctual a := hp acts a [] s rfl since.run
    rw [Shared.step_stays since.state_eq now]
    cases a with
    | canExecute id u => exact ht
    | recordSuccess id => exact ht
    | recordFailure id u => exact (ha since.state_eq).trans ht

/-- With a clock that does not go back the stored time is that of the latest failure. -/
theorem lastFailure_latest (h : OpenSince config acts s t late) (hc : Clocked acts) :
    s.breaker.lastFailure ∈ readings acts ∧ s.breaker.lastFailure ∈ t :: late ∧
      ∀ f ∈ t :: late, f ≤ s.breaker.lastFailure := by
  induction h with
  | opens _ _ was _ =>
    rw [Shared.step_opens was]
    simp [readings, Action.now?]
  | @stays acts s a t late since _ now ih =>
    obtain ⟨hc, hlater⟩ := hc.append
    obtain ⟨hmem, hlate, hle⟩ := ih hc
    rw [Shared.step_stays since.state_eq now, readings_append]
    cases a with
    | canExecute id u =>
      exact ⟨List.mem_append_left _ hmem, by simpa [Action.failedAt?] using hlate,
        by simpa [Action.failedAt?] using hle⟩
    | recordSuccess id =>
      exact ⟨List.mem_append_left _ hmem, by simpa [Action.failedAt?] using hlate,
        by simpa [Action.failedAt?] using hle⟩
    | recordFailure id u =>
      -- the new reading is at least every earlier one, the stored one among them
      have hu : s.breaker.lastFailure ≤ u := hlater _ hmem u (by simp [readings, Action.now?])
      refine ⟨by simp [readings, Action.now?, Action.failedAt?], by simp [Action.failedAt?], ?_⟩
      intro f hf
      rcases List.mem_append.1 (List.cons_append ▸ hf) with hf | hf
      · exact (hle f hf).trans hu
      · exact (List.mem_singleton.1 hf).le

/-- An open breaker admits a call exactly when the recovery timeout has gone by since each of the
failures recorded from the opening on. -/
theorem admits_iff {id : CallId} {u : Nat} (h : OpenSince config acts s t late)
    (hc : Clocked (acts ++ [.canExecute id u])) :
    (s.breaker.canExecute u).2 = true ↔ ∀ f ∈ t :: late, f + s.breaker.recovery ≤ u := by
  obtain ⟨hc, hlater⟩ := hc.append
  obtain ⟨hmem, hlate, hle⟩ := h.lastFailure_latest hc
  have hu : s.breaker.lastFailure ≤ u := hlater _ hmem u (by simp [readings, Action.now?])
  have hadmits : (s.breaker.canExecute u).2 = true ↔
      s.breaker.recovery ≤ u - s.breaker.lastFailure := by
    rw [← not_iff_not, Bool.not_eq_true, canExecute_eq_false_iff, shouldAttemptReset,
      decide_eq_false_iff_not]
    exact and_iff_right h.state_eq
  rw [hadmits]
  constructor
  · intro hr f hf
    have := hle f hf
    omega
  · intro hall
    have := hall _ hlate
    omega

end OpenSince

/-- An open breaker has been opened by a failure. -/
theorem Run.openSince (h : Run config acts s) (ho : s.breaker.state = .opened) :
    ∃ t late, OpenSince config acts s t late := by
  induction h with
  | nil => cases ho
  | @snoc acts s a before enabled ih =>
    by_cases was : s.breaker.state = .opened
    · obtain ⟨t, late, hs⟩ := ih was
      exact ⟨t, _, hs.stays enabled ho⟩
    · cases a with
      | canExecute id now =>
        rcases hstate : s.breaker.state with - | - | -
        · simp [Shared.step, canExecute_closed hstate, hstate] at ho
        · exact absurd hstate was
        · simp [Shared.step, canExecute_halfOpen hstate, hstate] at ho
      | recordSuccess id =>
        simp only [Shared.step, recordSuccess] at ho
        split at ho <;> simp_all
      | recordFailure id now => exact ⟨now, [], .opens before enabled was ho⟩

theorem failuresIgnored_of_punctual (hp : Throughout config Shared.Punctual acts) :
    FailuresIgnored config acts := by
  intro pre a post s t late hacts hs
  subst hacts
  refine ⟨?_, ?_⟩
  · intro id now ha
    subst ha
    exact (recordFailure_eq_self_iff hs.state_eq).2 (hp pre _ post s rfl hs.run hs.state_eq)
  · intro id u _ hu
    have ht : s.breaker.lastFailure = t := hs.lastFailure_eq hp.left
    have hr : s.breaker.recovery ≤ config.recoveryTimeout := by
      rw [← hs.run.config_eq]
      exact Nat.mod_le _ _
    rw [canExecute_reset hs.state_eq]
    exact decide_eq_true (by omega)

theorem punctual_of_failuresIgnored (hi : FailuresIgnored config acts) :
    Throughout config Shared.Punctual acts := by
  intro pre a post s hacts hpre
  cases a with
  | canExecute id now => trivial
  | recordSuccess id => trivial
  | recordFailure id now =>
    intro ho
    obtain ⟨t, late, hs⟩ := hpre.openSince ho
    exact (recordFailure_eq_self_iff ho).1 ((hi pre _ post s t late hacts hs).1 id now rfl)

/-- **When late failures do not postpone recovery.** Failures that arrive in `Open` are ignored in
exactly the runs where each of them carries the time that is stored already. In any run, an open
breaker admits the call that asks next exactly when the recovery timeout has gone by since the
opening and since every failure that has arrived in `Open`. -/
theorem failuresIgnored_iff (hc : Clocked acts) :
    (FailuresIgnored config acts ↔ Throughout config Shared.Punctual acts) ∧
    ∀ pre id u post s t late, acts = pre ++ .canExecute id u :: post →
      OpenSince config pre s t late →
      ((s.breaker.canExecute u).2 = true ↔ ∀ f ∈ t :: late, f + s.breaker.recovery ≤ u) := by
  refine ⟨⟨punctual_of_failuresIgnored, failuresIgnored_of_punctual⟩, ?_⟩
  intro pre id u post s t late hacts hs
  rw [hacts, List.append_cons] at hc
  exact hs.admits_iff hc.append.1

/-- Two calls fail in the same millisecond: the second of them finds the breaker open, with its own
time stored. -/
def sameMoment : List Action :=
  [.canExecute 0 0, .canExecute 1 0, .recordFailure 0 5, .recordFailure 1 5, .canExecute 2 30005]

theorem failuresIgnored_iff_punctual : FailuresIgnored ⟨1, 30000⟩ sameMoment ∧
    ∃ s, OpenSince ⟨1, 30000⟩ (sameMoment.take 4) s 5 [5] ∧
      (s.breaker.canExecute 30005).2 = true := by
  have hclocked : Clocked sameMoment := by decide
  have hpunctual : Throughout ⟨1, 30000⟩ Shared.Punctual sameMoment := .of_along (by decide)
  obtain ⟨hignored, hadmits⟩ := @failuresIgnored_iff ⟨1, 30000⟩ sameMoment hclocked
  have hadmitted : Run ⟨1, 30000⟩ [.canExecute 0 0, .canExecute 1 0] _ := .of_along (by decide)
  have hopened : OpenSince ⟨1, 30000⟩
      [.canExecute 0 0, .canExecute 1 0, .recordFailure 0 5] _ 5 [] :=
    .opens hadmitted (by decide) (by decide) (by decide)
  have hlate : OpenSince ⟨1, 30000⟩ (sameMoment.take 4) _ 5 [5] :=
    hopened.stays (a := .recordFailure 1 5) (by decide) (by decide)
  exact ⟨hignored.2 hpunctual, _, hlate, (hadmits _ 2 30005 [] _ 5 [5] rfl hlate).2 (by decide)⟩

/-- The breaker opens at `5`; call `1`, admitted before, fails at `20000`; the attempt at `30005`
is turned away. -/
def lateFailure : List Action :=
  [.canExecute 0 0, .canExecute 1 0, .recordFailure 0 5, .recordFailure 1 20000,
    .canExecute 2 30005]

theorem lateFailure_not_ignored : (∃ s, Run ⟨1, 30000⟩ lateFailure s) ∧ Clocked lateFailure ∧
    ¬FailuresIgnored ⟨1, 30000⟩ lateFailure := by
  have hadmitted : Run ⟨1, 30000⟩ [.canExecute 0 0, .canExecute 1 0] _ := .of_along (by decide)
  have hopened : OpenSince ⟨1, 30000⟩
      [.canExecute 0 0, .canExecute 1 0, .recordFailure 0 5] _ 5 [] :=
    .opens hadmitted (by decide) (by decide) (by decide)
  have hlate : OpenSince ⟨1, 30000⟩
      [.canExecute 0 0, .canExecute 1 0, .recordFailure 0 5, .recordFailure 1 20000] _ 5 [20000] :=
    hopened.stays (a := .recordFailure 1 20000) (by decide) (by decide)
  refine ⟨⟨_, .of_along (by decide)⟩, by decide, ?_⟩
  intro hi
  have hadmits := (hi _ (.canExecute 2 30005) [] _ 5 [20000] rfl hlate).2 2 30005 rfl (by decide)
  exact absurd hadmits (by decide)

/-! ## Completions in `HalfOpen` -/

/-- After `acts` the breaker of `s` is `HalfOpen`; the calls `recent` have been admitted since it
left `Open`, the last of them by leaving it. -/
inductive HalfOpenSince (config : CircuitBreakerConfig) :
    List Action → Shared → (recent : List CallId) → Prop
  | enters {acts : List Action} {s : Shared} {i : CallId} {t : Nat} (before : Run config acts s)
      (enabled : s.Enabled (.canExecute i t)) (enters : s.Enters t) :
      HalfOpenSince config (acts ++ [.canExecute i t]) (s.step (.canExecute i t)) [i]
  | admits {acts : List Action} {s : Shared} {i : CallId} {t : Nat} {recent : List CallId}
      (since : HalfOpenSince config acts s recent) (enabled : s.Enabled (.canExecute i t))
      (admitted : (s.breaker.canExecute t).2 = true) :
      HalfOpenSince config (acts ++ [.canExecute i t]) (s.step (.canExecute i t)) (i :: recent)

/-- The documented promise: what takes the breaker out of `HalfOpen` is the completion of a call
admitted since it got there. -/
def OnlyProbe (config : CircuitBreakerConfig) (acts : List Action) : Prop :=
  ∀ pre a post s recent, acts = pre ++ a :: post → HalfOpenSince config pre s recent →
    (s.step a).breaker.state ≠ .halfOpen → ∃ id ∈ recent, a.Completes id

/-- The first call to complete after an attempt that took the breaker out of `Open` is none of those
in flight at that attempt. -/
def Overtaking (config : CircuitBreakerConfig) (acts : List Action) : Prop :=
  ∀ pre i t mid a post s₀ id, acts = pre ++ .canExecute i t :: (mid ++ a :: post) →
    Run config pre s₀ → s₀.Enters t → (∀ b ∈ mid, ∀ j, ¬b.Completes j) → a.Completes id →
    id ∉ s₀.inFlight

theorem Run.inFlight_subset (h : Run config acts s) : s.inFlight ⊆ s.asked := by
  induction h with
  | nil => exact List.Subset.refl _
  | @snoc acts s a _ _ ih =>
    cases a with
    | canExecute id now =>
      simp only [Shared.step]
      split
      · exact List.cons_subset_cons _ ih
      · exact List.subset_cons_of_subset _ ih
    | recordSuccess id => exact List.Subset.trans List.erase_subset ih
    | recordFailure id now => exact List.Subset.trans List.erase_subset ih

theorem Action.eq_canExecute {a : Action} (h : ∀ j, ¬a.Completes j) :
    ∃ j u, a = .canExecute j u := by
  cases a with
  | canExecute j u => exact ⟨j, u, rfl⟩
  | recordSuccess id => exact absurd rfl (h id)
  | recordFailure id now => exact absurd rfl (h id)

/-- A completion takes the breaker out of `HalfOpen`, or leaves it out. -/
theorem Shared.step_state_ne {a : Action} {id : CallId} (ha : a.Completes id) :
    (s.step a).breaker.state ≠ .halfOpen := by
  cases a with
  | canExecute j u => cases ha
  | recordSuccess j => exact recordSuccess_state_ne _
  | recordFailure j now => exact recordFailure_state_ne _ _

theorem Shared.mem_inFlight {a : Action} {id : CallId} (h : s.Enabled a) (ha : a.Completes id) :
    id ∈ s.inFlight := by
  cases a with
  | canExecute j u => cases ha
  | recordSuccess j => exact ha ▸ h
  | recordFailure j now => exact ha ▸ h

namespace HalfOpenSince

variable {recent : List CallId}

theorem run (h : HalfOpenSince config acts s recent) : Run config acts s := by
  induction h with
  | enters before enabled => exact before.snoc enabled
  | admits _ enabled _ ih => exact ih.snoc enabled

theorem state_eq (h : HalfOpenSince config acts s recent) : s.breaker.state = .halfOpen := by
  induction h with
  | enters _ _ enters => exact (Shared.step_enters enters).1
  | admits _ _ _ ih =>
    simp only [Shared.step, canExecute_halfOpen ih]
    exact ih

/-- The entry lies behind attempts only, and whoever is in flight has been since before it or has
been admitted since. -/
theorem entry (h : HalfOpenSince config acts s recent) :
    ∃ pre i t mid s₀, acts = pre ++ .canExecute i t :: mid ∧ Run config pre s₀ ∧ s₀.Enters t ∧
      (∀ b ∈ mid, ∀ j, ¬b.Completes j) ∧ ∀ id ∈ s.inFlight, id ∈ recent ∨ id ∈ s₀.inFlight := by
  induction h with
  | @enters acts s i t before enabled enters =>
    refine ⟨acts, i, t, [], s, rfl, before, enters, by simp, ?_⟩
    intro id hid
    simp only [Shared.step, canExecute_reset enters.1 enters.2, ↓reduceIte, List.mem_cons] at hid
    exact hid.imp_left List.mem_singleton.2
  | @admits acts s i t recent since enabled admitted ih =>
    obtain ⟨pre, j, u, mid, s₀, rfl, hpre, hent, hmid, hin⟩ := ih
    refine ⟨pre, j, u, mid ++ [.canExecute i t], s₀, by simp, hpre, hent, ?_, ?_⟩
    · intro b hb k hk
      rcases List.mem_append.1 hb with hb | hb
      · exact hmid b hb k hk
      · obtain rfl := List.mem_singleton.1 hb
        exact hk
    · intro id hid
      simp only [Shared.step, admitted, ↓reduceIte, List.mem_cons] at hid
      rcases hid with rfl | hid
      · exact .inl List.mem_cons_self
      · exact (hin id hid).imp_left (List.mem_cons_of_mem _)

end HalfOpenSince

/-- As long as nobody completes, the breaker stays in the `HalfOpen` it entered, and those admitted
meanwhile had not asked before. -/
theorem Run.halfOpenSince {pre mid : List Action} {i : CallId} {t : Nat} {s₀ : Shared}
    (h : Run config (pre ++ .canExecute i t :: mid) s) (hpre : Run config pre s₀)
    (hent : s₀.Enters t) (hmid : ∀ b ∈ mid, ∀ j, ¬b.Completes j) :
    ∃ recent, HalfOpenSince config (pre ++ .canExecute i t :: mid) s recent ∧
      s₀.asked ⊆ s.asked ∧ ∀ id ∈ recent, id ∉ s₀.asked := by
  induction mid using List.reverseRecOn generalizing s with
  | nil =>
    obtain ⟨s₁, hs₁, hen⟩ := h.before
    obtain rfl := hs₁.functional hpre
    have hi := HalfOpenSince.enters hpre hen hent
    obtain rfl := hi.run.functional h
    refine ⟨[i], hi, List.subset_cons_self _ _, ?_⟩
    intro id hid
    obtain rfl := List.mem_singleton.1 hid
    exact hen
  | append_singleton mid b ih =>
    have hsplit : pre ++ .canExecute i t :: (mid ++ [b]) =
        (pre ++ .canExecute i t :: mid) ++ b :: [] := by simp
    obtain ⟨s₁, hs₁, hen⟩ := (hsplit ▸ h).before
    obtain ⟨recent, hr, hasked, hfresh⟩ := ih hs₁ fun c hc => hmid c (by simp [hc])
    obtain ⟨j, u, rfl⟩ := Action.eq_canExecute (hmid b (by simp))
    have hadm : (s₁.breaker.canExecute u).2 = true := by rw [canExecute_halfOpen hr.state_eq]
    have hi := hr.admits hen hadm
    rw [← hsplit] at hi
    obtain rfl := hi.run.functional h
    refine ⟨j :: recent, hi, List.subset_cons_of_subset _ hasked, ?_⟩
    intro id hid hold
    rcases List.mem_cons.1 hid with rfl | hid
    · exact hen (hasked hold)
    · exact hfresh id hid hold

/-- **When only a probe decides recovery.** In exactly those runs where, after each move to
`HalfOpen`, the first call to complete is none that was in flight before. -/
theorem onlyProbe_iff (h : Run config acts s) : OnlyProbe config acts ↔ Overtaking config acts := by
  constructor
  · intro hp pre i t mid a post s₀ id hacts hpre hent hmid ha hold
    have hsplit : acts = (pre ++ .canExecute i t :: mid) ++ a :: post := by simp [hacts]
    obtain ⟨s₁, hs₁, -⟩ := (hsplit ▸ h).before
    obtain ⟨recent, hr, -, hfresh⟩ := hs₁.halfOpenSince hpre hent hmid
    obtain ⟨j, hj, hcomp⟩ := hp _ a post s₁ recent hsplit hr (Shared.step_state_ne ha)
    exact hfresh j hj (hpre.inFlight_subset (hcomp.eq ha ▸ hold))
  · intro ho pre a post s₁ recent hacts hr hleaves
    obtain ⟨s₂, hs₂, hen⟩ := (hacts ▸ h).before
    obtain rfl := hs₂.functional hr.run
    obtain ⟨pre₀, i, t, mid, s₀, rfl, hpre, hent, hmid, hin⟩ := hr.entry
    by_cases hc : ∃ id, a.Completes id
    · obtain ⟨id, hid⟩ := hc
      have hnew := ho pre₀ i t mid a post s₀ id (by simp [hacts]) hpre hent hmid hid
      exact ⟨id, (hin id (Shared.mem_inFlight hen hid)).resolve_right hnew, hid⟩
    · -- an attempt leaves the breaker where it is
      obtain ⟨j, u, rfl⟩ := Action.eq_canExecute (not_exists.1 hc)
      simp only [Shared.step, canExecute_halfOpen hr.state_eq] at hleaves
      exact absurd hr.state_eq hleaves

/-- No call is in flight when the probe of `probeRun` is sent. -/
theorem onlyProbe_iff_probeRun : OnlyProbe ⟨1, 30000⟩ probeRun := by
  have hrun : Run ⟨1, 30000⟩ probeRun _ := .of_along (by decide)
  refine (onlyProbe_iff hrun).2 ?_
  intro pre i t mid a post s₀ id hacts hpre hent _ _
  obtain rfl := hpre.state_eq
  rw [probeRun] at hacts
  rcases pre with - | ⟨b, - | ⟨c, - | ⟨d, pre⟩⟩⟩
  · exact absurd hent (by simp [Shared.Enters, Shared.initial, new])
  · simp at hacts
  · simp only [List.cons_append, List.nil_append, List.cons.injEq] at hacts
    obtain ⟨rfl, rfl, -⟩ := hacts
    exact List.not_mem_nil
  · have hlen := congrArg List.length hacts
    simp at hlen
    omega

/-- Call `1` is still out when the breaker goes half-open for call `2`, and its success closes it. -/
def staleProbe : List Action :=
  [.canExecute 0 0, .canExecute 1 0, .recordFailure 0 5, .canExecute 2 40000, .recordSuccess 1]

theorem staleProbe_not_onlyProbe :
    (∃ s, Run ⟨1, 30000⟩ staleProbe s) ∧ ¬OnlyProbe ⟨1, 30000⟩ staleProbe := by
  have hopened : Run ⟨1, 30000⟩ [.canExecute 0 0, .canExecute 1 0, .recordFailure 0 5] _ :=
    .of_along (by decide)
  have hprobing : HalfOpenSince ⟨1, 30000⟩
      [.canExecute 0 0, .canExecute 1 0, .recordFailure 0 5, .canExecute 2 40000] _ [2] :=
    .enters hopened (by decide) (by decide)
  refine ⟨⟨_, .of_along (by decide)⟩, ?_⟩
  intro hp
  obtain ⟨id, hid, hone⟩ := hp _ (.recordSuccess 1) [] _ [2] rfl hprobing (by decide)
  obtain rfl := List.mem_singleton.1 hid
  exact absurd hone (by simp [Action.Completes])

end Xola.CircuitBreaker
