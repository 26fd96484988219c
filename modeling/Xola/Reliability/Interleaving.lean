import Mathlib.Data.List.Induction
import Xola.Reliability.CircuitBreaker

/-!
# Callers sharing one breaker

Every branch of `execute_parallel` goes through the same registry, so any number of calls to one
tool overlap. A caller runs `can_execute`; if it is admitted, it runs the tool and later completes
with `record_success` or `record_failure`. `Run config acts s` says that the interleaving `acts` of
these operations, each atomic, is one the callers can produce and leads to `s`. Clock readings are
arbitrary.

Besides the breaker, the state remembers which calls are in flight and, as a ghost, the call whose
`can_execute` last took the breaker from `Open` to `HalfOpen`.
-/

namespace Xola.CircuitBreaker

abbrev CallId := Nat

inductive Action where
  | canExecute (id : CallId) (now : Nat)
  | recordSuccess (id : CallId)
  | recordFailure (id : CallId) (now : Nat)
  deriving DecidableEq, Repr

/-- The action completes the call `id`. -/
def Action.Completes (id : CallId) : Action → Prop
  | .canExecute _ _ => False
  | .recordSuccess id' => id' = id
  | .recordFailure id' _ => id' = id

structure Shared where
  breaker : CircuitBreaker
  /-- Every caller that has asked. -/
  asked : List CallId
  /-- Admitted calls that have not completed. -/
  inFlight : List CallId
  /-- The call that last took the breaker to `HalfOpen`. -/
  probe : Option CallId

namespace Shared

def initial (config : CircuitBreakerConfig) : Shared := ⟨.new config, [], [], none⟩

/-- `can_execute` at `now` would move the breaker from `Open` to `HalfOpen`. -/
def Enters (s : Shared) (now : Nat) : Prop :=
  s.breaker.state = .opened ∧ s.breaker.shouldAttemptReset now = true

instance (s : Shared) (now : Nat) : Decidable (s.Enters now) :=
  inferInstanceAs (Decidable (_ ∧ _))

def step (s : Shared) : Action → Shared
  | .canExecute id now =>
    { breaker := (s.breaker.canExecute now).1
      asked := id :: s.asked
      inFlight := if (s.breaker.canExecute now).2 then id :: s.inFlight else s.inFlight
      probe := if s.Enters now then some id else s.probe }
  | .recordSuccess id =>
    { s with breaker := s.breaker.recordSuccess, inFlight := s.inFlight.erase id }
  | .recordFailure id now =>
    { s with breaker := s.breaker.recordFailure now, inFlight := s.inFlight.erase id }

/-- Callers ask once and complete only while they are in flight. -/
def Enabled (s : Shared) : Action → Prop
  | .canExecute id _ => id ∉ s.asked
  | .recordSuccess id => id ∈ s.inFlight
  | .recordFailure id _ => id ∈ s.inFlight

instance (s : Shared) : (a : Action) → Decidable (s.Enabled a)
  | .canExecute id _ => inferInstanceAs (Decidable (id ∉ s.asked))
  | .recordSuccess id | .recordFailure id _ => inferInstanceAs (Decidable (id ∈ s.inFlight))

/-- Every action of `acts`, taken one after the other from `s`, meets `P` in the state before it. -/
def Along (P : Shared → Action → Prop) : Shared → List Action → Prop
  | _, [] => True
  | s, a :: acts => P s a ∧ Along P (s.step a) acts

variable {P : Shared → Action → Prop}

instance decidableAlong [∀ s a, Decidable (P s a)] :
    (s : Shared) → (acts : List Action) → Decidable (Along P s acts)
  | _, [] => inferInstanceAs (Decidable True)
  | s, a :: acts =>
    have := decidableAlong (s.step a) acts
    inferInstanceAs (Decidable (_ ∧ _))

theorem along_append {s : Shared} {acts rest : List Action} :
    Along P s (acts ++ rest) ↔ Along P s acts ∧ Along P (acts.foldl step s) rest := by
  induction acts generalizing s with
  | nil => exact (iff_of_eq (true_and _)).symm
  | cons a acts ih => rw [List.cons_append, Along, Along, ih, and_assoc, List.foldl_cons]

end Shared

/-- The interleavings of the callers' operations, and the states they lead to. -/
inductive Run (config : CircuitBreakerConfig) : List Action → Shared → Prop
  | nil : Run config [] (.initial config)
  | snoc {acts : List Action} {s : Shared} {a : Action} (before : Run config acts s)
      (enabled : s.Enabled a) : Run config (acts ++ [a]) (s.step a)

namespace Run

variable {config : CircuitBreakerConfig}

theorem state_eq {acts : List Action} {s : Shared} (h : Run config acts s) :
    s = acts.foldl Shared.step (.initial config) := by
  induction h with
  | nil => rfl
  | snoc _ _ ih => rw [List.foldl_append, ← ih]; rfl

/-- Actions that are enabled one after the other make a run. -/
theorem of_along {acts : List Action} (h : Shared.Along Shared.Enabled (.initial config) acts) :
    Run config acts (acts.foldl Shared.step (.initial config)) := by
  induction acts using List.reverseRecOn with
  | nil => exact .nil
  | append_singleton acts a ih =>
    obtain ⟨hbefore, henabled, -⟩ := Shared.along_append.1 h
    rw [List.foldl_append]
    exact (ih hbefore).snoc henabled

/-- An interleaving leads to one state. -/
theorem functional {acts : List Action} {s s' : Shared} (h : Run config acts s)
    (h' : Run config acts s') : s = s' :=
  h.state_eq.trans h'.state_eq.symm

/-- Every beginning of a run is a run, and its next action is enabled there. -/
theorem before {pre post : List Action} {a : Action} {s : Shared}
    (h : Run config (pre ++ a :: post) s) : ∃ t, Run config pre t ∧ t.Enabled a := by
  induction post using List.reverseRecOn generalizing s with
  | nil =>
    obtain ⟨acts, hacts⟩ : ∃ acts, acts = pre ++ [a] := ⟨_, rfl⟩
    rw [← hacts] at h
    cases h with
    | nil => simp at hacts
    | snoc hb he =>
      obtain ⟨rfl, hx⟩ := List.append_inj' hacts rfl
      cases hx
      exact ⟨_, hb, he⟩
  | append_singleton post b ih =>
    obtain ⟨acts, hacts⟩ : ∃ acts, acts = pre ++ a :: (post ++ [b]) := ⟨_, rfl⟩
    rw [← hacts] at h
    cases h with
    | nil => simp at hacts
    | snoc hb _ =>
      rw [← List.cons_append, ← List.append_assoc] at hacts
      obtain ⟨rfl, -⟩ := List.append_inj' hacts rfl
      exact ih hb

end Run

end Xola.CircuitBreaker
