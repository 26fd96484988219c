import Mathlib.Logic.Function.Basic

/-!
# Programs that call out

A program that talks to an environment it does not control: it returns a value, fails with an
error, panics, or issues a command and continues with whatever the environment answers. `Prog` is
the free monad over the commands, with the two failing ends of a Rust `async fn` built in, so that
`>>=` is the `?` operator followed by the next statement.

`Prog.Reaches p h q` says that `p` becomes `q` after the exchange `h` of commands and answers.
Everything a run shows is derived from it: what the program returned (`Returns`), the command it is
waiting for (`Pending`), and how it came to an end, possibly in a panic (`Ends`). A program is a
well-founded tree, so against any environment it runs to an end (`Prog.exec_ends`).
-/

namespace Interaction

universe u v w

variable {C : Type u} {R : C → Type v} {ε α β : Type w}

/-- A program over the commands `C`, where command `c` is answered in `R c`. -/
inductive Prog (C : Type u) (R : C → Type v) (ε α : Type w) where
  | ret (a : α)
  | err (e : ε)
  | panic (msg : String)
  | call (c : C) (k : R c → Prog C R ε α)

/-- One exchange with the environment: a command and its answer. -/
abbrev Exchange (R : C → Type v) := (c : C) × R c

/-- The exchanges of a run, oldest first. -/
abbrev History (R : C → Type v) := List (Exchange R)

namespace Prog

def bind : Prog C R ε α → (α → Prog C R ε β) → Prog C R ε β
  | .ret a, f => f a
  | .err e, _ => .err e
  | .panic m, _ => .panic m
  | .call c k, f => .call c fun r => (k r).bind f

instance : Monad (Prog C R ε) where
  pure := .ret
  bind := bind

/-- Issue one command and return its answer. -/
def perform {ε : Type v} {R : C → Type v} (c : C) : Prog C R ε (R c) := .call c .ret

/-- Rust's `?` on a value that is already there. -/
def ofExcept : Except ε α → Prog C R ε α
  | .ok a => .ret a
  | .error e => .err e

@[simp] theorem ret_bind (a : α) (f : α → Prog C R ε β) : (Prog.ret a >>= f) = f a := rfl
@[simp] theorem call_bind (c : C) (k : R c → Prog C R ε α) (f : α → Prog C R ε β) :
    (Prog.call c k >>= f) = .call c fun r => k r >>= f := rfl
@[simp] theorem ofExcept_ok (a : α) : (ofExcept (.ok a) : Prog C R ε α) = .ret a := rfl

theorem bind_assoc (p : Prog C R ε α) (f : α → Prog C R ε β) {γ : Type w}
    (g : β → Prog C R ε γ) : ((p >>= f) >>= g) = p >>= fun a => f a >>= g := by
  induction p with
  | ret a => rfl
  | err e => rfl
  | panic m => rfl
  | call c k ih => exact congrArg (Prog.call c) (funext ih)

/-- How a run ends; `none` is a panic. -/
abbrev Ending (ε α : Type w) := Option (Except ε α)

def ofEnding : Ending ε α → String → Prog C R ε α
  | some res, _ => ofExcept res
  | none, m => .panic m

/-! ## Runs -/

/-- `Reaches p h q`: after the exchanges `h`, what is left of `p` is `q`. -/
inductive Reaches : Prog C R ε α → History R → Prog C R ε α → Prop
  | refl (p : Prog C R ε α) : Reaches p [] p
  | step {c : C} {k : R c → Prog C R ε α} (r : R c) {h : History R} {q : Prog C R ε α}
      (rest : Reaches (k r) h q) : Reaches (.call c k) (⟨c, r⟩ :: h) q

/-- A run that came to an end with the value or the error `res`. -/
def Returns (p : Prog C R ε α) (h : History R) (res : Except ε α) : Prop :=
  Reaches p h (ofExcept res)

/-- A run that has issued `c` and is waiting for the answer. -/
def Pending (p : Prog C R ε α) (h : History R) (c : C) : Prop :=
  ∃ k, Reaches p h (.call c k)

/-- A run that came to an end of any kind. -/
def Ends (p : Prog C R ε α) (h : History R) (e : Ending ε α) : Prop :=
  ∃ m, Reaches p h (ofEnding e m)

theorem Returns.ends {p : Prog C R ε α} {h : History R} {res : Except ε α} (hr : Returns p h res) :
    Ends p h (some res) :=
  ⟨"", hr⟩

theorem Reaches.trans {p q r : Prog C R ε α} {h h' : History R} (h₁ : Reaches p h q)
    (h₂ : Reaches q h' r) : Reaches p (h ++ h') r := by
  induction h₁ with
  | refl => exact h₂
  | step a _ ih => exact .step a (ih h₂)

theorem Reaches.snoc {p : Prog C R ε α} {h : History R} {c : C} {k : R c → Prog C R ε α}
    (hp : Reaches p h (.call c k)) (r : R c) : Reaches p (h ++ [⟨c, r⟩]) (k r) :=
  hp.trans (.step r (.refl _))

theorem Reaches.bind {p q : Prog C R ε α} {h : History R} (hp : Reaches p h q)
    (f : α → Prog C R ε β) : Reaches (p >>= f) h (q >>= f) := by
  induction hp with
  | refl => exact .refl _
  | step r _ ih => exact .step r ih

/-- Every exchange of a run answers a command that was waiting. -/
theorem Reaches.pending {p q : Prog C R ε α} {h t : History R} {x : Exchange R}
    (hr : Reaches p (h ++ x :: t) q) : Pending p h x.1 := by
  induction h generalizing p with
  | nil =>
    cases hr with
    | step r _ => exact ⟨_, .refl _⟩
  | cons y h ih =>
    cases hr with
    | step r rest =>
      obtain ⟨k, hk⟩ := ih rest
      exact ⟨k, .step r hk⟩

theorem Pending.here (c : C) (k : R c → Prog C R ε α) : Pending (.call c k) [] c :=
  ⟨k, .refl _⟩

theorem Pending.after {c c' : C} {k : R c → Prog C R ε α} {r : R c} {h : History R}
    (hk : Pending (k r) h c') : Pending (.call c k) (⟨c, r⟩ :: h) c' := by
  obtain ⟨k', hr⟩ := hk
  exact ⟨k', .step r hr⟩

/-- What is left after a history is determined by it. -/
theorem Reaches.functional {p q q' : Prog C R ε α} {h : History R} (h₁ : Reaches p h q)
    (h₂ : Reaches p h q') : q = q' := by
  induction h₁ with
  | refl => cases h₂; rfl
  | step _ _ ih =>
    cases h₂ with
    | step _ rest => exact ih rest

theorem Returns.functional {p : Prog C R ε α} {h : History R} {res res' : Except ε α}
    (h₁ : Returns p h res) (h₂ : Returns p h res') : res = res' := by
  have heq := Reaches.functional h₁ h₂
  cases res <;> cases res' <;> simp only [ofExcept] at heq <;> cases heq <;> rfl

/-! What a run that returned has done, by the first step of its program. -/

theorem returns_ret {a : α} {h : History R} {res : Except ε α} :
    Returns (.ret a : Prog C R ε α) h res ↔ h = [] ∧ res = .ok a := by
  constructor
  · intro hr
    cases res <;> cases hr
    exact ⟨rfl, rfl⟩
  · rintro ⟨rfl, rfl⟩
    exact .refl _

theorem returns_err {e : ε} {h : History R} {res : Except ε α} :
    Returns (.err e : Prog C R ε α) h res ↔ h = [] ∧ res = .error e := by
  constructor
  · intro hr
    cases res <;> cases hr
    exact ⟨rfl, rfl⟩
  · rintro ⟨rfl, rfl⟩
    exact .refl _

theorem returns_call {c : C} {k : R c → Prog C R ε α} {h : History R} {res : Except ε α} :
    Returns (.call c k) h res ↔ ∃ r t, h = ⟨c, r⟩ :: t ∧ Returns (k r) t res := by
  constructor
  · intro hr
    cases res with
    | ok a =>
      cases hr with
      | step r rest => exact ⟨r, _, rfl, rest⟩
    | error e =>
      cases hr with
      | step r rest => exact ⟨r, _, rfl, rest⟩
  · rintro ⟨r, t, rfl, hr⟩
    exact .step r hr

/-! ## Commands that a program may issue -/

/-- Some run of `p` is waiting for a command of the given kind. -/
def May (p : Prog C R ε α) (P : C → Prop) : Prop := ∃ h c, Pending p h c ∧ P c

section May

variable {P : C → Prop}

theorem May.here {c : C} {k : R c → Prog C R ε α} (hc : P c) : May (.call c k) P :=
  ⟨[], c, ⟨k, .refl _⟩, hc⟩

theorem May.call {c : C} {k : R c → Prog C R ε α} (r : R c) (hk : May (k r) P) :
    May (.call c k) P := by
  obtain ⟨h, c', ⟨k', hr⟩, hc⟩ := hk
  exact ⟨_, c', ⟨k', .step r hr⟩, hc⟩

theorem May.bind {p : Prog C R ε α} (hp : May p P) (f : α → Prog C R ε β) :
    May (p >>= f) P := by
  obtain ⟨h, c, ⟨k, hr⟩, hc⟩ := hp
  exact ⟨h, c, ⟨_, hr.bind f⟩, hc⟩

end May

/-! ## Running against an environment -/

/-- Run `p` against an environment that sees everything exchanged so far. -/
def exec (env : History R → (c : C) → R c) : Prog C R ε α → History R → History R × Ending ε α
  | .ret a, h => (h, some (.ok a))
  | .err e, h => (h, some (.error e))
  | .panic _, h => (h, none)
  | .call c k, h => (k (env h c)).exec env (h ++ [⟨c, env h c⟩])

/-- Every environment drives the program to an end. -/
theorem exec_ends (env : History R → (c : C) → R c) (p : Prog C R ε α) (h : History R) :
    ∃ t, Ends p t (p.exec env h).2 ∧ (p.exec env h).1 = h ++ t := by
  induction p generalizing h with
  | ret a => exact ⟨[], ⟨"", .refl _⟩, (List.append_nil h).symm⟩
  | err e => exact ⟨[], ⟨"", .refl _⟩, (List.append_nil h).symm⟩
  | panic m => exact ⟨[], ⟨m, .refl _⟩, (List.append_nil h).symm⟩
  | call c k ih =>
    obtain ⟨t, ⟨m, hm⟩, hh⟩ := ih (env h c) (h ++ [⟨c, env h c⟩])
    refine ⟨⟨c, env h c⟩ :: t, ⟨m, .step _ hm⟩, ?_⟩
    simpa only [exec, List.append_assoc, List.singleton_append] using hh

/-- A run that the environment drove to a value or an error. -/
theorem exec_returns {env : History R → (c : C) → R c} {p : Prog C R ε α} {res : Except ε α}
    (he : (p.exec env []).2 = some res) : Returns p (p.exec env []).1 res := by
  obtain ⟨t, ⟨m, hr⟩, hh⟩ := exec_ends env p []
  rw [he] at hr
  rw [hh]
  exact hr

/-- Every exchange of such a run was answered by the environment. -/
theorem exec_answers {env : History R → (c : C) → R c} {p : Prog C R ε α} {h : History R}
    {x : Exchange R} (hx : x ∈ (p.exec env h).1) : x ∈ h ∨ ∃ t, x = ⟨x.1, env t x.1⟩ := by
  induction p generalizing h with
  | ret a => exact .inl hx
  | err e => exact .inl hx
  | panic m => exact .inl hx
  | call c k ih =>
    rcases ih _ hx with hx | hx
    · rcases List.mem_append.1 hx with hx | hx
      · exact .inl hx
      · obtain rfl := List.mem_singleton.1 hx
        exact .inr ⟨h, rfl⟩
    · exact .inr hx

/-! ## Running with a handler -/

/-- Answer each command from a state of one's own. -/
def runWith {σ : Type w} (handle : σ → (c : C) → σ × R c) : Prog C R ε α → σ → σ × Ending ε α
  | .ret a, s => (s, some (.ok a))
  | .err e, s => (s, some (.error e))
  | .panic _, s => (s, none)
  | .call c k, s => (k (handle s c).2).runWith handle (handle s c).1

@[simp] theorem runWith_pure {σ : Type w} {handle : σ → (c : C) → σ × R c} (a : α) (s : σ) :
    (pure a : Prog C R ε α).runWith handle s = (s, some (.ok a)) := rfl

theorem runWith_perform {ε σ : Type v} {R : C → Type v} {handle : σ → (c : C) → σ × R c} (c : C)
    (s : σ) : (perform c : Prog C R ε (R c)).runWith handle s =
      ((handle s c).1, some (.ok (handle s c).2)) := rfl

/-- A program that returns a value hands it on with its state. -/
theorem runWith_bind {σ : Type w} {handle : σ → (c : C) → σ × R c} {p : Prog C R ε α}
    {f : α → Prog C R ε β} {s s' : σ} {a : α} (h : p.runWith handle s = (s', some (.ok a))) :
    (p >>= f).runWith handle s = (f a).runWith handle s' := by
  induction p generalizing s with
  | ret b =>
    cases h
    rfl
  | err e => cases h
  | panic m => cases h
  | call c k ih => exact ih _ h

/-- The answers of the history are those of the handler, which it leaves in the state `s'`. -/
def Handled {σ : Type w} (handle : σ → (c : C) → σ × R c) : σ → History R → σ → Prop
  | s, [], s' => s' = s
  | s, ⟨c, r⟩ :: h, s' => r = (handle s c).2 ∧ Handled handle (handle s c).1 h s'

/-- A run with a handler is one of the runs of the program. -/
theorem runWith_returns {σ : Type w} {handle : σ → (c : C) → σ × R c} {p : Prog C R ε α}
    {s s' : σ} {res : Except ε α} (h : p.runWith handle s = (s', some res)) :
    ∃ t, Returns p t res ∧ Handled handle s t s' := by
  induction p generalizing s with
  | ret a => cases h; exact ⟨[], .refl _, rfl⟩
  | err e => cases h; exact ⟨[], .refl _, rfl⟩
  | panic m => cases h
  | call c k ih =>
    obtain ⟨t, hr, ht⟩ := ih _ h
    exact ⟨⟨c, _⟩ :: t, .step _ hr, rfl, ht⟩

/-- The state that a handler is in after a history. -/
def replay {σ : Type w} (handle : σ → (c : C) → σ × R c) (s : σ) (h : History R) : σ :=
  h.foldl (fun s x => (handle s x.1).1) s

/-- An environment that replays a handler answers as the handler does. -/
theorem exec_replay {σ : Type w} (handle : σ → (c : C) → σ × R c) (p : Prog C R ε α) (s : σ)
    (h : History R) :
    ∃ t, (p.exec (fun h c => (handle (replay handle s h) c).2) h).1 = h ++ t ∧
      Ends p t (p.exec (fun h c => (handle (replay handle s h) c).2) h).2 ∧
      Handled handle (replay handle s h) t (replay handle s (h ++ t)) := by
  induction p generalizing h with
  | ret a => exact ⟨[], (List.append_nil h).symm, ⟨"", .refl _⟩, by rw [List.append_nil]; rfl⟩
  | err e => exact ⟨[], (List.append_nil h).symm, ⟨"", .refl _⟩, by rw [List.append_nil]; rfl⟩
  | panic m => exact ⟨[], (List.append_nil h).symm, ⟨m, .refl _⟩, by rw [List.append_nil]; rfl⟩
  | call c k ih =>
    obtain ⟨t, hexec, ⟨m, hends⟩, hhandled⟩ :=
      ih (handle (replay handle s h) c).2 (h ++ [⟨c, (handle (replay handle s h) c).2⟩])
    refine ⟨⟨c, (handle (replay handle s h) c).2⟩ :: t, ?_, ⟨m, .step _ hends⟩, rfl, ?_⟩
    · simpa only [exec, List.append_assoc, List.singleton_append] using hexec
    · simpa only [replay, List.foldl_append, List.foldl_cons, List.foldl_nil, List.append_assoc,
        List.singleton_append] using hhandled

end Prog

end Interaction
