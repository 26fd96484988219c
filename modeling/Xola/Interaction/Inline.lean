import Xola.Interaction.Prog

/-!
# Programs in layers

A command of one program may be carried out by another program, which issues commands of its own.
`Prog.inline` puts the implementation of every command in its place. A run of the result is a run of
the upper program with each exchange expanded to a run of its implementation, but for the last
command, which may still be in the works: `Prog.reaches_inline`. The converse is
`Prog.Expands.reaches`.

`attempt` gives the caller of a program its error as a value, and `embed` takes a program to a larger
set of commands.
-/

namespace Interaction

universe u v w u' v'

namespace Prog

variable {C : Type u} {R : C → Type w} {C' : Type u'} {R' : C' → Type v'} {ε α : Type w}

def attempt {R : C → Type v} {ε' : Type w} : Prog C R ε α → Prog C R ε' (Except ε α)
  | .ret a => .ret (.ok a)
  | .err e => .ret (.error e)
  | .panic m => .panic m
  | .call c k => .call c fun r => (k r).attempt

def embed (f : C → C') : Prog C (fun c => R' (f c)) ε α → Prog C' R' ε α
  | .ret a => .ret a
  | .err e => .err e
  | .panic m => .panic m
  | .call c k => .call (f c) fun r => (k r).embed f

def inline (impl : (c : C) → Prog C' R' ε (R c)) : Prog C R ε α → Prog C' R' ε α
  | .ret a => .ret a
  | .err e => .err e
  | .panic m => .panic m
  | .call c k => impl c >>= fun r => (k r).inline impl

/-- A run of two programs in a row is in the first of them, or has come past it. -/
theorem reaches_bind {R : C → Type v} {β : Type w} {p : Prog C R ε α} {f : α → Prog C R ε β}
    {h : History R} {q : Prog C R ε β} (hr : Reaches (p >>= f) h q) :
    (∃ p', Reaches p h p' ∧ q = p' >>= f) ∨
      ∃ a h₁ h₂, h = h₁ ++ h₂ ∧ Reaches p h₁ (.ret a) ∧ Reaches (f a) h₂ q := by
  induction p generalizing h with
  | ret a => exact .inr ⟨a, [], h, rfl, .refl _, hr⟩
  | err e =>
    cases hr
    exact .inl ⟨_, .refl _, rfl⟩
  | panic m =>
    cases hr
    exact .inl ⟨_, .refl _, rfl⟩
  | call c k ih =>
    cases hr with
    | refl => exact .inl ⟨_, .refl _, rfl⟩
    | step r rest =>
      rcases ih r rest with ⟨p', hp, rfl⟩ | ⟨a, h₁, h₂, rfl, hp, hf⟩
      · exact .inl ⟨p', .step r hp, rfl⟩
      · exact .inr ⟨a, _ :: h₁, h₂, rfl, .step r hp, hf⟩

/-! ## Runs of the layers -/

variable {impl : (c : C) → Prog C' R' ε (R c)}

/-- `g` carries out the exchanges `h`, one after another. -/
inductive Expands (impl : (c : C) → Prog C' R' ε (R c)) : History R → History R' → Prop
  | nil : Expands impl [] []
  | cons {c : C} {r : R c} {h : History R} {t g : History R'} (run : Reaches (impl c) t (.ret r))
      (rest : Expands impl h g) : Expands impl (⟨c, r⟩ :: h) (t ++ g)

/-- What is left of `p` after `h`, when `t` has been done for its next command. -/
inductive Underway (impl : (c : C) → Prog C' R' ε (R c)) (p : Prog C R ε α) (h : History R) :
    History R' → Prog C' R' ε α → Prop
  | between {p' : Prog C R ε α} (reaches : Reaches p h p') :
    Underway impl p h [] (p'.inline impl)
  | within {c : C} {k : R c → Prog C R ε α} {t : History R'} {q : Prog C' R' ε (R c)}
      (reaches : Reaches p h (.call c k)) (running : Reaches (impl c) t q) :
    Underway impl p h t (q >>= fun r => (k r).inline impl)

theorem Underway.step {c : C} {k : R c → Prog C R ε α} {r : R c} {h : History R} {t : History R'}
    {q : Prog C' R' ε α} (hu : Underway impl (k r) h t q) :
    Underway impl (.call c k) (⟨c, r⟩ :: h) t q := by
  cases hu with
  | between reaches => exact .between (.step r reaches)
  | within reaches running => exact .within (.step r reaches) running

/-- **Runs of a program with its commands carried out.** They are runs of the program, expanded. -/
theorem reaches_inline {p : Prog C R ε α} {g : History R'} {q : Prog C' R' ε α}
    (hr : Reaches (p.inline impl) g q) :
    ∃ h done t, g = done ++ t ∧ Expands impl h done ∧ Underway impl p h t q := by
  induction p generalizing g with
  | ret a | err e | panic m =>
    cases hr
    exact ⟨[], [], [], rfl, .nil, .between (.refl _)⟩
  | call c k ih =>
    rcases reaches_bind hr with ⟨q', hq, rfl⟩ | ⟨r, t, g', rfl, hdone, hrest⟩
    · exact ⟨[], [], g, rfl, .nil, .within (.refl _) hq⟩
    · obtain ⟨h, done, t', rfl, hexp, hunder⟩ := ih r hrest
      exact ⟨⟨c, r⟩ :: h, t ++ done, t', (List.append_assoc _ _ _).symm, .cons hdone hexp,
        hunder.step⟩

/-- Runs of the implementations make up a run of the whole. -/
theorem Expands.reaches {p p' : Prog C R ε α} {h : History R} {g : History R'}
    (hexp : Expands impl h g) (hr : Reaches p h p') :
    Reaches (p.inline impl) g (p'.inline impl) := by
  induction hexp generalizing p with
  | nil =>
    cases hr
    exact .refl _
  | cons run _ ih =>
    cases hr with
    | step r rest => exact (run.bind _).trans (ih rest)

end Prog

end Interaction
