import Mathlib.Data.List.Forall2
import Xola.Interaction.Prog

/-!
# Programs that cannot tell answers apart

Two programs are in lockstep over a relation of answers if they issue the same commands as long as
they are answered alike, and end alike. A program in lockstep with itself cannot tell related answers
apart: one may be put for the other anywhere in a run. The rules follow the text of the two programs,
like those of a relational program logic.
-/

namespace Interaction

universe u v w

variable {C : Type u} {R : C → Type v} {ε α β α' β' : Type w}
  {sim : (c : C) → R c → R c → Prop}

/-- Two answers to one command. -/
inductive Matched (sim : (c : C) → R c → R c → Prop) : Exchange R → Exchange R → Prop
  | mk {c : C} {r r' : R c} (alike : sim c r r') : Matched sim ⟨c, r⟩ ⟨c, r'⟩

theorem Matched.symm (hsim : ∀ c r r', sim c r r' → sim c r' r) {x y : Exchange R}
    (h : Matched sim x y) : Matched sim y x := by
  cases h with
  | mk alike => exact ⟨hsim _ _ _ alike⟩

theorem matched_refl (hsim : ∀ c r, sim c r r) (h : History R) :
    List.Forall₂ (Matched sim) h h :=
  List.forall₂_same.mpr fun x _ => ⟨hsim x.1 x.2⟩

namespace Prog

/-- The programs issue the same commands and end alike, with values in `S`. -/
inductive Lockstep (sim : (c : C) → R c → R c → Prop) (S : α → β → Prop) :
    Prog C R ε α → Prog C R ε β → Prop
  | ret {a : α} {b : β} (related : S a b) : Lockstep sim S (.ret a) (.ret b)
  | err (e : ε) : Lockstep sim S (.err e) (.err e)
  | panic (m : String) : Lockstep sim S (.panic m) (.panic m)
  | call {c : C} {k : R c → Prog C R ε α} {k' : R c → Prog C R ε β}
      (next : ∀ r r', sim c r r' → Lockstep sim S (k r) (k' r')) :
    Lockstep sim S (.call c k) (.call c k')

section Rules

variable {S : α → β → Prop} {T : α' → β' → Prop} {p : Prog C R ε α} {q : Prog C R ε β}

theorem Lockstep.bind {f : α → Prog C R ε α'} {g : β → Prog C R ε β'} (hp : Lockstep sim S p q)
    (hf : ∀ a b, S a b → Lockstep sim T (f a) (g b)) : Lockstep sim T (p >>= f) (q >>= g) := by
  induction hp with
  | ret related => exact hf _ _ related
  | err e => exact .err e
  | panic m => exact .panic m
  | call _ ih => exact .call ih

/-- A command whose answers are told apart. -/
theorem Lockstep.perform {c : C} {k : R c → Prog C R ε α} {k' : R c → Prog C R ε β}
    (hc : ∀ r r', sim c r r' → r = r') (hk : ∀ r, Lockstep sim S (k r) (k' r)) :
    Lockstep sim S (.call c k) (.call c k') := by
  refine .call ?_
  intro r r' alike
  obtain rfl := hc r r' alike
  exact hk r

/-! ## Runs -/

theorem Lockstep.reaches {p' : Prog C R ε α} {h h' : History R} (hp : Lockstep sim S p q)
    (hr : Reaches p h p') (hh : List.Forall₂ (Matched sim) h h') :
    ∃ q', Reaches q h' q' ∧ Lockstep sim S p' q' := by
  induction hr generalizing q h' with
  | refl =>
    cases hh with
    | nil => exact ⟨q, .refl _, hp⟩
  | step r rest ih =>
    cases hh with
    | cons hx hh =>
      cases hx with
      | mk alike =>
        cases hp with
        | call next =>
          obtain ⟨q', hq', hleft⟩ := ih (next _ _ alike) hh
          exact ⟨q', .step _ hq', hleft⟩

theorem Lockstep.pending {h h' : History R} {c : C} (hp : Lockstep sim S p q)
    (hc : Pending p h c) (hh : List.Forall₂ (Matched sim) h h') : Pending q h' c := by
  obtain ⟨k, hk⟩ := hc
  obtain ⟨q', hq', hleft⟩ := hp.reaches hk hh
  cases hleft with
  | call => exact ⟨_, hq'⟩

end Rules

section Same

variable {p : Prog C R ε α} {h h' : History R}

theorem Lockstep.ends {q : Prog C R ε α} {e : Ending ε α} (hp : Lockstep sim Eq p q)
    (he : Ends p h e) (hh : List.Forall₂ (Matched sim) h h') : Ends q h' e := by
  obtain ⟨m, hm⟩ := he
  obtain ⟨q', hq', hleft⟩ := hp.reaches hm hh
  refine ⟨m, ?_⟩
  rcases e with - | e | a
  · cases hleft with
    | panic => exact hq'
  · cases hleft with
    | err => exact hq'
  · cases hleft with
    | ret related => exact related ▸ hq'

/-- **Related answers are not told apart.** A program in lockstep with itself goes on and ends in the
same way after histories that match. -/
theorem Lockstep.indistinguishable (hsim : ∀ c r r', sim c r r' → sim c r' r)
    (hp : Lockstep sim Eq p p) (hh : List.Forall₂ (Matched sim) h h') :
    (∀ c, Pending p h c ↔ Pending p h' c) ∧ ∀ e, Ends p h e ↔ Ends p h' e := by
  have hback : List.Forall₂ (Matched sim) h' h := hh.flip.imp fun _ _ hx => hx.symm hsim
  exact ⟨fun c => ⟨fun hc => hp.pending hc hh, fun hc => hp.pending hc hback⟩,
    fun e => ⟨fun he => hp.ends he hh, fun he => hp.ends he hback⟩⟩

end Same

/-- A program that has got somewhere waits or has ended. -/
theorem Reaches.waits_or_ends {p q : Prog C R ε α} {h : History R} (hr : Reaches p h q) :
    (∃ c, Pending p h c) ∨ ∃ e, Ends p h e := by
  cases q with
  | ret a => exact .inr ⟨some (.ok a), "", hr⟩
  | err e => exact .inr ⟨some (.error e), "", hr⟩
  | panic m => exact .inr ⟨none, m, hr⟩
  | call c k => exact .inl ⟨c, k, hr⟩

/-- What a program waits for after a history is determined by it. -/
theorem Pending.functional {p : Prog C R ε α} {h : History R} {c c' : C} (hc : Pending p h c)
    (hc' : Pending p h c') : c = c' := by
  obtain ⟨k, hk⟩ := hc
  obtain ⟨k', hk'⟩ := hc'
  cases hk.functional hk'
  rfl

end Prog

end Interaction
