import Xola.Interaction.Prog

/-!
# Obligations of a run

`Prog.wp I Q p h` is the rely-guarantee reading of a program started after the history `h`: every
command it issues, whatever was answered before, is issued at a history where the guarantee `I`
allows it, and every end of the run, be it a value, an error or a panic, satisfies `Q` at the final
history.

The rules `wp_call`, `wp_bind` and `wp_mono` are used to establish it once, along the text of the
program. The properties of single runs are then read off with `wp_pending`, `wp_ends` and
`wp_reached`.
-/

namespace Interaction.Prog

universe u v w

variable {C : Type u} {R : C → Type v} {ε α β : Type w}

section Wp

variable (I : History R → C → Prop)

/-- Every run of `p` from `h` issues only commands allowed by `I` and ends in `Q`. -/
def wp (Q : History R → Ending ε α → Prop) : Prog C R ε α → History R → Prop
  | .ret a, h => Q h (some (.ok a))
  | .err e, h => Q h (some (.error e))
  | .panic _, h => Q h none
  | .call c k, h => I h c ∧ ∀ r, wp Q (k r) (h ++ [⟨c, r⟩])

variable {I} {Q Q' : History R → Ending ε α → Prop}

theorem wp_call (c : C) (k : R c → Prog C R ε α) (h : History R) :
    wp I Q (.call c k) h ↔ I h c ∧ ∀ r, wp I Q (k r) (h ++ [⟨c, r⟩]) := Iff.rfl

theorem wp_mono {p : Prog C R ε α} {h : History R} (hQ : ∀ t e, Q t e → Q' t e)
    (hp : wp I Q p h) : wp I Q' p h := by
  induction p generalizing h with
  | ret a => exact hQ _ _ hp
  | err e => exact hQ _ _ hp
  | panic m => exact hQ _ _ hp
  | call c k ih => exact ⟨hp.1, fun r => ih r (hp.2 r)⟩

theorem wp_and {I' : History R → C → Prop} {p : Prog C R ε α} {h : History R} (hp : wp I Q p h)
    (hp' : wp I' Q' p h) :
    wp (fun t c => I t c ∧ I' t c) (fun t e => Q t e ∧ Q' t e) p h := by
  induction p generalizing h with
  | ret a => exact ⟨hp, hp'⟩
  | err e => exact ⟨hp, hp'⟩
  | panic m => exact ⟨hp, hp'⟩
  | call c k ih => exact ⟨⟨hp.1, hp'.1⟩, fun r => ih r (hp.2 r) (hp'.2 r)⟩

/-- What `f` owes once its predecessor has ended: an error or a panic ends the whole. -/
def andThen (I : History R → C → Prop) (Q : History R → Ending ε β → Prop)
    (f : α → Prog C R ε β) (h : History R) : Ending ε α → Prop
  | some (.ok a) => wp I Q (f a) h
  | some (.error e) => Q h (some (.error e))
  | none => Q h none

theorem wp_bind {Q : History R → Ending ε β → Prop} {f : α → Prog C R ε β} {p : Prog C R ε α}
    {h : History R} (hp : wp I (andThen I Q f) p h) : wp I Q (p >>= f) h := by
  induction p generalizing h with
  | ret a => exact hp
  | err e => exact hp
  | panic m => exact hp
  | call c k ih => exact ⟨hp.1, fun r => ih r (hp.2 r)⟩

/-! ## What the obligations say about runs -/

/-- The obligations of a program are inherited by what is left of it. -/
theorem wp_reaches {p q : Prog C R ε α} {h t : History R} (hr : Reaches p t q)
    (hp : wp I Q p h) : wp I Q q (h ++ t) := by
  induction hr generalizing h with
  | refl => simpa using hp
  | step r _ ih => simpa using ih (hp.2 r)

theorem wp_pending {p : Prog C R ε α} {t : History R} {c : C} (hp : wp I Q p [])
    (hc : Pending p t c) : I t c := by
  obtain ⟨k, hk⟩ := hc
  exact (wp_reaches hk hp).1

theorem wp_ends {p : Prog C R ε α} {t : History R} {e : Ending ε α} (hp : wp I Q p [])
    (he : Ends p t e) : Q t e := by
  obtain ⟨m, hm⟩ := he
  have hq := wp_reaches hm hp
  rcases e with - | e | a <;> exact hq

/-- At every history of a run, one of the two obligations is known to hold. -/
theorem wp_reached {p q : Prog C R ε α} {t : History R} (hp : wp I Q p []) (hr : Reaches p t q) :
    (∃ c, I t c) ∨ ∃ e, Q t e := by
  have hq := wp_reaches hr hp
  cases q with
  | ret a => exact .inr ⟨_, hq⟩
  | err e => exact .inr ⟨_, hq⟩
  | panic m => exact .inr ⟨_, hq⟩
  | call c k => exact .inl ⟨_, hq.1⟩

end Wp

end Interaction.Prog
