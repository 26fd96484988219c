import Mathlib.Data.List.Induction
import Xola.Interaction.Wp

/-!
# Programs side by side

Any number of programs that talk to one shared state. The log of such a pool says which task has
taken a step, at which moment, and what it has exchanged; a moment is whatever else the environment
decides, such as a clock reading. A task begins with its first entry. One that has no further entry
has come to its end, is waiting, or has been dropped.

The part of a task in the log is a run of its program, so what `Prog.wp` says of single runs holds in
the pool. `Interleaved.rule` is the rule for the whole: an invariant of the log and the shared state
that every exchange preserves, given what its program guarantees for it.
-/

namespace Interaction

universe u v w x y z

variable {C : Type u} {R : C → Type v} {ε α : Type w} {ι : Type x} {τ : Type y} {σ : Type z}

structure Entry (ι : Type x) (τ : Type y) (R : C → Type v) where
  task : ι
  moment : τ
  exchange : Exchange R

/-- The entries of a pool, oldest first. -/
abbrev PoolLog (ι : Type x) (τ : Type y) (R : C → Type v) := List (Entry ι τ R)

section Own

variable [DecidableEq ι] {i : ι} {log : PoolLog ι τ R}

/-- The part of one task in the log. -/
def own (i : ι) (log : PoolLog ι τ R) : History R :=
  log.filterMap fun e => if e.task = i then some e.exchange else none

@[simp] theorem own_nil : own i ([] : PoolLog ι τ R) = [] := rfl

theorem own_concat (log : PoolLog ι τ R) (e : Entry ι τ R) :
    own i (log ++ [e]) = own i log ++ if e.task = i then [e.exchange] else [] := by
  rw [own, List.filterMap_append, own]
  by_cases he : e.task = i <;> simp [he]

theorem own_concat_self {t : τ} {x : Exchange R} :
    own i (log ++ [⟨i, t, x⟩]) = own i log ++ [x] := by
  rw [own_concat, if_pos rfl]

theorem own_concat_of_ne {j : ι} {t : τ} {x : Exchange R} (hj : j ≠ i) :
    own i (log ++ [⟨j, t, x⟩]) = own i log := by
  rw [own_concat, if_neg hj, List.append_nil]

theorem own_eq_nil (h : ∀ e ∈ log, e.task ≠ i) : own i log = [] := by
  refine List.filterMap_eq_nil_iff.mpr ?_
  intro e he
  rw [if_neg (h e he)]

theorem mem_of_mem_own {x : Exchange R} (hx : x ∈ own i log) :
    ∃ e ∈ log, e.task = i ∧ e.exchange = x := by
  obtain ⟨e, he, hex⟩ := List.mem_filterMap.mp hx
  by_cases htask : e.task = i
  · rw [if_pos htask] at hex
    exact ⟨e, he, htask, Option.some.inj hex⟩
  · rw [if_neg htask] at hex
    cases hex

end Own

/-! ## Pools -/

variable [DecidableEq ι]

/-- The pool of the tasks `progs` can have come from `s₀` to `s` with these entries. `serve` answers
a command at a moment from the shared state, and says what becomes of the state. -/
inductive Interleaved (progs : ι → Prog C R ε α) (serve : τ → σ → (c : C) → R c → σ → Prop) (s₀ : σ) :
    PoolLog ι τ R → σ → Prop
  | nil : Interleaved progs serve s₀ [] s₀
  | snoc {log : PoolLog ι τ R} {s s' : σ} {c : C} {r : R c} (i : ι) (t : τ)
      (before : Interleaved progs serve s₀ log s) (waiting : Prog.Pending (progs i) (own i log) c)
      (served : serve t s c r s') : Interleaved progs serve s₀ (log ++ [⟨i, t, c, r⟩]) s'

namespace Interleaved

variable {progs : ι → Prog C R ε α} {serve : τ → σ → (c : C) → R c → σ → Prop} {s₀ s : σ}
  {log : PoolLog ι τ R}

/-- The part of a task is a run of its program. -/
theorem reaches (h : Interleaved progs serve s₀ log s) (i : ι) :
    ∃ q, Prog.Reaches (progs i) (own i log) q := by
  induction h with
  | nil => exact ⟨_, .refl _⟩
  | @snoc log s s' c r j t _ waiting _ ih =>
    by_cases hj : j = i
    · subst hj
      obtain ⟨k, hk⟩ := waiting
      rw [own_concat_self]
      exact ⟨_, hk.snoc r⟩
    · rw [own_concat_of_ne hj]
      exact ih

/-- Only the programs of tasks that have begun matter. -/
theorem congr {progs' : ι → Prog C R ε α} (h : Interleaved progs serve s₀ log s)
    (heq : ∀ e ∈ log, progs' e.task = progs e.task) : Interleaved progs' serve s₀ log s := by
  induction h with
  | nil => exact .nil
  | @snoc log s s' c r i t _ waiting served ih =>
    have hi : progs' i = progs i := heq ⟨i, t, c, r⟩ (by simp)
    refine .snoc i t (ih fun e he => heq e (List.mem_append_left _ he)) ?_ served
    rw [hi]
    exact waiting

/-- A pool was one before each of its entries. -/
theorem before {rest : PoolLog ι τ R} {e : Entry ι τ R}
    (h : Interleaved progs serve s₀ (log ++ e :: rest) s) :
    ∃ s s', Interleaved progs serve s₀ log s ∧ serve e.moment s e.exchange.1 e.exchange.2 s' := by
  induction rest using List.reverseRecOn generalizing s with
  | nil =>
    obtain ⟨entries, hentries⟩ : ∃ entries, entries = log ++ [e] := ⟨_, rfl⟩
    rw [← hentries] at h
    cases h with
    | nil => simp at hentries
    | snoc i t hbefore _ served =>
      obtain ⟨rfl, hx⟩ := List.append_inj' hentries rfl
      cases hx
      exact ⟨_, _, hbefore, served⟩
  | append_singleton rest x ih =>
    obtain ⟨entries, hentries⟩ : ∃ entries, entries = log ++ e :: (rest ++ [x]) := ⟨_, rfl⟩
    rw [← hentries] at h
    cases h with
    | nil => simp at hentries
    | snoc _ _ hbefore _ _ =>
      rw [← List.cons_append, ← List.append_assoc] at hentries
      obtain ⟨rfl, -⟩ := List.append_inj' hentries rfl
      exact ih hbefore

/-- A task that nobody disturbs is served as by a handler. -/
theorem undisturbed {σ : Type w} {serve : τ → σ → (c : C) → R c → σ → Prop} {s₀ s s' : σ}
    {handle : σ → (c : C) → σ × R c} {i : ι} {t : τ}
    (served : ∀ s c, serve t s c (handle s c).2 (handle s c).1)
    (before : Interleaved progs serve s₀ log s) {h : History R} {q : Prog C R ε α}
    (hr : Prog.Reaches (progs i) (own i log ++ h) q) (hh : Prog.Handled handle s h s') :
    Interleaved progs serve s₀ (log ++ h.map fun x => ⟨i, t, x⟩) s' := by
  induction h generalizing log s with
  | nil =>
    obtain rfl := hh
    simpa using before
  | cons x h ih =>
    obtain ⟨c, r⟩ := x
    obtain ⟨rfl, hh⟩ := hh
    have hlog := before.snoc i t hr.pending (served s c)
    have hrest := ih hlog (by simpa [own_concat_self] using hr) hh
    simpa using hrest

/-- **The rule for pools.** An invariant of the log and the shared state holds throughout if it holds
at the start and is preserved by every exchange that its program may make, given the histories it may
make it at. -/
theorem rule {I : ι → History R → C → Prop} {Q : ι → History R → Prog.Ending ε α → Prop}
    (Inv : PoolLog ι τ R → σ → Prop) (guaranteed : ∀ i, Prog.wp (I i) (Q i) (progs i) [])
    (start : Inv [] s₀)
    (step : ∀ {log s s'} (i : ι) (t : τ) {c : C} {r : R c}, Inv log s → I i (own i log) c →
      serve t s c r s' → Inv (log ++ [⟨i, t, c, r⟩]) s')
    (h : Interleaved progs serve s₀ log s) : Inv log s := by
  induction h with
  | nil => exact start
  | snoc i t _ waiting served ih =>
    exact step i t ih (Prog.wp_pending (guaranteed i) waiting) served

end Interleaved

end Interaction
