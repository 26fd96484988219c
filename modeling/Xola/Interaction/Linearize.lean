import Xola.Interaction.Interleaved

/-!
# Pools as sequential histories

A pool of programs over a shared object, where each program has its effect at one of its calls, is one
sequential history of the object: the operations in the order of their effects, with the results that
the programs return. `Interleaved.linearizes` is this for an object that implements another. Between the
two stands a relation that may depend on the log, and `Decided i h res` says that the history `h` of the
task `i` has settled its result. `Interleaved.linearizes_once` is the case of programs that make a single
call.
-/

namespace Interaction

universe u v w x y z

variable {C : Type u} {R : C → Type v} {ε α : Type w} {ι : Type x} {τ : Type y} {σ A : Type z}

/-- One call, and what is made of the answer. -/
def Prog.once (c : C) (f : R c → Except ε α) : Prog C R ε α := .call c fun r => .ofExcept (f r)

/-- Results, oldest first, of the operations of an object that starts in `a₀`. -/
inductive Sequential (spec : ι → τ → A → Except ε α → A → Prop) (a₀ : A) :
    List (ι × τ × Except ε α) → A → Prop
  | nil : Sequential spec a₀ [] a₀
  | snoc {results : List (ι × τ × Except ε α)} {a a' : A} {i : ι} {t : τ} {res : Except ε α}
      (before : Sequential spec a₀ results a) (step : spec i t a res a') :
    Sequential spec a₀ (results ++ [(i, t, res)]) a'

section Once

variable {c c' : C} {f : R c → Except ε α} {h : History R} {r : R c}

theorem Prog.map_once {β : Type w} (g : α → β) :
    g <$> Prog.once c f = Prog.once c fun r => (f r).map g := by
  have hanswer : ∀ res : Except ε α,
      (Prog.ofExcept res : Prog C R ε α).bind (fun a => .ret (g a)) = .ofExcept (res.map g) := by
    intro res
    cases res <;> rfl
  exact congrArg (Prog.call c) (funext fun r => hanswer (f r))

theorem Prog.once_pending (hp : Prog.Pending (Prog.once c f) h c') : h = [] ∧ c' = c := by
  obtain ⟨k, hk⟩ := hp
  cases hk with
  | refl => exact ⟨rfl, rfl⟩
  | step r rest =>
    dsimp only at rest
    cases hf : f r <;> rw [hf] at rest <;> cases rest

theorem Prog.once_returns (r : R c) : Prog.Returns (Prog.once c f) [⟨c, r⟩] (f r) :=
  .step r (.refl _)

theorem Prog.not_once_returns_nil {res : Except ε α} : ¬Prog.Returns (Prog.once c f) [] res := by
  intro hr
  cases res <;> cases hr

end Once

variable [DecidableEq ι]

namespace Interleaved

variable {progs : ι → Prog C R ε α} {serve : τ → σ → (c : C) → R c → σ → Prop} {s₀ s : σ}
  {log : PoolLog ι τ R} {spec : ι → τ → A → Except ε α → A → Prop} {a₀ : A}

/-- **Linearisation.** If every exchange either leaves the abstract object and the results alone, or
settles one result as the abstract object allows, then the results are those of a history of it. -/
theorem linearizes (Decided : ι → History R → Except ε α → Prop)
    (Abs : PoolLog ι τ R → σ → A → Prop) (undecided : ∀ i res, ¬Decided i [] res) (start : Abs [] s₀ a₀)
    (step : ∀ {log s s' a} (i : ι) (t : τ) {c : C} {r : R c}, Abs log s a →
      Prog.Pending (progs i) (own i log) c → serve t s c r s' →
      (∀ res, Decided i (own i log ++ [⟨c, r⟩]) res ↔ Decided i (own i log) res) ∧
          Abs (log ++ [⟨i, t, c, r⟩]) s' a ∨
        (∀ res, ¬Decided i (own i log) res) ∧ ∃ res a',
          (∀ res', Decided i (own i log ++ [⟨c, r⟩]) res' ↔ res' = res) ∧ spec i t a res a' ∧
          Abs (log ++ [⟨i, t, c, r⟩]) s' a')
    (h : Interleaved progs serve s₀ log s) :
    ∃ results a, Sequential spec a₀ results a ∧ Abs log s a ∧
      (results.map fun x => (x.1, x.2.1)).Sublist (log.map fun e => (e.task, e.moment)) ∧
      ∀ i res, Decided i (own i log) res ↔ ∃ t, (i, t, res) ∈ results := by
  induction h with
  | nil =>
    refine ⟨[], a₀, .nil, start, .slnil, ?_⟩
    intro i res
    refine iff_of_false (undecided i res) ?_
    rintro ⟨_, hmem⟩
    cases hmem
  | @snoc log s s' c r j t _ waiting served ih =>
    obtain ⟨results, a, hseq, habs, hlog, hresults⟩ := ih
    rcases step j t habs waiting served with ⟨hsame, habs'⟩ | ⟨hnone, res, a', hone, hspec, habs'⟩
    · refine ⟨results, a, hseq, habs', ?_, ?_⟩
      · rw [List.map_append]
        exact hlog.trans (List.sublist_append_left _ _)
      · intro i res
        rw [← hresults]
        by_cases hij : j = i
        · subst hij
          rw [own_concat_self, hsame]
        · rw [own_concat_of_ne hij]
    · refine ⟨results ++ [(j, t, res)], a', hseq.snoc hspec, habs', ?_, ?_⟩
      · rw [List.map_append, List.map_append]
        exact hlog.append (.refl _)
      · intro i res'
        by_cases hij : j = i
        · subst hij
          have hnew : ∀ t', (j, t', res') ∉ results := fun t' hmem =>
            hnone res' ((hresults j res').mpr ⟨t', hmem⟩)
          rw [own_concat_self, hone]
          simp [hnew]
        · rw [own_concat_of_ne hij, hresults]
          simp [Ne.symm hij]

/-- Programs that make a single call have their effect there. -/
theorem linearizes_once {cmd : ι → C} {f : (i : ι) → R (cmd i) → Except ε α} {Abs : σ → A → Prop}
    (start : Abs s₀ a₀)
    (step : ∀ {i t s s' a} {r : R (cmd i)}, Abs s a → serve t s (cmd i) r s' →
      ∃ a', spec i t a (f i r) a' ∧ Abs s' a')
    (h : Interleaved (fun i => Prog.once (cmd i) (f i)) serve s₀ log s) :
    ∃ results a, Sequential spec a₀ results a ∧ Abs s a ∧
      (results.map fun x => (x.1, x.2.1)).Sublist (log.map fun e => (e.task, e.moment)) ∧
      ∀ i res, Prog.Returns (Prog.once (cmd i) (f i)) (own i log) res ↔
        ∃ t, (i, t, res) ∈ results := by
  refine h.linearizes (fun i h res => Prog.Returns (Prog.once (cmd i) (f i)) h res)
    (fun _ => Abs) (fun _ _ => Prog.not_once_returns_nil) start ?_
  intro log s s' a i t c r habs waiting served
  obtain ⟨hnew, rfl⟩ := Prog.once_pending waiting
  obtain ⟨a', hspec, habs'⟩ := step habs served
  refine .inr ⟨fun res => ?_, f i r, a', fun res' => ?_, hspec, habs'⟩
  · rw [hnew]
    exact Prog.not_once_returns_nil
  · rw [hnew]
    constructor
    · exact fun hr => hr.functional (Prog.once_returns r)
    · rintro rfl
      exact Prog.once_returns r

end Interleaved

end Interaction
