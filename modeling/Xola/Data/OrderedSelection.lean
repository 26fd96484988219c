import Mathlib.Data.List.Perm.Basic

/-!
# The first rows in an order

What `ORDER BY key DESC LIMIT n` may answer: the first `n` rows of the table in some arrangement by
descending keys. Rows with the same key may come in any order.
-/

namespace List

variable {α β κ : Type*} [LE κ] {key : α → κ} {key' : β → κ} {n : Nat} {l rs : List α} {m : List β}
  {R : α → β → Prop}

def Selects (key : α → κ) (n : Nat) (l rs : List α) : Prop :=
  ∃ sorted : List α, sorted.Perm l ∧ sorted.Pairwise (fun a b => key b ≤ key a) ∧
    rs = sorted.take n

theorem Forall₂.exists_of_mem_right (h : Forall₂ R l m) {b : β} (hb : b ∈ m) : ∃ a ∈ l, R a b := by
  induction h with
  | nil => cases hb
  | @cons a b' l m hab _ ih =>
    rcases mem_cons.mp hb with rfl | hb
    · exact ⟨a, mem_cons_self, hab⟩
    · obtain ⟨a', ha', hab'⟩ := ih hb
      exact ⟨a', mem_cons_of_mem a ha', hab'⟩

theorem Forall₂.pairwise {P : α → α → Prop} {Q : β → β → Prop}
    (hPQ : ∀ {a a' b b'}, R a b → R a' b' → P a a' → Q b b') (h : Forall₂ R l m)
    (hl : l.Pairwise P) : m.Pairwise Q := by
  induction h with
  | nil => exact .nil
  | @cons a b l m hab hlm ih =>
    obtain ⟨ha, hl⟩ := pairwise_cons.mp hl
    refine pairwise_cons.mpr ⟨?_, ih hl⟩
    intro b' hb'
    obtain ⟨a', ha', hab'⟩ := hlm.exists_of_mem_right hb'
    exact hPQ hab hab' (ha a' ha')

/-- Rows that are read one by one are selected before or after they are read. -/
theorem Selects.rel (hkey : ∀ {a b}, R a b → key a = key' b) (hR : Forall₂ R l m)
    (h : Selects key n l rs) : ∃ ss, Forall₂ R rs ss ∧ Selects key' n m ss := by
  obtain ⟨sorted, hperm, hsorted, rfl⟩ := h
  obtain ⟨sorted', hread, hperm'⟩ := perm_comp_forall₂ hperm hR
  refine ⟨sorted'.take n, forall₂_take n hread, sorted', hperm', ?_, rfl⟩
  refine hread.pairwise ?_ hsorted
  intro a a' b b' hab hab' hle
  rwa [← hkey hab, ← hkey hab']

end List
