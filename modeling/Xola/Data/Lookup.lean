import Mathlib.Data.List.Nodup

/-!
# Tables as lists of entries

A table that is given by its entries is read with `List.lookup`, which takes the first entry of a key.
When no key has two of them, their order does not matter.
-/

namespace List

variable {α β γ : Type*} [BEq α] {l l' : List (α × β)} {k : α} {v : β}

theorem lookup_map_snd (f : β → γ) (l : List (α × β)) (k : α) :
    (l.map fun e => (e.1, f e.2)).lookup k = (l.lookup k).map f := by
  induction l with
  | nil => rfl
  | cons e l ih =>
    rw [map_cons, lookup_cons, lookup_cons, ih]
    cases k == e.1 <;> rfl

variable [LawfulBEq α]

theorem lookup_eq_some_iff_mem (hnd : (l.map Prod.fst).Nodup) :
    l.lookup k = some v ↔ (k, v) ∈ l := by
  rw [lookup_eq_some_iff]
  constructor
  · rintro ⟨before, after, rfl, -⟩
    exact mem_append_right _ mem_cons_self
  · intro hmem
    obtain ⟨before, after, rfl⟩ := append_of_mem hmem
    refine ⟨before, after, rfl, ?_⟩
    -- no entry before that one has its key
    intro e he
    rw [map_append, map_cons, nodup_append] at hnd
    have hne : e.1 ≠ k := hnd.2.2 e.1 (mem_map_of_mem he) k mem_cons_self
    simpa using hne.symm

/-- A table with one entry for each key can be read in any order. -/
theorem Perm.lookup_eq (hp : l.Perm l') (hnd : (l.map Prod.fst).Nodup) :
    l.lookup k = l'.lookup k := by
  apply Option.ext
  intro v
  rw [lookup_eq_some_iff_mem hnd, lookup_eq_some_iff_mem ((hp.map Prod.fst).nodup hnd),
    hp.mem_iff]

end List
