import Mathlib.Data.List.Forall2

/-!
# Decoding lists

A list is decoded element by element; one element that cannot be decoded spoils the whole.
-/

namespace List

variable {α β γ : Type*} {f : α → Option β} {l : List α} {ys : List β}

theorem mapM_eq_some_iff : l.mapM f = some ys ↔ l.map f = ys.map some := by
  induction l generalizing ys with
  | nil => cases ys <;> simp
  | cons a l ih =>
    rw [mapM_cons, map_cons]
    constructor
    · intro h
      obtain ⟨b, hb, h⟩ := Option.bind_eq_some_iff.mp h
      obtain ⟨bs, hbs, h⟩ := Option.bind_eq_some_iff.mp h
      cases h
      rw [map_cons, hb, ih.mp hbs]
    · intro h
      cases ys with
      | nil => cases h
      | cons b bs =>
        rw [map_cons, cons.injEq] at h
        rw [h.1, ih.mpr h.2]
        rfl

theorem mapM_eq_ok_iff {ε : Type*} {f : α → Except ε β} :
    l.mapM f = .ok ys ↔ Forall₂ (fun a b => f a = .ok b) l ys := by
  induction l generalizing ys with
  | nil => cases ys <;> simp [pure, Except.pure]
  | cons a l ih =>
    rw [mapM_cons]
    constructor
    · intro h
      cases hb : f a with
      | error e =>
        rw [hb] at h
        cases h
      | ok b =>
        cases hbs : l.mapM f with
        | error e =>
          rw [hb, hbs] at h
          cases h
        | ok bs =>
          rw [hb, hbs] at h
          cases h
          exact .cons hb (ih.mp hbs)
    · rintro (_ | ⟨hb, hbs⟩)
      rw [hb, ih.mpr hbs]
      rfl

/-- What is encoded element by element can be decoded so. -/
theorem mapM_map_of_forall {encode : α → β} {decode : β → Option γ} {g : α → γ}
    (h : ∀ a ∈ l, decode (encode a) = some (g a)) :
    (l.map encode).mapM decode = some (l.map g) := by
  rw [mapM_eq_some_iff, map_map, map_map]
  exact map_congr_left h

theorem mapM_eq_none_of_mem {a : α} (ha : a ∈ l) (hf : f a = none) : l.mapM f = none := by
  rw [Option.eq_none_iff_forall_ne_some]
  intro ys hys
  have hmem : f a ∈ ys.map some := mapM_eq_some_iff.mp hys ▸ mem_map_of_mem ha
  rw [hf] at hmem
  simp at hmem

end List
