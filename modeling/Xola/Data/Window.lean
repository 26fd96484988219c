import Mathlib.Data.List.DropRight

/-!
# Sliding windows

The last `K` entries of a history are `List.rtake K`. `rtake_concat` is one step of a window that
evicts its oldest entry when full, and `count_le_of_window` bounds the copies of one entry in any
stretch of `K` entries when each entry was rare in the window in front of it. Counting commutes with
a map that keeps the entries apart (`exists_count_map_iff`).
-/

namespace List

variable {α : Type*}

theorem rtake_suffix (l : List α) (K : Nat) : l.rtake K <:+ l := drop_suffix _ _

theorem rtake_length (l : List α) (K : Nat) : (l.rtake K).length = min K l.length := by
  rw [rtake, length_drop]
  omega

/-- A suffix of length at most `K` lies in the window of size `K`. -/
theorem IsSuffix.rtake {l t : List α} {K : Nat} (h : t <:+ l) (hK : t.length ≤ K) :
    t <:+ l.rtake K := by
  apply suffix_of_suffix_length_le h (rtake_suffix l K)
  rw [rtake_length]
  exact Nat.le_min.2 ⟨hK, h.length_le⟩

/-- One step of the window: a full window loses its oldest entry to the new one. -/
theorem rtake_concat {l : List α} {a : α} {K : Nat} (hK : 1 ≤ K) :
    (l ++ [a]).rtake K =
      (if K ≤ (l.rtake K).length then (l.rtake K).drop 1 else l.rtake K) ++ [a] := by
  rw [rtake_length]
  unfold rtake
  rw [length_append, length_singleton, drop_append_of_le_length (by omega)]
  congr 1
  split
  · next h =>
    rw [drop_drop]
    congr 1
    omega
  · next h =>
    congr 1
    omega

theorem rtake_map {β : Type*} (f : α → β) (l : List α) (K : Nat) :
    (l.map f).rtake K = (l.rtake K).map f := by
  rw [rtake, rtake, length_map, map_drop]

/-- If every entry occurred fewer than `M` times in the window of size `K` before it, no stretch of
at most `K` entries holds more than `M` copies of one entry. -/
theorem count_le_of_window [BEq α] [LawfulBEq α] {l : List α} {K M : Nat}
    (h : ∀ before a, before ++ [a] <+: l → (before.rtake K).count a < M) {w : List α}
    (hw : w <:+: l) (hK : w.length ≤ K) (x : α) : w.count x ≤ M := by
  obtain ⟨p, s, rfl⟩ := hw
  by_cases hx : x ∈ w
  · -- cut `w` at the last copy of `x`
    obtain ⟨u, v, rfl, hv⟩ : ∃ u v, w = u ++ x :: v ∧ x ∉ v := by
      obtain ⟨as, bs, hs, ha⟩ := eq_append_cons_of_mem (mem_reverse.2 hx)
      refine ⟨bs.reverse, as.reverse, ?_, by simpa using ha⟩
      rw [← reverse_reverse w, hs]
      simp
    have hlt := h (p ++ u) x ⟨v ++ s, by simp⟩
    have hsub : u <:+ (p ++ u).rtake K :=
      IsSuffix.rtake (suffix_append p u) (by simp at hK; omega)
    have hle : u.count x ≤ ((p ++ u).rtake K).count x := hsub.sublist.count_le x
    rw [count_append, count_cons_self, count_eq_zero.2 hv]
    omega
  · rw [count_eq_zero.2 hx]
    exact Nat.zero_le M

theorem count_map_of_injOn {β : Type*} [BEq α] [LawfulBEq α] [BEq β] [LawfulBEq β] {f : α → β}
    {l : List α} {a : α} (h : ∀ b ∈ l, f b = f a → b = a) : (l.map f).count (f a) = l.count a := by
  induction l with
  | nil => rfl
  | cons b l ih =>
    have hl := ih fun c hc => h c (mem_cons_of_mem _ hc)
    rw [map_cons, count_cons, count_cons, hl]
    by_cases hb : b = a
    · simp [hb]
    · have hf : f b ≠ f a := fun he => hb (h b mem_cons_self he)
      simp [hb, hf]

/-- A map that keeps the entries of the list apart keeps how often they occur. -/
theorem exists_count_map_iff {β : Type*} [BEq α] [LawfulBEq α] [BEq β] [LawfulBEq β] {f : α → β}
    {l : List α} {M : Nat} (h : ∀ a ∈ l, ∀ b ∈ l, f a = f b → a = b) :
    (∃ b ∈ l.map f, M ≤ (l.map f).count b) ↔ ∃ a ∈ l, M ≤ l.count a := by
  have hcount : ∀ a ∈ l, (l.map f).count (f a) = l.count a := fun a ha =>
    count_map_of_injOn fun b hb => h b hb a ha
  constructor
  · rintro ⟨b, hb, hle⟩
    obtain ⟨a, ha, rfl⟩ := mem_map.1 hb
    exact ⟨a, ha, hcount a ha ▸ hle⟩
  · rintro ⟨a, ha, hle⟩
    exact ⟨f a, mem_map_of_mem ha, (hcount a ha).symm ▸ hle⟩

end List
