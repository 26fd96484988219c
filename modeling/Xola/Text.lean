import Mathlib.Data.List.Basic

/-!
# Rust strings

Lengths and slices of a `&str` are in UTF-8 bytes. `sliceTo s n` is `&s[..n]`; a slice that would
cut a character, or that ends beyond the string, panics, which is `none` here.
-/

namespace Xola

def sliceChars : Nat → List Char → Option (List Char)
  | 0, _ => some []
  | _ + 1, [] => none
  | n + 1, c :: cs =>
    if c.utf8Size ≤ n + 1 then (sliceChars (n + 1 - c.utf8Size) cs).map (c :: ·) else none

/-- `&s[..n]`. -/
def sliceTo (s : String) (n : Nat) : Option String := (sliceChars n s.toList).map String.ofList

/-- Byte `n` of `s` is a character boundary. -/
def CharBoundary (s : String) (n : Nat) : Prop :=
  ∃ head tail, head ++ tail = s ∧ head.utf8ByteSize = n

theorem utf8ByteSize_cons (c : Char) (cs : List Char) :
    (String.ofList (c :: cs)).utf8ByteSize = c.utf8Size + (String.ofList cs).utf8ByteSize := by
  rw [String.ofList_cons, String.utf8ByteSize_append, String.utf8ByteSize_singleton]

theorem utf8ByteSize_eq_zero {cs : List Char} : (String.ofList cs).utf8ByteSize = 0 ↔ cs = [] := by
  cases cs with
  | nil => simp
  | cons c cs =>
    have hpos := c.utf8Size_pos
    rw [utf8ByteSize_cons]
    exact iff_of_false (by omega) (List.cons_ne_nil _ _)

theorem sliceChars_eq_some_iff {n : Nat} {cs head : List Char} :
    sliceChars n cs = some head ↔ head <+: cs ∧ (String.ofList head).utf8ByteSize = n := by
  induction n, cs using sliceChars.induct generalizing head with
  | case1 cs =>
    rw [sliceChars, utf8ByteSize_eq_zero, Option.some_inj, eq_comm]
    exact ⟨fun heq => ⟨heq ▸ List.nil_prefix, heq⟩, fun h => h.2⟩
  | case2 n =>
    rw [sliceChars, List.prefix_nil]
    refine iff_of_false (Option.some_ne_none _).symm ?_
    rintro ⟨rfl, hsize⟩
    exact absurd (hsize.symm.trans (utf8ByteSize_eq_zero.2 rfl)) (Nat.succ_ne_zero n)
  | case3 n c cs hle ih =>
    have hpos := c.utf8Size_pos
    rw [sliceChars, if_pos hle, Option.map_eq_some_iff]
    constructor
    · rintro ⟨tail, htail, rfl⟩
      obtain ⟨hhead, hsize⟩ := ih.1 htail
      refine ⟨List.cons_prefix_cons.2 ⟨rfl, hhead⟩, ?_⟩
      rw [utf8ByteSize_cons]
      omega
    · rintro ⟨hhead, hsize⟩
      cases head with
      | nil => exact absurd (hsize.symm.trans (utf8ByteSize_eq_zero.2 rfl)) (Nat.succ_ne_zero n)
      | cons d head =>
        obtain ⟨rfl, htail⟩ := List.cons_prefix_cons.1 hhead
        rw [utf8ByteSize_cons] at hsize
        exact ⟨head, ih.2 ⟨htail, by omega⟩, rfl⟩
  | case4 n c cs hlt =>
    rw [sliceChars, if_neg hlt]
    refine iff_of_false (Option.some_ne_none _).symm ?_
    rintro ⟨hhead, hsize⟩
    cases head with
    | nil => exact absurd (hsize.symm.trans (utf8ByteSize_eq_zero.2 rfl)) (Nat.succ_ne_zero n)
    | cons d head =>
      obtain ⟨rfl, -⟩ := List.cons_prefix_cons.1 hhead
      rw [utf8ByteSize_cons] at hsize
      omega

/-- A slice is a prefix of that many bytes. -/
theorem sliceTo_eq_some_iff {s head : String} {n : Nat} :
    sliceTo s n = some head ↔ (∃ tail, head ++ tail = s) ∧ head.utf8ByteSize = n := by
  rw [sliceTo, Option.map_eq_some_iff]
  constructor
  · rintro ⟨cs, hcs, rfl⟩
    obtain ⟨⟨tail, htail⟩, hsize⟩ := sliceChars_eq_some_iff.1 hcs
    refine ⟨⟨String.ofList tail, ?_⟩, hsize⟩
    rw [← String.ofList_append, htail, String.ofList_toList]
  · rintro ⟨⟨tail, rfl⟩, hsize⟩
    refine ⟨head.toList, sliceChars_eq_some_iff.2 ⟨?_, ?_⟩, String.ofList_toList⟩
    · rw [String.toList_append]
      exact List.prefix_append _ _
    · rw [String.ofList_toList, hsize]

/-- The slices that do not panic. -/
theorem sliceTo_isSome_iff {s : String} {n : Nat} : (sliceTo s n).isSome ↔ CharBoundary s n := by
  rw [Option.isSome_iff_exists]
  constructor
  · rintro ⟨head, hhead⟩
    obtain ⟨⟨tail, htail⟩, hsize⟩ := sliceTo_eq_some_iff.1 hhead
    exact ⟨head, tail, htail, hsize⟩
  · rintro ⟨head, tail, htail, hsize⟩
    exact ⟨head, sliceTo_eq_some_iff.2 ⟨⟨tail, htail⟩, hsize⟩⟩

/-- `s.replace(c, t)` for a `char`. -/
def replaceChar (s : String) (c : Char) (t : String) : String :=
  String.ofList (s.toList.flatMap fun a => if a = c then t.toList else [a])

/-- The message of the panic of a slice that is not on character boundaries. -/
def charBoundary : String := "end byte index is not a char boundary"

example : sliceTo "aé" 3 = some "aé" := by decide
example : sliceTo "aé" 2 = none := by decide

end Xola
