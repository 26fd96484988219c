import Mathlib.Data.List.Infix

/-!
# The longest suffix with a property

`List.longestSuffix p l` drops elements from the front of `l` until what is left satisfies `p` (or
nothing is left): the loop of a buffer that makes room by evicting its oldest entries.
`IsLongestSuffix p l t` is the result such a loop is meant to have. The two meet in
`suffix_longestSuffix`: no suffix with the property is ever dropped.
-/

namespace List

variable {α : Type*} {p q : List α → Prop}

/-- `t` is a suffix of `l` with the property `p`, and no suffix of `l` with it is longer. -/
structure IsLongestSuffix (p : List α → Prop) (l t : List α) : Prop where
  suffix : t <:+ l
  holds : p t
  longest : ∀ u, u <:+ l → p u → u.length ≤ t.length

/-- Drop elements from the front until `p` holds of the rest, or nothing is left. -/
def longestSuffix (p : List α → Prop) [DecidablePred p] : List α → List α
  | [] => []
  | a :: l => if p (a :: l) then a :: l else longestSuffix p l

variable [DecidablePred p]

theorem longestSuffix_suffix (l : List α) : longestSuffix p l <:+ l := by
  induction l with
  | nil => exact suffix_rfl
  | cons a l ih =>
    unfold longestSuffix
    split
    · exact suffix_rfl
    · exact ih.trans (suffix_cons a l)

theorem longestSuffix_holds (l : List α) : longestSuffix p l = [] ∨ p (longestSuffix p l) := by
  induction l with
  | nil => exact .inl rfl
  | cons a l ih =>
    unfold longestSuffix
    split
    · next h => exact .inr h
    · exact ih

/-- A suffix with the property survives the dropping. -/
theorem suffix_longestSuffix {l t : List α} (ht : t <:+ l) (hp : p t) :
    t <:+ longestSuffix p l := by
  induction l with
  | nil => simpa [longestSuffix] using ht
  | cons a l ih =>
    unfold longestSuffix
    split
    · exact ht
    · next h =>
      rcases suffix_cons_iff.1 ht with rfl | ht
      · exact absurd hp h
      · exact ih ht

end List
