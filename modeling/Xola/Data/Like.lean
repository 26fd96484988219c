import Mathlib.Data.List.Infix

/-!
# LIKE patterns

The patterns of SQL's `LIKE`: one character stands for any string, one for any single character, and
an escape takes the character after it literally. A pattern that ends in the escape has no meaning.
Characters are compared under a folding, the identity for `LIKE` and a case folding for `ILIKE`.

Escaping the special characters of a keyword makes a literal of it (`tokens_escape`), and between two
wildcards a literal is a substring search (`accepts_within_iff`).
-/

namespace Like

variable {α β : Type*}

/-- The special characters. -/
structure Syntax (α : Type*) where
  any : α
  one : α
  escape : α
  any_ne : any ≠ escape
  one_ne : one ≠ escape

inductive Token (α : Type*) where
  | any
  | one
  | lit (a : α)

namespace Syntax

variable [DecidableEq α] (s : Syntax α)

/-- An unescaped character. -/
def token (a : α) : Token α :=
  if a = s.any then .any else if a = s.one then .one else .lit a

def tokens : List α → Option (List (Token α))
  | [] => some []
  | [a] => if a = s.escape then none else some [s.token a]
  | a :: b :: p =>
    if a = s.escape then (tokens p).map (.lit b :: ·)
    else (tokens (b :: p)).map (s.token a :: ·)

def Special (a : α) : Prop := a = s.any ∨ a = s.one ∨ a = s.escape

instance (a : α) : Decidable (s.Special a) := inferInstanceAs (Decidable (_ ∨ _))

/-- A character as a literal. -/
def quote (a : α) : List α := if s.Special a then [s.escape, a] else [a]

variable {s}

theorem tokens_cons {a : α} (h : a ≠ s.escape) (p : List α) :
    s.tokens (a :: p) = (s.tokens p).map (s.token a :: ·) := by
  cases p with
  | nil => exact if_neg h
  | cons b p => rw [tokens, if_neg h]

theorem tokens_escape_cons (a : α) (p : List α) :
    s.tokens (s.escape :: a :: p) = (s.tokens p).map (.lit a :: ·) := by
  rw [tokens, if_pos rfl]

theorem tokens_any (p : List α) : s.tokens (s.any :: p) = (s.tokens p).map (.any :: ·) := by
  rw [tokens_cons s.any_ne, token, if_pos rfl]

theorem tokens_quote (a : α) (p : List α) :
    s.tokens (s.quote a ++ p) = (s.tokens p).map (.lit a :: ·) := by
  unfold quote
  split
  · exact tokens_escape_cons a p
  · next h =>
    obtain ⟨hany, hone, hescape⟩ := by simpa [Special] using h
    rw [List.singleton_append, tokens_cons hescape, token, if_neg hany, if_neg hone]

/-- An escaped keyword is read as its characters. -/
theorem tokens_escape (keyword p : List α) :
    s.tokens (keyword.flatMap s.quote ++ p) = (s.tokens p).map (keyword.map .lit ++ ·) := by
  induction keyword with
  | nil => simp
  | cons a keyword ih =>
    rw [List.flatMap_cons, List.append_assoc, tokens_quote, ih, Option.map_map]
    rfl

end Syntax

/-! ## Matching -/

variable [DecidableEq β] (fold : α → β)

/-- The text matches the pattern; a wildcard is tried on every suffix. -/
def accepts : List (Token α) → List α → Bool
  | [], t => t.isEmpty
  | .lit _ :: _, [] => false
  | .lit a :: p, b :: t => fold a = fold b && accepts p t
  | .one :: _, [] => false
  | .one :: p, _ :: t => accepts p t
  | .any :: p, t => t.tails.any fun v => accepts p v

/-- `text LIKE pattern`, or nothing for a pattern without a meaning. -/
def like [DecidableEq α] (s : Syntax α) (pattern text : List α) : Option Bool :=
  (s.tokens pattern).map (accepts fold · text)

variable {fold}

theorem accepts_any_iff {p : List (Token α)} {t : List α} :
    accepts fold (.any :: p) t ↔ ∃ v, v <:+ t ∧ accepts fold p v := by
  rw [accepts, List.any_eq_true]
  exact exists_congr fun v => and_congr_left' (List.mem_tails v t)

theorem accepts_lits_iff {keyword : List α} {p : List (Token α)} {t : List α} :
    accepts fold (keyword.map .lit ++ p) t ↔
      ∃ u v, t = u ++ v ∧ u.map fold = keyword.map fold ∧ accepts fold p v := by
  induction keyword generalizing t with
  | nil => simp
  | cons a keyword ih =>
    cases t with
    | nil => simp [accepts]
    | cons b t =>
      rw [List.map_cons, List.cons_append, accepts, Bool.and_eq_true, decide_eq_true_eq, ih]
      constructor
      · rintro ⟨hab, u, v, rfl, hu, hv⟩
        exact ⟨b :: u, v, rfl, by rw [List.map_cons, List.map_cons, hab, hu], hv⟩
      · rintro ⟨u, v, ht, hu, hv⟩
        cases u with
        | nil => cases hu
        | cons c u =>
          cases ht
          obtain ⟨hc, hu⟩ := List.cons.inj hu
          exact ⟨hc.symm, u, v, rfl, hu, hv⟩

/-- Between two wildcards a literal is searched for. -/
theorem accepts_within_iff {keyword t : List α} :
    accepts fold (.any :: (keyword.map .lit ++ [.any])) t ↔ keyword.map fold <:+: t.map fold := by
  rw [accepts_any_iff]
  constructor
  · rintro ⟨v, ⟨u, rfl⟩, hv⟩
    obtain ⟨k, w, rfl, hk, -⟩ := accepts_lits_iff.1 hv
    exact ⟨u.map fold, w.map fold, by rw [List.map_append, List.map_append, hk, List.append_assoc]⟩
  · rintro ⟨u, w, ht⟩
    obtain ⟨uk, w', rfl, huk, -⟩ := List.map_eq_append_iff.1 ht.symm
    obtain ⟨u', k, rfl, -, hk⟩ := List.map_eq_append_iff.1 huk
    refine ⟨k ++ w', ⟨u', (List.append_assoc _ _ _).symm⟩, accepts_lits_iff.2 ?_⟩
    exact ⟨k, w', rfl, hk, accepts_any_iff.2 ⟨[], List.nil_suffix, rfl⟩⟩

/-- `LIKE '%' || escaped keyword || '%'`. -/
theorem like_escape [DecidableEq α] (s : Syntax α) (keyword text : List α) :
    like fold s (s.any :: (keyword.flatMap s.quote ++ [s.any])) text =
      some (decide (keyword.map fold <:+: text.map fold)) := by
  have htokens : s.tokens (s.any :: (keyword.flatMap s.quote ++ [s.any])) =
      some (.any :: (keyword.map .lit ++ [.any])) := by
    rw [Syntax.tokens_any, Syntax.tokens_escape, Syntax.tokens_any]
    rfl
  rw [like, htokens, Option.map_some, Option.some.injEq, ← Bool.decide_coe (accepts _ _ _)]
  exact decide_eq_decide.2 accepts_within_iff

end Like
