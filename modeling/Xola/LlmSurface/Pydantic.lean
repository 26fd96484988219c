import Xola.Json

/-!
# Pydantic

What the models of `llm_surface` use of Pydantic v2 with its default settings: validation in lax mode
of the types they declare. Each validator returns the Python value, or nothing when it raises a
`ValidationError`. `Coercions` leaves open how a number or a `bool` is read off a string, which double
an `int` becomes, and which floats are taken for an `int`: those with an integral value, up to a bound.
-/

namespace Xola.Pydantic

variable {σ α : Type}

structure Coercions (σ : Type) where
  strAsInt : σ → Option Int
  strAsFloat : σ → Option JsonFloat
  strAsBool : σ → Option Bool
  /-- `float(n)`, or nothing beyond the largest double. -/
  intAsFloat : Int → Option JsonFloat
  floatAsInt : JsonFloat → Option Int
  floatAsInt_eq : ∀ x n, floatAsInt x = some n → x.EqInt n

/-- `str`: no other value is coerced to a string. -/
def str : JsonOf σ → Option σ
  | .str s => some s
  | _ => none

/-- `int`: booleans are coerced, and some floats. -/
def int (c : Coercions σ) : JsonOf σ → Option Int
  | .int n => some n
  | .bool b => some (if b then 1 else 0)
  | .float x => c.floatAsInt x
  | .str s => c.strAsInt s
  | _ => none

/-- `float`: integers and booleans are coerced. -/
def float (c : Coercions σ) : JsonOf σ → Option JsonFloat
  | .float x => some x
  | .int n => c.intAsFloat n
  | .bool b => some (.finite false (if b then 1 else 0) 0)
  | .str s => c.strAsFloat s
  | _ => none

/-- `bool`: the numbers 0 and 1 are coerced. -/
def bool (c : Coercions σ) : JsonOf σ → Option Bool
  | .bool b => some b
  | .int 0 | .float (.finite _ 0 _) => some false
  | .int 1 | .float (.finite false 1 0) => some true
  | .str s => c.strAsBool s
  | _ => none

/-- `list[…]`. -/
def list (item : JsonOf σ → Option α) : JsonOf σ → Option (List α)
  | .arr items => items.mapM item
  | _ => none

/-- `dict[str, …]`. -/
def dict (value : JsonOf σ → Option α) : JsonOf σ → Option (List (σ × α))
  | .obj fields => fields.mapM fun e => (value e.2).map fun v => (e.1, v)
  | _ => none

/-- `… | None`. -/
def nullable (value : JsonOf σ → Option α) : JsonOf σ → Option (Option α)
  | .null => some none
  | v => (value v).map some

/-- `dict[str, Any]`. -/
def dictAny : JsonOf σ → Option (List (σ × JsonOf σ))
  | .obj fields => some fields
  | _ => none

/-- A field that takes its default, if it has one, when it is absent. -/
def field (default : Option α) (value : JsonOf σ → Option α) : Option (JsonOf σ) → Option α
  | none => default
  | some v => value v

end Xola.Pydantic
