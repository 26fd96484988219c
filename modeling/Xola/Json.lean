import Mathlib.Algebra.Ring.Int.Defs
import Mathlib.Algebra.Ring.Nat
import Mathlib.Data.List.Basic

/-!
# JSON values

The `serde_json::Value` of the Rust runtime and the result of Python's `json.loads`, as one type with
the strings of either side as its parameter: a Rust string is a sequence of Unicode scalar values, a
Python string need not be one. The fields of an object stand in the order the program iterates them:
key order for the runtime, whose objects are `BTreeMap`s, insertion order for Python. A float is given
by the shortest decimal that reads back as it; the three non-finite ones exist on the Python side only
(`json.loads` accepts `NaN` and `Infinity`).

The crate `serde_json` is not part of the repository. The texts that it prints a value as are the
fields of the class `SerdeJson`; `SerdeJson.plain` prints as the crate does where no float occurs.
-/

namespace Xola

inductive JsonFloat where
  /-- `± digits · 10 ^ exponent`, with the fewest digits that read back as the number. -/
  | finite (neg : Bool) (digits : Nat) (exponent : Int)
  | infinity (neg : Bool)
  | nan
  deriving DecidableEq, Repr

namespace JsonFloat

/-- The float is the integer. -/
def EqInt : JsonFloat → Int → Prop
  | .finite neg digits exponent, n =>
    (if neg then -(digits : Int) else digits) * 10 ^ exponent.toNat = n * 10 ^ (-exponent).toNat
  | .infinity _, _ | .nan, _ => False

end JsonFloat

inductive JsonOf (σ : Type) where
  | null
  | bool (b : Bool)
  | int (n : Int)
  | float (x : JsonFloat)
  | str (s : σ)
  | arr (items : List (JsonOf σ))
  | obj (fields : List (σ × JsonOf σ))

abbrev Json := JsonOf String

namespace JsonOf

variable {σ : Type}

/-! ## Equality -/

section Equality

variable [DecidableEq σ]

mutual

def decEq : (a b : JsonOf σ) → Decidable (a = b)
  | .null, .null => isTrue rfl
  | .bool a, .bool b => decidable_of_iff (a = b) (by simp)
  | .int a, .int b => decidable_of_iff (a = b) (by simp)
  | .float a, .float b => decidable_of_iff (a = b) (by simp)
  | .str a, .str b => decidable_of_iff (a = b) (by simp)
  | .arr a, .arr b =>
    have := decEqItems a b
    decidable_of_iff (a = b) (by simp)
  | .obj a, .obj b =>
    have := decEqFields a b
    decidable_of_iff (a = b) (by simp)
  | .null, .bool _ | .null, .int _ | .null, .float _ | .null, .str _ | .null, .arr _
  | .null, .obj _ | .bool _, .null | .bool _, .int _ | .bool _, .float _ | .bool _, .str _
  | .bool _, .arr _ | .bool _, .obj _ | .int _, .null | .int _, .bool _ | .int _, .float _
  | .int _, .str _ | .int _, .arr _ | .int _, .obj _ | .float _, .null | .float _, .bool _
  | .float _, .int _ | .float _, .str _ | .float _, .arr _ | .float _, .obj _ | .str _, .null
  | .str _, .bool _ | .str _, .int _ | .str _, .float _ | .str _, .arr _ | .str _, .obj _
  | .arr _, .null | .arr _, .bool _ | .arr _, .int _ | .arr _, .float _ | .arr _, .str _
  | .arr _, .obj _ | .obj _, .null | .obj _, .bool _ | .obj _, .int _ | .obj _, .float _
  | .obj _, .str _ | .obj _, .arr _ => isFalse nofun

def decEqItems : (a b : List (JsonOf σ)) → Decidable (a = b)
  | [], [] => isTrue rfl
  | [], _ :: _ | _ :: _, [] => isFalse nofun
  | a :: as, b :: bs =>
    have := decEq a b
    have := decEqItems as bs
    decidable_of_iff (a = b ∧ as = bs) (by simp)

def decEqFields : (a b : List (σ × JsonOf σ)) → Decidable (a = b)
  | [], [] => isTrue rfl
  | [], _ :: _ | _ :: _, [] => isFalse nofun
  | (k, a) :: as, (l, b) :: bs =>
    have := decEq a b
    have := decEqFields as bs
    decidable_of_iff ((k = l ∧ a = b) ∧ as = bs) (by simp)

end

instance : DecidableEq (JsonOf σ) := decEq

end Equality

/-! ## Reading -/

/-- `Value::get` with a string index: the field of an object, nothing on any other value. -/
def get [BEq σ] : JsonOf σ → σ → Option (JsonOf σ)
  | .obj fields, key => fields.lookup key
  | _, _ => none

end JsonOf

/-! ## Printing -/

/-- What `serde_json` prints a value as. Keeping it as an instance lets the program carry the printer
without an argument to every function that writes a log line. -/
class SerdeJson where
  /-- `serde_json::to_string`, the text of `Value::to_string` as well. -/
  toString : Json → String
  /-- `serde_json::to_string_pretty`. -/
  toStringPretty : Json → String

namespace Json

def hexDigit (n : Nat) : Char := "0123456789abcdef".toList.getD n '0'

def escapeChar (c : Char) : String :=
  if c = '"' then "\\\""
  else if c = '\\' then "\\\\"
  else if c.toNat = 0x08 then "\\b"
  else if c.toNat = 0x09 then "\\t"
  else if c.toNat = 0x0a then "\\n"
  else if c.toNat = 0x0c then "\\f"
  else if c.toNat = 0x0d then "\\r"
  else if c.toNat < 0x20 then
    "\\u00" ++ String.ofList [hexDigit (c.toNat / 16), hexDigit (c.toNat % 16)]
  else String.ofList [c]

def quote (s : String) : String := "\"" ++ String.join (s.toList.map escapeChar) ++ "\""

theorem toList_quote (s : String) :
    (quote s).toList = '"' :: (s.toList.flatMap fun c => (escapeChar c).toList) ++ ['"'] := by
  rw [quote, String.toList_append, String.toList_append, String.toList_join, List.flatMap_map]
  rfl

/-- A line break followed by `n` blanks. -/
def newline (n : Nat) : String := "\n" ++ String.ofList (List.replicate n ' ')

/-- How a container is laid out: between its parts stands `sep`, and `before` and `after` stand inside
its brackets unless it is empty. -/
def block (op cl before sep after : String) (parts : List String) : String :=
  if parts = [] then op ++ cl else op ++ before ++ String.intercalate sep parts ++ after ++ cl

mutual

/-- The text of a value at an indentation, or on one line if there is none. -/
def print : Option Nat → Json → String
  | _, .null => "null"
  | _, .bool b => if b then "true" else "false"
  | _, .int n => ToString.toString n
  -- any decimal will do here; which one the crate prints depends on its version
  | _, .float (.finite neg digits exponent) =>
    (if neg then "-" else "") ++ digits.repr ++ "e" ++ ToString.toString exponent
  | _, .float _ => "null"
  | _, .str s => quote s
  | none, .arr items => block "[" "]" "" "," "" (printItems none items)
  | some n, .arr items =>
    block "[" "]" (newline (n + 2)) ("," ++ newline (n + 2)) (newline n)
      (printItems (some (n + 2)) items)
  | none, .obj fields => block "\x7b" "\x7d" "" "," "" (printFields none fields)
  | some n, .obj fields =>
    block "\x7b" "\x7d" (newline (n + 2)) ("," ++ newline (n + 2)) (newline n)
      (printFields (some (n + 2)) fields)

def printItems : Option Nat → List Json → List String
  | _, [] => []
  | n, v :: vs => print n v :: printItems n vs

def printFields : Option Nat → List (String × Json) → List String
  | _, [] => []
  | n, (k, v) :: vs =>
    (quote k ++ (if n = none then ":" else ": ") ++ print n v) :: printFields n vs

end

end Json

/-- A printer for runs on fixed inputs. -/
@[reducible] def SerdeJson.plain : SerdeJson := ⟨Json.print none, Json.print (some 0)⟩

example : SerdeJson.plain.toString (.obj [("a", .int 1), ("b", .arr [.str "x\n", .null])]) =
    "\x7b\"a\":1,\"b\":[\"x\\n\",null]\x7d" := by decide +kernel

end Xola
