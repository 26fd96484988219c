import Xola.Json

/-!
# Python values and the wire

A Python string is a sequence of code points. The text of a JSON string can bring surrogates into it
that have no partner, and those cannot be encoded as UTF-8. `PyValue` is what `json.loads` returns,
and `Arrives` says what the runtime reads of such a value when it has been rendered as JSON: text
comes as it was encoded, an object with its fields in some order, and a number that is no 64-bit
integer as a float.
-/

namespace Xola.LlmSurface

/-- A code point: a Unicode scalar value, or U+D800 and the 2047 after it. -/
inductive PyChar where
  | scalar (c : Char)
  | surrogate (n : Fin 2048)
  deriving DecidableEq, Repr

/-- A `str`. -/
abbrev PyStr := List PyChar

namespace PyStr

def ofString (s : String) : PyStr := s.toList.map .scalar

instance : Coe String PyStr := ⟨ofString⟩

def scalar? : PyChar → Option Char
  | .scalar c => some c
  | .surrogate _ => none

/-- `s.encode("utf-8")` as the text it is the encoding of; `none` is a `UnicodeEncodeError`. -/
def encode? (s : PyStr) : Option String := (s.mapM scalar?).map String.ofList

/-- There is no surrogate in it. -/
def encodable (s : PyStr) : Bool := s.encode?.isSome

theorem mapM_scalar? (cs : List Char) : (cs.map PyChar.scalar).mapM scalar? = some cs := by
  induction cs with
  | nil => rfl
  | cons c cs ih =>
    rw [List.map_cons, List.mapM_cons, ih]
    rfl

theorem eq_of_mapM_scalar? {s : PyStr} {cs : List Char} (h : s.mapM scalar? = some cs) :
    s = cs.map PyChar.scalar := by
  induction s generalizing cs with
  | nil =>
    cases h
    rfl
  | cons c s ih =>
    rw [List.mapM_cons] at h
    obtain ⟨d, hd, h⟩ := Option.bind_eq_some_iff.1 h
    obtain ⟨ds, hds, h⟩ := Option.bind_eq_some_iff.1 h
    cases h
    cases c with
    | scalar c =>
      cases hd
      rw [List.map_cons, ih hds]
    | surrogate n => cases hd

@[simp] theorem encode?_ofString (s : String) : encode? (ofString s) = some s := by
  rw [encode?, ofString, mapM_scalar?, Option.map_some, String.ofList_toList]

theorem encode?_eq_some_iff {s : PyStr} {t : String} : s.encode? = some t ↔ s = ofString t := by
  constructor
  · intro h
    obtain ⟨cs, hcs, rfl⟩ := Option.map_eq_some_iff.1 h
    rw [ofString, String.toList_ofList]
    exact eq_of_mapM_scalar? hcs
  · rintro rfl
    exact encode?_ofString t

theorem encodable_iff {s : PyStr} : s.encodable = true ↔ ∃ t, s = ofString t := by
  simp only [encodable, Option.isSome_iff_exists, encode?_eq_some_iff]

@[simp] theorem encodable_ofString (s : String) : encodable (ofString s) = true :=
  encodable_iff.2 ⟨s, rfl⟩

@[simp] theorem ofString_inj {s t : String} : ofString s = ofString t ↔ s = t := by
  constructor
  · intro h
    have hencoded := congrArg encode? h
    rwa [encode?_ofString, encode?_ofString, Option.some_inj] at hencoded
  · rintro rfl
    rfl

@[simp] theorem ofString_beq (s t : String) : (ofString s == ofString t) = (s == t) := by
  rw [Bool.eq_iff_iff, beq_iff_eq, beq_iff_eq, ofString_inj]

/-- A text that is put together can be encoded if its parts can. -/
@[simp] theorem encodable_append (s t : PyStr) :
    encodable (s ++ t) = (encodable s && encodable t) := by
  rw [encodable, encode?, List.mapM_append, encodable, encode?, encodable, encode?]
  cases s.mapM scalar? <;> cases t.mapM scalar? <;> rfl

end PyStr

/-- What `json.loads` returns. -/
abbrev PyValue := JsonOf PyStr

mutual

/-- What arrives of a value that has been rendered. -/
inductive Arrives : PyValue → Json → Prop
  | null : Arrives .null .null
  | bool (b : Bool) : Arrives (.bool b) (.bool b)
  | int {n : Int} (low : -2 ^ 63 ≤ n) (high : n < 2 ^ 64) : Arrives (.int n) (.int n)
  | wide {n : Int} (x : JsonFloat) (out : ¬(-2 ^ 63 ≤ n ∧ n < 2 ^ 64)) : Arrives (.int n) (.float x)
  | float (x y : JsonFloat) : Arrives (.float x) (.float y)
  /-- Some renderers write `null` for the floats that JSON has no text for. -/
  | nan (x : JsonFloat) (nonFinite : ∀ neg digits exponent, x ≠ .finite neg digits exponent) :
    Arrives (.float x) .null
  | str {s : PyStr} {t : String} (encoded : s.encode? = some t) : Arrives (.str s) (.str t)
  | arr {items : List PyValue} {items' : List Json} (each : ItemsArrive items items') :
    Arrives (.arr items) (.arr items')
  /-- The fields are read into a map and come out in the order of their keys. -/
  | obj {fields : List (PyStr × PyValue)} {fields' sorted : List (String × Json)}
      (each : FieldsArrive fields fields') (perm : fields'.Perm sorted) :
    Arrives (.obj fields) (.obj sorted)

inductive ItemsArrive : List PyValue → List Json → Prop
  | nil : ItemsArrive [] []
  | cons {v : PyValue} {j : Json} {items : List PyValue} {items' : List Json} (head : Arrives v j)
      (tail : ItemsArrive items items') : ItemsArrive (v :: items) (j :: items')

inductive FieldsArrive : List (PyStr × PyValue) → List (String × Json) → Prop
  | nil : FieldsArrive [] []
  | cons {k : PyStr} {key : String} {v : PyValue} {j : Json} {fields : List (PyStr × PyValue)}
      {fields' : List (String × Json)} (name : k.encode? = some key) (value : Arrives v j)
      (tail : FieldsArrive fields fields') : FieldsArrive ((k, v) :: fields) ((key, j) :: fields')

end

end Xola.LlmSurface
