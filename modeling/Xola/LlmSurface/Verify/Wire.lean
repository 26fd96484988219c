import Xola.Data.Lookup
import Xola.LlmSurface.Reason

/-!
# What the runtime reads

The handler of `/reason` builds a dict of five fields. When it has been rendered, and the client can
read it, the response that the runtime gets has the same text in its fields, and for the arguments of
the call what arrives of them.
-/

namespace Xola.LlmSurface

/-- What the runtime gets of the body. -/
structure Received (b : ReasonBody) (response : ReasonResponse) : Prop where
  thought : b.thought = PyStr.ofString response.thought
  action : b.action = response.action.map PyStr.ofString
  actionInput : Arrives (.obj b.actionInput) response.actionInput
  isFinal : b.isFinal = response.isFinal
  finalAnswer : b.finalAnswer = response.finalAnswer.map PyStr.ofString

section Received

variable {b : ReasonBody} {j : Json} {response : ReasonResponse} {wire : Wire}

theorem optionalString_arrives {o : Option PyStr} {o' : Option String}
    (ha : Arrives (optionValue o) j) (h : optionalString (some j) = some o') :
    o = o'.map PyStr.ofString := by
  cases o with
  | none =>
    cases ha
    cases h
    rfl
  | some s =>
    cases ha with
    | str hs =>
      cases h
      rw [PyStr.encode?_eq_some_iff.1 hs]
      rfl

theorem received_of_ofFields {thought action actionInput isFinal finalAnswer : Json}
    (hthought : Arrives (.str b.thought) thought) (haction : Arrives (optionValue b.action) action)
    (hinput : Arrives (.obj b.actionInput) actionInput) (hfinal : Arrives (.bool b.isFinal) isFinal)
    (hanswer : Arrives (optionValue b.finalAnswer) finalAnswer)
    (h : ReasonResponse.ofFields (some thought) (some action) (some actionInput) (some isFinal)
      (some finalAnswer) = some response) : Received b response := by
  cases hthought with
  | str hs =>
  cases hfinal with
  | bool =>
  obtain ⟨action', ha, h⟩ := Option.bind_eq_some_iff.1 h
  obtain ⟨_, hf, h⟩ := Option.bind_eq_some_iff.1 h
  cases hf
  obtain ⟨answer', hans, h⟩ := Option.bind_eq_some_iff.1 h
  cases h
  exact ⟨PyStr.encode?_eq_some_iff.1 hs, optionalString_arrives haction ha, hinput, rfl,
    optionalString_arrives hanswer hans⟩

theorem received_of_ofJson (ha : Arrives b.toDict j)
    (h : ReasonResponse.ofJson j = some response) : Received b response := by
  cases ha with
  | obj each perm =>
    -- the five fields, under their names
    cases each with
    | cons hk₁ hthought each =>
    cases each with
    | cons hk₂ haction each =>
    cases each with
    | cons hk₃ hinput each =>
    cases each with
    | cons hk₄ hfinal each =>
    cases each with
    | cons hk₅ hanswer each =>
    cases each
    rw [PyStr.encode?_ofString] at hk₁ hk₂ hk₃ hk₄ hk₅
    cases hk₁
    cases hk₂
    cases hk₃
    cases hk₄
    cases hk₅
    have hlookup := fun k : String => (perm.lookup_eq (k := k) (by simp)).symm
    simp only [ReasonResponse.ofJson, hlookup] at h
    exact received_of_ofFields hthought haction hinput hfinal hanswer h

theorem received_of_ipcAnswer (h : ipcAnswer wire (.ok b.toDict) = .ok response) :
    Received b response := by
  unfold ipcAnswer at h
  dsimp only at h
  split at h
  · next hread =>
    cases h
    obtain ⟨j, hj, hof⟩ := Option.bind_eq_some_iff.1 hread
    exact received_of_ofJson (wire.read_arrives _ _ hj) hof
  · cases h

end Received

/-! ## A wire for runs on fixed inputs

It renders and reads what has no floats, no wide integers and no surrogates. -/

mutual

def plainValue : PyValue → Option Json
  | .null => some .null
  | .bool b => some (.bool b)
  | .int n => if -2 ^ 63 ≤ n ∧ n < 2 ^ 64 then some (.int n) else none
  | .float _ => none
  | .str s => s.encode?.map .str
  | .arr items => (plainItems items).map .arr
  | .obj fields => (plainFields fields).map .obj

def plainItems : List PyValue → Option (List Json)
  | [] => some []
  | v :: items => do
    let j ← plainValue v
    let items ← plainItems items
    return j :: items

def plainFields : List (PyStr × PyValue) → Option (List (String × Json))
  | [] => some []
  | (k, v) :: fields => do
    let key ← k.encode?
    let j ← plainValue v
    let fields ← plainFields fields
    return (key, j) :: fields

end

mutual

theorem arrives_plainValue : ∀ {v : PyValue} {j : Json}, plainValue v = some j → Arrives v j
  | .null, _, rfl => .null
  | .bool b, _, rfl => .bool b
  | .int n, j, h => by
    unfold plainValue at h
    split at h
    · next hrange =>
      cases h
      exact .int hrange.1 hrange.2
    · cases h
  | .str s, j, h => by
    obtain ⟨t, ht, rfl⟩ := Option.map_eq_some_iff.1 h
    exact .str ht
  | .arr items, j, h => by
    obtain ⟨items', hitems, rfl⟩ := Option.map_eq_some_iff.1 h
    exact .arr (arrives_plainItems hitems)
  | .obj fields, j, h => by
    obtain ⟨fields', hfields, rfl⟩ := Option.map_eq_some_iff.1 h
    exact .obj (arrives_plainFields hfields) (.refl _)

theorem arrives_plainItems :
    ∀ {items : List PyValue} {items' : List Json}, plainItems items = some items' →
      ItemsArrive items items'
  | [], _, rfl => .nil
  | v :: items, items', h => by
    obtain ⟨j, hj, h⟩ := Option.bind_eq_some_iff.1 h
    obtain ⟨rest, hrest, h⟩ := Option.bind_eq_some_iff.1 h
    cases h
    exact .cons (arrives_plainValue hj) (arrives_plainItems hrest)

theorem arrives_plainFields :
    ∀ {fields : List (PyStr × PyValue)} {fields' : List (String × Json)},
      plainFields fields = some fields' → FieldsArrive fields fields'
  | [], _, rfl => .nil
  | (k, v) :: fields, fields', h => by
    obtain ⟨key, hkey, h⟩ := Option.bind_eq_some_iff.1 h
    obtain ⟨j, hj, h⟩ := Option.bind_eq_some_iff.1 h
    obtain ⟨rest, hrest, h⟩ := Option.bind_eq_some_iff.1 h
    cases h
    exact .cons hkey (arrives_plainValue hj) (arrives_plainFields hrest)

end

def Wire.plain : Wire where
  renders v := (plainValue v).isSome
  renders_empty := rfl
  detailText detail := "\x7b\"detail\":" ++ Json.quote detail ++ "\x7d"
  read := plainValue
  read_arrives _ _ := arrives_plainValue

end Xola.LlmSurface
