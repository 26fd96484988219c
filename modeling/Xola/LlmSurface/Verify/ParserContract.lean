import Xola.Data.Lookup
import Xola.LlmSurface.Parser

/-!
# What the parser returns

For a flat schema, the dynamic model has the declared properties as its fields, save those whose
names `create_model` takes for itself. So a parsed object holds a value of the declared type for each
of them, or `None` for an optional one that is neither given nor has a default; and an object that
conforms comes back unchanged, unless its text cannot be read, one of its names is not an ordinary
field, one of its numbers is coerced, or one of its values is too deep to be dumped.
-/

namespace Xola.LlmSurface

/-! ## Flat schemas -/

/-- The types of JSON Schema. -/
inductive JsonType where
  | string
  | integer
  | number
  | boolean
  | array
  | object
  deriving DecidableEq, Repr

namespace JsonType

def names : List (PyStr × JsonType) :=
  [("string", .string), ("integer", .integer), ("number", .number), ("boolean", .boolean),
    ("array", .array), ("object", .object)]

def toPython : JsonType → PyType
  | .string => .str
  | .integer => .int
  | .number => .float
  | .boolean => .bool
  | .array => .list
  | .object => .dict

/-- `v` is a value of this type. A float with an integral value is an integer; `NaN` and the infinities
count as numbers. -/
def Has : JsonType → PyValue → Prop
  | .string, .str _ => True
  | .integer, .int _ => True
  | .integer, .float x => ∃ n, x.EqInt n
  | .number, .int _ | .number, .float _ => True
  | .boolean, .bool _ => True
  | .array, .arr _ => True
  | .object, .obj _ => True
  | _, _ => False

end JsonType

/-- A property of a flat schema. -/
structure Property where
  type : JsonType
  default : Option PyValue

def typeOf? : Option PyValue → Option JsonType
  | some (.str name) => JsonType.names.lookup name
  | _ => none

def property? : PyValue → Option Property
  | .obj fieldSchema =>
    (typeOf? (fieldSchema.lookup ("type" : PyStr))).map
      (⟨·, fieldSchema.lookup ("default" : PyStr)⟩)
  | _ => none

/-- `schema` is a flat object schema with these properties and required names. -/
structure Flat (schema : List (PyStr × PyValue)) (properties : List (PyStr × Property))
    (required : List PyStr) : Prop where
  isObject : schema.lookup ("type" : PyStr) = some (.str "object")
  declares : ∃ fields, items (schema.lookup ("properties" : PyStr)) = .ok fields ∧
    fields.mapM (fun e => (property? e.2).map (e.1, ·)) = some properties
  requires : schema.lookup ("required" : PyStr) = some (.arr (required.map .str)) ∨
    schema.lookup ("required" : PyStr) = none ∧ required = []
  nodup : (properties.map Prod.fst).Nodup

/-- The field that a property becomes. -/
def fieldOf (required : List PyStr) (p : PyStr × Property) : FieldDefinition :=
  ⟨p.1, p.2.type.toPython, required.contains p.1, p.2.default.getD .null⟩

section Model

variable {lib : Library} {schema : List (PyStr × PyValue)} {properties : List (PyStr × Property)}
  {required : List PyStr}

/-- `type_mapping` has an entry for each type. -/
theorem lookup_typeMapping (name : PyStr) :
    typeMapping.lookup name = (JsonType.names.lookup name).map JsonType.toPython := by
  have hmapping : typeMapping = JsonType.names.map fun e => (e.1, e.2.toPython) := rfl
  rw [hmapping, List.lookup_map_snd]

theorem typeOf?_eq_some {v : Option PyValue} {type : JsonType} (h : typeOf? v = some type) :
    ∃ name, v = some (.str name) ∧ JsonType.names.lookup name = some type := by
  unfold typeOf? at h
  split at h
  next name => exact ⟨name, rfl, h⟩
  next => cases h

theorem fieldDefinition_eq {name : PyStr} {v : PyValue} {p : Property}
    (h : property? v = some p) :
    fieldDefinition required name v = .ok (fieldOf required (name, p)) := by
  cases v with
  | obj fieldSchema =>
    obtain ⟨type, htype, rfl⟩ := Option.map_eq_some_iff.1 h
    obtain ⟨typeName, htext, hname⟩ := typeOf?_eq_some htype
    simp only [fieldDefinition, jsonSchemaTypeToPython, htext, Option.getD_some,
      lookup_typeMapping, hname, Option.map_some]
    rfl
  | null | bool | int | float | str | arr => cases h

theorem mapM_fieldDefinition {fields : List (PyStr × PyValue)}
    (h : fields.mapM (fun e => (property? e.2).map (e.1, ·)) = some properties) :
    fields.mapM (fun e => fieldDefinition required e.1 e.2) =
      .ok (properties.map (fieldOf required)) := by
  induction fields generalizing properties with
  | nil =>
    cases h
    rfl
  | cons e fields ih =>
    rw [List.mapM_cons] at h ⊢
    obtain ⟨p, hp, h⟩ := Option.bind_eq_some_iff.1 h
    obtain ⟨ps, hps, h⟩ := Option.bind_eq_some_iff.1 h
    obtain ⟨q, hq, rfl⟩ := Option.map_eq_some_iff.1 hp
    cases h
    rw [fieldDefinition_eq hq, ih hps]
    rfl

theorem requiredSet_eq (hf : Flat schema properties required) :
    requiredSet (schema.lookup ("required" : PyStr)) = .ok required := by
  rcases hf.requires with h | ⟨h, rfl⟩
  · have hfind : (required.map (JsonOf.str (σ := PyStr))).find? (!hashable ·) = none := by
      simp [List.find?_eq_none, hashable]
    rw [h, requiredSet, hfind]
    simp [List.filterMap_map]
  · rw [h]
    rfl

/-- The model of a flat schema. -/
theorem createModelFromSchema_eq (hf : Flat schema properties required) :
    createModelFromSchema lib schema = createModel lib (properties.map (fieldOf required)) := by
  obtain ⟨fields, hitems, hfields⟩ := hf.declares
  unfold createModelFromSchema
  rw [if_neg (not_not.2 hf.isObject), hitems, requiredSet_eq hf]
  simp only [bind, Except.bind]
  rw [mapM_fieldDefinition hfields]

/-! ## The fields of the model -/

/-- A field is made of the name. -/
def Fate.declared : Fate → Bool
  | .field | .called _ => true
  | .swallowed | .rejected _ => false

theorem field_or_called {fate : Fate} (h : fate.declared = true) :
    fate = .field ∨ ∃ e, fate = .called e := by
  cases fate with
  | field => exact .inl rfl
  | called e => exact .inr ⟨e, rfl⟩
  | swallowed | rejected => cases h

/-- The definitions that become fields. -/
def fieldsOf (lib : Library) (ds : List FieldDefinition) : List FieldDefinition :=
  ds.filter fun d => (lib.fate d.name).declared

theorem not_rejected_of_createModel {ds model : List FieldDefinition}
    (h : createModel lib ds = .ok model) : ∀ d ∈ ds, ∀ e, lib.fate d.name ≠ .rejected e := by
  induction ds generalizing model with
  | nil => simp
  | cons d ds ih =>
    unfold createModel at h
    intro d' hd' e he
    rcases List.mem_cons.1 hd' with rfl | hd'
    · rw [he] at h
      cases h
    obtain ⟨rest, hrest⟩ : ∃ rest, createModel lib ds = .ok rest := by
      cases hrest : createModel lib ds with
      | ok rest => exact ⟨rest, rfl⟩
      | error e =>
        rw [hrest] at h
        split at h <;> cases h
    exact ih hrest d' hd' e he

theorem createModel_eq {ds : List FieldDefinition}
    (h : ∀ d ∈ ds, ∀ e, lib.fate d.name ≠ .rejected e) :
    createModel lib ds = .ok (fieldsOf lib ds) := by
  induction ds with
  | nil => rfl
  | cons d ds ih =>
    have hrest := ih fun d' hd' => h d' (List.mem_cons_of_mem _ hd')
    unfold createModel
    cases hfate : lib.fate d.name with
    | field | called =>
      rw [fieldsOf, List.filter_cons_of_pos (by simp [hfate, Fate.declared]), hrest]
      rfl
    | swallowed =>
      rw [fieldsOf, List.filter_cons_of_neg (by simp [hfate, Fate.declared])]
      exact hrest
    | rejected e => exact absurd hfate (h d List.mem_cons_self e)

/-! ## The fields of an instance -/

theorem fieldValues_cons {d : FieldDefinition} {model : List FieldDefinition}
    {data values : List (PyStr × PyValue)} (h : fieldValues lib (d :: model) data = some values) :
    ∃ v rest, d.value lib data = some v ∧ fieldValues lib model data = some rest ∧
      values = (d.name, v) :: rest := by
  rw [fieldValues, List.mapM_cons] at h
  obtain ⟨e, he, h⟩ := Option.bind_eq_some_iff.1 h
  obtain ⟨rest, hrest, h⟩ := Option.bind_eq_some_iff.1 h
  obtain ⟨v, hv, rfl⟩ := Option.map_eq_some_iff.1 he
  cases h
  exact ⟨v, rest, hv, hrest, rfl⟩

/-- The values are those of the fields, in their order. -/
theorem mem_fieldValues {model : List FieldDefinition} {data values : List (PyStr × PyValue)}
    (h : fieldValues lib model data = some values) {name : PyStr} {v : PyValue} :
    (name, v) ∈ values ↔ ∃ d ∈ model, d.name = name ∧ d.value lib data = some v := by
  induction model generalizing values with
  | nil =>
    cases h
    simp
  | cons d model ih =>
    obtain ⟨w, rest, hw, hrest, rfl⟩ := fieldValues_cons h
    rw [List.mem_cons, ih hrest, Prod.mk.injEq]
    simp [hw, eq_comm]

theorem names_fieldValues {model : List FieldDefinition} {data values : List (PyStr × PyValue)}
    (h : fieldValues lib model data = some values) :
    values.map Prod.fst = model.map (·.name) := by
  induction model generalizing values with
  | nil =>
    cases h
    rfl
  | cons d model ih =>
    obtain ⟨v, rest, -, hrest, rfl⟩ := fieldValues_cons h
    rw [List.map_cons, List.map_cons, ih hrest]

theorem value_of_fieldValues {model : List FieldDefinition} {data values : List (PyStr × PyValue)}
    (h : fieldValues lib model data = some values) {d : FieldDefinition} (hd : d ∈ model) :
    ∃ v, d.value lib data = some v := by
  induction model generalizing values with
  | nil => cases hd
  | cons d' model ih =>
    obtain ⟨v, rest, hv, hrest, rfl⟩ := fieldValues_cons h
    rcases List.mem_cons.1 hd with rfl | hd
    · exact ⟨v, hv⟩
    · exact ih hrest hd

theorem fieldValues_of_forall {model : List FieldDefinition} {data : List (PyStr × PyValue)}
    (h : ∀ d ∈ model, ∃ v, d.value lib data = some v) :
    ∃ values, fieldValues lib model data = some values := by
  induction model with
  | nil => exact ⟨[], rfl⟩
  | cons d model ih =>
    obtain ⟨v, hv⟩ := h d List.mem_cons_self
    obtain ⟨rest, hrest⟩ := ih fun d' hd' => h d' (List.mem_cons_of_mem _ hd')
    refine ⟨(d.name, v) :: rest, ?_⟩
    rw [fieldValues] at hrest ⊢
    rw [List.mapM_cons, hrest, hv]
    rfl

/-! ## Types -/

/-- What a field has been validated to is of its declared type. -/
theorem has_of_validate {type : JsonType} {v w : PyValue}
    (h : type.toPython.validate lib v = some w) : type.Has w := by
  cases type <;> obtain ⟨_, -, rfl⟩ := Option.map_eq_some_iff.1 h <;> trivial

theorem validate_number_int {n : Int} :
    JsonType.number.toPython.validate lib (.int n) =
      (lib.coercions.intAsFloat n).map .float := rfl

theorem validate_integer_float {x : JsonFloat} :
    JsonType.integer.toPython.validate lib (.float x) =
      (lib.coercions.floatAsInt x).map .int := rfl

/-- A value of the declared type is left alone, unless it is an integer for a number or a float for an
integer. -/
theorem validate_of_has {type : JsonType} {v : PyValue} (h : type.Has v) :
    type.toPython.validate lib v = some v ∨ (type = .number ∧ ∃ n, v = .int n) ∨
      type = .integer ∧ ∃ x, v = .float x := by
  cases type with
  | number =>
    cases v with
    | int n => exact .inr (.inl ⟨rfl, n, rfl⟩)
    | float x => exact .inl rfl
    | null | bool | str | arr | obj => cases h
  | integer =>
    cases v with
    | int n => exact .inl rfl
    | float x => exact .inr (.inr ⟨rfl, x, rfl⟩)
    | null | bool | str | arr | obj => cases h
  | array =>
    cases v with
    | arr items =>
      have hitems : items.mapM some = some items := by
        simpa using List.mapM_pure (m := Option) (l := items) (f := id)
      exact .inl (congrArg (Option.map JsonOf.arr) hitems)
    | null | bool | int | float | str | obj => cases h
  | string | boolean | object =>
    cases v <;> first | exact .inl rfl | cases h

end Model

/-! ## What success means -/

section Contract

variable {lib : Library} {loads : PyStr → Except LoadsError PyValue} {raw : PyStr}
  {schema : List (PyStr × PyValue)} {properties : List (PyStr × Property)} {required : List PyStr}
  {data parsed : List (PyStr × PyValue)}

theorem instantiate_eq_ok {model : List FieldDefinition} {values : List (PyStr × PyValue)} :
    instantiate lib model data = .ok values ↔ fieldValues lib model data = some values ∧
      ∀ e ∈ values, (lib.fate e.1).raises e.2 = none := by
  unfold instantiate
  cases hvalues : fieldValues lib model data with
  | none => exact iff_of_false nofun nofun
  | some values' =>
    rw [Option.some_inj]
    constructor
    · intro h
      dsimp only at h
      split at h
      · cases h
      · next hcalled =>
        cases h
        exact ⟨rfl, List.findSome?_eq_none_iff.1 hcalled⟩
    · rintro ⟨rfl, hcalled⟩
      dsimp only
      rw [List.findSome?_eq_none_iff.2 hcalled]

theorem modelDump_eq_ok {values : List (PyStr × PyValue)} :
    modelDump lib values = .ok parsed ↔
      parsed = values ∧ ∀ e ∈ values, lib.undumpable e.2 = none := by
  unfold modelDump
  split
  · next hsome =>
    refine iff_of_false nofun ?_
    rintro ⟨-, hdump⟩
    rw [List.findSome?_eq_none_iff.2 hdump] at hsome
    cases hsome
  · next hnone =>
    rw [Except.ok.injEq, eq_comm]
    exact (and_iff_left (List.findSome?_eq_none_iff.1 hnone)).symm

theorem tryValidate_eq_ok : tryValidate lib loads raw schema = .ok parsed ↔
    ∃ data model, loads raw = .ok (.obj data) ∧ createModelFromSchema lib schema = .ok model ∧
      fieldValues lib model data = some parsed ∧
      ∀ e ∈ parsed, (lib.fate e.1).raises e.2 = none ∧ lib.undumpable e.2 = none := by
  constructor
  · intro h
    unfold tryValidate at h
    cases hloads : loads raw with
    | error e =>
      rw [hloads] at h
      cases e <;> cases h
    | ok v =>
      rw [hloads] at h
      cases hmodel : createModelFromSchema lib schema with
      | error e =>
        rw [hmodel] at h
        cases h
      | ok model =>
        rw [hmodel] at h
        cases v with
        | obj data =>
          simp only [bind, Except.bind] at h
          split at h
          · cases h
          next values hvalues =>
          obtain ⟨rfl, hdump⟩ := modelDump_eq_ok.1 h
          obtain ⟨hfields, hcalled⟩ := instantiate_eq_ok.1 hvalues
          exact ⟨data, model, rfl, rfl, hfields, fun e he => ⟨hcalled e he, hdump e he⟩⟩
        | null | bool | int | float | str | arr => cases h
  · rintro ⟨data, model, hloads, hmodel, hfields, heach⟩
    have hvalues : instantiate lib model data = .ok parsed :=
      instantiate_eq_ok.2 ⟨hfields, fun e he => (heach e he).1⟩
    unfold tryValidate
    rw [hloads, hmodel]
    simp only [bind, Except.bind, hvalues]
    exact modelDump_eq_ok.2 ⟨rfl, fun e he => (heach e he).2⟩

theorem success_iff : (validateAgainstSchema lib loads raw schema).success = true ↔
    ∃ parsed, tryValidate lib loads raw schema = .ok parsed := by
  unfold validateAgainstSchema
  cases tryValidate lib loads raw schema with
  | ok parsed => simp
  | error e => cases e <;> simp

theorem validateAgainstSchema_of_ok (h : tryValidate lib loads raw schema = .ok parsed) :
    validateAgainstSchema lib loads raw schema = ⟨some parsed, true, none⟩ := by
  rw [validateAgainstSchema, h]

theorem tryValidate_of_eq
    (h : validateAgainstSchema lib loads raw schema = ⟨some parsed, true, none⟩) :
    tryValidate lib loads raw schema = .ok parsed := by
  unfold validateAgainstSchema at h
  cases htry : tryValidate lib loads raw schema with
  | ok out =>
    rw [htry] at h
    cases h
    rfl
  | error e =>
    rw [htry] at h
    cases e <;> cases h

/-- A parsed object of a flat schema: the values of the properties that are fields. -/
structure Instance (lib : Library) (properties : List (PyStr × Property))
    (required : List PyStr) (data parsed : List (PyStr × PyValue)) : Prop where
  unrejected : ∀ p ∈ properties, ∀ e, lib.fate p.1 ≠ .rejected e
  uncalled : ∀ p ∈ properties, ∀ e, lib.fate p.1 ≠ .called e
  field : ∀ p ∈ properties, lib.fate p.1 = .field →
    ∃ v, (fieldOf required p).value lib data = some v ∧ parsed.lookup p.1 = some v ∧
      lib.undumpable v = none
  other : ∀ p ∈ properties, lib.fate p.1 ≠ .field → parsed.lookup p.1 = none

theorem mem_fieldsOf {d : FieldDefinition} :
    d ∈ fieldsOf lib (properties.map (fieldOf required)) ↔
      ∃ p ∈ properties, fieldOf required p = d ∧ (lib.fate p.1).declared = true := by
  rw [fieldsOf, List.mem_filter, List.mem_map]
  constructor
  · rintro ⟨⟨p, hp, rfl⟩, hfate⟩
    exact ⟨p, hp, rfl, hfate⟩
  · rintro ⟨p, hp, rfl, hfate⟩
    exact ⟨⟨p, hp, rfl⟩, hfate⟩

section Values

variable (hf : Flat schema properties required)
  (hvalues : fieldValues lib (fieldsOf lib (properties.map (fieldOf required))) data = some parsed)

include hf hvalues

theorem lookup_values {name : PyStr} {v : PyValue} :
    parsed.lookup name = some v ↔ (name, v) ∈ parsed := by
  refine List.lookup_eq_some_iff_mem ?_
  rw [names_fieldValues hvalues]
  refine (List.filter_sublist.map _).nodup ?_
  rw [List.map_map]
  exact hf.nodup

/-- The parsed object has the property if there is a field for it, with the value of that. -/
theorem mem_values_iff {p : PyStr × Property} (hp : p ∈ properties) {v : PyValue} :
    (p.1, v) ∈ parsed ↔
      (lib.fate p.1).declared = true ∧ (fieldOf required p).value lib data = some v := by
  rw [mem_fieldValues hvalues]
  constructor
  · rintro ⟨d, hd, hname, hvalue⟩
    obtain ⟨q, hq, rfl, hfate⟩ := mem_fieldsOf.1 hd
    obtain rfl : q = p := List.inj_on_of_nodup_map hf.nodup hq hp hname
    exact ⟨hfate, hvalue⟩
  · rintro ⟨hfate, hvalue⟩
    exact ⟨_, mem_fieldsOf.2 ⟨p, hp, rfl, hfate⟩, rfl, hvalue⟩

end Values

theorem instance_of_ok (hf : Flat schema properties required)
    (h : tryValidate lib loads raw schema = .ok parsed) :
    ∃ data, loads raw = .ok (.obj data) ∧ Instance lib properties required data parsed := by
  obtain ⟨data, model, hloads, hmodel, hvalues, heach⟩ := tryValidate_eq_ok.1 h
  rw [createModelFromSchema_eq hf] at hmodel
  have hrej := not_rejected_of_createModel hmodel
  rw [createModel_eq hrej] at hmodel
  cases hmodel
  have hvalue : ∀ p ∈ properties, (lib.fate p.1).declared = true →
      ∃ v, (fieldOf required p).value lib data = some v ∧ (p.1, v) ∈ parsed := by
    intro p hp hfate
    obtain ⟨v, hv⟩ := value_of_fieldValues hvalues (mem_fieldsOf.2 ⟨p, hp, rfl, hfate⟩)
    exact ⟨v, hv, (mem_values_iff hf hvalues hp).2 ⟨hfate, hv⟩⟩
  have huncalled : ∀ p ∈ properties, ∀ e, lib.fate p.1 ≠ .called e := by
    intro p hp e hfate
    obtain ⟨v, -, hv⟩ := hvalue p hp (by rw [hfate]; rfl)
    have hnone := (heach _ hv).1
    rw [hfate] at hnone
    cases hnone
  refine ⟨data, hloads, ?_, huncalled, ?_, ?_⟩
  · exact fun p hp => hrej (fieldOf required p) (List.mem_map_of_mem hp)
  · intro p hp hfate
    obtain ⟨v, hv, hmem⟩ := hvalue p hp (by rw [hfate]; rfl)
    exact ⟨v, hv, (lookup_values hf hvalues).2 hmem, (heach _ hmem).2⟩
  · intro p hp hfate
    by_contra hsome
    obtain ⟨v, hv⟩ := Option.ne_none_iff_exists'.1 hsome
    have hmem := (lookup_values hf hvalues).1 hv
    rcases field_or_called ((mem_values_iff hf hvalues hp).1 hmem).1 with hfield | ⟨e, hcalled⟩
    · exact hfate hfield
    · exact huncalled p hp e hcalled

theorem ok_of_values (hf : Flat schema properties required) (hloads : loads raw = .ok (.obj data))
    (hrej : ∀ p ∈ properties, ∀ e, lib.fate p.1 ≠ .rejected e)
    (huncalled : ∀ p ∈ properties, ∀ e, lib.fate p.1 ≠ .called e)
    (hvalues : ∀ p ∈ properties, lib.fate p.1 = .field →
      ∃ v, (fieldOf required p).value lib data = some v ∧ lib.undumpable v = none) :
    ∃ parsed, tryValidate lib loads raw schema = .ok parsed := by
  have hmodel : createModelFromSchema lib schema =
      .ok (fieldsOf lib (properties.map (fieldOf required))) := by
    rw [createModelFromSchema_eq hf]
    refine createModel_eq ?_
    intro d hd
    obtain ⟨p, hp, rfl⟩ := List.mem_map.1 hd
    exact hrej p hp
  have hfield : ∀ p ∈ properties, (lib.fate p.1).declared = true → lib.fate p.1 = .field := by
    intro p hp hfate
    rcases field_or_called hfate with hfield | ⟨e, hcalled⟩
    · exact hfield
    · exact absurd hcalled (huncalled p hp e)
  obtain ⟨parsed, hparsed⟩ : ∃ parsed,
      fieldValues lib (fieldsOf lib (properties.map (fieldOf required))) data = some parsed := by
    refine fieldValues_of_forall ?_
    intro d hd
    obtain ⟨p, hp, rfl, hfate⟩ := mem_fieldsOf.1 hd
    obtain ⟨v, hv, -⟩ := hvalues p hp (hfield p hp hfate)
    exact ⟨v, hv⟩
  refine ⟨parsed, tryValidate_eq_ok.2 ⟨data, _, hloads, hmodel, hparsed, ?_⟩⟩
  rintro ⟨name, v⟩ hmem
  obtain ⟨d, hd, rfl, hv⟩ := (mem_fieldValues hparsed).1 hmem
  obtain ⟨p, hp, rfl, hdeclared⟩ := mem_fieldsOf.1 hd
  have hfate : lib.fate p.1 = .field := hfield p hp hdeclared
  obtain ⟨w, hw, hdump⟩ := hvalues p hp hfate
  cases hw.symm.trans hv
  refine ⟨?_, hdump⟩
  show Fate.raises v (lib.fate p.1) = none
  rw [hfate]
  rfl

/-! ## Soundness -/

/-- Defaults are of the type of their property. -/
def DefaultsTyped (properties : List (PyStr × Property)) : Prop :=
  ∀ p ∈ properties, ∀ v, p.2.default = some v → p.2.type.Has v

/-- The object conforms to the schema: the required names are there, and what is declared and there
is of its type. -/
structure Conforms (properties : List (PyStr × Property)) (required : List PyStr)
    (object : List (PyStr × PyValue)) : Prop where
  required : ∀ name ∈ required, ∃ v, object.lookup name = some v
  typed : ∀ p ∈ properties, ∀ v, object.lookup p.1 = some v → p.2.type.Has v

/-- An optional property without a default that is not given. -/
def Omitted (required : List PyStr) (data : List (PyStr × PyValue)) (p : PyStr × Property) :
    Prop :=
  p.1 ∉ required ∧ p.2.default = none ∧ data.lookup p.1 = none

theorem value_of_given {p : PyStr × Property} {v : PyValue} (h : data.lookup p.1 = some v) :
    (fieldOf required p).value lib data = p.2.type.toPython.validate lib v := by
  rw [FieldDefinition.value, fieldOf, h]
  rfl

theorem value_of_absent {p : PyStr × Property} (h : data.lookup p.1 = none) :
    (fieldOf required p).value lib data =
      if p.1 ∈ required then none else some (p.2.default.getD .null) := by
  rw [FieldDefinition.value, fieldOf, h]
  simp [Pydantic.field]

theorem Instance.typed (hi : Instance lib properties required data parsed)
    (hd : DefaultsTyped properties) {p : PyStr × Property} (hp : p ∈ properties) {v : PyValue}
    (hv : parsed.lookup p.1 = some v) :
    (Omitted required data p → v = .null) ∧ (¬Omitted required data p → p.2.type.Has v) := by
  by_cases hfate : lib.fate p.1 = .field
  · obtain ⟨w, hw, hlookup, -⟩ := hi.field p hp hfate
    obtain rfl : v = w := Option.some.inj (hv.symm.trans hlookup)
    cases hdata : data.lookup p.1 with
    | some u =>
      rw [value_of_given hdata] at hw
      refine ⟨?_, fun _ => has_of_validate hw⟩
      intro homitted
      rw [homitted.2.2] at hdata
      cases hdata
    | none =>
      rw [value_of_absent hdata] at hw
      split at hw
      · cases hw
      next hopt =>
        cases hdefault : p.2.default with
        | none =>
          rw [hdefault] at hw
          cases hw
          exact ⟨fun _ => rfl, fun hnot => absurd ⟨hopt, hdefault, hdata⟩ hnot⟩
        | some d =>
          rw [hdefault] at hw
          cases hw
          refine ⟨?_, fun _ => hd p hp _ hdefault⟩
          intro homitted
          rw [homitted.2.1] at hdefault
          cases hdefault
  · rw [hi.other p hp hfate] at hv
    cases hv

/-- **What a parsed object is.** On success the required names that are declared and become fields
are present, and a declared property that is present has a value of its type, unless it is optional,
has no default and was not given: then it is there with `None`. -/
theorem parsed_typed (hf : Flat schema properties required) (hd : DefaultsTyped properties)
    (hs : (validateAgainstSchema lib loads raw schema).success = true) :
    ∃ data parsed, loads raw = .ok (.obj data) ∧
      validateAgainstSchema lib loads raw schema = ⟨some parsed, true, none⟩ ∧
      (∀ p ∈ properties, p.1 ∈ required → lib.fate p.1 = .field →
        ∃ v, parsed.lookup p.1 = some v) ∧
      ∀ p ∈ properties, ∀ v, parsed.lookup p.1 = some v →
        (Omitted required data p → v = .null) ∧ (¬Omitted required data p → p.2.type.Has v) := by
  obtain ⟨parsed, htry⟩ := success_iff.1 hs
  obtain ⟨data, hloads, hi⟩ := instance_of_ok hf htry
  refine ⟨data, parsed, hloads, validateAgainstSchema_of_ok htry, ?_, ?_⟩
  · intro p hp _ hfate
    obtain ⟨v, -, hv, -⟩ := hi.field p hp hfate
    exact ⟨v, hv⟩
  · intro p hp v hv
    exact hi.typed hd hp hv

end Contract

/-! The schema of the tests, with an optional integer, and the object without it. -/

def plain : Library where
  coercions := {
    strAsInt s := s.encode?.bind String.toInt?
    strAsFloat _ := none
    strAsBool s := if s = "true" then some true else if s = "false" then some false else none
    intAsFloat n := if n.natAbs < 2 ^ 53 then some (.finite (n < 0) n.natAbs 0) else none
    floatAsInt := fun
      | .finite false digits 0 => some digits
      | _ => none
    floatAsInt_eq x n h := by
      split at h
      · cases h
        exact rfl
      · cases h }
  fate name :=
    if name ∈ createModelKeywords.map PyStr.ofString then .swallowed
    else if leadingUnderscore name then
      .rejected (.other "Fields must not use names with leading underscores")
    else if name = ("model_post_init" : PyStr) then
      .called fun v => .other ("'" ++ typeName v ++ "' object is not callable")
    else .field
  fate_underscore name hname hkeyword := ⟨_, by rw [if_neg hkeyword, if_pos hname]⟩
  fate_keyword name hkeyword := by rw [if_pos hkeyword]; exact Fate.noConfusion
  fate_postInit := by
    rw [if_neg (by decide), if_neg (by decide), if_pos rfl]
    exact Fate.noConfusion
  undumpable _ := none
  undumpable_hashable _ _ := rfl
  validationText _ _ := "1 validation error for DynamicModel"

def personSchema : List (PyStr × PyValue) :=
  [("type", .str "object"),
    ("properties", .obj [("name", .obj [("type", .str "string")]),
      ("age", .obj [("type", .str "integer")])]),
    ("required", .arr [.str "name"])]

def personProperties : List (PyStr × Property) :=
  [("name", ⟨.string, none⟩), ("age", ⟨.integer, none⟩)]

theorem flat_person : Flat personSchema personProperties ["name"] :=
  ⟨rfl, ⟨_, rfl, rfl⟩, .inl rfl, by decide⟩

theorem forall_personProperties {P : PyStr × Property → Prop} (hname : P ("name", ⟨.string, none⟩))
    (hage : P ("age", ⟨.integer, none⟩)) : ∀ p ∈ personProperties, P p :=
  List.forall_mem_cons.2 ⟨hname, List.forall_mem_singleton.2 hage⟩

/-- `json.loads` on the text of an object. -/
def loadsObject (data : List (PyStr × PyValue)) (_ : PyStr) : Except LoadsError PyValue :=
  .ok (.obj data)

def alice : List (PyStr × PyValue) := [("name", .str "Alice")]

def aliceText : PyStr := "\x7b\"name\": \"Alice\"\x7d"

def aliceParsed : List (PyStr × PyValue) := [("name", .str "Alice"), ("age", .null)]

theorem parsed_typed_alice :
    validateAgainstSchema plain (loadsObject alice) aliceText personSchema =
      ⟨some aliceParsed, true, none⟩ ∧ JsonType.string.Has (.str "Alice") := by
  have hd : DefaultsTyped personProperties := by
    refine forall_personProperties ?_ ?_ <;> intro v hv <;> cases hv
  obtain ⟨data, parsed, hloads, hok, -, htyped⟩ :=
    @parsed_typed plain (loadsObject alice) aliceText _ _ _ flat_person hd rfl
  have heq : parsed = aliceParsed := by
    cases hok
    rfl
  refine ⟨heq ▸ hok, ?_⟩
  refine (htyped ("name", ⟨.string, none⟩) (by simp [personProperties]) _ (heq ▸ rfl)).2 ?_
  intro homitted
  exact homitted.1 (by simp)

/-- The optional age comes out as `None`, which is no integer. -/
theorem alice_not_conforming :
    validateAgainstSchema plain (loadsObject alice) aliceText personSchema =
        ⟨some aliceParsed, true, none⟩ ∧
      ¬Conforms personProperties ["name"] aliceParsed := by
  refine ⟨rfl, ?_⟩
  intro hc
  exact hc.typed ("age", ⟨.integer, none⟩) (by simp [personProperties]) .null rfl

/-! ## Completeness -/

section Completeness

variable {lib : Library} {loads : PyStr → Except LoadsError PyValue} {raw : PyStr}
  {schema : List (PyStr × PyValue)} {properties : List (PyStr × Property)} {required : List PyStr}
  {data parsed : List (PyStr × PyValue)}

/-- `w == v` for a value `w` that a field of the type of `v` can have. -/
def SameValue (v w : PyValue) : Prop :=
  w = v ∨ (∃ n x, v = .int n ∧ w = .float x ∧ x.EqInt n) ∨
    ∃ n x, v = .float x ∧ w = .int n ∧ x.EqInt n

/-- The object that `raw` is the text of comes back: every declared member that it has is in the
parsed object. -/
def ComesBack (lib : Library) (loads : PyStr → Except LoadsError PyValue) (raw : PyStr)
    (schema : List (PyStr × PyValue)) (properties : List (PyStr × Property))
    (data : List (PyStr × PyValue)) : Prop :=
  ∃ parsed, validateAgainstSchema lib loads raw schema = ⟨some parsed, true, none⟩ ∧
    ∀ p ∈ properties, ∀ v, data.lookup p.1 = some v →
      ∃ w, parsed.lookup p.1 = some w ∧ SameValue v w

/-- The names and the values that Pydantic leaves as they are: the names are ordinary fields, the
integers for numbers are doubles, the integral floats for integers are taken, and what is in the
dump, defaults included, can be dumped. -/
structure LeftAlone (lib : Library) (properties : List (PyStr × Property))
    (data : List (PyStr × PyValue)) : Prop where
  unrejected : ∀ p ∈ properties, ∀ e, lib.fate p.1 ≠ .rejected e
  uncalled : ∀ p ∈ properties, ∀ e, lib.fate p.1 ≠ .called e
  field : ∀ p ∈ properties, (data.lookup p.1).isSome = true → lib.fate p.1 = .field
  exact : ∀ p ∈ properties, p.2.type = .number → ∀ n, data.lookup p.1 = some (.int n) →
    ∃ x, lib.coercions.intAsFloat n = some x ∧ x.EqInt n
  whole : ∀ p ∈ properties, p.2.type = .integer → ∀ x, data.lookup p.1 = some (.float x) →
    ∃ n, lib.coercions.floatAsInt x = some n
  dumped : ∀ p ∈ properties, lib.fate p.1 = .field →
    lib.undumpable ((data.lookup p.1).getD (p.2.default.getD .null)) = none

theorem LeftAlone.validate (ha : LeftAlone lib properties data)
    (hc : Conforms properties required data) {p : PyStr × Property} (hp : p ∈ properties)
    {v : PyValue} (hv : data.lookup p.1 = some v) :
    ∃ w, p.2.type.toPython.validate lib v = some w ∧ SameValue v w ∧ lib.undumpable w = none := by
  rcases @validate_of_has lib _ _ (hc.typed p hp v hv) with h | ⟨htype, n, rfl⟩ | ⟨htype, x, rfl⟩
  · have hdump := ha.dumped p hp (ha.field p hp (by rw [hv]; rfl))
    rw [hv, Option.getD_some] at hdump
    exact ⟨v, h, .inl rfl, hdump⟩
  · obtain ⟨x, hx, heq⟩ := ha.exact p hp htype n hv
    refine ⟨.float x, ?_, .inr (.inl ⟨n, x, rfl, rfl, heq⟩), lib.undumpable_hashable _ rfl⟩
    rw [htype, validate_number_int, hx]
    rfl
  · obtain ⟨n, hn⟩ := ha.whole p hp htype x hv
    have heq := lib.coercions.floatAsInt_eq x n hn
    refine ⟨.int n, ?_, .inr (.inr ⟨n, x, rfl, rfl, heq⟩), lib.undumpable_hashable _ rfl⟩
    rw [htype, validate_integer_float, hn]
    rfl

/-- The value of a field raises nothing exactly if the value it was made of does not. -/
theorem undumpable_source {p : PyStr × Property} {w : PyValue} (hp : p ∈ properties)
    (hc : Conforms properties required data) (hvalue : (fieldOf required p).value lib data = some w)
    (hdump : lib.undumpable w = none) :
    lib.undumpable ((data.lookup p.1).getD (p.2.default.getD .null)) = none := by
  cases hdata : data.lookup p.1 with
  | none =>
    rw [value_of_absent hdata] at hvalue
    split at hvalue
    · cases hvalue
    · cases hvalue
      exact hdump
  | some v =>
    rw [value_of_given hdata] at hvalue
    rcases @validate_of_has lib _ _ (hc.typed p hp v hdata) with h | ⟨-, n, rfl⟩ | ⟨-, x, rfl⟩
    · cases h.symm.trans hvalue
      exact hdump
    · exact lib.undumpable_hashable _ rfl
    · exact lib.undumpable_hashable _ rfl

theorem leftAlone_of_comesBack (hf : Flat schema properties required)
    (hc : Conforms properties required data) (htext : ∀ v, loads raw = .ok v → v = .obj data)
    (hb : ComesBack lib loads raw schema properties data) :
    (∃ v, loads raw = .ok v) ∧ LeftAlone lib properties data := by
  obtain ⟨parsed, hok, hsame⟩ := hb
  obtain ⟨data', hloads, hi⟩ := instance_of_ok hf (tryValidate_of_eq hok)
  cases htext _ hloads
  have hfield : ∀ p ∈ properties, (data.lookup p.1).isSome = true → lib.fate p.1 = .field := by
    intro p hp hgiven
    obtain ⟨v, hv⟩ := Option.isSome_iff_exists.1 hgiven
    obtain ⟨w, hw, -⟩ := hsame p hp v hv
    by_contra hfate
    rw [hi.other p hp hfate] at hw
    cases hw
  -- a member that is given has been validated to the same value
  have hgiven : ∀ p ∈ properties, ∀ v, data.lookup p.1 = some v →
      ∃ w, p.2.type.toPython.validate lib v = some w ∧ SameValue v w := by
    intro p hp v hv
    obtain ⟨w, hw, hs⟩ := hsame p hp v hv
    obtain ⟨w', hvalue, hw', -⟩ := hi.field p hp (hfield p hp (by rw [hv]; rfl))
    cases hw.symm.trans hw'
    exact ⟨w, (value_of_given hv).symm.trans hvalue, hs⟩
  refine ⟨⟨_, hloads⟩, hi.unrejected, hi.uncalled, hfield, ?_, ?_, ?_⟩
  · intro p hp htype n hn
    obtain ⟨w, hw, hs⟩ := hgiven p hp _ hn
    rw [htype, validate_number_int] at hw
    obtain ⟨x, hx, rfl⟩ := Option.map_eq_some_iff.1 hw
    rcases hs with hs | ⟨n', x', hn', hx', heq⟩ | ⟨n', x', hn', -, -⟩
    · cases hs
    · cases hn'
      cases hx'
      exact ⟨x, hx, heq⟩
    · cases hn'
  · intro p hp htype x hx
    obtain ⟨w, hw, -⟩ := hgiven p hp _ hx
    rw [htype, validate_integer_float] at hw
    obtain ⟨n, hn, -⟩ := Option.map_eq_some_iff.1 hw
    exact ⟨n, hn⟩
  · intro p hp hfate
    obtain ⟨w, hvalue, -, hdump⟩ := hi.field p hp hfate
    exact undumpable_source hp hc hvalue hdump

theorem LeftAlone.comesBack (ha : LeftAlone lib properties data)
    (hf : Flat schema properties required) (hc : Conforms properties required data)
    (hloads : loads raw = .ok (.obj data)) :
    ComesBack lib loads raw schema properties data := by
  obtain ⟨parsed, htry⟩ : ∃ parsed, tryValidate lib loads raw schema = .ok parsed := by
    refine ok_of_values hf hloads ha.unrejected ha.uncalled ?_
    intro p hp hfate
    cases hdata : data.lookup p.1 with
    | some v =>
      obtain ⟨w, hw, -, hdump⟩ := ha.validate hc hp hdata
      exact ⟨w, (value_of_given hdata).trans hw, hdump⟩
    | none =>
      have hopt : p.1 ∉ required := by
        intro hreq
        obtain ⟨v, hv⟩ := hc.required p.1 hreq
        rw [hdata] at hv
        cases hv
      have hdump := ha.dumped p hp hfate
      rw [hdata, Option.getD_none] at hdump
      exact ⟨_, (value_of_absent hdata).trans (if_neg hopt), hdump⟩
  obtain ⟨data', hloads', hi⟩ := instance_of_ok hf htry
  rw [hloads] at hloads'
  cases hloads'
  refine ⟨parsed, validateAgainstSchema_of_ok htry, ?_⟩
  intro p hp v hv
  obtain ⟨w, hw, hsame, -⟩ := ha.validate hc hp hv
  obtain ⟨w', hvalue, hlookup, -⟩ := hi.field p hp (ha.field p hp (by rw [hv]; rfl))
  rw [value_of_given hv, hw] at hvalue
  cases hvalue
  exact ⟨w, hlookup, hsame⟩

/-- The names that are known not to make an ordinary field. -/
def Reserved (name : PyStr) : Prop :=
  leadingUnderscore name = true ∨ name = ("model_post_init" : PyStr)

theorem Reserved.fate_ne_field {name : PyStr} (hr : Reserved name) : lib.fate name ≠ .field := by
  rcases hr with hname | rfl
  · by_cases hkeyword : name ∈ createModelKeywords.map PyStr.ofString
    · exact lib.fate_keyword name hkeyword
    · obtain ⟨e, he⟩ := lib.fate_underscore name hname hkeyword
      rw [he]
      exact Fate.noConfusion
  · exact lib.fate_postInit

/-- No member with a reserved name comes back. -/
theorem Reserved.not_leftAlone {p : PyStr × Property} (hr : Reserved p.1) (hp : p ∈ properties)
    (hgiven : (data.lookup p.1).isSome = true) : ¬LeftAlone lib properties data :=
  fun ha => hr.fate_ne_field (ha.field p hp hgiven)

end Completeness

def grown : List (PyStr × PyValue) := [("name", .str "Alice"), ("age", .int 30)]

def recordSchema : List (PyStr × PyValue) :=
  [("type", .str "object"), ("properties", .obj [("_id", .obj [("type", .str "string")])]),
    ("required", .arr [.str "_id"])]

def recordProperties : List (PyStr × Property) := [("_id", ⟨.string, none⟩)]

def record : List (PyStr × PyValue) := [("_id", .str "a1")]

end Xola.LlmSurface
