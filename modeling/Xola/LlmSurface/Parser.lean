import Xola.Interaction.Prog
import Xola.LlmSurface.Pydantic
import Xola.LlmSurface.React

/-!
# Parsing against a schema

`llm_surface/parser.py`: the dynamic model that is made of a JSON schema, the validation of raw
output against it, and the loop that asks the model for a correction. `json.loads` is the parameter
`loads`, and `json.dumps` with `indent=2` is `dumps`; both raise on some inputs. Of Pydantic, `Library`
leaves open how values are coerced, what `create_model` makes of a name, how deep a value `model_dump`
goes into, and the text of a `ValidationError`; a model is given by its fields.
-/

namespace Xola.LlmSurface

/-- What a statement of the parser raises, as its handlers tell apart. -/
inductive ParserError where
  | jsonDecodeError (msg : PyStr)
  | validationError (msg : PyStr)
  | valueError (msg : PyStr)
  | other (msg : PyStr)

/-- The Python types that a property can be declared with. -/
inductive PyType where
  | str
  | int
  | float
  | bool
  | list
  | dict
  deriving DecidableEq, Repr

/-- A field definition `(field_type, Field(…))`; the default of a required field is not used. -/
structure FieldDefinition where
  name : PyStr
  type : PyType
  required : Bool
  default : PyValue

/-- What `create_model` makes of a keyword argument: a field, a setting of its own, or an error. A
field can also take the place of a method that is called on every instance. -/
inductive Fate where
  | field
  | called (e : PyValue → ParserError)
  | swallowed
  | rejected (e : ParserError)

/-- The parameters of `create_model` besides the field definitions. -/
def createModelKeywords : List String :=
  ["__config__", "__doc__", "__base__", "__module__", "__validators__", "__cls_kwargs__",
    "__qualname__"]

def leadingUnderscore (name : PyStr) : Bool := name.head? = some (.scalar '_')

def hashable : PyValue → Bool
  | .arr _ | .obj _ => false
  | _ => true

structure Library where
  coercions : Pydantic.Coercions PyStr
  fate : PyStr → Fate
  /-- "Fields must not use names with leading underscores". -/
  fate_underscore : ∀ name, leadingUnderscore name = true →
    name ∉ createModelKeywords.map PyStr.ofString → ∃ e, fate name = .rejected e
  fate_keyword : ∀ name ∈ createModelKeywords.map PyStr.ofString, fate name ≠ .field
  /-- The name of the method that an instance is finished with. -/
  fate_postInit : fate "model_post_init" ≠ .field
  /-- What the dump of a value raises: there is a limit on its depth. -/
  undumpable : PyValue → Option ParserError
  undumpable_hashable : ∀ v, hashable v = true → undumpable v = none
  /-- The text of the errors of `model_class(**data)`. -/
  validationText : List FieldDefinition → List (PyStr × PyValue) → PyStr

/-! ## The model of a schema -/

/-- `schema.get(key, {}).items()`. -/
def items : Option PyValue → Except ParserError (List (PyStr × PyValue))
  | none => .ok []
  | some (.obj fields) => .ok fields
  | some v => .error (.other ("'" ++ typeName v ++ "' object has no attribute 'items'"))

def unhashable (v : PyValue) : ParserError := .other ("unhashable type: '" ++ typeName v ++ "'")

/-- The strings in `set(schema.get("required", []))`. -/
def requiredSet : Option PyValue → Except ParserError (List PyStr)
  | none => .ok []
  | some (.arr names) =>
    match names.find? (!hashable ·) with
    | some v => .error (unhashable v)
    | none => .ok (names.filterMap fun | .str s => some s | _ => none)
  | some (.str s) => .ok (s.map fun c => [c])
  | some (.obj fields) => .ok (fields.map Prod.fst)
  | some v => .error (.other ("'" ++ typeName v ++ "' object is not iterable"))

/-- `type_mapping`. -/
def typeMapping : List (PyStr × PyType) :=
  [("string", .str), ("integer", .int), ("number", .float), ("boolean", .bool), ("array", .list),
    ("object", .dict)]

/-- `_json_schema_type_to_python`. -/
def jsonSchemaTypeToPython (fieldSchema : List (PyStr × PyValue)) : Except ParserError PyType :=
  match (fieldSchema.lookup ("type" : PyStr)).getD (.str "string") with
  | .str name => .ok ((typeMapping.lookup name).getD .str)
  | v => if hashable v then .ok .str else .error (unhashable v)

/-- The body of the loop over the properties. -/
def fieldDefinition (required : List PyStr) (fieldName : PyStr) :
    PyValue → Except ParserError FieldDefinition
  | .obj fieldSchema => do
    let fieldType ← jsonSchemaTypeToPython fieldSchema
    return ⟨fieldName, fieldType, required.contains fieldName,
      (fieldSchema.lookup ("default" : PyStr)).getD .null⟩
  | v => .error (.other ("'" ++ typeName v ++ "' object has no attribute 'get'"))

/-- `create_model(model_name, **fields)`. -/
def createModel (lib : Library) : List FieldDefinition → Except ParserError (List FieldDefinition)
  | [] => .ok []
  | d :: ds =>
    match lib.fate d.name with
    | .field | .called _ => (createModel lib ds).map (d :: ·)
    | .swallowed => createModel lib ds
    | .rejected e => .error e

def createModelFromSchema (lib : Library) (schema : List (PyStr × PyValue)) :
    Except ParserError (List FieldDefinition) := do
  if schema.lookup ("type" : PyStr) ≠ some (.str "object") then
    .error (.valueError "Schema must be an object type")
  else
    let properties ← items (schema.lookup ("properties" : PyStr))
    let required ← requiredSet (schema.lookup ("required" : PyStr))
    let fields ← properties.mapM fun e => fieldDefinition required e.1 e.2
    createModel lib fields

/-! ## Validation -/

/-- The value of a field in lax mode. -/
def PyType.validate (lib : Library) : PyType → PyValue → Option PyValue
  | .str, v => (Pydantic.str v).map .str
  | .int, v => (Pydantic.int lib.coercions v).map .int
  | .float, v => (Pydantic.float lib.coercions v).map .float
  | .bool, v => (Pydantic.bool lib.coercions v).map .bool
  | .list, v => (Pydantic.list some v).map .arr
  | .dict, v => (Pydantic.dictAny v).map .obj

/-- Defaults are not validated. -/
def FieldDefinition.value (lib : Library) (d : FieldDefinition) (data : List (PyStr × PyValue)) :
    Option PyValue :=
  Pydantic.field (if d.required then none else some d.default) (d.type.validate lib)
    (data.lookup d.name)

/-- Every field of the model and nothing else. -/
def fieldValues (lib : Library) (model : List FieldDefinition) (data : List (PyStr × PyValue)) :
    Option (List (PyStr × PyValue)) :=
  model.mapM fun d => (d.value lib data).map (d.name, ·)

/-- What comes of calling the value of a field that is in the place of a method. -/
def Fate.raises (v : PyValue) : Fate → Option ParserError
  | .called e => some (e v)
  | .field | .swallowed | .rejected _ => none

/-- `model_class(**data)`, given by the values of its fields. -/
def instantiate (lib : Library) (model : List FieldDefinition) (data : List (PyStr × PyValue)) :
    Except ParserError (List (PyStr × PyValue)) :=
  match fieldValues lib model data with
  | none => .error (.validationError (lib.validationText model data))
  | some values =>
    match values.findSome? fun e => (lib.fate e.1).raises e.2 with
    | some e => .error e
    | none => .ok values

/-- `validated.model_dump()`. -/
def modelDump (lib : Library) (validated : List (PyStr × PyValue)) :
    Except ParserError (List (PyStr × PyValue)) :=
  match validated.findSome? fun e => lib.undumpable e.2 with
  | some e => .error e
  | none => .ok validated

structure ParseResponse where
  parsed : Option (List (PyStr × PyValue))
  success : Bool
  error : Option PyStr

section Validate

variable (lib : Library) (loads : PyStr → Except LoadsError PyValue)

/-- The `try` block of `validate_against_schema`. -/
def tryValidate (raw : PyStr) (schema : List (PyStr × PyValue)) :
    Except ParserError (List (PyStr × PyValue)) :=
  match loads raw with
  | .error (.jsonDecodeError msg) => .error (.jsonDecodeError msg)
  | .error (.valueError msg) => .error (.valueError msg)
  | .error (.recursionError msg) => .error (.other msg)
  | .ok data => do
    let modelClass ← createModelFromSchema lib schema
    match data with
    | .obj data =>
      let validated ← instantiate lib modelClass data
      modelDump lib validated
    | v =>
      .error (.other ("llm_surface.parser.DynamicModel() argument after ** must be a mapping, not " ++
        typeName v))

def validateAgainstSchema (raw : PyStr) (schema : List (PyStr × PyValue)) : ParseResponse :=
  match tryValidate lib loads raw schema with
  | .ok parsed => ⟨some parsed, true, none⟩
  | .error (.jsonDecodeError msg) => ⟨none, false, some ("Invalid JSON: " ++ msg)⟩
  | .error (.validationError msg) => ⟨none, false, some ("Schema validation failed: " ++ msg)⟩
  | .error (.valueError msg) => ⟨none, false, some ("Invalid schema: " ++ msg)⟩
  | .error (.other msg) => ⟨none, false, some ("Parsing error: " ++ msg)⟩

end Validate

/-! ## Corrective re-prompting -/

/-- The schema is dumped outside any `try`. -/
def buildCorrectivePrompt (dumps : List (PyStr × PyValue) → Except ParserError String)
    (original error : PyStr) (schema : List (PyStr × PyValue)) : Except ParserError PyStr := do
  let schemaText ← dumps schema
  return "Your previous output was malformed and could not be parsed.\n\nOriginal output:\n" ++
    original ++ "\n\nValidation error:\n" ++ error ++ "\n\nExpected schema:\n" ++ schemaText ++
    "\n\nPlease provide a corrected output that matches the schema exactly.\n" ++
    "Return ONLY valid JSON, with no markdown formatting or extra text."

/-- `client.chat.completions.create` with the content of the one message. -/
inductive RetryCommand where
  | create (model : PyStr) (content : PyStr) (temperature : JsonFloat)

/-- The content of the first choice, or the text of what was raised on the way to it. -/
abbrev RetryCommand.Answer : RetryCommand → Type
  | .create _ _ _ => Except PyStr (Option PyStr)

abbrev Retrying (α : Type) := Interaction.Prog RetryCommand RetryCommand.Answer ParserError α

/-- `result.error or "Unknown error"`. -/
def ParseResponse.errorText (result : ParseResponse) : PyStr :=
  match result.error with
  | some e => if e = [] then "Unknown error" else e
  | none => "Unknown error"

section Retry

variable (lib : Library) (loads : PyStr → Except LoadsError PyValue)
  (dumps : List (PyStr × PyValue) → Except ParserError String) (schema : List (PyStr × PyValue))
  (model : PyStr) (maxRetries : Int)

/-- The loop with `remaining` attempts to go; `result` is the variable that each of them assigns. -/
def retry : (remaining : Nat) → (attempt : Int) → (currentOutput : PyStr) →
    (result : Option ParseResponse) → Retrying ParseResponse
  | 0, _, _, some result => .ret result
  | 0, _, _, none =>
    .err (.other "cannot access local variable 'result' where it is not associated with a value")
  | remaining + 1, attempt, currentOutput, _ =>
    let result := validateAgainstSchema lib loads currentOutput schema
    if result.success then .ret result
    else if attempt < maxRetries then
      match buildCorrectivePrompt dumps currentOutput result.errorText schema with
      | .error e => .err e
      | .ok correctivePrompt =>
        .call (.create model correctivePrompt (.finite false 0 0)) fun response =>
          match (response : Except PyStr (Option PyStr)) with
          | .error e => .ret ⟨none, false, some ("Retry failed: " ++ e)⟩
          | .ok content => retry remaining (attempt + 1) (content.getD []) (some result)
    else retry remaining (attempt + 1) currentOutput (some result)

/-- `for attempt in range(1, max_retries + 1)`. -/
def parseWithRetry (raw : PyStr) : Retrying ParseResponse :=
  retry lib loads dumps schema model maxRetries maxRetries.toNat 1 raw none

end Retry

end Xola.LlmSurface
