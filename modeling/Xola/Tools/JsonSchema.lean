import Xola.Tools.Registry

/-!
# JSON Schema

What the keywords of the tools' schemas say of a value: `type`, `properties`, `required`, `enum`,
`minimum` and `maximum`. Every other keyword is an annotation. A number is an `integer` when it has
no fractional part, however it is written.
-/

namespace Xola

/-- The number that a float stands for, if it is finite. -/
def JsonFloat.number? : JsonFloat → Option Rat
  | .finite neg digits exponent =>
    some ((if neg then -1 else 1) * (digits : Rat) * (10 : Rat) ^ exponent)
  | .infinity _ | .nan => none

def JsonOf.number? : Json → Option Rat
  | .int n => some n
  | .float x => x.number?
  | .null | .bool _ | .str _ | .arr _ | .obj _ => none

namespace JsonSchema

def hasType : String → Json → Bool
  | "null", .null => true
  | "boolean", .bool _ => true
  | "number", v => v.number?.isSome
  | "integer", v => v.number?.any fun q => q.den == 1
  | "string", .str _ => true
  | "array", .arr _ => true
  | "object", .obj _ => true
  | _, _ => false

/-- `minimum` and `maximum` bind numbers only. -/
def within (le : Rat → Rat → Bool) (bound v : Json) : Bool :=
  match bound.number?, v.number? with
  | some b, some q => le b q
  | _, _ => true

/-- A keyword that looks at the value as a whole. The items of an `enum` are strings. -/
def asserts : String → Json → Json → Bool
  | "type", .str t, v => hasType t v
  | "required", .arr keys, .obj fields =>
    keys.all fun key => match key with
      | .str key => (fields.lookup key).isSome
      | _ => true
  | "enum", .arr items, v => items.contains v
  | "minimum", bound, v => within (fun b q => b ≤ q) bound v
  | "maximum", bound, v => within (fun b q => q ≤ b) bound v
  | _, _, _ => true

mutual

/-- Does the value satisfy the schema? -/
def accepts : Json → Json → Bool
  | .obj keywords, v => acceptsKeywords keywords v
  | .bool b, _ => b
  | .null, _ | .int _, _ | .float _, _ | .str _, _ | .arr _, _ => false

def acceptsKeywords : List (String × Json) → Json → Bool
  | [], _ => true
  | (keyword, s) :: rest, v =>
    (match keyword, s with
      | "properties", .obj properties => acceptsProperties properties v
      | _, _ => asserts keyword s v) && acceptsKeywords rest v

def acceptsProperties : List (String × Json) → Json → Bool
  | [], _ => true
  | (key, s) :: rest, v =>
    (match v.get key with
      | some w => accepts s w
      | none => true) && acceptsProperties rest v

end

/-! ## What an accepted value satisfies -/

section Accepted

variable {keywords properties : List (String × Json)} {keyword key : String} {s v w : Json}

/-- One keyword of a schema. -/
def acceptsKeyword (keyword : String) (s v : Json) : Bool :=
  match keyword, s with
  | "properties", .obj properties => acceptsProperties properties v
  | _, _ => asserts keyword s v

theorem acceptsKeywords_cons (rest : List (String × Json)) :
    acceptsKeywords ((keyword, s) :: rest) v =
      (acceptsKeyword keyword s v && acceptsKeywords rest v) := by
  unfold acceptsKeyword
  split
  · rw [acceptsKeywords]
  · rename_i hother
    rw [acceptsKeywords]
    exact hother

theorem acceptsKeyword_of_mem (h : acceptsKeywords keywords v = true)
    (hk : (keyword, s) ∈ keywords) : acceptsKeyword keyword s v = true := by
  induction keywords with
  | nil => cases hk
  | cons k keywords ih =>
    rw [acceptsKeywords_cons] at h
    obtain ⟨hhead, hrest⟩ := Bool.and_eq_true_iff.mp h
    rcases List.mem_cons.mp hk with rfl | hk
    · exact hhead
    · exact ih hrest hk

theorem accepts_of_acceptsProperties (h : acceptsProperties properties v = true)
    (hk : (key, s) ∈ properties) (hv : v.get key = some w) : accepts s w = true := by
  induction properties with
  | nil => cases hk
  | cons k properties ih =>
    obtain ⟨hhead, hrest⟩ := Bool.and_eq_true_iff.mp h
    rcases List.mem_cons.mp hk with rfl | hk
    · rw [hv] at hhead
      exact hhead
    · exact ih hrest hk

/-- What a schema says of a field is read through its `properties`. -/
theorem accepts_property (h : accepts (.obj keywords) v = true)
    (hp : ("properties", .obj properties) ∈ keywords) (hk : (key, s) ∈ properties)
    (hv : v.get key = some w) : accepts s w = true := by
  rw [accepts] at h
  exact accepts_of_acceptsProperties (acceptsKeyword_of_mem h hp) hk hv

theorem integer_of_hasType (h : hasType "integer" v = true) :
    ∃ n : Int, v.number? = some (n : Rat) := by
  obtain ⟨q, hq, hden⟩ := (Option.any_eq_true _ _).mp h
  refine ⟨q.num, hq.trans (congrArg some ?_)⟩
  exact Rat.ext rfl (eq_of_beq hden)

theorem within_of_number {le : Rat → Rat → Bool} {bound n : Int}
    (h : within le (.int bound) v = true) (hn : v.number? = some (n : Rat)) : le bound n = true := by
  unfold within at h
  rw [hn] at h
  exact h

theorem integer_of_accepts {lo hi : Int} (h : accepts (.obj keywords) v = true)
    (ht : ("type", .str "integer") ∈ keywords) (hlo : ("minimum", .int lo) ∈ keywords)
    (hhi : ("maximum", .int hi) ∈ keywords) :
    ∃ n : Int, v.number? = some (n : Rat) ∧ lo ≤ n ∧ n ≤ hi := by
  rw [accepts] at h
  obtain ⟨n, hn⟩ := integer_of_hasType (acceptsKeyword_of_mem h ht)
  have hmin := within_of_number (acceptsKeyword_of_mem h hlo) hn
  have hmax := within_of_number (acceptsKeyword_of_mem h hhi) hn
  exact ⟨n, hn, Rat.intCast_le_intCast.mp (of_decide_eq_true hmin),
    Rat.intCast_le_intCast.mp (of_decide_eq_true hmax)⟩

/-- A field that a schema requires is there, and is a string where the schema says so. -/
theorem required_of_accepts {keys : List Json} (h : accepts (.obj keywords) v = true)
    (ht : ("type", .str "object") ∈ keywords) (hr : ("required", .arr keys) ∈ keywords)
    (hk : .str key ∈ keys) : ∃ w, v.get key = some w := by
  rw [accepts] at h
  have hobj : hasType "object" v = true := acceptsKeyword_of_mem h ht
  have hreq : asserts "required" (.arr keys) v = true := acceptsKeyword_of_mem h hr
  cases v with
  | obj fields =>
    have hkey := List.all_eq_true.mp hreq _ hk
    exact Option.isSome_iff_exists.mp hkey
  | _ => cases hobj

theorem string_of_accepts (h : accepts (.obj keywords) v = true)
    (ht : ("type", .str "string") ∈ keywords) : ∃ t, v = .str t := by
  rw [accepts] at h
  have hstr : hasType "string" v = true := acceptsKeyword_of_mem h ht
  cases v with
  | str t => exact ⟨t, rfl⟩
  | _ => cases hstr

end Accepted

/-- A compiled schema lists errors for exactly the values that do not satisfy it. -/
def Conforms (validatorFor : ValidatorFor) (schema : Json) : Prop :=
  ∃ iterErrors, validatorFor schema = .ok iterErrors ∧
    ∀ v, iterErrors v = [] ↔ accepts schema v = true

theorem Conforms.validate_iff {validatorFor : ValidatorFor} {schema input : Json}
    (h : Conforms validatorFor schema) :
    InputValidator.validate validatorFor schema input = .ok () ↔ accepts schema input = true := by
  obtain ⟨iterErrors, hcompile, herrors⟩ := h
  rw [← herrors, InputValidator.validate, hcompile]
  dsimp only
  by_cases hnone : iterErrors input = []
  · rw [if_pos hnone]
    exact iff_of_true rfl hnone
  · rw [if_neg hnone]
    refine iff_of_false ?_ hnone
    intro hok
    cases hok

example : accepts (.obj [("minimum", .int 1), ("type", .str "integer")])
    (.float (.finite false 2 1)) = true := by decide +kernel

end JsonSchema

end Xola
