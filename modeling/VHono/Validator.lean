import VHono.Jwt
import VHono.NumberTexts

/-! # The validator

    A schema says of each property what its values must be.  The validator
    reads every value as the kind it needs, by the conversions of `json2`, and
    collects an error for each rule that the value read breaks.  Regular
    expressions, floats and the conversions between kinds are parameters. -/

namespace VHono

open ByteString NumberTexts

namespace Validator

/-! ## Schemas -/

structure StringSchema where
  required   : Bool
  minLength  : Int
  maxLength  : Int
  pattern    : ByteString
  enumValues : List ByteString

structure IntSchema where
  required   : Bool
  min        : Option Int
  max        : Option Int
  enumValues : List Int

structure FloatSchema (F : Type) where
  required : Bool
  min      : Option F
  max      : Option F

structure BoolSchema where
  required : Bool

/-- An array's rules but for that of its elements. -/
structure ArraySchema where
  required : Bool
  minItems : Int
  maxItems : Int

mutual

inductive Schema (F : Type)
  | string (s : StringSchema)
  | int (s : IntSchema)
  | float (s : FloatSchema F)
  | bool (s : BoolSchema)
  | array (s : ArraySchema) (items : Items F)
  | object (required : Bool) (properties : Properties F)

/-- The schema of an array's elements, which may be `nil`. -/
inductive Items (F : Type)
  | unset
  | each (s : Schema F)

/-- The properties of an object, in the order of the map. -/
inductive Properties (F : Type)
  | nil
  | cons (name : ByteString) (s : Schema F) (rest : Properties F)

end

structure ValidationError where
  field   : ByteString
  message : ByteString
  code    : ByteString
  deriving DecidableEq, Repr

structure ValidationResult where
  success : Bool
  errors  : List ValidationError
  data    : InsertionMap ByteString Json

/-- What the standard library does: `json2`, `regex` and the floats. -/
structure Library (F : Type) where
  jsonStr  : Json → ByteString
  otherInt : Json → Int
  f64      : Json → F
  less     : F → F → Bool
  f64Str   : F → ByteString
  regexOpt : ByteString → Option (ByteString → Bool)

variable {F : Type}

def Schema.required : Schema F → Bool
  | .string s => s.required
  | .int s => s.required
  | .float s => s.required
  | .bool s => s.required
  | .array s _ => s.required
  | .object required _ => required

/-! ## Values read as another kind -/

/-- `s.int()`: a number out of range becomes the nearest one in range. -/
def stringInt (s : ByteString) : Int := max (-2 ^ 31) (min (i64 s) (2 ^ 31 - 1))

/-- `value.arr()` -/
def arr : Json → List Json
  | .array items => items
  | .object members => (asMap (.object members)).entries.map Prod.snd
  | v => [v]

namespace Library

variable (lib : Library F)

/-- `value.str()` -/
def str : Json → ByteString
  | .string s => s
  | v => lib.jsonStr v

/-- `value.int()`: an integer of 64 bits is cut to 32. -/
def int : Json → Int
  | .integer n => if -2 ^ 63 ≤ n ∧ n < 2 ^ 63 then n.bmod (2 ^ 32) else lib.otherInt (.integer n)
  | .string s => stringInt s
  | v => lib.otherInt v

end Library

/-! ## Checks -/

def requiredError (fieldName : ByteString) : ValidationError :=
  ⟨fieldName, ascii "Field is required", ascii "required"⟩

/-- A rule that holds, or else one error. -/
def check (fails : Prop) [Decidable fails] (fieldName message code : ByteString) :
    List ValidationError :=
  if fails then [⟨fieldName, message, code⟩] else []

/-- What the validators of all kinds do first: null is for properties that are not required. -/
def unlessNull (fieldName : ByteString) (required : Bool) (value : Json)
    (errors : List ValidationError) : List ValidationError :=
  match value with
  | .null => if required then [requiredError fieldName] else []
  | _ => errors

variable (lib : Library F) (fieldName : ByteString) (value : Json)

def enumErrors (schema : StringSchema) (strVal : ByteString) : List ValidationError :=
  check (schema.enumValues.length > 0 ∧ strVal ∉ schema.enumValues) fieldName
    (ascii "Value must be one of: " ++ (ascii ", ").intercalate schema.enumValues) (ascii "enum")

/-- The checks from the pattern on; a pattern that is none ends them. -/
def patternErrors (schema : StringSchema) (strVal : ByteString) : List ValidationError :=
  if schema.pattern.length > 0 then
    match lib.regexOpt schema.pattern with
    | none => [⟨fieldName, ascii "Invalid pattern: " ++ schema.pattern, ascii "invalid_pattern"⟩]
    | some re =>
      check (¬ re strVal) fieldName (ascii "Value does not match pattern: " ++ schema.pattern)
        (ascii "pattern") ++ enumErrors fieldName schema strVal
  else enumErrors fieldName schema strVal

def validateString (schema : StringSchema) : List ValidationError :=
  unlessNull fieldName schema.required value <|
    let strVal := lib.str value
    if strVal.length = 0 ∧ schema.required then [requiredError fieldName]
    else
      check (schema.minLength > 0 ∧ (strVal.length : Int) < schema.minLength) fieldName
        (ascii "String length must be at least " ++ intStr schema.minLength) (ascii "min_length") ++
      check (schema.maxLength > 0 ∧ (strVal.length : Int) > schema.maxLength) fieldName
        (ascii "String length must be at most " ++ intStr schema.maxLength) (ascii "max_length") ++
      patternErrors lib fieldName schema strVal

/-- `${values}` of an array of integers -/
def intsStr (values : List Int) : ByteString :=
  ascii "[" ++ (ascii ", ").intercalate (values.map intStr) ++ ascii "]"

def validateInt (schema : IntSchema) : List ValidationError :=
  unlessNull fieldName schema.required value <|
    let intVal := lib.int value
    (match schema.min with
      | some min => check (intVal < min) fieldName (ascii "Value must be at least " ++ intStr min)
          (ascii "min")
      | none => []) ++
    (match schema.max with
      | some max => check (intVal > max) fieldName (ascii "Value must be at most " ++ intStr max)
          (ascii "max")
      | none => []) ++
    check (schema.enumValues.length > 0 ∧ intVal ∉ schema.enumValues) fieldName
      (ascii "Value must be one of: " ++ intsStr schema.enumValues) (ascii "enum")

def validateFloat (schema : FloatSchema F) : List ValidationError :=
  unlessNull fieldName schema.required value <|
    let floatVal := lib.f64 value
    (match schema.min with
      | some min => check (lib.less floatVal min) fieldName
          (ascii "Value must be at least " ++ lib.f64Str min) (ascii "min")
      | none => []) ++
    (match schema.max with
      | some max => check (lib.less max floatVal) fieldName
          (ascii "Value must be at most " ++ lib.f64Str max) (ascii "max")
      | none => [])

/-- The texts that are read as truth values. -/
def boolTexts : List ByteString := [ascii "true", ascii "false", ascii "1", ascii "0"]

def isBool : Json → Bool
  | .bool _ => true
  | _ => false

def validateBool (schema : BoolSchema) : List ValidationError :=
  unlessNull fieldName schema.required value <|
    check (¬ isBool value ∧ toLower (lib.str value) ∉ boolTexts) fieldName
      (ascii "Value must be a boolean") (ascii "type")

/-- The checks of an array; `itemErrors` is what its elements' schema finds. -/
def validateArray (schema : ArraySchema) (itemErrors : List Json → List ValidationError) :
    List ValidationError :=
  unlessNull fieldName schema.required value <|
    let items := arr value
    check (schema.minItems > 0 ∧ (items.length : Int) < schema.minItems) fieldName
      (ascii "Array must have at least " ++ intStr schema.minItems ++ ascii " items")
      (ascii "min_items") ++
    check (schema.maxItems > 0 ∧ (items.length : Int) > schema.maxItems) fieldName
      (ascii "Array must have at most " ++ intStr schema.maxItems ++ ascii " items")
      (ascii "max_items") ++
    itemErrors items

/-- `${field_name}[${i}]` -/
def itemName (i : Nat) : ByteString := fieldName ++ ascii "[" ++ decimal i ++ ascii "]"

def propertyName (propName : ByteString) : ByteString :=
  if fieldName.length > 0 then fieldName ++ ascii "." ++ propName else propName

variable {fieldName value}

mutual

def validateValue (fieldName : ByteString) (value : Json) : Schema F → List ValidationError
  | .string s => validateString lib fieldName value s
  | .int s => validateInt lib fieldName value s
  | .float s => validateFloat lib fieldName value s
  | .bool s => validateBool lib fieldName value s
  | .array s items => validateArray fieldName value s (fun arr => validateItems fieldName arr items)
  | .object required properties =>
    unlessNull fieldName required value (validateProperties fieldName (asMap value) properties)

def validateItems (fieldName : ByteString) (arr : List Json) : Items F → List ValidationError
  | .unset => []
  | .each s => arr.zipIdx.flatMap (fun item => validateValue (itemName fieldName item.2) item.1 s)

def validateProperties (fieldName : ByteString) (obj : InsertionMap ByteString Json) :
    Properties F → List ValidationError
  | .nil => []
  | .cons propName schema rest =>
    (match obj.get? propName with
      | some propValue => validateValue (propertyName fieldName propName) propValue schema
      | none =>
        if schema.required then [requiredError (propertyName fieldName propName)] else []) ++
    validateProperties fieldName obj rest

end

def validateSchema (data : InsertionMap ByteString Json) (properties : Properties F) :
    ValidationResult :=
  let errors := validateProperties lib [] data properties
  { success := errors.length = 0
    errors := errors
    data := data }

end Validator

end VHono
