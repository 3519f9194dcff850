import DaemonFramework.Protocol.Schema
import DaemonFramework.Recursion
import Mathlib.Tactic.MkIffOfInductiveProp

/-!
# What a schema says

The assertions of JSON Schema 2020-12, for the keywords that `check_schema` lets through.
`Satisfied` says what each keyword asks for, given which values the schemas that it refers to
accept; an `Evaluation` of a document says that for all its schemas at once.

A schema is looked at in its place: an `$id` makes a schema a resource of its own, and a `$ref`
starts from the resource that it stands in. A `$ref` is a URI, so its characters may be given by
percent signs and their codes.
-/

namespace DaemonFramework.Protocol

open Json

/-! ## References -/

/-- The value of a hexadecimal digit. -/
def hexValue (c : Char) : Option ℕ :=
  if '0' ≤ c ∧ c ≤ '9' then some (c.toNat - '0'.toNat)
  else if 'a' ≤ c ∧ c ≤ 'f' then some (c.toNat - 'a'.toNat + 10)
  else if 'A' ≤ c ∧ c ≤ 'F' then some (c.toNat - 'A'.toNat + 10)
  else none

/-- The bytes of a part of a URI. -/
def percentBytes : List Char → List UInt8
  | '%' :: a :: b :: rest =>
    match hexValue a, hexValue b with
    | some high, some low => UInt8.ofNat (16 * high + low) :: percentBytes rest
    | _, _ => String.utf8EncodeChar '%' ++ percentBytes (a :: b :: rest)
  | c :: rest => String.utf8EncodeChar c ++ percentBytes rest
  | [] => []

/-- The text of a part of a URI. -/
def percentDecode (part : List Char) : Option String :=
  String.fromUTF8? (percentBytes part).toByteArray

/-- Follow the names of a JSON pointer. -/
def pointer : Json → List String → Option Json
  | v, [] => some v
  | v, name :: rest => (v.property name).bind fun w => pointer w rest

/-- A schema and the resource that it stands in. -/
structure Place where
  /-- The resource. -/
  resource : Json
  /-- The schema. -/
  schema : Json
deriving DecidableEq

/-- The place of a schema that is reached from here. -/
def Place.enter (p : Place) (schema : Json) : Place where
  resource := if (schema.property "$id").isSome then schema else p.resource
  schema := schema

/-- What a reference leads to. The reference starts with `#/`. -/
def Place.target (p : Place) (reference : String) : Option Json :=
  (percentDecode (reference.toList.drop 2)).bind fun path =>
    pointer p.resource (pointerNames path.toList)

/-! ## The schemas of a document -/

/-- The schemas that a keyword holds. -/
def heldBy (key : String) (value : Json) : List Json :=
  if key ∈ ["$defs", "properties"] then (value.asObject.getD []).map Prod.snd
  else if key ∈ ["allOf", "anyOf", "oneOf"] then value.asArray.getD []
  else if key ∈ ["items", "additionalProperties", "not"] then [value]
  else []

/-- The schemas right inside a schema. -/
def subschemas (schema : Json) : List Json :=
  (schema.asObject.getD []).flatMap fun field => heldBy field.1 field.2

/-- The places of a document. -/
inductive Within (root : Json) : Place → Prop where
  | root : Within root ⟨root, root⟩
  | sub {p : Place} {schema : Json} : Within root p → schema ∈ subschemas p.schema →
      Within root (p.enter schema)

/-! ## Assertions -/

/-- Two values are equal. The order of an object's fields does not count. -/
inductive Same : Json → Json → Prop where
  | null : Same .null .null
  | bool (b : Bool) : Same (.bool b) (.bool b)
  | number (x : Double) : Same (.number x) (.number x)
  | string (s : String) : Same (.string s) (.string s)
  | array {xs ys : List Json} : List.Forall₂ Same xs ys → Same (.array xs) (.array ys)
  | object {xs ys : List (String × Json)} :
      (∀ key, Option.Rel Same (lookup key xs) (lookup key ys)) → Same (.object xs) (.object ys)

/-- The types of a value. An integer is one that a double holds exactly, like those around it. -/
def HasType : Json → String → Prop
  | .null, name => name = "null"
  | .bool _, name => name = "boolean"
  | .number x, name =>
    name = "number" ∨ name = "integer" ∧ ∃ n : ℤ, x = .finite n ∧ |n| ≤ 2 ^ 53 - 1
  | .string _, name => name = "string"
  | .array _, name => name = "array"
  | .object _, name => name = "object"

/-- The keywords whose meaning is given here. -/
def vocabulary : List String :=
  ["$schema", "$id", "$ref", "$defs", "title", "description", "default", "examples", "deprecated",
    "readOnly", "writeOnly", "format", "type", "const", "enum", "allOf", "anyOf", "oneOf", "not",
    "minimum", "maximum", "exclusiveMinimum", "exclusiveMaximum", "minLength", "maxLength", "pattern",
    "items", "minItems", "maxItems", "properties", "additionalProperties", "required"]

/-- What is left open: whether a text matches a pattern, and what other keywords assert. -/
structure Assertions where
  /-- The text matches the pattern. -/
  pattern : String → String → Bool
  /-- What the keyword with this value asserts of a value. -/
  foreign : String → Json → Json → Prop

variable (assertions : Assertions)

/-- A value satisfies the keywords of a schema that are about values of one type, where `V` says
what the schemas in their places accept. -/
@[mk_iff]
structure TypedSatisfied (V : Place → Json → Prop) (p : Place) (s : Schema) (v : Json) : Prop where
  /-- `minimum` -/
  minimum : ∀ m ∈ s.minimum, ∀ x, v = .number x → m ≤ x
  /-- `maximum` -/
  maximum : ∀ m ∈ s.maximum, ∀ x, v = .number x → x ≤ m
  /-- `exclusiveMinimum` -/
  exclusiveMinimum : ∀ m ∈ s.exclusiveMinimum, ∀ x, v = .number x → m < x
  /-- `exclusiveMaximum` -/
  exclusiveMaximum : ∀ m ∈ s.exclusiveMaximum, ∀ x, v = .number x → x < m
  /-- `minLength` -/
  minLength : ∀ m ∈ s.minLength, ∀ text, v = .string text → m ≤ .finite text.length
  /-- `maxLength` -/
  maxLength : ∀ m ∈ s.maxLength, ∀ text, v = .string text → .finite text.length ≤ m
  /-- `pattern` -/
  pattern : ∀ pattern ∈ s.pattern, ∀ text, v = .string text → assertions.pattern pattern text
  /-- `minItems` -/
  minItems : ∀ m ∈ s.minItems, ∀ items, v = .array items → m ≤ .finite items.length
  /-- `maxItems` -/
  maxItems : ∀ m ∈ s.maxItems, ∀ items, v = .array items → .finite items.length ≤ m
  /-- `items` -/
  items : ∀ schema ∈ s.items, ∀ items, v = .array items → ∀ item ∈ items, V (p.enter schema) item
  /-- `required` -/
  required : ∀ names ∈ s.required, ∀ fields, v = .object fields →
    ∀ name ∈ names, ∃ item, (name, item) ∈ fields
  /-- `properties` -/
  properties : ∀ rules ∈ s.properties, ∀ fields, v = .object fields → ∀ name item,
    (name, item) ∈ fields → ∀ schema ∈ lookup name rules, V (p.enter schema) item
  /-- `additionalProperties`, for the fields without a rule in `properties` -/
  additionalProperties : ∀ schema ∈ s.additionalProperties, ∀ fields, v = .object fields →
    ∀ name item, (name, item) ∈ fields → (∀ rules ∈ s.properties, lookup name rules = none) →
      V (p.enter schema) item

/-- A value satisfies all keywords of a schema. -/
@[mk_iff]
structure Satisfied (V : Place → Json → Prop) (p : Place) (fields : List (String × Json)) (s : Schema)
    (v : Json) : Prop extends TypedSatisfied assertions V p s v where
  /-- `$ref` -/
  ref : ∀ reference ∈ s.ref, ∃ t, p.target reference = some t ∧ V (p.enter t) v
  /-- `const` -/
  const : ∀ c ∈ s.const, Same v c
  /-- `enum` -/
  enum : ∀ items ∈ s.enum, ∃ item ∈ items, Same v item
  /-- `allOf` -/
  allOf : ∀ parts ∈ s.parts .allOf, ∀ part ∈ parts, V (p.enter part) v
  /-- `anyOf` -/
  anyOf : ∀ parts ∈ s.parts .anyOf, ∃ part ∈ parts, V (p.enter part) v
  /-- `oneOf` -/
  oneOf : ∀ parts ∈ s.parts .oneOf, ∃ before part after, parts = before ++ part :: after ∧
    V (p.enter part) v ∧ ∀ other ∈ before ++ after, ¬V (p.enter other) v
  /-- `not` -/
  not : ∀ schema ∈ s.not, ¬V (p.enter schema) v
  /-- `type` -/
  types : ∀ names ∈ s.types, ∃ name ∈ names, HasType v name
  /-- All other keywords -/
  foreign : ∀ key value, (key, value) ∈ fields → key ∉ vocabulary → assertions.foreign key value v

/-- What the schema in a place accepts, where `V` says it of the schemas that it refers to. -/
def Meets (V : Place → Json → Prop) (p : Place) (v : Json) : Prop :=
  match p.schema with
  | .bool b => b = true
  | .object fields => ∃ s, Schema.read fields = some s ∧ Satisfied assertions V p fields s v
  | _ => False

/-- `V` says what the schemas of a document accept. -/
def Evaluation (root : Json) (V : Place → Json → Prop) : Prop :=
  ∀ p, Within root p → ∀ v, V p v ↔ Meets assertions V p v

/-! ## Well-formed documents -/

/-- Evaluating a schema on a value needs another one on the same value. -/
inductive InPlace : Place → Place → Prop where
  | part {p : Place} {fields : List (String × Json)} {s : Schema} {group : Group} {parts : List Json}
      {schema : Json} : p.schema = .object fields → Schema.read fields = some s →
      s.parts group = some parts → schema ∈ parts → InPlace p (p.enter schema)
  | not {p : Place} {fields : List (String × Json)} {s : Schema} {schema : Json} :
      p.schema = .object fields → Schema.read fields = some s → s.not = some schema →
      InPlace p (p.enter schema)
  | ref {p : Place} {fields : List (String × Json)} {s : Schema} {reference : String}
      {schema : Json} : p.schema = .object fields → Schema.read fields = some s →
      s.ref = some reference → p.target reference = some schema → InPlace p (p.enter schema)

/-- The value is `null`, a boolean, a finite number or a string. -/
def Json.IsScalar : Json → Prop
  | .array _ | .object _ => False
  | .number x => x.isFinite
  | _ => True

instance (v : Json) : Decidable v.IsScalar := by
  cases v <;> unfold Json.IsScalar <;> infer_instance

/-- A document that `check_schema` accepts and whose keywords have proper values. -/
structure WellFormed (root : Json) : Prop where
  /-- The document is let through. -/
  accepted : checkSchema root = .ok ()
  /-- The keywords have values of the types that they require. -/
  typed : ∀ p fields, Within root p → p.schema = .object fields → (Schema.read fields).isSome
  /-- Constants are scalars. -/
  const : ∀ p fields s, Within root p → p.schema = .object fields → Schema.read fields = some s →
    ∀ c ∈ s.const, c.IsScalar
  /-- So are enumerated values. -/
  enum : ∀ p fields s, Within root p → p.schema = .object fields → Schema.read fields = some s →
    ∀ items ∈ s.enum, ∀ item ∈ items, item.IsScalar
  /-- References lead to schemas of the document. -/
  resolves : ∀ p fields s, Within root p → p.schema = .object fields → Schema.read fields = some s →
    ∀ reference ∈ s.ref, ∃ t, p.target reference = some t ∧ Within root (p.enter t)
  /-- What leads from a schema back to itself goes into the value. -/
  acyclic : ∀ p, Within root p → ¬Relation.TransGen InPlace p p

/-- What the module makes of a document is what it says: each reference leads to the same schema
from the root, with its characters taken as they are, and nothing that is looked up has the name
`__proto__`. -/
structure Plain (root : Json) : Prop where
  /-- References are the same from the root. -/
  references : ∀ p fields s, Within root p → p.schema = .object fields → Schema.read fields = some s →
    ∀ reference ∈ s.ref,
      p.target reference = pointer root (pointerNames (reference.toList.drop 2))
  /-- None goes through `__proto__`. -/
  path : ∀ p fields s, Within root p → p.schema = .object fields → Schema.read fields = some s →
    ∀ reference ∈ s.ref, "__proto__" ∉ pointerNames (reference.toList.drop 2)
  /-- No property has this name. -/
  names : ∀ p fields s, Within root p → p.schema = .object fields → Schema.read fields = some s →
    ∀ rules ∈ s.properties, lookup "__proto__" rules = none

end DaemonFramework.Protocol
