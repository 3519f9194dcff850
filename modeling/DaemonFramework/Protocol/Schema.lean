import DaemonFramework.Protocol.Values

/-!
# The generated validator

`check_schema` of `shelllist-daemon-core/src/bin/shelllist-protocol-js.rs`, which lets a schema
through to the generated module, and `schemaError` of `schema_validation.js`, which the module
checks values with.

The schemas of the module are object literals. What such a literal has as its own fields is not
always what the document has: `__proto__` is what it inherits from.
-/

namespace DaemonFramework.Protocol

open Json

/-! ## Which schemas are let through -/

mutual

/-- `check_schema`. -/
def checkSchema : Json → Except String Unit
  | .bool _ => .ok ()
  | .object fields => checkKeywords fields
  | _ => .error "schema must be boolean or object"

/-- The loop over the keywords of a schema. -/
def checkKeywords : List (String × Json) → Except String Unit
  | [] => .ok ()
  | field :: rest => do
    checkKeyword field
    checkKeywords rest

/-- One keyword. -/
def checkKeyword : String × Json → Except String Unit
  | (key, value) =>
    if key ∈ ["$defs", "properties"] then checkMap value
    else if key ∈ ["allOf", "anyOf", "oneOf"] then checkAlternatives value
    else if key ∈ ["items", "additionalProperties", "not"] then checkSchema value
    else if key = "$ref" ∧ ¬ (value.asString.any fun reference => "#/".toList <+: reference.toList) then
      .error "only local schema references are supported"
    else if key ∈ ["$schema", "$id", "$ref", "title", "description", "default", "examples",
        "deprecated", "readOnly", "writeOnly", "format", "type", "const", "enum",
        "required", "minimum", "maximum", "exclusiveMinimum", "exclusiveMaximum",
        "minLength", "maxLength", "pattern", "minItems", "maxItems"] then .ok ()
    else .error s!"unsupported QML schema keyword: {key}"

/-- A map of schemas. -/
def checkMap : Json → Except String Unit
  | .object fields => checkValues fields
  | _ => .error "schema map must be an object"

/-- A list of schemas. -/
def checkAlternatives : Json → Except String Unit
  | .array items => checkItems items
  | _ => .error "schema alternatives must be an array"

/-- The loop over the values of a map. -/
def checkValues : List (String × Json) → Except String Unit
  | [] => .ok ()
  | field :: rest => do
    checkValue field
    checkValues rest

/-- One value of a map. -/
def checkValue : String × Json → Except String Unit
  | (_, value) => checkSchema value

/-- The loop over a list. -/
def checkItems : List Json → Except String Unit
  | [] => .ok ()
  | item :: rest => do
    checkSchema item
    checkItems rest

end

/-! ## The keywords of a schema -/

/-- The keywords that hold a list of alternatives. -/
inductive Group where
  | allOf
  | anyOf
  | oneOf
deriving DecidableEq

/-- The keyword itself. -/
def Group.name : Group → String
  | allOf => "allOf"
  | anyOf => "anyOf"
  | oneOf => "oneOf"

/-- The keywords of a schema, whose values have the types that the keywords require. -/
structure Schema where
  /-- `$ref` -/
  ref : Option String
  /-- `const` -/
  const : Option Json
  /-- `enum` -/
  enum : Option (List Json)
  /-- `allOf`, `anyOf` and `oneOf` -/
  parts : Group → Option (List Json)
  /-- `not` -/
  not : Option Json
  /-- `type`, as a list -/
  types : Option (List String)
  /-- `minimum` -/
  minimum : Option Double
  /-- `maximum` -/
  maximum : Option Double
  /-- `exclusiveMinimum` -/
  exclusiveMinimum : Option Double
  /-- `exclusiveMaximum` -/
  exclusiveMaximum : Option Double
  /-- `minLength` -/
  minLength : Option Double
  /-- `maxLength` -/
  maxLength : Option Double
  /-- `pattern` -/
  pattern : Option String
  /-- `minItems` -/
  minItems : Option Double
  /-- `maxItems` -/
  maxItems : Option Double
  /-- `items` -/
  items : Option Json
  /-- `required` -/
  required : Option (List String)
  /-- `properties` -/
  properties : Option (List (String × Json))
  /-- `additionalProperties` -/
  additionalProperties : Option Json

/-- The value of a keyword: absent, or of the type that the keyword requires. -/
def keyword {α : Type} (fields : List (String × Json)) (key : String) (as : Json → Option α) :
    Option (Option α) :=
  match lookup key fields with
  | none => some none
  | some value => (as value).map some

/-- The value of `type`, as a list. -/
def asTypes (value : Json) : Option (List String) :=
  (value.asString.map fun name => [name]) <|> value.asStrings

/-- Read the keywords of a schema. -/
def Schema.read (fields : List (String × Json)) : Option Schema := do
  let ref ← keyword fields "$ref" asString
  let const ← keyword fields "const" some
  let enum ← keyword fields "enum" asArray
  let allOf ← keyword fields "allOf" asArray
  let anyOf ← keyword fields "anyOf" asArray
  let oneOf ← keyword fields "oneOf" asArray
  let not ← keyword fields "not" some
  let types ← keyword fields "type" asTypes
  let minimum ← keyword fields "minimum" asNumber
  let maximum ← keyword fields "maximum" asNumber
  let exclusiveMinimum ← keyword fields "exclusiveMinimum" asNumber
  let exclusiveMaximum ← keyword fields "exclusiveMaximum" asNumber
  let minLength ← keyword fields "minLength" asNumber
  let maxLength ← keyword fields "maxLength" asNumber
  let pattern ← keyword fields "pattern" asString
  let minItems ← keyword fields "minItems" asNumber
  let maxItems ← keyword fields "maxItems" asNumber
  let items ← keyword fields "items" some
  let required ← keyword fields "required" asStrings
  let properties ← keyword fields "properties" asObject
  let additionalProperties ← keyword fields "additionalProperties" some
  let parts : Group → Option (List Json)
    | .allOf => allOf
    | .anyOf => anyOf
    | .oneOf => oneOf
  return ⟨ref, const, enum, parts, not, types, minimum, maximum, exclusiveMinimum, exclusiveMaximum,
    minLength, maxLength, pattern, minItems, maxItems, items, required, properties,
    additionalProperties⟩

/-! ## Checking a value -/

/-- Replace `~` and a digit by the character that they stand for. -/
def unescape (digit character : Char) : List Char → List Char
  | '~' :: c :: rest =>
    if c = digit then character :: unescape digit character rest
    else '~' :: unescape digit character (c :: rest)
  | c :: rest => c :: unescape digit character rest
  | [] => []

/-- The names in a JSON pointer, without the slash in front. -/
def pointerNames (pointer : List Char) : List String :=
  (pointer.splitOn '/').map fun name => String.ofList (unescape '0' '~' (unescape '1' '/' name))

/-- The own field of an object literal. -/
def ownField (key : String) (fields : List (String × Json)) : Option Json :=
  if key = "__proto__" then none else lookup key fields

mutual

/-- An object literal or an array, and behind it what it inherits from: each literal inherits from
its field `__proto__`. -/
def chain : Json → List Json
  | .object fields => .object fields :: chainAbove fields
  | .array items => [.array items]
  | _ => []

/-- What an object literal with these fields inherits from. -/
def chainAbove : List (String × Json) → List Json
  | [] => []
  | (key, value) :: rest => if key = "__proto__" then chain value else chainAbove rest

end

mutual

/-- The last of the chain inherits from an object of the language, and not from `null`. -/
def isOrdinary : Json → Bool
  | .null => false
  | .object fields => isOrdinaryAbove fields
  | _ => true

/-- So does the last one above an object literal with these fields. -/
def isOrdinaryAbove : List (String × Json) → Bool
  | [] => true
  | (key, value) :: rest =>
    if key = "__proto__" then isOrdinary value else isOrdinaryAbove rest

end

/-- `target[name]`. Only objects of the language have `__proto__`, which gives what the target
inherits from. What else they have, and what strings have, is no schema. -/
def member (target : Json) (name : String) : Option Json :=
  if name = "__proto__" then
    if isOrdinary target then some ((chain target)[1]?.getD (.object [])) else none
  else (chain target).findSome? (·.property name)

/-- The loop over the names of a reference; nothing is JavaScript's `undefined`. -/
def referenceTarget (root : Json) (reference : String) : Option Json :=
  (pointerNames (reference.toList.drop 2)).foldl
    (fun target name => target.bind fun t => if t.truthy then member t name else some t) (some root)

/-- Return a message, or else go on. -/
def proceed (message rest : Option String) : Option String :=
  message.bind fun message => if message ≠ "" then some message else rest

/-- Return a message if something is wrong. -/
def fail (bad : Prop) [Decidable bad] (message : String) : Option String :=
  some (if bad then message else "")

/-- What `schemaError` calls the type of a value. -/
def typeName : Json → String
  | .null => "null"
  | .bool _ => "boolean"
  | .number _ => "number"
  | .string _ => "string"
  | .array _ => "array"
  | .object _ => "object"

/-- The value has a type that a schema expects. -/
def isExpected (value : Json) (expected : String) : Bool :=
  if expected = "integer" then value.asNumber.any fun x => x.isSafeInteger
  else expected = typeName value

/-- Whether a group refuses a value that so many of its parts accept. -/
def Group.refuses : Group → ℕ → ℕ → Bool
  | allOf, accepted, length => accepted ≠ length
  | anyOf, accepted, _ => accepted = 0
  | oneOf, accepted, _ => accepted ≠ 1

section Checks

/-! `test` is `RegExp.test`, and `check` is `schemaError` itself, for the same root. -/

variable (test : String → String → Bool) (check : Json → Json → String → Option String)

/-- The check of `$ref`. -/
def referenceError (s : Schema) (value root : Json) (path : String) : Option String :=
  match s.ref with
  | none => some ""
  | some reference =>
    if reference = "" then some ""
    else if ¬ "#/".toList <+: reference.toList then
      some (path ++ " has an unsupported schema reference")
    else
      match referenceTarget root reference with
      | none => some (path ++ " has an unresolved schema reference")
      | some target => check target value path

/-- The check of `const`. -/
def constError (s : Schema) (value : Json) (path : String) : Option String :=
  fail (s.const.any fun c => !sameText value c) (path ++ " differs from constant")

/-- The check of `enum`. -/
def enumError (s : Schema) (value : Json) (path : String) : Option String :=
  fail (s.enum.any fun items => !items.any fun item => sameText item value)
    (path ++ " is not a registered value")

/-- The check of `allOf`, `anyOf` or `oneOf`, which tries all parts. -/
def groupError (group : Group) (s : Schema) (value : Json) (path : String) : Option String :=
  match s.parts group with
  | none => some ""
  | some parts =>
    (parts.mapM fun part => check part value path).bind fun messages =>
      fail (group.refuses (messages.count "") parts.length)
        (path ++ " does not match " ++ group.name)

/-- The check of `not`, which JavaScript skips if the schema is `false`. -/
def notError (s : Schema) (value : Json) (path : String) : Option String :=
  match s.not with
  | none => some ""
  | some schema =>
    if schema.truthy then
      (check schema value path).bind fun message =>
        fail (message = "") (path ++ " matches forbidden schema")
    else some ""

/-- The check of `type`. -/
def typeError (s : Schema) (value : Json) (path : String) : Option String :=
  fail (s.types.any fun types => !types.any (isExpected value)) (path ++ " has wrong type")

/-- The checks of a number. -/
def numberError (s : Schema) (x : Double) (path : String) : Option String :=
  proceed (fail (¬x.isFinite) (path ++ " is not finite")) <|
  proceed (fail (s.minimum.any fun m => x < m) (path ++ " is below minimum")) <|
  proceed (fail (s.maximum.any fun m => m < x) (path ++ " is above maximum")) <|
  proceed (fail (s.exclusiveMinimum.any fun m => x ≤ m) (path ++ " is below exclusive minimum")) <|
  fail (s.exclusiveMaximum.any fun m => m ≤ x) (path ++ " is above exclusive maximum")

/-- The checks of a string, which an empty pattern passes. -/
def stringError (s : Schema) (text : String) (path : String) : Option String :=
  proceed (fail (s.minLength.any fun m => .finite text.length < m) (path ++ " is too short")) <|
  proceed (fail (s.maxLength.any fun m => m < .finite text.length) (path ++ " is too long")) <|
  fail (s.pattern.any fun pattern => pattern ≠ "" && !test pattern text)
    (path ++ " has invalid format")

/-- The loop over the items of an array. -/
def itemErrors (schema : Json) (path : String) : ℕ → List Json → Option String
  | _, [] => some ""
  | i, item :: rest =>
    proceed (check schema item (path ++ "[" ++ toString i ++ "]")) (itemErrors schema path (i + 1) rest)

/-- The checks of an array. -/
def arrayError (s : Schema) (items : List Json) (path : String) : Option String :=
  proceed (fail (s.minItems.any fun m => .finite items.length < m) (path ++ " has too few items")) <|
  proceed (fail (s.maxItems.any fun m => m < .finite items.length) (path ++ " has too many items")) <|
  itemErrors check (s.items.getD (.bool true)) path 0 items

/-- The loop over the required names. -/
def requiredErrors (fields : List (String × Json)) (path : String) : List String → Option String
  | [] => some ""
  | name :: rest =>
    proceed (fail ((lookup name fields).isNone) (path ++ "." ++ name ++ " is required"))
      (requiredErrors fields path rest)

/-- The rule for a field. -/
def Schema.rule (s : Schema) (key : String) : Option Json :=
  (ownField key (s.properties.getD [])).or s.additionalProperties

/-- The loop over the fields of an object. -/
def fieldErrors (s : Schema) (path : String) : List (String × Json) → Option String
  | [] => some ""
  | (key, value) :: rest =>
    match s.rule key with
    | none => fieldErrors s path rest
    | some rule => proceed (check rule value (path ++ "." ++ key)) (fieldErrors s path rest)

/-- The checks of an object. -/
def objectError (s : Schema) (fields : List (String × Json)) (path : String) : Option String :=
  proceed (requiredErrors fields path (s.required.getD [])) (fieldErrors check s path fields)

/-- The checks that depend on the type of the value. -/
def typedError (s : Schema) (value : Json) (path : String) : Option String :=
  match value with
  | .number x => numberError s x path
  | .string text => stringError test s text path
  | .array items => arrayError check s items path
  | .object fields => objectError check s fields path
  | _ => some ""

/-- The checks of a schema with keywords. -/
def keywordsError (s : Schema) (value root : Json) (path : String) : Option String :=
  proceed (referenceError check s value root path) <|
  proceed (constError s value path) <|
  proceed (enumError s value path) <|
  proceed (groupError check .allOf s value path) <|
  proceed (groupError check .anyOf s value path) <|
  proceed (groupError check .oneOf s value path) <|
  proceed (notError check s value path) <|
  proceed (typeError s value path) <|
  typedError test check s value path

end Checks

/-- `schemaError`, within so many calls of itself. It has no result without a call left, nor for a
schema whose keywords are not of their types. -/
def schemaErrorAt (test : String → String → Bool) (root : Json) :
    ℕ → Json → Json → String → Option String
  | 0, _, _, _ => none
  | _ + 1, .bool true, _, _ => some ""
  | _ + 1, .bool false, _, path => some (path ++ " is forbidden")
  | calls + 1, .object fields, value, path =>
    (Schema.read fields).bind fun s =>
      keywordsError test (schemaErrorAt test root calls) s value root path
  | _ + 1, _, _, _ => none

/-- `schemaError`, with the defaults for the root and the path. -/
def schemaError (test : String → String → Bool) (calls : ℕ) (schema value : Json) : Option String :=
  schemaErrorAt test schema calls schema value "$"

/-- A tree: the schema of a node is used again for its children. -/
example : schemaError (fun _ _ => true) 6
    (.object [("$ref", .string "#/$defs/node"), ("$defs", .object [("node", .object [
      ("type", .string "object"), ("properties", .object [("children", .object [
        ("items", .object [("$ref", .string "#/$defs/node")])])])])])])
    (.object [("children", .array [.object [], .number (.finite 1)])]) =
      some "$.children[1] has wrong type" := by
  decide +kernel

end DaemonFramework.Protocol
