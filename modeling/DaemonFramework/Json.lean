import Mathlib.Data.List.Basic
import Mathlib.Logic.Basic

/-!
# JSON values

`Value` is `serde_json::Value` as the workspace uses it, without the `preserve_order` feature: an
object's map is a `BTreeMap`, so the fields are listed in the order of their keys and `insertField`
keeps them so. The lookups below hold of any list of fields, sorted or not.
-/

namespace DaemonFramework

/-- `serde_json::Number`: an unsigned or a negative integer, or a float by its bits. -/
inductive Number where
  | posInt (n : UInt64)
  | negInt (n : Int64)
  | float (bits : UInt64)
deriving DecidableEq

/-- `serde_json::Value`. -/
inductive Value where
  | null
  | bool (b : Bool)
  | number (n : Number)
  | string (s : String)
  | array (items : List Value)
  | object (fields : List (String × Value))

namespace Value

mutual

/-- `==` of two values. -/
def beq : Value → Value → Bool
  | null, null => true
  | bool a, bool b => a = b
  | number a, number b => a = b
  | string a, string b => a = b
  | array a, array b => beqItems a b
  | object a, object b => beqFields a b
  | _, _ => false

/-- `==` of the items of two arrays. -/
def beqItems : List Value → List Value → Bool
  | [], [] => true
  | a :: as, b :: bs => beq a b && beqItems as bs
  | _, _ => false

/-- `==` of the fields of two objects. -/
def beqFields : List (String × Value) → List (String × Value) → Bool
  | [], [] => true
  | (j, a) :: as, (k, b) :: bs => j = k && beq a b && beqFields as bs
  | _, _ => false

end

mutual

/-- Values are equal where `==` says so. -/
theorem beq_iff : ∀ v w : Value, beq v w = true ↔ v = w
  | null, w => by cases w <;> simp [beq]
  | bool a, w => by cases w <;> simp [beq]
  | number a, w => by cases w <;> simp [beq]
  | string a, w => by cases w <;> simp [beq]
  | array a, w => by cases w <;> simp [beq, beqItems_iff a]
  | object a, w => by cases w <;> simp [beq, beqFields_iff a]

/-- Lists of items are equal where `==` says so. -/
theorem beqItems_iff : ∀ v w : List Value, beqItems v w = true ↔ v = w
  | [], w => by cases w <;> simp [beqItems]
  | a :: as, w => by cases w <;> simp [beqItems, beq_iff a, beqItems_iff as]

/-- Lists of fields are equal where `==` says so. -/
theorem beqFields_iff : ∀ v w : List (String × Value), beqFields v w = true ↔ v = w
  | [], w => by cases w <;> simp [beqFields]
  | (j, a) :: as, w => by
    cases w <;> simp [beqFields, beq_iff a, beqFields_iff as, Prod.ext_iff, and_assoc]

end

instance : DecidableEq Value := fun v w => decidable_of_iff _ (beq_iff v w)

/-- The value of the first field named `key`. -/
def lookupField (key : String) : List (String × Value) → Option Value
  | [] => none
  | (k, v) :: rest => if k = key then some v else lookupField key rest

/-- `Map::insert`: replace the field named `key`, or put it in the order of the keys. -/
def insertField (key : String) (value : Value) : List (String × Value) → List (String × Value)
  | [] => [(key, value)]
  | (k, v) :: rest =>
    if k = key then (key, value) :: rest
    else if key < k then (key, value) :: (k, v) :: rest
    else (k, v) :: insertField key value rest

/-- `Value::get` with a name: a field of an object, and nothing of any other value. -/
def get : Value → String → Option Value
  | object fields, key => lookupField key fields
  | _, _ => none

/-- `Value::as_str`. -/
def asStr : Value → Option String
  | string s => some s
  | _ => none

/-- `Value::as_array`. -/
def asArray : Value → Option (List Value)
  | array items => some items
  | _ => none

/-- `Value::as_object`. -/
def asObject : Value → Option (List (String × Value))
  | object fields => some fields
  | _ => none

/-- A change through `Map::get_mut`: the value of the field named `key`, if there is one, becomes
its image. -/
def modifyField (key : String) (f : Value → Value) : List (String × Value) → List (String × Value)
  | [] => []
  | (k, v) :: rest => if k = key then (k, f v) :: rest else (k, v) :: modifyField key f rest

/-- A change through `Value::get_mut` with a name. -/
def modify (key : String) (f : Value → Value) : Value → Value
  | object fields => object (modifyField key f fields)
  | v => v

/-- `Map::retain` on the map of an object: the fields with such names stay. -/
def retain (p : String → Bool) : Value → Value
  | object fields => object (fields.filter fun field => p field.1)
  | v => v

/-- `Value::pointer` along tokens that are names, not array indices. -/
def pointer (v : Value) : List String → Option Value
  | [] => some v
  | token :: rest => (v.get token).bind fun field => pointer field rest

/-- `value[key] = field`, which starts an object on `null`. On any other value the source panics;
every value that the modelled code assigns into is an object. -/
def setField : Value → String → Value → Value
  | object fields, key, field => object (insertField key field fields)
  | null, key, field => object [(key, field)]
  | v, _, _ => v

/-- A string is read as itself, and nothing else is. -/
theorem bind_asStr_eq_some {v : Option Value} {s : String} :
    v.bind asStr = some s ↔ v = some (.string s) := by
  rcases v with _ | v
  · simp
  · cases v <;> simp [asStr]

/-- An object is read as its map, and nothing else is. -/
theorem bind_asObject_eq_some {v : Option Value} {fields : List (String × Value)} :
    v.bind asObject = some fields ↔ v = some (.object fields) := by
  rcases v with _ | v
  · simp
  · cases v <;> simp [asObject]

/-- The field just inserted is the one found. -/
theorem lookupField_insertField_self (key : String) (value : Value)
    (fields : List (String × Value)) :
    lookupField key (insertField key value fields) = some value := by
  induction fields with
  | nil => simp [insertField, lookupField]
  | cons field rest ih =>
    simp only [insertField]
    split_ifs with h1 h2
    · simp [lookupField]
    · simp [lookupField]
    · simpa [lookupField, h1] using ih

/-- Inserting a field leaves the others as they were. -/
theorem lookupField_insertField_ne {key other : String} (h : key ≠ other) (value : Value)
    (fields : List (String × Value)) :
    lookupField other (insertField key value fields) = lookupField other fields := by
  induction fields with
  | nil => simp [insertField, lookupField, h]
  | cons field rest ih =>
    obtain ⟨k, v⟩ := field
    simp only [insertField]
    split_ifs with h1 h2
    · subst h1
      simp [lookupField, h]
    · simp [lookupField, h]
    · simp only [lookupField, ih]

/-- A field that is found is one of the fields. -/
theorem mem_of_lookupField {key : String} {value : Value} {fields : List (String × Value)}
    (h : lookupField key fields = some value) : (key, value) ∈ fields := by
  induction fields with
  | nil => cases h
  | cons field rest ih =>
    obtain ⟨k, v⟩ := field
    simp only [lookupField] at h
    split_ifs at h with hk
    · obtain rfl := Option.some.inj h
      rw [hk]
      exact List.mem_cons_self
    · exact List.mem_cons_of_mem _ (ih h)

/-- A field is found among those whose names are kept if its own is. -/
theorem lookupField_filter (p : String → Bool) (key : String) (fields : List (String × Value)) :
    lookupField key (fields.filter fun field => p field.1) =
      if p key then lookupField key fields else none := by
  induction fields with
  | nil => simp [lookupField]
  | cons field rest ih =>
    obtain ⟨k, v⟩ := field
    by_cases hk : k = key
    · subst hk
      cases hp : p k with
      | true => simp [lookupField, hp]
      | false => simpa [hp] using ih
    · cases hp : p k with
      | true => simpa [lookupField, hp, hk] using ih
      | false => simpa [lookupField, hp, hk] using ih

/-- A changed field is found with its new value, and the others as they were. -/
theorem lookupField_modifyField (key other : String) (f : Value → Value)
    (fields : List (String × Value)) :
    lookupField other (modifyField key f fields) =
      if other = key then (lookupField other fields).map f else lookupField other fields := by
  induction fields with
  | nil => simp [lookupField, modifyField]
  | cons field rest ih =>
    obtain ⟨k, v⟩ := field
    by_cases hk : k = key
    · subst hk
      by_cases ho : other = k
      · simp [modifyField, lookupField, ho]
      · simp [modifyField, lookupField, ho, Ne.symm ho]
    · by_cases ho : k = other
      · subst ho
        simp [modifyField, lookupField, hk]
      · simp only [modifyField, lookupField, hk, ho, if_false, ih]

/-- The changed field of a value has its new value, and the others are as they were. -/
theorem get_modify (key other : String) (f : Value → Value) (v : Value) :
    (v.modify key f).get other = if other = key then (v.get other).map f else v.get other := by
  cases v with
  | object fields => exact lookupField_modifyField key other f fields
  | _ => simp [modify, get]

/-- A field is found among those that stay if its own name stays. -/
theorem get_retain (p : String → Bool) (key : String) (v : Value) :
    (v.retain p).get key = if p key then v.get key else none := by
  cases v with
  | object fields => exact lookupField_filter p key fields
  | _ => simp [retain, get]

/-- A change that does nothing to the field it is made to does nothing. -/
theorem modifyField_eq_self {key : String} {f : Value → Value} {fields : List (String × Value)}
    (h : ∀ value, lookupField key fields = some value → f value = value) :
    modifyField key f fields = fields := by
  induction fields with
  | nil => rfl
  | cons field rest ih =>
    obtain ⟨k, v⟩ := field
    simp only [modifyField]
    split_ifs with hk
    · rw [h v (by simp [lookupField, hk])]
    · rw [ih fun value hvalue => h value (by simpa [lookupField, hk] using hvalue)]

/-- The field just assigned is the one read from an object. -/
@[simp] theorem get_setField_self (key : String) (value : Value) (fields : List (String × Value)) :
    ((object fields).setField key value).get key = some value :=
  lookupField_insertField_self key value fields

/-- Assigning a field leaves the others as they were. -/
theorem get_setField_ne {key other : String} (h : key ≠ other) (value : Value)
    (fields : List (String × Value)) :
    ((object fields).setField key value).get other = (object fields).get other :=
  lookupField_insertField_ne h value fields

end Value

end DaemonFramework
