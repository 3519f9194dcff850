import DaemonFramework.Binary64
import Mathlib.Data.List.Basic

/-!
# JSON values in JavaScript

`Json` is a JSON value. Its numbers are those of its text, or those that JavaScript holds when it
has read the text (`Json.held`): each is the double nearest to it, which is infinite far enough out.
What a double holds stays as it is (`Json.held_eq_self`).
-/

namespace DaemonFramework.Protocol

/-! ## Numbers -/

/-- A number in JavaScript, by its value: the two zeros are one. No JSON value is read as NaN. -/
inductive Double where
  | finite (q : ℚ)
  | infinite (negative : Bool)
deriving DecidableEq

namespace Double

/-- `Number.isFinite`. -/
def isFinite : Double → Prop
  | finite _ => True
  | infinite _ => False

/-- `x < y`. -/
def less : Double → Double → Bool
  | finite p, finite q => p < q
  | finite _, infinite negative => !negative
  | infinite negative, finite _ => negative
  | infinite m, infinite n => m && !n

instance : LT Double := ⟨fun x y => x.less y⟩

instance : LE Double := ⟨fun x y => ¬y < x⟩

instance (x : Double) : Decidable x.isFinite := by
  cases x <;> unfold isFinite <;> infer_instance

instance (x y : Double) : Decidable (x < y) := inferInstanceAs (Decidable (x.less y = true))

instance (x y : Double) : Decidable (x ≤ y) := inferInstanceAs (Decidable (¬y < x))

/-- `y <= x` is the negation of `x < y`, as no number is NaN. -/
@[simp] theorem not_lt_iff {x y : Double} : ¬x < y ↔ y ≤ x := .rfl

/-- So `y < x` is the negation of `x <= y`. -/
@[simp] theorem not_le_iff {x y : Double} : ¬x ≤ y ↔ y < x := Decidable.not_not

/-- `Number.isSafeInteger`. -/
def isSafeInteger : Double → Prop
  | finite q => q.den = 1 ∧ |q| ≤ 2 ^ 53 - 1
  | infinite _ => False

instance (x : Double) : Decidable x.isSafeInteger := by
  cases x <;> unfold isSafeInteger <;> infer_instance

/-- The double nearest to a number. -/
def nearest : Double → Double
  | finite q =>
    let x := Binary64.nearest (q < 0) |q|
    if x.isFinite then finite x.toRat else infinite (q < 0)
  | infinite negative => infinite negative

/-- A number that a double holds is nearest to itself. -/
theorem nearest_toRat {x : Decimal.F64} (h : x.isFinite) :
    nearest (finite x.toRat) = finite x.toRat := by
  have habs : |x.toRat| = x.abs := by
    unfold Decimal.F64.toRat
    split_ifs
    · rw [abs_neg, abs_of_nonneg x.abs_nonneg]
    · exact abs_of_nonneg x.abs_nonneg
  -- The double found has the same magnitude, so it is finite and has the same absolute value.
  have hmagnitude : (Binary64.nearest (x.toRat < 0) |x.toRat|).magnitude = x.magnitude :=
    (congrArg Binary64.nearestMagnitude habs).trans (Binary64.nearestMagnitude_abs h)
  generalize hy : Binary64.nearest (x.toRat < 0) |x.toRat| = y at hmagnitude
  have hfinite : y.isFinite = true := by
    unfold Decimal.F64.isFinite Decimal.F64.exponent at h ⊢
    rwa [hmagnitude]
  have hsame : y.abs = x.abs := by
    unfold Decimal.F64.abs Decimal.F64.ulp Decimal.F64.mantissa Decimal.F64.binaryExponent
      Decimal.F64.exponent
    rw [hmagnitude]
  -- Its sign is that of the number.
  have hvalue : y.toRat = x.toRat := by
    have hnegative : y.negative = decide (x.toRat < 0) := hy ▸ rfl
    have htoRat : y.toRat = if y.negative then -y.abs else y.abs := rfl
    rw [htoRat, hsame, ← habs, hnegative]
    split_ifs with hneg
    · rw [abs_of_neg (of_decide_eq_true hneg), neg_neg]
    · exact abs_of_nonneg (not_lt.1 fun hlt => hneg (decide_eq_true hlt))
  unfold nearest
  dsimp only
  rw [hy, if_pos hfinite, hvalue]

end Double

/-! ## Values -/

/-- A JSON value. The fields of an object are in the order of `Object.keys`. -/
inductive Json where
  | null
  | bool (b : Bool)
  | number (x : Double)
  | string (s : String)
  | array (items : List Json)
  | object (fields : List (String × Json))

namespace Json

/-- The value of the first field named `key`. -/
def lookup (key : String) : List (String × Json) → Option Json
  | [] => none
  | (k, v) :: rest => if k = key then some v else lookup key rest

/-- The field of an object, or the element of an array. -/
def property : Json → String → Option Json
  | object fields, key => lookup key fields
  | array items, key => ((List.range items.length).find? fun i => toString i = key).bind (items[·]?)
  | _, _ => none

/-- Whether JavaScript takes a value for true. -/
def truthy : Json → Bool
  | null => false
  | bool b => b
  | number x => x ≠ .finite 0
  | string s => s ≠ ""
  | _ => true

mutual

/-- Two values are the same. -/
def beq : Json → Json → Bool
  | null, null => true
  | bool a, bool b => a = b
  | number a, number b => a = b
  | string a, string b => a = b
  | array a, array b => beqItems a b
  | object a, object b => beqFields a b
  | _, _ => false

/-- The items of two arrays are the same. -/
def beqItems : List Json → List Json → Bool
  | [], [] => true
  | a :: as, b :: bs => beq a b && beqItems as bs
  | _, _ => false

/-- The fields of two objects are the same, in the same order. -/
def beqFields : List (String × Json) → List (String × Json) → Bool
  | [], [] => true
  | (j, a) :: as, (k, b) :: bs => j = k && beq a b && beqFields as bs
  | _, _ => false

end

mutual

/-- Values are equal where they are the same. -/
theorem beq_iff : ∀ a b : Json, beq a b = true ↔ a = b
  | null, b => by cases b <;> simp [beq]
  | bool _, b => by cases b <;> simp [beq]
  | number _, b => by cases b <;> simp [beq]
  | string _, b => by cases b <;> simp [beq]
  | array xs, b => by cases b <;> simp [beq, beqItems_iff xs]
  | object xs, b => by cases b <;> simp [beq, beqFields_iff xs]

/-- So are the items of two arrays. -/
theorem beqItems_iff : ∀ xs ys : List Json, beqItems xs ys = true ↔ xs = ys
  | [], ys => by cases ys <;> simp [beqItems]
  | x :: xs, ys => by cases ys <;> simp [beqItems, beq_iff x, beqItems_iff xs]

/-- So are the fields of two objects. -/
theorem beqFields_iff : ∀ xs ys : List (String × Json), beqFields xs ys = true ↔ xs = ys
  | [], ys => by cases ys <;> simp [beqFields]
  | (j, a) :: xs, ys => by
    cases ys <;> simp [beqFields, beq_iff a, beqFields_iff xs, Prod.ext_iff, and_assoc]

end

instance : DecidableEq Json := fun a b => decidable_of_iff _ (beq_iff a b)

mutual

/-- A value with something in the place of each number. -/
def mapNumbers (f : Double → Json) : Json → Json
  | number x => f x
  | array items => array (mapItems f items)
  | object fields => object (mapFields f fields)
  | v => v

/-- The items of an array. -/
def mapItems (f : Double → Json) : List Json → List Json
  | [] => []
  | item :: rest => mapNumbers f item :: mapItems f rest

/-- The fields of an object. -/
def mapFields (f : Double → Json) : List (String × Json) → List (String × Json)
  | [] => []
  | (key, value) :: rest => (key, mapNumbers f value) :: mapFields f rest

end

/-- A value as JavaScript holds it when it has read its text. -/
def held (v : Json) : Json := v.mapNumbers fun x => number x.nearest

/-- All numbers in a value are such. -/
inductive Numbers (P : Double → Prop) : Json → Prop where
  | null : Numbers P null
  | bool (b : Bool) : Numbers P (bool b)
  | number {x : Double} : P x → Numbers P (number x)
  | string (s : String) : Numbers P (string s)
  | array {items : List Json} : (∀ item ∈ items, Numbers P item) → Numbers P (array items)
  | object {fields : List (String × Json)} :
      (∀ name item, (name, item) ∈ fields → Numbers P item) → Numbers P (object fields)

/-- What holds of all numbers in a value can be weakened. -/
theorem Numbers.mono {P Q : Double → Prop} {v : Json} (h : v.Numbers P) (hPQ : ∀ x, P x → Q x) :
    v.Numbers Q := by
  induction h with
  | null => exact .null
  | bool b => exact .bool b
  | number hx => exact .number (hPQ _ hx)
  | string s => exact .string s
  | array _ ih => exact .array ih
  | object _ ih => exact .object ih

/-- All numbers in a value are finite. -/
def AllFinite (v : Json) : Prop := v.Numbers Double.isFinite

section Unchanged

variable {f : Double → Json}

mutual

/-- Numbers that stay leave the value as it is. -/
theorem mapNumbers_eq_self : ∀ v : Json, v.Numbers (fun x => f x = number x) → v.mapNumbers f = v
  | null, _ | bool _, _ | string _, _ => rfl
  | number _, .number h => h
  | array items, .array h => congrArg array (mapItems_eq_self items h)
  | object fields, .object h => congrArg object (mapFields_eq_self fields h)

/-- So they do with the items of an array. -/
theorem mapItems_eq_self : ∀ items : List Json,
    (∀ item ∈ items, item.Numbers fun x => f x = number x) → mapItems f items = items
  | [], _ => rfl
  | item :: rest, h => by
    rw [mapItems, mapNumbers_eq_self item (h item List.mem_cons_self),
      mapItems_eq_self rest fun other hother => h other (List.mem_cons_of_mem _ hother)]

/-- So they do with the fields of an object. -/
theorem mapFields_eq_self : ∀ fields : List (String × Json),
    (∀ name item, (name, item) ∈ fields → item.Numbers fun x => f x = number x) →
      mapFields f fields = fields
  | [], _ => rfl
  | (name, item) :: rest, h => by
    rw [mapFields, mapNumbers_eq_self item (h name item List.mem_cons_self),
      mapFields_eq_self rest fun other item hother => h other item (List.mem_cons_of_mem _ hother)]

end

end Unchanged

/-- A value whose numbers doubles hold is held as it is. -/
theorem held_eq_self {v : Json}
    (h : v.Numbers fun x => ∃ y : Decimal.F64, y.isFinite ∧ x = .finite y.toRat) : held v = v := by
  refine mapNumbers_eq_self v (h.mono fun x hx => ?_)
  obtain ⟨y, hy, rfl⟩ := hx
  rw [Double.nearest_toRat hy]

/-- What the text of a value says: `JSON.stringify` writes `null` for an infinite number. -/
def written (v : Json) : Json := v.mapNumbers fun x => if x.isFinite then number x else null

/-- `JSON.stringify(a) === JSON.stringify(b)`: the texts of two values are the same only if they say
the same, with fields in the same order. -/
def sameText (a b : Json) : Bool := written a = written b

/-- The value is a string. -/
def asString : Json → Option String
  | string s => some s
  | _ => none

/-- The value is a number. -/
def asNumber : Json → Option Double
  | number x => some x
  | _ => none

/-- The value is an array. -/
def asArray : Json → Option (List Json)
  | array items => some items
  | _ => none

/-- The value is an object. -/
def asObject : Json → Option (List (String × Json))
  | object fields => some fields
  | _ => none

/-- The value is an array of strings. -/
def asStrings : Json → Option (List String)
  | array items => items.mapM asString
  | _ => none

end Json

end DaemonFramework.Protocol
