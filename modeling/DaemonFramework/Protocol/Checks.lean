import DaemonFramework.Protocol.Evaluation
import Mathlib.Algebra.Order.Group.Abs
import Mathlib.Data.Rat.Cast.Order
import Mathlib.Tactic.NormNum

/-!
# The checks of one schema

`Decides` says of a check that it comes to a message, given enough calls, and which values it lets
through. There is one rule for each way to put checks together, and one lemma for each keyword.
-/

namespace DaemonFramework.Protocol

open Json

/-! ## What is let through -/

section Accepted

variable {fields : List (String × Json)} {key : String} {value : Json}

/-- Each keyword of a schema that is let through is let through. -/
theorem checkKeyword_of_mem (h : checkKeywords fields = .ok ()) (hmem : (key, value) ∈ fields) :
    checkKeyword (key, value) = .ok () := by
  induction fields with
  | nil => cases hmem
  | cons field rest ih =>
    simp only [checkKeywords] at h
    cases hfield : checkKeyword field with
    | error e =>
      rw [hfield] at h
      cases h
    | ok _ =>
      rw [hfield] at h
      rcases List.mem_cons.1 hmem with rfl | hmem
      · exact hfield
      · exact ih h hmem

/-- So is each schema of a map. -/
theorem checkSchema_of_mem_values (h : checkValues fields = .ok ()) (hmem : (key, value) ∈ fields) :
    checkSchema value = .ok () := by
  induction fields with
  | nil => cases hmem
  | cons field rest ih =>
    simp only [checkValues] at h
    cases hfield : checkValue field with
    | error e =>
      rw [hfield] at h
      cases h
    | ok _ =>
      rw [hfield] at h
      rcases List.mem_cons.1 hmem with rfl | hmem
      · simpa only [checkValue] using hfield
      · exact ih h hmem

/-- So is each schema of a list. -/
theorem checkSchema_of_mem_items {items : List Json} (h : checkItems items = .ok ())
    (hmem : value ∈ items) : checkSchema value = .ok () := by
  induction items with
  | nil => cases hmem
  | cons item rest ih =>
    simp only [checkItems] at h
    cases hitem : checkSchema item with
    | error e =>
      rw [hitem] at h
      cases h
    | ok _ =>
      rw [hitem] at h
      rcases List.mem_cons.1 hmem with rfl | hmem
      · exact hitem
      · exact ih h hmem

/-- The schemas that a keyword holds are checked with it. -/
theorem checkSchema_of_heldBy (h : checkKeyword (key, value) = .ok ()) {schema : Json}
    (hheld : schema ∈ heldBy key value) : checkSchema schema = .ok () := by
  unfold checkKeyword at h
  unfold heldBy at hheld
  split_ifs at h hheld with hmap hlist hone
  · cases value with
    | object fields =>
      obtain ⟨⟨name, held⟩, hmem, rfl⟩ := List.mem_map.1 hheld
      have hvalues : checkValues fields = .ok () := by simpa only [checkMap] using h
      exact checkSchema_of_mem_values hvalues hmem
    | _ => cases hheld
  · cases value with
    | array items =>
      have hitems : checkItems items = .ok () := by simpa only [checkAlternatives] using h
      exact checkSchema_of_mem_items hitems hheld
    | _ => cases hheld
  · obtain rfl := List.mem_singleton.1 hheld
    exact h
  all_goals cases hheld

/-- A keyword that is let through has a meaning. -/
theorem mem_vocabulary (h : checkKeyword (key, value) = .ok ()) : key ∈ vocabulary := by
  have hknown : ∀ keys : List String, keys ⊆ vocabulary → key ∈ keys → key ∈ vocabulary :=
    fun keys hkeys hkey => hkeys hkey
  unfold checkKeyword at h
  split_ifs at h with hmap hlist hone href hother
  · exact hknown _ (by decide +kernel) hmap
  · exact hknown _ (by decide +kernel) hlist
  · exact hknown _ (by decide +kernel) hone
  · exact hknown _ (by decide +kernel) hother

/-- A reference that is let through is local. -/
theorem local_of_checkKeyword {reference : String}
    (h : checkKeyword ("$ref", .string reference) = .ok ()) : "#/".toList <+: reference.toList := by
  unfold checkKeyword at h
  by_contra hremote
  have hrefused : ¬ ((Json.string reference).asString.any fun r => "#/".toList <+: r.toList) := by
    simpa only [asString, Option.any_some, decide_eq_true_eq] using hremote
  rw [if_neg (by decide), if_neg (by decide), if_neg (by decide), if_pos ⟨rfl, hrefused⟩] at h
  cases h

end Accepted

/-- What becomes of a keyword is up to what its value is taken for. -/
theorem checkKeyword_congr {v w : Json} (key : String) (hmap : checkMap v = checkMap w)
    (halternatives : checkAlternatives v = checkAlternatives w)
    (hschema : checkSchema v = checkSchema w) (hstring : v.asString = w.asString) :
    checkKeyword (key, v) = checkKeyword (key, w) := by
  rw [checkKeyword, checkKeyword, hmap, halternatives, hschema, hstring]

mutual

/-- `check_schema` reads no number, so it lets a document through as it is written where it lets it
through as it is held. -/
theorem checkSchema_held : ∀ v : Json, checkSchema (held v) = checkSchema v
  | .null | .bool _ | .number _ | .string _ | .array _ => rfl
  | .object fields => checkKeywords_held fields

/-- So does the loop over the keywords. -/
theorem checkKeywords_held : ∀ fields : List (String × Json),
    checkKeywords (mapFields (fun x => .number x.nearest) fields) = checkKeywords fields
  | [] => rfl
  | (key, value) :: rest => by
    rw [mapFields, checkKeywords, checkKeywords, checkKeywords_held rest]
    exact congrArg (· >>= fun _ => checkKeywords rest) (checkKeyword_held key value)

/-- So does each keyword. -/
theorem checkKeyword_held (key : String) : ∀ value : Json,
    checkKeyword (key, held value) = checkKeyword (key, value)
  | .null | .bool _ | .number _ | .string _ => rfl
  | .array items => checkKeyword_congr key rfl (checkItems_held items) rfl rfl
  | .object fields =>
    checkKeyword_congr key (checkValues_held fields) rfl (checkKeywords_held fields) rfl

/-- So does the loop over a map. -/
theorem checkValues_held : ∀ fields : List (String × Json),
    checkValues (mapFields (fun x => .number x.nearest) fields) = checkValues fields
  | [] => rfl
  | (_, value) :: rest => by
    rw [mapFields, checkValues, checkValues, checkValues_held rest, checkValue, checkValue]
    exact congrArg (· >>= fun _ => checkValues rest) (checkSchema_held value)

/-- So does the loop over a list. -/
theorem checkItems_held : ∀ items : List Json,
    checkItems (mapItems (fun x => .number x.nearest) items) = checkItems items
  | [] => rfl
  | item :: rest => by
    rw [mapItems, checkItems, checkItems, checkItems_held rest]
    exact congrArg (· >>= fun _ => checkItems rest) (checkSchema_held item)

end

namespace WellFormed

variable {root : Json} {p : Place} (h : WellFormed root)

include h

/-- All schemas of the document were let through. -/
theorem checked (hp : Within root p) : checkSchema p.schema = .ok () := by
  induction hp with
  | root => exact h.accepted
  | @sub p schema _ hschema ih =>
    obtain ⟨⟨key, value⟩, hmem, hheld⟩ := List.mem_flatMap.1 hschema
    cases hs : p.schema with
    | object fields =>
      rw [hs] at ih hmem
      have hfields : checkKeywords fields = .ok () := by simpa only [checkSchema] using ih
      exact checkSchema_of_heldBy (checkKeyword_of_mem hfields hmem) hheld
    | _ =>
      rw [hs] at hmem
      cases hmem

end WellFormed

/-! ## Checks -/

/-- With enough calls there is a message, and it is empty if and only if `P` holds. -/
def Decides (message : ℕ → Option String) (P : Prop) : Prop :=
  ∃ m N, (∀ n, N ≤ n → message n = some m) ∧ (m = "" ↔ P)

namespace Decides

variable {a b : ℕ → Option String} {P Q : Prop}

/-- The same condition, said in another way. -/
theorem of_iff (h : Decides a P) (hPQ : P ↔ Q) : Decides a Q := by
  obtain ⟨m, N, hm, hP⟩ := h
  exact ⟨m, N, hm, hP.trans hPQ⟩

/-- What a check does with too few calls does not matter. -/
theorem congr (h : Decides a P) {N : ℕ} (hab : ∀ n, N ≤ n → b n = a n) : Decides b P := by
  obtain ⟨m, M, hm, hP⟩ := h
  refine ⟨m, max M N, fun n hn => ?_, hP⟩
  rw [hab n (le_of_max_le_right hn), hm n (le_of_max_le_left hn)]

/-- A check with nothing to do. -/
theorem pass : Decides (fun _ => some "") True := ⟨"", 0, fun _ _ => rfl, by simp⟩

/-- A check of one condition. -/
theorem fail {bad : Prop} [Decidable bad] {message : String} (hmessage : message ≠ "") :
    Decides (fun _ => fail bad message) (¬bad) := by
  refine ⟨if bad then message else "", 0, fun _ _ => rfl, ?_⟩
  split_ifs with hbad
  · simp [hmessage, hbad]
  · simp [hbad]

/-- A check of the value of a keyword. -/
theorem keyword {α : Type} {value : Option α} {bad : α → Bool} {Good : α → Prop} {message : String}
    (hmessage : message ≠ "") (h : ∀ a ∈ value, (bad a ↔ ¬Good a)) :
    Decides (fun _ => Protocol.fail (value.any bad) message) (∀ a ∈ value, Good a) := by
  refine (fail hmessage).of_iff ?_
  cases value with
  | none => simp
  | some a => simp [h a rfl]

/-- One check after another. -/
theorem proceed (ha : Decides a P) (hb : Decides b Q) :
    Decides (fun n => proceed (a n) (b n)) (P ∧ Q) := by
  obtain ⟨m, M, hm, hP⟩ := ha
  obtain ⟨k, N, hk, hQ⟩ := hb
  have hboth : ∀ n, max M N ≤ n →
      Protocol.proceed (a n) (b n) = some (if m ≠ "" then m else k) := by
    intro n hn
    rw [hm n (le_of_max_le_left hn), hk n (le_of_max_le_right hn)]
    unfold Protocol.proceed
    split_ifs <;> simp_all
  refine ⟨_, _, hboth, ?_⟩
  rw [← hP, ← hQ]
  split_ifs with hempty
  · simp [hempty]
  · simp [not_not.1 hempty]

/-- The same check, with the message turned round. -/
theorem negate {message : String} (h : Decides a P) (hmessage : message ≠ "") :
    Decides (fun n => (a n).bind fun m => Protocol.fail (m = "") message) (¬P) := by
  obtain ⟨m, N, hm, hP⟩ := h
  refine ⟨if m = "" then message else "", N, fun n hn => ?_, ?_⟩
  · dsimp only
    rw [hm n hn]
    rfl
  · rw [← hP]
    split_ifs with hempty
    · simp [hmessage, hempty]
    · simp [hempty]

/-- A check of all the elements of a list comes to a message for each of them. -/
theorem mapM {α : Type} {check : ℕ → α → Option String} {P : α → Prop} (xs : List α)
    (h : ∀ x ∈ xs, Decides (fun n => check n x) (P x)) :
    ∃ ms N, (∀ n, N ≤ n → xs.mapM (check n) = some ms) ∧
      List.Forall₂ (fun m x => m = "" ↔ P x) ms xs := by
  induction xs with
  | nil => exact ⟨[], 0, fun _ _ => rfl, .nil⟩
  | cons x xs ih =>
    obtain ⟨m, M, hm, hP⟩ := h x List.mem_cons_self
    obtain ⟨ms, N, hms, hPs⟩ := ih fun y hy => h y (List.mem_cons_of_mem _ hy)
    refine ⟨m :: ms, max M N, fun n hn => ?_, .cons hP hPs⟩
    have hx : check n x = some m := hm n (le_of_max_le_left hn)
    rw [List.mapM_cons, hx, hms n (le_of_max_le_right hn)]
    rfl

end Decides

/-! ## Groups -/

/-- What a group asks for, where `P` holds of the parts that accept the value. -/
def Group.Holds (P : Json → Prop) : Group → List Json → Prop
  | allOf, parts => ∀ part ∈ parts, P part
  | anyOf, parts => ∃ part ∈ parts, P part
  | oneOf, parts => ∃ before part after, parts = before ++ part :: after ∧ P part ∧
      ∀ other ∈ before ++ after, ¬P other

section Counting

variable {α : Type} {P : α → Prop}

open Classical in
/-- The empty messages are as many as the elements that pass. -/
theorem count_eq_countP {ms : List String} {xs : List α}
    (h : List.Forall₂ (fun m x => m = "" ↔ P x) ms xs) : ms.count "" = xs.countP (P ·) := by
  induction h with
  | nil => rfl
  | @cons m x ms xs hm _ ih =>
    rw [List.count_cons, List.countP_cons, ih]
    by_cases hP : P x
    · simp [hm.2 hP, hP]
    · simp [hP, mt hm.1 hP]

open Classical in
/-- One element passes, and the others do not. -/
theorem countP_eq_one_iff {xs : List α} :
    xs.countP (P ·) = 1 ↔ ∃ before x after, xs = before ++ x :: after ∧ P x ∧
      ∀ y ∈ before ++ after, ¬P y := by
  constructor
  · intro h
    induction xs with
    | nil => cases h
    | cons x xs ih =>
      rw [List.countP_cons] at h
      -- The first element is the one, or one behind it is.
      by_cases hP : P x
      · have hzero : xs.countP (P ·) = 0 := by
          rw [if_pos (by simpa using hP)] at h
          omega
        refine ⟨[], x, xs, rfl, hP, fun y hy => ?_⟩
        simpa using List.countP_eq_zero.1 hzero y hy
      · rw [if_neg (by simpa using hP)] at h
        obtain ⟨before, y, after, rfl, hy, hothers⟩ := ih h
        refine ⟨x :: before, y, after, rfl, hy, fun z hz => ?_⟩
        rcases List.mem_cons.1 hz with rfl | hz
        · exact hP
        · exact hothers z hz
  · rintro ⟨before, x, after, rfl, hx, hothers⟩
    have hbefore : before.countP (P ·) = 0 :=
      List.countP_eq_zero.2 fun y hy => by simpa using hothers y (List.mem_append_left _ hy)
    have hafter : after.countP (P ·) = 0 :=
      List.countP_eq_zero.2 fun y hy => by simpa using hothers y (List.mem_append_right _ hy)
    rw [List.countP_append, List.countP_cons, hbefore, hafter, if_pos (by simpa using hx)]

end Counting

open Classical in
/-- A group refuses a value unless what it asks for holds. -/
theorem Group.refuses_iff (group : Group) (P : Json → Prop) (parts : List Json) :
    ¬group.refuses (parts.countP (P ·)) parts.length ↔ group.Holds P parts := by
  cases group with
  | allOf => simp [refuses, Holds, List.countP_eq_length]
  | anyOf => simp [refuses, Holds, List.countP_eq_zero]
  | oneOf => simp only [refuses, Holds, ← countP_eq_one_iff, ne_eq, decide_not, Bool.not_eq_true,
      Bool.not_eq_false', decide_eq_true_eq]

/-! ## Values -/

/-- The text of a scalar says what it is. -/
theorem written_of_isScalar {c : Json} (hc : c.IsScalar) : written c = c := by
  cases c with
  | number x => exact if_pos hc
  | array _ => cases hc
  | object _ => cases hc
  | _ => rfl

/-- A scalar has the same text as a value with finite numbers if and only if they are equal. -/
theorem sameText_scalar {c v : Json} (hc : c.IsScalar) (hv : v.AllFinite) :
    (sameText v c ↔ Same v c) ∧ (sameText c v ↔ Same v c) := by
  have hwritten : written v = c ↔ v = c := by
    cases hv with
    | array _ => cases c <;> simp_all [written, mapNumbers, IsScalar]
    | object _ => cases c <;> simp_all [written, mapNumbers, IsScalar]
    | number hx => simp [written, mapNumbers, hx]
    | _ => simp [written, mapNumbers]
  have hsame : Same v c ↔ v = c := by
    constructor
    · intro h
      cases h with
      | array _ => cases hc
      | object _ => cases hc
      | _ => rfl
    · rintro rfl
      cases v with
      | array _ => cases hc
      | object _ => cases hc
      | _ => constructor
  simp only [sameText, decide_eq_true_eq]
  rw [hsame, written_of_isScalar hc, hwritten]
  exact ⟨.rfl, eq_comm.trans hwritten⟩

/-- A safe integer is an integer within the bounds. -/
theorem isSafeInteger_iff (x : Double) :
    x.isSafeInteger ↔ ∃ n : ℤ, x = .finite n ∧ |n| ≤ 2 ^ 53 - 1 := by
  have hbound : ∀ n : ℤ, |(n : ℚ)| ≤ 2 ^ 53 - 1 ↔ |n| ≤ 2 ^ 53 - 1 := by
    intro n
    rw [← Int.cast_abs, ← Int.cast_le (R := ℚ)]
    norm_num
  constructor
  · intro h
    cases x with
    | infinite negative => cases h
    | finite q =>
      obtain ⟨hden, hq⟩ := h
      have hint : q = q.num := ((Rat.den_eq_one_iff q).1 hden).symm
      rw [hint] at hq
      exact ⟨q.num, congrArg Double.finite hint, (hbound _).1 (by simpa using hq)⟩
  · rintro ⟨n, rfl, hn⟩
    exact ⟨Rat.den_intCast n, (hbound n).2 hn⟩

/-- The types that are expected are those that the value has. -/
theorem isExpected_iff (v : Json) (name : String) : isExpected v name ↔ HasType v name := by
  unfold isExpected
  by_cases hinteger : name = "integer"
  · subst hinteger
    cases v <;> simp [HasType, asNumber, isSafeInteger_iff]
  · rw [if_neg hinteger, decide_eq_true_iff]
    cases v <;> simp [HasType, typeName, hinteger]

/-- What is a target's own hides what it inherits. -/
theorem member_of_property {target t : Json} {name : String} (hname : name ≠ "__proto__")
    (h : target.property name = some t) : member target name = some t := by
  unfold member
  rw [if_neg hname]
  cases target with
  | object fields => rw [chain, List.findSome?_cons, h]
  | array items => rw [chain, List.findSome?_cons, h]
  | _ => cases h

/-- A path of own properties is followed to its end. -/
theorem referenceTarget_eq {root t : Json} {reference : String}
    (h : pointer root (pointerNames (reference.toList.drop 2)) = some t)
    (hpath : "__proto__" ∉ pointerNames (reference.toList.drop 2)) :
    referenceTarget root reference = some t := by
  unfold referenceTarget
  generalize pointerNames (reference.toList.drop 2) = names at h hpath
  induction names generalizing root with
  | nil => exact h
  | cons name rest ih =>
    obtain ⟨w, hproperty, hrest⟩ := Option.bind_eq_some_iff.1 h
    have htruthy : root.truthy := by
      cases root with
      | array _ => rfl
      | object _ => rfl
      | _ => cases hproperty
    have hown : member root name = some w :=
      member_of_property (fun hname => hpath (hname ▸ List.mem_cons_self)) hproperty
    rw [List.foldl_cons, Option.bind_some, if_pos htruthy, hown]
    exact ih hrest fun hmem => hpath (List.mem_cons_of_mem _ hmem)

/-- An own field is a field. -/
theorem lookup_of_ownField {key : String} {value : Json} {fields : List (String × Json)}
    (h : ownField key fields = some value) : lookup key fields = some value := by
  unfold ownField at h
  split_ifs at h
  exact h

/-- A message behind a path is not empty. -/
theorem append_ne {s t : String} (h : t ≠ "") : s ++ t ≠ "" := by
  intro hempty
  exact h (String.append_eq_empty_iff.1 hempty).2

/-! ## One schema -/

section Keywords

variable {check : ℕ → Json → Json → String → Option String} {V : Place → Json → Prop}
  {assertions : Assertions} {root v : Json} {p : Place} {fields : List (String × Json)} {s : Schema}
  (path : String)

/-- `const` -/
theorem const_decides (hv : v.AllFinite) (hscalar : ∀ c ∈ s.const, c.IsScalar) :
    Decides (fun _ => constError s v path) (∀ c ∈ s.const, Same v c) := by
  refine .keyword (append_ne (by decide)) fun c hc => ?_
  simp [← (sameText_scalar (hscalar c hc) hv).1]

/-- `enum` -/
theorem enum_decides (hv : v.AllFinite)
    (hscalar : ∀ items ∈ s.enum, ∀ item ∈ items, item.IsScalar) :
    Decides (fun _ => enumError s v path) (∀ items ∈ s.enum, ∃ item ∈ items, Same v item) := by
  refine .keyword (append_ne (by decide)) fun items hitems => ?_
  have hsame : ∀ item ∈ items, (sameText item v ↔ Same v item) :=
    fun item hitem => (sameText_scalar (hscalar items hitems item hitem) hv).2
  have hany : (items.any fun item => sameText item v) ↔ ∃ item ∈ items, Same v item := by
    rw [List.any_eq_true]
    exact exists_congr fun item => and_congr_right (hsame item)
  rw [← hany, Bool.not_eq_true', Bool.not_eq_true]

/-- `type` -/
theorem type_decides :
    Decides (fun _ => typeError s v path) (∀ names ∈ s.types, ∃ name ∈ names, HasType v name) := by
  refine .keyword (append_ne (by decide)) fun names _ => ?_
  simp [← isExpected_iff]

/-- The bounds of a finite number. -/
theorem number_decides {x : Double} (hx : x.isFinite) :
    Decides (fun _ => numberError s x path) ((∀ m ∈ s.minimum, m ≤ x) ∧ (∀ m ∈ s.maximum, x ≤ m) ∧
      (∀ m ∈ s.exclusiveMinimum, m < x) ∧ ∀ m ∈ s.exclusiveMaximum, x < m) := by
  have hfinite : Decides (fun _ => Protocol.fail (¬x.isFinite) (path ++ " is not finite")) True :=
    (Decides.fail (append_ne (by decide))).of_iff (by simp [hx])
  refine (hfinite.proceed <| (Decides.keyword (append_ne (by decide)) fun m _ => ?_).proceed <|
    (Decides.keyword (append_ne (by decide)) fun m _ => ?_).proceed <|
    (Decides.keyword (append_ne (by decide)) fun m _ => ?_).proceed <|
    Decides.keyword (append_ne (by decide)) fun m _ => ?_).of_iff (by rw [true_and])
  all_goals simp

/-- The length of a string, and its pattern. -/
theorem string_decides (hempty : ∀ text, assertions.pattern "" text) (text : String) :
    Decides (fun _ => stringError assertions.pattern s text path)
      ((∀ m ∈ s.minLength, m ≤ .finite text.length) ∧ (∀ m ∈ s.maxLength, .finite text.length ≤ m) ∧
        ∀ pattern ∈ s.pattern, assertions.pattern pattern text) := by
  refine (Decides.keyword (append_ne (by decide)) fun m _ => by simp).proceed <|
    (Decides.keyword (append_ne (by decide)) fun m _ => by simp).proceed <|
    Decides.keyword (append_ne (by decide)) fun pattern _ => ?_
  by_cases hpattern : pattern = ""
  · simp [hpattern, hempty]
  · simp [hpattern]

/-- The items of an array. -/
theorem items_decides {schema : Json} {P : Json → Prop} (items : List Json) (i : ℕ)
    (h : ∀ item ∈ items, ∀ path, Decides (fun n => check n schema item path) (P item)) :
    Decides (fun n => itemErrors (check n) schema path i items) (∀ item ∈ items, P item) := by
  induction items generalizing i with
  | nil => exact Decides.pass.of_iff (by simp)
  | cons item rest ih =>
    have hfirst := h item List.mem_cons_self (path ++ "[" ++ toString i ++ "]")
    have hrest := ih (i + 1) fun other hother => h other (List.mem_cons_of_mem _ hother)
    exact (hfirst.proceed hrest).of_iff (by simp)

/-- The required names. -/
theorem required_decides (fields : List (String × Json)) (names : List String) :
    Decides (fun _ => requiredErrors fields path names)
      (∀ name ∈ names, ∃ item, (name, item) ∈ fields) := by
  induction names with
  | nil => exact Decides.pass.of_iff (by simp)
  | cons name rest ih =>
    have hlookup : (lookup name fields).isSome ↔ ∃ item, (name, item) ∈ fields := by
      constructor
      · intro h
        obtain ⟨item, hitem⟩ := Option.isSome_iff_exists.1 h
        exact ⟨item, mem_of_lookup hitem⟩
      · rintro ⟨item, hmem⟩
        exact isSome_lookup_of_mem hmem
    have hfirst : Decides (fun _ => Protocol.fail (lookup name fields).isNone
        (path ++ "." ++ name ++ " is required")) (∃ item, (name, item) ∈ fields) :=
      (Decides.fail (append_ne (by decide))).of_iff (by simp [← hlookup, Option.isSome_iff_ne_none])
    exact (hfirst.proceed ih).of_iff (by simp)

/-- The fields of an object, each by its rule. -/
theorem fields_decides (fields : List (String × Json))
    (h : ∀ name item, (name, item) ∈ fields →
      ∀ rule ∈ s.rule name, ∀ path,
        Decides (fun n => check n rule item path) (V (p.enter rule) item)) :
    Decides (fun n => fieldErrors (check n) s path fields) (∀ name item, (name, item) ∈ fields →
      ∀ rule ∈ s.rule name, V (p.enter rule) item) := by
  induction fields with
  | nil => exact Decides.pass.of_iff (by simp)
  | cons field rest ih =>
    obtain ⟨name, item⟩ := field
    have hrest := ih fun other item hmem => h other item (List.mem_cons_of_mem _ hmem)
    have hfirst := h name item List.mem_cons_self
    unfold fieldErrors
    cases hrule : s.rule name with
    | none =>
      refine hrest.of_iff ?_
      simp [or_imp, forall_and, hrule]
    | some rule =>
      refine ((hfirst rule hrule _).proceed hrest).of_iff ?_
      simp [or_imp, forall_and, hrule]

/-- `$ref` -/
theorem reference_decides
    (hlocal : ∀ reference ∈ s.ref, "#/".toList <+: reference.toList)
    (htarget : ∀ reference ∈ s.ref, ∃ t, p.target reference = some t ∧
      referenceTarget root reference = some t ∧
        Decides (fun n => check n t v path) (V (p.enter t) v)) :
    Decides (fun n => referenceError (check n) s v root path)
      (∀ reference ∈ s.ref, ∃ t, p.target reference = some t ∧ V (p.enter t) v) := by
  unfold referenceError
  cases href : s.ref with
  | none => exact Decides.pass.of_iff (by simp)
  | some reference =>
    have hprefix := hlocal reference href
    have hnonempty : reference ≠ "" := by
      rintro rfl
      exact absurd hprefix (by decide)
    obtain ⟨t, ht, hroot, hdecides⟩ := htarget reference href
    simp only [if_neg hnonempty, if_neg (not_not.2 hprefix), hroot]
    exact hdecides.of_iff (by simp [ht])

/-- `allOf`, `anyOf` and `oneOf` -/
theorem group_decides (group : Group)
    (h : ∀ parts ∈ s.parts group, ∀ part ∈ parts,
      Decides (fun n => check n part v path) (V (p.enter part) v)) :
    Decides (fun n => groupError (check n) group s v path)
      (∀ parts ∈ s.parts group, group.Holds (fun part => V (p.enter part) v) parts) := by
  unfold groupError
  cases hparts : s.parts group with
  | none => exact Decides.pass.of_iff (by simp)
  | some parts =>
    obtain ⟨ms, N, hms, hpass⟩ := Decides.mapM parts (h parts hparts)
    have hname : path ++ " does not match " ++ group.name ≠ "" :=
      append_ne (by cases group <;> decide)
    have hrefuses := group.refuses_iff (fun part => V (p.enter part) v) parts
    rw [← count_eq_countP hpass] at hrefuses
    refine ((Decides.fail hname).congr (N := N) fun n hn => ?_).of_iff (hrefuses.trans (by simp))
    simp only [hms n hn, Option.bind_some]

/-- `not` -/
theorem not_decides (hbool : ∀ schema ∈ s.not, schema.truthy = false → ¬V (p.enter schema) v)
    (h : ∀ schema ∈ s.not, Decides (fun n => check n schema v path) (V (p.enter schema) v)) :
    Decides (fun n => notError (check n) s v path) (∀ schema ∈ s.not, ¬V (p.enter schema) v) := by
  unfold notError
  cases hnot : s.not with
  | none => exact Decides.pass.of_iff (by simp)
  | some schema =>
    by_cases htruthy : schema.truthy
    · simp only [if_pos htruthy]
      exact ((h schema hnot).negate (append_ne (by decide))).of_iff (by simp)
    · have hrefused := hbool schema hnot (by simpa using htruthy)
      simp only [if_neg htruthy]
      exact Decides.pass.of_iff (by simp [hrefused])

/-- The length of an array, and its items. -/
theorem array_decides (items : List Json)
    (htrue : ∀ item path, Decides (fun n => check n (.bool true) item path) True)
    (h : ∀ schema ∈ s.items, ∀ item ∈ items, ∀ path,
      Decides (fun n => check n schema item path) (V (p.enter schema) item)) :
    Decides (fun n => arrayError (check n) s items path)
      ((∀ m ∈ s.minItems, m ≤ .finite items.length) ∧
        (∀ m ∈ s.maxItems, .finite items.length ≤ m) ∧
        ∀ schema ∈ s.items, ∀ item ∈ items, V (p.enter schema) item) := by
  refine (Decides.keyword (append_ne (by decide)) fun m _ => by simp).proceed <|
    (Decides.keyword (append_ne (by decide)) fun m _ => by simp).proceed ?_
  cases hitems : s.items with
  | none => exact (items_decides path items 0 fun item _ => htrue item).of_iff (by simp)
  | some schema => exact (items_decides path items 0 (h schema hitems)).of_iff (by simp)

/-- What `properties` and `additionalProperties` ask for together. -/
theorem rule_iff (hnames : ∀ rules ∈ s.properties, lookup "__proto__" rules = none)
    (fields : List (String × Json)) :
    (∀ name item, (name, item) ∈ fields → ∀ rule ∈ s.rule name, V (p.enter rule) item) ↔
      (∀ rules ∈ s.properties, ∀ name item, (name, item) ∈ fields →
        ∀ schema ∈ lookup name rules, V (p.enter schema) item) ∧
      ∀ schema ∈ s.additionalProperties, ∀ name item, (name, item) ∈ fields →
        (∀ rules ∈ s.properties, lookup name rules = none) → V (p.enter schema) item := by
  -- Without `properties` no name has a rule of its own.
  have hfree : ∀ name, (∀ rules ∈ s.properties, lookup name rules = none) ↔
      lookup name (s.properties.getD []) = none := by
    intro name
    cases s.properties <;> simp [lookup]
  have hruled : ∀ name schema, (∃ rules ∈ s.properties, lookup name rules = some schema) ↔
      lookup name (s.properties.getD []) = some schema := by
    intro name schema
    cases s.properties <;> simp [lookup]
  -- The one name that an object literal cannot carry is not there.
  have hown : ∀ name,
      ownField name (s.properties.getD []) = lookup name (s.properties.getD []) := by
    intro name
    unfold ownField
    split_ifs with hname
    · rw [hname, (hfree _).1 hnames]
    · rfl
  constructor
  · intro h
    constructor
    · intro rules hrules name item hmem schema hschema
      have hrule := (hruled name schema).1 ⟨rules, hrules, hschema⟩
      exact h name item hmem schema (by simp [Schema.rule, hown, hrule])
    · intro schema hschema name item hmem hnone
      have hrule := (hfree name).1 hnone
      exact h name item hmem schema (by simpa [Schema.rule, hown, hrule] using hschema)
  · rintro ⟨hproperties, hadditional⟩ name item hmem rule hrule
    -- The rule of a name is its own, or the one for all other names.
    cases hlookup : lookup name (s.properties.getD []) with
    | none =>
      have hschema : s.additionalProperties = some rule := by
        simpa [Schema.rule, hown, hlookup] using hrule
      exact hadditional rule hschema name item hmem ((hfree name).2 hlookup)
    | some schema =>
      obtain rfl : schema = rule := by simpa [Schema.rule, hown, hlookup] using hrule
      obtain ⟨rules, hrules, hlookup⟩ := (hruled name schema).2 hlookup
      exact hproperties rules hrules name item hmem schema hlookup

/-- The required names of an object, and its fields. -/
theorem object_decides (hnames : ∀ rules ∈ s.properties, lookup "__proto__" rules = none)
    (fields : List (String × Json))
    (h : ∀ name item, (name, item) ∈ fields → ∀ rule ∈ s.rule name, ∀ path,
      Decides (fun n => check n rule item path) (V (p.enter rule) item)) :
    Decides (fun n => objectError (check n) s fields path)
      ((∀ names ∈ s.required, ∀ name ∈ names, ∃ item, (name, item) ∈ fields) ∧
        (∀ rules ∈ s.properties, ∀ name item, (name, item) ∈ fields →
          ∀ schema ∈ lookup name rules, V (p.enter schema) item) ∧
        ∀ schema ∈ s.additionalProperties, ∀ name item, (name, item) ∈ fields →
          (∀ rules ∈ s.properties, lookup name rules = none) → V (p.enter schema) item) := by
  have hrequired : Decides (fun _ => requiredErrors fields path (s.required.getD []))
      (∀ names ∈ s.required, ∀ name ∈ names, ∃ item, (name, item) ∈ fields) := by
    refine (required_decides path fields _).of_iff ?_
    cases s.required <;> simp
  exact hrequired.proceed ((fields_decides path fields h).of_iff (rule_iff hnames fields))

end Keywords

end DaemonFramework.Protocol
