import DaemonFramework.Protocol.Checks
import DaemonFramework.Protocol.Documents

/-!
# The generated validator decides what a document says

The checks of a schema decide what it says if those of the schemas that it refers to do
(`keywords_decides`); by induction on the references, all checks of a document do.
-/

namespace DaemonFramework.Protocol

open Json

section Document

variable {check : ℕ → Json → Json → String → Option String} {V : Place → Json → Prop}
  {assertions : Assertions} {root v : Json} {p : Place} {fields : List (String × Json)} {s : Schema}

/-- The checks that depend on the type of the value. -/
theorem typed_decides (hempty : ∀ text, assertions.pattern "" text) (hv : v.AllFinite)
    (hfields : p.schema = .object fields) (hs : Schema.read fields = some s)
    (hnames : ∀ rules ∈ s.properties, lookup "__proto__" rules = none)
    (htrue : ∀ w path, Decides (fun n => check n (.bool true) w path) True)
    (hcalls : ∀ q w, Calls p v q w → w.AllFinite →
      ∀ path, Decides (fun n => check n q.schema w path) (V q w))
    (path : String) :
    Decides (fun n => typedError assertions.pattern (check n) s v path)
      (TypedSatisfied assertions V p s v) := by
  -- The schemas of items and fields are asked about smaller values.
  have hinside : ∀ schema ∈ subschemas p.schema, ∀ w, sizeOf w < sizeOf v → w.AllFinite → ∀ path,
      Decides (fun n => check n schema w path) (V (p.enter schema) w) :=
    fun schema hschema w hlt => hcalls _ _ (.inside hschema hlt)
  cases hv with
  | number hx => exact (number_decides path hx).of_iff (by simp [typedSatisfied_iff])
  | string text => exact (string_decides path hempty text).of_iff (by simp [typedSatisfied_iff])
  | @array items hitems =>
    refine (array_decides (V := V) (p := p) path items htrue
      fun schema hschema item hitem => ?_).of_iff
      (by simp [typedSatisfied_iff])
    exact hinside schema (mem_of_items hfields hs hschema) item (sizeOf_lt_of_mem_items hitem)
      (hitems item hitem)
  | @object values hvalues =>
    refine (object_decides (V := V) (p := p) path hnames values
      fun name item hmem rule hrule => ?_).of_iff (by simp [typedSatisfied_iff])
    refine hinside rule ?_ item (sizeOf_lt_of_mem hmem) (hvalues name item hmem)
    rcases Option.or_eq_some_iff.1 hrule with hown | ⟨-, hadditional⟩
    · cases hproperties : s.properties with
      | none => simp [hproperties, ownField, lookup] at hown
      | some rules =>
        rw [hproperties] at hown
        exact mem_of_properties hfields hs hproperties (lookup_of_ownField hown)
    · exact mem_of_additional hfields hs hadditional
  | null => exact Decides.pass.of_iff (by simp [typedSatisfied_iff])
  | bool b => exact Decides.pass.of_iff (by simp [typedSatisfied_iff])

/-- The checks of a schema decide what it says, where those of the schemas that it refers to do. -/
theorem keywords_decides (h : WellFormed root) (hplain : Plain root)
    (hempty : ∀ text, assertions.pattern "" text) (hv : v.AllFinite) (hp : Within root p)
    (hfields : p.schema = .object fields) (hs : Schema.read fields = some s)
    (hbool : ∀ q, Within root q → q.schema = .bool false → ¬V q v)
    (htrue : ∀ w path, Decides (fun n => check n (.bool true) w path) True)
    (hcalls : ∀ q w, Calls p v q w → w.AllFinite →
      ∀ path, Decides (fun n => check n q.schema w path) (V q w))
    (path : String) :
    Decides (fun n => keywordsError assertions.pattern (check n) s v root path)
      (Satisfied assertions V p fields s v) := by
  have hchecked := h.checked hp
  rw [hfields] at hchecked
  have hkeywords : checkKeywords fields = .ok () := by simpa only [checkSchema] using hchecked
  have href : Decides (fun n => referenceError (check n) s v root path)
      (∀ reference ∈ s.ref, ∃ t, p.target reference = some t ∧ V (p.enter t) v) := by
    refine reference_decides path (fun reference hreference => ?_) fun reference hreference => ?_
    · obtain ⟨value, hlookup, hvalue⟩ := lookup_of_keyword ((Schema.reads hs).ref.trans
        (congrArg some hreference))
      obtain ⟨text, rfl, rfl⟩ : ∃ text, value = .string text ∧ text = reference := by
        cases value <;> simp_all [asString]
      exact local_of_checkKeyword (checkKeyword_of_mem hkeywords (mem_of_lookup hlookup))
    · obtain ⟨t, ht, -⟩ := h.resolves p fields s hp hfields hs reference hreference
      have hpointer := hplain.references p fields s hp hfields hs reference hreference
      have hroot := referenceTarget_eq (hpointer ▸ ht)
        (hplain.path p fields s hp hfields hs reference hreference)
      exact ⟨t, ht, hroot, hcalls _ _ (.here (.ref hfields hs hreference ht)) hv path⟩
  have hgroup : ∀ group, Decides (fun n => groupError (check n) group s v path)
      (∀ parts ∈ s.parts group, group.Holds (fun part => V (p.enter part) v) parts) :=
    fun group => group_decides path group fun parts hparts part hpart =>
      hcalls _ _ (.here (.part hfields hs hparts hpart)) hv path
  have hnot : Decides (fun n => notError (check n) s v path)
      (∀ schema ∈ s.not, ¬V (p.enter schema) v) := by
    refine not_decides path (fun schema hschema hfalsy => ?_) fun schema hschema =>
      hcalls _ _ (.here (.not hfields hs hschema)) hv path
    have hwithin := hp.sub (mem_of_not hfields hs hschema)
    refine hbool _ hwithin ?_
    -- Of the schemas that are let through, only `false` is not true to JavaScript.
    have hok := h.checked hwithin
    cases schema <;> simp_all [Place.enter, checkSchema, truthy]
  have htyped := typed_decides hempty hv hfields hs
    (hplain.names p fields s hp hfields hs) htrue hcalls
    path
  refine (href.proceed <| (const_decides path hv (h.const p fields s hp hfields hs)).proceed <|
    (enum_decides path hv (h.enum p fields s hp hfields hs)).proceed <|
    (hgroup .allOf).proceed <| (hgroup .anyOf).proceed <| (hgroup .oneOf).proceed <|
    hnot.proceed <| (type_decides path).proceed htyped).of_iff ?_
  have hforeign : ∀ key value, (key, value) ∈ fields → key ∈ vocabulary :=
    fun key value hmem => mem_vocabulary (checkKeyword_of_mem hkeywords hmem)
  constructor
  · rintro ⟨href, hconst, henum, hall, hany, hone, hnot, htypes, htyped⟩
    exact ⟨htyped, href, hconst, henum, hall, hany, hone, hnot, htypes,
      fun key value hmem hkey => absurd (hforeign key value hmem) hkey⟩
  · intro h
    exact ⟨h.ref, h.const, h.enum, h.allOf, h.anyOf, h.oneOf, h.not, h.types, h.toTypedSatisfied⟩

/-- `false` accepts nothing, and `true` everything. -/
theorem evaluation_bool {b : Bool} (hV : Evaluation assertions root V) (hp : Within root p)
    (hb : p.schema = .bool b) : V p v ↔ b = true := by
  rw [hV p hp v]
  unfold Meets
  rw [hb]

/-- The generated checks decide what a schema of the document accepts. -/
theorem schema_decides (h : WellFormed root) (hplain : Plain root)
    (hempty : ∀ text, assertions.pattern "" text) (hV : Evaluation assertions root V)
    (hp : Within root p) (hv : v.AllFinite) (path : String) :
    Decides (fun n => schemaErrorAt assertions.pattern root n p.schema v path) (V p v) := by
  obtain ⟨size, hsize⟩ := h.exists_size
  -- By induction on the size, since each reference makes it smaller.
  induction hn : size (p, v) using Nat.strong_induction_on generalizing p v path with
  | _ n ih =>
    subst hn
    have hone : ∀ n, 1 ≤ n → ∃ calls, n = calls + 1 := fun n hn => ⟨n - 1, by omega⟩
    cases hschema : p.schema with
    | bool b =>
      have hb := evaluation_bool (v := v) hV hp hschema
      cases b with
      | true =>
        refine (Decides.pass.congr (N := 1) fun n hn => ?_).of_iff (by simp [hb])
        obtain ⟨calls, rfl⟩ := hone n hn
        rfl
      | false =>
        have hforbidden : Decides (fun _ => fail True (path ++ " is forbidden")) (¬True) :=
          .fail (append_ne (by decide))
        refine (hforbidden.congr (N := 1) fun n hn => ?_).of_iff (by simp [hb])
        obtain ⟨calls, rfl⟩ := hone n hn
        simp [schemaErrorAt, fail]
    | object fields =>
      obtain ⟨s, hs⟩ := Option.isSome_iff_exists.1 (h.typed p fields hp hschema)
      have htrue : ∀ w path, Decides
          (fun n => schemaErrorAt assertions.pattern root n (.bool true) w path) True := by
        intro w path
        refine Decides.pass.congr (N := 1) fun n hn => ?_
        obtain ⟨calls, rfl⟩ := hone n hn
        rfl
      have hstep := keywords_decides h hplain hempty hv hp hschema hs
        (fun q hq hfalse => by rw [evaluation_bool hV hq hfalse]; exact Bool.false_ne_true) htrue
        (fun q w hcalls hw path =>
          ih _ (hsize p v q w hp hcalls) (h.within_of_calls hp hcalls) hw path rfl)
        path
      have hmeets : Satisfied assertions V p fields s v ↔ V p v := by
        rw [hV p hp v]
        unfold Meets
        rw [hschema]
        simp [hs]
      obtain ⟨m, N, hm, hP⟩ := hstep.of_iff hmeets
      refine ⟨m, N + 1, fun n hn => ?_, hP⟩
      obtain ⟨calls, rfl⟩ := hone n (by omega)
      have hcheck := hm calls (by omega)
      simpa only [schemaErrorAt, hs, Option.bind_some] using hcheck
    | _ =>
      have hok := h.checked hp
      rw [hschema] at hok
      cases hok

/-- A reference without a percent sign is taken as it is. -/
theorem percentDecode_eq {part : List Char} (h : '%' ∉ part) :
    percentDecode part = some (String.ofList part) := by
  have hbytes : percentBytes part = part.flatMap String.utf8EncodeChar := by
    induction part with
    | nil => rfl
    | cons c rest ih =>
      have hc : c ≠ '%' := fun heq => h (heq ▸ List.mem_cons_self)
      have hrest := ih fun hmem => h (List.mem_cons_of_mem _ hmem)
      rw [percentBytes.eq_2 _ _ fun _ _ _ heq => absurd heq hc, hrest, List.flatMap_cons]
  have hutf8 : (percentBytes part).toByteArray = part.utf8Encode := by rw [hbytes]; rfl
  unfold percentDecode String.fromUTF8?
  rw [hutf8, dif_pos ByteArray.isValidUTF8_utf8Encode, Option.some.injEq,
    ← String.toByteArray_inj, String.toByteArray_ofList]
  rfl

/-- A document is plain where it is one resource, no reference has a percent sign, and nothing has
the name `__proto__`. -/
theorem plain_of (hresource : ∀ p, Within root p → p.resource = root)
    (hpercent : ∀ p fields s, Within root p → p.schema = .object fields →
      Schema.read fields = some s → ∀ reference ∈ s.ref, '%' ∉ reference.toList)
    (hpath : ∀ p fields s, Within root p → p.schema = .object fields → Schema.read fields = some s →
      ∀ reference ∈ s.ref, "__proto__" ∉ pointerNames (reference.toList.drop 2))
    (hnames : ∀ p fields s, Within root p → p.schema = .object fields →
      Schema.read fields = some s → ∀ rules ∈ s.properties,
        lookup "__proto__" rules = none) : Plain root := by
  refine ⟨fun p fields s hp hfields hs reference href => ?_, hpath, hnames⟩
  have hclean : '%' ∉ reference.toList.drop 2 := fun hmem =>
    hpercent p fields s hp hfields hs reference href (List.mem_of_mem_drop hmem)
  unfold Place.target
  rw [percentDecode_eq hclean, Option.bind_some, String.toList_ofList, hresource p hp]

/-- The generated validator decides what a document says, with numbers as JavaScript holds them.
Where `check_schema` lets a document through whose keywords have proper values, whose references
lead to its schemas, also as plain pointers, which leads from no schema back to itself on the same
value, and which looks up nothing under `__proto__`, the document has one evaluation; and
`schemaError` comes to an end on each value whose numbers stay finite, with the empty string if and
only if the evaluation accepts the value. `check_schema` lets a document through as it is held if and
only if it does as it is written (`checkSchema_held`). Where doubles hold all numbers, the document
and the value are as they were (`Json.held_eq_self`). -/
theorem schemaError_decides (assertions : Assertions)
    (hempty : ∀ text, assertions.pattern "" text = true) (root : Json) (h : WellFormed (held root))
    (hplain : Plain (held root)) :
    (∃ V, Evaluation assertions (held root) V) ∧ ∀ V, Evaluation assertions (held root) V →
      ∀ v, (held v).AllFinite → ∃ message calls,
        (∀ n, calls ≤ n → schemaError assertions.pattern n (held root) (held v) = some message) ∧
          (message = "" ↔ V ⟨held root, held root⟩ (held v)) :=
  ⟨h.exists_evaluation assertions,
    fun _ hV _ hv => schema_decides h hplain hempty hV .root hv "$"⟩

/-- Patterns are texts to be found, and other keywords assert nothing. -/
def literal : Assertions where
  pattern pattern text := pattern.toList <:+: text.toList
  foreign _ _ _ := True

/-- A tree: the items of a node are nodes, or numbers from 0.1 on. -/
def tree : Json :=
  .object [("$ref", .string "#/$defs/node"),
    ("$defs", .object [("node", .object [("type", .array [.string "array", .string "number"]),
      ("minimum", .number (.finite (1 / 10))), ("items", .object [("$ref", .string "#/$defs/node")])])])]

/-- Trees are decided. -/
theorem schemaError_decides_tree :
    (∃ V, Evaluation literal (held tree) V) ∧ ∀ V, Evaluation literal (held tree) V →
      ∀ v, (held v).AllFinite → ∃ message calls,
        (∀ n, calls ≤ n → schemaError literal.pattern n (held tree) (held v) = some message) ∧
          (message = "" ↔ V ⟨held tree, held tree⟩ (held v)) := by
  have hchecked : Checked (held tree) 3 2 := by decide +kernel
  exact schemaError_decides literal (fun text => by simp [literal]) tree hchecked.wellFormed
    (plain_of_places hchecked.2.1 (by decide +kernel))

/-! ## Where the validator differs -/

/-- What a well-formed document says of a value. -/
structure Says (root v : Json) (accepted : Prop) : Prop where
  /-- The document is well-formed. -/
  wellFormed : WellFormed root
  /-- Its evaluations say so. -/
  evaluation : ∀ V, Evaluation literal root V → (V ⟨root, root⟩ v ↔ accepted)

/-- `schemaError` gives a message for a document and a value. -/
def Reports (root v : Json) (message : String) : Prop :=
  ∀ n, schemaError literal.pattern (n + 4) (held root) (held v) = some message

/-- A resource in which `x` is `false`. -/
def inner : Json :=
  .object [("$id", .string "inner"), ("$defs", .object [("x", .bool false)]),
    ("$ref", .string "#/$defs/x")]

/-- A document with that resource, in which `x` is `true`. -/
def embedded : Json :=
  .object [("$defs", .object [("x", .bool true)]), ("allOf", .array [inner])]

/-- A reference in a resource of its own starts from there. -/
theorem says_embedded : Says embedded .null False := by
  have hchecked : Checked embedded 3 3 := by decide +kernel
  refine ⟨hchecked.wellFormed, fun V hV => iff_of_false (fun hroot => ?_) not_false⟩
  obtain ⟨s, hs, hsatisfied⟩ := (hV _ .root _).1 hroot
  have hparts : s.parts .allOf = some [inner] :=
    (Option.some.inj ((Schema.reads hs).parts .allOf)).symm
  have hinner := hsatisfied.allOf [inner] hparts inner (List.mem_singleton.2 rfl)
  have hwithin : Within embedded (Place.enter ⟨embedded, embedded⟩ inner) :=
    Within.root.sub (by decide +kernel)
  obtain ⟨s', hs', hsatisfied'⟩ := (hV _ hwithin _).1 hinner
  have href : s'.ref = some "#/$defs/x" := (Option.some.inj (Schema.reads hs').ref).symm
  obtain ⟨t, ht, hVt⟩ := hsatisfied'.ref _ href
  have htarget : (Place.enter ⟨embedded, embedded⟩ inner).target "#/$defs/x" =
      some (.bool false) := by
    decide +kernel
  obtain rfl := Option.some.inj (htarget.symm.trans ht)
  exact absurd ((evaluation_bool hV (hwithin.sub (by decide +kernel)) rfl).1 hVt) Bool.false_ne_true

/-- A document with a name that a URI cannot hold as it is. -/
def spaced : Json :=
  .object [("$defs", .object [("a b", .bool true)]), ("$ref", .string "#/$defs/a%20b")]

/-- The characters of a reference may be given by their codes. -/
theorem says_spaced : Says spaced .null True := by
  have hchecked : Checked spaced 2 2 := by decide +kernel
  refine ⟨hchecked.wellFormed, fun V hV => iff_of_true ?_ trivial⟩
  refine (hV _ .root _).2 ⟨_, rfl, ?_⟩
  have htarget : Place.target ⟨spaced, spaced⟩ "#/$defs/a%20b" = some (.bool true) := by
    decide +kernel
  have htrue : V (Place.enter ⟨spaced, spaced⟩ (.bool true)) .null :=
    (evaluation_bool hV (Within.root.sub (by decide +kernel)) rfl).2 rfl
  rw [satisfied_iff, typedSatisfied_iff]
  simp [htarget, htrue, literal]

/-- A document for the number after `2 ^ 53`, which no double holds. -/
def constant : Json := .object [("const", .number (.finite 9007199254740993))]

/-- The number before is another one. -/
theorem says_constant : Says constant (.number (.finite 9007199254740992)) False := by
  have hchecked : Checked constant 1 1 := by decide +kernel
  refine ⟨hchecked.wellFormed, fun V hV => iff_of_false (fun hroot => ?_) not_false⟩
  obtain ⟨s, hs, hsatisfied⟩ := (hV _ .root _).1 hroot
  have hconst : s.const = some (.number (.finite 9007199254740993)) := by
    have hread := congrArg (Option.map Schema.const) hs
    exact (Option.some.inj hread).symm
  have hsame := hsatisfied.const _ hconst
  cases hsame

/-- A document without keywords. -/
def anything : Json := .object []

/-- It accepts every value. -/
theorem says_anything (v : Json) : Says anything v True := by
  have hchecked : Checked anything 1 1 := by decide +kernel
  refine ⟨hchecked.wellFormed, fun V hV => iff_of_true ((hV _ .root _).2 ⟨_, rfl, ?_⟩) trivial⟩
  rw [satisfied_iff, typedSatisfied_iff]
  simp

/-- A document that forbids a property `__proto__`. -/
def guarded : Json := .object [("properties", .object [("__proto__", .bool false)])]

/-- It refuses an object with such a property. -/
theorem says_guarded : Says guarded (.object [("__proto__", .null)]) False := by
  have hchecked : Checked guarded 2 1 := by decide +kernel
  refine ⟨hchecked.wellFormed, fun V hV => iff_of_false (fun hroot => ?_) not_false⟩
  obtain ⟨s, hs, hsatisfied⟩ := (hV _ .root _).1 hroot
  have hproperties : s.properties = some [("__proto__", .bool false)] :=
    (Option.some.inj (Schema.reads hs).properties).symm
  have hfalse := hsatisfied.properties _ hproperties _ rfl "__proto__" .null
    (List.mem_singleton.2 rfl)
    (.bool false) rfl
  exact absurd ((evaluation_bool hV (Within.root.sub (by decide +kernel)) rfl).1 hfalse)
    Bool.false_ne_true

/-- A document that refers to `false` by the name `__proto__`. -/
def inheriting : Json :=
  .object [("$defs", .object [("__proto__", .bool false)]), ("$ref", .string "#/$defs/__proto__")]

/-- It refuses every value. -/
theorem says_inheriting (v : Json) : Says inheriting v False := by
  have hchecked : Checked inheriting 2 2 := by decide +kernel
  refine ⟨hchecked.wellFormed, fun V hV => iff_of_false (fun hroot => ?_) not_false⟩
  obtain ⟨s, hs, hsatisfied⟩ := (hV _ .root _).1 hroot
  have href : s.ref = some "#/$defs/__proto__" := (Option.some.inj (Schema.reads hs).ref).symm
  obtain ⟨t, ht, hVt⟩ := hsatisfied.ref _ href
  have htarget : Place.target ⟨inheriting, inheriting⟩ "#/$defs/__proto__" =
      some (.bool false) := by
    decide +kernel
  obtain rfl := Option.some.inj (htarget.symm.trans ht)
  exact absurd ((evaluation_bool hV (Within.root.sub (by decide +kernel)) rfl).1 hVt)
    Bool.false_ne_true

/-- `schemaError` does not know resources and codes in references; it takes a number as the double
nearest to it, and refuses one that is beyond them; and it does not see what an object literal has
under `__proto__`. -/
theorem schemaError_differs :
    (Says embedded .null False ∧ Reports embedded .null "") ∧
    (Says spaced .null True ∧ Reports spaced .null "$ has an unresolved schema reference") ∧
    (Says constant (.number (.finite 9007199254740992)) False ∧
      Reports constant (.number (.finite 9007199254740992)) "") ∧
    (Says anything (.number (.finite (10 ^ 400))) True ∧
      Reports anything (.number (.finite (10 ^ 400))) "$ is not finite") ∧
    (Says guarded (.object [("__proto__", .null)]) False ∧
      Reports guarded (.object [("__proto__", .null)]) "") ∧
    Says inheriting .null False ∧ Reports inheriting .null "" := by
  have hrounded : ∀ q : ℚ, q = 9007199254740992 ∨ q = 9007199254740993 →
      Double.nearest (.finite q) = .finite 9007199254740992 := by
    rintro q (rfl | rfl) <;> decide +kernel
  have hinfinite : Double.nearest (.finite (10 ^ 400)) = .infinite false := by decide +kernel
  refine ⟨⟨says_embedded, fun n => rfl⟩, ⟨says_spaced, fun n => rfl⟩, ⟨says_constant, fun n => ?_⟩,
    ⟨says_anything _, fun n => ?_⟩, ⟨says_guarded, fun n => rfl⟩, says_inheriting _, fun n => rfl⟩
  · have hroot : held constant = .object [("const", .number (.finite 9007199254740992))] := by
      simp [held, constant, mapNumbers, mapFields, hrounded]
    have hvalue : held (.number (.finite 9007199254740992)) =
        .number (.finite 9007199254740992) := by
      simp [held, mapNumbers, hrounded]
    rw [hroot, hvalue]
    rfl
  · have hvalue : held (.number (.finite (10 ^ 400))) = .number (.infinite false) := by
      simp only [held, mapNumbers, hinfinite]
    rw [hvalue]
    rfl

end Document

end DaemonFramework.Protocol
