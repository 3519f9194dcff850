import DaemonFramework.Protocol.Semantics
import Mathlib.Data.Set.Finite.Lattice

/-!
# Evaluating a document

A well-formed document has exactly one evaluation. A schema refers to others on the same value,
where the references go down in rank, or on smaller values (`Calls.size_lt`).
-/

namespace DaemonFramework.Protocol

open Json

variable {root : Json} {p q : Place} {fields : List (String × Json)} {s : Schema}

/-! ## The schemas in a schema -/

/-- A field that is found is one of the fields. -/
theorem mem_of_lookup {key : String} {value : Json} {fields : List (String × Json)}
    (h : lookup key fields = some value) : (key, value) ∈ fields := by
  induction fields with
  | nil => cases h
  | cons field rest ih =>
    obtain ⟨k, v⟩ := field
    unfold lookup at h
    split_ifs at h with hk
    · subst hk
      obtain rfl := Option.some.inj h
      exact List.mem_cons_self
    · exact List.mem_cons_of_mem _ (ih h)

/-- A name that a field has is found. -/
theorem isSome_lookup_of_mem {key : String} {value : Json} {fields : List (String × Json)}
    (h : (key, value) ∈ fields) : (lookup key fields).isSome := by
  induction fields with
  | nil => cases h
  | cons field rest ih =>
    obtain ⟨k, v⟩ := field
    unfold lookup
    split_ifs with hk
    · rfl
    · rcases List.mem_cons.1 h with heq | hmem
      · exact absurd (Prod.mk.inj heq).1.symm hk
      · exact ih hmem

/-- The value of a field is smaller than the object. -/
theorem sizeOf_lt_of_mem {key : String} {value : Json} (h : (key, value) ∈ fields) :
    sizeOf value < sizeOf (object fields) := by
  have hlt := List.sizeOf_lt_of_mem h
  have hpair : sizeOf (key, value) = 1 + sizeOf key + sizeOf value := rfl
  have hobject := object.sizeOf_spec fields
  omega

/-- An item is smaller than the array. -/
theorem sizeOf_lt_of_mem_items {item : Json} {items : List Json} (h : item ∈ items) :
    sizeOf item < sizeOf (array items) := by
  have hlt := List.sizeOf_lt_of_mem h
  have harray := array.sizeOf_spec items
  omega

/-- A keyword holds no schema that is larger than its value. -/
theorem sizeOf_le_of_heldBy {key : String} {value schema : Json} (h : schema ∈ heldBy key value) :
    sizeOf schema ≤ sizeOf value := by
  unfold heldBy at h
  split_ifs at h with hmap hlist hone
  · obtain ⟨⟨name, held⟩, hmem, rfl⟩ := List.mem_map.1 h
    cases value with
    | object fields => exact (sizeOf_lt_of_mem hmem).le
    | _ => cases hmem
  · cases value with
    | array items => exact (sizeOf_lt_of_mem_items h).le
    | _ => cases h
  · rw [List.mem_singleton.1 h]
  · cases h

/-- What a keyword of a schema holds is inside the schema. -/
theorem mem_subschemas {key : String} {value schema : Json} (hp : p.schema = .object fields)
    (hkey : lookup key fields = some value) (h : schema ∈ heldBy key value) :
    schema ∈ subschemas p.schema := by
  rw [hp]
  exact List.mem_flatMap.2 ⟨(key, value), mem_of_lookup hkey, h⟩

/-- A schema inside another one is smaller. -/
theorem sizeOf_lt_of_subschema {schema inner : Json} (h : inner ∈ subschemas schema) :
    sizeOf inner < sizeOf schema := by
  obtain ⟨⟨key, value⟩, hmem, hheld⟩ := List.mem_flatMap.1 h
  cases schema with
  | object fields => exact (sizeOf_le_of_heldBy hheld).trans_lt (sizeOf_lt_of_mem hmem)
  | _ => cases hmem

/-- A document has finitely many places. -/
theorem finite_within (root : Json) : {p | Within root p}.Finite := by
  let next (p q : Place) : Prop := ∃ schema ∈ subschemas p.schema, q = p.enter schema
  have hreach : ∀ n p, sizeOf p.schema = n → {q | Relation.ReflTransGen next p q}.Finite := by
    intro n
    induction n using Nat.strong_induction_on with
    | _ n ih =>
      intro p hp
      have hbelow : (⋃ schema ∈ subschemas p.schema,
          {q | Relation.ReflTransGen next (p.enter schema) q}).Finite := by
        refine Set.Finite.biUnion (List.finite_toSet _) fun schema hschema => ?_
        exact ih _ (hp ▸ sizeOf_lt_of_subschema hschema) (p.enter schema) rfl
      refine ((Set.finite_singleton p).union hbelow).subset fun q hq => ?_
      rcases Relation.ReflTransGen.cases_head hq with rfl | ⟨_, ⟨schema, hschema, rfl⟩, hrest⟩
      · exact .inl rfl
      · exact .inr (Set.mem_biUnion hschema hrest)
  refine (hreach _ ⟨root, root⟩ rfl).subset fun p hp => ?_
  induction hp with
  | root => exact .refl
  | sub _ hschema ih => exact .tail ih ⟨_, hschema, rfl⟩

/-! ## What the keywords refer to -/

/-- A keyword that was read is there with its value. -/
theorem lookup_of_keyword {α : Type} {key : String} {as : Json → Option α} {a : α}
    (h : keyword fields key as = some (some a)) :
    ∃ value, lookup key fields = some value ∧ as value = some a := by
  unfold keyword at h
  split at h
  · cases h
  · rename_i value hvalue
    obtain ⟨b, hb, hba⟩ := Option.map_eq_some_iff.1 h
    obtain rfl := Option.some.inj hba
    exact ⟨value, hvalue, hb⟩

/-- Where the keywords that refer to schemas were read. -/
structure Schema.Reads (fields : List (String × Json)) (s : Schema) : Prop where
  /-- `$ref` -/
  ref : keyword fields "$ref" asString = some s.ref
  /-- `allOf`, `anyOf` and `oneOf` -/
  parts : ∀ group, keyword fields group.name asArray = some (s.parts group)
  /-- `not` -/
  not : keyword fields "not" some = some s.not
  /-- `items` -/
  items : keyword fields "items" some = some s.items
  /-- `properties` -/
  properties : keyword fields "properties" asObject = some s.properties
  /-- `additionalProperties` -/
  additionalProperties : keyword fields "additionalProperties" some = some s.additionalProperties

/-- They were read where they are. -/
theorem Schema.reads (h : Schema.read fields = some s) : Schema.Reads fields s := by
  obtain ⟨ref, href, h⟩ := Option.bind_eq_some_iff.1 h
  obtain ⟨const, -, h⟩ := Option.bind_eq_some_iff.1 h
  obtain ⟨enum, -, h⟩ := Option.bind_eq_some_iff.1 h
  obtain ⟨allOf, hallOf, h⟩ := Option.bind_eq_some_iff.1 h
  obtain ⟨anyOf, hanyOf, h⟩ := Option.bind_eq_some_iff.1 h
  obtain ⟨oneOf, honeOf, h⟩ := Option.bind_eq_some_iff.1 h
  obtain ⟨not, hnot, h⟩ := Option.bind_eq_some_iff.1 h
  obtain ⟨types, -, h⟩ := Option.bind_eq_some_iff.1 h
  -- The bounds of numbers, strings and arrays.
  iterate 9 obtain ⟨_, -, h⟩ := Option.bind_eq_some_iff.1 h
  obtain ⟨items, hitems, h⟩ := Option.bind_eq_some_iff.1 h
  obtain ⟨required, -, h⟩ := Option.bind_eq_some_iff.1 h
  obtain ⟨properties, hproperties, h⟩ := Option.bind_eq_some_iff.1 h
  obtain ⟨additional, hadditional, h⟩ := Option.bind_eq_some_iff.1 h
  obtain rfl := Option.some.inj h
  refine ⟨href, fun group => ?_, hnot, hitems, hproperties, hadditional⟩
  cases group with
  | allOf => exact hallOf
  | anyOf => exact hanyOf
  | oneOf => exact honeOf

section Members

variable {schema : Json} (hp : p.schema = .object fields) (hs : Schema.read fields = some s)

include hp hs

/-- The parts of a group are schemas of the document. -/
theorem mem_of_parts {group : Group} {parts : List Json} (hparts : s.parts group = some parts)
    (hschema : schema ∈ parts) : schema ∈ subschemas p.schema := by
  obtain ⟨value, hlookup, hvalue⟩ := lookup_of_keyword (((Schema.reads hs).parts group).trans
    (congrArg some hparts))
  have hheld : heldBy group.name value = value.asArray.getD [] := by
    cases group <;> simp [heldBy, Group.name]
  refine mem_subschemas hp hlookup ?_
  rw [hheld, hvalue]
  exact hschema

/-- So is the schema of `not`. -/
theorem mem_of_not (hnot : s.not = some schema) : schema ∈ subschemas p.schema := by
  obtain ⟨value, hlookup, hvalue⟩ := lookup_of_keyword ((Schema.reads hs).not.trans
    (congrArg some hnot))
  obtain rfl := Option.some.inj hvalue
  exact mem_subschemas hp hlookup (by simp [heldBy])

/-- So is the schema of `items`. -/
theorem mem_of_items (hitems : s.items = some schema) : schema ∈ subschemas p.schema := by
  obtain ⟨value, hlookup, hvalue⟩ := lookup_of_keyword ((Schema.reads hs).items.trans
    (congrArg some hitems))
  obtain rfl := Option.some.inj hvalue
  exact mem_subschemas hp hlookup (by simp [heldBy])

/-- So are the rules of `properties`. -/
theorem mem_of_properties {rules : List (String × Json)} {name : String}
    (hproperties : s.properties = some rules) (hrule : lookup name rules = some schema) :
    schema ∈ subschemas p.schema := by
  obtain ⟨value, hlookup, hvalue⟩ := lookup_of_keyword ((Schema.reads hs).properties.trans
    (congrArg some hproperties))
  refine mem_subschemas hp hlookup ?_
  have hheld : heldBy "properties" value = rules.map Prod.snd := by simp [heldBy, hvalue]
  rw [hheld]
  exact List.mem_map.2 ⟨(name, schema), mem_of_lookup hrule, rfl⟩

/-- So is the schema of `additionalProperties`. -/
theorem mem_of_additional (hadditional : s.additionalProperties = some schema) :
    schema ∈ subschemas p.schema := by
  obtain ⟨value, hlookup, hvalue⟩ := lookup_of_keyword ((Schema.reads hs).additionalProperties.trans
    (congrArg some hadditional))
  obtain rfl := Option.some.inj hvalue
  exact mem_subschemas hp hlookup (by simp [heldBy])

end Members

/-- The schema in a place refers to another one, for a value. -/
inductive Calls (p : Place) (v : Json) : Place → Json → Prop where
  /-- On the same value. -/
  | here {q : Place} : InPlace p q → Calls p v q v
  /-- On a part of it. -/
  | inside {schema w : Json} : schema ∈ subschemas p.schema → sizeOf w < sizeOf v →
      Calls p v (p.enter schema) w

namespace WellFormed

variable (h : WellFormed root)

include h

/-- A schema refers to schemas of the document. -/
theorem within_of_inPlace (hp : Within root p) (hpq : InPlace p q) : Within root q := by
  cases hpq with
  | part hschema hs hparts hpart => exact hp.sub (mem_of_parts hschema hs hparts hpart)
  | not hschema hs hnot => exact hp.sub (mem_of_not hschema hs hnot)
  | ref hschema hs href htarget =>
    obtain ⟨t, ht, hwithin⟩ := h.resolves p _ _ hp hschema hs _ href
    obtain rfl := Option.some.inj (htarget.symm.trans ht)
    exact hwithin

/-- So for all values. -/
theorem within_of_calls {v w : Json} (hp : Within root p) (hcalls : Calls p v q w) :
    Within root q := by
  cases hcalls with
  | here hpq => exact h.within_of_inPlace hp hpq
  | inside hschema _ => exact hp.sub hschema

/-- A size of schemas and values that goes down with each reference. -/
theorem exists_size : ∃ size : Place × Json → ℕ, ∀ p v q w, Within root p → Calls p v q w →
    size (q, w) < size (p, v) := by
  obtain ⟨rank, bound, hbound, hrank⟩ := Recursion.exists_rank (finite_within root)
    (fun p hp q hpq => h.within_of_inPlace hp hpq) h.acyclic
  refine ⟨fun x => sizeOf x.2 * (bound + 1) + rank x.1, fun p v q w hp hcalls => ?_⟩
  cases hcalls with
  | here hpq =>
    have hlt : rank q < rank p := hrank p hp q hpq
    dsimp only
    omega
  | @inside schema w _ hlt =>
    have hle := hbound (p.enter schema)
    have hstep : (sizeOf w + 1) * (bound + 1) ≤ sizeOf v * (bound + 1) :=
      Nat.mul_le_mul_right _ hlt
    have hsplit : (sizeOf w + 1) * (bound + 1) = sizeOf w * (bound + 1) + (bound + 1) :=
      Nat.add_one_mul _ _
    dsimp only
    omega

end WellFormed

/-! ## One evaluation -/

section Congruence

variable {assertions : Assertions} {V W : Place → Json → Prop} {v : Json}

/-- What a schema says depends on the schemas that it refers to, and on no others. -/
theorem Satisfied.congr (hp : p.schema = .object fields) (hs : Schema.read fields = some s)
    (hVW : ∀ q w, Calls p v q w → (V q w ↔ W q w)) (h : Satisfied assertions V p fields s v) :
    Satisfied assertions W p fields s v := by
  -- Parts are asked about the same value, and references about the same one too.
  have hpart : ∀ {group parts part}, s.parts group = some parts → part ∈ parts →
      (V (p.enter part) v ↔ W (p.enter part) v) :=
    fun hparts hmem => hVW _ _ (.here (.part hp hs hparts hmem))
  -- Fields and items are smaller than the value they are in.
  have hfield : ∀ {fields name item}, v = .object fields → (name, item) ∈ fields →
      sizeOf item < sizeOf v := by
    rintro fields name item rfl hmem
    exact sizeOf_lt_of_mem hmem
  exact {
    h with
    ref reference href := by
      obtain ⟨t, htarget, ht⟩ := h.ref reference href
      exact ⟨t, htarget, (hVW _ _ (.here (.ref hp hs href htarget))).1 ht⟩
    allOf parts hparts part hmem := (hpart hparts hmem).1 (h.allOf parts hparts part hmem)
    anyOf parts hparts := by
      obtain ⟨part, hmem, haccepted⟩ := h.anyOf parts hparts
      exact ⟨part, hmem, (hpart hparts hmem).1 haccepted⟩
    oneOf parts hparts := by
      obtain ⟨before, part, after, rfl, haccepted, hothers⟩ := h.oneOf parts hparts
      refine ⟨before, part, after, rfl, (hpart hparts (by simp)).1 haccepted, fun other hmem => ?_⟩
      have hother : other ∈ before ++ part :: after := by
        rcases List.mem_append.1 hmem with hmem | hmem
        · exact List.mem_append_left _ hmem
        · exact List.mem_append_right _ (List.mem_cons_of_mem _ hmem)
      exact fun hW => hothers other hmem ((hpart hparts hother).2 hW)
    not schema hnot := fun hW => h.not schema hnot ((hVW _ _ (.here (.not hp hs hnot))).2 hW)
    items schema hschema items hv item hmem := by
      subst hv
      exact (hVW _ _ (.inside (mem_of_items hp hs hschema) (sizeOf_lt_of_mem_items hmem))).1
        (h.items schema hschema items rfl item hmem)
    properties rules hrules fields hv name item hmem schema hschema :=
      (hVW _ _ (.inside (mem_of_properties hp hs hrules hschema) (hfield hv hmem))).1
        (h.properties rules hrules fields hv name item hmem schema hschema)
    additionalProperties schema hschema fields hv name item hmem hfree :=
      (hVW _ _ (.inside (mem_of_additional hp hs hschema) (hfield hv hmem))).1
        (h.additionalProperties schema hschema fields hv name item hmem hfree) }

/-- The same of any schema. -/
theorem meets_congr (hVW : ∀ q w, Calls p v q w → (V q w ↔ W q w)) :
    Meets assertions V p v ↔ Meets assertions W p v := by
  unfold Meets
  split
  · rfl
  · rename_i fields hp
    refine exists_congr fun s => and_congr_right fun hs => ⟨?_, ?_⟩
    · exact Satisfied.congr hp hs hVW
    · exact Satisfied.congr hp hs fun q w hcalls => (hVW q w hcalls).symm
  · rfl

end Congruence

namespace WellFormed

variable (h : WellFormed root) (assertions : Assertions)

include h

/-- The evaluation of a document is a guarded equation. -/
theorem guarded : ∃ size : Place × Json → ℕ, Recursion.Guarded (fun x => Within root x.1) size
    fun V x => Meets assertions (fun p v => V (p, v)) x.1 x.2 := by
  obtain ⟨size, hsize⟩ := h.exists_size
  refine ⟨size, fun V W x hx hVW => meets_congr fun q w hcalls => ?_⟩
  exact hVW (q, w) (h.within_of_calls hx hcalls) (hsize _ _ _ _ hx hcalls)

/-- A well-formed document has an evaluation. -/
theorem exists_evaluation : ∃ V, Evaluation assertions root V := by
  obtain ⟨size, hguarded⟩ := h.guarded assertions
  obtain ⟨V, hV⟩ := Recursion.exists_solution hguarded
  exact ⟨fun p v => V (p, v), fun p hp v => hV (p, v) hp⟩

/-- It has no other one. -/
theorem evaluation_unique {V W : Place → Json → Prop} (hV : Evaluation assertions root V)
    (hW : Evaluation assertions root W) (hp : Within root p) (v : Json) : V p v ↔ W p v := by
  obtain ⟨size, hguarded⟩ := h.guarded assertions
  exact Recursion.solution_unique hguarded (V := fun x => V x.1 x.2) (W := fun x => W x.1 x.2)
    (fun x hx => hV x.1 hx x.2) (fun x hx => hW x.1 hx x.2) (p, v) hp

end WellFormed

end DaemonFramework.Protocol
