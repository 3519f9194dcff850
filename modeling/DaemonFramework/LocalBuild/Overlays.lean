import DaemonFramework.LocalBuild.Policy

/-!
# What overlays keep

`merge` of `policy.rs` puts an overlay over the inputs of a repository, field by field and all the
way down. `Kept` lists what a property of maps needs to survive that, and `Kept.merge` is the
induction. Two properties have it: `conforms`, which says what stands at the inputs and at the
nested `inputs` of their specifications, and `ordered`, which is what a map of `serde_json` is.
-/

namespace DaemonFramework.LocalBuild

open Value

/-- The properties `Q i` of maps are those of all fields of a map, `A i` says what they are of one
field, and `under i key` is the property that the map in the field `key` has. -/
structure Kept {ι : Type} (Q : ι → Inputs → Prop) (A : ι → String → Value → Prop)
    (under : ι → String → ι) : Prop where
  /-- What the first field has. -/
  head : ∀ {i key value rest}, Q i ((key, value) :: rest) → A i key value
  /-- What the other fields have. -/
  tail : ∀ {i key value rest}, Q i ((key, value) :: rest) → Q i rest
  /-- What a field has that is found. -/
  found : ∀ {i key value target}, Q i target → lookupField key target = some value → A i key value
  /-- A field can be inserted. -/
  insert : ∀ {i key value target}, Q i target → A i key value → Q i (insertField key value target)
  /-- A field can be replaced. -/
  replace : ∀ {i key value target}, Q i target → A i key value →
    Q i (modifyField key (fun _ => value) target)
  /-- A field with a map has what it has by the map. -/
  object : ∀ {i key fields other}, A i key (.object other) → Q (under i key) fields →
    A i key (.object fields)
  /-- The map of a field has what it has by the field. -/
  fields : ∀ {i key fields}, A i key (.object fields) → Q (under i key) fields

namespace Kept

variable {ι : Type} {Q : ι → Inputs → Prop} {A : ι → String → Value → Prop}
  {under : ι → String → ι}

mutual

/-- A field of an overlay keeps the properties. -/
theorem mergeField (h : Kept Q A under) {i : ι} {target : Inputs} {key : String}
    (htarget : Q i target) : ∀ value : Value, A i key value →
      Q i (mergeField target key value)
  | .object right, hvalue => by
    unfold LocalBuild.mergeField
    cases hleft : lookupField key target with
    | none => exact h.insert htarget hvalue
    | some value =>
      cases value with
      | object left =>
        have hfound : A i key (.object left) := h.found htarget hleft
        have hmerged : Q (under i key) (LocalBuild.merge left right) :=
          h.merge (h.fields hfound) right (h.fields hvalue)
        exact h.replace htarget (h.object hfound hmerged)
      | _ => exact h.insert htarget hvalue
  | .null, hvalue | .bool _, hvalue | .number _, hvalue | .string _, hvalue | .array _, hvalue =>
    h.insert htarget hvalue

/-- An overlay keeps the properties. -/
theorem merge (h : Kept Q A under) {i : ι} {target : Inputs} (htarget : Q i target) :
    ∀ overlay : Inputs, Q i overlay → Q i (merge target overlay)
  | [], _ => htarget
  | (_, value) :: rest, hoverlay =>
    h.merge (h.mergeField htarget value (h.head hoverlay)) rest (h.tail hoverlay)

end

/-- An overlay that may be missing keeps the properties. -/
theorem overlaid (h : Kept Q A under) {i : ι} {inputs : Inputs} {overlay : Option Inputs}
    (hinputs : Q i inputs) (hoverlay : ∀ fields ∈ overlay, Q i fields) :
    Q i (overlaid inputs overlay) := by
  unfold LocalBuild.overlaid
  split
  · exact hinputs
  · split_ifs
    · exact hinputs
    · exact h.merge hinputs _ (hoverlay _ rfl)

/-- What every field of a map has. -/
theorem forall_mem (h : Kept Q A under) {i : ι} {fields : Inputs} (hfields : Q i fields) :
    ∀ field ∈ fields, A i field.1 field.2 := by
  induction fields with
  | nil => exact nofun
  | cons field rest ih => exact List.forall_mem_cons.2 ⟨h.head hfields, ih (h.tail hfields)⟩

variable {workspace : Workspace} {i : ι}

/-- What the direct inputs of a repository under an overlay have. -/
theorem direct (h : Kept Q A under) (hassigned : ∀ path ∈ workspace.repositories,
    Q i (workspace.definitions path)) {source : Overlaid}
    (hsource : source.1 ∈ workspace.repositories)
    (hoverlay : ∀ overlay ∈ source.2, Q i overlay) :
    ∀ input ∈ workspace.direct source, A i input.1 input.2 := by
  intro input hinput
  exact h.forall_mem (h.overlaid (hassigned source.1 hsource) hoverlay) input
    (List.mem_of_mem_filter hinput)

/-- What the overlays have under which the inputs lead to repositories. -/
theorem overlay_of_reach (h : Kept Q A under) (hassigned : ∀ path ∈ workspace.repositories,
    Q i (workspace.definitions path))
    (hnested : ∀ name spec overlay, A i name spec → nestedInputs spec = .ok (some overlay) →
      Q i overlay) {source : Overlaid}
    (hreach : Traversal.Reach workspace.children (workspace.root, none) source) :
    ∀ overlay ∈ source.2, Q i overlay := by
  induction hreach with
  | refl => exact nofun
  | @tail source child hreach hchild ih =>
    intro overlay hoverlay
    obtain ⟨input, hinput, -, hinputs⟩ := workspace.exists_input_of_mem_children hchild
    have hfield : A i input.1 input.2 :=
      h.direct hassigned (workspace.assigned source hreach) ih input hinput
    rw [Option.mem_def] at hoverlay
    exact hnested input.1 input.2 overlay hfield (hoverlay ▸ hinputs)

/-- What the direct inputs of a repository have that the inputs lead to. -/
theorem direct_of_reach (h : Kept Q A under) (hassigned : ∀ path ∈ workspace.repositories,
    Q i (workspace.definitions path))
    (hnested : ∀ name spec overlay, A i name spec → nestedInputs spec = .ok (some overlay) →
      Q i overlay) {source : Overlaid}
    (hreach : Traversal.Reach workspace.children (workspace.root, none) source) :
    ∀ input ∈ workspace.direct source, A i input.1 input.2 :=
  h.direct hassigned (workspace.assigned source hreach)
    (h.overlay_of_reach hassigned hnested hreach)

end Kept

/-! ## Where a value stands -/

/-- What a map stands for. -/
inductive Level where
  /-- Inputs. -/
  | inputs
  /-- The specification of an input. -/
  | spec
  /-- Anything else. -/
  | other
deriving DecidableEq

/-- What the map in a field stands for. -/
def Level.under : Level → String → Level
  | .inputs, _ => .spec
  | .spec, key => if key = "inputs" then .inputs else .other
  | .other, _ => .other

/-- What is asked of inputs, at every depth. -/
structure Shape where
  /-- The names that inputs may have. -/
  name : String → Bool
  /-- Whether the `inputs` of a specification have to be a map. -/
  object : Bool

mutual

/-- A value has the shape, all the way down. -/
def conforms (shape : Shape) (level : Level) : Value → Bool
  | .object fields => conformsFields shape level fields
  | _ => level ≠ .inputs || !shape.object

/-- Fields have the shape, all the way down. -/
def conformsFields (shape : Shape) (level : Level) : Inputs → Bool
  | [] => true
  | (key, value) :: rest =>
    (level ≠ .inputs || shape.name key) && conforms shape (level.under key) value &&
      conformsFields shape level rest

end

/-- A field has the shape. -/
def Shape.Field (shape : Shape) (level : Level) (key : String) (value : Value) : Prop :=
  (level = .inputs → shape.name key) ∧ conforms shape (level.under key) value

/-- A map has the shape where all its fields have. -/
theorem conformsFields_iff {shape : Shape} {level : Level} {fields : Inputs} :
    conformsFields shape level fields ↔
      ∀ field ∈ fields, shape.Field level field.1 field.2 := by
  induction fields with
  | nil => simp [conformsFields]
  | cons field rest ih =>
    obtain ⟨key, value⟩ := field
    rw [List.forall_mem_cons, ← ih]
    simp only [conformsFields, Bool.and_eq_true, Bool.or_eq_true, Shape.Field, ne_eq, decide_not,
      Bool.not_eq_true', decide_eq_false_iff_not, imp_iff_not_or]

/-- What is in a map with a field inserted. -/
theorem mem_of_mem_insertField {key : String} {value : Value} {fields : Inputs}
    {field : String × Value} (h : field ∈ insertField key value fields) :
    field = (key, value) ∨ field ∈ fields := by
  induction fields with
  | nil => exact .inl (List.mem_singleton.1 h)
  | cons other rest ih =>
    unfold insertField at h
    split_ifs at h
    · exact (List.mem_cons.1 h).imp_right (List.mem_cons_of_mem _)
    · exact List.mem_cons.1 h
    · rcases List.mem_cons.1 h with rfl | h
      · exact .inr List.mem_cons_self
      · exact (ih h).imp_right (List.mem_cons_of_mem _)

/-- What is in a map with a field replaced. -/
theorem mem_of_mem_modifyField {key : String} {value : Value} {fields : Inputs}
    {field : String × Value} (h : field ∈ modifyField key (fun _ => value) fields) :
    field = (key, value) ∨ field ∈ fields := by
  induction fields with
  | nil => cases h
  | cons other rest ih =>
    unfold modifyField at h
    split_ifs at h with hkey
    · rw [hkey] at h
      exact (List.mem_cons.1 h).imp_right (List.mem_cons_of_mem _)
    · rcases List.mem_cons.1 h with rfl | h
      · exact .inr List.mem_cons_self
      · exact (ih h).imp_right (List.mem_cons_of_mem _)

/-- Overlays keep the shape. -/
theorem Shape.kept (shape : Shape) :
    Kept (fun level fields => (conformsFields shape level fields : Prop)) shape.Field
      Level.under where
  head h := (conformsFields_iff.1 h) _ List.mem_cons_self
  tail h := conformsFields_iff.2 fun field hfield =>
    conformsFields_iff.1 h field (List.mem_cons_of_mem _ hfield)
  found h hfound := conformsFields_iff.1 h _ (mem_of_lookupField hfound)
  insert h hfield := conformsFields_iff.2 fun _ hmem => by
    rcases mem_of_mem_insertField hmem with rfl | hmem
    · exact hfield
    · exact conformsFields_iff.1 h _ hmem
  replace h hfield := conformsFields_iff.2 fun _ hmem => by
    rcases mem_of_mem_modifyField hmem with rfl | hmem
    · exact hfield
    · exact conformsFields_iff.1 h _ hmem
  object h hfields := ⟨h.1, hfields⟩
  fields h := h.2

/-- The overlay nested in a specification has the shape of inputs. -/
theorem Shape.nested {shape : Shape} {name : String} {spec : Value} {overlay : Inputs}
    (h : shape.Field .inputs name spec) (hnested : nestedInputs spec = .ok (some overlay)) :
    conformsFields shape .inputs overlay := by
  unfold nestedInputs at hnested
  cases spec with
  | object fields =>
    cases hget : lookupField "inputs" fields with
    | none => simp [Value.get, hget] at hnested
    | some value =>
      have hfield : shape.Field .spec "inputs" value := shape.kept.found (h.2) hget
      cases value with
      | object nested =>
        obtain rfl : nested = overlay := by simpa [Value.get, hget] using hnested
        exact hfield.2
      | _ => simp [Value.get, hget] at hnested
  | _ => simp [Value.get] at hnested

/-- Where the nested inputs have to be a map, they are one. -/
theorem Shape.exists_nested {shape : Shape} (hobject : shape.object) {name : String} {spec : Value}
    (h : shape.Field .inputs name spec) : ∃ overlay, nestedInputs spec = .ok overlay := by
  unfold nestedInputs
  cases spec with
  | object fields =>
    cases hget : lookupField "inputs" fields with
    | none => exact ⟨none, by simp [Value.get, hget]⟩
    | some value =>
      have hfield : shape.Field .spec "inputs" value := shape.kept.found (h.2) hget
      cases value with
      | object nested => exact ⟨some nested, by simp [Value.get, hget]⟩
      | _ => simp [Shape.Field, Level.under, conforms, hobject] at hfield
  | _ => exact ⟨none, by simp [Value.get]⟩

/-! ## The order of a map -/

mutual

/-- The keys of the maps in a value are in order, each once. -/
def ordered : Value → Bool
  | .object fields => orderedFields fields
  | _ => true

/-- The keys of a map are in order, each once, and so are those of the maps in it. -/
def orderedFields : Inputs → Bool
  | [] => true
  | (key, value) :: rest =>
    rest.all (fun field => key < field.1) && ordered value && orderedFields rest

end

/-- What the order of a map is. -/
theorem orderedFields_iff {fields : Inputs} :
    orderedFields fields ↔
      (fields.Pairwise fun a b => a.1 < b.1) ∧ ∀ field ∈ fields, ordered field.2 := by
  induction fields with
  | nil => simp [orderedFields]
  | cons field rest ih =>
    obtain ⟨key, value⟩ := field
    simp only [orderedFields, Bool.and_eq_true, List.all_eq_true, decide_eq_true_eq,
      List.pairwise_cons, List.forall_mem_cons, ih]
    tauto

/-- The keys of a map are those of before, and that of the field that was inserted. -/
theorem pairwise_insertField {key : String} {value : Value} {fields : Inputs}
    (h : fields.Pairwise fun a b => a.1 < b.1) :
    (insertField key value fields).Pairwise fun a b => a.1 < b.1 := by
  induction fields with
  | nil => exact List.pairwise_singleton _ _
  | cons field rest ih =>
    obtain ⟨k, v⟩ := field
    obtain ⟨hlt, hrest⟩ := List.pairwise_cons.1 h
    unfold insertField
    split_ifs with heq hbefore
    · subst heq
      exact List.pairwise_cons.2 ⟨hlt, hrest⟩
    · refine List.pairwise_cons.2 ⟨List.forall_mem_cons.2 ⟨hbefore, fun field hfield => ?_⟩, h⟩
      exact String.lt_trans hbefore (hlt field hfield)
    · refine List.pairwise_cons.2 ⟨fun field hfield => ?_, ih hrest⟩
      rcases mem_of_mem_insertField hfield with rfl | hfield
      · exact Decidable.of_not_not fun hnot => heq (String.le_antisymm hbefore hnot)
      · exact hlt field hfield

/-- Replacing a field keeps the keys. -/
theorem keys_modifyField (key : String) (f : Value → Value) (fields : Inputs) :
    (modifyField key f fields).map Prod.fst = fields.map Prod.fst := by
  induction fields with
  | nil => rfl
  | cons field rest ih =>
    unfold modifyField
    split_ifs
    · rfl
    · rw [List.map_cons, List.map_cons, ih]

/-- Replacing a field keeps the order of the keys. -/
theorem pairwise_modifyField {key : String} {f : Value → Value} {fields : Inputs}
    (h : fields.Pairwise fun a b => a.1 < b.1) :
    (modifyField key f fields).Pairwise fun a b => a.1 < b.1 := by
  have hkeys : (fields.map Prod.fst).Pairwise (· < ·) := List.pairwise_map.2 h
  rw [← keys_modifyField key f] at hkeys
  exact List.pairwise_map.1 hkeys

/-- Overlays keep the order of the maps. -/
theorem orderedKept :
    Kept (fun (_ : Unit) fields => (orderedFields fields : Prop)) (fun _ _ value => ordered value)
      fun _ _ => () where
  head h := (orderedFields_iff.1 h).2 _ List.mem_cons_self
  tail h := orderedFields_iff.2
    ⟨(List.pairwise_cons.1 (orderedFields_iff.1 h).1).2, fun field hfield =>
      (orderedFields_iff.1 h).2 field (List.mem_cons_of_mem _ hfield)⟩
  found h hfound := (orderedFields_iff.1 h).2 _ (mem_of_lookupField hfound)
  insert h hfield := orderedFields_iff.2
    ⟨pairwise_insertField (orderedFields_iff.1 h).1, fun _ hmem => by
      rcases mem_of_mem_insertField hmem with rfl | hmem
      · exact hfield
      · exact (orderedFields_iff.1 h).2 _ hmem⟩
  replace h hfield := orderedFields_iff.2
    ⟨pairwise_modifyField (orderedFields_iff.1 h).1, fun _ hmem => by
      rcases mem_of_mem_modifyField hmem with rfl | hmem
      · exact hfield
      · exact (orderedFields_iff.1 h).2 _ hmem⟩
  object _ hfields := hfields
  fields h := h

/-- The overlay nested in a specification is in order. -/
theorem ordered_nested {spec : Value} {overlay : Inputs} (h : ordered spec)
    (hnested : nestedInputs spec = .ok (some overlay)) : orderedFields overlay := by
  unfold nestedInputs at hnested
  cases spec with
  | object fields =>
    cases hget : lookupField "inputs" fields with
    | none => simp [Value.get, hget] at hnested
    | some value =>
      have hfield : ordered value := orderedKept.found (i := ()) h hget
      cases value with
      | object nested =>
        obtain rfl : nested = overlay := by simpa [Value.get, hget] using hnested
        exact hfield
      | _ => simp [Value.get, hget] at hnested
  | _ => simp [Value.get] at hnested

end DaemonFramework.LocalBuild
