import DaemonFramework.Protocol.Evaluation

/-!
# Checking a document

Whether a document is well-formed can be computed: its places are those of its first levels
(`exists_level`), and in-place references that come to an end lead back to no schema
(`not_transGen_of_settles`).
-/

namespace DaemonFramework.Protocol

open Json Relation

variable {root : Json} {p q : Place}

/-- The places of a document that are so many schemas below its root. -/
def level (root : Json) : ℕ → List Place
  | 0 => [⟨root, root⟩]
  | n + 1 => (level root n).flatMap fun p => (subschemas p.schema).map p.enter

/-- The places of the first levels. -/
def places (root : Json) (n : ℕ) : List Place := (List.range n).flatMap (level root)

/-- The keywords of the schema in a place. -/
def Place.keywords (p : Place) : Option Schema := p.schema.asObject.bind Schema.read

/-- The places that a schema refers to on the same value. -/
def referred (p : Place) : List Place :=
  match p.keywords with
  | none => []
  | some s =>
    ([Group.allOf, .anyOf, .oneOf].flatMap fun group => (s.parts group).getD []).map p.enter ++
      s.not.toList.map p.enter ++ (s.ref.bind p.target).toList.map p.enter

/-- The references on the same value come to an end. -/
def settles : ℕ → Place → Bool
  | 0, _ => false
  | n + 1, p => (referred p).all (settles n)

/-- The keywords in a place have proper values. -/
def Place.proper (all : List Place) (p : Place) : Bool :=
  match p.schema with
  | .object fields =>
    (Schema.read fields).any fun s => s.const.all (decide ·.IsScalar) &&
      s.enum.all (·.all (decide ·.IsScalar)) &&
        s.ref.all fun reference => (p.target reference).any fun t => p.enter t ∈ all
  | _ => true

/-- What is looked up for a place is what it says. -/
def Place.plain (root : Json) (p : Place) : Bool :=
  p.keywords.all fun s => s.ref.all (fun reference =>
    p.target reference = pointer root (pointerNames (reference.toList.drop 2)) &&
      "__proto__" ∉ pointerNames (reference.toList.drop 2)) &&
    s.properties.all fun rules => (lookup "__proto__" rules).isNone

/-- A well-formed document of so many levels and so many references in a row. -/
def Checked (root : Json) (n depth : ℕ) : Prop :=
  (checkSchema root).isOk ∧ level root n = [] ∧
    ∀ p ∈ places root n, p.proper (places root n) ∧ settles depth p

instance (root : Json) (n depth : ℕ) : Decidable (Checked root n depth) := by
  unfold Checked
  infer_instance

/-- What is on a level is a place of the document. -/
theorem within_of_mem_level {n : ℕ} (h : p ∈ level root n) : Within root p := by
  induction n generalizing p with
  | zero =>
    obtain rfl := List.mem_singleton.1 h
    exact .root
  | succ n ih =>
    obtain ⟨q, hq, hmem⟩ := List.mem_flatMap.1 h
    obtain ⟨schema, hschema, rfl⟩ := List.mem_map.1 hmem
    exact (ih hq).sub hschema

/-- Each place is on a level. -/
theorem exists_level (h : Within root p) : ∃ n, p ∈ level root n := by
  induction h with
  | root => exact ⟨0, List.mem_singleton.2 rfl⟩
  | sub _ hschema ih =>
    obtain ⟨n, hn⟩ := ih
    exact ⟨n + 1, List.mem_flatMap.2 ⟨_, hn, List.mem_map.2 ⟨_, hschema, rfl⟩⟩⟩

/-- Below an empty level there are only empty ones. -/
theorem level_eq_nil {m n : ℕ} (hn : level root n = []) (hle : n ≤ m) : level root m = [] := by
  induction m, hle using Nat.le_induction with
  | base => exact hn
  | succ m _ ih => rw [level, ih, List.flatMap_nil]

/-- All places are above the first empty level. -/
theorem within_iff_mem_places {n : ℕ} (hn : level root n = []) :
    Within root p ↔ p ∈ places root n := by
  constructor
  · intro h
    obtain ⟨m, hm⟩ := exists_level h
    refine List.mem_flatMap.2 ⟨m, List.mem_range.2 ?_, hm⟩
    by_contra hle
    rw [level_eq_nil hn (not_lt.1 hle)] at hm
    cases hm
  · intro h
    obtain ⟨m, -, hm⟩ := List.mem_flatMap.1 h
    exact within_of_mem_level hm

theorem mem_referred (h : InPlace p q) : q ∈ referred p := by
  cases h with
  | @part fields s group parts schema hp hs hparts hmem =>
    have hall : group ∈ [Group.allOf, .anyOf, .oneOf] := by cases group <;> simp
    simp only [referred, Place.keywords, hp, asObject, Option.bind_some, hs, List.mem_append,
      List.mem_map]
    exact .inl (.inl ⟨schema, List.mem_flatMap.2 ⟨group, hall, by simpa [hparts] using hmem⟩, rfl⟩)
  | not hp hs hnot => simp [referred, Place.keywords, hp, asObject, hs, hnot]
  | ref hp hs href htarget => simp [referred, Place.keywords, hp, asObject, hs, href, htarget]

/-- From a place where the references come to an end, none leads back. -/
theorem not_transGen_of_settles {n : ℕ} (h : settles n p) : ¬TransGen InPlace p p := by
  induction n generalizing p with
  | zero => cases h
  | succ n ih =>
    intro hcycle
    obtain ⟨q, hpq, hqp⟩ := TransGen.head'_iff.1 hcycle
    have hq : settles n q := List.all_eq_true.1 h q (mem_referred hpq)
    -- The cycle goes through the next place as well.
    exact ih hq (.tail' hqp hpq)

/-- A document that passes the check is well-formed. -/
theorem Checked.wellFormed {n depth : ℕ} (h : Checked root n depth) : WellFormed root := by
  obtain ⟨hok, hn, hplaces⟩ := h
  -- What the check has found of each place in the document.
  have hproper : ∀ p fields, Within root p → p.schema = .object fields → ∃ s,
      Schema.read fields = some s ∧ (s.const.all (decide ·.IsScalar) = true ∧
        s.enum.all (·.all (decide ·.IsScalar)) = true) ∧
          s.ref.all fun reference =>
            (p.target reference).any fun t => p.enter t ∈ places root n := by
    intro p fields hp hfields
    have hchecked := (hplaces p ((within_iff_mem_places hn).1 hp)).1
    simpa only [Place.proper, hfields, Option.any_eq_true, Bool.and_eq_true] using hchecked
  have hread : ∀ p fields s, Within root p → p.schema = .object fields →
      Schema.read fields = some s → (∀ c ∈ s.const, c.IsScalar) ∧
        (∀ items ∈ s.enum, ∀ item ∈ items, item.IsScalar) ∧
          ∀ reference ∈ s.ref, ∃ t, p.target reference = some t ∧ Within root (p.enter t) := by
    intro p fields s hp hfields hs
    obtain ⟨s', hs', ⟨hconst, henum⟩, href⟩ := hproper p fields hp hfields
    obtain rfl := Option.some.inj (hs'.symm.trans hs)
    refine ⟨fun c hc => ?_, fun items hitems => ?_, fun reference hreference => ?_⟩
    · simpa [Option.mem_def.1 hc] using hconst
    · simpa [Option.mem_def.1 hitems] using henum
    · simp only [Option.mem_def.1 hreference, Option.all_some, Option.any_eq_true,
        decide_eq_true_eq] at href
      obtain ⟨t, ht, hmem⟩ := href
      exact ⟨t, ht, (within_iff_mem_places hn).2 hmem⟩
  constructor
  · cases hcheck : checkSchema root with
    | ok _ => rfl
    | error e =>
      rw [hcheck] at hok
      cases hok
  · intro p fields hp hfields
    obtain ⟨s, hs, -⟩ := hproper p fields hp hfields
    exact Option.isSome_iff_exists.2 ⟨s, hs⟩
  · exact fun p fields s hp hfields hs => (hread p fields s hp hfields hs).1
  · exact fun p fields s hp hfields hs => (hread p fields s hp hfields hs).2.1
  · exact fun p fields s hp hfields hs => (hread p fields s hp hfields hs).2.2
  · exact fun p hp => not_transGen_of_settles (hplaces p ((within_iff_mem_places hn).1 hp)).2

/-- It is plain, if all its places are. -/
theorem plain_of_places {n : ℕ} (hn : level root n = []) (h : ∀ p ∈ places root n, p.plain root) :
    Plain root := by
  have hread : ∀ p fields s, Within root p → p.schema = .object fields →
      Schema.read fields = some s →
      (∀ reference ∈ s.ref,
        p.target reference = pointer root (pointerNames (reference.toList.drop 2)) ∧
          "__proto__" ∉ pointerNames (reference.toList.drop 2)) ∧
        ∀ rules ∈ s.properties, lookup "__proto__" rules = none := by
    intro p fields s hp hfields hs
    have hplain := h p ((within_iff_mem_places hn).1 hp)
    simp only [Place.plain, Place.keywords, hfields, asObject, Option.bind_some, hs,
      Option.all_some, Bool.and_eq_true] at hplain
    refine ⟨fun reference href => ?_, fun rules hrules => ?_⟩
    · simpa [Option.mem_def.1 href] using hplain.1
    · simpa [Option.mem_def.1 hrules] using hplain.2
  constructor
  · exact fun p fields s hp hfields hs reference href =>
      ((hread p fields s hp hfields hs).1 reference href).1
  · exact fun p fields s hp hfields hs reference href =>
      ((hread p fields s hp hfields hs).1 reference href).2
  · exact fun p fields s hp hfields hs => (hread p fields s hp hfields hs).2

end DaemonFramework.Protocol
