import DaemonFramework.LocalBuild.Snapshots
import Mathlib.Data.List.Sort

/-!
# The policy of a preparation

`validate_policy` and `prepare_with_capture` of `shelllist-local-build/src/graph.rs`, with the
checks of `policy.rs` that they make. The policy looks at the inputs that each captured repository
declares, and never at a chain of inputs as the walk follows it, where the overlays of all
repositories along the chain are in force. What it says of the chains, and so of the edges that the
lock is made with, needs that overlays add nothing that was not looked at where it was declared.

That is `Shape.kept` for names, and `lookupField_merge` for a single input: an overlay that makes an
input follow another one makes it follow in what the walk sees. The main results are
`prepared_without_standalone` and `prepared_with_one_framework`.

The directories of repositories are named relative to the destination. What the copies contain, as
far as the policy reads it, is a parameter (`Checkouts`), and so is the lock of Nix.
-/

namespace DaemonFramework.LocalBuild

open Value Traversal
open Worklist (bind_eq_ok)

/-- `DAEMONS` -/
def daemons : List String := ["app-daemon", "bar-daemon", "bt-daemon", "clip-daemon", "nm-daemon"]

/-- `ensure!` -/
def ensure (condition : Prop) [Decidable condition] (text : String) : Except String Unit :=
  if condition then .ok () else .error text

/-- A loop of checks. -/
def each {α : Type} (check : α → Except String Unit) : List α → Except String Unit
  | [] => .ok ()
  | a :: rest => do
    check a
    each check rest

/-! ## Checks of `policy.rs` -/

/-- The names of inputs that are the framework's own. -/
def standaloneNames : List String := ["hyprlandIpc", "shelllist-hyprland"]

mutual

/-- `reject_standalone_hyprland` -/
def rejectStandaloneHyprland : Inputs → Except String Unit
  | [] => .ok ()
  | (name, spec) :: rest => do
    ensure (name ∉ standaloneNames)
      "shelllist-hyprland belongs in daemon-framework, not a separate input"
    rejectNested spec
    rejectStandaloneHyprland rest

/-- The check of the inputs nested in a specification. -/
def rejectNested : Value → Except String Unit
  | .object fields => rejectField fields
  | _ => .ok ()

/-- The check of the field `inputs`. -/
def rejectField : Inputs → Except String Unit
  | [] => .ok ()
  | (key, value) :: rest => if key = "inputs" then rejectOverrides value else rejectField rest

/-- The check of input overrides. -/
def rejectOverrides : Value → Except String Unit
  | .object inputs => rejectStandaloneHyprland inputs
  | _ => .error "input overrides must be an object"

end

/-- `value[key]`, which is null for what is not there. -/
def index (value : Value) (key : String) : Value := (value.get key).getD .null

/-- `input["inputs"][name]["follows"].as_str()` -/
def followed (input : Value) (name : String) : Option String :=
  asStr (index (index (index input "inputs") name) "follows")

/-- `validate_root` -/
def validateRoot (resolve : Path → List UInt8 → Except String Path) (rootInputs : Inputs)
    (frameworkCaptured : Bool) : Except String Unit :=
  match lookupField "daemon-framework" rootInputs with
  | none => .ok ()
  | some framework => do
    let path ← localPath resolve framework "/"
    ensure (path.isSome ∧ frameworkCaptured = true)
      "the shared root framework must be a current local checkout"
    each (fun name =>
      match lookupField name rootInputs with
      | none => .ok ()
      | some input =>
        ensure (followed input "daemonFramework" = some "daemon-framework")
          s!"{name} must follow the single root daemon-framework input") daemons
    match lookupField "shelllist" rootInputs with
    | none => .ok ()
    | some shelllist =>
      each (fun name =>
        ensure (followed shelllist name = some name)
          s!"shelllist/{name} must follow the root input") ("daemon-framework" :: daemons)

/-- What the policy reads in the directories of captured repositories. -/
structure Checkouts where
  /-- The manifest in a directory. -/
  manifest : String → Except String Value
  /-- Whether a directory has something at a path. -/
  present : String → String → Bool

/-- A dependency on a crate is the one in the sibling framework. -/
def sharesSibling (dependency : Option Value) (crateName : String) : Prop :=
  ∃ fields, dependency.bind asObject = some fields ∧
    (lookupField "path" fields).bind asStr =
      some s!"../daemon-framework/crates/{crateName}" ∧
    ∀ key ∈ ["git", "rev", "branch", "tag"], lookupField key fields = none

instance (dependency : Option Value) (crateName : String) :
    Decidable (sharesSibling dependency crateName) :=
  match h : dependency.bind asObject with
  | none => .isFalse fun ⟨_, hfields, _⟩ => by rw [h] at hfields; cases hfields
  | some fields =>
    decidable_of_iff
      ((lookupField "path" fields).bind asStr =
          some s!"../daemon-framework/crates/{crateName}" ∧
        ∀ key ∈ ["git", "rev", "branch", "tag"], lookupField key fields = none)
      ⟨fun hfields => ⟨fields, h, hfields⟩, fun ⟨_, hfields, hshares⟩ =>
        Option.some.inj (h.symm.trans hfields) ▸ hshares⟩

/-- `validate_daemon` -/
def validateDaemon (checkouts : Checkouts) (name directory : String) : Except String Unit := do
  let manifest ← checkouts.manifest directory
  match (manifest.get "dependencies").bind asObject with
  | none => .error "missing Cargo dependencies"
  | some dependencies => do
    let hyprland := name = "app-daemon" ∨ name = "bar-daemon" ∨
      (lookupField "shelllist-hyprland" dependencies).isSome
    each (fun crateName =>
      ensure (sharesSibling (lookupField crateName dependencies) crateName)
        s!"{name}: {crateName} must use the shared sibling framework")
      (["shelllist-daemon-core", "shelllist-daemon-tokio"] ++
        if hyprland then ["shelllist-hyprland"] else [])
    each (fun vendored =>
      ensure (checkouts.present directory vendored = false)
        s!"{name}: remove the private vendored framework crate at {vendored}")
      ["vendor/daemon-framework", "vendor/shelllist-hyprland"]

/-- `source.parent().join(name)` -/
def sibling (source : Path) (name : String) : Path :=
  String.ofList ((source.toList.reverse.dropWhile (· ≠ '/')).reverse ++ name.toList)

/-- `validate_source` -/
def validateSource (resolve : Path → List UInt8 → Except String Path) (checkouts : Checkouts)
    (source : Path) (captured : Source) : Except String Unit := do
  rejectStandaloneHyprland captured.inputs
  let name := (fileName source).getD ""
  if name ∈ daemons then do
    validateDaemon checkouts name captured.directory
    let framework ← localPath resolve
      ((lookupField "daemonFramework" captured.inputs).getD .null) source
    ensure (framework = some (sibling source "daemon-framework"))
      s!"{name}: daemonFramework must use the current sibling"
  else .ok ()

/-! ## The policy and the preparation -/

/-- `validate_policy` -/
def validatePolicy (resolve : Path → List UInt8 → Except String Path) (checkouts : Checkouts)
    (sources : List (Path × Source)) (rootInputs : Inputs) : Except String Unit := do
  rejectStandaloneHyprland rootInputs
  each (fun entry => validateSource resolve checkouts entry.1 entry.2)
    (sources.insertionSort fun a b => pathLe a.1 b.1)
  validateRoot resolve rootInputs
    (sources.any fun entry => fileName entry.1 = some "daemon-framework")

/-- `Prepared` -/
structure Prepared where
  /-- The reference of the locked flake. -/
  flake : String
  /-- The directories of the captured repositories. -/
  sources : List (Path × String)
  /-- Their store paths. -/
  storeSources : List (Path × String)
  /-- The root as it was captured. -/
  originalRoot : Option String

/-- `prepare_with_capture`, from the walk on. The lock of Nix is made in a directory with overridden
edges. -/
def prepareWithCapture (workspace : Workspace) (nix : Nix) (checkouts : Checkouts)
    (lock : String → List (String × String) → Except String Unit) (captureRoot : Bool) :
    Except String Prepared := do
  let graph ← (workspace.walkSnapshots nix).mapError Obstacle.text
  match graph.sources.lookup workspace.root with
  | none => .error "root was not captured"
  | some source => do
    validatePolicy workspace.resolve checkouts graph.sources source.inputs
    if captureRoot then
      ensure (".approval-root" ∉ graph.sources.map (·.2.directory) ∧
          ".approval-root" ∉ nix.occupied graph.calls)
        "approval snapshot basename collision"
    lock source.directory graph.overrides
    return {
      flake := s!"path:{source.directory}"
      sources := graph.sources.map fun entry => (entry.1, entry.2.directory)
      storeSources := graph.storeSources
      originalRoot := if captureRoot then some ".approval-root" else none }

/-! ## What checks that succeed say -/

/-- A condition that is ensured holds. -/
theorem ensure_eq_ok {condition : Prop} [Decidable condition] {text : String} :
    ensure condition text = .ok () ↔ condition := by
  unfold ensure
  split_ifs with h
  · simp [h]
  · simp [h]

/-- Each check of a loop that succeeds has succeeded. -/
theorem each_eq_ok {α : Type} {check : α → Except String Unit} {l : List α}
    (h : each check l = .ok ()) : ∀ a ∈ l, check a = .ok () := by
  induction l with
  | nil => exact nofun
  | cons a rest ih =>
    obtain ⟨⟨⟩, ha, hrest⟩ := bind_eq_ok h
    exact List.forall_mem_cons.2 ⟨ha, ih hrest⟩

/-- Names that are not the framework's own, in overrides that are objects. -/
def othersNames : Shape := ⟨fun name => name ∉ standaloneNames, true⟩

mutual

/-- Nothing is asked of values that are not inputs. -/
theorem conforms_other (shape : Shape) : ∀ value : Value, conforms shape .other value
  | .object fields => conformsFields_other shape fields
  | .null | .bool _ | .number _ | .string _ | .array _ => rfl

/-- Nothing is asked of fields that are not inputs. -/
theorem conformsFields_other (shape : Shape) : ∀ fields : Inputs, conformsFields shape .other fields
  | [] => rfl
  | (_, value) :: rest => by
    have hvalue := conforms_other shape value
    have hrest := conformsFields_other shape rest
    simp [conformsFields, Level.under, hvalue, hrest]

end

mutual

/-- Inputs that are not rejected have names of others, at every depth. -/
theorem conforms_of_reject : ∀ inputs : Inputs, orderedFields inputs →
    rejectStandaloneHyprland inputs = .ok () → conformsFields othersNames .inputs inputs
  | [], _, _ => rfl
  | (name, spec) :: rest, hordered, h => by
    obtain ⟨⟨⟩, hname, h⟩ := bind_eq_ok h
    obtain ⟨⟨⟩, hspec, h⟩ := bind_eq_ok h
    simp only [orderedFields, Bool.and_eq_true] at hordered
    have hname : othersNames.name name := by simpa [othersNames] using ensure_eq_ok.1 hname
    have hnested := conforms_of_rejectNested spec hordered.1.2 hspec
    have hrest := conforms_of_reject rest hordered.2 h
    simp [conformsFields, Level.under, hname, hnested, hrest]

/-- A specification whose nested inputs are not rejected. -/
theorem conforms_of_rejectNested : ∀ spec : Value, ordered spec →
    rejectNested spec = .ok () → conforms othersNames .spec spec
  | .object fields, hordered, h => conforms_of_rejectField fields hordered h
  | .null, _, _ | .bool _, _, _ | .number _, _, _ | .string _, _, _ | .array _, _, _ => rfl

/-- Fields of a specification whose nested inputs are not rejected. -/
theorem conforms_of_rejectField : ∀ fields : Inputs, orderedFields fields →
    rejectField fields = .ok () → conformsFields othersNames .spec fields
  | [], _, _ => rfl
  | (key, value) :: rest, hordered, h => by
    simp only [orderedFields, Bool.and_eq_true, List.all_eq_true, decide_eq_true_eq] at hordered
    rw [rejectField] at h
    by_cases hkey : key = "inputs"
    · rw [if_pos hkey] at h
      have hvalue := conforms_of_rejectOverrides value hordered.1.2 h
      -- Behind this field there is no other one of its name.
      have hrest : conformsFields othersNames .spec rest := by
        refine conformsFields_iff.2 fun field hfield => ⟨nofun, ?_⟩
        have hother : field.1 ≠ "inputs" := by
          rintro heq
          exact absurd (hordered.1.1 field hfield) (by rw [heq, hkey]; exact String.lt_irrefl _)
        simp only [Level.under, if_neg hother]
        exact conforms_other _ _
      simp [conformsFields, Level.under, hkey, hvalue, hrest]
    · rw [if_neg hkey] at h
      have hvalue := conforms_other othersNames value
      have hrest := conforms_of_rejectField rest hordered.2 h
      simp [conformsFields, Level.under, hkey, hvalue, hrest]

/-- Input overrides that are not rejected. -/
theorem conforms_of_rejectOverrides : ∀ value : Value, ordered value →
    rejectOverrides value = .ok () → conforms othersNames .inputs value
  | .object inputs, hordered, h => conforms_of_reject inputs hordered h
  | .null, _, h | .bool _, _, h | .number _, _, h | .string _, _, h | .array _, _, h => by cases h

end

/-- The inputs along a chain have names of the shape that the repositories' own inputs have. -/
theorem Chain.names_conform {workspace : Workspace} {shape : Shape} {source target : Overlaid}
    {names : List String} (hshape : ∀ source ∈ workspace.repositories,
      conformsFields shape .inputs (workspace.definitions source))
    (hreach : Reach workspace.children (workspace.root, none) source)
    (h : Chain workspace.toAssignment source names target) :
    ∀ name ∈ names, shape.name name := by
  induction h with
  | here => exact nofun
  | @on source target input child overlay names hinput hchild hoverlay _ ih =>
    have hfield := shape.kept.direct_of_reach (i := .inputs) hshape
      (fun _ _ _ hfield hnested => Shape.nested hfield hnested) hreach input hinput
    have hedge : (child, overlay) ∈ workspace.children source :=
      List.mem_filterMap.2 ⟨input, hinput, workspace.childOf_eq_some hchild hoverlay⟩
    exact List.forall_mem_cons.2 ⟨hfield.1 rfl, ih (hreach.tail hedge)⟩

/-! ## What overlays do to one input -/

/-- A field of an ordered map is the one that is found. -/
theorem lookupField_of_mem {fields : Inputs} (h : orderedFields fields) {field : String × Value}
    (hfield : field ∈ fields) : lookupField field.1 fields = some field.2 := by
  induction fields with
  | nil => cases hfield
  | cons first rest ih =>
    simp only [orderedFields, Bool.and_eq_true, List.all_eq_true, decide_eq_true_eq] at h
    rcases List.mem_cons.1 hfield with rfl | hrest
    · simp [lookupField]
    · have hne : first.1 ≠ field.1 := fun heq =>
        absurd (h.1.1 field hrest) (by rw [heq]; exact String.lt_irrefl _)
      rw [lookupField, if_neg hne]
      exact ih h.2 hrest

/-- The value that an overlay gives a field. -/
def merged (old : Option Value) : Value → Value
  | .object right =>
    match old with
    | some (.object left) => .object (merge left right)
    | _ => .object right
  | value => value

/-- A field of an overlay changes the field of its name, and no other. -/
theorem lookupField_mergeField (target : Inputs) (key : String) (value : Value) (other : String) :
    lookupField other (mergeField target key value) =
      if other = key then some (merged (lookupField key target) value)
      else lookupField other target := by
  have hinsert : ∀ value, lookupField other (insertField key value target) =
      if other = key then some value else lookupField other target := by
    intro value
    by_cases hother : other = key
    · subst hother
      rw [if_pos rfl, lookupField_insertField_self]
    · rw [if_neg hother, lookupField_insertField_ne (Ne.symm hother)]
  cases value with
  | object right =>
    unfold mergeField merged
    cases hleft : lookupField key target with
    | none => exact hinsert _
    | some old =>
      cases old with
      | object left =>
        dsimp only
        rw [lookupField_modifyField]
        by_cases hother : other = key
        · subst hother
          rw [if_pos rfl, if_pos rfl, hleft]
          rfl
        · rw [if_neg hother, if_neg hother]
      | _ => exact hinsert _
  | _ => exact hinsert _

/-- What is found under an overlay: its own field over the old one, or the old one. -/
theorem lookupField_merge {overlay : Inputs} (h : orderedFields overlay) (target : Inputs)
    (key : String) :
    lookupField key (merge target overlay) =
      match lookupField key overlay with
      | none => lookupField key target
      | some value => some (merged (lookupField key target) value) := by
  induction overlay generalizing target with
  | nil => rfl
  | cons field rest ih =>
    obtain ⟨k, value⟩ := field
    simp only [orderedFields, Bool.and_eq_true, List.all_eq_true, decide_eq_true_eq] at h
    rw [merge, ih h.2, lookupField, lookupField_mergeField]
    by_cases hkey : k = key
    · subst hkey
      have hrest : lookupField k rest = none := by
        by_contra hfound
        obtain ⟨other, hother⟩ := Option.ne_none_iff_exists'.1 hfound
        exact absurd (h.1.1 _ (mem_of_lookupField hother)) (String.lt_irrefl _)
      simp [hrest]
    · have hother : ¬ key = k := fun heq => hkey heq.symm
      simp only [if_neg hkey, if_neg hother]

/-- What an overlay has in a field stays in it. -/
theorem isSome_get_merged {right : Inputs} (hright : orderedFields right) {key : String}
    (h : (lookupField key right).isSome) (old : Option Value) :
    ((merged old (.object right)).get key).isSome := by
  obtain ⟨value, hvalue⟩ := Option.isSome_iff_exists.1 h
  cases old with
  | none => exact h
  | some old =>
    cases old with
    | object left =>
      show (lookupField key (merge left right)).isSome
      rw [lookupField_merge hright, hvalue]
      rfl
    | _ => exact h

/-- An index that is not null is a field. -/
theorem get_of_index_ne {value : Value} {key : String} (h : index value key ≠ .null) :
    value.get key = some (index value key) := by
  unfold index at h ⊢
  cases hget : value.get key with
  | none => exact absurd (by rw [hget]; rfl) h
  | some field => rfl

/-- A specification that makes a nested input follow has an overlay in which it does. -/
theorem nestedInputs_of_followed {input : Value} {name target : String}
    (h : followed input name = some target) :
    ∃ overlay spec, nestedInputs input = .ok (some overlay) ∧
      lookupField name overlay = some spec ∧ (spec.get "follows").isSome := by
  unfold followed at h
  have hfollows : index (index (index input "inputs") name) "follows" ≠ .null := by
    intro hnull
    rw [hnull] at h
    cases h
  have hget := get_of_index_ne hfollows
  have hspec : index (index input "inputs") name ≠ .null := by
    intro hnull
    rw [hnull] at hget
    cases hget
  have hlookup := get_of_index_ne hspec
  generalize index (index input "inputs") name = spec at hget hlookup
  have hinputs : index input "inputs" ≠ .null := by
    intro hnull
    rw [hnull] at hlookup
    cases hlookup
  have hnested := get_of_index_ne hinputs
  generalize index input "inputs" = value at hlookup hnested
  cases value with
  | object overlay =>
    exact ⟨overlay, spec, by simp [nestedInputs, hnested], hlookup, by rw [hget]; rfl⟩
  | _ => cases hlookup

/-- An input that an overlay makes follow another one is not a direct input. -/
theorem Assignment.name_ne_of_follows {assignment : Assignment} {source : Path} {overlay : Inputs}
    (hdefinitions : orderedFields (assignment.definitions source))
    (hoverlay : orderedFields overlay)
    {name : String} {spec : Value} (hspec : lookupField name overlay = some spec)
    (hfollows : (spec.get "follows").isSome) :
    ∀ input ∈ assignment.direct (source, some overlay), input.1 ≠ name := by
  intro input hinput hname
  have hne : overlay ≠ [] := by
    rintro rfl
    cases hspec
  have hdirect : input ∈ directInputs (merge (assignment.definitions source) overlay) := by
    unfold Assignment.direct overlaid at hinput
    simpa only [if_neg hne] using hinput
  obtain ⟨hmem, hdirect⟩ := List.mem_filter.1 hdirect
  have hmerged : orderedFields (merge (assignment.definitions source) overlay) :=
    orderedKept.merge (i := ()) hdefinitions overlay hoverlay
  have hfound := lookupField_of_mem hmerged hmem
  rw [hname, lookupField_merge hoverlay, hspec] at hfound
  have hvalue := Option.some.inj hfound
  -- The overlay's specification is a map with `follows`, and it keeps that over any other map.
  have hkeeps : ((merged (lookupField name (assignment.definitions source)) spec).get
      "follows").isSome := by
    cases spec with
    | object right =>
      exact isSome_get_merged (orderedKept.found (i := ()) hoverlay hspec) hfollows _
    | _ => cases hfollows
  rw [hvalue] at hkeeps
  rw [Option.isNone_iff_eq_none.1 hdirect] at hkeeps
  cases hkeeps

/-- No chain goes through an input that the root makes follow another one. -/
theorem Chain.not_prefix_of_followed {workspace : Workspace}
    (hordered : ∀ source ∈ workspace.repositories, orderedFields (workspace.definitions source))
    {name nested followee : String} {input : Value}
    (hinput : lookupField name (workspace.definitions workspace.root) = some input)
    (hfollowed : followed input nested = some followee) {names : List String} {target : Overlaid}
    (h : Chain workspace.toAssignment (workspace.root, none) names target) :
    ¬ [name, nested] <+: names := by
  rintro ⟨rest, rfl⟩
  have hroot := hordered _ (workspace.assigned _ .refl)
  obtain ⟨overlay, spec, hnested, hspec, hfollows⟩ := nestedInputs_of_followed hfollowed
  rw [List.cons_append, List.cons_append, List.nil_append] at h
  generalize hnames : name :: nested :: rest = names at h
  cases h with
  | here => cases hnames
  | @on _ _ first child overlay' names hfirst hchild hoverlay h =>
    obtain ⟨rfl, rfl⟩ := List.cons.inj hnames
    have hmem : first ∈ workspace.definitions workspace.root := List.mem_of_mem_filter hfirst
    have hsame := (lookupField_of_mem hroot hmem).symm.trans hinput
    obtain rfl := Option.some.inj hsame
    obtain rfl : some overlay = overlay' := Except.ok.inj (hnested.symm.trans hoverlay)
    have hchildren : (child, some overlay) ∈ workspace.children (workspace.root, none) :=
      List.mem_filterMap.2 ⟨first, hfirst, workspace.childOf_eq_some hchild hoverlay⟩
    have hdefinitions := hordered child (workspace.assigned _ (.head hchildren .refl))
    have hspecOrdered : ordered first.2 := (orderedFields_iff.1 hroot).2 _ hmem
    have hne := workspace.name_ne_of_follows hdefinitions
      (ordered_nested hspecOrdered hnested) hspec
      hfollows
    generalize hrest : nested :: rest = names at h
    cases h with
    | here => cases hrest
    | @on _ _ second _ _ _ hsecond _ _ _ => exact hne second hsecond (List.cons.inj hrest).1.symm

/-- The first input of a chain is one of the root's. -/
theorem Chain.exists_input_of_prefix {workspace : Workspace}
    (hordered : ∀ source ∈ workspace.repositories, orderedFields (workspace.definitions source))
    {name nested : String} {names : List String} {target : Overlaid}
    (h : Chain workspace.toAssignment (workspace.root, none) names target)
    (hfirst : [name, nested] <+: names) :
    ∃ input, lookupField name (workspace.definitions workspace.root) = some input := by
  obtain ⟨rest, hrest⟩ := hfirst
  cases h with
  | here => cases hrest
  | @on _ _ input _ _ _ hinput _ _ _ =>
    have hmem : input ∈ workspace.definitions workspace.root := List.mem_of_mem_filter hinput
    have hfound := lookupField_of_mem (hordered _ (workspace.assigned _ .refl)) hmem
    rw [← (List.cons.inj hrest).1] at hfound
    exact ⟨input.2, hfound⟩

/-- A field that an overlay does not have is found as it was. -/
theorem lookupField_overlaid {inputs : Inputs} {overlay : Option Inputs} {key : String}
    (hordered : ∀ fields ∈ overlay, orderedFields fields)
    (h : ∀ fields ∈ overlay, lookupField key fields = none) :
    lookupField key (overlaid inputs overlay) = lookupField key inputs := by
  unfold overlaid
  split
  · rfl
  · rename_i fields
    split_ifs
    · rfl
    · rw [lookupField_merge (hordered fields rfl), h fields rfl]

/-! ## What a preparation that succeeds says -/

/-- The policy has accepted a graph. -/
structure Accepted (workspace : Workspace) (checkouts : Checkouts) (graph : Snapshots) : Prop where
  /-- Each captured repository was accepted. -/
  sources : ∀ entry ∈ graph.sources,
    validateSource workspace.resolve checkouts entry.1 entry.2 = .ok ()
  /-- The inputs of the root were accepted. -/
  framework : validateRoot workspace.resolve (workspace.definitions workspace.root)
    (graph.sources.any fun entry => fileName entry.1 = some "daemon-framework") = .ok ()

variable {workspace : Workspace} {nix : Nix} {checkouts : Checkouts}
  {lock : String → List (String × String) → Except String Unit} {captureRoot : Bool}
  {prepared : Prepared}

/-- A preparation that succeeds has walked the graph, which the policy has accepted, and has locked
the root with its overrides. -/
theorem accepted_of_prepare
    (h : prepareWithCapture workspace nix checkouts lock captureRoot = .ok prepared) :
    ∃ graph repositories, workspace.walkSnapshots nix = .ok graph ∧
      workspace.walkGraph = .ok repositories ∧
      Snapshots.Simulates workspace nix graph repositories ∧
      Accepted workspace checkouts graph ∧ lock "root" graph.overrides = .ok () := by
  obtain ⟨graph, hgraph, h⟩ := bind_eq_ok h
  -- The walk reports its obstacle as the error of the preparation.
  have hwalk : workspace.walkSnapshots nix = .ok graph := by
    cases hresult : workspace.walkSnapshots nix with
    | error obstacle =>
      rw [hresult] at hgraph
      cases hgraph
    | ok graph' =>
      rw [hresult] at hgraph
      obtain rfl := Except.ok.inj hgraph
      rfl
  obtain ⟨repositories, hrepositories, hsim⟩ :=
    Snapshots.exists_simulated Snapshots.simulates_empty hwalk
  cases hsource : graph.sources.lookup workspace.root with
  | none => simp [hsource] at h
  | some source =>
    simp only [hsource] at h
    obtain ⟨hdirectory, hinputs⟩ := hsim.captured _ (mem_of_lookup hsource)
    -- The root is captured first, under its fixed directory.
    have hroot : source.directory = "root" := by
      simpa [Graph.directory, eq_comm] using hdirectory
    obtain ⟨⟨⟩, hpolicy, h⟩ := bind_eq_ok h
    obtain ⟨⟨⟩, -, hpolicy⟩ := bind_eq_ok hpolicy
    obtain ⟨⟨⟩, hsources, hframework⟩ := bind_eq_ok hpolicy
    rw [hinputs] at hframework
    -- With or without a capture of the root, its lock is written.
    have hlock : lock source.directory graph.overrides = .ok () := by
      cases captureRoot with
      | true =>
        obtain ⟨⟨⟩, -, h⟩ := bind_eq_ok h
        obtain ⟨⟨⟩, hlock, -⟩ := bind_eq_ok h
        exact hlock
      | false =>
        obtain ⟨⟨⟩, hlock, -⟩ := bind_eq_ok h
        exact hlock
    rw [hroot] at hlock
    refine ⟨graph, repositories, hwalk, hrepositories, hsim, ⟨fun entry hentry => ?_, hframework⟩,
      hlock⟩
    exact each_eq_ok hsources entry ((List.perm_insertionSort _ _).mem_iff.2 hentry)

/-- The repositories of a workspace that its inputs lead to. -/
def Workspace.restrict (workspace : Workspace) (sources : List Path)
    (h : ∀ source, Reach workspace.children (workspace.root, none) source → source.1 ∈ sources) :
    Workspace where
  toAssignment := workspace.toAssignment
  root := workspace.root
  repositories := sources
  assigned := h

/-- Where the policy has accepted a graph, no chain goes through an input that is the framework's
own: the check is of each repository's own inputs, and overlays add no other names. -/
theorem Accepted.standalone {graph : Snapshots} {repositories : Graph}
    (haccepted : Accepted workspace checkouts graph)
    (hrepositories : workspace.walkGraph = .ok repositories)
    (hsim : Snapshots.Simulates workspace nix graph repositories)
    (hordered : ∀ source ∈ workspace.repositories, orderedFields (workspace.definitions source))
    {names : List String} {target : Overlaid}
    (h : Chain workspace.toAssignment (workspace.root, none) names target) :
    ∀ name ∈ names, name ∉ standaloneNames := by
  have hcaptured : ∀ source, Reach workspace.children (workspace.root, none) source →
      source.1 ∈ graph.sources.map Prod.fst := by
    intro source hreach
    rw [← hsim.sources]
    exact (Graph.mem_sources_iff hrepositories _).2 ⟨source, hreach, rfl⟩
  have hshape : ∀ source ∈ graph.sources.map Prod.fst,
      conformsFields othersNames .inputs (workspace.definitions source) := by
    intro source hsource
    obtain ⟨⟨source, captured⟩, hentry, rfl⟩ := List.mem_map.1 hsource
    obtain ⟨⟨⟩, hreject, -⟩ := bind_eq_ok (haccepted.sources _ hentry)
    rw [(hsim.captured _ hentry).2] at hreject
    obtain ⟨other, hreach, hother⟩ := (Graph.mem_sources_iff hrepositories source).1
      (hsim.sources ▸ hsource)
    exact conforms_of_reject _ (hordered _ (hother ▸ workspace.assigned other hreach)) hreject
  intro name hname
  have hother := @Chain.names_conform
    (workspace.restrict _ hcaptured) othersNames _ _ _ hshape .refl h
    name hname
  simpa [othersNames] using hother

/-- A root with a daemon and its framework, which the daemon is to follow. -/
def suiteInputs : Assignment where
  definitions source :=
    if source = "/w/root" then
      [("app-daemon", .object [
          ("inputs", .object [("daemonFramework", .object [("follows", .string "daemon-framework")])]),
          ("url", .string "git+file:a")]),
        ("daemon-framework", .object [("url", .string "git+file:f")])]
    else if source = "/w/app-daemon" then
      [("daemonFramework", .object [("url", .string "git+file:f")])]
    else []
  resolve _ path :=
    if path = [97] then .ok "/w/app-daemon"
    else if path = [102] then .ok "/w/daemon-framework"
    else .error "not found"

/-- The three repositories as a workspace. -/
def suite : Workspace where
  toAssignment := suiteInputs
  root := "/w/root"
  repositories := ["/w/root", "/w/app-daemon", "/w/daemon-framework"]
  assigned := by
    refine suiteInputs.assigned_of_resolve (by simp) fun source path child h => ?_
    simp only [suiteInputs] at h
    split_ifs at h
    · obtain rfl := Except.ok.inj h
      simp
    · obtain rfl := Except.ok.inj h
      simp

/-- A daemon that depends on the crates of the sibling framework. -/
def suiteCheckouts : Checkouts where
  manifest _ := .ok (.object [("dependencies", .object
    (["shelllist-daemon-core", "shelllist-daemon-tokio", "shelllist-hyprland"].map fun crateName =>
      (crateName, .object [("path", .string s!"../daemon-framework/crates/{crateName}")])))])
  present _ _ := false

/-- The suite is prepared, with two overrides. -/
theorem exists_prepared_suite : ∃ prepared,
    prepareWithCapture suite namingNix suiteCheckouts (fun _ _ => .ok ()) true = .ok prepared :=
  ⟨_, rfl⟩

/-- What a preparation locks has no input that is the framework's own. Over maps with ordered keys:
if a preparation succeeds, each override of its lock is the edge of a chain of inputs as the walk
follows them, under all overlays along it, with the store path of the repository that the chain
leads to; and no input along it is `hyprlandIpc` or `shelllist-hyprland`, in whatever repository or
overlay it was declared. -/
theorem prepared_without_standalone (workspace : Workspace) (nix : Nix) (checkouts : Checkouts)
    (lock : String → List (String × String) → Except String Unit) (captureRoot : Bool)
    (hordered : ∀ source ∈ workspace.repositories, orderedFields (workspace.definitions source))
    (prepared : Prepared)
    (h : prepareWithCapture workspace nix checkouts lock captureRoot = .ok prepared) :
    ∃ graph, workspace.walkSnapshots nix = .ok graph ∧ lock "root" graph.overrides = .ok () ∧
      ∀ entry ∈ graph.overrides, ∃ names target,
        Chain workspace.toAssignment (workspace.root, none) names target ∧
          entry.1 = names.foldl Graph.edgeName "" ∧
          graph.storeSources.lookup target.1 = some entry.2 ∧
          ∀ name ∈ names, name ∉ standaloneNames := by
  obtain ⟨graph, repositories, hwalk, hrepositories, hsim, haccepted, hlock⟩ :=
    accepted_of_prepare h
  refine ⟨graph, hwalk, hlock, fun ⟨edge, path⟩ hentry => ?_⟩
  obtain ⟨child, hedge, hstored⟩ := (hsim.mem_overrides edge path).1 hentry
  rw [Workspace.overrides_of_walkGraph hrepositories] at hedge
  obtain ⟨⟨names, child'⟩, hchain, heq⟩ := List.mem_map.1 hedge
  obtain ⟨rfl, rfl⟩ := Prod.mk.inj heq
  obtain ⟨-, target, htarget, rfl⟩ :=
    (Workspace.mem_chainsFrom_iff (Graph.stop_notMem_itinerary hrepositories)).1 hchain
  exact ⟨names, target, htarget, rfl, hstored,
    haccepted.standalone hrepositories hsim hordered htarget⟩

/-- The overrides of the suite. -/
theorem prepared_without_standalone_suite : ∃ graph,
    suite.walkSnapshots namingNix = .ok graph ∧
      ∀ entry ∈ graph.overrides, ∃ names target,
        Chain suite.toAssignment (suite.root, none) names target ∧
          entry.1 = names.foldl Graph.edgeName "" ∧
          graph.storeSources.lookup target.1 = some entry.2 ∧
          ∀ name ∈ names, name ∉ standaloneNames := by
  obtain ⟨prepared, hprepared⟩ := exists_prepared_suite
  obtain ⟨graph, hwalk, -, hoverrides⟩ :=
    prepared_without_standalone suite namingNix suiteCheckouts _
    true (by decide +kernel) prepared hprepared
  exact ⟨graph, hwalk, hoverrides⟩

/-- What the policy says of the inputs of a root with a framework. -/
theorem Accepted.root_follows {graph : Snapshots} (haccepted : Accepted workspace checkouts graph)
    (hroot : (lookupField "daemon-framework" (workspace.definitions workspace.root)).isSome) :
    (∃ entry ∈ graph.sources, fileName entry.1 = some "daemon-framework") ∧
      (∀ daemon ∈ daemons, ∀ input,
        lookupField daemon (workspace.definitions workspace.root) = some input →
          followed input "daemonFramework" = some "daemon-framework") ∧
      ∀ name ∈ "daemon-framework" :: daemons, ∀ input,
        lookupField "shelllist" (workspace.definitions workspace.root) = some input →
          followed input name = some name := by
  have h := haccepted.framework
  unfold validateRoot at h
  obtain ⟨framework, hframework⟩ := Option.isSome_iff_exists.1 hroot
  rw [hframework] at h
  obtain ⟨path, -, h⟩ := bind_eq_ok h
  obtain ⟨⟨⟩, hcaptured, h⟩ := bind_eq_ok h
  obtain ⟨⟨⟩, hdaemons, h⟩ := bind_eq_ok h
  refine ⟨?_, fun daemon hdaemon input hinput => ?_, fun name hname input hinput => ?_⟩
  · obtain ⟨entry, hentry, hname⟩ := List.any_eq_true.1 (ensure_eq_ok.1 hcaptured).2
    exact ⟨entry, hentry, of_decide_eq_true hname⟩
  · have hcheck := each_eq_ok hdaemons daemon hdaemon
    rw [hinput] at hcheck
    exact ensure_eq_ok.1 hcheck
  · rw [hinput] at h
    exact ensure_eq_ok.1 (each_eq_ok h name hname)

/-- What the policy says of the framework input of a daemon. -/
theorem Accepted.daemon_framework {graph : Snapshots}
    (haccepted : Accepted workspace checkouts graph) {entry : Path × Source}
    (hentry : entry ∈ graph.sources) {name : String} (hname : fileName entry.1 = some name)
    (hdaemon : name ∈ daemons) :
    localPath workspace.resolve
      ((lookupField "daemonFramework" entry.2.inputs).getD .null) entry.1 =
      .ok (some (sibling entry.1 "daemon-framework")) := by
  obtain ⟨⟨⟩, -, h⟩ := bind_eq_ok (haccepted.sources entry hentry)
  rw [hname, Option.getD_some, if_pos hdaemon] at h
  obtain ⟨⟨⟩, -, h⟩ := bind_eq_ok h
  obtain ⟨framework, hframework, h⟩ := bind_eq_ok h
  rw [hframework, ensure_eq_ok.1 h]

/-- A preparation uses one framework. Over maps with ordered keys: if a preparation succeeds whose
root has an input `daemon-framework`, then a repository of this name is captured, and no chain of
inputs goes through the framework of a daemon of the root, or through a daemon or the framework of
its `shelllist`: none of these is overridden, as they follow the root's. In every preparation that
succeeds, a daemon whose framework no overlay touches has the sibling repository as its framework.
-/
theorem prepared_with_one_framework (workspace : Workspace) (nix : Nix) (checkouts : Checkouts)
    (lock : String → List (String × String) → Except String Unit) (captureRoot : Bool)
    (hordered : ∀ source ∈ workspace.repositories, orderedFields (workspace.definitions source))
    (prepared : Prepared)
    (h : prepareWithCapture workspace nix checkouts lock captureRoot = .ok prepared) :
    ((lookupField "daemon-framework" (workspace.definitions workspace.root)).isSome →
      (∃ graph, workspace.walkSnapshots nix = .ok graph ∧
        ∃ entry ∈ graph.sources, fileName entry.1 = some "daemon-framework") ∧
      ∀ names target, Chain workspace.toAssignment (workspace.root, none) names target →
        (∀ daemon ∈ daemons, ¬ [daemon, "daemonFramework"] <+: names) ∧
        ∀ name ∈ "daemon-framework" :: daemons, ¬ ["shelllist", name] <+: names) ∧
    ∀ names daemon overlay name target,
      Chain workspace.toAssignment (workspace.root, none) names (daemon, overlay) →
      fileName daemon = some name → name ∈ daemons →
      (∀ fields ∈ overlay, lookupField "daemonFramework" fields = none) →
      Chain workspace.toAssignment (daemon, overlay) ["daemonFramework"] target →
        target.1 = sibling daemon "daemon-framework" := by
  obtain ⟨graph, repositories, hwalk, hrepositories, hsim, haccepted, -⟩ := accepted_of_prepare h
  refine ⟨fun hroot => ?_,
    fun names daemon overlay name target hchain hname hdaemon htouched htarget => ?_⟩
  -- The root has the framework, so everything below is made to follow it.
  · obtain ⟨hcaptured, hdaemons, hshelllist⟩ := haccepted.root_follows hroot
    refine ⟨⟨graph, hwalk, hcaptured⟩, fun names target hchain =>
      ⟨fun daemon hdaemon hprefix => ?_, fun name hname hprefix => ?_⟩⟩
    · obtain ⟨input, hinput⟩ := hchain.exists_input_of_prefix hordered hprefix
      have hfollowed := hdaemons daemon hdaemon input hinput
      exact hchain.not_prefix_of_followed hordered hinput hfollowed hprefix
    · obtain ⟨input, hinput⟩ := hchain.exists_input_of_prefix hordered hprefix
      exact hchain.not_prefix_of_followed hordered hinput
        (hshelllist name hname input hinput) hprefix
  -- The daemon is captured, so its own definition of the framework was compared with the sibling.
  · have hreach := hchain.reach
    have hmem : daemon ∈ graph.sources.map Prod.fst := by
      rw [← hsim.sources]
      exact (Graph.mem_sources_iff hrepositories _).2 ⟨_, hreach, rfl⟩
    obtain ⟨⟨daemon, captured⟩, hentry, rfl⟩ := List.mem_map.1 hmem
    have hframework := haccepted.daemon_framework hentry hname hdaemon
    rw [(hsim.captured _ hentry).2] at hframework
    -- Without an overlay on the framework the chain takes this very definition.
    have hoverlay := orderedKept.overlay_of_reach (i := ()) hordered
      (fun _ _ _ hfield hnested => ordered_nested hfield hnested) hreach
    have hdefinitions := hordered _ (workspace.assigned _ hreach)
    generalize hnames : ["daemonFramework"] = names at htarget
    cases htarget with
    | here => cases hnames
    | @on _ _ input child overlay' names hinput hchild _ hrest =>
      obtain ⟨heq, rfl⟩ := List.cons.inj hnames
      cases hrest
      have hfound := lookupField_of_mem (orderedKept.overlaid (i := ()) hdefinitions hoverlay)
        (List.mem_of_mem_filter hinput)
      rw [← heq, lookupField_overlaid hoverlay htouched] at hfound
      rw [hfound, Option.getD_some] at hframework
      exact Option.some.inj (Except.ok.inj (hchild.symm.trans hframework))

/-- The daemon of the suite follows the framework of the root. -/
theorem prepared_with_one_framework_suite : ∃ prepared,
    prepareWithCapture suite namingNix suiteCheckouts (fun _ _ => .ok ()) true = .ok prepared ∧
      ∀ names target, Chain suite.toAssignment (suite.root, none) names target →
        ¬ ["app-daemon", "daemonFramework"] <+: names := by
  obtain ⟨prepared, hprepared⟩ := exists_prepared_suite
  obtain ⟨hroot, -⟩ := prepared_with_one_framework suite namingNix suiteCheckouts _ true
    (by decide +kernel) prepared hprepared
  exact ⟨prepared, hprepared, fun names target hchain =>
    ((hroot rfl).2 names target hchain).1 "app-daemon" (by decide)⟩

end DaemonFramework.LocalBuild
