import DaemonFramework.LocalBuild.Follows
import DaemonFramework.LocalBuild.Policy
import Mathlib.Data.List.Sort

/-!
# The preflight

`preflight` of `shelllist-local-build/src/preflight.rs`. The scan walks each pair of a repository
and an overlay once, collects problems instead of stopping at them, and reports the repositories if
there is none. Its recursion is bounded by the number of repositories: the ancestors of a walk are
distinct.

A walk of the scan that finds no problem is a depth-first traversal of the pairs, with the
repositories as their places, so `preflight_eq_ok_iff` reads its result off `scan_eq_none_iff`.
-/

namespace DaemonFramework.LocalBuild

open Value Traversal

/-- The text of a failure. -/
def Failure.text : Failure → String
  | .message text => text
  | .exhausted => ""

/-- `Scan`. -/
structure Scan where
  /-- The repositories that were inspected. -/
  definitions : List Path
  /-- The pairs that were walked. -/
  walked : List Overlaid
  /-- The problems. -/
  problems : List Failure

namespace Scan

/-- A problem is noted. -/
def note (scan : Scan) (problem : Failure) : Scan :=
  { scan with problems := scan.problems ++ [problem] }

/-- A pair is walked, and its repository inspected if it was not before. -/
def enter (scan : Scan) (source : Overlaid) : Scan :=
  { scan with
    walked := source :: scan.walked
    definitions :=
      if source.1 ∈ scan.definitions then scan.definitions else source.1 :: scan.definitions }

/-- The body of the loop over the direct inputs of `source`, with the walk of a child. -/
def follow (assignment : Assignment) (source : Path) (walk : Scan → Overlaid → Scan) (scan : Scan)
    (input : String × Value) : Scan :=
  match assignment.edge source input.2 with
  | .error error => scan.note (.message s!"Cannot inspect {source}/{input.1}: {error}")
  | .ok none => scan
  | .ok (some child) => walk scan child

/-- `Scan::walk`. -/
def walk (assignment : Assignment) : ℕ → List Path → Scan → Overlaid → Scan
  | fuel, ancestors, scan, source =>
    if source.1 ∈ ancestors then scan.note (.message s!"Local input cycle at {source.1}")
    else if source ∈ scan.walked then scan
    else
      match fuel with
      | 0 => scan.note .exhausted
      | fuel + 1 =>
        (assignment.direct source).foldl
          (follow assignment source.1 (walk assignment fuel (source.1 :: ancestors)))
          (scan.enter source)

end Scan

/-- The scan of a workspace from its root. -/
def Workspace.scan (workspace : Workspace) : Scan :=
  Scan.walk workspace.toAssignment workspace.repositories.length [] ⟨[], [], []⟩
    (workspace.root, none)

/-- The order of paths, component by component. -/
def pathLe (a b : Path) : Bool := !decide (b.toList.splitOn '/' < a.toList.splitOn '/')

/-- The repositories that were inspected, in the order of a map's keys. -/
def Scan.repositories (scan : Scan) : List Path := scan.definitions.insertionSort (pathLe · ·)

/-- `preflight`: the repositories of the report, or the text of the error. -/
def preflight (workspace : Workspace) : Except String (List Path) :=
  let problems := workspace.scan.problems
  if problems = [] then .ok workspace.scan.repositories
  else
    let list := "\n\n".intercalate (problems.map Failure.text)
    .error (s!"Local worktree preflight failed:\n\n{list}\n\n" ++
      "Add or ignore untracked files explicitly; rebuild never changes Git tracking.")

namespace Scan

variable {assignment : Assignment}

/-- A step of `Scan::walk`. -/
theorem walk_succ (fuel : ℕ) (ancestors : List Path) (scan : Scan) (source : Overlaid) :
    walk assignment (fuel + 1) ancestors scan source =
      if source.1 ∈ ancestors then scan.note (.message s!"Local input cycle at {source.1}")
      else if source ∈ scan.walked then scan
      else
        (assignment.direct source).foldl
          (follow assignment source.1 (walk assignment fuel (source.1 :: ancestors)))
          (scan.enter source) := by
  rw [walk]

/-- The second scan has noted at least as many problems as the first. -/
def Grows (scan scan' : Scan) : Prop := scan.problems.length ≤ scan'.problems.length

/-- A scan that notes a problem has noted more than before. -/
theorem not_grows_note (scan : Scan) (problem : Failure) : ¬ (scan.note problem).Grows scan := by
  simp [Grows, note]

/-- Noting a problem takes none back. -/
theorem grows_note (scan : Scan) (problem : Failure) : scan.Grows (scan.note problem) := by
  simp [Grows, note]

/-- Following an input takes no problem back, if walking its repository does not. -/
theorem grows_follow {source : Path} {visit : Scan → Overlaid → Scan}
    (hvisit : ∀ (scan : Scan) (child : Overlaid), scan.Grows (visit scan child)) (scan : Scan)
    (input : String × Value) : scan.Grows (follow assignment source visit scan input) := by
  unfold follow
  split
  · exact grows_note _ _
  · exact Nat.le_refl _
  · exact hvisit scan _

/-- Following inputs takes no problem back, if walking their repositories does not. -/
theorem grows_foldl {source : Path} {visit : Scan → Overlaid → Scan}
    (hvisit : ∀ (scan : Scan) (child : Overlaid), scan.Grows (visit scan child)) (inputs : Inputs)
    (scan : Scan) : scan.Grows (inputs.foldl (follow assignment source visit) scan) := by
  induction inputs generalizing scan with
  | nil => exact Nat.le_refl _
  | cons input rest ih => exact Nat.le_trans (grows_follow hvisit scan input) (ih _)

/-- A walk takes no problem back. -/
theorem grows_walk (fuel : ℕ) (ancestors : List Path) (scan : Scan) (source : Overlaid) :
    scan.Grows (walk assignment fuel ancestors scan source) := by
  induction fuel generalizing ancestors scan source with
  | zero =>
    rw [walk]
    split_ifs
    · exact grows_note _ _
    · exact Nat.le_refl _
    · exact grows_note _ _
  | succ fuel ih =>
    rw [walk_succ]
    split_ifs
    · exact grows_note _ _
    · exact Nat.le_refl _
    · exact grows_foldl (fun scan child => ih _ scan child) _ (scan.enter source)

/-- A scan that has noted no problem has done what a traversal did, and what it has walked newly is
well formed. -/
structure Quiet (assignment : Assignment) (scan scan' : Scan) (traversed : Option (List Overlaid)) :
    Prop where
  /-- The traversal has seen what was walked. -/
  traversed : traversed = some scan'.walked
  /-- What was walked is well formed, if what had been walked was. -/
  wellFormed : ∀ source ∈ scan'.walked, source ∈ scan.walked ∨ assignment.WellFormed source

/-- Following inputs without a new problem is a traversal of the repositories that they lead to, and
none of them is malformed. -/
theorem quiet_foldl {source : Path} {visit : Scan → Overlaid → Scan}
    {traverse : List Overlaid → Overlaid → Option (List Overlaid)}
    (hgrows : ∀ (scan : Scan) (child : Overlaid), scan.Grows (visit scan child))
    (hquiet : ∀ (scan : Scan) (child : Overlaid), (visit scan child).Grows scan →
      Quiet assignment scan (visit scan child) (traverse scan.walked child))
    (inputs : Inputs) (scan : Scan)
    (h : (inputs.foldl (follow assignment source visit) scan).Grows scan) :
    Quiet assignment scan (inputs.foldl (follow assignment source visit) scan)
        ((inputs.filterMap (assignment.childOf source)).foldlM traverse scan.walked) ∧
      ∀ input ∈ inputs, ∃ child, assignment.edge source input.2 = .ok child := by
  induction inputs generalizing scan with
  | nil => exact ⟨⟨rfl, fun _ hsource => .inl hsource⟩, nofun⟩
  | cons input rest ih =>
    have hfirst : scan.Grows (follow assignment source visit scan input) :=
      grows_follow hgrows scan input
    have hrest : (follow assignment source visit scan input).Grows
        (rest.foldl (follow assignment source visit) (follow assignment source visit scan input)) :=
      grows_foldl hgrows rest _
    rw [List.foldl_cons] at h ⊢
    obtain ⟨hquietRest, hedges⟩ := ih _ (Nat.le_trans h hfirst)
    -- Problems are never taken back, so neither the first input nor the rest has added one.
    have hsame : (follow assignment source visit scan input).Grows scan := Nat.le_trans hrest h
    cases hedge : assignment.edge source input.2 with
    | error error =>
      simp only [follow, hedge] at hsame
      exact absurd hsame (not_grows_note _ _)
    | ok child =>
      refine ⟨?_, List.forall_mem_cons.2 ⟨⟨child, hedge⟩, hedges⟩⟩
      cases child with
      | none =>
        have hchild : assignment.childOf source input = none := by simp [Assignment.childOf, hedge]
        simp only [follow, hedge] at hquietRest ⊢
        rw [List.filterMap_cons_none hchild]
        exact hquietRest
      | some child =>
        have hchild : assignment.childOf source input = some child := by
          simp [Assignment.childOf, hedge]
        simp only [follow, hedge] at hquietRest hsame ⊢
        have hvisit := hquiet scan child hsame
        constructor
        · rw [List.filterMap_cons_some hchild, List.foldlM_cons, hvisit.traversed]
          exact hquietRest.traversed
        · intro other hother
          exact (hquietRest.wellFormed other hother).elim (hvisit.wellFormed other) .inr

/-- A walk without a new problem is a traversal that meets no return. -/
theorem quiet_walk {fuel : ℕ} (stack : List Overlaid) {scan : Scan} {source : Overlaid}
    (h : (walk assignment fuel (stack.map Prod.fst) scan source).Grows scan) :
    Quiet assignment scan (walk assignment fuel (stack.map Prod.fst) scan source)
      (Traversal.scan assignment.children Prod.fst fuel stack scan.walked source) := by
  induction fuel generalizing stack scan source with
  | zero =>
    rw [walk] at h ⊢
    rw [Traversal.scan]
    split_ifs at h ⊢
    · exact absurd h (not_grows_note _ _)
    · exact ⟨rfl, fun _ hsource => .inl hsource⟩
    · exact absurd h (not_grows_note _ _)
  | succ fuel ih =>
    rw [walk_succ] at h ⊢
    rw [Traversal.scan_succ]
    split_ifs at h ⊢
    · exact absurd h (not_grows_note _ _)
    · exact ⟨rfl, fun _ hsource => .inl hsource⟩
    -- The edges of a repository that is entered are walked one by one, none of them with a note.
    · obtain ⟨hquiet, hedges⟩ := quiet_foldl (fun scan child => grows_walk fuel _ scan child)
        (fun scan child hsame => ih (source :: stack) hsame) _ (scan.enter source) h
      refine ⟨hquiet.traversed, fun other hother => ?_⟩
      rcases hquiet.wellFormed other hother with hother | hother
      · rcases List.mem_cons.1 hother with rfl | hother
        · exact .inr hedges
        · exact .inl hother
      · exact .inr hother

/-- Following well-formed inputs notes no problem, if walking their repositories does not. -/
theorem silent_foldl {source : Path} {visit : Scan → Overlaid → Scan}
    {traverse : List Overlaid → Overlaid → Option (List Overlaid)} {inputs : Inputs}
    (hedges : ∀ input ∈ inputs, ∃ child, assignment.edge source input.2 = .ok child)
    (hsilent : ∀ input ∈ inputs, ∀ child, assignment.childOf source input = some child →
      ∀ (scan : Scan) seen, traverse scan.walked child = some seen →
        (visit scan child).Grows scan ∧ (visit scan child).walked = seen)
    (scan : Scan) {seen : List Overlaid}
    (h : (inputs.filterMap (assignment.childOf source)).foldlM traverse scan.walked = some seen) :
    (inputs.foldl (follow assignment source visit) scan).Grows scan := by
  induction inputs generalizing scan with
  | nil => exact Nat.le_refl _
  | cons input rest ih =>
    rw [List.forall_mem_cons] at hedges hsilent
    obtain ⟨⟨child, hedge⟩, hedges⟩ := hedges
    rw [List.foldl_cons]
    cases child with
    | none =>
      have hchild : assignment.childOf source input = none := by simp [Assignment.childOf, hedge]
      rw [List.filterMap_cons_none hchild] at h
      simp only [follow, hedge]
      exact ih hedges hsilent.2 _ h
    | some child =>
      have hchild : assignment.childOf source input = some child := by
        simp [Assignment.childOf, hedge]
      rw [List.filterMap_cons_some hchild, List.foldlM_cons] at h
      obtain ⟨between, hfirst, hrest⟩ := Option.bind_eq_some_iff.1 h
      obtain ⟨hsame, hwalked⟩ := hsilent.1 child hchild scan between hfirst
      rw [← hwalked] at hrest
      simp only [follow, hedge]
      exact Nat.le_trans (ih hedges hsilent.2 _ hrest) hsame

/-- A walk of well-formed repositories notes no problem where a traversal meets no return. -/
theorem silent_walk {fuel : ℕ} (stack : List Overlaid) (scan : Scan) {source : Overlaid}
    {seen : List Overlaid}
    (hgood : ∀ other, Reach assignment.children source other → assignment.WellFormed other)
    (h : Traversal.scan assignment.children Prod.fst fuel stack scan.walked source = some seen) :
    (walk assignment fuel (stack.map Prod.fst) scan source).Grows scan := by
  induction fuel generalizing stack scan source seen with
  | zero =>
    rw [Traversal.scan] at h
    rw [walk]
    split_ifs at h ⊢
    exact Nat.le_refl _
  | succ fuel ih =>
    rw [Traversal.scan_succ] at h
    rw [walk_succ]
    split_ifs at h ⊢
    · exact Nat.le_refl _
    · refine silent_foldl (hgood source .refl)
        (fun input hinput child hchild scan between hscan => ?_)
        (scan.enter source) h
      have hedge : child ∈ assignment.children source :=
        List.mem_filterMap.2 ⟨input, hinput, hchild⟩
      have hsame := ih (source :: stack) _
        (fun other hother => hgood other (.head hedge hother)) hscan
      have hwalked := (quiet_walk (source :: stack) hsame).traversed
      exact ⟨hsame, (Option.some.inj (hscan.symm.trans hwalked)).symm⟩

end Scan

namespace Workspace

variable (workspace : Workspace)

/-- Some repository that the inputs lead to has an input with a URL that does not resolve, or with
overrides that are not an object. -/
def HasMalformed : Prop :=
  ∃ source, Reach workspace.children (workspace.root, none) source ∧
    ¬ workspace.WellFormed source

/-- From the end of a first way, an input leads back to a repository on it: no repository on the way
has an earlier input that leads to the same pair of repository and overlay. -/
def FirstWayReturns : Prop :=
  ∃ source places child, Leads workspace.children Prod.fst (workspace.root, none) source places ∧
    child ∈ workspace.children source ∧ child.1 ∈ places

variable {workspace}

/-- The scan finds no problem exactly where every repository is well formed and no first way
returns. -/
theorem problems_eq_nil_iff :
    workspace.scan.problems = [] ↔ ¬ workspace.HasMalformed ∧ ¬ workspace.FirstWayReturns := by
  have htraversal : Traversal.scan workspace.children Prod.fst workspace.repositories.length [] []
      (workspace.root, none) = none ↔ workspace.FirstWayReturns :=
    scan_eq_none_iff workspace.assigned
  have hquiet : workspace.scan.problems = [] ↔ workspace.scan.Grows ⟨[], [], []⟩ := by
    simp [Scan.Grows]
  rw [hquiet]
  constructor
  -- Nothing noted: the traversal has come to the end, through repositories that are well formed.
  · intro h
    have hdone := Scan.quiet_walk [] h
    constructor
    · rintro ⟨source, hreach, hmalformed⟩
      have hwalked : source ∈ workspace.scan.walked := mem_of_scan hdone.traversed hreach
      exact hmalformed ((hdone.wellFormed source hwalked).resolve_left List.not_mem_nil)
    · intro hreturns
      have hnone := htraversal.2 hreturns
      exact absurd (hnone.symm.trans hdone.traversed) (by simp)
  -- Nothing to note: the traversal ends, and the walk follows it silently.
  · rintro ⟨hwell, hreturns⟩
    have hgood : ∀ source, Reach workspace.children (workspace.root, none) source →
        workspace.WellFormed source := fun source hreach =>
      by_contra fun hmalformed => hwell ⟨source, hreach, hmalformed⟩
    cases hscan : Traversal.scan workspace.children Prod.fst workspace.repositories.length [] []
        (workspace.root, none) with
    | none => exact absurd (htraversal.1 hscan) hreturns
    | some seen => exact Scan.silent_walk [] ⟨[], [], []⟩ hgood hscan

/-- The preflight is clean exactly where every repository is well formed and no first way
returns. -/
theorem preflight_eq_ok_iff :
    (∃ report, preflight workspace = .ok report) ↔
      ¬ workspace.HasMalformed ∧ ¬ workspace.FirstWayReturns := by
  rw [← problems_eq_nil_iff]
  unfold preflight
  by_cases h : workspace.scan.problems = []
  · simp [h]
  · simp [h]

end Workspace

end DaemonFramework.LocalBuild
