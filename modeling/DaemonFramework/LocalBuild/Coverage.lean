import DaemonFramework.LocalBuild.Graph
import DaemonFramework.LocalBuild.Overlays

/-!
# The preflight covers what the preparation captures

Where the walk of the preparation succeeds, its itinerary has no stop, so it goes through every
repository and overlay that the inputs lead to (`exists_itineraryFrom_of_reach`), and captures their
repositories. The preflight then finds no problem and, walking each pair once, has walked the same
pairs (`Scan.mem_walked_iff`): `preflight_covers` compares the two.
-/

namespace DaemonFramework.LocalBuild

open Value Traversal Worklist

/-! ## An itinerary without a stop -/

namespace Graph

variable {α : Type} {step : Graph → α → Except Obstacle Graph}

/-- Each of some steps that were all made was made. -/
theorem exists_of_runAll {graph graph' : Graph} {l : List α} {a : α}
    (h : runAll step graph l = .ok graph') (ha : a ∈ l) :
    ∃ before after, step before a = .ok after := by
  obtain ⟨pre, post, rfl⟩ := List.append_of_mem ha
  rw [runAll_append] at h
  obtain ⟨before, -, hrest⟩ := bind_eq_ok h
  obtain ⟨after, hstep, -⟩ := bind_eq_ok hrest
  exact ⟨before, after, hstep⟩

/-- A walk that succeeds has met no stop. -/
theorem stop_notMem_itinerary {workspace : Workspace} {graph : Graph}
    (h : workspace.walkGraph = .ok graph) (obstacle : Obstacle) :
    .stop obstacle ∉ workspace.itinerary := by
  intro hstop
  rw [Workspace.walkGraph, walk_eq_runAll] at h
  obtain ⟨before, after, hperform⟩ := exists_of_runAll h hstop
  cases hperform

/-- What was captured where the visits of a list were all made. -/
theorem mem_sources_of_runAll {root : Path} {graph graph' : Graph} {visits : List Visit}
    (hready : Ready root graph) (h : runAll (perform root) graph visits = .ok graph')
    (source : Path) :
    source ∈ graph'.sources ↔ source ∈ graph.sources ∨ source ∈ visits.flatMap Visit.entered := by
  induction visits generalizing graph with
  | nil =>
    obtain rfl := Except.ok.inj h
    simp
  | cons visit rest ih =>
    obtain ⟨between, hperform, hrest⟩ := bind_eq_ok h
    obtain ⟨hready', -, hmem⟩ := perform_eq_ok hready hperform
    rw [ih hready' hrest, hmem, List.flatMap_cons, List.mem_append]
    tauto

end Graph

namespace Workspace

variable {workspace : Workspace}

/-- The itinerary goes through all that the inputs lead to, unless it stops. -/
theorem exists_itineraryFrom_of_reach (hstop : ∀ obstacle, .stop obstacle ∉ workspace.itinerary)
    {source : Overlaid} (hreach : Reach workspace.children (workspace.root, none) source) :
    ∃ fuel ancestors pre, source.1 ∉ ancestors ∧
      ∀ visit ∈ workspace.itineraryFrom (fuel + 1) ancestors pre source,
        visit ∈ workspace.itinerary := by
  -- An itinerary that is not stopped has entered its repository, so there was fuel.
  have hentered : ∀ fuel ancestors pre (source : Overlaid),
      (∀ visit ∈ workspace.itineraryFrom fuel ancestors pre source, visit ∈ workspace.itinerary) →
        source.1 ∉ ancestors ∧ ∃ fuel', fuel = fuel' + 1 := by
    intro fuel ancestors pre source hsub
    by_cases hmem : source.1 ∈ ancestors
    · rw [itineraryFrom_of_mem hmem] at hsub
      exact absurd (hsub _ (List.mem_singleton.2 rfl)) (hstop _)
    · cases fuel with
      | zero =>
        rw [itineraryFrom, if_neg hmem] at hsub
        exact absurd (hsub _ (List.mem_singleton.2 rfl)) (hstop _)
      | succ fuel => exact ⟨hmem, fuel, rfl⟩
  induction hreach with
  | refl =>
    obtain ⟨hfresh, fuel, hfuel⟩ := hentered workspace.repositories.length [] ""
      (workspace.root, none) fun _ hvisit => hvisit
    refine ⟨fuel, [], "", hfresh, fun visit hvisit => ?_⟩
    rw [← hfuel] at hvisit
    exact hvisit
  | @tail source child _ hchild ih =>
    obtain ⟨fuel, ancestors, pre, hfresh, hsub⟩ := ih
    obtain ⟨edge, hedge⟩ := exists_itineraryFrom_of_child hfresh hchild fuel pre
    have hsub' : ∀ visit ∈ workspace.itineraryFrom fuel (source.1 :: ancestors) edge child,
        visit ∈ workspace.itinerary := fun visit hvisit => hsub visit (hedge visit hvisit)
    obtain ⟨hfresh', fuel', rfl⟩ := hentered _ _ _ _ hsub'
    exact ⟨fuel', source.1 :: ancestors, edge, hfresh', hsub'⟩

/-- The itinerary enters all that the inputs lead to, unless it stops. -/
theorem enter_mem_itinerary (hstop : ∀ obstacle, .stop obstacle ∉ workspace.itinerary)
    {source : Overlaid} (hreach : Reach workspace.children (workspace.root, none) source) :
    .enter source.1 ∈ workspace.itinerary := by
  obtain ⟨fuel, ancestors, pre, hfresh, hsub⟩ := exists_itineraryFrom_of_reach hstop hreach
  refine hsub _ ?_
  rw [itineraryFrom, if_neg hfresh]
  exact List.mem_cons_self

/-- The local URLs resolve in all that the inputs lead to, unless the itinerary stops. -/
theorem exists_localPath_of_reach (hstop : ∀ obstacle, .stop obstacle ∉ workspace.itinerary)
    {source : Overlaid} (hreach : Reach workspace.children (workspace.root, none) source)
    {input : String × Value} (hinput : input ∈ workspace.direct source) :
    ∃ child, localPath workspace.resolve input.2 source.1 = .ok child := by
  obtain ⟨fuel, ancestors, pre, hfresh, hsub⟩ := exists_itineraryFrom_of_reach hstop hreach
  cases hpath : localPath workspace.resolve input.2 source.1 with
  | ok child => exact ⟨child, rfl⟩
  | error error =>
    refine absurd (hsub (.stop (.url error)) ?_) (hstop _)
    rw [itineraryFrom, if_neg hfresh]
    refine List.mem_cons_of_mem _ (List.mem_flatMap.2 ⟨input, hinput, ?_⟩)
    simp only [hpath, List.mem_singleton]

/-- An itinerary without a stop captures only what the inputs lead to. -/
theorem exists_reach_of_entered {fuel : ℕ} {ancestors : List Path} {pre : String}
    {source : Overlaid} (hstop : ∀ obstacle,
      .stop obstacle ∉ workspace.itineraryFrom fuel ancestors pre source) {path : Path}
    (h : path ∈ (workspace.itineraryFrom fuel ancestors pre source).flatMap Visit.entered) :
    ∃ other, Reach workspace.children source other ∧ other.1 = path := by
  induction fuel generalizing ancestors pre source with
  | zero =>
    rw [itineraryFrom] at h
    split_ifs at h
    · simp [Visit.entered] at h
    · simp [Visit.entered] at h
  | succ fuel ih =>
    by_cases hfresh : source.1 ∈ ancestors
    · rw [itineraryFrom_of_mem hfresh] at h
      simp [Visit.entered] at h
    rw [itineraryFrom, if_neg hfresh] at h hstop
    rw [List.flatMap_cons, List.mem_append] at h
    rcases h with h | h
    · exact ⟨source, .refl, (List.mem_singleton.1 h).symm⟩
    obtain ⟨visit, hvisit, hpath⟩ := List.mem_flatMap.1 h
    obtain ⟨input, hinput, hvisit⟩ := List.mem_flatMap.1 hvisit
    -- An input with an error would be a stop, so each input that is followed has a child.
    have hstop' := fun obstacle hmem =>
      hstop obstacle (List.mem_cons_of_mem _ (List.mem_flatMap.2 ⟨input, hinput, hmem⟩))
    cases hlocal : localPath workspace.resolve input.2 source.1 with
    | error error =>
      simp only [hlocal] at hstop'
      exact absurd (List.mem_singleton.2 rfl) (hstop' (.url error))
    | ok child =>
      cases child with
      | none =>
        simp only [hlocal] at hvisit
        cases hvisit
      | some child =>
        cases hoverlay : nestedInputs input.2 with
        | error error =>
          simp only [hlocal, hoverlay] at hstop'
          exact absurd (List.mem_cons_of_mem _ (List.mem_singleton.2 rfl))
            (hstop' (.overrides error))
        | ok overlay =>
          simp only [hlocal, hoverlay] at hvisit hstop'
          have hchild : (child, overlay) ∈ workspace.children source :=
            List.mem_filterMap.2 ⟨input, hinput, workspace.childOf_eq_some hlocal hoverlay⟩
          rcases List.mem_cons.1 hvisit with rfl | hvisit
          · exact ⟨(child, overlay), .single hchild, (List.mem_singleton.1 hpath).symm⟩
          · obtain ⟨other, hreach, hother⟩ := ih
              (fun obstacle hmem => hstop' obstacle (List.mem_cons_of_mem _ hmem))
              (List.mem_flatMap.2 ⟨visit, hvisit, hpath⟩)
            exact ⟨other, .head hchild hreach, hother⟩

end Workspace

/-- A walk that succeeds has captured the repositories that the inputs lead to. -/
theorem Graph.mem_sources_iff {workspace : Workspace} {graph : Graph}
    (h : workspace.walkGraph = .ok graph) (path : Path) :
    path ∈ graph.sources ↔
      ∃ source, Reach workspace.children (workspace.root, none) source ∧ source.1 = path := by
  have hstop := Graph.stop_notMem_itinerary h
  have hready : Ready workspace.root ⟨[], [], []⟩ := ⟨⟨nofun, nofun⟩, nofun⟩
  rw [Workspace.walkGraph, walk_eq_runAll] at h
  rw [mem_sources_of_runAll hready h]
  constructor
  · rintro (hmem | hmem)
    · cases hmem
    · exact Workspace.exists_reach_of_entered hstop hmem
  · rintro ⟨source, hreach, rfl⟩
    refine .inr (List.mem_flatMap.2 ⟨_, Workspace.enter_mem_itinerary hstop hreach, ?_⟩)
    exact List.mem_singleton.2 rfl

/-! ## What the preflight walks -/

namespace Scan

variable {assignment : Assignment} {P : Scan → Prop} {root : Overlaid}

/-- What noting a problem and entering a new pair keep, following inputs keeps, if walking their
repositories does. -/
theorem keeps_foldl (hnote : ∀ scan problem, P scan → P (scan.note problem)) {source : Path}
    {visit : Scan → Overlaid → Scan} {inputs : Inputs}
    (hvisit : ∀ input ∈ inputs, ∀ child, assignment.childOf source input = some child →
      ∀ scan, P scan → P (visit scan child)) {scan : Scan} (h : P scan) :
    P (inputs.foldl (follow assignment source visit) scan) := by
  induction inputs generalizing scan with
  | nil => exact h
  | cons input rest ih =>
    rw [List.forall_mem_cons] at hvisit
    refine ih hvisit.2 ?_
    unfold follow
    split
    · exact hnote _ _ h
    · exact h
    · rename_i child hedge
      have hchild : assignment.childOf source input = some child := by
        simp [Assignment.childOf, hedge]
      exact hvisit.1 child hchild scan h

/-- What noting a problem and entering a new pair keep, a walk keeps. -/
theorem keeps_walk (hnote : ∀ scan problem, P scan → P (scan.note problem))
    (henter : ∀ (scan : Scan) source, Reach assignment.children root source → P scan →
      P (scan.enter source)) {fuel : ℕ} {ancestors : List Path} {scan : Scan} {source : Overlaid}
    (hreach : Reach assignment.children root source) (h : P scan) :
    P (walk assignment fuel ancestors scan source) := by
  induction fuel generalizing ancestors scan source with
  | zero =>
    rw [walk]
    split_ifs
    · exact hnote _ _ h
    · exact h
    · exact hnote _ _ h
  | succ fuel ih =>
    rw [walk_succ]
    split_ifs
    · exact hnote _ _ h
    · exact h
    · refine keeps_foldl hnote (fun input hinput child hchild scan h => ?_)
        (henter scan source hreach h)
      have hedge : child ∈ assignment.children source :=
        List.mem_filterMap.2 ⟨input, hinput, hchild⟩
      exact ih (hreach.tail hedge) h

/-- Each repository of a walked pair was inspected, once, and nothing else was walked than what the
inputs lead to. -/
structure Inspected (assignment : Assignment) (root : Overlaid) (scan : Scan) : Prop where
  /-- No repository was inspected twice. -/
  once : scan.definitions.Nodup
  /-- The inspected repositories are those of the walked pairs. -/
  mem_iff : ∀ path, path ∈ scan.definitions ↔ ∃ source ∈ scan.walked, source.1 = path
  /-- The inputs lead to the walked pairs. -/
  reached : ∀ source ∈ scan.walked, Reach assignment.children root source

/-- A walk inspects each repository once. -/
theorem inspected_walk {fuel : ℕ} :
    Inspected assignment root (walk assignment fuel [] ⟨[], [], []⟩ root) := by
  refine keeps_walk (P := Inspected assignment root) ?_ ?_ .refl ?_
  · intro scan problem h
    exact ⟨h.once, h.mem_iff, h.reached⟩
  · intro scan source hreach h
    refine ⟨?_, fun path => ?_, List.forall_mem_cons.2 ⟨hreach, h.reached⟩⟩
    · unfold enter
      split_ifs with hmem
      · exact h.once
      · exact List.nodup_cons.2 ⟨hmem, h.once⟩
    · simp only [enter, List.exists_mem_cons_iff, ← h.mem_iff]
      split_ifs with hmem
      · refine ⟨.inr, ?_⟩
        rintro (rfl | hpath)
        · exact hmem
        · exact hpath
      · rw [List.mem_cons, eq_comm]
  · exact ⟨List.nodup_nil, fun _ => by simp, nofun⟩

end Scan

/-- A preflight that is clean has walked what the inputs lead to. -/
theorem Scan.mem_walked_iff {workspace : Workspace} (h : workspace.scan.problems = [])
    (source : Overlaid) :
    source ∈ workspace.scan.walked ↔ Reach workspace.children (workspace.root, none) source := by
  refine ⟨Scan.inspected_walk.reached source, fun hreach => ?_⟩
  have hgrows : workspace.scan.Grows ⟨[], [], []⟩ := by simp [Scan.Grows, h]
  exact mem_of_scan (Scan.quiet_walk [] hgrows).traversed hreach

/-- Inputs of any names, with maps as the overrides nested in them. -/
def overridable : Shape := ⟨fun _ => true, true⟩

/-- Where the walk of the preparation succeeds over inputs whose overrides are maps at every depth,
the preflight is clean, has inspected each repository once, and reports those that were captured. -/
theorem preflight_covers (workspace : Workspace)
    (hmaps : ∀ source ∈ workspace.repositories,
      conformsFields overridable .inputs (workspace.definitions source))
    (graph : Graph) (hwalk : workspace.walkGraph = .ok graph) :
    ∃ report, preflight workspace = .ok report ∧ report.Nodup ∧
      ∀ source, source ∈ report ↔ source ∈ graph.sources := by
  have hstop := Graph.stop_notMem_itinerary hwalk
  -- The walk has resolved every input, so none is malformed.
  have hwell : ¬ workspace.HasMalformed := by
    rintro ⟨source, hreach, hmalformed⟩
    refine hmalformed fun input hinput => ?_
    obtain ⟨child, hchild⟩ := Workspace.exists_localPath_of_reach hstop hreach hinput
    have hfield := overridable.kept.direct_of_reach (i := .inputs) hmaps
      (fun _ _ _ hfield hnested => Shape.nested hfield hnested) hreach input hinput
    obtain ⟨overlay, hoverlay⟩ := Shape.exists_nested rfl hfield
    refine ⟨child.map fun child => (child, overlay), ?_⟩
    simp only [Assignment.edge, hchild, hoverlay, Except.bind, Except.map]
  -- It has stopped nowhere, so no way returns.
  have hreturns : ¬ workspace.FirstWayReturns := by
    rintro ⟨source, places, child, hleads, hchild, hback⟩
    obtain ⟨path, hcycle⟩ := Workspace.exists_cycle_mem_itinerary_iff.2
      ⟨source, places, child, hleads.way, hchild, hback⟩
    exact hstop _ hcycle
  have hproblems : workspace.scan.problems = [] :=
    Workspace.problems_eq_nil_iff.2 ⟨hwell, hreturns⟩
  -- What is reported is sorted, which changes neither what it has nor how often.
  have hperm := List.perm_insertionSort (pathLe · ·) workspace.scan.definitions
  refine ⟨workspace.scan.repositories, ?_, hperm.nodup_iff.2 Scan.inspected_walk.once,
    fun source => ?_⟩
  · unfold preflight
    rw [if_pos hproblems]
  · rw [Graph.mem_sources_iff hwalk, Scan.repositories, hperm.mem_iff, Workspace.scan,
      Scan.inspected_walk.mem_iff]
    exact exists_congr fun other => and_congr_left fun _ => Scan.mem_walked_iff hproblems other

/-- Four repositories: both `a` and `b` use `c`, and the root lets the `c` of `b` follow that of
`a`. -/
def diamondInputs : Assignment where
  definitions source :=
    if source = "/w/root" then
      [("a", .object [("url", .string "git+file:a")]),
        ("b", .object [("inputs", .object [("c", .object [("follows", .string "a/c")])]),
          ("url", .string "git+file:b")])]
    else if source = "/w/a" ∨ source = "/w/b" then
      [("c", .object [("url", .string "git+file:c")])]
    else []
  resolve _ path :=
    if path = [97] then .ok "/w/a" else if path = [98] then .ok "/w/b"
    else if path = [99] then .ok "/w/c" else .error "not found"

/-- The four repositories as a workspace. -/
def diamond : Workspace where
  toAssignment := diamondInputs
  root := "/w/root"
  repositories := ["/w/root", "/w/a", "/w/b", "/w/c"]
  assigned := by
    refine diamondInputs.assigned_of_resolve (by simp) fun source path child h => ?_
    simp only [diamondInputs] at h
    split_ifs at h
    · obtain rfl := Except.ok.inj h
      simp
    · obtain rfl := Except.ok.inj h
      simp
    · obtain rfl := Except.ok.inj h
      simp

/-- The preflight of the four repositories reports all of them. -/
theorem preflight_covers_diamond :
    ∃ report, preflight diamond = .ok report ∧ report.Nodup ∧
      ∀ source, source ∈ report ↔ source ∈ ["/w/b", "/w/c", "/w/a", "/w/root"] :=
  preflight_covers diamond (by decide +kernel)
    ⟨["/w/b", "/w/c", "/w/a", "/w/root"], ["/w/b", "/w/c", "/w/a"],
      [("a", "/w/a"), ("a/c", "/w/c"), ("b", "/w/b")]⟩ rfl

end DaemonFramework.LocalBuild
