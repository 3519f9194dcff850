import DaemonFramework.LocalBuild.Preflight

/-!
# The walk of the preparation, and what a clean preflight says about it

`Graph::walk` of `shelllist-local-build/src/graph.rs` captures every repository that the inputs lead
to. It has no memory of the pairs it has walked, and fails at the first obstacle: a repository that
is among its own ancestors, a malformed input, or a repository that cannot be captured, because it
has no name or shares its directory with another one. What Git, Nix and the filesystem do to capture
a repository does not fail.

`itinerary` lists what the walk does, in order, if nothing stops it, and `walk_eq_foldlM` says that
the walk does that until it is stopped. The preflight walks each pair once, so it follows first ways
only, and a repository that returns to itself along another way escapes it: `preflight_agrees_iff`
says when its result can be relied on.
-/

namespace DaemonFramework.LocalBuild

open Value Traversal Worklist

/-- What stops the walk. -/
inductive Obstacle where
  /-- A repository is its own ancestor. -/
  | cycle (source : Path)
  /-- A local URL does not resolve. -/
  | url (error : String)
  /-- Input overrides are malformed. -/
  | overrides (error : String)
  /-- A repository cannot be captured. -/
  | capture (error : String)
  /-- The bound on the recursion was too small. -/
  | exhausted
deriving DecidableEq

namespace Obstacle

/-- The text of the error. -/
def text : Obstacle → String
  | .cycle source => s!"local input cycle at {source}"
  | .url error | .overrides error | .capture error => error
  | .exhausted => ""

/-- A problem of the graph: a cycle, an unresolvable local URL or malformed input overrides. -/
def isProblem : Obstacle → Bool
  | .cycle _ | .url _ | .overrides _ => true
  | .capture _ | .exhausted => false

end Obstacle

/-- `Path::file_name`: what follows the last slash. -/
def fileName (path : Path) : Option String :=
  let name := (path.toList.reverse.takeWhile (· ≠ '/')).reverse
  if name = [] then none else some (String.ofList name)

/-- `Graph`. -/
structure Graph where
  /-- The captured repositories. -/
  sources : List Path
  /-- The repositories with a store path. -/
  storeSources : List Path
  /-- The overridden edges, each with the repository whose store path it gets. -/
  overrides : List (String × Path)
deriving DecidableEq

namespace Graph

/-- The directory of a captured repository. -/
def directory (root source : Path) : Option String :=
  if source = root then some "root" else fileName source

/-- `Graph::capture`. -/
def capture (root : Path) (graph : Graph) (source : Path) : Except Obstacle Graph :=
  if source ∈ graph.sources then .ok graph
  else
    match directory root source with
    | none => .error (.capture "repository has no basename")
    | some name =>
      if name ∈ graph.sources.filterMap (directory root) then
        .error (.capture s!"local repository basename collision: {source}")
      else .ok { graph with sources := source :: graph.sources }

/-- `Graph::immutable`. -/
def immutable (graph : Graph) (source : Path) : Except Obstacle Graph :=
  if source ∈ graph.storeSources then .ok graph
  else if source ∉ graph.sources then .error (.capture "source was not captured")
  else if (fileName source).isNone then .error (.capture "repository has no basename")
  else .ok { graph with storeSources := source :: graph.storeSources }

/-- The name of an edge. -/
def edgeName (pre name : String) : String := if pre = "" then name else s!"{pre}/{name}"

/-- The edge to a child is overridden with the child's store path. -/
def override (root : Path) (graph : Graph) (edge : String) (child : Path) : Except Obstacle Graph :=
  (graph.capture root child).bind fun graph =>
    (graph.immutable child).map fun graph =>
      { graph with overrides := graph.overrides ++ [(edge, child)] }

/-- The body of the loop over the direct inputs of `source`, with the walk of a child. -/
def follow (workspace : Workspace) (source : Path) (pre : String)
    (walk : String → Graph → Overlaid → Except Obstacle Graph) (graph : Graph)
    (input : String × Value) : Except Obstacle Graph :=
  match localPath workspace.resolve input.2 source with
  | .error error => .error (.url error)
  | .ok none => .ok graph
  | .ok (some child) =>
    (graph.override workspace.root (edgeName pre input.1) child).bind fun graph =>
      match nestedInputs input.2 with
      | .error error => .error (.overrides error)
      | .ok overlay => walk (edgeName pre input.1) graph (child, overlay)

/-- The steps of a loop, one after the other, until one fails. -/
def runAll {α : Type} (step : Graph → α → Except Obstacle Graph) :
    Graph → List α → Except Obstacle Graph
  | graph, [] => .ok graph
  | graph, a :: rest => (step graph a).bind fun graph => runAll step graph rest

/-- `Graph::walk`. -/
def walk (workspace : Workspace) : ℕ → List Path → String → Graph → Overlaid → Except Obstacle Graph
  | fuel, ancestors, pre, graph, source =>
    if source.1 ∈ ancestors then .error (.cycle source.1)
    else
      match fuel with
      | 0 => .error .exhausted
      | fuel + 1 =>
        (graph.capture workspace.root source.1).bind fun graph =>
          runAll (follow workspace source.1 pre (walk workspace fuel (source.1 :: ancestors)))
            graph (workspace.direct source)

end Graph

/-- The walk that prepares a workspace, from its root. -/
def Workspace.walkGraph (workspace : Workspace) : Except Obstacle Graph :=
  Graph.walk workspace workspace.repositories.length [] "" ⟨[], [], []⟩ (workspace.root, none)

/-- What the walk does at one point. -/
inductive Visit where
  /-- It captures a repository. -/
  | enter (source : Path)
  /-- It overrides an edge. -/
  | edge (name : String) (child : Path)
  /-- It fails. -/
  | stop (obstacle : Obstacle)
deriving DecidableEq

namespace Workspace

variable (workspace : Workspace)

/-- What the walk does from a repository on, in order, if nothing stops it. -/
def itineraryFrom : ℕ → List Path → String → Overlaid → List Visit
  | fuel, ancestors, pre, source =>
    if source.1 ∈ ancestors then [.stop (.cycle source.1)]
    else
      match fuel with
      | 0 => [.stop .exhausted]
      | fuel + 1 =>
        .enter source.1 :: (workspace.direct source).flatMap fun input =>
          match localPath workspace.resolve input.2 source.1 with
          | .error error => [.stop (.url error)]
          | .ok none => []
          | .ok (some child) =>
            .edge (Graph.edgeName pre input.1) child ::
              match nestedInputs input.2 with
              | .error error => [.stop (.overrides error)]
              | .ok overlay =>
                itineraryFrom fuel (source.1 :: ancestors) (Graph.edgeName pre input.1)
                  (child, overlay)

/-- What the walk does from the root on, in order, if nothing stops it. -/
def itinerary : List Visit :=
  workspace.itineraryFrom workspace.repositories.length [] "" (workspace.root, none)

end Workspace

namespace Graph

variable {α : Type} {step : Graph → α → Except Obstacle Graph}

/-- What the walk does at one point. -/
def perform (root : Path) (graph : Graph) : Visit → Except Obstacle Graph
  | .enter source => graph.capture root source
  | .edge name child => graph.override root name child
  | .stop obstacle => .error obstacle

/-- The steps of two lists are those of the first and then those of the second. -/
theorem runAll_append (graph : Graph) (l l' : List α) :
    runAll step graph (l ++ l') =
      (runAll step graph l).bind fun graph => runAll step graph l' := by
  induction l generalizing graph with
  | nil => rfl
  | cons a rest ih =>
    simp only [List.cons_append, runAll]
    cases step graph a with
    | error obstacle => rfl
    | ok graph => exact ih graph

/-- Of the steps of a list that fail, there is the first that does. -/
theorem runAll_eq_error_iff {graph : Graph} {l : List α} {obstacle : Obstacle} :
    runAll step graph l = .error obstacle ↔ ∃ before a after graph', l = before ++ a :: after ∧
      runAll step graph before = .ok graph' ∧ step graph' a = .error obstacle := by
  constructor
  · intro h
    induction l generalizing graph with
    | nil => cases h
    | cons a rest ih =>
      rcases bind_eq_error h with ha | ⟨graph₁, ha, hrest⟩
      · exact ⟨[], a, rest, graph, rfl, rfl, ha⟩
      · obtain ⟨before, b, after, graph', rfl, hbefore, hb⟩ := ih hrest
        refine ⟨a :: before, b, after, graph', rfl, ?_, hb⟩
        simp only [runAll, ha]
        exact hbefore
  · rintro ⟨before, a, after, graph', rfl, hbefore, ha⟩
    rw [runAll_append, hbefore]
    simp only [Except.bind, runAll, ha]

/-- Following inputs is performing what the itinerary has for them. -/
theorem runAll_flatMap {β : Type} {step' : Graph → β → Except Obstacle Graph} {visits : β → List α}
    {l : List β} (h : ∀ b ∈ l, ∀ graph, step' graph b = runAll step graph (visits b))
    (graph : Graph) : runAll step' graph l = runAll step graph (l.flatMap visits) := by
  induction l generalizing graph with
  | nil => rfl
  | cons b rest ih =>
    rw [List.forall_mem_cons] at h
    rw [List.flatMap_cons, runAll_append, ← h.1 graph, runAll]
    exact congrArg _ (funext fun graph => ih h.2 graph)

/-- The walk performs its itinerary until it is stopped. -/
theorem walk_eq_runAll (workspace : Workspace) (fuel : ℕ) (ancestors : List Path) (pre : String)
    (graph : Graph) (source : Overlaid) :
    walk workspace fuel ancestors pre graph source =
      runAll (perform workspace.root) graph
        (workspace.itineraryFrom fuel ancestors pre source) := by
  induction fuel generalizing ancestors pre graph source with
  | zero =>
    rw [walk, Workspace.itineraryFrom]
    split_ifs <;> rfl
  | succ fuel ih =>
    rw [walk, Workspace.itineraryFrom]
    split_ifs
    · rfl
    · simp only [runAll, perform]
      refine congrArg _ (funext fun graph => runAll_flatMap (fun input _ graph => ?_) graph)
      unfold follow
      split
      · rfl
      · rfl
      · simp only [runAll, perform]
        refine congrArg _ (funext fun graph => ?_)
        split
        · rfl
        · exact ih _ _ graph _

/-- The repositories can all be captured: each has a directory of its own. -/
structure Apart (root : Path) (sources : List Path) : Prop where
  /-- Each has a directory. -/
  named : ∀ source ∈ sources, (directory root source).isSome
  /-- No two have the same. -/
  injective : ∀ source ∈ sources, ∀ other ∈ sources,
    directory root source = directory root other → source = other

/-- Some of the repositories can be captured if all can. -/
theorem Apart.subset {root : Path} {sources sources' : List Path} (h : Apart root sources)
    (hsub : ∀ source ∈ sources', source ∈ sources) : Apart root sources' where
  named source hsource := h.named source (hsub source hsource)
  injective source hsource other hother :=
    h.injective source (hsub source hsource) other (hsub other hother)

variable {root : Path} {graph graph' : Graph}

/-- A repository that was not captured is captured where its directory is free. -/
theorem capture_of_notMem {source : Path} (hmem : source ∉ graph.sources)
    (hcapture : graph.capture root source = .ok graph') :
    (∃ name, directory root source = some name ∧
      name ∉ graph.sources.filterMap (directory root)) ∧
      graph' = { graph with sources := source :: graph.sources } := by
  unfold capture at hcapture
  rw [if_neg hmem] at hcapture
  split at hcapture
  · cases hcapture
  · rename_i name hname
    split_ifs at hcapture with hfree
    exact ⟨⟨name, hname, hfree⟩, (Except.ok.inj hcapture).symm⟩

/-- What capturing a repository does. -/
theorem capture_eq_ok {source : Path} (hcapture : graph.capture root source = .ok graph') :
    graph'.storeSources = graph.storeSources ∧
      (∀ other, other ∈ graph'.sources ↔ other = source ∨ other ∈ graph.sources) ∧
      (Apart root graph.sources → Apart root graph'.sources) := by
  by_cases hmem : source ∈ graph.sources
  · obtain rfl : graph = graph' := by simpa [capture, hmem] using hcapture
    exact ⟨rfl, fun other => ⟨.inr, fun h => h.elim (fun heq => heq ▸ hmem) id⟩, id⟩
  · obtain ⟨⟨name, hname, hfree⟩, rfl⟩ := capture_of_notMem hmem hcapture
    have hdiffers : ∀ other ∈ graph.sources, directory root other ≠ directory root source := by
      intro other hother heq
      exact hfree (List.mem_filterMap.2 ⟨other, hother, heq.trans hname⟩)
    refine ⟨rfl, fun other => List.mem_cons, fun h => ⟨?_, ?_⟩⟩
    · exact List.forall_mem_cons.2 ⟨by simp [hname], h.named⟩
    · intro a ha b hb heq
      rcases List.mem_cons.1 ha with hnew | hold
      · rcases List.mem_cons.1 hb with hnew' | hold'
        · exact hnew.trans hnew'.symm
        · exact absurd (heq.symm.trans (congrArg _ hnew)) (hdiffers b hold')
      · rcases List.mem_cons.1 hb with hnew' | hold'
        · exact absurd (heq.trans (congrArg _ hnew')) (hdiffers a hold)
        · exact h.injective a hold b hold' heq

/-- A repository is captured where all can be. -/
theorem exists_capture {source : Path} (h : Apart root (source :: graph.sources)) :
    ∃ graph', graph.capture root source = .ok graph' := by
  unfold capture
  by_cases hmem : source ∈ graph.sources
  · exact ⟨graph, if_pos hmem⟩
  · rw [if_neg hmem]
    obtain ⟨name, hname⟩ := Option.isSome_iff_exists.1 (h.named source List.mem_cons_self)
    have hfree : name ∉ graph.sources.filterMap (directory root) := by
      intro htaken
      obtain ⟨other, hother, heq⟩ := List.mem_filterMap.1 htaken
      have hsame := h.injective other (List.mem_cons_of_mem _ hother) source List.mem_cons_self
        (heq.trans hname.symm)
      exact hmem (hsame ▸ hother)
    simp only [hname, if_neg hfree]
    exact ⟨_, rfl⟩

/-- What giving a captured repository a store path does. -/
theorem immutable_eq_ok {source : Path} (h : graph.immutable source = .ok graph') :
    graph'.sources = graph.sources ∧
      ((∀ other ∈ graph.storeSources, (fileName other).isSome) →
        (fileName source).isSome ∧ ∀ other ∈ graph'.storeSources, (fileName other).isSome) := by
  unfold immutable at h
  split_ifs at h with hstored hcaptured hnamed
  · obtain rfl := Except.ok.inj h
    exact ⟨rfl, fun hall => ⟨hall source hstored, hall⟩⟩
  · obtain rfl := Except.ok.inj h
    have hsome : (fileName source).isSome := by simpa [Option.isSome_iff_ne_none] using hnamed
    exact ⟨rfl, fun hall => ⟨hsome, List.forall_mem_cons.2 ⟨hsome, hall⟩⟩⟩

/-- A captured repository with a name gets a store path. -/
theorem exists_immutable {source : Path} (hcaptured : source ∈ graph.sources)
    (hnamed : (fileName source).isSome) : ∃ graph', graph.immutable source = .ok graph' := by
  unfold immutable
  have hsome : ¬ (fileName source).isNone := by
    obtain ⟨name, hname⟩ := Option.isSome_iff_exists.1 hnamed
    simp [hname]
  have hpresent : ¬ source ∉ graph.sources := fun hmissing => hmissing hcaptured
  rw [if_neg hpresent, if_neg hsome]
  split_ifs
  · exact ⟨_, rfl⟩
  · exact ⟨_, rfl⟩

end Graph

/-- The repositories that a visit captures. -/
def Visit.entered : Visit → List Path
  | .enter source => [source]
  | .edge _ child => [child]
  | .stop _ => []

/-- Nothing stops the visit but a directory that is taken. -/
def Visit.Possible : Visit → Prop
  | .enter _ => True
  | .edge _ child => (fileName child).isSome
  | .stop _ => False

/-- Visits that can all be made: none of them is a stop, a child has a name, and each repository has
a directory of its own. -/
structure Capturable (root : Path) (visits : List Visit) : Prop where
  /-- Nothing but a directory that is taken stops a visit. -/
  possible : ∀ visit ∈ visits, visit.Possible
  /-- No directory is taken. -/
  apart : Graph.Apart root (visits.flatMap Visit.entered)

namespace Graph

/-- The repositories of a graph can be captured, and those with a store path have names. -/
structure Ready (root : Path) (graph : Graph) : Prop where
  /-- The captured repositories have directories of their own. -/
  apart : Apart root graph.sources
  /-- The repositories with a store path have names. -/
  stored : ∀ source ∈ graph.storeSources, (fileName source).isSome

variable {root : Path} {graph graph' : Graph}

/-- What a visit does that is made. -/
theorem perform_eq_ok {visit : Visit} (h : Ready root graph)
    (hperform : graph.perform root visit = .ok graph') :
    Ready root graph' ∧ visit.Possible ∧
      ∀ source, source ∈ graph'.sources ↔ source ∈ visit.entered ∨ source ∈ graph.sources := by
  cases visit with
  | enter source =>
    obtain ⟨hstored, hmem, hapart⟩ := capture_eq_ok hperform
    refine ⟨⟨hapart h.apart, ?_⟩, trivial, fun other => ?_⟩
    · rw [hstored]
      exact h.stored
    · rw [hmem other, Visit.entered, List.mem_singleton]
  -- An edge captures the child and makes it immutable.
  | edge name child =>
    obtain ⟨graph₁, hcapture, himmutable⟩ := bind_eq_ok hperform
    obtain ⟨hstored, hmem, hapart⟩ := capture_eq_ok hcapture
    cases hstore : graph₁.immutable child with
    | error obstacle =>
      rw [hstore] at himmutable
      cases himmutable
    | ok graph₂ =>
      rw [hstore] at himmutable
      obtain rfl := Except.ok.inj himmutable
      obtain ⟨hsources, hnames⟩ := immutable_eq_ok hstore
      rw [hstored] at hnames
      obtain ⟨hnamed, hall⟩ := hnames h.stored
      refine ⟨⟨?_, hall⟩, hnamed, fun other => ?_⟩
      · rw [hsources]
        exact hapart h.apart
      · rw [hsources, hmem other, Visit.entered, List.mem_singleton]
  | stop obstacle => cases hperform

/-- A visit is made that is possible, where its repository and the captured ones can be captured. -/
theorem exists_perform {visit : Visit} (hpossible : visit.Possible)
    (hapart : Apart root (visit.entered ++ graph.sources)) :
    ∃ graph', graph.perform root visit = .ok graph' := by
  cases visit with
  | enter source => exact exists_capture hapart
  | edge name child =>
    obtain ⟨graph₁, hcapture⟩ : ∃ graph₁, graph.capture root child = .ok graph₁ :=
      exists_capture hapart
    obtain ⟨-, hmem, -⟩ := capture_eq_ok hcapture
    obtain ⟨graph₂, hstore⟩ := exists_immutable ((hmem child).2 (.inl rfl)) hpossible
    refine ⟨{ graph₂ with overrides := graph₂.overrides ++ [(name, child)] }, ?_⟩
    simp only [perform, override, hcapture, Except.bind, hstore, Except.map]
  | stop obstacle => exact hpossible.elim

/-- Visits are all made exactly where they are possible and no directory is taken. -/
theorem exists_runAll_iff {visits : List Visit} (h : Ready root graph) :
    (∃ graph', runAll (perform root) graph visits = .ok graph') ↔
      (∀ visit ∈ visits, visit.Possible) ∧
        Apart root (visits.flatMap Visit.entered ++ graph.sources) := by
  induction visits generalizing graph with
  | nil => exact ⟨fun _ => ⟨nofun, h.apart⟩, fun _ => ⟨graph, rfl⟩⟩
  | cons visit rest ih =>
    -- After the visit, the captured repositories are its own and those of before.
    have hmove : ∀ graph₁, graph.perform root visit = .ok graph₁ → ∀ source,
        source ∈ (visit :: rest).flatMap Visit.entered ++ graph.sources ↔
          source ∈ rest.flatMap Visit.entered ++ graph₁.sources := by
      intro graph₁ hperform source
      obtain ⟨-, -, hmem⟩ := perform_eq_ok h hperform
      simp only [List.flatMap_cons, List.mem_append, hmem source]
      tauto
    constructor
    · rintro ⟨graph', hrun⟩
      obtain ⟨graph₁, hperform, hrest⟩ := bind_eq_ok hrun
      obtain ⟨hready, hpossible, -⟩ := perform_eq_ok h hperform
      obtain ⟨hall, hapart⟩ := (ih hready).1 ⟨graph', hrest⟩
      exact ⟨List.forall_mem_cons.2 ⟨hpossible, hall⟩,
        hapart.subset fun source hsource => (hmove graph₁ hperform source).1 hsource⟩
    · rintro ⟨hall, hapart⟩
      rw [List.forall_mem_cons] at hall
      have hfirst : Apart root (visit.entered ++ graph.sources) :=
        hapart.subset fun source hsource => by
          simp only [List.flatMap_cons, List.mem_append] at hsource ⊢
          tauto
      obtain ⟨graph₁, hperform⟩ := exists_perform hall.1 hfirst
      obtain ⟨hready, -, -⟩ := perform_eq_ok h hperform
      obtain ⟨graph', hrest⟩ := (ih hready).2 ⟨hall.2, hapart.subset fun source hsource =>
        (hmove graph₁ hperform source).2 hsource⟩
      refine ⟨graph', ?_⟩
      simp only [runAll, hperform]
      exact hrest

/-- Visits are all made from the start exactly where they can be. -/
theorem exists_runAll_start_iff {visits : List Visit} :
    (∃ graph, runAll (perform root) ⟨[], [], []⟩ visits = .ok graph) ↔ Capturable root visits := by
  have hready : Ready root ⟨[], [], []⟩ := ⟨⟨nofun, nofun⟩, nofun⟩
  rw [exists_runAll_iff hready]
  simp only [List.append_nil]
  exact ⟨fun h => ⟨h.1, h.2⟩, fun h => ⟨h.possible, h.apart⟩⟩

/-- Capturing a repository meets no problem of the graph. -/
theorem capture_ne_problem {source : Path} {obstacle : Obstacle} (hproblem : obstacle.isProblem) :
    graph.capture root source ≠ .error obstacle := by
  intro hcapture
  unfold capture at hcapture
  split_ifs at hcapture
  split at hcapture
  · obtain rfl := Except.error.inj hcapture
    cases hproblem
  · split_ifs at hcapture
    obtain rfl := Except.error.inj hcapture
    cases hproblem

/-- Neither does giving it a store path. -/
theorem immutable_ne_problem {source : Path} {obstacle : Obstacle}
    (hproblem : obstacle.isProblem) : graph.immutable source ≠ .error obstacle := by
  intro himmutable
  unfold immutable at himmutable
  split_ifs at himmutable
  · obtain rfl := Except.error.inj himmutable
    cases hproblem
  · obtain rfl := Except.error.inj himmutable
    cases hproblem

/-- A visit fails with a problem of the graph only where the itinerary has it as a stop. -/
theorem eq_stop_of_perform {visit : Visit} {obstacle : Obstacle}
    (h : graph.perform root visit = .error obstacle) (hproblem : obstacle.isProblem) :
    visit = .stop obstacle := by
  cases visit with
  | enter source => exact absurd h (capture_ne_problem hproblem)
  | edge name child =>
    rcases bind_eq_error h with h | ⟨graph₁, -, h⟩
    · exact absurd h (capture_ne_problem hproblem)
    · cases hstore : graph₁.immutable child with
      | error obstacle' =>
        rw [hstore] at h
        obtain rfl : obstacle' = obstacle := Except.error.inj h
        exact absurd hstore (immutable_ne_problem hproblem)
      | ok graph₂ =>
        rw [hstore] at h
        cases h
  | stop obstacle' => exact congrArg Visit.stop (Except.error.inj h)

/-- The walk fails with a problem of the graph exactly where its itinerary has the problem after
visits that can all be made. -/
theorem walkGraph_eq_error_iff {workspace : Workspace} {obstacle : Obstacle}
    (hproblem : obstacle.isProblem) :
    workspace.walkGraph = .error obstacle ↔ ∃ before after,
      workspace.itinerary = before ++ .stop obstacle :: after ∧
        Capturable workspace.root before := by
  rw [Workspace.walkGraph, walk_eq_runAll, runAll_eq_error_iff, Workspace.itinerary]
  constructor
  · rintro ⟨before, visit, after, graph', hitinerary, hbefore, hvisit⟩
    obtain rfl := eq_stop_of_perform hvisit hproblem
    exact ⟨before, after, hitinerary, exists_runAll_start_iff.1 ⟨graph', hbefore⟩⟩
  · rintro ⟨before, after, hitinerary, hcapturable⟩
    obtain ⟨graph', hbefore⟩ := exists_runAll_start_iff.2 hcapturable
    exact ⟨before, _, after, graph', hitinerary, hbefore, rfl⟩

end Graph

namespace Workspace

variable {workspace : Workspace}

/-- At a repository that is among its ancestors, the itinerary stops. -/
theorem itineraryFrom_of_mem {fuel : ℕ} {ancestors : List Path} {source : Overlaid}
    (h : source.1 ∈ ancestors) (pre : String) :
    workspace.itineraryFrom fuel ancestors pre source = [.stop (.cycle source.1)] := by
  cases fuel with
  | zero => rw [itineraryFrom, if_pos h]
  | succ fuel => rw [itineraryFrom, if_pos h]

/-- Where a stop of an itinerary comes from: the repository is among its ancestors, the bound on the
recursion is too small, one of its inputs is malformed, or it is a stop on the way from a child. -/
theorem stop_mem_itineraryFrom {fuel : ℕ} {ancestors : List Path} {pre : String}
    {source : Overlaid} {obstacle : Obstacle}
    (h : .stop obstacle ∈ workspace.itineraryFrom fuel ancestors pre source) :
    (source.1 ∈ ancestors ∧ obstacle = .cycle source.1) ∨
    (source.1 ∉ ancestors ∧ fuel = 0 ∧ obstacle = .exhausted) ∨
    (¬ workspace.WellFormed source ∧
      (∃ error, obstacle = .url error ∨ obstacle = .overrides error)) ∨
    (source.1 ∉ ancestors ∧ ∃ fuel' child edge, fuel = fuel' + 1 ∧
      child ∈ workspace.children source ∧
      .stop obstacle ∈ workspace.itineraryFrom fuel' (source.1 :: ancestors) edge child) := by
  by_cases hancestor : source.1 ∈ ancestors
  · rw [itineraryFrom_of_mem hancestor] at h
    exact .inl ⟨hancestor, Visit.stop.inj (List.mem_singleton.1 h)⟩
  · cases fuel with
    | zero =>
      rw [itineraryFrom, if_neg hancestor] at h
      exact .inr (.inl ⟨hancestor, rfl, Visit.stop.inj (List.mem_singleton.1 h)⟩)
    | succ fuel =>
      rw [itineraryFrom, if_neg hancestor] at h
      have h := (List.mem_cons.1 h).resolve_left (by simp)
      obtain ⟨input, hinput, h⟩ := List.mem_flatMap.1 h
      -- An input with an error is malformed, and otherwise the stop is on the way from its child.
      have hmalformed : ∀ error, workspace.edge source.1 input.2 = .error error →
          ¬ workspace.WellFormed source := by
        intro error hedge hwell
        obtain ⟨child, hchild⟩ := hwell input hinput
        exact absurd (hedge.symm.trans hchild) (by simp)
      cases hpath : localPath workspace.resolve input.2 source.1 with
      | error error =>
        simp only [hpath, List.mem_singleton] at h
        exact .inr (.inr (.inl ⟨hmalformed error (workspace.edge_of_url hpath),
          error, .inl (Visit.stop.inj h)⟩))
      | ok path =>
        cases path with
        | none =>
          simp only [hpath] at h
          cases h
        | some path =>
          simp only [hpath] at h
          have h := (List.mem_cons.1 h).resolve_left (by simp)
          cases hoverlay : nestedInputs input.2 with
          | error error =>
            simp only [hoverlay, List.mem_singleton] at h
            exact .inr (.inr (.inl ⟨hmalformed error (workspace.edge_of_overrides hpath hoverlay),
              error, .inr (Visit.stop.inj h)⟩))
          | ok overlay =>
            simp only [hoverlay] at h
            exact .inr (.inr (.inr ⟨hancestor, fuel, (path, overlay), _, rfl,
              List.mem_filterMap.2 ⟨input, hinput, workspace.childOf_eq_some hpath hoverlay⟩, h⟩))

/-- Ancestors that are distinct repositories leave room for one that is not among them. -/
theorem length_lt_of_fresh {ancestors : List Path} {source : Overlaid}
    (hall : ∀ other, Reach workspace.children source other → other.1 ∈ workspace.repositories)
    (hnodup : ancestors.Nodup) (hancestors : ∀ path ∈ ancestors, path ∈ workspace.repositories)
    (hfresh : source.1 ∉ ancestors) : ancestors.length < workspace.repositories.length := by
  have hle : (source.1 :: ancestors).length ≤ workspace.repositories.length :=
    (List.subperm_of_subset (List.nodup_cons.2 ⟨hfresh, hnodup⟩)
      (List.forall_mem_cons.2 ⟨hall source .refl, hancestors⟩)).length_le
  rw [List.length_cons] at hle
  omega

/-- The bound on the recursion is never reached: the ancestors are distinct repositories. -/
theorem exhausted_notMem_itineraryFrom {fuel : ℕ} {ancestors : List Path} {pre : String}
    {source : Overlaid}
    (hall : ∀ other, Reach workspace.children source other → other.1 ∈ workspace.repositories)
    (hnodup : ancestors.Nodup) (hancestors : ∀ path ∈ ancestors, path ∈ workspace.repositories)
    (hfuel : workspace.repositories.length ≤ fuel + ancestors.length) :
    .stop .exhausted ∉ workspace.itineraryFrom fuel ancestors pre source := by
  induction fuel generalizing ancestors pre source with
  | zero =>
    intro h
    rcases stop_mem_itineraryFrom h with ⟨-, h⟩ | ⟨hfresh, -, -⟩ | ⟨-, error, h | h⟩ |
      ⟨-, fuel', _, _, h, -⟩
    · cases h
    -- The ancestors and this repository would be more than there are.
    · have hroom := length_lt_of_fresh hall hnodup hancestors hfresh
      omega
    · cases h
    · cases h
    · cases h
  | succ fuel ih =>
    intro h
    rcases stop_mem_itineraryFrom h with ⟨-, h⟩ | ⟨-, h, -⟩ | ⟨-, error, h | h⟩ |
      ⟨hfresh, fuel', child, edge, hfuel', hchild, h⟩
    · cases h
    · cases h
    · cases h
    · cases h
    -- The child has one ancestor more and one step less.
    · obtain rfl : fuel = fuel' := by omega
      refine ih (fun other hother => hall other (.head hchild hother))
        (List.nodup_cons.2 ⟨hfresh, hnodup⟩)
        (List.forall_mem_cons.2 ⟨hall source .refl, hancestors⟩) ?_ h
      rw [List.length_cons]
      omega

/-- The bound on the recursion is never reached from the root. -/
theorem exhausted_notMem_itinerary (workspace : Workspace) :
    .stop .exhausted ∉ workspace.itinerary :=
  exhausted_notMem_itineraryFrom workspace.assigned List.nodup_nil nofun (Nat.le_refl _)

/-- An itinerary that stops at a cycle has followed a way that returns. -/
theorem way_of_cycle_mem {fuel : ℕ} {ancestors : List Path} {pre : String} {source : Overlaid}
    {path : Path} (hfresh : source.1 ∉ ancestors)
    (h : .stop (.cycle path) ∈ workspace.itineraryFrom fuel ancestors pre source) :
    ∃ other places child, Way workspace.children Prod.fst source other places ∧
      child ∈ workspace.children other ∧ (child.1 ∈ ancestors ∨ child.1 ∈ places) := by
  induction fuel generalizing ancestors pre source with
  | zero =>
    rcases stop_mem_itineraryFrom h with ⟨hmem, -⟩ | ⟨-, -, h⟩ | ⟨-, error, h | h⟩ |
      ⟨-, fuel', _, _, h, -⟩
    · exact absurd hmem hfresh
    · cases h
    · cases h
    · cases h
    · cases h
  | succ fuel ih =>
    rcases stop_mem_itineraryFrom h with ⟨hmem, -⟩ | ⟨-, h, -⟩ | ⟨-, error, h | h⟩ |
      ⟨-, fuel', child, edge, hfuel', hchild, h⟩
    · exact absurd hmem hfresh
    · cases h
    · cases h
    · cases h
    -- The child returns itself, or a way below it does.
    · obtain rfl : fuel = fuel' := by omega
      by_cases hback : child.1 ∈ source.1 :: ancestors
      · refine ⟨source, [source.1], child, .here source, hchild, ?_⟩
        exact (List.mem_cons.1 hback).symm.imp_right fun heq => List.mem_singleton.2 heq
      · obtain ⟨other, places, grandchild, hway, hgrandchild, hreturn⟩ := ih hback h
        refine ⟨other, source.1 :: places, grandchild, .on hchild hway, hgrandchild, ?_⟩
        rw [List.mem_cons] at hreturn ⊢
        tauto

/-- The itinerary goes on to the children of a repository that is not among its ancestors. -/
theorem exists_itineraryFrom_of_child {ancestors : List Path} {source child : Overlaid}
    (hfresh : source.1 ∉ ancestors) (hchild : child ∈ workspace.children source) (fuel : ℕ)
    (pre : String) :
    ∃ edge, ∀ visit ∈ workspace.itineraryFrom fuel (source.1 :: ancestors) edge child,
      visit ∈ workspace.itineraryFrom (fuel + 1) ancestors pre source := by
  obtain ⟨input, hinput, hpath, hoverlay⟩ :=
    workspace.exists_input_of_mem_children hchild
  refine ⟨Graph.edgeName pre input.1, fun visit hvisit => ?_⟩
  rw [itineraryFrom, if_neg hfresh]
  refine List.mem_cons_of_mem _ (List.mem_flatMap.2 ⟨input, hinput, ?_⟩)
  simp only [hpath, hoverlay]
  exact List.mem_cons_of_mem _ hvisit

/-- An itinerary stops at a cycle where a way returns. -/
theorem cycle_mem_of_way {source other child : Overlaid} {places : List Path}
    (hway : Way workspace.children Prod.fst source other places)
    (hchild : child ∈ workspace.children other) {fuel : ℕ} {ancestors : List Path} {pre : String}
    (hreturn : child.1 ∈ ancestors ∨ child.1 ∈ places)
    (hall : ∀ other, Reach workspace.children source other → other.1 ∈ workspace.repositories)
    (hnodup : ancestors.Nodup) (hancestors : ∀ path ∈ ancestors, path ∈ workspace.repositories)
    (hfuel : workspace.repositories.length ≤ fuel + ancestors.length) :
    ∃ path, .stop (.cycle path) ∈ workspace.itineraryFrom fuel ancestors pre source := by
  induction hway generalizing fuel ancestors pre with
  | here source =>
    by_cases hfresh : source.1 ∈ ancestors
    · exact ⟨source.1, by rw [itineraryFrom_of_mem hfresh]; exact List.mem_cons_self⟩
    have hroom := length_lt_of_fresh hall hnodup hancestors hfresh
    obtain ⟨fuel, rfl⟩ : ∃ fuel', fuel = fuel' + 1 := ⟨fuel - 1, by omega⟩
    obtain ⟨edge, hedge⟩ := exists_itineraryFrom_of_child hfresh hchild fuel pre
    -- The way ends here, so the walk from the child stops at once.
    have hback : child.1 ∈ source.1 :: ancestors :=
      List.mem_cons.2 (hreturn.symm.imp_left List.mem_singleton.1)
    refine ⟨child.1, hedge _ ?_⟩
    rw [itineraryFrom_of_mem hback]
    exact List.mem_cons_self
  | @on source other next places hnext _ ih =>
    by_cases hfresh : source.1 ∈ ancestors
    · exact ⟨source.1, by rw [itineraryFrom_of_mem hfresh]; exact List.mem_cons_self⟩
    have hroom := length_lt_of_fresh hall hnodup hancestors hfresh
    obtain ⟨fuel, rfl⟩ : ∃ fuel', fuel = fuel' + 1 := ⟨fuel - 1, by omega⟩
    obtain ⟨edge, hedge⟩ := exists_itineraryFrom_of_child hfresh hnext fuel pre
    -- The way goes on, with the source among the ancestors of what follows.
    have hreturn' : child.1 ∈ source.1 :: ancestors ∨ child.1 ∈ places := by
      rw [List.mem_cons] at hreturn ⊢
      tauto
    have hfuel' : workspace.repositories.length ≤ fuel + (source.1 :: ancestors).length := by
      rw [List.length_cons]
      omega
    obtain ⟨path, hstop⟩ : ∃ path, .stop (.cycle path) ∈
        workspace.itineraryFrom fuel (source.1 :: ancestors) edge next :=
      ih hchild hreturn' (fun other hother => hall other (.head hnext hother))
        (List.nodup_cons.2 ⟨hfresh, hnodup⟩)
        (List.forall_mem_cons.2 ⟨hall source .refl, hancestors⟩) hfuel'
    exact ⟨path, hedge _ hstop⟩

/-- The itinerary from the root stops at a cycle exactly where some way from the root returns to a
repository on it. -/
theorem exists_cycle_mem_itinerary_iff :
    (∃ path, .stop (.cycle path) ∈ workspace.itinerary) ↔ ∃ source places child,
      Way workspace.children Prod.fst (workspace.root, none) source places ∧
        child ∈ workspace.children source ∧ child.1 ∈ places := by
  constructor
  · rintro ⟨path, h⟩
    obtain ⟨source, places, child, hway, hchild, hreturn⟩ := way_of_cycle_mem List.not_mem_nil h
    exact ⟨source, places, child, hway, hchild, hreturn.resolve_left List.not_mem_nil⟩
  · rintro ⟨source, places, child, hway, hchild, hreturn⟩
    exact cycle_mem_of_way hway hchild (.inr hreturn) workspace.assigned List.nodup_nil nofun
      (Nat.le_refl _)

/-- A stop of an itinerary is at a cycle, where the repositories that it leads to are well
formed. -/
theorem stop_eq_cycle {fuel : ℕ} {ancestors : List Path} {pre : String} {source : Overlaid}
    {obstacle : Obstacle} (hproblem : obstacle.isProblem)
    (hwell : ∀ other, Reach workspace.children source other → workspace.WellFormed other)
    (h : .stop obstacle ∈ workspace.itineraryFrom fuel ancestors pre source) :
    ∃ path, obstacle = .cycle path := by
  induction fuel generalizing ancestors pre source with
  | zero =>
    rcases stop_mem_itineraryFrom h with ⟨-, rfl⟩ | ⟨-, -, rfl⟩ | ⟨hmalformed, -⟩ |
      ⟨-, fuel', _, _, h, -⟩
    · exact ⟨_, rfl⟩
    · cases hproblem
    · exact absurd (hwell source .refl) hmalformed
    · cases h
  | succ fuel ih =>
    rcases stop_mem_itineraryFrom h with ⟨-, rfl⟩ | ⟨-, -, rfl⟩ | ⟨hmalformed, -⟩ |
      ⟨-, fuel', child, edge, hfuel, hchild, h⟩
    · exact ⟨_, rfl⟩
    · cases hproblem
    · exact absurd (hwell source .refl) hmalformed
    · obtain rfl : fuel = fuel' := by omega
      exact ih (fun other hother => hwell other (.head hchild hother)) h

end Workspace

/-- A clean preflight means that the preparation finds no problem of the graph, exactly where a
repository is malformed, a first way returns, or what the preparation would do before the first
cycle that it comes to cannot all be done. Where no way returns, the itinerary has no cycle. -/
theorem preflight_agrees_iff (workspace : Workspace) :
    ((∃ report, preflight workspace = .ok report) →
        ∀ obstacle, workspace.walkGraph = .error obstacle → obstacle.isProblem = false) ↔
      workspace.HasMalformed ∨ workspace.FirstWayReturns ∨
        ∀ before path after, workspace.itinerary = before ++ .stop (.cycle path) :: after →
          ¬ Capturable workspace.root before := by
  rw [Workspace.preflight_eq_ok_iff]
  constructor
  · intro h
    by_contra hnot
    simp only [not_or, not_forall, not_not] at hnot
    obtain ⟨hmalformed, hreturns, before, path, after, hitinerary, hcapturable⟩ := hnot
    have hfails : workspace.walkGraph = .error (.cycle path) :=
      (Graph.walkGraph_eq_error_iff rfl).2 ⟨before, after, hitinerary, hcapturable⟩
    exact absurd (h ⟨hmalformed, hreturns⟩ _ hfails) (by simp [Obstacle.isProblem])
  · rintro h ⟨hmalformed, hreturns⟩ obstacle hfails
    by_contra hproblem
    have hproblem : obstacle.isProblem = true := by simpa using hproblem
    obtain ⟨before, after, hitinerary, hcapturable⟩ :=
      (Graph.walkGraph_eq_error_iff hproblem).1 hfails
    have hmem : Visit.stop obstacle ∈ workspace.itinerary := by
      rw [hitinerary]
      exact List.mem_append_right _ List.mem_cons_self
    obtain ⟨path, rfl⟩ := Workspace.stop_eq_cycle hproblem (fun other hother =>
      by_contra fun hbad => hmalformed ⟨other, hother, hbad⟩) hmem
    exact ((h.resolve_left hmalformed).resolve_left hreturns) before path after hitinerary
      hcapturable

/-- Three repositories: `a` uses `x` with its input overridden, and `x` uses `a`. -/
def mutualInputs : Assignment where
  definitions source :=
    if source = "/w/root" then
      [("a", .object [("url", .string "git+file:a")]),
        ("x", .object [("url", .string "git+file:x")])]
    else if source = "/w/a" then
      [("x", .object [("inputs", .object [("a", .object [("follows", .string "b")])]),
        ("url", .string "git+file:x")])]
    else if source = "/w/x" then [("a", .object [("url", .string "git+file:a")])]
    else []
  resolve _ path :=
    if path = [97] then .ok "/w/a" else if path = [120] then .ok "/w/x" else .error "not found"

/-- The three repositories as a workspace. -/
def mutualWorkspace : Workspace where
  toAssignment := mutualInputs
  root := "/w/root"
  repositories := ["/w/root", "/w/a", "/w/x"]
  assigned := by
    refine mutualInputs.assigned_of_resolve (by simp) fun source path child h => ?_
    simp only [mutualInputs] at h
    split_ifs at h
    · obtain rfl := Except.ok.inj h
      simp
    · obtain rfl := Except.ok.inj h
      simp

/-- The preflight walks `a`, then `x` under the overlay, then `x` itself, whose input `a` was walked
before: it is clean. The preparation comes from `x` through `a` to `x`. -/
theorem clean_preflight_of_cycle :
    ∃ workspace : Workspace, preflight workspace = .ok ["/w/a", "/w/root", "/w/x"] ∧
      workspace.walkGraph = .error (.cycle "/w/x") :=
  ⟨mutualWorkspace, rfl, rfl⟩

end DaemonFramework.LocalBuild
