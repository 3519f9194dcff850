import DaemonFramework.LocalBuild.Coverage

/-!
# Snapshots, store paths and overrides

`Graph` of `shelllist-local-build/src/graph.rs` with all its data: the directories and inputs of the
captured repositories, their store paths, the overridden edges, and the calls that were made to
copy, evaluate and store. What Nix adds to the store, and what it leaves in the destination, can
depend on all calls before (`Nix`).

`Simulates` says how it stands to the graph of `Graph.lean`, which knows only the repositories, and
`exists_simulated` that a walk of the one is a walk of the other. So its overrides are those of the
itinerary, which are the chains of inputs (`mem_chainsFrom_iff`), and `single_snapshot` puts the
results together.
-/

namespace DaemonFramework.LocalBuild

open Value Traversal Worklist

/-- `Source`: a captured repository. -/
structure Source where
  /-- Its directory in the destination. -/
  directory : String
  /-- Its inputs. -/
  inputs : Inputs

/-- What is done to capture repositories. -/
inductive Call where
  /-- The worktree of a repository is copied. -/
  | snapshot (source : Path) (target : String)
  /-- The inputs of a copy are evaluated. -/
  | inputs (target : String)
  /-- A copy is added to the store. -/
  | addSource (directory gcRoot : String)
deriving DecidableEq

/-- What Nix does, after the calls that were made. -/
structure Nix where
  /-- The store path of a copy that is added. -/
  addSource : List Call → String → String → String
  /-- What the calls have left in the destination beside the copies. -/
  occupied : List Call → List String

/-- `Graph`, with all its data. -/
structure Snapshots where
  /-- The captured repositories. -/
  sources : List (Path × Source)
  /-- The store paths. -/
  storeSources : List (Path × String)
  /-- The overridden edges and their store paths. -/
  overrides : List (String × String)
  /-- The calls that were made. -/
  calls : List Call

namespace Snapshots

/-- A fresh graph. -/
def empty : Snapshots := ⟨[], [], [], []⟩

/-- `Graph::capture`. -/
def capture (workspace : Workspace) (nix : Nix) (graph : Snapshots) (source : Path) :
    Except Obstacle Snapshots :=
  if (graph.sources.lookup source).isSome then .ok graph
  else
    match Graph.directory workspace.root source with
    | none => .error (.capture "repository has no basename")
    | some name =>
      if name ∈ graph.sources.map (·.2.directory) ∨ name ∈ nix.occupied graph.calls then
        .error (.capture s!"local repository basename collision: {source}")
      else
        .ok { graph with
          sources := (source, ⟨name, workspace.definitions source⟩) :: graph.sources
          calls := graph.calls ++ [.snapshot source name, .inputs name] }

/-- `Graph::immutable`. -/
def immutable (nix : Nix) (graph : Snapshots) (source : Path) :
    Except Obstacle (Snapshots × String) :=
  match graph.storeSources.lookup source with
  | some path => .ok (graph, path)
  | none =>
    match graph.sources.lookup source with
    | none => .error (.capture "source was not captured")
    | some captured =>
      match fileName source with
      | none => .error (.capture "repository has no basename")
      | some name =>
        .ok ({ graph with
            storeSources :=
              (source, nix.addSource graph.calls captured.directory name) :: graph.storeSources
            calls := graph.calls ++ [.addSource captured.directory name] },
          nix.addSource graph.calls captured.directory name)

/-- An edge is overridden with a store path. -/
def push (graph : Snapshots) (edge path : String) : Snapshots :=
  { graph with overrides := graph.overrides ++ [(edge, path)] }

/-- The body of the loop over the direct inputs of `source`, with the walk of a child. -/
def follow (workspace : Workspace) (nix : Nix) (source : Path) (pre : String)
    (walk : String → Snapshots → Overlaid → Except Obstacle Snapshots) (graph : Snapshots)
    (input : String × Value) : Except Obstacle Snapshots :=
  match localPath workspace.resolve input.2 source with
  | .error error => .error (.url error)
  | .ok none => .ok graph
  | .ok (some child) =>
    (graph.capture workspace nix child).bind fun graph =>
      (graph.immutable nix child).bind fun stored =>
        match nestedInputs input.2 with
        | .error error => .error (.overrides error)
        | .ok overlay =>
          walk (Graph.edgeName pre input.1) (stored.1.push (Graph.edgeName pre input.1) stored.2)
            (child, overlay)

/-- The loop over the direct inputs. -/
def followAll (step : Snapshots → String × Value → Except Obstacle Snapshots) :
    Snapshots → Inputs → Except Obstacle Snapshots
  | graph, [] => .ok graph
  | graph, input :: rest => (step graph input).bind fun graph => followAll step graph rest

/-- `Graph::walk`. -/
def walk (workspace : Workspace) (nix : Nix) :
    ℕ → List Path → String → Snapshots → Overlaid → Except Obstacle Snapshots
  | fuel, ancestors, pre, graph, source =>
    if source.1 ∈ ancestors then .error (.cycle source.1)
    else
      match fuel with
      | 0 => .error .exhausted
      | fuel + 1 =>
        (graph.capture workspace nix source.1).bind fun graph =>
          match graph.sources.lookup source.1 with
          | none => .error (.capture "source was not captured")
          | some captured =>
            followAll
              (follow workspace nix source.1 pre
                (walk workspace nix fuel (source.1 :: ancestors)))
              graph (directInputs (overlaid captured.inputs source.2))

end Snapshots

/-- The walk that prepares a workspace, from its root and a fresh graph. -/
def Workspace.walkSnapshots (workspace : Workspace) (nix : Nix) : Except Obstacle Snapshots :=
  Snapshots.walk workspace nix workspace.repositories.length [] "" .empty (workspace.root, none)

/-! ## Maps -/

section Maps

variable {α β : Type} [DecidableEq α]

/-- What is found in a map is in it. -/
theorem mem_of_lookup {a : α} {b : β} {l : List (α × β)} (h : l.lookup a = some b) :
    (a, b) ∈ l := by
  obtain ⟨pre, post, rfl, -⟩ := List.lookup_eq_some_iff.1 h
  exact List.mem_append_right _ List.mem_cons_self

/-- Keys that a map does not have are not found. -/
theorem lookup_eq_none {a : α} {l : List (α × β)} :
    l.lookup a = none ↔ a ∉ l.map Prod.fst := by
  rw [List.lookup_eq_none_iff, List.mem_map]
  constructor
  · rintro h ⟨entry, hentry, rfl⟩
    simpa using h entry hentry
  · intro h entry hentry
    simpa using fun heq => h ⟨entry, hentry, Eq.symm heq⟩

/-- The keys of a map are found. -/
theorem lookup_isSome {a : α} {l : List (α × β)} :
    (l.lookup a).isSome ↔ a ∈ l.map Prod.fst := by
  rw [← not_iff_not, ← lookup_eq_none, Option.not_isSome_iff_eq_none]

/-- A new entry leaves what is found of the others. -/
theorem lookup_cons_of_ne {a a' : α} {b : β} {l : List (α × β)} (h : a ≠ a') :
    ((a', b) :: l).lookup a = l.lookup a := by
  rw [List.lookup_cons, beq_false_of_ne h]

end Maps

/-! ## What a graph has to do with its calls -/

/-- The repository that a call copies, and where. -/
def Call.snapshotOf : Call → Option (Path × String)
  | .snapshot source target => some (source, target)
  | _ => none

/-- The copy that a call evaluates. -/
def Call.evaluated : Call → Option String
  | .inputs target => some target
  | _ => none

namespace Snapshots

/-- How a graph stands to the calls that were made, and to the graph of its repositories. -/
structure Simulates (workspace : Workspace) (nix : Nix) (full : Snapshots) (graph : Graph) :
    Prop where
  /-- The repositories that were captured. -/
  sources : graph.sources = full.sources.map Prod.fst
  /-- The repositories that have store paths. -/
  storeSources : graph.storeSources = full.storeSources.map Prod.fst
  /-- The edges, with the repositories whose store paths they have. -/
  overrides : List.Forall₂ (fun entry edge =>
    entry.1 = edge.1 ∧ full.storeSources.lookup edge.2 = some entry.2) full.overrides graph.overrides
  /-- Each repository has its directory and its inputs. -/
  captured : ∀ entry ∈ full.sources,
    Graph.directory workspace.root entry.1 = some entry.2.directory ∧
      entry.2.inputs = workspace.definitions entry.1
  /-- No repository was captured twice. -/
  once : (full.sources.map Prod.fst).Nodup
  /-- No directory was used twice. -/
  directories : (full.sources.map (·.2.directory)).Nodup
  /-- The copies that were made. -/
  snapshots : full.calls.filterMap Call.snapshotOf =
    full.sources.reverse.map fun entry => (entry.1, entry.2.directory)
  /-- The copies that were evaluated. -/
  evaluations : full.calls.filterMap Call.evaluated = full.sources.reverse.map (·.2.directory)
  /-- The store paths are of the copies. -/
  stored : ∀ source path, full.storeSources.lookup source = some path →
    ∃ captured gcRoot past later, full.sources.lookup source = some captured ∧
      full.calls = past ++ .addSource captured.directory gcRoot :: later ∧
        path = nix.addSource past captured.directory gcRoot

variable {workspace : Workspace} {nix : Nix} {full full' : Snapshots} {graph : Graph}

/-- Fresh graphs. -/
theorem simulates_empty : Simulates workspace nix .empty ⟨[], [], []⟩ where
  sources := rfl
  storeSources := rfl
  overrides := .nil
  captured := nofun
  once := List.nodup_nil
  directories := List.nodup_nil
  snapshots := rfl
  evaluations := rfl
  stored := nofun

/-- The directories of the captured repositories. -/
theorem Simulates.mem_directories (h : Simulates workspace nix full graph) (name : String) :
    name ∈ graph.sources.filterMap (Graph.directory workspace.root) ↔
      name ∈ full.sources.map (·.2.directory) := by
  rw [h.sources, List.filterMap_map, List.mem_filterMap, List.mem_map]
  refine exists_congr fun entry => and_congr_right fun hentry => ?_
  rw [Function.comp_apply, (h.captured entry hentry).1, Option.some.injEq]

/-- Capturing a repository. -/
theorem Simulates.capture (h : Simulates workspace nix full graph) {source : Path}
    (hcapture : full.capture workspace nix source = .ok full') :
    ∃ graph', graph.capture workspace.root source = .ok graph' ∧
      Simulates workspace nix full' graph' ∧ (full'.sources.lookup source).isSome := by
  have hmem : source ∈ graph.sources ↔ (full.sources.lookup source).isSome := by
    rw [h.sources, lookup_isSome]
  unfold Snapshots.capture at hcapture
  unfold Graph.capture
  split_ifs at hcapture with hin
  · obtain rfl := Except.ok.inj hcapture
    exact ⟨graph, if_pos (hmem.2 hin), h, hin⟩
  · rw [if_neg fun hold => hin (hmem.1 hold)]
    cases hname : Graph.directory workspace.root source with
    | none => simp [hname] at hcapture
    | some name =>
      simp only [hname] at hcapture ⊢
      split_ifs at hcapture with htaken
      rw [not_or] at htaken
      have hfree : name ∉ graph.sources.filterMap (Graph.directory workspace.root) :=
        fun hold => htaken.1 ((h.mem_directories name).1 hold)
      obtain rfl := Except.ok.inj hcapture
      have hnew : source ∉ full.sources.map Prod.fst := fun hold => hin (lookup_isSome.2 hold)
      -- Both have the same directories, so the one of this repository is free in both.
      rw [if_neg hfree]
      refine ⟨_, rfl, ?_, by rw [List.lookup_cons_self]; rfl⟩
      constructor
      · exact congrArg _ h.sources
      · exact h.storeSources
      · exact h.overrides
      · exact List.forall_mem_cons.2 ⟨⟨hname, rfl⟩, h.captured⟩
      · exact List.nodup_cons.2 ⟨hnew, h.once⟩
      · exact List.nodup_cons.2 ⟨htaken.1, h.directories⟩
      · rw [List.filterMap_append, h.snapshots, List.reverse_cons, List.map_append]
        rfl
      · rw [List.filterMap_append, h.evaluations, List.reverse_cons, List.map_append]
        rfl
      · intro other path hpath
        obtain ⟨captured, gcRoot, past, later, hcaptured, hcalls, hadded⟩ :=
          h.stored other path hpath
        have hne : other ≠ source := by
          rintro rfl
          rw [hcaptured] at hin
          exact hin rfl
        refine ⟨captured, gcRoot, past, later ++ [.snapshot source name, .inputs name], ?_, ?_,
          hadded⟩
        · rw [lookup_cons_of_ne hne]
          exact hcaptured
        · rw [hcalls, List.append_assoc]
          rfl

/-- Giving a captured repository a store path. -/
theorem Simulates.immutable (h : Simulates workspace nix full graph) {source : Path} {path : String}
    (himmutable : full.immutable nix source = .ok (full', path)) :
    ∃ graph', graph.immutable source = .ok graph' ∧ Simulates workspace nix full' graph' ∧
      full'.storeSources.lookup source = some path := by
  unfold Snapshots.immutable at himmutable
  unfold Graph.immutable
  cases hstored : full.storeSources.lookup source with
  | some stored =>
    -- The repository has a store path, and nothing is called.
    simp only [hstored, Except.ok.injEq, Prod.mk.injEq] at himmutable
    obtain ⟨rfl, rfl⟩ := himmutable
    have hmem : source ∈ graph.storeSources := by
      rw [h.storeSources, ← lookup_isSome, hstored]
      rfl
    exact ⟨graph, if_pos hmem, h, hstored⟩
  | none =>
    have hmem : source ∉ graph.storeSources := by
      rw [h.storeSources]
      exact lookup_eq_none.1 hstored
    simp only [hstored] at himmutable
    cases hcaptured : full.sources.lookup source with
    | none => simp [hcaptured] at himmutable
    | some captured =>
      simp only [hcaptured] at himmutable
      cases hname : fileName source with
      | none => simp [hname] at himmutable
      | some name =>
        simp only [hname, Except.ok.injEq, Prod.mk.injEq] at himmutable
        obtain ⟨rfl, rfl⟩ := himmutable
        have hpresent : ¬ source ∉ graph.sources := by
          rw [h.sources, ← lookup_isSome, hcaptured]
          simp
        rw [if_neg hmem, if_neg hpresent]
        -- It is added to the store, with the copy that it was captured as.
        refine ⟨_, rfl, ?_, List.lookup_cons_self⟩
        constructor
        · exact h.sources
        · exact congrArg _ h.storeSources
        · refine h.overrides.imp fun entry edge hentry => ⟨hentry.1, ?_⟩
          have hne : edge.2 ≠ source := by
            intro heq
            rw [heq, hstored] at hentry
            exact absurd hentry.2 nofun
          rw [lookup_cons_of_ne hne]
          exact hentry.2
        · exact h.captured
        · exact h.once
        · exact h.directories
        · simp [h.snapshots, Call.snapshotOf]
        · simp [h.evaluations, Call.evaluated]
        · intro other stored hother
          by_cases heq : other = source
          · subst heq
            rw [List.lookup_cons_self] at hother
            exact ⟨captured, name, full.calls, [], hcaptured, rfl, (Option.some.inj hother).symm⟩
          · rw [lookup_cons_of_ne heq] at hother
            obtain ⟨captured', gcRoot, past, later, hlookup, hcalls, hadded⟩ :=
              h.stored other stored hother
            refine ⟨captured', gcRoot, past, later ++ [.addSource captured.directory name],
              hlookup, ?_,
              hadded⟩
            rw [hcalls, List.append_assoc]
            rfl

/-- Overriding an edge. -/
theorem Simulates.push (h : Simulates workspace nix full graph) (edge : String) {path : String}
    {child : Path}
    (hstored : full.storeSources.lookup child = some path) :
    Simulates workspace nix (full.push edge path)
      { graph with overrides := graph.overrides ++ [(edge, child)] } where
  sources := h.sources
  storeSources := h.storeSources
  overrides := List.rel_append h.overrides (.cons ⟨rfl, hstored⟩ .nil)
  captured := h.captured
  once := h.once
  directories := h.directories
  snapshots := h.snapshots
  evaluations := h.evaluations
  stored := h.stored

/-- A walk follows inputs as the walk of the repositories does, if the walks from them do. -/
theorem exists_followAll {source : Path} {pre : String}
    (visit : String → Snapshots → Overlaid → Except Obstacle Snapshots)
    (visit' : String → Graph → Overlaid → Except Obstacle Graph)
    (hvisit : ∀ {edge full graph child full'}, Simulates workspace nix full graph →
      visit edge full child = .ok full' →
        ∃ graph', visit' edge graph child = .ok graph' ∧ Simulates workspace nix full' graph')
    {inputs : Inputs} (h : Simulates workspace nix full graph)
    (hfollow : followAll (follow workspace nix source pre visit) full inputs = .ok full') :
    ∃ graph', Graph.runAll (Graph.follow workspace source pre visit') graph inputs = .ok graph' ∧
      Simulates workspace nix full' graph' := by
  induction inputs generalizing full graph with
  | nil =>
    obtain rfl := Except.ok.inj hfollow
    exact ⟨graph, rfl, h⟩
  | cons input rest ih =>
    obtain ⟨full₁, hfirst, hrest⟩ := bind_eq_ok hfollow
    -- Both follow the first input alike: capture, store path, override, and the visit of the child.
    have hstep : ∃ graph₁, Graph.follow workspace source pre visit' graph input = .ok graph₁ ∧
        Simulates workspace nix full₁ graph₁ := by
      unfold follow at hfirst
      unfold Graph.follow
      cases hlocal : localPath workspace.resolve input.2 source with
      | error error => simp [hlocal] at hfirst
      | ok child =>
        simp only [hlocal] at hfirst ⊢
        cases child with
        | none =>
          obtain rfl := Except.ok.inj hfirst
          exact ⟨graph, rfl, h⟩
        | some child =>
          obtain ⟨full₂, hcapture, hfirst⟩ := bind_eq_ok hfirst
          obtain ⟨⟨full₃, path⟩, himmutable, hfirst⟩ := bind_eq_ok hfirst
          obtain ⟨graph₂, hcapture', h₂, -⟩ := h.capture hcapture
          obtain ⟨graph₃, himmutable', h₃, hstored⟩ := h₂.immutable himmutable
          have hpush := h₃.push (Graph.edgeName pre input.1) hstored
          simp only [Graph.override, hcapture', Except.bind, himmutable', Except.map]
          cases hnested : nestedInputs input.2 with
          | error error => simp [hnested] at hfirst
          | ok overlay =>
            simp only [hnested] at hfirst
            exact hvisit hpush hfirst
    obtain ⟨graph₁, hgraph, h₁⟩ := hstep
    obtain ⟨graph', hgraph', h'⟩ := ih h₁ hrest
    refine ⟨graph', ?_, h'⟩
    rw [Graph.runAll, hgraph]
    exact hgraph'

/-- A walk is a walk of the repositories. -/
theorem exists_simulated {fuel : ℕ} {ancestors : List Path} {pre : String} {source : Overlaid}
    (h : Simulates workspace nix full graph)
    (hwalk : walk workspace nix fuel ancestors pre full source = .ok full') :
    ∃ graph', Graph.walk workspace fuel ancestors pre graph source = .ok graph' ∧
      Simulates workspace nix full' graph' := by
  induction fuel generalizing ancestors pre source full full' graph with
  | zero =>
    rw [walk] at hwalk
    split_ifs at hwalk
  | succ fuel ih =>
    rw [walk] at hwalk
    rw [Graph.walk]
    split_ifs at hwalk ⊢
    obtain ⟨full₁, hcapture, hrest⟩ := bind_eq_ok hwalk
    obtain ⟨graph₁, hcapture', h₁, hsome⟩ := h.capture hcapture
    obtain ⟨captured, hcaptured⟩ := Option.isSome_iff_exists.1 hsome
    have hinputs : captured.inputs = workspace.definitions source.1 :=
      (h₁.captured _ (mem_of_lookup hcaptured)).2
    simp only [hcaptured, hinputs] at hrest
    simp only [hcapture', Except.bind]
    exact exists_followAll (walk workspace nix fuel (source.1 :: ancestors))
      (Graph.walk workspace fuel (source.1 :: ancestors))
        (fun hsim hvisit => ih hsim hvisit) h₁ hrest

end Snapshots

/-! ## Chains of inputs -/

/-- A chain of direct local inputs, under the overlays that are in force along it: their names, and
the repository and overlay that it leads to. -/
inductive Chain (assignment : Assignment) : Overlaid → List String → Overlaid → Prop where
  /-- No inputs. -/
  | here (source : Overlaid) : Chain assignment source [] source
  /-- A direct local input, and a chain from where it leads. -/
  | on {source target : Overlaid} {input : String × Value} {child : Path} {overlay : Option Inputs}
    {names : List String} (hinput : input ∈ assignment.direct source)
    (hchild : localPath assignment.resolve input.2 source.1 = .ok (some child))
    (hoverlay : nestedInputs input.2 = .ok overlay)
    (h : Chain assignment (child, overlay) names target) :
    Chain assignment source (input.1 :: names) target

/-- The overridden edge of a visit, with its repository. -/
def Visit.overridden : Visit → Option (String × Path)
  | .edge name child => some (name, child)
  | _ => none

namespace Workspace

variable (workspace : Workspace)

/-- The chains that the walk overrides, with the repositories that they lead to. -/
def chainsFrom : ℕ → List Path → Overlaid → List (List String × Path)
  | 0, _, _ => []
  | fuel + 1, ancestors, source =>
    if source.1 ∈ ancestors then []
    else
      (workspace.direct source).flatMap fun input =>
        match localPath workspace.resolve input.2 source.1 with
        | .error _ => []
        | .ok none => []
        | .ok (some child) =>
          ([input.1], child) ::
            match nestedInputs input.2 with
            | .error _ => []
            | .ok overlay =>
              (chainsFrom fuel (source.1 :: ancestors) (child, overlay)).map fun chain =>
                (input.1 :: chain.1, chain.2)

variable {workspace}

/-- The edges of the itinerary are those of the chains. -/
theorem overridden_itineraryFrom (fuel : ℕ) (ancestors : List Path) (pre : String)
    (source : Overlaid) :
    (workspace.itineraryFrom fuel ancestors pre source).filterMap Visit.overridden =
      (workspace.chainsFrom fuel ancestors source).map fun chain =>
        (chain.1.foldl Graph.edgeName pre, chain.2) := by
  induction fuel generalizing ancestors pre source with
  | zero =>
    rw [itineraryFrom, chainsFrom]
    split_ifs <;> rfl
  | succ fuel ih =>
    rw [itineraryFrom, chainsFrom]
    split_ifs
    · rfl
    · rw [List.filterMap_cons_none rfl, List.filterMap_flatMap, List.map_flatMap]
      refine List.flatMap_congr fun input _ => ?_
      cases localPath workspace.resolve input.2 source.1 with
      | error error => rfl
      | ok child =>
        cases child with
        | none => rfl
        | some child =>
          refine congrArg (List.cons (Graph.edgeName pre input.1, child)) ?_
          cases nestedInputs input.2 with
          | error error => rfl
          | ok overlay =>
            dsimp only
            rw [ih, List.map_map]
            rfl

/-- Without a stop, the chains of the walk are all chains. -/
theorem mem_chainsFrom_iff {fuel : ℕ} {ancestors : List Path} {pre : String} {source : Overlaid}
    (hstop : ∀ obstacle, .stop obstacle ∉ workspace.itineraryFrom fuel ancestors pre source)
    {names : List String} {path : Path} :
    (names, path) ∈ workspace.chainsFrom fuel ancestors source ↔
      names ≠ [] ∧ ∃ target, Chain workspace.toAssignment source names target ∧
        target.1 = path := by
  induction fuel generalizing ancestors pre source names path with
  | zero =>
    rw [itineraryFrom] at hstop
    split_ifs at hstop
    · exact absurd (List.mem_singleton.2 rfl) (hstop _)
    · exact absurd (List.mem_singleton.2 rfl) (hstop _)
  | succ fuel ih =>
    have hfresh : source.1 ∉ ancestors := by
      intro hmem
      rw [itineraryFrom_of_mem hmem] at hstop
      exact hstop _ (List.mem_singleton.2 rfl)
    rw [itineraryFrom, if_neg hfresh] at hstop
    rw [chainsFrom, if_neg hfresh, List.mem_flatMap]
    have hstop' := fun input (hinput : input ∈ workspace.direct source) obstacle hmem =>
      hstop obstacle (List.mem_cons_of_mem _ (List.mem_flatMap.2 ⟨input, hinput, hmem⟩))
    -- What one input contributes: the chain of itself, and those that go on from there.
    have hinput : ∀ input ∈ workspace.direct source, ∀ child,
        localPath workspace.resolve input.2 source.1 = .ok (some child) →
        ∃ overlay, nestedInputs input.2 = .ok overlay ∧
          ∀ obstacle, .stop obstacle ∉ workspace.itineraryFrom fuel (source.1 :: ancestors)
            (Graph.edgeName pre input.1) (child, overlay) := by
      intro input hmem child hchild
      have hnone := hstop' input hmem
      simp only [hchild] at hnone
      cases hnested : nestedInputs input.2 with
      | error error =>
        simp only [hnested] at hnone
        exact absurd (List.mem_cons_of_mem _ (List.mem_singleton.2 rfl)) (hnone (.overrides error))
      | ok overlay =>
        simp only [hnested] at hnone
        exact ⟨overlay, rfl, fun obstacle hstop =>
          hnone obstacle (List.mem_cons_of_mem _ hstop)⟩
    constructor
    · rintro ⟨input, hmem, hchain⟩
      cases hchild : localPath workspace.resolve input.2 source.1 with
      | error error => simp [hchild] at hchain
      | ok child =>
        cases child with
        | none => simp [hchild] at hchain
        | some child =>
          obtain ⟨overlay, hoverlay, hnone⟩ := hinput input hmem child hchild
          simp only [hchild, hoverlay] at hchain
          rcases List.mem_cons.1 hchain with heq | hchain
          · obtain ⟨rfl, rfl⟩ := Prod.mk.inj heq
            exact ⟨List.cons_ne_nil _ _, (path, overlay), .on hmem hchild hoverlay (.here _), rfl⟩
          · obtain ⟨⟨names', path'⟩, hmem', heq⟩ := List.mem_map.1 hchain
            obtain ⟨rfl, rfl⟩ := Prod.mk.inj heq
            obtain ⟨-, target, htarget, hpath⟩ := (ih hnone).1 hmem'
            exact ⟨List.cons_ne_nil _ _, target, .on hmem hchild hoverlay htarget, hpath⟩
    · rintro ⟨hne, target, hchain, hpath⟩
      cases hchain with
      | here => exact absurd rfl hne
      | @on _ _ input child overlay names hmem hchild hoverlay hrest =>
        refine ⟨input, hmem, ?_⟩
        obtain ⟨overlay', hoverlay', hnone⟩ := hinput input hmem child hchild
        obtain rfl : overlay' = overlay := Except.ok.inj (hoverlay'.symm.trans hoverlay)
        simp only [hchild, hoverlay]
        by_cases hnames : names = []
        · subst hnames
          cases hrest
          obtain rfl : child = path := hpath
          exact List.mem_cons_self
        · exact List.mem_cons_of_mem _
            (List.mem_map.2 ⟨(names, path), (ih hnone).2 ⟨hnames, target, hrest, hpath⟩, rfl⟩)

/-- Chains of a walk have names. -/
theorem ne_nil_of_mem_chainsFrom {fuel : ℕ} {ancestors : List Path} {source : Overlaid}
    {chain : List String × Path} (h : chain ∈ workspace.chainsFrom fuel ancestors source) :
    chain.1 ≠ [] := by
  cases fuel with
  | zero => cases h
  | succ fuel =>
    rw [chainsFrom] at h
    split_ifs at h
    · cases h
    · obtain ⟨input, -, h⟩ := List.mem_flatMap.1 h
      split at h
      · cases h
      · cases h
      · rcases List.mem_cons.1 h with rfl | h
        · exact List.cons_ne_nil _ _
        · split at h
          · cases h
          · obtain ⟨other, -, rfl⟩ := List.mem_map.1 h
            exact List.cons_ne_nil _ _

/-- The walk takes no chain twice, where no repository has two inputs of one name. -/
theorem nodup_chainsFrom {fuel : ℕ} {ancestors : List Path} {source : Overlaid}
    (hnames : ∀ other, Reach workspace.children source other →
      ((workspace.direct other).map Prod.fst).Nodup) :
    ((workspace.chainsFrom fuel ancestors source).map Prod.fst).Nodup := by
  induction fuel generalizing ancestors source with
  | zero => exact List.nodup_nil
  | succ fuel ih =>
    rw [chainsFrom]
    split_ifs
    · exact List.nodup_nil
    rw [List.map_flatMap, List.nodup_flatMap]
    constructor
    -- The chains of one input are that input, and longer ones that differ behind it.
    · intro input hinput
      split
      · exact List.nodup_nil
      · exact List.nodup_nil
      · rename_i child hchild
        rw [List.map_cons, List.nodup_cons]
        split
        · exact ⟨List.not_mem_nil, List.nodup_nil⟩
        · rename_i overlay hoverlay
          rw [List.map_map]
          constructor
          · intro hmem
            obtain ⟨chain, hchain, heq⟩ := List.mem_map.1 hmem
            exact ne_nil_of_mem_chainsFrom hchain (List.cons.inj heq).2
          · have hreach : (child, overlay) ∈ workspace.children source :=
              List.mem_filterMap.2 ⟨input, hinput, workspace.childOf_eq_some hchild hoverlay⟩
            have hrest : ((workspace.chainsFrom fuel (source.1 :: ancestors)
                (child, overlay)).map Prod.fst).Nodup :=
              ih fun other hother => hnames other (.head hreach hother)
            have hmap := hrest.map (f := List.cons input.1) fun a b hab => (List.cons.inj hab).2
            rw [List.map_map] at hmap
            exact hmap
    -- Chains of different inputs differ in their first names.
    · have hheads : ∀ (input : String × Value) names, names ∈ List.map Prod.fst
          (match localPath workspace.resolve input.2 source.1 with
          | .error _ => []
          | .ok none => []
          | .ok (some child) =>
            ([input.1], child) ::
              match nestedInputs input.2 with
              | .error _ => []
              | .ok overlay =>
                (workspace.chainsFrom fuel (source.1 :: ancestors)
                  (child, overlay)).map fun chain =>
                  (input.1 :: chain.1, chain.2)) → names.head? = some input.1 := by
        intro input names hnames
        obtain ⟨chain, hchain, rfl⟩ := List.mem_map.1 hnames
        split at hchain
        · cases hchain
        · cases hchain
        · rcases List.mem_cons.1 hchain with rfl | hchain
          · rfl
          · split at hchain
            · cases hchain
            · obtain ⟨other, -, rfl⟩ := List.mem_map.1 hchain
              rfl
      have hpairwise := List.pairwise_map.1 (hnames source .refl)
      refine hpairwise.imp fun {a b} hab => ?_
      intro names ha hb
      exact hab (Option.some.inj ((hheads a names ha).symm.trans (hheads b names hb)))

end Workspace

/-- A chain leads to what the inputs lead to. -/
theorem Chain.reach {assignment : Assignment} {source target : Overlaid} {names : List String}
    (h : Chain assignment source names target) : Reach assignment.children source target := by
  induction h with
  | here source => exact .refl
  | on hinput hchild hoverlay _ ih =>
    exact .head (List.mem_filterMap.2 ⟨_, hinput, assignment.childOf_eq_some hchild hoverlay⟩) ih

/-- There is a chain to all that the inputs lead to. -/
theorem exists_chain {assignment : Assignment} {source target : Overlaid}
    (h : Reach assignment.children source target) :
    ∃ names, Chain assignment source names target := by
  induction h using Relation.ReflTransGen.head_induction_on with
  | refl => exact ⟨[], .here _⟩
  | head hchild _ ih =>
    obtain ⟨input, hinput, hlocal, hoverlay⟩ := assignment.exists_input_of_mem_children hchild
    obtain ⟨names, hnames⟩ := ih
    exact ⟨input.1 :: names, .on hinput hlocal hoverlay hnames⟩

/-! ## The names of edges -/

/-- Names without a slash. -/
def slashless : Shape := ⟨fun name => '/' ∉ name.toList, false⟩

/-- The name of an edge joins the names of its inputs, from the first one that is not empty on. -/
theorem foldl_edgeName {pre : String} (hpre : pre ≠ "") (names : List String) :
    names.foldl Graph.edgeName pre = "/".intercalate (pre :: names) := by
  induction names generalizing pre with
  | nil => simp
  | cons name rest ih =>
    have hedge : Graph.edgeName pre name = pre ++ ("/" ++ name) := by
      unfold Graph.edgeName
      rw [if_neg hpre, ← String.append_assoc]
      rfl
    have hne : pre ++ ("/" ++ name) ≠ "" := by simp [hpre]
    rw [List.foldl_cons, hedge, ih hne, String.intercalate_cons_append,
      String.intercalate_cons_append, String.intercalate_cons_cons, String.append_assoc]

/-- Names without a slash are told from their join. -/
theorem intercalate_injective {names names' : List String}
    (hnames : ∀ name ∈ names, '/' ∉ name.toList)
    (hnames' : ∀ name ∈ names', '/' ∉ name.toList) (hne : names ≠ []) (hne' : names' ≠ [])
    (h : "/".intercalate names = "/".intercalate names') : names = names' := by
  have hsplit : ∀ names : List String, (∀ name ∈ names, '/' ∉ name.toList) → names ≠ [] →
      ("/".intercalate names).toList.splitOn '/' = names.map String.toList := by
    intro names hnames hne
    have hslash : "/".toList = ['/'] := rfl
    rw [String.toList_intercalate, hslash, List.splitOn_intercalate]
    · rintro chars hchars
      obtain ⟨name, hname, rfl⟩ := List.mem_map.1 hchars
      exact hnames name hname
    · simpa using hne
  have hlists : names.map String.toList = names'.map String.toList := by
    rw [← hsplit names hnames hne, ← hsplit names' hnames' hne', h]
  exact List.map_injective_iff.2 (fun a b hab => String.toList_injective hab) hlists

/-! ## One snapshot for each repository -/

/-- The results of a walk that succeeds. -/
structure SingleSnapshot (workspace : Workspace) (nix : Nix) (graph : Snapshots) : Prop where
  /-- The captured repositories are those that chains lead to. -/
  reached : ∀ path, path ∈ graph.sources.map Prod.fst ↔
    ∃ names target, Chain workspace.toAssignment (workspace.root, none) names target ∧
      target.1 = path
  /-- None was captured twice. -/
  once : (graph.sources.map Prod.fst).Nodup
  /-- Each was copied once, to its directory. -/
  snapshots : graph.calls.filterMap Call.snapshotOf =
    graph.sources.reverse.map fun entry => (entry.1, entry.2.directory)
  /-- Each copy was evaluated once. -/
  evaluations : graph.calls.filterMap Call.evaluated = graph.sources.reverse.map (·.2.directory)
  /-- No two have the same directory. -/
  directories : (graph.sources.map (·.2.directory)).Nodup
  /-- No edge is overridden twice. -/
  edges : (graph.overrides.map Prod.fst).Nodup
  /-- Chains with the same joined names have the same names. -/
  apart : ∀ names names' target target', names ≠ [] → names' ≠ [] →
    Chain workspace.toAssignment (workspace.root, none) names target →
    Chain workspace.toAssignment (workspace.root, none) names' target' →
      "/".intercalate names = "/".intercalate names' → names = names'
  /-- The overrides are one for each chain, with the store path of the repository that it leads
  to. -/
  overrides : ∀ edge path, (edge, path) ∈ graph.overrides ↔
    ∃ names target, names ≠ [] ∧
      Chain workspace.toAssignment (workspace.root, none) names target ∧
        edge = "/".intercalate names ∧ graph.storeSources.lookup target.1 = some path
  /-- Every captured repository but the root has a store path. -/
  stored : ∀ path ∈ graph.sources.map Prod.fst, path ≠ workspace.root →
    ∃ store, graph.storeSources.lookup path = some store
  /-- The store path of a repository is what adding its one copy gave. -/
  added : ∀ source path, graph.storeSources.lookup source = some path →
    ∃ captured gcRoot past later, graph.sources.lookup source = some captured ∧
      graph.calls = past ++ .addSource captured.directory gcRoot :: later ∧
        path = nix.addSource past captured.directory gcRoot

/-- Capturing a repository overrides nothing. -/
theorem Graph.overrides_of_capture {root source : Path} {graph graph' : Graph}
    (h : graph.capture root source = .ok graph') : graph'.overrides = graph.overrides := by
  by_cases hmem : source ∈ graph.sources
  · obtain rfl : graph = graph' := by simpa [capture, hmem] using h
    rfl
  · obtain ⟨-, rfl⟩ := capture_of_notMem hmem h
    rfl

/-- Giving a repository a store path overrides nothing. -/
theorem Graph.overrides_of_immutable {source : Path} {graph graph' : Graph}
    (h : graph.immutable source = .ok graph') : graph'.overrides = graph.overrides := by
  unfold immutable at h
  split_ifs at h
  · obtain rfl := Except.ok.inj h
    rfl
  · obtain rfl := Except.ok.inj h
    rfl

/-- A visit overrides an edge that it takes, and nothing else. -/
theorem Graph.overrides_of_perform {root : Path} {graph graph' : Graph} {visit : Visit}
    (h : graph.perform root visit = .ok graph') :
    graph'.overrides = graph.overrides ++ visit.overridden.toList := by
  cases visit with
  | enter source => exact (overrides_of_capture h).trans (List.append_nil _).symm
  | edge name child =>
    obtain ⟨graph₁, hcapture, hrest⟩ := bind_eq_ok h
    cases hstore : graph₁.immutable child with
    | error obstacle =>
      rw [hstore] at hrest
      cases hrest
    | ok graph₂ =>
      rw [hstore] at hrest
      obtain rfl := Except.ok.inj hrest
      dsimp only
      rw [overrides_of_immutable hstore, overrides_of_capture hcapture]
      rfl
  | stop obstacle => cases h

/-- What the overrides of a walk of the repositories are. -/
theorem Graph.overrides_of_runAll {root : Path} {graph graph' : Graph} {visits : List Visit}
    (h : runAll (perform root) graph visits = .ok graph') :
    graph'.overrides = graph.overrides ++ visits.filterMap Visit.overridden := by
  induction visits generalizing graph with
  | nil =>
    obtain rfl := Except.ok.inj h
    simp
  | cons visit rest ih =>
    obtain ⟨between, hperform, hrest⟩ := bind_eq_ok h
    rw [ih hrest, overrides_of_perform hperform, List.filterMap_cons, List.append_assoc]
    cases visit.overridden <;> rfl

/-- The elements of related lists are related. -/
theorem forall₂_mem {α β : Type} {R : α → β → Prop} {l : List α} {l' : List β}
    (h : List.Forall₂ R l l') : (∀ a ∈ l, ∃ b ∈ l', R a b) ∧ ∀ b ∈ l', ∃ a ∈ l, R a b := by
  induction h with
  | nil => exact ⟨nofun, nofun⟩
  | cons hab _ ih =>
    constructor
    · refine List.forall_mem_cons.2 ⟨⟨_, List.mem_cons_self, hab⟩, fun a ha => ?_⟩
      obtain ⟨b, hb, hR⟩ := ih.1 a ha
      exact ⟨b, List.mem_cons_of_mem _ hb, hR⟩
    · refine List.forall_mem_cons.2 ⟨⟨_, List.mem_cons_self, hab⟩, fun b hb => ?_⟩
      obtain ⟨a, ha, hR⟩ := ih.2 b hb
      exact ⟨a, List.mem_cons_of_mem _ ha, hR⟩

/-- The overrides of a graph are those of the graph of its repositories, with their store paths. -/
theorem Snapshots.Simulates.mem_overrides {workspace : Workspace} {nix : Nix} {full : Snapshots}
    {graph : Graph} (h : Snapshots.Simulates workspace nix full graph) (edge path : String) :
    (edge, path) ∈ full.overrides ↔
      ∃ child, (edge, child) ∈ graph.overrides ∧ full.storeSources.lookup child = some path := by
  obtain ⟨hleft, hright⟩ := forall₂_mem h.overrides
  constructor
  · intro hmem
    obtain ⟨⟨edge', child⟩, hedge, heq, hstored⟩ := hleft _ hmem
    obtain rfl : edge = edge' := heq
    exact ⟨child, hedge, hstored⟩
  · rintro ⟨child, hmem, hstored⟩
    obtain ⟨⟨edge', path'⟩, hentry, heq, hstored'⟩ := hright _ hmem
    obtain rfl : edge' = edge := heq
    obtain rfl : path' = path := Option.some.inj (hstored'.symm.trans hstored)
    exact hentry

/-- The edges of a graph are those of the graph of its repositories. -/
theorem Snapshots.Simulates.edges {workspace : Workspace} {nix : Nix} {full : Snapshots}
    {graph : Graph} (h : Snapshots.Simulates workspace nix full graph) :
    full.overrides.map Prod.fst = graph.overrides.map Prod.fst := by
  have hedges := h.overrides
  generalize full.overrides = entries at hedges ⊢
  generalize graph.overrides = edges at hedges ⊢
  induction hedges with
  | nil => rfl
  | cons hentry _ ih => rw [List.map_cons, List.map_cons, hentry.1, ih]

/-- The names along a chain have no slash where no name has one. -/
theorem Chain.names_slashless {workspace : Workspace} {source target : Overlaid}
    {names : List String}
    (hslash : ∀ source ∈ workspace.repositories,
      conformsFields slashless .inputs (workspace.definitions source))
    (hreach : Reach workspace.children (workspace.root, none) source)
    (h : Chain workspace.toAssignment source names target) : ∀ name ∈ names, '/' ∉ name.toList := by
  induction h with
  | here => exact nofun
  | @on source target input child overlay names hinput hchild hoverlay _ ih =>
    have hfield := slashless.kept.direct_of_reach (i := .inputs) hslash
      (fun _ _ _ hfield hnested => Shape.nested hfield hnested) hreach input hinput
    have hedge : (child, overlay) ∈ workspace.children source :=
      List.mem_filterMap.2 ⟨input, hinput, workspace.childOf_eq_some hchild hoverlay⟩
    refine List.forall_mem_cons.2 ⟨?_, ih (hreach.tail hedge)⟩
    simpa [slashless] using hfield.1 rfl

/-- The edge of a chain joins its names where no input of the root has the empty name. -/
theorem Chain.edge_eq {workspace : Workspace} {target : Overlaid} {names : List String}
    (hroot : ∀ input ∈ workspace.definitions workspace.root, input.1 ≠ "") (hne : names ≠ [])
    (h : Chain workspace.toAssignment (workspace.root, none) names target) :
    names.foldl Graph.edgeName "" = "/".intercalate names := by
  cases h with
  | here => exact absurd rfl hne
  | @on _ _ input _ _ names hinput _ _ _ =>
    have hfirst : input.1 ≠ "" := hroot input (List.mem_of_mem_filter hinput)
    exact foldl_edgeName hfirst names

/-- The chains from the root have different names where the maps have ordered keys. -/
theorem Workspace.nodup_names_chainsFrom {workspace : Workspace}
    (hordered : ∀ source ∈ workspace.repositories,
      orderedFields (workspace.definitions source)) :
    ((workspace.chainsFrom workspace.repositories.length [] (workspace.root, none)).map
      Prod.fst).Nodup := by
  refine Workspace.nodup_chainsFrom fun source hreach => ?_
  have hoverlay := orderedKept.overlay_of_reach (i := ()) hordered
    (fun _ _ _ hfield hnested => ordered_nested hfield hnested) hreach
  have hmap := orderedKept.overlaid (i := ())
    (hordered source.1 (workspace.assigned source hreach)) hoverlay
  have hkeys : (((overlaid (workspace.definitions source.1) source.2)).map Prod.fst).Pairwise
      (· < ·) := List.pairwise_map.2 (orderedFields_iff.1 hmap).1
  have hdistinct := hkeys.imp fun hlt => String.ne_of_lt hlt
  exact hdistinct.sublist ((List.filter_sublist).map _)

/-- The overrides of the graph of the repositories are the edges of the chains, with what they lead
to. -/
theorem Workspace.overrides_of_walkGraph {workspace : Workspace} {graph : Graph}
    (h : workspace.walkGraph = .ok graph) :
    graph.overrides = (workspace.chainsFrom workspace.repositories.length []
      (workspace.root, none)).map fun chain => (chain.1.foldl Graph.edgeName "", chain.2) := by
  rw [Workspace.walkGraph, Graph.walk_eq_runAll] at h
  rw [Graph.overrides_of_runAll h, Workspace.overridden_itineraryFrom]
  rfl

/-- The repositories of the graph are those that chains lead to. -/
theorem Workspace.mem_sources_of_walkGraph {workspace : Workspace} {graph : Graph}
    (h : workspace.walkGraph = .ok graph) (path : Path) :
    path ∈ graph.sources ↔ ∃ names target,
      Chain workspace.toAssignment (workspace.root, none) names target ∧ target.1 = path := by
  rw [Graph.mem_sources_iff h]
  constructor
  · rintro ⟨source, hreach, rfl⟩
    obtain ⟨names, hchain⟩ := exists_chain hreach
    exact ⟨names, source, hchain, rfl⟩
  · rintro ⟨names, target, hchain, rfl⟩
    exact ⟨target, hchain.reach, rfl⟩

/-- A walk that succeeds captures each repository once, and overrides the edge of each chain of
direct local inputs with the store path of its repository: over maps with ordered keys, where no
name has a slash and no input of the root has the empty name. -/
theorem single_snapshot (workspace : Workspace) (nix : Nix)
    (hordered : ∀ source ∈ workspace.repositories, orderedFields (workspace.definitions source))
    (hslash : ∀ source ∈ workspace.repositories,
      conformsFields slashless .inputs (workspace.definitions source))
    (hroot : ∀ input ∈ workspace.definitions workspace.root, input.1 ≠ "")
    (graph : Snapshots) (hwalk : workspace.walkSnapshots nix = .ok graph) :
    SingleSnapshot workspace nix graph := by
  obtain ⟨repositories, hgraph, hsim⟩ :=
    Snapshots.exists_simulated Snapshots.simulates_empty hwalk
  have hgraph : workspace.walkGraph = .ok repositories := hgraph
  have hstop := Graph.stop_notMem_itinerary hgraph
  have hjoin : ∀ {names : List String} {target : Overlaid}, names ≠ [] →
      Chain workspace.toAssignment (workspace.root, none) names target →
        names.foldl Graph.edgeName "" = "/".intercalate names :=
    fun hne hchain => hchain.edge_eq hroot hne
  -- No name has a slash, so the joined names tell the chains apart.
  have hapart : ∀ names names' target target', names ≠ [] → names' ≠ [] →
      Chain workspace.toAssignment (workspace.root, none) names target →
      Chain workspace.toAssignment (workspace.root, none) names' target' →
        "/".intercalate names = "/".intercalate names' → names = names' :=
    fun names names' target target' hne hne' hchain hchain' heq =>
      intercalate_injective (hchain.names_slashless hslash .refl)
        (hchain'.names_slashless hslash .refl) hne hne' heq
  have hnodup := Workspace.nodup_names_chainsFrom hordered
  have hmem : ∀ names path, (names, path) ∈ workspace.chainsFrom workspace.repositories.length []
      (workspace.root, none) ↔ names ≠ [] ∧ ∃ target,
        Chain workspace.toAssignment (workspace.root, none) names target ∧ target.1 = path :=
    fun names path => Workspace.mem_chainsFrom_iff hstop
  have hedges := Workspace.overrides_of_walkGraph hgraph
  have hoverrides : ∀ edge path, (edge, path) ∈ graph.overrides ↔
      ∃ names target, names ≠ [] ∧
        Chain workspace.toAssignment (workspace.root, none) names target ∧
          edge = "/".intercalate names ∧ graph.storeSources.lookup target.1 = some path := by
    intro edge path
    rw [hsim.mem_overrides, hedges]
    constructor
    · rintro ⟨child, hchild, hstored⟩
      obtain ⟨⟨names, child'⟩, hchain, heq⟩ := List.mem_map.1 hchild
      obtain ⟨rfl, rfl⟩ := Prod.mk.inj heq
      obtain ⟨hne, target, htarget, rfl⟩ := (hmem _ _).1 hchain
      exact ⟨names, target, hne, htarget, hjoin hne htarget, hstored⟩
    · rintro ⟨names, target, hne, htarget, rfl, hstored⟩
      refine ⟨target.1, List.mem_map.2 ⟨(names, target.1), ?_, ?_⟩, hstored⟩
      · exact (hmem _ _).2 ⟨hne, target, htarget, rfl⟩
      · rw [hjoin hne htarget]
  have hreached : ∀ path, path ∈ graph.sources.map Prod.fst ↔ ∃ names target,
      Chain workspace.toAssignment (workspace.root, none) names target ∧ target.1 = path := by
    intro path
    rw [← hsim.sources]
    exact Workspace.mem_sources_of_walkGraph hgraph path
  refine ⟨hreached, hsim.once, hsim.snapshots, hsim.evaluations, hsim.directories, ?_, hapart,
    hoverrides, ?_, hsim.stored⟩
  -- The edges are those of the chains, each of which has its own names.
  · rw [hsim.edges, hedges, List.map_map]
    have hcomp : (Prod.fst ∘ fun chain : List String × Path =>
        (chain.1.foldl Graph.edgeName "", chain.2)) =
          (fun names : List String => names.foldl Graph.edgeName "") ∘ Prod.fst := rfl
    rw [hcomp, ← List.map_map]
    refine hnodup.map_on fun names hnames names' hnames' heq => ?_
    obtain ⟨⟨names, path⟩, hchain, rfl⟩ := List.mem_map.1 hnames
    obtain ⟨⟨names', path'⟩, hchain', rfl⟩ := List.mem_map.1 hnames'
    obtain ⟨hne, target, htarget, -⟩ := (hmem _ _).1 hchain
    obtain ⟨hne', target', htarget', -⟩ := (hmem _ _).1 hchain'
    rw [hjoin hne htarget, hjoin hne' htarget'] at heq
    exact hapart _ _ _ _ hne hne' htarget htarget' heq
  -- A chain leads to a repository that is not the root, and its edge has a store path.
  · intro path hpath hne
    obtain ⟨names, target, hchain, rfl⟩ := (hreached path).1 hpath
    have hnames : names ≠ [] := by
      rintro rfl
      cases hchain
      exact hne rfl
    have hchild : ("/".intercalate names, target.1) ∈ repositories.overrides := by
      rw [hedges]
      refine List.mem_map.2 ⟨(names, target.1), (hmem _ _).2 ⟨hnames, target, hchain, rfl⟩, ?_⟩
      rw [hjoin hnames hchain]
    obtain ⟨⟨edge, path⟩, -, -, hstored⟩ := (forall₂_mem hsim.overrides).2 _ hchild
    exact ⟨path, hstored⟩

/-- A call adds a copy to the store. -/
def isAddition : Call → Bool
  | .addSource _ _ => true
  | _ => false

/-- A Nix that names store paths by the copies, and keeps its roots in the destination. -/
def namingNix : Nix where
  addSource _ directory _ := s!"/nix/store/{directory}-source"
  occupied calls := if calls.any isAddition then ["gc-roots"] else []

/-- In the diamond, the chains are `a`, `a/c` and `b`: the `c` of `b` follows that of `a`. -/
theorem single_snapshot_diamond :
    ∃ graph, diamond.walkSnapshots namingNix = .ok graph ∧
      graph.overrides = [("a", "/nix/store/a-source"), ("a/c", "/nix/store/c-source"),
        ("b", "/nix/store/b-source")] ∧
      SingleSnapshot diamond namingNix graph :=
  ⟨_, rfl, rfl, single_snapshot diamond namingNix (by decide +kernel) (by decide +kernel)
    (by decide) _ rfl⟩

/-- Three repositories: the root uses `a` under the empty name, and both use `b`. -/
def namelessInputs : Assignment where
  definitions source :=
    if source = "/w/root" then
      [("", .object [("url", .string "git+file:a")]), ("b", .object [("url", .string "git+file:b")])]
    else if source = "/w/a" then [("b", .object [("url", .string "git+file:b")])]
    else []
  resolve _ path :=
    if path = [97] then .ok "/w/a" else if path = [98] then .ok "/w/b" else .error "not found"

/-- The three repositories as a workspace. -/
def nameless : Workspace where
  toAssignment := namelessInputs
  root := "/w/root"
  repositories := ["/w/root", "/w/a", "/w/b"]
  assigned := by
    refine namelessInputs.assigned_of_resolve (by simp) fun source path child h => ?_
    simp only [namelessInputs] at h
    split_ifs at h
    · obtain rfl := Except.ok.inj h
      simp
    · obtain rfl := Except.ok.inj h
      simp

/-- An input of the root with the empty name has the prefix of the root, so the edge of its input
`b` is that of the root's. -/
theorem nameless_edge_twice :
    (∀ source ∈ nameless.repositories, orderedFields (nameless.definitions source)) ∧
      (∀ source ∈ nameless.repositories,
        conformsFields slashless .inputs (nameless.definitions source)) ∧
      ∃ graph, nameless.walkSnapshots namingNix = .ok graph ∧
        ¬ (graph.overrides.map Prod.fst).Nodup :=
  ⟨by decide +kernel, by decide +kernel, _, rfl, by decide⟩

end DaemonFramework.LocalBuild
