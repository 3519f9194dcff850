import Mathlib.Data.Finset.Sort
import Mathlib.Data.List.Lex
import Mathlib.Data.Set.Card
import Mathlib.Data.String.Basic
import Mathlib.Logic.Relation

/-!
# Planning what to watch

`boundedWatchPaths` of `watch.rs` walks from a list of roots with a stack, registers every path
that it meets, and gives up where too many are registered or queued. A path is a list of
components, `readDir` is what reading a directory gives, and the fuel of `run` bounds the number of
turns of the loop: `Returns` says that some fuel is enough.

`watched` is what should be registered. `returns_planned` says what the loop returns:
the watched paths in order, where they fit the limit and what is queued does too (`QueueFits`), and
otherwise the budget error. The second condition is one that the limit does not promise: a queued
directory that an earlier root has registered counts twice.
-/

namespace DaemonFramework.Watch

variable {C E : Type*}

/-- What an entry of a directory is; symbolic links are not followed. -/
inductive FileType where
  /-- A real directory. -/
  | dir
  /-- A file. -/
  | file
  /-- A symbolic link. -/
  | symlink
  deriving DecidableEq

/-- An entry of a directory, and what asking for its type gives. -/
structure DirEntry (C E : Type*) where
  /-- The name in the directory. -/
  name : C
  /-- The type, or why it cannot be told. -/
  fileType : Except E FileType

/-- What reading a directory gives: an error, or entries each of which can be one. -/
abbrev ReadDir (C E : Type*) := List C → Except E (List (Except E (DirEntry C E)))

/-- Why a plan is not made. -/
inductive WatchError (E : Type*) where
  /-- An error of the planner itself. -/
  | other (text : String)
  /-- An error of the file system. -/
  | io (e : E)
  deriving DecidableEq

/-- The error of a plan that is too large. -/
def budgetExceeded : WatchError E := .other "watch registration budget exceeded; use polling"

/-- The paths to watch so far. -/
structure Plan (C : Type*) where
  /-- The registered paths. -/
  paths : Finset (List C)
  /-- Those that were expanded. -/
  expanded : Finset (List C)
  /-- Only registered paths are expanded. -/
  expanded_sub : expanded ⊆ paths

/-- A plan of nothing. -/
def Plan.empty : Plan C := ⟨∅, ∅, Finset.empty_subset _⟩

/-- Where the loop stands: the plan, the stack with its top first, and the roots still to come. -/
structure State (C : Type*) where
  /-- The paths so far. -/
  plan : Plan C
  /-- The queued directories. -/
  stack : List (List C × Bool)
  /-- The remaining roots. -/
  roots : List (List C × Bool)

/-- The path to handle next: from the stack, or else a root. -/
def State.next : State C → Option ((List C × Bool) × State C)
  | ⟨plan, item :: stack, roots⟩ => some (item, ⟨plan, stack, roots⟩)
  | ⟨plan, [], item :: roots⟩ => some (item, ⟨plan, [], roots⟩)
  | ⟨_, [], []⟩ => none

/-- Fail where the limit is exceeded. -/
def checkWatchBudget (count limit : ℕ) : Except (WatchError E) Unit :=
  if limit < count then .error budgetExceeded else .ok ()

/-- Queue the real directories of a listing. -/
def pushEntries (limit registered : ℕ) (path : List C) :
    List (Except E (DirEntry C E)) → List (List C × Bool) →
      Except (WatchError E) (List (List C × Bool))
  | [], stack => .ok stack
  | .error e :: _, _ => .error (.io e)
  | .ok entry :: entries, stack =>
    match entry.fileType with
    | .error e => .error (.io e)
    | .ok .dir =>
      (checkWatchBudget (registered + stack.length + 1) limit).bind fun _ =>
        pushEntries limit registered path entries ((path ++ [entry.name], true) :: stack)
    | .ok _ => pushEntries limit registered path entries stack

section Loop

variable [LinearOrder C]

/-- Register a path, and tell whether it is to be expanded now. -/
def Plan.enter (plan : Plan C) (path : List C) (recursive : Bool) : Plan C × Bool :=
  (⟨insert path plan.paths, if recursive then insert path plan.expanded else plan.expanded, by
    split
    · exact Finset.insert_subset_insert _ plan.expanded_sub
    · exact plan.expanded_sub.trans (Finset.subset_insert _ _)⟩,
    recursive && path ∉ plan.expanded)

/-- One turn of the loop. -/
def visit (readDir : ReadDir C E) (limit : ℕ) (item : List C × Bool) (s : State C) :
    Except (WatchError E) (State C) :=
  let entered := s.plan.enter item.1 item.2
  (checkWatchBudget entered.1.paths.card limit).bind fun _ =>
    if entered.2 then
      match readDir item.1 with
      | .error e => .error (.io e)
      | .ok entries =>
        (pushEntries limit entered.1.paths.card item.1 entries s.stack).bind fun stack =>
          .ok ⟨entered.1, stack, s.roots⟩
    else .ok ⟨entered.1, s.stack, s.roots⟩

/-- The loop; `none` where the fuel is too small. -/
def run (readDir : ReadDir C E) (limit : ℕ) :
    ℕ → State C → Option (Except (WatchError E) (List (List C)))
  | 0, _ => none
  | fuel + 1, s =>
    match s.next with
    | none => some (.ok (s.plan.paths.sort (· ≤ ·)))
    | some (item, s') =>
      match visit readDir limit item s' with
      | .error e => some (.error e)
      | .ok t => run readDir limit fuel t

/-- The loop ends with this result. -/
def Returns (readDir : ReadDir C E) (limit : ℕ) (s : State C)
    (result : Except (WatchError E) (List (List C))) : Prop :=
  ∃ enough, ∀ fuel ≥ enough, run readDir limit fuel s = some result

/-- The paths to watch for these roots; `none` where the fuel is too small. -/
def boundedWatchPaths (readDir : ReadDir C E) (fuel : ℕ) (roots : List (List C × Bool))
    (limit : ℕ) : Option (Except (WatchError E) (List (List C))) :=
  run readDir limit fuel ⟨.empty, [], roots⟩

end Loop

/-! ## What should be watched -/

/-- The path of an entry that is a real directory. -/
def dirPath (path : List C) : Except E (DirEntry C E) → Option (List C)
  | .ok ⟨name, .ok .dir⟩ => some (path ++ [name])
  | _ => none

/-- The real directories in a directory, in the order of its listing. -/
def dirs (readDir : ReadDir C E) (path : List C) : List (List C) :=
  match readDir path with
  | .error _ => []
  | .ok entries => entries.filterMap (dirPath path)

/-- The real directories from `path` on down, itself included. -/
def below (readDir : ReadDir C E) (path : List C) : Set (List C) :=
  {q | Relation.ReflTransGen (fun p c => c ∈ dirs readDir p) path q}

/-- What is in one of the trees below these paths. -/
def belowAny (readDir : ReadDir C E) (paths : List (List C)) : Set (List C) :=
  {q | ∃ c ∈ paths, q ∈ below readDir c}

/-- The directories that the recursive ones among these roots expand. -/
def expandedBy (readDir : ReadDir C E) (roots : List (List C × Bool)) : Set (List C) :=
  {q | ∃ root ∈ roots, root.2 = true ∧ q ∈ below readDir root.1}

/-- What should be watched for these roots. -/
def watched (readDir : ReadDir C E) (roots : List (List C × Bool)) : Set (List C) :=
  {q | ∃ root ∈ roots, q = root.1 ∨ root.2 = true ∧ q ∈ below readDir root.1}

/-- A listing without errors, in which no name occurs twice. -/
def Readable (readDir : ReadDir C E) (path : List C) : Prop :=
  ∃ entries : List (C × FileType),
    readDir path = .ok (entries.map fun entry => .ok ⟨entry.1, .ok entry.2⟩) ∧
      (entries.map Prod.fst).Nodup

/-- The trees below the recursive roots are finite and can be read. -/
structure FiniteTree (readDir : ReadDir C E) (roots : List (List C × Bool)) : Prop where
  /-- Every directory below a recursive root can be read. -/
  readable : ∀ path ∈ expandedBy readDir roots, Readable readDir path
  /-- There are finitely many paths to watch. -/
  finite : (watched readDir roots).Finite

/-- Exploring `path`, with the paths of `registered` registered and `queued` directories on the
stack, comes to expand `dir`, with those of `registered'` registered and `queued'` directories on
the stack. The later of two directories in a listing is explored first, with all that is below it,
and those of `old` are not expanded again. -/
inductive Expands (readDir : ReadDir C E) (old : Set (List C)) :
    List C → Set (List C) → ℕ → List C → Set (List C) → ℕ → Prop where
  /-- The path itself is expanded. -/
  | here {path : List C} {registered : Set (List C)} {queued : ℕ} (hnew : path ∉ old) :
    Expands readDir old path registered queued path (insert path registered) queued
  /-- A directory in it is explored after the later ones. -/
  | into {path child dir : List C} {registered registered' : Set (List C)} {queued queued' : ℕ}
    {pre post : List (List C)} (hnew : path ∉ old) (hdirs : dirs readDir path = pre ++ child :: post)
    (h : Expands readDir old child (insert path registered ∪ belowAny readDir post)
      (queued + pre.length) dir registered' queued') :
    Expands readDir old path registered queued dir registered' queued'

/-- What is registered, what is queued and what is in an expanded directory fit the limit together,
wherever exploring `path` expands one. -/
def Fits (readDir : ReadDir C E) (limit : ℕ) (old : Set (List C)) (path : List C)
    (registered : Set (List C)) (queued : ℕ) : Prop :=
  ∀ dir registered' queued', Expands readDir old path registered queued dir registered' queued' →
    dirs readDir dir ≠ [] → registered'.ncard + queued' + (dirs readDir dir).length ≤ limit

/-- All that exploring `path` registers and queues fits the limit. -/
def Room (readDir : ReadDir C E) (limit : ℕ) (old : Set (List C)) (path : List C)
    (registered : Set (List C)) (queued : ℕ) : Prop :=
  Fits readDir limit old path registered queued ∧
    (registered ∪ below readDir path).ncard ≤ limit

/-- The queue fits the limit at every recursive root. -/
def QueueFits (readDir : ReadDir C E) (limit : ℕ) (roots : List (List C × Bool)) : Prop :=
  ∀ before path after, roots = before ++ (path, true) :: after →
    Fits readDir limit (expandedBy readDir before) path (watched readDir before) 0

/-- The plan is exactly what should be watched, in order, and it is made exactly where that fits
the limit. -/
def PlansExactly [LinearOrder C] (readDir : ReadDir C E) (limit : ℕ)
    (roots : List (List C × Bool)) : Prop :=
  ((watched readDir roots).ncard ≤ limit →
    ∃ plan : List (List C), plan.Pairwise (· < ·) ∧ (∀ q, q ∈ plan ↔ q ∈ watched readDir roots) ∧
      ∃ enough, ∀ fuel ≥ enough, boundedWatchPaths readDir fuel roots limit = some (.ok plan)) ∧
  (limit < (watched readDir roots).ncard →
    ∃ enough, ∀ fuel ≥ enough,
      boundedWatchPaths readDir fuel roots limit = some (.error budgetExceeded))

/-! ## Trees -/

section Trees

variable {readDir : ReadDir C E}

/-- A directory is below itself. -/
theorem mem_below_self (p : List C) : p ∈ below readDir p := .refl

/-- What is below a path is itself or below a directory in it. -/
theorem mem_below_iff {p q : List C} :
    q ∈ below readDir p ↔ q = p ∨ ∃ c ∈ dirs readDir p, q ∈ below readDir c := by
  unfold below
  rw [Set.mem_ofPred_eq, Relation.ReflTransGen.cases_head_iff, eq_comm]
  rfl

/-- What is below something below a path is below the path. -/
theorem below_subset {p q : List C} (h : q ∈ below readDir p) :
    below readDir q ⊆ below readDir p := by
  intro r hr
  exact Relation.ReflTransGen.trans h hr

/-- A directory in a directory is one name longer. -/
theorem eq_append_of_mem_dirs {p c : List C} (h : c ∈ dirs readDir p) :
    ∃ name, c = p ++ [name] := by
  unfold dirs at h
  split at h
  · cases h
  · obtain ⟨entry, -, hentry⟩ := List.mem_filterMap.1 h
    unfold dirPath at hentry
    split at hentry
    · exact ⟨_, (Option.some.inj hentry).symm⟩
    · cases hentry

/-- Everything below a path extends it. -/
theorem prefix_of_mem_below {p q : List C} (h : q ∈ below readDir p) : p <+: q := by
  induction h with
  | refl => exact List.prefix_refl _
  | tail _ hedge ih =>
    obtain ⟨name, rfl⟩ := eq_append_of_mem_dirs hedge
    exact ih.trans (List.prefix_append _ _)

/-- A path is not below a directory in it. -/
theorem not_mem_below_of_mem_dirs {p c : List C} (h : c ∈ dirs readDir p) :
    p ∉ below readDir c := by
  intro hp
  have hlength : c.length ≤ p.length := (prefix_of_mem_below hp).length_le
  obtain ⟨name, rfl⟩ := eq_append_of_mem_dirs h
  simp at hlength

/-- Nothing is below two directories of one directory. -/
theorem eq_of_mem_below_of_mem_dirs {p c d q : List C} (hc : c ∈ dirs readDir p)
    (hd : d ∈ dirs readDir p) (hqc : q ∈ below readDir c) (hqd : q ∈ below readDir d) : c = d := by
  have hlength : c.length = d.length := by
    obtain ⟨name, rfl⟩ := eq_append_of_mem_dirs hc
    obtain ⟨name', rfl⟩ := eq_append_of_mem_dirs hd
    simp
  have hprefix : c <+: d :=
    List.prefix_of_prefix_length_le (prefix_of_mem_below hqc) (prefix_of_mem_below hqd) hlength.le
  exact hprefix.eq_of_length hlength

/-- Induction over the directories of a finite tree, from the leaves up. -/
theorem below_induction {P : List C → Prop} (hstep : ∀ p, (∀ c ∈ dirs readDir p, P c) → P p)
    {p : List C} (hfin : (below readDir p).Finite) : P p := by
  induction hn : (below readDir p).ncard using Nat.strongRecOn generalizing p with
  | _ n ih =>
    refine hstep p fun c hc => ?_
    have hsub : below readDir c ⊂ below readDir p := by
      refine ⟨below_subset (mem_below_iff.2 (.inr ⟨c, hc, mem_below_self c⟩)), fun hback => ?_⟩
      exact not_mem_below_of_mem_dirs hc (hback (mem_below_self p))
    have hlt : (below readDir c).ncard < n := hn ▸ Set.ncard_lt_ncard hsub hfin
    exact ih _ hlt (hfin.subset hsub.le) rfl

/-- The directories of a listing without errors. -/
theorem dirs_eq {p : List C} {entries : List (C × FileType)}
    (h : readDir p = .ok (entries.map fun entry => .ok ⟨entry.1, .ok entry.2⟩)) :
    dirs readDir p =
      (entries.filter fun entry => entry.2 = .dir).map fun entry => p ++ [entry.1] := by
  have hlist : ∀ entries : List (C × FileType),
      (entries.map fun entry => (.ok ⟨entry.1, .ok entry.2⟩ : Except E (DirEntry C E))).filterMap
        (dirPath p) =
      (entries.filter fun entry => entry.2 = .dir).map fun entry => p ++ [entry.1] := by
    intro entries
    induction entries with
    | nil => rfl
    | cons entry entries ih =>
      obtain ⟨name, type⟩ := entry
      cases type with
      | dir => exact congrArg (List.cons (p ++ [name])) ih
      | file => exact ih
      | symlink => exact ih
  unfold dirs
  rw [h]
  exact hlist entries

/-- No directory occurs twice in a listing that can be read. -/
theorem dirs_nodup {p : List C} (h : Readable readDir p) : (dirs readDir p).Nodup := by
  obtain ⟨entries, hread, hnodup⟩ := h
  have hsub : ((entries.filter fun entry => entry.2 = .dir).map Prod.fst).Nodup :=
    hnodup.sublist ((List.filter_sublist).map _)
  have hcomp : (entries.filter fun entry => entry.2 = .dir).map (fun entry => p ++ [entry.1]) =
      ((entries.filter fun entry => entry.2 = .dir).map Prod.fst).map fun name => p ++ [name] := by
    rw [List.map_map]
    rfl
  rw [dirs_eq hread, hcomp]
  exact hsub.map fun a b hab => by simpa using hab

/-- Queueing a listing without errors puts its directories on the stack, the last one on top, where
they all fit the limit. -/
theorem pushEntries_eq (limit registered : ℕ) {p : List C} (h : Readable readDir p)
    (stack : List (List C × Bool)) :
    ∃ entries, readDir p = .ok entries ∧
      pushEntries limit registered p entries stack =
        if dirs readDir p = [] ∨ registered + stack.length + (dirs readDir p).length ≤ limit then
          .ok ((dirs readDir p).reverse.map (·, true) ++ stack)
        else .error budgetExceeded := by
  obtain ⟨entries, hread, -⟩ := h
  refine ⟨_, hread, ?_⟩
  rw [dirs_eq hread]
  clear hread
  induction entries generalizing stack with
  | nil => simp [pushEntries]
  | cons entry entries ih =>
    obtain ⟨name, type⟩ := entry
    cases type with
    | file => exact ih stack
    | symlink => exact ih stack
    | dir =>
      simp only [List.map_cons, pushEntries, checkWatchBudget]
      -- One directory more does not fit, or the rest is queued above it.
      by_cases hlt : limit < registered + stack.length + 1
      · rw [if_pos hlt, if_neg]
        · rfl
        · simp only [decide_true, List.filter_cons_of_pos, List.map_cons, List.length_cons,
            reduceCtorEq, false_or]
          omega
      · rw [if_neg hlt]
        refine (ih ((p ++ [name], true) :: stack)).trans ?_
        simp only [decide_true, List.filter_cons_of_pos, List.map_cons, List.length_cons,
          reduceCtorEq, false_or]
        by_cases hfit : registered + stack.length +
            (((entries.filter fun entry => entry.2 = .dir).map fun entry => p ++ [entry.1]).length
              + 1) ≤ limit
        · rw [if_pos (.inr (by omega)), if_pos hfit]
          simp
        · rw [if_neg hfit, if_neg]
          rintro (hnil | hle)
          · rw [hnil] at hfit
            simp at hfit
            omega
          · omega

/-- What was expanded contains all that is below it. -/
theorem below_subset_expandedBy {roots : List (List C × Bool)} {q : List C}
    (h : q ∈ expandedBy readDir roots) : below readDir q ⊆ expandedBy readDir roots := by
  obtain ⟨root, hroot, hrec, hq⟩ := h
  exact fun r hr => ⟨root, hroot, hrec, below_subset hq hr⟩

/-- One more root adds its path, and what is below it where it is recursive. -/
theorem watched_concat (roots : List (List C × Bool)) (p : List C) (recursive : Bool) :
    watched readDir (roots ++ [(p, recursive)]) =
      watched readDir roots ∪ if recursive then below readDir p else {p} := by
  ext q
  cases recursive with
  | false =>
    simp only [watched, List.mem_append, List.mem_singleton, Set.mem_ofPred_eq, or_and_right,
      exists_or, exists_eq_left, Set.mem_union, Bool.false_eq_true, false_and, or_false, if_false,
      Set.mem_singleton_iff]
  | true =>
    have hself : q = p → q ∈ below readDir p := by
      rintro rfl
      exact mem_below_self q
    simp only [watched, List.mem_append, List.mem_singleton, Set.mem_ofPred_eq, or_and_right,
      exists_or, exists_eq_left, Set.mem_union, if_true, true_and, or_iff_right_of_imp hself]

/-- One more root adds what is below it to what is expanded, where it is recursive. -/
theorem expandedBy_concat (roots : List (List C × Bool)) (p : List C) (recursive : Bool) :
    expandedBy readDir (roots ++ [(p, recursive)]) =
      expandedBy readDir roots ∪ if recursive then below readDir p else ∅ := by
  ext q
  cases recursive <;> simp [expandedBy, or_and_right, exists_or]

/-- What is watched with one more root is watched with all. -/
theorem watched_cons_le {before rest : List (List C × Bool)} {root : List C × Bool}
    (hfin : (watched readDir (before ++ root :: rest)).Finite) :
    (watched readDir (before ++ [root])).ncard ≤
      (watched readDir (before ++ root :: rest)).ncard := by
  refine Set.ncard_le_ncard ?_ hfin
  rintro q ⟨root', hroot, hq⟩
  refine ⟨root', ?_, hq⟩
  simp only [List.mem_append, List.mem_cons, List.not_mem_nil, or_false] at hroot ⊢
  exact hroot.imp_right .inl

end Trees

/-! ## Room for a tree -/

section Rooms

variable {readDir : ReadDir C E} {limit : ℕ} {old : Set (List C)}

/-- What is below a directory: itself, and what is below the directories in it. -/
theorem below_eq (p : List C) :
    below readDir p = insert p (belowAny readDir (dirs readDir p)) := by
  ext q
  exact mem_below_iff

/-- The trees below the paths of a list: that of the first, and those of the rest. -/
theorem union_belowAny_cons (Y : Set (List C)) (c : List C) (post : List (List C)) :
    Y ∪ belowAny readDir (c :: post) = Y ∪ belowAny readDir post ∪ below readDir c := by
  have hcons : belowAny readDir (c :: post) = below readDir c ∪ belowAny readDir post := by
    ext q
    simp [belowAny]
  rw [hcons, Set.union_comm (below readDir c), Set.union_assoc]

/-- There is room for a path that was expanded where there is for its tree. -/
theorem room_of_mem_old {p : List C} {W : Set (List C)} {queued : ℕ} (hp : p ∈ old) :
    Room readDir limit old p W queued ↔ (W ∪ below readDir p).ncard ≤ limit := by
  refine ⟨fun h => h.2, fun h => ⟨?_, h⟩⟩
  intro dir W' queued' hexpands
  cases hexpands with
  | here hnew => exact absurd hp hnew
  | into hnew _ _ => exact absurd hp hnew

/-- There is room for a path where there is for its listing, and then for each directory in it. -/
theorem room_iff {p : List C} {W : Set (List C)} {queued : ℕ} (hp : p ∉ old) (hW : W.Finite)
    (hfin : (below readDir p).Finite) :
    Room readDir limit old p W queued ↔
      (insert p W).ncard ≤ limit ∧
      (dirs readDir p = [] ∨ (insert p W).ncard + queued + (dirs readDir p).length ≤ limit) ∧
      ∀ pre c post, dirs readDir p = pre ++ c :: post →
        Room readDir limit old c (insert p W ∪ belowAny readDir post) (queued + pre.length) := by
  have hall : (W ∪ below readDir p).Finite := hW.union hfin
  have hunion : W ∪ below readDir p = insert p W ∪ belowAny readDir (dirs readDir p) := by
    rw [below_eq, Set.union_insert, Set.insert_union]
  constructor
  · rintro ⟨hfits, hcard⟩
    refine ⟨?_, ?_, fun pre c post hdirs => ⟨?_, ?_⟩⟩
    · refine (Set.ncard_le_ncard ?_ hall).trans hcard
      rw [hunion]
      exact Set.subset_union_left
    · rw [or_iff_not_imp_left]
      exact hfits p _ _ (.here hp)
    · intro dir W' queued' hexpands
      exact hfits dir W' queued' (.into hp hdirs hexpands)
    · refine (Set.ncard_le_ncard ?_ hall).trans hcard
      rw [hunion, hdirs]
      rintro q ((hq | ⟨d, hd, hq⟩) | hq)
      · exact .inl hq
      · exact .inr ⟨d, by simp [hd], hq⟩
      · exact .inr ⟨c, by simp, hq⟩
  · rintro ⟨hcard, hlist, hchildren⟩
    refine ⟨?_, ?_⟩
    -- A listing is that of the path itself, or of a path below one of its directories.
    · intro dir W' queued' hexpands hne
      cases hexpands with
      | here _ => exact hlist.resolve_left hne
      | into _ hdirs hinner => exact (hchildren _ _ _ hdirs).1 dir W' queued' hinner hne
    · rw [hunion]
      -- Room for the first directory is counted with all that is below the others.
      cases hdirs : dirs readDir p with
      | nil =>
        have hnone : belowAny readDir ([] : List (List C)) = ∅ := by
          ext q
          simp [belowAny]
        rw [hnone, Set.union_empty]
        exact hcard
      | cons c post =>
        rw [union_belowAny_cons]
        exact (hchildren [] c post hdirs).2

/-- There is room for each of the queued directories `l` of a directory, the last of them first,
when those of `post` were explored before. -/
def RoomEach (readDir : ReadDir C E) (limit : ℕ) (old W : Set (List C)) (queued : ℕ)
    (l post : List (List C)) : Prop :=
  ∀ pre c rest, l = pre ++ c :: rest →
    Room readDir limit old c (W ∪ belowAny readDir (rest ++ post)) (queued + pre.length)

/-- There is room for each where there is for the last, and then for each before it. -/
theorem roomEach_concat {W : Set (List C)} {queued : ℕ} {l post : List (List C)} {c : List C} :
    RoomEach readDir limit old W queued (l ++ [c]) post ↔
      Room readDir limit old c (W ∪ belowAny readDir post) (queued + l.length) ∧
      RoomEach readDir limit old W queued l (c :: post) := by
  constructor
  · intro h
    refine ⟨h l c [] rfl, fun pre d rest hl => ?_⟩
    have hroom := h pre d (rest ++ [c]) (by rw [hl]; simp)
    rwa [List.append_assoc, List.singleton_append] at hroom
  · rintro ⟨hlast, heach⟩ pre d rest hl
    rcases List.eq_nil_or_concat' rest with rfl | ⟨rest', e, rfl⟩
    · obtain ⟨rfl, hd⟩ := List.append_inj' hl rfl
      obtain rfl : c = d := by simpa using hd
      exact hlast
    · have hsplit : l ++ [c] = (pre ++ d :: rest') ++ [e] := by rw [hl]; simp
      obtain ⟨rfl, he⟩ := List.append_inj' hsplit rfl
      obtain rfl : c = e := by simpa using he
      have hroom := heach pre d rest' rfl
      rwa [List.append_assoc, List.singleton_append]

/-- The queue fits the limit at each of the roots `rest`, behind those of `before`. -/
def RootsFit (readDir : ReadDir C E) (limit : ℕ) (before rest : List (List C × Bool)) : Prop :=
  ∀ pre path post, rest = pre ++ (path, true) :: post →
    Fits readDir limit (expandedBy readDir (before ++ pre)) path
      (watched readDir (before ++ pre)) 0

/-- The queue fits at the first root, and then at the others. -/
theorem rootsFit_cons {before rest : List (List C × Bool)} {p : List C} {recursive : Bool} :
    RootsFit readDir limit before ((p, recursive) :: rest) ↔
      (recursive = true → Fits readDir limit (expandedBy readDir before) p
        (watched readDir before) 0) ∧
      RootsFit readDir limit (before ++ [(p, recursive)]) rest := by
  constructor
  · intro h
    refine ⟨?_, fun pre path post hrest => ?_⟩
    · rintro rfl
      have hfits := h [] p rest rfl
      rwa [List.append_nil] at hfits
    · have hfits := h ((p, recursive) :: pre) path post (by rw [hrest, List.cons_append])
      rwa [List.append_assoc, List.singleton_append]
  · rintro ⟨hfirst, hrest⟩ pre path post hsplit
    cases pre with
    | nil =>
      rw [List.nil_append, List.cons.injEq, Prod.mk.injEq] at hsplit
      obtain ⟨⟨rfl, rfl⟩, -⟩ := hsplit
      rw [List.append_nil]
      exact hfirst rfl
    | cons root pre =>
      rw [List.cons_append, List.cons.injEq] at hsplit
      obtain ⟨rfl, htail⟩ := hsplit
      have hfits := hrest pre path post htail
      rwa [List.append_assoc, List.singleton_append] at hfits

end Rooms

/-! ## The loop -/

section Loops

variable [LinearOrder C] {readDir : ReadDir C E} {limit : ℕ}

/-- The results of a loop are one. -/
theorem Returns.unique {s : State C} {r r' : Except (WatchError E) (List (List C))}
    (h : Returns readDir limit s r) (h' : Returns readDir limit s r') : r = r' := by
  obtain ⟨enough, hrun⟩ := h
  obtain ⟨enough', hrun'⟩ := h'
  have heq : some r = some r' :=
    (hrun (max enough enough') (le_max_left _ _)).symm.trans (hrun' _ (le_max_right _ _))
  exact Option.some.inj heq

/-- A loop with nothing left returns its paths. -/
theorem Returns.done (plan : Plan C) :
    Returns readDir limit ⟨plan, [], []⟩ (.ok (plan.paths.sort (· ≤ ·))) := by
  refine ⟨1, fun fuel hfuel => ?_⟩
  obtain ⟨fuel, rfl⟩ := Nat.exists_eq_add_of_le' hfuel
  rfl

/-- A loop goes on behind a turn that succeeds. -/
theorem Returns.turn {s s' t : State C} {item : List C × Bool}
    {r : Except (WatchError E) (List (List C))} (hnext : s.next = some (item, s'))
    (hvisit : visit readDir limit item s' = .ok t) (h : Returns readDir limit t r) :
    Returns readDir limit s r := by
  obtain ⟨enough, hrun⟩ := h
  refine ⟨enough + 1, fun fuel hfuel => ?_⟩
  obtain ⟨fuel, rfl⟩ : ∃ n, fuel = n + 1 := ⟨fuel - 1, by omega⟩
  unfold run
  rw [hnext]
  dsimp only
  rw [hvisit]
  exact hrun fuel (by omega)

/-- A loop ends with a turn that fails. -/
theorem Returns.fail {s s' : State C} {item : List C × Bool} {e : WatchError E}
    (hnext : s.next = some (item, s')) (hvisit : visit readDir limit item s' = .error e) :
    Returns readDir limit s (.error e) := by
  refine ⟨1, fun fuel hfuel => ?_⟩
  obtain ⟨fuel, rfl⟩ := Nat.exists_eq_add_of_le' hfuel
  unfold run
  rw [hnext]
  dsimp only
  rw [hvisit]

/-- Entering a path registers it. -/
theorem Plan.enter_paths (plan : Plan C) (p : List C) (recursive : Bool) :
    (plan.enter p recursive).1.paths = insert p plan.paths := rfl

/-- More fuel does not change a result. -/
theorem run_mono {r : Except (WatchError E) (List (List C))} {fuel fuel' : ℕ} {s : State C}
    (h : run readDir limit fuel s = some r) (hle : fuel ≤ fuel') :
    run readDir limit fuel' s = some r := by
  induction fuel generalizing fuel' s with
  | zero => cases h
  | succ fuel ih =>
    obtain ⟨fuel', rfl⟩ : ∃ n, fuel' = n + 1 := ⟨fuel' - 1, by omega⟩
    unfold run at h ⊢
    split at h
    · exact h
    · split at h
      · exact h
      · exact ih h (by omega)

/-- A turn fails where the new path does not fit. -/
theorem visit_of_lt {s : State C} {item : List C × Bool}
    (h : limit < (insert item.1 s.plan.paths).card) :
    visit readDir limit item s = .error budgetExceeded := by
  unfold visit checkWatchBudget
  dsimp only [Plan.enter]
  rw [if_pos h]
  rfl

/-- A turn without an expansion registers the path. -/
theorem visit_of_not_descend {s : State C} {item : List C × Bool}
    (h : (insert item.1 s.plan.paths).card ≤ limit)
    (hdescend : (s.plan.enter item.1 item.2).2 = false) :
    visit readDir limit item s = .ok ⟨(s.plan.enter item.1 item.2).1, s.stack, s.roots⟩ := by
  unfold visit checkWatchBudget
  dsimp only
  rw [hdescend, if_neg]
  · rfl
  · exact Nat.not_lt.2 h

/-- A turn with an expansion queues the directories where they fit. -/
theorem visit_of_descend {s : State C} {p : List C} (hread : Readable readDir p)
    (h : (insert p s.plan.paths).card ≤ limit) (hnew : p ∉ s.plan.expanded) :
    visit readDir limit (p, true) s =
      if dirs readDir p = [] ∨
          (insert p s.plan.paths).card + s.stack.length + (dirs readDir p).length ≤ limit then
        .ok ⟨(s.plan.enter p true).1, (dirs readDir p).reverse.map (·, true) ++ s.stack, s.roots⟩
      else .error budgetExceeded := by
  obtain ⟨entries, hentries, hpush⟩ :=
    pushEntries_eq limit (insert p s.plan.paths).card hread s.stack
  have hdescend : (s.plan.enter p true).2 = true := by simp [Plan.enter, hnew]
  unfold visit checkWatchBudget
  dsimp only
  rw [hdescend, Plan.enter_paths, if_neg (Nat.not_lt.2 h), hentries]
  simp only [Except.bind, if_true]
  rw [hpush]
  split_ifs <;> rfl

/-! ## Exploring a tree -/

variable {old : Set (List C)}

/-- Exploring a queued path ends with the budget error where there is no room for it, and otherwise
with all that is below it registered and expanded, and the rest of the stack left. -/
def Explores (readDir : ReadDir C E) (limit : ℕ) (old : Set (List C)) (p : List C) : Prop :=
  ∀ (plan : Plan C) (stack roots : List (List C × Bool)), old ⊆ plan.expanded →
    (∀ q ∈ plan.expanded, q ∈ below readDir p → q ∈ old) →
    (Room readDir limit old p plan.paths stack.length → ∀ r,
      (∀ plan' : Plan C, (plan'.paths : Set (List C)) = ↑plan.paths ∪ below readDir p →
        (plan'.expanded : Set (List C)) = ↑plan.expanded ∪ below readDir p →
          Returns readDir limit ⟨plan', stack, roots⟩ r) →
      Returns readDir limit ⟨plan, (p, true) :: stack, roots⟩ r) ∧
    (¬ Room readDir limit old p plan.paths stack.length →
      Returns readDir limit ⟨plan, (p, true) :: stack, roots⟩ (.error budgetExceeded))

/-- Exploring the queued directories of a directory, the last of them first. -/
theorem explore_each {p : List C} {X W : Set (List C)} (stack roots : List (List C × Bool))
    (hnodup : (dirs readDir p).Nodup) (hexp : ∀ c ∈ dirs readDir p, Explores readDir limit old c)
    (hold : old ⊆ X) (hsep : ∀ c ∈ dirs readDir p, ∀ q ∈ X, q ∈ below readDir c → q ∈ old)
    {l : List (List C)} (post : List (List C)) (hdirs : dirs readDir p = l ++ post) (plan : Plan C)
    (hpaths : (plan.paths : Set (List C)) = W ∪ belowAny readDir post)
    (hexpanded : (plan.expanded : Set (List C)) = X ∪ belowAny readDir post) :
    (RoomEach readDir limit old W stack.length l post → ∀ r,
      (∀ plan' : Plan C, (plan'.paths : Set (List C)) = W ∪ belowAny readDir (dirs readDir p) →
        (plan'.expanded : Set (List C)) = X ∪ belowAny readDir (dirs readDir p) →
          Returns readDir limit ⟨plan', stack, roots⟩ r) →
      Returns readDir limit ⟨plan, l.reverse.map (·, true) ++ stack, roots⟩ r) ∧
    (¬ RoomEach readDir limit old W stack.length l post →
      Returns readDir limit ⟨plan, l.reverse.map (·, true) ++ stack, roots⟩
        (.error budgetExceeded)) := by
  induction l using List.reverseRecOn generalizing post plan with
  | nil =>
    obtain rfl : dirs readDir p = post := hdirs
    refine ⟨fun _ r hr => hr plan hpaths hexpanded, fun hno => absurd ?_ hno⟩
    intro pre c rest hl
    simp at hl
  | append_singleton l c ih =>
    have hdirs' : dirs readDir p = l ++ c :: post := by rw [hdirs]; simp
    have hc : c ∈ dirs readDir p := by rw [hdirs']; simp
    have hstack : (l ++ [c]).reverse.map (·, true) ++ stack =
        (c, true) :: (l.reverse.map (·, true) ++ stack) := by simp
    have hlength : (l.reverse.map (·, true) ++ stack).length = stack.length + l.length := by
      simp [Nat.add_comm]
    -- Nothing below `c` was expanded since `old`: its siblings have other trees.
    have hsep' : ∀ q ∈ plan.expanded, q ∈ below readDir c → q ∈ old := by
      intro q hq hqc
      have hq : q ∈ X ∪ belowAny readDir post := hexpanded ▸ hq
      rcases hq with hq | ⟨d, hd, hqd⟩
      · exact hsep c hc q hq hqc
      · have hd' : d ∈ dirs readDir p := by rw [hdirs']; simp [hd]
        obtain rfl : c = d := eq_of_mem_below_of_mem_dirs hc hd' hqc hqd
        rw [hdirs', List.nodup_append] at hnodup
        exact absurd hd (List.nodup_cons.1 hnodup.2.1).1
    have hold' : old ⊆ plan.expanded := by
      rw [hexpanded]
      exact hold.trans Set.subset_union_left
    obtain ⟨hok, hfail⟩ := hexp c hc plan (l.reverse.map (·, true) ++ stack) roots hold' hsep'
    rw [hpaths, hlength] at hok hfail
    rw [hexpanded] at hok
    rw [hstack, roomEach_concat]
    constructor
    · rintro ⟨hroom, heach⟩ r hr
      refine hok hroom r fun plan' hpaths' hexpanded' => ?_
      rw [← union_belowAny_cons] at hpaths' hexpanded'
      exact (ih _ hdirs' _ hpaths' hexpanded').1 heach r hr
    · intro hno
      by_cases hroom : Room readDir limit old c (W ∪ belowAny readDir post)
        (stack.length + l.length)
      · refine hok hroom _ fun plan' hpaths' hexpanded' => ?_
        rw [← union_belowAny_cons] at hpaths' hexpanded'
        exact (ih _ hdirs' _ hpaths' hexpanded').2 fun heach => hno ⟨hroom, heach⟩
      · exact hfail hroom

/-- A path is explored where the directories in it are. -/
theorem explores_of_dirs (hclosed : ∀ q ∈ old, below readDir q ⊆ old) {p : List C}
    (hfin : (below readDir p).Finite) (hread : Readable readDir p)
    (hexp : ∀ c ∈ dirs readDir p, Explores readDir limit old c) :
    Explores readDir limit old p := by
  intro plan stack roots hold hsep
  have hnext : State.next ⟨plan, (p, true) :: stack, roots⟩ =
      some ((p, true), ⟨plan, stack, roots⟩) := rfl
  have hcast : ((insert p plan.paths : Finset (List C)) : Set (List C)) = insert p ↑plan.paths :=
    Finset.coe_insert _ _
  have hcard : (insert p plan.paths).card = (insert p (plan.paths : Set (List C))).ncard := by
    rw [← hcast, Set.ncard_coe_finset]
  by_cases hp : p ∈ old
  -- The tree was explored before: nothing is new.
  · have hin : below readDir p ⊆ plan.expanded := (hclosed p hp).trans hold
    have hpaths : (plan.paths : Set (List C)) ∪ below readDir p = plan.paths :=
      Set.union_eq_left.2 (hin.trans (Finset.coe_subset.2 plan.expanded_sub))
    have hexpanded : (plan.expanded : Set (List C)) ∪ below readDir p = plan.expanded :=
      Set.union_eq_left.2 hin
    have hmem : p ∈ plan.expanded := hin (mem_below_self p)
    have hinsert : insert p plan.paths = plan.paths :=
      Finset.insert_eq_self.2 (plan.expanded_sub hmem)
    have hdescend : (plan.enter p true).2 = false := by simp [Plan.enter, hmem]
    rw [room_of_mem_old hp, hpaths, Set.ncard_coe_finset]
    constructor
    · intro hroom r hr
      have hvisit : visit readDir limit (p, true) ⟨plan, stack, roots⟩ =
          .ok ⟨(plan.enter p true).1, stack, roots⟩ :=
        visit_of_not_descend (hinsert.symm ▸ hroom) hdescend
      refine .turn hnext hvisit (hr _ ?_ ?_)
      · rw [Plan.enter_paths, hinsert]
      · rw [hexpanded]
        exact congrArg _ (Finset.insert_eq_self.2 hmem)
    · intro hno
      refine .fail hnext (visit_of_lt ?_)
      rw [hinsert]
      exact Nat.lt_of_not_le hno
  · have hnew : p ∉ plan.expanded := fun h => hp (hsep p h (mem_below_self p))
    rw [room_iff hp plan.paths.finite_toSet hfin, ← hcard]
    by_cases hle : (insert p plan.paths).card ≤ limit
    · have hvisit := visit_of_descend (s := ⟨plan, stack, roots⟩) hread hle hnew
      by_cases hlist : dirs readDir p = [] ∨
          (insert p plan.paths).card + stack.length + (dirs readDir p).length ≤ limit
      · rw [if_pos hlist] at hvisit
        have hsub : (plan.expanded : Set (List C)) ⊆ insert p ↑plan.expanded :=
          Set.subset_insert _ _
        have hnone : belowAny readDir ([] : List (List C)) = ∅ := by
          ext q
          simp [belowAny]
        -- What is expanded below a directory in `p` was so before: `p` is not below it.
        have hsep' : ∀ c ∈ dirs readDir p, ∀ q ∈ insert p (plan.expanded : Set (List C)),
            q ∈ below readDir c → q ∈ old := by
          rintro c hc q (rfl | hq) hqc
          · exact absurd hqc (not_mem_below_of_mem_dirs hc)
          · exact hsep q hq (mem_below_iff.2 (.inr ⟨c, hc, hqc⟩))
        obtain ⟨hok, hfail⟩ := explore_each (W := insert p ↑plan.paths) stack roots
          (dirs_nodup hread) hexp (hold.trans hsub) hsep' [] (List.append_nil _).symm
          (plan.enter p true).1 (by rw [hnone, Set.union_empty, Plan.enter_paths, hcast])
          (by rw [hnone, Set.union_empty]; exact Finset.coe_insert _ _)
        have heach : RoomEach readDir limit old (insert p ↑plan.paths) stack.length
            (dirs readDir p) [] ↔ ∀ pre c post, dirs readDir p = pre ++ c :: post →
              Room readDir limit old c (insert p ↑plan.paths ∪ belowAny readDir post)
                (stack.length + pre.length) := by
          simp only [RoomEach, List.append_nil]
        rw [heach] at hok hfail
        constructor
        · rintro ⟨-, -, hchildren⟩ r hr
          refine .turn hnext hvisit (hok hchildren r fun plan' hpaths' hexpanded' => hr plan' ?_ ?_)
          · rw [hpaths', below_eq, Set.union_insert, Set.insert_union]
          · rw [hexpanded', below_eq, Set.union_insert, Set.insert_union]
        · intro hno
          exact .turn hnext hvisit (hfail fun hchildren => hno ⟨hle, hlist, hchildren⟩)
      · rw [if_neg hlist] at hvisit
        refine ⟨fun h => absurd h.2.1 hlist, fun _ => .fail hnext hvisit⟩
    · refine ⟨fun h => absurd h.1 hle, fun _ => .fail hnext (visit_of_lt ?_)⟩
      exact Nat.lt_of_not_le hle

/-- Every directory of a finite tree that can be read is explored. -/
theorem explores (hclosed : ∀ q ∈ old, below readDir q ⊆ old) {p : List C}
    (hfin : (below readDir p).Finite) (hread : ∀ q ∈ below readDir p, Readable readDir q) :
    Explores readDir limit old p := by
  let P : List C → Prop := fun p => (below readDir p).Finite →
    (∀ q ∈ below readDir p, Readable readDir q) → Explores readDir limit old p
  have hstep : ∀ p, (∀ c ∈ dirs readDir p, P c) → P p := by
    intro p ih hfin hread
    refine explores_of_dirs hclosed hfin (hread p (mem_below_self p)) fun c hc => ?_
    have hsub : below readDir c ⊆ below readDir p :=
      below_subset (mem_below_iff.2 (.inr ⟨c, hc, mem_below_self c⟩))
    exact ih c hc (hfin.subset hsub) fun q hq => hread q (hsub hq)
  exact below_induction hstep hfin hfin hread

/-! ## All roots -/

/-- A loop that handles the same thing next returns the same. -/
theorem Returns.of_next {s s' : State C} {next : (List C × Bool) × State C}
    {r : Except (WatchError E) (List (List C))} (hs : s.next = some next)
    (hs' : s'.next = some next)
    (h : Returns readDir limit s r) : Returns readDir limit s' r := by
  obtain ⟨enough, hrun⟩ := h
  refine ⟨enough, fun fuel hfuel => ?_⟩
  have hrun := hrun fuel hfuel
  cases fuel with
  | zero => exact hrun
  | succ fuel =>
    unfold run at hrun ⊢
    rw [hs] at hrun
    rw [hs']
    exact hrun

/-- The loop over the remaining roots ends with the budget error where they do not fit, and
otherwise with all that should be watched. -/
structure ReturnsRoots (readDir : ReadDir C E) (limit : ℕ)
    (before rest : List (List C × Bool)) (plan : Plan C) : Prop where
  /-- All that should be watched, in order. -/
  ok : RootsFit readDir limit before rest → (watched readDir (before ++ rest)).ncard ≤ limit →
    ∀ paths : Finset (List C), (paths : Set (List C)) = watched readDir (before ++ rest) →
      Returns readDir limit ⟨plan, [], rest⟩ (.ok (paths.sort (· ≤ ·)))
  /-- The budget error. -/
  fail : ¬ (RootsFit readDir limit before rest ∧ (watched readDir (before ++ rest)).ncard ≤ limit) →
    Returns readDir limit ⟨plan, [], rest⟩ (.error budgetExceeded)

/-- A root that is not recursive is watched alone. -/
theorem returnsRoots_once {p : List C} {before rest : List (List C × Bool)} {plan : Plan C}
    (hfin : (watched readDir (before ++ (p, false) :: rest)).Finite)
    (hpaths : (plan.paths : Set (List C)) = watched readDir before)
    (hexpanded : (plan.expanded : Set (List C)) = expandedBy readDir before)
    (ih : ∀ plan' : Plan C,
      (plan'.paths : Set (List C)) = watched readDir (before ++ [(p, false)]) →
      (plan'.expanded : Set (List C)) = expandedBy readDir (before ++ [(p, false)]) →
      (watched readDir (before ++ [(p, false)])).ncard ≤ limit →
        ReturnsRoots readDir limit (before ++ [(p, false)]) rest plan') :
    ReturnsRoots readDir limit before ((p, false) :: rest) plan := by
  have hassoc : before ++ (p, false) :: rest = before ++ [(p, false)] ++ rest := by simp
  have hmono := watched_cons_le hfin
  have hnext : State.next ⟨plan, [], (p, false) :: rest⟩ =
      some ((p, false), ⟨plan, [], rest⟩) := rfl
  have hgrown : ((insert p plan.paths : Finset (List C)) : Set (List C)) =
      watched readDir (before ++ [(p, false)]) := by
    rw [watched_concat, Finset.coe_insert, hpaths, Set.insert_eq, Set.union_comm]
    rfl
  have hcard : (insert p plan.paths).card = (watched readDir (before ++ [(p, false)])).ncard := by
    rw [← hgrown, Set.ncard_coe_finset]
  -- The budget is checked with the root before anything else is watched.
  by_cases hfit : (insert p plan.paths).card ≤ limit
  · have hvisit : visit readDir limit (p, false) ⟨plan, [], rest⟩ =
        .ok ⟨(plan.enter p false).1, [], rest⟩ := visit_of_not_descend hfit rfl
    have hsame : (plan.expanded : Set (List C)) = expandedBy readDir (before ++ [(p, false)]) := by
      rw [expandedBy_concat, hexpanded]
      exact (Set.union_empty _).symm
    have hrest := ih (plan.enter p false).1 hgrown hsame (hcard ▸ hfit)
    constructor
    · intro hroots htotal paths hset
      rw [rootsFit_cons] at hroots
      rw [hassoc] at htotal hset
      exact .turn hnext hvisit (hrest.ok hroots.2 htotal paths hset)
    · intro hno
      rw [rootsFit_cons, hassoc] at hno
      exact .turn hnext hvisit (hrest.fail fun h => hno ⟨⟨nofun, h.1⟩, h.2⟩)
  · refine ⟨fun _ htotal _ _ => absurd ?_ hfit, fun _ => .fail hnext (visit_of_lt ?_)⟩
    · exact hcard ▸ hmono.trans htotal
    · exact Nat.lt_of_not_le hfit

/-- A recursive root is watched with the directories below it. -/
theorem returnsRoots_recursive {p : List C} {before rest : List (List C × Bool)} {plan : Plan C}
    (hread : ∀ q ∈ expandedBy readDir (before ++ (p, true) :: rest), Readable readDir q)
    (hfin : (watched readDir (before ++ (p, true) :: rest)).Finite)
    (hpaths : (plan.paths : Set (List C)) = watched readDir before)
    (hexpanded : (plan.expanded : Set (List C)) = expandedBy readDir before)
    (ih : ∀ plan' : Plan C,
      (plan'.paths : Set (List C)) = watched readDir (before ++ [(p, true)]) →
      (plan'.expanded : Set (List C)) = expandedBy readDir (before ++ [(p, true)]) →
      (watched readDir (before ++ [(p, true)])).ncard ≤ limit →
        ReturnsRoots readDir limit (before ++ [(p, true)]) rest plan') :
    ReturnsRoots readDir limit before ((p, true) :: rest) plan := by
  have hassoc : before ++ (p, true) :: rest = before ++ [(p, true)] ++ rest := by simp
  have hmono := watched_cons_le hfin
  have hnext : State.next ⟨plan, [], (p, true) :: rest⟩ =
      some ((p, true), ⟨plan, [], rest⟩) := rfl
  have hnext' : State.next ⟨plan, [(p, true)], rest⟩ =
      some ((p, true), ⟨plan, [], rest⟩) := rfl
  have hbelow : below readDir p ⊆ expandedBy readDir (before ++ (p, true) :: rest) := by
    intro q hq
    exact ⟨(p, true), by simp, rfl, hq⟩
  have hwatched : below readDir p ⊆ watched readDir (before ++ (p, true) :: rest) := by
    intro q hq
    exact ⟨(p, true), by simp, .inr ⟨rfl, hq⟩⟩
  have hexplores : Explores readDir limit (expandedBy readDir before) p :=
    explores (fun q hq => below_subset_expandedBy hq) (hfin.subset hwatched)
      fun q hq => hread q (hbelow hq)
  -- The root is explored as a directory on an empty stack would be.
  obtain ⟨hok, hfail⟩ := hexplores plan [] rest hexpanded.ge fun q hq _ => hexpanded ▸ hq
  rw [hpaths, List.length_nil, Room] at hok hfail
  have hgrown : watched readDir before ∪ below readDir p =
      watched readDir (before ++ [(p, true)]) := (watched_concat before p true).symm
  have hgrown' : expandedBy readDir before ∪ below readDir p =
      expandedBy readDir (before ++ [(p, true)]) := (expandedBy_concat before p true).symm
  rw [hgrown] at hok hfail
  rw [hexpanded, hgrown'] at hok
  constructor
  · intro hroots htotal paths hset
    rw [rootsFit_cons] at hroots
    have hroom := hmono.trans htotal
    rw [hassoc] at htotal hset
    refine .of_next hnext' hnext
      (hok ⟨hroots.1 rfl, hroom⟩ _ fun plan' hpaths' hexpanded' => ?_)
    exact (ih plan' hpaths' hexpanded' hroom).ok hroots.2 htotal paths hset
  · intro hno
    rw [rootsFit_cons, hassoc] at hno
    refine .of_next hnext' hnext ?_
    by_cases hroom : Fits readDir limit (expandedBy readDir before) p (watched readDir before) 0 ∧
        (watched readDir (before ++ [(p, true)])).ncard ≤ limit
    · refine hok hroom _ fun plan' hpaths' hexpanded' => ?_
      refine (ih plan' hpaths' hexpanded' hroom.2).fail fun h => hno ⟨⟨?_, h.1⟩, h.2⟩
      exact fun _ => hroom.1
    · exact hfail hroom

/-- The loop over the remaining roots handles one after the other. -/
theorem returns_roots (rest before : List (List C × Bool)) (plan : Plan C)
    (hread : ∀ q ∈ expandedBy readDir (before ++ rest), Readable readDir q)
    (hfin : (watched readDir (before ++ rest)).Finite)
    (hpaths : (plan.paths : Set (List C)) = watched readDir before)
    (hexpanded : (plan.expanded : Set (List C)) = expandedBy readDir before)
    (hle : (watched readDir before).ncard ≤ limit) :
    ReturnsRoots readDir limit before rest plan := by
  induction rest generalizing before plan with
  | nil =>
    constructor <;> rw [List.append_nil]
    · intro _ _ paths hset
      obtain rfl : plan.paths = paths := Finset.coe_injective (hpaths.trans hset.symm)
      exact .done plan
    · refine fun hno => absurd ⟨?_, hle⟩ hno
      intro pre path post hsplit
      simp at hsplit
  | cons root rest ih =>
    obtain ⟨p, recursive⟩ := root
    have hassoc : before ++ (p, recursive) :: rest = before ++ [(p, recursive)] ++ rest := by simp
    have ih' := fun plan' : Plan C => ih (before ++ [(p, recursive)]) plan' (hassoc ▸ hread)
      (hassoc ▸ hfin)
    cases recursive with
    | false => exact returnsRoots_once hfin hpaths hexpanded ih'
    | true => exact returnsRoots_recursive hread hfin hpaths hexpanded ih'

/-! ## The planner -/

/-- The planner ends with what should be watched, in order, where that and the queue fit the limit,
and otherwise with the budget error. -/
theorem returns_planned (limit : ℕ) {roots : List (List C × Bool)} (h : FiniteTree readDir roots) :
    (QueueFits readDir limit roots → (watched readDir roots).ncard ≤ limit →
      Returns readDir limit ⟨.empty, [], roots⟩ (.ok (h.finite.toFinset.sort (· ≤ ·)))) ∧
    (¬ (QueueFits readDir limit roots ∧ (watched readDir roots).ncard ≤ limit) →
      Returns readDir limit ⟨.empty, [], roots⟩ (.error budgetExceeded)) := by
  have hnone : watched readDir ([] : List (List C × Bool)) = ∅ := by
    ext q
    simp [watched]
  have hnone' : expandedBy readDir ([] : List (List C × Bool)) = ∅ := by
    ext q
    simp [expandedBy]
  have hle : (watched readDir ([] : List (List C × Bool))).ncard ≤ limit := by
    rw [hnone, Set.ncard_empty]
    exact Nat.zero_le _
  have hreturns := returns_roots roots [] .empty h.readable h.finite
    (by rw [hnone]; exact Finset.coe_empty) (by rw [hnone']; exact Finset.coe_empty) hle
  exact ⟨fun hfits htotal => hreturns.ok hfits htotal _ h.finite.coe_toFinset, hreturns.fail⟩

/-- For roots whose trees are finite and can be read, the planner returns exactly what should be
watched, in order, or the budget error where that is more than the limit, if and only if the queue
fits the limit wherever what should be watched does. -/
theorem plan_exact_iff (readDir : ReadDir C E) (limit : ℕ) (roots : List (List C × Bool))
    (h : FiniteTree readDir roots) :
    PlansExactly readDir limit roots ↔
      ((watched readDir roots).ncard ≤ limit → QueueFits readDir limit roots) := by
  obtain ⟨hok, hfail⟩ := returns_planned limit h
  constructor
  · rintro ⟨hplan, -⟩ htotal
    by_contra hno
    obtain ⟨plan, -, -, hreturns⟩ := hplan htotal
    have hbudget := hfail fun hfits => hno hfits.1
    exact absurd (Returns.unique hreturns hbudget) nofun
  · intro hfits
    refine ⟨fun htotal => ⟨_, ?_, fun q => ?_, hok (hfits htotal) htotal⟩, fun hlt => ?_⟩
    · exact Finset.sortedLT_sort _ |>.pairwise
    · rw [Finset.mem_sort, Set.Finite.mem_toFinset]
    · exact hfail fun hroom => absurd hroom.2 (Nat.not_le.2 hlt)

end Loops

/-! ## A directory given before its parent -/

/-- A directory `r` with one directory `c` in it. -/
def nested : ReadDir String Unit := fun path =>
  if path = ["r"] then .ok [.ok ⟨"c", .ok .dir⟩] else .ok []

/-- Its inner directory first, and then all of it. -/
def overlapping : List (List String × Bool) := [(["r", "c"], false), (["r"], true)]

/-- The directories of the outer one. -/
theorem dirs_nested : dirs nested ["r"] = [["r", "c"]] := rfl

/-- There are no others. -/
theorem dirs_nested_of_ne {path : List String} (h : path ≠ ["r"]) : dirs nested path = [] := by
  simp [dirs, nested, h]

/-- What is below the outer directory. -/
theorem below_nested {q : List String} (h : q ∈ below nested ["r"]) :
    q = ["r"] ∨ q = ["r", "c"] := by
  rw [mem_below_iff, dirs_nested] at h
  rcases h with rfl | ⟨c, hc, hq⟩
  · exact .inl rfl
  · obtain rfl := List.mem_singleton.1 hc
    rw [mem_below_iff, dirs_nested_of_ne (by decide)] at hq
    exact .inr (by simpa using hq)

/-- What should be watched. -/
theorem watched_overlapping {q : List String} (h : q ∈ watched nested overlapping) :
    q = ["r"] ∨ q = ["r", "c"] := by
  obtain ⟨root, hroot, hq⟩ := h
  have hroot : root = (["r", "c"], false) ∨ root = (["r"], true) := by
    simpa [overlapping] using hroot
  rcases hroot with rfl | rfl
  · exact .inr (hq.resolve_right nofun)
  · exact hq.elim .inl fun hq => below_nested hq.2

/-- There are two paths to watch. -/
theorem ncard_overlapping : (watched nested overlapping).ncard ≤ 2 := by
  have hsub : watched nested overlapping ⊆ {["r"], ["r", "c"]} := fun q hq => watched_overlapping hq
  refine (Set.ncard_le_ncard hsub (Set.toFinite _)).trans ?_
  exact (Set.ncard_insert_le _ _).trans (by rw [Set.ncard_singleton])

/-- The tree is finite, and can be read. -/
theorem overlapping_tree : FiniteTree nested overlapping where
  readable := by
    intro path _
    by_cases h : path = ["r"]
    · subst h
      exact ⟨[("c", .dir)], rfl, by decide⟩
    · exact ⟨[], by simp [nested, h], by simp⟩
  finite := (Set.toFinite {["r"], ["r", "c"]}).subset fun _ hq => watched_overlapping hq

/-- A limit of three leaves room for the directory that counts twice. -/
theorem plan_exact_iff_overlapping : PlansExactly nested 3 overlapping := by
  refine (plan_exact_iff nested 3 overlapping overlapping_tree).2 fun _ => ?_
  have hpair : ∀ W : Set (List String), W ⊆ {["r"], ["r", "c"]} → W.ncard ≤ 2 := by
    intro W hW
    refine (Set.ncard_le_ncard hW (Set.toFinite _)).trans ?_
    exact (Set.ncard_insert_le _ _).trans (by rw [Set.ncard_singleton])
  intro before path after hsplit
  -- The only recursive root comes second.
  have hroot : before = [(["r", "c"], false)] ∧ path = ["r"] := by
    match before, hsplit with
    | [], hsplit => simp [overlapping] at hsplit
    | [root], hsplit => simp_all [overlapping]
    | _ :: _ :: before, hsplit => simp [overlapping] at hsplit
  obtain ⟨rfl, rfl⟩ := hroot
  intro dir W queued hexpands hne
  cases hexpands with
  | here hnew =>
    have hW : (insert ["r"] (watched nested [(["r", "c"], false)])).ncard ≤ 2 := by
      refine hpair _ ?_
      rintro q (rfl | ⟨root, hroot, hq⟩)
      · exact .inl rfl
      · obtain rfl := List.mem_singleton.1 hroot
        exact .inr (hq.resolve_right nofun)
    rw [dirs_nested, List.length_singleton]
    omega
  | @into _ c _ _ _ _ _ pre post hnew hdirs hinner =>
    have hc : c ∈ dirs nested ["r"] := by rw [hdirs]; simp
    obtain rfl : c = ["r", "c"] := List.mem_singleton.1 hc
    have hleaf : dirs nested ["r", "c"] = [] := dirs_nested_of_ne (by decide)
    cases hinner with
    | here _ => exact absurd hleaf hne
    | into _ hdirs' _ => simp [hleaf] at hdirs'

/-- A limit of two does not: the plan has two paths, and still exceeds the budget. -/
theorem overlapping_exceeds_budget :
    FiniteTree nested overlapping ∧ ¬ PlansExactly nested 2 overlapping := by
  refine ⟨overlapping_tree, fun hplans => ?_⟩
  obtain ⟨plan, -, -, hreturns⟩ := hplans.1 ncard_overlapping
  have hrun : run nested 2 2 ⟨.empty, [], overlapping⟩ = some (.error budgetExceeded) := by rfl
  have hbudget : Returns nested 2 ⟨.empty, [], overlapping⟩ (.error budgetExceeded) :=
    ⟨2, fun _ hfuel => run_mono hrun hfuel⟩
  exact absurd (Returns.unique hreturns hbudget) nofun

end DaemonFramework.Watch
