import DaemonFramework.Worklist
import Mathlib.Data.Set.Finite.Basic
import Mathlib.Data.List.Infix

/-!
# File systems with symlinks

A `FileTree` has an entry for each path that is there, and what is there is in a directory. A path
that is given to the system is walked name by name: a link on the way is replaced by its target, and
the last name may be a link itself (`walk`). The operations below are those of a POSIX system in
which nothing fails but what has to.

Where what is on the way are directories (`Open`), a walk goes where the names say. `lstat_eq` and
`readLink_of_symlink` read the entry off, and `createDirAll_spec` and `create_spec` say what a tree
is afterwards.
-/

set_option linter.unusedSectionVars false

namespace DaemonFramework.Symlinks

open Worklist (bind_eq_ok)

/-- A part of a path. -/
inductive Component (N : Type*) where
  | parent
  | current
  | normal (name : N)
deriving DecidableEq

/-- What a symlink says. -/
structure Target (N : Type*) where
  /-- It starts from the root. -/
  absolute : Bool
  /-- Its parts. -/
  components : List (Component N)
deriving DecidableEq

/-- What is at a path. -/
inductive Entry (N : Type*) where
  | directory
  | file
  /-- A socket, a device and so on. -/
  | special
  | symlink (target : Target N)
deriving DecidableEq

/-- Why an operation fails. -/
inductive Errno where
  | notFound
  | notADirectory
  | invalidInput
  | alreadyExists
  | isADirectory
  | tooManyLinks
deriving DecidableEq

/-- A finite tree of entries. -/
structure FileTree (N : Type*) where
  /-- The entry at a path from the root. -/
  entry : List N → Option (Entry N)
  /-- There are finitely many. -/
  finite : {p | entry p ≠ none}.Finite
  /-- The root is a directory. -/
  root : entry [] = some .directory
  /-- What is there is in a directory. -/
  closed : ∀ p n, entry (p ++ [n]) ≠ none → entry p = some .directory

variable {N : Type*} [DecidableEq N]

/-- Where a walk stops. -/
inductive Stop (N : Type*) where
  /-- At its end. -/
  | arrived (path : List N)
  /-- At a link in a directory, with the rest of the way. -/
  | link (directory : List N) (target : Target N) (rest : List (Component N))

namespace FileTree

variable (t : FileTree N)

/-- Walk to the end, or to the first link. -/
def advance (follow : Bool) : List N → List (Component N) → Except Errno (Stop N)
  | cur, [] => .ok (.arrived cur)
  | cur, .current :: rest => advance follow cur rest
  | cur, .parent :: rest => advance follow cur.dropLast rest
  | cur, .normal n :: rest =>
    match t.entry (cur ++ [n]) with
    | some .directory => advance follow (cur ++ [n]) rest
    | some (.symlink target) =>
      if rest = [] ∧ follow = false then .ok (.arrived (cur ++ [n])) else .ok (.link cur target rest)
    | some _ => if rest = [] then .ok (.arrived (cur ++ [n])) else .error .notADirectory
    | none => if rest = [] then .ok (.arrived (cur ++ [n])) else .error .notFound

/-- Walk to the end, through at most so many links. The last name is followed or not. -/
def walk (follow : Bool) : ℕ → List N → List (Component N) → Except Errno (List N)
  | links, cur, path =>
    match t.advance follow cur path with
    | .error e => .error e
    | .ok (.arrived p) => .ok p
    | .ok (.link directory target rest) =>
      match links with
      | 0 => .error .tooManyLinks
      | links + 1 =>
        walk follow links (if target.absolute then [] else directory) (target.components ++ rest)

/-- Where a path leads that is given to the system. -/
def locate (follow : Bool) (p : List N) : Except Errno (List N) :=
  t.walk follow 40 [] (p.map .normal)

/-- `lstat` -/
def lstat (p : List N) : Except Errno (Entry N) := do
  let q ← t.locate false p
  match t.entry q with
  | some e => .ok e
  | none => .error .notFound

/-- `readlink` -/
def readLink (p : List N) : Except Errno (Target N) := do
  match ← t.lstat p with
  | .symlink target => .ok target
  | _ => .error .invalidInput

/-- A directory is there, or a link to one. -/
def isDir (p : List N) : Bool :=
  match t.locate true p with
  | .ok q => t.entry q = some .directory
  | .error _ => false

/-- What is found is in the list. -/
theorem exists_mem_of_lookup {entries : List (List N × Entry N)} {p : List N}
    (h : entries.lookup p ≠ none) : ∃ x ∈ entries, x.1 = p := by
  by_contra hnone
  refine h (List.lookup_eq_none_iff.mpr fun x hx => ?_)
  simpa using fun heq : p = x.1 => hnone ⟨x, hx, heq.symm⟩

/-- The tree with these entries below the root. -/
def ofList (entries : List (List N × Entry N))
    (hclosed : ∀ x ∈ entries, x.1.dropLast = [] ∨ entries.lookup x.1.dropLast = some .directory) :
    FileTree N where
  entry p := if p = [] then some .directory else entries.lookup p
  finite := by
    refine ((entries.map (·.1)).toFinset.finite_toSet.insert []).subset fun p hp => ?_
    by_cases hnil : p = []
    · exact .inl hnil
    · rw [Set.mem_ofPred_eq, if_neg hnil] at hp
      obtain ⟨x, hx, rfl⟩ := exists_mem_of_lookup hp
      exact .inr (by simpa using ⟨x.2, hx⟩)
  root := if_pos rfl
  closed p n hp := by
    have hne : p ++ [n] ≠ [] := by simp
    rw [if_neg hne] at hp
    obtain ⟨x, hx, hpath⟩ := exists_mem_of_lookup hp
    have habove := hclosed x hx
    rw [hpath, List.dropLast_concat] at habove
    split
    · rfl
    · rename_i hnil
      exact habove.resolve_left hnil

/-- Put an entry where nothing is. -/
def insert (p : List N) (e : Entry N) (h : t.entry p = none)
    (hparent : t.entry p.dropLast = some .directory) : FileTree N where
  entry q := if q = p then some e else t.entry q
  finite := by
    refine (t.finite.insert p).subset fun q hq => ?_
    by_cases hqp : q = p
    · exact .inl hqp
    · refine .inr fun hnone => hq ?_
      simp only [if_neg hqp, hnone]
  root := by
    have hne : ([] : List N) ≠ p := fun heq => by simp [← heq, t.root] at h
    rw [if_neg hne, t.root]
  closed q n hq := by
    have hqp : q ≠ p := by
      rintro rfl
      have hlonger : q ++ [n] ≠ q := by simp
      rw [if_neg hlonger] at hq
      rw [t.closed q n hq] at h
      cases h
    rw [if_neg hqp]
    by_cases hlast : q ++ [n] = p
    · rw [← hlast, List.dropLast_concat] at hparent
      exact hparent
    · rw [if_neg hlast] at hq
      exact t.closed q n hq

/-- Create an entry. -/
def create (p : List N) (e : Entry N) : Except Errno (FileTree N) :=
  if h : t.entry p = none then
    if hparent : t.entry p.dropLast = some .directory then .ok (t.insert p e h hparent)
    else .error .notFound
  else .error .alreadyExists

/-- `mkdir` -/
def mkdir (p : List N) : Except Errno (FileTree N) := do
  t.create (← t.locate false p) .directory

/-- Make a directory that may be there. -/
def makeDir (p : List N) : Except Errno (FileTree N) :=
  match t.mkdir p with
  | .ok made => .ok made
  | .error e => if t.isDir p then .ok t else .error e

/-- Make the directory whose names are these, from the last. What it is in is made where it is
missing. -/
def makeDirs : List N → Except Errno (FileTree N)
  | [] => t.makeDir []
  | n :: up =>
    match t.mkdir (up.reverse ++ [n]) with
    | .ok made => .ok made
    | .error .notFound => do
      let above ← makeDirs up
      above.makeDir (up.reverse ++ [n])
    | .error e => if t.isDir (up.reverse ++ [n]) then .ok t else .error e

/-- `create_dir_all` -/
def createDirAll (p : List N) : Except Errno (FileTree N) := t.makeDirs p.reverse

/-- `symlink` -/
def symlink (target : Target N) (p : List N) : Except Errno (FileTree N) := do
  t.create (← t.locate false p) (.symlink target)

/-- `open` for writing, which creates the file. -/
def openTruncated (p : List N) : Except Errno (FileTree N) := do
  let q ← t.locate true p
  match t.entry q with
  | none => t.create q .file
  | some .directory => .error .isADirectory
  | some _ => .ok t

/-- Copy a regular file. -/
def copyFile (source p : List N) : Except Errno (FileTree N) := do
  let q ← t.locate true source
  match t.entry q with
  | none => .error .notFound
  | some .file => t.openTruncated p
  | some _ => .error .invalidInput

/-! ### Ways without links -/

/-- What is on the way to a path are directories, as far as it is there. -/
def Open (p : List N) : Prop :=
  ∀ q n, q ++ [n] <+: p → t.entry q = none ∨ t.entry q = some .directory

variable {t : FileTree N} {p : List N}

/-- What is above an entry is a directory. -/
theorem directory_above {q : List N} {n : N} (hlead : q ++ [n] <+: p) (hp : t.entry p ≠ none) :
    t.entry q = some .directory := by
  obtain ⟨rest, rfl⟩ := hlead
  induction rest using List.reverseRecOn with
  | nil =>
    rw [List.append_nil] at hp
    exact t.closed q n hp
  | append_singleton rest m ih =>
    rw [← List.append_assoc] at hp
    have habove := t.closed _ m hp
    exact ih (by rw [habove]; exact Option.some_ne_none _)

/-- So is what is right above it or further up. -/
theorem directory_of_append {q rest : List N} (hrest : rest ≠ [])
    (hp : t.entry (q ++ rest) ≠ none) :
    t.entry q = some .directory := by
  obtain ⟨n, after, rfl⟩ := List.exists_cons_of_ne_nil hrest
  exact directory_above (n := n) ⟨after, by simp⟩ hp

/-- Below what is not there, there is nothing. -/
theorem none_below {q : List N} (hlead : q <+: p) (hq : t.entry q = none) : t.entry p = none := by
  by_contra hp
  obtain ⟨rest, rfl⟩ := hlead
  by_cases hrest : rest = []
  · rw [hrest, List.append_nil] at hp
    exact hp hq
  · have hdirectory := directory_of_append hrest hp
    rw [hq] at hdirectory
    cases hdirectory

/-- The way to an entry is open. -/
theorem open_of_entry (hp : t.entry p ≠ none) : t.Open p :=
  fun _ _ hlead => .inr (directory_above hlead hp)

/-- So is each part of an open way. -/
theorem Open.restrict {q : List N} (h : t.Open p) (hlead : q <+: p) : t.Open q :=
  fun _ _ hn => h _ _ (hn.trans hlead)

/-- Through directories a walk arrives, at a link only if the last name is not followed. -/
theorem advance_of_directories {follow : Bool} {c q : List N}
    (hway : ∀ a n, a ++ [n] <+: q → a ≠ [] → t.entry (c ++ a) = some .directory)
    (hlast : follow = false ∨ ∀ target, t.entry (c ++ q) ≠ some (.symlink target)) :
    t.advance follow c (q.map .normal) = .ok (.arrived (c ++ q)) := by
  induction q generalizing c with
  | nil => simp [advance]
  | cons n rest ih =>
    cases rest with
    | nil =>
      simp only [List.map_cons, List.map_nil, advance]
      cases hentry : t.entry (c ++ [n]) with
      | none => simp
      | some e =>
        cases e with
        | directory => simp
        | file => simp
        | special => simp
        -- A link in the last place is reached only where the walk does not follow it.
        | symlink target =>
          have hfollow : follow = false := hlast.resolve_right fun h => h target hentry
          simp [hfollow]
    | cons m rest =>
      -- The first name is a directory, so the walk goes on below it.
      have hdirectory := hway [n] m ⟨rest, by simp⟩ (by simp)
      have hrest := @ih (c ++ [n]) (fun a k hlead ha => by
        have hlonger := hway (n :: a) k (by simpa using hlead) (by simp)
        simpa using hlonger) (by simpa using hlast)
      rw [List.map_cons, advance, hdirectory]
      simpa using hrest

/-- A walk does not pass what is neither a directory nor a link. -/
theorem advance_of_blocked {follow : Bool} {c q : List N} (m : N) (hopen : t.Open (c ++ q))
    (hq : q ≠ [])
    (hdirectory : t.entry (c ++ q) ≠ some .directory)
    (hlink : ∀ target, t.entry (c ++ q) ≠ some (.symlink target)) :
    t.advance follow c ((q ++ [m]).map .normal) =
      .error (if t.entry (c ++ q) = none then .notFound else .notADirectory) := by
  induction q generalizing c with
  | nil => exact absurd rfl hq
  | cons n rest ih =>
    cases rest with
    | nil =>
      simp only [List.cons_append, List.nil_append, List.map_cons, List.map_nil, advance]
      cases hentry : t.entry (c ++ [n]) with
      | none => simp
      | some e =>
        cases e with
        | directory => exact absurd hentry hdirectory
        | file => simp
        | special => simp
        | symlink target => exact absurd hentry (hlink target)
    | cons k rest =>
      have hshift : c ++ n :: k :: rest = c ++ [n] ++ k :: rest := by simp
      rw [hshift] at hopen hdirectory hlink ⊢
      rw [List.cons_append, List.map_cons, advance]
      -- What is on the way is missing with all below it, or is walked through.
      obtain hnone | hsome := hopen (c ++ [n]) k ⟨rest, by simp⟩
      · have hbelow := none_below (p := c ++ [n] ++ k :: rest) ⟨k :: rest, rfl⟩ hnone
        rw [hnone, if_pos hbelow]
        simp
      · rw [hsome]
        exact ih hopen (by simp) hdirectory hlink

/-- The root is found where it is. -/
theorem locate_nil {follow : Bool} : t.locate follow [] = .ok [] := by
  simp [locate, walk, advance]

/-- A name in a directory is found there, unless it is a link to be followed. -/
theorem locate_of_directory {follow : Bool} {q : List N} {n : N} (hq : t.entry q = some .directory)
    (hlast : follow = false ∨ ∀ target, t.entry (q ++ [n]) ≠ some (.symlink target)) :
    t.locate follow (q ++ [n]) = .ok (q ++ [n]) := by
  have harrived : t.advance follow [] ((q ++ [n]).map .normal) = .ok (.arrived (q ++ [n])) := by
    refine advance_of_directories (fun a m hlead _ => ?_) hlast
    obtain heq | hshorter := List.prefix_concat_iff.mp hlead
    · have haq : a = q := List.append_inj_left' heq rfl
      rw [List.nil_append, haq, hq]
    · exact directory_above hshorter (by simp [hq])
  unfold locate walk
  rw [harrived]

/-- A name is not found in what is no directory. -/
theorem locate_of_blocked {follow : Bool} {q : List N} {n : N} (hopen : t.Open q)
    (hdirectory : t.entry q ≠ some .directory)
    (hlink : ∀ target, t.entry q ≠ some (.symlink target)) :
    t.locate follow (q ++ [n]) =
      .error (if t.entry q = none then .notFound else .notADirectory) := by
  have hq : q ≠ [] := fun hnil => hdirectory (by rw [hnil, t.root])
  have hstopped := @advance_of_blocked N _ t follow [] q n hopen hq hdirectory hlink
  unfold locate walk
  rw [hstopped, List.nil_append]

/-- Where the way is open `lstat` reads the entry. -/
theorem lstat_eq (hopen : t.Open p) : t.lstat p = (t.entry p).elim (.error .notFound) .ok := by
  unfold lstat
  obtain rfl | ⟨q, n, rfl⟩ := p.eq_nil_or_concat'
  · rw [locate_nil]
    simp [bind, Except.bind, t.root]
  · obtain hnone | hdirectory := hopen q n (List.prefix_refl _)
    · have hbelow : t.entry (q ++ [n]) = none := none_below ⟨[n], rfl⟩ hnone
      rw [locate_of_blocked (hopen.restrict ⟨[n], rfl⟩) (by simp [hnone]) (by simp [hnone]), hbelow]
      simp [bind, Except.bind, hnone]
    · rw [locate_of_directory hdirectory (.inl rfl)]
      cases hentry : t.entry (q ++ [n]) <;> simp [bind, Except.bind, hentry]

/-- A link is read. -/
theorem readLink_of_symlink {target : Target N} (hp : t.entry p = some (.symlink target)) :
    t.readLink p = .ok target := by
  unfold readLink
  rw [lstat_eq (open_of_entry (by simp [hp])), hp]
  rfl

/-- Nothing else is read as a link. -/
theorem readLink_of_ne (hopen : t.Open p) (hp : ∀ target, t.entry p ≠ some (.symlink target)) :
    t.readLink p = .error (if t.entry p = none then .notFound else .invalidInput) := by
  unfold readLink
  rw [lstat_eq hopen]
  cases hentry : t.entry p with
  | none => rfl
  | some e =>
    cases e with
    | symlink target => exact absurd hentry (hp target)
    | _ => rfl

/-- Below a file is nothing to read. -/
theorem readLink_of_blocked {n : N} (hopen : t.Open p) (hsome : t.entry p ≠ none)
    (hdirectory : t.entry p ≠ some .directory)
    (hlink : ∀ target, t.entry p ≠ some (.symlink target)) :
    t.readLink (p ++ [n]) = .error .notADirectory := by
  unfold readLink lstat
  rw [locate_of_blocked hopen hdirectory hlink, if_neg hsome]
  rfl

/-- A walk that meets no link stops where the names say. -/
theorem advance_of_unlinked {c q : List N} {stop : Stop N}
    (hunlinked : ∀ a n, a ++ [n] <+: q → ∀ target, t.entry (c ++ a) ≠ some (.symlink target))
    (h : t.advance false c (q.map .normal) = .ok stop) : stop = .arrived (c ++ q) := by
  induction q generalizing c with
  | nil => simpa [advance] using h.symm
  | cons n rest ih =>
    -- Below the first name there is no link either.
    have hstep : ∀ a m, a ++ [m] <+: rest →
        ∀ target, t.entry (c ++ [n] ++ a) ≠ some (.symlink target) := fun a m hlead target => by
        have hlonger := hunlinked (n :: a) m (by simpa using hlead) target
        simpa using hlonger
    have hshift : c ++ n :: rest = c ++ [n] ++ rest := by simp
    rw [hshift]
    rw [List.map_cons, advance] at h
    split at h
    · exact ih hstep h
    -- A link can only be in the last place, which the walk does not follow.
    · rename_i target hentry
      cases rest with
      | nil => simpa using h.symm
      | cons m rest => exact absurd hentry (hunlinked [n] m (by simp) target)
    all_goals
      split at h
      · rename_i hrest
        rw [List.map_eq_nil_iff.mp hrest, List.append_nil]
        simpa using h.symm
      · cases h

/-- Without links on the way, what `lstat` finds is the entry. -/
theorem entry_of_lstat {e : Entry N}
    (hunlinked : ∀ q n, q ++ [n] <+: p → ∀ target, t.entry q ≠ some (.symlink target))
    (h : t.lstat p = .ok e) : t.entry p = some e := by
  obtain ⟨r, hlocate, hentry⟩ := bind_eq_ok h
  have hr : r = p := by
    unfold locate walk at hlocate
    split at hlocate
    · cases hlocate
    · rename_i r' hadvance
      cases hlocate
      have harrived := advance_of_unlinked (c := []) (by simpa using hunlinked) hadvance
      simpa using harrived
    · rename_i directory target rest hadvance
      cases advance_of_unlinked (c := []) (by simpa using hunlinked) hadvance
  subst hr
  split at hentry
  · rename_i found hfound
    cases hentry
    exact hfound
  · cases hentry

/-! ### What is created -/

/-- An entry is created where there was none, and the others stay. -/
theorem create_spec {e : Entry N} {made : FileTree N} (h : t.create p e = .ok made) :
    t.entry p = none ∧ ∀ q, made.entry q = if q = p then some e else t.entry q := by
  unfold create at h
  split at h
  · rename_i hnone
    split at h
    · cases h
      exact ⟨hnone, fun q => rfl⟩
    · cases h
  · cases h

/-- It can be created in a directory that has none of its name. -/
theorem create_of_none {e : Entry N} (hp : t.entry p = none)
    (hparent : t.entry p.dropLast = some .directory) : ∃ made, t.create p e = .ok made :=
  ⟨t.insert p e hp hparent, by simp [create, hp, hparent]⟩

/-- Where the way is open an operation is about the path that it is given. -/
theorem locate_open {follow : Bool} {r : List N} (hopen : t.Open p)
    (hlast : follow = false ∨ ∀ target, t.entry p ≠ some (.symlink target))
    (h : t.locate follow p = .ok r) : r = p := by
  obtain rfl | ⟨q, n, rfl⟩ := p.eq_nil_or_concat'
  · rw [locate_nil] at h
    cases h
    rfl
  · obtain hnone | hdirectory := hopen q n (List.prefix_refl _)
    · rw [locate_of_blocked (hopen.restrict ⟨[n], rfl⟩) (by simp [hnone]) (by simp [hnone])] at h
      cases h
    · rw [locate_of_directory hdirectory hlast] at h
      cases h
      rfl

/-- A link is created at the end of an open way. -/
theorem symlink_spec {target : Target N} {made : FileTree N} (hopen : t.Open p)
    (h : t.symlink target p = .ok made) (q : List N) :
    made.entry q = if q = p then some (.symlink target) else t.entry q := by
  unfold symlink at h
  obtain ⟨r, hlocate, hcreate⟩ := bind_eq_ok h
  rw [locate_open hopen (.inl rfl) hlocate] at hcreate
  exact (create_spec hcreate).2 q

/-- A file is copied to a free place at the end of an open way. -/
theorem copyFile_spec {source : List N} {made : FileTree N} (hopen : t.Open p)
    (hp : t.entry p = none)
    (h : t.copyFile source p = .ok made) (q : List N) :
    made.entry q = if q = p then some .file else t.entry q := by
  obtain ⟨found, -, hopened⟩ := bind_eq_ok h
  split at hopened
  · cases hopened
  · obtain ⟨r, hlocate, hcreated⟩ := bind_eq_ok hopened
    rw [locate_open hopen (.inr (by simp [hp])) hlocate, hp] at hcreated
    exact (create_spec hcreated).2 q
  · cases hopened

/-- A directory is made where there was nothing. -/
theorem mkdir_of_none {q : List N} {n : N} (hq : t.entry q = some .directory)
    (hnone : t.entry (q ++ [n]) = none) :
    ∃ made, t.mkdir (q ++ [n]) = .ok made ∧
      ∀ a, made.entry a = if a = q ++ [n] then some .directory else t.entry a := by
  obtain ⟨made, hmade⟩ := create_of_none (e := .directory) hnone (by simpa using hq)
  refine ⟨made, ?_, (create_spec hmade).2⟩
  unfold mkdir
  rw [locate_of_directory hq (.inl rfl)]
  exact hmade

/-- It is not made again. -/
theorem mkdir_of_directory {q : List N} {n : N} (hp : t.entry (q ++ [n]) = some .directory) :
    t.mkdir (q ++ [n]) = .error .alreadyExists ∧ t.isDir (q ++ [n]) = true := by
  have hq : t.entry q = some .directory := t.closed q n (by simp [hp])
  constructor
  · unfold mkdir
    rw [locate_of_directory hq (.inl rfl)]
    simp [bind, Except.bind, create, hp]
  · unfold isDir
    rw [locate_of_directory hq (.inr (by simp [hp]))]
    simp [hp]

/-- Made over what is there, a directory changes nothing. -/
theorem entry_of_directories {made : FileTree N} {s : List N → Prop} [DecidablePred s]
    (hs : ∀ a, s a → t.entry a = some .directory) (hmade : made = t) (a : List N) :
    made.entry a = if s a then some .directory else t.entry a := by
  rw [hmade]
  split
  · rename_i ha
    exact hs a ha
  · rfl

/-- Afterwards it is there in both cases. -/
theorem makeDir_spec {q : List N} {n : N} (hq : t.entry q = some .directory)
    (hp : t.entry (q ++ [n]) = none ∨ t.entry (q ++ [n]) = some .directory) :
    ∃ made, t.makeDir (q ++ [n]) = .ok made ∧
      ∀ a, made.entry a = if a = q ++ [n] then some .directory else t.entry a := by
  unfold makeDir
  obtain hnone | hdirectory := hp
  · obtain ⟨made, hmade, hentries⟩ := mkdir_of_none hq hnone
    exact ⟨made, by rw [hmade], hentries⟩
  · obtain ⟨hexists, hdir⟩ := mkdir_of_directory hdirectory
    exact ⟨t, by simp [hexists, hdir],
      entry_of_directories (fun a ha => by rw [ha, hdirectory]) rfl⟩

/-- Where nothing is in the way `create_dir_all` makes what is missing. -/
theorem createDirAll_spec (hclear : ∀ q, q <+: p → t.entry q = none ∨ t.entry q = some .directory) :
    ∃ made, t.createDirAll p = .ok made ∧
      ∀ a, made.entry a = if a <+: p then some .directory else t.entry a := by
  unfold createDirAll
  induction p using List.reverseRecOn with
  -- The root is always there.
  | nil =>
    have hdir : t.isDir [] = true := by
      unfold isDir
      rw [locate_nil]
      simp [t.root]
    refine ⟨t, ?_, entry_of_directories (fun a ha => ?_) rfl⟩
    · simp [makeDirs, makeDir, mkdir, locate_nil, create, t.root, hdir, bind, Except.bind]
    · rw [List.prefix_nil.mp ha, t.root]
  | append_singleton q n ih =>
    have habove : ∀ a, a <+: q → t.entry a = none ∨ t.entry a = some .directory :=
      fun a ha => hclear a (ha.trans ⟨[n], rfl⟩)
    have hlast := hclear (q ++ [n]) (List.prefix_refl _)
    rw [List.reverse_append, List.reverse_singleton, List.singleton_append, makeDirs,
      List.reverse_reverse]
    obtain hnone | hdirectory := habove q (List.prefix_refl _)
    -- What it is in is missing and is made first.
    · have hopen : t.Open q := fun a m ham => habove a ((List.prefix_append a [m]).trans ham)
      have hmissing : t.mkdir (q ++ [n]) = .error .notFound := by
        unfold mkdir
        rw [locate_of_blocked hopen (by simp [hnone]) (by simp [hnone]), if_pos hnone]
        rfl
      obtain ⟨above, hmade, hentries⟩ := ih habove
      have hlonger : ¬ q ++ [n] <+: q := fun h => by
        have hlength := h.length_le
        rw [List.length_append, List.length_singleton] at hlength
        omega
      have hbelow : above.entry (q ++ [n]) = none := by
        rw [hentries, if_neg hlonger, none_below ⟨[n], rfl⟩ hnone]
      obtain ⟨made, hlastMade, hlastEntries⟩ :=
        makeDir_spec (t := above) (q := q) (n := n) (by rw [hentries, if_pos (List.prefix_refl _)])
          (.inl hbelow)
      refine ⟨made, ?_, fun a => ?_⟩
      · simp only [hmissing, hmade, bind, Except.bind, hlastMade]
      · rw [hlastEntries, hentries]
        simp only [List.prefix_concat_iff]
        grind
    -- What it is in is there, so only the last directory can be missing.
    · have hthere : ∀ a, a <+: q → t.entry a = some .directory := by
        intro a ha
        obtain ⟨rest, hrest⟩ := ha
        by_cases hnil : rest = []
        · rw [← hdirectory, ← hrest, hnil, List.append_nil]
        · exact directory_of_append hnil (by simp [hrest, hdirectory])
      obtain hnone | hexisting := hlast
      · obtain ⟨made, hmade, hentries⟩ := mkdir_of_none hdirectory hnone
        refine ⟨made, by rw [hmade], fun a => ?_⟩
        rw [hentries]
        simp only [List.prefix_concat_iff]
        grind
      · obtain ⟨hexists, hdir⟩ := mkdir_of_directory hexisting
        refine ⟨t, by simp [hexists, hdir], entry_of_directories (fun a ha => ?_) rfl⟩
        obtain rfl | hshorter := List.prefix_concat_iff.mp ha
        · exact hexisting
        · exact hthere a hshorter

end FileTree

end DaemonFramework.Symlinks
