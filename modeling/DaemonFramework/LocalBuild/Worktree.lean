import DaemonFramework.LocalBuild.Resolve
import Mathlib.Data.List.Dedup
import Mathlib.Data.List.Sort

/-!
# Snapshots of a worktree

`snapshot` and `copy_leaf` of `shelllist-local-build/src/snapshot.rs`, over the tree of
`Symlinks.lean` and what Git says of the worktree. Contents, modes and times of files are left out.

`Copying` is what holds between the tracked entries: nothing but the destination has changed, and
what is in the destination are directories above the entries that were copied, and these entries
themselves. `Copying.copyEntries` carries it through a snapshot. A link over a portable way then
leads to the counterpart of what it leads to in the worktree (`snapshot_confines`). The check of the
links looks at the worktree only, so a link with an absolute target passes it and leads back there
(`absolute_link_reaches_back`).
-/

namespace DaemonFramework.LocalBuild.Worktree

open Symlinks
open Worklist (bind_eq_ok)

/-- What Git says of a worktree. -/
structure Git where
  /-- `git rev-parse --show-toplevel` -/
  toplevel : List (Component String)
  /-- `git ls-files --others --exclude-standard` -/
  untracked : List (List String)
  /-- `git ls-files --cached` -/
  cached : List (List String)

/-- The tracked entries in the order of their bytes, each of them once. -/
def Git.tracked (git : Git) : List (List String) :=
  ((git.cached.filter (· ≠ [])).dedup).insertionSort fun a b => "/".intercalate a ≤ "/".intercalate b

/-- An operation of the system, with the text of its context. -/
def operate {α : Type*} (context : String) (result : Except Errno α) : Except Refusal α :=
  result.mapError (.operation context)

/-- `ensure!` -/
def ensure (condition : Prop) [Decidable condition] (text : String) : Except Refusal Unit :=
  if condition then .ok () else .error (.ensure text)

/-- `validate_worktree` -/
def validateWorktree (t : FileTree String) (git : Git) (root : List String) : Except Refusal Unit := do
  let top ← resolve t git.toplevel
  ensure (top = root) s!"not a repository root: {displayed root}"
  let untracked := String.join (git.untracked.map fun path => "/".intercalate path ++ "\n")
  ensure (git.untracked = []) s!"Git-add or ignore untracked files in {displayed root}:\n{untracked}"

/-- `copy_leaf` -/
def copyLeaf (t : FileTree String) (source target : List String) (before : Entry String) :
    Except Refusal (FileTree String) :=
  match before with
  | .symlink _ => do
    let link ← operate "" (t.readLink source)
    operate "copy symlink" (t.symlink link target)
  | .file => operate s!"copy {displayed source}" (t.copyFile source target)
  | _ => .error (.ensure s!"unsupported snapshot entry: {displayed source}")

/-- A symlink must resolve to a path of the worktree. -/
def confine (t : FileTree String) (root source : List String) (metadata : Entry String) : Except Refusal Unit :=
  match metadata with
  | .symlink _ => do
    let resolved ← resolve t (source.map .normal)
    ensure (root <+: resolved) s!"symlink escapes snapshot: {displayed source}"
  | _ => .ok ()

/-- The body of the loop of `snapshot` over the tracked entries. -/
def copyEntry (root destination : List String) (t : FileTree String) (relative : List String) :
    Except Refusal (FileTree String) :=
  let source := root ++ relative
  match t.lstat source with
  | .error .notFound => .ok t
  | .error e => .error (.operation "inspect tracked file" e)
  | .ok metadata => do
    let target := destination ++ relative
    ensure (target ≠ []) "tracked file has no parent"
    let made ← operate "" (t.createDirAll target.dropLast)
    confine made root source metadata
    copyLeaf made source target metadata

/-- The loop of `snapshot` over the tracked entries. -/
def copyEntries (root destination : List String) :
    FileTree String → List (List String) → Except Refusal (FileTree String)
  | t, [] => .ok t
  | t, relative :: rest => do
    let next ← copyEntry root destination t relative
    copyEntries root destination next rest

/-- `snapshot` -/
def snapshot (t : FileTree String) (git : Git) (root destination : List String) :
    Except Refusal (FileTree String) := do
  validateWorktree t git root
  let made ← operate "" (t.createDirAll destination)
  copyEntries root destination made git.tracked

/-! ### What succeeds -/

/-- An operation succeeds with its result. -/
theorem operate_eq_ok {α : Type*} {context : String} {result : Except Errno α} {a : α}
    (h : operate context result = .ok a) : result = .ok a := by
  cases result with
  | error e => cases h
  | ok b =>
    cases h
    rfl

/-- What was ensured holds. -/
theorem ensure_eq_ok {condition : Prop} [Decidable condition] {text : String} {u : Unit}
    (h : ensure condition text = .ok u) : condition := by
  by_contra hnot
  rw [ensure, if_neg hnot] at h
  cases h

/-- A link that is let through leads to a place below the root. -/
theorem confine_of_symlink {t : FileTree String} {root source : List String}
    {target : Target String} {u : Unit}
    (h : confine t root source (.symlink target) = .ok u) :
    ∃ resolved, resolve t (source.map .normal) = .ok resolved ∧ root <+: resolved := by
  obtain ⟨resolved, hresolved, hinside⟩ := bind_eq_ok h
  exact ⟨resolved, hresolved, ensure_eq_ok hinside⟩

/-- What is copied is a link, with its text, or a file. -/
theorem copyLeaf_cases {t next : FileTree String} {source target : List String}
    {before : Entry String}
    (h : copyLeaf t source target before = .ok next) :
    (∃ link copied, before = .symlink link ∧ t.readLink source = .ok copied ∧
      t.symlink copied target = .ok next) ∨
    (before = .file ∧ t.copyFile source target = .ok next) := by
  cases before with
  | symlink link =>
    obtain ⟨copied, hread, hcopy⟩ := bind_eq_ok h
    exact .inl ⟨link, copied, rfl, operate_eq_ok hread, operate_eq_ok hcopy⟩
  | file => exact .inr ⟨rfl, operate_eq_ok h⟩
  | directory => cases h
  | special => cases h

/-- An entry that is not there is left out. Another is checked and copied, once its directory is
made. -/
theorem copyEntry_cases {cur next : FileTree String} {root destination e : List String}
    (h : copyEntry root destination cur e = .ok next) :
    (cur.lstat (root ++ e) = .error .notFound ∧ next = cur) ∨
    ∃ metadata made, cur.lstat (root ++ e) = .ok metadata ∧
      cur.createDirAll (destination ++ e).dropLast = .ok made ∧
      confine made root (root ++ e) metadata = .ok () ∧
      copyLeaf made (root ++ e) (destination ++ e) metadata = .ok next := by
  unfold copyEntry at h
  dsimp only at h
  split at h
  · rename_i hmissing
    cases h
    exact .inl ⟨hmissing, rfl⟩
  · cases h
  · rename_i metadata hmetadata
    obtain ⟨-, -, hrest⟩ := bind_eq_ok h
    obtain ⟨made, hmade, hrest⟩ := bind_eq_ok hrest
    obtain ⟨⟨⟩, hconfined, hcopied⟩ := bind_eq_ok hrest
    exact .inr ⟨metadata, made, hmetadata, operate_eq_ok hmade, hconfined, hcopied⟩

/-- Entries are copied one after the other. -/
theorem copyEntries_append {root destination : List String} {cur : FileTree String}
    {xs ys : List (List String)} :
    copyEntries root destination cur (xs ++ ys) =
      (copyEntries root destination cur xs).bind fun next =>
        copyEntries root destination next ys := by
  induction xs generalizing cur with
  | nil => rfl
  | cons e rest ih =>
    rw [List.cons_append, copyEntries, copyEntries]
    cases copyEntry root destination cur e with
    | error e => rfl
    | ok next => exact ih

/-! ### What holds between the entries -/

section Copying

variable {t cur : FileTree String} {root destination : List String} {done : List (List String)}

/-- Beside the destination only directories on the way to it are new. -/
def Beside (t cur : FileTree String) (destination : List String) : Prop :=
  ∀ q, ¬ destination <+: q → cur.entry q = t.entry q ∨
    cur.entry q = some .directory ∧ t.entry q = none ∧ q <+: destination

/-- How the tree stands to the one at the start, when these entries were visited. -/
structure Copying (t cur : FileTree String) (root destination : List String) (done : List (List String)) :
    Prop where
  /-- What is outside the destination is as it was. -/
  beside : Beside t cur destination
  /-- The destination is there. -/
  directories : ∀ q, q <+: destination → cur.entry q = some .directory
  /-- Below it are directories above the entries, and the entries as they are in the worktree. -/
  below : ∀ place entry, cur.entry (destination ++ place) = some entry →
    entry = .directory ∧ (place = [] ∨ ∃ e ∈ done, place <+: e ∧ place ≠ e) ∨
    entry ≠ .directory ∧ place ∈ done ∧
      (t.Open (root ++ place) → t.entry (root ++ place) = some entry)
  /-- The links of the worktree are there. -/
  links : ∀ place ∈ done, ∀ target, t.entry (root ++ place) = some (.symlink target) →
    cur.entry (destination ++ place) = some (.symlink target)

/-- The worktree and the destination are apart. -/
structure Apart (root destination : List String) : Prop where
  /-- The destination is outside the worktree. -/
  outside : ¬ root <+: destination
  /-- The worktree is outside the destination. -/
  around : ¬ destination <+: root

/-- No place of the worktree is inside its copy. -/
theorem Apart.not_inside (h : Apart root destination) (place : List String) :
    ¬ destination <+: root ++ place := by
  intro hlead
  obtain hbelow | habove := List.prefix_or_prefix_of_prefix hlead (List.prefix_append root place)
  · exact h.around hbelow
  · exact h.outside habove

/-- A longer list is no prefix of a shorter one. -/
theorem not_prefix_of_append {a b : List String} (hb : b ≠ []) : ¬ a ++ b <+: a := by
  intro hlead
  have hlength := hlead.length_le
  have hpositive := List.length_pos_of_ne_nil hb
  rw [List.length_append] at hlength
  omega

/-- The worktree does not change. -/
theorem Beside.worktree (h : Beside t cur destination) (hapart : Apart root destination)
    (place : List String) : cur.entry (root ++ place) = t.entry (root ++ place) := by
  obtain hsame | ⟨-, -, hlead⟩ := h _ (hapart.not_inside place)
  · exact hsame
  · exact absurd ((List.prefix_append root place).trans hlead) hapart.outside

/-- Making the copy closes and opens no way in the worktree. -/
theorem Beside.open_iff (h : Beside t cur destination) (hapart : Apart root destination)
    (place : List String) : cur.Open (root ++ place) ↔ t.Open (root ++ place) := by
  refine forall_congr' fun q => forall_congr' fun n => forall_congr' fun hq => ?_
  have hnot : ¬ destination <+: q := fun hlead =>
    hapart.not_inside place (hlead.trans ((List.prefix_append q [n]).trans hq))
  obtain hsame | ⟨hdirectory, hnone, -⟩ := h q hnot
  · rw [hsame]
  · simp [hdirectory, hnone]

/-- Where the way is open, what is found in the worktree is what was there at the start. -/
theorem Beside.lstat (h : Beside t cur destination) (hapart : Apart root destination)
    {place : List String}
    (hopen : t.Open (root ++ place)) : cur.lstat (root ++ place) = t.lstat (root ++ place) := by
  rw [FileTree.lstat_eq ((h.open_iff hapart place).mpr hopen), FileTree.lstat_eq hopen,
    h.worktree hapart]

/-- Neither of two entries is below the other. -/
def Unrelated (a b : List String) : Prop := ¬ a <+: b ∧ ¬ b <+: a

/-- The destination is not there, or an empty directory, and so is what it is in. -/
structure Vacant (t : FileTree String) (destination : List String) : Prop where
  /-- No link or file is on the way. -/
  way : ∀ q, q <+: destination → t.entry q = none ∨ t.entry q = some .directory
  /-- Nothing is in it. -/
  empty : ∀ place, place ≠ [] → t.entry (destination ++ place) = none

/-- Nothing is copied at first. -/
theorem copying_of_vacant (h : Vacant t destination)
    (hmade : t.createDirAll destination = .ok cur) :
    Copying t cur root destination [] := by
  obtain ⟨made, hok, hentries⟩ := FileTree.createDirAll_spec h.way
  obtain rfl : made = cur := by simpa [hok] using hmade
  refine ⟨fun q hq => ?_, fun q hq => by rw [hentries, if_pos hq], fun place entry hentry => ?_,
    by simp⟩
  · rw [hentries]
    split
    · rename_i hlead
      obtain hnone | hdirectory := h.way q hlead
      · exact .inr ⟨rfl, hnone, hlead⟩
      · exact .inl hdirectory.symm
    · exact .inl rfl
  · by_cases hplace : place = []
    · subst hplace
      rw [List.append_nil, hentries, if_pos (List.prefix_refl _)] at hentry
      exact .inl ⟨by simpa using hentry.symm, .inl rfl⟩
    · rw [hentries, if_neg (not_prefix_of_append hplace), h.empty place hplace] at hentry
      cases hentry

namespace Copying

variable {e : List String}

/-- The directories of an entry can be made. -/
theorem make (h : Copying t cur root destination done) (he : e ≠ [])
    (hdone : ∀ d ∈ done, ¬ d <+: e) :
    ∃ made, cur.createDirAll (destination ++ e).dropLast = .ok made ∧
      ∀ q, made.entry q =
        if q <+: destination ++ e.dropLast then some .directory else cur.entry q := by
  rw [List.dropLast_append_of_ne_nil he]
  refine FileTree.createDirAll_spec fun q hq => ?_
  obtain habove | ⟨a, rfl⟩ := List.prefix_or_prefix_of_prefix hq (List.prefix_append destination _)
  · exact .inr (h.directories q habove)
  · cases hentry : cur.entry (destination ++ a) with
    | none => exact .inl rfl
    | some entry =>
      obtain ⟨rfl, -⟩ | ⟨-, hvisited, -⟩ := h.below a entry hentry
      · exact .inr rfl
      · have ha : a <+: e.dropLast := (List.prefix_append_right_inj destination).mp hq
        have hinit : e.dropLast <+: e := List.dropLast_prefix e
        exact absurd (ha.trans hinit) (hdone a hvisited)

/-- Making the directory of an entry changes nothing outside the copy. -/
theorem beside_of_make {made : FileTree String} (h : Copying t cur root destination done)
    (hmade : ∀ q, made.entry q =
      if q <+: destination ++ e.dropLast then some .directory else cur.entry q) :
    Beside t made destination := by
  intro q hq
  have hsame : made.entry q = cur.entry q := by
    rw [hmade]
    split
    · rename_i hlead
      obtain habove | hbelow :=
        List.prefix_or_prefix_of_prefix hlead (List.prefix_append destination _)
      · rw [h.directories q habove]
      · exact absurd hbelow hq
    · rfl
  rw [hsame]
  exact h.beside q hq

/-- An entry is placed in its directory. -/
theorem place {made next : FileTree String} {entry : Entry String}
    (h : Copying t cur root destination done)
    (he : e ≠ []) (hdone : ∀ d ∈ done, Unrelated d e)
    (hmade : ∀ q, made.entry q =
      if q <+: destination ++ e.dropLast then some .directory else cur.entry q)
    (hnext : ∀ q, next.entry q = if q = destination ++ e then some entry else made.entry q)
    (hentry : entry ≠ .directory) (hsame : t.Open (root ++ e) → t.entry (root ++ e) = some entry) :
    Copying t next root destination (e :: done) where
  beside := by
    intro q hq
    have hne : q ≠ destination ++ e := fun heq => hq ⟨e, heq.symm⟩
    rw [hnext, if_neg hne]
    exact h.beside_of_make hmade q hq
  directories := by
    intro q hq
    have hne : q ≠ destination ++ e := fun heq => not_prefix_of_append he (heq ▸ hq)
    rw [hnext, if_neg hne, hmade, if_pos (hq.trans (List.prefix_append destination _))]
  below := by
    intro p found hfound
    rw [hnext] at hfound
    split at hfound
    -- The entry itself.
    · rename_i heq
      obtain rfl : p = e := List.append_cancel_left heq
      obtain rfl : entry = found := by simpa using hfound
      exact .inr ⟨hentry, List.mem_cons_self, hsame⟩
    · rename_i hne
      rw [hmade] at hfound
      split at hfound
      -- A directory that was made on the way to the entry.
      · rename_i hlead
        have hp : p <+: e.dropLast := (List.prefix_append_right_inj destination).mp hlead
        have hinit : e.dropLast <+: e := List.dropLast_prefix e
        have hpe : p <+: e := hp.trans hinit
        refine .inl ⟨by simpa using hfound.symm, .inr ⟨e, List.mem_cons_self, hpe, ?_⟩⟩
        exact fun heq => hne (by rw [heq])
      -- What was there before.
      · obtain ⟨hdirectory, habove⟩ | ⟨hne, hp, horigin⟩ := h.below p found hfound
        · refine .inl ⟨hdirectory, habove.imp_right ?_⟩
          rintro ⟨d, hd, hpd⟩
          exact ⟨d, List.mem_cons_of_mem _ hd, hpd⟩
        · exact .inr ⟨hne, List.mem_cons_of_mem _ hp, horigin⟩
  links := by
    intro p hp target hlink
    -- The link is the entry itself, or was placed before and is not on the way to the entry.
    obtain rfl | hp := List.mem_cons.mp hp
    · have horigin := hsame (FileTree.open_of_entry (by simp [hlink]))
      rw [hnext, if_pos rfl, ← horigin, hlink]
    · have hunrelated := hdone p hp
      have hne : destination ++ p ≠ destination ++ e := fun heq =>
        hunrelated.1 (by rw [List.append_cancel_left heq])
      have hapart : ¬ destination ++ p <+: destination ++ e.dropLast := fun hlead => by
        have hp : p <+: e.dropLast := (List.prefix_append_right_inj destination).mp hlead
        have hinit : e.dropLast <+: e := List.dropLast_prefix e
        exact hunrelated.1 (hp.trans hinit)
      rw [hnext, if_neg hne, hmade, if_neg hapart]
      exact h.links p hp target hlink

/-- An entry that is not there is passed. -/
theorem pass (h : Copying t cur root destination done)
    (hmissing : ∀ target, t.entry (root ++ e) ≠ some (.symlink target)) :
    Copying t cur root destination (e :: done) where
  beside := h.beside
  directories := h.directories
  below := by
    intro p found hfound
    obtain ⟨hdirectory, habove⟩ | ⟨hne, hp, horigin⟩ := h.below p found hfound
    · refine .inl ⟨hdirectory, habove.imp_right ?_⟩
      rintro ⟨d, hd, hpd⟩
      exact ⟨d, List.mem_cons_of_mem _ hd, hpd⟩
    · exact .inr ⟨hne, List.mem_cons_of_mem _ hp, horigin⟩
  links := by
    intro p hp target hlink
    obtain rfl | hp := List.mem_cons.mp hp
    · exact absurd hlink (hmissing target)
    · exact h.links p hp target hlink

/-- What is copied is placed, as it is in the worktree. -/
theorem copyLeaf {made next : FileTree String} {metadata : Entry String}
    (h : Copying t cur root destination done) (hapart : Apart root destination)
    (he : e ≠ []) (hdone : ∀ d ∈ done, Unrelated d e)
    (hmade : ∀ q, made.entry q =
      if q <+: destination ++ e.dropLast then some .directory else cur.entry q)
    (hmetadata : cur.lstat (root ++ e) = .ok metadata)
    (hcopy : Worktree.copyLeaf made (root ++ e) (destination ++ e) metadata = .ok next) :
    Copying t next root destination (e :: done) := by
  have hbeside := h.beside_of_make hmade
  -- Nothing is there yet.
  have hnone : made.entry (destination ++ e) = none := by
    have hlonger : ¬ destination ++ e <+: destination ++ e.dropLast := fun hlead => by
      have hlength := ((List.prefix_append_right_inj destination).mp hlead).length_le
      have hpositive := List.length_pos_of_ne_nil he
      rw [List.length_dropLast] at hlength
      omega
    rw [hmade, if_neg hlonger]
    by_contra hsome
    obtain ⟨found, hfound⟩ := Option.ne_none_iff_exists'.mp hsome
    obtain ⟨-, hnil | ⟨d, hd, hlead, -⟩⟩ | ⟨-, hvisited, -⟩ := h.below e found hfound
    · exact he hnil
    · exact (hdone d hd).2 hlead
    · exact (hdone e hvisited).1 (List.prefix_refl e)
  have hopen : made.Open (destination ++ e) := by
    intro q n hq
    obtain ⟨rest, hrest⟩ := hq
    have habove : q <+: destination ++ e.dropLast := by
      refine ⟨(n :: rest).dropLast, ?_⟩
      rw [← List.dropLast_append_of_ne_nil he, ← hrest, List.append_assoc, List.singleton_append]
      rw [List.dropLast_append_of_ne_nil (List.cons_ne_nil n rest)]
    exact .inr (by rw [hmade, if_pos habove])
  -- What is found over an open way is what was there at the start.
  have horigin : t.Open (root ++ e) → t.entry (root ++ e) = some metadata := by
    intro hway
    rw [h.beside.lstat hapart hway, FileTree.lstat_eq hway] at hmetadata
    cases hentry : t.entry (root ++ e) with
    | none => simp [hentry] at hmetadata
    | some found => simpa [hentry] using hmetadata
  obtain ⟨link, copied, rfl, hread, hsymlink⟩ | ⟨rfl, hfile⟩ := copyLeaf_cases hcopy
  · refine h.place he hdone hmade (FileTree.symlink_spec hopen hsymlink) (by simp) fun hway => ?_
    have hlink := horigin hway
    have hmadeLink : made.entry (root ++ e) = some (.symlink link) := by
      rw [hbeside.worktree hapart, hlink]
    rw [FileTree.readLink_of_symlink hmadeLink] at hread
    cases hread
    exact hlink
  · exact h.place he hdone hmade (FileTree.copyFile_spec hopen hnone hfile) (by simp) horigin

/-- An entry is copied to where it belongs. -/
theorem copyEntry {next : FileTree String} (h : Copying t cur root destination done)
    (hapart : Apart root destination) (he : e ≠ []) (hdone : ∀ d ∈ done, Unrelated d e)
    (hcopy : Worktree.copyEntry root destination cur e = .ok next) :
    Copying t next root destination (e :: done) := by
  obtain ⟨hmissing, rfl⟩ | ⟨metadata, made, hmetadata, hmade, -, hcopied⟩ := copyEntry_cases hcopy
  · refine h.pass fun target hlink => ?_
    have hway := FileTree.open_of_entry (t := t) (p := root ++ e) (by simp [hlink])
    rw [h.beside.lstat hapart hway, FileTree.lstat_eq hway, hlink] at hmissing
    cases hmissing
  · obtain ⟨made', hok, hentries⟩ := h.make he fun d hd => (hdone d hd).1
    obtain rfl : made' = made := by simpa [hok] using hmade
    exact h.copyLeaf hapart he hdone hentries hmetadata hcopied

/-- So is each entry of a list. -/
theorem copyEntries {entries : List (List String)} {final : FileTree String}
    (h : Copying t cur root destination done) (hapart : Apart root destination)
    (hne : ∀ e ∈ entries, e ≠ []) (hdone : ∀ d ∈ done, ∀ e ∈ entries, Unrelated d e)
    (hunrelated : entries.Pairwise Unrelated)
    (hcopy : Worktree.copyEntries root destination cur entries = .ok final) :
    Copying t final root destination (entries.reverse ++ done) := by
  induction entries generalizing cur done with
  | nil =>
    cases hcopy
    exact h
  | cons e rest ih =>
    obtain ⟨next, hentry, hrest⟩ := bind_eq_ok hcopy
    obtain ⟨hfirst, hothers⟩ := List.pairwise_cons.mp hunrelated
    have hnext := h.copyEntry hapart (hne e List.mem_cons_self)
      (fun d hd => hdone d hd e List.mem_cons_self) hentry
    have hdoneNext : ∀ d ∈ e :: done, ∀ a ∈ rest, Unrelated d a := by
      intro d hd a ha
      obtain rfl | hd := List.mem_cons.mp hd
      · exact hfirst a ha
      · exact hdone d hd a (List.mem_cons_of_mem _ ha)
    have hfinal := ih hnext (fun a ha => hne a (List.mem_cons_of_mem _ ha)) hdoneNext hothers hrest
    rw [List.reverse_cons, List.append_assoc]
    exact hfinal

end Copying

end Copying

/-! ### Links of a snapshot -/

section Snapshot

variable {t final : FileTree String} {git : Git} {root destination : List String}

/-- What is tracked is what Git lists, but for the empty name. -/
theorem mem_tracked_iff {e : List String} : e ∈ git.tracked ↔ e ∈ git.cached ∧ e ≠ [] := by
  unfold Git.tracked
  rw [List.mem_insertionSort, List.mem_dedup, List.mem_filter]
  simp

/-- No tracked entry is inside another, where that holds of what Git lists. -/
theorem pairwise_unrelated_tracked
    (hflat : ∀ a ∈ git.cached, ∀ b ∈ git.cached, a ≠ [] → a <+: b → a = b) :
    git.tracked.Pairwise Unrelated := by
  have hnodup : git.tracked.Nodup :=
    (List.perm_insertionSort _ _).nodup_iff.mpr (List.nodup_dedup _)
  refine hnodup.imp_of_mem fun {a b} ha hb hne => ?_
  rw [mem_tracked_iff] at ha hb
  refine ⟨fun hlead => hne (hflat a ha.1 b hb.1 ha.2 hlead), fun hlead => ?_⟩
  exact hne (hflat b hb.1 a ha.1 hb.2 hlead).symm

/-- On a portable way to an entry no directory is a link. -/
theorem unlinked_of_portable {worktree : List String → Option (Entry String)}
    {copied : List String → Prop}
    {place path result : List String}
    (hportable : Portable worktree copied place (path.map .normal) result)
    (hcopied : ∀ a n, a ++ [n] <+: path → a ≠ [] → ¬ copied (place ++ a))
    (a : List String) (n : String) (hlead : a ++ [n] <+: path) (ha : a ≠ [])
    (target : Target String) :
    worktree (place ++ a) ≠ some (.symlink target) := by
  induction path generalizing place a with
  | nil =>
    have hnil := List.prefix_nil.mp hlead
    simp at hnil
  | cons m rest ih =>
    obtain ⟨k, a, rfl⟩ := List.exists_cons_of_ne_nil ha
    obtain ⟨rfl, hrest⟩ : k = m ∧ a ++ [n] <+: rest := by simpa using hlead
    have hshift : place ++ k :: a = place ++ [k] ++ a := by simp
    rw [hshift]
    cases hportable with
    | name unlinked hnext =>
      by_cases hnil : a = []
      · rw [hnil, List.append_nil]
        exact unlinked target
      · refine ih hnext (fun b m hb hne => ?_) a hrest hnil
        have hlonger := hcopied (k :: b) m (by simpa using hb) (by simp)
        rwa [← List.append_cons]
    | link _ tracked _ _ _ =>
      -- A tracked link has no entry below it.
      obtain ⟨after, hafter⟩ := hrest
      have hbelow : [k] ++ [(a ++ [n]).head (by simp)] <+: k :: rest := by
        refine ⟨(a ++ [n]).tail ++ after, ?_⟩
        rw [← hafter]
        cases a <;> simp
      exact absurd tracked (hcopied [k] _ hbelow (by simp))

/-- The tree in which a link is checked, and the tree after the snapshot. -/
theorem exists_made (hvacant : Vacant t destination) (hapart : Apart root destination)
    (hflat : ∀ a ∈ git.cached, ∀ b ∈ git.cached, a ≠ [] → a <+: b → a = b)
    (hsnapshot : snapshot t git root destination = .ok final) {e : List String}
    {target : Target String}
    (he : e ∈ git.tracked) (hlink : t.entry (root ++ e) = some (.symlink target)) :
    Copying t final root destination git.tracked.reverse ∧
      ∃ made resolved, Beside t made destination ∧
        resolve made ((root ++ e).map .normal) = .ok resolved ∧ root <+: resolved := by
  obtain ⟨⟨⟩, -, hrest⟩ := bind_eq_ok hsnapshot
  obtain ⟨start, hstart, hcopied⟩ := bind_eq_ok hrest
  have hinitial : Copying t start root destination [] :=
    copying_of_vacant hvacant (operate_eq_ok hstart)
  have hne : ∀ a ∈ git.tracked, a ≠ [] := fun a ha => (mem_tracked_iff.mp ha).2
  have hunrelated := pairwise_unrelated_tracked hflat
  have hfinal := hinitial.copyEntries hapart hne (by simp) hunrelated hcopied
  rw [List.append_nil] at hfinal
  refine ⟨hfinal, ?_⟩
  -- The loop comes to the link between two parts of the entries.
  obtain ⟨before, after, hsplit⟩ := List.append_of_mem he
  rw [hsplit, copyEntries_append] at hcopied
  rw [hsplit] at hne hunrelated
  obtain ⟨cur, hbefore, hrest⟩ := bind_eq_ok hcopied
  obtain ⟨next, hentry, -⟩ := bind_eq_ok hrest
  obtain ⟨hpairs, -, hcross⟩ := List.pairwise_append.mp hunrelated
  have hcur := hinitial.copyEntries hapart (fun a ha => hne a (List.mem_append_left _ ha))
    (by simp) hpairs
    hbefore
  rw [List.append_nil] at hcur
  have hway : t.Open (root ++ e) := FileTree.open_of_entry (by simp [hlink])
  obtain ⟨hmissing, -⟩ | ⟨metadata, made, hmetadata, hmade, hconfined, -⟩ := copyEntry_cases hentry
  · rw [hcur.beside.lstat hapart hway, FileTree.lstat_eq hway, hlink] at hmissing
    cases hmissing
  · rw [hcur.beside.lstat hapart hway, FileTree.lstat_eq hway, hlink] at hmetadata
    obtain rfl : .symlink target = metadata := by simpa using hmetadata
    obtain ⟨made', hok, hentries⟩ := hcur.make (e := e) (hne e (by simp)) fun d hd =>
      (hcross d (List.mem_reverse.mp hd) e List.mem_cons_self).1
    obtain rfl : made' = made := by simpa [hok] using hmade
    obtain ⟨resolved, hresolved, hinside⟩ := confine_of_symlink hconfined
    exact ⟨made', resolved, hcur.beside_of_make hentries, hresolved, hinside⟩

/-- A directory with an entry in it can be entered. -/
theorem passable_of_entry {p a : List String} (hentry : t.entry (p ++ a) ≠ none) (ha : a ≠ []) :
    Passable t p := by
  have hdirectory := FileTree.directory_of_append ha hentry
  exact ⟨FileTree.open_of_entry (by simp [hdirectory]), by simp [hdirectory]⟩

/-- At the end the copy has all entries. -/
theorem copies_of_copying {made : FileTree String} {done : List (List String)}
    (hapart : Apart root destination)
    (hmade : Beside t made destination) (hfinal : Copying t final root destination done) :
    Copies made final root destination (· ∈ done) where
  directories := hfinal.directories
  same := by
    intro p entry hopen hentry hne
    obtain ⟨hdirectory, -⟩ | ⟨-, -, horigin⟩ := hfinal.below p entry hentry
    · exact absurd hdirectory hne
    · rw [hmade.worktree hapart]
      exact horigin ((hmade.open_iff hapart p).mp hopen)
  links := by
    intro p target hp hentry
    rw [hmade.worktree hapart] at hentry
    exact hfinal.links p hp target hentry

/-- The worktree is a copy of itself. -/
theorem copies_of_beside {made after : FileTree String} {copied : List String → Prop}
    (hapart : Apart root destination) (hmade : Beside t made destination)
    (hafter : Beside t after destination) (hroot : after.entry root = some .directory) :
    Copies made after root root copied := by
  have hsame : ∀ p, after.entry (root ++ p) = made.entry (root ++ p) := fun p => by
    rw [hafter.worktree hapart, hmade.worktree hapart]
  refine ⟨fun q hq => ?_, fun p entry _ hentry _ => by rw [← hsame, hentry],
    fun p target _ hentry => by rw [hsame, hentry]⟩
  obtain ⟨rest, rfl⟩ := hq
  by_cases hrest : rest = []
  · rwa [hrest, List.append_nil] at hroot
  · exact FileTree.directory_of_append hrest (by simp [hroot])

/-- A worktree that has an entry and a free place outside of it are apart. -/
theorem apart_of_entry {e : List String} (hvacant : Vacant t destination)
    (houtside : ¬ root <+: destination)
    (hentry : t.entry (root ++ e) ≠ none) : Apart root destination := by
  refine ⟨houtside, fun haround => ?_⟩
  obtain ⟨rest, rfl⟩ := haround
  have hrest : rest ≠ [] := fun hnil => houtside (by rw [hnil, List.append_nil])
  have hnone := hvacant.empty rest hrest
  exact hentry (FileTree.none_below (List.prefix_append _ e) hnone)

/-- What is found at a tracked entry over a portable way is its own entry. -/
theorem entry_of_portable {e place : List String} {entry : Entry String}
    (hflat : ∀ a ∈ git.cached, ∀ b ∈ git.cached, a ≠ [] → a <+: b → a = b)
    (hsnapshot : snapshot t git root destination = .ok final) (he : e ∈ git.tracked)
    (hlstat : t.lstat (root ++ e) = .ok entry)
    (hportable : Portable (fun p => t.entry (root ++ p)) (· ∈ git.tracked) []
      (e.map .normal) place) :
    t.entry (root ++ e) = some entry := by
  obtain ⟨⟨⟩, hvalid, -⟩ := bind_eq_ok hsnapshot
  obtain ⟨top, htop, hrest⟩ := bind_eq_ok hvalid
  obtain ⟨⟨⟩, hroot, -⟩ := bind_eq_ok hrest
  -- The root of the worktree is resolved, so no link is on the way to it.
  have hunlinked : Unlinked t root := by
    rw [← ensure_eq_ok hroot]
    exact unlinked_of_resolve htop
  refine FileTree.entry_of_lstat (fun q n hq target => ?_) hlstat
  have hway : q <+: root ++ e := (List.prefix_append q [n]).trans hq
  obtain habove | ⟨a, rfl⟩ := List.prefix_or_prefix_of_prefix hway (List.prefix_append root e)
  · exact hunlinked q habove target
  · by_cases ha : a = []
    · rw [ha, List.append_nil]
      exact hunlinked root (List.prefix_refl root) target
    · rw [List.append_assoc] at hq
      have hlead := (List.prefix_append_right_inj root).mp hq
      refine unlinked_of_portable hportable (fun b m hb hne hcopied => ?_) a n hlead ha target
      -- No tracked entry is above another.
      rw [List.nil_append, mem_tracked_iff] at hcopied
      have heq := hflat b hcopied.1 e (mem_tracked_iff.mp he).1 hne
        ((List.prefix_append b [m]).trans hb)
      exact not_prefix_of_append (List.cons_ne_nil m []) (heq ▸ hb)

/-- A link that a snapshot copies over a portable way leads to the counterpart of what it leads to
in the worktree. -/
theorem snapshot_confines (hvacant : Vacant t destination) (houtside : ¬ root <+: destination)
    (hflat : ∀ a ∈ git.cached, ∀ b ∈ git.cached, a ≠ [] → a <+: b → a = b)
    (hsnapshot : snapshot t git root destination = .ok final) {e place : List String}
    {target : Target String}
    (he : e ∈ git.tracked) (hlink : t.lstat (root ++ e) = .ok (.symlink target))
    (hportable : Portable (fun p => t.entry (root ++ p)) (· ∈ git.tracked) []
      (e.map .normal) place) :
    final.entry (destination ++ e) = some (.symlink target) ∧
      resolve t ((root ++ e).map .normal) = .ok (root ++ place) ∧
      resolve final ((destination ++ e).map .normal) = .ok (destination ++ place) := by
  have hentry := entry_of_portable hflat hsnapshot he hlink hportable
  have hsome : t.entry (root ++ e) ≠ none := by simp [hentry]
  have hne : e ≠ [] := (mem_tracked_iff.mp he).2
  have hapart := apart_of_entry hvacant houtside hsome
  obtain ⟨hfinal, made, resolved, hmade, hresolved, -⟩ :=
    exists_made hvacant hapart hflat hsnapshot he hentry
  have hworktree : (fun p => made.entry (root ++ p)) = fun p => t.entry (root ++ p) :=
    funext fun p => hmade.worktree hapart p
  have hroot : Passable made root :=
    passable_of_entry (a := e) (by rw [hmade.worktree hapart]; exact hsome) hne
  have htroot : t.entry root = some .directory := FileTree.directory_of_append hne hsome
  rw [← hworktree] at hportable
  have hcopies : Copies made final root destination (· ∈ git.tracked) := by
    simpa using copies_of_copying hapart hmade hfinal
  obtain ⟨hplace, hcopy⟩ := resolveLinks_copy hcopies hportable hroot hresolved
  have hself : Copies made t root root (· ∈ git.tracked) :=
    copies_of_beside hapart hmade (fun _ _ => .inl rfl) htroot
  obtain ⟨-, hlive⟩ := resolveLinks_copy hself hportable hroot hresolved
  refine ⟨hfinal.links e (List.mem_reverse.mpr he) target hentry, hlive, hcopy⟩

/-- A worktree `/p` with links: to a directory, to a file through that link, and to the file by its
absolute path. -/
def linkedTree : FileTree String :=
  .ofList
    [(["p"], .directory), (["p", "a"], .directory), (["p", "a", "x"], .file),
      (["p", "l"], .symlink ⟨false, [.normal "a"]⟩),
      (["p", "a", "m"], .symlink ⟨false, [.parent, .normal "l", .normal "x"]⟩),
      (["p", "b"], .symlink ⟨true, [.normal "p", .normal "a", .normal "x"]⟩)]
    (by decide)

/-- What Git says of it. -/
def linkedGit : Git := ⟨[.normal "p"], [], [["a", "m"], ["a", "x"], ["b"], ["l"]]⟩

/-- The place of the copy is free. -/
theorem vacant_linkedTree : Vacant linkedTree ["d"] := by
  refine ⟨fun q hq => ?_, fun place hplace => ?_⟩
  · obtain rfl | hnil := @List.prefix_concat_iff _ q [] "d" |>.mp hq
    · exact .inl (by decide)
    · rw [List.prefix_nil.mp hnil]
      exact .inr rfl
  · obtain ⟨n, rest, rfl⟩ := List.exists_cons_of_ne_nil hplace
    simp [linkedTree, FileTree.ofList, List.lookup_cons]

/-- The tracked entries are not inside each other. -/
theorem flat_linkedGit :
    ∀ a ∈ linkedGit.cached, ∀ b ∈ linkedGit.cached, a ≠ [] → a <+: b → a = b := by
  decide

/-- Its snapshot succeeds. -/
theorem exists_snapshot_linkedTree :
    ∃ final, snapshot linkedTree linkedGit ["p"] ["d"] = .ok final := by
  have hok : (snapshot linkedTree linkedGit ["p"] ["d"]).isOk = true := by decide +kernel
  cases hsnapshot : snapshot linkedTree linkedGit ["p"] ["d"] with
  | error e =>
    rw [hsnapshot] at hok
    cases hok
  | ok final => exact ⟨final, rfl⟩

/-- No link is on the way to the file. -/
theorem unlinked_linkedTree :
    (∀ target, linkedTree.entry ["p", "a"] ≠ some (.symlink target)) ∧
      ∀ target, linkedTree.entry ["p", "a", "x"] ≠ some (.symlink target) := by
  simp [linkedTree, FileTree.ofList, List.lookup_cons]

/-- The link through a linked directory leads to the file of the snapshot. -/
theorem snapshot_confines_chain : ∃ final, snapshot linkedTree linkedGit ["p"] ["d"] = .ok final ∧
    resolve final [.normal "d", .normal "a", .normal "m"] = .ok ["d", "a", "x"] := by
  obtain ⟨final, hsnapshot⟩ := exists_snapshot_linkedTree
  obtain ⟨ha, hx⟩ := unlinked_linkedTree
  have hl : linkedTree.entry ["p", "l"] = some (.symlink ⟨false, [.normal "a"]⟩) := rfl
  have hm : linkedTree.entry ["p", "a", "m"] =
      some (.symlink ⟨false, [.parent, .normal "l", .normal "x"]⟩) := rfl
  have hinside : Portable (fun p => linkedTree.entry (["p"] ++ p)) (· ∈ linkedGit.tracked) []
      [.normal "l", .normal "x"] ["a", "x"] :=
    .link hl (by decide +kernel) rfl (.name ha (.done _)) (.name hx (.done _))
  have hportable : Portable (fun p => linkedTree.entry (["p"] ++ p)) (· ∈ linkedGit.tracked) []
      (["a", "m"].map .normal) ["a", "x"] :=
    .name ha (.link hm (by decide +kernel) rfl (@Portable.parent _ _ [] "a" _ _ hinside) (.done _))
  have hlink : linkedTree.lstat (["p"] ++ ["a", "m"]) =
      .ok (.symlink ⟨false, [.parent, .normal "l", .normal "x"]⟩) := by decide +kernel
  exact ⟨final, hsnapshot, (snapshot_confines vacant_linkedTree (by decide) flat_linkedGit hsnapshot
    (by decide +kernel) hlink hportable).2.2⟩

/-- A link with the absolute path of what is in the worktree leads back there. -/
theorem absolute_link_reaches_back (hvacant : Vacant t destination)
    (houtside : ¬ root <+: destination)
    (hflat : ∀ a ∈ git.cached, ∀ b ∈ git.cached, a ≠ [] → a <+: b → a = b)
    (hsnapshot : snapshot t git root destination = .ok final) {e path place : List String}
    (he : e ∈ git.tracked)
    (hlink : t.entry (root ++ e) = some (.symlink ⟨true, (root ++ path).map .normal⟩))
    (hportable : Portable (fun p => t.entry (root ++ p)) (fun _ => True) []
      (path.map .normal) place) :
    resolve final ((destination ++ e).map .normal) = .ok (root ++ place) ∧
      ¬ destination <+: root ++ place := by
  have hsome : t.entry (root ++ e) ≠ none := by simp [hlink]
  have hne : e ≠ [] := (mem_tracked_iff.mp he).2
  have hapart := apart_of_entry hvacant houtside hsome
  obtain ⟨hfinal, made, resolved, hmade, hresolved, -⟩ :=
    exists_made hvacant hapart hflat hsnapshot he hlink
  have hcopied := hfinal.links e (List.mem_reverse.mpr he) _ hlink
  have hworktree : (fun p => made.entry (root ++ p)) = fun p => t.entry (root ++ p) :=
    funext fun p => hmade.worktree hapart p
  have hroot : Passable made root :=
    passable_of_entry (a := e) (by rw [hmade.worktree hapart]; exact hsome) hne
  have hfroot : final.entry root = some .directory :=
    FileTree.directory_of_append hne (by rw [hfinal.beside.worktree hapart]; exact hsome)
  have hcopies : Copies made final root root (fun _ => True) :=
    copies_of_beside hapart hmade hfinal.beside hfroot
  -- Both trees follow the same target from the root.
  obtain ⟨a, n, rfl⟩ := (e.eq_nil_or_concat').resolve_left hne
  rw [← hmade.worktree hapart] at hlink
  rw [← List.append_assoc] at hlink hcopied hresolved ⊢
  have hmadeWay := passable_of_entry (t := made) (p := root ++ a) (a := [n])
    (by rw [hlink]; exact Option.some_ne_none _) (by simp)
  have hfinalWay := passable_of_entry (t := final) (p := destination ++ a) (a := [n])
    (by rw [hcopied]; exact Option.some_ne_none _) (by simp)
  rw [resolve_link hmadeWay hlink] at hresolved
  rw [resolve_link hfinalWay hcopied]
  rw [← hworktree] at hportable
  obtain ⟨-, hreached⟩ := resolveLinks_copy hcopies hportable hroot hresolved
  exact ⟨hreached, hapart.not_inside place⟩

/-- Not every link that is copied leads to the counterpart of what it leads to in the worktree. -/
theorem snapshot_not_confined : ¬ ∀ (t final : FileTree String) (git : Git)
    (root destination e : List String) (target : Target String),
    Vacant t destination → ¬ root <+: destination →
      (∀ a ∈ git.cached, ∀ b ∈ git.cached, a ≠ [] → a <+: b → a = b) →
      snapshot t git root destination = .ok final → e ∈ git.tracked →
      t.lstat (root ++ e) = .ok (.symlink target) →
      ∃ place, resolve t ((root ++ e).map .normal) = .ok (root ++ place) ∧
        resolve final ((destination ++ e).map .normal) = .ok (destination ++ place) := by
  intro hconfined
  obtain ⟨final, hsnapshot⟩ := exists_snapshot_linkedTree
  have htracked : ["b"] ∈ linkedGit.tracked := by decide +kernel
  obtain ⟨place, -, hinside⟩ := hconfined linkedTree final linkedGit ["p"] ["d"] ["b"]
    ⟨true, [.normal "p", .normal "a", .normal "x"]⟩ vacant_linkedTree (by decide)
      flat_linkedGit hsnapshot
    htracked (by decide +kernel)
  have hportable : Portable (fun p => linkedTree.entry (["p"] ++ p)) (fun _ => True) []
      (["a", "x"].map .normal) ["a", "x"] :=
    .name unlinked_linkedTree.1 (.name unlinked_linkedTree.2 (.done _))
  obtain ⟨hreached, houtside⟩ :=
    absolute_link_reaches_back vacant_linkedTree (by decide) flat_linkedGit
    hsnapshot htracked rfl hportable
  rw [hreached] at hinside
  refine houtside ⟨place, ?_⟩
  simpa using hinside.symm

end Snapshot

end DaemonFramework.LocalBuild.Worktree
