import DaemonFramework.Symlinks

/-!
# Resolved paths

`resolve` of `shelllist-local-build/src/snapshot.rs`, which is `canonicalize` for paths that need
not be there: the parts of a path are followed one by one, and a link is replaced by what its target
resolves to. Its depth is bounded by 40.

What is resolved meets no link (`unlinked_of_resolve`). `Portable` is a way through a worktree that
can be followed in a copy of it as well: its links are copied, their targets are relative, and no
part of it leaves the worktree. `resolveLinks_copy` compares the two, for a tree that agrees with
the worktree as far as `Copies` says.
-/

namespace DaemonFramework.LocalBuild.Worktree

open Symlinks
open Worklist (bind_eq_ok)

/-- Why a snapshot is refused. -/
inductive Refusal where
  /-- A check fails. -/
  | ensure (text : String)
  /-- An operation fails, with the text of its context. -/
  | operation (context : String) (error : Errno)
deriving DecidableEq

/-- The text of a path. -/
def displayed (path : List String) : String := "/" ++ "/".intercalate path

/-- The text of a part of a path. -/
def displayedComponent : Component String → String
  | .parent => ".."
  | .current => "."
  | .normal name => name

/-- The loop of `resolve_links`, with what resolves the path of a link's target. -/
def followComponents (t : FileTree String)
    (resolveTarget : List (Component String) → Except Refusal (List String)) :
    List String → List (Component String) → Except Refusal (List String)
  | resolved, [] => .ok resolved
  | resolved, .parent :: rest => followComponents t resolveTarget resolved.dropLast rest
  | resolved, .current :: rest => followComponents t resolveTarget resolved rest
  | resolved, .normal name :: rest =>
    match t.readLink (resolved ++ [name]) with
    | .ok target => do
      -- A target is joined to the directory of the link, and an absolute one replaces it.
      let start := if target.absolute then [] else resolved.map .normal
      let resolved ← resolveTarget (start ++ target.components)
      followComponents t resolveTarget resolved rest
    | .error .notFound => followComponents t resolveTarget (resolved ++ [name]) rest
    | .error .invalidInput => followComponents t resolveTarget (resolved ++ [name]) rest
    | .error e => .error (.operation s!"resolve {displayed (resolved ++ [name])}" e)

/-- `resolve_links`, with the depth that is left. -/
def resolveLinks (t : FileTree String) : ℕ → List (Component String) → Except Refusal (List String)
  | 0, path =>
    .error (.ensure s!"too many symlinks resolving {displayed (path.map displayedComponent)}")
  | depth + 1, path => followComponents t (resolveLinks t depth) [] path

/-- `resolve`, of an absolute path. -/
def resolve (t : FileTree String) (path : List (Component String)) : Except Refusal (List String) :=
  resolveLinks t 40 path

/-- A resolution with one link more follows its targets with the links that are left. -/
theorem resolveLinks_succ {t : FileTree String} {depth : ℕ} {path : List (Component String)} :
    resolveLinks t (depth + 1) path = followComponents t (resolveLinks t depth) [] path := rfl

/-! ### Results meet no link -/

/-- Neither a path nor what it is in is a link. -/
def Unlinked (t : FileTree String) (p : List String) : Prop :=
  ∀ q, q <+: p → ∀ target, t.entry q ≠ some (.symlink target)

section Unlinked

variable {t : FileTree String} {resolveTarget : List (Component String) → Except Refusal (List String)}

/-- What is above an unlinked place is unlinked. -/
theorem Unlinked.restrict {p q : List String} (h : Unlinked t p) (hlead : q <+: p) : Unlinked t q :=
  fun a ha => h a (ha.trans hlead)

/-- A name below an unlinked place is unlinked, if it is no link itself. -/
theorem Unlinked.concat {p : List String} {name : String} (h : Unlinked t p)
    (hlast : ∀ target, t.entry (p ++ [name]) ≠ some (.symlink target)) :
    Unlinked t (p ++ [name]) := by
  intro q hq
  obtain rfl | hshorter := List.prefix_concat_iff.mp hq
  · exact hlast
  · exact h q hshorter

/-- The root is unlinked. -/
theorem unlinked_nil : Unlinked t [] := by
  intro q hq target
  rw [List.prefix_nil.mp hq, t.root]
  simp

/-- Following components from an unlinked place ends at one, if following targets does. -/
theorem unlinked_of_followComponents (htarget : ∀ path p, resolveTarget path = .ok p → Unlinked t p)
    {path : List (Component String)} {resolved p : List String} (hresolved : Unlinked t resolved)
    (h : followComponents t resolveTarget resolved path = .ok p) : Unlinked t p := by
  induction path generalizing resolved with
  | nil =>
    cases h
    exact hresolved
  | cons component rest ih =>
    cases component with
    | parent =>
      have hup : resolved.dropLast <+: resolved := List.dropLast_prefix resolved
      exact ih (hresolved.restrict hup) h
    | current => exact ih hresolved h
    | normal name =>
      -- What could not be read is not a link.
      have hlast : ∀ e, t.readLink (resolved ++ [name]) = .error e →
          ∀ target, t.entry (resolved ++ [name]) ≠ some (.symlink target) := by
        intro e herror target hentry
        rw [FileTree.readLink_of_symlink hentry] at herror
        cases herror
      unfold followComponents at h
      split at h
      · obtain ⟨between, hbetween, hrest⟩ := bind_eq_ok h
        exact ih (htarget _ _ hbetween) hrest
      · rename_i herror
        exact ih (hresolved.concat (hlast _ herror)) h
      · rename_i herror
        exact ih (hresolved.concat (hlast _ herror)) h
      · cases h

/-- A resolution ends at an unlinked place. -/
theorem unlinked_of_resolveLinks {depth : ℕ} {path : List (Component String)} {p : List String}
    (h : resolveLinks t depth path = .ok p) : Unlinked t p := by
  induction depth generalizing path p with
  | zero => cases h
  | succ depth ih => exact unlinked_of_followComponents (fun _ _ => ih) unlinked_nil h

/-- So does `resolve`. -/
theorem unlinked_of_resolve {path : List (Component String)} {p : List String}
    (h : resolve t path = .ok p) : Unlinked t p :=
  unlinked_of_resolveLinks h

end Unlinked

/-! ### A worktree and its copy -/

/-- The way over a path from a place in a worktree, with the entries of the worktree and what is
copied of it, can be followed in the copy and leads to a place in it. -/
inductive Portable (worktree : List String → Option (Entry String)) (copied : List String → Prop) :
    List String → List (Component String) → List String → Prop where
  | done (place : List String) : Portable worktree copied place [] place
  | current {place path result} (rest : Portable worktree copied place path result) :
      Portable worktree copied place (.current :: path) result
  /-- The root of the worktree is not left. -/
  | parent {place name path result} (rest : Portable worktree copied place path result) :
      Portable worktree copied (place ++ [name]) (.parent :: path) result
  /-- A name of what is not a link. -/
  | name {place name path result}
      (unlinked : ∀ target, worktree (place ++ [name]) ≠ some (.symlink target))
      (rest : Portable worktree copied (place ++ [name]) path result) :
      Portable worktree copied place (.normal name :: path) result
  /-- A name of a link, which is copied, with a relative target. -/
  | link {place name target between path result}
      (link : worktree (place ++ [name]) = some (.symlink target)) (tracked : copied (place ++ [name]))
      (relative : target.absolute = false)
      (inside : Portable worktree copied place target.components between)
      (rest : Portable worktree copied between path result) :
      Portable worktree copied place (.normal name :: path) result

/-- How a tree with a copy of a worktree at `destination` stands to a tree with the worktree. -/
structure Copies (live frozen : FileTree String) (root destination : List String)
    (copied : List String → Prop) : Prop where
  /-- The copy is in a directory. -/
  directories : ∀ q, q <+: destination → frozen.entry q = some .directory
  /-- What is in the copy and no directory is the same in the worktree. -/
  same : ∀ place entry, live.Open (root ++ place) → frozen.entry (destination ++ place) = some entry →
    entry ≠ .directory → live.entry (root ++ place) = some entry
  /-- The links are in the copy. -/
  links : ∀ place target, copied place → live.entry (root ++ place) = some (.symlink target) →
    frozen.entry (destination ++ place) = some (.symlink target)

/-- A path over directories, as far as it is there, to what is not a link. -/
structure Passable (t : FileTree String) (p : List String) : Prop where
  /-- What it is in. -/
  way : t.Open p
  /-- What it leads to. -/
  unlinked : ∀ target, t.entry p ≠ some (.symlink target)

section Passable

variable {t : FileTree String} {p : List String} {name : String}
  {resolveTarget : List (Component String) → Except Refusal (List String)}

/-- What is above a passable place is passable. -/
theorem Passable.restrict {q : List String} (h : Passable t p) (hlead : q <+: p) :
    Passable t q := by
  refine ⟨h.way.restrict hlead, fun target hentry => ?_⟩
  obtain ⟨rest, rfl⟩ := hlead
  cases rest with
  | nil => exact h.unlinked target (by rwa [List.append_nil])
  | cons n rest =>
    obtain hnone | hdirectory := h.way q n ⟨rest, by simp⟩
    · rw [hnone] at hentry
      cases hentry
    · rw [hdirectory] at hentry
      cases hentry

/-- The way below what is missing or a directory is open. -/
theorem open_concat (hway : t.Open p) (hp : t.entry p = none ∨ t.entry p = some .directory) :
    t.Open (p ++ [name]) := by
  intro q n hq
  obtain heq | hshorter := List.prefix_concat_iff.mp hq
  · obtain rfl : q = p := List.append_inj_left' heq rfl
    exact hp
  · exact hway q n hshorter

/-- The loop goes on where a name is not a link. -/
theorem followComponents_name {rest : List (Component String)} (h : Passable t (p ++ [name])) :
    followComponents t resolveTarget p (.normal name :: rest) =
      followComponents t resolveTarget (p ++ [name]) rest := by
  rw [followComponents, FileTree.readLink_of_ne h.way h.unlinked]
  by_cases hnone : t.entry (p ++ [name]) = none
  · rw [if_pos hnone]
  · rw [if_neg hnone]

/-- A loop that goes on has not met a file. -/
theorem open_of_followComponents {rest : List (Component String)} {result : List String}
    (hp : Passable t p)
    (h : followComponents t resolveTarget p (.normal name :: rest) = .ok result) :
    t.Open (p ++ [name]) := by
  by_cases hopen : t.entry p = none ∨ t.entry p = some .directory
  · exact open_concat hp.way hopen
  · rw [not_or] at hopen
    rw [followComponents, FileTree.readLink_of_blocked hp.way hopen.1 hopen.2 hp.unlinked] at h
    cases h

/-- The names of a passable place are followed one by one. -/
theorem followComponents_names {c q : List String} {rest : List (Component String)}
    (h : Passable t (c ++ q)) :
    followComponents t resolveTarget c (q.map .normal ++ rest) =
      followComponents t resolveTarget (c ++ q) rest := by
  induction q generalizing c with
  | nil => simp
  | cons n q ih =>
    have hshift : c ++ n :: q = c ++ [n] ++ q := by simp
    rw [hshift] at h ⊢
    rw [List.map_cons, List.cons_append, followComponents_name (h.restrict ⟨q, rfl⟩)]
    exact ih h

/-- A path that goes on from a passable one is followed from there. -/
theorem followComponents_from {rest : List (Component String)} (h : Passable t p) :
    followComponents t resolveTarget [] (p.map .normal ++ rest) =
      followComponents t resolveTarget p rest := by
  have hnames := @followComponents_names t resolveTarget [] p rest h
  rwa [List.nil_append] at hnames

/-- A link in a directory resolves to what its target does. -/
theorem resolve_link {target : Target String} (hp : Passable t p)
    (hlink : t.entry (p ++ [name]) = some (.symlink target)) :
    resolve t ((p ++ [name]).map .normal) =
      resolveLinks t 39 ((if target.absolute then [] else p.map .normal) ++ target.components) := by
  unfold resolve
  rw [List.map_append, resolveLinks_succ, followComponents_from hp, List.map_singleton,
    followComponents]
  rw [FileTree.readLink_of_symlink hlink]
  cases hresolved : resolveLinks t 39
      ((if target.absolute then [] else p.map .normal) ++ target.components) with
  | error e => simp [hresolved, bind, Except.bind]
  | ok resolved => simp [hresolved, bind, Except.bind, followComponents]

end Passable

section Copies

variable {live frozen : FileTree String} {root destination : List String} {copied : List String → Prop}

/-- A place that can be reached in the worktree can be reached in its copy. -/
theorem Copies.passable (h : Copies live frozen root destination copied) {place : List String}
    (hlive : Passable live (root ++ place)) : Passable frozen (destination ++ place) := by
  -- What is in the copy, other than a directory, is in the worktree at the same place.
  have hsame : ∀ q entry, q <+: place → frozen.entry (destination ++ q) = some entry →
      entry ≠ .directory → live.entry (root ++ q) = some entry := by
    intro q entry hq hentry hne
    have hlead : root ++ q <+: root ++ place := (List.prefix_append_right_inj root).mpr hq
    exact h.same q entry (hlive.way.restrict hlead) hentry hne
  refine ⟨fun q n hq => ?_, fun target hentry => ?_⟩
  -- On the way to the copy there are directories; within it the place is compared with the
  -- worktree.
  · by_cases habove : q <+: destination
    · exact .inr (h.directories q habove)
    · obtain ⟨a, rfl, ha⟩ : ∃ a, q = destination ++ a ∧ a ++ [n] <+: place := by
        have hq' : q <+: destination ++ place := (List.prefix_append q [n]).trans hq
        have hcompare := List.prefix_or_prefix_of_prefix hq' (List.prefix_append destination place)
        obtain ⟨a, rfl⟩ := hcompare.resolve_left habove
        rw [List.append_assoc] at hq
        exact ⟨a, rfl, (List.prefix_append_right_inj destination).mp hq⟩
      -- Something in the way in the copy would be in the way in the worktree.
      by_contra hblocked
      rw [not_or] at hblocked
      obtain ⟨entry, hentry⟩ := Option.ne_none_iff_exists'.mp hblocked.1
      have hne : entry ≠ .directory := fun hdirectory => hblocked.2 (by rw [hentry, hdirectory])
      have hsource := hsame a entry ((List.prefix_append a [n]).trans ha) hentry hne
      have hway := hlive.way (root ++ a) n (by
        rw [List.append_assoc]
        exact (List.prefix_append_right_inj root).mpr ha)
      obtain hnone | hdirectory := hway
      · rw [hnone] at hsource
        cases hsource
      · rw [hdirectory] at hsource
        cases hsource
        exact hne rfl
  · exact hlive.unlinked target (hsame place _ (List.prefix_refl _) hentry (by simp))

/-- What a portable way resolves to in the worktree, it resolves to in the copy. -/
theorem followComponents_copy (h : Copies live frozen root destination copied)
    {place result resolved : List String} {path : List (Component String)}
    (hportable : Portable (fun place => live.entry (root ++ place)) copied place path result)
    {depth : ℕ} (hplace : Passable live (root ++ place))
    (hlive : followComponents live (resolveLinks live depth) (root ++ place) path = .ok resolved) :
    resolved = root ++ result ∧ Passable live (root ++ result) ∧
      followComponents frozen (resolveLinks frozen depth) (destination ++ place) path =
        .ok (destination ++ result) := by
  induction hportable generalizing depth resolved with
  | done place =>
    cases hlive
    exact ⟨rfl, hplace, rfl⟩
  | current _ ih => exact ih hplace hlive
  | @parent place name path result _ ih =>
    have hup : ∀ base : List String, (base ++ (place ++ [name])).dropLast = base ++ place := by simp
    simp only [followComponents, hup] at hlive ⊢
    exact ih (hplace.restrict ((List.prefix_append_right_inj root).mpr ⟨[name], rfl⟩)) hlive
  | @name place name path result unlinked _ ih =>
    have hway := open_of_followComponents hplace hlive
    rw [List.append_assoc] at hway
    have hnext : Passable live (root ++ (place ++ [name])) := ⟨hway, unlinked⟩
    have hcopy := h.passable hnext
    rw [← List.append_assoc] at hnext hcopy
    rw [followComponents_name hnext] at hlive
    rw [followComponents_name hcopy]
    simp only [List.append_assoc] at hlive hnext ⊢
    exact ih hnext hlive
  | @link place name target between path result link tracked relative _ _ ihInside ihRest =>
    have hcopied := h.links _ target tracked link
    rw [← List.append_assoc] at hcopied link
    rw [followComponents, FileTree.readLink_of_symlink link] at hlive
    rw [followComponents, FileTree.readLink_of_symlink hcopied]
    obtain ⟨resolved', htarget, hrest⟩ := bind_eq_ok hlive
    -- The path of the target is followed anew, over the names of the directory first.
    cases depth with
    | zero => cases htarget
    | succ depth =>
      simp only [relative, Bool.false_eq_true, ↓reduceIte] at htarget ⊢
      rw [resolveLinks_succ, followComponents_from hplace] at htarget
      rw [resolveLinks_succ, followComponents_from (h.passable hplace)]
      obtain ⟨rfl, hbetween, hinside⟩ := ihInside hplace htarget
      obtain ⟨rfl, hresult, hfollowed⟩ := ihRest hbetween hrest
      refine ⟨rfl, hresult, ?_⟩
      rw [hinside]
      exact hfollowed

/-- A path of the worktree whose way is portable resolves in the copy to the counterpart of what it
resolves to in the worktree. -/
theorem resolveLinks_copy (h : Copies live frozen root destination copied) {depth : ℕ}
    {path result resolved : List String}
    (hportable : Portable (fun place => live.entry (root ++ place)) copied []
      (path.map .normal) result)
    (hroot : Passable live root)
    (hlive : resolveLinks live depth ((root ++ path).map .normal) = .ok resolved) :
    resolved = root ++ result ∧
      resolveLinks frozen depth ((destination ++ path).map .normal) =
        .ok (destination ++ result) := by
  have hplace : Passable live (root ++ []) := by rwa [List.append_nil]
  have hcopy : Passable frozen destination := by simpa using h.passable hplace
  cases depth with
  | zero => cases hlive
  | succ depth =>
    rw [List.map_append, resolveLinks_succ] at hlive ⊢
    rw [followComponents_from hroot] at hlive
    rw [followComponents_from hcopy]
    obtain ⟨hresolved, -, hfrozen⟩ :=
      followComponents_copy h hportable hplace (by rwa [List.append_nil])
    rw [List.append_nil] at hfrozen
    exact ⟨hresolved, hfrozen⟩

end Copies

end DaemonFramework.LocalBuild.Worktree
