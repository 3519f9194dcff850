import DaemonFramework.LocalBuild.Resolve
import Mathlib.Logic.Relation

/-!
# Canonical paths

What `resolve` of `shelllist-local-build/src/snapshot.rs` finds, against the resolution of paths
step by step: a name is entered, and a link is replaced by its target before the rest of the way
(`Step`). POSIX takes `.` and `..` only in a directory; what is missing is kept here as a directory
would be. `resolve` takes them anywhere, after a file as well, which is all it does otherwise
(`resolve_canonical`): its results meet no link, are found again from themselves, and are those of
POSIX where that has one.
-/

namespace DaemonFramework.LocalBuild.Worktree

open Symlinks
open Worklist (bind_eq_ok bind_eq_error)

variable {t : FileTree String}

/-- A directory is there, or nothing. -/
def Enterable (t : FileTree String) (directory : List String) : Prop :=
  t.entry directory = none ∨ t.entry directory = some .directory

/-- What a target is relative to. -/
def base (directory : List String) (target : Target String) : List String :=
  if target.absolute then [] else directory

/-- A place on the way, and the rest of the way. -/
abbrev Position := List String × List (Component String)

/-- One step of the resolution of a path. It is that of POSIX where it is `strict`; otherwise `.`
and `..` are taken anywhere. -/
inductive Step (t : FileTree String) (strict : Bool) : Position → Position → Prop where
  | current {directory rest} (henter : strict = true → Enterable t directory) :
    Step t strict (directory, .current :: rest) (directory, rest)
  | parent {directory rest} (henter : strict = true → Enterable t directory) :
    Step t strict (directory, .parent :: rest) (directory.dropLast, rest)
  | name {directory name rest} (henter : Enterable t directory)
    (hname : ∀ target, t.entry (directory ++ [name]) ≠ some (.symlink target)) :
    Step t strict (directory, .normal name :: rest) (directory ++ [name], rest)
  | link {directory name rest target} (hlink : t.entry (directory ++ [name]) = some (.symlink target)) :
    Step t strict (directory, .normal name :: rest)
      (base directory target, target.components ++ rest)

/-- Where the resolution of a path ends. -/
def Reaches (t : FileTree String) (strict : Bool) (directory : List String)
    (path : List (Component String)) (p : List String) : Prop :=
  Relation.ReflTransGen (Step t strict) (directory, path) (p, [])

/-- On the way over a path are links, in the target of a link each, that are this many. -/
inductive Nested (t : FileTree String) : ℕ → List String → List (Component String) → Prop where
  | zero (directory path) : Nested t 0 directory path
  | succ {depth directory before place name rest target} (hbefore : Reaches t false directory before place)
    (hlink : t.entry (place ++ [name]) = some (.symlink target))
    (hinside : Nested t depth (base place target) target.components) :
    Nested t (depth + 1) directory (before ++ .normal name :: rest)

/-! ### Steps -/

/-- There is one step at most from a position. -/
theorem Step.rightUnique : Relator.RightUnique (Step t false) := by
  intro s u v hu hv
  cases hu with
  | current => cases hv; rfl
  | parent => cases hv; rfl
  | name henter hname =>
    cases hv with
    | name => rfl
    | link hlink => exact absurd hlink (hname _)
  | link hlink =>
    cases hv with
    | name henter hname => exact absurd hlink (hname _)
    | link hlink' =>
      rw [hlink, Option.some.injEq, Entry.symlink.injEq] at hlink'
      rw [hlink']

/-- A step of the kernel is a step of the lenient walk. -/
theorem Step.lenient {s u : Position} (h : Step t true s u) : Step t false s u := by
  cases h with
  | current => exact .current nofun
  | parent => exact .parent nofun
  | name henter hname => exact .name henter hname
  | link hlink => exact .link hlink

/-- A step does not look at what is behind the rest of the way. -/
theorem Step.append {strict : Bool} {s u : Position} (h : Step t strict s u)
    (after : List (Component String)) : Step t strict (s.1, s.2 ++ after) (u.1, u.2 ++ after) := by
  cases h with
  | current henter => exact .current henter
  | parent henter => exact .parent henter
  | name henter hname => exact .name henter hname
  | link hlink =>
    rw [List.append_assoc]
    exact .link hlink

/-- A walk goes on with more components behind it. -/
theorem Reaches.append {strict : Bool} {directory p : List String} {path : List (Component String)}
    (h : Reaches t strict directory path p) (after : List (Component String)) :
    Relation.ReflTransGen (Step t strict) (directory, path ++ after) (p, after) := by
  have hbehind := Relation.ReflTransGen.lift (fun s : Position => (s.1, s.2 ++ after))
    (fun s u hs => Step.append (t := t) hs after) _ _ h
  exact hbehind

/-- Where the kernel gets, the lenient walk gets as well. -/
theorem Reaches.lenient {directory p : List String} {path : List (Component String)}
    (h : Reaches t true directory path p) : Reaches t false directory path p :=
  Relation.ReflTransGen.mono (fun _ _ => Step.lenient) _ _ h

/-- The resolution of a path ends in one place. -/
theorem Reaches.unique {directory p q : List String} {path : List (Component String)}
    (hp : Reaches t false directory path p) (hq : Reaches t false directory path q) : p = q := by
  have hend : ∀ {a : List String} {s : Position}, Relation.ReflTransGen (Step t false) (a, []) s →
      s = (a, []) := by
    intro a s h
    cases Relation.ReflTransGen.cases_head h with
    | inl heq => exact heq.symm
    | inr hstep =>
      obtain ⟨u, hu, -⟩ := hstep
      cases hu
  obtain h | h := Relation.ReflTransGen.total_of_right_unique Step.rightUnique hp hq
  · exact (congrArg Prod.fst (hend h)).symm
  · exact congrArg Prod.fst (hend h)

/-! ### What is found -/

/-- The root can be reached. -/
theorem passable_nil : Passable t [] := by
  refine ⟨fun q n hq => ?_, unlinked_nil [] (List.prefix_refl _)⟩
  simp at hq

/-- So can the place that a target starts from. -/
theorem Passable.base {directory : List String} (h : Passable t directory)
    (target : Target String) :
    Passable t (base directory target) := by
  unfold Worktree.base
  split
  · exact passable_nil
  · exact h

section Found

variable {resolveTarget : List (Component String) → Except Refusal (List String)}
  {directory p : List String} {path : List (Component String)}

/-- At a link the loop goes on from what the target resolves to. -/
theorem followComponents_link {name : String} {rest : List (Component String)}
    {target : Target String} (hlink : t.entry (directory ++ [name]) = some (.symlink target)) :
    followComponents t resolveTarget directory (.normal name :: rest) =
      (resolveTarget ((base directory target).map .normal ++ target.components)).bind
        fun resolved => followComponents t resolveTarget resolved rest := by
  have hstart : (if target.absolute then [] else directory.map .normal) =
      (base directory target).map (Component.normal : String → Component String) := by
    unfold base
    split <;> rfl
  rw [followComponents, FileTree.readLink_of_symlink hlink, ← hstart]
  rfl

/-- Where a target resolves to what it reaches, a path does. -/
theorem reaches_of_followComponents
    (htarget : ∀ d path p, Passable t d → resolveTarget (d.map .normal ++ path) = .ok p →
      Passable t p ∧ Reaches t false d path p)
    (hdirectory : Passable t directory)
    (h : followComponents t resolveTarget directory path = .ok p) :
    Passable t p ∧ Reaches t false directory path p := by
  induction path generalizing directory with
  | nil =>
    cases h
    exact ⟨hdirectory, .refl⟩
  | cons component rest ih =>
    cases component with
    | parent =>
      have hup : Passable t directory.dropLast := hdirectory.restrict (List.dropLast_prefix _)
      obtain ⟨hp, hreaches⟩ := ih hup h
      exact ⟨hp, .head (.parent nofun) hreaches⟩
    | current =>
      obtain ⟨hp, hreaches⟩ := ih hdirectory h
      exact ⟨hp, .head (.current nofun) hreaches⟩
    | normal name =>
      by_cases hlink : ∃ target, t.entry (directory ++ [name]) = some (.symlink target)
      -- A link leads to its target, and the rest of the path is followed from there.
      · obtain ⟨target, hlink⟩ := hlink
        rw [followComponents_link hlink] at h
        obtain ⟨between, hbetween, hrest⟩ := bind_eq_ok h
        obtain ⟨hinside, hreaches⟩ := htarget _ _ _ (hdirectory.base target) hbetween
        obtain ⟨hp, hafter⟩ := ih hinside hrest
        exact ⟨hp, .head (.link hlink) ((hreaches.append rest).trans hafter)⟩
      · have hunlinked : ∀ target, t.entry (directory ++ [name]) ≠ some (.symlink target) :=
          fun target htarget => hlink ⟨target, htarget⟩
        -- A name is not a link, so the walk enters it.
        have hway := open_of_followComponents hdirectory h
        have hnext : Passable t (directory ++ [name]) := ⟨hway, hunlinked⟩
        rw [followComponents_name hnext] at h
        obtain ⟨hp, hreaches⟩ := ih hnext h
        exact ⟨hp, .head (.name (hway directory name (List.prefix_refl _)) hunlinked) hreaches⟩

/-- Where a resolution ends, a walk ends. -/
theorem reaches_of_resolveLinks {depth : ℕ} (hdirectory : Passable t directory)
    (h : resolveLinks t depth (directory.map .normal ++ path) = .ok p) :
    Passable t p ∧ Reaches t false directory path p := by
  induction depth generalizing directory path p with
  | zero => cases h
  | succ depth ih =>
    rw [resolveLinks_succ, followComponents_from hdirectory] at h
    exact reaches_of_followComponents (fun _ _ _ hd hok => ih hd hok) hdirectory h

/-- A passable path resolves to itself. -/
theorem resolve_of_passable (h : Passable t p) : resolve t (p.map .normal) = .ok p := by
  have hfollow := @followComponents_from t p (resolveLinks t 39) [] h
  rw [List.append_nil] at hfollow
  unfold resolve
  rw [resolveLinks_succ, hfollow]
  rfl

end Found

/-! ### Why nothing is found -/

/-- A part of the way cannot be inspected, and the error names it. -/
def Uninspected (t : FileTree String) (r : Refusal) : Prop :=
  ∃ q e, t.readLink q = .error e ∧ e ≠ .notFound ∧ e ≠ .invalidInput ∧
    r = .operation s!"resolve {displayed q}" e

section Nested

variable {depth : ℕ} {directory place : List String} {component : Component String}
  {rest path : List (Component String)} {r : Refusal}

/-- Nested links that come later on the way are on the way. -/
theorem Nested.later (hreaches : Reaches t false directory [component] place)
    (h : Nested t (depth + 1) place rest) : Nested t (depth + 1) directory (component :: rest) := by
  cases h with
  | @succ depth _ before inner name after target hbefore hlink hinside =>
    have hway : Reaches t false directory (component :: before) inner :=
      (hreaches.append before).trans hbefore
    exact Nested.succ hway hlink hinside

/-- A walk through a link goes on at its target. -/
theorem reaches_of_link {name : String} {target : Target String}
    (hlink : t.entry (directory ++ [name]) = some (.symlink target))
    (hinside : Reaches t false (base directory target) target.components place) :
    Reaches t false directory [.normal name] place := by
  have hend := hinside.append []
  exact .head (.link hlink) hend

/-- A path that does not resolve has nested links or what cannot be inspected. -/
theorem nested_of_resolveLinks (hdirectory : Passable t directory)
    (h : resolveLinks t depth (directory.map .normal ++ path) = .error r) :
    Uninspected t r ∨ Nested t depth directory path := by
  induction depth generalizing directory path with
  | zero => exact .inr (.zero directory path)
  | succ depth ihDepth =>
    rw [resolveLinks_succ, followComponents_from hdirectory] at h
    induction path generalizing directory with
    | nil => cases h
    | cons component rest ih =>
      cases component with
      -- The dot components stay in directories that were passed.
      | parent =>
        have hup : Passable t directory.dropLast := hdirectory.restrict (List.dropLast_prefix _)
        exact (ih hup h).imp_right (Nested.later (.single (.parent nofun)))
      | current => exact (ih hdirectory h).imp_right (Nested.later (.single (.current nofun)))
      | normal name =>
        by_cases hlink : ∃ target, t.entry (directory ++ [name]) = some (.symlink target)
        · obtain ⟨target, hlink⟩ := hlink
          rw [followComponents_link hlink] at h
          have hbase := hdirectory.base target
          obtain hinside | ⟨between, hbetween, hrest⟩ := bind_eq_error h
          -- The target does not resolve: its links are inside this one.
          · exact (ihDepth hbase hinside).imp_right (Nested.succ .refl hlink)
          -- The target resolves, so the rest of the path does not.
          · obtain ⟨hpassable, hreaches⟩ := reaches_of_resolveLinks hbase hbetween
            exact (ih hpassable hrest).imp_right (Nested.later (reaches_of_link hlink hreaches))
        · have hunlinked : ∀ target, t.entry (directory ++ [name]) ≠ some (.symlink target) :=
            fun target htarget => hlink ⟨target, htarget⟩
          by_cases henter : Enterable t directory
          · have hnext : Passable t (directory ++ [name]) :=
              ⟨open_concat hdirectory.way henter, hunlinked⟩
            rw [followComponents_name hnext] at h
            exact (ih hnext h).imp_right (Nested.later (.single (.name henter hunlinked)))
          -- Below a file nothing can be inspected.
          · unfold Enterable at henter
            rw [not_or] at henter
            have hblocked := @FileTree.readLink_of_blocked _ _ _ _ name hdirectory.way henter.1 henter.2
              hdirectory.unlinked
            rw [followComponents, hblocked] at h
            cases h
            exact .inl ⟨directory ++ [name], _, hblocked, by decide, by decide, rfl⟩

end Nested

/-- What `resolve` finds meets no link, is found again from itself, and is where the path leads if
`.` and `..` are taken after anything; that is where POSIX reaches, if it reaches anything. Where
nothing is found, links are nested 40 deep or a part of the way cannot be inspected. -/
theorem resolve_canonical (t : FileTree String) (path : List (Component String)) :
    (∀ p, resolve t path = .ok p →
      Unlinked t p ∧ resolve t (p.map .normal) = .ok p ∧ Reaches t false [] path p ∧
        ∀ q, Reaches t true [] path q → q = p) ∧
    ∀ r, resolve t path = .error r → Uninspected t r ∨ Nested t 40 [] path := by
  refine ⟨fun p h => ?_, fun r h => ?_⟩
  · obtain ⟨hpassable, hreaches⟩ := reaches_of_resolveLinks passable_nil h
    have hposix : ∀ q, Reaches t true [] path q → q = p := fun q hq => hq.lenient.unique hreaches
    exact ⟨unlinked_of_resolve h, resolve_of_passable hpassable, hreaches, hposix⟩
  · exact nested_of_resolveLinks passable_nil h

/-- `/f` is a file. -/
def fileTree : FileTree String := .ofList [(["f"], .file)] (by decide)

/-- The path `/f/..` resolves to the root, where POSIX does not leave a file. -/
theorem parent_of_file : resolve fileTree [.normal "f", .parent] = .ok [] ∧
    ¬ Reaches fileTree true [] [.normal "f", .parent] [] := by
  refine ⟨by decide +kernel, fun h => ?_⟩
  have hfile : fileTree.entry ["f"] = some .file := rfl
  obtain heq | ⟨u, hstep, hrest⟩ := Relation.ReflTransGen.cases_head h
  · cases heq
  · cases hstep with
    | link hlink => cases hfile.symm.trans hlink
    | name =>
      obtain heq | ⟨v, hparent, -⟩ := Relation.ReflTransGen.cases_head hrest
      · cases heq
      · cases hparent with
        | parent henter =>
          obtain hnone | hdirectory := henter rfl
          · cases hfile.symm.trans hnone
          · cases hfile.symm.trans hdirectory

end DaemonFramework.LocalBuild.Worktree

