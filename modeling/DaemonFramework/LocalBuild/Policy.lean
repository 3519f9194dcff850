import DaemonFramework.Json
import DaemonFramework.Traversal
import DaemonFramework.Worklist

/-!
# Local inputs of a repository

The parts of `shelllist-local-build/src/policy.rs` that say where the inputs of a flake lead: an
input with a `git+file:` URL leads to a local repository, and the inputs nested in its specification
are an overlay over that repository's own. A `Workspace` assigns inputs to finitely many
repositories. How a path in a URL resolves against the repository it is written in is up to the
filesystem, so it is a parameter of the workspace; Git, Nix and the filesystem do not fail
otherwise.
-/

namespace DaemonFramework.LocalBuild

open Value

/-- An absolute path, resolved. -/
abbrev Path := String

/-- The inputs of a flake. -/
abbrev Inputs := List (String × Value)

/-- The value of a hexadecimal digit. -/
def hexDigit (byte : UInt8) : Option UInt8 :=
  if 48 ≤ byte ∧ byte ≤ 57 then some (byte - 48)
  else if 65 ≤ byte ∧ byte ≤ 70 then some (byte - 55)
  else if 97 ≤ byte ∧ byte ≤ 102 then some (byte - 87)
  else none

/-- The byte that a percent sign with two digits stands for. -/
def escaped (sign high low : UInt8) : Option UInt8 :=
  if sign = 37 then
    (hexDigit high).bind fun high => (hexDigit low).map fun low => 16 * high + low
  else none

/-- `percent_decode_str`: a percent sign without two digits after it stands for itself. -/
def percentDecode : List UInt8 → List UInt8
  | [] => []
  | [a] => [a]
  | [a, b] => [a, b]
  | a :: b :: c :: rest =>
    match escaped a b c with
    | some byte => byte :: percentDecode rest
    | none => a :: percentDecode (b :: c :: rest)

/-- `str::strip_prefix`. -/
def stripPrefix : List Char → List Char → Option (List Char)
  | [], s => some s
  | _ :: _, [] => none
  | a :: pre, b :: s => if a = b then stripPrefix pre s else none

/-- The error of a local URL that is not a plain path. -/
def notAWorktree (url : String) : String :=
  s!"local inputs must use current worktrees, not refs/revisions: {url}"

/-- The path in a `git+file:` URL after its scheme, without an authority. -/
def filePath (url : String) (file : List Char) : Except String (List Char) :=
  if '?' ∈ file ∨ '#' ∈ file then .error (notAWorktree url)
  else
    match stripPrefix "//".toList file with
    | some authority =>
      if authority.takeWhile (· ≠ '/') = [] ∨
          authority.takeWhile (· ≠ '/') = "localhost".toList then
        .ok (authority.dropWhile (· ≠ '/'))
      else .error (notAWorktree url)
    | none => .ok file

/-- `local_path`; `resolve root path` is the path that `path` in a URL of `root` resolves to. -/
def localPath (resolve : Path → List UInt8 → Except String Path) (spec : Value) (root : Path) :
    Except String (Option Path) :=
  match (spec.get "url").bind asStr with
  | none => .ok none
  | some url =>
    match stripPrefix "git+file:".toList url.toList with
    | none => .ok none
    | some file =>
      (filePath url file).bind fun path =>
        (resolve root (percentDecode (path.flatMap String.utf8EncodeChar))).map some

mutual

/-- The step of `merge` for one field of the overlay. -/
def mergeField (target : Inputs) (key : String) : Value → Inputs
  | .object right =>
    match lookupField key target with
    | some (.object left) => modifyField key (fun _ => .object (merge left right)) target
    | _ => insertField key (.object right) target
  | value => insertField key value target

/-- `merge`. -/
def merge (target : Inputs) : Inputs → Inputs
  | [] => target
  | (key, value) :: rest => merge (mergeField target key value) rest

end

/-- `overlaid`. -/
def overlaid (inputs : Inputs) : Option Inputs → Inputs
  | none => inputs
  | some overlay => if overlay = [] then inputs else merge inputs overlay

/-- `direct_inputs`. -/
def directInputs (inputs : Inputs) : Inputs :=
  inputs.filter fun input => (input.2.get "follows").isNone

/-- `nested_inputs`. -/
def nestedInputs (spec : Value) : Except String (Option Inputs) :=
  match spec.get "inputs" with
  | none => .ok none
  | some (.object overlay) => .ok (some overlay)
  | some _ => .error "input overrides must be an object"

/-- A repository under an overlay of its inputs. -/
abbrev Overlaid := Path × Option Inputs

/-- Flake inputs for repositories, and a resolution of paths. -/
structure Assignment where
  /-- The inputs of a repository. -/
  definitions : Path → Inputs
  /-- The path that a path in a URL of a repository resolves to. -/
  resolve : Path → List UInt8 → Except String Path

namespace Assignment

variable (assignment : Assignment)

/-- The direct inputs of a repository under an overlay. -/
def direct (source : Overlaid) : Inputs :=
  directInputs (overlaid (assignment.definitions source.1) source.2)

/-- Where an input of a repository leads, as the preflight sees it. -/
def edge (source : Path) (spec : Value) : Except String (Option Overlaid) :=
  (localPath assignment.resolve spec source).bind fun child =>
    (nestedInputs spec).map fun overlay => child.map fun child => (child, overlay)

/-- The repository that an input leads to, if there is one. -/
def childOf (source : Path) (input : String × Value) : Option Overlaid :=
  match assignment.edge source input.2 with
  | .ok child => child
  | .error _ => none

/-- The repositories that the direct inputs of a repository lead to, in the order of the inputs. -/
def children (source : Overlaid) : List Overlaid :=
  (assignment.direct source).filterMap (assignment.childOf source.1)

/-- Every direct input of a repository has a URL that resolves, if it is a local one, and overrides
that are an object, if there are any. -/
def WellFormed (source : Overlaid) : Prop :=
  ∀ input ∈ assignment.direct source, ∃ child, assignment.edge source.1 input.2 = .ok child

/-- An input whose URL does not resolve leads nowhere. -/
theorem edge_of_url {source : Path} {spec : Value} {error : String}
    (h : localPath assignment.resolve spec source = .error error) :
    assignment.edge source spec = .error error := by
  simp only [Assignment.edge, h, Except.bind]

/-- An input with malformed overrides leads nowhere. -/
theorem edge_of_overrides {source child : Path} {spec : Value} {error : String}
    (hchild : localPath assignment.resolve spec source = .ok (some child))
    (h : nestedInputs spec = .error error) : assignment.edge source spec = .error error := by
  simp only [Assignment.edge, hchild, h, Except.bind, Except.map]

/-- A local input leads to its repository, under its overrides. -/
theorem childOf_eq_some {source child : Path} {input : String × Value} {overlay : Option Inputs}
    (hchild : localPath assignment.resolve input.2 source = .ok (some child))
    (hoverlay : nestedInputs input.2 = .ok overlay) :
    assignment.childOf source input = some (child, overlay) := by
  simp only [Assignment.childOf, Assignment.edge, hchild, hoverlay, Except.bind, Except.map,
    Option.map_some]

/-- A child of a repository is that of one of its inputs. -/
theorem exists_input_of_mem_children {source child : Overlaid}
    (h : child ∈ assignment.children source) :
    ∃ input ∈ assignment.direct source,
      localPath assignment.resolve input.2 source.1 = .ok (some child.1) ∧
        nestedInputs input.2 = .ok child.2 := by
  obtain ⟨input, hinput, hchild⟩ := List.mem_filterMap.1 h
  refine ⟨input, hinput, ?_⟩
  unfold Assignment.childOf Assignment.edge at hchild
  cases hpath : localPath assignment.resolve input.2 source.1 with
  | error error => simp [hpath, Except.bind] at hchild
  | ok path =>
    cases hoverlay : nestedInputs input.2 with
    | error error => simp [hpath, hoverlay, Except.bind, Except.map] at hchild
    | ok overlay =>
      cases path with
      | none => simp [hpath, hoverlay, Except.bind, Except.map] at hchild
      | some path =>
        simp only [hpath, hoverlay, Except.bind, Except.map, Option.map_some,
          Option.some.injEq] at hchild
        obtain rfl := hchild
        exact ⟨rfl, rfl⟩

/-- Where every path resolves to one of some repositories, these are all that the inputs lead to. -/
theorem assigned_of_resolve {root : Path} {repositories : List Path} (hroot : root ∈ repositories)
    (h : ∀ source path child, assignment.resolve source path = .ok child → child ∈ repositories)
    (source : Overlaid) (hreach : Traversal.Reach assignment.children (root, none) source) :
    source.1 ∈ repositories := by
  induction hreach with
  | refl => exact hroot
  | @tail source child _ hchild _ =>
    obtain ⟨input, -, hpath, -⟩ := assignment.exists_input_of_mem_children hchild
    unfold localPath at hpath
    split at hpath
    · cases hpath
    · split at hpath
      · cases hpath
      · obtain ⟨path, -, hpath⟩ := Worklist.bind_eq_ok hpath
        cases hresolve : assignment.resolve source.1
            (percentDecode (path.flatMap String.utf8EncodeChar)) with
        | error error =>
          rw [hresolve] at hpath
          cases hpath
        | ok resolved =>
          rw [hresolve] at hpath
          obtain rfl := Option.some.inj (Except.ok.inj hpath)
          exact h _ _ _ hresolve

end Assignment

/-- An assignment for finitely many repositories. -/
structure Workspace extends Assignment where
  /-- The repository to build. -/
  root : Path
  /-- The repositories. -/
  repositories : List Path
  /-- Every repository that the inputs lead to has its own. -/
  assigned : ∀ source, Traversal.Reach toAssignment.children (root, none) source →
    source.1 ∈ repositories

end DaemonFramework.LocalBuild
