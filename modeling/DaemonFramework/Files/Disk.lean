import Mathlib.Data.List.Infix
import Mathlib.Logic.Function.Basic
import DaemonFramework.Fallible

/-!
# The disk

The file system as `shelllist-daemon-core/src/file.rs` uses it. The entries of the disk are named by
their paths, and every operation is recorded in a log. An oracle decides for each operation whether
it fails, whatever it is for; one that the oracle lets pass fails still where the file system has to
refuse it.

A symlink keeps what it leads to. An entry is named by one path only: the directories that lead to
it are no symlinks, but the last of them may be one.
-/

namespace DaemonFramework.Files

/-- A path, with `.` dropped: the empty relative path is the current directory. -/
structure Path where
  /-- The path starts at the root. -/
  absolute : Bool
  /-- The names on the path, the last one first. -/
  names : List String
deriving DecidableEq

namespace Path

/-- `Path::parent`. -/
def parent : Path → Option Path
  | ⟨_, []⟩ => none
  | ⟨absolute, _ :: names⟩ => some ⟨absolute, names⟩

/-- `Path::file_name`. -/
def fileName : Path → Option String
  | ⟨_, []⟩ => none
  | ⟨_, name :: _⟩ => if name = ".." then none else some name

/-- `Path::join` with a name. -/
def join (p : Path) (name : String) : Path := ⟨p.absolute, name :: p.names⟩

/-- `Path::ancestors`, the path itself first. -/
def ancestors (p : Path) : List Path := p.names.tails.map fun names => ⟨p.absolute, names⟩

/-- The path is empty. -/
def IsEmpty (p : Path) : Prop := p.absolute = false ∧ p.names = []

instance (p : Path) : Decidable p.IsEmpty := by
  unfold IsEmpty
  infer_instance

end Path

/-- What an entry is that is no symlink. -/
inductive Kind where
  | file
  | directory
  | other
deriving DecidableEq

/-- An entry of the disk. -/
inductive Node where
  | file (contents : List UInt8) (mode : UInt32)
  | directory (mode : UInt32)
  | other (mode : UInt32)
  /-- A symlink, with what it leads to. -/
  | symlink (leadsTo : Option Kind)
deriving DecidableEq

/-- What an entry is, behind a symlink. -/
def Node.kind : Node → Option Kind
  | file _ _ => some .file
  | directory _ => some .directory
  | other _ => some .other
  | symlink leadsTo => leadsTo

/-- An entry with another mode. What a symlink leads to is not recorded with its mode. -/
def Node.setMode (mode : UInt32) : Node → Node
  | file contents _ => file contents mode
  | directory _ => directory mode
  | other _ => other mode
  | symlink leadsTo => symlink leadsTo

/-- `io::ErrorKind`. -/
inductive ErrorKind where
  | alreadyExists
  | notFound
  | notADirectory
  | isADirectory
  | invalidInput
  | writeZero
  /-- Any other error. -/
  | other (code : ℕ)
deriving DecidableEq

/-- An operation on the disk. -/
inductive Call where
  | metadata (path : Path)
  | symlinkMetadata (path : Path)
  | mkdir (path : Path)
  | setPermissions (path : Path)
  | syncDirectory (path : Path)
  | createNew (path : Path)
  | write (path : Path)
  | flush (path : Path)
  | syncAll (path : Path)
  | rename (source target : Path)
  | removeFile (path : Path)
deriving DecidableEq

/-- The entries of a disk. -/
abbrev Entries := Path → Option Node

/-- The disk and the process that works on it. -/
structure World where
  /-- The entries of the disk. -/
  entries : Entries
  /-- `TEMP_SEQUENCE`. -/
  sequence : ℕ
  /-- `std::process::id`. -/
  process : ℕ
  /-- The permissions that new entries do not get. -/
  umask : UInt32
  /-- Whether an operation fails, by its place in the log; and how many bytes are taken from one
  that writes. -/
  oracle : ℕ → Except ErrorKind ℕ
  /-- The operations so far, each with whether it succeeded. -/
  log : List (Call × Bool)

/-- A program on the disk. -/
abbrev Disk (ε α : Type) := Fallible World ε α

/-- One operation: it fails if the oracle says so, or if its effect does. -/
def call {α : Type} (c : Call) (effect : ℕ → World → Except ErrorKind (α × Entries)) :
    Disk ErrorKind α := fun s =>
  match (s.oracle s.log.length).bind fun n => effect n s with
  | .ok (a, entries) => (.ok a, { s with entries := entries, log := s.log ++ [(c, true)] })
  | .error e => (.error e, { s with log := s.log ++ [(c, false)] })

/-- The entry of a path, behind a symlink, is a directory. -/
def IsDirectory (entries : Entries) (path : Path) : Prop :=
  (entries path).bind Node.kind = some .directory

instance (entries : Entries) (path : Path) : Decidable (IsDirectory entries path) := by
  unfold IsDirectory
  infer_instance

/-- An entry can be made in the parent of the path. -/
def HasParent (entries : Entries) (path : Path) : Prop := ∀ parent ∈ path.parent,
  IsDirectory entries parent

instance (entries : Entries) (path : Path) : Decidable (HasParent entries path) := by
  unfold HasParent
  cases path.parent with
  | none => exact .isTrue (by simp)
  | some parent => exact decidable_of_iff (IsDirectory entries parent) (by simp)

/-- A question to the disk that changes nothing. -/
def ask {α : Type} (c : Call) (answer : Entries → Except ErrorKind α) : Disk ErrorKind α :=
  call c fun _ s => (answer s.entries).map fun a => (a, s.entries)

/-- What the entry of a path is, behind a symlink. -/
def metadata (path : Path) : Disk ErrorKind Kind :=
  ask (.metadata path) fun entries =>
    match (entries path).bind Node.kind with
    | some kind => .ok kind
    | none => .error .notFound

/-- `Path::exists`, which is false on an error. -/
def pathExists {ε : Type} (path : Path) : Disk ε Bool := do
  let r ← (metadata path).observe
  return r.isOk

/-- `Path::is_dir`, which is false on an error. -/
def isDir {ε : Type} (path : Path) : Disk ε Bool := do
  let r ← (metadata path).observe
  return r.toOption = some .directory

/-- `fs::symlink_metadata`. -/
def symlinkMetadata (path : Path) : Disk ErrorKind Node :=
  ask (.symlinkMetadata path) fun entries =>
    match entries path with
    | some node => .ok node
    | none => .error .notFound

/-- `mkdir`. -/
def mkdir (path : Path) (mode : UInt32) : Disk ErrorKind Unit :=
  call (.mkdir path) fun _ s =>
    if (s.entries path).isSome then .error .alreadyExists
    else if ¬HasParent s.entries path then .error .notFound
    else .ok ((), Function.update s.entries path (some (.directory (mode &&& ~~~s.umask))))

/-- `fs::set_permissions`, which follows a symlink. -/
def setPermissions (path : Path) (mode : UInt32) : Disk ErrorKind Unit :=
  call (.setPermissions path) fun _ s =>
    match s.entries path with
    | none | some (.symlink none) => .error .notFound
    | some node => .ok ((), Function.update s.entries path (some (node.setMode mode)))

/-- `sync_directory`. -/
def syncDirectory (path : Path) : Disk ErrorKind Unit :=
  ask (.syncDirectory path) fun entries =>
    if ((entries path).bind Node.kind).isSome then .ok () else .error .notFound

/-- `OpenOptions::open` with `create_new`. -/
def createNew (path : Path) (mode : UInt32) : Disk ErrorKind Unit :=
  call (.createNew path) fun _ s =>
    if (s.entries path).isSome then .error .alreadyExists
    else if ¬HasParent s.entries path then .error .notFound
    else .ok ((), Function.update s.entries path (some (.file [] (mode &&& ~~~s.umask))))

/-- `File::write`: the number of bytes that were taken. -/
def write (path : Path) (bytes : List UInt8) : Disk ErrorKind ℕ :=
  call (.write path) fun n s =>
    match s.entries path with
    | some (.file contents mode) =>
      let count := min n bytes.length
      .ok (count, Function.update s.entries path
        (some (.file (contents ++ bytes.take count) mode)))
    | _ => .error .notFound

/-- `File::flush`. -/
def flushFile (path : Path) : Disk ErrorKind Unit := ask (.flush path) fun _ => .ok ()

/-- `File::sync_all`. -/
def syncAll (path : Path) : Disk ErrorKind Unit := ask (.syncAll path) fun _ => .ok ()

/-- `fs::rename` of a file. -/
def rename (source target : Path) : Disk ErrorKind Unit :=
  call (.rename source target) fun _ s =>
    match s.entries source, s.entries target with
    | none, _ => .error .notFound
    | some _, some (.directory _) => .error .isADirectory
    | some node, _ =>
      .ok ((), Function.update (Function.update s.entries source none) target (some node))

/-- `fs::remove_file`. -/
def removeFile (path : Path) : Disk ErrorKind Unit :=
  call (.removeFile path) fun _ s =>
    match s.entries path with
    | none => .error .notFound
    | some (.directory _) => .error .isADirectory
    | some _ => .ok ((), Function.update s.entries path none)

end DaemonFramework.Files
