import Mathlib.Logic.Function.Basic
import DaemonFramework.Files.Staged
import DaemonFramework.Machine
import DaemonFramework.WriteBack

/-!
# A file that processes share

`StagedFile` and `read_bytes_bounded` of `shelllist-daemon-core/src/file.rs`, as many processes call
them on one destination, in any order of their system calls, and as the power is lost in between.

The directory is there, and what it says of each name is written back: a power loss undoes any of
the changes since the last `sync_directory`, and leaves in a file that was not synced whatever it
likes. No other program changes the directory, and the modes of the files are left out.

A callback that fails, or one whose writes do, fails after what the buffer still writes when it is
dropped. The number in the name of a temporary file is the one that `TEMP_SEQUENCE` gave, whatever
it is; a number whose name is taken is passed over.

The state also says who made a file, and what the destination has been so far (`history`).
-/

namespace DaemonFramework.Files.Shared

/-! ## The disk -/

/-- A name in the directory. -/
inductive Name where
  /-- The destination. -/
  | destination
  /-- A temporary file of a process. -/
  | temporary (process : ℕ) (number : UInt64)
deriving DecidableEq

/-- What a file is. -/
inductive FileType where
  | regular
  | symlink
  | directory
  | other
deriving DecidableEq

/-- A file, which lives on while it is open. -/
structure File where
  /-- What it is. -/
  type : FileType
  /-- What is in it. -/
  contents : List UInt8
  /-- The contents are in stable storage. -/
  synced : Bool
  /-- The writer that made it. -/
  writer : Option ℕ
deriving DecidableEq

/-- The directory and all files. -/
structure Store where
  /-- The file of each name, or nothing. -/
  directory : Name → WriteBack (Option ℕ)
  /-- The files, in the order in which they were made. -/
  files : List File
  /-- What the destination has been, in order. -/
  history : List (Option ℕ)

namespace Store

/-- The file of a name. -/
def lookup (store : Store) (name : Name) : Option ℕ := (store.directory name).current

/-- What the file of a name is. -/
def typeAt (store : Store) (name : Name) : Option FileType :=
  (store.lookup name).bind fun i => (store.files[i]?).map File.type

/-- A name gets another file, or none. -/
def link (store : Store) (name : Name) (file : Option ℕ) : Store :=
  { store with
    directory := Function.update store.directory name ((store.directory name).write file) }

/-- A new file gets a name. -/
def make (store : Store) (name : Name) (file : File) : Store :=
  { store.link name (some store.files.length) with files := store.files ++ [file] }

/-- A file is changed. -/
def modify (store : Store) (i : ℕ) (f : File → File) : Store :=
  { store with files := store.files.modify i f }

/-- The file of a temporary name becomes the destination. -/
def replace (store : Store) (name : Name) (i : ℕ) : Store :=
  { (store.link name none).link .destination (some i) with history := store.history ++ [some i] }

/-- `sync_directory` -/
def syncDirectory (store : Store) : Store :=
  { store with directory := fun name => (store.directory name).sync }

/-- The elements that are to be kept, by their places. -/
def kept {α : Type} (keep : ℕ → Bool) (values : List α) : List α :=
  (values.zipIdx.filter fun value => keep value.2).map Prod.fst

/-- The power is lost. -/
def lose (store : Store) (keep : Name → ℕ → Bool) (junk : ℕ → List UInt8) : Store where
  directory name := (store.directory name).lose (kept (keep name) (store.directory name).pending)
  files := store.files.mapIdx fun i file =>
    if file.synced then file else { file with contents := junk i }
  history := store.history

end Store

/-! ## Writers -/

/-- Where a writer is. Its file is named from its creation on. -/
inductive Phase where
  /-- The directory has been created. -/
  | starting
  /-- The destination has been inspected. -/
  | creating
  /-- The temporary file is there, and this is still to be written. -/
  | writing (number : UInt64) (file : ℕ) (rest : List UInt8)
  /-- The caller has the `StagedFile`. -/
  | staged (number : UInt64) (file : ℕ)
  /-- In `commit`, the destination has been inspected. -/
  | checked (number : UInt64) (file : ℕ)
  /-- In `commit`, the file has been renamed, and the parent is synced next. -/
  | renamed (file : ℕ)
  /-- `commit` has returned `Ok`. -/
  | committed (file : ℕ)
  /-- `commit` has replaced the destination, but could not sync the parent. -/
  | unsynced (file : ℕ)
  /-- The `StagedFile` is dropped, and owns its temporary file. -/
  | dropping (number : UInt64) (file : ℕ)
  /-- There is no `StagedFile`. -/
  | ended
  /-- The process has ended. -/
  | died
deriving DecidableEq

namespace Phase

/-- The number and the file of the temporary file that belongs to the writer. -/
def temporary : Phase → Option (UInt64 × ℕ)
  | writing number file _ | staged number file | checked number file | dropping number file =>
    some (number, file)
  | _ => none

/-- Nothing is left to be done. -/
def Finished : Phase → Bool
  | committed _ | unsynced _ | ended | died => true
  | _ => false

/-- What becomes of a writer whose process ends. -/
def afterDeath (phase : Phase) : Phase := if phase.Finished then phase else .died

end Phase

/-- A call of `StagedFile::with_writer`, and what becomes of its object. -/
structure Writer where
  /-- `std::process::id` -/
  process : ℕ
  /-- The policy. -/
  policy : AtomicFilePolicy
  /-- The complete contents. -/
  contents : List UInt8
  /-- Where it is. -/
  phase : Phase

/-- What a writer does. -/
inductive Event where
  /-- `reject_symlink` finds no symlink, or is not called. -/
  | inspect
  /-- `create_temporary` tries a number. -/
  | create (number : UInt64)
  /-- `write` takes so many bytes. -/
  | write (count : ℕ)
  /-- `sync_all` -/
  | syncAll
  /-- `fs::rename` -/
  | rename
  /-- `fs::rename` fails. -/
  | renameFails
  /-- `sync_parent` -/
  | syncParent
  /-- `sync_parent` fails. -/
  | syncParentFails
  /-- Something else fails, or the caller drops the object. -/
  | fail
  /-- `fs::remove_file` of the temporary file. -/
  | remove
  /-- `fs::remove_file` fails. -/
  | removeFails
  /-- The process ends. -/
  | die

namespace Store

/-- `reject_symlink` lets the destination pass, or is not called. -/
def Accepts (store : Store) (policy : AtomicFilePolicy) : Prop :=
  policy.rejectSymlinkDestination → store.typeAt .destination ≠ some .symlink

instance (store : Store) (policy : AtomicFilePolicy) : Decidable (store.Accepts policy) := by
  unfold Accepts
  infer_instance

/-- A step of the writer `w`, as its next phase and the store after it. -/
def act (store : Store) (w : ℕ) (writer : Writer) (e : Event) : Option (Phase × Store) :=
  match writer.phase, e with
  | .starting, .inspect => if store.Accepts writer.policy then some (.creating, store) else none
  | .creating, .create number =>
    match store.lookup (.temporary writer.process number) with
    | some _ => some (.creating, store)
    | none => some (.writing number store.files.length writer.contents,
      store.make (.temporary writer.process number) ⟨.regular, [], false, some w⟩)
  | .writing number i rest, .write count =>
    if 0 < count ∧ count ≤ rest.length then
      some (.writing number i (rest.drop count), store.modify i fun file =>
        { file with contents := file.contents ++ rest.take count, synced := false })
    else none
  | .writing number i [], .syncAll =>
    some (.staged number i, store.modify i fun file => { file with synced := true })
  | .staged number i, .inspect =>
    if store.Accepts writer.policy then some (.checked number i, store) else none
  | .checked number _, .rename =>
    match store.lookup (.temporary writer.process number) with
    | some i =>
      if store.typeAt .destination = some .directory then none
      else
        let phase := if writer.policy.syncParent then Phase.renamed i else .committed i
        some (phase, store.replace (.temporary writer.process number) i)
    | none => none
  | .checked number i, .renameFails => some (.staged number i, store)
  | .renamed i, .syncParent => some (.committed i, store.syncDirectory)
  | .renamed i, .syncParentFails => some (.unsynced i, store)
  | .starting, .fail | .creating, .fail => some (.ended, store)
  | .writing number i _, .fail | .staged number i, .fail => some (.dropping number i, store)
  | .dropping number _, .remove =>
    some (.ended, store.link (.temporary writer.process number) none)
  | .dropping _ _, .removeFails => some (.ended, store)
  | phase, .die => if phase.Finished then none else some (.died, store)
  | _, _ => none

end Store

/-! ## Readers -/

/-- What `read_bytes_bounded` returns. -/
inductive Outcome where
  /-- `Ok(None)` -/
  | missing
  /-- `Ok(Some(bytes))` -/
  | bytes (bytes : List UInt8)
  /-- The destination is a symlink. -/
  | symlink
  /-- The state is not a regular file. -/
  | notRegular
  /-- The state exceeds the read limit. -/
  | tooLarge
  /-- The state grew beyond the read limit. -/
  | grew
  /-- A system call fails. -/
  | failed
deriving DecidableEq

/-- Where a reader is. -/
inductive Reading where
  /-- The file is opened next. -/
  | opening
  /-- The file is open. -/
  | opened (file : ℕ)
  /-- These bytes have been read. -/
  | reading (file : ℕ) (bytes : List UInt8)
  /-- It has returned. -/
  | finished (outcome : Outcome)
  /-- The process has ended. -/
  | died
deriving DecidableEq

/-- What becomes of a reader whose process ends. -/
def Reading.afterDeath : Reading → Reading
  | finished outcome => .finished outcome
  | _ => .died

/-- A call of `read_bytes_bounded`. -/
structure Reader where
  /-- The bound. -/
  maxBytes : UInt64
  /-- Where it is. -/
  reading : Reading
deriving DecidableEq

/-- What a reader does. -/
inductive Look where
  /-- `open` -/
  | openFile
  /-- `metadata` -/
  | stat
  /-- `read` returns so many bytes. -/
  | read (count : ℕ)
  /-- The end of the file or of what is taken of it. -/
  | finish
  /-- A system call fails. -/
  | fail
  /-- The process ends. -/
  | die
deriving DecidableEq

/-- `max_bytes.saturating_add(1)` -/
def limit (maxBytes : UInt64) : ℕ := min (maxBytes.toNat + 1) (UInt64.size - 1)

/-- A step of a reader. -/
def Store.look (store : Store) (reader : Reader) (e : Look) : Option Reading :=
  match reader.reading, e with
  | .opening, .openFile =>
    match store.lookup .destination with
    | none => some (.finished .missing)
    | some i =>
      -- `NOFOLLOW` refuses a symlink.
      if store.typeAt .destination = some .symlink then some (.finished .symlink)
      else some (.opened i)
  | .opened i, .stat =>
    (store.files[i]?).map fun file =>
      if file.type ≠ .regular then .finished .notRegular
      else if reader.maxBytes.toNat < file.contents.length then .finished .tooLarge
      else .reading i []
  | .reading i bytes, .read count =>
    (store.files[i]?).bind fun file =>
      let rest := file.contents.drop bytes.length
      if 0 < count ∧ count ≤ rest.length ∧ bytes.length + count ≤ limit reader.maxBytes then
        some (.reading i (bytes ++ rest.take count))
      else none
  | .reading i bytes, .finish =>
    (store.files[i]?).bind fun file =>
      if file.contents.length ≤ bytes.length ∨ limit reader.maxBytes ≤ bytes.length then
        some (.finished (if reader.maxBytes.toNat < bytes.length then .grew else .bytes bytes))
      else none
  | .opening, .fail | .opened _, .fail | .reading _ _, .fail => some (.finished .failed)
  | .opening, .die | .opened _, .die | .reading _ _, .die => some .died
  | _, _ => none

/-! ## The system -/

/-- The disk and the calls. -/
structure System where
  /-- The disk. -/
  store : Store
  /-- The writers, in the order of their calls. -/
  writers : List Writer
  /-- The readers, in the order of their calls. -/
  readers : List Reader

/-- What happens. -/
inductive Label where
  /-- `StagedFile::with_writer` is called. -/
  | call (process : ℕ) (policy : AtomicFilePolicy) (contents : List UInt8)
  /-- A writer does something. -/
  | act (w : ℕ) (e : Event)
  /-- `read_bytes_bounded` is called. -/
  | read (maxBytes : UInt64)
  /-- A reader does something. -/
  | look (r : ℕ) (e : Look)
  /-- The power is lost. -/
  | powerLoss (keep : Name → ℕ → Bool) (junk : ℕ → List UInt8)

/-- One step. -/
def System.step (s : System) : Label → Option System
  | .call process policy contents =>
    some { s with writers := s.writers ++ [⟨process, policy, contents, .starting⟩] }
  | .act w e =>
    (s.writers[w]?).bind fun writer =>
      (s.store.act w writer e).map fun (phase, store) =>
        ⟨store, s.writers.set w { writer with phase := phase }, s.readers⟩
  | .read maxBytes => some { s with readers := s.readers ++ [⟨maxBytes, .opening⟩] }
  | .look r e =>
    (s.readers[r]?).bind fun reader =>
      (s.store.look reader e).map fun reading =>
        { s with readers := s.readers.set r { reader with reading := reading } }
  | .powerLoss keep junk =>
    some ⟨s.store.lose keep junk,
      s.writers.map fun writer => { writer with phase := writer.phase.afterDeath },
      s.readers.map fun reader => { reader with reading := reader.reading.afterDeath }⟩

/-- The file that is there at first. -/
def initialFile (initial : FileType × List UInt8) : File := ⟨initial.1, initial.2, true, none⟩

/-- The disk at first: there is the destination, or nothing. -/
def initialStore (initial : Option (FileType × List UInt8)) : Store where
  directory
    | .destination => ⟨initial.map fun _ => 0, []⟩
    | .temporary _ _ => ⟨none, []⟩
  files := (initial.map initialFile).toList
  history := [initial.map fun _ => 0]

/-- The calls on a destination that is this at first. -/
def shared (initial : Option (FileType × List UInt8)) : Machine System Label :=
  ⟨⟨initialStore initial, [], []⟩, System.step⟩

/-! ## What is to be read -/

/-- What is read of a file. -/
def File.outcome (file : File) (maxBytes : UInt64) : Outcome :=
  match file.type with
  | .symlink => .symlink
  | .regular => if maxBytes.toNat < file.contents.length then .tooLarge else .bytes file.contents
  | _ => .notRegular

/-- What is read of the destination. -/
def Store.outcome (store : Store) (maxBytes : UInt64) : Outcome :=
  match store.lookup .destination with
  | none => .missing
  | some i => match store.files[i]? with
    | none => .failed
    | some file => file.outcome maxBytes

end DaemonFramework.Files.Shared
