import DaemonFramework.Files.Disk

/-!
# Staged files

`StagedFile` of `shelllist-daemon-core/src/file.rs` and `write_json_atomic` of `state.rs`: the new
contents of a file are written to a temporary file beside it, which a commit renames over it. The
temporary file belongs to the object until then, and is removed when the object is dropped.

The callback that produces the contents writes one chunk after another and ends as it will; it does
not go on after a write that failed. `BufWriter` of the standard library is modelled with its
buffer, since that decides what has reached the file when something fails.

The number of tries for the name of the temporary file is a parameter. The source goes on until a
name is free.
-/

namespace DaemonFramework.Files

open Fallible

/-- `AtomicFilePolicy`. -/
structure AtomicFilePolicy where
  /-- The mode of the parent and of new directories. -/
  directoryMode : Option UInt32
  /-- The mode of the file. -/
  fileMode : Option UInt32
  /-- Sync the parent after the replacement. -/
  syncParent : Bool
  /-- Sync new directories and their parents. -/
  syncNewAncestors : Bool
  /-- Refuse a destination that is a symlink. -/
  rejectSymlinkDestination : Bool

/-- `AtomicFilePolicy::PRIVATE`. -/
def AtomicFilePolicy.PRIVATE : AtomicFilePolicy := ⟨some 0o700, some 0o600, true, true, true⟩

/-- `AtomicFilePolicy::DURABLE`. -/
def AtomicFilePolicy.DURABLE : AtomicFilePolicy :=
  { AtomicFilePolicy.PRIVATE with directoryMode := none, fileMode := none }

/-- `parent_directory`. -/
def parentDirectory (path : Path) : Disk ErrorKind Path :=
  match path.parent with
  | some parent => ok parent
  | none => fail .invalidInput

/-- The name of a file, which a path may lack. -/
def fileName (path : Path) : Disk ErrorKind String :=
  match path.fileName with
  | some name => ok name
  | none => fail .invalidInput

/-- `sync_parent`. -/
def syncParent (path : Path) : Disk ErrorKind Unit := parentDirectory path >>= syncDirectory

/-- `reject_symlink`. -/
def rejectSymlink (path : Path) : Disk ErrorKind Unit := do
  let r ← (symlinkMetadata path).observe
  match r with
  | .ok (.symlink _) => fail .invalidInput
  | .ok _ => ok ()
  | .error .notFound => ok ()
  | .error e => fail e

/-! ## The directory -/

/-- The ancestors that are to be synced: the missing ones, from the path upwards. -/
def missingAncestors (sync : Bool) : List Path → Disk ErrorKind (List Path)
  | [] => ok []
  | path :: rest =>
    if sync = true ∧ ¬path.IsEmpty then do
      let there ← pathExists path
      if there then ok [] else (path :: ·) <$> missingAncestors sync rest
    else ok []

/-- A directory is made, unless there is one. -/
def makeDirectory (path : Path) (mode : UInt32) : Disk ErrorKind Unit := do
  let r ← (mkdir path mode).observe
  match r with
  | .ok () => ok ()
  | .error e => do
    let there ← isDir path
    if there then ok () else fail e

/-- `DirBuilder::create`, recursive. The current directory and the root are there already. -/
def createAll (mode : UInt32) (absolute : Bool) : List String → Disk ErrorKind Unit
  | [] => makeDirectory ⟨absolute, []⟩ mode
  | name :: names => do
    let r ← (mkdir ⟨absolute, name :: names⟩ mode).observe
    match r with
    | .ok () => ok ()
    | .error .notFound => do
      createAll mode absolute names
      makeDirectory ⟨absolute, name :: names⟩ mode
    | .error e => do
      let there ← isDir ⟨absolute, name :: names⟩
      if there then ok () else fail e

/-- New directories are synced from the top downwards, each with its parent. -/
def syncDirectories : List Path → Disk ErrorKind Unit
  | [] => ok ()
  | directory :: rest => do
    syncDirectory directory
    syncParent directory
    syncDirectories rest

/-- `create_directory`. -/
def createDirectory (path : Path) (policy : AtomicFilePolicy) : Disk ErrorKind Unit := do
  let missing ← missingAncestors policy.syncNewAncestors path.ancestors
  onlyIf policy.directoryMode.isSome (rejectSymlink path)
  createAll (policy.directoryMode.getD 0o777) path.absolute path.names
  onlyIf policy.directoryMode.isSome (setPermissions path (policy.directoryMode.getD 0))
  syncDirectories missing.reverse

/-! ## The temporary file -/

/-- `TEMP_SEQUENCE.fetch_add(1)`. -/
def fetchAdd {ε : Type} : Disk ε ℕ := fun s => (.ok s.sequence, { s with sequence := s.sequence + 1 })

/-- The name of a temporary file. -/
def temporaryName (name : String) (process number : ℕ) : String :=
  name ++ s!".{process}-{number}.tmp"

/-- `create_temporary`. A search that is cut short fails with the error it would go on from. -/
def createTemporary (parent : Path) (name : String) (mode : Option UInt32) :
    ℕ → Disk ErrorKind Path
  | 0 => fail .alreadyExists
  | tries + 1 => do
    let number ← fetchAdd
    let s ← read
    let temporary := parent.join (temporaryName name s.process number)
    let r ← (createNew temporary (mode.getD 0o666)).observe
    match r with
    | .ok () => ok temporary
    | .error .alreadyExists => createTemporary parent name mode tries
    | .error e => fail e

/-! ## The contents -/

/-- A program on the buffer of a `BufWriter` and the disk. -/
abbrev Buffered (ε α : Type) := Fallible (List UInt8 × World) ε α

/-- The capacity of a `BufWriter`. -/
def bufferCapacity : ℕ := 8 * 1024

/-- `BufWriter::flush_buf`: what has been written leaves the buffer, also when a write fails. Every
write takes a byte at least, so the length of the buffer is enough for the loop. -/
def flushBuffer (path : Path) : ℕ → Buffered ErrorKind Unit
  | 0 => ok ()
  | n + 1 => do
    let s ← read
    if s.1 = [] then ok ()
    else do
      let count ← (write path s.1).lift
      if count = 0 then fail .writeZero
      else do
        let t ← read
        Fallible.write (s.1.drop count, t.2)
        flushBuffer path n

/-- `File::write_all`. -/
def writeAll (path : Path) : ℕ → List UInt8 → Disk ErrorKind Unit
  | _, [] => ok ()
  | 0, _ => fail .writeZero
  | n + 1, bytes => do
    let count ← write path bytes
    if count = 0 then fail .writeZero else writeAll path n (bytes.drop count)

/-- Bytes are put into the buffer. -/
def pushBuffer (bytes : List UInt8) : Buffered ErrorKind Unit := do
  let s ← read
  Fallible.write (s.1 ++ bytes, s.2)

/-- `BufWriter::write_all`. -/
def bufferedWriteAll (path : Path) (bytes : List UInt8) : Buffered ErrorKind Unit := do
  let s ← read
  let spare := bufferCapacity - s.1.length
  if bytes.length < spare then pushBuffer bytes
  else do
    onlyIf (decide (spare < bytes.length)) (flushBuffer path s.1.length)
    if bufferCapacity ≤ bytes.length then (writeAll path bytes.length bytes).lift
    else pushBuffer bytes

/-- The callback that produces the contents. -/
structure Callback (ε : Type) where
  /-- What it writes, one `write_all` after the other. -/
  chunks : List (List UInt8)
  /-- How it ends after that. -/
  result : Except ε Unit

/-- The complete contents. -/
def Callback.contents {ε : Type} (callback : Callback ε) : List UInt8 := callback.chunks.flatten

variable {ε : Type} (fromIo : ErrorKind → ε)

/-- The writes of a callback. -/
def writeChunks (path : Path) : List (List UInt8) → Buffered ErrorKind Unit
  | [] => ok ()
  | chunk :: chunks => do
    bufferedWriteAll path chunk
    writeChunks path chunks

/-- `BufWriter::flush`. -/
def flush (path : Path) : Buffered ErrorKind Unit := do
  let s ← read
  flushBuffer path s.1.length
  (flushFile path).lift

/-- A `BufWriter` writes what is left in its buffer when it is dropped. -/
def dropBuffer (path : Path) : Buffered ErrorKind Unit := do
  let s ← read
  flushBuffer path s.1.length

/-- `write_buffered`. -/
def writeBuffered (path : Path) (callback : Callback ε) : Disk ε Unit :=
  withLocal [] (do
    (writeChunks path callback.chunks).adapt fromIo
    result callback.result
    (flush path).adapt fromIo) (dropBuffer path)

/-! ## The staged file -/

/-- `StagedFile`. -/
structure StagedFile where
  /-- The file to be replaced. -/
  destination : Path
  /-- The temporary file, while it belongs to the object. -/
  temporary : Option Path
  /-- How the file is replaced. -/
  policy : AtomicFilePolicy

/-- The temporary file of an object is removed when it is dropped. -/
def StagedFile.drop (f : StagedFile) : Disk ErrorKind Unit :=
  match f.temporary with
  | some path => do
    let _ ← ((removeFile path).observe : Disk ErrorKind (Except ErrorKind Unit))
    ok ()
  | none => ok ()

/-- `StagedFile::with_writer`, with so many tries for the name of the temporary file. -/
def withWriter (tries : ℕ) (path : Path) (policy : AtomicFilePolicy) (callback : Callback ε) :
    Disk ε StagedFile := do
  let parent ← (parentDirectory path).adapt fromIo
  let name ← (fileName path).adapt fromIo
  (createDirectory parent policy).adapt fromIo
  onlyIf policy.rejectSymlinkDestination ((rejectSymlink path).adapt fromIo)
  let temporary ← (createTemporary parent name policy.fileMode tries).adapt fromIo
  let staged : StagedFile := ⟨path, some temporary, policy⟩
  onError (do
    writeBuffered fromIo temporary callback
    onlyIf policy.fileMode.isSome ((setPermissions temporary (policy.fileMode.getD 0)).adapt fromIo)
    (syncAll temporary).adapt fromIo
    ok staged) staged.drop

/-- `StagedFile::commit`, which changes the object also when it fails. -/
def commit : Fallible (StagedFile × World) ErrorKind Unit := do
  let s ← read
  let f := s.1
  match f.temporary with
  | none => fail .invalidInput
  | some temporary => do
    onlyIf f.policy.rejectSymlinkDestination (rejectSymlink f.destination).lift
    (rename temporary f.destination).lift
    let t ← read
    Fallible.write ({ f with temporary := none }, t.2)
    onlyIf f.policy.syncParent (Files.syncParent f.destination).lift

/-- A staged file that is committed once and dropped. -/
def replaceFile (tries : ℕ) (path : Path) (policy : AtomicFilePolicy) (callback : Callback ε) :
    Disk ε Unit := do
  let f ← withWriter fromIo tries path policy callback
  (withLocal f commit (do let s ← read; s.1.drop.lift)).adapt fromIo

/-- `write_bytes_atomic`. -/
def writeBytesAtomic (tries : ℕ) (path : Path) (contents : List UInt8) (policy : AtomicFilePolicy) :
    Disk ErrorKind Unit :=
  replaceFile id tries path policy ⟨[contents], .ok ()⟩

/-- `AtomicWritePolicy`. -/
structure AtomicWritePolicy where
  /-- The mode of the parent and of new directories. -/
  directoryMode : UInt32
  /-- The mode of the file. -/
  fileMode : UInt32
  /-- Write the value on several lines. -/
  pretty : Bool
  /-- Sync the parent after the replacement, and new directories. -/
  syncParent : Bool

/-- `StateError`. -/
inductive StateError where
  | io (error : ErrorKind)
  | json (error : String)
  | invalidPath

/-- `write_json_atomic`. What the serializer writes of the value, on several lines or on one, and
how it ends, are parameters. -/
def writeJsonAtomic (tries : ℕ) (path : Path) (toWriterPretty toWriter : Callback StateError)
    (policy : AtomicWritePolicy) : Disk StateError Unit :=
  replaceFile .io tries path
    { AtomicFilePolicy.PRIVATE with
      directoryMode := some policy.directoryMode
      fileMode := some policy.fileMode
      syncParent := policy.syncParent
      syncNewAncestors := policy.syncParent }
    (if policy.pretty then toWriterPretty else toWriter)

end DaemonFramework.Files
