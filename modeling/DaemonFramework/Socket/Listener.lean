import DaemonFramework.Machine
import DaemonFramework.Roster
import Mathlib.Data.List.AList

/-!
# The socket listener

`bind` and the drop of `JsonlListener` of `shelllist-daemon-tokio/src/socket/path.rs`: any number of
calls, of any processes, that bind sockets in one runtime directory. A call creates and locks its
lock file, sees whether a socket is in its place, unlinks it if it refuses connections, and binds
its own. Each system call is one step, and so is what another program does to the directory in
between.

An inode is a number, which the kernel hands out again once neither an entry nor an open file has
it. A lock is on an inode, held by the call that took it. A call can fail wherever a system call
can, be dropped while it waits for the connection, which ends it as a failure does, and die with its
process, whose files are then closed in any order.
-/

namespace DaemonFramework.Socket.Listener

/-- What an inode is. -/
inductive Kind where
  | socket
  | regular
  | directory
  | symlink
  | other
deriving DecidableEq

/-- An inode. -/
structure Node where
  /-- What it is. -/
  kind : Kind
  /-- Its owner. -/
  uid : ℕ
  /-- Its permissions, `mode() & 0o777`. -/
  mode : UInt32
  /-- The number of its links. -/
  links : ℕ
  /-- A process listens on it, so that connections are not refused. -/
  listening : Bool
deriving DecidableEq

/-- The runtime directory, as `bind` inspects it. -/
structure Runtime where
  /-- Its path is absolute. -/
  absolute : Bool
  /-- `canonicalize` gives its path. -/
  canonical : Bool
  /-- It is a directory, and no symlink. -/
  directory : Bool
  /-- Its owner. -/
  uid : ℕ
  /-- Its permissions. -/
  mode : UInt32

/-- The name of a socket: letters, digits and dashes, 64 at most. -/
def validName (name : String) : Bool :=
  name ≠ "" && name.utf8ByteSize ≤ 64 && name.toList.all fun c => c.isAlphanum || c = '-'

/-- `bind` goes on to its lock file. -/
def Runtime.admits (runtime : Runtime) (name : String) (uid : ℕ) : Bool :=
  validName name && runtime.absolute && runtime.canonical && runtime.directory &&
    runtime.uid = uid && runtime.mode = 0o700

/-- The name of the socket in the runtime directory. -/
def socketName (name : String) : String := name ++ ".sock"

/-- The name of the lock file in the runtime directory. -/
def lockName (name : String) : String := "." ++ name ++ ".sock.lock"

/-- The name is that of a lock file. -/
def isLockName (entry : String) : Bool :=
  ['.'].isPrefixOf entry.toList && ".sock.lock".toList.isSuffixOf entry.toList

/-- The directory, its inodes and their locks. -/
structure Disk where
  /-- The inodes of the entries. -/
  entries : AList fun _ : String => ℕ
  /-- The inodes. -/
  nodes : ℕ → Node
  /-- The call that holds the lock on an inode. -/
  locks : ℕ → Option ℕ

namespace Disk

/-- A new entry with a new inode. -/
def create (d : Disk) (entry : String) (ino : ℕ) (node : Node) : Disk :=
  { d with entries := d.entries.insert entry ino, nodes := Function.update d.nodes ino node }

/-- `remove_file`, which does not remove a directory. -/
def unlink (d : Disk) (entry : String) : Disk :=
  if (d.entries.lookup entry).any fun ino => (d.nodes ino).kind = .directory then d
  else { d with entries := d.entries.erase entry }

/-- Change an inode. -/
def modify (d : Disk) (ino : ℕ) (f : Node → Node) : Disk :=
  { d with nodes := Function.update d.nodes ino (f (d.nodes ino)) }

/-- The lock of an inode is taken by a call. -/
def acquire (d : Disk) (ino k : ℕ) : Disk :=
  { d with locks := Function.update d.locks ino (some k) }

/-- A call closes its lock file: its lock is gone, if it held it. -/
def release (d : Disk) (ino k : ℕ) : Disk :=
  if d.locks ino = some k then { d with locks := Function.update d.locks ino none } else d

/-- A call closes its socket. -/
def hangUp (d : Disk) (ino : ℕ) : Disk := d.modify ino fun node => { node with listening := false }

end Disk

/-- Where a call is, with the inodes of its lock file and of its socket. -/
inductive Phase where
  /-- It is about to open the lock file. -/
  | opening
  /-- The lock file is open. -/
  | opened (lock : ℕ)
  /-- The lock file is a safe one. -/
  | checked (lock : ℕ)
  /-- It holds the lock. -/
  | locked (lock : ℕ)
  /-- A socket of the user is in the place. -/
  | inspected (lock found : ℕ)
  /-- What is in the place refused a connection. -/
  | refused (lock found : ℕ)
  /-- The socket that was found is still in the place. -/
  | confirmed (lock found : ℕ)
  /-- Nothing is in the place. -/
  | vacant (lock : ℕ)
  /-- Its socket is bound. -/
  | bound (lock own : ℕ)
  /-- Its socket listens. -/
  | listening (lock own : ℕ)
  /-- `JsonlListener` is built, with the inode in the place as its identity. -/
  | identified (lock own identity : ℕ)
  /-- `bind` has returned the `JsonlListener`. -/
  | serving (lock own identity : ℕ)
  /-- The `JsonlListener` is dropped. -/
  | dropping (lock own identity : ℕ)
  /-- The drop has seen its identity in the place. -/
  | matched (lock own identity : ℕ)
  /-- It is about to close its socket. -/
  | closing (lock own : ℕ)
  /-- It is about to close its lock file. -/
  | releasing (lock : ℕ)
  /-- Its process ends, and these files are still to be closed. -/
  | dying (lock own : Option ℕ)
  /-- It has ended. -/
  | ended
deriving DecidableEq

/-- The inode of the open lock file. -/
def Phase.lock : Phase → Option ℕ
  | opening | ended => none
  | opened l | checked l | locked l | inspected l _ | refused l _ | confirmed l _ | vacant l
  | bound l _ | listening l _ | identified l _ _ | serving l _ _ | dropping l _ _ | matched l _ _
  | closing l _ | releasing l => some l
  | dying l _ => l

/-- The inode of the socket that the call has bound. -/
def Phase.own : Phase → Option ℕ
  | bound _ i | listening _ i | identified _ i _ | serving _ i _ | dropping _ i _ | matched _ i _
  | closing _ i => some i
  | dying _ i => i
  | _ => none

/-- The call holds its lock. -/
def Phase.critical : Phase → Bool
  | opening | ended | opened _ | checked _ | releasing _ | dying _ _ => false
  | _ => true

/-- A call of `bind` and what becomes of its listener. -/
structure Call where
  /-- The name of the socket. -/
  name : String
  /-- The effective user. -/
  uid : ℕ
  /-- The permissions that new files do not get. -/
  umask : UInt32
  /-- Where it is. -/
  phase : Phase
deriving DecidableEq

/-- The calls and the directory. -/
structure System where
  /-- The directory. -/
  disk : Disk
  /-- The calls, in the order of their arrival. -/
  calls : List Call

/-- What a call does. -/
inductive Event where
  /-- `open` of the lock file, with the inode that it gets if it is new. -/
  | openLock (ino : ℕ)
  /-- The lock file's metadata is inspected. -/
  | checkLock
  /-- `flock` -/
  | flock
  /-- `symlink_metadata` of the place. -/
  | inspect
  /-- `connect` to the place, which is refused. -/
  | connect
  /-- `symlink_metadata` of the place, once more. -/
  | confirm
  /-- `remove_file` of the place. -/
  | remove
  /-- `bind`, with the inode that the socket gets. -/
  | bind (ino : ℕ)
  /-- `listen` -/
  | listen
  /-- `symlink_metadata` of the place, for the identity. -/
  | identify
  /-- `set_permissions` of the place. -/
  | permit
  /-- The drop of the `JsonlListener` begins. -/
  | drop
  /-- The drop compares what is in the place with its identity. -/
  | compare
  /-- The drop removes what is in the place. -/
  | unlink
  /-- The socket is closed. -/
  | close
  /-- The lock file is closed. -/
  | release
  /-- A system call or a condition fails, or the call is dropped while it waits. -/
  | fail
  /-- The process ends. -/
  | die
  /-- The ending process closes the lock file. -/
  | dieLock
  /-- The ending process closes the socket. -/
  | dieSocket
deriving DecidableEq

/-- What happens. -/
inductive Label where
  /-- `bind` is called. -/
  | call (name : String) (uid : ℕ) (umask : UInt32)
  /-- A call does something. -/
  | act (k : ℕ) (e : Event)
  /-- Another program makes an entry lead to an inode, or removes it. -/
  | relink (entry : String) (target : Option ℕ)
  /-- Another program changes an inode. -/
  | alter (ino : ℕ) (node : Node)
deriving DecidableEq

/-- Where a failure leads: what the call owns is dropped, the youngest first. -/
def Phase.onFailure : Phase → Option Phase
  | opening => some .ended
  | opened l | checked l | locked l | inspected l _ | refused l _ | confirmed l _ | vacant l =>
    some (.releasing l)
  | bound l i | listening l i => some (.closing l i)
  | identified l i d => some (.dropping l i d)
  | dropping l i _ | matched l i _ => some (.closing l i)
  | _ => none

namespace System

/-- The inode is that of an open file. -/
def Held (s : System) (ino : ℕ) : Prop :=
  ∃ c ∈ s.calls, c.phase.lock = some ino ∨ c.phase.own = some ino

instance (s : System) (ino : ℕ) : Decidable (s.Held ino) :=
  inferInstanceAs (Decidable (∃ c ∈ s.calls, c.phase.lock = some ino ∨ c.phase.own = some ino))

/-- The kernel can hand the inode out. -/
def Fresh (s : System) (ino : ℕ) : Prop :=
  (∀ entry ∈ s.disk.entries.entries, entry.2 ≠ ino) ∧ ¬ s.Held ino

instance (s : System) (ino : ℕ) : Decidable (s.Fresh ino) :=
  inferInstanceAs (Decidable ((∀ entry ∈ s.disk.entries.entries, entry.2 ≠ ino) ∧ ¬ s.Held ino))

/-- The inode in the place of the socket of a call. -/
def place (s : System) (c : Call) : Option ℕ := s.disk.entries.lookup (socketName c.name)

/-- A lock file of the user that no one else can have changed. -/
def safeLock (node : Node) (uid : ℕ) : Bool :=
  node.kind = .regular && node.uid = uid && node.mode = 0o600 && node.links = 1

/-- What a call does, as its next phase and the directory after it. -/
def act (s : System) (k : ℕ) (c : Call) (e : Event) : Option (Phase × Disk) :=
  match c.phase, e with
  | .opening, .openLock ino =>
    match s.disk.entries.lookup (lockName c.name) with
    -- `NOFOLLOW` refuses a symlink, and neither a directory nor a socket is opened for writing.
    | some l =>
      if (s.disk.nodes l).kind = .regular ∨ (s.disk.nodes l).kind = .other then
        some (.opened l, s.disk)
      else none
    | none =>
      if s.Fresh ino then
        some (.opened ino, s.disk.create (lockName c.name) ino
          ⟨.regular, c.uid, 0o600 &&& ~~~c.umask, 1, false⟩)
      else none
  | .opened l, .checkLock =>
    if safeLock (s.disk.nodes l) c.uid then some (.checked l, s.disk) else none
  | .checked l, .flock =>
    if s.disk.locks l = none then some (.locked l, s.disk.acquire l k) else none
  | .locked l, .inspect =>
    match s.place c with
    | some m =>
      if (s.disk.nodes m).kind = .socket ∧ (s.disk.nodes m).uid = c.uid then
        some (.inspected l m, s.disk)
      else none
    | none => some (.vacant l, s.disk)
  | .inspected l m, .connect =>
    -- Whatever is in the place refuses, unless a process listens on it.
    match s.place c with
    | some i =>
      if (s.disk.nodes i).kind = .socket ∧ (s.disk.nodes i).listening then none
      else some (.refused l m, s.disk)
    | none => none
  | .refused l m, .confirm =>
    if s.place c = some m then some (.confirmed l m, s.disk) else none
  | .confirmed l _, .remove =>
    match s.place c with
    | some i =>
      if (s.disk.nodes i).kind = .directory then none
      else some (.vacant l, s.disk.unlink (socketName c.name))
    | none => none
  | .vacant l, .bind ino =>
    if s.place c = none ∧ s.Fresh ino then
      some (.bound l ino, s.disk.create (socketName c.name) ino
        ⟨.socket, c.uid, 0o777 &&& ~~~c.umask, 1, false⟩)
    else none
  | .bound l i, .listen =>
    some (.listening l i, s.disk.modify i fun node => { node with listening := true })
  | .listening l i, .identify =>
    match s.place c with
    | some d => some (.identified l i d, s.disk)
    | none => none
  | .identified l i d, .permit =>
    match s.place c with
    | some m => some (.serving l i d, s.disk.modify m fun node => { node with mode := 0o700 })
    | none => none
  | .serving l i d, .drop => some (.dropping l i d, s.disk)
  | .dropping l i d, .compare =>
    if s.place c = some d ∧ (s.disk.nodes d).kind = .socket then some (.matched l i d, s.disk)
    else some (.closing l i, s.disk)
  | .matched l i _, .unlink => some (.closing l i, s.disk.unlink (socketName c.name))
  | .closing l i, .close => some (.releasing l, s.disk.hangUp i)
  | .releasing l, .release => some (.ended, s.disk.release l k)
  | phase, .fail => phase.onFailure.map fun phase' => (phase', s.disk)
  | .dying _ _, .die => none
  | .ended, .die => none
  | phase, .die => some (.dying phase.lock phase.own, s.disk)
  | .dying (some l) own, .dieLock => some (.dying none own, s.disk.release l k)
  | .dying lock (some i), .dieSocket => some (.dying lock none, s.disk.hangUp i)
  | _, _ => none

/-- One step. Another program leaves the lock files in their places, and neither makes an open file
another kind of file nor listens on its behalf. -/
def step (runtime : Runtime) (s : System) : Label → Option System
  | .call name uid umask =>
    let phase := if runtime.admits name uid then .opening else .ended
    some { s with calls := s.calls ++ [⟨name, uid, umask, phase⟩] }
  | .act k e =>
    match s.calls[k]? with
    | some c => (s.act k c e).map fun (phase, disk) =>
      ⟨disk, s.calls.set k { c with phase := phase }⟩
    | none => none
  | .relink entry target =>
    if isLockName entry then none
    else
      let entries := match target with
        | some ino => s.disk.entries.insert entry ino
        | none => s.disk.entries.erase entry
      some { s with disk := { s.disk with entries := entries } }
  | .alter ino node =>
    if s.Held ino →
        node.kind = (s.disk.nodes ino).kind ∧ node.listening = (s.disk.nodes ino).listening then
      some { s with disk := s.disk.modify ino fun _ => node }
    else none

end System

/-- The calls in a runtime directory with these entries. -/
def binders (runtime : Runtime) (entries : AList fun _ : String => ℕ) (nodes : ℕ → Node) :
    Machine System Label :=
  ⟨⟨⟨entries, nodes, fun _ => none⟩, []⟩, System.step runtime⟩

/-- The private runtime directory of the user 1000. -/
def privateRuntime : Runtime := ⟨true, true, true, 1000, 0o700⟩

/-- An empty runtime directory. -/
def emptyRuntime : Machine System Label := binders privateRuntime ∅ fun _ => ⟨.other, 0, 0, 0, false⟩

/-- A first call of the user binds a socket in an empty directory. -/
def firstBind : List Label :=
  .call "bar" 1000 0o077 :: [.openLock 1, .checkLock, .flock, .inspect, .bind 2, .listen, .identify,
    .permit].map (.act 0)

end DaemonFramework.Socket.Listener
