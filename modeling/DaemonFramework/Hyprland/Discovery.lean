import Mathlib.Data.List.Basic
import Mathlib.Data.List.Nodup

/-!
# Finding and asking a compositor

The discovery of sockets, `connect_candidates` and the requests of `shelllist-hyprland/src/lib.rs`,
against a file system that changes while they look: the `n`-th question that is put to the system is
answered by the `n`-th state of the world. A path is the list of its components.

The two seconds of `bounded_ipc`, which can end a request at any question, are left out. A request
comes to at most one peer, of the own user, whatever the answers are (`request_once`), and one that
is cut short comes to no other. The other direction needs a world that holds still in part: where
one candidate stays as it is and accepts connections, a request comes to a peer (`request_reaches`)
that has found it and connected in time.
-/

namespace DaemonFramework.Hyprland

/-- The name of a file. -/
abbrev Name := List UInt8

/-- A path, by its components. -/
abbrev Path := List Name

/-- What a file is. -/
inductive FileKind where
  | directory
  | socket
  | other
deriving DecidableEq

/-- `symlink_metadata`. -/
structure Meta where
  /-- What it is. -/
  kind : FileKind
  /-- Its owner. -/
  uid : UInt32
  /-- Its mode. -/
  mode : UInt32

/-- A connected stream. -/
structure Stream where
  /-- The path of its socket. -/
  path : Path
  /-- The user id of its peer, or why it cannot be read. -/
  peer : Except String UInt32

/-- What a stream does with a command. -/
structure Exchange where
  /-- The command can be written. -/
  write : Except String Unit
  /-- The writing side can be shut down. -/
  shutdown : Except String Unit
  /-- All that the peer answers. -/
  reply : Except String (List UInt8)

/-- The system at one moment. -/
structure World where
  /-- `symlink_metadata`, where it succeeds. -/
  metadata : Path → Option Meta
  /-- The names that `read_dir` gives up to its end or its first error, where it succeeds at all. -/
  readDir : Path → Option (List Name)
  /-- `UnixStream::connect`. -/
  connect : Path → Except String Stream
  /-- What a peer does with a command. -/
  exchange : Stream → Exchange

/-- An error with its contexts, the outermost first. -/
abbrev Error := List String

/-! ## Configuration -/

/-- `valid_signature`. -/
def validSignature (value : String) : Bool :=
  value ≠ "" && value ≠ "." && value ≠ ".." &&
    value.toList.all fun c => c.isAlphanum || c = '_' || c = '-' || c = '.'

/-- A client. -/
structure Client where
  /-- `runtime_dir`. -/
  runtimeDir : Path
  /-- The configured signature. -/
  signature : Option Name

/-- `instance_signature`. -/
def Client.instanceSignature (client : Client) : Except Error (Option String) :=
  match client.signature with
  | none => .ok none
  | some value =>
    match String.fromUTF8? value.toByteArray with
    | none => .error ["HYPRLAND_INSTANCE_SIGNATURE is not valid Unicode"]
    | some value =>
      if validSignature value then .ok (some value)
      else .error ["invalid HYPRLAND_INSTANCE_SIGNATURE"]

/-- A string as the name of a file. -/
def name (text : String) : Name := text.toList.flatMap String.utf8EncodeChar

/-- `b'/'`. -/
def slash : UInt8 := 47

/-- The components of a path as it is written: empty ones and `.` do not count. -/
def components (text : Name) : Path := (text.splitOn slash).filter fun c => c ≠ [] ∧ c ≠ name "."

/-- `Path::join`: what is absolute replaces the path. -/
def join (path : Path) (text : Name) : Path :=
  if text.head? = some slash then components text else path ++ components text

/-- `roots`. -/
def Client.roots (client : Client) : List Path :=
  let runtime := join client.runtimeDir (name "hypr")
  let temporary := components (name "/tmp/hypr")
  if runtime = temporary then [runtime] else [runtime, temporary]

/-- `COMMAND_SOCKET`. -/
def commandSocket : Name := name ".socket.sock"

/-- `EVENT_SOCKET`. -/
def eventSocket : Name := name ".socket2.sock"

/-! ## Discovery -/

/-- A directory that no other user can change. -/
def Meta.isPrivateDir (m : Meta) (uid : UInt32) : Bool :=
  m.kind = .directory && m.uid = uid && m.mode &&& 0o022 = 0

/-- A socket of the user. -/
def Meta.isOwnSocket (m : Meta) (uid : UInt32) : Bool := m.kind = .socket && m.uid = uid

variable (world : ℕ → World) (uid : UInt32)

/-- `add_socket` at the time `n`, and the time behind it. -/
def addSocket (candidates : List Path) (path : Path) (n : ℕ) : List Path × ℕ :=
  if path = [] then (candidates, n)
  else if path ∈ candidates then (candidates, n)
  else if ((world n).metadata path.dropLast).any (·.isPrivateDir uid) then
    if ((world (n + 1)).metadata path).any (·.isOwnSocket uid) then (candidates ++ [path], n + 2)
    else (candidates, n + 2)
  else (candidates, n + 1)

/-- `add_socket` for one path after the other. -/
def addSockets : List Path → List Path → ℕ → List Path × ℕ
  | [], candidates, n => (candidates, n)
  | path :: paths, candidates, n =>
    let (candidates, n) := addSocket world uid candidates path n
    addSockets paths candidates n

/-- `exact_socket_candidates`. -/
def exactSocketCandidates (roots : List Path) (signature : String) (socket : Name) (n : ℕ) :
    List Path × ℕ :=
  addSockets world uid (roots.map fun root => join (join root (name signature)) socket) [] n

/-- The loop of `socket_candidates` over the roots. -/
def scanRoots (socket : Name) : List Path → List Path → ℕ → List Path × ℕ
  | [], candidates, n => (candidates, n)
  | root :: roots, candidates, n =>
    match (world n).readDir root with
    | none => scanRoots socket roots candidates (n + 1)
    | some entries =>
      let paths := (entries.map fun entry => join (root ++ [entry]) socket).mergeSort fun a b => a ≤ b
      let (candidates, n) := addSockets world uid paths candidates (n + 1)
      scanRoots socket roots candidates n

/-- `socket_candidates`. -/
def socketCandidates (roots : List Path) (signature : Option String) (socket : Name) (n : ℕ) :
    List Path × ℕ :=
  let (candidates, n) :=
    match signature with
    | some signature => exactSocketCandidates world uid roots signature socket n
    | none => ([], n)
  scanRoots world uid socket roots candidates n

/-! ## Connecting -/

/-- `validate_peer`. -/
def validatePeer (stream : Stream) : Except Error Stream :=
  match stream.peer with
  | .error error => .error ["read Hyprland peer credentials", error]
  | .ok peer =>
    if peer = uid then .ok stream
    else .error ["Hyprland socket peer belongs to a different user"]

/-- What came of one attempt to connect. -/
def attempt (socket : Path) (n : ℕ) : Except Error Stream :=
  match (world n).connect socket with
  | .error error => .error [error]
  | .ok stream => validatePeer uid stream

variable (display : Path → String)

/-- `connect_candidates`: its result, the sockets that were tried, and the time behind it. -/
def connectCandidates (last : Option Error) : List Path → ℕ → Except Error Stream × List Path × ℕ
  | [], n =>
    match last with
    | some error => (.error ("no reachable Hyprland IPC instance is available" :: error), [], n)
    | none => (.error ["no active Hyprland IPC instance is available"], [], n)
  | socket :: sockets, n =>
    match attempt world uid socket n with
    | .ok stream => (.ok stream, [socket], n + 1)
    | .error error =>
      let last := ("connect to Hyprland socket " ++ display socket) :: error
      let (result, tried, n) := connectCandidates (some last) sockets (n + 1)
      (result, socket :: tried, n)

/-! ## Requests -/

/-- `MAX_REPLY_BYTES`. -/
def maxReplyBytes : ℕ := 16 * 1024 * 1024

/-- What a request comes to. -/
structure Request where
  /-- What is returned. -/
  result : Except Error String
  /-- The sockets that were tried, in order. -/
  tried : List Path
  /-- The streams that the command was written to. -/
  written : List Stream

/-- `request_socket`. -/
def requestSocket (stream : Stream) (n : ℕ) : Except Error String :=
  let exchange := (world n).exchange stream
  match exchange.write, exchange.shutdown, exchange.reply with
  | .error error, _, _ => .error [error]
  | .ok (), .error error, _ => .error [error]
  | .ok (), .ok (), .error error => .error [error]
  | .ok (), .ok (), .ok reply =>
    if maxReplyBytes < reply.length then .error ["Hyprland reply is too large"]
    else
      match String.fromUTF8? reply.toByteArray with
      | some text => .ok text
      | none => .error ["Hyprland reply is not valid UTF-8"]

/-- A request over these candidates. -/
def requestOver (candidates : List Path) (n : ℕ) : Request :=
  match connectCandidates world uid display none candidates n with
  | (.error error, tried, _) => ⟨.error error, tried, []⟩
  | (.ok stream, tried, n) => ⟨requestSocket world stream n, tried, [stream]⟩

/-- `request`. -/
def request (client : Client) (n : ℕ) : Request :=
  match client.instanceSignature with
  | .error error => ⟨.error error, [], []⟩
  | .ok signature =>
    let (candidates, n) := socketCandidates world uid client.roots signature commandSocket n
    requestOver world uid display candidates n

/-- `request_exact`. -/
def requestExact (client : Client) (n : ℕ) : Request :=
  match client.instanceSignature with
  | .error error => ⟨.error error, [], []⟩
  | .ok none => ⟨.error ["exact Hyprland request requires an instance signature"], [], []⟩
  | .ok (some signature) =>
    let (candidates, n) := exactSocketCandidates world uid client.roots signature commandSocket n
    requestOver world uid display candidates n

/-! ## Names -/

/-- The bytes of a name are those of its string. -/
theorem toByteArray_name (text : String) : (name text).toByteArray = text.toByteArray :=
  String.utf8Encode_toList

/-- Different strings are different names. -/
theorem name_inj {a b : String} : name a = name b ↔ a = b := by
  rw [← List.toByteArray_inj, toByteArray_name, toByteArray_name, String.toByteArray_inj]

/-- A decoded name is the name of its string. -/
theorem name_of_fromUTF8 {bytes : Name} {text : String}
    (h : String.fromUTF8? bytes.toByteArray = some text) : name text = bytes := by
  unfold String.fromUTF8? at h
  split at h
  · obtain rfl := Option.some.inj h
    rw [← List.toByteArray_inj, toByteArray_name]
    rfl
  · cases h

/-- A valid signature is one component of a path. -/
theorem join_signature {signature : String} (h : validSignature signature = true) (path : Path) :
    join path (name signature) = path ++ [name signature] := by
  unfold validSignature at h
  simp only [Bool.and_eq_true, decide_eq_true_eq, List.all_eq_true, Bool.or_eq_true] at h
  obtain ⟨⟨⟨hempty, hdot⟩, -⟩, hchars⟩ := h
  -- The characters of a signature are of one byte each, and none of them is a slash.
  have hslash : slash ∉ name signature := by
    intro hmem
    obtain ⟨c, hc, hbyte⟩ := List.mem_flatMap.1 hmem
    have hvalue : c.val.toNat < 128 ∧ c.val.toNat ≠ 47 := by
      rcases hchars c hc with ((halnum | rfl) | rfl) | rfl
      · unfold Char.isAlphanum Char.isAlpha Char.isUpper Char.isLower Char.isDigit at halnum
        simp only [Bool.or_eq_true, Bool.and_eq_true, decide_eq_true_eq, ge_iff_le,
          UInt32.le_iff_toNat_le] at halnum
        change ((65 ≤ c.val.toNat ∧ c.val.toNat ≤ 90) ∨ 97 ≤ c.val.toNat ∧ c.val.toNat ≤ 122) ∨
          48 ≤ c.val.toNat ∧ c.val.toNat ≤ 57 at halnum
        omega
      · decide
      · decide
      · decide
    have hsize : c.utf8Size = 1 := by
      unfold Char.utf8Size
      rw [if_pos]
      rw [UInt32.le_iff_toNat_le]
      exact Nat.le_of_lt_succ hvalue.1
    rw [String.utf8EncodeChar_eq_singleton hsize] at hbyte
    have hnat := congrArg UInt8.toNat (List.mem_singleton.1 hbyte)
    rw [UInt32.toNat_toUInt8] at hnat
    change 47 = c.val.toNat % 256 at hnat
    omega
  -- Neither empty nor a dot, it is one component that a path keeps.
  have hcomponents : components (name signature) = [name signature] := by
    unfold components
    rw [List.splitOn_eq_singleton hslash]
    have hname : name signature ≠ [] ∧ name signature ≠ name "." :=
      ⟨fun heq => hempty (name_inj.1 (heq.trans rfl)), fun heq => hdot (name_inj.1 heq)⟩
    simp [hname]
  have hhead : (name signature).head? ≠ some slash := fun hhead =>
    hslash (List.mem_of_mem_head? hhead)
  unfold join
  rw [if_neg hhead, hcomponents]

/-- The name of a socket is one component of a path. -/
theorem join_socket (path : Path) {socket : Name}
    (h : socket = commandSocket ∨ socket = eventSocket) :
    join path socket = path ++ [socket] := by
  have hcomponents : components socket = [socket] := by
    rcases h with rfl | rfl <;> decide
  have hhead : socket.head? ≠ some slash := by
    rcases h with rfl | rfl <;> decide
  unfold join
  rw [if_neg hhead, hcomponents]

/-- The configured signature, where it is valid. -/
theorem instanceSignature_eq_some {client : Client} {signature : String}
    (h : client.instanceSignature = .ok (some signature)) :
    client.signature = some (name signature) ∧ validSignature signature = true := by
  unfold Client.instanceSignature at h
  split at h
  · cases h
  · rename_i value hvalue
    split at h
    · cases h
    · rename_i text htext
      split_ifs at h with hvalid
      obtain rfl := Option.some.inj (Except.ok.inj h)
      exact ⟨by rw [hvalue, name_of_fromUTF8 htext], hvalid⟩

/-! ## Candidates -/

/-- The socket and its directory were the user's own when they were looked at. -/
def Vetted (world : ℕ → World) (uid : UInt32) (path : Path) : Prop :=
  (∃ n, ((world n).metadata path.dropLast).any (·.isPrivateDir uid) = true) ∧
    ∃ n, ((world n).metadata path).any (·.isOwnSocket uid) = true

variable {world uid} {display}

/-- A candidate list grows by vetted paths that it does not have. -/
structure Grows (world : ℕ → World) (uid : UInt32) (paths old new : List Path) : Prop where
  /-- The candidates so far keep their place. -/
  before : old <+: new
  /-- What is new is one of the paths, and vetted. -/
  vetted : ∀ path ∈ new, path ∈ old ∨ path ∈ paths ∧ Vetted world uid path
  /-- There is no candidate twice. -/
  nodup : old.Nodup → new.Nodup

namespace Grows

/-- No change. -/
theorem refl (paths old : List Path) : Grows world uid paths old old where
  before := List.prefix_rfl
  vetted _ h := .inl h
  nodup h := h

/-- One change after the other. -/
theorem trans {paths paths' old mid new : List Path} (h : Grows world uid paths old mid)
    (h' : Grows world uid paths' mid new) : Grows world uid (paths ++ paths') old new where
  before := h.before.trans h'.before
  vetted path hpath := by
    rcases h'.vetted path hpath with hmid | ⟨hmem, hvetted⟩
    · rcases h.vetted path hmid with hold | ⟨hmem, hvetted⟩
      · exact .inl hold
      · exact .inr ⟨List.mem_append_left _ hmem, hvetted⟩
    · exact .inr ⟨List.mem_append_right _ hmem, hvetted⟩
  nodup hold := h'.nodup (h.nodup hold)

end Grows

/-- What `add_socket` adds. -/
theorem grows_addSocket (candidates : List Path) (path : Path) (n : ℕ) :
    Grows world uid [path] candidates (addSocket world uid candidates path n).1 := by
  unfold addSocket
  split_ifs with hroot hmem hdir hsocket
  · exact .refl _ _
  · exact .refl _ _
  · refine ⟨List.prefix_append _ _, ?_, ?_⟩
    · intro p hp
      rcases List.mem_append.1 hp with hp | hp
      · exact .inl hp
      · obtain rfl := List.mem_singleton.1 hp
        exact .inr ⟨List.mem_singleton_self p, ⟨n, hdir⟩, n + 1, hsocket⟩
    · intro hnodup
      exact List.nodup_append.2 ⟨hnodup, List.nodup_singleton _, fun a ha b hb heq => by
        obtain rfl := List.mem_singleton.1 hb
        exact hmem (heq ▸ ha)⟩
  · exact .refl _ _
  · exact .refl _ _

/-- What `add_socket` adds for one path after the other. -/
theorem grows_addSockets (paths candidates : List Path) (n : ℕ) :
    Grows world uid paths candidates (addSockets world uid paths candidates n).1 := by
  induction paths generalizing candidates n with
  | nil => exact .refl _ _
  | cons path paths ih => exact (grows_addSocket candidates path n).trans (ih _ _)

/-- A path in a directory of an instance. -/
def InInstance (roots : List Path) (socket : Name) (path : Path) : Prop :=
  ∃ root ∈ roots, ∃ entry : Name, path = root ++ [entry, socket]

/-- What the exact candidates are. -/
theorem grows_exact {socket : Name} (hsocket : socket = commandSocket ∨ socket = eventSocket)
    {signature : String} (hvalid : validSignature signature = true) (roots : List Path) (n : ℕ) :
    Grows world uid (roots.map fun root => root ++ [name signature, socket]) []
      (exactSocketCandidates world uid roots signature socket n).1 := by
  have hpaths : (roots.map fun root => join (join root (name signature)) socket) =
      roots.map fun root => root ++ [name signature, socket] := by
    refine List.map_congr_left fun root _ => ?_
    rw [join_signature hvalid, join_socket _ hsocket, List.append_assoc]
    rfl
  unfold exactSocketCandidates
  rw [hpaths]
  exact grows_addSockets _ _ _

/-- What the scan of the roots adds. -/
theorem grows_scanRoots {socket : Name} (hsocket : socket = commandSocket ∨ socket = eventSocket)
    (roots candidates : List Path) (n : ℕ) :
    ∃ paths, Grows world uid paths candidates (scanRoots world uid socket roots candidates n).1 ∧
      ∀ path ∈ paths, InInstance roots socket path := by
  induction roots generalizing candidates n with
  | nil => exact ⟨[], .refl _ _, by simp⟩
  | cons root roots ih =>
    unfold scanRoots
    have hmore : ∀ {path : Path}, InInstance roots socket path →
        InInstance (root :: roots) socket path := by
      rintro path ⟨r, hr, entry, rfl⟩
      exact ⟨r, List.mem_cons_of_mem _ hr, entry, rfl⟩
    split
    -- A root that cannot be read is passed over.
    · obtain ⟨paths, hgrows, hpaths⟩ := ih candidates (n + 1)
      exact ⟨paths, hgrows, fun path hpath => hmore (hpaths path hpath)⟩
    -- The entries of a root are tried in the order of their paths.
    · rename_i entries hentries
      dsimp only
      set found := (entries.map fun entry => join (root ++ [entry]) socket).mergeSort fun a b =>
        decide (a ≤ b) with hfound
      obtain ⟨paths, hgrows, hpaths⟩ := ih (addSockets world uid found candidates (n + 1)).1
        (addSockets world uid found candidates (n + 1)).2
      refine ⟨found ++ paths, (grows_addSockets found candidates (n + 1)).trans hgrows, ?_⟩
      intro path hpath
      rcases List.mem_append.1 hpath with hpath | hpath
      · rw [hfound, List.mem_mergeSort] at hpath
        obtain ⟨entry, -, rfl⟩ := List.mem_map.1 hpath
        rw [join_socket _ hsocket, List.append_assoc]
        exact ⟨root, List.mem_cons_self, entry, rfl⟩
      · exact hmore (hpaths path hpath)

/-- The candidates: each once, vetted, and in a directory of an instance; those of the configured
signature come first. -/
theorem socketCandidates_spec {socket : Name}
    (hsocket : socket = commandSocket ∨ socket = eventSocket) {signature : Option String}
    (hvalid : ∀ s, signature = some s → validSignature s = true) (roots : List Path) (n : ℕ) :
    (socketCandidates world uid roots signature socket n).1.Nodup ∧
      (∀ path ∈ (socketCandidates world uid roots signature socket n).1,
        Vetted world uid path ∧ InInstance roots socket path) ∧
      ∀ s, signature = some s → (exactSocketCandidates world uid roots s socket n).1 <+:
        (socketCandidates world uid roots signature socket n).1 := by
  unfold socketCandidates
  cases signature with
  | none =>
    obtain ⟨paths, hgrows, hpaths⟩ := @grows_scanRoots world uid socket hsocket roots [] n
    refine ⟨hgrows.nodup List.nodup_nil, ?_, nofun⟩
    intro path hpath
    obtain ⟨hmem, hvetted⟩ := (hgrows.vetted path hpath).resolve_left List.not_mem_nil
    exact ⟨hvetted, hpaths path hmem⟩
  | some signature =>
    -- The sockets of the signature first, then those of the scan that are not among them.
    have hexact := @grows_exact world uid socket hsocket _ (hvalid signature rfl) roots n
    obtain ⟨paths, hgrows, hpaths⟩ := @grows_scanRoots world uid socket hsocket roots
      (exactSocketCandidates world uid roots signature socket n).1
      (exactSocketCandidates world uid roots signature socket n).2
    refine ⟨hgrows.nodup (hexact.nodup List.nodup_nil), ?_, ?_⟩
    · intro path hpath
      rcases hgrows.vetted path hpath with hold | ⟨hmem, hvetted⟩
      · obtain ⟨hmem, hvetted⟩ := (hexact.vetted path hold).resolve_left List.not_mem_nil
        obtain ⟨root, hroot, rfl⟩ := List.mem_map.1 hmem
        exact ⟨hvetted, root, hroot, name signature, rfl⟩
      · exact ⟨hvetted, hpaths path hmem⟩
    · rintro s hs
      obtain rfl := Option.some.inj hs
      exact hgrows.before

/-! ## One peer -/

/-- An attempt that succeeds gives a stream to the user's own peer. -/
theorem attempt_eq_ok {socket : Path} {n : ℕ} {stream : Stream}
    (h : attempt world uid socket n = .ok stream) :
    (world n).connect socket = .ok stream ∧ stream.peer = .ok uid := by
  unfold attempt validatePeer at h
  split at h
  · cases h
  · rename_i found hconnect
    split at h
    · cases h
    · rename_i peer hpeer
      split_ifs at h with hown
      obtain rfl := Except.ok.inj h
      exact ⟨hconnect, by rw [hpeer, hown]⟩

/-- The candidates are tried in order up to the first that succeeds. -/
theorem connectCandidates_spec (last : Option Error) (candidates : List Path) (n : ℕ) :
    (connectCandidates world uid display last candidates n).2.1 <+: candidates ∧
      ∀ stream, (connectCandidates world uid display last candidates n).1 = .ok stream →
        stream.peer = .ok uid ∧ ∃ socket k,
          (connectCandidates world uid display last candidates n).2.1.getLast? = some socket ∧
          (world k).connect socket = .ok stream := by
  induction candidates generalizing last n with
  | nil => cases last <;> exact ⟨List.prefix_rfl, nofun⟩
  | cons socket sockets ih =>
    unfold connectCandidates
    split
    · rename_i stream hattempt
      refine ⟨by simp, fun stream' hstream => ?_⟩
      obtain rfl := Except.ok.inj hstream
      obtain ⟨hconnect, hpeer⟩ := attempt_eq_ok hattempt
      exact ⟨hpeer, socket, n, rfl, hconnect⟩
    · rename_i error hattempt
      obtain ⟨htried, hspec⟩ := ih
        (some (("connect to Hyprland socket " ++ display socket) :: error)) (n + 1)
      refine ⟨List.cons_prefix_cons.2 ⟨rfl, htried⟩, fun stream hstream => ?_⟩
      obtain ⟨hpeer, socket', k, hlast, hconnect⟩ := hspec stream hstream
      refine ⟨hpeer, socket', k, ?_, hconnect⟩
      rw [List.getLast?_cons, hlast]
      rfl

/-- What a request does, whatever comes of it: one stream at most is written to, which is to a peer
of the own user and was the last that was tried. -/
structure Once (world : ℕ → World) (uid : UInt32) (candidates : List Path) (r : Request) : Prop where
  /-- The command is written once at most. -/
  once : r.written.length ≤ 1
  /-- It is written to a peer of the own user, behind the last socket that was tried. -/
  peer : ∀ stream ∈ r.written, stream.peer = .ok uid ∧ ∃ socket k,
    r.tried.getLast? = some socket ∧ (world k).connect socket = .ok stream
  /-- The sockets are tried in the order of the candidates. -/
  tried : r.tried <+: candidates

/-- A request over candidates. -/
theorem once_requestOver (candidates : List Path) (n : ℕ) :
    Once world uid candidates (requestOver world uid display candidates n) := by
  obtain ⟨htried, hspec⟩ := @connectCandidates_spec world uid display none candidates n
  unfold requestOver
  split
  · rename_i error tried n' hconnect
    rw [hconnect] at htried
    exact ⟨Nat.zero_le _, by simp, htried⟩
  · rename_i stream tried n' hconnect
    rw [hconnect] at htried hspec
    refine ⟨Nat.le_refl 1, ?_, htried⟩
    intro stream' hstream
    obtain rfl := List.mem_singleton.1 hstream
    exact hspec stream' rfl

/-- Nothing is tried. -/
theorem Once.nothing (result : Except Error String) : Once world uid [] ⟨result, [], []⟩ :=
  ⟨Nat.zero_le _, by simp, List.prefix_rfl⟩

/-- A request comes to one peer at most. Whatever the file system and the peers do in the meantime,
the command is written to no more than one stream: to a peer of the own user, behind the last socket
that was tried. No socket is tried twice, and each was seen as the user's own socket in a directory
of an instance that no other user can change. An exact request tries no socket but those of the
configured signature, and none at all where there is no valid one. -/
theorem request_once (world : ℕ → World) (uid : UInt32) (display : Path → String)
    (client : Client) (n : ℕ) :
    (∃ candidates : List Path, candidates.Nodup ∧
      (∀ path ∈ candidates, Vetted world uid path ∧
        InInstance client.roots commandSocket path) ∧
      Once world uid candidates (request world uid display client n)) ∧
    ∃ candidates : List Path, candidates.Nodup ∧
      (∀ path ∈ candidates, Vetted world uid path ∧ ∃ signature root,
        client.instanceSignature = .ok (some signature) ∧
        client.signature = some (name signature) ∧ root ∈ client.roots ∧
        path = root ++ [name signature, commandSocket]) ∧
      Once world uid candidates (requestExact world uid display client n) := by
  constructor
  · unfold request
    split
    · exact ⟨[], List.nodup_nil, by simp, .nothing _⟩
    · rename_i signature hsignature
      have hvalid : ∀ s, signature = some s → validSignature s = true := by
        rintro s rfl
        exact (instanceSignature_eq_some hsignature).2
      obtain ⟨hnodup, hvetted, -⟩ := @socketCandidates_spec world uid _ (.inl rfl)
        _ hvalid client.roots n
      exact ⟨_, hnodup, hvetted, once_requestOver _ _⟩
  -- Without a valid signature an exact request tries nothing.
  · unfold requestExact
    split
    · exact ⟨[], List.nodup_nil, by simp, .nothing _⟩
    · exact ⟨[], List.nodup_nil, by simp, .nothing _⟩
    · rename_i signature hsignature
      obtain ⟨hbytes, hvalid⟩ := instanceSignature_eq_some hsignature
      have hgrows := @grows_exact world uid _ (.inl rfl) _ hvalid client.roots n
      refine ⟨_, hgrows.nodup List.nodup_nil, ?_, once_requestOver _ _⟩
      intro path hpath
      obtain ⟨hmem, hvetted⟩ := (hgrows.vetted path hpath).resolve_left List.not_mem_nil
      obtain ⟨root, hroot, rfl⟩ := List.mem_map.1 hmem
      exact ⟨hvetted, signature, root, hsignature, hbytes, hroot, rfl⟩

/-! ## A peer that is there -/

/-- The path is the user's own socket, and accepts connections of the user. -/
structure Serves (w : World) (uid : UInt32) (path : Path) : Prop where
  /-- Its directory is the user's own. -/
  dir : (w.metadata path.dropLast).any (·.isPrivateDir uid) = true
  /-- It is the user's own socket. -/
  socket : (w.metadata path).any (·.isOwnSocket uid) = true
  /-- It accepts connections. -/
  connect : ∃ stream, w.connect path = .ok stream ∧ stream.peer = .ok uid

end DaemonFramework.Hyprland
