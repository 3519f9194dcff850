import DaemonFramework.Socket.Listener

/-!
# One listener at a socket

A lock file is never replaced, so all calls of one name lock one inode, and one of them at most is
between its `flock` and the close of its lock file (`listener_exclusive`). Whatever other programs
do to the other entries, this holds.

Where other programs leave the place of a socket alone, the call that holds the lock knows what is
in the place (`Knows`): nothing that it does can be overtaken, since the steps that change the place
or make a socket listen are steps of a call that holds the lock. So a socket that a process listens
on is unlinked by the drop of its own listener only (`live_listener_kept`).
-/

namespace DaemonFramework.Socket.Listener

/-! ## Names -/

/-- The name of a lock file is one. -/
theorem isLockName_lockName (name : String) : isLockName (lockName name) = true := by
  unfold isLockName lockName
  rw [Bool.and_eq_true, List.isPrefixOf_iff_prefix, List.isSuffixOf_iff_suffix, String.append_assoc,
    String.toList_append]
  exact ⟨⟨name.toList ++ ".sock.lock".toList, by simp [String.toList_append]⟩,
    ⟨".".toList ++ name.toList, by simp [String.toList_append]⟩⟩

/-- No socket is in the place of a lock file. -/
theorem isLockName_socketName (name : String) : isLockName (socketName name) = false := by
  unfold isLockName socketName
  rw [Bool.and_eq_false_iff, ← Bool.not_eq_true, ← Bool.not_eq_true, List.isSuffixOf_iff_suffix,
    String.toList_append]
  right
  intro h
  have hsuffix : ".lock".toList <:+ name.toList ++ ".sock".toList :=
    List.IsSuffix.trans ⟨".sock".toList, rfl⟩ h
  have heq := List.IsSuffix.eq_of_length
    (List.suffix_of_suffix_length_le hsuffix (List.suffix_append _ _) (Nat.le_refl 5)) rfl
  exact absurd heq (by decide)

/-- Different names have different sockets. -/
theorem socketName_injective {a b : String} (h : socketName a = socketName b) : a = b := by
  have hlist : a.toList ++ ".sock".toList = b.toList ++ ".sock".toList := by
    rw [← String.toList_append, ← String.toList_append]
    exact congrArg String.toList h
  exact String.toList_injective (List.append_cancel_right hlist)

/-- No lock file is a socket, whatever their names are. -/
theorem lockName_ne_socketName (a b : String) : lockName a ≠ socketName b := by
  intro h
  have hlock := isLockName_lockName a
  rw [h, isLockName_socketName] at hlock
  cases hlock

/-- Different names have different lock files. -/
theorem lockName_injective {a b : String} (h : lockName a = lockName b) : a = b := by
  have hlist : '.' :: (a.toList ++ ".sock.lock".toList) =
      '.' :: (b.toList ++ ".sock.lock".toList) := by
    have hchars := congrArg String.toList h
    simpa [lockName, String.toList_append] using hchars
  exact String.toList_injective (List.append_cancel_right (List.cons.inj hlist).2)

/-! ## What a call does to the directory -/

/-- Unlinking releases no lock. -/
@[simp] theorem Disk.unlink_locks (d : Disk) (entry : String) :
    (d.unlink entry).locks = d.locks := by
  unfold Disk.unlink
  split <;> rfl

/-- It leaves the nodes as they are. -/
@[simp] theorem Disk.unlink_nodes (d : Disk) (entry : String) :
    (d.unlink entry).nodes = d.nodes := by
  unfold Disk.unlink
  split <;> rfl

/-- Releasing a lock changes no entry. -/
@[simp] theorem Disk.release_entries (d : Disk) (ino k : ℕ) :
    (d.release ino k).entries = d.entries := by
  unfold Disk.release
  split <;> rfl

/-- Nor does it change a node. -/
@[simp] theorem Disk.release_nodes (d : Disk) (ino k : ℕ) : (d.release ino k).nodes = d.nodes := by
  unfold Disk.release
  split <;> rfl

/-- Another entry stays where it is. -/
theorem Disk.lookup_create {d : Disk} {a b : String} (h : a ≠ b) (ino : ℕ) (node : Node) :
    (d.create b ino node).entries.lookup a = d.entries.lookup a :=
  AList.lookup_insert_ne h

/-- Another entry stays where it is. -/
theorem Disk.lookup_unlink {d : Disk} {a b : String} (h : a ≠ b) :
    (d.unlink b).entries.lookup a = d.entries.lookup a := by
  unfold Disk.unlink
  split
  · rfl
  · exact AList.lookup_erase_ne h

/-- What a step of the call `k` makes of its phase and of the directory. -/
inductive Effect (s : System) (k : ℕ) (c : Call) : Phase → Disk → Prop where
  | keep {phase} (hlock : phase.lock = c.phase.lock) (hown : phase.own = c.phase.own)
      (hcritical : phase.critical → c.phase.critical) : Effect s k c phase s.disk
  | openLock {l} (hphase : c.phase = .opening)
      (hentry : s.disk.entries.lookup (lockName c.name) = some l) : Effect s k c (.opened l) s.disk
  | createLock {ino} (hphase : c.phase = .opening)
      (hentry : s.disk.entries.lookup (lockName c.name) = none) (hfresh : s.Fresh ino) :
      Effect s k c (.opened ino) (s.disk.create (lockName c.name) ino
        ⟨.regular, c.uid, 0o600 &&& ~~~c.umask, 1, false⟩)
  | acquire {l} (hphase : c.phase = .checked l) (hfree : s.disk.locks l = none) :
      Effect s k c (.locked l) (s.disk.acquire l k)
  | unlink {phase} (hlock : phase.lock = c.phase.lock) (hown : phase.own = c.phase.own)
      (hcritical : c.phase.critical) : Effect s k c phase (s.disk.unlink (socketName c.name))
  | bind {l ino} (hphase : c.phase = .vacant l) (hfresh : s.Fresh ino) :
      Effect s k c (.bound l ino) (s.disk.create (socketName c.name) ino
        ⟨.socket, c.uid, 0o777 &&& ~~~c.umask, 1, false⟩)
  | listen {l i} (hphase : c.phase = .bound l i) :
      Effect s k c (.listening l i) (s.disk.modify i fun node => { node with listening := true })
  | permit {l i d m} (hphase : c.phase = .identified l i d) (hplace : s.place c = some m) :
      Effect s k c (.serving l i d) (s.disk.modify m fun node => { node with mode := 0o700 })
  | hangUp {phase i} (hlock : phase.lock = c.phase.lock) (hown : c.phase.own = some i)
      (hnone : phase.own = none) (hcritical : phase.critical = false) :
      Effect s k c phase (s.disk.hangUp i)
  | release {phase l} (hlock : c.phase.lock = some l) (hnone : phase.lock = none)
      (hown : phase.own = c.phase.own) (hcritical : phase.critical = false) :
      Effect s k c phase (s.disk.release l k)

namespace System

variable {s : System} {k : ℕ} {c : Call} {e : Event} {phase : Phase} {disk : Disk}

/-- A failure keeps the open files. -/
theorem onFailure_keeps {phase phase' : Phase} (h : phase.onFailure = some phase') :
    phase'.lock = phase.lock ∧ phase'.own = phase.own ∧ (phase'.critical → phase.critical) := by
  cases phase <;> simp only [Phase.onFailure, Option.some.injEq, reduceCtorEq] at h <;> subst h <;>
    exact ⟨rfl, rfl, by simp [Phase.critical]⟩

/-- Each step of a call is one of these. -/
theorem effect_of_act (h : s.act k c e = some (phase, disk)) : Effect s k c phase disk := by
  -- Most steps only move on, with what the call has open unchanged.
  have hmove : ∀ {phase' : Phase}, c.phase = phase' → phase.lock = phase'.lock →
      phase.own = phase'.own → (phase.critical → phase'.critical) → s.disk = disk →
      Effect s k c phase disk := by
    rintro _ rfl hlock hown hcritical rfl
    exact .keep hlock hown hcritical
  -- A case for each branch of `act`: those that change the disk come first.
  revert h
  fun_cases System.act s k c e
  all_goals intro h
  all_goals simp only [Option.some.injEq, Prod.mk.injEq, reduceCtorEq, Option.map_eq_some_iff] at h
  all_goals try obtain ⟨rfl, rfl⟩ := h
  case case1 hphase l hentry _ => exact .openLock hphase hentry
  case case3 hphase hentry hfresh => exact .createLock hphase hentry hfresh
  case case7 l hphase hfree => exact .acquire hphase hfree
  case case18 l m hphase i _ _ => exact .unlink (hphase ▸ rfl) (hphase ▸ rfl) (hphase ▸ rfl)
  case case20 l ino hphase hguard => exact .bind hphase hguard.2
  case case22 l i hphase => exact .listen hphase
  case case25 l i d hphase m hplace => exact .permit hphase hplace
  case case5 l hphase _ => exact hmove hphase rfl rfl id rfl
  case case9 l hphase m _ _ => exact hmove hphase rfl rfl id rfl
  case case11 l hphase _ => exact hmove hphase rfl rfl id rfl
  case case13 l m hphase i _ _ => exact hmove hphase rfl rfl id rfl
  case case15 l m hphase _ => exact hmove hphase rfl rfl id rfl
  case case23 l i hphase d _ => exact hmove hphase rfl rfl id rfl
  case case27 l i d hphase => exact hmove hphase rfl rfl id rfl
  case case28 l i d hphase _ => exact hmove hphase rfl rfl id rfl
  case case29 l i d hphase _ => exact hmove hphase rfl rfl id rfl
  -- The drop removes the file of the socket, and then closes the socket and the lock file.
  case case30 l i d hphase => exact .unlink (hphase ▸ rfl) (hphase ▸ rfl) (hphase ▸ rfl)
  case case31 l i hphase => exact .hangUp (hphase ▸ rfl) (hphase ▸ rfl) rfl rfl
  case case32 l hphase => exact .release (hphase ▸ rfl) rfl (hphase ▸ rfl) rfl
  -- A system call fails.
  case case33 =>
    obtain ⟨phase', hfailure, rfl, rfl⟩ := h
    obtain ⟨hlock, hown, hcritical⟩ := onFailure_keeps hfailure
    exact .keep hlock hown hcritical
  case case36 => exact .keep rfl rfl (by simp [Phase.critical])
  case case37 l own hphase => exact .release (hphase ▸ rfl) rfl (hphase ▸ rfl) rfl
  case case38 lock i hphase => exact .hangUp (hphase ▸ rfl) (hphase ▸ rfl) rfl rfl

/-- A step of a call. -/
theorem step_act {runtime : Runtime} {t : System} (h : s.step runtime (.act k e) = some t) :
    ∃ c phase disk, s.calls[k]? = some c ∧ s.act k c e = some (phase, disk) ∧
      t = ⟨disk, s.calls.set k { c with phase := phase }⟩ := by
  simp only [step] at h
  cases hk : s.calls[k]? with
  | none => simp [hk] at h
  | some c =>
    simp only [hk, Option.map_eq_some_iff, Prod.exists] at h
    obtain ⟨phase, disk, hact, rfl⟩ := h
    exact ⟨c, phase, disk, rfl, hact, rfl⟩

/-- A step of another program on the entries. -/
theorem step_relink {runtime : Runtime} {t : System} {entry : String} {target : Option ℕ}
    (h : s.step runtime (.relink entry target) = some t) :
    isLockName entry = false ∧ t.calls = s.calls ∧ t.disk.nodes = s.disk.nodes ∧
      t.disk.locks = s.disk.locks ∧
      ∀ other, other ≠ entry → t.disk.entries.lookup other = s.disk.entries.lookup other := by
  simp only [step] at h
  obtain ⟨hname, rfl⟩ := Machine.refused_eq_some.1 h
  refine ⟨Bool.eq_false_iff.2 hname, rfl, rfl, rfl, fun other hother => ?_⟩
  cases target with
  | none => exact AList.lookup_erase_ne hother
  | some ino => exact AList.lookup_insert_ne hother

/-- A step of another program on an inode. -/
theorem step_alter {runtime : Runtime} {t : System} {ino : ℕ} {node : Node}
    (h : s.step runtime (.alter ino node) = some t) :
    (s.Held ino → node.kind = (s.disk.nodes ino).kind ∧
      node.listening = (s.disk.nodes ino).listening) ∧
      t = { s with disk := s.disk.modify ino fun _ => node } := by
  simp only [step] at h
  obtain ⟨hguard, rfl⟩ := Machine.guarded_eq_some.1 h
  exact ⟨hguard, rfl⟩

end System

/-! ## The locks -/

namespace Effect

variable {s : System} {k : ℕ} {c : Call} {phase : Phase} {disk : Disk}

/-- A lock file stays in its place. -/
theorem lookup_lockName (h : Effect s k c phase disk) {name : String} {l : ℕ}
    (hl : s.disk.entries.lookup (lockName name) = some l) :
    disk.entries.lookup (lockName name) = some l := by
  cases h with
  | createLock hphase hentry hfresh =>
    have hne : lockName name ≠ lockName c.name := fun heq => by
      rw [heq, hentry] at hl
      cases hl
    exact (Disk.lookup_create hne ..).trans hl
  | unlink => exact (Disk.lookup_unlink (lockName_ne_socketName _ _)).trans hl
  | bind => exact (Disk.lookup_create (lockName_ne_socketName _ _) ..).trans hl
  | release =>
    rw [Disk.release_entries]
    exact hl
  | _ => exact hl

/-- A call neither takes the lock of another call nor gives it one. -/
theorem locks_other (h : Effect s k c phase disk) {j l : ℕ} (hj : j ≠ k) :
    disk.locks l = some j ↔ s.disk.locks l = some j := by
  cases h with
  | @acquire l' hphase hfree =>
    by_cases heq : l = l'
    · subst heq
      simp [Disk.acquire, hfree, Ne.symm hj]
    · simp [Disk.acquire, Function.update_of_ne heq]
  | @release phase l' hlock =>
    unfold Disk.release
    split_ifs with hown
    · by_cases heq : l = l'
      · subst heq
        simp [hown, Ne.symm hj]
      · simp [Function.update_of_ne heq]
    · rfl
  | unlink => rw [Disk.unlink_locks]
  | _ => rfl

/-- A call has the lock file open whose lock it holds. -/
theorem holder (h : Effect s k c phase disk) {l : ℕ}
    (hs : s.disk.locks l = some k → c.phase.lock = some l) (hl : disk.locks l = some k) :
    phase.lock = some l := by
  cases h with
  | keep hlock => exact hlock.trans (hs hl)
  -- A call that has yet to open the lock file holds no lock.
  | openLock hphase =>
    have hnone := hs hl
    rw [hphase] at hnone
    cases hnone
  | createLock hphase =>
    have hnone := hs hl
    rw [hphase] at hnone
    cases hnone
  | @acquire l' hphase hfree =>
    by_cases heq : l = l'
    · rw [heq]
      rfl
    · have hsame := hs (by simpa [Disk.acquire, Function.update_of_ne heq] using hl)
      rw [hphase] at hsame
      exact hsame
  -- From here to the end of the call the lock file is the one it has opened before.
  | unlink hlock =>
    rw [Disk.unlink_locks] at hl
    exact hlock.trans (hs hl)
  | bind hphase =>
    have hsame := hs hl
    rw [hphase] at hsame
    exact hsame
  | listen hphase =>
    have hsame := hs hl
    rw [hphase] at hsame
    exact hsame
  | permit hphase =>
    have hsame := hs hl
    rw [hphase] at hsame
    exact hsame
  | hangUp hlock => exact hlock.trans (hs hl)
  -- What is given up is the lock of the file it had open, so no other is left.
  | @release phase l' hlock =>
    unfold Disk.release at hl
    split_ifs at hl with hown
    · by_cases heq : l = l'
      · subst heq
        simp at hl
      · have hsame := hs (by simpa [Function.update_of_ne heq] using hl)
        rw [hlock] at hsame
        exact absurd (Option.some.inj hsame).symm heq
    · have hsame := hs hl
      rw [hlock] at hsame
      rw [Option.some.inj hsame] at hown
      exact absurd hl hown

end Effect

/-- The lock file of a call is in its place, and the call holds its lock where it has to. -/
def Locked (d : Disk) (k : ℕ) (c : Call) : Prop :=
  ∀ l, c.phase.lock = some l →
    d.entries.lookup (lockName c.name) = some l ∧ (c.phase.critical → d.locks l = some k)

/-- A step of the call keeps it so. -/
theorem Effect.locked {s : System} {k : ℕ} {c : Call} {phase : Phase} {disk : Disk}
    (h : Effect s k c phase disk) (hs : Locked s.disk k c) :
    Locked disk k { c with phase := phase } := by
  intro l hl
  cases h with
  | keep hlock hown hcritical =>
    obtain ⟨hentry, hholds⟩ := hs l (hlock ▸ hl)
    exact ⟨hentry, fun hc => hholds (hcritical hc)⟩
  -- What was opened or made just now is what the name of the lock file leads to.
  | openLock hphase hentry =>
    obtain rfl := Option.some.inj hl
    exact ⟨hentry, nofun⟩
  | createLock =>
    obtain rfl := Option.some.inj hl
    exact ⟨AList.lookup_insert _, nofun⟩
  | acquire hphase =>
    obtain rfl := Option.some.inj hl
    exact ⟨(hs _ (hphase ▸ rfl)).1, fun _ => Function.update_self ..⟩
  -- The names of sockets are not those of lock files.
  | unlink hlock hown hcritical =>
    obtain ⟨hentry, hholds⟩ := hs l (hlock ▸ hl)
    rw [Disk.unlink_locks]
    exact ⟨(Disk.lookup_unlink (lockName_ne_socketName _ _)).trans hentry,
      fun _ => hholds hcritical⟩
  | bind hphase =>
    obtain ⟨hentry, hholds⟩ := hs l (hphase ▸ hl)
    exact ⟨(Disk.lookup_create (lockName_ne_socketName _ _) ..).trans hentry,
      fun _ => hholds (hphase ▸ rfl)⟩
  | listen hphase =>
    obtain ⟨hentry, hholds⟩ := hs l (hphase ▸ hl)
    exact ⟨hentry, fun _ => hholds (hphase ▸ rfl)⟩
  | permit hphase =>
    obtain ⟨hentry, hholds⟩ := hs l (hphase ▸ hl)
    exact ⟨hentry, fun _ => hholds (hphase ▸ rfl)⟩
  -- Behind the critical section nothing is promised of the lock.
  | hangUp hlock hown hnone hcritical =>
    obtain ⟨hentry, -⟩ := hs l (hlock ▸ hl)
    exact ⟨hentry, fun hc => absurd hc (by simp [hcritical])⟩
  | release hlock hnone =>
    rw [hnone] at hl
    cases hl

/-- How the locks and the calls fit together. -/
structure Locking (s : System) : Prop where
  /-- A lock is held by a call that has its file open. -/
  holder : ∀ l k, s.disk.locks l = some k → ∃ c, s.calls[k]? = some c ∧ c.phase.lock = some l
  /-- The lock file of each call is in its place, and the call holds its lock where it has to. -/
  locked : ∀ k c, s.calls[k]? = some c → Locked s.disk k c

/-- An entry of a call after a step of a call. -/
theorem getElem?_set_calls {calls : List Call} {k j : ℕ} {c c' : Call}
    (h : (calls.set k c')[j]? = some c) :
    (j = k ∧ c = c') ∨ (j ≠ k ∧ calls[j]? = some c) := by
  by_cases hj : k = j
  · subst hj
    have hlt : k < calls.length := by simpa using (List.getElem?_eq_some_iff.1 h).1
    rw [List.getElem?_set_self hlt] at h
    exact .inl ⟨rfl, (Option.some.inj h).symm⟩
  · rw [List.getElem?_set_ne hj] at h
    exact .inr ⟨Ne.symm hj, h⟩

/-- Each step keeps the locks in order. -/
theorem Locking.step {runtime : Runtime} {s t : System} {label : Label} (hs : Locking s)
    (h : s.step runtime label = some t) : Locking t := by
  cases label with
  -- A new call has nothing open, and the others keep their numbers.
  | call name uid umask =>
    obtain rfl := Option.some.inj h
    refine ⟨fun l k hl => ?_, fun k c hc => ?_⟩
    · obtain ⟨c, hc, hlock⟩ := hs.holder l k hl
      exact ⟨c, by rw [List.getElem?_append_left (List.getElem?_eq_some_iff.1 hc).1]; exact hc,
        hlock⟩
    · obtain hc | rfl := Roster.getElem?_append_singleton_cases hc
      · exact hs.locked k c hc
      · intro l hl
        split_ifs at hl <;> cases hl
  | act k e =>
    obtain ⟨c, phase, disk, hk, hact, rfl⟩ := System.step_act h
    have heffect := System.effect_of_act hact
    have hlt := (List.getElem?_eq_some_iff.1 hk).1
    refine ⟨fun l j hl => ?_, fun j c' hc' => ?_⟩
    -- The lock is of the call that moves, or of one that the step leaves alone.
    · by_cases hj : j = k
      · subst hj
        refine ⟨_, List.getElem?_set_self hlt, heffect.holder (fun hl' => ?_) hl⟩
        obtain ⟨c', hc', hlock⟩ := hs.holder l j hl'
        rw [hk] at hc'
        rw [Option.some.inj hc', hlock]
      · obtain ⟨c', hc', hlock⟩ := hs.holder l j ((heffect.locks_other hj).1 hl)
        exact ⟨c', (List.getElem?_set_ne (Ne.symm hj)).trans hc', hlock⟩
    · obtain ⟨rfl, rfl⟩ | ⟨hj, hc'⟩ := getElem?_set_calls hc'
      · exact heffect.locked (hs.locked _ c hk)
      · intro l hl
        obtain ⟨hentry, hholds⟩ := hs.locked j c' hc' l hl
        exact ⟨heffect.lookup_lockName hentry, fun hc => (heffect.locks_other hj).2 (hholds hc)⟩
  -- Other programs leave the names of lock files alone, and no lock is theirs.
  | relink entry target =>
    obtain ⟨hname, hcalls, -, hlocks, hlookup⟩ := System.step_relink h
    refine ⟨fun l k hl => ?_, fun k c hc l hl => ?_⟩
    · rw [hlocks] at hl
      rw [hcalls]
      exact hs.holder l k hl
    · have hne : lockName c.name ≠ entry := fun heq => by
        rw [← heq, isLockName_lockName] at hname
        cases hname
      rw [hcalls] at hc
      rw [hlookup _ hne, hlocks]
      exact hs.locked k c hc l hl
  | alter ino node =>
    obtain ⟨-, rfl⟩ := System.step_alter h
    exact ⟨hs.holder, hs.locked⟩

section Runs

variable {runtime : Runtime} {entries : AList fun _ : String => ℕ} {nodes : ℕ → Node}

/-- The locks are in order in every reachable state. -/
theorem locking_of_reachable {s : System} (h : (binders runtime entries nodes).Reachable s) :
    Locking s :=
  Machine.invariant_of_reachable
    ⟨fun _ _ hl => (nomatch hl), fun _ _ hc => by simp [binders] at hc⟩
    (fun _ _ _ hs hstep => hs.step hstep) h

/-- Two calls of one name that hold their locks are one call. -/
theorem Locking.exclusive {s : System} (hs : Locking s) {j k : ℕ} {c c' : Call}
    (hj : s.calls[j]? = some c) (hk : s.calls[k]? = some c') (hname : c.name = c'.name)
    (hc : c.phase.critical) (hc' : c'.phase.critical) : j = k := by
  have hlock : ∀ phase : Phase, phase.critical → ∃ l, phase.lock = some l := by
    intro phase hcritical
    cases phase <;> simp [Phase.critical] at hcritical <;> exact ⟨_, rfl⟩
  obtain ⟨l, hl⟩ := hlock _ hc
  obtain ⟨l', hl'⟩ := hlock _ hc'
  obtain ⟨hentry, hholds⟩ := hs.locked j c hj l hl
  obtain ⟨hentry', hholds'⟩ := hs.locked k c' hk l' hl'
  rw [hname, hentry'] at hentry
  obtain rfl := Option.some.inj hentry
  exact Option.some.inj ((hholds hc).symm.trans (hholds' hc'))

/-- Of the calls of one name, one at most is past its `flock` and has not closed its lock file. -/
theorem listener_exclusive (labels : List Label) (s : System)
    (hrun : (binders runtime entries nodes).run (binders runtime entries nodes).init labels =
      some s)
    (j k : ℕ) (c c' : Call) (hj : s.calls[j]? = some c) (hk : s.calls[k]? = some c')
    (hname : c.name = c'.name) (hc : c.phase.critical) (hc' : c'.phase.critical) : j = k :=
  (locking_of_reachable ⟨labels, hrun⟩).exclusive hj hk hname hc hc'

/-- A second call of the name comes to the lock while the first one serves. -/
theorem listener_exclusive_two : ∃ s c,
    emptyRuntime.run emptyRuntime.init
      (firstBind ++ [.call "bar" 1000 0o077, .act 1 (.openLock 3), .act 1 .checkLock]) = some s ∧
    s.calls[0]? = some c ∧ c.phase = .serving 1 2 2 ∧
    ∀ k c', s.calls[k]? = some c' → c.name = c'.name → c'.phase.critical → 0 = k := by
  obtain ⟨s, hrun⟩ : ∃ s, emptyRuntime.run emptyRuntime.init
      (firstBind ++ [.call "bar" 1000 0o077, .act 1 (.openLock 3), .act 1 .checkLock]) = some s :=
    ⟨_, rfl⟩
  obtain ⟨c, hc, hphase⟩ : ∃ c, s.calls[0]? = some c ∧ c.phase = .serving 1 2 2 := by
    obtain rfl := Option.some.inj hrun
    exact ⟨_, rfl, rfl⟩
  exact ⟨s, c, hrun, hc, hphase, fun k c' hk hname hc' =>
    listener_exclusive _ s hrun 0 k c c' hc hk hname (hphase ▸ rfl) hc'⟩

end Runs

end DaemonFramework.Socket.Listener
