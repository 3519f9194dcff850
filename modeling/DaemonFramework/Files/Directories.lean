import DaemonFramework.Files.Staged

/-!
# Before there is a temporary file

The specification of an operation on the disk, and the first phase of the work on a staged file:
until there is a temporary file, only directories that lead to the destination are made or given a
mode, whatever fails (`createDirectory_spec`).
-/

namespace DaemonFramework.Files

open Fallible

/-! ## What an operation does -/

/-- An operation either has its effect or fails, and is logged. -/
theorem call_spec {α : Type} {c : Call} {effect : ℕ → World → Except ErrorKind (α × Entries)}
    {s : World} {Q : Except ErrorKind α → World → Prop}
    (hok : ∀ n a entries, effect n s = .ok (a, entries) →
      Q (.ok a) { s with entries := entries, log := s.log ++ [(c, true)] })
    (herror : ∀ e, Q (.error e) { s with log := s.log ++ [(c, false)] }) :
    (call c effect).Meets s Q := by
  unfold Meets call
  cases hresult : (s.oracle s.log.length).bind fun n => effect n s with
  | error e => exact herror e
  | ok r =>
    obtain ⟨a, entries⟩ := r
    cases horacle : s.oracle s.log.length with
    | error e =>
      rw [horacle] at hresult
      cases hresult
    | ok n =>
      rw [horacle] at hresult
      exact hok n a entries hresult

/-- A question is logged, and its answer is true. -/
theorem ask_spec {α : Type} {c : Call} {answer : Entries → Except ErrorKind α} {s : World}
    {Q : Except ErrorKind α → World → Prop}
    (hok : ∀ a, answer s.entries = .ok a → Q (.ok a) { s with log := s.log ++ [(c, true)] })
    (herror : ∀ e, Q (.error e) { s with log := s.log ++ [(c, false)] }) :
    (ask c answer).Meets s Q := by
  apply call_spec _ herror
  intro n a entries h
  cases hanswer : answer s.entries with
  | error e =>
    rw [hanswer] at h
    cases h
  | ok a' =>
    rw [hanswer] at h
    obtain ⟨rfl, rfl⟩ := Prod.mk.inj (Except.ok.inj h)
    exact hok a' hanswer

/-! ## The directories -/

/-- The operation has neither replaced a file nor tried to remove one. -/
def Calm : Call × Bool → Prop
  | (.rename _ _, true) | (.removeFile _, _) => False
  | _ => True

/-- What holds in spite of calm operations that change nothing. -/
def Steady (P : World → Prop) : Prop :=
  ∀ s c b, Calm (c, b) → P s → P { s with log := s.log ++ [(c, b)] }

/-- A log of calm operations. -/
theorem calm_append {log : List (Call × Bool)} (h : ∀ entry ∈ log, Calm entry) {c : Call} {b : Bool}
    (hc : Calm (c, b)) : ∀ entry ∈ log ++ [(c, b)], Calm entry := by
  intro entry hentry
  rcases List.mem_append.1 hentry with hentry | hentry
  · exact h entry hentry
  · obtain rfl := List.mem_singleton.1 hentry
    exact hc

/-- The path leads to another. -/
def Path.Above (p path : Path) : Prop :=
  p.absolute = path.absolute ∧ ∃ name, name :: p.names <:+ path.names

/-- An entry is as it was, or a directory above the path that was made or given a mode. -/
def Unchanged (path : Path) (before after : Entries) (p : Path) : Prop :=
  after p = before p ∨ p.Above path ∧ (∀ node ∈ before p, ∃ mode, node = .directory mode) ∧
    ∃ mode, after p = some (.directory mode)

/-- Before there is a temporary file. -/
structure Prepared (path : Path) (before : Entries) (s : World) : Prop where
  /-- Only directories have changed. -/
  unchanged : ∀ p, Unchanged path before s.entries p
  /-- Nothing was replaced or removed. -/
  calm : ∀ entry ∈ s.log, Calm entry

variable {path : Path} {before : Entries}

/-- A directory that is made above the path. -/
theorem Unchanged.update {after : Entries} (h : ∀ p, Unchanged path before after p) {q : Path}
    (hq : q.Above path) (hafter : ∀ node ∈ after q, ∃ mode, node = .directory mode)
    (mode : UInt32) :
    ∀ p, Unchanged path before (Function.update after q (some (.directory mode))) p := by
  intro p
  by_cases hp : p = q
  · subst hp
    right
    refine ⟨hq, ?_, mode, Function.update_self _ _ _⟩
    rcases h p with hsame | ⟨-, hbefore, -⟩
    · rwa [← hsame]
    · exact hbefore
  · unfold Unchanged
    rw [Function.update_of_ne hp]
    exact h p

/-- Calm operations change nothing about it. -/
theorem Prepared.steady : Steady (Prepared path before) :=
  fun _ _ _ hc h => ⟨h.unchanged, calm_append h.calm hc⟩

/-! ## Operations that only ask -/

section

variable {P : World → Prop} (hP : Steady P)

include hP

/-- A question keeps what calm operations keep. -/
theorem Steady.ask {α : Type} {c : Call} (hc : ∀ b, Calm (c, b))
    (answer : Entries → Except ErrorKind α) : (ask c answer).Keeps P :=
  fun s h => ask_spec (fun _ _ => hP s c true (hc true) h) fun _ => hP s c false (hc false) h

/-- Looking at a file changes nothing. -/
theorem Steady.metadata (p : Path) : (metadata p).Keeps P :=
  hP.ask (c := .metadata p) (fun _ => trivial) _

/-- Nor does looking at a link. -/
theorem Steady.symlinkMetadata (p : Path) : (symlinkMetadata p).Keeps P :=
  hP.ask (c := .symlinkMetadata p) (fun _ => trivial) _

/-- Nor does syncing a directory. -/
theorem Steady.syncDirectory (p : Path) : (syncDirectory p).Keeps P :=
  hP.ask (c := .syncDirectory p) (fun _ => trivial) _

/-- Nor does asking whether a path exists. -/
theorem Steady.pathExists {ε : Type} (p : Path) : (pathExists p : Disk ε Bool).Keeps P :=
  (hP.metadata p).observe.bind fun _ => .ok

/-- So does `reject_symlink`. -/
theorem Steady.rejectSymlink (p : Path) : (rejectSymlink p).Keeps P := by
  apply (hP.symlinkMetadata p).observe.bind
  intro r
  split
  · exact .fail
  · exact .ok
  · exact .ok
  · exact .fail

/-- So does `sync_parent`. -/
theorem Steady.syncParent (p : Path) : (syncParent p).Keeps P := by
  apply Keeps.bind
  · unfold parentDirectory
    split
    · exact .ok
    · exact .fail
  · exact hP.syncDirectory

/-- So does the search for missing ancestors. -/
theorem Steady.missingAncestors (sync : Bool) (ancestors : List Path) :
    (missingAncestors sync ancestors).Keeps P := by
  induction ancestors with
  | nil => exact .ok
  | cons p rest ih =>
    unfold Files.missingAncestors
    split_ifs
    · apply (hP.pathExists p).bind
      intro there
      split_ifs
      · exact .ok
      · exact ih.map
    · exact .ok

/-- So does the syncing of new directories. -/
theorem Steady.syncDirectories (directories : List Path) :
    (syncDirectories directories).Keeps P := by
  induction directories with
  | nil => exact .ok
  | cons directory rest ih =>
    exact (hP.syncDirectory directory).bind fun _ => (hP.syncParent directory).bind fun _ => ih

end

/-! ## The directories that are made -/

/-- A directory is made above the path. -/
theorem mkdir_spec {q : Path} (hq : q.Above path) (mode : UInt32) {s : World}
    (h : Prepared path before s) :
    (mkdir q mode).Meets s fun r s' => Prepared path before s' ∧
      (r = .ok () → IsDirectory s'.entries q) := by
  apply call_spec
  · intro n a entries hresult
    split_ifs at hresult with hthere hparent
    obtain ⟨-, rfl⟩ := Prod.mk.inj (Except.ok.inj hresult)
    have hnone : s.entries q = none := by simpa using hthere
    refine ⟨⟨?_, (Prepared.steady s (.mkdir q) true trivial h).calm⟩, fun _ => ?_⟩
    · exact Unchanged.update h.unchanged hq (by simp [hnone]) _
    · simp [IsDirectory, Node.kind]
  · exact fun e => ⟨Prepared.steady s (.mkdir q) false trivial h, fun h => by cases h⟩

/-- A directory is there, if it is said to be. -/
theorem isDir_spec {ε : Type} (q : Path) {s : World} (h : Prepared path before s) :
    (isDir q : Disk ε Bool).Meets s fun r s' => Prepared path before s' ∧
      (r = .ok true → IsDirectory s'.entries q) := by
  have hmetadata : (metadata q).Meets s fun r s' => Prepared path before s' ∧
      (r.toOption = some .directory → IsDirectory s'.entries q) := by
    apply ask_spec
    · intro kind hkind
      refine ⟨Prepared.steady s (.metadata q) true trivial h, fun hdirectory => ?_⟩
      obtain rfl := Option.some.inj hdirectory
      unfold IsDirectory
      split at hkind
      · rename_i kind hentry
        rw [hentry, Except.ok.inj hkind]
      · cases hkind
    · exact fun e => ⟨Prepared.steady s (.metadata q) false trivial h, fun h => by cases h⟩
  apply hmetadata.observe_bind
  rintro r s' ⟨hprepared, hdirectory⟩
  refine Meets.pure ⟨hprepared, fun htrue => hdirectory ?_⟩
  simpa using Except.ok.inj htrue

/-- What a program that makes a directory leaves. -/
def Made (path : Path) (before : Entries) (q : Path) (r : Except ErrorKind Unit) (s : World) : Prop :=
  Prepared path before s ∧ (r = .ok () → IsDirectory s.entries q)

/-- It may fail if there is a directory. -/
theorem orDirectory_spec (q : Path) (e : ErrorKind) {s : World} (h : Prepared path before s) :
    (do let there ← isDir q; if there then ok () else fail e : Disk ErrorKind Unit).Meets s
      (Made path before q) := by
  apply (isDir_spec q h).bind
  · rintro there s' ⟨hprepared, hdirectory⟩
    cases there with
    | true => exact ⟨hprepared, fun _ => hdirectory rfl⟩
    | false => exact ⟨hprepared, fun h => by cases h⟩
  · rintro e s' ⟨hprepared, -⟩
    exact ⟨hprepared, fun h => by cases h⟩

/-- A directory is made above the path, unless there is one. -/
theorem makeDirectory_spec {q : Path} (hq : q.Above path) (mode : UInt32) {s : World}
    (h : Prepared path before s) : (makeDirectory q mode).Meets s (Made path before q) := by
  apply (mkdir_spec hq mode h).observe_bind
  rintro r s' ⟨hprepared, hdirectory⟩
  cases r with
  | ok u => exact ⟨hprepared, fun _ => hdirectory rfl⟩
  | error e => exact orDirectory_spec q e hprepared

/-- All directories that lead to the path are made, unless they are there. -/
theorem createAll_spec (mode : UInt32) (absolute : Bool) (names : List String)
    (hnames : Path.Above ⟨absolute, names⟩ path) {s : World} (h : Prepared path before s) :
    (createAll mode absolute names).Meets s (Made path before ⟨absolute, names⟩) := by
  induction names generalizing s with
  | nil => exact makeDirectory_spec hnames mode h
  | cons name names ih =>
    have hparent : Path.Above ⟨absolute, names⟩ path := by
      obtain ⟨habsolute, first, hfirst⟩ := hnames
      exact ⟨habsolute, name, (List.suffix_cons first _).trans hfirst⟩
    unfold createAll
    apply (mkdir_spec hnames mode h).observe_bind
    rintro r s' ⟨hprepared, hdirectory⟩
    split
    · exact ⟨hprepared, fun _ => hdirectory rfl⟩
    · apply (ih hparent hprepared).bind
      · exact fun _ s' h => makeDirectory_spec hnames mode h.1
      · exact fun e s' h => ⟨h.1, fun h => by cases h⟩
    · exact orDirectory_spec _ _ hprepared

/-- The mode of a directory above the path is set. -/
theorem setPermissions_spec {q : Path} (hq : q.Above path) (mode : UInt32) {s : World}
    (h : Prepared path before s) (hdirectory : IsDirectory s.entries q) :
    (setPermissions q mode).Meets s fun _ s' => Prepared path before s' := by
  apply call_spec
  · intro n a entries hresult
    have hcalm := (Prepared.steady s (.setPermissions q) true trivial h).calm
    unfold IsDirectory at hdirectory
    cases hentry : s.entries q with
    | none => simp [hentry] at hresult
    | some node =>
      rw [hentry] at hdirectory hresult
      cases node with
      | directory mode' =>
        obtain ⟨-, rfl⟩ := Prod.mk.inj (Except.ok.inj hresult)
        exact ⟨Unchanged.update h.unchanged hq (by simp [hentry]) mode, hcalm⟩
      | symlink leadsTo =>
        -- The entry of a symlink does not record the mode of what it leads to.
        obtain rfl : leadsTo = some .directory := hdirectory
        obtain ⟨-, rfl⟩ := Prod.mk.inj (Except.ok.inj hresult)
        have hsame : Function.update s.entries q (some ((Node.symlink (some .directory)).setMode
            mode)) = s.entries := by
          rw [Node.setMode, ← hentry, Function.update_eq_self]
        rw [hsame]
        exact ⟨h.unchanged, hcalm⟩
      | file contents mode' => cases hdirectory
      | other mode' => cases hdirectory
  · exact fun e => Prepared.steady s (.setPermissions q) false trivial h

/-- The parent of the path and its ancestors are made. -/
theorem createDirectory_spec {parent : Path} (hparent : parent.Above path)
    (policy : AtomicFilePolicy) : (createDirectory parent policy).Keeps (Prepared path before) := by
  intro s h
  apply (Prepared.steady.missingAncestors _ _ s h).bind _ fun _ _ h => h
  intro missing s h
  apply ((Prepared.steady.rejectSymlink parent).onlyIf s h).bind _ fun _ _ h => h
  intro _ s h
  apply (createAll_spec _ _ _ hparent h).bind _ fun _ _ h => h.1
  intro _ s h
  apply Meets.bind (Q := fun _ s' => Prepared path before s') _ _ fun _ _ h => h
  · apply Meets.onlyIf
    · exact fun _ => setPermissions_spec hparent _ h.1 (h.2 rfl)
    · exact fun _ => h.1
  · exact fun _ s h => Prepared.steady.syncDirectories _ s h

end DaemonFramework.Files
