import DaemonFramework.Files.Contents

/-!
# The replacement is atomic

Whatever fails, the destination holds its old entry or the complete new contents.

After the temporary file is complete, the object owns it (`Owning`). A commit that fails before its
rename leaves it so, and one whose rename succeeds gives the file up (`Replaced`), also when the
parent cannot be synced afterwards. Dropping the object removes what it owns.

`staged_file_atomic` is the main result. A commit after one whose rename has succeeded fails and
does nothing; one after a commit that failed before its rename tries again, so a second commit may
succeed (`second_commit_replaces`).
-/

namespace DaemonFramework.Files

open Fallible

variable {path : Path} {before : Entries} {contents : List UInt8} {f : StagedFile} {s : World}

/-- A rename to the path has succeeded. -/
def Renamed (path : Path) (s : World) : Prop := ∃ source, (Call.rename source path, true) ∈ s.log

/-- The removal of a temporary file has failed. -/
def RemovalFailed (s : World) : Prop := ∃ temporary, (Call.removeFile temporary, false) ∈ s.log

/-- The object owns a complete temporary file. -/
structure Owning (path : Path) (before : Entries) (contents : List UInt8) (f : StagedFile)
    (s : World) : Prop where
  /-- The object replaces the file at the path. -/
  destination : f.destination = path
  /-- The temporary file is another one. -/
  holding : ∃ temporary base, f.temporary = some temporary ∧ temporary ≠ path ∧
    Holding path before base temporary contents s

/-- The file at the path has the new contents, and the object owns nothing. -/
structure Replaced (path : Path) (before : Entries) (contents : List UInt8) (f : StagedFile)
    (s : World) : Prop where
  /-- The object owns nothing. -/
  nothing : f.temporary = none
  /-- Only the path and directories that lead to it have changed. -/
  held : ∃ base mode, (∀ p, Unchanged path before base p) ∧
    s.entries = Function.update base path (some (.file contents mode))
  /-- The rename is in the log. -/
  renamed : Renamed path s
  /-- There was nothing to remove. -/
  noRemoval : ¬RemovalFailed s

/-- The entry at the path is the old one, and so is everything else unless a temporary file could
not be removed. -/
structure Kept (path : Path) (before : Entries) (s : World) : Prop where
  /-- The entry is the old one. -/
  old : s.entries path = before path
  /-- There was no rename. -/
  notRenamed : ¬Renamed path s
  /-- All else is as it was, but for directories. -/
  others : ¬RemovalFailed s → ∀ p, Unchanged path before s.entries p

/-- A path does not lead to itself. -/
theorem Path.not_above_self (p : Path) : ¬p.Above p := by
  rintro ⟨-, name, hsuffix⟩
  have hlength := hsuffix.length_le
  simp only [List.length_cons] at hlength
  omega

/-- The entry at the path itself is as it was. -/
theorem Unchanged.self {after : Entries} (h : ∀ p, Unchanged path before after p) :
    after path = before path :=
  (h path).resolve_right fun h => path.not_above_self h.1

/-- Calm operations rename nothing. -/
theorem not_renamed (h : ∀ entry ∈ s.log, Calm entry) : ¬Renamed path s :=
  fun ⟨_, hrenamed⟩ => h _ hrenamed

/-- Without a temporary file, there is nothing to clean up. -/
theorem Prepared.kept (h : Prepared path before s) : Kept path before s :=
  ⟨Unchanged.self h.unchanged, not_renamed h.calm, fun _ => h.unchanged⟩

/-- The temporary file is removed, or the removal has failed. -/
theorem removeFile_spec {temporary : Path} {base : Entries} (hne : temporary ≠ path)
    (h : HoldingSome path before base temporary s) :
    (removeFile temporary).Meets s fun _ s' => Kept path before s' := by
  obtain ⟨contents, h⟩ := h
  obtain ⟨mode, hheld⟩ := h.held
  have hpath : base path = before path := Unchanged.self h.unchanged
  have hlog : ∀ b, ¬Renamed path { s with log := s.log ++ [(.removeFile temporary, b)] } := by
    rintro b ⟨source, hrenamed⟩
    rcases List.mem_append.1 hrenamed with hrenamed | hrenamed
    · exact h.calm _ hrenamed
    · simp at hrenamed
  apply call_spec
  · intro n a entries hresult
    have hentry : s.entries temporary = some (.file contents mode) := by
      rw [hheld, Function.update_self]
    simp only [hentry] at hresult
    obtain ⟨-, rfl⟩ := Prod.mk.inj (Except.ok.inj hresult)
    have hbase : Function.update s.entries temporary none = base := by
      rw [hheld, Function.update_idem, ← h.free, Function.update_eq_self]
    rw [hbase]
    exact ⟨hpath, hlog true, fun _ => h.unchanged⟩
  · intro e
    refine ⟨?_, hlog false, fun hfailed => ?_⟩
    · show s.entries path = before path
      rw [hheld, Function.update_of_ne hne.symm, hpath]
    · exact absurd ⟨temporary, List.mem_append_right _ (List.mem_singleton_self _)⟩ hfailed

/-- An object that is dropped removes what it owns. -/
theorem drop_spec (f : StagedFile) {temporary : Path} {base : Entries}
    (hf : f.temporary = some temporary) (hne : temporary ≠ path)
    (h : HoldingSome path before base temporary s) :
    f.drop.Meets s fun _ s' => Kept path before s' := by
  unfold StagedFile.drop
  rw [hf]
  exact (removeFile_spec hne h).observe_bind fun _ _ h => h

/-! ## The making of a staged file -/

/-- What `with_writer` leaves. -/
def Staged (path : Path) (before : Entries) (contents : List UInt8) {ε : Type}
    (r : Except ε StagedFile) (s : World) : Prop :=
  match r with
  | .ok f => Owning path before contents f s
  | .error _ => Kept path before s

/-- The temporary file is completed, or something has failed. -/
theorem complete_spec {ε : Type} (fromIo : ErrorKind → ε) {temporary : Path} {base : Entries}
    (policy : AtomicFilePolicy) (callback : Callback ε) (f : StagedFile)
    (h : Holding path before base temporary [] s) :
    (do
      writeBuffered fromIo temporary callback
      onlyIf policy.fileMode.isSome
        ((setPermissions temporary (policy.fileMode.getD 0)).adapt fromIo)
      (syncAll temporary).adapt fromIo
      ok f : Disk ε StagedFile).Meets s fun r s' =>
        (∀ f', r = .ok f' → f' = f ∧
          Holding path before base temporary callback.contents s') ∧
        HoldingSome path before base temporary s' := by
  -- Whatever fails, the temporary file is left with some contents.
  have herror : ∀ (e : ε) s', HoldingSome path before base temporary s' →
      (∀ f', Except.error e = .ok f' → f' = f ∧
        Holding path before base temporary callback.contents s') ∧
      HoldingSome path before base temporary s' := fun e s' h => ⟨fun _ h => (by cases h), h⟩
  apply (writeBuffered_spec fromIo callback h).bind _ fun e s' h => herror e s' h.2
  rintro _ s ⟨hholding, -⟩
  have hmode : (onlyIf policy.fileMode.isSome
      ((setPermissions temporary (policy.fileMode.getD 0)).adapt fromIo)).Meets s fun _ s' =>
        Holding path before base temporary callback.contents s' := by
    apply Meets.onlyIf
    · exact fun _ => Meets.adapt ((setMode_spec _ (hholding rfl)).mono fun _ _ h => h)
    · exact fun _ => hholding rfl
  apply hmode.bind _ fun e s' h => herror e s' ⟨_, h⟩
  intro _ s h
  have hsync : (syncAll temporary).Keeps
      (Holding path before base temporary callback.contents) :=
    Holding.steady.ask (c := .syncAll temporary) (fun _ => trivial) _
  apply (hsync s h).adapt_bind _ fun e s' h => herror (fromIo e) s' ⟨_, h⟩
  intro _ s h
  refine ⟨fun f' hf' => ⟨?_, h⟩, _, h⟩
  exact (Except.ok.inj hf').symm

/-- A path is its parent and its name. -/
theorem Path.eq_join {path parent : Path} {name : String} (hparent : path.parent = some parent)
    (hname : path.fileName = some name) : path = parent.join name := by
  obtain ⟨absolute, names⟩ := path
  cases names with
  | nil => cases hparent
  | cons first names =>
    obtain rfl := Option.some.inj hparent
    obtain ⟨-, hsome⟩ := Option.ite_none_left_eq_some.1 hname
    obtain rfl := Option.some.inj hsome
    rfl

/-- The parent leads to the path. -/
theorem Path.parent_above {path parent : Path} {name : String} (h : path = parent.join name) :
    parent.Above path := by
  subst h
  exact ⟨rfl, name, List.suffix_rfl⟩

/-- The temporary file is beside the path, and not at it. -/
theorem temporary_ne {parent temporary : Path} {name : String} (hpath : path = parent.join name)
    (h : ∃ process number, temporary = parent.join (temporaryName name process number)) :
    temporary ≠ path := by
  obtain ⟨process, number, rfl⟩ := h
  subst hpath
  intro heq
  have hnames := List.cons.inj (congrArg Path.names heq)
  exact temporaryName_ne name process number hnames.1

/-- The staged file owns a complete temporary file, or there is none. -/
theorem withWriter_spec {ε : Type} (fromIo : ErrorKind → ε) (tries : ℕ) (policy : AtomicFilePolicy)
    (callback : Callback ε) (h : Prepared path before s) :
    (withWriter fromIo tries path policy callback).Meets s
      (Staged path before callback.contents) := by
  have hfailed : ∀ (e : ErrorKind) s', Prepared path before s' →
      Staged path before callback.contents (.error (fromIo e)) s' := fun e s' h => h.kept
  have hparent : (parentDirectory path).Meets s fun r s' => Prepared path before s' ∧
      ∀ parent, r = .ok parent → path.parent = some parent := by
    unfold parentDirectory
    split
    · rename_i parent hparent
      exact ⟨h, fun _ h => hparent.trans (congrArg some (Except.ok.inj h))⟩
    · exact ⟨h, fun _ h => by cases h⟩
  unfold withWriter
  apply hparent.adapt_bind _ fun e s' h => hfailed e s' h.1
  rintro parent s ⟨h, hparent⟩
  have hname : (fileName path).Meets s fun r s' => Prepared path before s' ∧
      ∀ name, r = .ok name → path.fileName = some name := by
    unfold fileName
    split
    · rename_i name hname
      exact ⟨h, fun _ h => hname.trans (congrArg some (Except.ok.inj h))⟩
    · exact ⟨h, fun _ h => by cases h⟩
  apply hname.adapt_bind _ fun e s' h => hfailed e s' h.1
  rintro name s ⟨h, hname⟩
  -- Up to the creation of the temporary file, a failure leaves nothing behind.
  have hpath : path = parent.join name := Path.eq_join (hparent _ rfl) (hname _ rfl)
  apply (createDirectory_spec (Path.parent_above hpath) policy s h).adapt_bind _ hfailed
  intro _ s h
  have hsymlink : (onlyIf policy.rejectSymlinkDestination
      ((rejectSymlink path).adapt fromIo)).Keeps (Prepared path before) :=
    (Prepared.steady.rejectSymlink path).adapt.onlyIf
  apply (hsymlink s h).bind _ fun e s' h => h.kept
  intro _ s h
  apply (createTemporary_spec policy.fileMode tries h).adapt_bind _ fun e s' h => hfailed e s' h
  rintro temporary s ⟨hnamed, base, hholding⟩
  have hne : temporary ≠ path := temporary_ne hpath hnamed
  -- From here on, a failure drops the staged file, which removes the temporary one.
  apply (complete_spec fromIo policy callback _ hholding).onError
  · rintro f s ⟨hok, -⟩
    obtain ⟨rfl, hheld⟩ := hok f rfl
    exact ⟨rfl, temporary, base, rfl, hne, hheld⟩
  · rintro e s ⟨-, hsome⟩
    exact drop_spec _ rfl hne hsome

/-! ## Commits -/

/-- Calm operations change nothing about a file that was replaced. -/
theorem Replaced.steady (f : StagedFile) : Steady (Replaced path before contents f) := by
  intro s c b hc h
  obtain ⟨source, hrenamed⟩ := h.renamed
  refine ⟨h.nothing, h.held, ⟨source, List.mem_append_left _ hrenamed⟩, ?_⟩
  rintro ⟨temporary, hremoved⟩
  rcases List.mem_append.1 hremoved with hremoved | hremoved
  · exact h.noRemoval ⟨temporary, hremoved⟩
  · obtain ⟨rfl, rfl⟩ := Prod.mk.inj (List.mem_singleton.1 hremoved)
    exact hc

/-- A rename either gives the path the new contents or changes nothing. -/
theorem rename_spec {temporary : Path} {base : Entries} (f : StagedFile)
    (h : Holding path before base temporary contents s) :
    (rename temporary path).Meets s fun r s' =>
      (r = .ok () → Replaced path before contents { f with temporary := none } s') ∧
      (∀ e, r = .error e → Holding path before base temporary contents s') := by
  obtain ⟨mode, hheld⟩ := h.held
  have hentry : s.entries temporary = some (.file contents mode) := by
    rw [hheld, Function.update_self]
  apply call_spec
  · intro n a entries hresult
    refine ⟨fun _ => ?_, fun _ h => by cases h⟩
    -- The temporary was the only change, so the path is the only one left.
    have hentries : entries = Function.update base path (some (.file contents mode)) := by
      have hbase : Function.update s.entries temporary none = base := by
        rw [hheld, Function.update_idem, ← h.free, Function.update_eq_self]
      simp only [hentry] at hresult
      split at hresult
      · cases hresult
      · cases hresult
      · rename_i node target hnode _
        obtain rfl := Option.some.inj hnode
        obtain ⟨-, rfl⟩ := Prod.mk.inj (Except.ok.inj hresult)
        rw [hbase]
    refine ⟨rfl, ⟨base, mode, h.unchanged, hentries⟩, ⟨temporary, ?_⟩, ?_⟩
    · exact List.mem_append_right _ (List.mem_singleton_self _)
    -- Nothing was removed before, and a rename is no removal.
    · rintro ⟨removed, hremoved⟩
      rcases List.mem_append.1 hremoved with hremoved | hremoved
      · exact h.calm _ hremoved
      · simp at hremoved
  · intro e
    exact ⟨fun h => (by cases h), fun _ _ =>
      Holding.steady s (.rename temporary path) false trivial h⟩

/-- What a commit leaves: the file is replaced, or the object still owns what it owned. -/
theorem commit_spec (h : Owning path before contents f s) :
    commit.Meets (f, s) fun r t => Replaced path before contents t.1 t.2 ∨
      Owning path before contents t.1 t.2 ∧ r ≠ .ok () := by
  obtain ⟨hdestination, temporary, base, htemporary, hne, hholding⟩ := h
  obtain ⟨destination, owned, policy⟩ := f
  obtain rfl : destination = path := hdestination
  obtain rfl : owned = some temporary := htemporary
  -- Until the rename, nothing changes, and the object keeps the temporary file.
  let Still (t : StagedFile × World) : Prop := t.1 = ⟨destination, some temporary, policy⟩ ∧
    Holding destination before base temporary contents t.2
  have hfailed : ∀ (e : ErrorKind) (t : StagedFile × World), Still t →
      Replaced destination before contents t.1 t.2 ∨
        Owning destination before contents t.1 t.2 ∧
          (.error e : Except ErrorKind Unit) ≠ .ok () := by
    rintro e ⟨f, s'⟩ ⟨rfl, h⟩
    exact .inr ⟨⟨rfl, temporary, base, rfl, hne, h⟩, fun h => by cases h⟩
  have hsymlink : (onlyIf policy.rejectSymlinkDestination (rejectSymlink destination).lift).Meets
      (⟨destination, some temporary, policy⟩, s) fun _ t => Still t := by
    apply Meets.onlyIf
    · intro _
      apply Meets.lift
      exact (Holding.steady.rejectSymlink destination s hholding).mono fun _ _ h => ⟨rfl, h⟩
    · exact fun _ => ⟨rfl, hholding⟩
  unfold commit
  apply Meets.read_bind
  apply hsymlink.bind _ hfailed
  rintro _ ⟨f, s⟩ ⟨rfl, hholding⟩
  have hrename : (rename temporary destination).lift.Meets
      ((⟨destination, some temporary, policy⟩ : StagedFile), s) fun r t =>
        t.1 = ⟨destination, some temporary, policy⟩ ∧
        (r = .ok () → Replaced destination before contents ⟨destination, none, policy⟩ t.2) ∧
        (∀ e, r = .error e → Holding destination before base temporary contents t.2) :=
    Meets.lift ((rename_spec ⟨destination, some temporary, policy⟩ hholding).mono
      fun _ _ h => ⟨rfl, h⟩)
  apply hrename.bind
  · rintro _ ⟨f, s⟩ ⟨rfl, hreplaced, -⟩
    apply Meets.read_bind
    apply Meets.write_bind
    -- From here on nothing changes, whether or not the parent can be synced.
    have hsync : (onlyIf policy.syncParent (Files.syncParent destination).lift).Meets
        ((⟨destination, none, policy⟩ : StagedFile), s) fun _ t =>
          Replaced destination before contents t.1 t.2 := by
      apply Meets.onlyIf
      · intro _
        apply Meets.lift
        exact (Replaced.steady _).syncParent destination s (hreplaced rfl)
      · exact fun _ => hreplaced rfl
    exact hsync.mono fun _ _ h => Or.inl h
  · rintro e t ⟨hsame, -, hkept⟩
    exact hfailed e t ⟨hsame, hkept e rfl⟩

/-- Once the file is replaced, a commit fails and does nothing. -/
theorem Replaced.commit_eq (h : Replaced path before contents f s) :
    commit (f, s) = (.error .invalidInput, (f, s)) := by
  have hnothing := h.nothing
  obtain ⟨destination, temporary, policy⟩ := f
  obtain rfl : temporary = none := hnothing
  rfl

/-- One commit after the other, with their results. -/
def commits : ℕ → StagedFile × World → List (Except ErrorKind Unit) × (StagedFile × World)
  | 0, t => ([], t)
  | n + 1, t => ((commit t).1 :: (commits n (commit t).2).1, (commits n (commit t).2).2)

/-- Once the file is replaced, no commit does anything. -/
theorem Replaced.commits_eq (h : Replaced path before contents f s) (n : ℕ) :
    (commits n (f, s)).2 = (f, s) := by
  induction n with
  | zero => rfl
  | succ n ih => rw [commits, h.commit_eq, ih]

/-- What any number of commits leave. -/
theorem commits_spec (n : ℕ) (h : Owning path before contents f s) :
    Replaced path before contents (commits n (f, s)).2.1 (commits n (f, s)).2.2 ∨
      Owning path before contents (commits n (f, s)).2.1 (commits n (f, s)).2.2 ∧
        .ok () ∉ (commits n (f, s)).1 := by
  induction n generalizing f s with
  | zero => exact .inr ⟨h, List.not_mem_nil⟩
  | succ n ih =>
    rcases commit_spec h with hreplaced | ⟨howning, hfailed⟩
    · left
      have hsame := hreplaced.commits_eq n
      simp only [commits]
      rw [hsame]
      exact hreplaced
    · rcases ih howning with hreplaced | ⟨howning, hrest⟩
      · exact .inl hreplaced
      · refine .inr ⟨howning, fun hmem => ?_⟩
        rcases List.mem_cons.1 hmem with heq | hmem
        · exact hfailed heq.symm
        · exact hrest hmem

/-! ## The whole life of a staged file -/

/-- What holds after some commits of a staged file, with their results. -/
structure Atomic (path : Path) (before : Entries) (contents : List UInt8)
    (results : List (Except ErrorKind Unit)) (f : StagedFile) (s : World) : Prop where
  /-- The destination holds its old entry until a rename has succeeded. -/
  old : ¬Renamed path s → s.entries path = before path
  /-- After that, it holds the complete new contents. -/
  new : Renamed path s → ∃ mode, s.entries path = some (.file contents mode)
  /-- No commit succeeds without its rename. -/
  renamed : .ok () ∈ results → Renamed path s
  /-- After the rename, a commit fails and touches nothing. -/
  done : Renamed path s → commit (f, s) = (.error .invalidInput, (f, s))
  /-- Dropping the object leaves the destination alone. Unless the temporary file cannot be removed,
  nothing else differs from what it was, but for directories that lead to the destination. -/
  dropped : f.drop.Meets s fun _ s' => s'.entries path = s.entries path ∧
    (¬RemovalFailed s' → ∀ p, p ≠ path → Unchanged path before s'.entries p)

/-- A file that was replaced. -/
theorem Replaced.atomic (h : Replaced path before contents f s)
    (results : List (Except ErrorKind Unit)) : Atomic path before contents results f s := by
  have hdone := h.commit_eq
  obtain ⟨hnothing, ⟨base, mode, hunchanged, hheld⟩, hrenamed, -⟩ := h
  refine ⟨fun h => absurd hrenamed h, fun _ => ⟨mode, ?_⟩, fun _ => hrenamed, fun _ => hdone, ?_⟩
  · rw [hheld, Function.update_self]
  · unfold StagedFile.drop
    rw [hnothing]
    refine ⟨rfl, fun _ p hp => ?_⟩
    show Unchanged path before s.entries p
    unfold Unchanged
    rw [hheld, Function.update_of_ne hp]
    exact hunchanged p

/-- A file that is yet to be replaced. -/
theorem Owning.atomic (h : Owning path before contents f s)
    {results : List (Except ErrorKind Unit)} (hresults : .ok () ∉ results) :
    Atomic path before contents results f s := by
  obtain ⟨-, temporary, base, htemporary, hne, hholding⟩ := h
  have hnot : ¬Renamed path s := not_renamed hholding.calm
  have hold : s.entries path = before path := by
    obtain ⟨mode, hheld⟩ := hholding.held
    rw [hheld, Function.update_of_ne hne.symm]
    exact Unchanged.self hholding.unchanged
  refine ⟨fun _ => hold, fun h => absurd h hnot, fun h => absurd h hresults,
    fun h => absurd h hnot, ?_⟩
  apply (drop_spec f htemporary hne ⟨contents, hholding⟩).mono
  rintro _ s' ⟨hkept, -, hothers⟩
  exact ⟨hkept.trans hold.symm, fun hremoved p _ => hothers hremoved p⟩

/-- Whatever fails, the destination of a staged file holds its old entry or the complete new
contents. If the file cannot be made, the destination holds its old entry, and no temporary file is
left unless it could not be removed. Otherwise `Atomic` holds after any number of commits. -/
theorem staged_file_atomic {ε : Type} (fromIo : ErrorKind → ε) (before : Entries)
    (sequence process : ℕ) (umask : UInt32) (oracle : ℕ → Except ErrorKind ℕ) (tries : ℕ)
    (path : Path) (policy : AtomicFilePolicy) (callback : Callback ε) :
    (withWriter fromIo tries path policy callback).Meets
      ⟨before, sequence, process, umask, oracle, []⟩ fun r s =>
        (∀ e, r = .error e → Kept path before s) ∧
        ∀ f, r = .ok f → ∀ n, Atomic path before callback.contents (commits n (f, s)).1
          (commits n (f, s)).2.1 (commits n (f, s)).2.2 := by
  have hprepared : Prepared path before ⟨before, sequence, process, umask, oracle, []⟩ :=
    ⟨fun p => .inl rfl, fun entry hentry => absurd hentry List.not_mem_nil⟩
  apply (withWriter_spec fromIo tries policy callback hprepared).mono
  intro r s hstaged
  refine ⟨?_, ?_⟩
  · rintro e rfl
    exact hstaged
  · rintro f rfl n
    rcases commits_spec n hstaged with hreplaced | ⟨howning, hresults⟩
    · exact hreplaced.atomic _
    · exact howning.atomic hresults

/-- A second commit may replace the file, when the rename of the first one has failed. -/
theorem second_commit_replaces :
    ∃ (before : Entries) (oracle : ℕ → Except ErrorKind ℕ) (path : Path) (f : StagedFile)
      (s : World),
      withWriter id 1 path ⟨none, none, false, false, false⟩ ⟨[[2]], .ok ()⟩
        ⟨before, 0, 0, 0, oracle, []⟩ = (.ok f, s) ∧
      (commit (f, s)).1 = .error (.other 5) ∧
      (commit (commit (f, s)).2).1 = .ok () ∧
      before path = some (.file [1] 0) ∧
      (commit (commit (f, s)).2).2.2.entries path = some (.file [2] 0o666) :=
  ⟨fun p => if p = ⟨true, []⟩ then some (.directory 0) else
      if p = ⟨true, ["f"]⟩ then some (.file [1] 0) else none,
    fun n => if n = 6 then .error (.other 5) else .ok 1,
    ⟨true, ["f"]⟩, _, _, rfl, rfl, rfl, rfl, rfl⟩

/-! ## Files that are replaced at once -/

/-- What an atomic write leaves. -/
structure Settled (path : Path) (before : Entries) (contents : List UInt8) {ε : Type}
    (r : Except ε Unit) (s : World) : Prop where
  /-- The destination holds its old entry until a rename has succeeded. -/
  old : ¬Renamed path s → s.entries path = before path
  /-- After that, it holds the complete new contents. -/
  new : Renamed path s → ∃ mode, s.entries path = some (.file contents mode)
  /-- The write does not succeed without its rename. -/
  renamed : r = .ok () → Renamed path s
  /-- Unless the temporary file cannot be removed, nothing else differs from what it was, but for
  directories that lead to the destination. -/
  others : ¬RemovalFailed s → ∀ p, p ≠ path → Unchanged path before s.entries p

/-- What was not replaced is kept. -/
theorem Kept.settled {ε : Type} (h : Kept path before s) (e : ε) :
    Settled path before contents (.error e) s :=
  ⟨fun _ => h.old, fun hrenamed => absurd hrenamed h.notRenamed, fun hr => (by cases hr),
    fun hremoved p _ => h.others hremoved p⟩

/-- An atomic write that fails before its rename keeps the old entry, and one that succeeds has
replaced it. -/
theorem replaceFile_spec {ε : Type} (fromIo : ErrorKind → ε) (tries : ℕ) (policy : AtomicFilePolicy)
    (callback : Callback ε) (h : Prepared path before s) :
    (replaceFile fromIo tries path policy callback).Meets s
      (Settled path before callback.contents) := by
  unfold replaceFile
  apply (withWriter_spec fromIo tries policy callback h).bind
  · intro f s hf
    apply Meets.adapt
    apply Meets.withLocal (commit_spec hf)
    rintro r ⟨f', s'⟩ (hreplaced | ⟨⟨-, temporary, base, htemporary, hne, hholding⟩, hr⟩)
    · obtain ⟨hold, hnew, hrenamed, -, hdropped⟩ := hreplaced.atomic []
      have hnothing := hreplaced.nothing
      apply Meets.read_bind
      unfold StagedFile.drop at hdropped ⊢
      rw [hnothing] at hdropped ⊢
      exact ⟨hold, hnew, fun _ => hreplaced.renamed, fun hremoved => hdropped.2 hremoved⟩
    · apply Meets.read_bind
      apply Meets.lift
      apply (drop_spec f' htemporary hne ⟨_, hholding⟩).mono
      intro _ s'' hkept
      cases r with
      | ok u => exact absurd rfl hr
      | error e => exact hkept.settled (fromIo e)
  · exact fun e s' hkept => Kept.settled hkept e

/-- `write_bytes_atomic` is atomic. -/
theorem writeBytesAtomic_spec (tries : ℕ) (bytes : List UInt8) (policy : AtomicFilePolicy)
    (h : Prepared path before s) :
    (writeBytesAtomic tries path bytes policy).Meets s (Settled path before bytes) := by
  have hspec := replaceFile_spec id tries policy ⟨[bytes], .ok ()⟩ h
  have hcontents : Callback.contents (⟨[bytes], .ok ()⟩ : Callback ErrorKind) = bytes := by
    simp [Callback.contents]
  rwa [hcontents] at hspec

/-- So is `write_json_atomic`, whatever the serializer does. -/
theorem writeJsonAtomic_spec (tries : ℕ) (pretty compact : Callback StateError)
    (policy : AtomicWritePolicy) (h : Prepared path before s) :
    (writeJsonAtomic tries path pretty compact policy).Meets s
      (Settled path before (if policy.pretty then pretty else compact).contents) := by
  unfold writeJsonAtomic
  exact replaceFile_spec StateError.io tries _ _ h

end DaemonFramework.Files
