import DaemonFramework.Files.Shared

/-!
# What is read is whole, and what is committed lasts

A writer alone knows its temporary file (`Owns`): no other writer's steps touch it, and it is not
yet among what the destination has been. So a file that has become the destination is complete, in
stable storage and never written again (`Whole`, `Frozen`).

A read that is not interrupted therefore returns what the destination was when the read opened it,
whatever the writers do meanwhile (`reads_are_atomic`).

The directory's entry for the destination is a cell that is written back: a rename makes the version
stand, and the sync of the parent settles it. So after a commit with a sync, the destination is this
version or a later one for good, however often the power is lost (`commits_survive`).
-/

namespace DaemonFramework.Files.Shared

open WriteBack

/-! ## The disk -/

namespace Store

variable {store : Store} {name other : Name} {file : Option ℕ}

/-- A name that is linked is written. -/
theorem directory_link :
    (store.link name file).directory name = (store.directory name).write file :=
  Function.update_self ..

/-- Another name is left alone. -/
theorem directory_link_of_ne (h : other ≠ name) :
    (store.link name file).directory other = store.directory other :=
  Function.update_of_ne h ..

/-- A name that is linked has its new file. -/
@[simp] theorem lookup_link : (store.link name file).lookup name = file := by
  unfold lookup
  rw [directory_link, current_write]

/-- Another name keeps its file. -/
theorem lookup_link_of_ne (h : other ≠ name) :
    (store.link name file).lookup other = store.lookup other := by
  unfold lookup
  rw [directory_link_of_ne h]

/-- The destination is not changed where a temporary name is linked. -/
@[simp] theorem destination_link_temporary {process : ℕ} {number : UInt64} :
    (store.link (.temporary process number) file).directory .destination =
      store.directory .destination :=
  directory_link_of_ne (by simp)

/-- The directory after a file is made. -/
theorem directory_make {file : File} :
    (store.make name file).directory = (store.link name (some store.files.length)).directory := rfl

/-- The directory after the destination is replaced. -/
theorem directory_replace {i : ℕ} : (store.replace name i).directory =
    ((store.link name none).link .destination (some i)).directory := rfl

/-- A new file is no new destination. -/
theorem destination_make {process : ℕ} {number : UInt64} {file : File} :
    (store.make (.temporary process number) file).directory .destination =
      store.directory .destination := by
  rw [directory_make, destination_link_temporary]

/-- The destination is written where it is replaced. -/
theorem destination_replace {process : ℕ} {number : UInt64} {i : ℕ} :
    (store.replace (.temporary process number) i).directory .destination =
      (store.directory .destination).write (some i) := by
  rw [directory_replace, directory_link, destination_link_temporary]

/-- Another temporary file stays where it is. -/
theorem lookup_replace_of_ne {process other : ℕ} {number number' : UInt64} {i : ℕ}
    (h : Name.temporary other number' ≠ .temporary process number) :
    (store.replace (.temporary process number) i).lookup (.temporary other number') =
      store.lookup (.temporary other number') := by
  have hdestination : Name.temporary other number' ≠ .destination := by simp
  unfold lookup
  rw [directory_replace, directory_link_of_ne hdestination, directory_link_of_ne h]

/-- The history after the destination is replaced. -/
theorem history_replace {i : ℕ} : (store.replace name i).history = store.history ++ [some i] := rfl

/-- What is kept is some of it, in order. -/
theorem kept_sublist {α : Type} (keep : ℕ → Bool) (values : List α) :
    (kept keep values).Sublist values := by
  have h := (List.filter_sublist (l := values.zipIdx) (p := fun value => keep value.2)).map Prod.fst
  rwa [List.zipIdx_map_fst] at h

end Store

/-- The files stay when one is added. -/
theorem getElem?_append {files : List File} {i : ℕ} {file : File} (added : File)
    (h : files[i]? = some file) : (files ++ [added])[i]? = some file := by
  obtain ⟨hlt, -⟩ := List.getElem?_eq_some_iff.1 h
  rw [List.getElem?_append_left hlt]
  exact h

/-- Another file stays as it is. -/
theorem getElem?_modify_of_ne {files : List File} {i j : ℕ} {file : File} {f : File → File}
    (hne : j ≠ i) (h : files[j]? = some file) : (files.modify i f)[j]? = some file := by
  rw [List.getElem?_modify_ne f files hne.symm]
  exact h

/-! ## Owners -/

variable {initial : Option (FileType × List UInt8)} {store store' : Store} {writers : List Writer}
  {w v : ℕ} {writer : Writer} {phase : Phase} {i : ℕ}

/-- What has been written of the contents. -/
def Phase.Matches (contents : List UInt8) (file : File) : Phase → Prop
  | writing _ _ rest => file.contents ++ rest = contents
  | staged _ _ | checked _ _ => file.contents = contents ∧ file.synced = true
  | _ => True

/-- The name leads to the writer's own file, which has not been the destination. -/
structure Holds (store : Store) (w : ℕ) (name : Name) (i : ℕ) (file : File) : Prop where
  /-- The name leads to the file. -/
  lookup : store.lookup name = some i
  /-- The file has not been the destination. -/
  unseen : some i ∉ store.history
  /-- The file is this one. -/
  present : store.files[i]? = some file
  /-- The writer made it. -/
  made : file.writer = some w
  /-- It is a regular file. -/
  regular : file.type = .regular

/-- What belongs to a writer. -/
structure Owns (store : Store) (w : ℕ) (writer : Writer) : Prop where
  /-- The temporary file. -/
  held : ∀ number i, writer.phase.temporary = some (number, i) →
    ∃ file, Holds store w (.temporary writer.process number) i file ∧
      writer.phase.Matches writer.contents file
  /-- The version that it has made of it. -/
  standing : ∀ i, writer.phase = .renamed i →
    Standing store.history (store.directory .destination) (some i)
  /-- The version that it has committed. -/
  settled : ∀ i, writer.phase = .committed i → writer.policy.syncParent →
    WriteBack.Settled store.history (store.directory .destination) (some i)
  /-- The version has the contents. -/
  version : ∀ i, writer.phase = .renamed i ∨ writer.phase = .committed i →
    ∃ file, store.files[i]? = some file ∧ some i ∈ store.history ∧ file.writer = some w ∧
      file.contents = writer.contents

/-- A version of the destination is complete and in stable storage. -/
structure Whole (initial : Option (FileType × List UInt8)) (store : Store) (writers : List Writer)
    (i : ℕ) (file : File) : Prop where
  /-- The file is this one. -/
  present : store.files[i]? = some file
  /-- It is in stable storage. -/
  synced : file.synced = true
  /-- It is the first version or has all contents of a writer. -/
  complete : i = 0 ∧ some (file.type, file.contents) = initial ∧ file.writer = none ∨
    file.type = .regular ∧ ∃ w writer, file.writer = some w ∧ writers[w]? = some writer ∧
      file.contents = writer.contents

/-- The invariant. -/
structure Sound (initial : Option (FileType × List UInt8)) (store : Store) (writers : List Writer) :
    Prop where
  /-- The destination goes through its history forwards. -/
  follows : Follows store.history (store.directory .destination)
  /-- After the first version, there is always one. -/
  start : ∃ later : List ℕ, store.history = (initial.map fun _ => 0) :: later.map some
  /-- All versions are whole. -/
  whole : ∀ i, some i ∈ store.history → ∃ file, Whole initial store writers i file
  /-- The writers have what belongs to them. -/
  owns : ∀ w writer, writers[w]? = some writer → Owns store w writer

/-- The destination has only gone forwards. -/
structure Later (a b : Store) : Prop where
  /-- The versions are as they were. -/
  versions : ∀ i file, a.files[i]? = some file → some i ∈ a.history →
    b.files[i]? = some file ∧ some i ∈ b.history
  /-- What stood stands. -/
  standing : ∀ v, Standing a.history (a.directory .destination) v →
    Standing b.history (b.directory .destination) v
  /-- What was settled is settled. -/
  settled : ∀ v, WriteBack.Settled a.history (a.directory .destination) v →
    WriteBack.Settled b.history (b.directory .destination) v

/-- The temporary file of the writer `w` has been left alone. -/
def Spares (w : ℕ) (a b : Store) : Prop :=
  ∀ process number i file, Holds a w (.temporary process number) i file →
    Holds b w (.temporary process number) i file

/-- A writer keeps what belongs to it where it is left alone. -/
theorem Owns.spared (h : Owns store w writer) (hlater : Later store store')
    (hspares : Spares w store store') : Owns store' w writer where
  held number i hphase := by
    obtain ⟨file, hholds, hmatches⟩ := h.held number i hphase
    exact ⟨file, hspares _ _ _ _ hholds, hmatches⟩
  standing i hphase := hlater.standing _ (h.standing i hphase)
  settled i hphase hsync := hlater.settled _ (h.settled i hphase hsync)
  version i hphase := by
    obtain ⟨file, hfile, hseen, hwriter, hcontents⟩ := h.version i hphase
    obtain ⟨hfile, hseen⟩ := hlater.versions i file hfile hseen
    exact ⟨file, hfile, hseen, hwriter, hcontents⟩

/-- Two writers do not have the same temporary file. -/
theorem Holds.ne {name other : Name} {i j : ℕ} {file file' : File} (h : Holds store w name i file)
    (h' : Holds store v other j file') (hne : w ≠ v) : i ≠ j ∧ name ≠ other := by
  have hfile : i ≠ j := by
    rintro rfl
    obtain rfl := Option.some.inj (h.present.symm.trans h'.present)
    exact hne (Option.some.inj (h.made.symm.trans h'.made))
  refine ⟨hfile, ?_⟩
  rintro rfl
  exact hfile (Option.some.inj (h.lookup.symm.trans h'.lookup))

/-! ### What the steps of a writer change -/

section
variable {process : ℕ} {number : UInt64} {file : File} {f : File → File} {name : Name}

/-- Nothing happens. -/
theorem Later.refl (store : Store) : Later store store :=
  ⟨fun _ _ hfile hseen => ⟨hfile, hseen⟩, fun _ h => h, fun _ h => h⟩

/-- A new file is no version. -/
theorem Later.make : Later store (store.make (.temporary process number) file) where
  versions _ _ hfile hseen := ⟨getElem?_append file hfile, hseen⟩
  standing _ h := Store.destination_make.symm ▸ h
  settled _ h := Store.destination_make.symm ▸ h

/-- A new file gets a free name. -/
theorem spares_make (hfree : store.lookup (.temporary process number) = none) :
    Spares w store (store.make (.temporary process number) file) := by
  intro other number' i file' h
  refine ⟨?_, h.unseen, getElem?_append file h.present, h.made, h.regular⟩
  have hne : Name.temporary other number' ≠ .temporary process number := by
    intro heq
    have hlookup := h.lookup
    rw [heq, hfree] at hlookup
    cases hlookup
  exact (Store.lookup_link_of_ne hne).trans h.lookup

/-- A file that is no version is changed. -/
theorem Later.modify (hunseen : some i ∉ store.history) : Later store (store.modify i f) where
  versions j file' hfile hseen := by
    refine ⟨getElem?_modify_of_ne ?_ hfile, hseen⟩
    rintro rfl
    exact hunseen hseen
  standing _ h := h
  settled _ h := h

/-- The file of another writer is changed. -/
theorem spares_modify (h : Holds store v name i file) (hne : w ≠ v) :
    Spares w store (store.modify i f) := fun _ _ _ _ h' =>
  ⟨h'.lookup, h'.unseen, getElem?_modify_of_ne (h'.ne h hne).1 h'.present, h'.made, h'.regular⟩

/-- A file becomes the destination. -/
theorem Later.replace : Later store (store.replace (.temporary process number) i) where
  versions _ _ hfile hseen := ⟨hfile, List.mem_append_left _ hseen⟩
  standing _ h := Store.destination_replace.symm ▸ h.write (some i)
  settled _ h := Store.destination_replace.symm ▸ h.write (some i)

/-- The file of another writer becomes the destination. -/
theorem spares_replace (h : Holds store v (.temporary process number) i file) (hne : w ≠ v) :
    Spares w store (store.replace (.temporary process number) i) := by
  intro other number' j file' h'
  obtain ⟨hfile, hname⟩ := h'.ne h hne
  refine ⟨?_, ?_, h'.present, h'.made, h'.regular⟩
  · rw [Store.lookup_replace_of_ne hname, h'.lookup]
  · rw [Store.history_replace, List.mem_append, not_or]
    exact ⟨h'.unseen, by simpa using hfile⟩

/-- A temporary file is removed. -/
theorem Later.remove : Later store (store.link (.temporary process number) none) where
  versions _ _ hfile hseen := ⟨hfile, hseen⟩
  standing _ h := Store.destination_link_temporary.symm ▸ h
  settled _ h := Store.destination_link_temporary.symm ▸ h

/-- The temporary file of another writer is removed. -/
theorem spares_remove (h : Holds store v (.temporary process number) i file) (hne : w ≠ v) :
    Spares w store (store.link (.temporary process number) none) := fun _ _ _ _ h' =>
  ⟨(Store.lookup_link_of_ne (h'.ne h hne).2).trans h'.lookup, h'.unseen, h'.present, h'.made,
    h'.regular⟩

/-- The directory is synced. -/
theorem Later.syncDirectory (h : Follows store.history (store.directory .destination)) :
    Later store store.syncDirectory where
  versions _ _ hfile hseen := ⟨hfile, hseen⟩
  standing _ hstanding := (hstanding.sync h).standing
  settled _ hsettled := hsettled.standing.sync h

/-- The directory is synced. -/
theorem spares_syncDirectory : Spares w store store.syncDirectory := fun _ _ _ _ h =>
  ⟨h.lookup, h.unseen, h.present, h.made, h.regular⟩

end

/-! ## The invariant is kept -/

/-- All writers are still there, with their contents. -/
def Continues (writers writers' : List Writer) : Prop :=
  ∀ (w : ℕ) (writer : Writer), writers[w]? = some writer →
    ∃ writer' : Writer, writers'[w]? = some writer' ∧ writer'.contents = writer.contents

/-- A writer goes on. -/
theorem continues_set (hw : writers[w]? = some writer) :
    Continues writers (writers.set w { writer with phase := phase }) := by
  intro v writer' hv
  obtain ⟨hlt, -⟩ := List.getElem?_eq_some_iff.1 hw
  rcases eq_or_ne w v with rfl | hne
  · obtain rfl := Option.some.inj (hw.symm.trans hv)
    exact ⟨_, List.getElem?_set_self hlt, rfl⟩
  · exact ⟨writer', (List.getElem?_set_ne hne).trans hv, rfl⟩

/-- A version stays whole. -/
theorem Whole.mono {writers' : List Writer} {file : File}
    (h : Whole initial store writers i file) (hpresent : store'.files[i]? = some file)
    (hwriters : Continues writers writers') : Whole initial store' writers' i file where
  present := hpresent
  synced := h.synced
  complete := by
    refine h.complete.imp_right fun ⟨hregular, w, writer, hmade, hw, hcontents⟩ => ?_
    obtain ⟨writer', hw', hsame⟩ := hwriters w writer hw
    exact ⟨hregular, w, writer', hmade, hw', hcontents.trans hsame.symm⟩

/-- What a step of the writer `w` has to keep. -/
structure Kept (initial : Option (FileType × List UInt8)) (store store' : Store)
    (writers : List Writer) (w : ℕ) (writer : Writer) : Prop where
  /-- The destination goes forwards. -/
  later : Later store store'
  /-- It goes through its history. -/
  follows : Follows store'.history (store'.directory .destination)
  /-- All versions after the first are files. -/
  start : ∃ later : List ℕ, store'.history = (initial.map fun _ => 0) :: later.map some
  /-- A new version is whole. -/
  whole : ∀ i, some i ∈ store'.history → some i ∉ store.history →
    ∃ file, Whole initial store' writers i file
  /-- The others are left alone. -/
  spares : ∀ v, v ≠ w → Spares v store store'
  /-- The writer has what belongs to it. -/
  owns : Owns store' w writer

/-- A step of a writer keeps the invariant. -/
theorem Sound.put (h : Sound initial store writers) (hw : writers[w]? = some writer)
    (hkept : Kept initial store store' writers w { writer with phase := phase }) :
    Sound initial store' (writers.set w { writer with phase := phase }) where
  follows := hkept.follows
  start := hkept.start
  whole j hj := by
    have hcontinues : Continues writers (writers.set w { writer with phase := phase }) :=
      continues_set hw
    by_cases hold : some j ∈ store.history
    · obtain ⟨file, hwhole⟩ := h.whole j hold
      exact ⟨file, hwhole.mono (hkept.later.versions j file hwhole.present hold).1 hcontinues⟩
    · obtain ⟨file, hwhole⟩ := hkept.whole j hj hold
      exact ⟨file, hwhole.mono hwhole.present hcontinues⟩
  owns v writer' hv := by
    obtain ⟨hlt, -⟩ := List.getElem?_eq_some_iff.1 hw
    rcases eq_or_ne w v with rfl | hne
    · rw [List.getElem?_set_self hlt] at hv
      obtain rfl := Option.some.inj hv
      exact hkept.owns
    · rw [List.getElem?_set_ne hne] at hv
      exact (h.owns v writer' hv).spared hkept.later (hkept.spares v hne.symm)

/-- The temporary file of a writer, by its phase. -/
theorem Owns.holding {number : UInt64} (h : Owns store w writer) (hphase : writer.phase = phase)
    (htemporary : phase.temporary = some (number, i)) :
    ∃ file, Holds store w (.temporary writer.process number) i file ∧
      phase.Matches writer.contents file := by
  subst hphase
  exact h.held number i htemporary

/-- A phase in which nothing belongs to the writer. -/
theorem owns_nothing (htemporary : writer.phase.temporary = none)
    (hversion : ∀ i, writer.phase ≠ .renamed i ∧ writer.phase ≠ .committed i) :
    Owns store w writer where
  held _ _ h := by
    rw [htemporary] at h
    cases h
  standing i h := absurd h (hversion i).1
  settled i h := absurd h (hversion i).2
  version i h := h.elim (fun h => absurd h (hversion i).1) fun h => absurd h (hversion i).2

/-- A phase in which a temporary file belongs to the writer. -/
theorem owns_temporary {number : UInt64} {file : File}
    (htemporary : writer.phase.temporary = some (number, i))
    (hholds : Holds store w (.temporary writer.process number) i file)
    (hmatches : writer.phase.Matches writer.contents file) : Owns store w writer where
  held number' j h := by
    obtain ⟨rfl, rfl⟩ := Prod.mk.inj (Option.some.inj (htemporary.symm.trans h))
    exact ⟨file, hholds, hmatches⟩
  standing j h := by
    rw [h] at htemporary
    cases htemporary
  settled j h := by
    rw [h] at htemporary
    cases htemporary
  version j h := by
    rcases h with h | h <;> rw [h] at htemporary <;> cases htemporary

namespace Sound

/-- A step that leaves the disk alone. -/
theorem still (h : Sound initial store writers) (howns : Owns store w writer) :
    Kept initial store store writers w writer :=
  ⟨.refl store, h.follows, h.start, fun _ hnew hold => absurd hnew hold, fun _ _ _ _ _ _ h => h,
    howns⟩

/-- A file that is added is no version. -/
theorem length_unseen (h : Sound initial store writers) :
    some store.files.length ∉ store.history := by
  intro hseen
  obtain ⟨file, hwhole⟩ := h.whole _ hseen
  obtain ⟨hlt, -⟩ := List.getElem?_eq_some_iff.1 hwhole.present
  exact Nat.lt_irrefl _ hlt

/-- A temporary file is created. -/
theorem kept_make {number : UInt64} (h : Sound initial store writers)
    (hfree : store.lookup (.temporary writer.process number) = none) :
    Kept initial store
      (store.make (.temporary writer.process number) ⟨.regular, [], false, some w⟩) writers w
      { writer with phase := .writing number store.files.length writer.contents } where
  later := .make
  follows := Store.destination_make.symm ▸ h.follows
  start := h.start
  whole _ hnew hold := absurd hnew hold
  spares _ _ := spares_make hfree
  owns := by
    have hholds : Holds (store.make (.temporary writer.process number) ⟨.regular, [], false,
      some w⟩)
        w (.temporary writer.process number) store.files.length ⟨.regular, [], false, some w⟩ :=
      ⟨Store.lookup_link, h.length_unseen, List.getElem?_concat_length, rfl, rfl⟩
    exact owns_temporary rfl hholds rfl

/-- The temporary file is changed. -/
theorem kept_modify {number : UInt64} {file : File} {f : File → File}
    (h : Sound initial store writers)
    (hholds : Holds store w (.temporary writer.process number) i file)
    (htemporary : writer.phase.temporary = some (number, i))
    (hf : (f file).writer = file.writer ∧ (f file).type = file.type)
    (hmatches : writer.phase.Matches writer.contents (f file)) :
    Kept initial store (store.modify i f) writers w writer where
  later := .modify hholds.unseen
  follows := h.follows
  start := h.start
  whole _ hnew hold := absurd hnew hold
  spares v hv := spares_modify hholds hv
  owns := by
    refine owns_temporary htemporary ⟨hholds.lookup, hholds.unseen, ?_, ?_, ?_⟩ hmatches
    · show (store.files.modify i f)[i]? = some (f file)
      rw [List.getElem?_modify_eq, hholds.present]
      rfl
    · exact hf.1.trans hholds.made
    · exact hf.2.trans hholds.regular

/-- The temporary file becomes the destination. -/
theorem kept_replace {number : UInt64} {file : File} (h : Sound initial store writers)
    (hw : writers[w]? = some writer)
    (hholds : Holds store w (.temporary writer.process number) i file)
    (hcomplete : file.contents = writer.contents ∧ file.synced = true) :
    Kept initial store (store.replace (.temporary writer.process number) i) writers w
      { writer with phase := if writer.policy.syncParent then .renamed i else .committed i } where
  later := .replace
  follows := Store.destination_replace.symm ▸ h.follows.write hholds.unseen
  start := by
    obtain ⟨later, hlater⟩ := h.start
    refine ⟨later ++ [i], ?_⟩
    rw [Store.history_replace, hlater]
    simp
  -- The one new version is the file of this writer, complete and on the disk.
  whole j hnew hold := by
    obtain rfl : j = i := by
      rw [Store.history_replace, List.mem_append] at hnew
      exact Option.some.inj (List.mem_singleton.1 (hnew.resolve_left hold))
    exact ⟨file, hholds.present, hcomplete.2,
      .inr ⟨hholds.regular, w, writer, hholds.made, hw, hcomplete.1⟩⟩
  spares v hv := spares_replace hholds hv
  owns := by
    have hstanding : Standing (store.history ++ [some i])
        ((store.replace (.temporary writer.process number) i).directory .destination) (some i) :=
      Store.destination_replace.symm ▸ standing_write
    have hseen : some i ∈ store.history ++ [some i] :=
      List.mem_append_right _ (List.mem_singleton_self _)
    -- The parent is still to be synced, or the commit is done.
    by_cases hsync : writer.policy.syncParent
    · simp only [if_pos hsync]
      refine ⟨fun _ _ hj => (by cases hj), fun j hj => ?_, fun _ hj => (by cases hj),
        fun j hj => ?_⟩
      · obtain rfl : i = j := by simpa using hj
        exact hstanding
      · obtain rfl : i = j := by simpa using hj
        exact ⟨file, hholds.present, hseen, hholds.made, hcomplete.1⟩
    · simp only [if_neg hsync]
      refine ⟨fun _ _ hj => (by cases hj), fun _ hj => (by cases hj), fun _ _ h => absurd h hsync,
        fun j hj => ?_⟩
      obtain rfl : i = j := by simpa using hj
      exact ⟨file, hholds.present, hseen, hholds.made, hcomplete.1⟩

/-- The parent is synced. -/
theorem kept_sync (h : Sound initial store writers) (howns : Owns store w writer)
    (hphase : writer.phase = .renamed i) :
    Kept initial store store.syncDirectory writers w { writer with phase := .committed i } where
  later := .syncDirectory h.follows
  follows := h.follows.sync
  start := h.start
  whole _ hnew hold := absurd hnew hold
  spares _ _ := spares_syncDirectory
  owns := by
    refine ⟨fun _ _ hj => (by cases hj), fun _ hj => (by cases hj), fun j hj _ => ?_,
      fun j hj => ?_⟩
    · obtain rfl : i = j := by simpa using hj
      exact (howns.standing i hphase).sync h.follows
    · obtain rfl : i = j := by simpa using hj
      exact howns.version i (.inl hphase)

/-- The temporary file is removed. -/
theorem kept_remove {number : UInt64} {file : File} (h : Sound initial store writers)
    (hholds : Holds store w (.temporary writer.process number) i file) :
    Kept initial store (store.link (.temporary writer.process number) none) writers w
      { writer with phase := .ended } where
  later := .remove
  follows := Store.destination_link_temporary.symm ▸ h.follows
  start := h.start
  whole _ hnew hold := absurd hnew hold
  spares v hv := spares_remove hholds hv
  owns := owns_nothing rfl (by simp)

/-- A step of a writer. -/
theorem act (h : Sound initial store writers) (hw : writers[w]? = some writer) {e : Event}
    (hact : store.act w writer e = some (phase, store')) :
    Kept initial store store' writers w { writer with phase := phase } := by
  have howns := h.owns w writer hw
  revert hact
  fun_cases Store.act store w writer e
  all_goals intro hact
  all_goals simp only [Option.some.injEq, Prod.mk.injEq, reduceCtorEq] at hact
  all_goals try obtain ⟨rfl, rfl⟩ := hact
  -- The temporary file is created, or its name is taken.
  case case3 => exact h.still (owns_nothing rfl (by simp))
  case case4 hfree => exact h.kept_make hfree
  -- The contents are written and synced.
  case case5 number i rest count hphase hcount =>
    obtain ⟨file, hholds, hmatches⟩ := howns.holding hphase rfl
    refine h.kept_modify hholds rfl ⟨rfl, rfl⟩ ?_
    show (file.contents ++ rest.take count) ++ rest.drop count = writer.contents
    rw [List.append_assoc, List.take_append_drop]
    exact hmatches
  case case7 number i hphase =>
    obtain ⟨file, hholds, hmatches⟩ := howns.holding hphase rfl
    exact h.kept_modify hholds rfl ⟨rfl, rfl⟩ ⟨(List.append_nil _).symm.trans hmatches, rfl⟩
  -- The commit.
  case case8 number i hphase _ =>
    obtain ⟨file, hholds, hmatches⟩ := howns.holding hphase rfl
    exact h.still (owns_temporary rfl hholds hmatches)
  case case11 number j hphase i hlookup _ _ =>
    obtain ⟨file, hholds, hmatches⟩ := howns.holding hphase rfl
    obtain rfl : i = j := Option.some.inj (hlookup.symm.trans hholds.lookup)
    exact h.kept_replace hw hholds hmatches
  case case13 number i hphase =>
    obtain ⟨file, hholds, hmatches⟩ := howns.holding hphase rfl
    exact h.still (owns_temporary rfl hholds hmatches)
  case case14 i hphase => exact h.kept_sync howns hphase
  -- A failure after the creation drops the temporary file.
  case case18 number i rest hphase =>
    obtain ⟨file, hholds, -⟩ := howns.holding hphase rfl
    exact h.still (owns_temporary rfl hholds trivial)
  case case19 number i hphase =>
    obtain ⟨file, hholds, -⟩ := howns.holding hphase rfl
    exact h.still (owns_temporary rfl hholds trivial)
  case case20 number i hphase =>
    obtain ⟨file, hholds, -⟩ := howns.holding hphase rfl
    exact h.kept_remove hholds
  all_goals exact h.still (owns_nothing rfl (by simp))

end Sound

/-! ### A loss of power -/

/-- A file in stable storage is as it was after a loss of power. -/
theorem getElem?_lose {keep : Name → ℕ → Bool} {junk : ℕ → List UInt8} {file : File}
    (h : store.files[i]? = some file) (hsynced : file.synced = true) :
    (store.lose keep junk).files[i]? = some file := by
  show (store.files.mapIdx fun i file =>
    if file.synced then file else { file with contents := junk i })[i]? = some file
  rw [List.getElem?_mapIdx, h, Option.map_some, if_pos hsynced]

/-- Every writer goes on, or has died. -/
theorem continues_map {f : Phase → Phase} :
    Continues writers (writers.map fun writer => { writer with phase := f writer.phase }) := by
  intro w writer hw
  refine ⟨{ writer with phase := f writer.phase }, ?_, rfl⟩
  rw [List.getElem?_map, hw]
  rfl

/-- What belongs to a writer after a loss of power. -/
theorem Sound.owns_lose (h : Sound initial store writers) (hw : writers[w]? = some writer)
    (keep : Name → ℕ → Bool) (junk : ℕ → List UInt8) :
    Owns (store.lose keep junk) w { writer with phase := writer.phase.afterDeath } := by
  have howns := h.owns w writer hw
  by_cases hfinished : writer.phase.Finished
  · have hphase : writer.phase.afterDeath = writer.phase := if_pos hfinished
    rw [hphase]
    refine ⟨fun number i hi => ?_, fun i hi => ?_, fun i hi hsync => ?_, fun i hi => ?_⟩
    · cases hp : writer.phase <;> simp [hp, Phase.Finished, Phase.temporary] at hfinished hi
    · rw [hi] at hfinished
      cases hfinished
    · exact (howns.settled i hi hsync).lose h.follows (Store.kept_sublist _ _)
    · obtain ⟨file, hfile, hseen, hmade, hcontents⟩ := howns.version i hi
      obtain ⟨file', hwhole⟩ := h.whole i hseen
      obtain rfl := Option.some.inj (hfile.symm.trans hwhole.present)
      exact ⟨file, getElem?_lose hfile hwhole.synced, hseen, hmade, hcontents⟩
  · have hphase : writer.phase.afterDeath = .died := if_neg hfinished
    rw [hphase]
    exact owns_nothing rfl (by simp)

/-- A loss of power keeps the invariant. -/
theorem Sound.lose (h : Sound initial store writers) (keep : Name → ℕ → Bool)
    (junk : ℕ → List UInt8) :
    Sound initial (store.lose keep junk)
      (writers.map fun writer => { writer with phase := writer.phase.afterDeath }) where
  follows := h.follows.lose (Store.kept_sublist _ _)
  start := h.start
  whole j hj := by
    obtain ⟨file, hwhole⟩ := h.whole j hj
    exact ⟨file, hwhole.mono (getElem?_lose hwhole.present hwhole.synced) continues_map⟩
  owns v writer hv := by
    rw [List.getElem?_map, Option.map_eq_some_iff] at hv
    obtain ⟨before, hbefore, rfl⟩ := hv
    exact h.owns_lose hbefore keep junk

/-- A call keeps the invariant. -/
theorem Sound.call (h : Sound initial store writers) (process : ℕ) (policy : AtomicFilePolicy)
    (contents : List UInt8) :
    Sound initial store (writers ++ [⟨process, policy, contents, .starting⟩]) where
  follows := h.follows
  start := h.start
  whole j hj := by
    obtain ⟨file, hwhole⟩ := h.whole j hj
    refine ⟨file, hwhole.mono hwhole.present fun w writer hw => ⟨writer, ?_, rfl⟩⟩
    obtain ⟨hlt, -⟩ := List.getElem?_eq_some_iff.1 hw
    exact (List.getElem?_append_left hlt).trans hw
  owns v writer hv := by
    rw [List.getElem?_append] at hv
    split at hv
    · exact h.owns v writer hv
    · obtain rfl := List.mem_singleton.1 (List.mem_of_getElem? hv)
      exact owns_nothing rfl (by simp)

/-- At first, the invariant holds. -/
theorem sound_init : Sound initial (initialStore initial) [] where
  follows := ⟨List.nodup_singleton _, List.Sublist.refl _⟩
  start := ⟨[], rfl⟩
  whole i hi := by
    cases initial with
    | none => simp [initialStore] at hi
    | some first =>
      obtain rfl : i = 0 := by simpa [initialStore] using hi
      exact ⟨initialFile first, rfl, rfl, .inl ⟨rfl, rfl, rfl⟩⟩
  owns _ _ h := by cases h

/-! ## Steps of the system -/

namespace System

variable {s t : System} {r : ℕ} {e : Event}

/-- A step of a writer. -/
theorem step_act (h : s.step (.act w e) = some t) : ∃ writer phase store,
    s.writers[w]? = some writer ∧ s.store.act w writer e = some (phase, store) ∧
      t = ⟨store, s.writers.set w { writer with phase := phase }, s.readers⟩ := by
  obtain ⟨writer, hw, h⟩ := Option.bind_eq_some_iff.1 h
  obtain ⟨⟨phase, store⟩, hact, rfl⟩ := Option.map_eq_some_iff.1 h
  exact ⟨writer, phase, store, hw, hact, rfl⟩

/-- A step of a reader. -/
theorem step_look {e : Look} (h : s.step (.look r e) = some t) : ∃ reader reading,
    s.readers[r]? = some reader ∧ s.store.look reader e = some reading ∧
      t = { s with readers := s.readers.set r { reader with reading := reading } } := by
  obtain ⟨reader, hr, h⟩ := Option.bind_eq_some_iff.1 h
  obtain ⟨reading, hlook, rfl⟩ := Option.map_eq_some_iff.1 h
  exact ⟨reader, reading, hr, hlook, rfl⟩

/-- Every step keeps the invariant. -/
theorem sound_step {label : Label} (h : Sound initial s.store s.writers)
    (hstep : s.step label = some t) : Sound initial t.store t.writers := by
  cases label with
  | call process policy contents =>
    obtain rfl := Option.some.inj hstep
    exact h.call process policy contents
  | act w e =>
    obtain ⟨writer, phase, store, hw, hact, rfl⟩ := step_act hstep
    exact h.put hw (h.act hw hact)
  | read maxBytes =>
    obtain rfl := Option.some.inj hstep
    exact h
  | look r e =>
    obtain ⟨reader, reading, -, -, rfl⟩ := step_look hstep
    exact h
  | powerLoss keep junk =>
    obtain rfl := Option.some.inj hstep
    exact h.lose keep junk

/-- The invariant holds in every reachable state. -/
theorem sound_of_reachable (h : (shared initial).Reachable s) : Sound initial s.store s.writers :=
  Machine.invariant_of_reachable (P := fun s => Sound initial s.store s.writers) sound_init
    (fun _ _ _ hs hstep => sound_step hs hstep) h

/-- No step changes a version. -/
theorem versions_step {label : Label} (h : Sound initial s.store s.writers)
    (hstep : s.step label = some t) {file : File} (hfile : s.store.files[i]? = some file)
    (hseen : some i ∈ s.store.history) :
    t.store.files[i]? = some file ∧ some i ∈ t.store.history := by
  cases label with
  | call process policy contents =>
    obtain rfl := Option.some.inj hstep
    exact ⟨hfile, hseen⟩
  | act w e =>
    obtain ⟨writer, phase, store, hw, hact, rfl⟩ := step_act hstep
    exact (h.act hw hact).later.versions i file hfile hseen
  | read maxBytes =>
    obtain rfl := Option.some.inj hstep
    exact ⟨hfile, hseen⟩
  | look r e =>
    obtain ⟨reader, reading, -, -, rfl⟩ := step_look hstep
    exact ⟨hfile, hseen⟩
  | powerLoss keep junk =>
    obtain rfl := Option.some.inj hstep
    obtain ⟨file', hwhole⟩ := h.whole i hseen
    obtain rfl := Option.some.inj (hfile.symm.trans hwhole.present)
    exact ⟨getElem?_lose hfile hwhole.synced, hseen⟩

end System

/-! ## Reads -/

/-- A read on its way to the outcome. -/
def OnTrack (store : Store) (maxBytes : UInt64) (outcome : Outcome) : Reading → Prop
  | .opening => False
  | .opened i => ∃ file, store.files[i]? = some file ∧ some i ∈ store.history ∧
      file.type ≠ .symlink ∧ file.outcome maxBytes = outcome
  | .reading i bytes => ∃ file, store.files[i]? = some file ∧ some i ∈ store.history ∧
      bytes <+: file.contents ∧ file.contents.length ≤ maxBytes.toNat ∧
      outcome = .bytes file.contents
  | .finished result => result = .failed ∨ result = outcome
  | .died => True

namespace OnTrack

variable {maxBytes : UInt64} {outcome : Outcome} {reading : Reading}

/-- A read stays on its way where the versions are as they were. -/
theorem mono (h : OnTrack store maxBytes outcome reading)
    (hversions : ∀ (i : ℕ) (file : File), store.files[i]? = some file → some i ∈ store.history →
      store'.files[i]? = some file ∧ some i ∈ store'.history) :
    OnTrack store' maxBytes outcome reading := by
  cases reading with
  | opening => exact h
  | opened i =>
    obtain ⟨file, hfile, hseen, h⟩ := h
    obtain ⟨hfile, hseen⟩ := hversions i file hfile hseen
    exact ⟨file, hfile, hseen, h⟩
  | reading i bytes =>
    obtain ⟨file, hfile, hseen, h⟩ := h
    obtain ⟨hfile, hseen⟩ := hversions i file hfile hseen
    exact ⟨file, hfile, hseen, h⟩
  | finished result => exact h
  | died => trivial

/-- What comes out where no more is to be read. -/
theorem finish {bytes contents : List UInt8} (hread : bytes <+: contents)
    (hlength : contents.length ≤ maxBytes.toNat)
    (hend : contents.length ≤ bytes.length ∨ limit maxBytes ≤ bytes.length) :
    (if maxBytes.toNat < bytes.length then Outcome.grew else .bytes bytes) = .bytes contents := by
  have hle := hread.length_le
  have hsize := maxBytes.toNat_lt_size
  have hsame : contents.length ≤ bytes.length := by
    rcases hend with hend | hend
    · exact hend
    · unfold limit at hend
      omega
  rw [if_neg (by omega), hread.eq_of_length (by omega)]

/-- A reader's step keeps the read on its way. -/
theorem look {reader : Reader} {e : Look} {next : Reading}
    (h : OnTrack store reader.maxBytes outcome reader.reading)
    (hlook : store.look reader e = some next) : OnTrack store reader.maxBytes outcome next := by
  revert hlook
  fun_cases Store.look store reader e
  all_goals intro hlook
  all_goals try rename _ = Reading.opening => hphase; rw [hphase] at h; cases h
  -- What is left to be read is decided by what the file is.
  case case4 i hphase =>
    rw [hphase] at h
    obtain ⟨file, hfile, hseen, hsymlink, rfl⟩ := h
    rw [hfile, Option.map_some, Option.some.injEq] at hlook
    subst hlook
    unfold File.outcome
    cases htype : file.type with
    | symlink => exact absurd htype hsymlink
    | directory => exact .inr rfl
    | other => exact .inr rfl
    | regular =>
      simp only [ne_eq, not_true, if_false]
      split
      · exact .inr rfl
      · exact ⟨file, hfile, hseen, List.nil_prefix, by omega, rfl⟩
  case case5 i bytes count hphase =>
    rw [hphase] at h
    obtain ⟨file, hfile, hseen, ⟨rest, hrest⟩, hlength, rfl⟩ := h
    rw [hfile, Option.bind_some] at hlook
    obtain ⟨-, rfl⟩ := Machine.guarded_eq_some.1 hlook
    refine ⟨file, hfile, hseen, ⟨rest.drop count, ?_⟩, hlength, rfl⟩
    rw [← hrest, List.drop_left, List.append_assoc, List.take_append_drop]
  case case6 i bytes hphase =>
    rw [hphase] at h
    obtain ⟨file, hfile, -, hbytes, hlength, rfl⟩ := h
    rw [hfile, Option.bind_some] at hlook
    obtain ⟨hend, rfl⟩ := Machine.guarded_eq_some.1 hlook
    exact .inr (finish hbytes hlength hend)
  -- A call that fails, and one whose process ends.
  case case8 => exact Option.some.inj hlook ▸ .inl rfl
  case case9 => exact Option.some.inj hlook ▸ .inl rfl
  case case11 => exact Option.some.inj hlook ▸ trivial
  case case12 => exact Option.some.inj hlook ▸ trivial
  case case13 => cases hlook

/-- A read that is opened is on its way to what the destination is. -/
theorem openFile {reader : Reader} {next : Reading} (hsound : Sound initial store writers)
    (hlook : store.look reader .openFile = some next) :
    OnTrack store reader.maxBytes (store.outcome reader.maxBytes) next := by
  have hreading : reader.reading = .opening := by
    cases hreading : reader.reading <;> simp [Store.look, hreading] at hlook
    rfl
  simp only [Store.look, hreading] at hlook
  unfold Store.outcome
  cases hlookup : store.lookup .destination with
  | none =>
    rw [hlookup] at hlook
    exact Option.some.inj hlook ▸ .inr rfl
  | some i =>
    have hseen : some i ∈ store.history := hlookup ▸ hsound.follows.current_mem
    obtain ⟨file, hwhole⟩ := hsound.whole i hseen
    have htype : store.typeAt .destination = some file.type := by
      simp [Store.typeAt, hlookup, hwhole.present]
    simp only [hlookup, htype, Option.some.injEq] at hlook
    simp only [hwhole.present]
    split at hlook
    · rename_i hsymlink
      refine Option.some.inj hlook ▸ .inr ?_
      simp [File.outcome, hsymlink]
    · rename_i hsymlink
      exact Option.some.inj hlook ▸ ⟨file, hwhole.present, hseen, hsymlink, rfl⟩

/-- A read that has died stays so or had returned, when the process ends. -/
theorem afterDeath (h : OnTrack store maxBytes outcome reading) :
    OnTrack store maxBytes outcome reading.afterDeath := by
  cases reading with
  | finished result => exact h
  | _ => trivial

end OnTrack

namespace System

variable {s s' t : System} {r : ℕ} {maxBytes : UInt64} {outcome : Outcome}

/-- The reader `r` is on its way to the outcome. -/
def Tracks (r : ℕ) (maxBytes : UInt64) (outcome : Outcome) (s : System) : Prop :=
  ∃ reader, s.readers[r]? = some reader ∧ reader.maxBytes = maxBytes ∧
    OnTrack s.store maxBytes outcome reader.reading

/-- A reader stays on its way in every step. -/
theorem tracks_step {label : Label} (hsound : Sound initial s.store s.writers)
    (h : Tracks r maxBytes outcome s) (hstep : s.step label = some t) :
    Tracks r maxBytes outcome t := by
  obtain ⟨reader, hr, hbound, htrack⟩ := h
  have hkept := htrack.mono fun i file => versions_step hsound hstep
  obtain ⟨hlt, -⟩ := List.getElem?_eq_some_iff.1 hr
  cases label with
  | call process policy contents =>
    obtain rfl := Option.some.inj hstep
    exact ⟨reader, hr, hbound, hkept⟩
  | act w e =>
    obtain ⟨writer, phase, store, hw, hact, rfl⟩ := step_act hstep
    exact ⟨reader, hr, hbound, hkept⟩
  | read maxBytes =>
    obtain rfl := Option.some.inj hstep
    exact ⟨reader, (List.getElem?_append_left hlt).trans hr, hbound, hkept⟩
  -- The reader itself goes on, and the others leave it where it is.
  | look r' e =>
    obtain ⟨reader', reading, hr', hlook, rfl⟩ := step_look hstep
    rcases eq_or_ne r' r with rfl | hne
    · obtain rfl := Option.some.inj (hr.symm.trans hr')
      subst hbound
      exact ⟨_, List.getElem?_set_self hlt, rfl, htrack.look hlook⟩
    · exact ⟨reader, (List.getElem?_set_ne hne).trans hr, hbound, hkept⟩
  -- A reader dies with the machine.
  | powerLoss keep junk =>
    obtain rfl := Option.some.inj hstep
    refine ⟨{ reader with reading := reader.reading.afterDeath }, ?_, hbound, hkept.afterDeath⟩
    show (s.readers.map _)[r]? = _
    rw [List.getElem?_map, hr]
    rfl

/-- What is read of the destination is the first version, or all that one writer has written. -/
theorem outcome_bytes (hsound : Sound initial s.store s.writers) {bytes : List UInt8}
    (h : s.store.outcome maxBytes = .bytes bytes) : bytes.length ≤ maxBytes.toNat ∧
      (initial = some (.regular, bytes) ∨ ∃ writer ∈ s.writers, bytes = writer.contents) := by
  unfold Store.outcome at h
  cases hlookup : s.store.lookup .destination with
  | none => simp [hlookup] at h
  | some i =>
    have hseen : some i ∈ s.store.history := hlookup ▸ hsound.follows.current_mem
    obtain ⟨file, hwhole⟩ := hsound.whole i hseen
    simp only [hlookup, hwhole.present, File.outcome] at h
    split at h
    · cases h
    · rename_i hregular
      split at h
      · cases h
      · obtain rfl := Outcome.bytes.inj h
        refine ⟨by omega, ?_⟩
        rcases hwhole.complete with ⟨-, hinitial, -⟩ | ⟨-, w, writer, -, hw, hcontents⟩
        · rw [hregular] at hinitial
          exact .inl hinitial.symm
        · exact .inr ⟨writer, List.mem_of_getElem? hw, hcontents⟩
    · cases h

/-- The writer `w` has committed its version, with a sync of the parent. -/
def Committed (w : ℕ) (writer : Writer) (i : ℕ) (s : System) : Prop :=
  s.writers[w]? = some writer ∧ writer.phase = .committed i ∧ writer.policy.syncParent = true

/-- A writer that has committed does nothing more. -/
theorem act_committed {writer : Writer} (h : writer.phase = .committed i) (store : Store)
    (w : ℕ) (e : Event) : store.act w writer e = none := by
  unfold Store.act
  rw [h]
  cases e <;> rfl

/-- What is committed stays so in every step. -/
theorem committed_step {writer : Writer} {label : Label} (h : Committed w writer i s)
    (hstep : s.step label = some t) : Committed w writer i t := by
  obtain ⟨hw, hphase, hsync⟩ := h
  refine ⟨?_, hphase, hsync⟩
  obtain ⟨hlt, -⟩ := List.getElem?_eq_some_iff.1 hw
  cases label with
  | call process policy contents =>
    obtain rfl := Option.some.inj hstep
    exact (List.getElem?_append_left hlt).trans hw
  -- A writer that has committed takes no step any more.
  | act v e =>
    obtain ⟨writer', phase, store, hv, hact, rfl⟩ := step_act hstep
    rcases eq_or_ne v w with rfl | hne
    · obtain rfl := Option.some.inj (hw.symm.trans hv)
      rw [act_committed hphase] at hact
      cases hact
    · exact (List.getElem?_set_ne hne).trans hw
  | read maxBytes =>
    obtain rfl := Option.some.inj hstep
    exact hw
  | look r e =>
    obtain ⟨reader, reading, -, -, rfl⟩ := step_look hstep
    exact hw
  -- The power loss ends only writers that are on their way.
  | powerLoss keep junk =>
    obtain rfl := Option.some.inj hstep
    show (s.writers.map _)[w]? = _
    rw [List.getElem?_map, hw, Option.map_some, Phase.afterDeath, if_pos (by rw [hphase]; rfl)]

end System

/-- What comes behind a version that a writer made is a version that a writer made. -/
theorem Sound.later_version (h : Sound initial store writers) {value : Option ℕ} {file : File}
    (hfile : store.files[i]? = some file) (hmade : file.writer = some w)
    (hle : NotBefore store.history (some i) value) :
    ∃ j file' v writer, value = some j ∧ store.files[j]? = some file' ∧ file'.type = .regular ∧
      file'.writer = some v ∧ writers[v]? = some writer ∧ file'.contents = writer.contents := by
  obtain ⟨later, hlater⟩ := h.start
  have hfirst : value = initial.map (fun _ => 0) → some i = value := by
    rintro rfl
    rw [hlater] at hle
    exact hle.eq_first
  obtain ⟨j, rfl⟩ : ∃ j, value = some j := by
    have hmem := hle.2.1
    rw [hlater, List.mem_cons] at hmem
    rcases hmem with hmem | hmem
    · exact ⟨i, (hfirst hmem).symm⟩
    · obtain ⟨j, -, rfl⟩ := List.mem_map.1 hmem
      exact ⟨j, rfl⟩
  obtain ⟨file', hwhole⟩ := h.whole j hle.2.1
  rcases hwhole.complete with ⟨rfl, hinitial, hnone⟩ | ⟨hregular, v, writer, hv, hw, hcontents⟩
  -- The first version was made by no writer.
  · rw [← hinitial] at hfirst
    obtain rfl : i = 0 := Option.some.inj (hfirst rfl)
    obtain rfl := Option.some.inj (hfile.symm.trans hwhole.present)
    rw [hmade] at hnone
    cases hnone
  · exact ⟨j, file', v, writer, rfl, hwhole.present, hregular, hv, hw, hcontents⟩

section Runs

variable {s s' t : System} {labels : List Label}

/-- What `read_bytes_bounded` returns, unless a system call fails, is what the destination was when
it was opened, whatever happens meanwhile. These are no more bytes than the bound, and they are the
first contents of the destination or all that one writer was given. -/
theorem reads_are_atomic {r : ℕ} {maxBytes : UInt64} {outcome : Outcome}
    (hs : (shared initial).Reachable s) (hreader : s.readers[r]? = some ⟨maxBytes, .opening⟩)
    (hopen : s.step (.look r .openFile) = some s') (hrun : (shared initial).run s' labels = some t)
    (hfinished : t.readers[r]? = some ⟨maxBytes, .finished outcome⟩) (hfailed : outcome ≠ .failed) :
    outcome = s.store.outcome maxBytes ∧ ∀ bytes, outcome = .bytes bytes →
      bytes.length ≤ maxBytes.toNat ∧
      (initial = some (.regular, bytes) ∨ ∃ writer ∈ s.writers, bytes = writer.contents) := by
  have hsound := System.sound_of_reachable hs
  have hopened : System.Tracks r maxBytes (s.store.outcome maxBytes) s' := by
    obtain ⟨reader, reading, hr, hlook, rfl⟩ := System.step_look hopen
    obtain rfl := Option.some.inj (hreader.symm.trans hr)
    obtain ⟨hlt, -⟩ := List.getElem?_eq_some_iff.1 hreader
    exact ⟨_, List.getElem?_set_self hlt, rfl, .openFile hsound hlook⟩
  have hend : Sound initial t.store t.writers ∧
      System.Tracks r maxBytes (s.store.outcome maxBytes) t := by
    refine Machine.invariant_of_run (P := fun s' => Sound initial s'.store s'.writers ∧
      System.Tracks r maxBytes (s.store.outcome maxBytes) s') (fun u label v hu hstep => ?_)
      ⟨System.sound_step hsound hopen, hopened⟩ hrun
    exact ⟨System.sound_step hu.1 hstep, System.tracks_step hu.1 hu.2 hstep⟩
  obtain ⟨-, reader, hr, -, htrack⟩ := hend
  obtain rfl := Option.some.inj (hfinished.symm.trans hr)
  obtain rfl := htrack.resolve_left hfailed
  exact ⟨rfl, fun bytes hbytes => System.outcome_bytes hsound hbytes⟩

/-- A writer has staged its contents, up to the rename. -/
def stage (w : ℕ) (process : ℕ) (number : UInt64) (contents : List UInt8) : List Label :=
  .call process .DURABLE contents ::
    [.inspect, .create number, .write contents.length, .syncAll, .inspect].map (.act w)

/-- The destination is replaced between two pieces of a read. -/
theorem reads_are_atomic_replaced : ∃ s s' t,
    (shared (some (.regular, [1, 2, 3]))).run (shared (some (.regular, [1, 2, 3]))).init
      (stage 0 70 1 [4, 5] ++ [.read 16]) = some s ∧
    s.step (.look 0 .openFile) = some s' ∧
    (shared (some (.regular, [1, 2, 3]))).run s' [.look 0 .stat, .look 0 (.read 2), .act 0 .rename,
      .act 0 .syncParent, .look 0 (.read 1), .look 0 .finish] = some t ∧
    t.store.outcome 16 = .bytes [4, 5] ∧
    t.readers[0]? = some ⟨16, .finished (.bytes [1, 2, 3])⟩ ∧
    .bytes [1, 2, 3] = s.store.outcome 16 := by
  obtain ⟨s, hs⟩ : ∃ s, (shared (some (.regular, [1, 2, 3]))).run
      (shared (some (.regular, [1, 2, 3]))).init (stage 0 70 1 [4, 5] ++ [.read 16]) = some s :=
    ⟨_, rfl⟩
  obtain ⟨s', hopen⟩ : ∃ s', s.step (.look 0 .openFile) = some s' := by
    obtain rfl := Option.some.inj hs
    exact ⟨_, rfl⟩
  obtain ⟨t, hrun⟩ : ∃ t, (shared (some (.regular, [1, 2, 3]))).run s' [.look 0 .stat,
      .look 0 (.read 2), .act 0 .rename, .act 0 .syncParent, .look 0 (.read 1), .look 0 .finish] =
        some t := by
    obtain rfl := Option.some.inj hs
    obtain rfl := Option.some.inj hopen
    exact ⟨_, rfl⟩
  have hreader : s.readers[0]? = some ⟨16, .opening⟩ := by
    obtain rfl := Option.some.inj hs
    rfl
  have hend : t.store.outcome 16 = .bytes [4, 5] ∧
      t.readers[0]? = some ⟨16, .finished (.bytes [1, 2, 3])⟩ := by
    obtain rfl := Option.some.inj hs
    obtain rfl := Option.some.inj hopen
    obtain rfl := Option.some.inj hrun
    exact ⟨rfl, rfl⟩
  exact ⟨s, s', t, hs, hopen, hrun, hend.1, hend.2,
    (reads_are_atomic ⟨_, hs⟩ hreader hopen hrun hend.2 (by simp)).1⟩

/-- After a commit with a sync of the parent, whatever happens and however often the power is lost,
the destination is this version or one that came later, with all that its writer was given. -/
theorem commits_survive {writer : Writer} (hs : (shared initial).Reachable s)
    (hw : s.writers[w]? = some writer) (hphase : writer.phase = .committed i)
    (hsync : writer.policy.syncParent = true) (hrun : (shared initial).run s labels = some t) :
    (∃ file, t.store.files[i]? = some file ∧ file.writer = some w ∧
      file.contents = writer.contents) ∧
    ∃ j file v other, t.store.lookup .destination = some j ∧
      NotBefore t.store.history (some i) (some j) ∧ t.store.files[j]? = some file ∧
      file.type = .regular ∧ file.writer = some v ∧ t.writers[v]? = some other ∧
      file.contents = other.contents := by
  have hend : Sound initial t.store t.writers ∧ System.Committed w writer i t := by
    refine Machine.invariant_of_run (P := fun s => Sound initial s.store s.writers ∧
      System.Committed w writer i s) (fun u label v hu hstep => ?_)
      ⟨System.sound_of_reachable hs, hw, hphase, hsync⟩ hrun
    exact ⟨System.sound_step hu.1 hstep, System.committed_step hu.2 hstep⟩
  obtain ⟨hsound, hw', -, -⟩ := hend
  have howns := hsound.owns w writer hw'
  obtain ⟨file, hfile, -, hmade, hcontents⟩ := howns.version i (.inr hphase)
  have hle : NotBefore t.store.history (some i) (t.store.lookup .destination) :=
    (howns.settled i hphase hsync).standing.current hsound.follows
  obtain ⟨j, file', v, other, hj, hfile', hregular, hv, hother, hsame⟩ :=
    hsound.later_version hfile hmade hle
  rw [hj] at hle
  exact ⟨⟨file, hfile, hmade, hcontents⟩, j, file', v, other, hj, hle, hfile', hregular, hv, hother,
    hsame⟩

/-- The power is lost after a commit and the rename of another writer, which is undone. -/
theorem commits_survive_undone : ∃ s writer t,
    (shared none).run (shared none).init
      (stage 0 70 1 [4, 5] ++ [.act 0 .rename, .act 0 .syncParent]) = some s ∧
    s.writers[0]? = some writer ∧ writer.phase = .committed 0 ∧
    (shared none).run s (stage 1 71 1 [6] ++ [.act 1 .rename, .powerLoss (fun _ _ => false)
      fun _ => []]) = some t ∧
    t.store.history = [none, some 0, some 1] ∧
    ∃ j file v other, t.store.lookup .destination = some j ∧
      NotBefore t.store.history (some 0) (some j) ∧ t.store.files[j]? = some file ∧
      file.type = .regular ∧ file.writer = some v ∧ t.writers[v]? = some other ∧
      file.contents = other.contents := by
  obtain ⟨s, hs⟩ : ∃ s, (shared none).run (shared none).init
      (stage 0 70 1 [4, 5] ++ [.act 0 .rename, .act 0 .syncParent]) = some s := ⟨_, rfl⟩
  obtain ⟨writer, hw, hphase, hsync⟩ : ∃ writer, s.writers[0]? = some writer ∧
      writer.phase = .committed 0 ∧ writer.policy.syncParent = true := by
    obtain rfl := Option.some.inj hs
    exact ⟨_, rfl, rfl, rfl⟩
  obtain ⟨t, hrun⟩ : ∃ t, (shared none).run s (stage 1 71 1 [6] ++ [.act 1 .rename,
      .powerLoss (fun _ _ => false) fun _ => []]) = some t := by
    obtain rfl := Option.some.inj hs
    exact ⟨_, rfl⟩
  have hhistory : t.store.history = [none, some 0, some 1] := by
    obtain rfl := Option.some.inj hs
    obtain rfl := Option.some.inj hrun
    rfl
  exact ⟨s, writer, t, hs, hw, hphase, hrun, hhistory,
    (commits_survive ⟨_, hs⟩ hw hphase hsync hrun).2⟩

end Runs

end DaemonFramework.Files.Shared
