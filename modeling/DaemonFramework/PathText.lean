import Mathlib.Data.List.Basic

/-!
# Paths as texts

`Path::components` and `PathBuf::join` of the standard library, on the bytes of a path. A path is
cut at its slashes; the pieces that are empty or a dot are dropped, but for a dot at the start.

`components_join` says that joining puts the components of one path behind those of another, and
`components_eq_names` what a path without special components is.
-/

namespace DaemonFramework.PathText

/-- The byte between the pieces of a path. -/
def separator : UInt8 := 47

/-- The byte of the pieces that are special. -/
def dot : UInt8 := 46

/-- `Component` -/
inductive Component where
  | rootDir
  | curDir
  | parentDir
  | normal (name : List UInt8)
deriving DecidableEq

/-- What a piece of a path is, if it is anything. -/
def piece (bytes : List UInt8) : Option Component :=
  if bytes = [] ∨ bytes = [dot] then none
  else if bytes = [dot, dot] then some .parentDir
  else some (.normal bytes)

/-- What the pieces of a path are. -/
def pieces (path : List UInt8) : List Component :=
  (path.splitOnP (· = separator)).filterMap piece

/-- `Path::has_root`, which is `Path::is_absolute` on Unix. -/
def hasRoot (path : List UInt8) : Bool := path.head? = some separator

/-- A path that starts with a dot that counts. -/
def startsWithDot (path : List UInt8) : Bool :=
  path.head? = some dot && (path.tail = [] || path.tail.head? = some separator)

/-- `Path::components` -/
def components (path : List UInt8) : List Component :=
  if hasRoot path then .rootDir :: pieces path
  else if startsWithDot path then .curDir :: pieces path
  else pieces path

/-- `Path::join` -/
def join (path other : List UInt8) : List UInt8 :=
  if hasRoot other then other
  else if path = [] ∨ path.getLast? = some separator then path ++ other
  else path ++ separator :: other

variable {path other : List UInt8} {names : List (List UInt8)}

/-- The pieces on the two sides of a slash. -/
theorem pieces_append_cons (path other : List UInt8) :
    pieces (path ++ separator :: other) = pieces path ++ pieces other := by
  unfold pieces
  rw [List.splitOnP_append_cons path other (by simp), List.filterMap_append]

/-- A slash at the end adds no piece. -/
theorem pieces_concat (path : List UInt8) : pieces (path ++ [separator]) = pieces path := by
  rw [pieces_append_cons]
  exact List.append_nil _

/-- What is behind a slash does not change the pieces before it. -/
theorem pieces_append (h : path.getLast? = some separator) :
    pieces (path ++ other) = pieces path ++ pieces other := by
  obtain ⟨before, rfl⟩ := List.getLast?_eq_some_iff.1 h
  rw [List.append_assoc, List.singleton_append, pieces_append_cons, pieces_concat]

/-- A path behind an absolute one is absolute. -/
theorem hasRoot_append (h : hasRoot path = true) : hasRoot (path ++ other) = true := by
  unfold hasRoot at h ⊢
  cases path with
  | nil => cases h
  | cons first rest => exact h

/-- The components of an absolute path. -/
theorem components_of_hasRoot (h : hasRoot path = true) :
    components path = .rootDir :: pieces path := if_pos h

/-- The components of a path without special ones are its pieces, and it is not absolute. -/
theorem components_eq_names (h : components path = names.map .normal) :
    hasRoot path = false ∧ pieces path = names.map .normal := by
  unfold components at h
  split_ifs at h with hroot hdot
  · cases names <;> cases h
  · cases names <;> cases h
  · exact ⟨Bool.eq_false_iff.2 hroot, h⟩

/-- Joining puts the components of a relative path behind those of an absolute one. -/
theorem components_join (hpath : hasRoot path = true)
    (hother : components other = names.map .normal) :
    hasRoot (join path other) = true ∧
      components (join path other) = components path ++ names.map .normal := by
  obtain ⟨hrelative, hpieces⟩ := components_eq_names hother
  have hnonempty : path ≠ [] := by
    rintro rfl
    cases hpath
  unfold join
  rw [if_neg (by rw [hrelative]; exact Bool.false_ne_true)]
  split_ifs with hslash
  · have hlast := hslash.resolve_left hnonempty
    refine ⟨hasRoot_append hpath, ?_⟩
    rw [components_of_hasRoot (hasRoot_append hpath), pieces_append hlast, hpieces,
      components_of_hasRoot hpath, List.cons_append]
  · refine ⟨hasRoot_append hpath, ?_⟩
    rw [components_of_hasRoot (hasRoot_append hpath), pieces_append_cons, hpieces,
      components_of_hasRoot hpath, List.cons_append]

/-- The first piece of a path that does not start with a slash. -/
theorem splitOnP_cons_of_ne {first : UInt8} {rest : List UInt8} (h : first ≠ separator) :
    ∃ piece others, rest.splitOnP (· = separator) = piece :: others ∧
      (first :: rest).splitOnP (· = separator) = (first :: piece) :: others := by
  obtain ⟨piece, others, hsplit⟩ :=
    List.exists_cons_of_ne_nil (List.splitOnP_ne_nil (· = separator) rest)
  refine ⟨piece, others, hsplit, ?_⟩
  rw [List.splitOnP_cons_eq_if_modifyHead, if_neg (by simpa using h), hsplit]
  rfl

/-- A path that is not empty has a component. -/
theorem components_ne_nil (h : path ≠ []) : components path ≠ [] := by
  intro hnone
  obtain ⟨first, rest, rfl⟩ := List.exists_cons_of_ne_nil h
  unfold components at hnone
  split_ifs at hnone with hroot hdot
  have hfirst : first ≠ separator := by
    rintro rfl
    exact hroot rfl
  obtain ⟨name, others, hrest, hsplit⟩ := splitOnP_cons_of_ne hfirst
  -- The first piece counts, unless it is a dot, which counts where the path starts with it.
  have hpiece : piece (first :: name) = none := by
    unfold pieces at hnone
    rw [hsplit, List.filterMap_eq_nil_iff] at hnone
    exact hnone _ List.mem_cons_self
  have hname : first :: name = [dot] := by
    by_contra hne
    unfold piece at hpiece
    rw [if_neg (not_or_intro (List.cons_ne_nil _ _) hne)] at hpiece
    split_ifs at hpiece
  obtain ⟨rfl, rfl⟩ := List.cons.inj hname
  refine hdot ?_
  cases rest with
  | nil => rfl
  | cons next rest =>
    by_cases hnext : next = separator
    · subst hnext
      rfl
    · obtain ⟨name', others', -, hsplit'⟩ := splitOnP_cons_of_ne hnext
      rw [hrest] at hsplit'
      cases hsplit'

end DaemonFramework.PathText
