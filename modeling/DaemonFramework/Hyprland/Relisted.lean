import DaemonFramework.Hyprland.WorkArea
import Mathlib.Data.Finset.Card
import Mathlib.Data.Finset.Dedup

/-!
# The order of clients

Work areas do not depend on the order in which the clients are listed, nor on that of the members of
a group. Clients are counted by predicates that look at one of them at a time, and where a group
counts once, by its first client, the number is that of the groups that occur (`countGroups_eq`).
The groups are compared as sorted lists, which are the same where the members are.
-/

namespace DaemonFramework.Hyprland

/-- The same client, with the members of its group in another order. -/
def Regrouped (client other : Window) : Prop :=
  ∃ members, client.grouped.Perm members ∧ other = { client with grouped := members }

/-- The same documents, with the clients and the members of their groups in another order. -/
structure Relisted (documents other : Documents) : Prop where
  monitors : other.monitors = documents.monitors
  workspaces : other.workspaces = documents.workspaces
  rules : other.rules = documents.rules
  options : other.options = documents.options
  /-- The clients are listed in another order, and then each is another listing of its members. -/
  clients : ∃ listed, documents.clients.Perm listed ∧ List.Forall₂ Regrouped listed other.clients

/-- Snapshots that differ in the order of the clients only. -/
structure Alike (snapshot other : Snapshot) : Prop where
  monitors : other.monitors = snapshot.monitors
  workspaces : other.workspaces = snapshot.workspaces
  rules : other.rules = snapshot.rules
  gaps : other.gaps = snapshot.gaps
  clients : snapshot.clients.Perm other.clients

/-! ### Counting groups -/

section Counting

variable {clients others : List Window} {flags : List Char} {workspace : Workspace}

/-- The groups that occur and were not seen before are counted. -/
theorem countGroups_eq (clients : List Window) (groups : List (List String)) :
    countGroups groups clients =
      (((clients.map Window.grouped).toFinset.erase []) \ groups.toFinset).card := by
  induction clients generalizing groups with
  | nil => simp [countGroups]
  | cons client rest ih =>
    unfold countGroups
    split
    · rename_i hnew
      obtain ⟨hmember, hunseen⟩ := hnew
      have hsplit : ((client :: rest).map Window.grouped).toFinset.erase [] \ groups.toFinset =
          insert client.grouped
            ((rest.map Window.grouped).toFinset.erase [] \
              (client.grouped :: groups).toFinset) := by
        ext group
        by_cases heq : group = client.grouped
        · simp [heq, hmember, hunseen]
        · simp [heq]
      have hfresh : client.grouped ∉
          (rest.map Window.grouped).toFinset.erase [] \ (client.grouped :: groups).toFinset := by
        simp
      rw [ih, hsplit, Finset.card_insert_of_notMem hfresh]
    · rename_i hold
      rw [ih]
      -- The client's group is empty or was counted.
      congr 1
      ext group
      by_cases heq : group = client.grouped
      · subst heq
        have hcounted : client.grouped ≠ [] → client.grouped ∈ groups := by
          intro hmember
          by_contra hunseen
          exact hold ⟨hmember, hunseen⟩
        by_cases hmember : client.grouped = []
        · simp [hmember]
        · simp [hcounted hmember]
      · simp [heq]

/-- The order of the windows does not count for the groups. -/
theorem countGroups_perm (h : clients.Perm others) :
    countGroups [] others = countGroups [] clients := by
  have hsame : (others.map Window.grouped).toFinset = (clients.map Window.grouped).toFinset :=
    List.toFinset_eq_of_perm _ _ (h.symm.map _)
  rw [countGroups_eq, countGroups_eq, hsame]

/-- Nor does it for the count of a `w` selector. -/
theorem windowCount_perm (h : clients.Perm others) (flags : List Char) (workspace : Workspace) :
    windowCount flags workspace others = windowCount flags workspace clients := by
  have hcounted := h.filter fun c => c.on workspace && c.mapped && c.matchesFlags flags
  unfold windowCount
  simp only [countGroups_perm hcounted, hcounted.length_eq]

/-- Nor does it for an `f` selector. -/
theorem fullscreenMatches_perm (h : clients.Perm others) (value : List Char)
    (workspace : Workspace) :
    fullscreenMatches value workspace others = fullscreenMatches value workspace clients := by
  have hany : ∀ mode : ℤ, (others.any fun c => c.on workspace && c.fullscreen = mode) =
      clients.any fun c => c.on workspace && c.fullscreen = mode :=
    fun mode => h.symm.any_eq
  unfold fullscreenMatches
  simp only [hany]

end Counting

/-! ### The rules -/

section Rules

variable {snapshot other : Snapshot} {workspace : Workspace} {monitor : Monitor}

/-- A term of a selector says the same of snapshots that are alike. -/
theorem term_alike (h : Alike snapshot other) (kind value : List Char) :
    term kind value workspace monitor other = term kind value workspace monitor snapshot := by
  unfold term
  simp only [h.monitors, windowCount_perm h.clients, fullscreenMatches_perm h.clients]

/-- So does a selector. -/
theorem selectorMatches_alike (h : Alike snapshot other) (selector : String) :
    selectorMatches selector workspace monitor other =
      selectorMatches selector workspace monitor snapshot := by
  unfold selectorMatches
  simp only [term_alike h]

/-- Snapshots that are alike have the same insets. -/
theorem insets_alike (h : Alike snapshot other) : insets other = insets snapshot := by
  have hgaps : gapsOf other = gapsOf snapshot := by
    funext monitor workspace
    unfold gapsOf
    simp only [h.rules, h.gaps, selectorMatches_alike h]
  have hinsets : insetsOf other = insetsOf snapshot := by
    funext monitor
    unfold insetsOf
    rw [h.workspaces, hgaps]
  unfold insets
  rw [h.monitors, hinsets]

end Rules

/-! ### The documents -/

section Documents

variable {documents other : Documents} {client : Window}

/-- Sorting forgets the order and nothing else. -/
theorem sorted_eq_iff {a b : List String} :
    a.insertionSort (· ≤ ·) = b.insertionSort (· ≤ ·) ↔ a.Perm b := by
  have ha := List.perm_insertionSort (· ≤ ·) a
  have hb := List.perm_insertionSort (· ≤ ·) b
  constructor
  · intro h
    rw [h] at ha
    exact ha.symm.trans hb
  · intro h
    exact List.Perm.eq_of_sortedLE List.sortedLE_insertionSort List.sortedLE_insertionSort
      (ha.trans (h.trans hb.symm))

/-- A regrouped window has the same members in its group. -/
theorem canonical_regrouped {other : Window} (h : Regrouped client other) :
    other.canonical = client.canonical := by
  obtain ⟨members, hmembers, rfl⟩ := h
  unfold Window.canonical
  rw [sorted_eq_iff.mpr hmembers]

/-- The windows of a listing are those of the other one, in another order. -/
theorem canonical_relisted (h : Relisted documents other) :
    (documents.clients.map Window.canonical).Perm (other.clients.map Window.canonical) := by
  obtain ⟨listed, hperm, hmembers⟩ := h.clients
  have hsame : ∀ {a b : List Window}, List.Forall₂ Regrouped a b →
      b.map Window.canonical = a.map Window.canonical := by
    intro a b hab
    induction hab with
    | nil => rfl
    | cons hclient _ ih => rw [List.map_cons, List.map_cons, canonical_regrouped hclient, ih]
  rw [hsame hmembers]
  exact hperm.map _

/-- The groups of the mapped clients on a workspace that satisfy the flags, as sets with
repetitions. -/
def groupsOn (flags : List Char) (workspace : Workspace) (clients : List Window) :
    Finset (Multiset String) :=
  let counted := clients.filter fun c => c.on workspace && c.mapped && c.matchesFlags flags
  (counted.map fun c => (c.grouped : Multiset String)).toFinset.erase 0

/-- The flag `g` filters no client. -/
theorem matchesFlags_group (flags : List Char) :
    client.matchesFlags (flags.filter (· ≠ 'g')) = client.matchesFlags flags := by
  unfold Window.matchesFlags
  rw [List.all_filter]
  congr 1
  funext flag
  by_cases hgroup : flag = 'g'
  · subst hgroup
    rfl
  · simp [hgroup]

/-- Groups that are sorted are as many as the sets of their members. -/
theorem card_sorted_groups (groups : List (List String)) :
    ((groups.map (List.insertionSort (· ≤ ·))).toFinset.erase []).card =
      ((groups.map Multiset.ofList).toFinset.erase 0).card := by
  -- Sorting keeps the members of a group.
  have hcoe : ∀ group : List String,
      ((group.insertionSort (· ≤ ·) : List String) : Multiset String) = group :=
    fun group => Multiset.coe_eq_coe.mpr (List.perm_insertionSort _ group)
  -- So the sets of members are the images of the sorted groups,
  have himage : (groups.map Multiset.ofList).toFinset.erase 0 =
      ((groups.map (List.insertionSort (· ≤ ·))).toFinset.erase []).image Multiset.ofList := by
    ext members
    simp only [Finset.mem_erase, List.mem_toFinset, List.mem_map, Finset.mem_image]
    constructor
    · rintro ⟨hne, group, hgroup, rfl⟩
      refine ⟨group.insertionSort (· ≤ ·), ⟨?_, group, hgroup, rfl⟩, hcoe group⟩
      intro hnil
      rw [← hcoe group, hnil] at hne
      exact hne rfl
    · rintro ⟨sorted, ⟨hne, group, hgroup, rfl⟩, rfl⟩
      refine ⟨fun hzero => hne ?_, group, hgroup, (hcoe group).symm⟩
      exact Multiset.coe_eq_zero _ |>.mp hzero
  -- and groups that are sorted and have the same members are equal.
  have hinjective : Set.InjOn Multiset.ofList
      (((groups.map (List.insertionSort (· ≤ ·))).toFinset.erase [] : Finset (List String)) :
        Set (List String)) := by
    intro a ha b hb hab
    simp only [Finset.coe_erase, Set.mem_sdiff, Finset.mem_coe, List.mem_toFinset,
      List.mem_map] at ha hb
    obtain ⟨⟨a, -, rfl⟩, -⟩ := ha
    obtain ⟨⟨b, -, rfl⟩, -⟩ := hb
    simp only [hcoe, Multiset.coe_eq_coe] at hab
    exact sorted_eq_iff.mpr hab
  rw [himage, Finset.card_image_of_injOn hinjective]

/-- With the flag `g` the groups are counted that occur in the documents. -/
theorem windowCount_group {flags : List Char} (hgroup : 'g' ∈ flags) (workspace : Workspace)
    (clients : List Window) :
    windowCount flags workspace (clients.map Window.canonical) =
      (groupsOn (flags.filter (· ≠ 'g')) workspace clients).card := by
  have hflags : flags ≠ [] := List.ne_nil_of_mem hgroup
  have hfilter : (clients.map Window.canonical).filter
        (fun c => c.on workspace && c.mapped && c.matchesFlags flags) =
      (clients.filter fun c =>
        c.on workspace && c.mapped && c.matchesFlags flags).map Window.canonical :=
    List.filter_map
  have hcards := card_sorted_groups
    ((clients.filter fun c =>
      c.on workspace && c.mapped && c.matchesFlags flags).map Window.grouped)
  rw [List.map_map, List.map_map] at hcards
  unfold windowCount groupsOn
  simp only [if_neg hflags, if_pos hgroup, hfilter, countGroups_eq, matchesFlags_group,
    List.map_map]
  rw [List.toFinset_nil, Finset.sdiff_empty]
  exact hcards

/-- Documents that are listed in another order fail alike or have alike snapshots. -/
theorem snapshotOf_relisted (h : Relisted documents other) :
    (∃ e, snapshotOf documents = .error e ∧ snapshotOf other = .error e) ∨
      ∃ snapshot relisted, snapshotOf documents = .ok snapshot ∧ snapshotOf other = .ok relisted ∧
        Alike snapshot relisted := by
  unfold snapshotOf
  rw [h.options, h.monitors]
  cases (documents.options.get "css").bind css with
  | none => exact .inl ⟨_, rfl, rfl⟩
  | some gaps =>
    by_cases hvalid : documents.monitors.all Monitor.valid
    · simp only [hvalid, Bool.not_true, Bool.false_eq_true, ↓reduceIte]
      refine .inr ⟨_, _, rfl, rfl, rfl, h.workspaces, ?_, rfl, canonical_relisted h⟩
      simp only [h.rules]
    · simp only [hvalid, Bool.not_false, ↓reduceIte]
      exact .inl ⟨_, rfl, rfl⟩

/-- A snapshot has the windows of its documents. -/
theorem clients_of_snapshotOf {snapshot : Snapshot} (h : snapshotOf documents = .ok snapshot) :
    snapshot.clients = documents.clients.map Window.canonical := by
  unfold snapshotOf at h
  split at h
  · cases h
  · split at h
    · cases h
    · cases h
      rfl

/-- A reply that is not too large is decoded and made a snapshot. -/
theorem parse_eq {decode : String → Except String Documents} {text : String}
    (hsize : text.utf8ByteSize ≤ maxReply) (htext : decode text = .ok documents) :
    parse decode text = snapshotOf documents := by
  unfold parse
  rw [if_neg (Nat.not_lt.mpr hsize), htext]
  rfl

/-- Work areas do not depend on the order of the clients and of the members of their groups, and
with the flag `g` a selector counts the groups with a client that satisfies the other flags. -/
theorem parseWorkAreas_relisted {decode : String → Except String Documents} {text text' : String}
    (hsize : text.utf8ByteSize ≤ maxReply) (hsize' : text'.utf8ByteSize ≤ maxReply)
    (htext : decode text = .ok documents) (htext' : decode text' = .ok other)
    (h : Relisted documents other) :
    parseWorkAreas decode text' = parseWorkAreas decode text ∧
      ∀ snapshot, parse decode text = .ok snapshot → ∀ flags workspace, 'g' ∈ flags →
        windowCount flags workspace snapshot.clients =
          (groupsOn (flags.filter (· ≠ 'g')) workspace documents.clients).card := by
  unfold parseWorkAreas
  rw [parse_eq hsize htext, parse_eq hsize' htext']
  refine ⟨?_, fun snapshot hsnapshot flags workspace hgroup => ?_⟩
  · obtain ⟨e, hfails, hfails'⟩ | ⟨snapshot, relisted, hok, hok', halike⟩ := snapshotOf_relisted h
    · rw [hfails, hfails']
    · rw [hok, hok']
      exact congrArg Except.ok (insets_alike halike)
  · rw [clients_of_snapshotOf hsnapshot]
    exact windowCount_group hgroup workspace documents.clients

/-- A window of the workspace 1 in a group. -/
def grouped (members : List String) : Window where
  workspace := some ⟨1⟩
  mapped := true
  floating := false
  pinned := false
  hidden := false
  visible := none
  grouped := members
  fullscreen := 0

/-- Documents with one monitor and a rule for a workspace with a group. -/
def groupDocuments (clients : List Window) : Documents where
  monitors :=
    [⟨0, "A", true, false, 0, 0, 8, 8, 1, 0, "", "", "", "", some #v[0, 0, 0, 0], ⟨1⟩, ⟨0⟩⟩]
  workspaces := [⟨1, "1", 2, false⟩]
  rules := [⟨"w[g1]", some (.array [.number (.posInt 3)])⟩]
  clients := clients
  options := .object [("css", .string "2")]

/-- Their text. -/
def groupText (clients : String) : String :=
  "[\x7b\"id\":0,\"name\":\"A\",\"focused\":true,\"x\":0,\"y\":0,\"width\":8,\"height\":8,\"scale\":1,"
    ++ "\"reserved\":[0,0,0,0],\"activeWorkspace\":\x7b\"id\":1\x7d\x7d]"
    ++ "[\x7b\"id\":1,\"name\":\"1\",\"windows\":2\x7d][\x7b\"workspaceString\":\"w[g1]\",\"gapsOut\":[3]\x7d]["
    ++ clients ++ "]\x7b\"css\":\"2\"\x7d"

/-- The text of a window. -/
def groupedText (members : String) : String :=
  "\x7b\"workspace\":\x7b\"id\":1\x7d,\"mapped\":true,\"grouped\":[" ++ members ++ "]\x7d"

/-- Two windows of one group and one of none. -/
def listedText : String :=
  groupText (groupedText "\"a\",\"b\"" ++ "," ++ groupedText "" ++ "," ++ groupedText "\"a\",\"b\"")

/-- They are listed in another order. -/
def relistedText : String :=
  groupText (groupedText "" ++ "," ++ groupedText "\"b\",\"a\"" ++ "," ++ groupedText "\"a\",\"b\"")

/-- What the two texts decode to. -/
def decodeTwo (text : String) : Except String Documents :=
  if text = listedText then .ok (groupDocuments [grouped ["a", "b"], grouped [], grouped ["a", "b"]])
  else if text = relistedText then .ok (groupDocuments [grouped [], grouped ["b", "a"], grouped ["a", "b"]])
  else .error "EOF while parsing a value"

/-- Two windows of one group, listed in both orders, are counted as one. -/
theorem parseWorkAreas_relisted_two :
    parseWorkAreas decodeTwo relistedText = parseWorkAreas decodeTwo listedText ∧
      ∀ snapshot, parse decodeTwo listedText = .ok snapshot →
        windowCount ['g'] ⟨1, "1", 2, false⟩ snapshot.clients = 1 := by
  have hne : relistedText ≠ listedText := by decide +kernel
  have hrelisted : Relisted (groupDocuments [grouped ["a", "b"], grouped [], grouped ["a", "b"]])
      (groupDocuments [grouped [], grouped ["b", "a"], grouped ["a", "b"]]) :=
    { monitors := rfl
      workspaces := rfl
      rules := rfl
      options := rfl
      clients := ⟨[grouped [], grouped ["a", "b"], grouped ["a", "b"]], List.Perm.swap _ _ _,
        .cons ⟨[], .refl _, rfl⟩ (.cons ⟨["b", "a"], List.Perm.swap _ _ _, rfl⟩
          (.cons ⟨["a", "b"], .refl _, rfl⟩ .nil))⟩ }
  have htexts := @parseWorkAreas_relisted _ _ decodeTwo listedText relistedText (by decide +kernel)
    (by decide +kernel) (if_pos rfl) ((if_neg hne).trans (if_pos rfl)) hrelisted
  refine ⟨htexts.1, fun snapshot hsnapshot => ?_⟩
  exact (htexts.2 snapshot hsnapshot ['g'] ⟨1, "1", 2, false⟩ (by decide)).trans (by decide +kernel)

end Documents

end DaemonFramework.Hyprland
