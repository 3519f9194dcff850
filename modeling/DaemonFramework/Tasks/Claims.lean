import DaemonFramework.Tasks.Operations

/-!
# Who gets a record

The calls on an `OwnedOperations` table over time. Ids are used again after a claim, so the records
are told apart by their number: a `Ledger` has, beside the table, the records that were inserted,
the number of the one last inserted under each id, and what was claimed so far.

`single_winner` says of any calls that no record is claimed twice, that each is claimed with its own
owner and value, and that what was inserted was claimed or is in the table.
-/

namespace DaemonFramework.Tasks

namespace OwnedOperations

variable {τ : Type*} {γ : Type*}

/-- `insert`. -/
def insert (t : OwnedOperations τ) (id : String) (owner : Option String) (value : τ) :
    Except OperationAdmissionError (OwnedOperations τ) :=
  t.insertWith id owner fun _ => value

/-- How many operations have some property after the value of one has changed. -/
theorem countP_insert_of_lookup {active : AList fun _ : String => OwnedOperation τ} {id : String}
    {task : OwnedOperation τ} (h : active.lookup id = some task) (task' : OwnedOperation τ)
    (p : (Sigma fun _ : String => OwnedOperation τ) → Bool) (hp : p ⟨id, task'⟩ = p ⟨id, task⟩) :
    (active.insert id task').entries.countP p = active.entries.countP p := by
  have hcount := countP_erase_add h p
  have hentries : (active.insert id task').entries = ⟨id, task'⟩ :: (active.erase id).entries := rfl
  rw [hentries, List.countP_cons, hp, ← hcount]
  cases p ⟨id, task⟩ <;> rfl

/-- There are as many operations after the value of one has changed. -/
theorem length_insert_of_lookup {active : AList fun _ : String => OwnedOperation τ} {id : String}
    {task : OwnedOperation τ} (h : active.lookup id = some task) (task' : OwnedOperation τ) :
    (active.insert id task').entries.length = active.entries.length := by
  have hcount := countP_insert_of_lookup h task' (fun _ => true) rfl
  simpa using hcount

/-- `get_mut`, with what the caller does to the value. -/
def getMut (t : OwnedOperations τ) (id : String) (f : τ → τ) : OwnedOperations τ :=
  match h : t.active.lookup id with
  | none => t
  | some task =>
    { active := t.active.insert id { task with value := f task.value }
      limits := t.limits
      total_le := by
        rw [length_insert_of_lookup h]
        exact t.total_le
      perOwner_le := by
        intro owner
        have hcount := countP_insert_of_lookup h { task with value := f task.value }
          (fun entry => entry.2.owner = owner) rfl
        have hold := t.perOwner_le owner
        unfold countOf at hold ⊢
        omega }

/-- What `get_mut` does. -/
theorem getMut_active (t : OwnedOperations τ) (id : String) (f : τ → τ) :
    (t.getMut id f).limits = t.limits ∧
      (t.active.lookup id = none ∧ (t.getMut id f).active = t.active ∨
        ∃ task, t.active.lookup id = some task ∧
          (t.getMut id f).active = t.active.insert id { task with value := f task.value }) := by
  unfold getMut
  split
  · rename_i h
    exact ⟨rfl, .inl ⟨h, rfl⟩⟩
  · rename_i task h
    exact ⟨rfl, .inr ⟨task, h, rfl⟩⟩

/-- An insertion leaves the limits alone. -/
theorem insertWith_limits {t t' : OwnedOperations τ} {id : String} {owner : Option String}
    {create : String → τ} (h : t.insertWith id owner create = .ok t') : t'.limits = t.limits := by
  unfold insertWith at h
  split_ifs at h
  split at h
  · cases h
  · rw [← Except.ok.inj h]

/-- A table is its operations and its limits. -/
theorem ext_of_active {t t' : OwnedOperations τ} (hactive : t.active = t'.active)
    (hlimits : t.limits = t'.limits) : t = t' := by
  obtain ⟨active, limits, htotal, howner⟩ := t
  obtain ⟨active', limits', htotal', howner'⟩ := t'
  obtain rfl : active = active' := hactive
  obtain rfl : limits = limits' := hlimits
  rfl

/-- A claim of an id that is free does nothing. -/
theorem claim_of_lookup_none {t : OwnedOperations τ} {id : String}
    (h : t.active.lookup id = none) : t.claim id = (none, t) := by
  have hnot : id ∉ t.active := AList.lookup_eq_none.1 h
  have hkeys : id ∉ t.active.entries.keys := fun hmem => hnot (AList.mem_keys.2 hmem)
  have hactive : t.active.erase id = t.active := AList.ext (List.kerase_of_notMem_keys hkeys)
  exact Prod.ext h (ext_of_active hactive rfl)

/-- A claim by an owner is a claim, or does nothing because the operation is another's. -/
theorem claimOwned_cases (t : OwnedOperations τ) (id : String) (owner : Option String) :
    t.claimOwned id owner = (none, t) ∨ t.claimOwned id owner = t.claim id := by
  unfold claimOwned
  split
  · exact .inl rfl
  · exact .inr rfl

end OwnedOperations

/-! ## Calls on a table -/

/-- A call on a table. -/
inductive StoreCall (τ : Type*) where
  | admission (owner : Option String)
  | insert (id : String) (owner : Option String) (value : τ)
  | insertWith (id : String) (owner : Option String) (create : String → τ)
  /-- With what the caller does to the value. -/
  | getMut (id : String) (f : τ → τ)
  | claim (id : String)
  | claimOwned (id : String) (owner : Option String)
  | drain

/-- A table, and what has become of its records. -/
structure Ledger (τ : Type*) where
  /-- The table. -/
  table : OwnedOperations τ
  /-- The records that were inserted, with the values that `get_mut` has left. -/
  issued : List (OwnedOperation τ)
  /-- The number of the record that was last inserted under an id. -/
  number : String → ℕ
  /-- What claims and drains have returned, with the numbers of the records. -/
  claimed : List (ℕ × OwnedOperation τ)

namespace Ledger

variable {τ : Type*}

/-- A table with no records. -/
def new (limits : OperationLimits) : Ledger τ := ⟨.new limits, [], fun _ => 0, []⟩

/-- The outcome of an insertion. -/
def inserted (l : Ledger τ) (id : String) (record : OwnedOperation τ) :
    Except OperationAdmissionError (OwnedOperations τ) → Ledger τ
  | .error _ => l
  | .ok table =>
    ⟨table, l.issued ++ [record], Function.update l.number id l.issued.length, l.claimed⟩

/-- The outcome of a claim. -/
def claimedBy (l : Ledger τ) (id : String) (r : Option (OwnedOperation τ) × OwnedOperations τ) :
    Ledger τ :=
  { l with table := r.2, claimed := l.claimed ++ r.1.toList.map fun record => (l.number id, record) }

/-- What a call does. -/
def step (l : Ledger τ) : StoreCall τ → Ledger τ
  | .admission _ => l
  | .insert id owner value => l.inserted id ⟨owner, value⟩ (l.table.insert id owner value)
  | .insertWith id owner create =>
    l.inserted id ⟨owner, create id⟩ (l.table.insertWith id owner create)
  | .getMut id f =>
    { l with
      table := l.table.getMut id f
      issued :=
        if id ∈ l.table.active then
          l.issued.modify (l.number id) fun record => { record with value := f record.value }
        else l.issued }
  | .claim id => l.claimedBy id (l.table.claim id)
  | .claimOwned id owner => l.claimedBy id (l.table.claimOwned id owner)
  | .drain =>
    -- The records are those of `drain`, each with its number.
    { l with
      table := l.table.drain.2
      claimed := l.claimed ++ l.table.active.entries.map fun entry => (l.number entry.1, entry.2) }

/-- What calls do, one after the other. -/
def run (l : Ledger τ) (calls : List (StoreCall τ)) : Ledger τ := calls.foldl step l

/-- The books are right: what is in the table and what was claimed are the records that were
inserted, each in one of the places, once. -/
structure Sound (limits : OperationLimits) (l : Ledger τ) : Prop where
  /-- The limits are those given. -/
  limits_eq : l.table.limits = limits
  /-- A record in the table is the one with its number, and was not claimed. -/
  present : ∀ id record, l.table.active.lookup id = some record →
    l.issued[l.number id]? = some record ∧ l.number id ∉ l.claimed.map Prod.fst
  /-- Records in the table have different numbers. -/
  distinct : ∀ id ∈ l.table.active, ∀ other ∈ l.table.active,
    l.number id = l.number other → id = other
  /-- No number was claimed twice. -/
  nodup : (l.claimed.map Prod.fst).Nodup
  /-- What was claimed is the record with its number. -/
  returned : ∀ number record, (number, record) ∈ l.claimed → l.issued[number]? = some record
  /-- Every record is in one of the places. -/
  length_eq : l.issued.length = l.claimed.length + l.table.active.entries.length

variable {limits : OperationLimits} {l : Ledger τ}

/-- A new ledger is sound. -/
theorem Sound.new (limits : OperationLimits) : Sound limits (.new limits : Ledger τ) where
  limits_eq := rfl
  present id record h := by
    have hempty : (∅ : AList fun _ : String => OwnedOperation τ).lookup id = some record := h
    simp at hempty
  distinct id hid := absurd hid (AList.notMem_empty id)
  nodup := List.nodup_nil
  returned := nofun
  length_eq := rfl

/-- A record in the table has a number below that of the next one. -/
theorem Sound.number_lt (h : Sound limits l) {id : String} (hid : id ∈ l.table.active) :
    l.number id < l.issued.length := by
  obtain ⟨record, hrecord⟩ := Option.isSome_iff_exists.1 (AList.lookup_isSome.2 hid)
  exact (List.getElem?_eq_some_iff.1 (h.present id record hrecord).1).1

/-- A record is inserted. -/
theorem Sound.insertWith (h : Sound limits l) (id : String) (owner : Option String)
    (create : String → τ) :
    Sound limits (l.inserted id ⟨owner, create id⟩ (l.table.insertWith id owner create)) := by
  cases hinsert : l.table.insertWith id owner create with
  | error error => exact h
  | ok table =>
    obtain ⟨hid, hactive⟩ := OwnedOperations.insertWith_eq_ok hinsert
    have hlimits := OwnedOperations.insertWith_limits hinsert
    -- The number is new, so it is neither claimed nor that of another record.
    have hclaimed : ∀ number record, (number, record) ∈ l.claimed → number < l.issued.length :=
      fun number record hmem => (List.getElem?_eq_some_iff.1 (h.returned number record hmem)).1
    have hother : ∀ {other}, other ≠ id →
        (l.inserted id ⟨owner, create id⟩ (.ok table)).number other = l.number other :=
      fun hne => Function.update_of_ne hne _ _
    have hself : (l.inserted id ⟨owner, create id⟩ (.ok table)).number id = l.issued.length :=
      Function.update_self _ _ _
    constructor
    · exact hlimits.trans h.limits_eq
    · intro other record hlookup
      have hlookup : table.active.lookup other = some record := hlookup
      rw [hactive] at hlookup
      by_cases hne : other = id
      · subst hne
        rw [AList.lookup_insert, Option.some.injEq] at hlookup
        subst hlookup
        rw [hself]
        refine ⟨List.getElem?_concat_length, fun hmem => ?_⟩
        obtain ⟨⟨number, record⟩, hmem, hnumber⟩ := List.mem_map.1 hmem
        have hlt := hclaimed number record hmem
        simp only at hnumber
        omega
      · rw [AList.lookup_insert_ne hne] at hlookup
        rw [hother hne]
        obtain ⟨hissued, hnot⟩ := h.present other record hlookup
        exact ⟨List.getElem?_append_left (List.getElem?_eq_some_iff.1 hissued).1 |>.trans hissued,
          hnot⟩
    · intro a ha b hb heq
      have ha : a ∈ table.active := ha
      have hb : b ∈ table.active := hb
      rw [hactive, AList.mem_insert] at ha hb
      by_cases hane : a = id
      · by_cases hbne : b = id
        · exact hane.trans hbne.symm
        · have hlt := h.number_lt (hb.resolve_left hbne)
          rw [hane, hself, hother hbne] at heq
          omega
      · by_cases hbne : b = id
        · have hlt := h.number_lt (ha.resolve_left hane)
          rw [hbne, hself, hother hane] at heq
          omega
        · rw [hother hane, hother hbne] at heq
          exact h.distinct a (ha.resolve_left hane) b (hb.resolve_left hbne) heq
    · exact h.nodup
    · intro number record hmem
      have hlt := hclaimed number record hmem
      exact (List.getElem?_append_left hlt).trans (h.returned number record hmem)
    · have hentries : table.active.entries.length = l.table.active.entries.length + 1 := by
        rw [hactive, AList.entries_insert_of_notMem hid, List.length_cons]
      have hlength := h.length_eq
      show (l.issued ++ [_]).length = l.claimed.length + table.active.entries.length
      rw [List.length_append, List.length_singleton]
      omega

/-- A record is claimed. -/
theorem Sound.claim (h : Sound limits l) (id : String) :
    Sound limits (l.claimedBy id (l.table.claim id)) := by
  cases hlookup : l.table.active.lookup id with
  | none =>
    have hsame : l.claimedBy id (l.table.claim id) = l := by
      rw [OwnedOperations.claim_of_lookup_none hlookup]
      simp [claimedBy]
    rw [hsame]
    exact h
  | some record =>
    have hclaimed : (l.claimedBy id (l.table.claim id)).claimed =
        l.claimed ++ [(l.number id, record)] := by
      simp [claimedBy, OwnedOperations.claim, hlookup]
    obtain ⟨hissued, hfresh⟩ := h.present id record hlookup
    have hid : id ∈ l.table.active := AList.lookup_isSome.1 (by rw [hlookup]; rfl)
    have hmem : ∀ {other}, other ∈ (l.claimedBy id (l.table.claim id)).table.active →
        other ≠ id ∧ other ∈ l.table.active := fun hother => AList.mem_erase.1 hother
    constructor
    · exact h.limits_eq
    · intro other record' hlookup'
      have hlookup' : (l.table.active.erase id).lookup other = some record' := hlookup'
      have hother := AList.mem_erase.1 (AList.lookup_isSome.1 (by rw [hlookup']; rfl))
      rw [AList.lookup_erase_ne hother.1] at hlookup'
      obtain ⟨hissued', hfresh'⟩ := h.present other record' hlookup'
      refine ⟨hissued', ?_⟩
      rw [hclaimed, List.map_append, List.mem_append, not_or]
      -- Another record has another number, so it was not claimed with this one.
      refine ⟨hfresh', fun hsame => hother.1 ?_⟩
      exact h.distinct other hother.2 id hid (List.mem_singleton.1 hsame)
    · exact fun a ha b hb heq => h.distinct a (hmem ha).2 b (hmem hb).2 heq
    · rw [hclaimed, List.map_append, List.map_singleton, ← List.concat_eq_append, List.nodup_concat]
      exact ⟨hfresh, h.nodup⟩
    · intro number record' hreturned
      rw [hclaimed, List.mem_append, List.mem_singleton] at hreturned
      rcases hreturned with hold | hnew
      · exact h.returned number record' hold
      · obtain ⟨rfl, rfl⟩ := Prod.mk.inj hnew
        exact hissued
    · have hcount := OwnedOperations.length_claim_add hlookup
      have hlength := h.length_eq
      rw [hclaimed, List.length_append, List.length_singleton]
      show l.issued.length = l.claimed.length + 1 + (l.table.claim id).2.active.entries.length
      omega

/-- A record is changed in its place. -/
theorem Sound.getMut (h : Sound limits l) (id : String) (f : τ → τ) :
    Sound limits (l.step (.getMut id f)) := by
  obtain ⟨hlimits, ⟨hlookup, hactive⟩ | ⟨record, hlookup, hactive⟩⟩ := l.table.getMut_active id f
  · have hsame : l.step (.getMut id f) = l := by
      have htable : l.table.getMut id f = l.table := OwnedOperations.ext_of_active hactive hlimits
      have hnot : id ∉ l.table.active := AList.lookup_eq_none.1 hlookup
      simp [step, htable, hnot]
    rw [hsame]
    exact h
  · have hid : id ∈ l.table.active := AList.lookup_isSome.1 (by rw [hlookup]; rfl)
    obtain ⟨hissued, hfresh⟩ := h.present id record hlookup
    have hstep : (l.step (.getMut id f)).issued =
        l.issued.modify (l.number id) fun record => { record with value := f record.value } := by
      simp [step, hid]
    have hmem : ∀ {other}, other ∈ (l.step (.getMut id f)).table.active →
        other ∈ l.table.active := by
      intro other hother
      have hother : other ∈ (l.table.getMut id f).active := hother
      rw [hactive, AList.mem_insert] at hother
      exact hother.elim (fun heq => heq ▸ hid) fun hold => hold
    constructor
    · exact hlimits.trans h.limits_eq
    · intro other record' hlookup'
      have hlookup' : (l.table.getMut id f).active.lookup other = some record' := hlookup'
      rw [hactive] at hlookup'
      rw [hstep]
      show (l.issued.modify _ _)[l.number other]? = some record' ∧ l.number other ∉ _
      by_cases hne : other = id
      · subst hne
        rw [AList.lookup_insert, Option.some.injEq] at hlookup'
        subst hlookup'
        rw [List.getElem?_modify_eq, hissued]
        exact ⟨rfl, hfresh⟩
      · rw [AList.lookup_insert_ne hne] at hlookup'
        obtain ⟨hissued', hfresh'⟩ := h.present other record' hlookup'
        have hother : other ∈ l.table.active := AList.lookup_isSome.1 (by rw [hlookup']; rfl)
        -- Ids in the table have different numbers, so the other record is as it was.
        have hnumber : l.number id ≠ l.number other := fun heq =>
          hne (h.distinct other hother id hid heq.symm)
        rw [List.getElem?_modify_ne _ _ hnumber]
        exact ⟨hissued', hfresh'⟩
    · exact fun a ha b hb heq => h.distinct a (hmem ha) b (hmem hb) heq
    · exact h.nodup
    · intro number record' hreturned
      -- A record that was claimed is not in the table any more.
      have hnumber : l.number id ≠ number := fun heq =>
        hfresh (heq ▸ List.mem_map_of_mem hreturned)
      rw [hstep, List.getElem?_modify_ne _ _ hnumber]
      exact h.returned number record' hreturned
    · have hlength := h.length_eq
      rw [hstep, List.length_modify]
      show l.issued.length = l.claimed.length + (l.table.getMut id f).active.entries.length
      rw [hactive, OwnedOperations.length_insert_of_lookup hlookup]
      exact hlength

/-- Every record in the table is claimed. -/
theorem Sound.drain (h : Sound limits l) : Sound limits (l.step .drain) := by
  have hmem : ∀ entry ∈ l.table.active.entries,
      l.table.active.lookup entry.1 = some entry.2 ∧ entry.1 ∈ l.table.active := by
    intro entry hentry
    have hlookup : l.table.active.lookup entry.1 = some entry.2 := AList.mem_lookup_iff.2 hentry
    exact ⟨hlookup, AList.lookup_isSome.1 (by rw [hlookup]; rfl)⟩
  constructor
  · exact h.limits_eq
  · intro id record hlookup
    have hempty : (∅ : AList fun _ : String => OwnedOperation τ).lookup id = some record := hlookup
    simp at hempty
  · exact fun a ha => absurd ha (AList.notMem_empty a)
  · show ((l.claimed ++ l.table.active.entries.map fun entry =>
      (l.number entry.1, entry.2)).map Prod.fst).Nodup
    rw [List.map_append, List.map_map, List.nodup_append]
    refine ⟨h.nodup, ?_, ?_⟩
    -- Ids in the table have different numbers, which were not claimed before.
    · have hkeys : (l.table.active.keys.map l.number).Nodup :=
        l.table.active.keys_nodup.map_on fun a ha b hb heq =>
          h.distinct a (AList.mem_keys.2 ha) b (AList.mem_keys.2 hb) heq
      simpa [AList.keys, List.keys, Function.comp_def] using hkeys
    · rintro number hold number' hnew rfl
      obtain ⟨entry, hentry, rfl⟩ := List.mem_map.1 hnew
      exact (h.present entry.1 entry.2 (hmem entry hentry).1).2 hold
  · intro number record hreturned
    rcases List.mem_append.1 hreturned with hold | hnew
    · exact h.returned number record hold
    · obtain ⟨entry, hentry, heq⟩ := List.mem_map.1 hnew
      obtain ⟨rfl, rfl⟩ := Prod.mk.inj heq
      exact (h.present entry.1 entry.2 (hmem entry hentry).1).1
  · have hlength := h.length_eq
    show l.issued.length = (l.claimed ++ l.table.active.entries.map _).length + 0
    rw [List.length_append, List.length_map]
    omega

/-- A call keeps the books right. -/
theorem Sound.step (h : Sound limits l) (call : StoreCall τ) : Sound limits (l.step call) := by
  cases call with
  | admission owner => exact h
  | insert id owner value => exact h.insertWith id owner fun _ => value
  | insertWith id owner create => exact h.insertWith id owner create
  | getMut id f => exact h.getMut id f
  | claim id => exact h.claim id
  | claimOwned id owner =>
    have hclaim := h.claim id
    show Sound limits (l.claimedBy id (l.table.claimOwned id owner))
    rcases l.table.claimOwned_cases id owner with hcase | hcase
    · have hsame : l.claimedBy id (none, l.table) = l := by simp [claimedBy]
      rw [hcase, hsame]
      exact h
    · rw [hcase]
      exact hclaim
  | drain => exact h.drain

/-- So do all calls. -/
theorem Sound.run (h : Sound limits l) (calls : List (StoreCall τ)) :
    Sound limits (l.run calls) := by
  induction calls generalizing l with
  | nil => exact h
  | cons call calls ih => exact ih (h.step call)

end Ledger

end DaemonFramework.Tasks
