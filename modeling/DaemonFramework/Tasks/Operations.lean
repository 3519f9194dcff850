import Mathlib.Data.List.AList

/-!
# Owned operations

`OwnedOperations` of `shelllist-daemon-core/src/operation.rs`: the active operations under their
ids, within a total limit and a limit for each owner. The limits are part of the type, so no
operation on the table can leave it too full, and what a claim gives back is counted
(`countOf_claim_add`, `length_claim_add`).
-/

namespace DaemonFramework.Tasks

/-- The limits of a table of operations. -/
structure OperationLimits where
  /-- How many operations there can be. -/
  total : ℕ
  /-- How many operations one owner can have. -/
  perOwner : ℕ

/-- Why an operation is not admitted. -/
inductive OperationAdmissionError where
  | full
  | duplicateId
deriving DecidableEq

/-- An operation and its owner. -/
structure OwnedOperation (τ : Type*) where
  /-- The owner; operations without one count together. -/
  owner : Option String
  /-- What the table keeps of the operation. -/
  value : τ
deriving DecidableEq

/-- How many of the operations belong to `owner`. -/
def countOf {τ : Type*} (active : AList fun _ : String => OwnedOperation τ)
    (owner : Option String) : ℕ :=
  active.entries.countP fun entry => entry.2.owner = owner

/-- The active operations, within their limits. -/
structure OwnedOperations (τ : Type*) where
  /-- The active operations under their ids. -/
  active : AList fun _ : String => OwnedOperation τ
  /-- The limits of the table. -/
  limits : OperationLimits
  /-- The table keeps its total limit. -/
  total_le : active.entries.length ≤ limits.total
  /-- The table keeps the limit of every owner. -/
  perOwner_le : ∀ owner, countOf active owner ≤ limits.perOwner

namespace OwnedOperations

variable {τ : Type*}

/-- The table with no operation. -/
def new (limits : OperationLimits) : OwnedOperations τ where
  active := ∅
  limits := limits
  total_le := Nat.zero_le _
  perOwner_le _ := Nat.zero_le _

/-- `admit`: whether there is room for one more operation of `owner`. -/
def admission (t : OwnedOperations τ) (owner : Option String) : Except OperationAdmissionError Unit :=
  if t.limits.total ≤ t.active.entries.length ∨ t.limits.perOwner ≤ countOf t.active owner then
    .error .full
  else .ok ()

/-- There is room where neither limit is reached. -/
theorem admission_eq_ok {t : OwnedOperations τ} {owner : Option String} :
    t.admission owner = .ok () ↔
      t.active.entries.length < t.limits.total ∧ countOf t.active owner < t.limits.perOwner := by
  unfold admission
  split_ifs with hfull
  · simp only [false_iff]
    omega
  · simp only [true_iff]
    omega

/-- The counts of a table with one more operation. -/
theorem countOf_insert {active : AList fun _ : String => OwnedOperation τ} {id : String}
    (hid : id ∉ active) (task : OwnedOperation τ) (owner : Option String) :
    countOf (active.insert id task) owner =
      countOf active owner + if task.owner = owner then 1 else 0 := by
  unfold countOf
  rw [AList.entries_insert_of_notMem hid, List.countP_cons]
  simp only [decide_eq_true_eq]

/-- Insert an operation. The value is made only after the operation is admitted. -/
def insertWith (t : OwnedOperations τ) (id : String) (owner : Option String) (create : String → τ) :
    Except OperationAdmissionError (OwnedOperations τ) :=
  if hid : id ∈ t.active then .error .duplicateId
  else
    match hplace : t.admission owner with
    | .error error => .error error
    | .ok () => .ok
      { active := t.active.insert id ⟨owner, create id⟩
        limits := t.limits
        total_le := by
          have hroom := (admission_eq_ok.1 hplace).1
          rw [AList.entries_insert_of_notMem hid, List.length_cons]
          omega
        perOwner_le := by
          intro a
          have hroom := (admission_eq_ok.1 hplace).2
          have hold := t.perOwner_le a
          rw [countOf_insert hid]
          split_ifs with howner
          · subst howner
            exact hroom
          · exact hold }

/-- The value under an id, if the operation belongs to `owner`. -/
def getOwned (t : OwnedOperations τ) (id : String) (owner : Option String) : Option τ :=
  ((t.active.lookup id).filter fun task => task.owner = owner).map OwnedOperation.value

/-- A table with fewer operations keeps the limits. -/
def ofSublist (t : OwnedOperations τ) (active : AList fun _ : String => OwnedOperation τ)
    (h : active.entries.Sublist t.active.entries) : OwnedOperations τ where
  active := active
  limits := t.limits
  total_le := Nat.le_trans h.length_le t.total_le
  perOwner_le owner := Nat.le_trans h.countP_le (t.perOwner_le owner)

/-- Remove the operation under an id. -/
def claim (t : OwnedOperations τ) (id : String) :
    Option (OwnedOperation τ) × OwnedOperations τ :=
  (t.active.lookup id, t.ofSublist (t.active.erase id) (List.kerase_sublist id _))

/-- Remove the operation under an id, if it belongs to `owner`. -/
def claimOwned (t : OwnedOperations τ) (id : String) (owner : Option String) :
    Option (OwnedOperation τ) × OwnedOperations τ :=
  match t.getOwned id owner with
  | none => (none, t)
  | some _ => t.claim id

/-- Remove every operation. -/
def drain (t : OwnedOperations τ) : List (OwnedOperation τ) × OwnedOperations τ :=
  (t.active.entries.map Sigma.snd, t.ofSublist ∅ (List.nil_sublist _))

/-! ## What the operations do -/

@[simp] theorem claim_active (t : OwnedOperations τ) (id : String) :
    (t.claim id).2.active = t.active.erase id := rfl

@[simp] theorem drain_active (t : OwnedOperations τ) : t.drain.2.active = ∅ := rfl

/-- An operation is inserted where its id is free and there is room. -/
theorem insertWith_eq_ok {t t' : OwnedOperations τ} {id : String} {owner : Option String}
    {create : String → τ} (h : t.insertWith id owner create = .ok t') :
    id ∉ t.active ∧ t'.active = t.active.insert id ⟨owner, create id⟩ := by
  unfold insertWith at h
  split_ifs at h with hid
  split at h
  · cases h
  · refine ⟨hid, ?_⟩
    rw [← Except.ok.inj h]

/-- Where the id is free and there is room the operation is inserted. -/
theorem exists_insertWith {t : OwnedOperations τ} {id : String} {owner : Option String}
    (hid : id ∉ t.active) (hplace : t.admission owner = .ok ()) (create : String → τ) :
    ∃ t', t.insertWith id owner create = .ok t' := by
  unfold insertWith
  rw [dif_neg hid]
  split
  · rename_i error herror
    rw [hplace] at herror
    cases herror
  · exact ⟨_, rfl⟩

/-- An operation of another owner is not found. -/
theorem getOwned_eq_none {t : OwnedOperations τ} {id : String} {owner : Option String}
    (h : ∀ task ∈ t.active.lookup id, task.owner ≠ owner) : t.getOwned id owner = none := by
  unfold getOwned
  rw [Option.map_eq_none_iff, Option.filter_eq_none_iff]
  intro task htask
  simpa using h task htask

/-- An operation is found by its own owner. -/
theorem getOwned_eq_some {t : OwnedOperations τ} {id : String} {task : OwnedOperation τ}
    (h : t.active.lookup id = some task) : t.getOwned id task.owner = some task.value := by
  unfold getOwned
  rw [h]
  simp [Option.filter]

/-- How many operations have some property, when one of them is removed. -/
theorem countP_erase_add {active : AList fun _ : String => OwnedOperation τ} {id : String}
    {task : OwnedOperation τ} (h : active.lookup id = some task)
    (p : (Sigma fun _ : String => OwnedOperation τ) → Bool) :
    (active.erase id).entries.countP p + (p ⟨id, task⟩).toNat = active.entries.countP p := by
  have hmem : id ∈ active.entries.keys := AList.mem_keys.1 (AList.lookup_isSome.1 (by rw [h]; rfl))
  obtain ⟨task', pre, post, hpre, hentries, herase⟩ := List.exists_of_kerase hmem
  have hlookup : active.lookup id = some task' := by
    rw [AList.lookup, hentries, List.dlookup_append, List.dlookup_eq_none.2 hpre]
    simp
  obtain rfl : task' = task := Option.some.inj (hlookup.symm.trans h)
  have herase' : (active.erase id).entries = pre ++ post := herase
  rw [herase', hentries, List.countP_append, List.countP_append, List.countP_cons]
  cases p ⟨id, task'⟩ with
  | false => simp
  | true =>
    simp
    omega

/-- A claim gives back one place of its owner. -/
theorem countOf_claim_add {t : OwnedOperations τ} {id : String} {task : OwnedOperation τ}
    (h : t.active.lookup id = some task) :
    countOf (t.claim id).2.active task.owner + 1 = countOf t.active task.owner := by
  have hcount := countP_erase_add h fun entry => entry.2.owner = task.owner
  simpa [countOf] using hcount

/-- A claim gives back one place of the table. -/
theorem length_claim_add {t : OwnedOperations τ} {id : String} {task : OwnedOperation τ}
    (h : t.active.lookup id = some task) :
    (t.claim id).2.active.entries.length + 1 = t.active.entries.length := by
  have hcount := countP_erase_add h fun _ => true
  simpa using hcount

/-- After a claim there is room for another operation of the same owner. -/
theorem admission_claim {t : OwnedOperations τ} {id : String} {task : OwnedOperation τ}
    (h : t.active.lookup id = some task) : (t.claim id).2.admission task.owner = .ok () := by
  have hcount := countOf_claim_add h
  have hlength := length_claim_add h
  have htotal := t.total_le
  have howner := t.perOwner_le task.owner
  have hlimits : (t.claim id).2.limits = t.limits := rfl
  rw [admission_eq_ok, hlimits]
  omega

end OwnedOperations

end DaemonFramework.Tasks
