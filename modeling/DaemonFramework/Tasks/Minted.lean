import DaemonFramework.Identity
import DaemonFramework.Tasks.Registry

/-!
# Workers under minted ids

`OwnedTaskRegistry` of `shelllist-daemon-tokio/src/subscription.rs` with its `IdSequence`: callers
take ids with `next_id` and register workers with `spawn_until`, in any order among all the other
things that can happen to the registry.

`spawn_until` accepts any id. `Spends` is what a caller does that registers a worker only under an
id that it has taken, and only once. `Distinct` says that the ids of the admitted workers and the
ids that have been taken and not used are different from each other, and one call of `next_id` keeps
it as long as the counter has not wrapped.
-/

namespace DaemonFramework.Tasks

namespace Registry

variable {s t : Registry} {label : Label}

/-- The ids of the admitted workers. -/
def workerIds (s : Registry) : List String := s.workers.map Worker.id

/-- A change to a worker that keeps its id. -/
theorem workerIds_modifyWorker (s : Registry) (n : ℕ) {f : Worker → Worker}
    (hid : ∀ w, (f w).id = w.id) : (s.modifyWorker n f).workerIds = s.workerIds := by
  refine List.ext_getElem? fun m => ?_
  unfold workerIds
  rw [List.getElem?_map, List.getElem?_map, getElem?_modifyWorker, Option.map_map]
  refine Option.map_congr fun w _ => ?_
  dsimp only [Function.comp_apply]
  split_ifs <;> simp [hid]

/-- A worker keeps its id for ever, and one that is admitted has the id of its admission. -/
theorem workerIds_of_step (hstep : s.step label = some t) :
    t.workerIds = s.workerIds ∨
      ∃ id owner, label = .spawn id owner ∧ t.workerIds = s.workerIds ++ [id] := by
  cases label with
  | spawn id owner =>
    obtain rfl := Option.some.inj hstep
    rcases s.spawnUntil_cases id owner with ⟨-, heq⟩ | ⟨_, heq⟩ | ⟨-, -, tasks, -, heq⟩
    · exact .inl (by rw [heq])
    · exact .inl (by rw [heq])
    · exact .inr ⟨id, owner, rfl, by rw [heq]; exact List.map_append⟩
  | cancel id owner =>
    obtain rfl := Option.some.inj hstep
    rcases s.cancelOwned_cases id owner with ⟨-, heq⟩ | ⟨task, -, -, heq⟩
    · exact .inl (by rw [heq])
    · exact .inl (by rw [heq]; exact workerIds_modifyWorker _ _ fun _ => rfl)
  | drop n =>
    obtain ⟨hended, rfl⟩ := Machine.guarded_eq_some.1 hstep
    obtain ⟨w, hw, -⟩ := Invariant.exists_of_workerIs hended
    rcases dropRegistration_cases hw with ⟨task, -, -, heq⟩ | ⟨-, heq⟩
    · exact .inl (by rw [heq]; exact workerIds_modifyWorker s n fun _ => rfl)
    · exact .inl (by rw [heq]; exact workerIds_modifyWorker s n fun _ => rfl)
  | shutdown =>
    obtain rfl := Option.some.inj hstep
    exact .inl rfl
  | _ =>
    obtain ⟨-, rfl⟩ := Machine.guarded_eq_some.1 hstep
    exact .inl (workerIds_modifyWorker _ _ fun _ => rfl)

/-- An admission is refused as a duplicate where the id is registered. -/
theorem active_of_duplicateId {id : String} {owner : Option String}
    (h : (s.spawnUntil id owner).1 = .error .duplicateId) : id ∈ s.tasks.active := by
  by_contra hid
  have hroom : ∀ error, s.tasks.admission owner = .error error → error = .full := by
    intro error herror
    unfold OwnedOperations.admission at herror
    split_ifs at herror
    exact (Except.error.inj herror).symm
  unfold spawnUntil at h
  split_ifs at h
  · cases h
  · unfold OwnedOperations.insertWith at h
    rw [dif_neg hid] at h
    split at h
    · rename_i error herror
      split at herror
      · rename_i error' hplace
        obtain rfl := hroom _ hplace
        obtain rfl := Except.error.inj herror
        cases h
      · cases herror
    · cases h

/-- Only an admission under an id registers it. -/
theorem not_active_of_step {id : String} (hstep : s.step label = some t)
    (hid : id ∉ s.tasks.active) (hspawn : ∀ owner, label ≠ .spawn id owner) :
    id ∉ t.tasks.active := by
  -- A claim only takes entries away.
  have hclaim : ∀ a, id ∉ (s.tasks.claim a).2.active := by
    intro a hmem
    rw [OwnedOperations.claim_active, AList.mem_erase] at hmem
    exact hid hmem.2
  cases label with
  -- The admission of another id leaves this one out.
  | spawn a owner =>
    obtain rfl := Option.some.inj hstep
    rcases s.spawnUntil_cases a owner with ⟨-, heq⟩ | ⟨_, heq⟩ | ⟨-, -, tasks, hactive, heq⟩
    · rwa [heq]
    · rwa [heq]
    · rw [heq]
      show id ∉ tasks.active
      rw [hactive, AList.mem_insert]
      rintro (rfl | hmem)
      · exact hspawn owner rfl
      · exact hid hmem
  | cancel a owner =>
    obtain rfl := Option.some.inj hstep
    rcases s.cancelOwned_cases a owner with ⟨-, heq⟩ | ⟨task, -, -, heq⟩
    · rwa [heq]
    · rw [heq]
      exact hclaim a
  | drop n =>
    obtain ⟨hended, rfl⟩ := Machine.guarded_eq_some.1 hstep
    obtain ⟨w, hw, -⟩ := Invariant.exists_of_workerIs hended
    rcases dropRegistration_cases hw with ⟨task, -, -, heq⟩ | ⟨-, heq⟩
    · rw [heq]
      exact hclaim w.id
    · rwa [heq]
  | shutdown =>
    obtain rfl := Option.some.inj hstep
    simp [Registry.shutdown]
  | _ =>
    obtain ⟨-, rfl⟩ := Machine.guarded_eq_some.1 hstep
    exact hid

end Registry

/-- A registry with its sequence of ids. -/
structure Minting where
  /-- The sequence. -/
  ids : IdSequence
  /-- The calls of `next_id` so far. -/
  calls : ℕ
  /-- The ids that callers have taken and not used. -/
  unspent : List String
  /-- The registry. -/
  registry : Registry

namespace Minting

/-- What can happen. -/
inductive Label where
  /-- `next_id` is called. -/
  | nextId (stem : String)
  /-- Anything else happens to the registry. -/
  | registry (label : Registry.Label)
deriving DecidableEq

/-- `next_id`: the caller has a new id. -/
def nextId (s : Minting) (stem : String) : Minting :=
  let (id, ids) := s.ids.next stem
  { s with ids := ids, calls := s.calls + 1, unspent := id :: s.unspent }

/-- The ids that callers are left with: `spawn_until` takes its own, whatever comes of it. -/
def spend (unspent : List String) : Registry.Label → List String
  | .spawn id _ => unspent.erase id
  | _ => unspent

/-- One step. -/
def step (s : Minting) : Label → Option Minting
  | .nextId stem => some (s.nextId stem)
  | .registry label =>
    (s.registry.step label).map fun registry =>
      { s with registry := registry, unspent := spend s.unspent label }

/-- `with_limits`, and all that can happen to the registry. -/
def machine (first : UInt64) (limits : OperationLimits) : Machine Minting Label where
  init := ⟨.new first, 0, [], .withLimits limits⟩
  step := step

/-- A caller registers a worker under an id that it has taken and not used. -/
def Spends (s : Minting) (label : Label) : Prop :=
  ∀ id owner, label = .registry (.spawn id owner) → id ∈ s.unspent

/-- How the ids in use fit to the sequence. -/
structure Distinct (first : UInt64) (s : Minting) : Prop where
  /-- The counter. -/
  value : s.ids.value = first + UInt64.ofNat s.calls
  /-- The ids in use are different from each other. -/
  nodup : (s.registry.workerIds ++ s.unspent).Nodup
  /-- An id in use is one of those that `next_id` has returned. -/
  minted : ∀ id ∈ s.registry.workerIds ++ s.unspent,
    ∃ stem, ∃ k < s.calls, id = ((IdSequence.new (first + UInt64.ofNat k)).next stem).1

variable {first : UInt64} {limits : OperationLimits} {s t : Minting} {label : Label}

namespace Distinct

/-- A new registry. -/
theorem init : Distinct first (machine first limits).init where
  value := by simp [machine, IdSequence.new]
  nodup := by simp [machine, Registry.workerIds, Registry.withLimits]
  minted := by simp [machine, Registry.workerIds, Registry.withLimits]

/-- A new id is not in use, as the counter has not come round. -/
theorem nextId (h : Distinct first s) (hcalls : s.calls < 2 ^ 64) (stem : String) :
    Distinct first (s.nextId stem) := by
  have hnew : (s.ids.next stem).1 ∉ s.registry.workerIds ++ s.unspent := by
    intro hmem
    obtain ⟨stem', k, hk, heq⟩ := h.minted _ hmem
    have hvalue := (IdSequence.next_eq_iff.1 heq).2
    rw [h.value] at hvalue
    have hk' : UInt64.ofNat s.calls = UInt64.ofNat k := (UInt64.add_right_inj first).1 hvalue
    have hnat := congrArg UInt64.toNat hk'
    rw [UInt64.toNat_ofNat_of_lt' hcalls, UInt64.toNat_ofNat_of_lt' (hk.trans hcalls)] at hnat
    omega
  have hperm : (s.registry.workerIds ++ (s.ids.next stem).1 :: s.unspent).Perm
      ((s.ids.next stem).1 :: (s.registry.workerIds ++ s.unspent)) := List.perm_middle
  refine ⟨?_, ?_, ?_⟩
  · show s.ids.value + 1 = first + UInt64.ofNat (s.calls + 1)
    rw [h.value, UInt64.ofNat_add, UInt64.add_assoc]
    rfl
  · exact hperm.nodup_iff.2 (List.nodup_cons.2 ⟨hnew, h.nodup⟩)
  · intro id hid
    obtain rfl | hid := List.mem_cons.1 (hperm.mem_iff.1 hid)
    · have hcurrent : s.ids = IdSequence.new (first + UInt64.ofNat s.calls) := by
        rw [← h.value]
        rfl
      exact ⟨stem, s.calls, Nat.lt_succ_self _, by rw [← hcurrent]⟩
    · obtain ⟨stem', k, hk, heq⟩ := h.minted id hid
      exact ⟨stem', k, hk.trans (Nat.lt_succ_self _), heq⟩

/-- A step of the registry moves at most an id from its caller to a worker. -/
theorem registry (h : Distinct first s) {l : Registry.Label} (hspends : Spends s (.registry l))
    (hstep : s.step (.registry l) = some t) : Distinct first t := by
  obtain ⟨r, hr, rfl⟩ := Option.map_eq_some_iff.1 hstep
  -- What is in use is in use before, and no id gets a second use.
  have hused : ∀ {used : List String}, used.Subperm (s.registry.workerIds ++ s.unspent) →
      used.Nodup ∧ ∀ id ∈ used, ∃ stem, ∃ k < s.calls,
        id = ((IdSequence.new (first + UInt64.ofNat k)).next stem).1 := by
    rintro used hsub
    obtain ⟨used', hperm, hsublist⟩ := hsub
    refine ⟨hperm.nodup_iff.1 (hsublist.nodup h.nodup), fun id hid => h.minted id ?_⟩
    exact hsublist.subset (hperm.mem_iff.2 hid)
  have hsub : (r.workerIds ++ spend s.unspent l).Subperm (s.registry.workerIds ++ s.unspent) := by
    rcases Registry.workerIds_of_step hr with hids | ⟨id, owner, rfl, hids⟩
    · rw [hids]
      refine (List.subperm_append_left _).2 ?_
      cases l with
      | spawn id owner => exact List.erase_subperm id s.unspent
      | _ => exact List.Subperm.refl _
    · rw [hids, List.append_assoc]
      refine (List.subperm_append_left _).2 ?_
      exact (List.perm_cons_erase (hspends id owner rfl)).symm.subperm
  exact ⟨h.value, (hused hsub).1, (hused hsub).2⟩

/-- Every step of a caller that spends what it has taken keeps the ids distinct. -/
theorem step (h : s.calls ≤ 2 ^ 64 → Distinct first s) (hspends : Spends s label)
    (hstep : s.step label = some t) (hcalls : t.calls ≤ 2 ^ 64) : Distinct first t := by
  cases label with
  | nextId stem =>
    obtain rfl := Option.some.inj hstep
    have hlt : s.calls < 2 ^ 64 := hcalls
    exact (h hlt.le).nextId hlt stem
  | registry l =>
    have hsame : t.calls = s.calls := by
      obtain ⟨r, -, rfl⟩ := Option.map_eq_some_iff.1 hstep
      rfl
    exact (h (hsame ▸ hcalls)).registry hspends hstep

end Distinct

/-- The calls of `next_id` are counted up. -/
theorem calls_le_of_step (hstep : s.step label = some t) : s.calls ≤ t.calls := by
  cases label with
  | nextId stem =>
    obtain rfl := Option.some.inj hstep
    exact Nat.le_succ _
  | registry l =>
    obtain ⟨r, -, rfl⟩ := Option.map_eq_some_iff.1 hstep
    exact le_rfl

/-- A run keeps the ids distinct as long as the counter has not come round. -/
theorem Distinct.of_run {labels : List Label} (h : s.calls ≤ 2 ^ 64 → Distinct first s)
    (hspends : (machine first limits).StepsMeet Spends s labels)
    (hrun : (machine first limits).run s labels = some t) :
    t.calls ≤ 2 ^ 64 → Distinct first t :=
  Machine.invariant_of_stepsMeet (P := fun s : Minting => s.calls ≤ 2 ^ 64 → Distinct first s)
    (fun _ _ _ hs hC hstep hcalls => Distinct.step hs hC hstep hcalls) h hspends hrun

/-- The worker of an id is the only one of this id. -/
theorem Distinct.worker_unique (h : Distinct first s) {m n : ℕ} {w w' : Worker}
    (hm : s.registry.workers[m]? = some w) (hn : s.registry.workers[n]? = some w')
    (hid : w.id = w'.id) : m = n := by
  have hget : ∀ {k : ℕ} {v : Worker}, s.registry.workers[k]? = some v →
      s.registry.workerIds[k]? = some v.id := by
    intro k v hv
    unfold Registry.workerIds
    rw [List.getElem?_map, hv]
    rfl
  have hlt : m < s.registry.workerIds.length := (List.getElem?_eq_some_iff.1 (hget hm)).1
  refine (List.getElem?_inj hlt (List.nodup_append.1 h.nodup).1).1 ?_
  rw [hget hm, hget hn, hid]

/-- An id that has been used for a worker and is not registered is never registered again. -/
theorem not_active_of_run {labels : List Label} {id : String}
    (h : s.calls ≤ 2 ^ 64 → Distinct first s) (hused : id ∈ s.registry.workerIds)
    (hid : id ∉ s.registry.tasks.active)
    (hspends : (machine first limits).StepsMeet Spends s labels)
    (hrun : (machine first limits).run s labels = some t) (hcalls : t.calls ≤ 2 ^ 64) :
    id ∉ t.registry.tasks.active := by
  have hinv := Machine.invariant_of_stepsMeet
    (P := fun s : Minting => s.calls ≤ 2 ^ 64 →
      Distinct first s ∧ id ∈ s.registry.workerIds ∧ id ∉ s.registry.tasks.active)
    (m := machine first limits) (C := Spends) ?_ (fun hle => ⟨h hle, hused, hid⟩) hspends hrun
  · exact (hinv hcalls).2.2
  · intro s label t hs hC hstep hle
    obtain ⟨hdistinct, hused, hid⟩ := hs ((calls_le_of_step hstep).trans hle)
    refine ⟨Distinct.step (fun _ => hdistinct) hC hstep hle, ?_⟩
    cases label with
    | nextId stem =>
      obtain rfl := Option.some.inj hstep
      exact ⟨hused, hid⟩
    | registry l =>
      obtain ⟨r, hr, rfl⟩ := Option.map_eq_some_iff.1 hstep
      constructor
      · show id ∈ r.workerIds
        rcases Registry.workerIds_of_step hr with hids | ⟨a, owner, -, hids⟩
        · rwa [hids]
        · rw [hids]
          exact List.mem_append_left _ hused
      -- A caller that registered a worker under the id again would have it a second time.
      · refine Registry.not_active_of_step hr hid fun owner heq => ?_
        have hunspent := hC id owner (by rw [heq])
        exact (List.nodup_append.1 hdistinct.nodup).2.2 id hused id hunspent rfl

/-- Workers under minted ids. In every run of a registry in which workers are registered only under
ids that `next_id` has returned, each used once, and with at most 2^64 of its calls: no two workers
ever admitted have one id; no registration under an unused id is refused as a duplicate; the entry
of an id belongs to the worker of this id; and a cancellation that succeeds aborts the one worker of
its id and owner and no other, and is the last one under this id that does. -/
theorem minted_ids_name_one_worker (first : UInt64) (limits : OperationLimits)
    (labels : List Label) (s : Minting)
    (hrun : (machine first limits).run (machine first limits).init labels = some s)
    (hspends : (machine first limits).StepsMeet Spends (machine first limits).init labels)
    (hcalls : s.calls ≤ 2 ^ 64) :
    (∀ (m n : ℕ) (w w' : Worker), s.registry.workers[m]? = some w →
      s.registry.workers[n]? = some w' →
      w.id = w'.id → m = n) ∧
    (∀ id ∈ s.unspent, ∀ owner,
      (s.registry.spawnUntil id owner).1 ≠ .error .duplicateId) ∧
    (∀ (n : ℕ) (w : Worker), s.registry.workers[n]? = some w →
      ∀ task ∈ s.registry.tasks.active.lookup w.id,
      task.owner = w.owner ∧ task.value.generation = n) ∧
    ∀ id owner, (s.registry.cancelOwned id owner).1 = true →
      ∃ n w, s.registry.workers[n]? = some w ∧ w.id = id ∧ w.owner = owner ∧
        (s.registry.cancelOwned id owner).2.workers =
          s.registry.workers.set n { w with aborted := true } ∧
        ∀ labels' t owner',
          (machine first limits).StepsMeet Spends
            { s with registry := (s.registry.cancelOwned id owner).2 } labels' →
          (machine first limits).run
            { s with registry := (s.registry.cancelOwned id owner).2 } labels' = some t →
          t.calls ≤ 2 ^ 64 → (t.registry.cancelOwned id owner').1 = false := by
  have hdistinct : Distinct first s := Distinct.of_run (fun _ => Distinct.init) hspends hrun hcalls
  -- Minting leaves the registry alone, so its own invariant holds in every run.
  have hregistry : Registry.Invariant s.registry := by
    refine Machine.invariant_of_run (P := fun s : Minting => Registry.Invariant s.registry) ?_
      (Registry.Invariant.withLimits limits) hrun
    intro s label t hs hstep
    cases label with
    | nextId stem =>
      obtain rfl := Option.some.inj hstep
      exact hs
    | registry l =>
      obtain ⟨r, hr, rfl⟩ := Option.map_eq_some_iff.1 hstep
      exact hs.step hr
  -- An entry is of a worker of its id, and only one has it.
  have hentry : ∀ n w, s.registry.workers[n]? = some w →
      ∀ task ∈ s.registry.tasks.active.lookup w.id,
        task.owner = w.owner ∧ task.value.generation = n := by
    intro n w hw task htask
    obtain ⟨w', hw', hid, howner, -⟩ := hregistry.entry w.id task htask
    obtain rfl : task.value.generation = n := hdistinct.worker_unique hw' hw hid
    obtain rfl := Option.some.inj (hw.symm.trans hw')
    exact ⟨howner.symm, rfl⟩
  refine ⟨fun m n w w' hm hn hid => hdistinct.worker_unique hm hn hid, ?_, hentry, ?_⟩
  · intro id hid owner hduplicate
    have hactive := Registry.active_of_duplicateId hduplicate
    obtain ⟨task, htask⟩ := Option.isSome_iff_exists.1 (AList.lookup_isSome.2 hactive)
    obtain ⟨w, hw, rfl, -⟩ := hregistry.entry id task htask
    have hused : w.id ∈ s.registry.workerIds := List.mem_map_of_mem (List.mem_of_getElem? hw)
    exact (List.nodup_append.1 hdistinct.nodup).2.2 w.id hused w.id hid rfl
  · intro id owner hcancel
    rcases s.registry.cancelOwned_cases id owner with ⟨-, heq⟩ | ⟨task, htask, rfl, heq⟩
    · rw [heq] at hcancel
      cases hcancel
    · obtain ⟨w, hw, rfl, howner, -⟩ := hregistry.entry id task htask
      rw [heq]
      refine ⟨task.value.generation, w, hw, rfl, howner, Roster.modify_eq_set hw _, ?_⟩
      intro labels' t owner' hspends' hrun' hcalls'
      -- The id stays used after the cancellation, so no later run gives it an entry again.
      set s' : Minting := { s with
        registry := { s.registry with tasks := (s.registry.tasks.claim w.id).2 }.abort
          task.value.generation } with hs'
      have hids : s'.registry.workerIds = s.registry.workerIds :=
        Registry.workerIds_modifyWorker _ _ fun _ => rfl
      have hdistinct' : Distinct first s' :=
        ⟨hdistinct.value, by rw [hids]; exact hdistinct.nodup, by rw [hids]; exact hdistinct.minted⟩
      have hused : w.id ∈ s'.registry.workerIds := by
        rw [hids]
        exact List.mem_map_of_mem (List.mem_of_getElem? hw)
      have hfree : w.id ∉ s'.registry.tasks.active := by
        show w.id ∉ (s.registry.tasks.claim w.id).2.active
        rw [OwnedOperations.claim_active, AList.mem_erase]
        exact fun hmem => hmem.1 rfl
      have hgone := not_active_of_run (fun _ => hdistinct') hused hfree hspends' hrun' hcalls'
      rcases t.registry.cancelOwned_cases w.id owner' with ⟨-, heq'⟩ | ⟨task', htask', -, -⟩
      · rw [heq']
      · exact absurd (AList.lookup_isSome.1 (by rw [htask']; rfl)) hgone

/-- Two workers under minted ids, one of which has been cancelled. -/
def twoMinted : List Label :=
  [.nextId "watch", .registry (.spawn "watch-1" none), .nextId "watch",
    .registry (.cancel "watch-1" none), .registry (.spawn "watch-2" none)]

/-- The registration of a worker that is alone under its id, at the end of `twoMinted`. -/
theorem minted_ids_name_one_worker_two :
    ∃ s, (machine 1 ⟨2, 2⟩).run (machine 1 ⟨2, 2⟩).init twoMinted = some s ∧
      ∀ (n : ℕ) (w : Worker), s.registry.workers[n]? = some w →
        ∀ task ∈ s.registry.tasks.active.lookup w.id,
          task.owner = w.owner ∧ task.value.generation = n := by
  obtain ⟨s, hrun⟩ : ∃ s, (machine 1 ⟨2, 2⟩).run (machine 1 ⟨2, 2⟩).init twoMinted = some s :=
    ⟨_, rfl⟩
  refine ⟨s, hrun, (minted_ids_name_one_worker 1 ⟨2, 2⟩ twoMinted s hrun ?_ ?_).2.2.1⟩
  · refine Machine.stepsMeet_cons (by rintro _ _ ⟨⟩) rfl ?_
    refine Machine.stepsMeet_cons (by rintro _ _ ⟨⟩; decide) rfl ?_
    refine Machine.stepsMeet_cons (by rintro _ _ ⟨⟩) rfl ?_
    refine Machine.stepsMeet_cons (by rintro _ _ ⟨⟩) rfl ?_
    exact Machine.stepsMeet_cons (by rintro _ _ ⟨⟩; decide) rfl trivial
  · obtain rfl := Option.some.inj hrun
    decide

end Minting

end DaemonFramework.Tasks
