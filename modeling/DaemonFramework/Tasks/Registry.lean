import DaemonFramework.Machine
import DaemonFramework.Roster
import DaemonFramework.Tasks.Operations

/-!
# The owned task registry

`OwnedTaskRegistry` of `shelllist-daemon-tokio/src/subscription.rs` and the workers that it has ever
admitted, in the order of their admission. A worker's place in this list is its generation: the
`Arc` and the `JoinHandle` of an entry belong to one worker, so `OwnedTask` names it once.

The registry's lock is held for a whole `spawnUntil`, `cancelOwned` or drop of a `Registration`, and
each is one step. A shutdown holds it to close the registry and to drain it. It aborts what it
drained after it has released the lock, one worker after the other, so `held` lists the workers that
shutdown calls have drained and not yet aborted. What a worker does, and when the cleanup of an
ended worker comes, is up to the runtime.
-/

namespace DaemonFramework.Tasks

/-- What an entry keeps of its worker. -/
structure OwnedTask where
  /-- The worker that the entry's handle and generation belong to. -/
  generation : ℕ
deriving DecidableEq

/-- How a worker ends. -/
inductive Ending where
  | completed
  | stopped
  | panicked
  | cancelled
deriving DecidableEq

/-- How far a worker is. -/
inductive Phase where
  /-- It waits for its start gate. -/
  | waiting
  /-- It waits for its stop signal and its work. -/
  | running
  /-- It has ended, and its registration is still to be dropped. -/
  | ended (how : Ending)
  /-- Its registration has been dropped. -/
  | dropped
deriving DecidableEq

/-- Whether a worker has ended with its registration still to be dropped. -/
def Phase.isEnded : Phase → Bool
  | .ended _ => true
  | _ => false

/-- An admitted worker. -/
structure Worker where
  /-- The id that it was admitted under. -/
  id : String
  /-- The owner that it was admitted for. -/
  owner : Option String
  /-- How far it is. -/
  phase : Phase
  /-- Whether its handle has been aborted. -/
  aborted : Bool
deriving DecidableEq

/-- The worker has neither finished nor been aborted. -/
def Worker.Live (w : Worker) : Prop :=
  (w.phase = .waiting ∨ w.phase = .running) ∧ w.aborted = false

/-- Why `spawnUntil` refuses. -/
inductive TaskAdmissionError where
  | closed
  | full
  | duplicateId
deriving DecidableEq

/-- The conversion from the errors of the table. -/
def TaskAdmissionError.ofOperation : OperationAdmissionError → TaskAdmissionError
  | .full => .full
  | .duplicateId => .duplicateId

/-- The registry, the workers, and what shutdown calls hold. -/
structure Registry where
  /-- Whether a shutdown has begun. -/
  closed : Bool
  /-- The registered workers. -/
  tasks : OwnedOperations OwnedTask
  /-- The admitted workers, each at its generation. -/
  workers : List Worker
  /-- The workers that shutdown calls have drained and not yet aborted. -/
  held : List ℕ

namespace Registry

/-- `with_limits`. -/
def withLimits (limits : OperationLimits) : Registry where
  closed := false
  tasks := .new limits
  workers := []
  held := []

/-- Change one worker. -/
def modifyWorker (s : Registry) (n : ℕ) (f : Worker → Worker) : Registry :=
  { s with workers := s.workers.modify n f }

/-- `JoinHandle::abort`. -/
def abort (s : Registry) (n : ℕ) : Registry := s.modifyWorker n fun w => { w with aborted := true }

/-- `spawn_until`: register a worker behind its start gate. -/
def spawnUntil (s : Registry) (id : String) (owner : Option String) :
    Except TaskAdmissionError Unit × Registry :=
  if s.closed then (.error .closed, s)
  else
    match s.tasks.insertWith id owner fun _ => ⟨s.workers.length⟩ with
    | .error error => (.error (.ofOperation error), s)
    | .ok tasks =>
      (.ok (), { s with
        tasks := tasks
        workers := s.workers ++ [⟨id, owner, .waiting, false⟩] })

/-- `cancel_owned`: claim an entry of `owner` and abort its worker. -/
def cancelOwned (s : Registry) (id : String) (owner : Option String) : Bool × Registry :=
  match s.tasks.claimOwned id owner with
  | (none, _) => (false, s)
  | (some task, tasks) => (true, { s with tasks := tasks }.abort task.value.generation)

/-- `Registration::drop` of the worker `n`: the entry under its id is claimed if it is its own. -/
def dropRegistration (s : Registry) (n : ℕ) : Registry :=
  match s.workers[n]? with
  | none => s
  | some w =>
    let s' := s.modifyWorker n fun w => { w with phase := .dropped }
    match s.tasks.active.lookup w.id with
    | none => s'
    | some task =>
      if task.value.generation = n then { s' with tasks := (s.tasks.claim w.id).2 } else s'

/-- The part of `shutdown` under the lock: close the registry and drain it. -/
def shutdown (s : Registry) : Registry :=
  { s with
    closed := true
    tasks := s.tasks.drain.2
    held := s.held ++ s.tasks.drain.1.map fun task => task.value.generation }

/-- What can happen. -/
inductive Label where
  /-- `spawn_until` is called. -/
  | spawn (id : String) (owner : Option String)
  /-- The start gate of a worker opens. -/
  | start (n : ℕ)
  /-- A running worker ends by itself. -/
  | finish (n : ℕ) (how : Ending)
  /-- The runtime ends an aborted worker. -/
  | abortLands (n : ℕ)
  /-- The registration of an ended worker is dropped. -/
  | drop (n : ℕ)
  /-- `cancel_owned` is called. -/
  | cancel (id : String) (owner : Option String)
  /-- `shutdown` is called. -/
  | shutdown
  /-- A shutdown call aborts a worker that it holds. -/
  | abortHeld (n : ℕ)
deriving DecidableEq

/-- Whether the worker `n` satisfies `p`. -/
def workerIs (s : Registry) (n : ℕ) (p : Worker → Bool) : Prop := (s.workers[n]?).any p

instance (s : Registry) (n : ℕ) (p : Worker → Bool) : Decidable (s.workerIs n p) :=
  inferInstanceAs (Decidable ((s.workers[n]?).any p = true))

/-- One step. -/
def step (s : Registry) : Label → Option Registry
  | .spawn id owner => some (s.spawnUntil id owner).2
  | .start n =>
    if s.workerIs n (·.phase = .waiting) then
      some (s.modifyWorker n fun w => { w with phase := .running })
    else none
  | .finish n how =>
    if s.workerIs n (·.phase = .running) ∧ how ≠ .cancelled then
      some (s.modifyWorker n fun w => { w with phase := .ended how })
    else none
  | .abortLands n =>
    -- An aborted worker may still finish first, or even before it is polled at all.
    if s.workerIs n fun w => w.aborted ∧ (w.phase = .waiting ∨ w.phase = .running) then
      some (s.modifyWorker n fun w => { w with phase := .ended .cancelled })
    else none
  | .drop n =>
    if s.workerIs n (·.phase.isEnded) then
      some (s.dropRegistration n)
    else none
  | .cancel id owner => some (s.cancelOwned id owner).2
  | .shutdown => some s.shutdown
  | .abortHeld n =>
    if n ∈ s.held then some ({ s with held := s.held.erase n }.abort n) else none

/-- A registry with these limits, and all that can happen to it. -/
def machine (limits : OperationLimits) : Machine Registry Label where
  init := .withLimits limits
  step := step

/-! ## What the operations do -/

/-- A worker after one worker was changed. -/
theorem getElem?_modifyWorker {s : Registry} {n m : ℕ} {f : Worker → Worker} :
    (s.modifyWorker n f).workers[m]? = (s.workers[m]?).map fun w => if n = m then f w else w :=
  List.getElem?_modify f n s.workers m

/-- The three ways in which an admission can end. -/
theorem spawnUntil_cases (s : Registry) (id : String) (owner : Option String) :
    (s.closed ∧ s.spawnUntil id owner = (.error .closed, s)) ∨
    (∃ error, s.spawnUntil id owner = (.error error, s)) ∨
    (s.closed = false ∧ id ∉ s.tasks.active ∧ ∃ tasks,
      tasks.active = s.tasks.active.insert id ⟨owner, ⟨s.workers.length⟩⟩ ∧
      s.spawnUntil id owner = (.ok (), { s with
        tasks := tasks
        workers := s.workers ++ [⟨id, owner, .waiting, false⟩] })) := by
  unfold spawnUntil
  split_ifs with hclosed
  · exact .inl ⟨hclosed, rfl⟩
  · right
    cases hinsert : s.tasks.insertWith id owner fun _ => (⟨s.workers.length⟩ : OwnedTask) with
    | error error => exact .inl ⟨_, rfl⟩
    | ok tasks =>
      obtain ⟨hid, hactive⟩ := OwnedOperations.insertWith_eq_ok hinsert
      exact .inr ⟨by simpa using hclosed, hid, tasks, hactive, rfl⟩

/-- The two ways in which a cancellation can end. -/
theorem cancelOwned_cases (s : Registry) (id : String) (owner : Option String) :
    ((∀ task ∈ s.tasks.active.lookup id, task.owner ≠ owner) ∧
      s.cancelOwned id owner = (false, s)) ∨
    (∃ task, s.tasks.active.lookup id = some task ∧ task.owner = owner ∧
      s.cancelOwned id owner =
        (true, { s with tasks := (s.tasks.claim id).2 }.abort task.value.generation)) := by
  by_cases hfound : ∃ task, s.tasks.active.lookup id = some task ∧ task.owner = owner
  · obtain ⟨task, htask, rfl⟩ := hfound
    have hclaim : s.tasks.claimOwned id task.owner = (some task, (s.tasks.claim id).2) := by
      unfold OwnedOperations.claimOwned
      rw [OwnedOperations.getOwned_eq_some htask]
      exact Prod.ext htask rfl
    refine .inr ⟨task, htask, rfl, ?_⟩
    unfold cancelOwned
    rw [hclaim]
  · have hnone : ∀ task ∈ s.tasks.active.lookup id, task.owner ≠ owner := fun task htask howner =>
      hfound ⟨task, htask, howner⟩
    refine .inl ⟨hnone, ?_⟩
    unfold cancelOwned OwnedOperations.claimOwned
    rw [OwnedOperations.getOwned_eq_none hnone]

/-- The two things that the drop of a registration can do to the entries. -/
theorem dropRegistration_cases {s : Registry} {n : ℕ} {w : Worker} (hw : s.workers[n]? = some w) :
    let s' := s.modifyWorker n fun w => { w with phase := .dropped }
    (∃ task, s.tasks.active.lookup w.id = some task ∧ task.value.generation = n ∧
      s.dropRegistration n = { s' with tasks := (s.tasks.claim w.id).2 }) ∨
    ((∀ task ∈ s.tasks.active.lookup w.id, task.value.generation ≠ n) ∧
      s.dropRegistration n = s') := by
  intro s'
  unfold dropRegistration
  rw [hw]
  dsimp only
  cases hlookup : s.tasks.active.lookup w.id with
  | none => exact .inr ⟨by simp, rfl⟩
  | some task =>
    dsimp only
    split_ifs with hown
    · exact .inl ⟨task, rfl, hown, rfl⟩
    · exact .inr ⟨by simpa using hown, rfl⟩

/-! ## The invariant -/

/-- How the entries, the workers and what shutdown calls hold fit together. -/
structure Invariant (s : Registry) : Prop where
  /-- An entry belongs to a worker of its id and owner whose registration is not dropped. -/
  entry : ∀ id task, s.tasks.active.lookup id = some task →
    ∃ w, s.workers[task.value.generation]? = some w ∧ w.id = id ∧ w.owner = task.owner ∧
      w.phase ≠ .dropped
  /-- No worker of the id was admitted after the one of the entry. -/
  latest : ∀ id task, s.tasks.active.lookup id = some task →
    ∀ m w, task.value.generation < m → s.workers[m]? = some w → w.id ≠ id
  /-- A live worker is registered, or a shutdown call holds it. -/
  live : ∀ n w, s.workers[n]? = some w → w.Live →
    s.tasks.active.lookup w.id = some ⟨w.owner, ⟨n⟩⟩ ∨ n ∈ s.held
  /-- A closed registry is empty. -/
  closed : s.closed → s.tasks.active = ∅

namespace Invariant

variable {s : Registry}

/-- The empty registry. -/
theorem withLimits (limits : OperationLimits) : Invariant (.withLimits limits) where
  entry := by simp [Registry.withLimits, OwnedOperations.new]
  latest := by simp [Registry.withLimits, OwnedOperations.new]
  live := by simp [Registry.withLimits]
  closed := by simp [Registry.withLimits]

/-- Changing a worker keeps the invariant if it keeps its id and owner, does not become live and
does not lose its registration. -/
theorem modifyWorker (h : Invariant s) (n : ℕ) {f : Worker → Worker}
    (hid : ∀ w, (f w).id = w.id) (howner : ∀ w, (f w).owner = w.owner)
    (hlive : ∀ w, s.workers[n]? = some w → (f w).Live → w.Live)
    (hphase : ∀ w, s.workers[n]? = some w → (f w).phase = .dropped → w.phase = .dropped) :
    Invariant (s.modifyWorker n f) where
  entry := by
    intro id task htask
    obtain ⟨w, hw, rfl, howner', hdropped⟩ := h.entry id task htask
    refine ⟨_, by rw [getElem?_modifyWorker, hw]; rfl, ?_, ?_, ?_⟩
    · split_ifs <;> simp [hid]
    · split_ifs <;> simp [howner, howner']
    · split_ifs with hn
      · exact fun heq => hdropped (hphase w (hn ▸ hw) heq)
      · exact hdropped
  latest := by
    intro id task htask m w hm hw
    rw [getElem?_modifyWorker, Option.map_eq_some_iff] at hw
    obtain ⟨w₀, hw₀, rfl⟩ := hw
    have hold := h.latest id task htask m w₀ hm hw₀
    split_ifs <;> simpa [hid] using hold
  live := by
    intro m w hw hwlive
    rw [getElem?_modifyWorker, Option.map_eq_some_iff] at hw
    obtain ⟨w₀, hw₀, rfl⟩ := hw
    by_cases hn : n = m
    · subst hn
      rw [if_pos rfl] at hwlive ⊢
      rw [hid, howner]
      exact h.live n w₀ hw₀ (hlive w₀ hw₀ hwlive)
    · rw [if_neg hn] at hwlive ⊢
      exact h.live m w₀ hw₀ hwlive
  closed := h.closed

/-- An admission keeps the invariant. -/
theorem spawnUntil (h : Invariant s) (id : String) (owner : Option String) :
    Invariant (s.spawnUntil id owner).2 := by
  rcases s.spawnUntil_cases id owner with ⟨-, heq⟩ | ⟨_, heq⟩ | ⟨hclosed, hid, tasks, hactive, heq⟩
  · rwa [heq]
  · rwa [heq]
  · rw [heq]
    -- The entries of other ids are as before, and their workers are among the old ones.
    have hold : ∀ a task, a ≠ id → tasks.active.lookup a = some task →
        s.tasks.active.lookup a = some task := by
      intro a task ha htask
      rwa [hactive, AList.lookup_insert_ne ha] at htask
    have hnew : tasks.active.lookup id = some ⟨owner, ⟨s.workers.length⟩⟩ := by
      rw [hactive, AList.lookup_insert]
    constructor
    · intro a task htask
      by_cases ha : a = id
      · subst ha
        obtain rfl := Option.some.inj (hnew.symm.trans htask)
        exact ⟨⟨a, owner, .waiting, false⟩, by simp, rfl, rfl, by simp⟩
      · obtain ⟨w, hw, hrest⟩ := h.entry a task (hold a task ha htask)
        have hlt : task.value.generation < s.workers.length := (List.getElem?_eq_some_iff.1 hw).1
        exact ⟨w, by rw [List.getElem?_append_left hlt]; exact hw, hrest⟩
    · intro a task htask m w hm hw
      by_cases ha : a = id
      · subst ha
        obtain rfl := Option.some.inj (hnew.symm.trans htask)
        have hlt := (List.getElem?_eq_some_iff.1 hw).1
        rw [List.length_append, List.length_singleton] at hlt
        simp only at hm
        omega
      · rcases Roster.getElem?_append_singleton_cases hw with hw | rfl
        · exact h.latest a task (hold a task ha htask) m w hm hw
        · exact fun heq => ha heq.symm
    · intro m w hw hwlive
      rw [List.getElem?_append] at hw
      split_ifs at hw with hlt
      -- A live worker of the same id would be registered under it, or held.
      · rcases h.live m w hw hwlive with hreg | hheld
        · have hne : w.id ≠ id := fun heq =>
            hid (AList.lookup_isSome.1 (by rw [← heq, hreg]; rfl))
          left
          show tasks.active.lookup w.id = _
          rw [hactive, AList.lookup_insert_ne hne]
          exact hreg
        · exact .inr hheld
      · left
        have hm : m = s.workers.length := by
          have := (List.getElem?_eq_some_iff.1 hw).1
          rw [List.length_singleton] at this
          omega
        subst hm
        obtain rfl : _ = w := by simpa using hw
        exact hnew
    · intro hc
      rw [show s.closed = true from hc] at hclosed
      cases hclosed

/-- Claiming the entry of a worker that is no longer live keeps the invariant. -/
theorem claim (h : Invariant s) {id : String} {task : OwnedOperation OwnedTask}
    (htask : s.tasks.active.lookup id = some task)
    (hdead : ∀ w, s.workers[task.value.generation]? = some w → ¬w.Live) :
    Invariant { s with tasks := (s.tasks.claim id).2 } where
  entry := by
    intro a other hother
    have hne : a ≠ id := fun heq => by
      rw [heq, OwnedOperations.claim_active, AList.lookup_erase] at hother
      cases hother
    rw [OwnedOperations.claim_active, AList.lookup_erase_ne hne] at hother
    exact h.entry a other hother
  latest := by
    intro a other hother
    have hne : a ≠ id := fun heq => by
      rw [heq, OwnedOperations.claim_active, AList.lookup_erase] at hother
      cases hother
    rw [OwnedOperations.claim_active, AList.lookup_erase_ne hne] at hother
    exact h.latest a other hother
  live := by
    intro m w hw hwlive
    rcases h.live m w hw hwlive with hreg | hheld
    · left
      -- A live worker is not the one whose entry is claimed.
      have hne : w.id ≠ id := fun heq => by
        rw [heq, htask] at hreg
        obtain rfl := Option.some.inj hreg
        exact hdead w hw hwlive
      show (s.tasks.claim id).2.active.lookup w.id = _
      rw [OwnedOperations.claim_active, AList.lookup_erase_ne hne]
      exact hreg
    · exact .inr hheld
  closed := by
    intro hclosed
    rw [h.closed hclosed] at htask
    simp at htask

/-- The cleanup of an ended worker keeps the invariant. -/
theorem dropRegistration (h : Invariant s) {n : ℕ} {w : Worker} (hw : s.workers[n]? = some w)
    (hended : w.phase.isEnded) : Invariant (s.dropRegistration n) := by
  have hdead : ∀ w', s.workers[n]? = some w' → ¬w'.Live := by
    intro w' hw' hlive
    obtain rfl : w = w' := Option.some.inj (hw.symm.trans hw')
    rcases hlive.1 with hphase | hphase <;> simp [hphase, Phase.isEnded] at hended
  -- Once its entry is gone, nothing speaks about the worker any more.
  have hdropped : ∀ {t : Registry}, Invariant t → t.workers = s.workers →
      (∀ id task, t.tasks.active.lookup id = some task → task.value.generation ≠ n) →
      Invariant (t.modifyWorker n fun w => { w with phase := .dropped }) := by
    intro t ht hworkers hgone
    constructor
    · intro id task htask
      obtain ⟨w', hw', hrest⟩ := ht.entry id task htask
      refine ⟨w', ?_, hrest⟩
      rw [getElem?_modifyWorker, hw']
      simp [(hgone id task htask).symm]
    · intro id task htask m w' hm hw'
      rw [getElem?_modifyWorker, Option.map_eq_some_iff] at hw'
      obtain ⟨w₀, hw₀, rfl⟩ := hw'
      have hold := ht.latest id task htask m w₀ hm hw₀
      split_ifs <;> exact hold
    · intro m w' hw' hlive
      rw [getElem?_modifyWorker, Option.map_eq_some_iff] at hw'
      obtain ⟨w₀, hw₀, rfl⟩ := hw'
      split_ifs at hlive with hn
      · rcases hlive.1 with hphase | hphase <;> cases hphase
      · rw [if_neg hn]
        exact ht.live m w₀ hw₀ hlive
    · exact ht.closed
  rcases dropRegistration_cases hw with ⟨task, htask, hown, heq⟩ | ⟨hother, heq⟩
  · rw [heq]
    refine hdropped (h.claim htask (hown ▸ hdead)) rfl ?_
    intro id other hother hgen
    -- Another entry of the same generation would belong to the same worker, so have the same id.
    have hne : id ≠ w.id := fun heq => by
      rw [heq, OwnedOperations.claim_active, AList.lookup_erase] at hother
      cases hother
    rw [OwnedOperations.claim_active, AList.lookup_erase_ne hne] at hother
    obtain ⟨w', hw', hid, -⟩ := h.entry id other hother
    rw [hgen, hw] at hw'
    exact hne (by rw [← hid, ← Option.some.inj hw'])
  · rw [heq]
    refine hdropped h rfl ?_
    intro id task htask hgen
    obtain ⟨w', hw', hid, -⟩ := h.entry id task htask
    rw [hgen, hw] at hw'
    obtain rfl := Option.some.inj hw'
    exact hother task (hid ▸ htask) hgen

/-- Aborting a worker keeps the invariant. -/
theorem abort (h : Invariant s) (n : ℕ) : Invariant (s.abort n) := by
  refine h.modifyWorker n (fun _ => rfl) (fun _ => rfl) ?_ fun _ _ hphase => hphase
  intro w _ hlive
  cases hlive.2

/-- A cancellation keeps the invariant. -/
theorem cancelOwned (h : Invariant s) (id : String) (owner : Option String) :
    Invariant (s.cancelOwned id owner).2 := by
  rcases s.cancelOwned_cases id owner with ⟨-, heq⟩ | ⟨task, htask, -, heq⟩
  · rwa [heq]
  · rw [heq]
    -- The claim and the abort are made under one lock, so here the abort can be seen first.
    refine (h.abort task.value.generation).claim htask ?_
    intro w hw hlive
    unfold Registry.abort at hw
    rw [getElem?_modifyWorker, Option.map_eq_some_iff] at hw
    obtain ⟨w₀, -, rfl⟩ := hw
    rw [if_pos rfl] at hlive
    cases hlive.2

/-- A shutdown keeps the invariant: what it drains it holds. -/
theorem shutdown (h : Invariant s) : Invariant s.shutdown where
  entry := by simp [Registry.shutdown]
  latest := by simp [Registry.shutdown]
  live := by
    intro n w hw hlive
    right
    unfold Registry.shutdown
    rw [List.mem_append]
    rcases h.live n w hw hlive with hreg | hheld
    · right
      have hmem := AList.mem_lookup_iff.1 hreg
      exact List.mem_map.2 ⟨_, List.mem_map.2 ⟨_, hmem, rfl⟩, rfl⟩
    · exact .inl hheld
  closed := by simp [Registry.shutdown]

/-- Aborting a worker that a shutdown call holds keeps the invariant. -/
theorem abortHeld (h : Invariant s) (n : ℕ) :
    Invariant ({ s with held := s.held.erase n }.abort n) where
  entry := (h.abort n).entry
  latest := (h.abort n).latest
  live := by
    intro m w hw hlive
    refine ((h.abort n).live m w hw hlive).imp_right fun hheld => ?_
    -- The aborted worker itself is not live any more.
    have hne : m ≠ n := by
      rintro rfl
      unfold Registry.abort at hw
      rw [getElem?_modifyWorker, Option.map_eq_some_iff] at hw
      obtain ⟨w₀, -, rfl⟩ := hw
      rw [if_pos rfl] at hlive
      cases hlive.2
    exact (List.mem_erase_of_ne hne).2 hheld
  closed := h.closed

/-- The worker that a check speaks about. -/
theorem exists_of_workerIs {n : ℕ} {p : Worker → Bool} (h : s.workerIs n p) :
    ∃ w, s.workers[n]? = some w ∧ p w = true := by
  simpa [workerIs, Option.any_eq_true] using h

/-- Every step keeps the invariant. -/
theorem step (h : Invariant s) {label : Label} {t : Registry} (hstep : s.step label = some t) :
    Invariant t := by
  cases label with
  | spawn id owner =>
    obtain rfl := Option.some.inj hstep
    exact h.spawnUntil id owner
  | start n =>
    obtain ⟨hwait, rfl⟩ := Machine.guarded_eq_some.1 hstep
    obtain ⟨w, hw, hphase⟩ := exists_of_workerIs hwait
    refine h.modifyWorker n (fun _ => rfl) (fun _ => rfl) ?_ fun _ _ hdropped => by cases hdropped
    intro w' hw' hlive
    obtain rfl : w = w' := Option.some.inj (hw.symm.trans hw')
    exact ⟨.inl (by simpa using hphase), hlive.2⟩
  | finish n how =>
    obtain ⟨-, rfl⟩ := Machine.guarded_eq_some.1 hstep
    refine h.modifyWorker n (fun _ => rfl) (fun _ => rfl) ?_ fun _ _ hdropped => by cases hdropped
    intro w _ hlive
    rcases hlive.1 with hphase | hphase <;> cases hphase
  | abortLands n =>
    obtain ⟨-, rfl⟩ := Machine.guarded_eq_some.1 hstep
    refine h.modifyWorker n (fun _ => rfl) (fun _ => rfl) ?_ fun _ _ hdropped => by cases hdropped
    intro w _ hlive
    rcases hlive.1 with hphase | hphase <;> cases hphase
  | drop n =>
    obtain ⟨hended, rfl⟩ := Machine.guarded_eq_some.1 hstep
    obtain ⟨w, hw, hphase⟩ := exists_of_workerIs hended
    exact h.dropRegistration hw hphase
  | cancel id owner =>
    obtain rfl := Option.some.inj hstep
    exact h.cancelOwned id owner
  | shutdown =>
    obtain rfl := Option.some.inj hstep
    exact h.shutdown
  | abortHeld n =>
    obtain ⟨-, rfl⟩ := Machine.guarded_eq_some.1 hstep
    exact h.abortHeld n

/-- Every reachable registry keeps the invariant. -/
theorem of_reachable {limits : OperationLimits} (h : (machine limits).Reachable s) : Invariant s :=
  Machine.invariant_of_reachable (withLimits limits) (fun _ _ _ hs hstep => hs.step hstep) h

end Invariant

/-! ## Reused ids -/

variable {s : Registry}

/-- An entry survives the drop of every registration but its own. -/
theorem lookup_dropRegistration {n : ℕ} {id : String} {task : OwnedOperation OwnedTask}
    (htask : s.tasks.active.lookup id = some task)
    (hne : task.value.generation ≠ n) :
    (s.dropRegistration n).tasks.active.lookup id = some task := by
  cases hw : s.workers[n]? with
  | none =>
    unfold Registry.dropRegistration
    rwa [hw]
  | some w =>
    rcases dropRegistration_cases hw with ⟨own, hown, hgen, heq⟩ | ⟨-, heq⟩
    · have hid : id ≠ w.id := by
        rintro rfl
        rw [hown] at htask
        obtain rfl := Option.some.inj htask
        exact hne hgen
      rw [heq]
      show (s.tasks.claim w.id).2.active.lookup id = _
      rwa [OwnedOperations.claim_active, AList.lookup_erase_ne hid]
    · rwa [heq]

/-- A registered worker can be cancelled by its owner and is taken by a shutdown. -/
theorem reach_of_registered {n : ℕ} {w : Worker} (hw : s.workers[n]? = some w)
    (hreg : s.tasks.active.lookup w.id = some ⟨w.owner, ⟨n⟩⟩) :
    (s.cancelOwned w.id w.owner).1 = true ∧
      (s.cancelOwned w.id w.owner).2.workers[n]? = some { w with aborted := true } ∧
      n ∈ s.shutdown.held := by
  have hheld : n ∈ s.shutdown.held := by
    have hmem := AList.mem_lookup_iff.1 hreg
    exact List.mem_append_right _ (List.mem_map.2 ⟨_, List.mem_map.2 ⟨_, hmem, rfl⟩, rfl⟩)
  rcases s.cancelOwned_cases w.id w.owner with ⟨hother, -⟩ | ⟨task, htask, -, heq⟩
  · exact absurd rfl (hother _ hreg)
  · obtain rfl := Option.some.inj (hreg.symm.trans htask)
    rw [heq]
    refine ⟨rfl, ?_, hheld⟩
    unfold Registry.abort
    rw [getElem?_modifyWorker]
    show (s.workers[n]?).map _ = _
    rw [hw]
    simp

/-- The drop of a registration that still has its entry gives its place back, so that its owner can
register the id again unless the registry is closed. -/
theorem spawnUntil_dropRegistration {n : ℕ} {w : Worker} (hw : s.workers[n]? = some w)
    (hreg : s.tasks.active.lookup w.id = some ⟨w.owner, ⟨n⟩⟩) :
    let s' := s.dropRegistration n
    s'.tasks.active.entries.length + 1 = s.tasks.active.entries.length ∧
      countOf s'.tasks.active w.owner + 1 = countOf s.tasks.active w.owner ∧
      (s.closed = false → (s'.spawnUntil w.id w.owner).1 = .ok ()) := by
  intro s'
  have hs' : s'.tasks = (s.tasks.claim w.id).2 ∧ s'.closed = s.closed := by
    rcases dropRegistration_cases hw with ⟨task, -, -, heq⟩ | ⟨hother, -⟩
    · rw [show s' = _ from heq]
      exact ⟨rfl, rfl⟩
    · exact absurd rfl (hother _ hreg)
  rw [hs'.1]
  refine ⟨OwnedOperations.length_claim_add hreg, OwnedOperations.countOf_claim_add hreg, ?_⟩
  intro hclosed
  have hfree : w.id ∉ (s.tasks.claim w.id).2.active := by
    rw [OwnedOperations.claim_active, AList.mem_erase]
    exact fun hmem => hmem.1 rfl
  obtain ⟨tasks, htasks⟩ := OwnedOperations.exists_insertWith hfree
    (OwnedOperations.admission_claim hreg) fun _ => (⟨s'.workers.length⟩ : OwnedTask)
  unfold Registry.spawnUntil
  rw [hs'.2, hclosed, hs'.1, htasks]
  rfl

/-- A closed registry refuses every worker and starts none. -/
theorem spawnUntil_of_closed (h : s.closed) (id : String) (owner : Option String) :
    s.spawnUntil id owner = (.error .closed, s) := by
  unfold Registry.spawnUntil
  rw [if_pos h]

/-- A closed registry stays closed. -/
theorem closed_of_step {label : Label} {t : Registry} (h : s.closed)
    (hstep : s.step label = some t) : t.closed := by
  cases label with
  | spawn id owner =>
    obtain rfl := Option.some.inj hstep
    rw [spawnUntil_of_closed h]
    exact h
  | cancel id owner =>
    obtain rfl := Option.some.inj hstep
    rcases s.cancelOwned_cases id owner with ⟨-, heq⟩ | ⟨task, -, -, heq⟩
    · rwa [heq]
    · rw [heq]
      exact h
  | drop n =>
    obtain ⟨hended, rfl⟩ := Machine.guarded_eq_some.1 hstep
    obtain ⟨w, hw, -⟩ := Invariant.exists_of_workerIs hended
    rcases dropRegistration_cases hw with ⟨task, -, -, heq⟩ | ⟨-, heq⟩
    · rw [heq]
      exact h
    · rwa [heq]
  | shutdown =>
    obtain rfl := Option.some.inj hstep
    rfl
  | _ =>
    obtain ⟨-, rfl⟩ := Machine.guarded_eq_some.1 hstep
    exact h

/-- The registry over reused ids. Of every reachable registry: the entry of an id belongs to the
worker admitted last under it, whose registration is not dropped; no drop of another worker's
registration removes it; a worker that has neither finished nor been aborted is registered, where
its owner and a shutdown reach it, or in the hands of a shutdown call that is about to abort it; the
drop of a registration gives the place of its entry back; a cancellation by another owner changes
nothing; and once it is closed it is empty and stays so, and starts no worker. -/
theorem registry_over_reused_ids (limits : OperationLimits) (s : Registry)
    (h : (machine limits).Reachable s) :
    (∀ id task, s.tasks.active.lookup id = some task →
      ∃ w, s.workers[task.value.generation]? = some w ∧ w.id = id ∧ w.owner = task.owner ∧
        w.phase ≠ .dropped ∧
        ∀ m w', task.value.generation < m → s.workers[m]? = some w' → w'.id ≠ id) ∧
      (∀ n id task, s.tasks.active.lookup id = some task → task.value.generation ≠ n →
        (s.dropRegistration n).tasks.active.lookup id = some task) ∧
      (∀ n w, s.workers[n]? = some w → w.Live →
        (s.tasks.active.lookup w.id = some ⟨w.owner, ⟨n⟩⟩ ∧
          (s.cancelOwned w.id w.owner).1 = true ∧
          (s.cancelOwned w.id w.owner).2.workers[n]? = some { w with aborted := true } ∧
          n ∈ s.shutdown.held) ∨
        n ∈ s.held ∧ (s.step (.abortHeld n)).isSome) ∧
      (∀ n w, s.workers[n]? = some w → s.tasks.active.lookup w.id = some ⟨w.owner, ⟨n⟩⟩ →
        let s' := s.dropRegistration n
        s'.tasks.active.entries.length + 1 = s.tasks.active.entries.length ∧
          countOf s'.tasks.active w.owner + 1 = countOf s.tasks.active w.owner ∧
          (s.closed = false → (s'.spawnUntil w.id w.owner).1 = .ok ())) ∧
      (∀ id owner, (∀ task ∈ s.tasks.active.lookup id, task.owner ≠ owner) →
        s.cancelOwned id owner = (false, s)) ∧
      s.shutdown.closed ∧
      ∀ labels t, s.closed → (machine limits).run s labels = some t →
        t.closed ∧ t.tasks.active = ∅ ∧
          ∀ id owner, t.spawnUntil id owner = (.error .closed, t) := by
  have hinv := Invariant.of_reachable h
  refine ⟨?_, ?_, ?_, ?_, ?_, rfl, ?_⟩
  · intro id task htask
    obtain ⟨w, hw, hid, howner, hphase⟩ := hinv.entry id task htask
    exact ⟨w, hw, hid, howner, hphase, hinv.latest id task htask⟩
  · intro n id task htask hne
    exact lookup_dropRegistration htask hne
  · intro n w hw hlive
    rcases hinv.live n w hw hlive with hreg | hheld
    · exact .inl ⟨hreg, reach_of_registered hw hreg⟩
    · exact .inr ⟨hheld, by simp [Registry.step, hheld]⟩
  · intro n w hw hreg
    exact spawnUntil_dropRegistration hw hreg
  · intro id owner hother
    rcases s.cancelOwned_cases id owner with ⟨-, heq⟩ | ⟨task, htask, howner, -⟩
    · exact heq
    · exact absurd howner (hother task htask)
  · intro labels t hclosed hrun
    obtain ⟨ht, htclosed⟩ := Machine.invariant_of_run (P := fun s => Invariant s ∧ s.closed)
      (fun s label t hs hstep => ⟨hs.1.step hstep, closed_of_step hs.2 hstep⟩) ⟨hinv, hclosed⟩ hrun
    exact ⟨htclosed, ht.closed htclosed, fun id owner => spawnUntil_of_closed htclosed id owner⟩

/-- A registered worker whose id has been used before. -/
theorem registry_over_reused_ids_reused :
    ∃ s, (machine ⟨2, 1⟩).run (machine ⟨2, 1⟩).init
        [.spawn "id" none, .cancel "id" none, .spawn "id" none] = some s ∧
      (s.dropRegistration 0).tasks.active.lookup "id" = some ⟨none, ⟨1⟩⟩ := by
  refine ⟨_, rfl, ?_⟩
  exact (registry_over_reused_ids ⟨2, 1⟩ _
    ⟨[.spawn "id" none, .cancel "id" none, .spawn "id" none], rfl⟩).2.1 0 "id"
      ⟨none, ⟨1⟩⟩ rfl (by decide)

/-- Between the moment when a shutdown has drained the registry and the moment when it aborts a
worker, the worker runs on and is not registered. -/
theorem live_worker_not_registered :
    ∃ s, (machine ⟨2, 1⟩).run (machine ⟨2, 1⟩).init [.spawn "id" none, .start 0, .shutdown] =
        some s ∧
      ∃ w, s.workers[0]? = some w ∧ w.Live ∧ s.tasks.active.lookup w.id = none :=
  ⟨_, rfl, ⟨"id", none, .running, false⟩, rfl, ⟨.inr rfl, rfl⟩, rfl⟩

end Registry

end DaemonFramework.Tasks
