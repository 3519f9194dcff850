import DaemonFramework.Machine
import DaemonFramework.Roster

/-!
# The blocking lane

`BlockingLane` of `shelllist-daemon-tokio/src/blocking.rs`: submissions, the dispatcher `run`, the
blocking jobs, and any number of shutdown calls, as one machine. A job is named by its place in the
order of the submissions, and a shutdown call by its place in the order of the calls.

The dispatcher's two `select!`s are biased: a poll looks at the shutdown signal first and then at
what it waits for. Other threads run in between, so the two looks are two steps, `permitChecked` and
`jobChecked` being the states between them. Receiving a job, raising the activity count and spawning
the job are three steps for the same reason.

Every submission is one of `call_async`; one of `try_submit` is a submission whose waiter is dropped
at once. A rejected submission keeps its entry, so that what never happens to it can be said.
-/

namespace DaemonFramework.Blocking

/-- Why a submission has no value. -/
inductive LaneError where
  | full
  | closed
  | panicked
deriving DecidableEq

/-- How the body of a job ended. -/
inductive Outcome (α : Type*) where
  | value (v : α)
  | panicked

/-- What a job sends on its reply channel when its body has ended. -/
def Outcome.reply {α : Type*} : Outcome α → Except LaneError α
  | .value v => .ok v
  | .panicked => .error .panicked

/-- Where a submitted job is. -/
inductive Phase where
  /-- The submission was refused. -/
  | rejected (error : LaneError)
  /-- It waits in the channel. -/
  | queued
  /-- The dispatcher has received it. -/
  | dispatching
  /-- It waits for a blocking thread, with its permit and its place in the activity count. -/
  | spawned
  /-- Its body runs. -/
  | running
  /-- Its body has ended. -/
  | ended
  /-- It has replied. -/
  | replied
  /-- Its permit has been returned. -/
  | released
  /-- Its place in the activity count has been given up. -/
  | done
  /-- It was dropped with the channel. -/
  | dropped
deriving DecidableEq

namespace Phase

/-- The dispatcher has received the job, now or earlier. -/
def dispatched : Phase → Bool
  | .dispatching | .spawned | .running | .ended | .replied | .released | .done => true
  | _ => false

/-- The body of the job has begun. -/
def started : Phase → Bool
  | .running | .ended | .replied | .released | .done => true
  | _ => false

/-- The body of the job has ended. -/
def hasRun : Phase → Bool
  | .ended | .replied | .released | .done => true
  | _ => false

/-- The job holds a permit. -/
def holdsPermit : Phase → Bool
  | .spawned | .running | .ended | .replied => true
  | _ => false

/-- The job has a place in the activity count. -/
def isCounted : Phase → Bool
  | .spawned | .running | .ended | .replied | .released => true
  | _ => false

end Phase

/-- A submitted job. -/
structure Job (α : Type*) where
  /-- Where the job is. -/
  phase : Phase
  /-- How its body ended, once it has. -/
  outcome : Option (Outcome α)
  /-- Whether the future of the submission is still there. -/
  waiting : Bool
  /-- What the future resolves to, once it does. -/
  reply : Option (Except LaneError α)

namespace Job

variable {α : Type*}

/-- An accepted submission. -/
def accepted : Job α := ⟨.queued, none, true, none⟩

/-- A refused submission. -/
def rejected (error : LaneError) : Job α := ⟨.rejected error, none, true, some (.error error)⟩

/-- The reply channel resolves, if the future is still there. -/
def resolve (j : Job α) (result : Except LaneError α) : Job α :=
  { j with reply := if j.waiting then some result else j.reply }

/-- The job sends its outcome on its reply channel. -/
def answer (j : Job α) : Job α :=
  { (j.outcome.elim j fun outcome => j.resolve outcome.reply) with phase := .replied }

/-- The job is dropped with the channel if it is in it, and its reply channel with it. -/
def discard (j : Job α) : Job α :=
  if j.phase = .queued then { j.resolve (.error .closed) with phase := .dropped } else j

end Job

/-- Where the dispatcher is. -/
inductive Dispatcher where
  /-- At the top of its loop. -/
  | top
  /-- It waits for a permit. -/
  | permitWait
  /-- In a poll for a permit, after the look at the signal. -/
  | permitChecked
  /-- It has a permit and waits for a job. -/
  | jobWait
  /-- In a poll for a job, after the look at the signal. -/
  | jobChecked
  /-- It has received a job. -/
  | received (n : ℕ)
  /-- It has raised the activity count for the job. -/
  | counted (n : ℕ)
  /-- It has ended. -/
  | ended
deriving DecidableEq

namespace Dispatcher

/-- The job that the dispatcher has received and not yet spawned. -/
def job : Dispatcher → Option ℕ
  | .received n | .counted n => some n
  | _ => none

/-- The permits that the dispatcher holds. -/
def permits : Dispatcher → ℕ
  | .jobWait | .jobChecked | .received _ | .counted _ => 1
  | _ => 0

/-- The places in the activity count that the dispatcher holds. -/
def counts : Dispatcher → ℕ
  | .counted _ => 1
  | _ => 0

/-- The dispatcher is suspended, or has not been polled yet. -/
def suspended : Dispatcher → Bool
  | .top | .permitWait | .jobWait => true
  | _ => false

/-- A suspended dispatcher has no job in its hands. -/
theorem job_of_suspended {d : Dispatcher} (h : d.suspended) : d.job = none := by
  cases d with
  | received n => cases h
  | counted n => cases h
  | _ => rfl

end Dispatcher

/-- Where a shutdown call is. -/
inductive Call where
  /-- It has been made. -/
  | entered
  /-- It has closed admission. -/
  | closing
  /-- It has sent the signal. -/
  | signalled
  /-- It has taken the dispatcher's handle, and waits for the dispatcher to end. -/
  | joining
  /-- It has aborted the dispatcher at its deadline, and waits for the dispatcher to end. -/
  | aborting
  /-- It waits for the lane to be idle. -/
  | idling (found dispatcherStopped : Bool)
  /-- It has returned its report. -/
  | reported (dispatcherStopped : Bool) (activeJobs : ℕ)
  /-- Its caller has dropped it. -/
  | abandoned
deriving DecidableEq

/-- The call is at an await, where its caller can drop it. -/
def Call.awaiting : Call → Bool
  | .joining | .aborting | .idling _ _ => true
  | _ => false

/-- The call is over. -/
def Call.over : Call → Bool
  | .reported _ _ | .abandoned => true
  | _ => false

/-- The lane, its dispatcher, the submitted jobs and the shutdown calls. -/
structure Lane (α : Type*) where
  /-- Admission is closed. -/
  closed : Bool
  /-- The shutdown signal has been sent. -/
  signal : Bool
  /-- The dispatcher's handle is still in its slot. -/
  handle : Bool
  /-- The dispatcher's handle has been aborted. -/
  aborted : Bool
  /-- The lane itself has been dropped. -/
  dropped : Bool
  /-- The jobs in the channel, oldest first. -/
  queue : List ℕ
  /-- The permits that are available. -/
  permits : ℕ
  /-- Where the dispatcher is. -/
  dispatcher : Dispatcher
  /-- The activity count. -/
  count : ℕ
  /-- The submitted jobs. -/
  jobs : List (Job α)
  /-- The shutdown calls. -/
  calls : List Call

/-- What the dispatcher can do. -/
inductive DispatcherEvent where
  /-- It looks at the signal at the top of its loop. -/
  | look
  /-- A poll for a permit looks at the signal. -/
  | lookForPermit
  /-- The poll gets a permit. -/
  | takePermit
  /-- A poll for a job looks at the signal. -/
  | lookForJob
  /-- The poll gets a job, or learns that no more can come. -/
  | receive
  /-- It raises the activity count. -/
  | raise
  /-- It spawns the job. -/
  | spawn
  /-- A poll that looked at the signal ends pending. -/
  | pend
  /-- The runtime ends the aborted dispatcher. -/
  | abortLands
deriving DecidableEq

/-- What a job on a blocking thread can do. -/
inductive JobEvent (α : Type*) where
  /-- Its body begins. -/
  | start
  /-- Its body ends. -/
  | finish (outcome : Outcome α)
  /-- It sends its outcome on its reply channel. -/
  | reply
  /-- It drops its permit. -/
  | release
  /-- It drops its place in the activity count. -/
  | lower

/-- What a shutdown call can do. -/
inductive CallEvent where
  /-- It closes admission. -/
  | close
  /-- It sends the signal. -/
  | signal
  /-- It takes the dispatcher's handle, if the handle is still there. -/
  | take
  /-- It sees the dispatcher end in time. -/
  | joined
  /-- It reaches its deadline and aborts the dispatcher. -/
  | timeout
  /-- It sees the aborted dispatcher end. -/
  | abortJoined
  /-- It reads the activity count and returns its report. -/
  | report
  /-- Its caller drops it. -/
  | abandon
deriving DecidableEq

/-- What can happen. -/
inductive Label (α : Type*) where
  /-- A job is submitted. -/
  | submit
  /-- The future of a submission is dropped. -/
  | dropWaiter (n : ℕ)
  /-- The dispatcher does something. -/
  | dispatcher (e : DispatcherEvent)
  /-- A job does something. -/
  | job (n : ℕ) (e : JobEvent α)
  /-- A shutdown call is made. -/
  | shutdown
  /-- A shutdown call does something. -/
  | call (k : ℕ) (e : CallEvent)
  /-- The lane is dropped. -/
  | dropLane

namespace Lane

variable {α : Type*}

/-- `BlockingLane::start`. -/
def start (concurrency : ℕ) : Lane α where
  closed := false
  signal := false
  handle := true
  aborted := false
  dropped := false
  queue := []
  permits := concurrency
  dispatcher := .top
  count := 0
  jobs := []
  calls := []

/-- `try_submit`, under the lock of the closed flag. -/
def trySubmit (capacity : ℕ) (s : Lane α) : Lane α :=
  if s.closed ∨ s.dispatcher = .ended then { s with jobs := s.jobs ++ [.rejected .closed] }
  else if s.queue.length < capacity then
    { s with
      jobs := s.jobs ++ [.accepted]
      queue := s.queue ++ [s.jobs.length] }
  else { s with jobs := s.jobs ++ [.rejected .full] }

/-- The dispatcher ends: what it holds is dropped, the receiver with the jobs in it included. -/
def endDispatcher (s : Lane α) : Lane α :=
  { s with
    dispatcher := .ended
    permits := s.permits + s.dispatcher.permits
    queue := []
    jobs := s.jobs.map Job.discard }

/-- Change one job. -/
def modifyJob (s : Lane α) (n : ℕ) (f : Job α → Job α) : Lane α :=
  { s with jobs := s.jobs.modify n f }

/-- Put a job into another phase. -/
def setPhase (s : Lane α) (n : ℕ) (phase : Phase) : Lane α :=
  s.modifyJob n fun j => { j with phase := phase }

/-- A step of the dispatcher. -/
def dispatcherStep (s : Lane α) : DispatcherEvent → Option (Lane α)
  | .look =>
    if s.dispatcher = .top then
      some (if s.signal then s.endDispatcher else { s with dispatcher := .permitWait })
    else none
  | .lookForPermit =>
    if s.dispatcher = .permitWait then
      some (if s.signal then s.endDispatcher else { s with dispatcher := .permitChecked })
    else none
  | .takePermit =>
    if s.dispatcher = .permitChecked ∧ 0 < s.permits then
      some { s with dispatcher := .jobWait, permits := s.permits - 1 }
    else none
  | .lookForJob =>
    if s.dispatcher = .jobWait then
      some (if s.signal then s.endDispatcher else { s with dispatcher := .jobChecked })
    else none
  | .receive =>
    if s.dispatcher = .jobChecked then
      match s.queue with
      | n :: rest => some ({ s with dispatcher := .received n, queue := rest }.setPhase n .dispatching)
      -- The channel is closed once the lane, which has the only sender, is gone.
      | [] => if s.dropped then some s.endDispatcher else none
    else none
  | .raise =>
    match s.dispatcher with
    | .received n => some { s with dispatcher := .counted n, count := s.count + 1 }
    | _ => none
  | .spawn =>
    match s.dispatcher with
    | .counted n => some ({ s with dispatcher := .top }.setPhase n .spawned)
    | _ => none
  | .pend =>
    match s.dispatcher with
    | .permitChecked => some { s with dispatcher := .permitWait }
    | .jobChecked => some { s with dispatcher := .jobWait }
    | _ => none
  | .abortLands =>
    if s.aborted ∧ s.dispatcher.suspended then some s.endDispatcher else none

/-- A step of a job on a blocking thread. -/
def jobStep (s : Lane α) (n : ℕ) (e : JobEvent α) : Option (Lane α) :=
  match s.jobs[n]? with
  | none => none
  | some j =>
    match j.phase, e with
    | .spawned, .start => some (s.setPhase n .running)
    | .running, .finish outcome =>
      some (s.modifyJob n fun j => { j with phase := .ended, outcome := some outcome })
    | .ended, .reply => some (s.modifyJob n Job.answer)
    -- The permit is declared last, so it is dropped first.
    | .replied, .release => some ({ s with permits := s.permits + 1 }.setPhase n .released)
    | .released, .lower => some ({ s with count := s.count - 1 }.setPhase n .done)
    | _, _ => none

/-- Put a shutdown call somewhere else. -/
def setCall (s : Lane α) (k : ℕ) (c : Call) : Lane α := { s with calls := s.calls.set k c }

/-- A step of a shutdown call. -/
def callStep (s : Lane α) (k : ℕ) (e : CallEvent) : Option (Lane α) :=
  match s.calls[k]? with
  | none => none
  | some c =>
    match c, e with
    | .entered, .close => some ({ s with closed := true }.setCall k .closing)
    | .closing, .signal => some ({ s with signal := true }.setCall k .signalled)
    | .signalled, .take =>
      -- Without a handle the dispatcher counts as stopped.
      some (if s.handle then { s with handle := false }.setCall k .joining
        else s.setCall k (.idling false true))
    | .joining, .joined =>
      if s.dispatcher = .ended then some (s.setCall k (.idling true true)) else none
    | .joining, .timeout =>
      if s.dispatcher = .ended then none else some ({ s with aborted := true }.setCall k .aborting)
    | .aborting, .abortJoined =>
      if s.dispatcher = .ended then some (s.setCall k (.idling true false)) else none
    -- The wait for an idle lane ends with it or at the deadline, so it can end at any time.
    | .idling _ stopped, .report => some (s.setCall k (.reported stopped s.count))
    | _, .abandon => if c.awaiting then some (s.setCall k .abandoned) else none
    | _, _ => none

/-- One step. -/
def step (capacity : ℕ) (s : Lane α) : Label α → Option (Lane α)
  | .submit => if s.dropped then none else some (s.trySubmit capacity)
  | .dropWaiter n => some (s.modifyJob n fun j => { j with waiting := false })
  | .dispatcher e => s.dispatcherStep e
  | .job n e => s.jobStep n e
  | .shutdown => if s.dropped then none else some { s with calls := s.calls ++ [.entered] }
  | .call k e => s.callStep k e
  | .dropLane =>
    -- Only a lane that nothing borrows can be dropped.
    if s.dropped ∨ ¬s.calls.all Call.over then none
    else some { s with
      dropped := true
      signal := true
      handle := false
      aborted := s.aborted || s.handle }

end Lane

/-- A lane with these bounds, and all that can happen to it. -/
def machine (α : Type*) (capacity concurrency : ℕ) : Machine (Lane α) (Label α) where
  init := .start concurrency
  step := Lane.step capacity

namespace Lane

variable {α : Type*} {s t : Lane α}

/-! ## What each step can do -/

/-- The phase of a job. -/
def phaseAt (s : Lane α) (n : ℕ) : Option Phase := (s.jobs[n]?).map Job.phase

/-- The phases of the jobs. -/
def phases (s : Lane α) : List Phase := s.jobs.map Job.phase

/-- The phase of a job is that of its place. -/
theorem getElem?_phases (s : Lane α) (n : ℕ) : s.phases[n]? = s.phaseAt n := List.getElem?_map

/-- Phases are of submissions that were made. -/
theorem lt_of_phaseAt {s : Lane α} {n : ℕ} {phase : Phase} (h : s.phaseAt n = some phase) :
    n < s.jobs.length := by
  obtain ⟨j, hj, -⟩ := Option.map_eq_some_iff.1 h
  exact (List.getElem?_eq_some_iff.1 hj).1

/-- The phases after a submission are those before it, and its own. -/
theorem phaseAt_concat (s : Lane α) (j : Job α) (queue : List ℕ) (m : ℕ) :
    ({ s with jobs := s.jobs ++ [j], queue := queue } : Lane α).phaseAt m =
      if m = s.jobs.length then some j.phase else s.phaseAt m := by
  unfold phaseAt
  show ((s.jobs ++ [j])[m]?).map _ = _
  split_ifs with hm
  · subst hm
    simp
  · rw [List.getElem?_append]
    split_ifs with hlt
    · rfl
    · rw [List.getElem?_eq_none (by simp; omega), List.getElem?_eq_none (by omega)]

/-- A submission changes no phase but its own. -/
theorem phaseAt_concat_iff (s : Lane α) {j : Job α} (queue : List ℕ) (m : ℕ) {phase : Phase}
    (hne : phase ≠ j.phase) :
    ({ s with jobs := s.jobs ++ [j], queue := queue } : Lane α).phaseAt m = some phase ↔
      s.phaseAt m = some phase := by
  rw [phaseAt_concat]
  split_ifs with hm
  · have hfresh : s.phaseAt m ≠ some phase := fun h =>
      absurd (lt_of_phaseAt h) (by rw [hm]; exact Nat.lt_irrefl _)
    simp only [Option.some.injEq, hfresh, iff_false]
    exact fun heq => hne heq.symm
  · rfl

/-- The phases after one job was modified. -/
theorem phaseAt_modifyJob (s : Lane α) (n m : ℕ) (f : Job α → Job α) :
    (s.modifyJob n f).phaseAt m = (s.jobs[m]?).map fun j =>
      if n = m then (f j).phase else j.phase := by
  unfold phaseAt modifyJob
  rw [List.getElem?_modify]
  cases s.jobs[m]? with
  | none => rfl
  | some j => by_cases hn : n = m <;> simp [hn]

/-- The phases after one job was put into another phase. -/
theorem phaseAt_modifyJob_of_eq {n : ℕ} {old phase : Phase} (hold : s.phaseAt n = some old)
    {f : Job α → Job α} (hf : ∀ j, (f j).phase = phase) (m : ℕ) :
    (s.modifyJob n f).phaseAt m = if n = m then some phase else s.phaseAt m := by
  rw [phaseAt_modifyJob]
  split_ifs with hn
  · subst hn
    obtain ⟨j, hj, -⟩ := Option.map_eq_some_iff.1 hold
    simp [hj, hf]
  · rfl

/-- The phases after one job was put into another phase, as a list. -/
theorem phases_modifyJob_of_eq {n : ℕ} {old phase : Phase} (hold : s.phaseAt n = some old)
    {f : Job α → Job α} (hf : ∀ j, (f j).phase = phase) :
    (s.modifyJob n f).phases = s.phases.set n phase := by
  apply List.ext_getElem?
  intro m
  rw [getElem?_phases, phaseAt_modifyJob_of_eq hold hf, List.getElem?_set, getElem?_phases]
  have hlt : n < s.phases.length := by
    rw [← getElem?_phases] at hold
    exact (List.getElem?_eq_some_iff.1 hold).1
  simp [hlt]

/-- The phases after a job was modified in other respects. -/
theorem phases_modifyJob_of_same (s : Lane α) (n : ℕ) {f : Job α → Job α}
    (hf : ∀ j, (f j).phase = j.phase) : (s.modifyJob n f).phases = s.phases := by
  apply List.ext_getElem?
  intro m
  rw [getElem?_phases, phaseAt_modifyJob, getElem?_phases]
  simp [hf, phaseAt]

/-- What a step of the dispatcher can do: it ends, or it moves on without a job in its hands, or it
takes a permit, receives, counts or spawns a job. -/
theorem dispatcherStep_cases {e : DispatcherEvent} (h : s.dispatcherStep e = some t) :
    ((s.dispatcher.suspended ∨ s.dispatcher = .jobChecked ∧ s.queue = []) ∧
      t = s.endDispatcher) ∨
    (∃ d, s.dispatcher.job = none ∧ d.job = none ∧ d.permits = s.dispatcher.permits ∧
      s.dispatcher ≠ .ended ∧ d ≠ .ended ∧ (d = .jobChecked → s.signal = false) ∧
      t = { s with dispatcher := d }) ∨
    (s.dispatcher = .permitChecked ∧ 0 < s.permits ∧
      t = { s with dispatcher := .jobWait, permits := s.permits - 1 }) ∨
    (∃ n rest, s.dispatcher = .jobChecked ∧ s.queue = n :: rest ∧
      t = { s with dispatcher := .received n, queue := rest }.setPhase n .dispatching) ∨
    (∃ n, s.dispatcher = .received n ∧
      t = { s with dispatcher := .counted n, count := s.count + 1 }) ∨
    (∃ n, s.dispatcher = .counted n ∧ t = { s with dispatcher := .top }.setPhase n .spawned) := by
  -- A look at the signal ends the dispatcher, or lets it go on to the next point.
  have hlook : ∀ d d' : Dispatcher, s.dispatcher = d → d.suspended → d.job = none →
      d ≠ .ended → d'.job = none → d'.permits = d.permits → d' ≠ .ended →
      t = (if s.signal then s.endDispatcher else { s with dispatcher := d' }) →
      ((s.dispatcher.suspended ∨ s.dispatcher = .jobChecked ∧ s.queue = []) ∧
        t = s.endDispatcher) ∨
      ∃ d, s.dispatcher.job = none ∧ d.job = none ∧ d.permits = s.dispatcher.permits ∧
        s.dispatcher ≠ .ended ∧ d ≠ .ended ∧ (d = .jobChecked → s.signal = false) ∧
        t = { s with dispatcher := d } := by
    intro d d' hd hsusp hjob hne hjob' hpermits hne' ht
    subst hd
    split_ifs at ht with hsignal
    · exact .inl ⟨.inl hsusp, ht⟩
    · exact .inr ⟨d', hjob, hjob', hpermits, hne, hne', fun _ => by simpa using hsignal, ht⟩
  cases e with
  | look =>
    obtain ⟨hd, ht⟩ := Machine.guarded_eq_some.1 h
    exact (hlook .top .permitWait hd rfl rfl (by decide) rfl rfl (by decide)
      ht.symm).imp_right .inl
  | lookForPermit =>
    obtain ⟨hd, ht⟩ := Machine.guarded_eq_some.1 h
    exact (hlook .permitWait .permitChecked hd rfl rfl (by decide) rfl rfl (by decide)
      ht.symm).imp_right .inl
  | lookForJob =>
    obtain ⟨hd, ht⟩ := Machine.guarded_eq_some.1 h
    exact (hlook .jobWait .jobChecked hd rfl rfl (by decide) rfl rfl (by decide)
      ht.symm).imp_right .inl
  | takePermit =>
    obtain ⟨⟨hd, hpermits⟩, ht⟩ := Machine.guarded_eq_some.1 h
    exact .inr (.inr (.inl ⟨hd, hpermits, ht.symm⟩))
  -- Over an empty queue it ends, if the lane with the only sender is gone.
  | receive =>
    simp only [dispatcherStep, Option.ite_none_right_eq_some] at h
    obtain ⟨hd, h⟩ := h
    cases hq : s.queue with
    | nil =>
      rw [hq] at h
      obtain ⟨-, ht⟩ := Machine.guarded_eq_some.1 h
      exact .inl ⟨.inr ⟨hd, rfl⟩, ht.symm⟩
    | cons n rest =>
      rw [hq] at h
      exact .inr (.inr (.inr (.inl ⟨n, rest, hd, rfl, (Option.some.inj h).symm⟩)))
  | raise =>
    simp only [dispatcherStep] at h
    split at h
    · rename_i n hd
      exact .inr (.inr (.inr (.inr (.inl ⟨n, hd, (Option.some.inj h).symm⟩))))
    · cases h
  | spawn =>
    simp only [dispatcherStep] at h
    split at h
    · rename_i n hd
      exact .inr (.inr (.inr (.inr (.inr ⟨n, hd, (Option.some.inj h).symm⟩))))
    · cases h
  -- What was polled is pending, so the loop waits where it was.
  | pend =>
    simp only [dispatcherStep] at h
    split at h
    · rename_i hd
      refine .inr (.inl ⟨.permitWait, ?_, rfl, ?_, ?_, by decide, by simp,
        (Option.some.inj h).symm⟩) <;>
        simp [hd, Dispatcher.job, Dispatcher.permits]
    · rename_i hd
      refine .inr (.inl ⟨.jobWait, ?_, rfl, ?_, ?_, by decide, by simp,
        (Option.some.inj h).symm⟩) <;>
        simp [hd, Dispatcher.job, Dispatcher.permits]
    · cases h
  | abortLands =>
    obtain ⟨⟨-, hsusp⟩, ht⟩ := Machine.guarded_eq_some.1 h
    exact .inl ⟨.inl hsusp, ht.symm⟩

/-- What a step of a job can do: its phases follow each other, and the step from one to the next
does what the source does there. -/
theorem jobStep_cases {n : ℕ} {e : JobEvent α} (h : s.jobStep n e = some t) :
    (e = .start ∧ s.phaseAt n = some .spawned ∧ t = s.setPhase n .running) ∨
    (∃ outcome, e = .finish outcome ∧ s.phaseAt n = some .running ∧
      t = s.modifyJob n fun j => { j with phase := .ended, outcome := some outcome }) ∨
    (e = .reply ∧ s.phaseAt n = some .ended ∧ t = s.modifyJob n Job.answer) ∨
    (e = .release ∧ s.phaseAt n = some .replied ∧
      t = { s with permits := s.permits + 1 }.setPhase n .released) ∨
    (e = .lower ∧ s.phaseAt n = some .released ∧
      t = { s with count := s.count - 1 }.setPhase n .done) := by
  unfold jobStep at h
  cases hj : s.jobs[n]? with
  | none =>
    rw [hj] at h
    cases h
  | some j =>
    rw [hj] at h
    have hphase : s.phaseAt n = some j.phase := by simp [phaseAt, hj]
    simp only at h
    split at h
    · rename_i hp
      exact .inl ⟨rfl, by rw [hphase, hp], (Option.some.inj h).symm⟩
    · rename_i outcome hp
      exact .inr (.inl ⟨outcome, rfl, by rw [hphase, hp], (Option.some.inj h).symm⟩)
    · rename_i hp
      exact .inr (.inr (.inl ⟨rfl, by rw [hphase, hp], (Option.some.inj h).symm⟩))
    · rename_i hp
      exact .inr (.inr (.inr (.inl ⟨rfl, by rw [hphase, hp], (Option.some.inj h).symm⟩)))
    · rename_i hp
      exact .inr (.inr (.inr (.inr ⟨rfl, by rw [hphase, hp], (Option.some.inj h).symm⟩)))
    · cases h

/-- What a step of a shutdown call can do. -/
theorem callStep_cases {k : ℕ} {e : CallEvent} (h : s.callStep k e = some t) :
    (e = .close ∧ s.calls[k]? = some .entered ∧ t = { s with closed := true }.setCall k .closing) ∨
    (e = .signal ∧ s.calls[k]? = some .closing ∧
      t = { s with signal := true }.setCall k .signalled) ∨
    (e = .take ∧ s.calls[k]? = some .signalled ∧ s.handle ∧
      t = { s with handle := false }.setCall k .joining) ∨
    (e = .take ∧ s.calls[k]? = some .signalled ∧ t = s.setCall k (.idling false true)) ∨
    (e = .joined ∧ s.calls[k]? = some .joining ∧ s.dispatcher = .ended ∧
      t = s.setCall k (.idling true true)) ∨
    (e = .timeout ∧ s.calls[k]? = some .joining ∧
      t = { s with aborted := true }.setCall k .aborting) ∨
    (e = .abortJoined ∧ s.calls[k]? = some .aborting ∧ t = s.setCall k (.idling true false)) ∨
    (∃ found stopped, e = .report ∧ s.calls[k]? = some (.idling found stopped) ∧
      t = s.setCall k (.reported stopped s.count)) ∨
    (e = .abandon ∧ t = s.setCall k .abandoned) := by
  unfold callStep at h
  cases hc : s.calls[k]? with
  | none =>
    rw [hc] at h
    cases h
  | some c =>
    rw [hc] at h
    simp only at h
    split at h
    · exact .inl ⟨rfl, rfl, (Option.some.inj h).symm⟩
    · exact .inr (.inl ⟨rfl, rfl, (Option.some.inj h).symm⟩)
    · have ht := (Option.some.inj h).symm
      split_ifs at ht with hhandle
      · exact .inr (.inr (.inl ⟨rfl, rfl, hhandle, ht⟩))
      · exact .inr (.inr (.inr (.inl ⟨rfl, rfl, ht⟩)))
    · obtain ⟨hended, ht⟩ := Machine.guarded_eq_some.1 h
      exact .inr (.inr (.inr (.inr (.inl ⟨rfl, rfl, hended, ht.symm⟩))))
    · split_ifs at h
      exact .inr (.inr (.inr (.inr (.inr (.inl ⟨rfl, rfl, (Option.some.inj h).symm⟩)))))
    · obtain ⟨-, ht⟩ := Machine.guarded_eq_some.1 h
      exact .inr (.inr (.inr (.inr (.inr (.inr (.inl ⟨rfl, rfl, ht.symm⟩))))))
    · rename_i found stopped
      exact .inr (.inr (.inr (.inr (.inr (.inr (.inr (.inl
        ⟨found, stopped, rfl, rfl, (Option.some.inj h).symm⟩)))))))
    · obtain ⟨-, ht⟩ := Machine.guarded_eq_some.1 h
      exact .inr (.inr (.inr (.inr (.inr (.inr (.inr (.inr ⟨rfl, ht.symm⟩)))))))
    · cases h

/-- A step of a shutdown call leaves alone what the dispatcher and the jobs work with. -/
theorem callStep_frame {k : ℕ} {e : CallEvent} (h : s.callStep k e = some t) :
    t.queue = s.queue ∧ t.permits = s.permits ∧ t.dispatcher = s.dispatcher ∧ t.count = s.count ∧
      t.jobs = s.jobs := by
  rcases callStep_cases h with ⟨-, -, rfl⟩ | ⟨-, -, rfl⟩ | ⟨-, -, -, rfl⟩ | ⟨-, -, rfl⟩ |
    ⟨-, -, -, rfl⟩ | ⟨-, -, rfl⟩ | ⟨-, -, rfl⟩ | ⟨found, stopped, -, -, rfl⟩ | ⟨-, rfl⟩ <;>
    exact ⟨rfl, rfl, rfl, rfl, rfl⟩

end Lane

end DaemonFramework.Blocking
