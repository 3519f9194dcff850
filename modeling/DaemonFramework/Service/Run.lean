import DaemonFramework.Service.Admission
import DaemonFramework.Service.Encoding
import Mathlib.Logic.Function.Basic

/-!
# The execution of admitted requests

`Admitted::run` of `shelllist-daemon-tokio/src/service.rs`, with `AbortOnDrop` of `task.rs`. A call
of `run` spawns a task that owns the `Admitted` and runs the handler, and then moves the `Admitted`
into a blocking job that encodes the result. The caller waits for the task until a deadline, and can
be dropped meanwhile; for a read, the task is aborted when the caller is done with it.

Of the runtime it is assumed that an aborted task is dropped at an await point, that a dropped
handle leaves its task or job alone, and that a blocking job cannot be aborted. What is dropped
drops what it owns, so the `Admitted` is dropped with the task or at the end of the job, whichever
has it then. The handle of a task or job is ready only after that.

`execution` is the boundary with all its requests and their runs. Its steps on the boundary are
those of `admission`, where the `Admitted` of a run is dropped only as said.
-/

namespace DaemonFramework.Service

/-- Where the future that `run` returned is. -/
inductive CallerPhase where
  /-- It waits for the task. -/
  | waiting
  /-- It returned a response in time. -/
  | replied (response : Response)
  /-- It returned at its deadline. -/
  | timedOut
  /-- It was dropped. -/
  | gone

/-- Whether it was given up before the task was over. -/
def CallerPhase.hasLeft : CallerPhase → Bool
  | timedOut | gone => true
  | _ => false

/-- Where the task is. -/
inductive TaskPhase where
  /-- There is none, since the request has no policy. -/
  | unspawned
  /-- The handler has not been started. -/
  | spawned
  /-- The handler runs. -/
  | handling
  /-- The handler returned, and the task waits for the job. -/
  | encoding
  /-- The task returned. -/
  | returned (response : Response)
  /-- The handler panicked. -/
  | panicked
  /-- The task was dropped with the handler. -/
  | handlerDropped
  /-- The task was dropped while it waited for the job. -/
  | detached

/-- Whether there is a handler, started or not. -/
def TaskPhase.hasHandler : TaskPhase → Bool
  | spawned | handling => true
  | _ => false

/-- Whether the task is over. -/
def TaskPhase.isOver : TaskPhase → Bool
  | spawned | handling | encoding => false
  | _ => true

/-- Where the blocking job is, with the value that the handler returned. -/
inductive JobPhase where
  /-- There is none. -/
  | none
  /-- It waits for a thread. -/
  | queued (value : Serialization)
  /-- It encodes the value. -/
  | running (value : Serialization)
  /-- It has encoded the value. -/
  | encoded (value : Serialization)
  /-- It panicked. -/
  | panicked (value : Serialization)

/-- Whether there is a value to encode. -/
def JobPhase.isPending : JobPhase → Bool
  | queued _ | running _ => true
  | _ => false

/-- Who has the `Admitted`. -/
inductive Holder where
  | task
  | job
  /-- Nobody: it is being dropped, or is dropped. -/
  | nobody
deriving DecidableEq

/-- A call of `run`. -/
structure Run where
  /-- What it is a call on. -/
  admitted : Admitted
  /-- Where its future is. -/
  caller : CallerPhase
  /-- Where its task is. -/
  task : TaskPhase
  /-- Where its job is. -/
  job : JobPhase
  /-- Who has the `Admitted`. -/
  holder : Holder
  /-- Whether the task was told to abort. -/
  aborting : Bool

/-- What can happen to a call of `run`. -/
inductive RunStep where
  /-- The task starts the handler. -/
  | poll
  /-- The handler returns a value. -/
  | finish (value : Serialization)
  /-- The handler panics. -/
  | panic
  /-- The task is dropped at an await point. -/
  | abort
  /-- The job gets a thread. -/
  | encode
  /-- The job ends. -/
  | encoded
  /-- The job panics. -/
  | encoderPanic
  /-- The task gets the response from the job. -/
  | join
  /-- The future gets the response from the task. -/
  | reply
  /-- The deadline of the future expires. -/
  | deadline
  /-- The future is dropped. -/
  | dropCaller

namespace Run

/-- What the method does to the world. -/
def mode (run : Run) : Option ExecutionMode := run.admitted.policy.map MethodPolicy.execution

/-- An error that leaves the outcome open. -/
def outcomeUnknown (run : Run) (message : String) : Response :=
  .error (reject run.admitted.api "outcome-unknown" message)

/-- The response where the task does not give one. -/
def acknowledgementUnavailable (run : Run) : Response :=
  run.outcomeUnknown
    "Acknowledgement unavailable; execution may have completed; do not replay mutations"

/-- What `run` returned. -/
def response (run : Run) : Option Response :=
  match run.caller with
  | .replied response => some response
  | .timedOut => some run.acknowledgementUnavailable
  | .waiting | .gone => none

/-- The first poll of the future. -/
def start (admitted : Admitted) : Run :=
  match admitted.policy with
  | none =>
    { admitted := admitted
      caller := .replied (.error (reject admitted.api "rejected-before-dispatch"
        "Execution requires a declared method policy"))
      task := .unspawned
      job := .none
      holder := .nobody
      aborting := false }
  | some _ =>
    { admitted := admitted
      caller := .waiting
      task := .spawned
      job := .none
      holder := .task
      aborting := false }

/-- The future ends, and aborts the task of a read. -/
def leave (run : Run) (caller : CallerPhase) : Run :=
  { run with caller := caller, aborting := decide (run.mode = some .read) }

/-- The task ends, and drops what it has. -/
def endTask (run : Run) (task : TaskPhase) : Run :=
  { run with task := task, holder := if run.holder = .task then .nobody else run.holder }

/-- The job ends, and drops what it has. -/
def endJob (run : Run) (job : JobPhase) : Run :=
  { run with job := job, holder := if run.holder = .job then .nobody else run.holder }

/-- What a step does. `released` says whether the `Admitted` has been dropped completely. -/
def step (run : Run) (released : Bool) : RunStep → Option Run
  | .poll =>
    match run.task with
    | .spawned => some { run with task := .handling }
    | _ => none
  | .finish value =>
    match run.task with
    | .handling =>
      some { run with
        task := .encoding
        job := .queued value
        holder := if run.holder = .task then .job else run.holder }
    | _ => none
  | .panic =>
    match run.task with
    | .handling => some (run.endTask .panicked)
    | _ => none
  | .abort =>
    match run.aborting, run.task with
    -- Wherever the task is dropped, the job goes on.
    | true, .spawned | true, .handling => some (run.endTask .handlerDropped)
    | true, .encoding => some (run.endTask .detached)
    | _, _ => none
  | .encode =>
    match run.job with
    | .queued value => some { run with job := .running value }
    | _ => none
  | .encoded =>
    match run.job with
    | .running value => some (run.endJob (.encoded value))
    | _ => none
  | .encoderPanic =>
    match run.job with
    | .running value => some (run.endJob (.panicked value))
    | _ => none
  | .join =>
    match released, run.task, run.job with
    | true, .encoding, .encoded value =>
      some { run with task := .returned (run.admitted.encode value) }
    | true, .encoding, .panicked _ =>
      some { run with
        task := .returned (run.outcomeUnknown
          "Result encoding failed; execution may have completed; do not replay mutations") }
    | _, _, _ => none
  | .reply =>
    match released, run.caller, run.task with
    | true, .waiting, .returned response => some (run.leave (.replied response))
    | true, .waiting, .panicked | true, .waiting, .handlerDropped | true, .waiting, .detached =>
      some (run.leave (.replied run.acknowledgementUnavailable))
    | _, _, _ => none
  | .deadline =>
    -- The timeout polls the task first, so a task that is over wins against the deadline.
    match run.caller, run.task.isOver && released with
    | .waiting, false => some (run.leave .timedOut)
    | _, _ => none
  | .dropCaller =>
    match run.caller with
    | .waiting => some (run.leave .gone)
    | _ => none

end Run

/-- A boundary with all its requests and the calls of `run` on what it admitted. -/
structure Executions where
  /-- The boundary and the requests. -/
  admissions : Admissions
  /-- The call of `run` on each request. -/
  runs : ℕ → Option Run

namespace Executions

/-- Whether the `Admitted` of a request has been dropped completely. -/
def released (s : Executions) (i : ℕ) : Bool :=
  match s.admissions.requests[i]? with
  | some ⟨_, .dropped⟩ => true
  | _ => false

/-- Whether the `Admitted` of a request can be dropped: nobody called `run` on it, or nobody has it
any more. -/
def mayDrop (s : Executions) (i : ℕ) : Bool :=
  (s.runs i).all fun run => run.holder = .nobody

/-- Whether the boundary can take this step. -/
def mayTake (s : Executions) : AdmissionStep → Bool
  | .dropQuota i | .dropPermit i => s.mayDrop i
  | .request _ | .takeQuota _ => true

end Executions

/-- What can happen next. -/
inductive ExecutionStep where
  /-- At the boundary. -/
  | admission (l : AdmissionStep)
  /-- `run` is called on an admitted request, and polled. -/
  | start (i : ℕ)
  /-- In the call of `run` on a request. -/
  | run (i : ℕ) (l : RunStep)

/-- One boundary with all its requests and their runs. -/
def execution (limits : Limits) : Machine Executions ExecutionStep where
  init := ⟨(admission limits).init, fun _ => none⟩
  step s
    | .admission l =>
      if s.mayTake l then
        ((admission limits).step s.admissions l).map fun admissions =>
          { s with admissions := admissions }
      else none
    | .start i =>
      match s.admissions.requests[i]?, s.runs i with
      | some ⟨_, .live admitted⟩, none =>
        some { s with runs := Function.update s.runs i (some (Run.start admitted)) }
      | _, _ => none
    | .run i l =>
      (s.runs i).bind fun run =>
        (run.step (s.released i) l).map fun run =>
          { s with runs := Function.update s.runs i (some run) }

/-! ## One call of `run` -/

namespace Run

variable {run run' : Run}

/-- The `Admitted` is with the handler, then with the job, and nowhere else. -/
structure Placed (run : Run) : Prop where
  /-- The task has it as long as there is a handler. -/
  alive : run.task.hasHandler = true → run.holder = .task ∧ run.job = .none
  /-- The job has it as long as there is a value to encode. -/
  pending : run.job.isPending = true → run.holder = .job
  /-- Nobody has it otherwise. -/
  idle : run.task.hasHandler = false → run.job.isPending = false → run.holder = .nobody

/-- A response leaves the outcome open, or is the encoded value of the handler. -/
def Truthful (run : Run) (response : Response) : Prop :=
  (∃ message, response = run.outcomeUnknown message) ∨
    ∃ value, run.job = .encoded value ∧ response = run.admitted.encode value

/-- What is returned is true, and only what may be aborted is aborted. -/
structure Answered (run : Run) : Prop where
  /-- Only a read is aborted, and not before its future is done with it. -/
  aborting : run.aborting = true →
    run.mode = some .read ∧ (run.caller.hasLeft = true ∨ run.task.isOver = true)
  /-- A handler is dropped for a read whose future was given up. -/
  dropped : run.task = .handlerDropped → run.mode = some .read ∧ run.caller.hasLeft = true
  /-- What the task returned is true. -/
  returned : ∀ response, run.task = .returned response → run.Truthful response
  /-- What the future returned is true. -/
  replied : ∀ response, run.caller = .replied response → run.Truthful response

/-- A first poll under a policy. -/
theorem placed_start (admitted : Admitted) : (start admitted).Placed := by
  unfold start
  cases admitted.policy with
  | none => exact ⟨(fun h => by cases h), (fun h => by cases h), fun _ _ => rfl⟩
  | some policy => exact ⟨fun _ => ⟨rfl, rfl⟩, (fun h => by cases h), fun h => by cases h⟩

/-- A first poll under a policy. -/
theorem answered_start {admitted : Admitted} {policy : MethodPolicy}
    (h : admitted.policy = some policy) : (start admitted).Answered := by
  unfold start
  rw [h]
  exact ⟨(fun h => by cases h), (fun h => by cases h), (fun _ h => by cases h),
    fun _ h => by cases h⟩

/-- What a step can do. -/
theorem step_cases {P : Run → Prop} {released : Bool} {l : RunStep}
    (hstep : run.step released l = some run')
    (hpoll : run.task = .spawned → P { run with task := .handling })
    (hfinish : ∀ value, run.task = .handling → P { run with
      task := .encoding
      job := .queued value
      holder := if run.holder = .task then .job else run.holder })
    (hpanic : run.task = .handling → P (run.endTask .panicked))
    (habort : run.aborting = true → run.task.hasHandler = true → P (run.endTask .handlerDropped))
    (hdetach : run.aborting = true → run.task = .encoding → P (run.endTask .detached))
    (hencode : ∀ value, run.job = .queued value → P { run with job := .running value })
    (hend : ∀ value job, run.job = .running value → job = .encoded value ∨ job = .panicked value →
      P (run.endJob job))
    (hjoin : ∀ response, run.task = .encoding → run.Truthful response →
      P { run with task := .returned response })
    (hleave : ∀ caller, run.caller = .waiting →
      ((caller = .timedOut ∨ caller = .gone) ∨
        run.task.isOver = true ∧ ∃ response, caller = .replied response ∧
          (run.task = .returned response ∨ response = run.acknowledgementUnavailable)) →
      P (run.leave caller)) : P run' := by
  -- Every branch of the step ends with the state in an option.
  have hsome : ∀ {x : Run}, some x = some run' → P x → P run' := fun h hx =>
    Option.some.inj h ▸ hx
  cases l with
  | poll =>
    simp only [step] at hstep
    split at hstep
    · exact hsome hstep (hpoll ‹_›)
    · cases hstep
  | finish value =>
    simp only [step] at hstep
    split at hstep
    · exact hsome hstep (hfinish value ‹_›)
    · cases hstep
  | panic =>
    simp only [step] at hstep
    split at hstep
    · exact hsome hstep (hpanic ‹_›)
    · cases hstep
  -- The abort finds the task before its first poll, in its handler, or waiting for the encoder:
  -- the first two drop the handler, the last one leaves the encoding to itself.
  | abort =>
    simp only [step] at hstep
    split at hstep
    · rename_i haborting htask
      exact hsome hstep (habort haborting (congrArg TaskPhase.hasHandler htask))
    · rename_i haborting htask
      exact hsome hstep (habort haborting (congrArg TaskPhase.hasHandler htask))
    · exact hsome hstep (hdetach ‹_› ‹_›)
    · cases hstep
  | encode =>
    simp only [step] at hstep
    split at hstep
    · exact hsome hstep (hencode _ ‹_›)
    · cases hstep
  | encoded =>
    simp only [step] at hstep
    split at hstep
    · exact hsome hstep (hend _ _ ‹_› (.inl rfl))
    · cases hstep
  | encoderPanic =>
    simp only [step] at hstep
    split at hstep
    · exact hsome hstep (hend _ _ ‹_› (.inr rfl))
    · cases hstep
  -- What the join gives is true by the state of the job: the line it encoded, or the report that
  -- the outcome is not known.
  | join =>
    simp only [step] at hstep
    split at hstep
    · rename_i htask hjob
      exact hsome hstep (hjoin _ htask (.inr ⟨_, hjob, rfl⟩))
    · exact hsome hstep (hjoin _ ‹_› (.inl ⟨_, rfl⟩))
    · cases hstep
  -- The caller leaves with what the task returned; for a task that was dropped or that panicked,
  -- with the report that the acknowledgement is not available.
  | reply =>
    simp only [step] at hstep
    split at hstep
    · rename_i hcaller htask
      exact hsome hstep (hleave _ hcaller
        (.inr ⟨congrArg TaskPhase.isOver htask, _, rfl, .inl htask⟩))
    all_goals first | (cases hstep; done) | skip
    all_goals
      rename_i hcaller htask
      exact hsome hstep (hleave _ hcaller
        (.inr ⟨congrArg TaskPhase.isOver htask, _, rfl, .inr rfl⟩))
  | deadline =>
    simp only [step] at hstep
    split at hstep
    · exact hsome hstep (hleave _ ‹_› (.inl (.inl rfl)))
    · cases hstep
  | dropCaller =>
    simp only [step] at hstep
    split at hstep
    · exact hsome hstep (hleave _ ‹_› (.inl (.inr rfl)))
    · cases hstep

/-- The call is on the same `Admitted` all along. -/
theorem step_admitted {released : Bool} {l : RunStep} (hstep : run.step released l = some run') :
    run'.admitted = run.admitted := by
  apply step_cases hstep <;> intros <;> rfl

/-- The `Admitted` is not taken up again. -/
theorem step_holder {released : Bool} {l : RunStep} (hstep : run.step released l = some run')
    (hholder : run.holder = .nobody) : run'.holder = .nobody := by
  apply step_cases hstep <;> intros <;> simp [endTask, endJob, leave, hholder]

/-- With the handler, the task drops the `Admitted`. -/
theorem Placed.endTask (h : run.Placed) (halive : run.task.hasHandler = true) {task : TaskPhase}
    (hover : (run.endTask task).task.hasHandler = false) : (run.endTask task).Placed := by
  obtain ⟨hholder, hjob⟩ := h.alive halive
  have hnobody : (run.endTask task).holder = .nobody := if_pos hholder
  have hidle : (run.endTask task).job.isPending = false := congrArg JobPhase.isPending hjob
  refine ⟨fun hnot => ?_, fun hnot => ?_, fun _ _ => hnobody⟩
  · rw [hover] at hnot
    cases hnot
  · rw [hidle] at hnot
    cases hnot

/-- Every step keeps the place of the `Admitted`. -/
theorem Placed.step (h : run.Placed) {released : Bool} {l : RunStep}
    (hstep : run.step released l = some run') : run'.Placed := by
  apply step_cases hstep
  · intro htask
    obtain ⟨hholder, hjob⟩ := h.alive (congrArg TaskPhase.hasHandler htask)
    exact ⟨fun _ => ⟨hholder, hjob⟩, h.pending, fun hnot => by cases hnot⟩
  -- The `Admitted` moves from the task to the job.
  · intro value htask
    have hholder := (h.alive (congrArg TaskPhase.hasHandler htask)).1
    exact ⟨(fun hnot => by cases hnot), fun _ => if_pos hholder, fun _ hnot => by cases hnot⟩
  · intro htask
    exact h.endTask (congrArg TaskPhase.hasHandler htask) rfl
  · intro _ halive
    exact h.endTask halive rfl
  · intro _ htask
    have hdone : run.task.hasHandler = false := congrArg TaskPhase.hasHandler htask
    refine ⟨(fun hnot => by cases hnot), fun hpending => ?_, fun _ hidle => ?_⟩
    -- The task waits without the `Admitted`, so its end changes nothing of it.
    · have hholder : run.holder = .job := h.pending hpending
      show (if run.holder = .task then .nobody else run.holder) = Holder.job
      rw [hholder]
      rfl
    · have hholder : run.holder = .nobody := h.idle hdone hidle
      show (if run.holder = .task then .nobody else run.holder) = Holder.nobody
      rw [hholder]
      rfl
  · intro value hjob
    have hholder : run.holder = .job := h.pending (congrArg JobPhase.isPending hjob)
    refine ⟨fun halive => ?_, fun _ => hholder, fun _ hnot => by cases hnot⟩
    have hnone : run.job = .none := (h.alive halive).2
    rw [hjob] at hnone
    cases hnone
  · intro value job hjob hend
    have hholder : run.holder = .job := h.pending (congrArg JobPhase.isPending hjob)
    refine ⟨fun halive => ?_, fun hnot => ?_, fun _ _ => if_pos hholder⟩
    · have hnone : run.job = .none := (h.alive halive).2
      rw [hjob] at hnone
      cases hnone
    · rcases hend with rfl | rfl <;> cases hnot
  · intro response htask _
    have hdone : run.task.hasHandler = false := congrArg TaskPhase.hasHandler htask
    exact ⟨(fun hnot => by cases hnot), h.pending, fun _ hidle => h.idle hdone hidle⟩
  · intro caller _ _
    exact ⟨h.alive, h.pending, h.idle⟩

/-- As long as nothing is encoded, a true response leaves the outcome open. -/
theorem Truthful.of_job {response : Response} (h : run.Truthful response)
    (hjob : ∀ value, run.job ≠ .encoded value) (hsame : run'.admitted = run.admitted) :
    run'.Truthful response := by
  rcases h with ⟨message, rfl⟩ | ⟨value, hencoded, -⟩
  · exact .inl ⟨message, by unfold outcomeUnknown; rw [hsame]⟩
  · exact absurd hencoded (hjob value)

/-- Every step keeps the answers true. -/
theorem Answered.step (h : run.Answered) (hplaced : run.Placed) {released : Bool} {l : RunStep}
    (hstep : run.step released l = some run') : run'.Answered := by
  -- A task that goes on is aborted for a future that was given up.
  have hleft : run.task.isOver = false → run.aborting = true →
      run.mode = some .read ∧ run.caller.hasLeft = true := by
    intro hgoes haborting
    obtain ⟨hmode, hcaller | hover⟩ := h.aborting haborting
    · exact ⟨hmode, hcaller⟩
    · rw [hgoes] at hover
      cases hover
  apply step_cases hstep
  · intro htask
    have hcaller := hleft (congrArg TaskPhase.isOver htask)
    exact ⟨fun haborting => ⟨(hcaller haborting).1, .inl (hcaller haborting).2⟩,
      (fun hnot => by cases hnot), (fun _ hnot => by cases hnot), h.replied⟩
  · intro value htask
    have hcaller := hleft (congrArg TaskPhase.isOver htask)
    -- Before the handler returns there is no job, so no response stands for an encoded value.
    have hjob : run.job = .none := (hplaced.alive (congrArg TaskPhase.hasHandler htask)).2
    refine ⟨fun haborting => ⟨(hcaller haborting).1, .inl (hcaller haborting).2⟩,
      (fun hnot => by cases hnot), (fun _ hnot => by cases hnot), fun response hcaller => ?_⟩
    exact (h.replied response hcaller).of_job (by simp [hjob]) rfl
  · intro htask
    exact ⟨fun haborting => ⟨(h.aborting haborting).1, .inr rfl⟩, (fun hnot => by cases hnot),
      (fun _ hnot => by cases hnot), h.replied⟩
  -- A handler is dropped while its task goes on, so it is for a future that was given up.
  · intro haborting halive
    have hgoes : run.task.isOver = false := by
      cases htask : run.task <;> rw [htask] at halive <;> first | rfl | cases halive
    exact ⟨fun _ => ⟨(h.aborting haborting).1, .inr rfl⟩, fun _ => hleft hgoes haborting,
      (fun _ hnot => by cases hnot), h.replied⟩
  · intro haborting htask
    exact ⟨fun _ => ⟨(h.aborting haborting).1, .inr rfl⟩, (fun hnot => by cases hnot),
      (fun _ hnot => by cases hnot), h.replied⟩
  · intro value hjob
    refine ⟨h.aborting, h.dropped, fun response htask => ?_, fun response hcaller => ?_⟩
    · exact (h.returned response htask).of_job (by simp [hjob]) rfl
    · exact (h.replied response hcaller).of_job (by simp [hjob]) rfl
  · intro value job hjob _
    refine ⟨h.aborting, h.dropped, fun response htask => ?_, fun response hcaller => ?_⟩
    · exact (h.returned response htask).of_job (by simp [hjob]) rfl
    · exact (h.replied response hcaller).of_job (by simp [hjob]) rfl
  · intro response htask htrue
    refine ⟨fun haborting => ⟨(h.aborting haborting).1, .inr rfl⟩, (fun hnot => by cases hnot),
      fun response' htask' => ?_, h.replied⟩
    obtain rfl : response = response' := TaskPhase.returned.inj htask'
    exact htrue
  · intro caller hcaller hwhy
    refine ⟨fun haborting => ⟨of_decide_eq_true haborting, ?_⟩, fun hdropped => ?_, h.returned,
      fun response hreplied => ?_⟩
    · rcases hwhy with (rfl | rfl) | ⟨hover, -⟩
      · exact .inl rfl
      · exact .inl rfl
      · exact .inr hover
    -- The future would have been given up already.
    · have hcallerLeft : run.caller.hasLeft = true := (h.dropped hdropped).2
      rw [hcaller] at hcallerLeft
      cases hcallerLeft
    · have hreplied : caller = .replied response := hreplied
      rcases hwhy with (rfl | rfl) | ⟨-, response', rfl, htask | rfl⟩
      · cases hreplied
      · cases hreplied
      · obtain rfl := CallerPhase.replied.inj hreplied
        exact h.returned _ htask
      · obtain rfl := CallerPhase.replied.inj hreplied
        exact .inl ⟨_, rfl⟩

end Run

/-! ## All calls of `run` -/

/-- A call of `run` on a request, with the request. -/
structure Linked (s : Executions) (i : ℕ) (run : Run) : Prop where
  /-- The `Admitted` is in its place. -/
  placed : run.Placed
  /-- Under a policy, the answers are true. -/
  answered : run.admitted.policy.isSome = true → run.Answered
  /-- The request was admitted, and is so as long as somebody has the `Admitted`. -/
  entry : ∃ e, s.admissions.requests[i]? = some e ∧ e.phase.wasAdmitted = true ∧
    run.admitted.policy = e.request.policy ∧ (run.holder ≠ .nobody → e.phase = .live run.admitted)

/-- The invariant of every run. -/
structure Executing (limits : Limits) (s : Executions) : Prop where
  /-- The boundary takes only steps of its own. -/
  admissions : (admission limits).Reachable s.admissions
  /-- Every call is linked with its request. -/
  runs : ∀ i run, s.runs i = some run → Linked s i run

namespace Executing

variable {limits : Limits} {s t : Executions}

/-- At the start. -/
theorem init : Executing limits (execution limits).init :=
  ⟨(admission limits).reachable_init, fun _ _ h => by cases h⟩

/-- A step at the boundary. -/
theorem admission (h : Executing limits s) {l : AdmissionStep} {a : Admissions}
    (hmay : s.mayTake l = true) (hstep : (Service.admission limits).step s.admissions l = some a) :
    Executing limits { s with admissions := a } := by
  refine ⟨h.admissions.step hstep, fun i run hrun => ?_⟩
  have hlinked := h.runs i run hrun
  obtain ⟨e, he, hadmitted, hpolicy, hlive⟩ := hlinked.entry
  refine ⟨hlinked.placed, hlinked.answered, ?_⟩
  rcases Admissions.admitted_step_cases he hadmitted hstep with
    ⟨-, hsame⟩ | ⟨a', rfl, -, hgone⟩ | ⟨a', rfl, hdropping, hgone⟩
  · exact ⟨e, hsame, hadmitted, hpolicy, hlive⟩
  -- The place is dropped only when nobody has the `Admitted` any more.
  · refine ⟨_, hgone, rfl, hpolicy, fun hholder => ?_⟩
    have hall : (s.runs i).all (fun run => decide (run.holder = .nobody)) = true := hmay
    rw [hrun] at hall
    exact absurd (of_decide_eq_true hall) hholder
  · refine ⟨_, hgone, rfl, hpolicy, fun hholder => ?_⟩
    rw [hlive hholder] at hdropping
    cases hdropping

/-- One call of `run` changes. -/
theorem update (h : Executing limits s) {i : ℕ} {run : Run} (hlinked : Linked s i run) :
    Executing limits { s with runs := Function.update s.runs i (some run) } := by
  refine ⟨h.admissions, fun k run' hrun => ?_⟩
  have hrun : Function.update s.runs i (some run) k = some run' := hrun
  by_cases hki : k = i
  · subst hki
    rw [Function.update_self] at hrun
    obtain rfl := Option.some.inj hrun
    exact ⟨hlinked.placed, hlinked.answered, hlinked.entry⟩
  · rw [Function.update_of_ne hki] at hrun
    have hother := h.runs k run' hrun
    exact ⟨hother.placed, hother.answered, hother.entry⟩

/-- `run` is called on what was admitted. -/
theorem linked_start (h : Executing limits s) {i : ℕ} {r : Request} {admitted : Admitted}
    (hi : s.admissions.requests[i]? = some ⟨r, .live admitted⟩) :
    Linked s i (Run.start admitted) := by
  have hadmitted : (Run.start admitted).admitted = admitted := by
    unfold Run.start
    cases admitted.policy <;> rfl
  have haccounted : Accounted limits s.admissions := accounted_of_reachable h.admissions
  have hpolicy : admitted.policy = r.policy :=
    (haccounted.entries _ (List.mem_of_getElem? hi)).2.2
  refine ⟨Run.placed_start admitted, fun hsome => ?_, _, hi, rfl, ?_, fun _ => ?_⟩
  · rw [hadmitted] at hsome
    obtain ⟨policy, hpolicy⟩ := Option.isSome_iff_exists.1 hsome
    exact Run.answered_start hpolicy
  · rw [hadmitted]
    exact hpolicy
  · rw [hadmitted]

/-- A call of `run` goes on. -/
theorem linked_step (h : Executing limits s) {i : ℕ} {run run' : Run} {released : Bool}
    {l : RunStep} (hi : s.runs i = some run) (hstep : run.step released l = some run') :
    Linked s i run' := by
  have hlinked := h.runs i run hi
  have hadmitted : run'.admitted = run.admitted := Run.step_admitted hstep
  obtain ⟨e, he, hwas, hpolicy, hlive⟩ := hlinked.entry
  refine ⟨hlinked.placed.step hstep, fun hsome => ?_, e, he, hwas, ?_, fun hholder => ?_⟩
  · rw [hadmitted] at hsome
    exact (hlinked.answered hsome).step hlinked.placed hstep
  · rw [hadmitted]
    exact hpolicy
  · rw [hadmitted]
    exact hlive fun hnobody => hholder (Run.step_holder hstep hnobody)

/-- Every step keeps the invariant. -/
theorem step (h : Executing limits s) {l : ExecutionStep}
    (hstep : (execution limits).step s l = some t) : Executing limits t := by
  cases l with
  | admission l =>
    obtain ⟨hmay, hmap⟩ := Option.ite_none_right_eq_some.1 hstep
    obtain ⟨a, ha, rfl⟩ := Option.map_eq_some_iff.1 hmap
    exact h.admission hmay ha
  | start i =>
    simp only [execution] at hstep
    split at hstep
    · rename_i r admitted hi hnone
      obtain rfl := Option.some.inj hstep
      exact h.update (h.linked_start hi)
    · cases hstep
  | run i l =>
    obtain ⟨run, hi, hmap⟩ := Option.bind_eq_some_iff.1 hstep
    obtain ⟨run', hrun, rfl⟩ := Option.map_eq_some_iff.1 hmap
    exact h.update (h.linked_step hi hrun)

end Executing

/-- The invariant holds in every run. -/
theorem executing_of_reachable {limits : Limits} {s : Executions}
    (h : (execution limits).Reachable s) : Executing limits s :=
  (execution limits).invariant_of_reachable Executing.init (fun _ _ _ hs hstep => hs.step hstep) h

/-! ## Capacity follows the work -/

/-- The number of places that a request has dropped. -/
def Phase.quotaDrops : Phase → ℕ
  | dropping _ | dropped => 1
  | _ => 0

/-- The number of permits that an admitted request has dropped. -/
def Phase.permitDrops : Phase → ℕ
  | dropped => 1
  | _ => 0

namespace ExecutionStep

/-- Whether the request drops its place. -/
def dropsQuota (i : ℕ) : ExecutionStep → Bool
  | admission (.dropQuota j) => decide (j = i)
  | _ => false

/-- Whether the request drops its permit. -/
def dropsPermit (i : ℕ) : ExecutionStep → Bool
  | admission (.dropPermit j) => decide (j = i)
  | _ => false

end ExecutionStep

/-- The request was admitted, and `run` was called on it. -/
def Started (i : ℕ) (r : Request) (s : Executions) : Prop :=
  ∃ phase run, s.admissions.requests[i]? = some ⟨r, phase⟩ ∧ phase.wasAdmitted = true ∧
    s.runs i = some run

/-- A count of the request in its phase. -/
def countAt (f : Phase → ℕ) (i : ℕ) (s : Executions) : ℕ :=
  s.admissions.requests[i]?.elim 0 fun e => f e.phase

/-- What a step does to a request on which `run` was called. -/
theorem started_step {limits : Limits} {i : ℕ} {r : Request} {s t : Executions}
    {l : ExecutionStep} (h : Started i r s) (hstep : (execution limits).step s l = some t) :
    Started i r t ∧
      countAt Phase.quotaDrops i t = countAt Phase.quotaDrops i s + (l.dropsQuota i).toNat ∧
      countAt Phase.permitDrops i t = countAt Phase.permitDrops i s + (l.dropsPermit i).toNat := by
  obtain ⟨phase, run, hi, hadmitted, hrun⟩ := h
  cases l with
  | admission l =>
    obtain ⟨-, hmap⟩ := Option.ite_none_right_eq_some.1 hstep
    obtain ⟨a, ha, rfl⟩ := Option.map_eq_some_iff.1 hmap
    unfold countAt
    dsimp only
    rcases Admissions.admitted_step_cases hi hadmitted ha with
      ⟨⟨l', hl⟩, hsame⟩ | ⟨a', rfl, hphase, hgone⟩ | ⟨a', rfl, hphase, hgone⟩
    · have hother : (ExecutionStep.admission l).dropsQuota i = false ∧
          (ExecutionStep.admission l).dropsPermit i = false := by
        cases l with
        | request q => exact ⟨rfl, rfl⟩
        | takeQuota j => exact ⟨rfl, rfl⟩
        | dropQuota j =>
          exact ⟨decide_eq_false (Option.ite_none_left_eq_some.1 hl).1, rfl⟩
        | dropPermit j =>
          exact ⟨rfl, decide_eq_false (Option.ite_none_left_eq_some.1 hl).1⟩
      rw [hsame, hi, hother.1, hother.2]
      exact ⟨⟨phase, run, hsame, hadmitted, hrun⟩, rfl, rfl⟩
    · dsimp only at hphase
      subst hphase
      rw [hgone, hi]
      exact ⟨⟨_, run, hgone, rfl, hrun⟩, by simp [Phase.quotaDrops, ExecutionStep.dropsQuota],
        by simp [Phase.permitDrops, ExecutionStep.dropsPermit]⟩
    · dsimp only at hphase
      subst hphase
      rw [hgone, hi]
      exact ⟨⟨_, run, hgone, rfl, hrun⟩, by simp [Phase.quotaDrops, ExecutionStep.dropsQuota],
        by simp [Phase.permitDrops, ExecutionStep.dropsPermit]⟩
  | start j =>
    simp only [execution] at hstep
    split at hstep
    · rename_i hj hnone
      obtain rfl := Option.some.inj hstep
      -- `run` consumes the `Admitted`, so it is called once.
      have hne : i ≠ j := by
        rintro rfl
        rw [hrun] at hnone
        cases hnone
      exact ⟨⟨phase, run, hi, hadmitted, (Function.update_of_ne hne _ _).trans hrun⟩, rfl, rfl⟩
    · cases hstep
  | run j l =>
    obtain ⟨run₀, hj, hmap⟩ := Option.bind_eq_some_iff.1 hstep
    obtain ⟨run', -, rfl⟩ := Option.map_eq_some_iff.1 hmap
    by_cases hij : i = j
    · subst hij
      exact ⟨⟨phase, run', hi, hadmitted, Function.update_self _ _ _⟩, rfl, rfl⟩
    · exact ⟨⟨phase, run, hi, hadmitted, (Function.update_of_ne hij _ _).trans hrun⟩, rfl, rfl⟩

/-- `run` is called on a live request, of which nothing was dropped. -/
theorem started_of_start {limits : Limits} {i : ℕ} {r : Request} {phase : Phase} {s t : Executions}
    (hrequest : s.admissions.requests[i]? = some ⟨r, phase⟩)
    (hstart : (execution limits).step s (.start i) = some t) :
    Started i r t ∧ countAt Phase.quotaDrops i t = 0 ∧ countAt Phase.permitDrops i t = 0 := by
  simp only [execution] at hstart
  split at hstart
  · rename_i r' admitted hi hnone
    obtain rfl := Option.some.inj hstart
    rw [hrequest] at hi
    obtain ⟨rfl, rfl⟩ := Entry.mk.inj (Option.some.inj hi)
    refine ⟨⟨_, _, hrequest, rfl, Function.update_self _ _ _⟩, ?_, ?_⟩
    · unfold countAt
      rw [hrequest]
      rfl
    · unfold countAt
      rw [hrequest]
      rfl
  · cases hstart

/-- The drops of a request after `run` was called on it, in a run. -/
theorem countP_drops {limits : Limits} {i : ℕ} {r : Request} {s t : Executions}
    {labels : List ExecutionStep} (h : Started i r s)
    (hrun : (execution limits).run s labels = some t) :
    countAt Phase.quotaDrops i t =
        countAt Phase.quotaDrops i s + labels.countP (ExecutionStep.dropsQuota i) ∧
      countAt Phase.permitDrops i t =
        countAt Phase.permitDrops i s + labels.countP (ExecutionStep.dropsPermit i) := by
  constructor
  · exact Machine.countP_of_run (P := Started i r)
      (fun _ _ _ hs hstep => ⟨(started_step hs hstep).1, (started_step hs hstep).2.1⟩) h hrun
  · exact Machine.countP_of_run (P := Started i r)
      (fun _ _ _ hs hstep => ⟨(started_step hs hstep).1, (started_step hs hstep).2.2⟩) h hrun

/-- A step that the boundary may take. -/
theorem step_admission {limits : Limits} {s : Executions} {l : AdmissionStep} {a : Admissions}
    (hmay : s.mayTake l = true) (hstep : (admission limits).step s.admissions l = some a) :
    (execution limits).step s (.admission l) = some { s with admissions := a } := by
  show (if s.mayTake l then ((admission limits).step s.admissions l).map _ else none) = _
  rw [if_pos hmay, hstep]
  rfl

/-- When nobody has the `Admitted` any more, it is dropped or its drop goes on. -/
theorem Linked.released {limits : Limits} {s : Executions} {i : ℕ} {run : Run} {e : Entry}
    (hrun : s.runs i = some run) (hi : s.admissions.requests[i]? = some e)
    (hadmitted : e.phase.wasAdmitted = true) (hholder : run.holder = .nobody) :
    e.phase = .dropped ∨
      ∃ l t, (l.dropsQuota i = true ∨ l.dropsPermit i = true) ∧
        (execution limits).step s l = some t := by
  have hmay : s.mayDrop i = true := by
    unfold Executions.mayDrop
    rw [hrun]
    exact decide_eq_true hholder
  obtain ⟨r, phase⟩ := e
  cases phase with
  | entered a => cases hadmitted
  | refused a response => cases hadmitted
  | rejected response => cases hadmitted
  | dropped => exact .inl rfl
  | live a =>
    have hstep : s.admissions.dropQuota i =
        some ⟨s.admissions.boundary.dropQuota a.quota,
          s.admissions.requests.set i ⟨r, .dropping a⟩⟩ := by
      unfold Admissions.dropQuota
      rw [hi]
    exact .inr ⟨.admission (.dropQuota i), _, .inl (decide_eq_true rfl),
      @step_admission limits s _ _ hmay hstep⟩
  | dropping a =>
    have hstep : s.admissions.dropPermit i = some
        ⟨s.admissions.boundary.dropPermit a.permit, s.admissions.requests.set i ⟨r, .dropped⟩⟩ := by
      unfold Admissions.dropPermit
      rw [hi]
    exact .inr ⟨.admission (.dropPermit i), _, .inr (decide_eq_true rfl),
      @step_admission limits s _ _ hmay hstep⟩

/-- A call of `run`, seen from a later moment: `phase` is where its request is, and `labels` are the
steps since it was started. -/
structure Followed (limits : Limits) (t : Executions) (i : ℕ) (phase : Phase) (run : Run)
    (labels : List ExecutionStep) : Prop where
  /-- The request has its permit and its place as long as there is a handler or an encoder. -/
  held : run.task.hasHandler = true ∨ run.job.isPending = true → phase = .live run.admitted
  /-- The place is dropped once. -/
  quotaDrops : labels.countP (ExecutionStep.dropsQuota i) = phase.quotaDrops
  /-- The permit is dropped once. -/
  permitDrops : labels.countP (ExecutionStep.dropsPermit i) = phase.permitDrops
  /-- Without handler and encoder, both are dropped, or the next one can be. -/
  released : run.task.hasHandler = false → run.job.isPending = false →
    phase = .dropped ∨ ∃ l u, (l.dropsQuota i = true ∨ l.dropsPermit i = true) ∧
      (execution limits).step t l = some u
  /-- Only the handler of a read is dropped, after its deadline or its caller. -/
  dropped : run.task = .handlerDropped →
    run.mode = some .read ∧ (run.caller = .timedOut ∨ run.caller = .gone)
  /-- What `run` returned leaves the outcome open, or is the encoded value of the handler. -/
  truthful : ∀ response, run.response = some response →
    (∃ message, response = run.outcomeUnknown message) ∨
      ∃ value, run.job = .encoded value ∧ response = run.admitted.encode value

/-- What `run` returned is true. -/
theorem Run.Answered.truthful {run : Run} (h : run.Answered) {response : Response}
    (hresponse : run.response = some response) : run.Truthful response := by
  unfold Run.response at hresponse
  cases hcaller : run.caller with
  | waiting =>
    rw [hcaller] at hresponse
    cases hresponse
  | gone =>
    rw [hcaller] at hresponse
    cases hresponse
  | timedOut =>
    rw [hcaller] at hresponse
    exact .inl ⟨_, (Option.some.inj hresponse).symm⟩
  | replied response' =>
    rw [hcaller] at hresponse
    obtain rfl := Option.some.inj hresponse
    exact h.replied _ hcaller

/-- The caller of a handler that is dropped has met its deadline, or was dropped. -/
theorem Run.Answered.left {run : Run} (h : run.Answered) (htask : run.task = .handlerDropped) :
    run.mode = some .read ∧ (run.caller = .timedOut ∨ run.caller = .gone) := by
  obtain ⟨hmode, hleft⟩ := h.dropped htask
  refine ⟨hmode, ?_⟩
  cases hcaller : run.caller with
  | timedOut => exact .inl rfl
  | gone => exact .inr rfl
  | waiting =>
    rw [hcaller] at hleft
    cases hleft
  | replied response =>
    rw [hcaller] at hleft
    cases hleft

/-- Whatever happens to a request that `call_policy` admitted once `run` was called on it, its
capacity follows its work. -/
theorem capacity_follows_work {limits : Limits} {before labels : List ExecutionStep}
    {s t : Executions} {i : ℕ} {owner : Option String} {method params : String}
    {policy : MethodPolicy} {phase₀ : Phase}
    (hbefore : (execution limits).run (execution limits).init before = some s)
    (hrequest : s.admissions.requests[i]? =
      some ⟨.callPolicy owner method params policy, phase₀⟩)
    (hafter : (execution limits).run s (.start i :: labels) = some t) :
    ∃ run phase, t.runs i = some run ∧
      t.admissions.requests[i]? = some ⟨.callPolicy owner method params policy, phase⟩ ∧
      run.mode = some policy.execution ∧ Exact limits t.admissions ∧
      Followed limits t i phase run labels := by
  obtain ⟨u, hstart, hrun⟩ := Machine.run_cons_eq_some _ |>.1 hafter
  -- The invariant of the whole run, and what is known of this request since its start.
  have hreachable : (execution limits).Reachable t :=
    ⟨before ++ .start i :: labels, Machine.run_append_eq_some _ |>.2 ⟨s, hbefore, hafter⟩⟩
  have hinv : Executing limits t := executing_of_reachable hreachable
  obtain ⟨hstarted, hquota₀, hpermit₀⟩ := started_of_start hrequest hstart
  obtain ⟨phase, run, hi, hadmitted, hcall⟩ : Started i _ t :=
    Machine.invariant_of_run (P := Started i (.callPolicy owner method params policy))
      (fun _ _ _ hs hstep => (started_step hs hstep).1) hstarted hrun
  -- The drops are counted: what is gone now was dropped since the start, once.
  obtain ⟨hquota, hpermit⟩ := countP_drops hstarted hrun
  have hlinked : Linked t i run := hinv.runs i run hcall
  obtain ⟨e, he, -, hpolicy, hlive⟩ := hlinked.entry
  rw [hi] at he
  obtain rfl := Option.some.inj he
  have hpolicy : run.admitted.policy = some policy := hpolicy
  have hanswered : run.Answered := hlinked.answered (by rw [hpolicy]; rfl)
  refine ⟨run, phase, hcall, hi, ?_, admission_exact hinv.admissions, ?_, ?_, ?_, ?_,
    fun htask => hanswered.left htask, fun response hresponse => hanswered.truthful hresponse⟩
  · unfold Run.mode
    rw [hpolicy]
    rfl
  -- While the handler or the encoder works, it has the `Admitted`, so nothing of it is dropped.
  · rintro (halive | hpending)
    · refine hlive ?_
      rw [(hlinked.placed.alive halive).1]
      decide
    · refine hlive ?_
      rw [hlinked.placed.pending hpending]
      decide
  · unfold countAt at hquota hquota₀
    rw [hquota₀, hi] at hquota
    simpa using hquota.symm
  · unfold countAt at hpermit hpermit₀
    rw [hpermit₀, hi] at hpermit
    simpa using hpermit.symm
  · intro hdone hidle
    exact Linked.released hcall hi hadmitted (hlinked.placed.idle hdone hidle)

/-- A request with an effect. -/
def mutation : Request :=
  .callPolicy (some ":1.1") "mutate" "{}" ⟨.effect, 8, 128, 2, 1⟩

/-- Its admission. -/
def mutationAdmitted : List ExecutionStep :=
  [.admission (.request mutation), .admission (.takeQuota 0)]

/-- Its handler goes on after the deadline of its caller. -/
def mutationLate : List ExecutionStep :=
  [.run 0 .poll, .run 0 .deadline, .run 0 (.finish ⟨[[116, 114, 117, 101]], true⟩), .run 0 .encode,
    .run 0 .encoded, .admission (.dropQuota 0), .admission (.dropPermit 0), .run 0 .join]

/-- The capacity of an effect that outlives its caller is released in the end. -/
theorem capacity_follows_work_late :
    ∃ s t run phase,
      (execution twoCalls).run (execution twoCalls).init mutationAdmitted = some s ∧
      (execution twoCalls).run s (.start 0 :: mutationLate) = some t ∧
      t.runs 0 = some run ∧ t.admissions.requests[0]? = some ⟨mutation, phase⟩ ∧
      run.mode = some .effect ∧ Exact twoCalls t.admissions ∧
      Followed twoCalls t 0 phase run mutationLate := by
  obtain ⟨s, hbefore⟩ : ∃ s,
    (execution twoCalls).run (execution twoCalls).init mutationAdmitted = some s := ⟨_, rfl⟩
  obtain ⟨phase₀, hrequest⟩ : ∃ phase₀, s.admissions.requests[0]? = some ⟨mutation, phase₀⟩ := by
    obtain rfl := Option.some.inj hbefore
    exact ⟨_, rfl⟩
  obtain ⟨t, hafter⟩ : ∃ t,
      (execution twoCalls).run s (.start 0 :: mutationLate) = some t := by
    obtain rfl := Option.some.inj hbefore
    exact ⟨_, rfl⟩
  obtain ⟨run, phase, hfollowed⟩ := capacity_follows_work hbefore hrequest hafter
  exact ⟨s, t, run, phase, hbefore, hafter, hfollowed⟩

end DaemonFramework.Service
