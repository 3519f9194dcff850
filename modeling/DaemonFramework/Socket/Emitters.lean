import DaemonFramework.Machine
import DaemonFramework.Output.Conservation

/-!
# The events of a session

The workers that emit events on a `SocketSession` of `shelllist-daemon-tokio/src/socket.rs`, the two
bounded queues of its `OutputHandle`, and the output actor that takes from them, in any order of
their steps. A step is what one of them does between two points where another can run. Anybody may
close the session at any time, the writer may fail at any time, and the actor is aborted once the
session is closed.

An event that `try_emit` cannot queue is lost, and closes the session. Until the close, other
workers go on, and their later events may still be written: what has no gap are the events of each
worker. For a subscription with one worker, these are the event lines of its id: they are a prefix
of what the worker has emitted, and as long as the session is open, all of it but what still waits
(`session_events_gapless`).
-/

namespace DaemonFramework.Socket.Emitters

open Output

/-! ## The session -/

/-- An event in the queue, with the worker that emitted it. -/
structure Sent where
  /-- The worker. -/
  worker : ℕ
  /-- The stream of the event. -/
  stream : String
  /-- The event itself. -/
  event : Value

/-- The command in the queue. -/
def Sent.command (sent : Sent) : OutputCommand := .event sent.stream sent.event

/-- Where a worker is. -/
inductive Phase where
  /-- It emits nothing. -/
  | idle
  /-- In `emit`, it waits for room in the queue. -/
  | waiting (stream : String) (event : Value)
  /-- In `try_emit`, it has found the session open. -/
  | trying (stream : String) (event : Value)
  /-- In `try_emit`, it closes the session next. -/
  | failing

/-- A worker that has the session. -/
structure Worker where
  /-- Where it is. -/
  phase : Phase
  /-- The events that it has emitted, whether this succeeded or not, in order. -/
  emitted : List (String × Value)

/-- An event has been emitted. -/
def Worker.done (worker : Worker) (stream : String) (event : Value) (phase : Phase) : Worker :=
  ⟨phase, worker.emitted ++ [(stream, event)]⟩

/-- What a worker does. -/
inductive Action where
  /-- It calls `emit`. -/
  | emit (stream : String) (event : Value)
  /-- The queue takes the event of its `emit`. -/
  | enqueue
  /-- Its `emit` finds that the actor is gone. -/
  | refuse
  /-- The future of its `emit` is dropped. -/
  | abandon
  /-- It calls `try_emit`. -/
  | tryEmit (stream : String) (event : Value)
  /-- `try_send`, and whether it succeeds. -/
  | trySend (admitted : Bool)
  /-- It closes the session behind a `try_send` that failed. -/
  | close

/-- The session and its output actor. -/
structure Session where
  /-- The session is closed. -/
  closed : Bool
  /-- The actor has ended. -/
  ended : Bool
  /-- The event queue. -/
  queue : List Sent
  /-- The priority queue. -/
  priority : List OutputCommand
  /-- The state of the actor. -/
  output : OutputState
  /-- The lines that were written completely. -/
  lines : List Value
  /-- The workers, in the order in which they got the session. -/
  workers : List Worker

/-- What happens. -/
inductive Label where
  /-- A worker gets the session. -/
  | join
  /-- A worker does something. -/
  | act (k : ℕ) (action : Action)
  /-- A command gets into the priority queue. -/
  | send (c : OutputCommand)
  /-- The actor takes a command. It is aborted or its writer fails after so many lines, if at all. -/
  | take (written : Option ℕ)
  /-- The session is closed. -/
  | close
  /-- The actor is aborted. -/
  | abort

/-- A command that a connection sends with priority. -/
def Prioritized : OutputCommand → Bool
  | .event _ _ | .resetCorrelation => false
  | _ => true

namespace Session

variable (capacity : ℕ)

/-- The workers that wait for room in the queue. -/
def waiting (s : Session) : ℕ :=
  s.workers.countP fun worker => match worker.phase with
    | .waiting _ _ => true
    | _ => false

/-- A step of the worker `k`: the worker, the event queue and whether the session is closed. -/
def act (s : Session) (k : ℕ) (worker : Worker) (action : Action) :
    Option (Worker × List Sent × Bool) :=
  match worker.phase, action with
  | .idle, .emit stream event =>
    if s.closed then some (worker.done stream event .idle, s.queue, s.closed)
    else some ({ worker with phase := .waiting stream event }, s.queue, s.closed)
  | .waiting stream event, .enqueue =>
    if s.ended = false ∧ s.queue.length < capacity then
      some (worker.done stream event .idle, s.queue ++ [⟨k, stream, event⟩], s.closed)
    else none
  | .waiting stream event, .refuse =>
    if s.ended then some (worker.done stream event .idle, s.queue, s.closed) else none
  | .waiting _ _, .abandon => some ({ worker with phase := .idle }, s.queue, s.closed)
  | .idle, .tryEmit stream event =>
    if s.closed then some (worker.done stream event .idle, s.queue, s.closed)
    else some ({ worker with phase := .trying stream event }, s.queue, s.closed)
  | .trying stream event, .trySend true =>
    if s.ended = false ∧ s.queue.length < capacity then
      some (worker.done stream event .idle, s.queue ++ [⟨k, stream, event⟩], s.closed)
    else none
  | .trying stream event, .trySend false =>
    -- The room that there is may be that of the workers that have waited longer.
    if s.ended ∨ capacity ≤ s.queue.length + s.waiting then
      some (worker.done stream event .failing, s.queue, s.closed)
    else none
  | .failing, .close => some ({ worker with phase := .idle }, s.queue, true)
  | _, _ => none

/-- The actor ends, and what is in its queues is lost. -/
def finish (s : Session) : Session := { s with ended := true, queue := [], priority := [] }

/-- The actor processes a command. -/
def process (s : Session) (c : OutputCommand) (written : Option ℕ) : Session :=
  let emission := emitCommand s.output c
  match written, emission.result with
  | none, .ok () =>
    { s with output := emission.state, lines := s.lines ++ emission.lines }
  | none, .error _ =>
    { s with output := emission.state, lines := s.lines ++ emission.lines }.finish
  | some n, _ =>
    { s with output := emission.state, lines := s.lines ++ emission.lines.take n }.finish

/-- One step. -/
def step (s : Session) : Label → Option Session
  | .join => some { s with workers := s.workers ++ [⟨.idle, []⟩] }
  | .act k action =>
    (s.workers[k]?).bind fun worker =>
      (s.act capacity k worker action).map fun (worker, queue, closed) =>
        { s with closed := closed, queue := queue, workers := s.workers.set k worker }
  | .send c =>
    if s.ended = false ∧ s.priority.length < capacity ∧ Prioritized c then
      some { s with priority := s.priority ++ [c] }
    else none
  | .take written =>
    if s.ended then none
    else match s.priority, s.queue with
      | c :: rest, _ => some ({ s with priority := rest }.process c written)
      | [], sent :: rest => some ({ s with queue := rest }.process sent.command written)
      | [], [] => none
  | .close => some { s with closed := true }
  | .abort => if s.closed ∧ s.ended = false then some s.finish else none

end Session

/-- A session whose queues have this capacity. -/
def session (policy : CorrelationPolicy) (capacity pendingLimit : ℕ) : Machine Session Label :=
  ⟨⟨false, false, [], [], .new policy pendingLimit, [], []⟩, Session.step capacity⟩

/-! ## The events of one id -/

variable {policy : CorrelationPolicy} {id : String} {capacity pendingLimit j k : ℕ}

/-- The events of the id that a worker has emitted. -/
def emittedOf (policy : CorrelationPolicy) (id : String) (worker : Worker) :
    List (String × Value) :=
  receivedOf policy id (worker.emitted.map fun e => .event e.1 e.2)

/-- The events of the id in the queue. -/
def queuedOf (policy : CorrelationPolicy) (id : String) (queue : List Sent) :
    List (String × Value) :=
  receivedOf policy id (queue.map Sent.command)

/-- The events of the id that were written or may still be. -/
def flow (policy : CorrelationPolicy) (id : String) (s : Session) : List (String × Value) :=
  eventsOf policy id s.lines ++
    if s.ended then [] else pendingOf id s.output ++ queuedOf policy id s.queue

/-- The event does not retire the id, and is of the id only if the worker is its own. -/
def Proper (policy : CorrelationPolicy) (id : String) (j k : ℕ) (stream : String)
    (event : Value) : Prop :=
  ¬Retires policy id (.event stream event) ∧ (policy.eventId stream event = some id → k = j)

/-- The id is that of the worker `j`, and is not retired. -/
def Fits (policy : CorrelationPolicy) (id : String) (j : ℕ) : Label → Prop
  | .act k (.emit stream event) | .act k (.tryEmit stream event) => Proper policy id j k stream event
  | .send c => ¬Retires policy id c
  | _ => True

/-- Some commands after others. -/
theorem receivedOf_append (cs cs' : List OutputCommand) :
    receivedOf policy id (cs ++ cs') = receivedOf policy id cs ++ receivedOf policy id cs' :=
  List.filterMap_append

/-- A worker that has emitted another event. -/
theorem emittedOf_done (worker : Worker) (stream : String) (event : Value) (phase : Phase) :
    emittedOf policy id (worker.done stream event phase) =
      emittedOf policy id worker ++ receivedOf policy id [.event stream event] := by
  unfold emittedOf Worker.done
  rw [List.map_append, receivedOf_append]
  rfl

/-- The queue with another event. -/
theorem queuedOf_append (queue : List Sent) (sent : Sent) :
    queuedOf policy id (queue ++ [sent]) =
      queuedOf policy id queue ++ receivedOf policy id [sent.command] := by
  unfold queuedOf
  rw [List.map_append, receivedOf_append]
  rfl

/-- An event of another id. -/
theorem receivedOf_event_of_ne {stream : String} {event : Value}
    (h : policy.eventId stream event ≠ some id) :
    receivedOf policy id [.event stream event] = [] := by
  simp [receivedOf, h]

/-- A prioritized command is no event. -/
theorem receivedOf_prioritized {c : OutputCommand} (h : Prioritized c) :
    receivedOf policy id [c] = [] := by
  cases c with
  | event stream event => cases h
  | _ => rfl

/-- What one command does with the events of an id that it does not retire. -/
theorem emission_spec {output : OutputState} (h : Unretired id output) {c : OutputCommand}
    (hreset : c ≠ .resetCorrelation) (hretires : ¬Retires output.policy id c) :
    let emission := emitCommand output c
    (emission.result = .ok () → Unretired id emission.state ∧
      eventsOf output.policy id emission.lines ++ pendingOf id emission.state =
        pendingOf id output ++ receivedOf output.policy id [c]) ∧
    ∀ n, eventsOf output.policy id (emission.lines.take n) <+:
      pendingOf id output ++ receivedOf output.policy id [c] := by
  intro emission
  have hok : emission.result = .ok () → Unretired id emission.state ∧
      eventsOf output.policy id emission.lines ++ pendingOf id emission.state =
        pendingOf id output ++ receivedOf output.policy id [c] := by
    intro hresult
    obtain ⟨hafter, hgate⟩ := h.emitCommand hreset hretires hresult
    have hheld := Gate.held_run (gateOf id output) (gateInputs output.policy id c)
    have hpushed := pushed_gateInputs output.policy id [c]
    rw [List.flatMap_singleton] at hpushed
    rw [hgate, hpushed, hafter.invariant.held_gateOf, h.invariant.held_gateOf] at hheld
    exact ⟨hafter, hheld⟩
  refine ⟨hok, fun n => ?_⟩
  have htake : eventsOf output.policy id (emission.lines.take n) <+:
      eventsOf output.policy id emission.lines :=
    (List.take_prefix n emission.lines).filterMap _
  cases hresult : emission.result with
  | ok _ =>
    rw [← (hok hresult).2]
    exact htake.trans (List.prefix_append _ _)
  | error error =>
    -- The event that finds the buffer full is not written.
    obtain ⟨-, -, -, -, hlines⟩ := h.invariant.emitCommand_error hresult
    have hnone : eventsOf output.policy id emission.lines = [] := by
      rw [hlines, eventsOf_cons_of_none (by simp)]
      rfl
    rw [hnone] at htake
    rw [List.prefix_nil.1 htake]
    exact List.nil_prefix

/-! ## The invariant -/

/-- The event that a worker is about to queue. -/
def Phase.event : Phase → Option (String × Value)
  | waiting stream event | trying stream event => some (stream, event)
  | _ => none

/-- Nothing that the worker has emitted is lost as long as the actor runs. -/
def Phase.Complete (closed : Bool) : Phase → Prop
  | idle => closed = false
  | waiting _ _ | trying _ _ => True
  | failing => False

/-- The invariant for the id and its worker `j`. -/
structure Flowing (policy : CorrelationPolicy) (id : String) (j : ℕ) (s : Session) : Prop where
  /-- The id is not retired. -/
  output : s.ended = false → Unretired id s.output ∧ s.output.policy = policy
  /-- No command in the priority queue is an event or retires it. -/
  priority : ∀ c ∈ s.priority, Prioritized c ∧ ¬Retires policy id c
  /-- The events in the queue are proper. -/
  queue : ∀ sent ∈ s.queue, Proper policy id j sent.worker sent.stream sent.event
  /-- So are those that come next. -/
  next : ∀ k worker stream event, s.workers[k]? = some worker →
    worker.phase.event = some (stream, event) → Proper policy id j k stream event
  /-- Before there is the worker, there are no events. -/
  absent : s.workers[j]? = none → flow policy id s = []
  /-- There is no gap in its events. -/
  gapless : ∀ worker, s.workers[j]? = some worker →
    flow policy id s <+: emittedOf policy id worker
  /-- They are complete. -/
  complete : ∀ worker, s.workers[j]? = some worker → s.ended = false →
    worker.phase.Complete s.closed → flow policy id s = emittedOf policy id worker

namespace Flowing

variable {s t : Session} {worker after : Worker} {action : Action} {queue : List Sent}
  {closed : Bool} {c : OutputCommand} {written : Option ℕ}

/-- The invariant holds at first. -/
theorem init : Flowing policy id j (session policy capacity pendingLimit).init where
  output _ := ⟨⟨.new policy pendingLimit, by simp [session, OutputState.new],
    by simp [session, OutputState.new]⟩, rfl⟩
  priority _ h := by cases h
  queue _ h := by cases h
  next _ _ _ _ h := by cases h
  absent _ := by simp [flow, session, queuedOf, receivedOf, pendingOf, OutputState.new]
  gapless _ h := by cases h
  complete _ h := by cases h

/-- What is written only grows at the cost of what may still be. -/
theorem finish (h : Flowing policy id j s) {lines : List Value} {output : OutputState}
    (hlines : eventsOf policy id lines <+: flow policy id s) :
    Flowing policy id j { s with output := output, lines := lines }.finish where
  output h := by cases h
  priority _ h := by cases h
  queue _ h := by cases h
  next := h.next
  absent hj := by
    rw [h.absent hj] at hlines
    simpa [flow, Session.finish] using List.prefix_nil.1 hlines
  gapless worker hj := by
    have hflow : flow policy id { s with output := output, lines := lines }.finish =
        eventsOf policy id lines := by simp [flow, Session.finish]
    rw [hflow]
    exact hlines.trans (h.gapless worker hj)
  complete _ _ h := by cases h

/-- The actor processes a command that it has taken from a queue. -/
theorem process (h : Flowing policy id j s) (hended : s.ended = false)
    {priority : List OutputCommand}
    {queue : List Sent} (hpriority : ∀ c ∈ priority, c ∈ s.priority)
    (hqueue : ∀ sent ∈ queue, sent ∈ s.queue) (hreset : c ≠ .resetCorrelation)
    (hretires : ¬Retires policy id c)
    (htaken : queuedOf policy id s.queue = receivedOf policy id [c] ++ queuedOf policy id queue) :
    Flowing policy id j ({ s with priority := priority, queue := queue }.process c written) := by
  obtain ⟨hunretired, rfl⟩ := h.output hended
  obtain ⟨hok, hpart⟩ := emission_spec hunretired hreset hretires
  have hflow : flow s.output.policy id s = eventsOf s.output.policy id s.lines ++
      (pendingOf id s.output ++ receivedOf s.output.policy id [c]) ++
        queuedOf s.output.policy id queue := by
    simp [flow, hended, htaken]
  have hend : ∀ n output, Flowing s.output.policy id j { s with
      priority := priority, queue := queue, output := output,
      lines := s.lines ++ (emitCommand s.output c).lines.take n }.finish := by
    intro n output
    refine h.finish ?_
    rw [hflow, eventsOf_append, List.append_assoc]
    exact (List.prefix_append_right_inj _).2 ((hpart n).trans (List.prefix_append _ _))
  unfold Session.process
  dsimp only
  cases written with
  | some n => exact hend n _
  | none =>
    cases hresult : (emitCommand s.output c).result with
    | error error =>
      have hall := hend (emitCommand s.output c).lines.length (emitCommand s.output c).state
      rwa [List.take_length] at hall
    | ok _ =>
      obtain ⟨hafter, hevents⟩ := hok hresult
      have hpolicy := (hunretired.invariant.emitCommand_frame c).1
      have hsame : flow s.output.policy id { s with
          priority := priority, queue := queue, output := (emitCommand s.output c).state,
          lines := s.lines ++ (emitCommand s.output c).lines } = flow s.output.policy id s := by
        rw [hflow, ← hevents]
        simp [flow, hended]
      refine ⟨fun _ => ⟨hafter, hpolicy⟩, fun c' hc' => h.priority c' (hpriority c' hc'),
        fun sent hsent => h.queue sent (hqueue sent hsent), h.next, fun hj => ?_,
          fun worker hj => ?_,
        fun worker hj _ hcomplete => ?_⟩
      · exact hsame.trans (h.absent hj)
      · exact hsame ▸ h.gapless worker hj
      · exact hsame.trans (h.complete worker hj hended hcomplete)

/-- The flow does not depend on the workers, nor on whether the session is closed. -/
theorem flow_workers (s : Session) (closed : Bool) (workers : List Worker) :
    flow policy id { s with closed := closed, workers := workers } = flow policy id s := rfl

/-- A worker after a step of one of them. -/
theorem getElem?_set_workers {workers : List Worker} {l : ℕ} {other : Worker}
    (h : (workers.set k after)[l]? = some other) :
    l = k ∧ other = after ∨ l ≠ k ∧ workers[l]? = some other := by
  rcases eq_or_ne k l with rfl | hne
  · obtain ⟨hlt, -⟩ := List.getElem?_eq_some_iff.1 h
    rw [List.length_set] at hlt
    rw [List.getElem?_set_self hlt] at h
    exact .inl ⟨rfl, (Option.some.inj h).symm⟩
  · rw [List.getElem?_set_ne hne] at h
    exact .inr ⟨hne.symm, h⟩

/-- A worker does something that leaves the queue as it is. -/
theorem still (h : Flowing policy id j s) (hk : s.workers[k]? = some worker)
    (hnext : ∀ stream event, after.phase.event = some (stream, event) →
      Proper policy id j k stream event)
    (hemitted : emittedOf policy id worker <+: emittedOf policy id after)
    (hclosed : closed = false → s.closed = false)
    (hcomplete : s.ended = false → after.phase.Complete closed →
      worker.phase.Complete s.closed ∧ emittedOf policy id after = emittedOf policy id worker) :
    Flowing policy id j { s with closed := closed, workers := s.workers.set k after } where
  output := h.output
  priority := h.priority
  queue := h.queue
  next l other stream event hl hevent := by
    rcases getElem?_set_workers hl with ⟨rfl, rfl⟩ | ⟨-, hl⟩
    · exact hnext stream event hevent
    · exact h.next l other stream event hl hevent
  absent hj := by
    rw [List.getElem?_eq_none_iff, List.length_set] at hj
    rw [flow_workers, h.absent (List.getElem?_eq_none_iff.2 hj)]
  gapless other hj := by
    rw [flow_workers]
    rcases getElem?_set_workers hj with ⟨rfl, rfl⟩ | ⟨-, hj⟩
    · exact (h.gapless worker hk).trans hemitted
    · exact h.gapless other hj
  complete other hj hended hphase := by
    rw [flow_workers]
    rcases getElem?_set_workers hj with ⟨rfl, rfl⟩ | ⟨-, hj⟩
    · obtain ⟨hbefore, hsame⟩ := hcomplete hended hphase
      rw [hsame]
      exact h.complete worker hk hended hbefore
    · refine h.complete other hj hended ?_
      cases hother : other.phase with
      | idle =>
        rw [hother] at hphase
        exact hclosed hphase
      | failing =>
        rw [hother] at hphase
        exact hphase
      | _ => trivial

/-- The event of a worker gets into the queue. -/
theorem queued (h : Flowing policy id j s) (hk : s.workers[k]? = some worker)
    (hended : s.ended = false) {stream : String} {event : Value}
    (hevent : worker.phase.event = some (stream, event)) :
    Flowing policy id j { s with
      queue := s.queue ++ [⟨k, stream, event⟩]
      workers := s.workers.set k (worker.done stream event .idle) } := by
  have hproper := h.next k worker stream event hk hevent
  have hflow : ∀ workers, flow policy id { s with
      queue := s.queue ++ [⟨k, stream, event⟩], workers := workers } =
        flow policy id s ++ receivedOf policy id [.event stream event] := by
    intro workers
    simp [flow, hended, queuedOf_append, Sent.command]
  -- An event of the id is that of its worker, which has lost none before it.
  have hother : k ≠ j → receivedOf policy id [.event stream event] = [] := fun hne =>
    receivedOf_event_of_ne fun heq => hne (hproper.2 heq)
  have hown : flow policy id s = emittedOf policy id worker ∨ k ≠ j := by
    rcases eq_or_ne k j with rfl | hne
    · refine .inl (h.complete worker hk hended ?_)
      cases hphase : worker.phase <;> simp [hphase, Phase.event] at hevent <;> trivial
    · exact .inr hne
  refine ⟨h.output, h.priority, fun sent hsent => ?_, fun l other stream' event' hl hnext => ?_,
    fun hj => ?_, fun other hj => ?_, fun other hj _ hphase => ?_⟩
  · rcases List.mem_append.1 hsent with hsent | hsent
    · exact h.queue sent hsent
    · obtain rfl := List.mem_singleton.1 hsent
      exact hproper
  · rcases getElem?_set_workers hl with ⟨rfl, rfl⟩ | ⟨-, hl⟩
    · cases hnext
    · exact h.next l other stream' event' hl hnext
  · rw [List.getElem?_eq_none_iff, List.length_set, ← List.getElem?_eq_none_iff] at hj
    have hne : k ≠ j := by
      rintro rfl
      rw [hk] at hj
      cases hj
    rw [hflow, h.absent hj, hother hne]
    rfl
  · rw [hflow]
    rcases getElem?_set_workers hj with ⟨rfl, rfl⟩ | ⟨hne, hj⟩
    · rw [emittedOf_done, hown.resolve_right fun hne => hne rfl]
    · rw [hother hne.symm, List.append_nil]
      exact h.gapless other hj
  · rw [hflow]
    rcases getElem?_set_workers hj with ⟨rfl, rfl⟩ | ⟨hne, hj⟩
    · rw [emittedOf_done, hown.resolve_right fun hne => hne rfl]
    · rw [hother hne.symm, List.append_nil]
      exact h.complete other hj hended hphase

/-- An emit that fails before it comes to the queue. -/
theorem refused (h : Flowing policy id j s) (hk : s.workers[k]? = some worker) (stream : String)
    (event : Value) {phase : Phase} (hevent : phase.event = none)
    (hlost : s.ended = false → ¬phase.Complete s.closed) :
    Flowing policy id j { s with workers := s.workers.set k (worker.done stream event phase) } := by
  have hgrows : emittedOf policy id worker <+:
      emittedOf policy id (worker.done stream event phase) := by
    rw [emittedOf_done]
    exact List.prefix_append _ _
  have hnext : ∀ stream event, phase.event = some (stream, event) →
      Proper policy id j k stream event := by
    intro stream event hnext
    rw [hevent] at hnext
    cases hnext
  exact h.still hk hnext hgrows (fun h => h)
    fun hrunning hcomplete => absurd hcomplete (hlost hrunning)

/-- The session is open, and the event comes next. -/
theorem entered (h : Flowing policy id j s) (hk : s.workers[k]? = some worker)
    (hidle : worker.phase = .idle) (hopen : s.closed = false) {stream : String} {event : Value}
    (hproper : Proper policy id j k stream event) {phase : Phase}
    (hevent : phase.event = some (stream, event)) :
    Flowing policy id j { s with workers := s.workers.set k { worker with phase := phase } } := by
  have hcomplete : worker.phase.Complete s.closed := by
    rw [hidle]
    exact hopen
  have hnext : ∀ stream' event', phase.event = some (stream', event') →
      Proper policy id j k stream' event' := by
    intro stream' event' hnext
    obtain ⟨rfl, rfl⟩ := Prod.mk.inj (Option.some.inj (hevent.symm.trans hnext))
    exact hproper
  exact h.still hk hnext List.prefix_rfl (fun h => h) fun _ _ => ⟨hcomplete, rfl⟩

/-- A step of a worker. -/
theorem act (h : Flowing policy id j s) (hk : s.workers[k]? = some worker)
    (hfits : Fits policy id j (.act k action))
    (hact : s.act capacity k worker action = some (after, queue, closed)) :
    Flowing policy id j
      { s with closed := closed, queue := queue, workers := s.workers.set k after } := by
  revert hact
  fun_cases Session.act capacity s k worker action
  all_goals intro hact
  all_goals simp only [Option.some.injEq, Prod.mk.injEq, reduceCtorEq] at hact
  all_goals obtain ⟨rfl, rfl, rfl⟩ := hact
  -- An event that is refused since the session is closed.
  case case1 hclosed => exact h.refused hk _ _ rfl fun _ => ne_false_of_eq_true hclosed
  case case8 hclosed => exact h.refused hk _ _ rfl fun _ => ne_false_of_eq_true hclosed
  -- The session is open, and the event comes next.
  case case2 hphase hclosed => exact h.entered hk hphase (Bool.eq_false_iff.2 hclosed) hfits rfl
  case case9 hphase hclosed => exact h.entered hk hphase (Bool.eq_false_iff.2 hclosed) hfits rfl
  -- The queue takes it.
  case case3 stream event hphase hroom => exact h.queued hk hroom.1 (by rw [hphase]; rfl)
  case case10 stream event hphase hroom => exact h.queued hk hroom.1 (by rw [hphase]; rfl)
  -- It is refused since the actor is gone or the queue full, or it is not emitted after all.
  case case5 stream event hphase hended =>
    exact h.refused hk _ _ rfl fun hrunning => absurd hended (Bool.eq_false_iff.1 hrunning)
  case case12 => exact h.refused hk _ _ rfl fun _ h => h
  case case7 stream event hphase =>
    refine h.still hk (fun _ _ h => by cases h) List.prefix_rfl (fun h => h)
      fun _ _ => ⟨?_, rfl⟩
    rw [hphase]
    trivial
  -- The close behind a lost event.
  case case14 =>
    exact h.still hk (fun _ _ h => by cases h) List.prefix_rfl (fun h => by cases h)
      fun _ h => by cases h

/-- A step that fits the worker keeps the invariant. -/
theorem step {label : Label} (h : Flowing policy id j s) (hfits : Fits policy id j label)
    (hstep : s.step capacity label = some t) : Flowing policy id j t := by
  cases label with
  | join =>
    obtain rfl := Option.some.inj hstep
    -- A new worker is behind the others and has sent nothing.
    have hworker : ∀ (l : ℕ) (other : Worker), (s.workers ++ [⟨.idle, []⟩])[l]? = some other →
        s.workers[l]? = some other ∨ s.workers[l]? = none ∧ other = ⟨.idle, []⟩ := by
      intro l other hl
      rw [List.getElem?_append] at hl
      split at hl
      · exact .inl hl
      · rename_i hlt
        exact .inr ⟨List.getElem?_eq_none_iff.2 (Nat.le_of_not_lt hlt),
          List.mem_singleton.1 (List.mem_of_getElem? hl)⟩
    refine ⟨h.output, h.priority, h.queue, fun l other stream event hl hevent => ?_, fun hj => ?_,
      fun other hj => ?_, fun other hj hended hphase => ?_⟩
    · rcases hworker l other hl with hl | ⟨-, rfl⟩
      · exact h.next l other stream event hl hevent
      · cases hevent
    · refine (flow_workers s s.closed _).trans (h.absent ?_)
      rw [List.getElem?_eq_none_iff, List.length_append] at hj
      exact List.getElem?_eq_none_iff.2 (by omega)
    · rcases hworker j other hj with hj | ⟨hnone, rfl⟩
      · exact h.gapless other hj
      · rw [flow_workers s s.closed, h.absent hnone]
        exact List.nil_prefix
    · rcases hworker j other hj with hj | ⟨hnone, rfl⟩
      · exact h.complete other hj hended hphase
      · exact (flow_workers s s.closed _).trans (h.absent hnone)
  | act k action =>
    obtain ⟨worker, hk, hstep⟩ := Option.bind_eq_some_iff.1 hstep
    obtain ⟨⟨after, queue, closed⟩, hact, rfl⟩ := Option.map_eq_some_iff.1 hstep
    exact h.act hk hfits hact
  -- What comes from elsewhere is prioritized, and by its fit it does not retire the id.
  | send c =>
    obtain ⟨⟨-, -, hprioritized⟩, rfl⟩ := Machine.guarded_eq_some.1 hstep
    refine ⟨h.output, fun c' hc' => ?_, h.queue, h.next, h.absent, h.gapless, h.complete⟩
    rcases List.mem_append.1 hc' with hc' | hc'
    · exact h.priority c' hc'
    · obtain rfl := List.mem_singleton.1 hc'
      exact ⟨hprioritized, hfits⟩
  -- The output takes a prioritized command, or the oldest one of the workers.
  | take written =>
    obtain ⟨hended, hstep⟩ := Option.ite_none_left_eq_some.1 hstep
    have hended : s.ended = false := Bool.eq_false_iff.2 hended
    cases hpriority : s.priority with
    | cons c rest =>
      simp only [hpriority, Option.some.injEq] at hstep
      subst hstep
      obtain ⟨hprioritized, hretires⟩ := h.priority c (hpriority ▸ List.mem_cons_self)
      refine h.process hended (fun c' hc' => ?_) (fun _ h => h) ?_ hretires ?_
      · rw [hpriority]
        exact List.mem_cons_of_mem _ hc'
      · rintro rfl
        cases hprioritized
      · rw [receivedOf_prioritized hprioritized]
        rfl
    | nil =>
      cases hqueue : s.queue with
      | nil => simp [hpriority, hqueue] at hstep
      | cons sent rest =>
        simp only [hpriority, hqueue, Option.some.injEq] at hstep
        subst hstep
        have hproper := h.queue sent (hqueue ▸ List.mem_cons_self)
        refine h.process hended (fun _ h => by cases h) (fun sent' hsent' => ?_) ?_ hproper.1 ?_
        · rw [hqueue]
          exact List.mem_cons_of_mem _ hsent'
        · intro h
          cases h
        · rw [hqueue]
          exact receivedOf_append [sent.command] (rest.map Sent.command)
  -- A closed queue takes nothing more, but keeps what it has.
  | close =>
    obtain rfl := Option.some.inj hstep
    refine ⟨h.output, h.priority, h.queue, h.next, h.absent, h.gapless,
      fun worker hj hended hphase => ?_⟩
    refine h.complete worker hj hended ?_
    cases hworker : worker.phase <;> rw [hworker] at hphase <;> trivial
  | abort =>
    obtain ⟨-, rfl⟩ := Machine.guarded_eq_some.1 hstep
    refine h.finish ?_
    exact List.prefix_append _ _

end Flowing

/-- The event lines of a subscription are, without a gap and in order, the first events that its
worker has emitted; and unless the session is closed, the actor has ended or the worker is about to
close the session, the others of them are still on their way. -/
theorem session_events_gapless {labels : List Label} {s : Session} {worker : Worker}
    (hfits : ∀ label ∈ labels, Fits policy id j label)
    (hrun : (session policy capacity pendingLimit).run
      (session policy capacity pendingLimit).init labels = some s)
    (hj : s.workers[j]? = some worker) :
    eventsOf policy id s.lines <+: emittedOf policy id worker ∧
    (s.closed = false → s.ended = false → worker.phase ≠ .failing →
      eventsOf policy id s.lines ++ (pendingOf id s.output ++ queuedOf policy id s.queue) =
        emittedOf policy id worker) := by
  have hflowing : Flowing policy id j s :=
    Machine.invariant_of_stepsMeet (C := fun _ => Fits policy id j)
      (fun _ _ _ h hfits hstep => h.step hfits hstep) .init
      (Machine.stepsMeet_of_forall (fun label hlabel _ => hfits label hlabel) _) hrun
  refine ⟨(List.prefix_append _ _).trans (hflowing.gapless worker hj),
    fun hopen hended hphase => ?_⟩
  have hflow := hflowing.complete worker hj hended (by
    cases hworker : worker.phase with
    | idle => exact hopen
    | failing => exact absurd hworker hphase
    | _ => trivial)
  rw [← hflow, flow, hended]
  rfl

/-- A worker emits three events of its subscription. The first is taken, and the third finds the
queue full. -/
def fullRun : List Label :=
  let event := Value.object [("subscription_id", .string "s-1")]
  let ack := OutputCommand.response "1" (.ok (.object [("data", .object [("subscription",
    .object [("id", .string "s-1")])])])) none none
  .join :: .send ack :: .take none ::
    ([.tryEmit "a" event, .trySend true].map (.act 0) ++ .take none ::
      [.tryEmit "b" event, .trySend true, .tryEmit "c" event, .trySend false, .close].map (.act 0))

/-- The third event is lost and closes the session. -/
theorem session_events_gapless_full : ∃ s worker,
    (session basicCorrelation 1 4).run (session basicCorrelation 1 4).init fullRun = some s ∧
    s.workers[0]? = some worker ∧ s.closed = true ∧ worker.emitted.length = 3 ∧
    (eventsOf basicCorrelation "s-1" s.lines).length = 1 ∧
    eventsOf basicCorrelation "s-1" s.lines <+: emittedOf basicCorrelation "s-1" worker := by
  have hfits : ∀ label ∈ fullRun, Fits basicCorrelation "s-1" 0 label := by
    simp [fullRun, Fits, Proper, Retires, basicCorrelation]
  obtain ⟨s, hrun⟩ : ∃ s, (session basicCorrelation 1 4).run
      (session basicCorrelation 1 4).init fullRun = some s := ⟨_, rfl⟩
  obtain ⟨worker, hj, hclosed, hemitted, hevents⟩ : ∃ worker, s.workers[0]? = some worker ∧
      s.closed = true ∧ worker.emitted.length = 3 ∧
        (eventsOf basicCorrelation "s-1" s.lines).length = 1 := by
    obtain rfl := Option.some.inj hrun
    exact ⟨_, rfl, rfl, rfl, rfl⟩
  exact ⟨s, worker, hrun, hj, hclosed, hemitted, hevents,
    (session_events_gapless hfits hrun hj).1⟩

end DaemonFramework.Socket.Emitters
