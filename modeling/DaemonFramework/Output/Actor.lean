import Mathlib.Data.Finset.Basic
import Mathlib.Data.List.AList
import DaemonFramework.JsonlWire

/-!
# The output actor

`OutputState` and the functions of `shelllist-daemon-tokio/src/output_actor.rs`, with the state
passed explicitly. A function that takes `&mut self` returns the new state, and a fallible one
returns it beside its result, since the state changes made before an error remain.

The writer is the list of the lines written to it. It does not fail here: `emit_line` is the only
use of it, its errors end the actor, and the state they leave behind is dropped unread.

`emitCommands` is the loop of `run_output_actor` over the commands in the order in which it takes
them from its two queues.
-/

namespace DaemonFramework.Output

/-- What a tracked id stands for. -/
inductive TrackedKind where
  | operation
  | subscription
deriving DecidableEq

/-- The id that a response acknowledges. -/
structure TrackedId where
  /-- The acknowledged id. -/
  id : String
  /-- Whether it is an operation or a subscription. -/
  kind : TrackedKind
deriving DecidableEq

/-- The part of `CorrelationPolicy` that the actor calls, as pure functions. -/
structure CorrelationPolicy where
  /-- The id that a successful response acknowledges. -/
  responseId : Value → Option TrackedId
  /-- The id that an event of a stream belongs to. -/
  eventId : String → Value → Option String
  /-- Whether an event ends its operation or subscription. -/
  isTerminal : String → Value → Bool

/-- The trait's `response_id`: an operation id, or else the id of the subscription envelope. -/
def defaultResponseId (operationId : Value → Option String) (response : Value) :
    Option TrackedId :=
  match operationId response with
  | some id => some ⟨id, .operation⟩
  | none => ((response.pointer ["data", "subscription", "id"]).bind Value.asStr).map fun id =>
      ⟨id, .subscription⟩

/-- The trait's `event_id`: the subscription id in the event. -/
def defaultEventId (_stream : String) (event : Value) : Option String :=
  (event.get "subscription_id").bind Value.asStr

/-- `BasicCorrelation`: the trait's defaults, with no operations and no terminal events. -/
def basicCorrelation : CorrelationPolicy where
  responseId := defaultResponseId fun _ => none
  eventId := defaultEventId
  isTerminal := fun _ _ => false

/-- The commands that the actor takes from its queues. -/
inductive OutputCommand where
  | requestError (id outcome message : String) (route : Option ClientRoute)
  | response (id : String) (result : Except String Value) (cancelledRequestId : Option String)
      (route : Option ClientRoute)
  | activeIds (owner : Option (String × UInt64))
  | cancelled (id : String)
  | event (stream : String) (event : Value)
  | protocolError (error : String)
  | transportError (error : String)
  | resetCorrelation
  | shutdown (id : String)

/-- An event that waits for the acknowledgement of its id. -/
structure PendingEvent where
  /-- The id that the event belongs to. -/
  id : String
  /-- The stream of the event. -/
  stream : String
  /-- The event itself. -/
  event : Value

/-- The actor's correlation state. -/
structure OutputState where
  /-- How responses and events are correlated. -/
  policy : CorrelationPolicy
  /-- The live operations and subscriptions; only subscriptions retain a route. -/
  activeIds : AList fun _ : String => Option ClientRoute
  /-- The events received before their acknowledgement, oldest first. -/
  pendingEvents : List PendingEvent
  /-- The retired ids that are still remembered. -/
  suppressedIds : Finset String
  /-- The retired ids in the order of their retirement. -/
  suppressedOrder : List String
  /-- The capacity of `pendingEvents` and of the memory of retired ids. -/
  pendingLimit : ℕ

namespace OutputState

/-- The state that an actor starts with. -/
def new (policy : CorrelationPolicy) (pendingLimit : ℕ) : OutputState where
  policy := policy
  activeIds := ∅
  pendingEvents := []
  suppressedIds := ∅
  suppressedOrder := []
  pendingLimit := pendingLimit

/-- Take the pending events of an id out of the buffer. -/
def takePending (s : OutputState) (id : String) : OutputState × List PendingEvent :=
  ({ s with pendingEvents := s.pendingEvents.filter (·.id ≠ id) },
    s.pendingEvents.filter (·.id = id))

/-- Acknowledge an id, and return the events that waited for it. -/
def activate (s : OutputState) (tracked : Option TrackedId) (route : Option ClientRoute) :
    OutputState × List PendingEvent :=
  match tracked with
  | none => (s, [])
  | some tracked =>
    -- A late response to a retired id must not make the id live again.
    if tracked.id ∈ s.suppressedIds then (s, [])
    else
      let (s, pending) := s.takePending tracked.id
      let activeRoute := (s.activeIds.lookup tracked.id).getD none
      -- A repeated response must not discard an already acknowledged route.
      let activeRoute := match route.filter fun _ => tracked.kind = .subscription with
        | some route => some route
        | none => activeRoute
      ({ s with activeIds := s.activeIds.insert tracked.id activeRoute }, pending)

/-- The error of an event that finds the buffer full. -/
def overflowError : String :=
  "pre-acknowledgement event capacity exhausted; reconnect and reconcile state"

/-- Keep an event until its id is acknowledged. -/
def buffer (s : OutputState) (id stream : String) (event : Value) : Except String OutputState :=
  if s.pendingEvents.length < s.pendingLimit then
    .ok { s with pendingEvents := s.pendingEvents ++ [⟨id, stream, event⟩] }
  else .error overflowError

/-- Remember a retired id, forgetting the oldest one when the memory is full. -/
def suppress (s : OutputState) (id : String) : OutputState :=
  if s.pendingLimit = 0 ∨ id ∈ s.suppressedIds then s
  else if s.pendingLimit ≤ s.suppressedOrder.length then
    -- The id is inserted before the oldest one is removed, as in the source.
    match s.suppressedOrder with
    | oldest :: rest =>
      { s with
        suppressedIds := (insert id s.suppressedIds).erase oldest
        suppressedOrder := rest ++ [id] }
    | [] => { s with suppressedIds := insert id s.suppressedIds, suppressedOrder := [id] }
  else
    { s with
      suppressedIds := insert id s.suppressedIds
      suppressedOrder := s.suppressedOrder ++ [id] }

/-- Retire an id. -/
def cancelled (s : OutputState) (id : String) : OutputState :=
  { s with
    activeIds := s.activeIds.erase id
    pendingEvents := s.pendingEvents.filter (·.id ≠ id) }.suppress id

/-- The live ids, sorted. -/
def sortedActiveIds (s : OutputState) : List String :=
  s.activeIds.keys.mergeSort fun a b => decide (a ≤ b)

/-- The live ids whose route belongs to one generation of one consumer. -/
def ownedIds (s : OutputState) (consumerId : String) (generation : UInt64) : List String :=
  (s.activeIds.entries.filter fun entry =>
    entry.2.any fun route => route.consumerId = consumerId ∧ route.generation = generation).map
      Sigma.fst

/-- The route under which an event is written, from the state before the event. -/
def eventRoute (s : OutputState) (event : Value) : Option ClientRoute :=
  ((event.get "subscription_id").bind Value.asStr).bind fun id => (s.activeIds.lookup id).join

/-- The line of an event, which retires its id when the event is terminal. -/
def eventMessage (s : OutputState) (stream : String) (event : Value) (id : Option String) :
    OutputState × Value :=
  -- The route is read before a terminal event retires the id, which forgets the route.
  let terminal := id.filter fun _ => s.policy.isTerminal stream event
  let message := addressedMessage (DaemonFramework.eventMessage stream event) (s.eventRoute event)
  match terminal with
  | some id => (s.cancelled id, message)
  | none => (s, message)

/-- Drop, keep or write an event. -/
def acceptEvent (s : OutputState) (id : Option String) (stream : String) (event : Value) :
    OutputState × Except String (Option Value) :=
  match id with
  | some id =>
    if id ∈ s.suppressedIds then (s, .ok none)
    else if id ∉ s.activeIds then
      match s.buffer id stream event with
      | .ok s' => (s', .ok none)
      | .error error => (s, .error error)
    else
      let (s', message) := s.eventMessage stream event (some id)
      (s', .ok (some message))
  | none =>
    let (s', message) := s.eventMessage stream event none
    (s', .ok (some message))

/-- Forget everything that was correlated. -/
def resetCorrelation (s : OutputState) : OutputState :=
  { s with activeIds := ∅, pendingEvents := [], suppressedIds := ∅, suppressedOrder := [] }

end OutputState

/-- What one command did: the state it left, the lines it wrote, the answer it sent on its reply
channel, and its result. -/
structure Emission where
  /-- The state after the command. -/
  state : OutputState
  /-- The lines written, in order. -/
  lines : List Value
  /-- The ids sent to the asker of an `activeIds` command. -/
  reply : Option (List String)
  /-- An error ends the actor. -/
  result : Except String Unit

/-- A command that wrote these lines and succeeded. -/
def Emission.done (state : OutputState) (lines : List Value) : Emission :=
  ⟨state, lines, none, .ok ()⟩

/-- The loop of `emit_response` over the events that waited for the acknowledged id. -/
def replay : OutputState → List PendingEvent → Emission
  | s, [] => .done s []
  | s, e :: rest =>
    match s.acceptEvent (some e.id) e.stream e.event with
    -- The source's `?`: the lines of the events before the failing one are written already.
    | (s', .error error) => ⟨s', [], none, .error error⟩
    | (s', .ok message) =>
      let after := replay s' rest
      { after with lines := message.toList ++ after.lines }

/-- Process a response: the cancellation it reports, its own line, and then the events that waited
for the id it acknowledges. -/
def emitResponse (s : OutputState) (id : String) (result : Except String Value)
    (cancelledRequestId : Option String) (route : Option ClientRoute) : Emission :=
  -- The cancellation comes first, so it may retire the id that the response itself acknowledges.
  let s := match cancelledRequestId with
    | some cancelled => s.cancelled cancelled
    | none => s
  let (line, tracked) := match result with
    | .ok response => (responseMessage id response, s.policy.responseId response)
    | .error error => (responseErrorMessage id error, none)
  let line := addressedMessage line route
  let (s, pending) := s.activate tracked route
  let after := replay s pending
  { after with lines := line :: after.lines }

/-- Process one command. -/
def emitCommand (s : OutputState) : OutputCommand → Emission
  | .requestError id outcome message route =>
    .done s [addressedMessage
      ((responseErrorMessage id message).setField "outcome" (.string outcome)) route]
  | .response id result cancelledRequestId route =>
    emitResponse s id result cancelledRequestId route
  | .activeIds owner =>
    let ids := match owner with
      | none => s.sortedActiveIds
      | some (consumer, generation) => s.ownedIds consumer generation
    ⟨s, [], some ids, .ok ()⟩
  | .cancelled id => .done (s.cancelled id) []
  | .event stream event =>
    let id := s.policy.eventId stream event
    match s.acceptEvent id stream event with
    | (s', .ok message) => .done s' message.toList
    -- The retained stdio bridge must also notify an idle frontend immediately.
    | (s', .error error) => ⟨s', [transportErrorMessage error], none, .error error⟩
  | .protocolError error => .done s [protocolErrorMessage error]
  | .transportError error => .done s [transportErrorMessage error]
  | .resetCorrelation => .done s.resetCorrelation []
  | .shutdown id => .done s [shutdownMessage id]

/-- What the actor did with a sequence of commands. -/
structure ActorRun where
  /-- The state that the actor ended in. -/
  state : OutputState
  /-- The commands that were processed without an error, each with the lines it wrote. -/
  log : List (OutputCommand × List Value)
  /-- The lines written by the command that ended the actor. -/
  lastLines : List Value
  /-- The error that ended the actor, if one did. -/
  result : Except String Unit

/-- The loop of `run_output_actor`, which ends with the first error. -/
def emitCommands : OutputState → List OutputCommand → ActorRun
  | s, [] => ⟨s, [], [], .ok ()⟩
  | s, c :: cs =>
    let step := emitCommand s c
    match step.result with
    | .ok () =>
      let after := emitCommands step.state cs
      { after with log := (c, step.lines) :: after.log }
    | .error error => ⟨step.state, [], step.lines, .error error⟩

/-- The commands that were processed without an error. -/
def ActorRun.processed (r : ActorRun) : List OutputCommand := r.log.map Prod.fst

/-- All lines written, in order. -/
def ActorRun.lines (r : ActorRun) : List Value := r.log.flatMap Prod.snd ++ r.lastLines

/-- The states in which some sequence of commands leaves the actor. -/
def Reachable (policy : CorrelationPolicy) (pendingLimit : ℕ) (s : OutputState) : Prop :=
  ∃ cs, (emitCommands (.new policy pendingLimit) cs).state = s

end DaemonFramework.Output
