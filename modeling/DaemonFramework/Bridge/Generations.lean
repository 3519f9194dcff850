import DaemonFramework.Bridge.Forwarder
import DaemonFramework.Output.Representation

/-!
# Resets and the two queues of the output actor

The event forwarder, the other tasks of the bridge and the output actor, joined by the two bounded
queues of `OutputHandle`: events travel on one, every other command on the other, and the actor
takes from the second as long as it is not empty (`run_output_actor`). The forwarder sends the
commands of `spawnEventForwarder` in order. The owner watcher is one of the other tasks.

A reset of the forwarder ends a generation. Some fields of `BridgeState` and of `Queued` only
observe the run: every command of the forwarder carries the number of resets that the forwarder had
enqueued before it, and every event line is recorded with this number and with the number of resets
that the actor had processed when it processed the acknowledgement of the event's id. An event that
was enqueued before a reset and is written under an acknowledgement that was processed after it has
the smaller number on the side of the event, so generations are kept apart where `Written.separated`
holds. The reset can overtake events, and `generations_separated` is about the runs in which it does
not.
-/

namespace DaemonFramework.Bridge

open Output

/-- A command in a queue. -/
structure Queued where
  /-- The command. -/
  command : OutputCommand
  /-- For a command of the forwarder, the number of resets that it had enqueued before. -/
  generation : Option ℕ

/-- An event line of a subscription or an operation. -/
structure Written where
  /-- The id that the event belongs to. -/
  id : String
  /-- The number of resets that the forwarder had enqueued before the event. -/
  generation : ℕ
  /-- The number of the forwarder's resets that the actor had processed when it processed the
  acknowledgement of the id. -/
  acknowledged : ℕ
deriving DecidableEq

/-- The event was not enqueued before a reset that was processed before the acknowledgement. -/
def Written.separated (w : Written) : Prop := w.acknowledged ≤ w.generation

/-- The state of the bridge between its tasks and the output actor. -/
structure BridgeState where
  /-- What the forwarder has still to send. -/
  todo : List OutputCommand
  /-- The number of resets that the forwarder has enqueued. -/
  resetsSent : ℕ
  /-- The queue of `priority_sender`. -/
  priority : List Queued
  /-- The queue of `event_sender`. -/
  events : List Queued
  /-- The state of the actor. -/
  output : OutputState
  /-- An error has ended the actor. -/
  ended : Bool
  /-- The id and the generation of each event in `pending_events`, in the same order. -/
  waiting : List (String × ℕ)
  /-- The number of the forwarder's resets that the actor has processed. -/
  resetsSeen : ℕ
  /-- This number when the last acknowledgement of an id was processed. -/
  acknowledged : String → ℕ
  /-- The event lines written so far. -/
  written : List Written

/-- What can happen next. -/
inductive BridgeStep where
  /-- The forwarder enqueues its next command. -/
  | forward
  /-- Another task enqueues a command that is not an event. -/
  | request (command : OutputCommand)
  /-- The actor takes a command and processes it. -/
  | take

/-- Whether a command is an event. -/
def isEvent : OutputCommand → Bool
  | .event _ _ => true
  | _ => false

/-- Whether a command is a reset. -/
def isReset : OutputCommand → Bool
  | .resetCorrelation => true
  | _ => false

/-- The id of an event in a queue. -/
def Queued.eventId (policy : CorrelationPolicy) (q : Queued) : Option String :=
  match q.command with
  | .event stream event => policy.eventId stream event
  | _ => none

/-- The id that a command acknowledges. -/
def acknowledgedId (policy : CorrelationPolicy) : OutputCommand → Option String
  | .response _ (.ok response) _ _ => (policy.responseId response).map TrackedId.id
  | _ => none

/-- The generation of a reset of the forwarder. -/
def Queued.reset? (q : Queued) : Option ℕ := if isReset q.command then q.generation else none

namespace BridgeState

/-- `OutputHandle::send`, which waits while the queue of the command is full. -/
def enqueue (capacity : ℕ) (s : BridgeState) (q : Queued) : Option BridgeState :=
  if isEvent q.command then
    if s.events.length < capacity then some { s with events := s.events ++ [q] } else none
  else
    if s.priority.length < capacity then some { s with priority := s.priority ++ [q] } else none

/-- The numbers of the events that wait after a command: those of ids that still have events in
`pending_events`. -/
def restamp (s : BridgeState) (q : Queued) (after : Emission) : List (String × ℕ) :=
  let received := (q.eventId s.output.policy).bind fun id => q.generation.map fun g => (id, g)
  (s.waiting ++ received.toList).filter fun w => after.state.pendingEvents.any (·.id = w.1)

/-- The event lines that a command writes: its own event's, or those of the first events that waited
for the id it acknowledges, as many as it writes lines behind its own. -/
def eventLines (s : BridgeState) (q : Queued) (after : Emission) : List Written :=
  match q.eventId s.output.policy, q.generation with
  | some id, some generation =>
    -- An event that finds the buffer full writes a transport error, which is no event line.
    if after.result.isOk then after.lines.map fun _ => ⟨id, generation, s.acknowledged id⟩ else []
  | _, _ =>
    match acknowledgedId s.output.policy q.command with
    | some id => ((s.waiting.filter (·.1 = id)).take (after.lines.length - 1)).map fun w =>
        ⟨id, w.2, s.resetsSeen⟩
    | none => []

/-- The actor processes a command. -/
def process (s : BridgeState) (q : Queued) : BridgeState :=
  let after := emitCommand s.output q.command
  { s with
    output := after.state
    ended := !after.result.isOk
    waiting := s.restamp q after
    resetsSeen := if q.reset?.isSome then s.resetsSeen + 1 else s.resetsSeen
    acknowledged := match acknowledgedId s.output.policy q.command with
      | some id => Function.update s.acknowledged id s.resetsSeen
      | none => s.acknowledged
    written := s.written ++ s.eventLines q after }

end BridgeState

/-- What the forwarder sends. -/
def forwarderCommands (outcomes : List ForwardOutcome) : List OutputCommand :=
  (spawnEventForwarder none outcomes).filterMap fun
    | .send command => some command
    | _ => none

/-- The bridge, with the outcomes of the forwarder's connections. -/
def bridge (policy : CorrelationPolicy) (pendingLimit capacity : ℕ)
    (outcomes : List ForwardOutcome) : Machine BridgeState BridgeStep where
  init :=
    { todo := forwarderCommands outcomes
      resetsSent := 0
      priority := []
      events := []
      output := .new policy pendingLimit
      ended := false
      waiting := []
      resetsSeen := 0
      acknowledged := fun _ => 0
      written := [] }
  step s label :=
    if s.ended then none
    else match label with
      | .forward =>
        match s.todo with
        | [] => none
        | command :: todo =>
          BridgeState.enqueue capacity
            { s with
              todo := todo
              resetsSent := if isReset command then s.resetsSent + 1 else s.resetsSent }
            ⟨command, some s.resetsSent⟩
      | .request command => if isEvent command then none else s.enqueue capacity ⟨command, none⟩
      | .take =>
        -- The select is biased: an event is taken only when no other command is there.
        match s.priority, s.events with
        | q :: rest, _ => some (BridgeState.process { s with priority := rest } q)
        | [], q :: rest => some (BridgeState.process { s with events := rest } q)
        | [], [] => none

/-! ## What waits -/

/-- The list was thinned out by whole ids: what is left of it is all that has one of the ids
left. -/
def ThinnedBy (old new : List PendingEvent) : Prop :=
  new = old.filter fun e => new.any (·.id = e.id)

/-- Nothing was taken out. -/
theorem ThinnedBy.refl (l : List PendingEvent) : ThinnedBy l l := by
  unfold ThinnedBy
  symm
  rw [List.filter_eq_self]
  intro e he
  exact List.any_eq_true.2 ⟨e, he, by simp⟩

/-- The events of one id are taken out. -/
theorem ThinnedBy.filter {old new : List PendingEvent} (h : ThinnedBy old new) (id : String) :
    ThinnedBy old (new.filter (·.id ≠ id)) := by
  unfold ThinnedBy at h ⊢
  -- The ids left after the second filter are those left by the first, without `id`.
  conv_lhs => rw [h]
  rw [List.filter_filter]
  apply List.filter_congr
  intro e _
  by_cases he : e.id = id
  · have hnone : ((new.filter (·.id ≠ id)).any fun e' => decide (e'.id = e.id)) = false := by
      rw [List.any_eq_false]
      intro e' he'
      have : e'.id ≠ id := by simpa using (List.mem_filter.1 he').2
      simpa [he] using this
    rw [hnone]
    simp [he]
  · have hsame : ((new.filter (·.id ≠ id)).any fun e' => decide (e'.id = e.id)) =
        new.any fun e' => decide (e'.id = e.id) := by
      rw [List.any_filter]
      congr 1
      funext e'
      by_cases he' : e'.id = e.id
      · simp [he', he]
      · simp [he']
    rw [hsame]
    simp [he]

/-- The event that a command may add to the events that wait. -/
def receivedEvent (policy : CorrelationPolicy) : OutputCommand → List PendingEvent
  | .event stream event =>
    ((policy.eventId stream event).map fun id => ⟨id, stream, event⟩).toList
  | _ => []

/-- Retiring an id takes out its events. -/
theorem thinnedBy_retire {l : List PendingEvent} {s : OutputState}
    (h : ThinnedBy l s.pendingEvents) (id : Option String) :
    ThinnedBy l (s.retire id).pendingEvents := by
  cases id with
  | none => exact h
  | some id =>
    rw [OutputState.retire, OutputState.cancelled_pendingEvents]
    exact h.filter id

/-- A command that succeeds keeps the events of an id that wait all or takes out all of them, among
those of a received event. -/
theorem thinnedBy_emitCommand {s : OutputState} (h : Output.Invariant s) {c : OutputCommand}
    (hresult : (emitCommand s c).result = .ok ()) :
    ThinnedBy (s.pendingEvents ++ receivedEvent s.policy c)
      (emitCommand s c).state.pendingEvents := by
  cases c with
  | response id result cancelledRequestId route =>
    have hretire := thinnedBy_retire (.refl s.pendingEvents) cancelledRequestId
    simp only [receivedEvent, List.append_nil, emitCommand, h.emitResponse_eq]
    cases result with
    | error error => exact hretire
    | ok response =>
      dsimp only
      split
      · exact hretire
      · rename_i tracked _
        split_ifs
        · exact hretire
        · have hactivated := hretire.filter tracked.id
          dsimp only [Emission.done]
          -- A terminal event of the replay retires the id, of which nothing waits any more.
          rcases OutputState.deliver_fst ((s.retire cancelledRequestId).activated tracked route)
            tracked.id _ with hs | hs
          · rw [hs]
            exact hactivated
          · rw [hs, OutputState.cancelled_pendingEvents]
            exact hactivated.filter tracked.id
  | cancelled id =>
    simp only [receivedEvent, List.append_nil, emitCommand, Emission.done]
    exact thinnedBy_retire (.refl s.pendingEvents) (some id)
  | resetCorrelation =>
    simp [ThinnedBy, emitCommand, Emission.done, OutputState.resetCorrelation]
  | event stream event =>
    cases hname : s.policy.eventId stream event with
    | none =>
      rw [emitCommand_event_ok hname (s.acceptEvent_none stream event)]
      simp only [receivedEvent, hname, Option.map_none, Option.toList_none, List.append_nil]
      exact .refl s.pendingEvents
    | some id =>
      simp only [receivedEvent, hname, Option.map_some, Option.toList_some]
      -- Of an id that is live or retired nothing waits, so a new event of it is thinned out alone.
      have hgone : (∀ e ∈ s.pendingEvents, e.id ≠ id) →
          ThinnedBy (s.pendingEvents ++ [⟨id, stream, event⟩]) s.pendingEvents := by
        intro hnone
        have hall := ThinnedBy.refl s.pendingEvents
        have hnew : (s.pendingEvents.any fun e => decide (e.id = id)) = false := by
          rw [List.any_eq_false]
          intro e he
          simpa using hnone e he
        unfold ThinnedBy at hall ⊢
        rw [List.filter_append, ← hall]
        simp [hnew]
      by_cases hsup : id ∈ s.suppressedIds
      · rw [emitCommand_event_ok hname (OutputState.acceptEvent_suppressed hsup stream event)]
        exact hgone fun e he heq => (h.pending e he).2 (heq ▸ hsup)
      · by_cases hactive : id ∈ s.activeIds
        · rw [emitCommand_event_ok hname (OutputState.acceptEvent_active hsup hactive stream event)]
          have hlive := hgone fun e he heq => (h.pending e he).1 (heq ▸ hactive)
          dsimp only [Emission.done]
          unfold OutputState.afterEvent
          split_ifs
          · rw [OutputState.cancelled_pendingEvents]
            exact hlive.filter id
          · exact hlive
        · by_cases hroom : s.pendingEvents.length < s.pendingLimit
          · rw [emitCommand_event_ok hname
              (OutputState.acceptEvent_buffered hsup hactive hroom stream event)]
            exact .refl _
          · rw [emitCommand_event_error hname
              (OutputState.acceptEvent_full hsup hactive hroom stream event)] at hresult
            cases hresult
  | _ =>
    simp only [receivedEvent, List.append_nil]
    exact .refl s.pendingEvents

/-! ## Steps -/

/-- What a command that is sent does: it joins the end of its queue. -/
theorem enqueue_cases {capacity : ℕ} {s t : BridgeState} {q : Queued}
    (h : s.enqueue capacity q = some t) :
    (isEvent q.command = true ∧ t = { s with events := s.events ++ [q] }) ∨
      (isEvent q.command = false ∧ t = { s with priority := s.priority ++ [q] }) := by
  unfold BridgeState.enqueue at h
  split_ifs at h with hevent
  · exact .inl ⟨hevent, (Option.some.inj h).symm⟩
  · exact .inr ⟨by simpa using hevent, (Option.some.inj h).symm⟩

/-- What a step does: the forwarder sends an event; the forwarder or another task sends another
command, a reset of the forwarder being counted; or the actor takes the first command, or the first
event when there is no command. -/
theorem bridge_step_cases {policy : CorrelationPolicy} {pendingLimit capacity : ℕ}
    {outcomes : List ForwardOutcome} {s t : BridgeState} {l : BridgeStep}
    (h : (bridge policy pendingLimit capacity outcomes).step s l = some t) :
    s.ended = false ∧
      ((∃ q todo, isEvent q.command = true ∧ q.generation = some s.resetsSent ∧
          t = { s with todo := todo, events := s.events ++ [q] }) ∨
        (∃ q todo n, isEvent q.command = false ∧
          ((q.reset? = none ∧ n = s.resetsSent) ∨
            (q.reset? = some s.resetsSent ∧ n = s.resetsSent + 1)) ∧
          t = { s with todo := todo, resetsSent := n, priority := s.priority ++ [q] }) ∨
        (l = .take ∧ ∃ q rest, s.priority = q :: rest ∧
          t = BridgeState.process { s with priority := rest } q) ∨
        ∃ q rest, s.events = q :: rest ∧ t = BridgeState.process { s with events := rest } q) := by
  unfold bridge at h
  dsimp only at h
  split_ifs at h with hended
  refine ⟨by simpa using hended, ?_⟩
  cases l with
  | forward =>
    cases htodo : s.todo with
    | nil => simp [htodo] at h
    | cons command todo =>
      simp only [htodo] at h
      rcases enqueue_cases h with ⟨hevent, rfl⟩ | ⟨hevent, rfl⟩
      -- An event is not a reset, so sending it leaves the count of resets as it is.
      · have hreset : isReset command = false := by
          cases command <;> first | rfl | cases hevent
        refine .inl ⟨_, todo, hevent, rfl, ?_⟩
        simp [hreset]
      · refine .inr (.inl ⟨_, todo, _, hevent, ?_, rfl⟩)
        by_cases hreset : isReset command = true
        · exact .inr ⟨by simp [Queued.reset?, hreset], by simp [hreset]⟩
        · exact .inl ⟨by simp [Queued.reset?, hreset], by simp [hreset]⟩
  | request command =>
    dsimp only at h
    split_ifs at h with hevent
    rcases enqueue_cases h with ⟨hevent', -⟩ | ⟨hevent', rfl⟩
    · exact absurd hevent' hevent
    · exact .inr (.inl ⟨_, s.todo, s.resetsSent, hevent', .inl ⟨by simp [Queued.reset?], rfl⟩, rfl⟩)
  | take =>
    cases hpriority : s.priority with
    | cons q rest =>
      simp only [hpriority] at h
      exact .inr (.inr (.inl ⟨rfl, q, rest, rfl, (Option.some.inj h).symm⟩))
    | nil =>
      cases hevents : s.events with
      | cons q rest =>
        simp only [hpriority, hevents] at h
        exact .inr (.inr (.inr ⟨q, rest, rfl, (Option.some.inj h).symm⟩))
      | nil => simp [hpriority, hevents] at h

/-! ## The invariant -/

/-- What holds in every reachable state. -/
structure Consistent (s : BridgeState) : Prop where
  /-- The invariant of the actor. -/
  output : Output.Invariant s.output
  /-- Only commands that are not events travel on the priority queue. -/
  priority : ∀ q ∈ s.priority, isEvent q.command = false
  /-- Only events of the forwarder travel on the event queue. -/
  events : ∀ q ∈ s.events, isEvent q.command = true ∧ q.generation.isSome = true
  /-- The resets of the forwarder that are on their way are those that the actor has not seen. -/
  resets : ∃ n, s.priority.filterMap Queued.reset? = List.range' s.resetsSeen n ∧
    s.resetsSent = s.resetsSeen + n
  /-- The recorded ids are those of the events that wait. -/
  waiting : s.ended = false → s.waiting.map Prod.fst = s.output.pendingEvents.map PendingEvent.id

/-- The ids recorded after a command are those of the events that wait after it. -/
theorem restamp_ids {s : BridgeState} {q : Queued} (h : Output.Invariant s.output)
    (hq : isEvent q.command = true → q.generation.isSome = true)
    (hwaiting : s.waiting.map Prod.fst = s.output.pendingEvents.map PendingEvent.id)
    (hresult : (emitCommand s.output q.command).result = .ok ()) :
    (s.restamp q (emitCommand s.output q.command)).map Prod.fst =
      (emitCommand s.output q.command).state.pendingEvents.map PendingEvent.id := by
  have hthin := thinnedBy_emitCommand h hresult
  have hreceived : (((q.eventId s.output.policy).bind fun id =>
      q.generation.map fun g => (id, g)).toList).map Prod.fst =
        (receivedEvent s.output.policy q.command).map PendingEvent.id := by
    unfold Queued.eventId receivedEvent
    cases hc : q.command with
    | event stream event =>
      rw [hc] at hq
      obtain ⟨g, hg⟩ := Option.isSome_iff_exists.1 (hq rfl)
      rw [hg]
      dsimp only
      cases s.output.policy.eventId stream event <;> rfl
    | _ => rfl
  unfold BridgeState.restamp
  generalize (emitCommand s.output q.command).state.pendingEvents = new at hthin ⊢
  -- Thinning out the records is thinning out their ids, which `hthin` is about.
  have hids : ∀ l : List (String × ℕ), (l.filter fun w => new.any (·.id = w.1)).map Prod.fst =
      (l.map Prod.fst).filter fun id => new.any (·.id = id) := by
    intro l
    rw [List.filter_map]
    rfl
  rw [hids, List.map_append, hreceived, hwaiting, ← List.map_append, List.filter_map]
  exact congrArg _ hthin.symm

/-- An event is not a reset. -/
theorem reset?_of_isEvent {q : Queued} (h : isEvent q.command = true) : q.reset? = none := by
  unfold Queued.reset?
  rw [if_neg]
  cases hc : q.command <;> simp_all [isEvent, isReset]

/-- Processing a command keeps what the other commands on their way must satisfy, and the counting
of resets goes on. -/
theorem Consistent.process {s : BridgeState} {q : Queued} (houtput : Output.Invariant s.output)
    (hpriority : ∀ q ∈ s.priority, isEvent q.command = false)
    (hevents : ∀ q ∈ s.events, isEvent q.command = true ∧ q.generation.isSome = true)
    (hq : isEvent q.command = true → q.generation.isSome = true)
    (hresets : ∃ n, q.reset?.toList ++ s.priority.filterMap Queued.reset? =
      List.range' s.resetsSeen n ∧ s.resetsSent = s.resetsSeen + n)
    (hwaiting : s.waiting.map Prod.fst = s.output.pendingEvents.map PendingEvent.id) :
    Consistent (s.process q) where
  output := houtput.emitCommand q.command
  priority := hpriority
  events := hevents
  resets := by
    obtain ⟨n, hrange, hsent⟩ := hresets
    show ∃ n, s.priority.filterMap Queued.reset? =
      List.range' (if q.reset?.isSome then s.resetsSeen + 1 else s.resetsSeen) n ∧ s.resetsSent =
        (if q.reset?.isSome then s.resetsSeen + 1 else s.resetsSeen) + n
    cases hreset : q.reset? with
    | none =>
      rw [hreset] at hrange
      exact ⟨n, hrange, hsent⟩
    | some g =>
      rw [hreset] at hrange
      cases n with
      | zero => simp at hrange
      | succ n =>
        -- The reset being processed is the first of those on their way.
        rw [List.range'_succ] at hrange
        refine ⟨n, (List.cons.inj hrange).2, ?_⟩
        simp only [Option.isSome_some, if_true]
        omega
  waiting := by
    intro hended
    have hok : (emitCommand s.output q.command).result = .ok () := by
      cases hresult : (emitCommand s.output q.command).result with
      | ok _ => rfl
      | error e => simp [BridgeState.process, hresult, Except.isOk, Except.toBool] at hended
    exact restamp_ids houtput hq hwaiting hok

/-- A step keeps the invariant. -/
theorem Consistent.step {policy : CorrelationPolicy} {pendingLimit capacity : ℕ}
    {outcomes : List ForwardOutcome} {s t : BridgeState} {l : BridgeStep} (h : Consistent s)
    (hstep : (bridge policy pendingLimit capacity outcomes).step s l = some t) :
    Consistent t := by
  obtain ⟨hended, ⟨q, todo, hevent, hgen, rfl⟩ | ⟨q, todo, n, hevent, hreset, rfl⟩ |
    ⟨-, q, rest, hq, rfl⟩ | ⟨q, rest, hq, rfl⟩⟩ := bridge_step_cases hstep
  -- The forwarder enqueues an event of the generation that follows the last reset.
  · refine ⟨h.output, h.priority, ?_, h.resets, h.waiting⟩
    intro q' hq'
    rcases List.mem_append.1 hq' with hq' | hq'
    · exact h.events q' hq'
    · obtain rfl := List.mem_singleton.1 hq'
      exact ⟨hevent, by simp [hgen]⟩
  -- It enqueues something else, a reset with the next number if it is one.
  · refine ⟨h.output, ?_, h.events, ?_, h.waiting⟩
    · intro q' hq'
      rcases List.mem_append.1 hq' with hq' | hq'
      · exact h.priority q' hq'
      · obtain rfl := List.mem_singleton.1 hq'
        exact hevent
    · obtain ⟨m, hrange, hsent⟩ := h.resets
      rcases hreset with ⟨hreset, rfl⟩ | ⟨hreset, rfl⟩
      · exact ⟨m, by simp [hrange, hreset], hsent⟩
      · refine ⟨m + 1, ?_, ?_⟩
        · rw [List.range'_concat]
          simp [hrange, hreset, hsent]
        · show s.resetsSent + 1 = s.resetsSeen + (m + 1)
          omega
  -- The actor takes what has priority, and a reset is the next in number.
  · refine Consistent.process h.output ?_ h.events ?_ ?_ (h.waiting hended)
    · exact fun q' hq' => h.priority q' (hq ▸ List.mem_cons_of_mem _ hq')
    · intro hevent
      rw [h.priority q (hq ▸ List.mem_cons_self)] at hevent
      cases hevent
    · obtain ⟨n, hrange, hsent⟩ := h.resets
      refine ⟨n, ?_, hsent⟩
      rw [← hrange, hq]
      cases hreset : q.reset? <;> simp [hreset]
  -- The actor takes an event, and the resets stay as they are.
  · have hmem := h.events q (hq ▸ List.mem_cons_self)
    refine Consistent.process h.output h.priority ?_ (fun _ => hmem.2) ?_ (h.waiting hended)
    · exact fun q' hq' => h.events q' (hq ▸ List.mem_cons_of_mem _ hq')
    · rw [reset?_of_isEvent hmem.1]
      exact h.resets

/-- The initial state keeps the invariant. -/
theorem consistent_init (policy : CorrelationPolicy) (pendingLimit capacity : ℕ)
    (outcomes : List ForwardOutcome) :
    Consistent (bridge policy pendingLimit capacity outcomes).init where
  output := .new policy pendingLimit
  priority := by simp [bridge]
  events := by simp [bridge]
  resets := ⟨0, rfl, rfl⟩
  waiting := fun _ => rfl

/-- In every reachable state in which the actor runs, the observed ids are those of the events that
wait, in the same order. -/
theorem waiting_ids {policy : CorrelationPolicy} {pendingLimit capacity : ℕ}
    {outcomes : List ForwardOutcome} {s : BridgeState}
    (h : (bridge policy pendingLimit capacity outcomes).Reachable s) (hended : s.ended = false) :
    s.waiting.map Prod.fst = s.output.pendingEvents.map PendingEvent.id := by
  have hinv : Consistent s :=
    Machine.invariant_of_reachable (consistent_init policy pendingLimit capacity outcomes)
      (fun _ _ _ hs hstep => hs.step hstep) h
  exact hinv.waiting hended

/-! ## Generations -/

/-- When the actor takes a reset of the forwarder, no event of an id that the forwarder enqueued
before that reset is still in the event queue. -/
def NoneOvertaken (s : BridgeState) : BridgeStep → Prop
  | .take => ∀ q, s.priority.head? = some q → ∀ reset, q.reset? = some reset →
      ∀ e ∈ s.events, ∀ id, e.eventId s.output.policy = some id →
        ∀ generation, e.generation = some generation → reset < generation
  | _ => True

/-- The invariant of the runs in which no reset overtakes an event. -/
structure Apart (s : BridgeState) : Prop where
  /-- What holds in every run. -/
  consistent : Consistent s
  /-- The events of ids on their way are of the generation that the actor is in, or of a later
  one. -/
  events : ∀ e ∈ s.events, ∀ id, e.eventId s.output.policy = some id →
    ∀ generation, e.generation = some generation → s.resetsSeen ≤ generation
  /-- So are the events that wait. -/
  waiting : ∀ w ∈ s.waiting, s.resetsSeen ≤ w.2
  /-- No acknowledgement is of a later generation. -/
  acknowledged : ∀ id, s.acknowledged id ≤ s.resetsSeen
  /-- The lines written so far. -/
  written : ∀ w ∈ s.written, w.separated

/-- The recorded events after a command are among those recorded before it and its own. -/
theorem mem_restamp {s : BridgeState} {q : Queued} {after : Emission} {w : String × ℕ}
    (h : w ∈ s.restamp q after) :
    (w ∈ s.waiting ∨ (q.eventId s.output.policy = some w.1 ∧ q.generation = some w.2)) ∧
      ∃ e ∈ after.state.pendingEvents, e.id = w.1 := by
  unfold BridgeState.restamp at h
  obtain ⟨hmem, hany⟩ := List.mem_filter.1 h
  refine ⟨?_, by simpa using hany⟩
  rcases List.mem_append.1 hmem with hmem | hmem
  · exact .inl hmem
  · right
    rw [Option.mem_toList, Option.bind_eq_some_iff] at hmem
    obtain ⟨id, hid, hg⟩ := hmem
    obtain ⟨g, hgeneration, rfl⟩ := Option.map_eq_some_iff.1 hg
    exact ⟨hid, hgeneration⟩

/-- The lines that a command writes are of its own event, or of events that waited for the id it
acknowledges. -/
theorem mem_eventLines {s : BridgeState} {q : Queued} {after : Emission} {w : Written}
    (h : w ∈ s.eventLines q after) :
    (q.eventId s.output.policy = some w.id ∧ q.generation = some w.generation ∧
        w.acknowledged = s.acknowledged w.id) ∨
      ((w.id, w.generation) ∈ s.waiting ∧ w.acknowledged = s.resetsSeen) := by
  unfold BridgeState.eventLines at h
  split at h
  · rename_i id g hid hg
    split_ifs at h
    · obtain ⟨_, -, rfl⟩ := List.mem_map.1 h
      exact .inl ⟨hid, hg, rfl⟩
    · cases h
  · split at h
    · rename_i id _
      obtain ⟨v, hv, rfl⟩ := List.mem_map.1 h
      obtain ⟨hv, hid⟩ := List.mem_filter.1 (List.mem_of_mem_take hv)
      have hid : v.1 = id := by simpa using hid
      exact .inr ⟨hid ▸ hv, rfl⟩
    · cases h

/-- Processing a command whose event, if it is one, is not of an earlier generation, and behind
which no event of an earlier generation is left, keeps the generations apart. -/
theorem Apart.process {s : BridgeState} {q : Queued} (hconsistent : Consistent (s.process q))
    (houtput : Output.Invariant s.output)
    (hq : ∀ id, q.eventId s.output.policy = some id →
      ∀ generation, q.generation = some generation → s.resetsSeen ≤ generation)
    (hevents : ∀ e ∈ s.events, ∀ id, e.eventId s.output.policy = some id →
      ∀ generation, e.generation = some generation → (s.process q).resetsSeen ≤ generation)
    (hwaiting : ∀ w ∈ s.waiting, s.resetsSeen ≤ w.2)
    (hacknowledged : ∀ id, s.acknowledged id ≤ s.resetsSeen)
    (hwritten : ∀ w ∈ s.written, w.separated) : Apart (s.process q) where
  consistent := hconsistent
  events := by
    have hpolicy : (s.process q).output.policy = s.output.policy :=
      (houtput.emitCommand_frame q.command).1
    rw [hpolicy]
    exact hevents
  waiting := by
    intro w hw
    obtain ⟨hfrom, e, he, -⟩ := mem_restamp hw
    have hseen : (s.process q).resetsSeen = s.resetsSeen := by
      -- After a reset nothing waits.
      show (if q.reset?.isSome then s.resetsSeen + 1 else s.resetsSeen) = s.resetsSeen
      rw [if_neg]
      intro hreset
      unfold Queued.reset? at hreset
      split_ifs at hreset with hcommand
      · cases hc : q.command <;> rw [hc] at hcommand he <;> first
          | (simp [isReset] at hcommand; done)
          | simp [emitCommand, Emission.done, OutputState.resetCorrelation] at he
      · cases hreset
    rw [hseen]
    rcases hfrom with hmem | ⟨hid, hg⟩
    · exact hwaiting w hmem
    · exact hq w.1 hid w.2 hg
  acknowledged := by
    intro id
    -- An id is acknowledged under the count from before the command, which only grows.
    have hle : s.resetsSeen ≤ (s.process q).resetsSeen := by
      show s.resetsSeen ≤ if q.reset?.isSome then s.resetsSeen + 1 else s.resetsSeen
      split_ifs <;> omega
    refine le_trans ?_ hle
    unfold BridgeState.process
    cases acknowledgedId s.output.policy q.command with
    | none => exact hacknowledged id
    | some a =>
      show Function.update s.acknowledged a s.resetsSeen id ≤ s.resetsSeen
      by_cases ha : id = a
      · simp [ha]
      · rw [Function.update_of_ne ha]
        exact hacknowledged id
  written := by
    intro w hw
    rcases List.mem_append.1 hw with hw | hw
    · exact hwritten w hw
    · unfold Written.separated
      rcases mem_eventLines hw with ⟨hid, hg, hack⟩ | ⟨hmem, hack⟩
      · rw [hack]
        -- A live event: its acknowledgement is of this generation or an earlier one.
        exact (hacknowledged w.id).trans (hq w.id hid w.generation hg)
      · rw [hack]
        -- A replayed event, under an acknowledgement that is being processed now.
        exact hwaiting _ hmem

/-- A step in which no reset overtakes an event keeps the generations apart. -/
theorem Apart.step {policy : CorrelationPolicy} {pendingLimit capacity : ℕ}
    {outcomes : List ForwardOutcome} {s t : BridgeState} {l : BridgeStep} (h : Apart s)
    (hmeets : NoneOvertaken s l)
    (hstep : (bridge policy pendingLimit capacity outcomes).step s l = some t) : Apart t := by
  have hconsistent := h.consistent.step hstep
  obtain ⟨-, ⟨q, todo, hevent, hgen, rfl⟩ | ⟨q, todo, n, hevent, hreset, rfl⟩ |
    ⟨rfl, q, rest, hq, rfl⟩ | ⟨q, rest, hq, rfl⟩⟩ := bridge_step_cases hstep
  · refine ⟨hconsistent, ?_, h.waiting, h.acknowledged, h.written⟩
    intro e he id hid g hg
    rcases List.mem_append.1 he with he | he
    · exact h.events e he id hid g hg
    -- A new event is of the generation of the forwarder.
    · obtain rfl := List.mem_singleton.1 he
      obtain ⟨m, -, hsent⟩ := h.consistent.resets
      rw [hgen] at hg
      obtain rfl := Option.some.inj hg
      show s.resetsSeen ≤ s.resetsSent
      omega
  · exact ⟨hconsistent, h.events, h.waiting, h.acknowledged, h.written⟩
  · have hnotEvent := h.consistent.priority q (hq ▸ List.mem_cons_self)
    refine Apart.process hconsistent h.consistent.output ?_ ?_ h.waiting h.acknowledged h.written
    · intro id hid
      unfold Queued.eventId at hid
      split at hid
      · rename_i hc
        rw [hc] at hnotEvent
        cases hnotEvent
      · cases hid
    · intro e he id hid g hg
      have hold := h.events e he id hid g hg
      show (if q.reset?.isSome then s.resetsSeen + 1 else s.resetsSeen) ≤ g
      cases hreset : q.reset? with
      | none => exact hold
      | some reset =>
        -- The reset is the one that the actor sees next.
        have hfirst : reset = s.resetsSeen := by
          obtain ⟨n, hrange, -⟩ := h.consistent.resets
          rw [hq, List.filterMap_cons_some hreset] at hrange
          cases n with
          | zero => cases hrange
          | succ n =>
            rw [List.range'_succ] at hrange
            exact (List.cons.inj hrange).1
        have hlater := hmeets q (by rw [hq]; rfl) reset hreset e he id hid g hg
        simp only [Option.isSome_some, if_true]
        omega
  · have hmem := h.consistent.events q (hq ▸ List.mem_cons_self)
    refine Apart.process hconsistent h.consistent.output ?_ ?_ h.waiting h.acknowledged h.written
    · exact h.events q (hq ▸ List.mem_cons_self)
    · intro e he id hid g hg
      have hold := h.events e (hq ▸ List.mem_cons_of_mem _ he) id hid g hg
      show (if q.reset?.isSome then s.resetsSeen + 1 else s.resetsSeen) ≤ g
      rw [reset?_of_isEvent hmem.1]
      exact hold

/-- In every run in which no reset of the forwarder overtakes an event of an id, no event that was
enqueued before a reset is written under an acknowledgement that was processed after it. -/
theorem generations_separated (policy : CorrelationPolicy) (pendingLimit capacity : ℕ)
    (outcomes : List ForwardOutcome) {labels : List BridgeStep} {s : BridgeState}
    (hmeets : (bridge policy pendingLimit capacity outcomes).StepsMeet NoneOvertaken
      (bridge policy pendingLimit capacity outcomes).init labels)
    (hrun : (bridge policy pendingLimit capacity outcomes).run
      (bridge policy pendingLimit capacity outcomes).init labels = some s) :
    ∀ w ∈ s.written, w.separated := by
  have hinit : Apart (bridge policy pendingLimit capacity outcomes).init := by
    refine ⟨consistent_init policy pendingLimit capacity outcomes, ?_, ?_, ?_, ?_⟩
    · simp [bridge]
    · simp [bridge]
    · simp [bridge]
    · simp [bridge]
  exact (Machine.invariant_of_stepsMeet (fun _ _ _ hs hC hstep => hs.step hC hstep) hinit hmeets
    hrun).written

/-- An acknowledged subscription whose event is written before the reset that follows it. -/
theorem generations_separated_in_order :
    let m := bridge basicCorrelation 16 64
      [.ended [("clip", .object [("subscription_id", .string "s-1")])]]
    let ack := OutputCommand.response "1" (.ok (.object [("data", .object [("subscription",
      .object [("id", .string "s-1")])])])) none none
    ∃ s, m.run m.init [.request ack, .take, .forward, .take, .forward, .take] = some s ∧
      ∀ w ∈ s.written, w.separated := by
  intro m ack
  have hmeets : m.StepsMeet NoneOvertaken m.init
      [.request ack, .take, .forward, .take, .forward, .take] := by
    refine Machine.stepsMeet_cons trivial rfl ?_
    -- The actor takes the response, then the event, and the reset last.
    refine Machine.stepsMeet_cons (by rintro q - reset - e he; cases he) rfl ?_
    refine Machine.stepsMeet_cons trivial rfl ?_
    refine Machine.stepsMeet_cons (by rintro q hq; cases hq) rfl ?_
    refine Machine.stepsMeet_cons trivial rfl ?_
    exact Machine.stepsMeet_cons (by rintro q - reset - e he; cases he) rfl trivial
  exact ⟨_, rfl, @generations_separated basicCorrelation 16 64 _ _ _ hmeets rfl⟩

/-- The reset after a lost connection overtakes an event of the subscription `s-1`. The event then
waits for the `s-1` of the restarted daemon and is written behind its acknowledgement. -/
theorem generations_not_separated :
    ¬∀ (policy : CorrelationPolicy) (pendingLimit capacity : ℕ) (outcomes : List ForwardOutcome)
      (labels : List BridgeStep) (s : BridgeState),
      (bridge policy pendingLimit capacity outcomes).run
        (bridge policy pendingLimit capacity outcomes).init labels = some s →
      ∀ w ∈ s.written, w.separated := by
  intro h
  let ack := OutputCommand.response "1" (.ok (.object [("data", .object [("subscription",
    .object [("id", .string "s-1")])])])) none none
  have hlast := h basicCorrelation 16 64
    [.ended [("clip", .object [("subscription_id", .string "s-1")])]]
    [.request ack, .take, .forward, .forward, .take, .forward, .take, .take, .request ack, .take]
    _ rfl ⟨"s-1", 0, 1⟩ (by decide)
  simp [Written.separated] at hlast

end DaemonFramework.Bridge
