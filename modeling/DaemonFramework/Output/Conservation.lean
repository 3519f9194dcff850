import DaemonFramework.Gate
import DaemonFramework.Output.Representation

/-!
# Event conservation

As long as an id is not retired, the actor is a `Gate` for its events: it holds them until a
successful response acknowledges the id, and passes them on from then on. `gateOf` is this view of
the state, `gateInputs` of the commands and `eventsOf` of the lines; `Unretired.emitCommand` says
that one command does to the gate what its inputs do, and `Unretired.gate_run` that a run does.
Conservation and the place of the acknowledgement are then facts about gates.
-/

namespace DaemonFramework.Output

open OutputState

/-! ## One id's view of the actor -/

/-- The events of `id` among some lines. -/
def eventsOf (policy : CorrelationPolicy) (id : String) (lines : List Value) :
    List (String × Value) :=
  lines.filterMap fun line =>
    (eventOfLine line).filter fun e => policy.eventId e.1 e.2 = some id

/-- The events of `id` that wait. -/
def pendingOf (id : String) (s : OutputState) : List (String × Value) :=
  (s.pendingEvents.filter (·.id = id)).map fun e => (e.stream, e.event)

/-- The events of `id` among some commands. -/
def receivedOf (policy : CorrelationPolicy) (id : String) (cs : List OutputCommand) :
    List (String × Value) :=
  cs.filterMap fun
    | .event stream event =>
      if policy.eventId stream event = some id then some (stream, event) else none
    | _ => none

/-- The command retires `id`: a cancellation, a response that reports one, or a terminal event. -/
def Retires (policy : CorrelationPolicy) (id : String) : OutputCommand → Prop
  | .cancelled a => a = id
  | .response _ _ cancelledRequestId _ => cancelledRequestId = some id
  | .event stream event => policy.eventId stream event = some id ∧ policy.isTerminal stream event
  | _ => False

/-- The gate that the actor is for the events of `id`. -/
def gateOf (id : String) (s : OutputState) : Gate (String × Value) :=
  if id ∈ s.activeIds then .opened else .closed (pendingOf id s)

/-- What a command does to the gate of `id`. -/
def gateInputs (policy : CorrelationPolicy) (id : String) :
    OutputCommand → List (Gate.Input (String × Value))
  | .event stream event =>
    if policy.eventId stream event = some id then [.push (stream, event)] else []
  | .response _ (.ok response) _ _ =>
    if (policy.responseId response).map TrackedId.id = some id then [.release] else []
  | _ => []

@[simp] theorem eventsOf_nil (policy : CorrelationPolicy) (id : String) :
    eventsOf policy id [] = [] := rfl

@[simp] theorem eventsOf_append (policy : CorrelationPolicy) (id : String)
    (lines lines' : List Value) :
    eventsOf policy id (lines ++ lines') = eventsOf policy id lines ++ eventsOf policy id lines' :=
  List.filterMap_append

/-- A line that is no event adds no event. -/
theorem eventsOf_cons_of_none {policy : CorrelationPolicy} {id : String} {line : Value}
    (h : eventOfLine line = none) (lines : List Value) :
    eventsOf policy id (line :: lines) = eventsOf policy id lines := by
  simp [eventsOf, h]

/-- The line of an event of `id` adds the event. -/
theorem eventsOf_eventLine {s : OutputState} {policy : CorrelationPolicy} {id stream : String}
    {event : Value} (h : policy.eventId stream event = some id) (lines : List Value) :
    eventsOf policy id (s.eventLine stream event :: lines) =
      (stream, event) :: eventsOf policy id lines := by
  simp [eventsOf, eventLine, h, Option.filter]

/-- The line of an event of no or another id adds no event. -/
theorem eventsOf_eventLine_ne {s : OutputState} {policy : CorrelationPolicy} {id stream : String}
    {event : Value} (h : policy.eventId stream event ≠ some id) (lines : List Value) :
    eventsOf policy id (s.eventLine stream event :: lines) = eventsOf policy id lines := by
  simp [eventsOf, eventLine, h, Option.filter]

/-- The pushes of some commands are the events received with them. -/
theorem pushed_gateInputs (policy : CorrelationPolicy) (id : String) (cs : List OutputCommand) :
    Gate.pushed (cs.flatMap (gateInputs policy id)) = receivedOf policy id cs := by
  induction cs with
  | nil => rfl
  | cons c cs ih =>
    have hone : Gate.pushed (gateInputs policy id c) = receivedOf policy id [c] := by
      cases c with
      | event stream event =>
        simp only [gateInputs, receivedOf]
        split_ifs with h <;> simp [Gate.pushed, h]
      | response request result cancelledRequestId route =>
        cases result with
        | error error => rfl
        | ok response =>
          simp only [gateInputs]
          split_ifs <;> rfl
      | _ => rfl
    calc Gate.pushed ((c :: cs).flatMap (gateInputs policy id))
        = Gate.pushed (gateInputs policy id c) ++ Gate.pushed (cs.flatMap (gateInputs policy id)) :=
          List.filterMap_append
      _ = receivedOf policy id [c] ++ receivedOf policy id cs := by rw [hone, ih]
      _ = receivedOf policy id (c :: cs) := by
          unfold receivedOf
          rw [← List.filterMap_append]
          rfl

/-- The gate depends only on whether the id is live and on what waits for it. -/
theorem gateOf_congr {id : String} {s s' : OutputState}
    (hactive : id ∈ s'.activeIds ↔ id ∈ s.activeIds)
    (hpending : s'.pendingEvents.filter (·.id = id) = s.pendingEvents.filter (·.id = id)) :
    gateOf id s' = gateOf id s := by
  unfold gateOf pendingOf
  rw [hpending]
  simp only [hactive]

/-- Retiring another id leaves the gate as it is. -/
theorem gateOf_cancelled {id a : String} (h : a ≠ id) (s : OutputState) :
    gateOf id (s.cancelled a) = gateOf id s := by
  apply gateOf_congr
  · rw [cancelled_activeIds, AList.mem_erase]
    exact and_iff_right h.symm
  · rw [cancelled_pendingEvents, List.filter_filter]
    apply List.filter_congr
    intro e _
    by_cases he : e.id = id
    · simp [he, h.symm]
    · simp [he]

/-- A closed gate holds the waiting events, and a released one nothing, since none wait. -/
theorem Invariant.held_gateOf {s : OutputState} (h : Invariant s) (id : String) :
    (gateOf id s).held = pendingOf id s := by
  unfold gateOf
  split_ifs with hactive
  · have hnone : s.pendingEvents.filter (·.id = id) = [] := by
      rw [List.filter_eq_nil_iff]
      -- Only the events of ids that are not live wait.
      intro e he heq
      have heq : e.id = id := by simpa using heq
      exact (h.pending e he).1 (heq ▸ hactive)
    simp [Gate.held, pendingOf, hnone]
  · rfl

/-- The events of an id that are delivered to another id's gate: none. -/
theorem eventsOf_deliver_ne {s : OutputState} {policy : CorrelationPolicy} {id a : String}
    (hne : a ≠ id) {events : List (String × Value)}
    (hid : ∀ e ∈ events, policy.eventId e.1 e.2 = some a) :
    eventsOf policy id (s.deliver a events).2 = [] := by
  induction events with
  | nil => rfl
  | cons e rest ih =>
    obtain ⟨stream, event⟩ := e
    have hname : policy.eventId stream event ≠ some id := by
      rw [hid (stream, event) List.mem_cons_self]
      exact fun h => hne (Option.some.inj h)
    simp only [OutputState.deliver]
    split_ifs
    · rw [eventsOf_eventLine_ne hname, eventsOf_nil]
    · rw [eventsOf_eventLine_ne hname]
      exact ih fun e he => hid e (List.mem_cons_of_mem _ he)

/-- Events that are not terminal are all delivered. -/
theorem deliver_of_not_terminal {s : OutputState} {id : String} {events : List (String × Value)}
    (hid : ∀ e ∈ events, s.policy.eventId e.1 e.2 = some id)
    (hterm : ∀ e ∈ events, ¬s.policy.isTerminal e.1 e.2) :
    (s.deliver id events).1 = s ∧ eventsOf s.policy id (s.deliver id events).2 = events := by
  induction events with
  | nil => exact ⟨rfl, rfl⟩
  | cons e rest ih =>
    obtain ⟨stream, event⟩ := e
    obtain ⟨hstate, hevents⟩ := ih (fun e he => hid e (List.mem_cons_of_mem _ he))
      fun e he => hterm e (List.mem_cons_of_mem _ he)
    have hname : s.policy.eventId stream event = some id := hid _ List.mem_cons_self
    simp only [OutputState.deliver, if_neg (hterm _ List.mem_cons_self)]
    refine ⟨hstate, ?_⟩
    rw [eventsOf_eventLine hname, hevents]

/-! ## One command -/

/-- The invariant of a run that does not retire `id`. -/
structure Unretired (id : String) (s : OutputState) : Prop where
  /-- The invariant of every run. -/
  invariant : Invariant s
  /-- The id is not retired. -/
  suppressed : id ∉ s.suppressedIds
  /-- None of its waiting events would retire it. -/
  pending : ∀ e ∈ s.pendingEvents, e.id = id → ¬s.policy.isTerminal e.stream e.event

namespace Unretired

variable {id : String} {s : OutputState}

/-- Retiring another id. -/
theorem cancelled (h : Unretired id s) {a : String} (hne : a ≠ id) :
    Unretired id (s.cancelled a) where
  invariant := h.invariant.cancelled a
  suppressed := fun hmem =>
    (h.invariant.mem_suppressedIds_cancelled hmem).elim h.suppressed hne.symm
  pending := by
    intro e he
    rw [cancelled_pendingEvents] at he
    rw [cancelled_policy]
    exact h.pending e (List.mem_of_mem_filter he)

/-- Reporting the cancellation of another id, or of none. -/
theorem retire (h : Unretired id s) {a : Option String} (hne : a ≠ some id) :
    Unretired id (s.retire a) ∧ gateOf id (s.retire a) = gateOf id s := by
  cases a with
  | none => exact ⟨h, rfl⟩
  | some a =>
    have hne : a ≠ id := fun heq => hne (congrArg some heq)
    exact ⟨h.cancelled hne, gateOf_cancelled hne s⟩

/-- Acknowledging an id that is not retired. -/
theorem activated (h : Unretired id s) {tracked : TrackedId} (hsup : tracked.id ∉ s.suppressedIds)
    (route : Option ClientRoute) : Unretired id (s.activated tracked route) where
  invariant := h.invariant.activated hsup route
  suppressed := h.suppressed
  pending := fun e he => h.pending e (List.mem_of_mem_filter he)

/-- Delivering the events of another id. -/
theorem deliver (h : Unretired id s) {a : String} (hne : a ≠ id)
    (events : List (String × Value)) :
    Unretired id (s.deliver a events).1 ∧ gateOf id (s.deliver a events).1 = gateOf id s := by
  rcases s.deliver_fst a events with hs | hs
  · rw [hs]
    exact ⟨h, rfl⟩
  · rw [hs]
    exact ⟨h.cancelled hne, gateOf_cancelled hne s⟩

/-- Acknowledging another id leaves the gate as it is. -/
theorem gateOf_activated_ne {tracked : TrackedId} (hne : tracked.id ≠ id)
    (s : OutputState) (route : Option ClientRoute) :
    gateOf id (s.activated tracked route) = gateOf id s := by
  apply gateOf_congr
  · show id ∈ s.activeIds.insert tracked.id _ ↔ _
    rw [AList.mem_insert]
    exact or_iff_right hne.symm
  · show (s.pendingEvents.filter _).filter _ = _
    rw [List.filter_filter]
    apply List.filter_congr
    intro e _
    by_cases he : e.id = id
    · simp [he, hne.symm]
    · simp [he]

/-- What waits for an acknowledged id is written behind the response, whole. -/
theorem deliver_pending (h : Unretired id s) (route : Option ClientRoute) {tracked : TrackedId}
    (hid : tracked.id = id) :
    let delivered := (s.activated tracked route).deliver tracked.id (pendingOf id s)
    delivered.1 = s.activated tracked route ∧
      eventsOf s.policy id delivered.2 = pendingOf id s := by
  subst hid
  have hmem : ∀ e ∈ pendingOf tracked.id s,
      s.policy.eventId e.1 e.2 = some tracked.id ∧ ¬s.policy.isTerminal e.1 e.2 := by
    intro e he
    obtain ⟨p, hp, rfl⟩ := List.mem_map.1 he
    obtain ⟨hp, hpid⟩ := List.mem_filter.1 hp
    have hpid : p.id = tracked.id := by simpa using hpid
    exact ⟨hpid ▸ h.invariant.named p hp, h.pending p hp hpid⟩
  exact deliver_of_not_terminal (s := s.activated tracked route)
    (fun e he => (hmem e he).1) fun e he => (hmem e he).2

/-- A response does to the gate what its inputs do. -/
theorem emitResponse (h : Unretired id s) (request : String) (result : Except String Value)
    {cancelledRequestId : Option String} (hne : cancelledRequestId ≠ some id)
    (route : Option ClientRoute) :
    let emission := Output.emitResponse s request result cancelledRequestId route
    Unretired id emission.state ∧
      (gateOf id s).run
          (gateInputs s.policy id (.response request result cancelledRequestId route)) =
        (gateOf id emission.state, eventsOf s.policy id emission.lines) := by
  obtain ⟨h', hgate⟩ := h.retire hne
  have hpolicy := s.retire_policy cancelledRequestId
  rw [← hgate, h.invariant.emitResponse_eq]
  rw [← hpolicy]
  generalize s.retire cancelledRequestId = s' at h' ⊢
  cases result with
  | error error =>
    exact ⟨h', by simp [gateInputs, Emission.done, eventsOf_cons_of_none]⟩
  | ok response =>
    dsimp only
    have hline := eventOfLine_responseMessage request response route
    split
    · rename_i hnone
      exact ⟨h', by simp [gateInputs, Emission.done, eventsOf_cons_of_none hline, hnone]⟩
    · rename_i tracked htracked
      split_ifs with hsup
      -- A late response to a retired id: that id is another one, so no gate is released.
      · have hid : tracked.id ≠ id := fun heq => h'.suppressed (heq ▸ hsup)
        exact ⟨h', by
          simp [gateInputs, Emission.done, eventsOf_cons_of_none hline, htracked, hid]⟩
      · by_cases hid : tracked.id = id
        -- The acknowledged id itself: its gate is released.
        · have hpending : (s'.pendingEvents.filter (·.id = tracked.id)).map
              (fun e => (e.stream, e.event)) = pendingOf id s' := by rw [hid]; rfl
          obtain ⟨hstate, hevents⟩ := h'.deliver_pending route hid
          rw [hpending]
          dsimp only [Emission.done]
          rw [hstate, eventsOf_cons_of_none hline, hevents]
          refine ⟨h'.activated hsup route, ?_⟩
          have hopen : gateOf id (s'.activated tracked route) = .opened :=
            if_pos ((AList.mem_insert _).2 (.inl hid.symm))
          have hinputs : gateInputs s'.policy id
              (.response request (.ok response) cancelledRequestId route) = [.release] := by
            simp [gateInputs, htracked, hid]
          have hheld := h'.invariant.held_gateOf id
          rw [hopen, hinputs, Gate.run_singleton]
          cases hg : gateOf id s' with
          | closed items =>
            rw [hg] at hheld
            rw [← hheld]
            rfl
          | opened =>
            rw [hg] at hheld
            rw [← hheld]
            rfl
        -- Another id is acknowledged: its events leave the buffer and are none of this id's.
        · have hname : ∀ e ∈ (s'.pendingEvents.filter (·.id = tracked.id)).map
              (fun e => (e.stream, e.event)), s'.policy.eventId e.1 e.2 = some tracked.id := by
            intro e he
            obtain ⟨p, hp, rfl⟩ := List.mem_map.1 he
            obtain ⟨hp, hpid⟩ := List.mem_filter.1 hp
            have hpid : p.id = tracked.id := by simpa using hpid
            exact hpid ▸ h'.invariant.named p hp
          obtain ⟨hafter, hsame⟩ := (h'.activated hsup route).deliver hid
            ((s'.pendingEvents.filter (·.id = tracked.id)).map fun e => (e.stream, e.event))
          refine ⟨hafter, ?_⟩
          dsimp only [Emission.done]
          rw [hsame, gateOf_activated_ne hid, eventsOf_cons_of_none hline,
            eventsOf_deliver_ne hid hname]
          simp [gateInputs, htracked, hid]

/-- Keeping an event that does not retire its id. -/
theorem buffered (h : Unretired id s) {a stream : String} {event : Value}
    (hname : s.policy.eventId stream event = some a) (hsup : a ∉ s.suppressedIds)
    (hactive : a ∉ s.activeIds) (hroom : s.pendingEvents.length < s.pendingLimit)
    (hterm : a = id → ¬s.policy.isTerminal stream event) :
    Unretired id { s with pendingEvents := s.pendingEvents ++ [⟨a, stream, event⟩] } where
  invariant := h.invariant.buffered hname hsup hactive hroom
  suppressed := h.suppressed
  pending := by
    intro e he heq
    rcases List.mem_append.1 he with he | he
    · exact h.pending e he heq
    · obtain rfl := List.mem_singleton.1 he
      exact hterm heq

/-- An event that fits into the buffer does to the gate what its inputs do. -/
theorem emitEvent (h : Unretired id s) {stream : String} {event : Value}
    (hret : ¬Retires s.policy id (.event stream event))
    (hresult : (Output.emitCommand s (.event stream event)).result = .ok ()) :
    let emission := Output.emitCommand s (.event stream event)
    Unretired id emission.state ∧
      (gateOf id s).run (gateInputs s.policy id (.event stream event)) =
        (gateOf id emission.state, eventsOf s.policy id emission.lines) := by
  cases hname : s.policy.eventId stream event with
  | none =>
    rw [emitCommand_event_ok hname (s.acceptEvent_none stream event)]
    have hne : s.policy.eventId stream event ≠ some id := by simp [hname]
    exact ⟨h, by simp [gateInputs, Emission.done, eventsOf_eventLine_ne hne, hname]⟩
  | some a =>
    have hterm : a = id → ¬s.policy.isTerminal stream event := fun heq hterm =>
      hret ⟨heq ▸ hname, hterm⟩
    have hinputs : gateInputs s.policy id (.event stream event) =
        if a = id then [.push (stream, event)] else [] := by
      simp only [gateInputs, hname, Option.some.injEq]
    rw [hinputs]
    by_cases hsup : a ∈ s.suppressedIds
    -- A retired id's event is dropped, and the id is another one.
    · have hne : a ≠ id := fun heq => h.suppressed (heq ▸ hsup)
      rw [emitCommand_event_ok hname (acceptEvent_suppressed hsup stream event), if_neg hne]
      exact ⟨h, rfl⟩
    · by_cases hactive : a ∈ s.activeIds
      · rw [emitCommand_event_ok hname (acceptEvent_active hsup hactive stream event)]
        by_cases heq : a = id
        -- The id's own event passes the released gate.
        · have hlive : s.afterEvent a stream event = s := if_neg (hterm heq)
          have hopen : gateOf id s = .opened := if_pos (heq ▸ hactive)
          rw [if_pos heq, hlive, hopen]
          refine ⟨h, ?_⟩
          show _ = (gateOf id s, eventsOf s.policy id [s.eventLine stream event])
          rw [hopen, eventsOf_eventLine (heq ▸ hname), eventsOf_nil]
          rfl
        -- A terminal event of another id retires that id, and this one's gate stays as it is.
        · have hne : s.policy.eventId stream event ≠ some id := by simpa [hname] using heq
          have hafter : Unretired id (s.afterEvent a stream event) ∧
              gateOf id (s.afterEvent a stream event) = gateOf id s := by
            unfold OutputState.afterEvent
            split_ifs
            · exact ⟨h.cancelled heq, gateOf_cancelled heq s⟩
            · exact ⟨h, rfl⟩
          rw [if_neg heq]
          refine ⟨hafter.1, ?_⟩
          show _ = (gateOf id (s.afterEvent a stream event),
            eventsOf s.policy id [s.eventLine stream event])
          rw [hafter.2, eventsOf_eventLine_ne hne, eventsOf_nil, Gate.run_nil]
      · by_cases hroom : s.pendingEvents.length < s.pendingLimit
        -- The event waits for its acknowledgement, at this id's gate if it is its own.
        · rw [emitCommand_event_ok hname (acceptEvent_buffered hsup hactive hroom stream event)]
          refine ⟨h.buffered hname hsup hactive hroom hterm, ?_⟩
          show _ = (gateOf id { s with
            pendingEvents := s.pendingEvents ++ [⟨a, stream, event⟩] }, [])
          by_cases heq : a = id
          · have hclosed : id ∉ s.activeIds := heq ▸ hactive
            rw [if_pos heq, Gate.run_singleton]
            simp [gateOf, hclosed, pendingOf, heq, Gate.step]
          · rw [if_neg heq, Gate.run_nil]
            simp [gateOf, pendingOf, heq]
        · rw [emitCommand_event_error hname
            (acceptEvent_full hsup hactive hroom stream event)] at hresult
          cases hresult

/-- A command that succeeds and does not retire the id does to its gate what its inputs do. -/
theorem emitCommand (h : Unretired id s) {c : OutputCommand} (hreset : c ≠ .resetCorrelation)
    (hret : ¬Retires s.policy id c) (hresult : (Output.emitCommand s c).result = .ok ()) :
    Unretired id (Output.emitCommand s c).state ∧
      (gateOf id s).run (gateInputs s.policy id c) =
        (gateOf id (Output.emitCommand s c).state,
          eventsOf s.policy id (Output.emitCommand s c).lines) := by
  cases c with
  | response request result cancelledRequestId route =>
    exact h.emitResponse request result hret route
  | event stream event => exact h.emitEvent hret hresult
  | cancelled a =>
    refine ⟨h.cancelled hret, ?_⟩
    show _ = (gateOf id (s.cancelled a), [])
    rw [gateOf_cancelled hret]
    rfl
  | resetCorrelation => exact absurd rfl hreset
  | activeIds => exact ⟨h, rfl⟩
  | requestError =>
    refine ⟨h, ?_⟩
    simp [Output.emitCommand, gateInputs, Emission.done, eventsOf_cons_of_none]
  | protocolError =>
    refine ⟨h, ?_⟩
    simp [Output.emitCommand, gateInputs, Emission.done, eventsOf_cons_of_none]
  | transportError =>
    refine ⟨h, ?_⟩
    simp [Output.emitCommand, gateInputs, Emission.done, eventsOf_cons_of_none]
  | shutdown =>
    refine ⟨h, ?_⟩
    simp [Output.emitCommand, gateInputs, Emission.done, eventsOf_cons_of_none]

end Unretired

/-! ## A run -/

/-- A run that begins with a successful command. -/
theorem emitCommands_cons_ok {s : OutputState} {c : OutputCommand}
    (h : (emitCommand s c).result = .ok ()) (cs : List OutputCommand) :
    emitCommands s (c :: cs) =
      { emitCommands (emitCommand s c).state cs with
        log := (c, (emitCommand s c).lines) :: (emitCommands (emitCommand s c).state cs).log } := by
  simp only [emitCommands, h]

/-- A run that begins with a failing command ends there. -/
theorem emitCommands_cons_error {s : OutputState} {c : OutputCommand} {error : String}
    (h : (emitCommand s c).result = .error error) (cs : List OutputCommand) :
    emitCommands s (c :: cs) =
      ⟨(emitCommand s c).state, [], (emitCommand s c).lines, .error error⟩ := by
  simp only [emitCommands, h]

/-- A run that ends without an error has processed every command. -/
theorem processed_of_ok {s : OutputState} {cs : List OutputCommand}
    (h : (emitCommands s cs).result = .ok ()) : (emitCommands s cs).processed = cs := by
  induction cs generalizing s with
  | nil => rfl
  | cons c cs ih =>
    cases hc : (emitCommand s c).result with
    | ok _ =>
      rw [emitCommands_cons_ok hc] at h ⊢
      exact congrArg (c :: ·) (ih h)
    | error error =>
      rw [emitCommands_cons_error hc] at h
      cases h

/-- A run that ends with an error has processed every command before an event that found the buffer
full, and its last line is the transport error that reports it. -/
theorem Invariant.processed_of_error {s : OutputState} (h : Invariant s) {cs : List OutputCommand}
    {error : String} (herror : (Output.emitCommands s cs).result = .error error) :
    error = overflowError ∧
      (Output.emitCommands s cs).lastLines = [transportErrorMessage error] ∧
      ∃ stream event rest,
        cs = (Output.emitCommands s cs).processed ++ .event stream event :: rest := by
  induction cs generalizing s with
  | nil => cases herror
  | cons c cs ih =>
    cases hc : (Output.emitCommand s c).result with
    | ok _ =>
      rw [emitCommands_cons_ok hc] at herror ⊢
      obtain ⟨hoverflow, hlast, stream, event, rest, hcs⟩ := ih (h.emitCommand c) herror
      exact ⟨hoverflow, hlast, stream, event, rest, congrArg (c :: ·) hcs⟩
    | error e =>
      rw [emitCommands_cons_error hc] at herror ⊢
      obtain rfl : e = error := by simpa using herror
      obtain ⟨hoverflow, ⟨stream, event, rfl⟩, -, -, hlines⟩ := h.emitCommand_error hc
      exact ⟨hoverflow, hlines, stream, event, cs, rfl⟩

/-- A run that does not retire the id does to its gate what the inputs of its commands do. -/
theorem Unretired.gate_run {id : String} {s : OutputState} (h : Unretired id s)
    {cs : List OutputCommand} (hreset : .resetCorrelation ∉ cs)
    (hret : ∀ c ∈ cs, ¬Retires s.policy id c) :
    Unretired id (emitCommands s cs).state ∧
      (gateOf id s).run ((emitCommands s cs).processed.flatMap (gateInputs s.policy id)) =
        (gateOf id (emitCommands s cs).state, eventsOf s.policy id (emitCommands s cs).lines) := by
  induction cs generalizing s with
  | nil => exact ⟨h, rfl⟩
  | cons c cs ih =>
    cases hc : (Output.emitCommand s c).result with
    | ok _ =>
      obtain ⟨h', hstep⟩ := h.emitCommand (fun heq => hreset (heq ▸ List.mem_cons_self))
        (hret c List.mem_cons_self) hc
      have hpolicy := (h.invariant.emitCommand_frame c).1
      obtain ⟨hend, hrun⟩ := ih h' (fun hmem => hreset (List.mem_cons_of_mem _ hmem))
        fun c' hc' => hpolicy ▸ hret c' (List.mem_cons_of_mem _ hc')
      rw [hpolicy] at hrun
      rw [emitCommands_cons_ok hc]
      refine ⟨hend, ?_⟩
      -- The first command's inputs come before those of the rest.
      show (gateOf id s).run (gateInputs s.policy id c ++ List.flatMap _ _) = _
      rw [Gate.run_append, hstep]
      dsimp only
      unfold ActorRun.processed at hrun
      unfold ActorRun.lines at hrun ⊢
      simp only [hrun, List.flatMap_cons, List.append_assoc, eventsOf_append]
    | error error =>
      -- The event that finds the buffer full leaves the state as it is and writes no event.
      obtain ⟨-, -, -, hstate, hlines⟩ := h.invariant.emitCommand_error hc
      rw [emitCommands_cons_error hc, hstate, hlines]
      exact ⟨h, by simp [ActorRun.processed, ActorRun.lines, eventsOf_cons_of_none]⟩

/-- The command is a successful response that the policy tracks to `id`, and its line is among the
lines. -/
def Acknowledges (policy : CorrelationPolicy) (id : String)
    (entry : OutputCommand × List Value) : Prop :=
  ∃ request response cancelledRequestId route,
    entry.1 = .response request (.ok response) cancelledRequestId route ∧
      (policy.responseId response).map TrackedId.id = some id ∧
      addressedMessage (responseMessage request response) route ∈ entry.2

/-- Only a successful response that the policy tracks to the id releases its gate. -/
theorem release_mem_gateInputs {policy : CorrelationPolicy} {id : String} {c : OutputCommand}
    (h : .release ∈ gateInputs policy id c) :
    ∃ request response cancelledRequestId route,
      c = .response request (.ok response) cancelledRequestId route ∧
        (policy.responseId response).map TrackedId.id = some id := by
  cases c with
  | event stream event =>
    simp only [gateInputs] at h
    split_ifs at h <;> simp at h
  | response request result cancelledRequestId route =>
    cases result with
    | error error => simp [gateInputs] at h
    | ok response =>
      simp only [gateInputs] at h
      split_ifs at h with htracked
      · exact ⟨request, response, cancelledRequestId, route, rfl, htracked⟩
      · simp at h
  | _ => simp [gateInputs] at h

/-- A response writes its own line first. -/
theorem emitCommand_response_lines (s : OutputState) (request : String) (response : Value)
    (cancelledRequestId : Option String) (route : Option ClientRoute) :
    ∃ rest, (emitCommand s (.response request (.ok response) cancelledRequestId route)).lines =
      addressedMessage (responseMessage request response) route :: rest :=
  ⟨_, rfl⟩

/-- A line of an event of an id is written by a run only after the line of a successful response
that the policy tracks to the id, if the id is not live at the start. -/
theorem Unretired.acknowledged {id : String} {s : OutputState} (h : Unretired id s)
    {cs : List OutputCommand} (hreset : .resetCorrelation ∉ cs)
    (hret : ∀ c ∈ cs, ¬Retires s.policy id c) (hactive : id ∉ s.activeIds)
    {pre post : List (OutputCommand × List Value)} {c : OutputCommand} {before after : List Value}
    {line : Value}
    (hlog : (emitCommands s cs).log = pre ++ (c, before ++ line :: after) :: post)
    (hline : eventsOf s.policy id [line] ≠ []) :
    ∃ entry ∈ pre ++ [(c, before)], Acknowledges s.policy id entry := by
  -- Over the commands: the one that opens the gate of the id is found.
  induction cs generalizing s pre with
  | nil => simp [emitCommands] at hlog
  | cons d cs ih =>
    cases hd : (Output.emitCommand s d).result with
    | error error =>
      rw [emitCommands_cons_error hd] at hlog
      simp at hlog
    | ok _ =>
      obtain ⟨h', hstep⟩ := h.emitCommand (fun heq => hreset (heq ▸ List.mem_cons_self))
        (hret d List.mem_cons_self) hd
      have hpolicy := (h.invariant.emitCommand_frame d).1
      rw [emitCommands_cons_ok hd] at hlog
      by_cases hrel : .release ∈ gateInputs s.policy id d
      -- The first command is the acknowledgement, and its line stands before its replay.
      · obtain ⟨request, response, cancelledRequestId, route, rfl, htracked⟩ :=
          release_mem_gateInputs hrel
        obtain ⟨rest, hlines⟩ :=
          emitCommand_response_lines s request response cancelledRequestId route
        have hack : ∀ lines, addressedMessage (responseMessage request response) route ∈ lines →
            Acknowledges s.policy id
              (.response request (.ok response) cancelledRequestId route, lines) :=
          fun lines hmem =>
            ⟨request, response, cancelledRequestId, route, rfl, htracked, hmem⟩
        rw [hlines] at hlog
        cases pre with
        | nil =>
          simp only [List.nil_append, List.cons.injEq, Prod.mk.injEq] at hlog
          obtain ⟨⟨rfl, hout⟩, -⟩ := hlog
          cases before with
          | nil =>
            obtain ⟨rfl, -⟩ := List.cons.inj hout
            rw [eventsOf_cons_of_none (eventOfLine_responseMessage _ _ _)] at hline
            exact absurd rfl hline
          | cons first before =>
            obtain ⟨rfl, -⟩ := List.cons.inj hout
            exact ⟨_, List.mem_singleton_self _, hack _ List.mem_cons_self⟩
        | cons entry pre =>
          obtain ⟨rfl, -⟩ := List.cons.inj hlog
          exact ⟨_, List.mem_cons_self, hack _ List.mem_cons_self⟩
      -- Without a release the gate stays closed, and nothing comes out.
      · have hclosed : gateOf id s = .closed (pendingOf id s) := if_neg hactive
        rw [hclosed, Gate.run_closed _ hrel] at hstep
        obtain ⟨hgate, hnone⟩ := Prod.mk.inj hstep
        cases pre with
        | nil =>
          obtain ⟨hentry, -⟩ := List.cons.inj hlog
          obtain ⟨-, hout⟩ := Prod.mk.inj hentry
          rw [hout, ← List.singleton_append (l := after), eventsOf_append, eventsOf_append] at hnone
          have hempty := (List.append_eq_nil_iff.1 hnone.symm).2
          exact absurd (List.append_eq_nil_iff.1 hempty).1 hline
        | cons entry pre =>
          obtain ⟨-, hrest⟩ := List.cons.inj hlog
          have hactive' : id ∉ (Output.emitCommand s d).state.activeIds := by
            intro hmem
            rw [gateOf, if_pos hmem] at hgate
            cases hgate
          obtain ⟨found, hmem, hfound⟩ := ih h'
            (fun hmem => hreset (List.mem_cons_of_mem _ hmem))
            (fun c' hc' => hpolicy ▸ hret c' (List.mem_cons_of_mem _ hc')) hactive' hrest
            (hpolicy ▸ hline)
          exact ⟨found, List.mem_cons_of_mem _ hmem, hpolicy ▸ hfound⟩

/-- An id that is not retired loses no event. In every run without a reset, the event lines of the
id, followed by its waiting events, are the events of the id among the processed commands, in order.
None is written before the line of a successful response that the policy tracks to the id. A run
that ends without an error has processed everything; one that ends with an error has processed
everything before an event that found the buffer full, and its last line is a transport error. -/
theorem event_conservation (policy : CorrelationPolicy) (pendingLimit : ℕ)
    (cs : List OutputCommand) (id : String) (hreset : .resetCorrelation ∉ cs)
    (hret : ∀ c ∈ cs, ¬Retires policy id c) :
    let r := emitCommands (.new policy pendingLimit) cs
    eventsOf policy id r.lines ++ pendingOf id r.state = receivedOf policy id r.processed ∧
      (∀ pre c before line after post, r.log = pre ++ (c, before ++ line :: after) :: post →
        eventsOf policy id [line] ≠ [] →
          ∃ entry ∈ pre ++ [(c, before)], Acknowledges policy id entry) ∧
      (r.result = .ok () → r.processed = cs) ∧
      ∀ error, r.result = .error error → error = overflowError ∧
        (∃ stream event rest, cs = r.processed ++ .event stream event :: rest) ∧
        r.lines.getLast? = some (transportErrorMessage error) := by
  intro r
  have hnew : Invariant (.new policy pendingLimit) := .new policy pendingLimit
  have h : Unretired id (.new policy pendingLimit) :=
    ⟨hnew, by simp [OutputState.new], by simp [OutputState.new]⟩
  obtain ⟨hend, hgate⟩ := h.gate_run hreset hret
  have hrun : (gateOf id (.new policy pendingLimit)).run
      (r.processed.flatMap (gateInputs policy id)) =
        (gateOf id r.state, eventsOf policy id r.lines) := hgate
  refine ⟨?_, ?_, processed_of_ok, ?_⟩
  · have hheld := Gate.held_run (gateOf id (.new policy pendingLimit))
      (r.processed.flatMap (gateInputs policy id))
    have hstart : (gateOf id (.new policy pendingLimit)).held = [] := by
      rw [hnew.held_gateOf]
      rfl
    -- What came out and what is held is what was pushed, read in terms of lines and commands.
    rw [pushed_gateInputs, hstart, List.nil_append, hrun] at hheld
    rw [← hheld, ← hend.invariant.held_gateOf]
  · intro pre c before line after post hlog hline
    have hactive : id ∉ (OutputState.new policy pendingLimit).activeIds := by
      simp [OutputState.new]
    exact h.acknowledged hreset hret hactive hlog hline
  · intro error herror
    obtain ⟨hoverflow, hlast, hcs⟩ := hnew.processed_of_error herror
    refine ⟨hoverflow, hcs, ?_⟩
    unfold ActorRun.lines
    rw [hlast, List.getLast?_append_of_ne_nil _ (List.cons_ne_nil _ _)]
    rfl

/-- An early event, the response that acknowledges it, and a late event. -/
theorem event_conservation_early :
    let event := Value.object [("subscription_id", .string "s-1")]
    let ack := OutputCommand.response "1" (.ok (.object [("data", .object [("subscription",
      .object [("id", .string "s-1")])])])) none none
    let cs := [.event "early" event, ack, .event "late" event]
    let r := emitCommands (.new basicCorrelation 1) cs
    eventsOf basicCorrelation "s-1" r.lines ++ pendingOf "s-1" r.state =
      receivedOf basicCorrelation "s-1" r.processed := by
  intro event ack cs r
  have hret : ∀ c ∈ cs, ¬Retires basicCorrelation "s-1" c := by
    intro c hc
    simp only [cs, List.mem_cons, List.not_mem_nil, or_false] at hc
    rcases hc with rfl | rfl | rfl <;> simp [Retires, ack, basicCorrelation]
  exact (event_conservation basicCorrelation 1 cs "s-1" (by simp [cs, ack]) hret).1

end DaemonFramework.Output
