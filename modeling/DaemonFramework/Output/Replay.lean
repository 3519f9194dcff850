import DaemonFramework.Output.Representation

/-!
# Buffered replay agrees with live delivery

The events of an id can reach the client before or after the response that acknowledges the id.
Before it they wait in the buffer and are replayed behind the response; after it they are written as
they come. `replay_agrees_with_live` says that the order makes no difference: both orders write the
same lines and leave the same state.

`Emits s cs s' lines` is the big-step relation of successful runs. Waiting events emit nothing
(`emits_waiting`), the events of a live id emit what `deliver` writes (`emits_live`), and those of a
retired id emit nothing (`emits_retired`). Both orders are put together from these.
-/

namespace DaemonFramework.Output

open OutputState

/-- The commands of a list of events. -/
def eventCommands (events : List (String × Value)) : List OutputCommand :=
  events.map fun e => .event e.1 e.2

/-- The events of a list, waiting under `id`. -/
def waiting (id : String) (events : List (String × Value)) : List PendingEvent :=
  events.map fun e => ⟨id, e.1, e.2⟩

/-- The commands run without an error from `s` to `s'` and write `lines`. -/
structure Emits (s : OutputState) (cs : List OutputCommand) (s' : OutputState)
    (lines : List Value) : Prop where
  /-- Where the run ends. -/
  state : (emitCommands s cs).state = s'
  /-- What the run writes. -/
  lines : (emitCommands s cs).lines = lines
  /-- The run does not end the actor. -/
  result : (emitCommands s cs).result = .ok ()

/-- Running no command. -/
theorem Emits.nil (s : OutputState) : Emits s [] s [] := ⟨rfl, rfl, rfl⟩

/-- Running one successful command, and then others. -/
theorem Emits.cons {s s₁ s₂ : OutputState} {c : OutputCommand} {cs : List OutputCommand}
    {lines₁ lines₂ : List Value} (hc : emitCommand s c = .done s₁ lines₁)
    (hcs : Emits s₁ cs s₂ lines₂) : Emits s (c :: cs) s₂ (lines₁ ++ lines₂) := by
  have hrun : emitCommands s (c :: cs) =
      { emitCommands s₁ cs with log := (c, lines₁) :: (emitCommands s₁ cs).log } := by
    simp [emitCommands, hc, Emission.done]
  refine ⟨?_, ?_, ?_⟩
  · rw [hrun]
    exact hcs.state
  · rw [hrun, ← hcs.lines]
    simp [ActorRun.lines]
  · rw [hrun]
    exact hcs.result

/-- Running two lists of commands, one after the other. -/
theorem Emits.append {s s₁ s₂ : OutputState} {cs ds : List OutputCommand}
    {lines₁ lines₂ : List Value} (hcs : Emits s cs s₁ lines₁) (hds : Emits s₁ ds s₂ lines₂) :
    Emits s (cs ++ ds) s₂ (lines₁ ++ lines₂) := by
  induction cs generalizing s lines₁ with
  | nil =>
    obtain ⟨hstate, hlines, -⟩ := hcs
    obtain rfl : s = s₁ := hstate
    obtain rfl : [] = lines₁ := hlines
    exact hds
  | cons c cs ih =>
    obtain ⟨hstate, hlines, hresult⟩ := hcs
    cases hc : emitCommand s c with
    | mk sc linesc reply resultc =>
      cases resultc with
      | error error => simp [emitCommands, hc] at hresult
      | ok _ =>
        have hrun : ∀ es, emitCommands s (c :: es) =
            { emitCommands sc es with log := (c, linesc) :: (emitCommands sc es).log } := by
          intro es
          simp [emitCommands, hc]
        rw [hrun] at hstate hlines hresult
        have hrest := ih ⟨hstate, rfl, hresult⟩
        rw [List.cons_append]
        refine ⟨?_, ?_, ?_⟩
        · rw [hrun]
          exact hrest.state
        · rw [hrun, ← hlines]
          have := hrest.lines
          simp only [ActorRun.lines, List.flatMap_cons, List.append_assoc] at this ⊢
          rw [this]
        · rw [hrun]
          exact hrest.result

/-- The events of an id that is neither live nor retired wait, while there is room. -/
theorem emits_waiting {s : OutputState} {id : String} (hsup : id ∉ s.suppressedIds)
    (hactive : id ∉ s.activeIds) {events : List (String × Value)}
    (hid : ∀ e ∈ events, s.policy.eventId e.1 e.2 = some id)
    (hroom : s.pendingEvents.length + events.length ≤ s.pendingLimit) :
    Emits s (eventCommands events)
      { s with pendingEvents := s.pendingEvents ++ waiting id events } [] := by
  induction events generalizing s with
  | nil => simpa [eventCommands, waiting] using Emits.nil s
  | cons e rest ih =>
    obtain ⟨stream, event⟩ := e
    rw [List.length_cons] at hroom
    have hname : s.policy.eventId stream event = some id := hid _ List.mem_cons_self
    -- One event takes one place, and leaves room for the rest.
    have hc := emitCommand_event_ok hname
      (acceptEvent_buffered hsup hactive (by omega) stream event)
    have hrest := ih (s := { s with
        pendingEvents := s.pendingEvents ++ [⟨id, stream, event⟩] }) hsup hactive
      (fun e he => hid e (List.mem_cons_of_mem _ he))
      (by simp only [List.length_append, List.length_singleton]; omega)
    simpa [eventCommands, waiting] using Emits.cons hc hrest

/-- The events of a retired id are dropped. -/
theorem emits_retired {s : OutputState} {id : String} (hsup : id ∈ s.suppressedIds)
    {events : List (String × Value)}
    (hid : ∀ e ∈ events, s.policy.eventId e.1 e.2 = some id) :
    Emits s (eventCommands events) s [] := by
  induction events with
  | nil => exact Emits.nil s
  | cons e rest ih =>
    obtain ⟨stream, event⟩ := e
    have hname : s.policy.eventId stream event = some id := hid _ List.mem_cons_self
    have hc := emitCommand_event_ok hname (acceptEvent_suppressed hsup stream event)
    exact Emits.cons hc (ih fun e he => hid e (List.mem_cons_of_mem _ he))

/-- The events of a live id are delivered as they come. -/
theorem Invariant.emits_live {s : OutputState} (h : Invariant s) {id : String}
    (hactive : id ∈ s.activeIds) {events : List (String × Value)}
    (hid : ∀ e ∈ events, s.policy.eventId e.1 e.2 = some id)
    (hlimit : events ≠ [] → s.pendingLimit ≠ 0) :
    Emits s (eventCommands events) (s.deliver id events).1 (s.deliver id events).2 := by
  induction events with
  | nil => exact Emits.nil s
  | cons e rest ih =>
    obtain ⟨stream, event⟩ := e
    have hlimit := hlimit (List.cons_ne_nil _ rest)
    have hrest : ∀ e ∈ rest, s.policy.eventId e.1 e.2 = some id := fun e he =>
      hid e (List.mem_cons_of_mem _ he)
    have hname : s.policy.eventId stream event = some id := hid _ List.mem_cons_self
    have hc := emitCommand_event_ok hname
      (acceptEvent_active (h.active id hactive) hactive stream event)
    simp only [OutputState.deliver]
    split_ifs with hterm
    -- A terminal event retires the id, and the rest is dropped.
    · rw [afterEvent, if_pos hterm] at hc
      have hdropped : Emits (s.cancelled id) (eventCommands rest) (s.cancelled id) [] :=
        emits_retired (h.mem_suppressedIds_cancelled_self id hlimit) (by simpa using hrest)
      exact Emits.cons hc hdropped
    · rw [afterEvent, if_neg hterm] at hc
      exact Emits.cons hc (ih hrest fun _ => hlimit)

/-! ## The two orders -/

/-- The state in which more events wait. -/
def withPending (s : OutputState) (events : List PendingEvent) : OutputState :=
  { s with pendingEvents := s.pendingEvents ++ events }

/-- The waiting events have no part in the memory of retired ids. -/
theorem suppress_withPending (s : OutputState) (events : List PendingEvent) (id : String) :
    (withPending s events).suppress id = withPending (s.suppress id) events := by
  unfold suppress withPending
  split_ifs
  · rfl
  · dsimp only
    split <;> rfl
  · rfl

/-- Retiring another id leaves the waiting events where they are. -/
theorem retire_withPending (s : OutputState) {id : String} {cancelled : Option String}
    (h : cancelled ≠ some id) {events : List PendingEvent} (hid : ∀ e ∈ events, e.id = id) :
    (withPending s events).retire cancelled = withPending (s.retire cancelled) events := by
  cases cancelled with
  | none => rfl
  | some a =>
    have hkeep : events.filter (·.id ≠ a) = events := by
      rw [List.filter_eq_self]
      intro e he
      have hne : id ≠ a := fun heq => h (heq ▸ rfl)
      simpa [hid e he] using hne
    simp only [retire, OutputState.cancelled]
    rw [← suppress_withPending]
    simp only [withPending, List.filter_append, hkeep]

/-- Retiring the id of the waiting events removes them. -/
theorem retire_withPending_self (s : OutputState) {id : String} {events : List PendingEvent}
    (hid : ∀ e ∈ events, e.id = id) :
    (withPending s events).retire (some id) = s.retire (some id) := by
  have hnone : events.filter (·.id ≠ id) = [] := by
    rw [List.filter_eq_nil_iff]
    intro e he
    simp [hid e he]
  simp only [retire, withPending, OutputState.cancelled, List.filter_append, hnone,
    List.append_nil]

/-- An id that is acknowledged takes along the events that waited for it, and leaves the state that
it leaves when none waited. -/
theorem activated_withPending {s : OutputState} {tracked : TrackedId} (route : Option ClientRoute)
    {events : List PendingEvent} (hid : ∀ e ∈ events, e.id = tracked.id)
    (hpending : ∀ e ∈ s.pendingEvents, e.id ≠ tracked.id) :
    (withPending s events).activated tracked route = s.activated tracked route ∧
      (withPending s events).pendingEvents.filter (·.id = tracked.id) = events := by
  have hnone : events.filter (·.id ≠ tracked.id) = [] := by
    rw [List.filter_eq_nil_iff]
    intro e he
    simp [hid e he]
  have hall : events.filter (·.id = tracked.id) = events := by
    rw [List.filter_eq_self]
    intro e he
    simp [hid e he]
  have hothers : s.pendingEvents.filter (·.id = tracked.id) = [] := by
    rw [List.filter_eq_nil_iff]
    intro e he
    simp [hpending e he]
  constructor
  · simp only [activated, withPending, List.filter_append, hnone, List.append_nil]
    rfl
  · simp only [withPending, List.filter_append, hothers, hall, List.nil_append]

/-- A successful response that acknowledges a retired id writes its own line only. -/
theorem Invariant.emitCommand_ack_retired {s : OutputState} (h : Invariant s) {tracked : TrackedId}
    {request : String} {response : Value} {cancelled : Option String} {route : Option ClientRoute}
    (htracked : s.policy.responseId response = some tracked)
    (hsup : tracked.id ∈ (s.retire cancelled).suppressedIds) :
    Output.emitCommand s (.response request (.ok response) cancelled route) =
      .done (s.retire cancelled) [addressedMessage (responseMessage request response) route] := by
  simp only [Output.emitCommand, h.emitResponse_eq, htracked, if_pos hsup]

/-- A successful response that acknowledges an id writes its own line and then delivers the events
that waited for the id. -/
theorem Invariant.emitCommand_ack {s : OutputState} (h : Invariant s) {tracked : TrackedId}
    {request : String} {response : Value} {cancelled : Option String} {route : Option ClientRoute}
    (htracked : s.policy.responseId response = some tracked)
    (hsup : tracked.id ∉ (s.retire cancelled).suppressedIds) :
    let delivered := ((s.retire cancelled).activated tracked route).deliver tracked.id
      (((s.retire cancelled).pendingEvents.filter (·.id = tracked.id)).map
        fun e => (e.stream, e.event))
    Output.emitCommand s (.response request (.ok response) cancelled route) =
      .done delivered.1
        (addressedMessage (responseMessage request response) route :: delivered.2) := by
  simp only [Output.emitCommand, h.emitResponse_eq, htracked, if_neg hsup]

/-- The two orders of a response and the events of the id that it acknowledges, from a state that
keeps the invariant. -/
theorem Invariant.emits_both_orders {s : OutputState} (h : Invariant s) (tracked : TrackedId)
    (request : String) (response : Value) (cancelled : Option String) (route : Option ClientRoute)
    (hsup : tracked.id ∉ s.suppressedIds) (hactive : tracked.id ∉ s.activeIds)
    (hpending : ∀ e ∈ s.pendingEvents, e.id ≠ tracked.id)
    (htracked : s.policy.responseId response = some tracked) {events : List (String × Value)}
    (hid : ∀ e ∈ events, s.policy.eventId e.1 e.2 = some tracked.id)
    (hroom : s.pendingEvents.length + events.length ≤ s.pendingLimit) :
    let ack := OutputCommand.response request (.ok response) cancelled route
    ∃ s' lines, Emits s (eventCommands events ++ [ack]) s' lines ∧
      Emits s (ack :: eventCommands events) s' lines := by
  intro ack
  have hwait := emits_waiting hsup hactive hid hroom
  have hname : ∀ e ∈ waiting tracked.id events, e.id = tracked.id := by
    intro e he
    obtain ⟨e', -, rfl⟩ := List.mem_map.1 he
    rfl
  have hwaitInv : Invariant (withPending s (waiting tracked.id events)) := by
    have := h.emitCommands (eventCommands events)
    rwa [hwait.state] at this
  by_cases hret : tracked.id ∈ (s.retire cancelled).suppressedIds
  -- The response itself retires the id, so both orders drop the events.
  · have hself : cancelled = some tracked.id := by
      cases cancelled with
      | none => exact absurd hret hsup
      | some a => exact congrArg some ((h.mem_suppressedIds_cancelled hret).resolve_left hsup).symm
    have hmerge : (withPending s (waiting tracked.id events)).retire cancelled =
        s.retire cancelled := hself ▸ retire_withPending_self s hname
    have hafter : Output.emitCommand (withPending s (waiting tracked.id events)) ack =
        .done (s.retire cancelled)
          [addressedMessage (responseMessage request response) route] := by
      rw [hwaitInv.emitCommand_ack_retired htracked (hmerge.symm ▸ hret), hmerge]
    have hdropped : Emits (s.retire cancelled) (eventCommands events) (s.retire cancelled) [] :=
      emits_retired hret (by simpa using hid)
    refine ⟨s.retire cancelled, [addressedMessage (responseMessage request response) route], ?_, ?_⟩
    -- The cancellation took the waiting events out, so neither order writes any.
    · exact hwait.append (.cons hafter (.nil _))
    · exact .cons (h.emitCommand_ack_retired htracked hret) hdropped
  · rcases events.eq_nil_or_concat' with rfl | ⟨init, last, hevents⟩
    -- Without events the two orders are the same commands.
    · exact ⟨_, _, .cons (h.emitCommand_ack htracked hret) (.nil _),
        .cons (h.emitCommand_ack htracked hret) (.nil _)⟩
    · have hlimit : s.pendingLimit ≠ 0 := by
        rw [hevents, List.length_append, List.length_singleton] at hroom
        omega
      have hother : cancelled ≠ some tracked.id := by
        -- Where an event fits into the buffer, the memory can hold a retired id as well.
        rintro rfl
        exact hret (h.mem_suppressedIds_cancelled_self tracked.id hlimit)
      have hrest : ∀ e ∈ (s.retire cancelled).pendingEvents, e.id ≠ tracked.id := by
        intro e he
        cases cancelled with
        | none => exact hpending e he
        | some a =>
          rw [OutputState.retire, cancelled_pendingEvents] at he
          exact hpending e (List.mem_of_mem_filter he)
      obtain ⟨hsame, htaken⟩ := activated_withPending route hname hrest
      have hpairs : (waiting tracked.id events).map (fun e => (e.stream, e.event)) = events := by
        rw [waiting, List.map_map]
        exact List.map_id events
      -- The waiting events are the ones replayed, from the state that the other order is in.
      let t := (s.retire cancelled).activated tracked route
      let line := addressedMessage (responseMessage request response) route
      have hafter : Output.emitCommand (withPending s (waiting tracked.id events)) ack =
          .done (t.deliver tracked.id events).1 (line :: (t.deliver tracked.id events).2) := by
        have hmerge := retire_withPending s hother hname
        rw [hwaitInv.emitCommand_ack htracked (by rw [hmerge]; exact hret), hmerge, hsame, htaken,
          hpairs]
      have hbefore : Output.emitCommand s ack = .done t [line] := by
        have hnone : (s.retire cancelled).pendingEvents.filter (·.id = tracked.id) = [] := by
          rw [List.filter_eq_nil_iff]
          intro e he
          simp [hrest e he]
        rw [h.emitCommand_ack htracked hret, hnone]
        rfl
      -- The same events, coming to the id once it is live.
      have hlive : Emits t (eventCommands events) (t.deliver tracked.id events).1
          (t.deliver tracked.id events).2 :=
        ((h.retire cancelled).activated hret route).emits_live ((AList.mem_insert _).2 (.inl rfl))
          (by simpa [t] using hid) fun _ => by simpa [t] using hlimit
      refine ⟨(t.deliver tracked.id events).1, line :: (t.deliver tracked.id events).2, ?_, ?_⟩
      · simpa using hwait.append (.cons hafter (.nil _))
      · exact .cons hbefore hlive

/-- In every reachable state: the events of an id that is neither live nor retired nor waited for,
as far as they fit into the buffer, and the response that acknowledges the id write the same lines
and leave the same state in both orders; and no response fails in its replay. -/
theorem replay_agrees_with_live {policy : CorrelationPolicy} {pendingLimit : ℕ} {s : OutputState}
    (hs : Reachable policy pendingLimit s) :
    (∀ (id : String) (kind : TrackedKind) (request : String) (response : Value)
      (cancelled : Option String) (route : Option ClientRoute) (events : List (String × Value)),
      id ∉ s.activeIds → id ∉ s.suppressedIds → (∀ e ∈ s.pendingEvents, e.id ≠ id) →
      policy.responseId response = some ⟨id, kind⟩ →
      (∀ e ∈ events, policy.eventId e.1 e.2 = some id) →
      s.pendingEvents.length + events.length ≤ pendingLimit →
      let ack := OutputCommand.response request (.ok response) cancelled route
      let buffered := emitCommands s (eventCommands events ++ [ack])
      let live := emitCommands s (ack :: eventCommands events)
      buffered.lines = live.lines ∧ buffered.state = live.state ∧
        buffered.result = .ok () ∧ live.result = .ok ()) ∧
    ∀ request result cancelled route,
      (emitResponse s request result cancelled route).result = .ok () := by
  have h := hs.invariant
  obtain ⟨rfl, rfl⟩ := hs.frame
  constructor
  · intro id kind request response cancelled route events hactive hsup hpending htracked hid hroom
    obtain ⟨s', lines, hbuffered, hlive⟩ := h.emits_both_orders ⟨id, kind⟩ request response
      cancelled route hsup hactive hpending htracked hid hroom
    exact ⟨hbuffered.lines.trans hlive.lines.symm, hbuffered.state.trans hlive.state.symm,
      hbuffered.result, hlive.result⟩
  · intro request result cancelled route
    rw [h.emitResponse_eq]
    cases result with
    | error error => rfl
    | ok response =>
      dsimp only
      split
      · rfl
      · split_ifs <;> rfl

/-- A subscription whose second event ends it, acknowledged before or after its three events. -/
theorem replay_agrees_with_live_terminal :
    let policy : CorrelationPolicy :=
      { basicCorrelation with isTerminal := fun stream _ => stream = "closed" }
    let event := Value.object [("subscription_id", .string "s-1")]
    let events := [("data", event), ("closed", event), ("data", event)]
    let ack := OutputCommand.response "1" (.ok (.object [("data", .object [("subscription",
      .object [("id", .string "s-1")])])])) none (some ⟨"c", "l", 7, .subscription⟩)
    (emitCommands (.new policy 3) (eventCommands events ++ [ack])).lines =
      (emitCommands (.new policy 3) (ack :: eventCommands events)).lines := by
  intro policy event events ack
  have hs : Reachable policy 3 (.new policy 3) := ⟨[], rfl⟩
  have hid : ∀ e ∈ events, policy.eventId e.1 e.2 = some "s-1" := by
    intro e he
    simp only [events, List.mem_cons, List.not_mem_nil, or_false] at he
    rcases he with rfl | rfl | rfl <;> rfl
  exact ((replay_agrees_with_live hs).1 "s-1" .subscription "1" _ none _ events
    (by decide) (by decide) (by simp [OutputState.new]) rfl hid (by decide)).1

end DaemonFramework.Output
