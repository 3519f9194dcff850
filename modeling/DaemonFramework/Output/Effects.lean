import DaemonFramework.Machine
import DaemonFramework.Output.Conservation

/-!
# The effects of a command

One command can do several things to the correlation state: a response may retire one id,
acknowledge another, write its own line and replay events, the last of which may retire an id again.
`Effect` names these things one by one, and `effectMachine` is the actor that does only one at a
time, each where its condition holds.

`effects` says what a command does, in order, and `history` what a run does.
`Invariant.run_effects` shows that a command is the run of its effects, with the same lines, and
`Invariant.run_history` that a sequence of commands is the run of its history. What is to hold
between two effects of one command can then be said and proved one effect at a time.
-/

namespace DaemonFramework.Output

open OutputState

/-- One thing that the actor does while it processes a command. -/
inductive Effect where
  /-- An id is cancelled, or its terminal event has been written. -/
  | retire (id : String)
  /-- A successful response is tracked to an id that is not suppressed. -/
  | acknowledge (tracked : TrackedId) (route : Option ClientRoute)
  /-- An event waits for the acknowledgement of its id. -/
  | keep (id stream : String) (event : Value)
  /-- An event is written. -/
  | write (stream : String) (event : Value)
  /-- A line that is no event is written. -/
  | say (line : Value)
  /-- The correlation is reset. -/
  | reset

namespace Effect

/-- When the effect can come about. -/
def Enabled (s : OutputState) : Effect → Prop
  | .acknowledge tracked _ => tracked.id ∉ s.suppressedIds
  | .keep id stream event =>
    s.policy.eventId stream event = some id ∧ id ∉ s.suppressedIds ∧ id ∉ s.activeIds ∧
      s.pendingEvents.length < s.pendingLimit
  | .write stream event => ∀ id ∈ s.policy.eventId stream event, id ∈ s.activeIds
  | .say line => eventOfLine line = none
  | .retire _ | .reset => True

instance (s : OutputState) (e : Effect) : Decidable (e.Enabled s) := by
  cases e <;> unfold Enabled <;> infer_instance

/-- The state that the effect leaves. -/
def apply (s : OutputState) : Effect → OutputState
  | .retire id => s.cancelled id
  | .acknowledge tracked route => s.activated tracked route
  | .keep id stream event => { s with pendingEvents := s.pendingEvents ++ [⟨id, stream, event⟩] }
  | .reset => s.resetCorrelation
  | .write _ _ | .say _ => s

/-- The line that the effect writes. -/
def line (s : OutputState) : Effect → List Value
  | .write stream event => [s.eventLine stream event]
  | .say line => [line]
  | _ => []

end Effect

/-- The actor, one effect at a time. -/
def effectMachine (policy : CorrelationPolicy) (pendingLimit : ℕ) : Machine OutputState Effect where
  init := .new policy pendingLimit
  step s e := if e.Enabled s then some (e.apply s) else none

/-- The lines that some effects write, in order. -/
def linesOf : OutputState → List Effect → List Value
  | _, [] => []
  | s, e :: es => e.line s ++ linesOf (e.apply s) es

/-- The delivery of events of the live id `id`, up to the first terminal one. -/
def deliveries (policy : CorrelationPolicy) (id : String) : List (String × Value) → List Effect
  | [] => []
  | (stream, event) :: rest =>
    if policy.isTerminal stream event then [.write stream event, .retire id]
    else .write stream event :: deliveries policy id rest

/-- What a command does, in order. -/
def effects (s : OutputState) : OutputCommand → List Effect
  | .requestError id outcome message route =>
    [.say (addressedMessage
      ((responseErrorMessage id message).setField "outcome" (.string outcome)) route)]
  | .response id result cancelledRequestId route =>
    cancelledRequestId.toList.map .retire ++
      match result with
      | .error error => [.say (addressedMessage (responseErrorMessage id error) route)]
      | .ok response =>
        match s.policy.responseId response with
        | none => [.say (addressedMessage (responseMessage id response) route)]
        | some tracked =>
          if tracked.id ∈ (s.retire cancelledRequestId).suppressedIds then
            [.say (addressedMessage (responseMessage id response) route)]
          else
            .acknowledge tracked route ::
              .say (addressedMessage (responseMessage id response) route) ::
              deliveries s.policy tracked.id (pendingOf tracked.id (s.retire cancelledRequestId))
  | .activeIds _ => []
  | .cancelled id => [.retire id]
  | .event stream event =>
    match s.policy.eventId stream event with
    | none => [.write stream event]
    | some id =>
      if id ∈ s.suppressedIds then []
      else if id ∈ s.activeIds then deliveries s.policy id [(stream, event)]
      else if s.pendingEvents.length < s.pendingLimit then [.keep id stream event]
      -- The event that finds the buffer full ends the actor.
      else [.say (transportErrorMessage overflowError)]
  | .protocolError error => [.say (protocolErrorMessage error)]
  | .transportError error => [.say (transportErrorMessage error)]
  | .resetCorrelation => [.reset]
  | .shutdown id => [.say (shutdownMessage id)]

/-- What a run does, in order. A command that fails is the last one with effects. -/
def history : OutputState → List OutputCommand → List Effect
  | _, [] => []
  | s, c :: cs =>
    effects s c ++ match (emitCommand s c).result with
      | .ok () => history (emitCommand s c).state cs
      | .error _ => []

/-! ## Runs of effects -/

section Runs

variable {policy : CorrelationPolicy} {pendingLimit : ℕ} {s t : OutputState}

/-- An effect is a step where it is enabled. -/
theorem effectMachine_step_eq_some {e : Effect} :
    (effectMachine policy pendingLimit).step s e = some t ↔ e.Enabled s ∧ e.apply s = t :=
  Machine.guarded_eq_some

/-- A run that starts with the effect `e`. -/
theorem effectMachine_run_cons {e : Effect} {es : List Effect} :
    (effectMachine policy pendingLimit).run s (e :: es) = some t ↔
      e.Enabled s ∧ (effectMachine policy pendingLimit).run (e.apply s) es = some t := by
  simp [Machine.run_cons_eq_some, effectMachine_step_eq_some]

/-- The lines of two lists of effects, one after the other. -/
theorem linesOf_append {es : List Effect} (fs : List Effect)
    (hrun : (effectMachine policy pendingLimit).run s es = some t) :
    linesOf s (es ++ fs) = linesOf s es ++ linesOf t fs := by
  induction es generalizing s with
  | nil =>
    obtain rfl : s = t := by simpa using hrun
    rfl
  | cons e es ih =>
    have hrest := ih (effectMachine_run_cons.1 hrun).2
    simp only [List.cons_append, linesOf, hrest, List.append_assoc]

/-- The delivery of the events of a live id is the run of its effects. -/
theorem run_deliveries (policy : CorrelationPolicy) (pendingLimit : ℕ) {id : String}
    (hactive : id ∈ s.activeIds) {events : List (String × Value)}
    (hid : ∀ e ∈ events, s.policy.eventId e.1 e.2 = some id) :
    (effectMachine policy pendingLimit).run s (deliveries s.policy id events) =
        some (s.deliver id events).1 ∧
      linesOf s (deliveries s.policy id events) = (s.deliver id events).2 := by
  induction events with
  | nil => exact ⟨rfl, rfl⟩
  | cons e rest ih =>
    obtain ⟨stream, event⟩ := e
    obtain ⟨hrun, hlines⟩ := ih fun e he => hid e (List.mem_cons_of_mem _ he)
    have hname : s.policy.eventId stream event = some id := hid _ List.mem_cons_self
    have henabled : (Effect.write stream event).Enabled s := by
      intro a ha
      rw [hname] at ha
      rwa [← Option.some.inj ha]
    simp only [deliveries, OutputState.deliver]
    split_ifs with hterm
    · exact ⟨effectMachine_run_cons.2 ⟨henabled, effectMachine_run_cons.2 ⟨trivial, rfl⟩⟩, rfl⟩
    · refine ⟨effectMachine_run_cons.2 ⟨henabled, hrun⟩, ?_⟩
      exact congrArg (s.eventLine stream event :: ·) hlines

/-- A line that is no event is the run of saying it. -/
theorem run_say {line : Value} (h : eventOfLine line = none) :
    (effectMachine policy pendingLimit).run s [.say line] = some s ∧
      linesOf s [.say line] = [line] :=
  ⟨effectMachine_run_cons.2 ⟨h, rfl⟩, rfl⟩

/-- An event is the run of its effects. -/
theorem run_effects_event (stream : String) (event : Value) :
    let c := OutputCommand.event stream event
    (effectMachine policy pendingLimit).run s (effects s c) = some (emitCommand s c).state ∧
      linesOf s (effects s c) = (emitCommand s c).lines := by
  intro c
  cases hname : s.policy.eventId stream event with
  | none =>
    simp only [c, effects, hname, emitCommand_event_ok hname (s.acceptEvent_none stream event)]
    have henabled : (Effect.write stream event).Enabled s := by
      intro a ha
      rw [hname] at ha
      cases ha
    exact ⟨effectMachine_run_cons.2 ⟨henabled, rfl⟩, rfl⟩
  | some id =>
    simp only [c, effects, hname]
    split_ifs with hsup hactive hroom
    · rw [emitCommand_event_ok hname (acceptEvent_suppressed hsup stream event)]
      exact ⟨rfl, rfl⟩
    · obtain ⟨hrun, hlines⟩ := run_deliveries policy pendingLimit hactive
        fun e (he : e ∈ [(stream, event)]) => List.mem_singleton.1 he ▸ hname
      rw [emitCommand_event_ok hname (acceptEvent_active hsup hactive stream event), hrun, hlines]
      simp only [OutputState.deliver, afterEvent]
      split_ifs <;> exact ⟨rfl, rfl⟩
    · rw [emitCommand_event_ok hname (acceptEvent_buffered hsup hactive hroom stream event)]
      exact ⟨effectMachine_run_cons.2 ⟨⟨hname, hsup, hactive, hroom⟩, rfl⟩, rfl⟩
    · rw [emitCommand_event_error hname (acceptEvent_full hsup hactive hroom stream event)]
      exact run_say (eventOfLine_transportErrorMessage overflowError)

end Runs

namespace Invariant

variable {policy : CorrelationPolicy} {pendingLimit : ℕ} {s t : OutputState}

/-- An enabled effect keeps the invariant. -/
theorem apply (h : Invariant s) {e : Effect} (he : e.Enabled s) : Invariant (e.apply s) := by
  cases e with
  | retire id => exact h.cancelled id
  | acknowledge tracked route => exact h.activated he route
  | keep id stream event => exact h.buffered he.1 he.2.1 he.2.2.1 he.2.2.2
  | write => exact h
  | say => exact h
  | reset => exact resetCorrelation s

/-- A run of effects keeps the invariant. -/
theorem run (h : Invariant s) {es : List Effect}
    (hrun : (effectMachine policy pendingLimit).run s es = some t) : Invariant t := by
  refine Machine.invariant_of_run (fun s e t hs hstep => ?_) h hrun
  obtain ⟨he, rfl⟩ := effectMachine_step_eq_some.1 hstep
  exact hs.apply he

/-- A response is the run of its effects. -/
theorem run_effects_response (h : Invariant s) (id : String) (result : Except String Value)
    (cancelledRequestId : Option String) (route : Option ClientRoute) :
    let c := OutputCommand.response id result cancelledRequestId route
    (effectMachine policy pendingLimit).run s (effects s c) = some (Output.emitCommand s c).state ∧
      linesOf s (effects s c) = (Output.emitCommand s c).lines := by
  intro c
  have hretire : (effectMachine policy pendingLimit).run s
      (cancelledRequestId.toList.map .retire) = some (s.retire cancelledRequestId) ∧
      linesOf s (cancelledRequestId.toList.map .retire) = [] := by
    cases cancelledRequestId with
    | none => exact ⟨rfl, rfl⟩
    | some a => exact ⟨effectMachine_run_cons.2 ⟨trivial, rfl⟩, rfl⟩
  -- The cancellation comes first; what remains starts in the state it leaves.
  suffices hrest : ∃ es, effects s c = cancelledRequestId.toList.map .retire ++ es ∧
      (effectMachine policy pendingLimit).run (s.retire cancelledRequestId) es =
        some (Output.emitCommand s c).state ∧
      linesOf (s.retire cancelledRequestId) es = (Output.emitCommand s c).lines by
    obtain ⟨es, hes, hrun, hlines⟩ := hrest
    rw [hes, Machine.run_append_eq_some, linesOf_append es hretire.1, hretire.2, hlines]
    exact ⟨⟨_, hretire.1, hrun⟩, rfl⟩
  refine ⟨_, rfl, ?_⟩
  simp only [c, Output.emitCommand, h.emitResponse_eq]
  have h' := h.retire cancelledRequestId
  have hpolicy := s.retire_policy cancelledRequestId
  generalize s.retire cancelledRequestId = s' at h' hpolicy ⊢
  cases result with
  | error error => exact run_say (eventOfLine_responseErrorMessage id error route)
  | ok response =>
    have hsay := eventOfLine_responseMessage id response route
    cases htracked : s.policy.responseId response with
    | none =>
      simp only [htracked]
      exact run_say hsay
    | some tracked =>
      simp only [htracked]
      split_ifs with hsup
      · exact run_say hsay
      · have hactive : tracked.id ∈ (s'.activated tracked route).activeIds :=
          (AList.mem_insert _).2 (.inl rfl)
        have hid : ∀ e ∈ pendingOf tracked.id s',
            (s'.activated tracked route).policy.eventId e.1 e.2 = some tracked.id := by
          intro e he
          obtain ⟨p, hp, rfl⟩ := List.mem_map.1 he
          obtain ⟨hp, heq⟩ := List.mem_filter.1 hp
          rw [activated_policy, h'.named p hp]
          simpa using heq
        obtain ⟨hrun, hlines⟩ := run_deliveries policy pendingLimit hactive hid
        rw [activated_policy, hpolicy] at hrun hlines
        refine ⟨effectMachine_run_cons.2 ⟨hsup, effectMachine_run_cons.2 ⟨hsay, hrun⟩⟩, ?_⟩
        exact congrArg (addressedMessage (responseMessage id response) route :: ·) hlines

/-- A command is the run of its effects, with the same lines. -/
theorem run_effects (h : Invariant s) (policy : CorrelationPolicy) (pendingLimit : ℕ)
    (c : OutputCommand) :
    (effectMachine policy pendingLimit).run s (effects s c) = some (Output.emitCommand s c).state ∧
      linesOf s (effects s c) = (Output.emitCommand s c).lines := by
  cases c with
  | response id result cancelledRequestId route =>
    exact h.run_effects_response id result cancelledRequestId route
  | event stream event => exact run_effects_event stream event
  | requestError id outcome message route =>
    exact run_say (eventOfLine_requestError id message outcome route)
  | activeIds => exact ⟨rfl, rfl⟩
  | cancelled id => exact ⟨effectMachine_run_cons.2 ⟨trivial, rfl⟩, rfl⟩
  | resetCorrelation => exact ⟨effectMachine_run_cons.2 ⟨trivial, rfl⟩, rfl⟩
  | protocolError error => exact run_say (eventOfLine_protocolErrorMessage error)
  | transportError error => exact run_say (eventOfLine_transportErrorMessage error)
  | shutdown id => exact run_say (eventOfLine_shutdownMessage id)

/-- A sequence of commands is the run of its history, with the same lines. -/
theorem run_history (h : Invariant s) (policy : CorrelationPolicy) (pendingLimit : ℕ)
    (cs : List OutputCommand) :
    (effectMachine policy pendingLimit).run s (history s cs) =
      some (Output.emitCommands s cs).state ∧
      linesOf s (history s cs) = (Output.emitCommands s cs).lines := by
  induction cs generalizing s with
  | nil => exact ⟨rfl, rfl⟩
  | cons c cs ih =>
    obtain ⟨hrun, hlines⟩ := h.run_effects policy pendingLimit c
    cases hc : (Output.emitCommand s c).result with
    | ok _ =>
      obtain ⟨hrun', hlines'⟩ := ih (h.emitCommand c)
      rw [emitCommands_cons_ok hc]
      simp only [history, hc, Machine.run_append_eq_some, linesOf_append _ hrun, hlines, hlines']
      exact ⟨⟨_, hrun, hrun'⟩, by simp [ActorRun.lines]⟩
    | error error =>
      rw [emitCommands_cons_error hc]
      simp only [history, hc, List.append_nil, hrun, hlines]
      exact ⟨trivial, by simp [ActorRun.lines]⟩

end Invariant

/-! ## Where acknowledgements come from -/

/-- A delivery acknowledges nothing. -/
theorem acknowledge_notMem_deliveries {policy : CorrelationPolicy} {id : String}
    {events : List (String × Value)} {tracked : TrackedId} {route : Option ClientRoute} :
    .acknowledge tracked route ∉ deliveries policy id events := by
  induction events with
  | nil => simp [deliveries]
  | cons e rest ih =>
    obtain ⟨stream, event⟩ := e
    simp only [deliveries]
    split_ifs
    · simp
    · simpa using ih

/-- The command is a successful response with this route that the policy tracks to `tracked`. -/
def TracksTo (policy : CorrelationPolicy) (tracked : TrackedId) (route : Option ClientRoute)
    (c : OutputCommand) : Prop :=
  ∃ request response cancelledRequestId,
    c = .response request (.ok response) cancelledRequestId route ∧
      policy.responseId response = some tracked

/-- A response acknowledges an id only if it is successful, the policy tracks it to the id, and the
id is not suppressed once the response has reported its cancellation. -/
theorem acknowledge_mem_effects_response {s : OutputState} {request : String}
    {result : Except String Value} {cancelledRequestId : Option String}
    {route route' : Option ClientRoute} {tracked : TrackedId}
    (h : .acknowledge tracked route' ∈
      effects s (.response request result cancelledRequestId route)) :
    route' = route ∧ tracked.id ∉ (s.retire cancelledRequestId).suppressedIds ∧
      ∃ response, result = .ok response ∧ s.policy.responseId response = some tracked := by
  have hretire : Effect.acknowledge tracked route' ∉
      cancelledRequestId.toList.map Effect.retire := by simp
  have hrest := (List.mem_append.1 h).resolve_left hretire
  cases result with
  | error error => simp at hrest
  | ok response =>
    cases htracked : s.policy.responseId response with
    | none => simp [htracked] at hrest
    | some tracked' =>
      simp only [htracked] at hrest
      split_ifs at hrest with hsup
      · simp at hrest
      · simp only [List.mem_cons, Effect.acknowledge.injEq, reduceCtorEq,
          acknowledge_notMem_deliveries, or_false] at hrest
        obtain ⟨rfl, rfl⟩ := hrest
        exact ⟨rfl, hsup, response, rfl, htracked⟩

/-- A command acknowledges an id only if it is a successful response that the policy tracks to
it. -/
theorem tracksTo_of_mem_effects {s : OutputState} {c : OutputCommand} {tracked : TrackedId}
    {route : Option ClientRoute} (h : .acknowledge tracked route ∈ effects s c) :
    TracksTo s.policy tracked route c := by
  cases c with
  | response request result cancelledRequestId route' =>
    obtain ⟨rfl, -, response, rfl, htracked⟩ := acknowledge_mem_effects_response h
    exact ⟨request, response, cancelledRequestId, rfl, htracked⟩
  | event stream event =>
    simp only [effects] at h
    split at h
    · simp at h
    · split_ifs at h
      · simp at h
      · exact absurd h acknowledge_notMem_deliveries
      · simp at h
      · simp at h
  | _ => simp [effects] at h

/-- A run acknowledges an id only with a successful response that the policy tracks to it. -/
theorem Invariant.tracksTo_of_mem_history {s : OutputState} (h : Invariant s)
    {cs : List OutputCommand} {tracked : TrackedId} {route : Option ClientRoute}
    (hmem : .acknowledge tracked route ∈ history s cs) :
    ∃ c ∈ cs, TracksTo s.policy tracked route c := by
  induction cs generalizing s with
  | nil => cases hmem
  | cons c cs ih =>
    rcases List.mem_append.1 hmem with hmem | hmem
    · exact ⟨c, List.mem_cons_self, tracksTo_of_mem_effects hmem⟩
    · split at hmem
      · obtain ⟨c', hc', htracks⟩ := ih (h.emitCommand c) hmem
        rw [(h.emitCommand_frame c).1] at htracks
        exact ⟨c', List.mem_cons_of_mem c hc', htracks⟩
      · cases hmem

end DaemonFramework.Output
