import DaemonFramework.Output.Invariant

/-!
# The representation of the output actor's state

Every command keeps `Invariant` (`Invariant.emitCommand`), and so every run does
(`Invariant.emitCommands`). A command fails only when it is an event that finds the buffer full, and
then it changes nothing (`Invariant.emitCommand_error`). `representation_invariant` collects what
holds of the state that any sequence of commands leaves, including where the routes of live ids come
from.
-/

namespace DaemonFramework.Output

open OutputState

/-- What `emitCommand` does with an event that `acceptEvent` takes under its id. -/
theorem emitCommand_event_ok {s s' : OutputState} {stream : String} {event : Value}
    {id : Option String} {message : Option Value} (hname : s.policy.eventId stream event = id)
    (h : s.acceptEvent id stream event = (s', .ok message)) :
    emitCommand s (.event stream event) = .done s' message.toList := by
  subst hname
  simp only [emitCommand, h]

/-- What `emitCommand` does with an event that `acceptEvent` refuses under its id. -/
theorem emitCommand_event_error {s s' : OutputState} {stream : String} {event : Value}
    {id : Option String} {error : String} (hname : s.policy.eventId stream event = id)
    (h : s.acceptEvent id stream event = (s', .error error)) :
    emitCommand s (.event stream event) =
      ⟨s', [transportErrorMessage error], none, .error error⟩ := by
  subst hname
  simp only [emitCommand, h]

/-- The state after an accepted event: the event is dropped or written, it retires its live id, or
it waits under its id. -/
theorem acceptEvent_cases (s : OutputState) (id : Option String) (stream : String) (event : Value) :
    (s.acceptEvent id stream event = (s, .ok none)) ∨
    (s.acceptEvent id stream event = (s, .ok (some (s.eventLine stream event)))) ∨
    (∃ i, id = some i ∧ i ∈ s.activeIds ∧
      s.acceptEvent id stream event = (s.cancelled i, .ok (some (s.eventLine stream event)))) ∨
    (∃ i, id = some i ∧ i ∉ s.suppressedIds ∧ i ∉ s.activeIds ∧
      s.pendingEvents.length < s.pendingLimit ∧
      s.acceptEvent id stream event =
        ({ s with pendingEvents := s.pendingEvents ++ [⟨i, stream, event⟩] }, .ok none)) ∨
    (¬s.pendingEvents.length < s.pendingLimit ∧
      s.acceptEvent id stream event = (s, .error overflowError)) := by
  cases id with
  | none => exact .inr (.inl (s.acceptEvent_none stream event))
  | some i =>
    by_cases hsup : i ∈ s.suppressedIds
    · exact .inl (acceptEvent_suppressed hsup stream event)
    · by_cases hactive : i ∈ s.activeIds
      -- A live id: whether the event is terminal decides between the second case and the third.
      · rw [acceptEvent_active hsup hactive, afterEvent]
        split_ifs
        · exact .inr (.inr (.inl ⟨i, rfl, hactive, rfl⟩))
        · exact .inr (.inl rfl)
      · by_cases hroom : s.pendingEvents.length < s.pendingLimit
        · exact .inr (.inr (.inr (.inl ⟨i, rfl, hsup, hactive, hroom,
            acceptEvent_buffered hsup hactive hroom stream event⟩)))
        · exact .inr (.inr (.inr (.inr ⟨hroom, acceptEvent_full hsup hactive hroom stream event⟩)))

namespace Invariant

variable {s : OutputState}

/-- Accepting an event under the id that the policy gives it keeps the invariant. -/
theorem acceptEvent (h : Invariant s) (stream : String) (event : Value) :
    Invariant (s.acceptEvent (s.policy.eventId stream event) stream event).1 := by
  rcases acceptEvent_cases s (s.policy.eventId stream event) stream event with
    he | he | ⟨i, -, -, he⟩ | ⟨i, hi, hsup, hactive, hroom, he⟩ | ⟨-, he⟩
  · rw [he]
    exact h
  · rw [he]
    exact h
  · rw [he]
    exact h.cancelled i
  · rw [he]
    exact h.buffered hi hsup hactive hroom
  · rw [he]
    exact h

/-- Processing a response keeps the invariant. -/
theorem emitResponse (h : Invariant s) (id : String) (result : Except String Value)
    (cancelledRequestId : Option String) (route : Option ClientRoute) :
    Invariant (Output.emitResponse s id result cancelledRequestId route).state := by
  rw [h.emitResponse_eq]
  have h' := h.retire cancelledRequestId
  cases result with
  | error error => exact h'
  | ok response =>
    dsimp only
    split
    · exact h'
    · split_ifs with hsup
      · exact h'
      · exact (h'.activated hsup route).deliver _ _

/-- Processing a command keeps the invariant. -/
theorem emitCommand (h : Invariant s) (c : OutputCommand) :
    Invariant (Output.emitCommand s c).state := by
  cases c with
  | requestError => exact h
  | response id result cancelledRequestId route =>
    exact h.emitResponse id result cancelledRequestId route
  | activeIds => exact h
  | cancelled id => exact h.cancelled id
  | event stream event =>
    have := h.acceptEvent stream event
    simp only [Output.emitCommand]
    split <;> simp_all [Emission.done]
  | protocolError => exact h
  | transportError => exact h
  | resetCorrelation => exact resetCorrelation s
  | shutdown => exact h

/-- A command that fails is an event that finds the buffer full; it reports the overflow and changes
nothing. -/
theorem emitCommand_error (h : Invariant s) {c : OutputCommand} {error : String}
    (herror : (Output.emitCommand s c).result = .error error) :
    error = overflowError ∧ (∃ stream event, c = .event stream event) ∧
      ¬s.pendingEvents.length < s.pendingLimit ∧ (Output.emitCommand s c).state = s ∧
      (Output.emitCommand s c).lines = [transportErrorMessage error] := by
  cases c with
  | response id result cancelledRequestId route =>
    simp only [Output.emitCommand, h.emitResponse_eq] at herror
    revert herror
    cases result with
    | error => simp [Emission.done]
    | ok response =>
      dsimp only
      split
      · simp [Emission.done]
      · split_ifs <;> simp [Emission.done]
  | event stream event =>
    rcases acceptEvent_cases s (s.policy.eventId stream event) stream event with
      he | he | ⟨i, -, -, he⟩ | ⟨i, -, -, -, -, he⟩ | ⟨hroom, he⟩
    · simp [emitCommand_event_ok rfl he, Emission.done] at herror
    · simp [emitCommand_event_ok rfl he, Emission.done] at herror
    · simp [emitCommand_event_ok rfl he, Emission.done] at herror
    · simp [emitCommand_event_ok rfl he, Emission.done] at herror
    · rw [emitCommand_event_error rfl he] at herror ⊢
      obtain rfl : overflowError = error := by simpa using herror
      exact ⟨rfl, ⟨stream, event, rfl⟩, hroom, rfl, rfl⟩
  | _ => simp [Output.emitCommand, Emission.done] at herror

/-- A run keeps the invariant. -/
theorem emitCommands (h : Invariant s) (cs : List OutputCommand) :
    Invariant (Output.emitCommands s cs).state := by
  induction cs generalizing s with
  | nil => exact h
  | cons c cs ih =>
    have hstep := h.emitCommand c
    simp only [Output.emitCommands]
    split
    · exact ih hstep
    · exact hstep

end Invariant

/-- Every reachable state keeps the invariant. -/
theorem Reachable.invariant {policy : CorrelationPolicy} {pendingLimit : ℕ} {s : OutputState}
    (h : Reachable policy pendingLimit s) : Invariant s := by
  obtain ⟨cs, rfl⟩ := h
  exact (Invariant.new policy pendingLimit).emitCommands cs

/-! ## What a command never changes -/

@[simp] theorem OutputState.retire_policy (s : OutputState) (id : Option String) :
    (s.retire id).policy = s.policy := by
  cases id <;> simp [OutputState.retire]

@[simp] theorem OutputState.retire_pendingLimit (s : OutputState) (id : Option String) :
    (s.retire id).pendingLimit = s.pendingLimit := by
  cases id <;> simp [OutputState.retire]

@[simp] theorem OutputState.deliver_policy (s : OutputState) (id : String)
    (events : List (String × Value)) : (s.deliver id events).1.policy = s.policy := by
  rcases s.deliver_fst id events with hs | hs <;> simp [hs]

@[simp] theorem OutputState.deliver_pendingLimit (s : OutputState) (id : String)
    (events : List (String × Value)) :
    (s.deliver id events).1.pendingLimit = s.pendingLimit := by
  rcases s.deliver_fst id events with hs | hs <;> simp [hs]

/-- No command changes the policy or the limit. -/
theorem Invariant.emitCommand_frame {s : OutputState} (h : Invariant s) (c : OutputCommand) :
    (Output.emitCommand s c).state.policy = s.policy ∧
      (Output.emitCommand s c).state.pendingLimit = s.pendingLimit := by
  cases c with
  | response id result cancelledRequestId route =>
    simp only [Output.emitCommand, h.emitResponse_eq]
    cases result with
    | error => exact ⟨by simp [Emission.done], by simp [Emission.done]⟩
    | ok response =>
      dsimp only
      split
      · exact ⟨by simp [Emission.done], by simp [Emission.done]⟩
      · split_ifs
        · exact ⟨by simp [Emission.done], by simp [Emission.done]⟩
        · exact ⟨by simp [Emission.done], by simp [Emission.done]⟩
  | cancelled id => exact ⟨cancelled_policy s id, cancelled_pendingLimit s id⟩
  | event stream event =>
    simp only [Output.emitCommand]
    rcases acceptEvent_cases s (s.policy.eventId stream event) stream event with
      he | he | ⟨i, -, -, he⟩ | ⟨i, -, -, -, -, he⟩ | ⟨-, he⟩ <;> simp [he, Emission.done]
  | _ => exact ⟨rfl, rfl⟩

/-- No run changes the policy or the limit. -/
theorem Invariant.emitCommands_frame {s : OutputState} (h : Invariant s)
    (cs : List OutputCommand) :
    (Output.emitCommands s cs).state.policy = s.policy ∧
      (Output.emitCommands s cs).state.pendingLimit = s.pendingLimit := by
  induction cs generalizing s with
  | nil => exact ⟨rfl, rfl⟩
  | cons c cs ih =>
    obtain ⟨hpolicy, hlimit⟩ := h.emitCommand_frame c
    obtain ⟨hpolicy', hlimit'⟩ := ih (h.emitCommand c)
    simp only [Output.emitCommands]
    split
    · exact ⟨hpolicy'.trans hpolicy, hlimit'.trans hlimit⟩
    · exact ⟨hpolicy, hlimit⟩

/-- A reachable state has the policy and the limit that the actor started with. -/
theorem Reachable.frame {policy : CorrelationPolicy} {pendingLimit : ℕ} {s : OutputState}
    (h : Reachable policy pendingLimit s) : s.policy = policy ∧ s.pendingLimit = pendingLimit := by
  obtain ⟨cs, rfl⟩ := h
  exact (Invariant.new policy pendingLimit).emitCommands_frame cs

/-! ## Where routes come from -/

/-- The command is a successful response that acknowledges `id` as a subscription and carries
`route`. -/
def SubscribesWith (policy : CorrelationPolicy) (id : String) (route : ClientRoute)
    (c : OutputCommand) : Prop :=
  ∃ request response cancelledRequestId,
    c = .response request (.ok response) cancelledRequestId (some route) ∧
      policy.responseId response = some ⟨id, .subscription⟩

/-- Retiring an id gives no id a route. -/
theorem lookup_of_lookup_cancelled {s : OutputState} {a id : String} {route : Option ClientRoute}
    (h : (s.cancelled a).activeIds.lookup id = some route) :
    s.activeIds.lookup id = some route := by
  rw [cancelled_activeIds] at h
  by_cases hne : id = a
  · subst hne
    simp at h
  · rwa [AList.lookup_erase_ne hne] at h

/-- Reporting a cancellation gives no id a route. -/
theorem lookup_of_lookup_retire {s : OutputState} {a : Option String} {id : String}
    {route : Option ClientRoute} (h : (s.retire a).activeIds.lookup id = some route) :
    s.activeIds.lookup id = some route := by
  cases a with
  | none => exact h
  | some a => exact lookup_of_lookup_cancelled h

/-- Delivering events gives no id a route. -/
theorem lookup_of_lookup_deliver {s : OutputState} {a id : String}
    {events : List (String × Value)} {route : Option ClientRoute}
    (h : (s.deliver a events).1.activeIds.lookup id = some route) :
    s.activeIds.lookup id = some route := by
  rcases s.deliver_fst a events with hs | hs
  · rwa [hs] at h
  · exact lookup_of_lookup_cancelled (hs ▸ h)

/-- Acknowledging an id gives no other id a route, and gives it one only from a routed subscription
response. -/
theorem lookup_of_lookup_activated {s : OutputState} {tracked : TrackedId} {id : String}
    {ack : Option ClientRoute} {route : ClientRoute}
    (h : (s.activated tracked ack).activeIds.lookup id = some (some route)) :
    s.activeIds.lookup id = some (some route) ∨
      (tracked = ⟨id, .subscription⟩ ∧ ack = some route) := by
  by_cases hid : id = tracked.id
  · subst hid
    simp only [activated, AList.lookup_insert, Option.some.injEq, ackRoute] at h
    split at h
    · rename_i route' hfilter
      obtain ⟨hack, hkind⟩ := Option.filter_eq_some_iff.1 hfilter
      -- A route survives the filter only for a subscription.
      refine .inr ⟨?_, hack.trans h⟩
      cases tracked
      simpa using hkind
    -- Without a new route the id keeps the one it had, if it was live before.
    · left
      cases hlookup : s.activeIds.lookup tracked.id with
      | none => simp [hlookup] at h
      | some old => simpa [hlookup] using h
  · left
    rwa [activated, AList.lookup_insert_ne hid] at h

/-- After one command an id has a route only if it had it before, or if the command is the routed
subscription response that acknowledged it. -/
theorem Invariant.route_emitCommand {s : OutputState} (h : Invariant s) {c : OutputCommand}
    {id : String} {route : ClientRoute}
    (hroute : (Output.emitCommand s c).state.activeIds.lookup id = some (some route)) :
    s.activeIds.lookup id = some (some route) ∨ SubscribesWith s.policy id route c := by
  cases c with
  -- A response retires, and then acknowledges: what has a route then had it before, or it is the
  -- new one.
  | response request result cancelledRequestId ack =>
    simp only [Output.emitCommand, h.emitResponse_eq] at hroute
    cases result with
    | error error => exact .inl (lookup_of_lookup_retire hroute)
    | ok response =>
      dsimp only at hroute
      split at hroute
      · exact .inl (lookup_of_lookup_retire hroute)
      · rename_i tracked htracked
        split_ifs at hroute
        · exact .inl (lookup_of_lookup_retire hroute)
        · rcases lookup_of_lookup_activated (lookup_of_lookup_deliver hroute) with
            hroute | ⟨rfl, rfl⟩
          · exact .inl (lookup_of_lookup_retire hroute)
          · exact .inr ⟨request, response, cancelledRequestId, rfl, htracked⟩
  | cancelled a => exact .inl (lookup_of_lookup_cancelled hroute)
  -- An event gives no route, and the terminal one takes its own away.
  | event stream event =>
    left
    simp only [Output.emitCommand] at hroute
    rcases acceptEvent_cases s (s.policy.eventId stream event) stream event with
      he | he | ⟨i, -, -, he⟩ | ⟨i, -, -, -, -, he⟩ | ⟨-, he⟩
    · simpa [he, Emission.done] using hroute
    · simpa [he, Emission.done] using hroute
    · rw [he] at hroute
      exact lookup_of_lookup_cancelled hroute
    · simpa [he, Emission.done] using hroute
    · simpa [he] using hroute
  | resetCorrelation =>
    simp [Output.emitCommand, Emission.done, OutputState.resetCorrelation] at hroute
  | _ => exact .inl hroute

/-- After a run an id has a route only if it had it before, or if one of the commands is the routed
subscription response that acknowledged it. -/
theorem Invariant.route_emitCommands {s : OutputState} (h : Invariant s) {cs : List OutputCommand}
    {id : String} {route : ClientRoute}
    (hroute : (Output.emitCommands s cs).state.activeIds.lookup id = some (some route)) :
    s.activeIds.lookup id = some (some route) ∨ ∃ c ∈ cs, SubscribesWith s.policy id route c := by
  induction cs generalizing s with
  | nil => exact .inl hroute
  | cons c cs ih =>
    simp only [Output.emitCommands] at hroute
    -- The first command is part of both ways in which the run can go on.
    have hone : (Output.emitCommand s c).state.activeIds.lookup id = some (some route) →
        s.activeIds.lookup id = some (some route) ∨
          ∃ c' ∈ c :: cs, SubscribesWith s.policy id route c' := fun hc =>
      (h.route_emitCommand hc).imp_right fun hsub => ⟨c, List.mem_cons_self, hsub⟩
    split at hroute
    · rcases ih (h.emitCommand c) hroute with hc | ⟨c', hmem, hsub⟩
      · exact hone hc
      · rw [(h.emitCommand_frame c).1] at hsub
        exact .inr ⟨c', List.mem_cons_of_mem c hmem, hsub⟩
    · exact hone hroute

/-- What holds of the state that any sequence of commands leaves: the live and the retired ids are
disjoint, only the events of ids that are neither wait, the buffer and the memory of retired ids
stay within the limit, the queue of retired ids lists exactly their set, and every route comes from
a routed subscription response among the commands. -/
theorem representation_invariant (policy : CorrelationPolicy) (pendingLimit : ℕ)
    (cs : List OutputCommand) :
    let s := (emitCommands (.new policy pendingLimit) cs).state
    (∀ id ∈ s.activeIds, id ∉ s.suppressedIds) ∧
      (∀ e ∈ s.pendingEvents, e.id ∉ s.activeIds ∧ e.id ∉ s.suppressedIds) ∧
      s.pendingEvents.length ≤ pendingLimit ∧
      (∀ id, id ∈ s.suppressedOrder ↔ id ∈ s.suppressedIds) ∧
      s.suppressedOrder.Nodup ∧
      s.suppressedOrder.length ≤ pendingLimit ∧
      ∀ id route, s.activeIds.lookup id = some (some route) →
        ∃ c ∈ cs, SubscribesWith policy id route c := by
  intro s
  have hnew := Invariant.new policy pendingLimit
  have h : Invariant s := hnew.emitCommands cs
  have hlimit : s.pendingLimit = pendingLimit := (hnew.emitCommands_frame cs).2
  obtain ⟨n, r, hr⟩ := h.memory
  refine ⟨h.active, h.pending, hlimit ▸ h.length, ?_, ?_, ?_, ?_⟩
  · intro id
    rw [hr.order, hr.ids, List.mem_toFinset]
  · rw [hr.order]
    exact r.nodup
  · rw [hr.order, ← hlimit, hr.limit]
    exact r.length_le
  · intro id route hroute
    exact (hnew.route_emitCommands hroute).resolve_left (by simp [OutputState.new])

end DaemonFramework.Output
