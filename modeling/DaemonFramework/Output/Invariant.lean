import DaemonFramework.Output.Actor
import DaemonFramework.Recent

/-!
# The invariant of the output actor

`Invariant` says how the five collections of `OutputState` fit together: an id is live, retired or
unknown, only the events of unknown ids wait, and the retired ids and their order are one bounded
memory (`Recent`). Every operation keeps it, and so every command does (`Invariant.emitCommand`) and
every run (`Reachable.invariant`).

`acceptEvent` has one equation for each thing it can do with an event, and `deliver` is what it does
with the events of a live id in turn: they are written up to the first terminal one. In a reachable
state `replay` is `deliver`, so it never fails (`Invariant.replay_eq_deliver`).
-/

namespace DaemonFramework.Output

open OutputState

namespace OutputState

/-! ## What each operation changes -/

/-- Retiring an id touches only the memory of retired ids. -/
theorem suppress_eq (s : OutputState) (id : String) :
    s.suppress id = { s with
      suppressedIds := (s.suppress id).suppressedIds
      suppressedOrder := (s.suppress id).suppressedOrder } := by
  unfold suppress
  split_ifs
  · rfl
  · split <;> rfl
  · rfl

@[simp] theorem suppress_policy (s : OutputState) (id : String) :
    (s.suppress id).policy = s.policy := by
  rw [suppress_eq]

@[simp] theorem suppress_activeIds (s : OutputState) (id : String) :
    (s.suppress id).activeIds = s.activeIds := by
  rw [suppress_eq]

@[simp] theorem suppress_pendingEvents (s : OutputState) (id : String) :
    (s.suppress id).pendingEvents = s.pendingEvents := by
  rw [suppress_eq]

@[simp] theorem suppress_pendingLimit (s : OutputState) (id : String) :
    (s.suppress id).pendingLimit = s.pendingLimit := by
  rw [suppress_eq]

@[simp] theorem cancelled_policy (s : OutputState) (id : String) :
    (s.cancelled id).policy = s.policy := by
  simp [cancelled]

@[simp] theorem cancelled_activeIds (s : OutputState) (id : String) :
    (s.cancelled id).activeIds = s.activeIds.erase id := by
  simp [cancelled]

@[simp] theorem cancelled_pendingEvents (s : OutputState) (id : String) :
    (s.cancelled id).pendingEvents = s.pendingEvents.filter (·.id ≠ id) := by
  simp [cancelled]

@[simp] theorem cancelled_pendingLimit (s : OutputState) (id : String) :
    (s.cancelled id).pendingLimit = s.pendingLimit := by
  simp [cancelled]

/-- The retired ids and their order are the memory `r`, whose bound is the limit. -/
structure Remembers (s : OutputState) {n : ℕ} (r : Recent String n) : Prop where
  /-- The bound of the memory. -/
  limit : s.pendingLimit = n
  /-- The queue lists the memory. -/
  order : s.suppressedOrder = r.items
  /-- The set has the elements of the memory. -/
  ids : s.suppressedIds = r.items.toFinset

/-- Retiring an id is remembering it. -/
theorem Remembers.suppress {s : OutputState} {n : ℕ} {r : Recent String n} (h : s.Remembers r)
    (id : String) : (s.suppress id).Remembers (r.remember id) := by
  obtain ⟨rfl, horder, hids⟩ := h
  by_cases hmem : s.pendingLimit = 0 ∨ id ∈ r.items
  · have hold : s.suppress id = s := by
      rw [OutputState.suppress, if_pos (by simpa [hids] using hmem)]
    rw [hold, r.remember_of_mem hmem]
    exact ⟨rfl, horder, hids⟩
  · suffices hboth : (s.suppress id).suppressedOrder = (r.remember id).items ∧
        (s.suppress id).suppressedIds = (r.remember id).items.toFinset from
      ⟨suppress_pendingLimit s id, hboth.1, hboth.2⟩
    rw [r.items_remember hmem, OutputState.suppress, if_neg (by simpa [hids] using hmem), horder]
    have hnodup := r.nodup
    have hid : id ∉ r.items := fun hid => hmem (.inr hid)
    unfold Recent.makeRoom
    -- The source looks at the queue again before it evicts, so its empty case is a case here too.
    cases hitems : r.items with
    | nil =>
      rw [hitems] at hids
      split_ifs <;> simp [hids]
    | cons oldest rest =>
      rw [hitems] at hnodup hid
      have holdest : oldest ∉ rest := (List.nodup_cons.1 hnodup).1
      have hne : oldest ≠ id := fun hne => hid (hne ▸ List.mem_cons_self)
      split_ifs with hfull
      · refine ⟨rfl, ?_⟩
        -- The oldest item leaves the set with the queue: it is listed nowhere else.
        ext a
        simp only [hids, hitems, List.toFinset_cons, Finset.mem_erase, Finset.mem_insert,
          List.mem_toFinset, List.tail_cons, List.mem_append, List.mem_singleton]
        constructor
        · rintro ⟨ha, rfl | rfl | ha'⟩
          · exact .inr rfl
          · exact absurd rfl ha
          · exact .inl ha'
        · rintro (ha | rfl)
          · exact ⟨fun heq => holdest (heq ▸ ha), .inr (.inr ha)⟩
          · exact ⟨hne.symm, .inl rfl⟩
      · refine ⟨rfl, ?_⟩
        ext a
        simp only [hids, hitems, Finset.mem_insert, List.mem_toFinset, List.mem_append,
          List.mem_singleton]
        exact or_comm

/-- Cancelling an id is remembering it. -/
theorem Remembers.cancelled {s : OutputState} {n : ℕ} {r : Recent String n} (h : s.Remembers r)
    (id : String) : (s.cancelled id).Remembers (r.remember id) := by
  have hrest : Remembers { s with
      activeIds := s.activeIds.erase id
      pendingEvents := s.pendingEvents.filter (·.id ≠ id) } r := ⟨h.limit, h.order, h.ids⟩
  exact hrest.suppress id

/-! ## What `acceptEvent` does with an event -/

/-- The line of an event, under the route that its subscription has in `s`. -/
def eventLine (s : OutputState) (stream : String) (event : Value) : Value :=
  addressedMessage (DaemonFramework.eventMessage stream event) (s.eventRoute event)

/-- The state after an event of the live id `id`: a terminal one retires the id. -/
def afterEvent (s : OutputState) (id stream : String) (event : Value) : OutputState :=
  if s.policy.isTerminal stream event then s.cancelled id else s

/-- An event of a retired id is dropped. -/
theorem acceptEvent_suppressed {s : OutputState} {id : String} (h : id ∈ s.suppressedIds)
    (stream : String) (event : Value) : s.acceptEvent (some id) stream event = (s, .ok none) := by
  simp [acceptEvent, h]

/-- An event of an unknown id is kept while there is room. -/
theorem acceptEvent_buffered {s : OutputState} {id : String} (h : id ∉ s.suppressedIds)
    (hactive : id ∉ s.activeIds) (hroom : s.pendingEvents.length < s.pendingLimit)
    (stream : String) (event : Value) :
    s.acceptEvent (some id) stream event =
      ({ s with pendingEvents := s.pendingEvents ++ [⟨id, stream, event⟩] }, .ok none) := by
  simp [acceptEvent, h, hactive, buffer, hroom]

/-- An event of an unknown id fails when there is no room. -/
theorem acceptEvent_full {s : OutputState} {id : String} (h : id ∉ s.suppressedIds)
    (hactive : id ∉ s.activeIds) (hroom : ¬s.pendingEvents.length < s.pendingLimit)
    (stream : String) (event : Value) :
    s.acceptEvent (some id) stream event = (s, .error overflowError) := by
  simp [acceptEvent, h, hactive, buffer, hroom]

/-- An event of a live id is written, and retires the id when it is terminal. -/
theorem acceptEvent_active {s : OutputState} {id : String} (h : id ∉ s.suppressedIds)
    (hactive : id ∈ s.activeIds) (stream : String) (event : Value) :
    s.acceptEvent (some id) stream event =
      (s.afterEvent id stream event, .ok (some (s.eventLine stream event))) := by
  by_cases hterm : s.policy.isTerminal stream event
  · simp [acceptEvent, h, hactive, eventMessage, afterEvent, eventLine, hterm, Option.filter]
  · simp [acceptEvent, h, hactive, eventMessage, afterEvent, eventLine, hterm, Option.filter]

/-- An event without an id is written. -/
theorem acceptEvent_none (s : OutputState) (stream : String) (event : Value) :
    s.acceptEvent none stream event = (s, .ok (some (s.eventLine stream event))) := by
  simp [acceptEvent, eventMessage, eventLine]

/-! ## What a response does -/

/-- The state after the cancellation that a response may report. -/
def retire (s : OutputState) : Option String → OutputState
  | some cancelled => s.cancelled cancelled
  | none => s

/-- The route that an acknowledged id is left with. -/
def ackRoute (s : OutputState) (tracked : TrackedId) (route : Option ClientRoute) :
    Option ClientRoute :=
  match route.filter fun _ => tracked.kind = .subscription with
  | some route => some route
  | none => (s.activeIds.lookup tracked.id).getD none

/-- The state once `tracked` is acknowledged and its pending events are taken out. -/
def activated (s : OutputState) (tracked : TrackedId) (route : Option ClientRoute) : OutputState :=
  { s with
    activeIds := s.activeIds.insert tracked.id (s.ackRoute tracked route)
    pendingEvents := s.pendingEvents.filter (·.id ≠ tracked.id) }

@[simp] theorem activated_policy (s : OutputState) (tracked : TrackedId)
    (route : Option ClientRoute) : (s.activated tracked route).policy = s.policy := rfl

@[simp] theorem activated_pendingLimit (s : OutputState) (tracked : TrackedId)
    (route : Option ClientRoute) : (s.activated tracked route).pendingLimit = s.pendingLimit := rfl

/-- Acknowledging an id that is not retired takes out its pending events. -/
theorem activate_of_notMem {s : OutputState} {tracked : TrackedId}
    (h : tracked.id ∉ s.suppressedIds) (route : Option ClientRoute) :
    s.activate (some tracked) route =
      (s.activated tracked route, s.pendingEvents.filter (·.id = tracked.id)) := by
  simp only [activate, if_neg h, takePending]
  rfl

/-- A late response to a retired id acknowledges nothing. -/
theorem activate_of_mem {s : OutputState} {tracked : TrackedId}
    (h : tracked.id ∈ s.suppressedIds) (route : Option ClientRoute) :
    s.activate (some tracked) route = (s, []) := by
  simp only [activate, if_pos h]

/-- What happens to the events of the live id `id` in turn: they are written up to the first
terminal one, which retires the id. -/
def deliver (s : OutputState) (id : String) : List (String × Value) → OutputState × List Value
  | [] => (s, [])
  | (stream, event) :: rest =>
    if s.policy.isTerminal stream event then (s.cancelled id, [s.eventLine stream event])
    else ((s.deliver id rest).1, s.eventLine stream event :: (s.deliver id rest).2)

/-- Delivering events changes nothing but that it may retire their id. -/
theorem deliver_fst (s : OutputState) (id : String) (events : List (String × Value)) :
    (s.deliver id events).1 = s ∨ (s.deliver id events).1 = s.cancelled id := by
  induction events with
  | nil => exact .inl rfl
  | cons e rest ih =>
    simp only [deliver]
    split_ifs
    · exact .inr rfl
    · exact ih

end OutputState

/-! ## The invariant -/

/-- How the collections of the state fit together. -/
structure Invariant (s : OutputState) : Prop where
  /-- No live id is retired. -/
  active : ∀ id ∈ s.activeIds, id ∉ s.suppressedIds
  /-- Only the events of ids that are neither live nor retired wait. -/
  pending : ∀ e ∈ s.pendingEvents, e.id ∉ s.activeIds ∧ e.id ∉ s.suppressedIds
  /-- A waiting event is kept under the id that the policy gives it. -/
  named : ∀ e ∈ s.pendingEvents, s.policy.eventId e.stream e.event = some e.id
  /-- The buffer stays within its limit. -/
  length : s.pendingEvents.length ≤ s.pendingLimit
  /-- The retired ids and their order are one bounded memory. -/
  memory : ∃ n, ∃ r : Recent String n, s.Remembers r

namespace Invariant

/-- The state that an actor starts with. -/
theorem new (policy : CorrelationPolicy) (pendingLimit : ℕ) :
    Invariant (.new policy pendingLimit) where
  active := by simp [OutputState.new]
  pending := by simp [OutputState.new]
  named := by simp [OutputState.new]
  length := by simp [OutputState.new]
  memory := ⟨pendingLimit, .empty, rfl, rfl, rfl⟩

variable {s : OutputState}

/-- Only the id being retired becomes retired. -/
theorem mem_suppressedIds_cancelled (h : Invariant s) {id a : String}
    (ha : a ∈ (s.cancelled id).suppressedIds) : a ∈ s.suppressedIds ∨ a = id := by
  obtain ⟨n, r, hr⟩ := h.memory
  rw [(hr.cancelled id).ids, List.mem_toFinset] at ha
  rw [hr.ids, List.mem_toFinset]
  exact r.mem_of_mem_remember ha

/-- A retired id is remembered, when there is room for any. -/
theorem mem_suppressedIds_cancelled_self (h : Invariant s) (id : String)
    (hlimit : s.pendingLimit ≠ 0) : id ∈ (s.cancelled id).suppressedIds := by
  obtain ⟨n, r, hr⟩ := h.memory
  rw [(hr.cancelled id).ids, List.mem_toFinset]
  exact r.mem_remember_self id (hr.limit ▸ hlimit)

/-- Retiring an id keeps the invariant. -/
theorem cancelled (h : Invariant s) (id : String) : Invariant (s.cancelled id) where
  active := by
    intro a ha hsup
    rw [cancelled_activeIds, AList.mem_erase] at ha
    rcases h.mem_suppressedIds_cancelled hsup with hsup | rfl
    · exact h.active a ha.2 hsup
    · exact ha.1 rfl
  pending := by
    intro e he
    rw [cancelled_pendingEvents, List.mem_filter] at he
    have hne : e.id ≠ id := by simpa using he.2
    obtain ⟨hactive, hsup⟩ := h.pending e he.1
    refine ⟨fun hmem => hactive ?_, fun hmem => ?_⟩
    · rw [cancelled_activeIds, AList.mem_erase] at hmem
      exact hmem.2
    · exact (h.mem_suppressedIds_cancelled hmem).elim hsup hne
  named := by
    intro e he
    rw [cancelled_pendingEvents] at he
    rw [cancelled_policy]
    exact h.named e (List.mem_of_mem_filter he)
  length := by
    rw [cancelled_pendingEvents, cancelled_pendingLimit]
    exact (List.length_filter_le _ _).trans h.length
  memory := by
    obtain ⟨n, r, hr⟩ := h.memory
    exact ⟨n, r.remember id, hr.cancelled id⟩

/-- Reporting a cancellation keeps the invariant. -/
theorem retire (h : Invariant s) (id : Option String) : Invariant (s.retire id) := by
  cases id with
  | none => exact h
  | some id => exact h.cancelled id

/-- Keeping an event of an unknown id, under the id that the policy gives it, keeps the
invariant. -/
theorem buffered (h : Invariant s) {id stream : String} {event : Value}
    (hname : s.policy.eventId stream event = some id) (hsup : id ∉ s.suppressedIds)
    (hactive : id ∉ s.activeIds) (hroom : s.pendingEvents.length < s.pendingLimit) :
    Invariant { s with pendingEvents := s.pendingEvents ++ [⟨id, stream, event⟩] } where
  active := h.active
  pending := by
    intro e he
    rcases List.mem_append.1 he with he | he
    · exact h.pending e he
    · obtain rfl := List.mem_singleton.1 he
      exact ⟨hactive, hsup⟩
  named := by
    intro e he
    rcases List.mem_append.1 he with he | he
    · exact h.named e he
    · obtain rfl := List.mem_singleton.1 he
      exact hname
  length := by
    rw [List.length_append, List.length_singleton]
    exact hroom
  memory := by
    obtain ⟨n, r, hr⟩ := h.memory
    exact ⟨n, r, hr.limit, hr.order, hr.ids⟩

/-- Acknowledging an id that is not retired keeps the invariant. -/
theorem activated (h : Invariant s) {tracked : TrackedId} (hsup : tracked.id ∉ s.suppressedIds)
    (route : Option ClientRoute) : Invariant (s.activated tracked route) where
  active := by
    intro id hid
    rcases (AList.mem_insert _).1 hid with rfl | hid
    · exact hsup
    · exact h.active id hid
  pending := by
    intro e he
    obtain ⟨he, hne⟩ := List.mem_filter.1 he
    refine ⟨fun hmem => ?_, (h.pending e he).2⟩
    rcases (AList.mem_insert _).1 hmem with heq | hmem
    · simp [heq] at hne
    · exact (h.pending e he).1 hmem
  named := fun e he => h.named e (List.mem_of_mem_filter he)
  length := (List.length_filter_le _ _).trans h.length
  memory := by
    obtain ⟨n, r, hr⟩ := h.memory
    exact ⟨n, r, hr.limit, hr.order, hr.ids⟩

/-- Delivering events keeps the invariant. -/
theorem deliver (h : Invariant s) (id : String) (events : List (String × Value)) :
    Invariant (s.deliver id events).1 := by
  rcases s.deliver_fst id events with hs | hs
  · rw [hs]
    exact h
  · rw [hs]
    exact h.cancelled id

/-- Forgetting everything keeps the invariant. -/
theorem resetCorrelation (s : OutputState) : Invariant s.resetCorrelation where
  active := by simp [OutputState.resetCorrelation]
  pending := by simp [OutputState.resetCorrelation]
  named := by simp [OutputState.resetCorrelation]
  length := by simp [OutputState.resetCorrelation]
  memory := ⟨s.pendingLimit, .empty, rfl, rfl, rfl⟩

end Invariant

/-! ## Replay -/

/-- The events that waited for a retired id are dropped. -/
theorem replay_suppressed {s : OutputState} {id : String} (hsup : id ∈ s.suppressedIds)
    {events : List PendingEvent} (hid : ∀ e ∈ events, e.id = id) :
    replay s events = .done s [] := by
  induction events with
  | nil => rfl
  | cons e rest ih =>
    have he : e.id = id := hid e List.mem_cons_self
    have hrest := ih fun e' he' => hid e' (List.mem_cons_of_mem e he')
    simp only [replay, he, acceptEvent_suppressed hsup, hrest]
    rfl

/-- The events that waited for a live id are delivered. After a terminal one the id is retired, for
a buffer that held an event has room to remember one id. -/
theorem Invariant.replay_eq_deliver {s : OutputState} (h : Invariant s) {id : String}
    (hactive : id ∈ s.activeIds) {events : List PendingEvent} (hid : ∀ e ∈ events, e.id = id)
    (hlimit : events ≠ [] → s.pendingLimit ≠ 0) :
    replay s events = .done (s.deliver id (events.map fun e => (e.stream, e.event))).1
      (s.deliver id (events.map fun e => (e.stream, e.event))).2 := by
  induction events with
  | nil => rfl
  | cons e rest ih =>
    have he : e.id = id := hid e List.mem_cons_self
    have hrest : ∀ e' ∈ rest, e'.id = id := fun e' he' => hid e' (List.mem_cons_of_mem e he')
    have hlimit := hlimit (List.cons_ne_nil e rest)
    simp only [replay, he, acceptEvent_active (h.active id hactive) hactive, afterEvent,
      List.map_cons, OutputState.deliver]
    split_ifs with hterm
    -- The rest of the replay meets the retired id, and is dropped like a live delivery would be.
    · rw [replay_suppressed (h.mem_suppressedIds_cancelled_self id hlimit) hrest]
      rfl
    · rw [ih hrest fun _ => hlimit]
      rfl

/-- What a response does, in a state that keeps the invariant: it always succeeds. -/
theorem Invariant.emitResponse_eq {s : OutputState} (h : Invariant s) (id : String)
    (result : Except String Value) (cancelledRequestId : Option String)
    (route : Option ClientRoute) :
    emitResponse s id result cancelledRequestId route =
      match result with
      | .error error =>
        .done (s.retire cancelledRequestId)
          [addressedMessage (responseErrorMessage id error) route]
      | .ok response =>
        match s.policy.responseId response with
        | none => .done (s.retire cancelledRequestId)
          [addressedMessage (responseMessage id response) route]
        | some tracked =>
          if tracked.id ∈ (s.retire cancelledRequestId).suppressedIds then
            .done (s.retire cancelledRequestId)
              [addressedMessage (responseMessage id response) route]
          else
            let s' := (s.retire cancelledRequestId).activated tracked route
            let delivered := s'.deliver tracked.id
              (((s.retire cancelledRequestId).pendingEvents.filter (·.id = tracked.id)).map
                fun e => (e.stream, e.event))
            .done delivered.1
              (addressedMessage (responseMessage id response) route :: delivered.2) := by
  have hpolicy : (s.retire cancelledRequestId).policy = s.policy := by
    cases cancelledRequestId <;> simp [OutputState.retire]
  cases result with
  | error error => cases cancelledRequestId <;> rfl
  | ok response =>
    have hunfold : emitResponse s id (.ok response) cancelledRequestId route =
        let after := (s.retire cancelledRequestId).activate
          ((s.retire cancelledRequestId).policy.responseId response) route
        { replay after.1 after.2 with
          lines := addressedMessage (responseMessage id response) route ::
            (replay after.1 after.2).lines } := by
      cases cancelledRequestId <;> rfl
    rw [hunfold, hpolicy]
    have h' := h.retire cancelledRequestId
    -- From here on only the state after the cancellation matters.
    generalize s.retire cancelledRequestId = s' at h' ⊢
    cases htracked : s.policy.responseId response with
    | none => simp only [htracked]; rfl
    | some tracked =>
      simp only [htracked]
      split_ifs with hsup
      · rw [activate_of_mem hsup]
        rfl
      · rw [activate_of_notMem hsup]
        -- With a limit of zero nothing can be waiting, so the replay is empty.
        have hlimit : s'.pendingEvents.filter (·.id = tracked.id) ≠ [] →
            (s'.activated tracked route).pendingLimit ≠ 0 := by
          intro hne hzero
          have hlength := h'.length
          rw [show s'.pendingLimit = 0 from hzero, Nat.le_zero, List.length_eq_zero_iff] at hlength
          exact hne (by rw [hlength]; rfl)
        have hactive : tracked.id ∈ (s'.activated tracked route).activeIds :=
          (AList.mem_insert _).2 (.inl rfl)
        have hid : ∀ e ∈ s'.pendingEvents.filter (·.id = tracked.id), e.id = tracked.id := by
          intro e he
          simpa using (List.mem_filter.1 he).2
        rw [(h'.activated hsup route).replay_eq_deliver hactive hid hlimit]
        rfl

end DaemonFramework.Output
