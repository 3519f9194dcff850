import DaemonFramework.Machine
import DaemonFramework.Output.Actor

/-!
# The event forwarder

`spawn_event_forwarder`, `forward_events` and `report_transport_error` of
`shelllist-daemon-tokio/src/jsonl.rs`, for an output actor that accepts every command. The loop has
no input but what becomes of each call of `forward_events`, so a run is determined by the list of
these outcomes. It is modelled by the list of what the forwarder does, in order; a run in progress
has done a first part of it.

`Notified` says that no readiness is regained in silence. A failure is reported only if its message
is not that of the failure before it, and `last_error` outlives a period of readiness, so this fails
exactly where a loss and all failures after it repeat the message from before that period
(`notified_iff`).
-/

namespace DaemonFramework.Bridge

open Output (OutputCommand)

/-- What becomes of one call of `forward_events`. -/
inductive ForwardOutcome where
  /-- No client or no signal stream could be had. -/
  | unavailable (message : String)
  /-- These events were forwarded, and then the signal stream ended. -/
  | ended (events : List (String × Value))
  /-- These events were forwarded, and then a signal could not be decoded. -/
  | undecodable (events : List (String × Value))

namespace ForwardOutcome

/-- The text of the error. -/
def message : ForwardOutcome → String
  | unavailable message => message
  | ended _ => "daemon event stream ended"
  | undecodable _ => "decode daemon event signal"

/-- Whether event forwarding became ready. -/
def served : ForwardOutcome → Bool
  | unavailable _ => false
  | ended _ => true
  | undecodable _ => true

end ForwardOutcome

/-- What the forwarder does. -/
inductive ForwarderAction where
  /-- Set `event_ready`. -/
  | ready (value : Bool)
  /-- Send a command to the output actor. -/
  | send (command : OutputCommand)
  /-- Drop the cached client. -/
  | disconnect

/-- The actions of `forward_events`. -/
def forwardEvents : ForwardOutcome → List ForwarderAction
  | .unavailable _ => []
  | .ended events => .ready true :: events.map fun e => .send (.event e.1 e.2)
  | .undecodable events => .ready true :: events.map fun e => .send (.event e.1 e.2)

/-- The new `last_error`, and what is sent to the actor. -/
def reportTransportError (lastError : Option String) (message : String) :
    Option String × List ForwarderAction :=
  if lastError = some message then (lastError, [])
  else (some message, [.send (.transportError message)])

/-- `ReconnectingClient::invalidate`. -/
def invalidate : List ForwarderAction := [.ready false, .disconnect]

/-- The loop of the forwarder. -/
def spawnEventForwarder (lastError : Option String) : List ForwardOutcome → List ForwarderAction
  | [] => []
  | outcome :: outcomes =>
    let report := reportTransportError lastError outcome.message
    -- The reset is sent on every iteration, the error only when it is new.
    .ready false :: forwardEvents outcome ++ .send .resetCorrelation :: report.2 ++ invalidate ++
      spawnEventForwarder report.1 outcomes

/-- A reset that follows a period of readiness is itself followed by a transport error before
forwarding becomes ready again. -/
def Notified (trace : List ForwarderAction) : Prop :=
  ∀ before period lost after,
    trace = before ++ .ready true :: period ++ .send .resetCorrelation :: lost ++
      .ready true :: after →
    .send .resetCorrelation ∉ period → .ready true ∉ lost →
      ∃ message, .send (.transportError message) ∈ lost

/-! ## The last error -/

/-- The message of the last failure of a list of outcomes, or else of the one before it. -/
def lastFailure (lastError : Option String) (outcomes : List ForwardOutcome) : Option String :=
  (outcomes.map ForwardOutcome.message).getLast?.or lastError

/-- The last error is the message of the last failure, reported or not. -/
theorem reportTransportError_fst (lastError : Option String) (message : String) :
    (reportTransportError lastError message).1 = some message := by
  unfold reportTransportError
  split_ifs with h
  · exact h
  · rfl

/-- The last failure of a list of outcomes that is not empty does not depend on the one before. -/
theorem lastFailure_cons (lastError : Option String) (outcome : ForwardOutcome)
    (outcomes : List ForwardOutcome) :
    lastFailure lastError (outcome :: outcomes) = lastFailure (some outcome.message) outcomes := by
  unfold lastFailure
  rw [List.map_cons, List.getLast?_cons]
  cases (outcomes.map ForwardOutcome.message).getLast? <;> rfl

/-- One iteration of the loop, and then the others. -/
theorem spawnEventForwarder_cons (lastError : Option String) (outcome : ForwardOutcome)
    (outcomes : List ForwardOutcome) :
    spawnEventForwarder lastError (outcome :: outcomes) =
      .ready false :: forwardEvents outcome ++ .send .resetCorrelation ::
        (reportTransportError lastError outcome.message).2 ++ invalidate ++
        spawnEventForwarder (some outcome.message) outcomes := by
  rw [spawnEventForwarder, reportTransportError_fst]

/-- Some iterations of the loop, and then others. -/
theorem spawnEventForwarder_append (lastError : Option String)
    (outcomes outcomes' : List ForwardOutcome) :
    spawnEventForwarder lastError (outcomes ++ outcomes') =
      spawnEventForwarder lastError outcomes ++
        spawnEventForwarder (lastFailure lastError outcomes) outcomes' := by
  induction outcomes generalizing lastError with
  | nil => rfl
  | cons outcome outcomes ih =>
    rw [List.cons_append, spawnEventForwarder_cons, spawnEventForwarder_cons, ih,
      lastFailure_cons]
    simp only [List.append_assoc, List.cons_append]

/-- While no connection is made, forwarding does not become ready. -/
theorem ready_notMem_spawnEventForwarder {lastError : Option String}
    {outcomes : List ForwardOutcome} (h : ∀ f ∈ outcomes, f.served = false) :
    .ready true ∉ spawnEventForwarder lastError outcomes := by
  induction outcomes generalizing lastError with
  | nil => simp [spawnEventForwarder]
  | cons outcome outcomes ih =>
    have hrest := @ih (some outcome.message) fun f hf =>
      h f (List.mem_cons_of_mem _ hf)
    have hone := h outcome List.mem_cons_self
    -- Only an attempt without a connection is not served.
    cases outcome with
    | unavailable message =>
      rw [spawnEventForwarder_cons]
      unfold reportTransportError
      split_ifs <;> simp [forwardEvents, invalidate, hrest]
    | ended events => cases hone
    | undecodable events => cases hone

/-- Failures that repeat the last message are not reported. -/
theorem transportError_notMem_spawnEventForwarder {message : String}
    {outcomes : List ForwardOutcome} (hserved : ∀ f ∈ outcomes, f.served = false)
    (h : ∀ f ∈ outcomes, f.message = message) (error : String) :
    .send (.transportError error) ∉ spawnEventForwarder (some message) outcomes := by
  induction outcomes with
  | nil => simp [spawnEventForwarder]
  | cons outcome outcomes ih =>
    have hrest := ih (fun f hf => hserved f (List.mem_cons_of_mem _ hf)) fun f hf =>
      h f (List.mem_cons_of_mem _ hf)
    have hone := hserved outcome List.mem_cons_self
    have hmessage := h outcome List.mem_cons_self
    cases outcome with
    | unavailable m =>
      rw [spawnEventForwarder_cons, hmessage]
      simp [forwardEvents, reportTransportError, invalidate, hrest]
    | ended events => cases hone
    | undecodable events => cases hone

/-! ## Watching a trace -/

/-- What is to be known of a trace so far. -/
structure Notice where
  /-- Forwarding has been ready since the last reset. -/
  ready : Bool
  /-- A reset after a period of readiness has not been followed by a transport error. -/
  owed : Bool

/-- The machine that watches a trace and stops where readiness is regained in silence. -/
def notice : Machine Notice ForwarderAction where
  init := ⟨false, false⟩
  step
    | s, .ready true => if s.owed then none else some ⟨true, false⟩
    | s, .send .resetCorrelation => some ⟨false, s.owed || s.ready⟩
    | s, .send (.transportError _) => some ⟨s.ready, false⟩
    | s, _ => some s

/-- Readiness lasts until a reset. -/
theorem ready_of_run_notice {s t : Notice} {trace : List ForwarderAction}
    (hrun : notice.run s trace = some t) (hreset : .send .resetCorrelation ∉ trace)
    (h : s.ready = true) : t.ready = true := by
  induction trace generalizing s with
  | nil =>
    obtain rfl : s = t := by simpa using hrun
    exact h
  | cons a trace ih =>
    obtain ⟨s', hstep, hrest⟩ := notice.run_cons_eq_some.1 hrun
    have hreset' : .send .resetCorrelation ∉ trace := fun hmem =>
      hreset (List.mem_cons_of_mem _ hmem)
    have hne : a ≠ .send .resetCorrelation := fun heq => hreset (heq ▸ List.mem_cons_self)
    refine ih hrest hreset' ?_
    unfold notice at hstep
    dsimp only at hstep
    split at hstep
    -- The cases are those of `notice`, and the reset is excluded.
    · split_ifs at hstep
      obtain rfl := Option.some.inj hstep
      rfl
    · exact absurd rfl hne
    · obtain rfl := Option.some.inj hstep
      exact h
    · obtain rfl := Option.some.inj hstep
      exact h

/-- What is owed stays owed while nothing is reported. -/
theorem owed_of_run_notice {s t : Notice} {trace : List ForwarderAction}
    (hrun : notice.run s trace = some t) (herror : ∀ m, .send (.transportError m) ∉ trace)
    (h : s.owed = true) : t.owed = true := by
  induction trace generalizing s with
  | nil =>
    obtain rfl : s = t := by simpa using hrun
    exact h
  | cons a trace ih =>
    obtain ⟨s', hstep, hrest⟩ := notice.run_cons_eq_some.1 hrun
    have herror' : ∀ m, .send (.transportError m) ∉ trace := fun m hmem =>
      herror m (List.mem_cons_of_mem _ hmem)
    have hne : ∀ m, a ≠ .send (.transportError m) := fun m heq =>
      herror m (heq ▸ List.mem_cons_self)
    refine ih hrest herror' ?_
    unfold notice at hstep
    dsimp only at hstep
    split at hstep
    · rw [if_pos h] at hstep
      cases hstep
    · obtain rfl := Option.some.inj hstep
      simp [h]
    · rename_i m
      exact absurd rfl (hne m)
    · obtain rfl := Option.some.inj hstep
      exact h

/-- In a trace that the machine watches to its end, everything is notified. -/
theorem notified_of_run_notice {t : Notice} {trace : List ForwarderAction}
    (hrun : notice.run notice.init trace = some t) : Notified trace := by
  intro before period lost after heq hperiod _
  by_contra hsilent
  push Not at hsilent
  -- The five parts of the trace, each ending where the machine's state is to be known.
  have hsplit : trace = before ++ [.ready true] ++ period ++ [.send .resetCorrelation] ++ lost ++
      (.ready true :: after) := by
    rw [heq]
    simp
  rw [hsplit] at hrun
  obtain ⟨s₅, hrun, hlast⟩ := notice.run_append_eq_some.1 hrun
  obtain ⟨s₄, hrun, hlost⟩ := notice.run_append_eq_some.1 hrun
  obtain ⟨s₃, hrun, hreset⟩ := notice.run_concat_eq_some.1 hrun
  obtain ⟨s₂, hrun, hready⟩ := notice.run_append_eq_some.1 hrun
  obtain ⟨s₁, -, hfirst⟩ := notice.run_concat_eq_some.1 hrun
  have h₂ : s₂.ready = true := by
    simp only [notice] at hfirst
    split_ifs at hfirst
    obtain rfl := Option.some.inj hfirst
    rfl
  have h₃ : s₃.ready = true := ready_of_run_notice hready hperiod h₂
  have h₄ : s₄.owed = true := by
    obtain rfl := Option.some.inj hreset
    simp [h₃]
  -- The second readiness would have stopped the machine.
  have h₅ : s₅.owed = true := owed_of_run_notice hlost hsilent h₄
  obtain ⟨s₆, hstep, -⟩ := notice.run_cons_eq_some.1 hlast
  simp [notice, h₅] at hstep

/-- Forwarded events change nothing that is watched. -/
theorem run_notice_events (s : Notice) (events : List (String × Value)) :
    notice.run s (events.map fun e => .send (.event e.1 e.2)) = some s := by
  induction events with
  | nil => rfl
  | cons e events ih => exact ih

/-- What one iteration of the loop does to the machine: it stops if something is owed and forwarding
becomes ready, and else something is owed afterwards exactly when something was or a period of
readiness ended, and the message repeats the last one. -/
theorem run_notice_iteration (owed : Bool) (lastError : Option String) (outcome : ForwardOutcome) :
    notice.run ⟨false, owed⟩ (.ready false :: forwardEvents outcome ++ .send .resetCorrelation ::
        (reportTransportError lastError outcome.message).2 ++ invalidate) =
      if outcome.served = true ∧ owed = true then none
      else some ⟨false, (owed || outcome.served) && decide (lastError = some outcome.message)⟩ := by
  -- The reset and the report that follows it are the same for every outcome.
  have hafter : ∀ s : Notice, notice.run s (.send .resetCorrelation ::
      (reportTransportError lastError outcome.message).2 ++ invalidate) =
        some ⟨false, (s.owed || s.ready) && decide (lastError = some outcome.message)⟩ := by
    intro s
    unfold reportTransportError
    split_ifs with h
    · simp [notice, Machine.run, invalidate, h]
    · simp [notice, Machine.run, invalidate, h]
  have hserved : ∀ events : List (String × Value), notice.run ⟨false, owed⟩
      (.ready false :: (.ready true :: events.map fun e => .send (.event e.1 e.2)) ++
        (.send .resetCorrelation :: (reportTransportError lastError outcome.message).2 ++
          invalidate)) =
      if owed = true then none
      else some ⟨false, decide (lastError = some outcome.message)⟩ := by
    intro events
    cases howed : owed with
    | true => simp [Machine.run, notice]
    | false =>
      have hready : notice.run ⟨false, false⟩ (.ready false ::
          (.ready true :: events.map fun e => .send (.event e.1 e.2))) = some ⟨true, false⟩ :=
        run_notice_events ⟨true, false⟩ events
      rw [if_neg (by simp)]
      refine notice.run_append_eq_some.2 ⟨_, hready, ?_⟩
      rw [hafter]
      rfl
  cases outcome with
  | unavailable message =>
    have hnone := hafter ⟨false, owed⟩
    rw [if_neg (by simp [ForwardOutcome.served])]
    simpa [forwardEvents, ForwardOutcome.served, Machine.run, notice] using hnone
  | ended events =>
    have hall := hserved events
    simpa [forwardEvents, ForwardOutcome.served] using hall
  | undecodable events =>
    have hall := hserved events
    simpa [forwardEvents, ForwardOutcome.served] using hall

/-! ## When everything is notified -/

/-- The outcomes of a loss: a period of readiness ends, `fails` more attempts fail, and forwarding
becomes ready again. -/
structure Loss (outcomes before fails : List ForwardOutcome) (lost regained : ForwardOutcome)
    (after : List ForwardOutcome) : Prop where
  /-- Where the loss stands among the outcomes. -/
  split : outcomes = before ++ lost :: fails ++ regained :: after
  /-- Forwarding was ready. -/
  lost : lost.served = true
  /-- It did not become ready in between. -/
  fails : ∀ f ∈ fails, f.served = false
  /-- It is ready again. -/
  regained : regained.served = true

/-- Every loss has a failure whose message is not that of the failure before it. -/
def Varied (lastError : Option String) (outcomes : List ForwardOutcome) : Prop :=
  ∀ before fails lost regained after, Loss outcomes before fails lost regained after →
    ∃ f ∈ lost :: fails, lastFailure lastError before ≠ some f.message

/-- What is owed at the start is reported before forwarding becomes ready. -/
def Pays (lastError : Option String) (outcomes : List ForwardOutcome) : Prop :=
  ∀ fails regained after, outcomes = fails ++ regained :: after →
    (∀ f ∈ fails, f.served = false) → regained.served = true →
      ∃ f ∈ fails, lastError ≠ some f.message

/-- The outcomes after the first one vary, if all of them do. -/
theorem Varied.tail {lastError : Option String} {outcome : ForwardOutcome}
    {outcomes : List ForwardOutcome} (h : Varied lastError (outcome :: outcomes)) :
    Varied (some outcome.message) outcomes := by
  intro before fails lost regained after hloss
  rw [← lastFailure_cons lastError]
  exact h (outcome :: before) fails lost regained after
    ⟨by rw [hloss.split]; rfl, hloss.lost, hloss.fails, hloss.regained⟩

/-- In varied outcomes, the machine watches the whole trace, if what is owed is also paid. -/
theorem run_notice_of_varied {outcomes : List ForwardOutcome} {lastError : Option String}
    {owed : Bool} (h : Varied lastError outcomes) (howed : owed = true → Pays lastError outcomes) :
    ∃ t, notice.run ⟨false, owed⟩ (spawnEventForwarder lastError outcomes) = some t := by
  induction outcomes generalizing lastError owed with
  | nil => exact ⟨_, rfl⟩
  | cons outcome outcomes ih =>
    -- Readiness comes before any failure here, so nothing could have paid the debt.
    have hpaid : ¬(outcome.served = true ∧ owed = true) := by
      rintro ⟨hserved, rfl⟩
      obtain ⟨f, hf, -⟩ := howed rfl [] outcome outcomes rfl (by simp) hserved
      cases hf
    have hone := run_notice_iteration owed lastError outcome
    rw [if_neg hpaid] at hone
    have hrest : ∃ t, notice.run
        ⟨false, (owed || outcome.served) && decide (lastError = some outcome.message)⟩
        (spawnEventForwarder (some outcome.message) outcomes) = some t := by
      refine ih h.tail ?_
      intro hstill fails regained after heq hfails hregained
      simp only [Bool.and_eq_true, Bool.or_eq_true, decide_eq_true_eq] at hstill
      obtain ⟨hstill, hsame⟩ := hstill
      have hall : ∃ f ∈ outcome :: fails, lastError ≠ some f.message := by
        cases hserved : outcome.served with
        | true =>
          -- The debt is that of this outcome, whose loss is at the head.
          have := h [] fails outcome regained after
            ⟨by rw [heq]; rfl, hserved, hfails, hregained⟩
          simpa [lastFailure] using this
        | false =>
          have howed' : owed = true := hstill.resolve_right (by simp [hserved])
          refine howed howed' (outcome :: fails) regained after (by rw [heq]; rfl) ?_ hregained
          intro f hf
          rcases List.mem_cons.1 hf with rfl | hf
          · exact hserved
          · exact hfails f hf
      obtain ⟨f, hf, hne⟩ := hall
      rcases List.mem_cons.1 hf with rfl | hf
      · exact absurd hsame hne
      · exact ⟨f, hf, hsame ▸ hne⟩
    obtain ⟨t, ht⟩ := hrest
    rw [spawnEventForwarder_cons]
    exact ⟨t, notice.run_append_eq_some.2 ⟨_, hone, ht⟩⟩

/-- A forwarder that reports every loss has varied outcomes. -/
theorem varied_of_notified {outcomes : List ForwardOutcome} {lastError : Option String}
    (h : Notified (spawnEventForwarder lastError outcomes)) : Varied lastError outcomes := by
  rintro before fails lost regained after ⟨rfl, hlost, hfails, hregained⟩
  by_contra hsame
  push Not at hsame
  have hmessage : lastFailure lastError before = some lost.message :=
    hsame lost List.mem_cons_self
  have hfailed : ∀ f ∈ fails, f.message = lost.message := by
    intro f hf
    have := hsame f (List.mem_cons_of_mem _ hf)
    rw [hmessage] at this
    exact (Option.some.inj this).symm
  -- One iteration that becomes ready, up to its readiness and from there to its reset.
  have hhead : ∀ o : ForwardOutcome, o.served = true → ∃ events : List (String × Value),
      forwardEvents o = .ready true :: events.map fun e => .send (.event e.1 e.2) := by
    intro o ho
    cases o with
    | unavailable m => cases ho
    | ended events => exact ⟨events, rfl⟩
    | undecodable events => exact ⟨events, rfl⟩
  obtain ⟨events, hevents⟩ := hhead lost hlost
  obtain ⟨events', hevents'⟩ := hhead regained hregained
  -- All failures of the loss repeat one message, so the last one has it too.
  have hlastMessage : lastFailure lastError (before ++ lost :: fails) = some lost.message := by
    unfold lastFailure
    rw [List.map_append, List.getLast?_append]
    rcases fails.eq_nil_or_concat' with rfl | ⟨init, last, rfl⟩
    · simp
    · have := hfailed last (by simp)
      simp [List.getLast?_cons, this]
  have htrace := spawnEventForwarder_append lastError (before ++ lost :: fails) (regained :: after)
  rw [spawnEventForwarder_append lastError before, spawnEventForwarder_cons _ lost,
    spawnEventForwarder_cons _ regained, hmessage, hlastMessage, hevents, hevents'] at htrace
  have hreport : (reportTransportError (some lost.message) lost.message).2 = [] := by
    simp [reportTransportError]
  rw [hreport] at htrace
  obtain ⟨m, hm⟩ := h (spawnEventForwarder lastError before ++ [.ready false])
    (events.map fun e => .send (.event e.1 e.2))
    (invalidate ++ spawnEventForwarder (some lost.message) fails ++ [.ready false]) _
    (by rw [htrace]; simp only [List.append_assoc, List.cons_append, List.nil_append]; rfl)
    (by simp) (by simp [invalidate, ready_notMem_spawnEventForwarder hfails])
  have hsilent := transportError_notMem_spawnEventForwarder hfails hfailed m
  simp [invalidate, hsilent] at hm

/-- Every loss is notified if and only if, in every loss, some failure has a message other than that
of the last failure before the period of readiness. -/
theorem notified_iff (outcomes : List ForwardOutcome) :
    Notified (spawnEventForwarder none outcomes) ↔
      ∀ before fails lost regained after, Loss outcomes before fails lost regained after →
        ∃ f ∈ lost :: fails, before.getLast?.map ForwardOutcome.message ≠ some f.message := by
  have hlast : ∀ before, lastFailure none before =
      before.getLast?.map ForwardOutcome.message := by
    intro before
    unfold lastFailure
    rw [List.getLast?_map, Option.or_none]
  simp only [← hlast]
  constructor
  · exact varied_of_notified
  · intro h
    obtain ⟨t, ht⟩ := @run_notice_of_varied outcomes none false h (by simp)
    exact notified_of_run_notice ht

/-- Two connections in turn whose signal streams end: the second loss is not reported. -/
theorem not_notified_ended_twice :
    ¬Notified (spawnEventForwarder none [.ended [], .ended [], .ended []]) := by
  intro h
  obtain ⟨m, hm⟩ := h
    [.ready false, .ready true, .send .resetCorrelation,
      .send (.transportError "daemon event stream ended"), .ready false, .disconnect, .ready false]
    [] [.ready false, .disconnect, .ready false]
    [.send .resetCorrelation, .ready false, .disconnect] rfl (by simp) (by simp)
  simp at hm

end DaemonFramework.Bridge
