import DaemonFramework.Machine

/-!
# Event readiness and the cached connection

`ReconnectingClient` of `shelllist-daemon-tokio/src/jsonl.rs` holds the cached connection and the
readiness of event forwarding as two separately synchronised variables. Three kinds of tasks work on
them: the event forwarder (`spawn_event_forwarder`, `forward_events`), the owner watcher
(`watch_owner_once`) and the `Subscribe` requests (`execute_request`); every other request only
fetches the connection. Each task has its phases, and one step is what it does to the variables
between two points where another task can run. `get` is one step, since it holds the lock of the
connection throughout.

A subscription is of use only on the connection whose signals the forwarder reads. A `Subscribe`
request checks readiness first and fetches the connection then, and what it has checked can be gone
when it sends. `subscribed_where_read` is about the runs without such a disturbance, and
`disturbance_strands` says that every disturbance can strand a subscription.
-/

namespace DaemonFramework.Bridge

/-- The variables that the tasks share. Connections are numbered in the order they are made. -/
structure ReconnectingClient where
  /-- The cached connection. -/
  current : Option ℕ
  /-- Whether event forwarding is ready. -/
  eventReady : Bool
  /-- The number of connections made so far. -/
  sessions : ℕ
deriving DecidableEq

namespace ReconnectingClient

/-- The cached connection, or else a new one, which is cached. -/
def get (c : ReconnectingClient) : ℕ × ReconnectingClient :=
  match c.current with
  | some n => (n, c)
  | none => (c.sessions, { c with current := some c.sessions, sessions := c.sessions + 1 })

/-- Set the readiness. -/
def setReady (c : ReconnectingClient) (value : Bool) : ReconnectingClient :=
  { c with eventReady := value }

/-- Drop the cached connection. -/
def clear (c : ReconnectingClient) : ReconnectingClient := { c with current := none }

end ReconnectingClient

/-- Where the event forwarder is. -/
inductive ForwarderPhase where
  /-- At the head of its loop. -/
  | starting
  /-- About to fetch a connection. -/
  | connecting
  /-- Asking for the signals of a connection. -/
  | connected (n : ℕ)
  /-- About to announce readiness. -/
  | streaming (n : ℕ)
  /-- Reading the signals of a connection. -/
  | reading (n : ℕ)
  /-- `forward_events` has failed. -/
  | failed
  /-- The failure is reported, and readiness is about to be withdrawn. -/
  | reported
  /-- About to drop the cached connection. -/
  | clearing
  /-- Waiting for the next attempt. -/
  | sleeping
  /-- The output is closed. -/
  | returned
deriving DecidableEq

/-- The connection whose signals are read. -/
def ForwarderPhase.connection : ForwarderPhase → Option ℕ
  | reading n => some n
  | _ => none

/-- Whether the forwarder has stopped and not withdrawn readiness since. -/
def ForwarderPhase.stale : ForwarderPhase → Bool
  | failed | reported | returned => true
  | _ => false

/-- A step of the event forwarder. -/
inductive ForwarderStep where
  | begin
  | get
  | stream
  | ready
  | fail
  | report
  | stop
  | unready
  | clear
  | wake

/-- What the forwarder does. -/
def forwarderStep (c : ReconnectingClient) :
    ForwarderPhase → ForwarderStep → Option (ForwarderPhase × ReconnectingClient)
  | .starting, .begin => some (.connecting, c.setReady false)
  | .connecting, .get => some (.connected c.get.1, c.get.2)
  | .connected n, .stream => some (.streaming n, c)
  | .streaming n, .ready => some (.reading n, c.setReady true)
  | .connecting, .fail => some (.failed, c)
  | .connected _, .fail => some (.failed, c)
  | .reading _, .fail => some (.failed, c)
  | .failed, .report => some (.reported, c)
  | .failed, .stop => some (.returned, c)
  | .reported, .unready => some (.clearing, c.setReady false)
  | .clearing, .clear => some (.sleeping, c.clear)
  | .sleeping, .wake => some (.starting, c)
  | _, _ => none

/-- Where the owner watcher is. -/
inductive WatcherPhase where
  /-- About to fetch a connection. -/
  | starting
  /-- Waiting for the owner to be replaced. -/
  | watching (n : ℕ)
  /-- The owner was replaced, and readiness is about to be withdrawn. -/
  | replaced
  /-- About to drop the cached connection. -/
  | clearing
  /-- About to report the replacement. -/
  | notifying
  /-- Waiting after an error. -/
  | sleeping
  /-- The output is closed. -/
  | returned
deriving DecidableEq

/-- A step of the owner watcher. -/
inductive WatcherStep where
  | get
  | fail
  | replace
  | unready
  | clear
  | notify
  | stop
  | wake

/-- What the watcher does. -/
def watcherStep (c : ReconnectingClient) :
    WatcherPhase → WatcherStep → Option (WatcherPhase × ReconnectingClient)
  | .starting, .get => some (.watching c.get.1, c.get.2)
  | .starting, .fail => some (.sleeping, c)
  | .watching _, .fail => some (.sleeping, c)
  | .watching _, .replace => some (.replaced, c)
  | .replaced, .unready => some (.clearing, c.setReady false)
  | .clearing, .clear => some (.notifying, c.clear)
  | .notifying, .notify => some (.starting, c)
  | .notifying, .stop => some (.returned, c)
  | .sleeping, .wake => some (.starting, c)
  | _, _ => none

/-- Where a `Subscribe` request is. -/
inductive SubscribePhase where
  /-- Waiting for readiness. -/
  | waiting
  /-- Readiness was seen. -/
  | checked
  /-- A connection was fetched. -/
  | connected (n : ℕ)
  /-- The call was sent on a connection, while the forwarder read the signals of another or the same
  connection, or of none. -/
  | sent (n : ℕ) (read : Option ℕ)
  /-- The call was not sent: a deadline, a failure or the end of the bridge. -/
  | failed
deriving DecidableEq

/-- A step of a `Subscribe` request. -/
inductive SubscribeStep where
  | pass
  | get
  | send
  | fail

/-- What a `Subscribe` request does, when the forwarder reads the signals of the connection
`read`. -/
def subscribeStep (c : ReconnectingClient) (read : Option ℕ) :
    SubscribePhase → SubscribeStep → Option (SubscribePhase × ReconnectingClient)
  | .waiting, .pass => if c.eventReady then some (.checked, c) else none
  | .checked, .get => some (.connected c.get.1, c.get.2)
  | .connected n, .send => some (.sent n read, c)
  | .waiting, .fail => some (.failed, c)
  | .checked, .fail => some (.failed, c)
  | .connected _, .fail => some (.failed, c)
  | _, _ => none

/-- The tasks and what they share. -/
structure ClientState where
  /-- The shared variables. -/
  client : ReconnectingClient
  /-- The event forwarder. -/
  forwarder : ForwarderPhase
  /-- The owner watcher. -/
  watcher : WatcherPhase
  /-- The `Subscribe` requests that arrived so far. -/
  subscribes : List SubscribePhase

/-- What can happen next. -/
inductive ClientStep where
  /-- The event forwarder takes a step. -/
  | forwarder (step : ForwarderStep)
  /-- The owner watcher takes a step. -/
  | watcher (step : WatcherStep)
  /-- A `Subscribe` request arrives. -/
  | arrive
  /-- A `Subscribe` request takes a step. -/
  | subscribe (i : ℕ) (step : SubscribeStep)
  /-- Another request fetches the connection. -/
  | call

/-- The tasks of one bridge. -/
def clientTasks : Machine ClientState ClientStep where
  init := ⟨⟨none, false, 0⟩, .starting, .starting, []⟩
  step s
    | .forwarder l => (forwarderStep s.client s.forwarder l).map fun p =>
        { s with forwarder := p.1, client := p.2 }
    | .watcher l => (watcherStep s.client s.watcher l).map fun p =>
        { s with watcher := p.1, client := p.2 }
    | .arrive => some { s with subscribes := s.subscribes ++ [.waiting] }
    | .subscribe i l => s.subscribes[i]?.bind fun phase =>
        (subscribeStep s.client s.forwarder.connection phase l).map fun p =>
          { s with subscribes := s.subscribes.set i p.1, client := p.2 }
    | .call => some { s with client := s.client.get.2 }

/-- Every subscribe call was sent on the connection whose signals were being read. -/
def SubscribedWhereRead (s : ClientState) : Prop :=
  ∀ n read, .sent n read ∈ s.subscribes → read = some n

/-- No step disturbs a subscription. Readiness is not seen between the end of the forwarder's signal
stream and the withdrawal of readiness. The stream does not end between the readiness check of a
request and its call. The watcher drops the cached connection only while readiness is withdrawn, and
neither between the forwarder's fetching of a connection and its announcement of readiness, nor
between the readiness check of a request and its fetching of the connection. -/
def Undisturbed (s : ClientState) : ClientStep → Prop
  | .subscribe _ .pass => s.forwarder.stale = false
  | .forwarder .fail => .checked ∉ s.subscribes ∧ ∀ n, .connected n ∉ s.subscribes
  | .watcher .clear => s.client.eventReady = false ∧
      (∀ n, s.forwarder ≠ .connected n ∧ s.forwarder ≠ .streaming n) ∧ .checked ∉ s.subscribes
  | _ => True

/-- The invariant of the runs without a disturbance. -/
structure Sound (s : ClientState) : Prop where
  /-- Connections are numbered from zero. -/
  current : ∀ n, s.client.current = some n → n < s.client.sessions
  /-- So are those whose signals are read. -/
  reading : ∀ n, s.forwarder = .reading n → n < s.client.sessions
  /-- Readiness means that the cached connection is read, or that its stream has just ended. -/
  ready : s.client.eventReady = true →
    (∃ n, s.forwarder = .reading n ∧ s.client.current = some n) ∨ s.forwarder.stale = true
  /-- The forwarder announces readiness for the cached connection. -/
  forwarder : ∀ n, s.forwarder = .connected n ∨ s.forwarder = .streaming n →
    s.client.current = some n
  /-- A request that saw readiness will fetch the connection that is read. -/
  checked : .checked ∈ s.subscribes →
    ∃ n, s.forwarder = .reading n ∧ s.client.current = some n
  /-- A request that fetched a connection will send on the connection that is read. -/
  connected : ∀ n, .connected n ∈ s.subscribes → s.forwarder = .reading n
  /-- The calls sent so far. -/
  sent : SubscribedWhereRead s

/-- A cached connection is fetched and nothing changes. -/
theorem ReconnectingClient.get_of_current {c : ReconnectingClient} {n : ℕ}
    (h : c.current = some n) : c.get = (n, c) := by
  unfold ReconnectingClient.get
  rw [h]

/-- Without a cached connection a new one is made. -/
theorem ReconnectingClient.get_of_none {c : ReconnectingClient} (h : c.current = none) :
    c.get = (c.sessions, { c with current := some c.sessions, sessions := c.sessions + 1 }) := by
  unfold ReconnectingClient.get
  rw [h]

/-- A fetched connection is cached. -/
theorem ReconnectingClient.current_get (c : ReconnectingClient) :
    c.get.2.current = some c.get.1 := by
  cases hcurrent : c.current with
  | some n => rw [get_of_current hcurrent, hcurrent]
  | none => rw [get_of_none hcurrent]

/-- Fetching a connection leaves readiness as it is. -/
theorem ReconnectingClient.eventReady_get (c : ReconnectingClient) :
    c.get.2.eventReady = c.eventReady := by
  cases hcurrent : c.current with
  | some n => rw [get_of_current hcurrent]
  | none => rw [get_of_none hcurrent]

namespace Sound

variable {s : ClientState}

/-- The initial state is sound. -/
theorem init : Sound clientTasks.init where
  current := by simp [clientTasks]
  reading := by simp [clientTasks]
  ready := by simp [clientTasks]
  forwarder := by simp [clientTasks]
  checked := by simp [clientTasks]
  connected := by simp [clientTasks]
  sent := by simp [SubscribedWhereRead, clientTasks]

/-- While the forwarder reads no signals, no request is between its check and its call. -/
theorem idle (h : Sound s) (hread : ∀ n, s.forwarder ≠ .reading n) :
    .checked ∉ s.subscribes ∧ ∀ n, .connected n ∉ s.subscribes := by
  constructor
  · intro hmem
    obtain ⟨n, hn, -⟩ := h.checked hmem
    exact hread n hn
  · intro n hmem
    exact hread n (h.connected n hmem)

/-- Readiness is withdrawn unless the forwarder reads signals or has just stopped. -/
theorem unready (h : Sound s) (hread : ∀ n, s.forwarder ≠ .reading n)
    (hstale : s.forwarder.stale = false) : s.client.eventReady = false := by
  by_contra hready
  rcases h.ready (by simpa using hready) with ⟨n, hn, -⟩ | hn
  · exact hread n hn
  · rw [hstale] at hn
    cases hn

/-- Fetching a connection keeps the state sound, whoever does it. -/
theorem fetch (h : Sound s) : Sound { s with client := s.client.get.2 } := by
  cases hcurrent : s.client.current with
  | some n =>
    rw [ReconnectingClient.get_of_current hcurrent]
    exact h
  | none =>
    rw [ReconnectingClient.get_of_none hcurrent]
    refine ⟨?_, ?_, ?_, ?_, ?_, h.connected, h.sent⟩
    · rintro n hn
      obtain rfl := Option.some.inj hn
      exact Nat.lt_succ_self _
    · intro n hn
      exact Nat.lt_succ_of_lt (h.reading n hn)
    · intro hready
      -- Readiness would mean that a connection was cached.
      refine .inr ((h.ready hready).resolve_left ?_)
      rintro ⟨n, -, hn⟩
      rw [hcurrent] at hn
      cases hn
    · intro n hn
      have := h.forwarder n hn
      -- Between its `get` and its readiness the forwarder has its connection cached.
      rw [hcurrent] at this
      cases this
    · intro hmem
      obtain ⟨n, -, hn⟩ := h.checked hmem
      rw [hcurrent] at hn
      cases hn

/-- The forwarder goes from a phase in which it reads no signals to another, with readiness
withdrawn. -/
theorem quiet (h : Sound s) (phase : ForwarderPhase) (c : ReconnectingClient)
    (hread : ∀ n, s.forwarder ≠ .reading n) (hphase : ∀ n, phase ≠ .reading n)
    (hready : c.eventReady = false) (hcurrent : ∀ n, c.current = some n → n < c.sessions)
    (hforwarder : ∀ n, phase = .connected n ∨ phase = .streaming n → c.current = some n) :
    Sound { s with forwarder := phase, client := c } := by
  obtain ⟨hchecked, hconnected⟩ := h.idle hread
  exact ⟨hcurrent, fun n hn => absurd hn (hphase n), fun hc => by simp [hready] at hc,
    hforwarder, fun hmem => absurd hmem hchecked, fun n hmem => absurd hmem (hconnected n),
    h.sent⟩

/-- The forwarder stops, with readiness still announced, where no request relies on it. -/
theorem stop (h : Sound s) {phase : ForwarderPhase} (hstale : phase.stale = true)
    (hchecked : .checked ∉ s.subscribes) (hconnected : ∀ n, .connected n ∉ s.subscribes) :
    Sound { s with forwarder := phase } where
  current := h.current
  reading n hn := by
    obtain rfl : phase = .reading n := hn
    cases hstale
  ready _ := .inr hstale
  forwarder n hn := by
    obtain rfl | rfl : phase = .connected n ∨ phase = .streaming n := hn
    · cases hstale
    · cases hstale
  checked hmem := absurd hmem hchecked
  connected n hmem := absurd hmem (hconnected n)
  sent := h.sent

/-- A step of the forwarder that does not end its stream under a request keeps the state sound. -/
theorem forwarderStep (h : Sound s) {l : ForwarderStep} {p : ForwarderPhase × ReconnectingClient}
    (hmeets : Undisturbed s (.forwarder l))
    (hstep : Bridge.forwarderStep s.client s.forwarder l = some p) :
    Sound { s with forwarder := p.1, client := p.2 } := by
  unfold Bridge.forwarderStep at hstep
  split at hstep
  -- `begin`
  · rename_i hphase
    obtain rfl := Option.some.inj hstep
    exact h.quiet _ _ (by simp [hphase]) (by simp) rfl h.current (by simp)
  -- `get`
  · rename_i hphase
    obtain rfl := Option.some.inj hstep
    have hready := h.unready (by simp [hphase]) (by simp [hphase, ForwarderPhase.stale])
    rw [← s.client.eventReady_get] at hready
    refine h.quiet _ _ (by simp [hphase]) (by simp) hready h.fetch.current ?_
    rintro n (hn | hn)
    · rw [ReconnectingClient.current_get]
      exact congrArg some (ForwarderPhase.connected.inj hn)
    · cases hn
  -- `stream`
  · rename_i n hphase
    obtain rfl := Option.some.inj hstep
    have hready := h.unready (by simp [hphase]) (by simp [hphase, ForwarderPhase.stale])
    refine h.quiet _ _ (by simp [hphase]) (by simp) hready h.current ?_
    rintro m (hm | hm)
    · cases hm
    · exact ForwarderPhase.streaming.inj hm ▸ h.forwarder n (.inl hphase)
  -- `ready`: the connection that is read is the cached one.
  · rename_i n hphase
    obtain rfl := Option.some.inj hstep
    have hcached := h.forwarder n (.inr hphase)
    obtain ⟨hchecked, hconnected⟩ := h.idle (by simp [hphase])
    refine ⟨h.current, ?_, fun _ => .inl ⟨n, rfl, hcached⟩, by simp,
      fun hmem => absurd hmem hchecked, fun m hmem => absurd hmem (hconnected m), h.sent⟩
    intro m hm
    exact ForwarderPhase.reading.inj hm ▸ h.current n hcached
  -- `fail` without a connection
  · rename_i hphase
    obtain rfl := Option.some.inj hstep
    have hready := h.unready (by simp [hphase]) (by simp [hphase, ForwarderPhase.stale])
    exact h.quiet _ _ (by simp [hphase]) (by simp) hready h.current (by simp)
  -- `fail` without a stream
  · rename_i n hphase
    obtain rfl := Option.some.inj hstep
    have hready := h.unready (by simp [hphase]) (by simp [hphase, ForwarderPhase.stale])
    exact h.quiet _ _ (by simp [hphase]) (by simp) hready h.current (by simp)
  -- `fail` while reading: no request is between its check and its call.
  · rename_i n hphase
    obtain rfl := Option.some.inj hstep
    exact h.stop rfl hmeets.1 hmeets.2
  -- `report`
  · rename_i hphase
    obtain rfl := Option.some.inj hstep
    obtain ⟨hchecked, hconnected⟩ := h.idle (by simp [hphase])
    exact h.stop rfl hchecked hconnected
  -- `stop`
  · rename_i hphase
    obtain rfl := Option.some.inj hstep
    obtain ⟨hchecked, hconnected⟩ := h.idle (by simp [hphase])
    exact h.stop rfl hchecked hconnected
  -- `unready`
  · rename_i hphase
    obtain rfl := Option.some.inj hstep
    exact h.quiet _ _ (by simp [hphase]) (by simp) rfl h.current (by simp)
  -- `clear`
  · rename_i hphase
    obtain rfl := Option.some.inj hstep
    have hready := h.unready (by simp [hphase]) (by simp [hphase, ForwarderPhase.stale])
    exact h.quiet _ _ (by simp [hphase]) (by simp) hready (by simp [ReconnectingClient.clear])
      (by simp)
  -- `wake`
  · rename_i hphase
    obtain rfl := Option.some.inj hstep
    have hready := h.unready (by simp [hphase]) (by simp [hphase, ForwarderPhase.stale])
    exact h.quiet _ _ (by simp [hphase]) (by simp) hready h.current (by simp)
  · cases hstep

/-- Withdrawing readiness keeps the state sound. -/
theorem withdraw (h : Sound s) : Sound { s with client := s.client.setReady false } :=
  ⟨h.current, h.reading, (fun hc => by cases hc), h.forwarder, h.checked, h.connected, h.sent⟩

/-- A step of the watcher that does not drop the connection under anybody keeps the state sound. -/
theorem watcherStep (h : Sound s) {l : WatcherStep} {p : WatcherPhase × ReconnectingClient}
    (hmeets : Undisturbed s (.watcher l))
    (hstep : Bridge.watcherStep s.client s.watcher l = some p) :
    Sound { s with watcher := p.1, client := p.2 } := by
  -- The phase of the watcher plays no part.
  suffices hclient : Sound { s with client := p.2 } from
    ⟨hclient.current, hclient.reading, hclient.ready, hclient.forwarder, hclient.checked,
      hclient.connected, hclient.sent⟩
  unfold Bridge.watcherStep at hstep
  split at hstep
  -- `get`
  · obtain rfl := Option.some.inj hstep
    exact h.fetch
  · obtain rfl := Option.some.inj hstep
    exact h
  · obtain rfl := Option.some.inj hstep
    exact h
  · obtain rfl := Option.some.inj hstep
    exact h
  -- `unready`
  · obtain rfl := Option.some.inj hstep
    exact h.withdraw
  -- `clear`
  · obtain rfl := Option.some.inj hstep
    obtain ⟨hready, hforwarder, hchecked⟩ := hmeets
    refine ⟨by simp [ReconnectingClient.clear], h.reading, ?_, ?_,
      fun hmem => absurd hmem hchecked, h.connected, h.sent⟩
    -- Readiness is withdrawn, so the missing connection contradicts nothing.
    · intro hc
      have hc : s.client.eventReady = true := hc
      rw [hready] at hc
      cases hc
    · rintro n (hn | hn)
      · exact absurd hn (hforwarder n).1
      · exact absurd hn (hforwarder n).2
  · obtain rfl := Option.some.inj hstep
    exact h
  · obtain rfl := Option.some.inj hstep
    exact h
  · obtain rfl := Option.some.inj hstep
    exact h
  · cases hstep

/-- A request that changes its phase keeps the state sound, if the new phase is as the invariant
demands. -/
theorem setPhase (h : Sound s) (i : ℕ) {phase : SubscribePhase}
    (hchecked : phase = .checked → ∃ n, s.forwarder = .reading n ∧ s.client.current = some n)
    (hconnected : ∀ n, phase = .connected n → s.forwarder = .reading n)
    (hsent : ∀ n read, phase = .sent n read → read = some n) :
    Sound { s with subscribes := s.subscribes.set i phase } := by
  refine ⟨h.current, h.reading, h.ready, h.forwarder, ?_, ?_, ?_⟩
  · intro hmem
    rcases List.mem_or_eq_of_mem_set hmem with hmem | heq
    · exact h.checked hmem
    · exact hchecked heq.symm
  · intro n hmem
    rcases List.mem_or_eq_of_mem_set hmem with hmem | heq
    · exact h.connected n hmem
    · exact hconnected n heq.symm
  · intro n read hmem
    rcases List.mem_or_eq_of_mem_set hmem with hmem | heq
    · exact h.sent n read hmem
    · exact hsent n read heq.symm

/-- A step of a request that does not see a stale readiness keeps the state sound. -/
theorem subscribeStep (h : Sound s) {i : ℕ} {l : SubscribeStep} {phase : SubscribePhase}
    {p : SubscribePhase × ReconnectingClient} (hmeets : Undisturbed s (.subscribe i l))
    (hi : s.subscribes[i]? = some phase)
    (hstep : Bridge.subscribeStep s.client s.forwarder.connection phase l = some p) :
    Sound { s with subscribes := s.subscribes.set i p.1, client := p.2 } := by
  have hmem : phase ∈ s.subscribes := List.mem_of_getElem? hi
  unfold Bridge.subscribeStep at hstep
  split at hstep
  -- `pass`: a readiness that is not stale is that of the cached connection.
  · split_ifs at hstep with hready
    obtain rfl := Option.some.inj hstep
    have hread : ∃ n, s.forwarder = .reading n ∧ s.client.current = some n := by
      refine (h.ready hready).resolve_right ?_
      rw [show s.forwarder.stale = false from hmeets]
      simp
    exact h.setPhase i (fun _ => hread) (by simp) (by simp)
  -- `get`: the cached connection is the one that is read.
  · obtain rfl := Option.some.inj hstep
    obtain ⟨n, hn, hcurrent⟩ := h.checked hmem
    rw [ReconnectingClient.get_of_current hcurrent]
    refine h.setPhase i (by simp) ?_ (by simp)
    intro m hm
    exact SubscribePhase.connected.inj hm ▸ hn
  -- `send`
  · rename_i n
    obtain rfl := Option.some.inj hstep
    have hn := h.connected n hmem
    refine h.setPhase i (by simp) (by simp) ?_
    intro m read hm
    obtain ⟨rfl, rfl⟩ := SubscribePhase.sent.inj hm
    rw [hn]
    rfl
  · obtain rfl := Option.some.inj hstep
    exact h.setPhase i (by simp) (by simp) (by simp)
  · obtain rfl := Option.some.inj hstep
    exact h.setPhase i (by simp) (by simp) (by simp)
  · obtain rfl := Option.some.inj hstep
    exact h.setPhase i (by simp) (by simp) (by simp)
  · cases hstep

/-- An undisturbed step keeps the state sound. -/
theorem step {l : ClientStep} {t : ClientState} (h : Sound s) (hmeets : Undisturbed s l)
    (hstep : clientTasks.step s l = some t) : Sound t := by
  cases l with
  | forwarder l =>
    obtain ⟨p, hp, rfl⟩ := Option.map_eq_some_iff.1 hstep
    exact h.forwarderStep hmeets hp
  | watcher l =>
    obtain ⟨p, hp, rfl⟩ := Option.map_eq_some_iff.1 hstep
    exact h.watcherStep hmeets hp
  | arrive =>
    obtain rfl := Option.some.inj hstep
    refine ⟨h.current, h.reading, h.ready, h.forwarder, ?_, ?_, ?_⟩
    · intro hmem
      exact h.checked (by simpa using hmem)
    · intro n hmem
      exact h.connected n (by simpa using hmem)
    · intro n read hmem
      exact h.sent n read (by simpa using hmem)
  | subscribe i l =>
    obtain ⟨phase, hphase, hrest⟩ := Option.bind_eq_some_iff.1 hstep
    obtain ⟨p, hp, rfl⟩ := Option.map_eq_some_iff.1 hrest
    exact h.subscribeStep hmeets hphase hp
  | call =>
    obtain rfl := Option.some.inj hstep
    exact h.fetch

end Sound

/-- In every run without a disturbance, every subscribe call is sent on the connection whose signals
the forwarder is reading at that moment. -/
theorem subscribed_where_read {labels : List ClientStep} {s : ClientState}
    (hmeets : clientTasks.StepsMeet Undisturbed clientTasks.init labels)
    (hrun : clientTasks.run clientTasks.init labels = some s) : SubscribedWhereRead s :=
  (Machine.invariant_of_stepsMeet (fun _ _ _ hs hC hstep => hs.step hC hstep) Sound.init hmeets
    hrun).sent

/-- A subscription that is sent while the forwarder reads its connection. -/
theorem subscribed_where_read_once :
    ∃ s, clientTasks.run clientTasks.init [.forwarder .begin, .forwarder .get, .forwarder .stream,
      .forwarder .ready, .arrive, .subscribe 0 .pass, .subscribe 0 .get, .subscribe 0 .send] =
        some s ∧ SubscribedWhereRead s := by
  have hmeets : clientTasks.StepsMeet Undisturbed clientTasks.init [.forwarder .begin,
      .forwarder .get, .forwarder .stream, .forwarder .ready, .arrive, .subscribe 0 .pass,
      .subscribe 0 .get, .subscribe 0 .send] := by
    refine Machine.stepsMeet_cons trivial rfl ?_
    refine Machine.stepsMeet_cons trivial rfl ?_
    refine Machine.stepsMeet_cons trivial rfl ?_
    refine Machine.stepsMeet_cons trivial rfl ?_
    refine Machine.stepsMeet_cons trivial rfl ?_
    -- The readiness check passes while the forwarder reads the connection that is cached.
    refine Machine.stepsMeet_cons rfl rfl ?_
    refine Machine.stepsMeet_cons trivial rfl ?_
    exact Machine.stepsMeet_cons trivial rfl trivial
  exact ⟨_, rfl, subscribed_where_read hmeets rfl⟩

/-- The owner watcher drops the cached connection between the readiness check of a request and its
call, which is then sent on a new connection while the forwarder reads the old one. -/
theorem subscribed_elsewhere :
    ¬∀ (labels : List ClientStep) (s : ClientState),
      clientTasks.run clientTasks.init labels = some s → SubscribedWhereRead s := by
  intro h
  have hlast := h [.forwarder .begin, .forwarder .get, .forwarder .stream, .forwarder .ready,
    .watcher .get, .arrive, .subscribe 0 .pass, .watcher .replace, .watcher .unready,
    .watcher .clear, .subscribe 0 .get, .subscribe 0 .send] _ rfl 1 (some 0) (by decide)
  exact absurd hlast (by decide)

/-! ## Disturbances -/

/-- A state from which some run strands a subscription. -/
def CanStrand (s : ClientState) : Prop :=
  ∃ labels t, clientTasks.run s labels = some t ∧ ¬SubscribedWhereRead t

/-- What can strand a subscription after a step can strand one before it. -/
theorem CanStrand.of_step {s t : ClientState} {l : ClientStep} (h : CanStrand t)
    (hstep : clientTasks.step s l = some t) : CanStrand s := by
  obtain ⟨labels, u, hrun, hu⟩ := h
  exact ⟨l :: labels, u, clientTasks.run_cons_eq_some.2 ⟨t, hstep, hrun⟩, hu⟩

/-- A request with a connection that is not read can send on it. -/
theorem canStrand_of_connected {s : ClientState} {n : ℕ} (hmem : .connected n ∈ s.subscribes)
    (hread : s.forwarder.connection ≠ some n) : CanStrand s := by
  obtain ⟨i, hi⟩ := List.mem_iff_getElem?.1 hmem
  have hlt : i < s.subscribes.length := (List.getElem?_eq_some_iff.1 hi).1
  let t := { s with subscribes := s.subscribes.set i (.sent n s.forwarder.connection) }
  have hstep : clientTasks.step s (.subscribe i .send) = some t := by
    simp only [clientTasks, hi]
    rfl
  refine ⟨[.subscribe i .send], t, clientTasks.run_cons_eq_some.2 ⟨t, hstep, rfl⟩, ?_⟩
  intro hall
  exact hread (hall n s.forwarder.connection (List.mem_set hlt _))

/-- A request that saw readiness can send on the connection that it fetches. -/
theorem canStrand_of_checked {s : ClientState} (hmem : .checked ∈ s.subscribes)
    (hread : s.forwarder.connection ≠ some s.client.get.1) : CanStrand s := by
  obtain ⟨i, hi⟩ := List.mem_iff_getElem?.1 hmem
  have hlt : i < s.subscribes.length := (List.getElem?_eq_some_iff.1 hi).1
  have hconnected : CanStrand { s with
      subscribes := s.subscribes.set i (.connected s.client.get.1), client := s.client.get.2 } :=
    canStrand_of_connected (List.mem_set hlt _) hread
  refine hconnected.of_step (l := .subscribe i .get) ?_
  simp only [clientTasks, hi]
  rfl

/-- While readiness is announced, a new request can send on the connection that it fetches. -/
theorem canStrand_of_ready {s : ClientState} (hready : s.client.eventReady = true)
    (hread : s.forwarder.connection ≠ some s.client.get.1) : CanStrand s := by
  have hchecked : CanStrand { s with subscribes := s.subscribes ++ [.checked] } :=
    canStrand_of_checked (by simp) hread
  have hwaiting : CanStrand { s with subscribes := s.subscribes ++ [.waiting] } := by
    refine hchecked.of_step (l := .subscribe s.subscribes.length .pass) ?_
    simp [clientTasks, subscribeStep, hready]
  exact hwaiting.of_step (l := .arrive) rfl

/-- However forwarding fails, the connection stays cached. -/
theorem forwarderStep_fail {c : ReconnectingClient} {phase : ForwarderPhase}
    {p : ForwarderPhase × ReconnectingClient} (h : forwarderStep c phase .fail = some p) :
    p = (.failed, c) := by
  cases phase <;> first
    | exact (Option.some.inj h).symm
    | cases h

/-- The watcher drops the connection and reports. -/
theorem watcherStep_clear {c : ReconnectingClient} {phase : WatcherPhase}
    {p : WatcherPhase × ReconnectingClient} (h : watcherStep c phase .clear = some p) :
    p = (.notifying, c.clear) := by
  cases phase <;> first
    | exact (Option.some.inj h).symm
    | cases h

/-- A new connection is not the one that is read. -/
theorem Sound.connection_ne_sessions {s : ClientState} (h : Sound s) :
    s.forwarder.connection ≠ some s.client.sessions := by
  intro heq
  cases hphase : s.forwarder with
  | reading n =>
    rw [hphase] at heq
    obtain rfl := Option.some.inj heq
    exact Nat.lt_irrefl _ (h.reading _ hphase)
  | _ =>
    rw [hphase] at heq
    cases heq

/-- Every disturbance can strand a subscription: from the state after it, some run sends a subscribe
call on a connection whose signals are not read. -/
theorem disturbance_strands {s t : ClientState} {l : ClientStep} (h : Sound s)
    (hdisturbed : ¬Undisturbed s l) (hstep : clientTasks.step s l = some t) : CanStrand t := by
  cases l with
  | forwarder l =>
    cases l with
    -- The stream ends while a request is past its check, or has its connection already.
    | fail =>
      obtain ⟨p, hp, rfl⟩ := Option.map_eq_some_iff.1 hstep
      obtain rfl := forwarderStep_fail hp
      by_cases hchecked : .checked ∈ s.subscribes
      · exact canStrand_of_checked hchecked (by simp [ForwarderPhase.connection])
      · by_contra hfine
        refine hdisturbed ⟨hchecked, fun n hmem => hfine ?_⟩
        exact canStrand_of_connected hmem (by simp [ForwarderPhase.connection])
    | _ => exact absurd trivial hdisturbed
  | watcher l =>
    cases l with
    -- The next request gets a new connection, which nobody reads.
    | clear =>
      obtain ⟨p, hp, rfl⟩ := Option.map_eq_some_iff.1 hstep
      obtain rfl := watcherStep_clear hp
      have hnew : s.client.clear.get.1 = s.client.sessions := rfl
      have hfresh := h.connection_ne_sessions
      by_cases hready : s.client.eventReady = true
      · exact canStrand_of_ready hready hfresh
      · by_cases hchecked : .checked ∈ s.subscribes
        · exact canStrand_of_checked hchecked hfresh
        -- The forwarder goes on to announce readiness for the connection that was dropped.
        · have hready : s.client.eventReady = false := by simpa using hready
          have hstreaming : ∀ n, s.client.current = some n → CanStrand { s with
              watcher := .notifying
              client := s.client.clear
              forwarder := .streaming n } := by
            intro n hn
            have hlt := h.current n hn
            have hreading : CanStrand { s with
                watcher := .notifying
                client := s.client.clear.setReady true
                forwarder := .reading n } := by
              refine canStrand_of_ready rfl ?_
              intro heq
              have : n = s.client.sessions := Option.some.inj heq
              omega
            exact hreading.of_step (l := .forwarder .ready) rfl
          by_contra hfine
          refine hdisturbed ⟨hready, fun n => ⟨fun hn => hfine ?_, fun hn => hfine ?_⟩, hchecked⟩
          · refine (hstreaming n (h.forwarder n (.inl hn))).of_step (l := .forwarder .stream) ?_
            simp [clientTasks, hn, forwarderStep]
          · have := hstreaming n (h.forwarder n (.inr hn))
            rwa [← hn] at this
    | _ => exact absurd trivial hdisturbed
  | subscribe i l =>
    cases l with
    -- The request has seen readiness for a stream that has ended.
    | pass =>
      obtain ⟨phase, hphase, hrest⟩ := Option.bind_eq_some_iff.1 hstep
      obtain ⟨p, hp, rfl⟩ := Option.map_eq_some_iff.1 hrest
      have hlt : i < s.subscribes.length := (List.getElem?_eq_some_iff.1 hphase).1
      have hp : p = (.checked, s.client) := by
        cases phase with
        | waiting =>
          simp only [subscribeStep] at hp
          split_ifs at hp
          exact (Option.some.inj hp).symm
        | _ => cases hp
      obtain rfl := hp
      refine canStrand_of_checked (List.mem_set hlt _) ?_
      have hstale : s.forwarder.stale = true := by simpa [Undisturbed] using hdisturbed
      cases hforwarder : s.forwarder <;> rw [hforwarder] at hstale <;>
        simp [ForwarderPhase.stale, ForwarderPhase.connection] at hstale ⊢
    | _ => exact absurd trivial hdisturbed
  | arrive => exact absurd trivial hdisturbed
  | call => exact absurd trivial hdisturbed

end DaemonFramework.Bridge
