import DaemonFramework.Ingress.BridgeLoop
import DaemonFramework.Ingress.ConnectionLoop

/-!
# The discipline holds on both ingress paths

`requests_disciplined` is the main result: in every run of the bridge and of a socket connection,
whatever the peers do and in whatever order the tasks move, each request is kept to
`Account.Disciplined`.
-/

namespace DaemonFramework.Ingress

open Output

/-- Along every run of either path, each request produces one reply line at most, and one if the
output stays open and its task is allowed to finish; the reply carries the id and the route of the
request; a call or a subscription invokes its method once at most; a reply that says
`rejected-before-dispatch` is written only if nothing was invoked; and the reply to a call that was
dispatched and has no valid answer in time says `outcome-unknown`. -/
theorem requests_disciplined (policy : CorrelationPolicy) (pendingLimit maximumCalls : ℕ) :
    (∀ s, (Bridge.machine policy pendingLimit maximumCalls).Reachable s →
      ∀ k t, s.tickets[k]? = some t → (s.account k t).Disciplined s.writer.Drained) ∧
    (∀ s, (Socket.machine policy pendingLimit maximumCalls).Reachable s →
      ∀ k t, s.tickets[k]? = some t → (s.account k t).Disciplined s.writer.Drained) := by
  constructor
  · intro s hs k t ht
    have hinvariant := (Bridge.machine policy pendingLimit maximumCalls).invariant_of_reachable
      (P := Bridge.Invariant) (Bridge.Invariant.init policy pendingLimit maximumCalls)
      (fun s e s' h hstep => h.step hstep) hs
    exact hinvariant.disciplined ht
  · intro s hs k t ht
    have hinvariant := (Socket.machine policy pendingLimit maximumCalls).invariant_of_reachable
      (P := Socket.Invariant) (Socket.Invariant.init policy pendingLimit maximumCalls)
      (fun s e s' h hstep => h.step hstep) hs
    exact hinvariant.disciplined ht

/-- A call over the bridge whose deadline expires while the daemon is at work. -/
def lateCall : List Bridge.Label :=
  [.accept ⟨.call "1" "slow" .null, none⟩,
    .wake 0 ⟨.get, .answered (.ok ())⟩,
    .wake 0 ⟨.proxy, .answered (.ok ())⟩,
    .wake 0 ⟨.invoke (.call "slow" .null), .expired 0⟩,
    .wake 0 ⟨.send (.requestError "1" "outcome-unknown"
      ("daemon request timed out after 30000ms; outcome unknown; " ++
        "reconcile state, do not retry automatically") none), .answered (.ok ())⟩,
    .writer .process]

/-- A call over a socket whose method panics. -/
def panickedCall : List Socket.Label :=
  [.accept ⟨.call "1" "slow" .null, none⟩,
    .work 0 ⟨.isClosed, .answered false⟩,
    .work 0 ⟨.invoke (.call "slow" .null), .answered (.error (.panic ⟨"boom"⟩))⟩,
    .work 0 ⟨.isClosed, .answered false⟩,
    .waiter 0 ⟨.join, .answered (.ok (.error "socket request panicked: boom"))⟩,
    .waiter 0 ⟨.send (Socket.unknownCommand ⟨.call "1" "slow" .null, none⟩), .answered (.ok ())⟩,
    .writer .process]

/-- Both runs invoke the method once and write one reply. -/
theorem requests_disciplined_unknown_outcomes :
    (∃ s t, (Bridge.machine basicCorrelation 1 1).run (Bridge.machine basicCorrelation 1 1).init
        lateCall = some s ∧ s.tickets[0]? = some t ∧ (s.account 0 t).invocations = 1 ∧
      (s.account 0 t).replies.length = 1 ∧ (s.account 0 t).Disciplined s.writer.Drained) ∧
    ∃ s t, (Socket.machine basicCorrelation 1 1).run (Socket.machine basicCorrelation 1 1).init
        panickedCall = some s ∧ s.tickets[0]? = some t ∧ (s.account 0 t).invocations = 1 ∧
      (s.account 0 t).replies.length = 1 ∧ (s.account 0 t).Disciplined s.writer.Drained := by
  have hbridge : ∃ s t, (Bridge.machine basicCorrelation 1 1).run
      (Bridge.machine basicCorrelation 1 1).init lateCall = some s ∧ s.tickets[0]? = some t ∧
      (s.account 0 t).invocations = 1 ∧ s.writer.Drained ∧ (s.account 0 t).finished = true :=
    ⟨_, _, rfl, rfl, rfl, ⟨rfl, rfl⟩, rfl⟩
  have hsocket : ∃ s t, (Socket.machine basicCorrelation 1 1).run
      (Socket.machine basicCorrelation 1 1).init panickedCall = some s ∧ s.tickets[0]? = some t ∧
      (s.account 0 t).invocations = 1 ∧ s.writer.Drained ∧ (s.account 0 t).finished = true :=
    ⟨_, _, rfl, rfl, rfl, ⟨rfl, rfl⟩, rfl⟩
  constructor
  · obtain ⟨s, t, hrun, ht, hinvoked, hdrained, hfinished⟩ := hbridge
    have h := (requests_disciplined basicCorrelation 1 1).1 s ⟨_, hrun⟩ 0 t ht
    exact ⟨s, t, hrun, ht, hinvoked, h.exactlyOne hdrained hfinished, h⟩
  · obtain ⟨s, t, hrun, ht, hinvoked, hdrained, hfinished⟩ := hsocket
    have h := (requests_disciplined basicCorrelation 1 1).2 s ⟨_, hrun⟩ 0 t ht
    exact ⟨s, t, hrun, ht, hinvoked, h.exactlyOne hdrained hfinished, h⟩

end DaemonFramework.Ingress
