import DaemonFramework.Machine
import DaemonFramework.Roster

/-!
# Owner cleanup of a socket connection

The tasks around one connection of `shelllist-daemon-tokio/src/socket.rs`: the connection itself
with its `DisconnectGuard`, for each request the waiter that spawns the work and waits for its
reply, the work (`dispatch`, and then the check of `is_closed`), and the calls of `disconnected`
that these tasks make. A step is what one of them does between two points where another can run. The
connection future can be dropped at any of its await points, and anybody who holds the session can
close it.

The service may do what its contract allows: work registers resources of the owner while it is
dispatched, and a call of `disconnected` removes all of them at one point of its execution.

Work that finds the session closed when it has finished cleans up itself, and all other work has
finished before the session was closed, so the cleanup of the connection or of its guard comes after
it. `Cleaned` is the invariant that says so.
-/

namespace DaemonFramework.Socket

/-- Where a request is. -/
inductive WorkPhase where
  /-- Its waiter is spawned and has not run. -/
  | queued
  /-- Its waiter was aborted before it ran. -/
  | aborted
  /-- Its work is spawned. -/
  | spawned
  /-- Its work has passed the check of `dispatch` and is in the service. -/
  | dispatched
  /-- `dispatch` has returned or panicked. -/
  | finished
  /-- The session was checked, and a cleanup begun where it was closed. -/
  | done
deriving DecidableEq

/-- Whether the service has finished with the request. -/
def WorkPhase.isFinished : WorkPhase → Bool
  | finished | done => true
  | _ => false

/-- Where a call of `disconnected` is. -/
inductive CleanupPhase where
  /-- It will be called. -/
  | due
  /-- It is running. -/
  | running
  /-- It has removed the resources of the owner. -/
  | removed
  /-- It has returned. -/
  | finished
  /-- It was dropped with the connection. -/
  | dropped
deriving DecidableEq

/-- Whether the call goes on or has returned. -/
def CleanupPhase.isLive : CleanupPhase → Bool
  | running | removed | finished => true
  | _ => false

/-- A call of `disconnected`. -/
structure Cleanup where
  /-- Where it is. -/
  phase : CleanupPhase
  /-- The requests that had finished when it started. -/
  covers : List ℕ
  /-- Whether the session was closed when it started. -/
  afterClose : Bool
deriving DecidableEq

/-- Where the connection future is. -/
inductive ConnectionPhase where
  /-- In the select. -/
  | reading
  /-- Behind the select. -/
  | closing
  /-- Waiting for the waiters to be shut down. -/
  | draining
  /-- Waiting for its own call of `disconnected`. -/
  | cleaning (cleanup : ℕ)
  /-- Waiting for the output task, with the guard disarmed. -/
  | disarmed
  /-- Dropped, with the waiters gone and the guard about to close the session. -/
  | dropping
  /-- Dropped, with the guard about to spawn a call of `disconnected`. -/
  | guarding
  /-- Gone. -/
  | ended
deriving DecidableEq

/-- Whether a call of `disconnected` is still to come: by the connection, or by its guard. -/
def ConnectionPhase.isArmed : ConnectionPhase → Bool
  | reading | closing | draining | dropping | guarding => true
  | _ => false

/-- Whether the session can be open: nobody has to have closed it yet. -/
def ConnectionPhase.mayBeOpen : ConnectionPhase → Bool
  | reading | closing | dropping => true
  | _ => false

/-- Why the select ends. -/
inductive EndReason where
  /-- The end of the input, or a `Shutdown` request. -/
  | eof
  /-- An error of the reader or of the output queue. -/
  | readError
  /-- The writer ended. -/
  | writerExit
  /-- The server stops. -/
  | stop
  /-- The session was closed. -/
  | closed
deriving DecidableEq

/-- Who else closes the session. -/
inductive CloseReason where
  /-- `try_emit` found the event queue full. -/
  | overflow
  /-- No reply to a control request came within its deadline. -/
  | controlTimeout

/-- The state around one connection. -/
structure Connection where
  /-- Whether the session is closed. -/
  closed : Bool
  /-- The connection future. -/
  phase : ConnectionPhase
  /-- The requests, in the order of their acceptance. -/
  works : List WorkPhase
  /-- The calls of `disconnected`, in the order in which they were decided on. -/
  cleanups : List Cleanup
  /-- The registered resources of the owner, by the request that registered them. -/
  resources : List ℕ

/-- What can happen next. -/
inductive SocketStep where
  /-- A request is read and its waiter spawned. -/
  | accept
  /-- The select ends. -/
  | stopReading (reason : EndReason)
  /-- The connection closes the session. -/
  | close
  /-- All waiters are gone, and the connection calls `disconnected`. -/
  | drained
  /-- The connection's own call of `disconnected` returned. -/
  | cleaned
  /-- The output task is gone, and the connection returns. -/
  | finish
  /-- The connection future is dropped at an await point. -/
  | drop
  /-- The guard closes the session. -/
  | closeGuard
  /-- The guard spawns a call of `disconnected`. -/
  | spawnCleanup
  /-- Somebody else closes the session. -/
  | closeSession (reason : CloseReason)
  /-- A waiter runs and spawns its work. -/
  | poll (i : ℕ)
  /-- A waiter that has not run is aborted. -/
  | abort (i : ℕ)
  /-- Work checks that the session is open and enters the service. -/
  | dispatch (i : ℕ)
  /-- Work registers a resource of the owner. -/
  | register (i : ℕ)
  /-- The service returns or panics. -/
  | complete (i : ℕ)
  /-- Finished work checks whether the session is closed. -/
  | check (i : ℕ)
  /-- A call of `disconnected` starts. -/
  | start (j : ℕ)
  /-- A call of `disconnected` removes the resources of the owner. -/
  | remove (j : ℕ)
  /-- A call of `disconnected` returns. -/
  | returned (j : ℕ)

namespace Connection

/-- The requests that the service has finished with. -/
def finishedWorks (s : Connection) : List ℕ :=
  (List.range s.works.length).filter fun i => s.works[i]?.any WorkPhase.isFinished

/-- Whether waiters are being aborted: the connection shuts them down, or has dropped them. -/
def abortsWaiters (s : Connection) : Bool :=
  match s.phase with
  | .draining | .dropping | .guarding | .ended => true
  | _ => false

/-- Move a request from one phase to another. -/
def moveWork (s : Connection) (i : ℕ) (old new : WorkPhase) : Option Connection :=
  if s.works[i]? = some old then some { s with works := s.works.set i new } else none

/-- Move a call of `disconnected` from one phase to another. -/
def moveCleanup (s : Connection) (j : ℕ) (old new : CleanupPhase) : Option Connection :=
  s.cleanups[j]?.bind fun c =>
    if c.phase = old then some { s with cleanups := s.cleanups.set j { c with phase := new } }
    else none

/-- Decide on a call of `disconnected`. -/
def oweCleanup (s : Connection) : Connection :=
  { s with cleanups := s.cleanups ++ [⟨.due, [], false⟩] }

/-- The connection future is dropped: nothing is left to do where the guard is disarmed, and else
the guard is dropped after the waiters. -/
def drop (s : Connection) : Option Connection :=
  match s.phase with
  | .reading | .draining => some { s with phase := .dropping }
  -- The call of `disconnected` is awaited in place, so it is dropped as well; the guard is armed.
  | .cleaning j =>
    some { s with
      phase := .dropping
      cleanups := s.cleanups.modify j fun c => { c with phase := .dropped } }
  | .disarmed => some { s with phase := .ended }
  | _ => none

end Connection

/-- One connection. -/
def connection : Machine Connection SocketStep where
  init := ⟨false, .reading, [], [], []⟩
  step s
    | .accept => if s.phase = .reading then some { s with works := s.works ++ [.queued] } else none
    | .stopReading reason =>
      if s.phase = .reading ∧ (reason = .closed → s.closed = true) then
        some { s with phase := .closing }
      else none
    | .close =>
      if s.phase = .closing then some { s with closed := true, phase := .draining } else none
    | .drained =>
      -- `shutdown` waits for every waiter, so none is left that could still spawn its work.
      if s.phase = .draining ∧ .queued ∉ s.works then
        some { s.oweCleanup with phase := .cleaning s.cleanups.length }
      else none
    | .cleaned =>
      match s.phase with
      | .cleaning j =>
        if s.cleanups[j]?.map Cleanup.phase = some .finished then
          some { s with phase := .disarmed }
        else none
      | _ => none
    | .finish => if s.phase = .disarmed then some { s with phase := .ended } else none
    | .drop => s.drop
    | .closeGuard =>
      if s.phase = .dropping then some { s with closed := true, phase := .guarding } else none
    | .spawnCleanup =>
      if s.phase = .guarding then some { s.oweCleanup with phase := .ended } else none
    | .closeSession _ => some { s with closed := true }
    | .poll i => s.moveWork i .queued .spawned
    | .abort i => if s.abortsWaiters then s.moveWork i .queued .aborted else none
    -- The check at the head of `dispatch`: closed sessions are turned away before the service.
    | .dispatch i => s.moveWork i .spawned (if s.closed then .finished else .dispatched)
    | .register i =>
      if s.works[i]? = some .dispatched then some { s with resources := i :: s.resources } else none
    | .complete i => s.moveWork i .dispatched .finished
    | .check i =>
      (s.moveWork i .finished .done).map fun t => if s.closed then t.oweCleanup else t
    | .start j =>
      s.cleanups[j]?.bind fun c =>
        if c.phase = .due then
          some { s with cleanups := s.cleanups.set j ⟨.running, s.finishedWorks, s.closed⟩ }
        else none
    | .remove j => (s.moveCleanup j .running .removed).map fun t => { t with resources := [] }
    | .returned j => s.moveCleanup j .removed .finished

/-- The connection has ended, all accepted work has finished, and every call of `disconnected` has
returned or was dropped with the connection. -/
structure Settled (s : Connection) : Prop where
  /-- The connection has ended. -/
  phase : s.phase = .ended
  /-- All accepted work has finished. -/
  works : ∀ w ∈ s.works, w = .queued ∨ w = .aborted ∨ w = .done
  /-- No call of `disconnected` goes on. -/
  cleanups : ∀ c ∈ s.cleanups, c.phase = .finished ∨ c.phase = .dropped

/-- A call of `disconnected` will still be made for all work that has finished by now: by the
connection, by its guard, or as decided. -/
def Armed (s : Connection) : Prop :=
  s.phase.isArmed = true ∨ ∃ c ∈ s.cleanups, c.phase = .due

/-- The invariant of every run. -/
structure Cleaned (s : Connection) : Prop where
  /-- The session is closed before the connection or its guard decides on a call. -/
  closed : s.closed = false → s.phase.mayBeOpen = true
  /-- No call of `disconnected` is decided on before. -/
  decided : s.cleanups ≠ [] → s.closed = true
  /-- Calls start after the session was closed. -/
  started : ∀ c ∈ s.cleanups, c.phase ≠ .due → c.phase ≠ .dropped → c.afterClose = true
  /-- A call covers only what the service has finished with. -/
  covers : ∀ c ∈ s.cleanups, ∀ i ∈ c.covers, ∃ w, s.works[i]? = some w ∧ w.isFinished = true
  /-- Work that is done is covered by a call, or will be. -/
  done : ∀ i, s.works[i]? = some .done →
    (∃ c ∈ s.cleanups, c.phase.isLive = true ∧ i ∈ c.covers) ∨ Armed s
  /-- A resource was registered by work that entered the service. -/
  registered : ∀ i ∈ s.resources, ∃ w, s.works[i]? = some w ∧
    (w = .dispatched ∨ w.isFinished = true)
  /-- No call that covers the work has removed a resource that is left. -/
  left : ∀ i ∈ s.resources, ∀ c ∈ s.cleanups, i ∈ c.covers →
    c.phase = .running ∨ c.phase = .dropped

/-! ## What the operations keep -/

/-- An index into the finished requests. -/
theorem mem_finishedWorks {s : Connection} {i : ℕ} :
    i ∈ s.finishedWorks ↔ ∃ w, s.works[i]? = some w ∧ w.isFinished = true := by
  unfold Connection.finishedWorks
  rw [List.mem_filter, List.mem_range, Option.any_eq_true]
  constructor
  · rintro ⟨-, w, hw, hfinished⟩
    exact ⟨w, hw, hfinished⟩
  · rintro ⟨w, hw, hfinished⟩
    exact ⟨(List.getElem?_eq_some_iff.1 hw).1, w, hw, hfinished⟩

/-- A call of the changed list is an old one, changed or not. -/
theorem mem_modify_cases {l : List Cleanup} {j : ℕ} {f : Cleanup → Cleanup} {d : Cleanup}
    (hd : d ∈ l.modify j f) : d ∈ l ∨ ∃ c ∈ l, d = f c := by
  obtain ⟨k, hk⟩ := List.mem_iff_getElem?.1 hd
  rw [List.getElem?_modify] at hk
  cases hc : l[k]? with
  | none => simp [hc] at hk
  | some c =>
    have hmem : c ∈ l := List.mem_of_getElem? hc
    simp only [hc, Option.map_eq_map, Option.map_some, Option.some.injEq] at hk
    split_ifs at hk with hjk
    · exact .inr ⟨c, hmem, hk.symm⟩
    · exact .inl (hk ▸ hmem)

/-- What moving a request does. -/
theorem moveWork_eq_some {s t : Connection} {i : ℕ} {old new : WorkPhase} :
    s.moveWork i old new = some t ↔
      s.works[i]? = some old ∧ { s with works := s.works.set i new } = t := by
  unfold Connection.moveWork
  split_ifs with h
  · simp [h]
  · simp [h]

/-- What moving a call of `disconnected` does. -/
theorem moveCleanup_eq_some {s t : Connection} {j : ℕ} {old new : CleanupPhase} :
    s.moveCleanup j old new = some t ↔
      ∃ c, s.cleanups[j]? = some c ∧ c.phase = old ∧
        { s with cleanups := s.cleanups.set j { c with phase := new } } = t := by
  unfold Connection.moveCleanup
  rw [Option.bind_eq_some_iff]
  refine exists_congr fun c => and_congr_right fun _ => ?_
  split_ifs with h
  · simp [h]
  · simp [h]

namespace Cleaned

variable {s t : Connection}

/-- The initial state. -/
theorem init : Cleaned connection.init where
  closed := fun _ => rfl
  decided := by simp [connection]
  started := by simp [connection]
  covers := by simp [connection]
  done := by simp [connection]
  registered := by simp [connection]
  left := by simp [connection]

/-- The session is closed where the connection or its guard has closed it. -/
theorem isClosed (h : Cleaned s) (hphase : s.phase.mayBeOpen = false) : s.closed = true := by
  by_contra hopen
  have hmay : s.phase.mayBeOpen = true := h.closed (by simpa using hopen)
  rw [hphase] at hmay
  cases hmay

/-- Closing the session. -/
theorem close (h : Cleaned s) : Cleaned { s with closed := true } :=
  ⟨(fun hopen => by cases hopen), fun _ => rfl, h.started, h.covers, h.done, h.registered, h.left⟩

/-- The connection moves to a phase from which a call of `disconnected` will be made, if one would
have been made before. -/
theorem setPhase (h : Cleaned s) {phase : ConnectionPhase}
    (hclosed : s.closed = false → phase.mayBeOpen = true)
    (harmed : s.phase.isArmed = true →
      phase.isArmed = true ∨ ∃ c ∈ s.cleanups, c.phase = .due) :
    Cleaned { s with phase := phase } := by
  refine ⟨hclosed, h.decided, h.started, h.covers, ?_, h.registered, h.left⟩
  intro i hi
  rcases h.done i hi with hcovered | hphase | hdue
  · exact .inl hcovered
  · exact .inr (harmed hphase)
  · exact .inr (.inr hdue)

/-- Deciding on a call of `disconnected` after the session was closed. -/
theorem oweCleanup (h : Cleaned s) (hclosed : s.closed = true) : Cleaned s.oweCleanup where
  closed := h.closed
  decided := fun _ => hclosed
  started := by
    intro c hc hdue
    rcases List.mem_append.1 hc with hc | hc
    · exact h.started c hc hdue
    · obtain rfl := List.mem_singleton.1 hc
      exact absurd rfl hdue
  covers := by
    intro c hc i hi
    rcases List.mem_append.1 hc with hc | hc
    · exact h.covers c hc i hi
    · obtain rfl := List.mem_singleton.1 hc
      cases hi
  done := fun _ _ =>
    .inr (.inr ⟨⟨.due, [], false⟩, List.mem_append_right _ List.mem_cons_self, rfl⟩)
  registered := h.registered
  left := by
    intro i hi c hc hcovers
    rcases List.mem_append.1 hc with hc | hc
    · exact h.left i hi c hc hcovers
    · obtain rfl := List.mem_singleton.1 hc
      cases hcovers

/-- A request that moves on. -/
theorem setWork (h : Cleaned s) {i : ℕ} {old new : WorkPhase} (hold : s.works[i]? = some old)
    (hfinished : old = .dispatched ∨ old.isFinished = true → new.isFinished = true)
    (hdone : new = .done →
      (∃ c ∈ s.cleanups, c.phase.isLive = true ∧ i ∈ c.covers) ∨ Armed s) :
    Cleaned { s with works := s.works.set i new } := by
  have hlt : i < s.works.length := (List.getElem?_eq_some_iff.1 hold).1
  -- What was finished stays so.
  have hkeep : ∀ (k : ℕ) (w : WorkPhase), s.works[k]? = some w →
      (w = .dispatched ∨ w.isFinished = true) → ∃ w' : WorkPhase,
        (s.works.set i new)[k]? = some w' ∧
          (w = .dispatched ∧ w' = .dispatched ∨ w'.isFinished = true) := by
    intro k w hw hwork
    by_cases hik : i = k
    · subst hik
      rw [hold] at hw
      obtain rfl := Option.some.inj hw
      exact ⟨new, List.getElem?_set_self hlt, .inr (hfinished hwork)⟩
    · refine ⟨w, by rw [List.getElem?_set_ne hik, hw], ?_⟩
      rcases hwork with hwork | hwork
      · exact .inl ⟨hwork, hwork⟩
      · exact .inr hwork
  refine ⟨h.closed, h.decided, h.started, ?_, ?_, ?_, h.left⟩
  · intro c hc k hk
    obtain ⟨w, hw, hfin⟩ := h.covers c hc k hk
    obtain ⟨w', hw', ⟨rfl, -⟩ | hfin'⟩ := hkeep k w hw (.inr hfin)
    · cases hfin
    · exact ⟨w', hw', hfin'⟩
  · intro k hk
    by_cases hik : i = k
    · subst hik
      have hnew : (s.works.set i new)[i]? = some .done := hk
      rw [List.getElem?_set_self hlt] at hnew
      exact hdone (Option.some.inj hnew)
    · have hother : (s.works.set i new)[k]? = some .done := hk
      rw [List.getElem?_set_ne hik] at hother
      exact h.done k hother
  · intro k hk
    obtain ⟨w, hw, hwork⟩ := h.registered k hk
    obtain ⟨w', hw', ⟨-, rfl⟩ | hfin'⟩ := hkeep k w hw hwork
    · exact ⟨_, hw', .inl rfl⟩
    · exact ⟨w', hw', .inr hfin'⟩

/-- A call of `disconnected` that changes. -/
theorem setCleanup (h : Cleaned s) {j : ℕ} {c c' : Cleanup} (hj : s.cleanups[j]? = some c)
    (hstarted : c'.afterClose = true)
    (hcovers : ∀ i ∈ c'.covers, ∃ w, s.works[i]? = some w ∧ w.isFinished = true)
    (hdue : c.phase = .due → ∀ i, s.works[i]? = some .done → i ∈ c'.covers)
    (hkept : ∀ i ∈ c.covers, c.phase.isLive = true → i ∈ c'.covers)
    (hlive : c'.phase.isLive = true)
    (hleft : ∀ i ∈ s.resources, i ∈ c'.covers → c'.phase = .running ∨ c'.phase = .dropped) :
    Cleaned { s with cleanups := s.cleanups.set j c' } := by
  have hlt : j < s.cleanups.length := (List.getElem?_eq_some_iff.1 hj).1
  have hmem : c' ∈ s.cleanups.set j c' := List.mem_set hlt c'
  refine ⟨h.closed, ?_, ?_, ?_, ?_, h.registered, ?_⟩
  · intro _
    exact h.decided (List.ne_nil_of_mem (List.mem_of_getElem? hj))
  · intro d hd hdue hdropped
    rcases List.mem_or_eq_of_mem_set hd with hd | rfl
    · exact h.started d hd hdue hdropped
    · exact hstarted
  · intro d hd i hi
    rcases List.mem_or_eq_of_mem_set hd with hd | rfl
    · exact h.covers d hd i hi
    · exact hcovers i hi
  · intro i hi
    -- What covered the work still does: the changed call keeps what it covers.
    rcases h.done i hi with ⟨d, hd, hdlive, hcover⟩ | harmed
    · left
      rcases Roster.mem_set_of_mem hj hd c' with rfl | hd
      · exact ⟨c', hmem, hlive, hkept i hcover hdlive⟩
      · exact ⟨d, hd, hdlive, hcover⟩
    · rcases harmed with hphase | ⟨d, hd, hphase⟩
      · exact .inr (.inl hphase)
      -- The call that was due is the one that starts, and it covers all work that is done.
      · rcases Roster.mem_set_of_mem hj hd c' with rfl | hd
        · exact .inl ⟨c', hmem, hlive, hdue hphase i hi⟩
        · exact .inr (.inr ⟨d, hd, hphase⟩)
  · intro i hi d hd hcover
    rcases List.mem_or_eq_of_mem_set hd with hd | rfl
    · exact h.left i hi d hd hcover
    · exact hleft i hi hcover

/-- A request that is accepted. -/
theorem accept (h : Cleaned s) : Cleaned { s with works := s.works ++ [.queued] } := by
  have hold : ∀ (i : ℕ) (w : WorkPhase), s.works[i]? = some w →
      (s.works ++ [.queued])[i]? = some w := by
    intro i w hw
    rw [List.getElem?_append_left (List.getElem?_eq_some_iff.1 hw).1, hw]
  refine ⟨h.closed, h.decided, h.started, ?_, ?_, ?_, h.left⟩
  · intro c hc i hi
    obtain ⟨w, hw, hfinished⟩ := h.covers c hc i hi
    exact ⟨w, hold i w hw, hfinished⟩
  · intro i hi
    have hi : (s.works ++ [.queued])[i]? = some .done := hi
    rw [List.getElem?_append] at hi
    split_ifs at hi
    · exact h.done i hi
    · cases hk : i - s.works.length with
      | zero =>
        rw [hk] at hi
        cases hi
      | succ n =>
        rw [hk] at hi
        cases hi
  · intro i hi
    obtain ⟨w, hw, hwork⟩ := h.registered i hi
    exact ⟨w, hold i w hw, hwork⟩

/-- A resource that is registered. -/
theorem register (h : Cleaned s) {i : ℕ} (hi : s.works[i]? = some .dispatched) :
    Cleaned { s with resources := i :: s.resources } := by
  refine ⟨h.closed, h.decided, h.started, h.covers, h.done, ?_, ?_⟩
  · intro k hk
    rcases List.mem_cons.1 hk with rfl | hk
    · exact ⟨_, hi, .inl rfl⟩
    · exact h.registered k hk
  · intro k hk c hc hcovers
    rcases List.mem_cons.1 hk with rfl | hk
    -- No call covers work that is still in the service.
    · obtain ⟨w, hw, hfinished⟩ := h.covers c hc k hcovers
      rw [hi] at hw
      obtain rfl := Option.some.inj hw
      cases hfinished
    · exact h.left k hk c hc hcovers

/-- The resources are removed. -/
theorem removeAll (h : Cleaned s) : Cleaned { s with resources := [] } :=
  ⟨h.closed, h.decided, h.started, h.covers, h.done, by simp, by simp⟩

/-- A request that moves on within the service. -/
theorem moveWork (h : Cleaned s) {i : ℕ} {old new : WorkPhase}
    (hmove : s.moveWork i old new = some t)
    (hfinished : old = .dispatched ∨ old.isFinished = true → new.isFinished = true)
    (hnew : new ≠ .done) : Cleaned t := by
  obtain ⟨hold, rfl⟩ := moveWork_eq_some.1 hmove
  exact h.setWork hold hfinished fun hdone => absurd hdone hnew

/-- The call of `disconnected` that the connection waits for is dropped with it. -/
theorem dropCleanup (h : Cleaned s) (j : ℕ) :
    Cleaned { s with
      phase := .dropping
      cleanups := s.cleanups.modify j fun c => { c with phase := .dropped } } := by
  refine ⟨fun _ => rfl, ?_, ?_, ?_, fun _ _ => .inr (.inl rfl), h.registered, ?_⟩
  · intro hne
    refine h.decided fun hnil => hne ?_
    show s.cleanups.modify j _ = []
    rw [hnil, List.modify_nil]
  · intro d hd hdue hdropped
    rcases mem_modify_cases hd with hd | ⟨c, -, rfl⟩
    · exact h.started d hd hdue hdropped
    · exact absurd rfl hdropped
  · intro d hd i hi
    rcases mem_modify_cases hd with hd | ⟨c, hc, rfl⟩
    · exact h.covers d hd i hi
    · exact h.covers c hc i hi
  · intro i hi d hd hcovers
    rcases mem_modify_cases hd with hd | ⟨c, -, rfl⟩
    · exact h.left i hi d hd hcovers
    · exact .inr rfl

/-- The drop of the connection future. -/
theorem drop (h : Cleaned s) (hdrop : s.drop = some t) : Cleaned t := by
  unfold Connection.drop at hdrop
  split at hdrop
  · obtain rfl := Option.some.inj hdrop
    exact h.setPhase (fun _ => rfl) fun _ => .inl rfl
  · obtain rfl := Option.some.inj hdrop
    exact h.setPhase (fun _ => rfl) fun _ => .inl rfl
  · obtain rfl := Option.some.inj hdrop
    exact h.dropCleanup _
  · rename_i hphase
    obtain rfl := Option.some.inj hdrop
    -- The guard is disarmed only after the connection's own call has returned.
    have hclosed : s.closed = true := h.isClosed (by rw [hphase]; rfl)
    refine h.setPhase (fun hopen => ?_) fun harmed => ?_
    · rw [hclosed] at hopen
      cases hopen
    · rw [hphase] at harmed
      cases harmed
  · cases hdrop

/-- The connection, or its guard, makes its call of `disconnected` and moves on. -/
theorem callDisconnected (h : Cleaned s) (hclosed : s.closed = true) (phase : ConnectionPhase) :
    Cleaned { s.oweCleanup with phase := phase } := by
  refine (h.oweCleanup hclosed).setPhase (fun hopen => ?_) fun _ => .inr ?_
  · have hopen : s.closed = false := hopen
    rw [hclosed] at hopen
    cases hopen
  · exact ⟨⟨.due, [], false⟩, List.mem_append_right _ List.mem_cons_self, rfl⟩

/-- The connection moves on after its call of `disconnected`. -/
theorem leave (h : Cleaned s) (hopen : s.phase.mayBeOpen = false) (harmed : s.phase.isArmed = false)
    (phase : ConnectionPhase) : Cleaned { s with phase := phase } := by
  have hclosed : s.closed = true := h.isClosed hopen
  refine h.setPhase (fun hopen => ?_) fun hphase => ?_
  · rw [hclosed] at hopen
    cases hopen
  · rw [harmed] at hphase
    cases hphase

/-- Finished work checks whether the session is closed. -/
theorem check (h : Cleaned s) {i : ℕ} (hi : s.works[i]? = some .finished) :
    Cleaned (if s.closed then
      Connection.oweCleanup { s with works := s.works.set i .done }
      else { s with works := s.works.set i .done }) := by
  split_ifs with hclosed
  -- The work makes a call of its own, so it is covered whatever the others do.
  · exact (h.oweCleanup hclosed).setWork hi (fun _ => rfl) fun _ =>
      .inr (.inr ⟨⟨.due, [], false⟩, List.mem_append_right _ List.mem_cons_self, rfl⟩)
  -- The connection is still reading, or its guard has not closed the session yet.
  · have hmay : s.phase.mayBeOpen = true := h.closed (by simpa using hclosed)
    refine h.setWork hi (fun _ => rfl) fun _ => .inr (.inl ?_)
    cases hphase : s.phase <;> rw [hphase] at hmay <;> first | rfl | cases hmay

/-- A call of `disconnected` starts. -/
theorem start (h : Cleaned s) {j : ℕ} {c : Cleanup} (hj : s.cleanups[j]? = some c)
    (hdue : c.phase = .due) :
    Cleaned { s with cleanups := s.cleanups.set j ⟨.running, s.finishedWorks, s.closed⟩ } := by
  have hclosed : s.closed = true := h.decided (List.ne_nil_of_mem (List.mem_of_getElem? hj))
  refine h.setCleanup hj hclosed (fun i hi => mem_finishedWorks.1 hi) ?_ ?_ rfl ?_
  · intro _ i hi
    exact mem_finishedWorks.2 ⟨.done, hi, rfl⟩
  · intro i _ hlive
    rw [hdue] at hlive
    cases hlive
  · intro i _ _
    exact .inl rfl

/-- A call of `disconnected` goes on, and what it covers has no resource left from there on. -/
theorem moveCleanup (h : Cleaned s) {j : ℕ} {c : Cleanup} (hj : s.cleanups[j]? = some c)
    (hlive : c.phase.isLive = true) {phase : CleanupPhase} (hphase : phase.isLive = true)
    (hleft : ∀ i ∈ s.resources, i ∉ c.covers) :
    Cleaned { s with cleanups := s.cleanups.set j { c with phase := phase } } := by
  have hmem : c ∈ s.cleanups := List.mem_of_getElem? hj
  have hdue : c.phase ≠ .due := by
    intro hdue
    rw [hdue] at hlive
    cases hlive
  have hdropped : c.phase ≠ .dropped := by
    intro hdropped
    rw [hdropped] at hlive
    cases hlive
  refine h.setCleanup hj (h.started c hmem hdue hdropped) (h.covers c hmem) ?_ ?_ hphase ?_
  · intro h'
    exact absurd h' hdue
  · intro i hi _
    exact hi
  · intro i hi hcovers
    exact absurd hcovers (hleft i hi)

/-- Every step keeps the invariant. -/
theorem step {l : SocketStep} (h : Cleaned s) (hstep : connection.step s l = some t) :
    Cleaned t := by
  cases l with
  | accept =>
    obtain ⟨-, rfl⟩ := Machine.guarded_eq_some.1 hstep
    exact h.accept
  | stopReading reason =>
    obtain ⟨-, rfl⟩ := Machine.guarded_eq_some.1 hstep
    exact h.setPhase (fun _ => rfl) fun _ => .inl rfl
  | close =>
    obtain ⟨-, rfl⟩ := Machine.guarded_eq_some.1 hstep
    exact h.close.setPhase (fun hopen => by cases hopen) fun _ => .inl rfl
  | drained =>
    obtain ⟨⟨hphase, -⟩, rfl⟩ := Machine.guarded_eq_some.1 hstep
    exact h.callDisconnected (h.isClosed (by rw [hphase]; rfl)) _
  | cleaned =>
    simp only [connection] at hstep
    split at hstep
    · rename_i j hphase
      obtain ⟨-, rfl⟩ := Machine.guarded_eq_some.1 hstep
      exact h.leave (by rw [hphase]; rfl) (by rw [hphase]; rfl) _
    · cases hstep
  | finish =>
    obtain ⟨hphase, rfl⟩ := Machine.guarded_eq_some.1 hstep
    exact h.leave (by rw [hphase]; rfl) (by rw [hphase]; rfl) _
  | drop => exact h.drop hstep
  | closeGuard =>
    obtain ⟨-, rfl⟩ := Machine.guarded_eq_some.1 hstep
    exact h.close.setPhase (fun hopen => by cases hopen) fun _ => .inl rfl
  | spawnCleanup =>
    obtain ⟨hphase, rfl⟩ := Machine.guarded_eq_some.1 hstep
    exact h.callDisconnected (h.isClosed (by rw [hphase]; rfl)) _
  | closeSession reason =>
    obtain rfl := Option.some.inj hstep
    exact h.close
  | poll i => exact h.moveWork hstep (by simp [WorkPhase.isFinished]) (by simp)
  | abort i =>
    obtain ⟨-, hmove⟩ := Option.ite_none_right_eq_some.1 hstep
    exact h.moveWork hmove (by simp [WorkPhase.isFinished]) (by simp)
  | dispatch i =>
    refine h.moveWork hstep (by simp [WorkPhase.isFinished]) ?_
    split_ifs <;> simp
  | register i =>
    obtain ⟨hi, rfl⟩ := Machine.guarded_eq_some.1 hstep
    exact h.register hi
  | complete i => exact h.moveWork hstep (fun _ => rfl) (by simp)
  | check i =>
    obtain ⟨u, hmove, rfl⟩ := Option.map_eq_some_iff.1 hstep
    obtain ⟨hi, rfl⟩ := moveWork_eq_some.1 hmove
    exact h.check hi
  | start j =>
    obtain ⟨c, hj, hstart⟩ := Option.bind_eq_some_iff.1 hstep
    obtain ⟨hdue, rfl⟩ := Machine.guarded_eq_some.1 hstart
    exact h.start hj hdue
  | remove j =>
    obtain ⟨u, hmove, rfl⟩ := Option.map_eq_some_iff.1 hstep
    obtain ⟨c, hj, hrunning, rfl⟩ := moveCleanup_eq_some.1 hmove
    exact h.removeAll.moveCleanup hj (by rw [hrunning]; rfl) rfl (by simp)
  | returned j =>
    obtain ⟨c, hj, hremoved, rfl⟩ := moveCleanup_eq_some.1 hstep
    refine h.moveCleanup hj (by rw [hremoved]; rfl) rfl fun i hi hcovers => ?_
    -- What it has removed cannot have come back.
    rcases h.left i hi c (List.mem_of_getElem? hj) hcovers with hphase | hphase <;>
      rw [hremoved] at hphase <;> cases hphase

end Cleaned

/-- The invariant holds in every run. -/
theorem cleaned_of_reachable {s : Connection} (h : connection.Reachable s) : Cleaned s :=
  connection.invariant_of_reachable Cleaned.init (fun _ _ _ hinv hstep => hinv.step hstep) h

/-- Where everything has finished, work that was done is covered by a call of `disconnected`. -/
theorem Cleaned.covered {s : Connection} (h : Cleaned s) (hs : Settled s) {i : ℕ}
    (hi : s.works[i]? = some .done) :
    ∃ c ∈ s.cleanups, c.phase = .finished ∧ c.afterClose = true ∧ i ∈ c.covers := by
  rcases h.done i hi with ⟨c, hc, hlive, hcovers⟩ | hphase | ⟨c, hc, hdue⟩
  · have hfinished : c.phase = .finished := by
      rcases hs.cleanups c hc with hphase | hphase
      · exact hphase
      · rw [hphase] at hlive
        cases hlive
    have hafter : c.afterClose = true :=
      h.started c hc (by simp [hfinished]) (by simp [hfinished])
    exact ⟨c, hc, hfinished, hafter, hcovers⟩
  · rw [hs.phase] at hphase
    cases hphase
  · rcases hs.cleanups c hc with hphase | hphase <;> rw [hdue] at hphase <;> cases hphase

/-- Once the connection has ended, and all accepted work and all calls of `disconnected` have
finished, no resource of the owner is left, and for all work that was done some call of
`disconnected` started after it had finished and after the session was closed. -/
theorem owner_cleanup_not_missed {s : Connection} (h : connection.Reachable s) (hs : Settled s) :
    s.resources = [] ∧
      ∀ i, s.works[i]? = some .done →
        ∃ c ∈ s.cleanups, c.phase = .finished ∧ c.afterClose = true ∧ i ∈ c.covers := by
  have hinv : Cleaned s := cleaned_of_reachable h
  refine ⟨List.eq_nil_iff_forall_not_mem.2 fun i hi => ?_, fun i hi => hinv.covered hs hi⟩
  -- A resource that is left was registered by work, which is done, and so covered by a call.
  obtain ⟨w, hw, hwork⟩ := hinv.registered i hi
  have hdone : w = .done := by
    rcases hs.works w (List.mem_of_getElem? hw) with rfl | rfl | rfl
    · simp [WorkPhase.isFinished] at hwork
    · simp [WorkPhase.isFinished] at hwork
    · rfl
  subst hdone
  obtain ⟨c, hc, hfinished, -, hcovers⟩ := hinv.covered hs hw
  rcases hinv.left i hi c hc hcovers with hphase | hphase <;> rw [hfinished] at hphase <;>
    cases hphase

/-- A connection that is dropped with two requests in the service, one of which registers a resource
after the cleanup of the guard has removed everything. -/
def droppedRun : List SocketStep :=
  [.accept, .accept, .poll 0, .poll 1, .dispatch 0, .dispatch 1, .register 0, .complete 0, .check 0,
    .drop, .closeGuard, .spawnCleanup, .start 0, .remove 0, .register 1, .returned 0, .complete 1,
    .check 1, .start 1, .remove 1, .returned 1]

/-- Where that run ends. -/
def droppedEnd : Connection :=
  ⟨true, .ended, [.done, .done], [⟨.finished, [0], true⟩, ⟨.finished, [0, 1], true⟩], []⟩

/-- The work that ends last has cleaned up itself. -/
theorem owner_cleanup_not_missed_dropped :
    droppedEnd.resources = [] ∧
      ∀ i, droppedEnd.works[i]? = some .done →
        ∃ c ∈ droppedEnd.cleanups, c.phase = .finished ∧ c.afterClose = true ∧ i ∈ c.covers :=
  owner_cleanup_not_missed ⟨droppedRun, rfl⟩
    ⟨rfl, by simp [droppedEnd], by simp [droppedEnd]⟩

end DaemonFramework.Socket
