import DaemonFramework.Socket.Server
import Mathlib.Data.List.Induction

/-!
# The end of the socket server

Behind its loop `serve` waits for every task. `connection_stops` says that a connection that has
been told to stop gets to its end without being dropped, from wherever it is: its waiters are
aborted, its call of `disconnected` returns if the service lets it, and nothing in it waits for
anything else. With it `serve` gets to its return from every state behind the loop, task by task.
-/

namespace DaemonFramework.Socket

namespace Connection

variable {s t : Connection}

/-- What is no drop of the connection future. -/
def Undropped (l : SocketStep) : Prop := l ≠ .drop

/-- The call of `disconnected` that a connection waits for has not been dropped. -/
def Awaits (s : Connection) : Prop :=
  ∀ j, s.phase = .cleaning j → ∃ c, s.cleanups[j]? = some c ∧ c.phase ≠ .dropped

namespace Awaits

/-- A connection that does not wait for its call. -/
theorem of_phase (h : ∀ j, s.phase ≠ .cleaning j) : Awaits s := fun j hphase => absurd hphase (h j)

/-- A change that leaves the phase and the calls alone. -/
theorem congr (h : Awaits s) (hphase : t.phase = s.phase) (hcleanups : t.cleanups = s.cleanups) :
    Awaits t := by
  intro j hj
  rw [hcleanups]
  exact h j (hphase ▸ hj)

/-- A call that moves on is not dropped by that. -/
theorem set (h : Awaits s) {j : ℕ} {c c' : Cleanup} (hc : s.cleanups[j]? = some c)
    (hnew : c.phase ≠ .dropped → c'.phase ≠ .dropped) :
    Awaits { s with cleanups := s.cleanups.set j c' } := by
  intro k hk
  obtain ⟨d, hd, hdropped⟩ := h k hk
  show ∃ c, (s.cleanups.set j c')[k]? = some c ∧ c.phase ≠ .dropped
  by_cases hjk : j = k
  · subst hjk
    obtain rfl : c = d := Option.some.inj (hc.symm.trans hd)
    have hlt : j < s.cleanups.length := (List.getElem?_eq_some_iff.1 hc).1
    exact ⟨c', List.getElem?_set_self hlt, hnew hdropped⟩
  · exact ⟨d, by rw [List.getElem?_set_ne hjk]; exact hd, hdropped⟩

/-- A call that is decided on besides. -/
theorem oweCleanup (h : Awaits s) : Awaits s.oweCleanup := by
  intro k hk
  obtain ⟨d, hd, hdropped⟩ := h k hk
  have hlt : k < s.cleanups.length := (List.getElem?_eq_some_iff.1 hd).1
  exact ⟨d, by rw [← hd]; exact List.getElem?_append_left hlt, hdropped⟩

/-- Every step keeps the call. -/
theorem step {l : SocketStep} (h : Awaits s) (hstep : connection.step s l = some t) : Awaits t := by
  -- Work does not move cleanups, and a cleanup that moves is not dropped.
  have hwork : ∀ {u : Connection} {i : ℕ} {old new : WorkPhase},
      s.moveWork i old new = some u → Awaits u := by
    intro u i old new hmove
    obtain ⟨-, rfl⟩ := moveWork_eq_some.1 hmove
    exact h.congr rfl rfl
  have hcleanup : ∀ {u : Connection} {j : ℕ} {old new : CleanupPhase}, new ≠ .dropped →
      s.moveCleanup j old new = some u → Awaits u := by
    intro u j old new hnew hmove
    obtain ⟨c, hc, -, rfl⟩ := moveCleanup_eq_some.1 hmove
    exact h.set hc fun _ => hnew
  cases l with
  | accept =>
    obtain ⟨-, rfl⟩ := Machine.guarded_eq_some.1 hstep
    exact h.congr rfl rfl
  -- Here the connection makes the call that it waits for.
  | drained =>
    obtain ⟨-, rfl⟩ := Machine.guarded_eq_some.1 hstep
    intro j hj
    obtain rfl : s.cleanups.length = j := ConnectionPhase.cleaning.inj hj
    exact ⟨⟨.due, [], false⟩, by simp [Connection.oweCleanup], by simp⟩
  | cleaned =>
    simp only [connection] at hstep
    split at hstep
    · obtain ⟨-, rfl⟩ := Machine.guarded_eq_some.1 hstep
      exact .of_phase (by simp)
    · cases hstep
  | drop =>
    simp only [connection, Connection.drop] at hstep
    split at hstep <;> cases hstep <;> exact .of_phase (by simp)
  | closeSession reason =>
    obtain rfl := Option.some.inj hstep
    exact h.congr rfl rfl
  | poll i => exact hwork hstep
  | abort i => exact hwork (Option.ite_none_right_eq_some.1 hstep).2
  | dispatch i => exact hwork hstep
  | register i =>
    obtain ⟨-, rfl⟩ := Machine.guarded_eq_some.1 hstep
    exact h.congr rfl rfl
  | complete i => exact hwork hstep
  -- Work that finds the connection closed owes another call behind it.
  | check i =>
    obtain ⟨u, hmove, rfl⟩ := Option.map_eq_some_iff.1 hstep
    have hu := hwork hmove
    split_ifs
    · exact hu.oweCleanup
    · exact hu
  | start j =>
    obtain ⟨c, hc, hstart⟩ := Option.bind_eq_some_iff.1 hstep
    obtain ⟨-, rfl⟩ := Machine.guarded_eq_some.1 hstart
    exact h.set hc fun _ => by simp
  | remove j =>
    obtain ⟨u, hmove, rfl⟩ := Option.map_eq_some_iff.1 hstep
    have hnew : CleanupPhase.removed ≠ .dropped := by simp
    exact (hcleanup hnew hmove).congr rfl rfl
  | returned j =>
    have hnew : CleanupPhase.finished ≠ .dropped := by simp
    exact hcleanup hnew hstep
  | _ =>
    obtain ⟨-, rfl⟩ := Machine.guarded_eq_some.1 hstep
    exact .of_phase (by simp)

/-- It holds in every run. -/
theorem of_reachable (h : connection.Reachable s) : Awaits s :=
  Machine.invariant_of_reachable (.of_phase (by simp [connection]))
    (fun _ _ _ hs hstep => hs.step hstep) h

end Awaits

/-- The waiters that have not run can all be aborted. -/
theorem aborts_waiters (hphase : s.phase = .draining) :
    ∃ t, connection.Leads Undropped s t ∧ t.phase = .draining ∧ .queued ∉ t.works ∧
      t.cleanups = s.cleanups := by
  induction hcount : s.works.count .queued generalizing s with
  | zero => exact ⟨s, .refl, hphase, List.count_eq_zero.1 hcount, rfl⟩
  | succ n ih =>
    have hqueued : 0 < s.works.count .queued := by omega
    obtain ⟨i, hi⟩ := List.mem_iff_getElem?.1 (List.count_pos_iff.1 hqueued)
    have hstep : connection.step s (.abort i) =
        some { s with works := s.works.set i .aborted } := by
      show (if s.abortsWaiters then s.moveWork i .queued .aborted else none) = _
      rw [if_pos (by simp [Connection.abortsWaiters, hphase]), moveWork_eq_some]
      exact ⟨hi, rfl⟩
    have hfewer : (s.works.set i .aborted).count .queued = n := by
      have hset := Roster.countP_set_add (· == WorkPhase.queued) hi .aborted
      have hqueued : (WorkPhase.queued == .queued).toNat = 1 := rfl
      have haborted : (WorkPhase.aborted == .queued).toNat = 0 := rfl
      rw [hqueued, haborted] at hset
      unfold List.count at hcount ⊢
      omega
    obtain ⟨t, hleads, ht⟩ := ih (s := { s with works := s.works.set i .aborted }) hphase hfewer
    exact ⟨t, .head hstep (by simp [Undropped]) hleads, ht⟩

/-- A connection can get to its end without being dropped. -/
def Ends (s : Connection) : Prop := ∃ t, connection.Leads Undropped s t ∧ t.phase = .ended

/-- A connection gets to its end where a step leads to one that does. -/
theorem Ends.of_step {l : SocketStep} (hstep : connection.step s l = some t) (hl : Undropped l)
    (h : Ends t) : Ends s := by
  obtain ⟨u, hleads, hu⟩ := h
  exact ⟨u, .head hstep hl hleads, hu⟩

/-- The call of `disconnected` that a connection waits for can return, and the connection then
ends. -/
theorem ends_of_cleaning {j : ℕ} {c : Cleanup} (hphase : s.phase = .cleaning j)
    (hc : s.cleanups[j]? = some c) (hdropped : c.phase ≠ .dropped) : Ends s := by
  have hset : ∀ (s : Connection) (c c' : Cleanup), s.cleanups[j]? = some c →
      (s.cleanups.set j c')[j]? = some c' := fun s c c' hc =>
    List.getElem?_set_self (List.getElem?_eq_some_iff.1 hc).1
  -- Backwards from the end: the call has returned, has removed the resources, runs, or is due.
  have hfinished : ∀ (s : Connection) (c : Cleanup), s.phase = .cleaning j →
      s.cleanups[j]? = some c → c.phase = .finished → Ends s := by
    intro s c hphase hc hdone
    have hcleaned : connection.step s .cleaned = some { s with phase := .disarmed } := by
      simp [connection, hphase, hc, hdone]
    have hfinish : connection.step { s with phase := .disarmed } .finish =
        some { s with phase := .ended } := rfl
    exact .of_step hcleaned (by simp [Undropped])
      (.of_step hfinish (by simp [Undropped]) ⟨_, .refl, rfl⟩)
  have hremoved : ∀ (s : Connection) (c : Cleanup), s.phase = .cleaning j →
      s.cleanups[j]? = some c → c.phase = .removed → Ends s := by
    intro s c hphase hc hdone
    have hstep : connection.step s (.returned j) =
        some { s with cleanups := s.cleanups.set j { c with phase := .finished } } :=
      moveCleanup_eq_some.2 ⟨c, hc, hdone, rfl⟩
    exact .of_step hstep (by simp [Undropped]) (hfinished _ _ hphase (hset s c _ hc) rfl)
  have hrunning : ∀ (s : Connection) (c : Cleanup), s.phase = .cleaning j →
      s.cleanups[j]? = some c → c.phase = .running → Ends s := by
    intro s c hphase hc hdone
    have hstep : connection.step s (.remove j) =
        some { s with
          cleanups := s.cleanups.set j { c with phase := .removed }
          resources := [] } :=
      Option.map_eq_some_iff.2 ⟨_, moveCleanup_eq_some.2 ⟨c, hc, hdone, rfl⟩, rfl⟩
    exact .of_step hstep (by simp [Undropped]) (hremoved _ _ hphase (hset s c _ hc) rfl)
  cases hwhere : c.phase with
  | due =>
    have hstep : connection.step s (.start j) =
        some { s with cleanups := s.cleanups.set j ⟨.running, s.finishedWorks, s.closed⟩ } := by
      simp [connection, hc, hwhere]
    exact .of_step hstep (by simp [Undropped]) (hrunning _ _ hphase (hset s c _ hc) rfl)
  | running => exact hrunning s c hphase hc hwhere
  | removed => exact hremoved s c hphase hc hwhere
  | finished => exact hfinished s c hphase hc hwhere
  | dropped => exact absurd hwhere hdropped

/-- A connection that has been told to stop gets to its end without being dropped, wherever it
is. -/
theorem connection_stops (h : connection.Reachable s) : Ends s := by
  -- From the drain: the waiters end, the cleanup is owed, and it runs to its end.
  have hdraining : ∀ s : Connection, s.phase = .draining → Ends s := by
    intro s hphase
    obtain ⟨u, hleads, hu, hwaiters, -⟩ := aborts_waiters hphase
    have hstep : connection.step u .drained =
        some { u.oweCleanup with phase := .cleaning u.cleanups.length } := by
      simp [connection, hu, hwaiters]
    have hends : Ends u := by
      refine .of_step hstep (by simp [Undropped])
        (ends_of_cleaning (j := u.cleanups.length) (c := ⟨.due, [], false⟩) rfl ?_ (by simp))
      simp [Connection.oweCleanup]
    obtain ⟨t, hleads', ht⟩ := hends
    exact ⟨t, hleads.trans hleads', ht⟩
  have hclosing : ∀ s : Connection, s.phase = .closing → Ends s := by
    intro s hphase
    have hstep : connection.step s .close = some { s with closed := true, phase := .draining } := by
      simp [connection, hphase]
    exact .of_step hstep (by simp [Undropped]) (hdraining _ rfl)
  -- A connection whose future was dropped leaves the cleanup to a task of its own.
  have hguarding : ∀ s : Connection, s.phase = .guarding → Ends s := by
    intro s hphase
    have hstep : connection.step s .spawnCleanup = some { s.oweCleanup with phase := .ended } := by
      simp [connection, hphase]
    exact .of_step hstep (by simp [Undropped]) ⟨_, .refl, rfl⟩
  -- So from each phase there is a way to the end.
  cases hphase : s.phase with
  | reading =>
    have hstep : connection.step s (.stopReading .stop) = some { s with phase := .closing } := by
      simp [connection, hphase]
    exact .of_step hstep (by simp [Undropped]) (hclosing _ rfl)
  | closing => exact hclosing s hphase
  | draining => exact hdraining s hphase
  | cleaning j =>
    obtain ⟨c, hc, hdropped⟩ := Awaits.of_reachable h j hphase
    exact ends_of_cleaning hphase hc hdropped
  | disarmed =>
    have hstep : connection.step s .finish = some { s with phase := .ended } := by
      simp [connection, hphase]
    exact .of_step hstep (by simp [Undropped]) ⟨_, .refl, rfl⟩
  | dropping =>
    have hstep : connection.step s .closeGuard =
        some { s with closed := true, phase := .guarding } := by
      simp [connection, hphase]
    exact .of_step hstep (by simp [Undropped]) (hguarding _ rfl)
  | guarding => exact hguarding s hphase
  | ended => exact ⟨s, .refl, hphase⟩

end Connection

namespace Server

variable {ε : Type*} {uid : UInt32} {config : JsonlSocketConfig} {first : UInt64} {s t : Server}

/-- What drops neither `serve` nor a task. -/
def Graceful : ServerStep ε → Prop
  | .abort | .discard _ => False
  | .client _ l => Connection.Undropped l
  | _ => True

/-- What a connection can do behind the loop, the server can do. -/
theorem leads_of_connection {i : ℕ} {c : Client} {owner : List Char} {state state' : Connection}
    (hphase : s.phase.isAccepting = false) (hc : s.clients[i]? = some c)
    (hstage : c.stage = .connected owner state)
    (h : connection.Leads Connection.Undropped state state') :
    ∃ t, (machine ε config uid first).Leads Graceful s t ∧ t.phase = s.phase ∧
      t.clients = s.clients.set i { c with stage := .connected owner state' } := by
  obtain ⟨es, hes, hrun⟩ := h
  induction es generalizing s c state with
  | nil =>
    obtain rfl : state = state' := by simpa using hrun
    refine ⟨s, .refl, rfl, ?_⟩
    obtain ⟨hlt, rfl⟩ := List.getElem?_eq_some_iff.1 hc
    rw [← hstage]
    exact (List.set_getElem_self hlt).symm
  | cons l es ih =>
    obtain ⟨mid, hmid, hrest⟩ := Machine.run_cons_eq_some _ |>.1 hrun
    have hlt : i < s.clients.length := (List.getElem?_eq_some_iff.1 hc).1
    have hstep : (machine ε config uid first).step s (.client i l) =
        some (s.setStage i c (.connected owner mid)) := by
      show s.step uid (.client i l : ServerStep ε) = _
      simp [Server.step, hc, hstage, hphase, hmid]
    obtain ⟨t, hleads, ht, hclients⟩ := ih (s := s.setStage i c (.connected owner mid))
      (c := { c with stage := .connected owner mid }) hphase (List.getElem?_set_self hlt) rfl
      (fun e he => hes e (List.mem_cons_of_mem _ he)) hrest
    refine ⟨t, .head hstep (hes l List.mem_cons_self) hleads, ht, ?_⟩
    rw [hclients]
    exact List.set_set _

/-- Behind the loop the task of a peer gets to its end and is joined. -/
theorem joins_client {result : Except ServeError Unit} {i : ℕ}
    (h : (machine ε config uid first).Reachable s) (hphase : s.phase = .stopping result)
    (hi : i < s.clients.length) :
    ∃ t c, (machine ε config uid first).Leads Graceful s t ∧ t.phase = s.phase ∧
      t.clients = s.clients.set i c ∧ c.joined = true := by
  have hclosed : s.phase.isAccepting = false := by rw [hphase]; rfl
  have hself : ∀ {s : Server} {c : Client}, s.clients[i]? = some c →
      s.clients = s.clients.set i c := by
    intro s c hc
    obtain ⟨hlt, rfl⟩ := List.getElem?_eq_some_iff.1 hc
    exact (List.set_getElem_self hlt).symm
  -- A task that is over is joined, unless it has been joined already.
  have hjoin : ∀ {s : Server} {c : Client}, s.phase = .stopping result → s.clients[i]? = some c →
      c.running = false → ∃ t c, (machine ε config uid first).Leads Graceful s t ∧
        t.phase = s.phase ∧ t.clients = s.clients.set i c ∧ c.joined = true := by
    intro s c hphase hc hover
    cases hjoined : c.joined with
    | true => exact ⟨s, c, .refl, rfl, hself hc, hjoined⟩
    | false =>
      have hstep : (machine ε config uid first).step s (.join i) =
          some { s with clients := s.clients.set i { c with joined := true } } := by
        show s.step uid (.join i : ServerStep ε) = _
        simp [Server.step, hc, hphase, ServePhase.isPolled, hover, hjoined]
      exact ⟨_, _, .single hstep trivial, rfl, rfl, rfl⟩
  -- A connection is told to stop, and ends.
  have hconnected : ∀ {s : Server} {c : Client} {owner : List Char} {state : Connection},
      s.phase = .stopping result → s.clients[i]? = some c → c.stage = .connected owner state →
      connection.Reachable state → ∃ t c, (machine ε config uid first).Leads Graceful s t ∧
        t.phase = s.phase ∧ t.clients = s.clients.set i c ∧ c.joined = true := by
    intro s c owner state hphase hc hstage hstate
    have hlt : i < s.clients.length := (List.getElem?_eq_some_iff.1 hc).1
    obtain ⟨state', hleads, hended⟩ := Connection.connection_stops hstate
    obtain ⟨u, hu, huphase, huclients⟩ : ∃ u, (machine ε config uid first).Leads Graceful s u ∧
        u.phase = s.phase ∧
        u.clients = s.clients.set i { c with stage := .connected owner state' } :=
      leads_of_connection (by rw [hphase]; rfl) hc hstage hleads
    have hover : Client.running { c with stage := .connected owner state' } = false := by
      simp [Client.running, Stage.running, hended]
    obtain ⟨t, c', ht, htphase, htclients, hjoined⟩ := hjoin (s := u)
      (c := { c with stage := .connected owner state' }) (huphase.trans hphase)
      (by rw [huclients]; exact List.getElem?_set_self hlt) hover
    refine ⟨t, c', hu.trans ht, htphase.trans huphase, ?_, hjoined⟩
    rw [htclients, huclients, List.set_set]
  obtain ⟨c, hc⟩ : ∃ c, s.clients[i]? = some c := ⟨_, List.getElem?_eq_getElem hi⟩
  cases hstage : c.stage with
  | spawned =>
    obtain ⟨reads, owner, howner⟩ : ∃ (reads : List (Except ε (List UInt8))) (owner : List Char),
        newOwner s.nextOwner reads = some (.ok owner, s.nextOwner + 1) :=
      ⟨[.ok (List.replicate 16 0)], _, rfl⟩
    have hstep : (machine ε config uid first).step s (.poll i reads) =
        some { s.setStage i c (.connected owner connection.init) with
          nextOwner := s.nextOwner + 1
          minted := s.minted + 1 } := by
      show s.step uid (.poll i reads) = _
      simp [Server.step, hc, hstage, howner]
    obtain ⟨t, c', ht, htphase, htclients, hjoined⟩ := hconnected
      (s := { s.setStage i c (.connected owner connection.init) with
          nextOwner := s.nextOwner + 1
          minted := s.minted + 1 }) hphase (List.getElem?_set_self hi) rfl
      (Machine.reachable_init connection)
    refine ⟨t, c', .head hstep trivial ht, htphase, ?_, hjoined⟩
    rw [htclients]
    exact List.set_set _
  | ended => exact hjoin hphase hc (by simp [Client.running, hstage, Stage.running])
  | connected owner state =>
    have hstate := (Serving.of_reachable h).connection c
      (List.mem_of_getElem? hc) owner state hstage
    exact hconnected hphase hc hstage hstate

/-- Behind the loop `serve` gets to its return. -/
theorem returns_of_stopping {result : Except ServeError Unit}
    (h : (machine ε config uid first).Reachable s) (hphase : s.phase = .stopping result) :
    ∃ t, (machine ε config uid first).Leads Graceful s t ∧ t.phase = .returned result := by
  -- One task after the other is joined.
  have hjoins : ∀ n ≤ s.clients.length, ∃ t, (machine ε config uid first).Leads Graceful s t ∧
      t.phase = s.phase ∧ t.clients.length = s.clients.length ∧
      ∀ k < n, ∀ c, t.clients[k]? = some c → c.joined = true := by
    intro n hn
    induction n with
    | zero => exact ⟨s, .refl, rfl, rfl, by simp⟩
    | succ n ih =>
      obtain ⟨u, hu, huphase, hulength, hujoined⟩ := ih (by omega)
      obtain ⟨t, c, ht, htphase, htclients, hjoined⟩ := joins_client (i := n)
        (hu.reachable h) (huphase.trans hphase) (by omega)
      refine ⟨t, hu.trans ht, htphase.trans huphase, ?_, ?_⟩
      · rw [htclients, List.length_set, hulength]
      · intro k hk d hd
        rw [htclients] at hd
        by_cases hkn : n = k
        · subst hkn
          rw [List.getElem?_set_self (by omega)] at hd
          rw [← Option.some.inj hd]
          exact hjoined
        · rw [List.getElem?_set_ne hkn] at hd
          exact hujoined k (by omega) d hd
  obtain ⟨t, ht, htphase, htlength, htjoined⟩ := hjoins _ le_rfl
  have hall : t.clients.all Client.joined = true := by
    refine List.all_eq_true.2 fun c hc => ?_
    obtain ⟨k, hk⟩ := List.mem_iff_getElem?.1 hc
    have hlt : k < t.clients.length := (List.getElem?_eq_some_iff.1 hk).1
    exact htjoined k (by omega) c hk
  have hstep : (machine ε config uid first).step t .finish =
      some { t with phase := .returned result } := by
    show t.finish = _
    simp [Server.finish, htphase.trans hphase, hall]
  exact ⟨_, ht.trans (.single hstep trivial), rfl⟩

/-- What the result of `serve` says about the run that led to it. -/
def Tells (config : JsonlSocketConfig) (labels : List (ServerStep ε)) :
    Except ServeError Unit → Prop
  | .ok () => config.validate = .ok () ∧ .shutdown ∈ labels ∧ .acceptError ∉ labels
  | .error .accept => config.validate = .ok () ∧ .shutdown ∉ labels ∧ .acceptError ∈ labels
  | .error (.config message) =>
    config.validate = .error message ∧ .shutdown ∉ labels ∧ .acceptError ∉ labels

/-- What the phase of `serve` says about the run that led to it. -/
def PhaseTells (config : JsonlSocketConfig) (labels : List (ServerStep ε)) : ServePhase → Prop
  | .accepting => config.validate = .ok () ∧ .shutdown ∉ labels ∧ .acceptError ∉ labels
  | .stopping result | .returned result => Tells config labels result
  | .dropped => True

/-- A step that neither ends the loop nor moves `serve` on says nothing. -/
theorem PhaseTells.concat {labels : List (ServerStep ε)} {label : ServerStep ε} {phase : ServePhase}
    (h : PhaseTells config labels phase) (hshutdown : label ≠ .shutdown)
    (haccept : label ≠ .acceptError) : PhaseTells config (labels ++ [label]) phase := by
  have htells : ∀ {result : Except ServeError Unit}, Tells config labels result →
      Tells config (labels ++ [label]) result := by
    intro result hresult
    match result, hresult with
    | .ok (), hresult => simpa [Tells, hshutdown.symm, haccept.symm] using hresult
    | .error .accept, hresult => simpa [Tells, hshutdown.symm, haccept.symm] using hresult
    | .error (.config message), hresult => simpa [Tells, hshutdown.symm, haccept.symm] using hresult
  cases phase with
  | accepting => simpa [PhaseTells, hshutdown.symm, haccept.symm] using h
  | stopping result => exact htells h
  | returned result => exact htells h
  | dropped => trivial

/-- The phase of `serve` tells how its loop ended. -/
theorem phaseTells_of_run {labels : List (ServerStep ε)}
    (hrun : (machine ε config uid first).run (machine ε config uid first).init labels = some s) :
    PhaseTells config labels s.phase := by
  induction labels using List.reverseRecOn generalizing s with
  | nil =>
    obtain rfl := Option.some.inj hrun
    simp only [machine]
    split
    · rename_i message hvalid
      exact ⟨hvalid, by simp, by simp⟩
    · rename_i hvalid
      exact ⟨hvalid, by simp, by simp⟩
  -- Only the step that ends the loop changes what the phase tells; behind it the phase stays.
  | append_singleton labels label ih =>
    obtain ⟨u, hu, hstep⟩ := Machine.run_concat_eq_some _ |>.1 hrun
    have htells := ih hu
    cases effect_of_step hstep with
    | refuse peer hphase hpeer => exact htells.concat (by simp) (by simp)
    | admitted hphase hpermits => exact htells.concat (by simp) (by simp)
    | stop result hlabel hphase =>
      have haccepting : u.phase = .accepting := by
        cases hwhere : u.phase <;> simp [hwhere, ServePhase.isAccepting] at hphase ⊢
      rw [haccepting] at htells
      obtain ⟨hvalid, hshutdown, haccept⟩ := htells
      rcases hlabel with ⟨rfl, rfl⟩ | ⟨rfl, rfl⟩
      · exact ⟨hvalid, by simp, by simpa using haccept⟩
      · exact ⟨hvalid, by simpa using hshutdown, by simp⟩
    | join i hc hphase hover hjoined => exact htells.concat (by simp) (by simp)
    | finish result hphase hjoined =>
      rw [hphase] at htells
      have hreturned : PhaseTells config labels (.returned result) := htells
      exact hreturned.concat (by simp) (by simp)
    | abort hphase => trivial
    | move i hc hmoves =>
      refine htells.concat ?_ ?_ <;>
      · rintro rfl
        cases hmoves
    | mintElsewhere => exact htells.concat (by simp) (by simp)

/-- The end of a socket server. From every reachable state behind the loop `serve` can return its
result without a task being dropped, whatever its connections are doing. Where it has returned,
every task is over and joined, all permits are back, and the result tells how the loop ended: `Ok`
exactly if the shutdown future was ready, an error of `accept` exactly if one was returned, and an
invalid configuration exactly if `validate` refuses it. -/
theorem serve_returns (ε : Type*) (config : JsonlSocketConfig) (uid : UInt32) (first : UInt64)
    (labels : List (ServerStep ε)) (s : Server)
    (hrun : (machine ε config uid first).run (machine ε config uid first).init labels = some s) :
    (∀ result, s.phase = .stopping result →
      ∃ t, (machine ε config uid first).Leads Graceful s t ∧ t.phase = .returned result) ∧
    ∀ result, s.phase = .returned result →
      (∀ c ∈ s.clients, c.joined = true ∧ c.running = false) ∧
      s.permits = config.maxConnections ∧
      (result = .ok () ↔ .shutdown ∈ labels) ∧
      (result = .error .accept ↔ .acceptError ∈ labels) ∧
      ∀ message, result = .error (.config message) ↔ config.validate = .error message := by
  have hreachable : (machine ε config uid first).Reachable s := ⟨labels, hrun⟩
  refine ⟨fun result hphase => returns_of_stopping hreachable hphase, fun result hphase => ?_⟩
  have hinv := Serving.of_reachable hreachable
  have hover : ∀ c ∈ s.clients, c.joined = true ∧ c.running = false := fun c hc =>
    ⟨hinv.returned result hphase c hc, hinv.joined c hc (hinv.returned result hphase c hc)⟩
  have hnone : s.clients.countP Client.running = 0 := by
    refine List.countP_eq_zero.2 fun c hc => ?_
    rw [(hover c hc).2]
    exact Bool.false_ne_true
  have hpermits : s.permits = config.maxConnections := by
    have htotal := hinv.permits
    omega
  refine ⟨hover, hpermits, ?_⟩
  have htells : Tells config labels result := by
    have hphaseTells := phaseTells_of_run hrun
    rw [hphase] at hphaseTells
    exact hphaseTells
  match result, htells with
  | .ok (), ⟨hvalid, hshutdown, haccept⟩ => simp [hvalid, hshutdown, haccept]
  | .error .accept, ⟨hvalid, hshutdown, haccept⟩ => simp [hvalid, hshutdown, haccept]
  | .error (.config message), ⟨hvalid, hshutdown, haccept⟩ => simp [hvalid, hshutdown, haccept]

/-- A shutdown while a connection waits for a request of its own. -/
def stoppedServer : List (ServerStep Unit) :=
  [.accept (some 1000), .poll 0 [.ok (List.replicate 16 7)], .client 0 .accept, .client 0 (.poll 0),
    .client 0 (.dispatch 0), .shutdown]

/-- It can return. -/
theorem serve_returns_stopped :
    ∃ s, (machine Unit {} 1000 1).run (machine Unit {} 1000 1).init stoppedServer = some s ∧
      ∃ t, (machine Unit {} 1000 1).Leads Graceful s t ∧ t.phase = .returned (.ok ()) := by
  obtain ⟨s, hrun⟩ : ∃ s, (machine Unit {} 1000 1).run (machine Unit {} 1000 1).init stoppedServer =
      some s := ⟨_, rfl⟩
  refine ⟨s, hrun, (serve_returns Unit {} 1000 1 stoppedServer s hrun).1 (.ok ()) ?_⟩
  obtain rfl := Option.some.inj hrun
  rfl

end Server

end DaemonFramework.Socket
