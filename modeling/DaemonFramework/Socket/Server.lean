import DaemonFramework.Identity
import DaemonFramework.Roster
import DaemonFramework.Socket.Cleanup

/-!
# The accept loop of the socket server

`JsonlListener::serve` of `shelllist-daemon-tokio/src/socket.rs`, with the tasks that it spawns.
Each accepted peer of the own user takes a permit of the semaphore into a task, which mints an owner
and then is a `connection`. The loop ends with the shutdown future or with an error of `accept`,
tells all connections to stop, and returns when it has joined the last one. The caller can drop it
before.

The `select!` of the loop is biased, which orders what is ready at one poll. Other threads make
things ready at any time, so here the branches come in any order. A connection future is dropped at
an await point when its task is aborted, and also when the service panics in it.

A permit is held from the admission of a peer to the end of its task, whatever ends it: `Serving`
says so, and that everything a connection does here it does as the machine `connection`.
-/

namespace DaemonFramework.Socket

/-- `JsonlSocketConfig`, with durations in nanoseconds. -/
structure JsonlSocketConfig where
  /-- The connections that are served at one time. -/
  maxConnections : ℕ := 8
  /-- The requests of a connection that are worked on at one time. -/
  maxInFlightRequests : ℕ := 64
  /-- The longest request. -/
  maximumRequestBytes : ℕ := 1024 * 1024
  /-- The longest response. -/
  maximumResponseBytes : ℕ := 32 * 1024 * 1024
  /-- The length of the output queue. -/
  outputCapacity : ℕ := 16
  /-- The events that wait for the writer. -/
  pendingEventLimit : ℕ := 32
  /-- The deadline of a request. -/
  requestTimeout : ℕ := 30 * 10 ^ 9
  /-- The deadline of a response. -/
  writeTimeout : ℕ := 5 * 10 ^ 9

/-- `validate`. -/
def JsonlSocketConfig.validate (config : JsonlSocketConfig) : Except String Unit := do
  if ¬(0 < config.maxConnections ∧ 0 < config.maxInFlightRequests ∧ 0 < config.outputCapacity) then
    throw "socket capacities must be positive"
  if ¬(1 ≤ config.maximumRequestBytes ∧ config.maximumRequestBytes ≤ 128 * 1024 * 1024) then
    throw "invalid request byte bound"
  if ¬(1 ≤ config.maximumResponseBytes ∧ config.maximumResponseBytes ≤ 64 * 1024 * 1024) then
    throw "invalid response byte bound"
  if config.requestTimeout = 0 ∨ config.writeTimeout = 0 then
    throw "socket deadlines must be positive"

/-- Where the task of a peer is. -/
inductive Stage where
  /-- It is spawned and has not run. -/
  | spawned
  /-- It is over without having been a connection. -/
  | ended
  /-- It has an owner and is a connection, up to its end and after it. -/
  | connected (owner : List Char) (state : Connection)

/-- Whether the task goes on. -/
def Stage.running : Stage → Bool
  | .spawned => true
  | .ended => false
  | .connected _ state => state.phase ≠ .ended

/-- The owner that the task has minted. -/
def Stage.owner : Stage → Option (List Char)
  | .connected owner _ => some owner
  | _ => none

/-- A peer that has been admitted. -/
structure Client where
  /-- The user id of its credentials. -/
  uid : UInt32
  /-- Its task. -/
  stage : Stage
  /-- Whether the loop has joined the task. -/
  joined : Bool

/-- Whether the task of the peer goes on. -/
def Client.running (c : Client) : Bool := c.stage.running

/-- Why `serve` fails. -/
inductive ServeError where
  /-- The configuration is not valid. -/
  | config (message : String)
  /-- `accept` failed. -/
  | accept
deriving DecidableEq

/-- Where `serve` is. -/
inductive ServePhase where
  /-- In the loop. -/
  | accepting
  /-- Behind the loop, with the connections told to stop. -/
  | stopping (result : Except ServeError Unit)
  /-- It has returned. -/
  | returned (result : Except ServeError Unit)
  /-- It was dropped. -/
  | dropped

/-- Whether the loop goes on. -/
def ServePhase.isAccepting : ServePhase → Bool
  | .accepting => true
  | _ => false

/-- Whether `serve` is polled. -/
def ServePhase.isPolled : ServePhase → Bool
  | .accepting | .stopping _ => true
  | _ => false

/-- `serve` and the tasks that it has spawned. -/
structure Server where
  /-- Where `serve` is. -/
  phase : ServePhase
  /-- The permits that are left in the semaphore. -/
  permits : ℕ
  /-- The admitted peers, in the order of their admission. -/
  clients : List Client
  /-- `NEXT_OWNER`, which all listeners of the process share. -/
  nextOwner : UInt64
  /-- The owners that the process has minted. -/
  minted : ℕ

/-- What can happen. -/
inductive ServerStep (ε : Type*) where
  /-- A peer is accepted, with the user id of its credentials if they could be read. -/
  | accept (peer : Option UInt32)
  /-- `accept` fails. -/
  | acceptError
  /-- The shutdown future is ready. -/
  | shutdown
  /-- `join_next` returns the task of a peer. -/
  | join (i : ℕ)
  /-- All tasks are joined, and `serve` returns. -/
  | finish
  /-- The caller drops `serve`, which drops the set of its tasks. -/
  | abort
  /-- The task of a peer runs for the first time and mints its owner. -/
  | poll (i : ℕ) (reads : List (Except ε (List UInt8)))
  /-- A task that has not run is dropped. -/
  | discard (i : ℕ)
  /-- Something happens around the connection of a peer. -/
  | client (i : ℕ) (step : SocketStep)
  /-- Another listener of the process mints an owner. -/
  | mintElsewhere

/-- Whether the select of a connection ends with the stop signal. -/
def SocketStep.isStop : SocketStep → Bool
  | .stopReading .stop => true
  | _ => false

namespace Server

variable {ε : Type*}

/-- The body of the accept branch. -/
def accept (uid : UInt32) (s : Server) (peer : Option UInt32) : Server :=
  -- The credentials are checked before a byte is read, and before a permit is taken.
  if peer ≠ some uid then s
  else if s.permits = 0 then s
  else { s with permits := s.permits - 1, clients := s.clients ++ [⟨uid, .spawned, false⟩] }

/-- Move the task of a peer on. It gives its permit back when it ends. -/
def setStage (s : Server) (i : ℕ) (c : Client) (stage : Stage) : Server :=
  { s with
    clients := s.clients.set i { c with stage := stage }
    permits := if c.running ∧ stage.running = false then s.permits + 1 else s.permits }

/-- `serve` returns when it has joined every task. -/
def finish (s : Server) : Option Server :=
  match s.phase with
  | .stopping result =>
    if s.clients.all Client.joined then some { s with phase := .returned result } else none
  | _ => none

/-- One step of the server of the user `uid`. -/
def step (uid : UInt32) (s : Server) : ServerStep ε → Option Server
  | .accept peer => if s.phase.isAccepting then some (s.accept uid peer) else none
  | .acceptError =>
    if s.phase.isAccepting then some { s with phase := .stopping (.error .accept) } else none
  | .shutdown => if s.phase.isAccepting then some { s with phase := .stopping (.ok ()) } else none
  | .join i =>
    s.clients[i]?.bind fun c =>
      if s.phase.isPolled ∧ c.running = false ∧ c.joined = false then
        some { s with clients := s.clients.set i { c with joined := true } }
      else none
  | .finish => s.finish
  | .abort => if s.phase.isPolled then some { s with phase := .dropped } else none
  | .poll i reads =>
    s.clients[i]?.bind fun c =>
      match c.stage, newOwner s.nextOwner reads with
      | .spawned, some (.ok owner, nextOwner) =>
        some { s.setStage i c (.connected owner connection.init) with
          nextOwner := nextOwner
          minted := s.minted + 1 }
      | .spawned, some (.error _, _) => some (s.setStage i c .ended)
      | _, _ => none
  | .discard i =>
    s.clients[i]?.bind fun c =>
      match c.stage with
      | .spawned => some (s.setStage i c .ended)
      | _ => none
  | .client i l =>
    s.clients[i]?.bind fun c =>
      match c.stage with
      | .connected owner state =>
        -- The stop signal is given behind the loop, or with the end of `serve`.
        if l.isStop ∧ s.phase.isAccepting then none
        else (connection.step state l).map fun state' => s.setStage i c (.connected owner state')
      | _ => none
  | .mintElsewhere => some { s with nextOwner := s.nextOwner + 1, minted := s.minted + 1 }

/-- The server of a user, from the call of `serve` on. -/
def machine (ε : Type*) (config : JsonlSocketConfig) (uid : UInt32) (first : UInt64) :
    Machine Server (ServerStep ε) where
  init :=
    { phase :=
        match config.validate with
        | .error message => .returned (.error (.config message))
        | .ok () => .accepting
      permits := config.maxConnections
      clients := []
      nextOwner := first
      minted := 0 }
  step := step uid

/-- What a step of the task `i` does to its stage, and to the counter of owners. -/
inductive Moves (s : Server) (i : ℕ) : ServerStep ε → Stage → Stage → UInt64 → ℕ → Prop
  /-- A task mints its owner from the bytes of the kernel. -/
  | mint {reads : List (Except ε (List UInt8))} (bytes : List UInt8) (hbytes : bytes.length = 16) :
    Moves s i (.poll i reads) .spawned (.connected (ownerName bytes s.nextOwner) connection.init)
      (s.nextOwner + 1) (s.minted + 1)
  /-- A task gets no owner. -/
  | fail {reads : List (Except ε (List UInt8))} :
    Moves s i (.poll i reads) .spawned .ended s.nextOwner s.minted
  /-- A task does not run. -/
  | discard : Moves s i (.discard i) .spawned .ended s.nextOwner s.minted
  /-- A connection takes a step. -/
  | connection (owner : List Char) {state state' : Connection} {l : SocketStep}
    (hstop : l.isStop = true → s.phase.isAccepting = false)
    (hstep : connection.step state l = some state') :
    Moves s i (.client i l) (.connected owner state) (.connected owner state') s.nextOwner s.minted

/-- What a step does. -/
inductive Effect (uid : UInt32) (s : Server) : ServerStep ε → Server → Prop
  /-- A peer is turned away. -/
  | refuse (peer : Option UInt32) (hphase : s.phase.isAccepting = true)
    (hpeer : peer ≠ some uid ∨ s.permits = 0) : Effect uid s (.accept peer) s
  /-- A peer is admitted. -/
  | admitted (hphase : s.phase.isAccepting = true) (hpermits : s.permits ≠ 0) :
    Effect uid s (.accept (some uid)) { s with
      permits := s.permits - 1
      clients := s.clients ++ [⟨uid, .spawned, false⟩] }
  /-- The loop ends. -/
  | stop {label : ServerStep ε} (result : Except ServeError Unit)
    (hlabel : label = .shutdown ∧ result = .ok () ∨ label = .acceptError ∧ result = .error .accept)
    (hphase : s.phase.isAccepting = true) :
    Effect uid s label { s with phase := .stopping result }
  /-- A task is joined. -/
  | join (i : ℕ) {c : Client} (hc : s.clients[i]? = some c) (hphase : s.phase.isPolled = true)
    (hover : c.running = false) (hjoined : c.joined = false) :
    Effect uid s (.join i) { s with clients := s.clients.set i { c with joined := true } }
  /-- `serve` returns. -/
  | finish (result : Except ServeError Unit) (hphase : s.phase = .stopping result)
    (hjoined : ∀ c ∈ s.clients, c.joined = true) :
    Effect uid s .finish { s with phase := .returned result }
  /-- `serve` is dropped. -/
  | abort (hphase : s.phase.isPolled = true) : Effect uid s .abort { s with phase := .dropped }
  /-- A task moves on. -/
  | move {label : ServerStep ε} (i : ℕ) {c : Client} {stage : Stage} {nextOwner : UInt64}
    {minted : ℕ} (hc : s.clients[i]? = some c)
    (hmoves : Moves s i label c.stage stage nextOwner minted) :
    Effect uid s label { s.setStage i c stage with nextOwner := nextOwner, minted := minted }
  /-- An owner is minted elsewhere. -/
  | mintElsewhere :
    Effect uid s .mintElsewhere { s with nextOwner := s.nextOwner + 1, minted := s.minted + 1 }

/-- A minted owner is the name of 16 bytes and of the counter, which moves on. -/
theorem newOwner_eq_ok {count count' : UInt64} {reads : List (Except ε (List UInt8))}
    {owner : List Char} (h : newOwner count reads = some (.ok owner, count')) :
    ∃ bytes : List UInt8, bytes.length = 16 ∧ owner = ownerName bytes count ∧
      count' = count + 1 := by
  obtain ⟨result, hfill, heq⟩ := Option.map_eq_some_iff.1 h
  cases result with
  | error error => cases heq
  | ok bytes =>
    obtain ⟨howner, rfl⟩ := Prod.mk.inj heq
    exact ⟨bytes, length_of_fill (Nat.zero_le _) hfill, (Except.ok.inj howner).symm, rfl⟩

/-- A step has one of the effects. -/
theorem effect_of_step {uid : UInt32} {s t : Server} {label : ServerStep ε}
    (h : s.step uid label = some t) : Effect uid s label t := by
  cases label with
  | accept peer =>
    obtain ⟨hphase, rfl⟩ := Machine.guarded_eq_some.1 h
    -- A peer of another user and one without a permit are turned away alike.
    unfold accept
    split_ifs with hpeer hpermits
    · exact .refuse peer hphase (.inl hpeer)
    · exact .refuse peer hphase (.inr hpermits)
    · obtain rfl : peer = some uid := not_not.1 hpeer
      exact .admitted hphase hpermits
  | acceptError =>
    obtain ⟨hphase, rfl⟩ := Machine.guarded_eq_some.1 h
    exact .stop _ (.inr ⟨rfl, rfl⟩) hphase
  | shutdown =>
    obtain ⟨hphase, rfl⟩ := Machine.guarded_eq_some.1 h
    exact .stop _ (.inl ⟨rfl, rfl⟩) hphase
  | join i =>
    obtain ⟨c, hc, hstep⟩ := Option.bind_eq_some_iff.1 h
    obtain ⟨⟨hphase, hover, hjoined⟩, rfl⟩ := Machine.guarded_eq_some.1 hstep
    exact .join i hc hphase hover hjoined
  | finish =>
    change s.finish = some t at h
    unfold finish at h
    split at h
    · rename_i result hphase
      obtain ⟨hjoined, rfl⟩ := Machine.guarded_eq_some.1 h
      exact .finish result hphase (List.all_eq_true.1 hjoined)
    · cases h
  | abort =>
    obtain ⟨hphase, rfl⟩ := Machine.guarded_eq_some.1 h
    exact .abort hphase
  -- The first poll of the task mints the owner, or fails if the kernel gives no bytes.
  | poll i reads =>
    obtain ⟨c, hc, hstep⟩ := Option.bind_eq_some_iff.1 h
    split at hstep
    · rename_i hstage howner
      obtain ⟨bytes, hbytes, rfl, rfl⟩ := newOwner_eq_ok howner
      obtain rfl := Option.some.inj hstep
      exact .move i hc (hstage ▸ .mint bytes hbytes)
    · rename_i hstage howner
      obtain rfl := Option.some.inj hstep
      exact .move i hc (hstage ▸ .fail)
    · cases hstep
  -- A task that was aborted before its first poll never mints.
  | discard i =>
    obtain ⟨c, hc, hstep⟩ := Option.bind_eq_some_iff.1 h
    split at hstep
    · rename_i hstage
      obtain rfl := Option.some.inj hstep
      exact .move i hc (hstage ▸ .discard)
    · cases hstep
  -- A connection moves by its own machine.
  | client i l =>
    obtain ⟨c, hc, hstep⟩ := Option.bind_eq_some_iff.1 h
    split at hstep
    · rename_i owner state hstage
      obtain ⟨hstop, hstep⟩ := Option.ite_none_left_eq_some.1 hstep
      obtain ⟨state', hstate, rfl⟩ := Option.map_eq_some_iff.1 hstep
      refine .move i hc (hstage ▸ .connection owner (fun hl => ?_) hstate)
      simpa [hl] using hstop
    · cases hstep
  | mintElsewhere =>
    obtain rfl := Option.some.inj h
    exact .mintElsewhere

/-! ## The invariant -/

variable {uid : UInt32} {config : JsonlSocketConfig} {first : UInt64} {s t : Server}

/-- A connection that has ended stays so. -/
theorem ended_of_step {s t : Connection} {l : SocketStep} (h : s.phase = .ended)
    (hstep : connection.step s l = some t) : t.phase = .ended := by
  -- Work and cleanup may go on behind the end of the connection, without a change of its phase.
  have hwork : ∀ {u : Connection} {i : ℕ} {old new : WorkPhase},
      s.moveWork i old new = some u → u.phase = .ended := by
    intro u i old new hmove
    obtain ⟨-, rfl⟩ := moveWork_eq_some.1 hmove
    exact h
  have hcleanup : ∀ {u : Connection} {j : ℕ} {old new : CleanupPhase},
      s.moveCleanup j old new = some u → u.phase = .ended := by
    intro u j old new hmove
    obtain ⟨c, -, -, rfl⟩ := moveCleanup_eq_some.1 hmove
    exact h
  cases l with
  | cleaned =>
    simp only [connection, h] at hstep
    cases hstep
  | drop =>
    simp only [connection, Connection.drop, h] at hstep
    cases hstep
  | closeSession reason =>
    obtain rfl := Option.some.inj hstep
    exact h
  | register i =>
    obtain ⟨-, rfl⟩ := Machine.guarded_eq_some.1 hstep
    exact h
  | poll i => exact hwork hstep
  | abort i => exact hwork (Option.ite_none_right_eq_some.1 hstep).2
  | dispatch i => exact hwork hstep
  | complete i => exact hwork hstep
  | check i =>
    obtain ⟨u, hmove, rfl⟩ := Option.map_eq_some_iff.1 hstep
    have hu := hwork hmove
    split_ifs <;> exact hu
  | start j =>
    obtain ⟨c, -, hstart⟩ := Option.bind_eq_some_iff.1 hstep
    obtain ⟨-, rfl⟩ := Machine.guarded_eq_some.1 hstart
    exact h
  | remove j =>
    obtain ⟨u, hmove, rfl⟩ := Option.map_eq_some_iff.1 hstep
    have hu := hcleanup hmove
    exact hu
  | returned j => exact hcleanup hstep
  -- Every other step needs a connection that has not ended.
  | _ => simp [connection, h] at hstep

/-- How the permits, the tasks and the phase of `serve` fit together. -/
structure Serving (config : JsonlSocketConfig) (uid : UInt32) (s : Server) : Prop where
  /-- A task that goes on has a permit, and no other has. -/
  permits : s.permits + s.clients.countP Client.running = config.maxConnections
  /-- The peers are of the own user. -/
  own : ∀ c ∈ s.clients, c.uid = uid
  /-- Only a task that is over is joined. -/
  joined : ∀ c ∈ s.clients, c.joined = true → c.running = false
  /-- `serve` returns behind the last task. -/
  returned : ∀ result, s.phase = .returned result → ∀ c ∈ s.clients, c.joined = true
  /-- What a connection does is what connections do. -/
  connection : ∀ c ∈ s.clients, ∀ owner state, c.stage = .connected owner state →
    connection.Reachable state

/-- The end of a task is its end. -/
theorem Moves.running {i : ℕ} {label : ServerStep ε} {old new : Stage} {nextOwner : UInt64}
    {minted : ℕ} (h : Moves s i label old new nextOwner minted) (hover : old.running = false) :
    new.running = false := by
  cases h with
  | mint bytes hbytes => cases hover
  | fail => cases hover
  | discard => cases hover
  | connection owner hstop hstep =>
    rename_i state state' l
    have hended : state.phase = .ended := by simpa [Stage.running] using hover
    have hstays : state'.phase = .ended := ended_of_step hended hstep
    simp [Stage.running, hstays]

namespace Serving

/-- The call of `serve`. -/
theorem init (ε : Type*) : Serving config uid (machine ε config uid first).init where
  permits := by simp [machine]
  own := by simp [machine]
  joined := by simp [machine]
  returned := by simp [machine]
  connection := by simp [machine]

/-- A task that moves on gives its permit back if it ends by that. -/
theorem setStage (h : Serving config uid s) {i : ℕ} {label : ServerStep ε} {c : Client}
    {stage : Stage} {nextOwner : UInt64} {minted : ℕ} (hc : s.clients[i]? = some c)
    (hmoves : Moves s i label c.stage stage nextOwner minted) :
    Serving config uid
      { s.setStage i c stage with nextOwner := nextOwner, minted := minted } where
  permits := by
    have hcount := Roster.countP_set_add Client.running hc { c with stage := stage }
    have hends : c.running = false → stage.running = false := hmoves.running
    have hpermits := h.permits
    show (if c.running ∧ stage.running = false then s.permits + 1 else s.permits) +
      (s.clients.set i { c with stage := stage }).countP Client.running = config.maxConnections
    have hnew : Client.running { c with stage := stage } = stage.running := rfl
    rw [hnew] at hcount
    cases hold : c.running <;> cases hstage : stage.running <;>
      simp [hold, hstage] at hcount hends ⊢
      <;> omega
  own := Roster.forall_mem_set h.own (h.own c (List.mem_of_getElem? hc))
  joined := by
    refine Roster.forall_mem_set h.joined fun hjoined => ?_
    exact hmoves.running (h.joined c (List.mem_of_getElem? hc) hjoined)
  returned := by
    intro result hphase
    have hall := h.returned result hphase
    exact Roster.forall_mem_set hall (hall c (List.mem_of_getElem? hc))
  connection := by
    refine Roster.forall_mem_set h.connection ?_
    have hold := h.connection c (List.mem_of_getElem? hc)
    intro owner state hstage
    obtain rfl : stage = .connected owner state := hstage
    generalize c.stage = old at hmoves hold
    cases hmoves with
    | mint bytes hbytes => exact Machine.reachable_init _
    | connection owner hstop hstep => exact (hold owner _ rfl).step hstep

/-- Every step keeps the invariant. -/
theorem step {label : ServerStep ε} (h : Serving config uid s)
    (hstep : s.step uid label = some t) : Serving config uid t := by
  cases effect_of_step hstep with
  | refuse peer hphase hpeer => exact h
  | admitted hphase hpermits =>
    refine ⟨?_, ?_, ?_, ?_, ?_⟩
    · have hcount := Roster.countP_append_singleton Client.running s.clients ⟨uid, .spawned, false⟩
      have hpermits' := h.permits
      have hnew : Client.running ⟨uid, .spawned, false⟩ = true := rfl
      rw [hnew, Bool.toNat_true] at hcount
      dsimp only
      omega
    · exact Roster.forall_mem_append_singleton h.own rfl
    · exact Roster.forall_mem_append_singleton h.joined nofun
    · intro result hresult
      rw [show s.phase = .returned result from hresult] at hphase
      cases hphase
    · exact Roster.forall_mem_append_singleton h.connection nofun
  | stop result hlabel hphase => exact ⟨h.permits, h.own, h.joined, nofun, h.connection⟩
  | join i hc hphase hover hjoined =>
    rename_i c
    have hmem := List.mem_of_getElem? hc
    refine ⟨?_, ?_, ?_, ?_, ?_⟩
    · have hsame : Client.running c = Client.running { c with joined := true } := rfl
      rw [← h.permits, Roster.countP_set_of_eq Client.running hc hsame]
    · exact Roster.forall_mem_set h.own (h.own c hmem)
    · exact Roster.forall_mem_set h.joined fun _ => hover
    · intro result hresult
      exact Roster.forall_mem_set (h.returned result hresult) rfl
    · exact Roster.forall_mem_set h.connection (h.connection c hmem)
  | finish result hphase hjoined =>
    exact ⟨h.permits, h.own, h.joined, fun _ _ => hjoined, h.connection⟩
  | abort hphase => exact ⟨h.permits, h.own, h.joined, nofun, h.connection⟩
  | move i hc hmoves => exact h.setStage hc hmoves
  | mintElsewhere => exact ⟨h.permits, h.own, h.joined, h.returned, h.connection⟩

/-- Every run keeps the invariant. -/
theorem of_reachable (h : (machine ε config uid first).Reachable s) : Serving config uid s :=
  Machine.invariant_of_reachable (init ε) (fun _ _ _ hs hstep => hs.step hstep) h

end Serving

/-! ## Admission -/

/-- Behind the loop nobody is admitted, and the loop does not begin again. -/
theorem closed_of_step {label : ServerStep ε} (hphase : s.phase.isAccepting = false)
    (hstep : s.step uid label = some t) :
    t.phase.isAccepting = false ∧ t.clients.length = s.clients.length := by
  cases effect_of_step hstep with
  | refuse peer hopen hpeer => exact ⟨hphase, rfl⟩
  | admitted hopen hpermits =>
    rw [hphase] at hopen
    cases hopen
  | stop result hlabel hopen => exact ⟨rfl, rfl⟩
  | join i hc hpolled hover hjoined => exact ⟨hphase, List.length_set⟩
  | finish result hstopping hjoined => exact ⟨rfl, rfl⟩
  | abort hpolled => exact ⟨rfl, rfl⟩
  | move i hc hmoves => exact ⟨hphase, List.length_set⟩
  | mintElsewhere => exact ⟨hphase, rfl⟩

/-- Admission to a socket server. In every reachable state the tasks that go on and the permits that
are left are `maxConnections` together, and every admitted peer is of the own user. While the loop
goes on a peer is turned away, and nothing changes, exactly if its credentials are not those of the
own user or `maxConnections` tasks go on; any other is admitted. After the loop no peer is admitted
in any run. -/
theorem server_admission (ε : Type*) (config : JsonlSocketConfig) (uid : UInt32) (first : UInt64)
    (s : Server) (h : (machine ε config uid first).Reachable s) :
    s.permits + s.clients.countP Client.running = config.maxConnections ∧
      (∀ c ∈ s.clients, c.uid = uid) ∧
      (s.phase.isAccepting = true → ∀ peer, ∃ t,
        s.step uid (.accept peer : ServerStep ε) = some t ∧
        ((peer ≠ some uid ∨ s.clients.countP Client.running = config.maxConnections) ∧ t = s ∨
          (peer = some uid ∧ s.clients.countP Client.running < config.maxConnections) ∧
            t.clients = s.clients ++ [⟨uid, .spawned, false⟩])) ∧
      (s.phase.isAccepting = false → ∀ labels t,
        (machine ε config uid first).run s labels = some t →
        t.clients.length = s.clients.length) := by
  have hinv := Serving.of_reachable h
  have hpermits := hinv.permits
  refine ⟨hpermits, hinv.own, ?_, ?_⟩
  · intro hphase peer
    refine ⟨s.accept uid peer, if_pos hphase, ?_⟩
    unfold accept
    split_ifs with hpeer hfull
    · exact .inl ⟨.inl hpeer, rfl⟩
    · exact .inl ⟨.inr (by omega), rfl⟩
    · exact .inr ⟨⟨not_not.1 hpeer, by omega⟩, rfl⟩
  · intro hphase labels t hrun
    refine (Machine.invariant_of_run (m := machine ε config uid first)
      (P := fun u : Server => u.phase.isAccepting = false ∧ u.clients.length = s.clients.length)
      ?_ ⟨hphase, rfl⟩ hrun).2
    rintro u label v ⟨hclosed, hlength⟩ hstep
    obtain ⟨hclosed', hsame⟩ := closed_of_step hclosed hstep
    exact ⟨hclosed', hsame.trans hlength⟩

/-- A peer that finds the only place taken, by a connection in its service. -/
def fullServer : List (ServerStep Unit) :=
  [.accept (some 1000), .poll 0 [.ok (List.replicate 16 7)], .client 0 .accept, .accept (some 0),
    .accept (some 1000)]

/-- It is turned away. -/
theorem server_admission_full :
    ∃ s, (machine Unit { maxConnections := 1 } 1000 1).run
        (machine Unit { maxConnections := 1 } 1000 1).init fullServer = some s ∧
      s.permits + s.clients.countP Client.running = 1 := by
  obtain ⟨s, hrun⟩ : ∃ s, (machine Unit { maxConnections := 1 } 1000 1).run
      (machine Unit { maxConnections := 1 } 1000 1).init fullServer = some s := ⟨_, rfl⟩
  exact ⟨s, hrun, (server_admission Unit { maxConnections := 1 } 1000 1 s ⟨fullServer, hrun⟩).1⟩

end Server

end DaemonFramework.Socket
