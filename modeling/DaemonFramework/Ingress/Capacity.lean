import DaemonFramework.Ingress.ConnectionLoop

/-!
# The permits of the requests

`RequestSlots` of `shelllist-daemon-tokio/src/jsonl.rs` in the runs of both ingress paths. A request
is `ordinary` or a control, and each kind has its own permits.

A ledger is `Balanced` if the free permits of each kind and the requests of the kind that hold one
are together what there was at the start. Taking and dropping a permit keep it so, and each path is
a matter of saying which requests hold a permit: on the bridge the ones whose tasks run, on the
socket the ones whose work runs, whatever has become of the task that waits for it
(`requests_within_capacity`).
-/

namespace DaemonFramework.Ingress

open Output Resumption

/-- The kind of a request, as `RequestSlots::acquire` tells them apart. -/
def ClientRequest.ordinary (request : ClientRequest) : Bool := decide request.IsOrdinary

namespace RequestSlots

/-- The free permits of a kind. -/
def free (slots : RequestSlots) (ordinary : Bool) : ℕ :=
  if ordinary then slots.calls else slots.controls

variable {slots slots' : RequestSlots} {request : ClientRequest}

/-- A permit that is taken is one of the request's kind. -/
theorem free_of_acquire (h : slots.acquire request = some slots') (ordinary : Bool) :
    slots'.free ordinary + (request.ordinary == ordinary).toNat = slots.free ordinary := by
  unfold acquire at h
  unfold free ClientRequest.ordinary
  by_cases hordinary : request.IsOrdinary
  · rw [if_pos hordinary] at h
    obtain ⟨hfree, rfl⟩ := Machine.guarded_eq_some.1 h
    cases ordinary <;> simp [hordinary]
    omega
  · rw [if_neg hordinary] at h
    obtain ⟨hfree, rfl⟩ := Machine.guarded_eq_some.1 h
    cases ordinary <;> simp [hordinary]
    omega

/-- A request is refused if its kind has no free permit. -/
theorem acquire_eq_none : slots.acquire request = none ↔ slots.free request.ordinary = 0 := by
  unfold acquire free ClientRequest.ordinary
  by_cases hordinary : request.IsOrdinary <;> simp [hordinary]

/-- A permit that is dropped is one of the request's kind. -/
theorem free_release (slots : RequestSlots) (request : ClientRequest) (ordinary : Bool) :
    (slots.release request).free ordinary =
      slots.free ordinary + (request.ordinary == ordinary).toNat := by
  unfold release free ClientRequest.ordinary
  by_cases hordinary : request.IsOrdinary <;> cases ordinary <;> simp [hordinary]

end RequestSlots

/-! ## Ledgers -/

section Ledger

variable {α : Type} (request : α → ClientRequest) (holds : α → Bool)

/-- An entry that holds a permit of a kind. -/
def holdsOf (ordinary : Bool) (a : α) : Bool := holds a && (request a).ordinary == ordinary

/-- The free permits, and those that entries hold, are what there was at the start. -/
def Balanced (total slots : RequestSlots) (entries : List α) : Prop :=
  ∀ ordinary, slots.free ordinary + entries.countP (holdsOf request holds ordinary) =
    total.free ordinary

variable {request holds} {total slots slots' : RequestSlots} {entries : List α} {a b : α} {k : ℕ}

namespace Balanced

/-- At the start all permits are free. -/
theorem start : Balanced request holds total total [] := fun _ => rfl

/-- An entry takes a permit. -/
theorem acquire (h : Balanced request holds total slots entries)
    (hacquire : slots.acquire (request a) = some slots') (ha : holds a = true) :
    Balanced request holds total slots' (entries ++ [a]) := by
  intro ordinary
  have hbalanced := h ordinary
  have hfree := RequestSlots.free_of_acquire hacquire ordinary
  have hholds : holdsOf request holds ordinary a = ((request a).ordinary == ordinary) := by
    rw [holdsOf, ha, Bool.true_and]
  rw [Roster.countP_append_singleton, hholds]
  omega

/-- An entry without a permit. -/
theorem refuse (h : Balanced request holds total slots entries) (ha : holds a = false) :
    Balanced request holds total slots (entries ++ [a]) := by
  intro ordinary
  have hholds : holdsOf request holds ordinary a = false := by rw [holdsOf, ha, Bool.false_and]
  rw [Roster.countP_append_singleton, hholds]
  exact h ordinary

/-- An entry changes in other respects. -/
theorem keep (h : Balanced request holds total slots entries) (ha : entries[k]? = some a)
    (hrequest : request b = request a) (hholds : holds b = holds a) :
    Balanced request holds total slots (entries.set k b) := by
  intro ordinary
  have hsame : holdsOf request holds ordinary a = holdsOf request holds ordinary b := by
    rw [holdsOf, holdsOf, hrequest, hholds]
  rw [Roster.countP_set_of_eq _ ha hsame]
  exact h ordinary

/-- An entry drops its permit. -/
theorem release (h : Balanced request holds total slots entries) (ha : entries[k]? = some a)
    (hheld : holds a = true) (hdropped : holds b = false) :
    Balanced request holds total (slots.release (request a)) (entries.set k b) := by
  intro ordinary
  have hbalanced := h ordinary
  have hcount := Roster.countP_set_add (holdsOf request holds ordinary) ha b
  have hbefore : holdsOf request holds ordinary a = ((request a).ordinary == ordinary) := by
    rw [holdsOf, hheld, Bool.true_and]
  have hafter : holdsOf request holds ordinary b = false := by
    rw [holdsOf, hdropped, Bool.false_and]
  rw [hbefore, hafter, Bool.toNat_false] at hcount
  rw [RequestSlots.free_release]
  omega

/-- No more entries of a kind hold permits than there are. -/
theorem le (h : Balanced request holds total slots entries) (ordinary : Bool) :
    entries.countP (holdsOf request holds ordinary) ≤ total.free ordinary := by
  have hbalanced := h ordinary
  omega

/-- Of an entry that is accepted if there is a permit and else refused: it is accepted exactly if
fewer permits of its kind are held than there are, and refused exactly if all are. -/
theorem admission (h : Balanced request holds total slots entries) {r : ClientRequest}
    (hab : a ≠ b) {entries' : List α}
    (hentries : entries' = entries ++ [if slots.acquire r = none then b else a]) :
    (entries' = entries ++ [a] ↔
      entries.countP (holdsOf request holds r.ordinary) < total.free r.ordinary) ∧
    (entries' = entries ++ [b] ↔
      entries.countP (holdsOf request holds r.ordinary) = total.free r.ordinary) := by
  have hbalanced := h r.ordinary
  have hrefused : slots.acquire r = none ↔
      entries.countP (holdsOf request holds r.ordinary) = total.free r.ordinary := by
    rw [RequestSlots.acquire_eq_none]
    omega
  subst hentries
  by_cases hnone : slots.acquire r = none
  · have hfull := hrefused.1 hnone
    simp [hnone, hab.symm, hfull]
  · have hfree : entries.countP (holdsOf request holds r.ordinary) ≠ total.free r.ordinary :=
      mt hrefused.2 hnone
    simp only [hnone, if_false, List.append_cancel_left_eq, List.cons.injEq, and_true, hab,
      hfree, true_iff, iff_self]
    omega

end Balanced

end Ledger

/-! ## The bridge -/

namespace Bridge

/-- The request of a ticket. -/
def Ticket.request (t : Ticket) : ClientRequest := t.message.request

/-- The task of a request runs and has a permit. -/
def Ticket.holds (t : Ticket) : Bool := t.permit && !t.aborted && t.task.current.isSome

/-- How many requests of a kind run. -/
def State.running (s : State) (ordinary : Bool) : ℕ :=
  s.tickets.countP (holdsOf Ticket.request Ticket.holds ordinary)

/-- The permits of the bridge are free or held. -/
def State.Balanced (s : State) (total : RequestSlots) : Prop :=
  Ingress.Balanced Ticket.request Ticket.holds total s.slots s.tickets

/-- A request that is accepted. -/
def accepted (message : ClientMessage) : Ticket := ⟨message, true, [], spawned message, false⟩

/-- A request for which there is no permit. -/
def rejected (message : ClientMessage) : Ticket := ⟨message, false, [], refused message, false⟩

variable {policy : CorrelationPolicy} {pendingLimit maximumCalls : ℕ} {s s' : State} {e : Label}
  {total : RequestSlots}

/-- The task of a request starts with a wait. -/
theorem holds_accepted (message : ClientMessage) : (accepted message).holds = true := by
  obtain ⟨request, route⟩ := message
  cases request with
  | release id => cases route <;> rfl
  | _ => rfl

/-- A request is accepted if there is a permit, and else refused. -/
theorem State.tickets_spawnRequest (s : State) (message : ClientMessage) :
    (s.spawnRequest message).tickets = s.tickets ++
      [if s.slots.acquire message.request = none then rejected message else accepted message] := by
  unfold spawnRequest
  cases s.slots.acquire message.request <;> rfl

namespace State.Balanced

/-- A request comes. -/
theorem spawnRequest (h : s.Balanced total) (message : ClientMessage) :
    (s.spawnRequest message).Balanced total := by
  unfold State.spawnRequest
  cases hslots : s.slots.acquire message.request with
  | some slots =>
    have hacquire : s.slots.acquire (accepted message).request = some slots := hslots
    exact Ingress.Balanced.acquire h hacquire (holds_accepted message)
  | none => exact Ingress.Balanced.refuse h rfl

/-- A task that ran has ended, or was aborted: its permit, if it has one, is dropped. -/
theorem drop (h : s.Balanced total) {k : ℕ} {t t' : Ticket} (ht : s.tickets[k]? = some t)
    (hrequest : t'.request = t.request) (hrunning : t.holds = t.permit)
    (hended : t'.holds = false) :
    Ingress.Balanced Ticket.request Ticket.holds total (s.drop t) (s.tickets.set k t') := by
  unfold State.drop
  cases hpermit : t.permit with
  | true => exact Ingress.Balanced.release h ht (hrunning.trans hpermit) hended
  | false => exact h.keep ht hrequest (hended.trans (hrunning.trans hpermit).symm)

/-- The task of a request goes on. -/
theorem advance (h : s.Balanced total) {k : ℕ} {t : Ticket} {e : Event Op Op.Answer}
    {task : Future Unit} (ht : s.tickets[k]? = some t) (halive : t.aborted = false)
    (hresume : t.task.resume e = some task) (w : Writer) :
    (s.advance k t e task w).Balanced total := by
  have hrunning : t.holds = t.permit := by
    rw [Ticket.holds, halive, current_of_resume hresume]
    simp
  have hholds : Ticket.holds { t with past := t.past ++ [e], task := task } =
      (t.permit && task.current.isSome) := by
    rw [Ticket.holds, halive]
    simp
  unfold State.advance
  cases hcurrent : task.current with
  | some op =>
    rw [hcurrent, Option.isSome_some, Bool.and_true] at hholds
    exact Ingress.Balanced.keep h ht rfl (hholds.trans hrunning.symm)
  | none =>
    rw [hcurrent, Option.isSome_none, Bool.and_false] at hholds
    exact h.drop ht rfl hrunning hholds

/-- Every step keeps the permits. -/
theorem step (h : s.Balanced total)
    (hstep : (machine policy pendingLimit maximumCalls).step s e = some s') :
    s'.Balanced total := by
  cases e with
  | accept message =>
    obtain ⟨-, rfl⟩ := Machine.guarded_eq_some.1 hstep
    exact h.spawnRequest message
  | wake k e =>
    obtain ⟨t, ht, hstep⟩ := Option.bind_eq_some_iff.1 hstep
    obtain ⟨halive, hstep⟩ := Option.ite_none_left_eq_some.1 hstep
    obtain ⟨task, hresume, hstep⟩ := Option.bind_eq_some_iff.1 hstep
    obtain ⟨w, -, rfl⟩ := Option.map_eq_some_iff.1 hstep
    exact h.advance ht (Bool.eq_false_iff.2 halive) hresume w
  | abort k =>
    obtain ⟨t, ht, hstep⟩ := Option.bind_eq_some_iff.1 hstep
    obtain ⟨⟨halive, hcurrent⟩, rfl⟩ := Machine.guarded_eq_some.1 hstep
    have hrunning : t.holds = t.permit := by
      rw [Ticket.holds, halive, Option.isSome_iff_ne_none.2 hcurrent]
      simp
    have hended : Ticket.holds { t with aborted := true } = false := by simp [Ticket.holds]
    exact h.drop ht rfl hrunning hended
  | writer e =>
    obtain ⟨w, -, rfl⟩ := Option.map_eq_some_iff.1 hstep
    exact h

end State.Balanced

/-- The permits and the admission of a bridge. -/
theorem capacity (h : (machine policy pendingLimit maximumCalls).Reachable s) :
    (∀ ordinary, s.slots.free ordinary + s.running ordinary =
      (RequestSlots.new (max maximumCalls 1)).free ordinary) ∧
    ∀ message s', (machine policy pendingLimit maximumCalls).step s (.accept message) = some s' →
      (s'.tickets = s.tickets ++ [accepted message] ↔ s.running message.request.ordinary <
        (RequestSlots.new (max maximumCalls 1)).free message.request.ordinary) ∧
      (s'.tickets = s.tickets ++ [rejected message] ↔ s.running message.request.ordinary =
        (RequestSlots.new (max maximumCalls 1)).free message.request.ordinary) := by
  have hbalanced : s.Balanced (.new (max maximumCalls 1)) :=
    Machine.invariant_of_reachable (P := fun s => s.Balanced (.new (max maximumCalls 1)))
      Ingress.Balanced.start (fun _ _ _ hs hstep => hs.step hstep) h
  refine ⟨hbalanced, fun message s' hstep => ?_⟩
  obtain ⟨-, rfl⟩ := Machine.guarded_eq_some.1 hstep
  have hdifferent : accepted message ≠ rejected message := fun hsame =>
    Bool.noConfusion (congrArg Ticket.permit hsame)
  exact Ingress.Balanced.admission hbalanced hdifferent (s.tickets_spawnRequest message)

end Bridge

/-! ## The socket -/

namespace Socket

/-- The request of a ticket. -/
def Ticket.request (t : Ticket) : ClientRequest := t.message.request

/-- The work on a request runs. It has the permit, not the task that waits for it. -/
def Ticket.holds (t : Ticket) : Bool := (t.work.bind Resumption.current).isSome

/-- How many requests of a kind are worked on. -/
def State.running (s : State) (ordinary : Bool) : ℕ :=
  s.tickets.countP (holdsOf Ticket.request Ticket.holds ordinary)

/-- The permits of a connection are free or held. -/
def State.Balanced (s : State) (total : RequestSlots) : Prop :=
  Ingress.Balanced Ticket.request Ticket.holds total s.slots s.tickets

/-- A request that is accepted. -/
def accepted (message : ClientMessage) : Ticket :=
  ⟨message, [], waiter message, false, [], some (work message)⟩

/-- A request for which there is no permit. -/
def rejected (message : ClientMessage) : Ticket := ⟨message, [], refused message, false, [], none⟩

variable {policy : CorrelationPolicy} {pendingLimit maximumCalls : ℕ} {s s' : State} {e : Label}
  {total : RequestSlots}

/-- A request is accepted if there is a permit, and else refused. -/
theorem State.tickets_spawnRequest (s : State) (message : ClientMessage) :
    (s.spawnRequest message).tickets = s.tickets ++
      [if s.slots.acquire message.request = none then rejected message else accepted message] := by
  unfold spawnRequest
  cases s.slots.acquire message.request <;> rfl

namespace State.Balanced

/-- A request comes. -/
theorem spawnRequest (h : s.Balanced total) (message : ClientMessage) :
    (s.spawnRequest message).Balanced total := by
  unfold State.spawnRequest
  cases hslots : s.slots.acquire message.request with
  | some slots =>
    have hacquire : s.slots.acquire (accepted message).request = some slots := hslots
    exact Ingress.Balanced.acquire h hacquire rfl
  | none => exact Ingress.Balanced.refuse h rfl

/-- The work on a request goes on. -/
theorem advanceWork (h : s.Balanced total) {k : ℕ} {t : Ticket} {e : Event WorkOp WorkOp.Answer}
    {work work' : Work WorkResult} (ht : s.tickets[k]? = some t) (hwork : t.work = some work)
    (hresume : work.resume e = some work') (w : Writer) :
    (s.advanceWork k t e work' w).Balanced total := by
  have hrunning : t.holds = true := by
    rw [Ticket.holds, hwork, Option.bind_some, current_of_resume hresume]
    rfl
  have hholds : Ticket.holds { t with past := t.past ++ [e], work := some work' } =
      work'.current.isSome := rfl
  unfold State.advanceWork
  cases hcurrent : work'.current with
  | some op =>
    rw [hcurrent, Option.isSome_some] at hholds
    exact Ingress.Balanced.keep h ht rfl (hholds.trans hrunning.symm)
  | none =>
    rw [hcurrent, Option.isSome_none] at hholds
    exact Ingress.Balanced.release h ht hrunning hholds

/-- Every step keeps the permits. -/
theorem step (h : s.Balanced total)
    (hstep : (machine policy pendingLimit maximumCalls).step s e = some s') :
    s'.Balanced total := by
  cases e with
  | accept message =>
    obtain ⟨-, rfl⟩ := Machine.guarded_eq_some.1 hstep
    exact h.spawnRequest message
  | work k e =>
    obtain ⟨t, ht, hstep⟩ := Option.bind_eq_some_iff.1 hstep
    obtain ⟨work, hwork, hstep⟩ := Option.bind_eq_some_iff.1 hstep
    obtain ⟨work', hresume, hstep⟩ := Option.bind_eq_some_iff.1 hstep
    obtain ⟨w, -, rfl⟩ := Option.map_eq_some_iff.1 hstep
    exact h.advanceWork ht hwork hresume w
  | waiter k e =>
    obtain ⟨t, ht, hstep⟩ := Option.bind_eq_some_iff.1 hstep
    obtain ⟨-, hstep⟩ := Option.ite_none_left_eq_some.1 hstep
    obtain ⟨waiter, -, hstep⟩ := Option.bind_eq_some_iff.1 hstep
    obtain ⟨w, -, rfl⟩ := Option.map_eq_some_iff.1 hstep
    -- A deadline that expires leaves the permit with the work.
    exact Ingress.Balanced.keep h ht rfl rfl
  | abort k =>
    obtain ⟨t, ht, hstep⟩ := Option.bind_eq_some_iff.1 hstep
    obtain ⟨-, rfl⟩ := Machine.guarded_eq_some.1 hstep
    exact Ingress.Balanced.keep h ht rfl rfl
  | close =>
    obtain rfl := Option.some.inj hstep
    exact h
  | writer e =>
    obtain ⟨w, -, rfl⟩ := Option.map_eq_some_iff.1 hstep
    exact h

end State.Balanced

/-- The permits and the admission of a connection. -/
theorem capacity (h : (machine policy pendingLimit maximumCalls).Reachable s) :
    (∀ ordinary, s.slots.free ordinary + s.running ordinary =
      (RequestSlots.new maximumCalls).free ordinary) ∧
    ∀ message s', (machine policy pendingLimit maximumCalls).step s (.accept message) = some s' →
      (s'.tickets = s.tickets ++ [accepted message] ↔ s.running message.request.ordinary <
        (RequestSlots.new maximumCalls).free message.request.ordinary) ∧
      (s'.tickets = s.tickets ++ [rejected message] ↔ s.running message.request.ordinary =
        (RequestSlots.new maximumCalls).free message.request.ordinary) := by
  have hbalanced : s.Balanced (.new maximumCalls) :=
    Machine.invariant_of_reachable (P := fun s => s.Balanced (.new maximumCalls))
      Ingress.Balanced.start (fun _ _ _ hs hstep => hs.step hstep) h
  refine ⟨hbalanced, fun message s' hstep => ?_⟩
  obtain ⟨-, rfl⟩ := Machine.guarded_eq_some.1 hstep
  have hdifferent : accepted message ≠ rejected message := fun hsame =>
    Option.some_ne_none (work message) (congrArg Ticket.work hsame)
  exact Ingress.Balanced.admission hbalanced hdifferent (s.tickets_spawnRequest message)

end Socket

/-- Along every run of either path, the free permits of each kind and the requests of the kind that
run are together its capacity; over a socket a request runs as long as the work on it does, whatever
was replied to it. So a request that comes is accepted exactly if fewer of its kind run than there
are permits, and refused exactly if all permits are held. -/
theorem requests_within_capacity (policy : CorrelationPolicy) (pendingLimit maximumCalls : ℕ) :
    (∀ s, (Bridge.machine policy pendingLimit maximumCalls).Reachable s →
      (∀ ordinary, s.slots.free ordinary + s.running ordinary =
        (RequestSlots.new (max maximumCalls 1)).free ordinary) ∧
      ∀ message s', (Bridge.machine policy pendingLimit maximumCalls).step s (.accept message) =
          some s' →
        (s'.tickets = s.tickets ++ [Bridge.accepted message] ↔
          s.running message.request.ordinary <
            (RequestSlots.new (max maximumCalls 1)).free message.request.ordinary) ∧
        (s'.tickets = s.tickets ++ [Bridge.rejected message] ↔
          s.running message.request.ordinary =
            (RequestSlots.new (max maximumCalls 1)).free message.request.ordinary)) ∧
    ∀ s, (Socket.machine policy pendingLimit maximumCalls).Reachable s →
      (∀ ordinary, s.slots.free ordinary + s.running ordinary =
        (RequestSlots.new maximumCalls).free ordinary) ∧
      ∀ message s', (Socket.machine policy pendingLimit maximumCalls).step s (.accept message) =
          some s' →
        (s'.tickets = s.tickets ++ [Socket.accepted message] ↔
          s.running message.request.ordinary <
            (RequestSlots.new maximumCalls).free message.request.ordinary) ∧
        (s'.tickets = s.tickets ++ [Socket.rejected message] ↔
          s.running message.request.ordinary =
            (RequestSlots.new maximumCalls).free message.request.ordinary) :=
  ⟨fun _ h => Bridge.capacity h, fun _ h => Socket.capacity h⟩

/-- A call over a socket whose reply was given up, while the work on it goes on. -/
def abandonedCall : List Socket.Label :=
  [.accept ⟨.call "1" "slow" .null, none⟩,
    .waiter 0 ⟨.join, .expired 0⟩,
    .waiter 0 ⟨.send (Socket.unknownCommand ⟨.call "1" "slow" .null, none⟩), .answered (.ok ())⟩,
    .writer .process]

/-- With one permit, a call is refused while the work on another one goes on, though that has its
reply; and over a bridge that was to have no permit, the one there is. -/
theorem requests_within_capacity_full :
    (∃ s s', (Socket.machine basicCorrelation 1 1).run (Socket.machine basicCorrelation 1 1).init
        abandonedCall = some s ∧
      (Socket.machine basicCorrelation 1 1).step s (.accept ⟨.call "2" "slow" .null, none⟩) =
        some s' ∧
      s'.tickets = s.tickets ++ [Socket.rejected ⟨.call "2" "slow" .null, none⟩]) ∧
    ∃ s, (Bridge.machine basicCorrelation 1 0).step (Bridge.machine basicCorrelation 1 0).init
        (.accept ⟨.call "1" "slow" .null, none⟩) = some s ∧
      s.tickets = [Bridge.accepted ⟨.call "1" "slow" .null, none⟩] := by
  have hsocket : ∃ s s', (Socket.machine basicCorrelation 1 1).run
      (Socket.machine basicCorrelation 1 1).init abandonedCall = some s ∧
      (Socket.machine basicCorrelation 1 1).step s (.accept ⟨.call "2" "slow" .null, none⟩) =
        some s' ∧ s.running true = 1 :=
    ⟨_, _, rfl, rfl, rfl⟩
  have hbridge : ∃ s, (Bridge.machine basicCorrelation 1 0).step
      (Bridge.machine basicCorrelation 1 0).init (.accept ⟨.call "1" "slow" .null, none⟩) =
        some s :=
    ⟨_, rfl⟩
  constructor
  · obtain ⟨s, s', hrun, hstep, hrunning⟩ := hsocket
    have hadmission := ((requests_within_capacity basicCorrelation 1 1).2 s ⟨_, hrun⟩).2 _ s' hstep
    exact ⟨s, s', hrun, hstep, hadmission.2.2 hrunning⟩
  · obtain ⟨s, hstep⟩ := hbridge
    have hadmission := ((requests_within_capacity basicCorrelation 1 0).1 _
      (Bridge.machine basicCorrelation 1 0).reachable_init).2 _ s hstep
    exact ⟨s, hstep, hadmission.1.2 (by decide)⟩

end DaemonFramework.Ingress
