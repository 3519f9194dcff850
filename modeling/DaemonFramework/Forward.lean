import DaemonFramework.Machine
import DaemonFramework.Roster
import Mathlib.Data.List.Induction
import Mathlib.Order.Nat

/-!
# Forwarding

`forward_watch` and `forward_broadcast` of `shelllist-daemon-tokio/src/forward.rs`: a task takes
what comes through a channel and calls `emit` with it, and waits for `emit` before it takes the
next. The senders go on in the meantime.

A watch channel has its last value only, and a receiver has a version that it has seen. A broadcast
channel has its last `capacity` values, and a receiver that has fallen further behind is told how
many it has missed.
-/

namespace DaemonFramework

variable {T : Type*}

/-! ## A watch channel -/

/-- `WatchPhase`. -/
inductive WatchPhase where
  | initial
  | changed
deriving DecidableEq

namespace ForwardWatch

/-- Where `forward_watch` is. -/
inductive Place where
  /-- It has not begun. -/
  | starting
  /-- It waits for `emit`. -/
  | emitting
  /-- It waits for `changed`. -/
  | waiting
  /-- `changed` has returned. -/
  | notified
  /-- All senders are gone, and it has returned. -/
  | ended
deriving DecidableEq

/-- The channel and the task. -/
structure State (T : Type*) where
  /-- The first value that the channel had. -/
  first : T
  /-- The values that were sent after it. -/
  sent : List T
  /-- All senders are gone. -/
  closed : Bool
  /-- The version that the receiver has seen. -/
  seen : ℕ
  /-- Where the task is. -/
  place : Place
  /-- What `emit` was called with. -/
  emitted : List (T × WatchPhase)
  /-- The versions of these values. -/
  versions : List ℕ

/-- All values that the channel has had, by their versions. -/
def State.values (s : State T) : List T := s.first :: s.sent

/-- The version of the value in the channel. -/
def State.version (s : State T) : ℕ := s.sent.length

/-- The value in the channel. -/
def State.current (s : State T) : T := s.sent.getLastD s.first

/-- What can happen. -/
inductive Label (T : Type*) where
  /-- A value is sent. -/
  | send (value : T)
  /-- The last sender is dropped. -/
  | close
  /-- The task takes the value that it begins with. -/
  | start
  /-- `emit` has finished. -/
  | emitted
  /-- `changed` returns `Ok`. -/
  | changed
  /-- The task takes the changed value. -/
  | take
  /-- `changed` returns an error. -/
  | finish

/-- `borrow_and_update`, and the call of `emit`. -/
def State.emit (s : State T) (phase : WatchPhase) : State T :=
  { s with
    seen := s.version
    place := .emitting
    emitted := s.emitted ++ [(s.current, phase)]
    versions := s.versions ++ [s.version] }

/-- `forward_watch`, over a channel with this value. -/
def machine (first : T) : Machine (State T) (Label T) where
  init := ⟨first, [], false, 0, .starting, [], []⟩
  step s
    | .send value => if s.closed then none else some { s with sent := s.sent ++ [value] }
    | .close => some { s with closed := true }
    | .start => if s.place = .starting then some (s.emit .initial) else none
    | .emitted => if s.place = .emitting then some { s with place := .waiting } else none
    | .changed =>
      if s.place = .waiting ∧ s.seen ≠ s.version then
        some { s with place := .notified, seen := s.version }
      else none
    | .take => if s.place = .notified then some (s.emit .changed) else none
    -- A value that has not been seen is given out before the closed channel is.
    | .finish =>
      if s.place = .waiting ∧ s.seen = s.version ∧ s.closed then some { s with place := .ended }
      else none

/-- The steps that are the task's own, not the senders'. -/
def Label.own : Label T → Bool
  | .send _ | .close => false
  | _ => true

/-- The steps that the task takes at most while nothing is sent. -/
def State.toCome (s : State T) : ℕ :=
  match s.place with
  | .starting => 3
  | .emitting => if s.seen = s.version then 2 else 5
  | .waiting => if s.seen = s.version then 1 else 4
  | .notified => 3
  | .ended => 0

/-- They are at most five. -/
theorem State.toCome_le (s : State T) : s.toCome ≤ 5 := by
  unfold State.toCome
  grind

/-- The phase of the call `k` of `emit`. -/
def phaseOf (k : ℕ) : WatchPhase := if k = 0 then .initial else .changed

/-- How the calls of `emit` fit to the values of the channel. -/
structure Forwards (s : State T) : Prop where
  /-- There is a version for each call. -/
  length : s.emitted.length = s.versions.length
  /-- A call has the value of its version, and only the first is the initial one. -/
  calls : ∀ k v, s.versions[k]? = some v → s.emitted[k]? = some (s.values.getD v s.first, phaseOf k)
  /-- The versions go up. -/
  increasing : s.versions.Pairwise (· < ·)
  /-- They are versions that the channel has had. -/
  bounded : ∀ v ∈ s.versions, v ≤ s.version
  /-- The task has called `emit` once it has begun. -/
  begun : s.versions = [] ↔ s.place = .starting
  /-- While it waits for a change, the version that it has seen was its last. -/
  last : s.place ≠ .starting → s.place ≠ .notified → s.versions.getLast? = some s.seen
  /-- A change that it was notified of is newer than its last call. -/
  notified : s.place = .notified → ∀ v ∈ s.versions, v < s.version
  /-- A closed channel has been seen to its end. -/
  ended : s.place = .ended → s.closed = true ∧ s.seen = s.version

namespace Forwards

variable {s t : State T} {first : T}

/-- The value in the channel is the one of its version. -/
theorem current_eq (s : State T) : s.values.getD s.version s.first = s.current := by
  unfold State.values State.version State.current
  cases hsent : s.sent using List.reverseRecOn with
  | nil => rfl
  | append_singleton before value => simp

/-- The last of the versions is the highest. -/
theorem le_of_getLast? {versions : List ℕ} {last v : ℕ} (hup : versions.Pairwise (· < ·))
    (hlast : versions.getLast? = some last) (hv : v ∈ versions) : v ≤ last := by
  obtain ⟨before, rfl⟩ := List.getLast?_eq_some_iff.1 hlast
  rcases List.mem_append.1 hv with hold | hsame
  · exact ((List.pairwise_append.1 hup).2.2 v hold last (List.mem_singleton_self last)).le
  · exact (List.mem_singleton.1 hsame).le

/-- The channel before anything has happened. -/
theorem init : Forwards (machine first).init where
  length := rfl
  calls := by simp [machine]
  increasing := List.Pairwise.nil
  bounded := by simp [machine]
  begun := by simp [machine]
  last := by simp [machine]
  notified := by simp [machine]
  ended := by simp [machine]

/-- One more value in the channel. -/
theorem send (h : Forwards s) (hopen : s.closed = false) (value : T) :
    Forwards { s with sent := s.sent ++ [value] } where
  length := h.length
  calls := by
    intro k v hv
    have hbound := h.bounded v (List.mem_of_getElem? hv)
    have hlt : v < s.values.length := Nat.lt_succ_of_le hbound
    -- The values that were there before keep their versions.
    have hsame : (s.values ++ [value]).getD v s.first = s.values.getD v s.first := by
      rw [List.getD_eq_getElem?_getD, List.getD_eq_getElem?_getD, List.getElem?_append_left hlt]
    show s.emitted[k]? = some ((s.values ++ [value]).getD v s.first, phaseOf k)
    rw [hsame]
    exact h.calls k v hv
  increasing := h.increasing
  bounded := by
    intro v hv
    have hbound : v ≤ s.sent.length := h.bounded v hv
    show v ≤ (s.sent ++ [value]).length
    rw [List.length_append]
    omega
  begun := h.begun
  last := h.last
  notified := by
    intro hplace v hv
    have hbound : v < s.sent.length := h.notified hplace v hv
    show v < (s.sent ++ [value]).length
    rw [List.length_append]
    omega
  ended := by
    intro hplace
    have hclosed := (h.ended hplace).1
    rw [hopen] at hclosed
    contradiction

/-- A call of `emit` with a version that is newer than the ones before. -/
theorem emit (h : Forwards s) {phase : WatchPhase} (hphase : phase = phaseOf s.versions.length)
    (hnew : ∀ v ∈ s.versions, v < s.version) : Forwards (s.emit phase) where
  length := by simp [State.emit, h.length]
  calls := by
    intro k v hv
    change (s.versions ++ [s.version])[k]? = some v at hv
    show (s.emitted ++ [(s.current, phase)])[k]? = some (s.values.getD v s.first, phaseOf k)
    rcases lt_trichotomy k s.versions.length with hlt | rfl | hgt
    · rw [List.getElem?_append_left hlt] at hv
      rw [List.getElem?_append_left (h.length ▸ hlt)]
      exact h.calls k v hv
    · rw [List.getElem?_concat_length, Option.some.injEq] at hv
      rw [← h.length, List.getElem?_concat_length, h.length, ← hv, current_eq, hphase]
    · rw [List.getElem?_eq_none (by rw [List.length_append]; exact hgt)] at hv
      contradiction
  increasing := by
    show (s.versions ++ [s.version]).Pairwise (· < ·)
    rw [List.pairwise_append]
    refine ⟨h.increasing, List.pairwise_singleton _ _, fun v hv w hw => ?_⟩
    obtain rfl := List.mem_singleton.1 hw
    exact hnew v hv
  bounded := by
    intro v hv
    rcases List.mem_append.1 hv with hold | hlast
    · exact h.bounded v hold
    · exact (List.mem_singleton.1 hlast).le
  begun := by simp [State.emit]
  last := by simp [State.emit]
  notified := nofun
  ended := nofun

/-- Every step keeps the calls fitting. -/
theorem step (h : Forwards s) {e : Label T} (hstep : (machine first).step s e = some t) :
    Forwards t := by
  cases e with
  | send value =>
    obtain ⟨hopen, rfl⟩ := Machine.refused_eq_some.1 hstep
    exact h.send (Bool.not_eq_true _ ▸ hopen) value
  | close =>
    obtain rfl := Option.some.inj hstep
    exact { h with ended := fun hplace => ⟨rfl, (h.ended hplace).2⟩ }
  -- The first call is made with the current value, before any change was seen.
  | start =>
    obtain ⟨hplace, rfl⟩ := Machine.guarded_eq_some.1 hstep
    have hnone : s.versions = [] := h.begun.2 hplace
    refine h.emit (by rw [hnone]; rfl) fun v hv => ?_
    rw [hnone] at hv
    contradiction
  -- A call that has ended leaves the last version as the one seen.
  | emitted =>
    obtain ⟨hplace, rfl⟩ := Machine.guarded_eq_some.1 hstep
    have hlast : s.versions.getLast? = some s.seen := h.last (by simp [hplace]) (by simp [hplace])
    exact { h with
      begun := by
        rw [h.begun, hplace]
        simp
      last := fun _ _ => hlast
      notified := nofun
      ended := nofun }
  -- What is notified is newer than all versions so far.
  | changed =>
    obtain ⟨⟨hplace, hdiffer⟩, rfl⟩ := Machine.guarded_eq_some.1 hstep
    have hlast : s.versions.getLast? = some s.seen := h.last (by simp [hplace]) (by simp [hplace])
    have hseen : s.seen < s.version :=
      lt_of_le_of_ne (h.bounded _ (List.mem_of_getLast? hlast)) hdiffer
    exact { h with
      begun := by
        rw [h.begun, hplace]
        simp
      last := fun _ hother => absurd rfl hother
      notified := fun _ v hv => (le_of_getLast? h.increasing hlast hv).trans_lt hseen
      ended := nofun }
  | take =>
    obtain ⟨hplace, rfl⟩ := Machine.guarded_eq_some.1 hstep
    have hbegun : s.versions ≠ [] := fun hnone => by
      have := h.begun.1 hnone
      rw [hplace] at this
      contradiction
    refine h.emit ?_ (h.notified hplace)
    rw [phaseOf, if_neg (List.length_pos_iff.2 hbegun).ne']
  -- The loop ends only when the sender is gone and nothing newer is there.
  | finish =>
    obtain ⟨⟨hplace, hseen, hclosed⟩, rfl⟩ := Machine.guarded_eq_some.1 hstep
    have hlast : s.versions.getLast? = some s.seen := h.last (by simp [hplace]) (by simp [hplace])
    exact { h with
      begun := by
        rw [h.begun, hplace]
        simp
      last := fun _ _ => hlast
      notified := nofun
      ended := fun _ => ⟨hclosed, hseen⟩ }

/-- The calls fit in every run. -/
theorem of_reachable (h : (machine first).Reachable s) : Forwards s :=
  Machine.invariant_of_reachable init (fun _ _ _ hs hstep => hs.step hstep) h

/-- The last call had the last version. -/
theorem getLast?_emitted (h : Forwards s) {v : ℕ} (hlast : s.versions.getLast? = some v) :
    ∃ phase, s.emitted.getLast? = some (s.values.getD v s.first, phase) := by
  rw [List.getLast?_eq_getElem?] at hlast ⊢
  rw [h.length]
  exact ⟨_, h.calls _ v hlast⟩

/-- A task that has no step left has called `emit` with the value in the channel, and has returned
where the channel is closed. -/
theorem of_stuck (h : Forwards s)
    (hstuck : ∀ e : Label T, e.own → (machine first).step s e = none) :
    (∃ phase, s.emitted.getLast? = some (s.current, phase)) ∧
      (s.closed = true → s.place = .ended) := by
  -- Only a task that waits, with nothing new to see, has no step of its own, or one that has
  -- ended.
  have hseen : (s.place = .waiting ∨ s.place = .ended) ∧ s.seen = s.version ∧
      (s.closed = true → s.place = .ended) := by
    cases hplace : s.place with
    | starting =>
      have hstep := hstuck .start rfl
      rw [show (machine first).step s .start = some (s.emit .initial) from if_pos hplace] at hstep
      contradiction
    | emitting =>
      have hstep := hstuck .emitted rfl
      rw [show (machine first).step s .emitted = some { s with place := .waiting } from
        if_pos hplace] at hstep
      contradiction
    | waiting =>
      have hchanged := hstuck .changed rfl
      have hfinish := hstuck .finish rfl
      simp only [machine, hplace, ite_eq_right_iff, reduceCtorEq, imp_false, true_and] at hchanged
      simp only [machine, hplace, ite_eq_right_iff, reduceCtorEq, imp_false, true_and] at hfinish
      have hsame : s.seen = s.version := of_not_not hchanged
      exact ⟨.inl rfl, hsame, fun hclosed => absurd ⟨hsame, hclosed⟩ hfinish⟩
    | notified =>
      have hstep := hstuck .take rfl
      rw [show (machine first).step s .take = some (s.emit .changed) from if_pos hplace] at hstep
      contradiction
    | ended => exact ⟨.inr rfl, (h.ended hplace).2, fun _ => rfl⟩
  obtain ⟨hplace, hsame, hended⟩ := hseen
  -- So the last version it has called `emit` with is the current one.
  have hlast : s.versions.getLast? = some s.version := by
    rw [← hsame]
    rcases hplace with hplace | hplace <;> exact h.last (by simp [hplace]) (by simp [hplace])
  obtain ⟨phase, hcall⟩ := h.getLast?_emitted hlast
  rw [current_eq] at hcall
  exact ⟨⟨phase, hcall⟩, hended⟩

/-- A step of the task leaves the channel as it is, and lowers the number of steps to come. -/
theorem own_step {e : Label T} (hown : e.own)
    (hstep : (machine first).step s e = some t) :
    t.values = s.values ∧ t.closed = s.closed ∧ t.toCome < s.toCome := by
  cases e with
  | send | close => contradiction
  | start | emitted | take =>
    obtain ⟨hplace, rfl⟩ := Machine.guarded_eq_some.1 hstep
    refine ⟨rfl, rfl, ?_⟩
    simp only [State.toCome, State.emit, State.version, hplace]
    grind
  | changed | finish =>
    obtain ⟨⟨hplace, hseen⟩, rfl⟩ := Machine.guarded_eq_some.1 hstep
    refine ⟨rfl, rfl, ?_⟩
    simp only [State.toCome, State.version, hplace] at hseen ⊢
    grind

end Forwards

/-- In every run of senders and `forward_watch`, the calls of `emit` have values that the channel
has had, in the order in which it had them, each at most once. The first call is the initial one,
and no other. Once nothing is sent any more, the task takes at most five steps, and where it has
none left, the last call had the value in the channel, and the task has returned if the channel is
closed. -/
theorem forward_watch_delivers (first : T) {s : State T} (h : (machine first).Reachable s) :
    (s.versions.Pairwise (· < ·) ∧ s.emitted.length = s.versions.length ∧
      ∀ k v, s.versions[k]? = some v →
        ∃ value, s.values[v]? = some value ∧ s.emitted[k]? = some (value, phaseOf k)) ∧
    ∀ labels t, (∀ e ∈ labels, e.own) → (machine first).run s labels = some t →
      labels.length ≤ 5 ∧ t.values = s.values ∧
        ((∀ e : Label T, e.own → (machine first).step t e = none) →
          (∃ phase, t.emitted.getLast? = some (s.current, phase)) ∧
            (s.closed = true → t.place = .ended)) := by
  have hforwards := Forwards.of_reachable h
  refine ⟨⟨hforwards.increasing, hforwards.length, fun k v hv => ?_⟩, fun labels t hown hrun => ?_⟩
  · have hlt : v < s.values.length :=
      Nat.lt_succ_of_le (hforwards.bounded v (List.mem_of_getElem? hv))
    have hcall := hforwards.calls k v hv
    rw [List.getD_eq_getElem?_getD, List.getElem?_eq_getElem hlt] at hcall
    exact ⟨_, List.getElem?_eq_getElem hlt, hcall⟩
  -- Its own steps change neither the channel nor what was sent.
  · have hkept : Forwards t ∧ t.values = s.values ∧ t.closed = s.closed :=
      Machine.invariant_of_stepsMeet (P := fun u => Forwards u ∧ u.values = s.values ∧
          u.closed = s.closed) (C := fun _ e => e.own = true)
        (fun u e u' ⟨hu, hvalues, hclosed⟩ he hstep => by
          obtain ⟨hvalues', hclosed', -⟩ := Forwards.own_step he hstep
          exact ⟨hu.step hstep, hvalues'.trans hvalues, hclosed'.trans hclosed⟩)
        ⟨hforwards, rfl, rfl⟩ (Machine.stepsMeet_of_forall (fun e he _ => hown e he) s) hrun
    obtain ⟨ht, hvalues, hclosed⟩ := hkept
    have hcurrent : t.current = s.current := by
      rw [State.current, State.current, (List.cons.inj hvalues).1, (List.cons.inj hvalues).2]
    -- Each of them brings it closer to its end.
    have hlength : labels.length ≤ s.toCome :=
      Machine.length_le_of_run (P := Forwards) (C := fun e => e.own = true)
        (fun u e u' hu he hstep => ⟨hu.step hstep, (Forwards.own_step he hstep).2.2⟩)
        hforwards hown hrun
    refine ⟨hlength.trans s.toCome_le, hvalues, fun hstuck => ?_⟩
    rw [← hcurrent, ← hclosed]
    exact ht.of_stuck hstuck

/-- Two values sent while the first call of `emit` goes on are one change. -/
theorem forward_watch_delivers_two : ∃ s : State ℕ,
    s.emitted = [(0, .initial), (2, .changed)] ∧ s.versions.Pairwise (· < ·) := by
  obtain ⟨s, hrun⟩ : ∃ s, (machine 0).run (machine 0).init
      [.start, .send 1, .send 2, .emitted, .changed, .take] = some s := ⟨_, rfl⟩
  refine ⟨s, ?_, (forward_watch_delivers 0 ⟨_, hrun⟩).1.1⟩
  obtain rfl := Option.some.inj hrun
  rfl

end ForwardWatch

/-! ## A broadcast channel -/

/-- `BroadcastEvent`. -/
inductive BroadcastEvent (T : Type*) where
  | item (value : T)
  | lagged (count : ℕ)
deriving DecidableEq

/-- Events that stand for these values: an item for one, a lag for as many as it counts. -/
inductive Accounts : List (BroadcastEvent T) → List T → Prop
  | nil : Accounts [] []
  | item {events : List (BroadcastEvent T)} {values : List T} (h : Accounts events values)
      (value : T) : Accounts (events ++ [.item value]) (values ++ [value])
  | lagged {events : List (BroadcastEvent T)} {values missed : List T} (h : Accounts events values)
      (hmissed : missed ≠ []) : Accounts (events ++ [.lagged missed.length]) (values ++ missed)

/-- Events without a lag are the values. -/
theorem Accounts.eq_map_item {events : List (BroadcastEvent T)} {values : List T}
    (h : Accounts events values) (hnone : ∀ count, BroadcastEvent.lagged count ∉ events) :
    events = values.map .item := by
  induction h with
  | nil => rfl
  | item _ value ih =>
    have hevents := ih fun count hmem => hnone count (List.mem_append_left _ hmem)
    rw [hevents, List.map_append]
    rfl
  | lagged => exact absurd (List.mem_append_right _ (List.mem_singleton_self _)) (hnone _)

namespace ForwardBroadcast

/-- Where `forward_broadcast` is. -/
inductive Place where
  /-- It waits for `recv`. -/
  | receiving
  /-- It waits for `emit`. -/
  | emitting
  /-- The source is closed, and it has returned. -/
  | ended
deriving DecidableEq

/-- The channel and the task. -/
structure State (T : Type*) where
  /-- The values that were sent since the receiver has been there. -/
  sent : List T
  /-- All senders are gone. -/
  closed : Bool
  /-- The number of values that the receiver is past. -/
  next : ℕ
  /-- Where the task is. -/
  place : Place
  /-- What `emit` was called with. -/
  emitted : List (BroadcastEvent T)

/-- What can happen. -/
inductive Label (T : Type*) where
  /-- A value is sent. -/
  | send (value : T)
  /-- The last sender is dropped. -/
  | close
  /-- `recv` returns a value or a lag. -/
  | recv
  /-- `emit` has finished. -/
  | emitted
  /-- `recv` returns `Closed`. -/
  | finish

/-- What `recv` returns, and the position after it, where the channel has its last `capacity`
values. -/
def recv (capacity : ℕ) (s : State T) : Option (BroadcastEvent T × ℕ) :=
  if s.next + capacity < s.sent.length then
    -- The value has been overwritten: go on at the oldest one that is there.
    some (.lagged (s.sent.length - capacity - s.next), s.sent.length - capacity)
  else s.sent[s.next]?.map fun value => (.item value, s.next + 1)

/-- `forward_broadcast`, over a channel with this capacity. -/
def machine (T : Type*) (capacity : ℕ) : Machine (State T) (Label T) where
  init := ⟨[], false, 0, .receiving, []⟩
  step s
    | .send value => if s.closed then none else some { s with sent := s.sent ++ [value] }
    | .close => some { s with closed := true }
    | .recv =>
      if s.place = .receiving then
        (recv capacity s).map fun (event, next) =>
          { s with next, place := .emitting, emitted := s.emitted ++ [event] }
      else none
    | .emitted => if s.place = .emitting then some { s with place := .receiving } else none
    | .finish =>
      if s.place = .receiving ∧ s.next = s.sent.length ∧ s.closed then
        some { s with place := .ended }
      else none

/-- The steps that are the task's own, not the senders'. -/
def Label.own : Label T → Bool
  | .send _ | .close => false
  | _ => true

/-- The steps that the task takes at most while nothing is sent. -/
def State.toCome (s : State T) : ℕ :=
  2 * (s.sent.length - s.next) + match s.place with
    | .receiving => 1
    | .emitting => 2
    | .ended => 0

/-- The events stand for the values that the receiver is past. -/
structure Accounted (capacity : ℕ) (s : State T) : Prop where
  /-- It is not past the values that were sent. -/
  bounded : s.next ≤ s.sent.length
  /-- The events stand for the values before its position. -/
  accounts : Accounts s.emitted (s.sent.take s.next)
  /-- It has missed only what did not fit into the channel. -/
  missed : ∀ count, BroadcastEvent.lagged count ∈ s.emitted →
    0 < count ∧ capacity + count ≤ s.sent.length
  /-- A task that has returned is past all values of a closed channel. -/
  ended : s.place = .ended → s.closed = true ∧ s.next = s.sent.length

variable {capacity : ℕ} {s t : State T}

/-- What `recv` returns is a lag or an item. -/
theorem recv_cases {event : BroadcastEvent T} {next : ℕ}
    (h : recv capacity s = some (event, next)) :
    (s.next + capacity < s.sent.length ∧
      event = .lagged (s.sent.length - capacity - s.next) ∧ next = s.sent.length - capacity) ∨
    (∃ value, s.sent[s.next]? = some value ∧ event = .item value ∧ next = s.next + 1) := by
  unfold recv at h
  by_cases hfar : s.next + capacity < s.sent.length
  · rw [if_pos hfar] at h
    obtain ⟨rfl, rfl⟩ := Prod.mk.inj (Option.some.inj h)
    exact .inl ⟨hfar, rfl, rfl⟩
  · rw [if_neg hfar] at h
    obtain ⟨value, hvalue, hpair⟩ := Option.map_eq_some_iff.1 h
    obtain ⟨rfl, rfl⟩ := Prod.mk.inj hpair
    exact .inr ⟨value, hvalue, rfl, rfl⟩

/-- A receiver that is not past all values gets something. -/
theorem recv_ne_none (h : s.next < s.sent.length) : recv capacity s ≠ none := by
  unfold recv
  split
  · simp
  · simp [List.getElem?_eq_getElem h]

namespace Accounted

/-- The channel before anything has happened. -/
theorem init : Accounted capacity (machine T capacity).init where
  bounded := le_rfl
  accounts := .nil
  missed := nofun
  ended := nofun

/-- One more value in the channel. -/
theorem send (h : Accounted capacity s) (hopen : s.closed = false) (value : T) :
    Accounted capacity { s with sent := s.sent ++ [value] } where
  bounded := h.bounded.trans (by simp)
  accounts := by
    show Accounts s.emitted ((s.sent ++ [value]).take s.next)
    rw [List.take_append_of_le_length h.bounded]
    exact h.accounts
  missed := by
    intro count hmem
    obtain ⟨hpos, hroom⟩ := h.missed count hmem
    exact ⟨hpos, hroom.trans (by simp)⟩
  ended := by
    intro hplace
    have hclosed := (h.ended hplace).1
    rw [hopen] at hclosed
    contradiction

/-- What `recv` returns stands for the values that it goes past. -/
theorem receive (h : Accounted capacity s) {event : BroadcastEvent T} {next : ℕ}
    (hrecv : recv capacity s = some (event, next)) :
    Accounted capacity { s with next, place := .emitting, emitted := s.emitted ++ [event] } := by
  rcases recv_cases hrecv with ⟨hfar, rfl, rfl⟩ | ⟨value, hvalue, rfl, rfl⟩
  · have hle : s.next ≤ s.sent.length - capacity := by omega
    -- The values between the old position and the new one.
    let missed := (s.sent.take (s.sent.length - capacity)).drop s.next
    have hcount : missed.length = s.sent.length - capacity - s.next := by
      rw [List.length_drop, List.length_take]
      omega
    have htake : s.sent.take (s.sent.length - capacity) = s.sent.take s.next ++ missed := by
      rw [← List.take_append_drop s.next (s.sent.take (s.sent.length - capacity)), List.take_take,
        Nat.min_eq_left hle]
    refine ⟨Nat.sub_le _ _, ?_, fun count hmem => ?_, nofun⟩
    · show Accounts (s.emitted ++ [.lagged (s.sent.length - capacity - s.next)])
        (s.sent.take (s.sent.length - capacity))
      rw [htake, ← hcount]
      exact h.accounts.lagged (List.ne_nil_of_length_pos (by omega))
    · rcases List.mem_append.1 hmem with hold | hnew
      · exact h.missed count hold
      · obtain rfl := BroadcastEvent.lagged.inj (List.mem_singleton.1 hnew)
        show 0 < s.sent.length - capacity - s.next ∧
          capacity + (s.sent.length - capacity - s.next) ≤ s.sent.length
        omega
  · have hlt := (List.getElem?_eq_some_iff.1 hvalue).1
    refine ⟨hlt, ?_, fun count hmem => ?_, nofun⟩
    · show Accounts (s.emitted ++ [.item value]) (s.sent.take (s.next + 1))
      rw [List.take_add_one, hvalue]
      exact h.accounts.item value
    · rcases List.mem_append.1 hmem with hold | hnew
      · exact h.missed count hold
      · exact absurd (List.mem_singleton.1 hnew) nofun

/-- Every step keeps the account. -/
theorem step (h : Accounted capacity s) {e : Label T}
    (hstep : (machine T capacity).step s e = some t) :
    Accounted capacity t := by
  cases e with
  | send value =>
    obtain ⟨hopen, rfl⟩ := Machine.refused_eq_some.1 hstep
    exact h.send (Bool.not_eq_true _ ▸ hopen) value
  | close =>
    obtain rfl := Option.some.inj hstep
    exact { h with ended := fun hplace => ⟨rfl, (h.ended hplace).2⟩ }
  | recv =>
    obtain ⟨-, hsome⟩ := Option.ite_none_right_eq_some.1 hstep
    obtain ⟨⟨event, next⟩, hrecv, rfl⟩ := Option.map_eq_some_iff.1 hsome
    exact h.receive hrecv
  | emitted =>
    obtain ⟨-, rfl⟩ := Machine.guarded_eq_some.1 hstep
    exact { h with ended := nofun }
  | finish =>
    obtain ⟨⟨-, hnext, hclosed⟩, rfl⟩ := Machine.guarded_eq_some.1 hstep
    exact { h with ended := fun _ => ⟨hclosed, hnext⟩ }

/-- The account is kept in every run. -/
theorem of_reachable (h : (machine T capacity).Reachable s) : Accounted capacity s :=
  Machine.invariant_of_reachable init (fun _ _ _ hs hstep => hs.step hstep) h

/-- A task that has no step left is past all values, and has returned where the channel is
closed. -/
theorem of_stuck (h : Accounted capacity s)
    (hstuck : ∀ e : Label T, e.own → (machine T capacity).step s e = none) :
    s.next = s.sent.length ∧ (s.closed = true → s.place = .ended) := by
  cases hplace : s.place with
  | receiving =>
    have hrecv := hstuck .recv rfl
    have hfinish := hstuck .finish rfl
    simp only [machine, hplace, if_true, Option.map_eq_none_iff] at hrecv
    simp only [machine, hplace, ite_eq_right_iff, reduceCtorEq, imp_false, true_and] at hfinish
    have hnext : s.next = s.sent.length := by
      by_contra hdiffer
      exact recv_ne_none (lt_of_le_of_ne h.bounded hdiffer) hrecv
    exact ⟨hnext, fun hclosed => absurd ⟨hnext, hclosed⟩ hfinish⟩
  | emitting =>
    have hstep := hstuck .emitted rfl
    rw [show (machine T capacity).step s .emitted = some { s with place := .receiving } from
      if_pos hplace] at hstep
    contradiction
  | ended => exact ⟨(h.ended hplace).2, fun _ => rfl⟩

end Accounted

/-- A step of the task leaves the channel as it is, and lowers the number of steps to come. -/
theorem own_step (h : Accounted capacity s) {e : Label T} (hown : e.own)
    (hstep : (machine T capacity).step s e = some t) :
    t.sent = s.sent ∧ t.closed = s.closed ∧ t.toCome < s.toCome := by
  cases e with
  | send | close => contradiction
  | recv =>
    obtain ⟨hplace, hsome⟩ := Option.ite_none_right_eq_some.1 hstep
    obtain ⟨⟨event, next⟩, hrecv, rfl⟩ := Option.map_eq_some_iff.1 hsome
    have hpast : s.next < next ∧ next ≤ s.sent.length := by
      have hbounded := (h.receive hrecv).bounded
      rcases recv_cases hrecv with ⟨hfar, -, rfl⟩ | ⟨value, -, -, rfl⟩
      · exact ⟨by omega, hbounded⟩
      · exact ⟨Nat.lt_succ_self _, hbounded⟩
    refine ⟨rfl, rfl, ?_⟩
    simp only [State.toCome, hplace]
    omega
  | emitted =>
    obtain ⟨hplace, rfl⟩ := Machine.guarded_eq_some.1 hstep
    exact ⟨rfl, rfl, by simp [State.toCome, hplace]⟩
  | finish =>
    obtain ⟨⟨hplace, -⟩, rfl⟩ := Machine.guarded_eq_some.1 hstep
    exact ⟨rfl, rfl, by simp [State.toCome, hplace]⟩

/-- In every run of senders and `forward_broadcast`, the events stand for the values that the
receiver is past, in order: none is given out twice, and none is skipped without a lag that counts
it. A lag only comes where more values were sent than the channel has room for, so where they fit,
the events are the values. Once nothing is sent any more, the task takes a bounded number of steps,
and where it has none left, its events stand for all values, and it has returned if the channel is
closed. -/
theorem forward_broadcast_accounts (capacity : ℕ) {s : State T}
    (h : (machine T capacity).Reachable s) :
    Accounts s.emitted (s.sent.take s.next) ∧
    (s.sent.length ≤ capacity → s.emitted = (s.sent.take s.next).map .item) ∧
    ∀ labels t, (∀ e ∈ labels, e.own) → (machine T capacity).run s labels = some t →
      labels.length ≤ 2 * (s.sent.length - s.next) + 2 ∧ t.sent = s.sent ∧
        ((∀ e : Label T, e.own → (machine T capacity).step t e = none) →
          Accounts t.emitted s.sent ∧ (s.closed = true → t.place = .ended)) := by
  have haccounted := Accounted.of_reachable h
  refine ⟨haccounted.accounts, fun hfits => ?_, fun labels t hown hrun => ?_⟩
  · refine haccounted.accounts.eq_map_item fun count hmem => ?_
    obtain ⟨hpos, hroom⟩ := haccounted.missed count hmem
    omega
  -- Its own steps change neither the channel nor what was sent.
  · have hkept : Accounted capacity t ∧ t.sent = s.sent ∧ t.closed = s.closed :=
      Machine.invariant_of_stepsMeet (P := fun u => Accounted capacity u ∧ u.sent = s.sent ∧
          u.closed = s.closed) (C := fun _ e => e.own = true)
        (fun u e u' ⟨hu, hsent, hclosed⟩ he hstep => by
          obtain ⟨hsent', hclosed', -⟩ := own_step hu he hstep
          exact ⟨hu.step hstep, hsent'.trans hsent, hclosed'.trans hclosed⟩)
        ⟨haccounted, rfl, rfl⟩ (Machine.stepsMeet_of_forall (fun e he _ => hown e he) s) hrun
    obtain ⟨ht, hsent, hclosed⟩ := hkept
    -- Each of them brings it closer to its end.
    have hlength : labels.length ≤ s.toCome :=
      Machine.length_le_of_run (P := Accounted capacity) (C := fun e => e.own = true)
        (fun u e u' hu he hstep => ⟨hu.step hstep, (own_step hu he hstep).2.2⟩) haccounted hown hrun
    refine ⟨hlength.trans ?_, hsent, fun hstuck => ?_⟩
    · unfold State.toCome
      cases s.place <;> simp
    · obtain ⟨hnext, hended⟩ := ht.of_stuck hstuck
      have haccounts := ht.accounts
      rw [hnext, List.take_length, hsent] at haccounts
      exact ⟨haccounts, hclosed ▸ hended⟩

/-- Three values for a receiver that is one too slow. -/
theorem forward_broadcast_accounts_lagged : ∃ s : State ℕ,
    s.emitted = [.lagged 1, .item 1] ∧ Accounts s.emitted (s.sent.take s.next) := by
  obtain ⟨s, hrun⟩ : ∃ s, (machine ℕ 2).run (machine ℕ 2).init
      [.send 0, .send 1, .send 2, .recv, .emitted, .recv] = some s := ⟨_, rfl⟩
  refine ⟨s, ?_, (forward_broadcast_accounts 2 ⟨_, hrun⟩).1⟩
  obtain rfl := Option.some.inj hrun
  rfl

end ForwardBroadcast

end DaemonFramework
