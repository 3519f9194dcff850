import DaemonFramework.Machine
import DaemonFramework.Roster
import Mathlib.Logic.Function.Basic

/-!
# The owner-loss monitor

`OwnerLossMonitor` of `shelllist-daemon-tokio/src/owner.rs`: the bus with its names, the monitor
task that turns `NameOwnerChanged` signals into broadcasts, and any number of `wait` calls, as one
machine. A call is named by its place in the order of the calls.

The bus gives a unique name out once and never again. From the moment a subscription holds, the
stream has every later change in order; the monitor task takes one signal at a time, and has it in
its hands until it has broadcast or skipped it. A receiver of the broadcast channel is a position in
the list of all that was sent, and lags when more than `lossCapacity` sent names lie beyond it.

A poll of the `select!` in `recv` looks at the stopped state first and then at the queue. Other
threads run in between, so the two looks are two steps, `checked` being the state between them. A
user of `subscribe` alone is a `wait` that its caller drops once it has subscribed.
-/

namespace DaemonFramework.Owner

/-- A unique name of the bus, as `name.starts_with(':')` tells it. -/
def isUnique (name : String) : Bool := name.toList.head? = some ':'

/-- The capacity of the broadcast channel. -/
def lossCapacity : ℕ := 64

/-- A signal in the stream of the monitor task. -/
inductive Signal where
  /-- Its body does not deserialize. -/
  | malformed
  /-- `NameOwnerChanged`: the owner of a name was `old` and is `new`, empty for none. -/
  | changed (name old new : String)

/-- The name that the monitor task broadcasts for a signal. -/
def Signal.loss : Signal → Option String
  | .malformed => none
  | .changed name old new => if isUnique name ∧ old ≠ "" ∧ new = "" then some name else none

/-- The cell `started` of the monitor. -/
inductive Cell where
  /-- Nobody initializes it. -/
  | empty
  /-- The call `k` initializes it, and the subscription does not hold yet. -/
  | connecting (k : ℕ)
  /-- The call `k` initializes it, and the subscription holds. -/
  | listening (k : ℕ)
  /-- The monitor task was started. -/
  | running
deriving DecidableEq

/-- The subscription holds. -/
def Cell.listens : Cell → Bool
  | .listening _ | .running => true
  | _ => false

/-- The call `k` initializes the cell. -/
def Cell.heldBy (k : ℕ) (cell : Cell) : Bool := cell = .connecting k ∨ cell = .listening k

/-- How a `wait` ends. -/
inductive Reply where
  | ok
  | stopped
  | failed
deriving DecidableEq

/-- Where a `wait` is. -/
inductive Phase where
  /-- It awaits `running`. -/
  | entered
  /-- It has subscribed, or lagged, and awaits the answer of `has_owner`. -/
  | asking
  /-- The bus has answered. -/
  | answered (present : Bool)
  /-- At the top of `recv`. -/
  | receiving
  /-- In the `select!` of `recv`. -/
  | waiting
  /-- In a poll of the `select!`, after the look at the stopped state. -/
  | checked
  /-- It has returned. -/
  | returned (reply : Reply)
  /-- Its caller has dropped it. -/
  | abandoned
deriving DecidableEq

namespace Phase

/-- The call has a receiver. -/
def subscribed : Phase → Bool
  | .asking | .answered _ | .receiving | .waiting | .checked => true
  | _ => false

/-- The call is in `recv`. -/
def blocked : Phase → Bool
  | .receiving | .waiting | .checked => true
  | _ => false

/-- The call relies on being told when the owner leaves. -/
def expects : Phase → Bool
  | .answered true | .receiving | .waiting | .checked => true
  | _ => false

/-- The call has learned that the owner is gone. -/
def sawLoss : Phase → Bool
  | .answered false | .returned .ok => true
  | _ => false

/-- The call is over. -/
def isOver : Phase → Bool
  | .returned _ | .abandoned => true
  | _ => false

/-- A call in `recv` relies on being told. -/
theorem expects_of_blocked {phase : Phase} (h : phase.blocked) : phase.expects := by
  cases phase with
  | receiving => rfl
  | waiting => rfl
  | checked => rfl
  | _ => cases h

/-- A call that relies on being told has a receiver. -/
theorem subscribed_of_expects {phase : Phase} (h : phase.expects) : phase.subscribed := by
  cases phase with
  | receiving => rfl
  | waiting => rfl
  | checked => rfl
  | answered present => rfl
  | _ => cases h

end Phase

/-- A call of `wait`. -/
structure Call where
  /-- The name it waits for. -/
  owner : String
  /-- Whether the bus had given the name out when the call was made. -/
  known : Bool
  /-- Where the call is. -/
  phase : Phase
  /-- The position of its receiver. -/
  next : ℕ

/-- The bus, the monitor task and the calls. -/
structure System where
  /-- The owner of each name, empty for none. -/
  owner : String → String
  /-- The unique names that the bus has given out. -/
  assigned : List String
  /-- The cell `started`. -/
  cell : Cell
  /-- The signals that the monitor task has not taken, oldest first. -/
  stream : List Signal
  /-- The signal that the monitor task has in its hands. -/
  hand : Option Signal
  /-- The names that were broadcast, oldest first. -/
  sent : List String
  /-- The monitor task has ended. -/
  stopped : Bool
  /-- The calls. -/
  calls : List Call

/-- What the call that initializes the cell can do there. -/
inductive InitEvent where
  /-- It finds the cell empty. -/
  | start
  /-- Its subscription takes hold. -/
  | listen
  /-- It has started the monitor task. -/
  | finish
deriving DecidableEq

/-- What a call can do. -/
inductive CallEvent where
  /-- It finds the monitor running, and subscribes to the broadcasts. -/
  | subscribe
  /-- The bus answers its query. -/
  | answer
  /-- It goes by the answer. -/
  | proceed
  /-- `recv` looks at the stopped state. -/
  | look
  /-- A poll of the `select!` looks at the stopped state. -/
  | poll
  /-- The poll gets something from its queue. -/
  | read
  /-- The poll ends pending. -/
  | pend
deriving DecidableEq

/-- What can happen. -/
inductive Label where
  /-- The owner of a name becomes `new`. -/
  | change (name new : String)
  /-- A signal that does not deserialize arrives. -/
  | garble
  /-- The monitor task takes the next signal. -/
  | take
  /-- The monitor task broadcasts or skips the signal in its hands. -/
  | handle
  /-- The monitor task ends. -/
  | stop
  /-- `wait` is called. -/
  | wait (owner : String)
  /-- A call works on the cell. -/
  | init (k : ℕ) (e : InitEvent)
  /-- A call does something. -/
  | call (k : ℕ) (e : CallEvent)
  /-- The initialization of a call or its query fails. -/
  | fail (k : ℕ)
  /-- The caller drops a call. -/
  | abandon (k : ℕ)

namespace System

/-- The system before anything has happened. -/
def initial : System where
  owner := fun _ => ""
  assigned := []
  cell := .empty
  stream := []
  hand := none
  sent := []
  stopped := false
  calls := []

/-- The stream of the monitor gets what the bus sends. -/
def listens (s : System) : Bool := s.cell.listens && !s.stopped

/-- A signal goes out on the bus. -/
def emit (s : System) (signal : Signal) : System :=
  if s.listens then { s with stream := s.stream ++ [signal] } else s

/-- What the bus allows: a unique name is given to one connection, which has it until it leaves;
another name changes from one owner to another. -/
def changeAllowed (s : System) (name new : String) : Bool :=
  if isUnique name then
    if s.owner name = "" then new = name ∧ name ∉ s.assigned else new = ""
  else new ≠ s.owner name

/-- The owner of a name changes. -/
def change (s : System) (name new : String) : System :=
  let t := s.emit (.changed name (s.owner name) new)
  { t with
    owner := Function.update s.owner name new
    assigned := if isUnique name ∧ new ≠ "" then name :: s.assigned else s.assigned }

/-- The call `k` changes. -/
def setCall (s : System) (k : ℕ) (c : Call) : System := { s with calls := s.calls.set k c }

/-- The call `k` gives up the cell, if it initializes it: its subscription goes with it. -/
def release (s : System) (k : ℕ) : System :=
  if s.cell.heldBy k then { s with cell := .empty, stream := [] } else s

/-- A step of the initialization of the cell, `OnceCell::get_or_try_init`. -/
def initStep (s : System) (k : ℕ) : InitEvent → Option System
  | .start => if s.cell = .empty then some { s with cell := .connecting k } else none
  | .listen =>
    if s.cell = .connecting k then some { s with cell := .listening k, stream := [] } else none
  | .finish => if s.cell = .listening k then some { s with cell := .running } else none

/-- What a poll of the broadcast receiver gets: a lag, or the next name. -/
def read (s : System) (c : Call) : Option Call :=
  if c.next + lossCapacity < s.sent.length then
    some { c with phase := .asking, next := s.sent.length - lossCapacity }
  else
    s.sent[c.next]?.map fun lost =>
      { c with phase := if lost = c.owner then .returned .ok else .receiving, next := c.next + 1 }

/-- The call after a step of its own, `wait` and `recv`. -/
def callNext (s : System) (c : Call) (e : CallEvent) : Option Call :=
  match c.phase, e with
  | .entered, .subscribe =>
    if s.cell = .running then some { c with phase := .asking, next := s.sent.length } else none
  | .asking, .answer => some { c with phase := .answered (s.owner c.owner ≠ "") }
  | .answered true, .proceed => some { c with phase := .receiving }
  | .answered false, .proceed => some { c with phase := .returned .ok }
  | .receiving, .look => some { c with phase := if s.stopped then .returned .stopped else .waiting }
  | .waiting, .poll => some { c with phase := if s.stopped then .returned .stopped else .checked }
  | .checked, .read => s.read c
  | .checked, .pend => some { c with phase := .waiting }
  | _, _ => none

/-- An await of the call can fail: it initializes the cell, or it asks the bus. -/
def canFail (s : System) (k : ℕ) (c : Call) : Bool :=
  match c.phase with
  | .entered => s.cell.heldBy k
  | .asking | .answered _ => true
  | _ => false

/-- The monitor task takes the next signal. -/
def take (s : System) : Option System :=
  match s.hand, s.stream with
  | none, signal :: rest =>
    if s.cell = .running ∧ !s.stopped then some { s with hand := some signal, stream := rest }
    else none
  | _, _ => none

/-- The next state. -/
def step (s : System) : Label → Option System
  | .change name new => if s.changeAllowed name new then some (s.change name new) else none
  | .garble => some (s.emit .malformed)
  | .take => s.take
  | .handle =>
    s.hand.map fun signal => { s with hand := none, sent := s.sent ++ signal.loss.toList }
  | .stop =>
    if s.cell = .running then some { s with stopped := true, stream := [], hand := none } else none
  | .wait owner =>
    if isUnique owner then
      some { s with calls := s.calls ++ [⟨owner, owner ∈ s.assigned, .entered, 0⟩] }
    else none
  | .init k e =>
    s.calls[k]?.bind fun c => if c.phase = .entered then s.initStep k e else none
  | .call k e => s.calls[k]?.bind fun c => (s.callNext c e).map (s.setCall k)
  | .fail k =>
    s.calls[k]?.bind fun c =>
      if s.canFail k c then some ((s.release k).setCall k { c with phase := .returned .failed })
      else none
  | .abandon k =>
    s.calls[k]?.bind fun c =>
      if c.phase.isOver then none
      else some ((s.release k).setCall k { c with phase := .abandoned })

end System

/-- The owner-loss monitor as a machine. -/
def machine : Machine System Label := ⟨System.initial, System.step⟩

namespace System

variable {s t : System}

/-- The unique name was given out, and its connection has left the bus. -/
structure HasLeft (s : System) (name : String) : Prop where
  /-- It is a unique name. -/
  unique : isUnique name
  /-- The name was given out. -/
  given : name ∈ s.assigned
  /-- Nobody has it. -/
  gone : s.owner name = ""

/-- The signals that the monitor task has still to handle, oldest first. -/
def unhandled (s : System) : List Signal := s.hand.toList ++ s.stream

/-- The losses, oldest first: those broadcast, and those that will be. -/
def losses (s : System) : List String := s.sent ++ s.unhandled.filterMap Signal.loss

/-- The loss of the owner is on its way to the call: in the signal stream, or in the queue of the
call's receiver. -/
def OnItsWay (s : System) (c : Call) : Prop :=
  c.owner ∈ s.unhandled.filterMap Signal.loss ∨ c.owner ∈ s.sent.drop c.next

/-- The next read of the call's receiver is a lag. -/
def Lagged (s : System) (c : Call) : Prop := c.next + lossCapacity < s.sent.length

/-- The broadcast names are among the losses. -/
theorem length_sent_le_length_losses (s : System) : s.sent.length ≤ s.losses.length := by
  unfold losses
  rw [List.length_append]
  omega

/-- A loss beyond the position of a receiver is on its way. -/
theorem onItsWay_of_mem_drop {c : Call} (hnext : c.next ≤ s.sent.length)
    (h : c.owner ∈ s.losses.drop c.next) : s.OnItsWay c := by
  unfold losses at h
  rw [List.drop_append_of_le_length hnext] at h
  exact (List.mem_append.1 h).symm

@[simp] theorem owner_emit (s : System) (signal : Signal) : (s.emit signal).owner = s.owner := by
  unfold emit
  split_ifs <;> rfl

@[simp] theorem assigned_emit (s : System) (signal : Signal) :
    (s.emit signal).assigned = s.assigned := by
  unfold emit
  split_ifs <;> rfl

@[simp] theorem cell_emit (s : System) (signal : Signal) : (s.emit signal).cell = s.cell := by
  unfold emit
  split_ifs <;> rfl

@[simp] theorem sent_emit (s : System) (signal : Signal) : (s.emit signal).sent = s.sent := by
  unfold emit
  split_ifs <;> rfl

@[simp] theorem stopped_emit (s : System) (signal : Signal) :
    (s.emit signal).stopped = s.stopped := by
  unfold emit
  split_ifs <;> rfl

@[simp] theorem calls_emit (s : System) (signal : Signal) : (s.emit signal).calls = s.calls := by
  unfold emit
  split_ifs <;> rfl

/-- A signal adds its loss where the stream gets it. -/
theorem losses_emit (s : System) (signal : Signal) :
    (s.emit signal).losses = if s.listens then s.losses ++ signal.loss.toList else s.losses := by
  unfold emit
  split_ifs with hlistens
  · cases hloss : signal.loss <;> simp [losses, unhandled, hloss]
  · rfl

/-- A change of an owner adds its loss where the stream gets its signal. -/
theorem losses_change (s : System) (name new : String) :
    (s.change name new).losses =
      if s.listens then s.losses ++ (Signal.changed name (s.owner name) new).loss.toList
      else s.losses :=
  losses_emit s _

/-- Taking a signal and handling it loses and adds nothing. -/
theorem losses_take {signal : Signal} {rest : List Signal} (hhand : s.hand = none)
    (hstream : s.stream = signal :: rest) :
    losses { s with hand := some signal, stream := rest } = s.losses := by
  simp [losses, unhandled, hhand, hstream]

/-- Handling a signal loses and adds nothing. -/
theorem losses_handle {signal : Signal} (hhand : s.hand = some signal) :
    losses { s with hand := none, sent := s.sent ++ signal.loss.toList } = s.losses := by
  cases hloss : signal.loss <;> simp [losses, unhandled, hhand, hloss]

/-- After one call has changed, a call is as before or the changed one. -/
theorem getElem?_setCall_cases {k j : ℕ} {c x : Call} (h : (s.setCall k c).calls[j]? = some x) :
    s.calls[j]? = some x ∨ k = j ∧ c = x := by
  have hset : (s.calls.set k c)[j]? = some x := h
  rw [List.getElem?_set] at hset
  split_ifs at hset with hkj
  · exact .inr ⟨hkj, Option.some.inj hset⟩
  · exact .inl hset

/-- Giving up the cell changes no call. -/
theorem calls_release (s : System) (k : ℕ) : (s.release k).calls = s.calls := by
  unfold release
  split_ifs <;> rfl

/-- What remains of the losses when the stream loses signals was among them. -/
theorem mem_losses_of_stream {cell : Cell} {stream : List Signal}
    (hstream : ∀ signal ∈ stream, signal ∈ s.stream) :
    ∀ name ∈ losses { s with cell := cell, stream := stream }, name ∈ s.losses := by
  intro name h
  simp only [losses, unhandled, List.filterMap_append, List.mem_append, List.mem_filterMap] at h ⊢
  refine h.imp_right (Or.imp_right ?_)
  rintro ⟨signal, hsignal, hloss⟩
  exact ⟨signal, hstream signal hsignal, hloss⟩

/-- A call whose await fails is not over. -/
theorem over_of_canFail {k : ℕ} {c : Call} (h : s.canFail k c) : c.phase.isOver = false := by
  unfold canFail at h
  cases hphase : c.phase with
  | returned reply =>
    rw [hphase] at h
    cases h
  | abandoned =>
    rw [hphase] at h
    cases h
  | _ => rfl

end System

end DaemonFramework.Owner
