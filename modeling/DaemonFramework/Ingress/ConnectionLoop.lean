import DaemonFramework.Ingress.Connection
import DaemonFramework.Ingress.BridgeLoop

/-!
# The run of a socket connection

`machine` is one connection with its requests. The work on a request and the task that waits for it
move on their own: the wait ends with the result of the work, or by the deadline if there is none
yet. The end of the connection closes the session, aborts the waiting tasks and the output, and
leaves the work alone; here each of these can come at any time.

As for the bridge, a step lemma says that every task keeps to its conduct (`Invariant.step`), and
`Invariant.disciplined` reads the discipline off it.
-/

namespace DaemonFramework.Ingress.Socket

open Output Resumption

deriving instance DecidableEq for WorkOp

deriving instance DecidableEq for WaiterOp

/-- A request that the connection has read. -/
structure Ticket where
  /-- The request. -/
  message : ClientMessage
  /-- The waits of the task that waits for the work. -/
  seen : List (Event WaiterOp WaiterOp.Answer)
  /-- What that task has still to do. -/
  waiter : Waiter Unit
  /-- That task was aborted. -/
  aborted : Bool
  /-- The waits of the work. -/
  past : List (Event WorkOp WorkOp.Answer)
  /-- What the work has still to do; a request that was refused has none. -/
  work : Option (Work WorkResult)

/-- The result of the work, once it has ended. -/
def Ticket.result (t : Ticket) : Option WorkResult :=
  match t.work with
  | some (.done r) => some r
  | _ => none

/-- A connection. -/
structure State where
  /-- The free permits. -/
  slots : RequestSlots
  /-- The output. -/
  writer : Writer
  /-- The session is closed. -/
  closed : Bool
  /-- The requests, in the order in which they came. -/
  tickets : List Ticket

/-- What happens next. -/
inductive Label where
  /-- The connection reads a request. -/
  | accept (message : ClientMessage)
  /-- A wait of the work on a request ends. -/
  | work (k : ℕ) (e : Event WorkOp WorkOp.Answer)
  /-- A wait of the task that waits for the work ends. -/
  | waiter (k : ℕ) (e : Event WaiterOp WaiterOp.Answer)
  /-- The task that waits for the work is aborted. -/
  | abort (k : ℕ)
  /-- The session is closed. -/
  | close
  /-- The output moves. -/
  | writer (e : WriterStep)

namespace State

/-- A request takes a permit with its work, or is refused. -/
def spawnRequest (s : State) (message : ClientMessage) : State :=
  match s.slots.acquire message.request with
  | some slots =>
    { s with
      slots := slots
      tickets := s.tickets ++ [⟨message, [], waiter message, false, [], some (work message)⟩] }
  | none =>
    { s with tickets := s.tickets ++ [⟨message, [], refused message, false, [], none⟩] }

/-- Nothing happens to the output, if the session is closed or not as was said. -/
def ifClosed (s : State) (closed : Bool) : Option Writer :=
  if closed = s.closed then some s.writer else none

/-- Nothing happens to the output, if the work has come to what was said. -/
def ifResult (s : State) (t : Ticket) (r : Option WorkResult) : Option Writer :=
  if t.result = r then some s.writer else none

/-- The output after a wait of the work. -/
def workAnswered (s : State) (k : ℕ) : Event WorkOp WorkOp.Answer → Option Writer
  | ⟨.send command, .answered r⟩ => s.writer.answer k command r
  | ⟨.isClosed, .answered closed⟩ => s.ifClosed closed
  | _ => some s.writer

/-- The output after a wait of the task that waits for the work. A deadline does not expire once
the result is there. -/
def waiterAnswered (s : State) (k : ℕ) (t : Ticket) :
    Event WaiterOp WaiterOp.Answer → Option Writer
  | ⟨.send command, .answered r⟩ => s.writer.answer k command r
  | ⟨.join, .answered r⟩ => s.ifResult t (some r)
  | ⟨.join, .expired _⟩ => s.ifResult t none
  | _ => some s.writer

/-- The work on a request goes on. Its permit is dropped at its end. -/
def advanceWork (s : State) (k : ℕ) (t : Ticket) (e : Event WorkOp WorkOp.Answer)
    (work : Work WorkResult) (writer : Writer) : State :=
  { s with
    slots := if work.current = none then s.slots.release t.message.request else s.slots
    writer := writer
    tickets := s.tickets.set k { t with past := t.past ++ [e], work := some work } }

/-- The task that waits for the work goes on. -/
def advanceWaiter (s : State) (k : ℕ) (t : Ticket) (e : Event WaiterOp WaiterOp.Answer)
    (waiter : Waiter Unit) (writer : Writer) : State :=
  { s with
    writer := writer
    closed := s.closed || decide (e.op = .close)
    tickets := s.tickets.set k { t with seen := t.seen ++ [e], waiter := waiter } }

/-- The task that waits for the work is aborted. -/
def abort (s : State) (k : ℕ) (t : Ticket) : State :=
  { s with tickets := s.tickets.set k { t with aborted := true } }

end State

/-- The connection, from its start. -/
def machine (policy : CorrelationPolicy) (pendingLimit maximumCalls : ℕ) :
    Machine State Label where
  init := ⟨.new maximumCalls, .new policy pendingLimit, false, []⟩
  step s
    | .accept message => if message.WellFormed then some (s.spawnRequest message) else none
    | .work k e => s.tickets[k]?.bind fun t => t.work.bind fun work =>
      (work.resume e).bind fun work => (s.workAnswered k e).map (s.advanceWork k t e work)
    | .waiter k e => s.tickets[k]?.bind fun t =>
      if t.aborted then none
      else (t.waiter.resume e).bind fun waiter =>
        (s.waiterAnswered k t e).map (s.advanceWaiter k t e waiter)
    | .abort k => s.tickets[k]?.bind fun t =>
      if t.aborted = false ∧ t.waiter.current ≠ none then some (s.abort k t) else none
    | .close => some { s with closed := true }
    | .writer e => (s.writer.step e).map fun writer => { s with writer := writer }

namespace Ticket

/-- The number of invocations that the reply may have to answer for. -/
def MayInvoke (t : Ticket) (n : ℕ) : Prop := t.work = none → n = 0

/-- The tasks of a request keep to their conduct. -/
structure Sound (t : Ticket) : Prop where
  /-- The task that waits for the work, in all that it may still do. -/
  upholds : ∀ n, t.MayInvoke n → t.waiter.Upholds (WaiterAllowed t.message n)
    (fun seen _ => replies WaiterOp.command seen ≠ []) t.seen
  /-- The same task, in all that it has done. -/
  kept : ∀ n, t.MayInvoke n → Kept (WaiterAllowed t.message n) t.seen
  /-- The work, in all that it may still do. -/
  work : ∀ work, t.work = some work → work.Upholds (WorkAllowed t.message)
    (fun past r => Answered t.message past (Succeeded r)) t.past
  /-- The work, in all that it has done. -/
  workKept : Kept (WorkAllowed t.message) t.past
  /-- A request that was refused has done nothing. -/
  idle : t.work = none → t.past = []
  /-- A value that has been seen is one that the work has ended with. -/
  joined : joined t.seen ≠ [] → ∃ r, t.work = some (.done r) ∧ Succeeded r

/-- The replies that the tasks of a request have sent. -/
def sent (t : Ticket) : List Value := replies WaiterOp.command t.seen

namespace Sound

variable {t : Ticket} {message : ClientMessage}

/-- A request with a permit, at its start. -/
theorem accepted (message : ClientMessage) :
    (Ticket.mk message [] (Socket.waiter message) false [] (some (Socket.work message))).Sound where
  upholds n _ := waiter_spec message n
  kept _ _ := Kept.nil
  work work hwork := by
    obtain rfl := Option.some.inj hwork
    exact work_spec message
  workKept := Kept.nil
  idle h := by cases h
  joined h := absurd rfl h

/-- A request without a permit, at its start. -/
theorem refused (message : ClientMessage) :
    (Ticket.mk message [] (Socket.refused message) false [] none).Sound where
  upholds n hn := by
    obtain rfl := hn rfl
    exact refused_spec message
  kept _ _ := Kept.nil
  work work hwork := by cases hwork
  workKept := Kept.nil
  idle _ := rfl
  joined h := absurd rfl h

/-- The work goes on. -/
theorem advanceWork (h : t.Sound) {e : Event WorkOp WorkOp.Answer} {w w' : Work WorkResult}
    (hw : t.work = some w) (hresume : w.resume e = some w') :
    Sound { t with past := t.past ++ [e], work := some w' } where
  upholds n _ := h.upholds n fun hnone => by
    rw [hw] at hnone
    cases hnone
  kept n _ := h.kept n fun hnone => by
    rw [hw] at hnone
    cases hnone
  work work hwork := by
    obtain rfl := Option.some.inj hwork
    exact (h.work w hw).resume hresume
  workKept := h.workKept.concat ((h.work w hw).current (current_of_resume hresume))
  idle hnone := by cases hnone
  joined hjoined := by
    -- Work that has ended does not go on.
    obtain ⟨r, hdone, -⟩ := h.joined hjoined
    obtain rfl := Option.some.inj (hw.symm.trans hdone)
    cases hresume

/-- The task that waits for the work goes on. -/
theorem advanceWaiter (h : t.Sound) {e : Event WaiterOp WaiterOp.Answer} {w : Waiter Unit}
    (hresume : t.waiter.resume e = some w)
    (hjoin : ∀ value, joinedOf e = some value → ∃ r, t.work = some (.done r) ∧ Succeeded r) :
    Sound { t with seen := t.seen ++ [e], waiter := w } where
  upholds n hn := (h.upholds n hn).resume hresume
  kept n hn := (h.kept n hn).concat ((h.upholds n hn).current (current_of_resume hresume))
  work := h.work
  workKept := h.workKept
  idle := h.idle
  joined hjoined := by
    cases hvalue : joinedOf e with
    | some value => exact hjoin value hvalue
    | none =>
      apply h.joined
      simpa [Socket.joined, hvalue] using hjoined

/-- The task that waits for the work is aborted. -/
theorem abort (h : t.Sound) : Sound { t with aborted := true } :=
  ⟨h.upholds, h.kept, h.work, h.workKept, h.idle, h.joined⟩

end Sound

/-- The result of work that has ended. -/
theorem work_of_result {t : Ticket} {r : WorkResult} (h : t.result = some r) :
    t.work = some (.done r) := by
  unfold result at h
  split at h
  · obtain rfl := Option.some.inj h
    assumption
  · cases h

end Ticket

/-- What holds in every state. -/
structure Invariant (s : State) : Prop where
  /-- Every task keeps to its conduct. -/
  sound : ∀ t ∈ s.tickets, t.Sound
  /-- The output accounts for what the tasks have sent. -/
  accounts : ∀ k, s.writer.Accounts k (sentBy Ticket.sent s.tickets k)

namespace Invariant

variable {s s' : State}

/-- The start. -/
theorem init (policy : CorrelationPolicy) (pendingLimit maximumCalls : ℕ) :
    Invariant (machine policy pendingLimit maximumCalls).init :=
  ⟨by simp [machine], fun k => Writer.Accounts.new policy pendingLimit k⟩

/-- A request that was just read has sent nothing. -/
theorem accepted (h : Invariant s) {t : Ticket} (ht : t.Sound) (hsent : t.sent = [])
    (slots : RequestSlots) : Invariant { s with slots := slots, tickets := s.tickets ++ [t] } where
  sound := Roster.forall_mem_append_singleton h.sound ht
  accounts k := by
    have hsame : sentBy Ticket.sent (s.tickets ++ [t]) k = sentBy Ticket.sent s.tickets k :=
      sentBy_append hsent k
    rw [hsame]
    exact h.accounts k

/-- What a wait of the work does to the accounts: the work sends no reply. -/
theorem workAnswered {k j : ℕ} {e : Event WorkOp WorkOp.Answer} {w : Writer} {sent : List Value}
    (h : s.writer.Accounts j sent) (hanswered : s.workAnswered k e = some w)
    (hreply : e.op.command.bind OutputCommand.replyLine = none) : w.Accounts j sent := by
  have hother : some s.writer = some w → w.Accounts j sent := by
    intro hsame
    obtain rfl := Option.some.inj hsame
    exact h
  unfold State.workAnswered at hanswered
  split at hanswered
  · rename_i command r
    have hnone : command.replyLine = none := hreply
    simpa [hnone] using h.answer hanswered
  · exact hother (Option.ite_none_right_eq_some.1 hanswered).2
  · exact hother hanswered

/-- What a wait of the other task does to the accounts. -/
theorem waiterAnswered {k j : ℕ} {t : Ticket} {e : Event WaiterOp WaiterOp.Answer} {w : Writer}
    {sent : List Value} (h : s.writer.Accounts j sent)
    (hanswered : s.waiterAnswered k t e = some w) :
    w.Accounts j (sent ++ if k = j then (replyOf WaiterOp.command e).toList else []) := by
  obtain ⟨op, wake⟩ := e
  -- Only the answer to a sender changes the output.
  have hother : replyOf WaiterOp.command ⟨op, wake⟩ = none → some s.writer = some w →
      w.Accounts j (sent ++
        if k = j then (replyOf WaiterOp.command ⟨op, wake⟩).toList else []) := by
    intro hnone hsame
    obtain rfl := Option.some.inj hsame
    simpa [hnone] using h
  cases op with
  | send command =>
    cases wake with
    | answered r => exact h.answer hanswered
    | expired i => exact hother rfl hanswered
  | join =>
    have hnone : replyOf WaiterOp.command ⟨.join, wake⟩ = none := replyOf_eq_none rfl
    cases wake with
    | answered r => exact hother hnone (Option.ite_none_right_eq_some.1 hanswered).2
    | expired i => exact hother hnone (Option.ite_none_right_eq_some.1 hanswered).2
  | close => exact hother (replyOf_eq_none rfl) hanswered

/-- A value that is seen is one that the work has ended with. -/
theorem joins {k : ℕ} {t : Ticket} {e : Event WaiterOp WaiterOp.Answer} {w : Writer}
    (hanswered : s.waiterAnswered k t e = some w) {value : Value}
    (hvalue : joinedOf e = some value) :
    ∃ r, t.work = some (.done r) ∧ Succeeded r := by
  unfold joinedOf at hvalue
  split at hvalue
  · rename_i value' cancelled
    obtain ⟨hresult, -⟩ := Option.ite_none_right_eq_some.1 hanswered
    exact ⟨_, Ticket.work_of_result hresult, rfl⟩
  · cases hvalue

/-- The work on a request goes on. -/
theorem advanceWork (h : Invariant s) {k : ℕ} {t : Ticket} {e : Event WorkOp WorkOp.Answer}
    {work work' : Work WorkResult} {w : Writer} (ht : s.tickets[k]? = some t)
    (hwork : t.work = some work) (hresume : work.resume e = some work')
    (hanswered : s.workAnswered k e = some w) : Invariant (s.advanceWork k t e work' w) where
  sound := by
    have hsound := h.sound t (List.mem_of_getElem? ht)
    exact Roster.forall_mem_set h.sound (hsound.advanceWork hwork hresume)
  accounts j := by
    have hsound := h.sound t (List.mem_of_getElem? ht)
    have hallowed := (hsound.work work hwork).current (current_of_resume hresume)
    have hsent : Ticket.sent { t with past := t.past ++ [e], work := some work' } = t.sent ++ [] :=
      (List.append_nil t.sent).symm
    rw [State.advanceWork, sentBy_set ht hsent, ite_self, List.append_nil]
    exact workAnswered (h.accounts j) hanswered hallowed.noReply

/-- The task that waits for the work goes on. -/
theorem advanceWaiter (h : Invariant s) {k : ℕ} {t : Ticket} {e : Event WaiterOp WaiterOp.Answer}
    {waiter : Waiter Unit} {w : Writer} (ht : s.tickets[k]? = some t)
    (hresume : t.waiter.resume e = some waiter) (hanswered : s.waiterAnswered k t e = some w) :
    Invariant (s.advanceWaiter k t e waiter w) where
  sound := by
    have hsound := h.sound t (List.mem_of_getElem? ht)
    apply Roster.forall_mem_set h.sound
    exact hsound.advanceWaiter hresume fun value hvalue => joins hanswered hvalue
  accounts j := by
    have hsent : Ticket.sent { t with seen := t.seen ++ [e], waiter := waiter } =
        t.sent ++ (replyOf WaiterOp.command e).toList := replies_concat e
    rw [State.advanceWaiter, sentBy_set ht hsent]
    exact waiterAnswered (h.accounts j) hanswered

/-- The task that waits for the work is aborted. -/
theorem abort (h : Invariant s) {k : ℕ} {t : Ticket} (ht : s.tickets[k]? = some t) :
    Invariant (s.abort k t) where
  sound := Roster.forall_mem_set h.sound (h.sound t (List.mem_of_getElem? ht)).abort
  accounts j := by
    have hsent : Ticket.sent { t with aborted := true } = t.sent ++ [] :=
      (List.append_nil t.sent).symm
    rw [State.abort, sentBy_set ht hsent, ite_self, List.append_nil]
    exact h.accounts j

/-- Every step keeps the invariant. -/
theorem step {policy : CorrelationPolicy} {pendingLimit maximumCalls : ℕ} {e : Label}
    (h : Invariant s) (hstep : (machine policy pendingLimit maximumCalls).step s e = some s') :
    Invariant s' := by
  cases e with
  | accept message =>
    obtain ⟨-, rfl⟩ := Machine.guarded_eq_some.1 hstep
    unfold State.spawnRequest
    split
    · exact h.accepted (.accepted message) rfl _
    · exact h.accepted (.refused message) rfl _
  | work k e =>
    obtain ⟨t, ht, hstep⟩ := Option.bind_eq_some_iff.1 hstep
    obtain ⟨work, hwork, hstep⟩ := Option.bind_eq_some_iff.1 hstep
    obtain ⟨work', hresume, hstep⟩ := Option.bind_eq_some_iff.1 hstep
    obtain ⟨w, hanswered, rfl⟩ := Option.map_eq_some_iff.1 hstep
    exact h.advanceWork ht hwork hresume hanswered
  | waiter k e =>
    obtain ⟨t, ht, hstep⟩ := Option.bind_eq_some_iff.1 hstep
    obtain ⟨-, hstep⟩ := Option.ite_none_left_eq_some.1 hstep
    obtain ⟨waiter, hresume, hstep⟩ := Option.bind_eq_some_iff.1 hstep
    obtain ⟨w, hanswered, rfl⟩ := Option.map_eq_some_iff.1 hstep
    exact h.advanceWaiter ht hresume hanswered
  | abort k =>
    obtain ⟨t, ht, hstep⟩ := Option.bind_eq_some_iff.1 hstep
    obtain ⟨-, rfl⟩ := Machine.guarded_eq_some.1 hstep
    exact h.abort ht
  | close =>
    obtain rfl := Option.some.inj hstep
    exact ⟨h.sound, h.accounts⟩
  | writer e =>
    obtain ⟨w, hw, rfl⟩ := Option.map_eq_some_iff.1 hstep
    exact ⟨h.sound, fun k => (h.accounts k).step hw⟩

end Invariant

/-- The wait for the work has ended in time. -/
def joinEnded : Event WaiterOp WaiterOp.Answer → Bool
  | ⟨.join, .answered _⟩ => true
  | _ => false

namespace Ticket

/-- The operations that the work on a request has begun. -/
def begun (t : Ticket) : List WorkOp :=
  t.past.map Event.op ++ (t.work.bind Resumption.current).toList

/-- The valid answers of the service, if the work has ended in time. -/
def inTime (t : Ticket) : List Value := if t.seen.any joinEnded then answers t.past else []

end Ticket

/-- What has come of a request. -/
def State.account (s : State) (k : ℕ) (t : Ticket) : Account where
  message := t.message
  invocations := invocations t.begun
  answers := t.inTime
  finished := t.waiter.current.isNone
  replies := s.writer.written k

namespace Ticket.Sound

variable {t : Ticket}

/-- An ordinary request is invoked once at most. -/
theorem once (h : t.Sound) (hordinary : t.message.request.IsOrdinary) :
    invocations t.begun ≤ 1 := by
  unfold Ticket.begun
  cases hcurrent : t.work.bind Resumption.current with
  | some op =>
    obtain ⟨work, hwork, hop⟩ := Option.bind_eq_some_iff.1 hcurrent
    exact ((h.work work hwork).current hop).once hordinary
  | none =>
    rw [Option.toList_none, List.append_nil]
    rcases List.eq_nil_or_concat' t.past with hpast | ⟨before, e, hpast⟩
    · rw [hpast]
      exact Nat.zero_le 1
    · rw [hpast, List.map_append, List.map_singleton]
      exact (h.workKept before e [] hpast).once hordinary

/-- A request that was refused has invoked nothing. -/
theorem mayInvoke (h : t.Sound) : t.MayInvoke (invocations t.begun) := by
  intro hnone
  rw [Ticket.begun, h.idle hnone, hnone]
  rfl

/-- A task that has ended has sent a reply. -/
theorem replied (h : t.Sound) (hdone : t.waiter.current = none) : t.sent ≠ [] := by
  have hupholds := h.upholds _ h.mayInvoke
  cases hwaiter : t.waiter with
  | done a =>
    rw [hwaiter] at hupholds
    exact hupholds
  | wait op n answered expired =>
    rw [hwaiter] at hdone
    cases hdone

/-- A call whose work has ended with a value in time was answered in time. -/
theorem joined_of_inTime (h : t.Sound) (hcall : t.message.request.IsCall) (hnone : t.inTime = []) :
    Socket.joined t.seen = [] := by
  by_contra hjoined
  obtain ⟨r, hwork, hsucceeded⟩ := h.joined hjoined
  have hanswered : Answered t.message t.past (Succeeded r) := h.work _ hwork
  obtain ⟨value, hvalue⟩ := List.exists_mem_of_ne_nil _ hjoined
  obtain ⟨e, he, hvalue⟩ := List.mem_filterMap.1 hvalue
  have hended : t.seen.any joinEnded = true := by
    rw [List.any_eq_true]
    refine ⟨e, he, ?_⟩
    unfold joinedOf at hvalue
    split at hvalue
    · rfl
    · cases hvalue
  rw [Ticket.inTime, if_pos hended] at hnone
  exact hanswered.answered hsucceeded hcall hnone

/-- The task that waits for the work sends one reply at most, and a true one. -/
theorem one_reply (h : t.Sound) : t.sent = [] ∨
    ∃ line, t.sent = [line] ∧ Truthful t.message (invocations t.begun) t.inTime line := by
  rcases replies_of_kept (fun _ _ h => h.silent) (h.kept _ h.mayInvoke) with
    hnone | ⟨before, e, line, hseen, hallowed, hreply, hreplies⟩
  · exact .inl hnone
  · refine .inr ⟨line, hreplies, ?_⟩
    obtain ⟨op, wake⟩ := e
    have hline := mem_replyLine_of_replyOf hreply
    have hjoined : Socket.joined t.seen = Socket.joined before := by
      cases op with
      | send command => simp [Socket.joined, hseen, joinedOf]
      | _ => cases hline
    apply (hallowed.truthful line hline).of_answers
    intro hcall hnone
    rw [← hjoined]
    exact h.joined_of_inTime hcall hnone

end Ticket.Sound

/-- In every state, each request is kept to the discipline. -/
theorem Invariant.disciplined {s : State} (h : Invariant s) {k : ℕ} {t : Ticket}
    (ht : s.tickets[k]? = some t) : (s.account k t).Disciplined s.writer.Drained := by
  have hsound := h.sound t (List.mem_of_getElem? ht)
  have haccounts := h.accounts k
  rw [sentBy_of_getElem? ht] at haccounts
  apply Writer.Accounts.disciplined (a := s.account k t)
    haccounts rfl hsound.one_reply _ hsound.once
  exact fun hdone => hsound.replied (Option.isNone_iff_eq_none.1 hdone)

end DaemonFramework.Ingress.Socket
