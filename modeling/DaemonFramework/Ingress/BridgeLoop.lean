import DaemonFramework.Ingress.Bridge

/-!
# The run of the bridge

`machine` is the bridge with its requests: the loop accepts them, and the tasks of the accepted
ones, the output and the senders of events move in any order. A task may be aborted at any time, as
a bridge that drains does at its own deadline.

A step lemma says that every task keeps to its conduct and that the output accounts for what the
tasks have sent (`Invariant.step`), and `State.disciplined` reads the discipline off it.
-/

namespace DaemonFramework.Ingress.Bridge

open Output Resumption

deriving instance DecidableEq for OutputCommand

deriving instance DecidableEq for Op

/-- A request that the loop has taken from its input. -/
structure Ticket where
  /-- The request. -/
  message : ClientMessage
  /-- Its task has a permit. -/
  permit : Bool
  /-- The waits of its task that have ended. -/
  past : List (Event Op Op.Answer)
  /-- What its task has still to do. -/
  task : Future Unit
  /-- Its task was aborted. -/
  aborted : Bool

/-- The bridge. -/
structure State where
  /-- The free permits. -/
  slots : RequestSlots
  /-- The output. -/
  writer : Writer
  /-- The requests, in the order in which they came. -/
  tickets : List Ticket

/-- What happens next. -/
inductive Label where
  /-- The loop takes a request from its input. -/
  | accept (message : ClientMessage)
  /-- A wait of the task of a request ends. -/
  | wake (k : ℕ) (e : Event Op Op.Answer)
  /-- The task of a request is aborted. -/
  | abort (k : ℕ)
  /-- The output moves. -/
  | writer (e : WriterStep)

namespace State

/-- `spawn_request`. -/
def spawnRequest (s : State) (message : ClientMessage) : State :=
  match s.slots.acquire message.request with
  | some slots =>
    { s with slots := slots, tickets := s.tickets ++ [⟨message, true, [], spawned message, false⟩] }
  | none => { s with tickets := s.tickets ++ [⟨message, false, [], refused message, false⟩] }

/-- The output after the wait of a request's task: only what it sends matters to the output. -/
def answered (s : State) (k : ℕ) : Event Op Op.Answer → Option Writer
  | ⟨.send command, .answered r⟩ => s.writer.answer k command r
  | _ => some s.writer

/-- A permit is dropped with the task that has it. -/
def drop (s : State) (t : Ticket) : RequestSlots :=
  if t.permit then s.slots.release t.message.request else s.slots

/-- The task of a request goes on. -/
def advance (s : State) (k : ℕ) (t : Ticket) (e : Event Op Op.Answer) (task : Future Unit)
    (writer : Writer) : State where
  slots := if task.current = none then s.drop t else s.slots
  writer := writer
  tickets := s.tickets.set k { t with past := t.past ++ [e], task := task }

/-- The task of a request is aborted. -/
def abort (s : State) (k : ℕ) (t : Ticket) : State :=
  { s with slots := s.drop t, tickets := s.tickets.set k { t with aborted := true } }

end State

/-- The bridge, from its start. -/
def machine (policy : CorrelationPolicy) (pendingLimit maximumCalls : ℕ) :
    Machine State Label where
  init := ⟨.new (max maximumCalls 1), .new policy pendingLimit, []⟩
  step s
    | .accept message =>
      if message.WellFormed ∧ s.writer.isOpen = true then some (s.spawnRequest message) else none
    | .wake k e => s.tickets[k]?.bind fun t =>
      if t.aborted then none
      else (t.task.resume e).bind fun task => (s.answered k e).map (s.advance k t e task)
    | .abort k => s.tickets[k]?.bind fun t =>
      if t.aborted = false ∧ t.task.current ≠ none then some (s.abort k t) else none
    | .writer e => (s.writer.step e).map fun writer => { s with writer := writer }

/-- The task of a request keeps to its conduct. -/
structure Ticket.Sound (t : Ticket) : Prop where
  /-- In all that it may still do. -/
  upholds : t.task.Upholds (Allowed t.message) (fun past _ => replies Op.command past ≠ []) t.past
  /-- In all that it has done. -/
  kept : Kept (Allowed t.message) t.past

/-- The replies that the task of a request has sent. -/
def Ticket.sent (t : Ticket) : List Value := replies Op.command t.past

/-- What holds in every state. -/
structure Invariant (s : State) : Prop where
  /-- Every task keeps to its conduct. -/
  sound : ∀ t ∈ s.tickets, t.Sound
  /-- The output accounts for what the tasks have sent. -/
  accounts : ∀ k, s.writer.Accounts k (sentBy Ticket.sent s.tickets k)

namespace Invariant

variable {s s' : State}

/-- The start. -/
theorem init (policy : CorrelationPolicy) (pendingLimit maximumCalls : ℕ) :
    Invariant (machine policy pendingLimit maximumCalls).init :=
  ⟨by simp [machine], fun k => Writer.Accounts.new policy pendingLimit k⟩

/-- A request that was just accepted has sent nothing. -/
theorem accepted (h : Invariant s) {t : Ticket} (ht : t.Sound) (hpast : t.past = [])
    (slots : RequestSlots) : Invariant { s with slots := slots, tickets := s.tickets ++ [t] } where
  sound := Roster.forall_mem_append_singleton h.sound ht
  accounts k := by
    have hnone : t.sent = [] := by
      rw [Ticket.sent, hpast]
      rfl
    have hsame : sentBy Ticket.sent (s.tickets ++ [t]) k = sentBy Ticket.sent s.tickets k :=
      sentBy_append hnone k
    rw [hsame]
    exact h.accounts k

/-- What a wait does to the accounts. -/
theorem answered {k j : ℕ} {e : Event Op Op.Answer} {w : Writer} {sent : List Value}
    (h : s.writer.Accounts j sent) (hanswered : s.answered k e = some w) :
    w.Accounts j (sent ++ if k = j then (replyOf Op.command e).toList else []) := by
  obtain ⟨op, wake⟩ := e
  -- Only the answer to a sender changes the output.
  have hother : replyOf Op.command ⟨op, wake⟩ = none → some s.writer = some w →
      w.Accounts j (sent ++ if k = j then (replyOf Op.command ⟨op, wake⟩).toList else []) := by
    intro hnone hsame
    obtain rfl := Option.some.inj hsame
    simpa [hnone] using h
  cases op with
  | send command =>
    cases wake with
    | answered r => exact h.answer hanswered
    | expired i => exact hother rfl hanswered
  | _ => exact hother (replyOf_eq_none rfl) hanswered

/-- The task of a request goes on. -/
theorem advance (h : Invariant s) {k : ℕ} {t : Ticket} {e : Event Op Op.Answer}
    {task : Future Unit} {w : Writer} (ht : s.tickets[k]? = some t)
    (hresume : t.task.resume e = some task) (hanswered : s.answered k e = some w) :
    Invariant (s.advance k t e task w) where
  sound := by
    have hsound := h.sound t (List.mem_of_getElem? ht)
    have hallowed := hsound.upholds.current (current_of_resume hresume)
    apply Roster.forall_mem_set h.sound
    exact ⟨hsound.upholds.resume hresume, hsound.kept.concat hallowed⟩
  accounts j := by
    have hsent : Ticket.sent { t with past := t.past ++ [e], task := task } =
        t.sent ++ (replyOf Op.command e).toList := replies_concat e
    rw [State.advance, sentBy_set ht hsent]
    exact answered (h.accounts j) hanswered

/-- The task of a request is aborted. -/
theorem abort (h : Invariant s) {k : ℕ} {t : Ticket} (ht : s.tickets[k]? = some t) :
    Invariant (s.abort k t) where
  sound := by
    have hsound := h.sound t (List.mem_of_getElem? ht)
    exact Roster.forall_mem_set h.sound ⟨hsound.upholds, hsound.kept⟩
  accounts j := by
    have hsent : Ticket.sent { t with aborted := true } = t.sent ++ [] :=
      (List.append_nil t.sent).symm
    rw [State.abort, sentBy_set ht hsent, ite_self, List.append_nil]
    exact h.accounts j

/-- Every step keeps the invariant. -/
theorem step {policy : CorrelationPolicy} {pendingLimit maximumCalls : ℕ} {e : Label}
    (h : Invariant s) (hstep : (machine policy pendingLimit maximumCalls).step s e = some s') :
    Invariant s' := by
  cases e with
  | accept message =>
    obtain ⟨⟨⟨-, hshutdown⟩, -⟩, rfl⟩ := Machine.guarded_eq_some.1 hstep
    unfold State.spawnRequest
    split
    · exact h.accepted ⟨spawned_spec hshutdown, Kept.nil⟩ rfl _
    · exact h.accepted ⟨refused_spec message, Kept.nil⟩ rfl _
  | wake k e =>
    obtain ⟨t, ht, hstep⟩ := Option.bind_eq_some_iff.1 hstep
    obtain ⟨-, hstep⟩ := Option.ite_none_left_eq_some.1 hstep
    obtain ⟨task, hresume, hstep⟩ := Option.bind_eq_some_iff.1 hstep
    obtain ⟨w, hanswered, rfl⟩ := Option.map_eq_some_iff.1 hstep
    exact h.advance ht hresume hanswered
  | abort k =>
    obtain ⟨t, ht, hstep⟩ := Option.bind_eq_some_iff.1 hstep
    obtain ⟨-, rfl⟩ := Machine.guarded_eq_some.1 hstep
    exact h.abort ht
  | writer e =>
    obtain ⟨w, hw, rfl⟩ := Option.map_eq_some_iff.1 hstep
    exact ⟨h.sound, fun k => (h.accounts k).step hw⟩

end Invariant

/-- The operations that the task of a request has begun. -/
def Ticket.begun (t : Ticket) : List Op := t.past.map Event.op ++ t.task.current.toList

/-- What has come of a request. -/
def State.account (s : State) (k : ℕ) (t : Ticket) : Account where
  message := t.message
  invocations := invocations t.begun
  answers := answers t.past
  finished := t.task.current.isNone
  replies := s.writer.written k

namespace Ticket.Sound

variable {t : Ticket}

/-- An ordinary request is invoked once at most. -/
theorem once (h : t.Sound) (hordinary : t.message.request.IsOrdinary) :
    invocations t.begun ≤ 1 := by
  unfold Ticket.begun
  cases hcurrent : t.task.current with
  | some op => exact (h.upholds.current hcurrent).once hordinary
  | none =>
    rw [Option.toList_none, List.append_nil]
    rcases List.eq_nil_or_concat' t.past with hpast | ⟨before, e, hpast⟩
    · rw [hpast]
      exact Nat.zero_le 1
    · rw [hpast, List.map_append, List.map_singleton]
      exact (h.kept before e [] hpast).once hordinary

/-- A task that has ended has sent a reply. -/
theorem replied (h : t.Sound) (hdone : t.task.current = none) : t.sent ≠ [] := by
  have hupholds := h.upholds
  cases htask : t.task with
  | done a =>
    rw [htask] at hupholds
    exact hupholds
  | wait op n answered expired =>
    rw [htask] at hdone
    cases hdone

/-- The task of a request sends one reply at most, and a true one. -/
theorem one_reply (h : t.Sound) : t.sent = [] ∨
    ∃ line, t.sent = [line] ∧
      Truthful t.message (invocations t.begun) (answers t.past) line := by
  rcases replies_of_kept (fun _ _ h => h.silent) h.kept with
    hnone | ⟨before, e, line, hpast, hallowed, hreply, hreplies⟩
  · exact .inl hnone
  · refine .inr ⟨line, hreplies, ?_⟩
    obtain ⟨op, wake⟩ := e
    have hline := mem_replyLine_of_replyOf hreply
    have htruthful := hallowed.truthful line hline
    -- A reply is the last that the task begins, and it neither invokes a method nor answers one.
    have hend : t.task.current = none := by
      cases hcurrent : t.task.current with
      | none => rfl
      | some op' =>
        have hsilent := (h.upholds.current hcurrent).silent
        rw [hreplies] at hsilent
        cases hsilent
    cases op with
    | send command =>
      have hinvocations : invocations t.begun = invocations (before.map Event.op) := by
        have hno : ¬(Op.send command).IsInvocation := fun h => h
        rw [Ticket.begun, hend, hpast, Option.toList_none, List.append_nil, List.map_append,
          List.map_singleton, invocations_concat, if_neg hno, Nat.add_zero]
      have hanswers : answers t.past = answers before := by
        simp [answers, hpast, answerOf]
      rw [hinvocations, hanswers]
      exact htruthful
    | _ => cases hline

end Ticket.Sound

/-- In every state, each request is kept to the discipline. -/
theorem Invariant.disciplined {s : State} (h : Invariant s) {k : ℕ} {t : Ticket}
    (ht : s.tickets[k]? = some t) : (s.account k t).Disciplined s.writer.Drained := by
  have hsound := h.sound t (List.mem_of_getElem? ht)
  have haccounts := h.accounts k
  rw [sentBy_of_getElem? ht] at haccounts
  apply Writer.Accounts.disciplined (a := s.account k t)
    haccounts rfl hsound.one_reply _ hsound.once
  exact fun hdone => hsound.replied (Option.isNone_iff_eq_none.1 hdone)

end DaemonFramework.Ingress.Bridge
