import DaemonFramework.Ingress.BridgeLoop

/-!
# The end of the bridge

`run_client_io` of `shelllist-daemon-tokio/src/jsonl.rs` after its request loop: it drains the tasks
of the requests, cancels what is active, sends the reply to the shutdown, and waits for the output.
The forwarder and the watcher of the owner are aborted before that reply is sent, but not joined, so
they may still send an event or an error behind it.

`shutdown_drains` is about the runs that end with `Ok`. The replies of the requests are then all
written, and the reply to the shutdown after them.
-/

namespace DaemonFramework.Ingress

open Output Resumption

namespace Writer

variable {w w' : Writer} {id : String}

/-- What a step of the output does, if it does not end it: a command moves from the queue to the
log, or another sender's event goes to the log, or another sender's command into the queue. -/
theorem step_cases {e : WriterStep} (h : w.step e = some w') (hopen : w'.isOpen = true) :
    w.isOpen = true ∧
      ((∃ origin command rest, w.queue = (origin, command) :: rest ∧ w'.queue = rest ∧
          w'.log = w.log ++ [⟨origin, command, (emitCommand w.actor command).lines⟩]) ∨
        (∃ command, command.replyLine = none ∧ w'.queue = w.queue ∧
          w'.log = w.log ++ [⟨none, command, (emitCommand w.actor command).lines⟩]) ∨
        ∃ command, command.replyLine = none ∧ w'.log = w.log ∧
          w'.queue = w.queue ++ [(none, command)]) := by
  have hemit : ∀ (v : Writer) origin command, (v.emit origin command).isOpen = true →
      (v.emit origin command).queue = v.queue ∧ (v.emit origin command).log =
        v.log ++ [⟨origin, command, (emitCommand v.actor command).lines⟩] := by
    intro v origin command hv
    unfold emit settle at hv ⊢
    split_ifs at hv ⊢
    · exact ⟨rfl, rfl⟩
    · cases hv
  unfold step at h
  split_ifs at h with hbefore
  refine ⟨hbefore, ?_⟩
  split at h
  · cases h
  · rename_i origin command rest hqueue
    obtain rfl := Option.some.inj h
    obtain ⟨hrest, hlog⟩ := hemit _ _ _ hopen
    exact .inl ⟨origin, command, rest, hqueue, hrest, hlog⟩
  · rename_i stream event
    obtain rfl := Option.some.inj h
    obtain ⟨hrest, hlog⟩ := hemit _ _ _ hopen
    exact .inr (.inl ⟨.event stream event, rfl, hrest, hlog⟩)
  · rename_i command
    obtain ⟨hother, rfl⟩ := Machine.guarded_eq_some.1 h
    exact .inr (.inr ⟨command, hother, rfl, rfl⟩)
  all_goals
    obtain rfl := Option.some.inj h
    cases hopen

/-- The replies are those of requests: no other sender's command is a reply. -/
structure Unreplied (w : Writer) : Prop where
  /-- In the queue. -/
  queue : ∀ x ∈ w.queue, x.1 = none → x.2.replyLine = none
  /-- In the log. -/
  log : ∀ e ∈ w.log, e.origin = none → ∀ line ∈ e.lines, ¬IsReplyLine line

/-- The entry of the reply to a shutdown. -/
def goodbye (id : String) : Entry := ⟨none, .shutdown id, [shutdownMessage id]⟩

/-- The reply to a shutdown waits, and no reply behind it. -/
structure Queued (id : String) (w : Writer) (before after : List (Option ℕ × OutputCommand)) :
    Prop where
  /-- Where it waits. -/
  queue : w.queue = before ++ (none, .shutdown id) :: after
  /-- What waits before it. -/
  before : ∀ x ∈ before, x.1 = none → x.2.replyLine = none
  /-- What waits behind it. -/
  after : ∀ x ∈ after, x.2.replyLine = none
  /-- What is written. -/
  log : ∀ e ∈ w.log, e.origin = none → ∀ line ∈ e.lines, ¬IsReplyLine line

/-- The reply to a shutdown is written, and no reply behind it. -/
structure Farewell (id : String) (w : Writer) (before after : List Entry) : Prop where
  /-- Where it is written. -/
  log : w.log = before ++ goodbye id :: after
  /-- What is written before it. -/
  before : ∀ e ∈ before, e.origin = none → ∀ line ∈ e.lines, ¬IsReplyLine line
  /-- What is written behind it. -/
  after : ∀ e ∈ after, ∀ line ∈ e.lines, ¬IsReplyLine line
  /-- What waits. -/
  queue : ∀ x ∈ w.queue, x.2.replyLine = none

/-- A command without a reply line writes none. -/
theorem not_isReplyLine_emitCommand {actor : OutputState} {command : OutputCommand}
    (h : command.replyLine = none) :
    ∀ line ∈ (emitCommand actor command).lines, ¬IsReplyLine line := by
  have hfilter := filter_emitCommand actor command
  rw [h, Option.toList_none, List.filter_eq_nil_iff] at hfilter
  simpa using hfilter

/-- A step of the output keeps the replies those of requests. -/
theorem Unreplied.step (h : w.Unreplied) {e : WriterStep} (hstep : w.step e = some w')
    (hopen : w'.isOpen = true) : w'.Unreplied := by
  obtain ⟨-, ⟨origin, command, rest, hqueue, hrest, hlog⟩ | ⟨command, hnone, hsame, hlog⟩ |
    ⟨command, hnone, hsame, hqueue⟩⟩ := step_cases hstep hopen
  · have hhead : origin = none → command.replyLine = none :=
      h.queue (origin, command) (hqueue ▸ List.mem_cons_self)
    refine ⟨fun x hx => h.queue x (hqueue ▸ List.mem_cons_of_mem _ (hrest ▸ hx)), ?_⟩
    rw [hlog]
    exact Roster.forall_mem_append_singleton h.log fun horigin =>
      not_isReplyLine_emitCommand (hhead horigin)
  · refine ⟨hsame ▸ h.queue, ?_⟩
    rw [hlog]
    exact Roster.forall_mem_append_singleton h.log fun _ => not_isReplyLine_emitCommand hnone
  · refine ⟨?_, hsame ▸ h.log⟩
    rw [hqueue]
    exact Roster.forall_mem_append_singleton h.queue fun _ => hnone

/-- A reply that a request sends is one of a request. -/
theorem Unreplied.push (h : w.Unreplied) (k : ℕ) (command : OutputCommand) :
    (w.push (some k) command).Unreplied :=
  ⟨Roster.forall_mem_append_singleton h.queue nofun, h.log⟩

/-- The reply to a shutdown is sent. -/
theorem Unreplied.queued (h : w.Unreplied) (id : String) :
    (w.push none (.shutdown id)).Queued id w.queue [] :=
  ⟨rfl, h.queue, nofun, h.log⟩

/-- A step of the output with the reply to a shutdown in its queue. -/
theorem Queued.step {before after : List (Option ℕ × OutputCommand)} (h : w.Queued id before after)
    {e : WriterStep} (hstep : w.step e = some w') (hopen : w'.isOpen = true) :
    (∃ before after, w'.Queued id before after) ∨ ∃ before after, w'.Farewell id before after := by
  obtain ⟨-, ⟨origin, command, rest, hqueue, hrest, hlog⟩ | ⟨command, hnone, hsame, hlog⟩ |
    ⟨command, hnone, hsame, hqueue⟩⟩ := step_cases hstep hopen
  · rw [h.queue] at hqueue
    cases before with
    | nil =>
      -- It is the reply itself that is written.
      obtain ⟨hhead, rfl⟩ := List.cons.inj hqueue
      obtain ⟨rfl, rfl⟩ := Prod.mk.inj hhead
      exact .inr ⟨w.log, [], hlog, h.log, nofun, hrest ▸ h.after⟩
    | cons x before =>
      obtain ⟨rfl, htail⟩ := List.cons.inj hqueue
      have hhead := h.before _ List.mem_cons_self
      refine .inl ⟨before, after, hrest.trans htail.symm,
        fun x hx => h.before x (List.mem_cons_of_mem _ hx), h.after, ?_⟩
      rw [hlog]
      exact Roster.forall_mem_append_singleton h.log fun horigin =>
        not_isReplyLine_emitCommand (hhead horigin)
  · refine .inl ⟨before, after, hsame.trans h.queue, h.before, h.after, ?_⟩
    rw [hlog]
    exact Roster.forall_mem_append_singleton h.log fun _ => not_isReplyLine_emitCommand hnone
  · refine .inl ⟨before, after ++ [(none, command)], ?_, h.before,
      Roster.forall_mem_append_singleton h.after hnone, hsame ▸ h.log⟩
    rw [hqueue, h.queue, List.append_assoc, List.cons_append]

/-- A step of the output that has written the reply to a shutdown. -/
theorem Farewell.step {before after : List Entry} (h : w.Farewell id before after)
    {e : WriterStep} (hstep : w.step e = some w') (hopen : w'.isOpen = true) :
    ∃ after, w'.Farewell id before after := by
  obtain ⟨-, ⟨origin, command, rest, hqueue, hrest, hlog⟩ | ⟨command, hnone, hsame, hlog⟩ |
    ⟨command, hnone, hsame, hqueue⟩⟩ := step_cases hstep hopen
  · have hhead : command.replyLine = none := h.queue (origin, command) (hqueue ▸ List.mem_cons_self)
    refine ⟨after ++ [⟨origin, command, (emitCommand w.actor command).lines⟩], ?_, h.before,
      Roster.forall_mem_append_singleton h.after (not_isReplyLine_emitCommand hhead),
      fun x hx => h.queue x (hqueue ▸ List.mem_cons_of_mem _ (hrest ▸ hx))⟩
    rw [hlog, h.log, List.append_assoc, List.cons_append]
  · refine ⟨after ++ [⟨none, command, (emitCommand w.actor command).lines⟩], ?_, h.before,
      Roster.forall_mem_append_singleton h.after (not_isReplyLine_emitCommand hnone),
        hsame ▸ h.queue⟩
    rw [hlog, h.log, List.append_assoc, List.cons_append]
  · refine ⟨after, hsame ▸ h.log, h.before, h.after, ?_⟩
    rw [hqueue]
    exact Roster.forall_mem_append_singleton h.queue hnone

end Writer

/-- The task of a request has ended or was aborted. -/
def Bridge.Ticket.Settled (t : Bridge.Ticket) : Prop := t.aborted = true ∨ t.task.current = none

instance (t : Bridge.Ticket) : Decidable t.Settled := by
  unfold Bridge.Ticket.Settled
  infer_instance

namespace Client

/-- Where `run_client_io` is. -/
inductive Phase where
  /-- In its request loop. -/
  | reading
  /-- In `drain_calls`; the deadline of the drain may have expired. The loop has ended with the id of
  a shutdown, or at the end of the input. -/
  | draining (id : Option String) (expired : Bool)
  /-- In `cancel_active`. -/
  | cancelling (id : Option String)
  /-- It is about to send the reply to the shutdown. -/
  | closing (id : Option String)
  /-- It waits for the output to end. -/
  | waiting (id : Option String)
  /-- It has returned `Ok`. -/
  | returned (id : Option String)
  /-- It has returned an error. -/
  | failed
deriving DecidableEq

/-- The bridge and its end. -/
structure State where
  /-- The bridge. -/
  bridge : Bridge.State
  /-- Where `run_client_io` is. -/
  phase : Phase

/-- What happens next. -/
inductive Label where
  /-- The bridge moves. -/
  | bridge (e : Bridge.Label)
  /-- The request loop ends with the id of a shutdown, or at the end of the input. -/
  | stop (id : Option String)
  /-- The deadline of the drain expires. -/
  | expire
  /-- All tasks have ended. -/
  | drained
  /-- `cancel_active` returns, with its requests answered or not. -/
  | cancelled
  /-- It sends the reply to the shutdown. -/
  | reply
  /-- The output has ended, and `run_client_io` returns. -/
  | finish
  /-- It returns an error. -/
  | fail

/-- The bridge may move so in this phase: requests come in only while the loop reads, and tasks are
aborted only after the deadline of the drain. -/
def Phase.Allows : Phase → Bridge.Label → Prop
  | .reading, .abort _ => False
  | .reading, _ => True
  | .draining _ _, .accept _ => False
  | .draining _ expired, .abort _ => expired = true
  | .returned _, _ | .failed, _ => False
  | _, .accept _ | _, .abort _ => False
  | _, _ => True

instance (phase : Phase) (e : Bridge.Label) : Decidable (phase.Allows e) := by
  unfold Phase.Allows
  split <;> infer_instance

/-- `run_client_io`; the drain has a deadline if `shutdown_timeout` is given. -/
def machine (policy : CorrelationPolicy) (pendingLimit maximumCalls : ℕ) (deadline : Bool) :
    Machine State Label where
  init := ⟨(Bridge.machine policy pendingLimit maximumCalls).init, .reading⟩
  step s
    | .bridge e =>
      if s.phase.Allows e then
        ((Bridge.machine policy pendingLimit maximumCalls).step s.bridge e).map fun bridge =>
          { s with bridge }
      else none
    -- A shutdown is not dispatched once the output is closed, and the loop itself has sent the
    -- refusals of the requests before.
    | .stop id =>
      if s.phase = .reading ∧ (id = none ∨ s.bridge.writer.isOpen = true) ∧
          ∀ t ∈ s.bridge.tickets, t.permit = false → t.Settled then
        some { s with phase := .draining id false }
      else none
    | .expire =>
      match s.phase with
      | .draining id false => if deadline then some { s with phase := .draining id true } else none
      | _ => none
    | .drained =>
      match s.phase with
      | .draining id _ =>
        if ∀ t ∈ s.bridge.tickets, t.Settled then some { s with phase := .cancelling id } else none
      | _ => none
    | .cancelled =>
      match s.phase with
      | .cancelling id => some { s with phase := .closing id }
      | _ => none
    | .reply =>
      match s.phase with
      | .closing none => some { s with phase := .waiting none }
      | .closing (some id) =>
        if s.bridge.writer.isOpen then
          some ⟨{ s.bridge with writer := s.bridge.writer.push none (.shutdown id) },
            .waiting (some id)⟩
        else some { s with phase := .failed }
      | _ => none
    -- The output ends by itself when all its senders are gone and its queues are empty.
    | .finish =>
      match s.phase with
      | .waiting id =>
        if s.bridge.writer.isOpen = true ∧ s.bridge.writer.queue = [] then
          some { s with phase := .returned id }
        else none
      | _ => none
    | .fail =>
      match s.phase with
      | .reading => some { s with phase := .failed }
      | .waiting _ => if s.bridge.writer.isOpen then none else some { s with phase := .failed }
      | _ => none

/-- The requests are over. -/
def Phase.Over : Phase → Prop
  | .cancelling _ | .closing _ | .waiting _ | .returned _ => True
  | _ => False

/-- The id of the shutdown whose reply has been sent. -/
def Phase.replied : Phase → Option String
  | .waiting id | .returned id => id
  | _ => none

/-- Where the reply to a shutdown is, if it has been sent. -/
def Placed (w : Writer) : Option String → Prop
  | none => w.Unreplied
  | some id => (∃ before after, w.Queued id before after) ∨ ∃ before after, w.Farewell id before after

/-- What holds in every state. -/
structure Invariant (deadline : Bool) (s : State) : Prop where
  /-- The requests are kept to their discipline. -/
  bridge : Bridge.Invariant s.bridge
  /-- Once they are over, none of their tasks goes on. -/
  settled : s.phase.Over → ∀ t ∈ s.bridge.tickets, t.Settled
  /-- Without a deadline no task is aborted. -/
  kept : deadline = false → (∀ t ∈ s.bridge.tickets, t.aborted = false) ∧
    ∀ id, s.phase ≠ .draining id true
  /-- No reply comes behind the one to the shutdown. -/
  placed : s.bridge.writer.isOpen = true → Placed s.bridge.writer s.phase.replied
  /-- It returns only when the output is drained. -/
  drained : ∀ id, s.phase = .returned id → s.bridge.writer.Drained

variable {policy : CorrelationPolicy} {pendingLimit maximumCalls : ℕ} {deadline : Bool}

section Bridge

variable {b b' : Bridge.State} {e : Bridge.Label}

/-- What a step of the bridge does to its output. -/
theorem writer_cases (h : (Bridge.machine policy pendingLimit maximumCalls).step b e = some b') :
    b'.writer = b.writer ∨ (∃ k command, b.writer.isOpen = true ∧
        b'.writer = b.writer.push (some k) command) ∨
      ∃ w, e = .writer w ∧ b.writer.step w = some b'.writer := by
  cases e with
  | accept message =>
    obtain ⟨-, rfl⟩ := Machine.guarded_eq_some.1 h
    refine .inl ?_
    unfold Bridge.State.spawnRequest
    split <;> rfl
  | wake k e =>
    obtain ⟨t, ht, h⟩ := Option.bind_eq_some_iff.1 h
    obtain ⟨-, h⟩ := Option.ite_none_left_eq_some.1 h
    obtain ⟨task, -, h⟩ := Option.bind_eq_some_iff.1 h
    obtain ⟨w, hanswered, rfl⟩ := Option.map_eq_some_iff.1 h
    unfold Bridge.State.answered at hanswered
    split at hanswered
    · unfold Writer.answer at hanswered
      split at hanswered
      · obtain ⟨hopen, rfl⟩ := Machine.guarded_eq_some.1 hanswered
        exact .inr (.inl ⟨k, _, hopen, rfl⟩)
      · obtain ⟨-, rfl⟩ := Machine.refused_eq_some.1 hanswered
        exact .inl rfl
    · obtain rfl := Option.some.inj hanswered
      exact .inl rfl
  | abort k =>
    obtain ⟨t, ht, h⟩ := Option.bind_eq_some_iff.1 h
    obtain ⟨-, rfl⟩ := Machine.guarded_eq_some.1 h
    exact .inl rfl
  | writer w =>
    obtain ⟨w', hw, rfl⟩ := Option.map_eq_some_iff.1 h
    exact .inr (.inr ⟨w, rfl, hw⟩)

/-- A step of the bridge that aborts no task. -/
theorem unaborted_step (h : (Bridge.machine policy pendingLimit maximumCalls).step b e = some b')
    (hnone : ∀ t ∈ b.tickets, t.aborted = false) (habort : ∀ k, e ≠ .abort k) :
    ∀ t ∈ b'.tickets, t.aborted = false := by
  cases e with
  | accept message =>
    obtain ⟨-, rfl⟩ := Machine.guarded_eq_some.1 h
    unfold Bridge.State.spawnRequest
    split <;> exact Roster.forall_mem_append_singleton hnone rfl
  | wake k e =>
    obtain ⟨t, ht, h⟩ := Option.bind_eq_some_iff.1 h
    obtain ⟨-, h⟩ := Option.ite_none_left_eq_some.1 h
    obtain ⟨task, -, h⟩ := Option.bind_eq_some_iff.1 h
    obtain ⟨w, -, rfl⟩ := Option.map_eq_some_iff.1 h
    exact Roster.forall_mem_set hnone (hnone t (List.mem_of_getElem? ht))
  | abort k => exact absurd rfl (habort k)
  | writer w =>
    obtain ⟨w', -, rfl⟩ := Option.map_eq_some_iff.1 h
    exact hnone

/-- A task that has ended or was aborted is not woken. -/
theorem not_wake (hsettled : ∀ t ∈ b.tickets, t.Settled) (k : ℕ)
    (w : Event Bridge.Op Bridge.Op.Answer) :
    (Bridge.machine policy pendingLimit maximumCalls).step b (.wake k w) ≠ some b' := by
  intro h
  obtain ⟨t, ht, h⟩ := Option.bind_eq_some_iff.1 h
  obtain ⟨hkept, h⟩ := Option.ite_none_left_eq_some.1 h
  obtain ⟨task, hresume, -⟩ := Option.bind_eq_some_iff.1 h
  rcases hsettled t (List.mem_of_getElem? ht) with haborted | hended
  · exact hkept haborted
  · rw [current_of_resume hresume] at hended
    cases hended

/-- Once the requests are over, only the output moves. -/
theorem writer_of_over {phase : Phase} (hover : phase.Over) (hallows : phase.Allows e)
    (hsettled : ∀ t ∈ b.tickets, t.Settled)
    (h : (Bridge.machine policy pendingLimit maximumCalls).step b e = some b') :
    b'.tickets = b.tickets ∧ ∃ w, b.writer.step w = some b'.writer := by
  cases e with
  | wake k w => exact absurd h (not_wake hsettled k w)
  | writer w =>
    obtain ⟨w', hw, rfl⟩ := Option.map_eq_some_iff.1 h
    exact ⟨rfl, w, hw⟩
  | accept message => cases phase <;> first | exact hover.elim | exact hallows.elim
  | abort k => cases phase <;> first | exact hover.elim | exact hallows.elim

/-- Tasks are aborted only in a drain whose deadline has expired. -/
theorem not_abort {phase : Phase} (hallows : phase.Allows e)
    (hphase : ∀ id, phase ≠ .draining id true)
    (k : ℕ) : e ≠ .abort k := by
  rintro rfl
  cases phase with
  | draining id expired =>
    obtain rfl : expired = true := hallows
    exact hphase id rfl
  | _ => exact hallows

end Bridge

/-- A step of the output keeps the reply to the shutdown in its place. -/
theorem Placed.step {w w' : Writer} {id : Option String} (h : w.isOpen = true → Placed w id)
    {e : WriterStep} (hstep : w.step e = some w') (hopen : w'.isOpen = true) : Placed w' id := by
  have hplaced := h (Writer.step_cases hstep hopen).1
  cases id with
  | none => exact Writer.Unreplied.step hplaced hstep hopen
  | some id =>
    rcases hplaced with ⟨before, after, hqueued⟩ | ⟨before, after, hfarewell⟩
    · exact hqueued.step hstep hopen
    · exact .inr ⟨before, hfarewell.step hstep hopen⟩

namespace Invariant

variable {s t : State}

/-- The start. -/
theorem init : Invariant deadline (machine policy pendingLimit maximumCalls deadline).init where
  bridge := Bridge.Invariant.init policy pendingLimit maximumCalls
  settled := nofun
  kept _ := ⟨nofun, nofun⟩
  placed _ := ⟨nofun, nofun⟩
  drained := nofun

/-- The bridge moves. -/
theorem moved (h : Invariant deadline s) {e : Bridge.Label} {b : Bridge.State}
    (hallows : s.phase.Allows e)
    (hstep : (Bridge.machine policy pendingLimit maximumCalls).step s.bridge e = some b) :
    Invariant deadline { s with bridge := b } where
  bridge := h.bridge.step hstep
  settled := by
    intro hover
    obtain ⟨hsame, -⟩ := writer_of_over hover hallows (h.settled hover) hstep
    show ∀ t ∈ b.tickets, t.Settled
    rw [hsame]
    exact h.settled hover
  kept := by
    intro hdeadline
    obtain ⟨hnone, hphase⟩ := h.kept hdeadline
    exact ⟨unaborted_step hstep hnone (not_abort hallows hphase), hphase⟩
  placed := by
    intro hopen
    change b.writer.isOpen = true at hopen
    show Placed b.writer s.phase.replied
    by_cases hover : s.phase.Over
    · obtain ⟨-, w, hw⟩ := writer_of_over hover hallows (h.settled hover) hstep
      exact Placed.step h.placed hw hopen
    -- The reply to the shutdown has not been sent yet.
    · have hreplied : s.phase.replied = none := by
        cases hphase : s.phase <;> first | rfl | exact absurd (hphase ▸ trivial) hover
      have hplaced := h.placed
      rw [hreplied] at hplaced ⊢
      rcases writer_cases hstep with hsame | ⟨k, command, hbefore, hpush⟩ | ⟨w, -, hw⟩
      · rw [hsame] at hopen ⊢
        exact hplaced hopen
      · rw [hpush]
        exact Writer.Unreplied.push (hplaced hbefore) k command
      · exact Placed.step hplaced hw hopen
  drained := by
    intro id hphase
    change s.phase = .returned id at hphase
    rw [hphase] at hallows
    exact hallows.elim

/-- `run_client_io` goes on to another phase, before it has sent the reply. -/
theorem phase (h : Invariant deadline s) {next : Phase} (hreplied : next.replied = s.phase.replied)
    (hover : next.Over → ∀ t ∈ s.bridge.tickets, t.Settled)
    (hexpired : ∀ id, next = .draining id true → deadline = true)
    (hdrained : ∀ id, next = .returned id → s.bridge.writer.Drained) :
    Invariant deadline { s with phase := next } where
  bridge := h.bridge
  settled := hover
  kept := by
    intro hdeadline
    refine ⟨(h.kept hdeadline).1, fun id hnext => ?_⟩
    rw [hexpired id hnext] at hdeadline
    cases hdeadline
  placed := by
    show s.bridge.writer.isOpen = true → Placed s.bridge.writer next.replied
    rw [hreplied]
    exact h.placed
  drained := hdrained

/-- It fails while the output is closed, or before it has sent the reply. -/
theorem failed (h : Invariant deadline s)
    (hnone : s.bridge.writer.isOpen = true → s.phase.replied = none) :
    Invariant deadline { s with phase := .failed } where
  bridge := h.bridge
  settled := nofun
  kept hdeadline := ⟨(h.kept hdeadline).1, nofun⟩
  placed := by
    intro hopen
    have hplaced := h.placed hopen
    rw [hnone hopen] at hplaced
    exact hplaced
  drained := nofun

/-- It sends the reply to the shutdown. -/
theorem reply (h : Invariant deadline s) (id : String) (hphase : s.phase = .closing (some id))
    (hopen : s.bridge.writer.isOpen = true) :
    Invariant deadline ⟨{ s.bridge with writer := s.bridge.writer.push none (.shutdown id) },
      .waiting (some id)⟩ where
  bridge := by
    refine ⟨h.bridge.sound, fun k => ?_⟩
    have hpush := (h.bridge.accounts k).push hopen none (.shutdown id)
    simpa using hpush
  settled _ := h.settled (hphase ▸ trivial)
  kept hdeadline := ⟨(h.kept hdeadline).1, nofun⟩
  placed := by
    intro _
    have hplaced := h.placed hopen
    rw [hphase] at hplaced
    exact .inl ⟨_, _, Writer.Unreplied.queued hplaced id⟩
  drained := nofun

/-- Every step keeps the invariant. -/
theorem step (h : Invariant deadline s) {e : Label}
    (hstep : (machine policy pendingLimit maximumCalls deadline).step s e = some t) :
    Invariant deadline t := by
  cases e with
  -- The bridge goes on during the drain.
  | bridge e =>
    obtain ⟨hallows, hsome⟩ := Option.ite_none_right_eq_some.1 hstep
    obtain ⟨b, hb, rfl⟩ := Option.map_eq_some_iff.1 hsome
    exact h.moved hallows hb
  | stop id =>
    obtain ⟨⟨hphase, -⟩, rfl⟩ := Machine.guarded_eq_some.1 hstep
    exact h.phase (by rw [hphase]; rfl) nofun nofun nofun
  -- The phases of the shutdown in their order, from the drain to the end.
  | expire =>
    simp only [machine] at hstep
    split at hstep
    · rename_i id hphase
      obtain ⟨hdeadline, rfl⟩ := Machine.guarded_eq_some.1 hstep
      exact h.phase (by rw [hphase]; rfl) nofun (fun _ _ => hdeadline) nofun
    · cases hstep
  | drained =>
    simp only [machine] at hstep
    split at hstep
    · rename_i id expired hphase
      obtain ⟨hsettled, rfl⟩ := Machine.guarded_eq_some.1 hstep
      exact h.phase (by rw [hphase]; rfl) (fun _ => hsettled) nofun nofun
    · cases hstep
  | cancelled =>
    simp only [machine] at hstep
    split at hstep
    · rename_i id hphase
      obtain rfl := Option.some.inj hstep
      exact h.phase (by rw [hphase]; rfl) (fun _ => h.settled (hphase ▸ trivial)) nofun nofun
    · cases hstep
  | reply =>
    simp only [machine] at hstep
    split at hstep
    · rename_i hphase
      obtain rfl := Option.some.inj hstep
      exact h.phase (by rw [hphase]; rfl) (fun _ => h.settled (hphase ▸ trivial)) nofun nofun
    · rename_i id hphase
      split_ifs at hstep with hopen
      · obtain rfl := Option.some.inj hstep
        exact h.reply id hphase hopen
      · obtain rfl := Option.some.inj hstep
        exact h.failed fun hyes => absurd hyes hopen
    · cases hstep
  | finish =>
    simp only [machine] at hstep
    split at hstep
    · rename_i id hphase
      obtain ⟨hdrained, rfl⟩ := Machine.guarded_eq_some.1 hstep
      exact h.phase (by rw [hphase]; rfl) (fun _ => h.settled (hphase ▸ trivial)) nofun
        (fun _ _ => hdrained)
    · cases hstep
  | fail =>
    simp only [machine] at hstep
    split at hstep
    · rename_i hphase
      obtain rfl := Option.some.inj hstep
      exact h.failed fun _ => by rw [hphase]; rfl
    · obtain ⟨hclosed, rfl⟩ := Machine.refused_eq_some.1 hstep
      exact h.failed fun hopen => absurd hopen hclosed
    · cases hstep

/-- The invariant holds in every run. -/
theorem of_reachable (h : (machine policy pendingLimit maximumCalls deadline).Reachable s) :
    Invariant deadline s :=
  Machine.invariant_of_reachable init (fun _ _ _ hs hstep => hs.step hstep) h

end Invariant

/-- Where `run_client_io` returns `Ok`, every accepted request whose task was not aborted has its
one reply, which carries its id and route and does not misreport whether it was dispatched
(`Truthful`), and without a deadline no task is aborted. After a shutdown,
its reply comes behind all replies to requests, and no other reply comes behind it; at the end of
the input there is no such reply. -/
theorem shutdown_drains (policy : CorrelationPolicy) (pendingLimit maximumCalls : ℕ)
    (deadline : Bool)
    {s : State} (h : (machine policy pendingLimit maximumCalls deadline).Reachable s)
    {id : Option String} (hreturned : s.phase = .returned id) :
    (∀ k t, s.bridge.tickets[k]? = some t → t.aborted = false →
      ∃ line, s.bridge.writer.written k = [line] ∧
        Truthful t.message (Bridge.invocations t.begun) (Bridge.answers t.past) line) ∧
    (deadline = false → ∀ t ∈ s.bridge.tickets, t.aborted = false) ∧
    match id with
    | none => s.bridge.writer.Unreplied
    | some id => ∃ before after, s.bridge.writer.Farewell id before after := by
  have hinvariant := Invariant.of_reachable h
  have hdrained := hinvariant.drained id hreturned
  refine ⟨fun k t ht hkept => ?_, fun hdeadline => (hinvariant.kept hdeadline).1, ?_⟩
  · have hsettled := hinvariant.settled (hreturned ▸ trivial) t (List.mem_of_getElem? ht)
    -- The task has ended, as it was not aborted, and the writer has written what it sent.
    have hended : t.task.current = none := hsettled.resolve_left (by rw [hkept]; exact nofun)
    have hdisciplined := hinvariant.bridge.disciplined ht
    have hone : (s.bridge.writer.written k).length = 1 :=
      hdisciplined.exactlyOne hdrained (by simp [Bridge.State.account, hended])
    obtain ⟨line, hline⟩ := List.length_eq_one_iff.1 hone
    have hmem : line ∈ s.bridge.writer.written k := by
      rw [hline]
      exact List.mem_singleton_self line
    exact ⟨line, hline, hdisciplined.truthful line hmem⟩
  · have hplaced := hinvariant.placed hdrained.1
    rw [hreturned] at hplaced
    cases id with
    | none => exact hplaced
    | some id =>
      rcases hplaced with ⟨before, after, hqueued⟩ | hfarewell
      -- Nothing waits any more.
      · have hempty := hqueued.queue
        rw [hdrained.2] at hempty
        cases before <;> cases hempty
      · exact hfarewell

/-- A shutdown while a call is at work, whose own deadline expires in the drain. -/
def lateShutdown : List Label :=
  [.bridge (.accept ⟨.call "1" "slow" .null, none⟩),
    .stop (some "2"),
    .bridge (.wake 0 ⟨.get, .answered (.ok ())⟩),
    .bridge (.wake 0 ⟨.proxy, .answered (.ok ())⟩),
    .bridge (.wake 0 ⟨.invoke (.call "slow" .null), .expired 0⟩),
    .bridge (.wake 0 ⟨.send (.requestError "1" "outcome-unknown"
      ("daemon request timed out after 30000ms; outcome unknown; " ++
        "reconcile state, do not retry automatically") none), .answered (.ok ())⟩),
    .drained, .cancelled, .reply, .bridge (.writer .process), .bridge (.writer .process), .finish]

/-- The call has its reply before the shutdown has its own. -/
theorem shutdown_drains_late : ∃ s, (machine basicCorrelation 1 1 false).run
    (machine basicCorrelation 1 1 false).init lateShutdown = some s ∧
    (s.bridge.writer.written 0).length = 1 ∧
    ∃ before after, s.bridge.writer.Farewell "2" before after := by
  obtain ⟨s, hrun, hphase, hlength⟩ : ∃ s, (machine basicCorrelation 1 1 false).run
      (machine basicCorrelation 1 1 false).init lateShutdown = some s ∧
      s.phase = .returned (some "2") ∧ (s.bridge.writer.written 0).length = 1 := ⟨_, rfl, rfl, rfl⟩
  exact ⟨s, hrun, hlength, (shutdown_drains basicCorrelation 1 1 false ⟨_, hrun⟩ hphase).2.2⟩

end Client

end DaemonFramework.Ingress
