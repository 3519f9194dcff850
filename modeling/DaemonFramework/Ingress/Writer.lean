import DaemonFramework.Machine
import DaemonFramework.Output.Representation

/-!
# The output of an ingress path

The output actor as the tasks of the requests see it. Each of them sends commands, which wait in the
queue of the actor, and the actor writes the lines of one command after the other until an error or
the end of its path closes it. A command keeps the index of the request whose task sent it, so that
the reply lines of one request can be told from those of another with the same id.

The event queue has no part in the replies: an event is written when the actor takes it. The
capacities of the queues are left out; they only delay a sender.

`Accounts` says that nothing is lost and nothing is written twice: while the output is open, the
reply lines written for a request and those still waiting are those of the replies sent.
-/

namespace DaemonFramework

namespace Output

/-- The line is a reply to a request. -/
def IsReplyLine (line : Value) : Prop := lineKind line = some "response"

instance (line : Value) : Decidable (IsReplyLine line) := by
  unfold IsReplyLine
  infer_instance

/-- The line of a response, without its route. -/
def responseLine (id : String) : Except String Value → Value
  | .ok response => responseMessage id response
  | .error error => responseErrorMessage id error

/-- The reply line that a command writes. -/
def OutputCommand.replyLine : OutputCommand → Option Value
  | .requestError id outcome message route =>
    some (addressedMessage
      ((responseErrorMessage id message).setField "outcome" (.string outcome)) route)
  | .response id result _ route => some (addressedMessage (responseLine id result) route)
  | .shutdown id => some (shutdownMessage id)
  | _ => none

/-- A reply line is of the kind that it is to have. -/
theorem isReplyLine_of_replyLine {c : OutputCommand} {line : Value} (h : c.replyLine = some line) :
    IsReplyLine line := by
  unfold IsReplyLine
  cases c with
  | requestError id outcome message route =>
    obtain rfl := Option.some.inj h
    simp only [responseErrorMessage, Value.setField, lineKind_addressedMessage]
    rfl
  | response id result cancelledRequestId route =>
    cases result with
    | ok response =>
      obtain rfl := Option.some.inj h
      simp only [responseLine, responseMessage, Value.setField, lineKind_addressedMessage]
      rfl
    | error error =>
      obtain rfl := Option.some.inj h
      simp only [responseLine, responseErrorMessage, lineKind_addressedMessage]
      rfl
  | shutdown id =>
    obtain rfl := Option.some.inj h
    rfl
  | _ => cases h

/-- A line of another kind is no reply. -/
theorem not_isReplyLine_of_kind {line : Value} (kind : String) (h : lineKind line = some kind)
    (hne : kind ≠ "response") : ¬IsReplyLine line := by
  simpa [IsReplyLine, h] using hne

/-- The line of an event is no reply. -/
theorem not_isReplyLine_eventLine (s : OutputState) (stream : String) (event : Value) :
    ¬IsReplyLine (s.eventLine stream event) := by
  have hkind : lineKind (s.eventLine stream event) = some "event" := by
    simp only [OutputState.eventLine, DaemonFramework.eventMessage, Value.setField,
      lineKind_addressedMessage]
    rfl
  exact not_isReplyLine_of_kind "event" hkind (by decide)

/-- The line of an accepted event is no reply. -/
theorem not_isReplyLine_acceptEvent {s s' : OutputState} {id : Option String} {stream : String}
    {event : Value} {message : Option Value}
    (h : s.acceptEvent id stream event = (s', .ok message)) :
    ∀ line ∈ message.toList, ¬IsReplyLine line := by
  have hcases := acceptEvent_cases s id stream event
  rw [h] at hcases
  have hmessage : message = none ∨ message = some (s.eventLine stream event) := by
    rcases hcases with h | h | ⟨i, -, -, h⟩ | ⟨i, -, -, -, -, h⟩ | ⟨-, h⟩ <;>
      simp_all [Prod.ext_iff]
  rcases hmessage with rfl | rfl
  · simp
  · simpa using not_isReplyLine_eventLine s stream event

/-- The replayed events are no replies. -/
theorem not_isReplyLine_replay (s : OutputState) (events : List PendingEvent) :
    ∀ line ∈ (replay s events).lines, ¬IsReplyLine line := by
  induction events generalizing s with
  | nil => simp [replay, Emission.done]
  | cons e rest ih =>
    rcases haccept : s.acceptEvent (some e.id) e.stream e.event with ⟨s', result⟩
    cases result with
    | error error => simp [replay, haccept]
    | ok message =>
      intro line hline
      simp only [replay, haccept, List.mem_append] at hline
      rcases hline with hline | hline
      · exact not_isReplyLine_acceptEvent haccept line hline
      · exact ih s' line hline

/-- A command writes its reply line first, and no other reply. -/
theorem emitCommand_lines (s : OutputState) (c : OutputCommand) :
    ∃ rest, (emitCommand s c).lines = c.replyLine.toList ++ rest ∧
      ∀ line ∈ rest, ¬IsReplyLine line := by
  cases c with
  | requestError id outcome message route => exact ⟨[], rfl, by simp⟩
  | response id result cancelledRequestId route =>
    -- The reply is the head of the lines, and the replayed events are the rest.
    cases result <;> exact ⟨_, rfl, not_isReplyLine_replay _ _⟩
  | activeIds owner => exact ⟨[], rfl, by simp⟩
  | cancelled id => exact ⟨[], rfl, by simp⟩
  | event stream event =>
    rcases haccept : s.acceptEvent (s.policy.eventId stream event) stream event with ⟨s', result⟩
    cases result with
    | error error =>
      rw [emitCommand_event_error rfl haccept]
      exact ⟨[transportErrorMessage error], rfl, by
      simpa using not_isReplyLine_of_kind "transport-error" rfl (by decide)⟩
    | ok message =>
      rw [emitCommand_event_ok rfl haccept]
      exact ⟨message.toList, rfl, not_isReplyLine_acceptEvent haccept⟩
  | protocolError error => exact ⟨[protocolErrorMessage error], rfl, by
      simpa using not_isReplyLine_of_kind "protocol-error" rfl (by decide)⟩
  | transportError error => exact ⟨[transportErrorMessage error], rfl, by
      simpa using not_isReplyLine_of_kind "transport-error" rfl (by decide)⟩
  | resetCorrelation => exact ⟨[], rfl, by simp⟩
  | shutdown id => exact ⟨[], rfl, by simp⟩

/-- The reply line of a command is a reply. -/
theorem filter_replyLine (c : OutputCommand) :
    c.replyLine.toList.filter (IsReplyLine ·) = c.replyLine.toList := by
  rw [List.filter_eq_self]
  intro line hline
  simpa using isReplyLine_of_replyLine (Option.mem_toList.1 hline)

/-- Among the lines of a command, its reply line is the only reply. -/
theorem filter_emitCommand (s : OutputState) (c : OutputCommand) :
    (emitCommand s c).lines.filter (IsReplyLine ·) = c.replyLine.toList := by
  obtain ⟨rest, hlines, hrest⟩ := emitCommand_lines s c
  have hnil : rest.filter (IsReplyLine ·) = [] := by
    rw [List.filter_eq_nil_iff]
    simpa using hrest
  rw [hlines, List.filter_append, filter_replyLine, hnil, List.append_nil]

/-- The same holds of its first lines. -/
theorem filter_take_emitCommand (s : OutputState) (c : OutputCommand) (n : ℕ) :
    ((emitCommand s c).lines.take (n + 1)).filter (IsReplyLine ·) = c.replyLine.toList := by
  obtain ⟨rest, hlines, hrest⟩ := emitCommand_lines s c
  have hnil : (rest.take (n + 1 - c.replyLine.toList.length)).filter (IsReplyLine ·) = [] := by
    rw [List.filter_eq_nil_iff]
    intro line hline
    simpa using hrest line (List.mem_of_mem_take hline)
  have hlength : c.replyLine.toList.length ≤ n + 1 := by
    cases c.replyLine <;> simp
  rw [hlines, List.take_append, List.take_of_length_le hlength, List.filter_append,
    filter_replyLine, hnil, List.append_nil]

end Output

namespace Ingress

open Output

/-- A command that the actor has taken from a queue. -/
structure Entry where
  /-- The request whose task sent it. -/
  origin : Option ℕ
  /-- The command. -/
  command : OutputCommand
  /-- The lines written for it. -/
  lines : List Value

/-- The output of a path. -/
structure Writer where
  /-- The state of the actor. -/
  actor : OutputState
  /-- The commands that wait for the actor, with the requests whose tasks sent them. -/
  queue : List (Option ℕ × OutputCommand)
  /-- What the actor has done. -/
  log : List Entry
  /-- The actor still takes commands. -/
  isOpen : Bool

/-- What happens to the output besides what the requests send. -/
inductive WriterStep where
  /-- The actor takes the next command and writes its lines. -/
  | process
  /-- The actor takes an event and writes its line, if it is to be written. -/
  | event (stream : String) (event : Value)
  /-- Another sender sends a command that is no reply. -/
  | other (command : OutputCommand)
  /-- The writer fails after so many lines of the next command, or the actor is aborted there. -/
  | fail (count : ℕ)

namespace Writer

/-- The output at its start. -/
def new (policy : CorrelationPolicy) (pendingLimit : ℕ) : Writer :=
  ⟨.new policy pendingLimit, [], [], true⟩

/-- A command is sent. -/
def push (w : Writer) (origin : Option ℕ) (command : OutputCommand) : Writer :=
  { w with queue := w.queue ++ [(origin, command)] }

/-- The actor ends, and its queue with it. -/
def close (w : Writer) : Writer := { w with queue := [], isOpen := false }

/-- The actor has written these lines of a command. -/
def record (w : Writer) (origin : Option ℕ) (command : OutputCommand) (lines : List Value) :
    Writer :=
  { w with log := w.log ++ [⟨origin, command, lines⟩] }

/-- The actor goes on in the state that a command left, or ends with its error. -/
def settle (w : Writer) (emission : Emission) : Writer :=
  if emission.result.isOk then { w with actor := emission.state } else w.close

/-- The actor processes a command. -/
def emit (w : Writer) (origin : Option ℕ) (command : OutputCommand) : Writer :=
  (w.record origin command (emitCommand w.actor command).lines).settle
    (emitCommand w.actor command)

/-- One step of the output. -/
def step (w : Writer) (e : WriterStep) : Option Writer :=
  if w.isOpen then
    match e, w.queue with
    | .process, [] => none
    | .process, (origin, command) :: rest => some ({ w with queue := rest }.emit origin command)
    | .event stream event, _ => some (w.emit none (.event stream event))
    | .other command, _ => if command.replyLine = none then some (w.push none command) else none
    | .fail _, [] => some w.close
    | .fail 0, _ => some w.close
    | .fail (n + 1), (origin, command) :: _ =>
      some (w.record origin command ((emitCommand w.actor command).lines.take (n + 1))).close
  else none

/-- What `OutputHandle::send` answers to the task of a request: the command is queued while the
output is open, and refused from then on. -/
def answer (w : Writer) (origin : ℕ) (command : OutputCommand) : Except String Unit → Option Writer
  | .ok () => if w.isOpen then some (w.push (some origin) command) else none
  | .error _ => if w.isOpen then none else some w

/-- The reply lines written for a request. -/
def written (w : Writer) (k : ℕ) : List Value :=
  w.log.flatMap fun e => if e.origin = some k then e.lines.filter (IsReplyLine ·) else []

/-- The reply lines that wait for a request. -/
def queued (w : Writer) (k : ℕ) : List Value :=
  w.queue.flatMap fun e => if e.1 = some k then e.2.replyLine.toList else []

/-- The output is open, and has written all that it was sent. -/
def Drained (w : Writer) : Prop := w.isOpen = true ∧ w.queue = []

/-- The reply lines of a request come from the replies `sent`, in their order. -/
structure Accounts (w : Writer) (k : ℕ) (sent : List Value) : Prop where
  /-- Nothing else is written. -/
  isPrefix : w.written k ++ w.queued k <+: sent
  /-- While the output is open, all of them are written or wait. -/
  complete : w.isOpen = true → w.written k ++ w.queued k = sent

variable {w w' : Writer} {k : ℕ} {sent : List Value}

@[simp] theorem written_push (w : Writer) (origin : Option ℕ) (command : OutputCommand) (k : ℕ) :
    (w.push origin command).written k = w.written k := rfl

@[simp] theorem queued_push (w : Writer) (origin : Option ℕ) (command : OutputCommand) (k : ℕ) :
    (w.push origin command).queued k =
      w.queued k ++ if origin = some k then command.replyLine.toList else [] := by
  simp [queued, push]

@[simp] theorem written_close (w : Writer) (k : ℕ) : w.close.written k = w.written k := rfl

@[simp] theorem queued_close (w : Writer) (k : ℕ) : w.close.queued k = [] := rfl

@[simp] theorem written_record (w : Writer) (origin : Option ℕ) (command : OutputCommand)
    (lines : List Value) (k : ℕ) :
    (w.record origin command lines).written k =
      w.written k ++ if origin = some k then lines.filter (IsReplyLine ·) else [] := by
  simp [written, record]

@[simp] theorem written_settle (w : Writer) (emission : Emission) (k : ℕ) :
    (w.settle emission).written k = w.written k := by
  unfold settle
  split_ifs <;> rfl

/-- The reply line of a command that is processed is written. -/
theorem written_emit (w : Writer) (origin : Option ℕ) (command : OutputCommand) (k : ℕ) :
    (w.emit origin command).written k =
      w.written k ++ if origin = some k then command.replyLine.toList else [] := by
  rw [emit, written_settle, written_record, filter_emitCommand]

/-- The processing of a command leaves the queue alone, or drops it with the output. -/
theorem queued_emit (w : Writer) (origin : Option ℕ) (command : OutputCommand) (k : ℕ) :
    (w.emit origin command).queued k = w.queued k ∨
      (w.emit origin command).queued k = [] ∧ (w.emit origin command).isOpen = false := by
  unfold emit settle
  split_ifs
  · exact .inl rfl
  · exact .inr ⟨rfl, rfl⟩

namespace Accounts

/-- A new output has nothing to account for. -/
theorem new (policy : CorrelationPolicy) (pendingLimit k : ℕ) :
    (Writer.new policy pendingLimit).Accounts k [] := ⟨List.prefix_rfl, fun _ => rfl⟩

/-- A command is sent. -/
theorem push (h : w.Accounts k sent) (hopen : w.isOpen = true) (origin : Option ℕ)
    (command : OutputCommand) :
    (w.push origin command).Accounts k
      (sent ++ if origin = some k then command.replyLine.toList else []) := by
  have heq : (w.push origin command).written k ++ (w.push origin command).queued k =
      sent ++ if origin = some k then command.replyLine.toList else [] := by
    rw [written_push, queued_push, ← List.append_assoc, h.complete hopen]
  exact ⟨heq ▸ List.prefix_rfl, fun _ => heq⟩

/-- The output ends. -/
theorem close (h : w.Accounts k sent) : w.close.Accounts k sent where
  isPrefix := by
    rw [written_close, queued_close, List.append_nil]
    exact (List.prefix_append _ _).trans h.isPrefix
  complete hopen := by cases hopen

/-- What a command writes is what it no longer leaves to wait. -/
theorem emit {origin : Option ℕ} {command : OutputCommand}
    (h : w.Accounts k sent)
    (hmoved : w'.written k ++ (if origin = some k then command.replyLine.toList else []) ++
      w'.queued k = w.written k ++ w.queued k) (hopen : w.isOpen = true) :
    (w'.emit origin command).Accounts k sent := by
  have hwritten := written_emit w' origin command k
  rcases queued_emit w' origin command k with hqueued | ⟨hqueued, hclosed⟩
  · have heq : (w'.emit origin command).written k ++ (w'.emit origin command).queued k = sent := by
      rw [hwritten, hqueued, hmoved, h.complete hopen]
    exact ⟨heq ▸ List.prefix_rfl, fun _ => heq⟩
  · refine ⟨?_, fun hopen' => by rw [hclosed] at hopen'; cases hopen'⟩
    rw [hwritten, hqueued, List.append_nil, ← h.complete hopen, ← hmoved]
    exact List.prefix_append _ _

/-- A step of the output keeps the accounts of every request. -/
theorem step {e : WriterStep} (h : w.Accounts k sent) (hstep : w.step e = some w') :
    w'.Accounts k sent := by
  unfold Writer.step at hstep
  split_ifs at hstep with hopen
  split at hstep
  · cases hstep
  · rename_i origin command rest hqueue
    obtain rfl := Option.some.inj hstep
    -- The command leaves the head of the queue.
    apply h.emit _ hopen
    simp only [written, queued, hqueue, List.flatMap_cons, List.append_assoc]
  · rename_i stream event
    obtain rfl := Option.some.inj hstep
    apply h.emit _ hopen
    simp
  · rename_i command
    obtain ⟨hother, rfl⟩ := Machine.guarded_eq_some.1 hstep
    have hpush := h.push hopen none command
    simpa using hpush
  · obtain rfl := Option.some.inj hstep
    exact h.close
  · obtain rfl := Option.some.inj hstep
    exact h.close
  · rename_i n origin command rest hqueue
    obtain rfl := Option.some.inj hstep
    -- Its reply line, if it has one, is among the lines that are written.
    have hsplit : w.queued k =
        (if origin = some k then command.replyLine.toList else []) ++
          ({ w with queue := rest } : Writer).queued k := by
      simp only [queued, hqueue, List.flatMap_cons]
    refine ⟨?_, fun hopen' => by cases hopen'⟩
    rw [written_close, queued_close, List.append_nil, written_record, filter_take_emitCommand,
      ← h.complete hopen, hsplit, ← List.append_assoc]
    exact List.prefix_append _ _

/-- What `send` answers agrees with the accounts of the sender, whose reply counts as sent either
way, and with those of the other requests. -/
theorem answer {origin : ℕ} {command : OutputCommand} {r : Except String Unit}
    (h : w.Accounts k sent) (hanswer : w.answer origin command r = some w') :
    w'.Accounts k (sent ++ if origin = k then command.replyLine.toList else []) := by
  unfold Writer.answer at hanswer
  split at hanswer
  · obtain ⟨hopen, rfl⟩ := Machine.guarded_eq_some.1 hanswer
    simpa using h.push hopen (some origin) command
  · split_ifs at hanswer with hopen
    obtain rfl := Option.some.inj hanswer
    exact ⟨h.isPrefix.trans (List.prefix_append _ _), fun hopen' => absurd hopen' hopen⟩

/-- An output that is drained has written all replies. -/
theorem written_of_drained (h : w.Accounts k sent) (hdrained : w.Drained) : w.written k = sent := by
  obtain ⟨hopen, hqueue⟩ := hdrained
  have hnone : w.queued k = [] := by
    rw [queued, hqueue]
    rfl
  rw [← h.complete hopen, hnone, List.append_nil]

/-- Every line that is written was sent. -/
theorem written_prefix (h : w.Accounts k sent) : w.written k <+: sent :=
  (List.prefix_append _ _).trans h.isPrefix

end Accounts

end Writer

end Ingress

end DaemonFramework
