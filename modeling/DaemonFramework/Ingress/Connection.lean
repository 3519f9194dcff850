import DaemonFramework.Ingress.Discipline

/-!
# The socket connection

`connection` and `dispatch` of `shelllist-daemon-tokio/src/socket.rs`, with `catch_task` of
`task.rs`. The work on a request is a task of its own, which keeps its permit and is never aborted;
another task waits for it until a deadline and sends the reply. What the methods of the service do
is not determined here, and they may panic.

`work_spec` and `waiter_spec` say what the two tasks answer for. The waiter does not know what the
work has invoked, so its reply has to be true for every number of invocations.
-/

namespace DaemonFramework.Ingress.Socket

open Output Resumption

/-- A panic, with the text that `catch_task` finds in its payload. -/
structure Panic where
  /-- The text. -/
  text : String
deriving DecidableEq

/-- Why a method of the service does not return a value. -/
inductive Failure where
  | error (text : String)
  | panic (panic : Panic)
deriving DecidableEq

/-! ## The work on a request -/

/-- What the work on a request waits for. -/
inductive WorkOp where
  /-- `SocketSession::is_closed`, which does not wait. -/
  | isClosed
  /-- A method of the service. -/
  | invoke (invocation : Invocation)
  /-- `OutputHandle::owned_ids`. -/
  | ownedIds (route : ClientRoute)
  /-- `OutputHandle::send`. -/
  | send (command : OutputCommand)
  /-- The service's `disconnected`. -/
  | disconnected

/-- How an operation ends. -/
def WorkOp.Answer : WorkOp → Type
  | isClosed => Bool
  | invoke _ => Except Failure Value
  | ownedIds _ => List String
  | send _ => Except String Unit
  | disconnected => Except Panic Unit

/-- The work on a request, or a part of it. -/
abbrev Work (α : Type) := Resumption WorkOp WorkOp.Answer α

/-- `SocketSession::is_closed`. -/
def isClosed : Work Bool := perform WorkOp.isClosed

/-- A method of the service. -/
def invoke (invocation : Invocation) : Work (Except Failure Value) :=
  perform (WorkOp.invoke invocation)

/-- `OutputHandle::owned_ids`. -/
def ownedIds (route : ClientRoute) : Work (List String) := perform (WorkOp.ownedIds route)

/-- `OutputHandle::send`. -/
def send (command : OutputCommand) : Work (Except Failure Unit) :=
  (perform (WorkOp.send command) : Work (Except String Unit)).bind fun
    | .ok () => .done (.ok ())
    | .error error => .done (.error (.error error))

/-- The service's `disconnected`. -/
def disconnected : Work (Except Panic Unit) := perform WorkOp.disconnected

/-- The loop of `dispatch` over the ids of a consumer. -/
def releaseIds (released : ℕ) : List String → Work (Except Failure (Value × Option String))
  | [] => .done (.ok (.object [("released", .number (.posInt released.toUInt64))], none))
  | id :: ids =>
    (invoke (.cancel id)).andThen fun response =>
      if cancellationSucceeded response then
        (send (.cancelled id)).andThen fun _ => releaseIds released ids
      else .done (.error (.error "daemon rejected cancellation"))

/-- The branches of `dispatch`. -/
def dispatchOpen (request : ClientRequest) (route : Option ClientRoute) :
    Work (Except Failure (Value × Option String)) :=
  match request with
  | .call _ method params =>
    (invoke (.call method params)).andThen fun value => .done (.ok (value, none))
  | .subscribe _ streams =>
    (invoke (.subscribe streams)).andThen fun value => .done (.ok (value, none))
  | .cancel _ requestId =>
    (invoke (.cancel requestId)).andThen fun response =>
      let cancelled := if cancellationSucceeded response then some requestId else none
      .done (.ok (response, cancelled))
  | .release _ =>
    match route with
    | none => .done (.error (.error "release requires routed dispatch"))
    | some route => (ownedIds route).bind fun ids => releaseIds ids.length ids
  | .shutdown _ => .done (.ok (.object [], none))

/-- `dispatch`. -/
def dispatch (request : ClientRequest) (route : Option ClientRoute) :
    Work (Except Failure (Value × Option String)) :=
  isClosed.bind fun closed =>
    if closed then .done (.error (.error "connection closed before dispatch"))
    else dispatchOpen request route

/-- `catch_task`. -/
def catchTask {α : Type} (name : String) (future : Work (Except Failure α)) :
    Work (Except String α) :=
  future.bind fun
    | .ok a => .done (.ok a)
    | .error (.error error) => .done (.error error)
    | .error (.panic panic) => .done (.error s!"{name} panicked: {panic.text}")

/-- What the work comes to: a panic, or the result of `dispatch`. -/
abbrev WorkResult := Except Panic (Except String (Value × Option String))

/-- The work on an accepted request. -/
def work (message : ClientMessage) : Work WorkResult :=
  (catchTask "socket request" (dispatch message.request message.route)).bind fun result =>
    isClosed.bind fun closed =>
      if closed then
        disconnected.bind fun
          | .ok () => .done (.ok result)
          | .error panic => .done (.error panic)
      else .done (.ok result)

/-! ## The task that waits for the work -/

/-- What the task that waits for the work waits for. -/
inductive WaiterOp where
  /-- The end of the work. -/
  | join
  /-- `SocketSession::close`, which does not wait. -/
  | close
  /-- `OutputHandle::send`. -/
  | send (command : OutputCommand)

/-- How an operation ends. -/
def WaiterOp.Answer : WaiterOp → Type
  | join => WorkResult
  | close => Unit
  | send _ => Except String Unit

/-- The task that waits for the work, or a part of it. -/
abbrev Waiter (α : Type) := Resumption WaiterOp WaiterOp.Answer α

/-- The end of the work. -/
def join : Waiter WorkResult := perform WaiterOp.join

/-- `SocketSession::close`. -/
def close : Waiter Unit := perform WaiterOp.close

/-- The refusal of a request whose outcome is unknown. -/
def unknownCommand (message : ClientMessage) : OutputCommand :=
  .requestError message.request.requestId "outcome-unknown"
    "socket request reply unavailable; reconcile state, never replay effects" message.route

/-- Without a value of the work, a control ends the connection. -/
def unknown (message : ClientMessage) : Waiter OutputCommand :=
  if message.request.IsCall then .done (unknownCommand message)
  else close.bind fun _ => .done (unknownCommand message)

/-- The command that answers a request. -/
def reply (message : ClientMessage) : Waiter OutputCommand :=
  join.timeout.bind fun
    | some (.ok (.ok (value, cancelled))) =>
      .done (responseCommand message.request.requestId (.ok value) cancelled message.route)
    | _ => unknown message

/-- A command is sent, whether or not it can be. -/
def sendReply (command : OutputCommand) : Waiter Unit :=
  (perform (WaiterOp.send command) : Waiter (Except String Unit)).bind fun _ => .done ()

/-- The task that waits for the work on an accepted request. -/
def waiter (message : ClientMessage) : Waiter Unit := (reply message).bind sendReply

/-- Without a permit, the connection itself sends the refusal. -/
def refused (message : ClientMessage) : Waiter Unit :=
  sendReply (.requestError message.request.requestId "rejected-before-dispatch"
    "socket request capacity exceeded; request was not dispatched" message.route)

/-! ## What the work answers for -/

/-- The command that an operation sends. -/
def WorkOp.command : WorkOp → Option OutputCommand
  | send command => some command
  | _ => none

/-- The operation invokes a method of the service. -/
def WorkOp.IsInvocation : WorkOp → Prop
  | invoke _ => True
  | _ => False

instance (op : WorkOp) : Decidable op.IsInvocation := by
  cases op <;> unfold WorkOp.IsInvocation <;> infer_instance

/-- How many methods are invoked. -/
def invocations (ops : List WorkOp) : ℕ := ops.countP (·.IsInvocation)

/-- The valid answer of a method. -/
def answerOf : Event WorkOp WorkOp.Answer → Option Value
  | ⟨.invoke _, .answered (.ok response)⟩ => some response
  | _ => none

/-- The valid answers. -/
def answers (past : List (Event WorkOp WorkOp.Answer)) : List Value := past.filterMap answerOf

/-- An ordinary request has been invoked so often at most. -/
def AtMost (message : ClientMessage) (n : ℕ) (past : List (Event WorkOp WorkOp.Answer)) : Prop :=
  message.request.IsOrdinary → invocations (past.map Event.op) ≤ n

/-- When the work on a request may begin an operation: an invocation of an ordinary request only if
it is the first one, and a reply never. -/
structure WorkAllowed (message : ClientMessage) (past : List (Event WorkOp WorkOp.Answer))
    (op : WorkOp) : Prop where
  /-- An ordinary request is invoked once. -/
  once : message.request.IsOrdinary → invocations (past.map Event.op ++ [op]) ≤ 1
  /-- The work sends no reply. -/
  noReply : op.command.bind OutputCommand.replyLine = none

variable {message : ClientMessage} {past : List (Event WorkOp WorkOp.Answer)}

@[simp] theorem invocations_concat (ops : List WorkOp) (op : WorkOp) :
    invocations (ops ++ [op]) = invocations ops + if op.IsInvocation then 1 else 0 := by
  simp [invocations, List.countP_cons]

/-- An operation that neither invokes a method nor sends a reply. -/
structure WorkOp.Plain (op : WorkOp) : Prop where
  /-- It invokes no method. -/
  noInvocation : ¬op.IsInvocation
  /-- It sends no reply. -/
  noReply : op.command.bind OutputCommand.replyLine = none

/-- Such an operation may be begun at any time, and changes nothing. -/
theorem plain_spec {op : WorkOp} {n : ℕ} (hop : op.Plain) (hn : n ≤ 1) (h : AtMost message n past) :
    (perform op).Upholds (WorkAllowed message) (fun past _ => AtMost message n past) past := by
  have hafter : message.request.IsOrdinary → invocations (past.map Event.op ++ [op]) ≤ n := by
    intro hordinary
    rw [invocations_concat, if_neg hop.noInvocation]
    exact h hordinary
  apply Upholds.perform
  · exact ⟨fun hordinary => (hafter hordinary).trans hn, hop.noReply⟩
  · intro a hordinary
    rw [List.map_append, List.map_singleton]
    exact hafter hordinary

/-- A request that is neither a call nor a subscription may invoke as many methods as it needs. -/
theorem AtMost.of_control (hcontrol : ¬message.request.IsOrdinary) (n : ℕ) :
    AtMost message n past := fun hordinary => absurd hordinary hcontrol

/-- A method is invoked once, and a valid reply to it is an answer. -/
theorem invoke_spec (h : AtMost message 0 past) (invocation : Invocation) :
    (invoke invocation).Upholds (WorkAllowed message)
      (fun past r => AtMost message 1 past ∧ ∀ response, r = .ok response → answers past ≠ [])
      past := by
  have honce : message.request.IsOrdinary →
      invocations (past.map Event.op ++ [.invoke invocation]) ≤ 1 := by
    intro hordinary
    have hnone := h hordinary
    rw [invocations_concat]
    split_ifs <;> omega
  apply Upholds.perform
  · exact ⟨honce, rfl⟩
  · refine fun r => ⟨fun hordinary => ?_, ?_⟩
    · rw [List.map_append, List.map_singleton]
      exact honce hordinary
    · rintro response rfl
      simp [answers, answerOf]

/-- A command that is no reply is sent. -/
theorem send_spec {command : OutputCommand} (hcommand : command.replyLine = none)
    (h : AtMost message 1 past) :
    (send command).Upholds (WorkAllowed message) (fun past _ => AtMost message 1 past) past := by
  have hsend : WorkOp.Plain (.send command) := ⟨fun h => h, hcommand⟩
  apply Upholds.bind
  apply (plain_spec hsend le_rfl h).mono
  intro past r h
  cases r <;> exact h

/-- The subscriptions of a consumer are released one by one. -/
theorem releaseIds_spec (hcontrol : ¬message.request.IsOrdinary) (released : ℕ)
    (ids : List String) :
    (releaseIds released ids).Upholds (WorkAllowed message) (fun _ _ => True) past := by
  induction ids generalizing past with
  | nil => exact trivial
  | cons id ids ih =>
    apply (invoke_spec (.of_control hcontrol 0) _).andThen _ fun _ _ _ => trivial
    intro past response _
    split_ifs
    · exact (send_spec rfl (.of_control hcontrol 1)).andThen (fun past _ _ => ih) fun _ _ _ =>
        trivial
    · exact trivial

/-- The work on a request may end with a result: if that is a success, a call has a valid answer. -/
structure Answered (message : ClientMessage) (past : List (Event WorkOp WorkOp.Answer))
    (success : Prop) : Prop where
  /-- An ordinary request was invoked once at most. -/
  once : AtMost message 1 past
  /-- The success of a call is an answer. -/
  answered : success → message.request.IsCall → answers past ≠ []

/-- A request that is no call succeeds without an answer. -/
theorem AtMost.answered (h : AtMost message 1 past) (hcall : ¬message.request.IsCall)
    (success : Prop) : Answered message past success :=
  ⟨h, fun _ h => absurd h hcall⟩

/-- A failure needs no answer. -/
theorem AtMost.failed {success : Prop} (h : AtMost message 1 past) (hfailed : ¬success) :
    Answered message past success :=
  ⟨h, fun h => absurd h hfailed⟩

/-- An operation that is nothing to the invocations leaves the answers as they were. -/
theorem plain_answered {op : WorkOp} {success : Prop} (hop : op.Plain)
    (h : Answered message past success) :
    (perform op).Upholds (WorkAllowed message)
    (fun past _ => Answered message past success) past := by
  apply Upholds.perform
  · refine ⟨fun hordinary => ?_, hop.noReply⟩
    rw [invocations_concat, if_neg hop.noInvocation]
    exact h.once hordinary
  · refine fun a => ⟨fun hordinary => ?_, fun hsuccess hcall => ?_⟩
    · rw [List.map_append, List.map_singleton, invocations_concat, if_neg hop.noInvocation]
      exact h.once hordinary
    · have hanswers := h.answered hsuccess hcall
      rw [answers, List.filterMap_append]
      exact fun hnil => hanswers (List.append_eq_nil_iff.1 hnil).1

/-- The branches of `dispatch`. -/
theorem dispatchOpen_spec (h : AtMost message 0 past) :
    (dispatchOpen message.request message.route).Upholds (WorkAllowed message)
      (fun past r => Answered message past (r.isOk = true)) past := by
  obtain ⟨request, route⟩ := message
  cases request with
  | call id method params =>
    apply (invoke_spec h _).andThen
    · exact fun past value h => ⟨h.1, fun _ _ => h.2 value rfl⟩
    · exact fun past failure h => h.1.failed (by simp [Except.isOk, Except.toBool])
  | subscribe id streams =>
    apply (invoke_spec h _).andThen
    · exact fun past value h => h.1.answered (fun h => h) _
    · exact fun past failure h => h.1.answered (fun h => h) _
  | cancel id requestId =>
    apply (invoke_spec h _).andThen
    · exact fun past value h => h.1.answered (fun h => h) _
    · exact fun past failure h => h.1.answered (fun h => h) _
  | release id =>
    have hcontrol : ¬(ClientMessage.mk (.release id) route).request.IsOrdinary := fun h => h
    have hcall : ¬(ClientMessage.mk (.release id) route).request.IsCall := fun h => h
    cases route with
    | none => exact (AtMost.of_control hcontrol 1).answered hcall _
    | some route =>
      have howned : WorkOp.Plain (.ownedIds route) := ⟨fun h => h, rfl⟩
      apply Upholds.bind
      apply (plain_spec howned le_rfl (.of_control hcontrol 1)).mono
      intro past ids _
      apply (releaseIds_spec hcontrol _ ids).mono
      exact fun past r _ => (AtMost.of_control hcontrol 1).answered hcall _
  | shutdown id =>
    have hcontrol : ¬(ClientMessage.mk (.shutdown id) route).request.IsOrdinary := fun h => h
    have hcall : ¬(ClientMessage.mk (.shutdown id) route).request.IsCall := fun h => h
    exact (AtMost.of_control hcontrol 1).answered hcall _

/-- `session.is_closed()` is nothing to the invocations. -/
theorem isClosed_plain : WorkOp.Plain .isClosed := ⟨fun h => h, rfl⟩

/-- `dispatch`, with the panics of the service caught. -/
theorem catchTask_dispatch_spec (name : String) :
    (catchTask name (dispatch message.request message.route)).Upholds (WorkAllowed message)
      (fun past r => Answered message past (r.isOk = true)) [] := by
  have hstart : AtMost message 0 [] := fun _ => le_rfl
  apply Upholds.bind
  apply Upholds.bind
  apply (plain_spec isClosed_plain (Nat.zero_le 1) hstart).mono
  intro past closed h
  have hfailed : ∀ past (error : String), AtMost message 1 past →
      Answered message past ((.error error : Except String (Value × Option String)).isOk = true) :=
    fun past error h => h.failed (by simp [Except.isOk, Except.toBool])
  split_ifs
  · exact hfailed past _ fun hordinary => (h hordinary).trans (Nat.zero_le 1)
  · apply (dispatchOpen_spec h).mono
    intro past r h
    match r with
    | .ok value => exact h
    | .error (.error error) => exact hfailed past error h.once
    | .error (.panic panic) => exact hfailed past _ h.once

/-- The work ends with a value. -/
def Succeeded : WorkResult → Prop
  | .ok r => r.isOk = true
  | .error _ => False

/-- The work on a request invokes an ordinary one once at most, sends no reply, and has a valid
answer to a call if it ends with a value. -/
theorem work_spec (message : ClientMessage) :
    (work message).Upholds (WorkAllowed message)
      (fun past r => Answered message past (Succeeded r)) [] := by
  have hdisconnected : WorkOp.Plain .disconnected := ⟨fun h => h, rfl⟩
  apply Upholds.bind
  apply (catchTask_dispatch_spec _).mono
  intro past result h
  apply Upholds.bind
  apply (plain_answered isClosed_plain h).mono
  intro past closed h
  split_ifs
  · apply Upholds.bind
    apply (plain_answered hdisconnected h).mono
    intro past r h
    cases r with
    | ok u => exact h
    | error panic => exact h.once.failed fun h => h
  · exact h

/-! ## What the task that waits for the work answers for -/

/-- The command that an operation sends. -/
def WaiterOp.command : WaiterOp → Option OutputCommand
  | send command => some command
  | _ => none

/-- The value that the work has ended with in time. -/
def joinedOf : Event WaiterOp WaiterOp.Answer → Option Value
  | ⟨.join, .answered (.ok (.ok (value, _)))⟩ => some value
  | _ => none

/-- The values that the work has ended with in time. -/
def joined (past : List (Event WaiterOp WaiterOp.Answer)) : List Value := past.filterMap joinedOf

/-- When the task that waits for the work may begin an operation: before it has sent a reply, and a
reply only if it is the request's own and true after so many invocations. -/
structure WaiterAllowed (message : ClientMessage) (n : ℕ)
    (past : List (Event WaiterOp WaiterOp.Answer)) (op : WaiterOp) : Prop where
  /-- No reply has been sent. -/
  silent : replies WaiterOp.command past = []
  /-- A reply is true. -/
  truthful : ∀ line ∈ op.command.bind OutputCommand.replyLine,
    Truthful message n (joined past) line

variable {n : ℕ} {seen : List (Event WaiterOp WaiterOp.Answer)}

/-- A reply is sent, and nothing after it. -/
theorem sendReply_spec {command : OutputCommand} (hsilent : replies WaiterOp.command seen = [])
    (hreply : command.replyLine ≠ none)
    (htruthful : ∀ line ∈ command.replyLine, Truthful message n (joined seen) line) :
    (sendReply command).Upholds (WaiterAllowed message n)
      (fun seen _ => replies WaiterOp.command seen ≠ []) seen := by
  apply Upholds.bind
  apply Upholds.perform
  · exact ⟨hsilent, htruthful⟩
  · intro r
    obtain ⟨line, hline⟩ := Option.ne_none_iff_exists'.1 hreply
    have hreplyOf : replyOf WaiterOp.command
        (⟨.send command, .answered r⟩ : Event WaiterOp WaiterOp.Answer) = some line := hline
    show replies WaiterOp.command _ ≠ []
    rw [replies_concat, hreplyOf]
    simp

/-- The outcome may be called unknown at any time. -/
theorem sendUnknown_spec (hsilent : replies WaiterOp.command seen = []) :
    (sendReply (unknownCommand message)).Upholds (WaiterAllowed message n)
      (fun seen _ => replies WaiterOp.command seen ≠ []) seen := by
  apply sendReply_spec hsilent (by simp [unknownCommand, OutputCommand.replyLine])
  exact Truthful.requestError _ (fun h => absurd h (by decide)) fun _ _ _ => rfl

/-- So it may when a control closes the session first. -/
theorem unknown_spec (hsilent : replies WaiterOp.command seen = []) :
    (unknown message).Upholds (WaiterAllowed message n)
      (fun seen command => (sendReply command).Upholds (WaiterAllowed message n)
        (fun seen _ => replies WaiterOp.command seen ≠ []) seen) seen := by
  unfold unknown
  split_ifs
  · exact sendUnknown_spec hsilent
  · apply Upholds.bind
    apply Upholds.perform
    · exact ⟨hsilent, fun line hline => by cases hline⟩
    · intro u
      apply sendUnknown_spec
      rw [replies_concat, hsilent, replyOf_eq_none rfl]
      rfl

/-- The task that waits for the work sends a reply, unless it is not allowed to finish. -/
theorem waiter_spec (message : ClientMessage) (n : ℕ) :
    (waiter message).Upholds (WaiterAllowed message n)
      (fun seen _ => replies WaiterOp.command seen ≠ []) [] := by
  apply Upholds.bind
  apply Upholds.bind
  apply Upholds.timeout_perform
  · exact ⟨rfl, fun line hline => by cases hline⟩
  · intro r
    match r with
    | .ok (.ok (value, cancelled)) =>
      apply sendReply_spec rfl (by simp [responseCommand, OutputCommand.replyLine])
      exact Truthful.response (.ok value) cancelled fun _ _ => by simp [joined, joinedOf]
    | .ok (.error error) => exact unknown_spec rfl
    | .error panic => exact unknown_spec rfl
  · exact unknown_spec rfl

/-- So does the connection for a request without a permit. -/
theorem refused_spec (message : ClientMessage) :
    (refused message).Upholds (WaiterAllowed message 0)
      (fun seen _ => replies WaiterOp.command seen ≠ []) [] := by
  apply sendReply_spec rfl (by simp [OutputCommand.replyLine])
  exact Truthful.requestError _ (fun _ => rfl) fun _ hpos => absurd hpos (Nat.lt_irrefl 0)

end DaemonFramework.Ingress.Socket
