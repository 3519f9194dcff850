import DaemonFramework.Ingress.Discipline
import DaemonFramework.Roster

/-!
# The D-Bus bridge

`request_loop`, `spawn_request` and `execute_request` of `shelllist-daemon-tokio/src/jsonl.rs`, with
the calls of `JsonDbusClient` in `dbus.rs`. A task waits for the operations of `Op`, whose answers
are not determined here: a connection may fail, a reply may come or not, and a deadline may expire
at any of its waits.

`Allowed` says when the task of a request may begin an operation, and `spawned_spec` that the source
keeps to it, whatever the answers are.
-/

namespace DaemonFramework.Ingress.Bridge

open Output Resumption

/-- What the task of a request waits for. -/
inductive Op where
  /-- `ReconnectingClient::get`. -/
  | get
  /-- `ReconnectingClient::wait_for_event_forwarding`. -/
  | eventReady
  /-- `JsonDbusClient::proxy`. -/
  | proxy
  /-- A method of the daemon: its reply, decoded. -/
  | invoke (invocation : Invocation)
  /-- `OutputHandle::owned_ids`. -/
  | ownedIds (route : ClientRoute)
  /-- `OutputHandle::send`. -/
  | send (command : OutputCommand)

/-- How an operation ends. -/
def Op.Answer : Op → Type
  | get | eventReady | proxy => Except String Unit
  | invoke _ => Except String Value
  | ownedIds _ => List String
  | send _ => Except String Unit

/-- The task of a request, or a part of it. -/
abbrev Future (α : Type) := Resumption Op Op.Answer α

/-- `ReconnectingClient::get`. -/
def get : Future (Except String Unit) := perform Op.get

/-- `ReconnectingClient::wait_for_event_forwarding`. -/
def waitForEventForwarding : Future (Except String Unit) := perform Op.eventReady

/-- `OutputHandle::owned_ids`. -/
def ownedIds (route : ClientRoute) : Future (List String) := perform (Op.ownedIds route)

/-- `OutputHandle::send`. -/
def send (command : OutputCommand) : Future (Except String Unit) := perform (Op.send command)

/-- `REQUEST_TIMEOUT`, in milliseconds. -/
def requestTimeout : ℕ := 30000

/-- `CONTROL_TIMEOUT`, in milliseconds. -/
def controlTimeout : ℕ := 5000

/-- `JsonDbusClient::proxy`. -/
def proxy : Future (Except String Unit) := perform Op.proxy

/-- A method of `JsonDbusClient`: the proxy, and then the method itself. -/
def invoke (invocation : Invocation) : Future (Except String Value) :=
  proxy.andThen fun _ => perform (Op.invoke invocation)

/-- `JsonDbusClient::call`. -/
def call (method : String) (params : Value) : Future (Except String Value) :=
  invoke (.call method params)

/-- `JsonDbusClient::subscribe`. -/
def subscribe (streams : List String) : Future (Except String Value) := invoke (.subscribe streams)

/-- `JsonDbusClient::cancel_json`. -/
def cancelJson (requestId : String) : Future (Except String Value) := invoke (.cancel requestId)

/-- `ordinary_call`. -/
def ordinaryCall (id : String) (route : Option ClientRoute) (milliseconds : ℕ)
    (future : Future (Except String Value)) : Future OutputCommand :=
  future.timeout.bind fun
    | some (.ok response) => .done (responseCommand id (.ok response) none route)
    | none => .done (.requestError id "outcome-unknown"
        (s!"daemon request timed out after {milliseconds}ms; outcome unknown; " ++
          "reconcile state, do not retry automatically") route)
    | some (.error error) => .done (.requestError id "outcome-unknown"
        ("daemon call reply unavailable; outcome unknown; do not retry automatically: " ++ error)
        route)

/-- `with_transport_timeout`. -/
def withTransportTimeout (milliseconds : ℕ) (future : Future (Except String Value)) :
    Future (Except String Value) :=
  future.timeout.bind fun
    | some result => .done result
    | none =>
      let message := s!"daemon request timed out after {milliseconds}ms"
      (send (.transportError message)).andThen fun _ =>
        .done (.error message)

/-- The loop of `release_consumer` over the ids of the consumer. -/
def releaseIds (released : ℕ) : List String → Future (Except String Value)
  | [] => .done (.ok (.object [("released", .number (.posInt released.toUInt64))]))
  | id :: ids =>
    get.andThen fun _ =>
      (cancelJson id).andThen fun response =>
        if cancellationSucceeded response then
          (send (.cancelled id)).andThen fun _ =>
            releaseIds released ids
        else .done (.error s!"daemon rejected cancellation of {id}")

/-- `release_consumer`. -/
def releaseConsumer : Option ClientRoute → Future (Except String Value)
  | none => .done (.error "release requires a consumer route")
  | some route =>
    (ownedIds route).bind fun ids =>
      withTransportTimeout controlTimeout (releaseIds ids.length ids)

/-- `execute_request`. -/
def executeRequest (message : ClientMessage) : Future OutputCommand :=
  match message.request with
  | .call id method params =>
    get.timeout.bind fun
      | some (.ok _) => ordinaryCall id message.route requestTimeout (call method params)
      | _ => .done (.requestError id "rejected-before-dispatch"
          "daemon connection unavailable; request was not sent" message.route)
  | .subscribe id streams =>
    waitForEventForwarding.timeout.bind fun
      | some (.ok _) =>
        (withTransportTimeout requestTimeout
          (get.andThen fun _ => subscribe streams)).bind
          fun result => .done (responseCommand id result none message.route)
      | _ => .done (.requestError id "rejected-before-dispatch"
          "daemon event forwarding is not ready; subscription was not sent" message.route)
  | .cancel id requestId =>
    (withTransportTimeout controlTimeout
      (get.andThen fun _ => cancelJson requestId)).bind
      fun result =>
        let cancelled := (result.toOption.filter cancellationSucceeded).map fun _ => requestId
        .done (responseCommand id result cancelled message.route)
  | .release id =>
    (releaseConsumer message.route).bind fun result =>
      .done (responseCommand id result none message.route)
  | .shutdown id => .done (.shutdown id)

/-- The task of an accepted request sends the command that it ends with. -/
def spawned (message : ClientMessage) : Future Unit :=
  (executeRequest message).bind fun command =>
    (send command).bind fun _ => .done ()

/-- Without a permit, the loop itself sends the refusal. -/
def refused (message : ClientMessage) : Future Unit :=
  (send (.requestError message.request.requestId "rejected-before-dispatch"
    "bridge request capacity exceeded; request was not sent" message.route)).bind fun _ => .done ()

/-! ## What the tasks answer for -/

/-- The command that an operation sends. -/
def Op.command : Op → Option OutputCommand
  | send command => some command
  | _ => none

/-- The operation invokes a method of the daemon. -/
def Op.IsInvocation : Op → Prop
  | invoke _ => True
  | _ => False

instance (op : Op) : Decidable op.IsInvocation := by
  cases op <;> unfold Op.IsInvocation <;> infer_instance

/-- How many methods are invoked. -/
def invocations (ops : List Op) : ℕ := ops.countP (·.IsInvocation)

/-- The valid answer of a method. -/
def answerOf : Event Op Op.Answer → Option Value
  | ⟨.invoke _, .answered (.ok response)⟩ => some response
  | _ => none

/-- The valid answers that came before a deadline. -/
def answers (past : List (Event Op Op.Answer)) : List Value := past.filterMap answerOf

/-- When the task of a request may begin an operation: before it has sent a reply, an invocation of
an ordinary request only if it is the first one, and a reply only if it is the request's own and
true. -/
structure Allowed (message : ClientMessage) (past : List (Event Op Op.Answer)) (op : Op) : Prop where
  /-- No reply has been sent. -/
  silent : replies Op.command past = []
  /-- An ordinary request is invoked once. -/
  once : message.request.IsOrdinary → invocations (past.map Event.op ++ [op]) ≤ 1
  /-- A reply is true. -/
  truthful : ∀ line ∈ op.command.bind OutputCommand.replyLine,
    Truthful message (invocations (past.map Event.op)) (answers past) line

/-- No reply has been sent, and an ordinary request has been invoked once at most. -/
structure Quiet (message : ClientMessage) (past : List (Event Op Op.Answer)) : Prop where
  /-- No reply has been sent. -/
  silent : replies Op.command past = []
  /-- An ordinary request has been invoked once at most. -/
  once : message.request.IsOrdinary → invocations (past.map Event.op) ≤ 1

/-- No reply has been sent, and an ordinary request has not been invoked. -/
structure Fresh (message : ClientMessage) (past : List (Event Op Op.Answer)) : Prop where
  /-- No reply has been sent. -/
  silent : replies Op.command past = []
  /-- An ordinary request has not been invoked. -/
  unused : message.request.IsOrdinary → invocations (past.map Event.op) = 0

/-- A command that the task of a request may end with. -/
structure Ready (message : ClientMessage) (past : List (Event Op Op.Answer))
    (command : OutputCommand) : Prop where
  /-- Nothing but that is to be sent. -/
  quiet : Quiet message past
  /-- It is a reply. -/
  isReply : command.replyLine ≠ none
  /-- It is true. -/
  truthful : ∀ line ∈ command.replyLine,
    Truthful message (invocations (past.map Event.op)) (answers past) line

variable {message : ClientMessage} {past : List (Event Op Op.Answer)}

@[simp] theorem invocations_concat (ops : List Op) (op : Op) :
    invocations (ops ++ [op]) = invocations ops + if op.IsInvocation then 1 else 0 := by
  simp [invocations, List.countP_cons]

/-- A request that has not started is quiet. -/
theorem Fresh.quiet (h : Fresh message past) : Quiet message past :=
  ⟨h.silent, fun hordinary => by rw [h.unused hordinary]; exact Nat.zero_le 1⟩

/-- An operation that neither invokes a method nor sends a reply. -/
structure Op.Plain (op : Op) : Prop where
  /-- It invokes no method. -/
  noInvocation : ¬op.IsInvocation
  /-- It sends no reply. -/
  noReply : op.command.bind OutputCommand.replyLine = none

namespace Op.Plain

variable {op : Op} {w : Wake op.Answer}

/-- It may be begun at any time. -/
theorem allowed (h : op.Plain) (hquiet : Quiet message past) : Allowed message past op where
  silent := hquiet.silent
  once hordinary := by
    rw [invocations_concat, if_neg h.noInvocation]
    exact hquiet.once hordinary
  truthful line hline := by
    rw [h.noReply] at hline
    cases hline

/-- It leaves a request as fresh as it was. -/
theorem fresh (h : op.Plain) (hfresh : Fresh message past) :
    Fresh message (past ++ [⟨op, w⟩]) where
  silent := by rw [replies_concat, hfresh.silent, replyOf_eq_none h.noReply]; rfl
  unused hordinary := by
    rw [List.map_append, List.map_singleton, invocations_concat, if_neg h.noInvocation]
    exact hfresh.unused hordinary

/-- It leaves a request as quiet as it was. -/
theorem quiet (h : op.Plain) (hquiet : Quiet message past) :
    Quiet message (past ++ [⟨op, w⟩]) where
  silent := by rw [replies_concat, hquiet.silent, replyOf_eq_none h.noReply]; rfl
  once hordinary := by
    rw [List.map_append, List.map_singleton, invocations_concat, if_neg h.noInvocation]
    exact hquiet.once hordinary

end Op.Plain

/-- After an operation that was allowed and whose deadline expired, nothing has been sent. -/
theorem Allowed.expired {op : Op} {i : ℕ} (h : Allowed message past op) :
    Quiet message (past ++ [⟨op, .expired i⟩]) where
  silent := by rw [replies_concat, h.silent]; rfl
  once hordinary := by
    rw [List.map_append, List.map_singleton]
    exact h.once hordinary

/-- An operation that is nothing to the reply. -/
theorem plain_quiet {op : Op} (hop : op.Plain) (h : Quiet message past) :
    (perform op).Upholds (Allowed message) (fun past _ => Quiet message past) past :=
  Upholds.perform (hop.allowed h) fun _ => hop.quiet h

/-- Such an operation before a method is invoked. -/
theorem plain_fresh {op : Op} (hop : op.Plain) (h : Fresh message past) :
    (perform op).Upholds (Allowed message) (fun past _ => Fresh message past) past :=
  Upholds.perform (hop.allowed h.quiet) fun _ => hop.fresh h

/-- Such an operation within a deadline. -/
theorem plain_timeout {op : Op} (hop : op.Plain) (h : Fresh message past) :
    (perform op).timeout.Upholds (Allowed message) (fun past _ => Fresh message past) past :=
  Upholds.timeout_perform (hop.allowed h.quiet) (fun _ => hop.fresh h) (hop.fresh h)

/-- A request that is neither a call nor a subscription may invoke as many methods as it needs. -/
theorem Quiet.fresh (h : Quiet message past) (hcontrol : ¬message.request.IsOrdinary) :
    Fresh message past :=
  ⟨h.silent, fun hordinary => absurd hordinary hcontrol⟩

/-- A method is invoked once, and a valid reply to it is an answer. -/
theorem invoke_spec (h : Fresh message past) (invocation : Invocation) :
    (invoke invocation).Upholds (Allowed message)
      (fun past r => Quiet message past ∧ ∀ response, r = .ok response → answers past ≠ [])
      past := by
  have hproxy : Op.Plain .proxy := ⟨fun h => h, rfl⟩
  apply (plain_fresh hproxy h).andThen
  · intro past _ hfresh
    have honce : message.request.IsOrdinary →
        invocations (past.map Event.op ++ [.invoke invocation]) ≤ 1 := by
      intro hordinary
      rw [invocations_concat, hfresh.unused hordinary]
      split_ifs <;> omega
    apply Upholds.perform
    · exact ⟨hfresh.silent, honce, fun line hline => by cases hline⟩
    · intro r
      refine ⟨⟨?_, ?_⟩, ?_⟩
      · rw [replies_concat, hfresh.silent, replyOf_eq_none rfl]
        rfl
      · rw [List.map_append, List.map_singleton]
        exact honce
      · rintro response rfl
        simp [answers, answerOf]
  · intro past e hfresh
    exact ⟨hfresh.quiet, fun response h => by cases h⟩

/-- A deadline changes nothing about the conduct of a task, and its expiry sends no reply. -/
theorem withTransportTimeout_spec {milliseconds : ℕ} {future : Future (Except String Value)}
    (h : future.Upholds (Allowed message) (fun past _ => Quiet message past) past) :
    (withTransportTimeout milliseconds future).Upholds (Allowed message)
      (fun past _ => Quiet message past) past := by
  apply Upholds.bind
  apply Upholds.timeout
  · exact h
  · intro past op i hop
    have hsend : Op.Plain
      (.send (.transportError s!"daemon request timed out after {milliseconds}ms")) :=
      ⟨fun h => h, rfl⟩
    apply (plain_quiet hsend hop.expired).andThen
    · exact fun past _ h => h
    · exact fun past _ h => h

/-- The subscriptions of a consumer are released one by one. -/
theorem releaseIds_spec (hcontrol : ¬message.request.IsOrdinary) (released : ℕ) (ids : List String)
    (h : Quiet message past) :
    (releaseIds released ids).Upholds (Allowed message)
    (fun past _ => Quiet message past) past := by
  induction ids generalizing past with
  | nil => exact h
  | cons id ids ih =>
    have hget : Op.Plain .get := ⟨fun h => h, rfl⟩
    have hsend : Op.Plain (.send (.cancelled id)) := ⟨fun h => h, rfl⟩
    apply (plain_quiet hget h).andThen _ fun _ _ h => h
    intro past _ h
    apply (invoke_spec (h.fresh hcontrol) _).andThen _ fun _ _ h => h.1
    rintro past response ⟨h, -⟩
    split_ifs
    · exact (plain_quiet hsend h).andThen (fun past _ h => ih h) fun _ _ h => h
    · exact h

/-- A request may be refused while nothing has been invoked for it. -/
theorem Fresh.rejected (h : Fresh message past) (hordinary : message.request.IsOrdinary)
    (text : String) :
    Ready message past (.requestError message.request.requestId "rejected-before-dispatch" text
      message.route) where
  quiet := h.quiet
  isReply := by simp [OutputCommand.replyLine]
  truthful := by
    have hnone := h.unused hordinary
    apply Truthful.requestError text (fun _ => hnone)
    intro _ hpos
    omega

/-- The outcome may be called unknown at any time. -/
theorem Quiet.unknown (h : Quiet message past) (text : String) :
    Ready message past (.requestError message.request.requestId "outcome-unknown" text
      message.route) where
  quiet := h
  isReply := by simp [OutputCommand.replyLine]
  truthful := Truthful.requestError text (fun h => absurd h (by decide)) fun _ _ _ => rfl

/-- A call may be responded to once it has a valid answer, and another request at any time. -/
theorem Quiet.responded (h : Quiet message past) (result : Except String Value)
    (cancelled : Option String) (hcall : message.request.IsCall → answers past ≠ []) :
    Ready message past (responseCommand message.request.requestId result cancelled
      message.route) where
  quiet := h
  isReply := by simp [responseCommand, OutputCommand.replyLine]
  truthful := Truthful.response result cancelled fun h _ => hcall h

/-- A call that is sent is answered, or its outcome is unknown. -/
theorem ordinaryCall_spec {milliseconds : ℕ} {future : Future (Except String Value)}
    (h : future.Upholds (Allowed message)
      (fun past r => Quiet message past ∧ ∀ response, r = .ok response → answers past ≠ []) past) :
    (ordinaryCall message.request.requestId message.route milliseconds future).Upholds
      (Allowed message) (Ready message) past := by
  apply Upholds.bind
  apply Upholds.timeout
  · apply h.mono
    rintro past r ⟨hquiet, hanswer⟩
    cases r with
    | ok response => exact hquiet.responded (.ok response) none fun _ => hanswer response rfl
    | error error => exact hquiet.unknown _
  · exact fun past op i hop => hop.expired.unknown _

/-- What a request is answered with is its own, and true. -/
theorem executeRequest_spec (hshutdown : ¬message.request.IsShutdown) :
    (executeRequest message).Upholds (Allowed message) (Ready message) [] := by
  obtain ⟨request, route⟩ := message
  have hfresh : Fresh ⟨request, route⟩ [] := ⟨rfl, fun _ => rfl⟩
  have hget : Op.Plain .get := ⟨fun h => h, rfl⟩
  cases request with
  | call id method params =>
    apply Upholds.bind
    apply (plain_timeout hget hfresh).mono
    intro past r h
    match r with
    -- The call is sent once, on the connection that was fetched in time.
    | some (.ok client) => exact ordinaryCall_spec (invoke_spec h _)
    | some (.error error) => exact h.rejected trivial _
    | none => exact h.rejected trivial _
  | subscribe id streams =>
    have hready : Op.Plain .eventReady := ⟨fun h => h, rfl⟩
    apply Upholds.bind
    apply (plain_timeout hready hfresh).mono
    intro past r h
    match r with
    | some (.ok client) =>
      apply Upholds.bind
      apply Upholds.mono (withTransportTimeout_spec _)
      · exact fun past result h => h.responded result none fun hcall => hcall.elim
      · apply (plain_fresh hget h).andThen _ fun _ _ h => h.quiet
        exact fun past _ h => (invoke_spec h _).mono fun _ _ h => h.1
    | some (.error error) => exact h.rejected trivial _
    | none => exact h.rejected trivial _
  | cancel id requestId =>
    apply Upholds.bind
    apply Upholds.mono (withTransportTimeout_spec _)
    · exact fun past result h => h.responded result _ fun hcall => hcall.elim
    · apply (plain_fresh hget hfresh).andThen _ fun _ _ h => h.quiet
      exact fun past _ h => (invoke_spec h _).mono fun _ _ h => h.1
  | release id =>
    have hcontrol : ¬(ClientRequest.release id).IsOrdinary := fun h => h
    apply Upholds.bind
    cases route with
    -- A release without a route is refused.
    | none => exact hfresh.quiet.responded _ none fun hcall => hcall.elim
    | some route =>
      have howned : Op.Plain (.ownedIds route) := ⟨fun h => h, rfl⟩
      apply Upholds.bind
      apply (plain_quiet howned hfresh.quiet).mono
      intro past ids h
      apply Upholds.mono (withTransportTimeout_spec (releaseIds_spec hcontrol _ ids h))
      exact fun past result h => h.responded result none fun hcall => hcall.elim
  | shutdown id => exact absurd trivial hshutdown

/-- A reply that is ready is sent, and nothing after it. -/
theorem send_spec {command : OutputCommand} (h : Ready message past command) :
    ((send command).bind fun _ => .done ()).Upholds (Allowed message)
      (fun past _ => replies Op.command past ≠ []) past := by
  apply Upholds.bind
  apply Upholds.perform
  · refine ⟨h.quiet.silent, ?_, h.truthful⟩
    intro hordinary
    have hno : ¬(Op.send command).IsInvocation := fun h => h
    rw [invocations_concat, if_neg hno]
    exact h.quiet.once hordinary
  · intro r
    obtain ⟨line, hline⟩ := Option.ne_none_iff_exists'.1 h.isReply
    have hreply : replyOf Op.command (⟨.send command, .answered r⟩ : Event Op Op.Answer) =
        some line := hline
    show replies Op.command _ ≠ []
    rw [replies_concat, hreply]
    simp

/-- The task of an accepted request sends a reply, unless it is not allowed to finish. -/
theorem spawned_spec (hshutdown : ¬message.request.IsShutdown) :
    (spawned message).Upholds (Allowed message) (fun past _ => replies Op.command past ≠ []) [] :=
  Upholds.bind ((executeRequest_spec hshutdown).mono fun _ _ => send_spec)

/-- So does the loop for a request without a permit. -/
theorem refused_spec (message : ClientMessage) :
    (refused message).Upholds (Allowed message) (fun past _ => replies Op.command past ≠ [])
    [] := by
  apply send_spec
  constructor
  · exact ⟨rfl, fun _ => Nat.zero_le 1⟩
  · simp [OutputCommand.replyLine]
  · exact Truthful.requestError _ (fun _ => rfl) fun _ hpos => absurd hpos (Nat.lt_irrefl 0)

end DaemonFramework.Ingress.Bridge
