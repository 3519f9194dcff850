import DaemonFramework.Ingress.Requests
import DaemonFramework.Ingress.Writer
import DaemonFramework.Resumption

/-!
# The discipline of requests and replies

What is to hold of a request and its reply on either ingress path. An `Account` is all that has come
of a request, and `Account.Disciplined` is the discipline; `Truthful` is its part about one reply.

A task answers for the reply commands that it sends. `replies` are their lines, and `Silent` says
that there has been none. A task that sends a reply only where it is silent, and then begins nothing
more, sends one at most (`replies_of_kept`).
-/

namespace DaemonFramework.Ingress

open Output Resumption

/-- `response_command`. -/
def responseCommand (id : String) (result : Except String Value)
    (cancelledRequestId : Option String) (route : Option ClientRoute) : OutputCommand :=
  .response id result cancelledRequestId route

/-- The outcome that a reply names. -/
def outcomeOf (line : Value) : Option String := (line.get "outcome").bind Value.asStr

/-- The reply line of a request is its own, and says of the outcome what has come about after so
many invocations and with these valid answers. -/
structure Truthful (message : ClientMessage) (invocations : ℕ) (answers : List Value)
    (line : Value) : Prop where
  /-- The reply carries the id of the request. -/
  id : line.get "id" = some (.string message.request.requestId)
  /-- The reply carries the route of the request. -/
  route : line.get "route" = message.route.map ClientRoute.toValue
  /-- A request is rejected only if nothing was invoked for it. -/
  rejected : outcomeOf line = some "rejected-before-dispatch" → invocations = 0
  /-- The outcome of a call that was dispatched and not answered is unknown. -/
  unknown : message.request.IsCall → 0 < invocations → answers = [] →
    outcomeOf line = some "outcome-unknown"

/-- What has come of a request. -/
structure Account where
  /-- The request. -/
  message : ClientMessage
  /-- How often a method was invoked for it. -/
  invocations : ℕ
  /-- The valid answers to it that came in time. -/
  answers : List Value
  /-- Its task has ended by itself. -/
  finished : Bool
  /-- The reply lines written for it. -/
  replies : List Value

/-- The discipline of requests and replies. `drained` says that the output is open and has written
all that it was sent. -/
structure Account.Disciplined (a : Account) (drained : Prop) : Prop where
  /-- There is one reply line at most. -/
  atMostOne : a.replies.length ≤ 1
  /-- There is one, if the task was allowed to finish. -/
  exactlyOne : drained → a.finished = true → a.replies.length = 1
  /-- Every reply is the request's own, and true. -/
  truthful : ∀ line ∈ a.replies, Truthful a.message a.invocations a.answers line
  /-- A call or a subscription is invoked once at most. -/
  once : a.message.request.IsOrdinary → a.invocations ≤ 1

namespace Truthful

variable {message : ClientMessage} {n : ℕ} {answers : List Value}

/-- The route of a record that has no route field of its own. -/
theorem get_route {fields : List (String × Value)} (h : (Value.object fields).get "route" = none)
    (route : Option ClientRoute) :
    (addressedMessage (.object fields) route).get "route" = route.map ClientRoute.toValue := by
  cases route with
  | none => exact h
  | some route => exact Value.get_setField_self "route" route.toValue fields

/-- The line of a refused request. -/
theorem requestError {outcome : String} (text : String)
    (hrejected : outcome = "rejected-before-dispatch" → n = 0)
    (hunknown : message.request.IsCall → 0 < n → answers = [] → outcome = "outcome-unknown") :
    ∀ line ∈ (OutputCommand.requestError message.request.requestId outcome text
      message.route).replyLine, Truthful message n answers line := by
  intro line hline
  obtain rfl := Option.some.inj hline
  have houtcome : outcomeOf (addressedMessage ((responseErrorMessage message.request.requestId
      text).setField "outcome" (.string outcome)) message.route) = some outcome := by
    simp only [outcomeOf, responseErrorMessage, Value.setField]
    rw [get_addressedMessage (by decide)]
    rfl
  constructor
  · simp only [responseErrorMessage, Value.setField]
    rw [get_addressedMessage (by decide)]
    rfl
  · exact get_route rfl message.route
  · intro h
    rw [houtcome] at h
    exact hrejected (Option.some.inj h)
  · intro hcall hn hanswers
    rw [houtcome, hunknown hcall hn hanswers]

/-- The line of a response. -/
theorem response (result : Except String Value) (cancelled : Option String)
    (h : message.request.IsCall → 0 < n → answers ≠ []) :
    ∀ line ∈ (OutputCommand.response message.request.requestId result cancelled
      message.route).replyLine, Truthful message n answers line := by
  intro line hline
  obtain rfl := Option.some.inj hline
  obtain ⟨fields, hfields, hid, hroute, houtcome⟩ : ∃ fields,
      responseLine message.request.requestId result = .object fields ∧
      (Value.object fields).get "id" = some (.string message.request.requestId) ∧
      (Value.object fields).get "route" = none ∧ (Value.object fields).get "outcome" = none := by
    cases result <;> exact ⟨_, rfl, rfl, rfl, rfl⟩
  have hnone : outcomeOf (addressedMessage (.object fields) message.route) = none := by
    rw [outcomeOf, get_addressedMessage (by decide), houtcome]
    rfl
  rw [hfields]
  constructor
  · rw [get_addressedMessage (by decide), hid]
  · exact get_route hroute message.route
  · intro h
    rw [hnone] at h
    cases h
  · intro hcall hn hanswers
    exact absurd hanswers (h hcall hn)

/-- What is true for some answers is true for others, if a call that has no others has none. -/
theorem of_answers {line : Value} (h : Truthful message n answers line) {answers' : List Value}
    (hanswers : message.request.IsCall → answers' = [] → answers = []) :
    Truthful message n answers' line :=
  ⟨h.id, h.route, h.rejected, fun hcall hn hnil => h.unknown hcall hn (hanswers hcall hnil)⟩

end Truthful

/-! ## The replies of a task -/

variable {Op : Type} {Ans : Op → Type} (commandOf : Op → Option OutputCommand)

/-- The reply line of a command that was sent. -/
def replyOf (e : Event Op Ans) : Option Value :=
  match e.wake with
  | .answered _ => (commandOf e.op).bind OutputCommand.replyLine
  | .expired _ => none

/-- The reply lines of the commands that a task has sent. -/
def replies (past : List (Event Op Ans)) : List Value := past.filterMap (replyOf commandOf)

variable {commandOf} {past : List (Event Op Ans)}

@[simp] theorem replies_concat (e : Event Op Ans) :
    replies commandOf (past ++ [e]) = replies commandOf past ++ (replyOf commandOf e).toList := by
  cases h : replyOf commandOf e <;> simp [replies, h]

/-- An operation that sends no reply is no reply, however it ends. -/
theorem replyOf_eq_none {e : Event Op Ans}
    (h : (commandOf e.op).bind OutputCommand.replyLine = none) : replyOf commandOf e = none := by
  unfold replyOf
  split
  · exact h
  · rfl

/-- A reply is the line of the command that was sent. -/
theorem mem_replyLine_of_replyOf {e : Event Op Ans} {line : Value}
    (h : replyOf commandOf e = some line) :
    line ∈ (commandOf e.op).bind OutputCommand.replyLine := by
  unfold replyOf at h
  split at h
  · exact h
  · cases h

/-- A task that begins nothing after a reply has sent one at most, as the last thing it did. -/
theorem replies_of_kept {I : List (Event Op Ans) → Op → Prop}
    (hsilent : ∀ past op, I past op → replies commandOf past = []) (h : Kept I past) :
    replies commandOf past = [] ∨ ∃ before e line, past = before ++ [e] ∧ I before e.op ∧
      replyOf commandOf e = some line ∧ replies commandOf past = [line] := by
  rcases List.eq_nil_or_concat' past with rfl | ⟨before, e, rfl⟩
  · exact .inl rfl
  · have hI : I before e.op := h before e [] rfl
    rw [replies_concat, hsilent before e.op hI, List.nil_append]
    cases hreply : replyOf commandOf e with
    | none => exact .inl rfl
    | some line => exact .inr ⟨before, e, line, rfl, hI, hreply, rfl⟩

/-! ## The replies of all requests -/

section Tickets

variable {τ : Type} {sent : τ → List Value} {tickets : List τ} {t : τ} {k : ℕ}

/-- The replies sent for one of the requests. -/
def sentBy (sent : τ → List Value) (tickets : List τ) (k : ℕ) : List Value :=
  (tickets[k]?.map sent).getD []

/-- The replies sent for a request that there is. -/
theorem sentBy_of_getElem? (ht : tickets[k]? = some t) : sentBy sent tickets k = sent t := by
  simp [sentBy, ht]

/-- A new request has sent nothing. -/
theorem sentBy_append (ht : sent t = []) (k : ℕ) :
    sentBy sent (tickets ++ [t]) k = sentBy sent tickets k := by
  unfold sentBy
  by_cases hk : k < tickets.length
  · rw [List.getElem?_append_left hk]
  · rw [List.getElem?_append_right (by omega), List.getElem?_eq_none (by omega : _ ≤ k)]
    cases k - tickets.length <;> simp [ht]

/-- A request that sends `more` leaves the replies of the others as they were. -/
theorem sentBy_set {t' : τ} {more : List Value} (ht : tickets[k]? = some t)
    (ht' : sent t' = sent t ++ more) (j : ℕ) :
    sentBy sent (tickets.set k t') j =
      sentBy sent tickets j ++ if k = j then more else [] := by
  by_cases hj : k = j
  · subst hj
    have hk : k < tickets.length := (List.getElem?_eq_some_iff.1 ht).1
    rw [sentBy_of_getElem? ht, sentBy_of_getElem? (List.getElem?_set_self hk), ht', if_pos rfl]
  · simp [sentBy, List.getElem?_set_ne hj, hj]

end Tickets

/-- A request is kept to the discipline if its task sends one reply at most, a true one, and one
when it ends. -/
theorem Writer.Accounts.disciplined {w : Writer} {k : ℕ} {sent : List Value} {a : Account}
    (h : w.Accounts k sent) (hwritten : a.replies = w.written k)
    (hone : sent = [] ∨ ∃ line, sent = [line] ∧ Truthful a.message a.invocations a.answers line)
    (hfinished : a.finished = true → sent ≠ [])
    (honce : a.message.request.IsOrdinary → a.invocations ≤ 1) : a.Disciplined w.Drained := by
  have hlength : sent.length ≤ 1 := by
    rcases hone with rfl | ⟨line, rfl, -⟩ <;> simp
  have hprefix := h.written_prefix
  constructor
  · rw [hwritten]
    exact hprefix.length_le.trans hlength
  · intro hdrained hdone
    have hpos := List.length_pos_iff.2 (hfinished hdone)
    rw [hwritten, h.written_of_drained hdrained]
    omega
  · intro line hline
    rw [hwritten] at hline
    have hmem := hprefix.mem hline
    rcases hone with rfl | ⟨line', rfl, htruthful⟩
    · cases hmem
    · obtain rfl := List.mem_singleton.1 hmem
      exact htruthful
  · exact honce

end DaemonFramework.Ingress
