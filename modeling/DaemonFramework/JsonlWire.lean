import DaemonFramework.Json

/-!
# The JSONL wire messages

The routes and messages of `shelllist-daemon-core/src/jsonl_wire.rs`. A record on the wire is one
JSON value; `kind` says what it is, and `eventOfLine` reads an event record back. Only event records
have the kind `event`, whatever their payload, which is what lets the output be read line by line.
-/

namespace DaemonFramework

/-- The kind of a client route. -/
inductive RouteKind where
  | call
  | subscription
  | baseSubscription
  | control
deriving DecidableEq

/-- The kebab-case name of a route kind. -/
def RouteKind.name : RouteKind → String
  | .call => "call"
  | .subscription => "subscription"
  | .baseSubscription => "base-subscription"
  | .control => "control"

/-- Bridge-local addressing of one consumer's request. -/
structure ClientRoute where
  /-- The consumer that the message is addressed to. -/
  consumerId : String
  /-- The consumer's own name for the request. -/
  localId : String
  /-- The consumer's generation. -/
  generation : UInt64
  /-- The kind of request that was routed. -/
  kind : RouteKind
deriving DecidableEq

/-- `json!(route)`. -/
def ClientRoute.toValue (route : ClientRoute) : Value :=
  .object [("consumerId", .string route.consumerId),
    ("generation", .number (.posInt route.generation)),
    ("kind", .string route.kind.name), ("localId", .string route.localId)]

/-- Put the route, when there is one, on a message. -/
def addressedMessage (message : Value) (route : Option ClientRoute) : Value :=
  match route with
  | some route => message.setField "route" route.toValue
  | none => message

/-- A successful response. -/
def responseMessage (id : String) (response : Value) : Value :=
  (Value.object [("id", .string id), ("kind", .string "response"), ("ok", .bool true)]).setField
    "response" response

/-- A failed response. -/
def responseErrorMessage (id error : String) : Value :=
  .object [("error", .string error), ("id", .string id), ("kind", .string "response"),
    ("ok", .bool false)]

/-- An event of a stream. -/
def eventMessage (stream : String) (event : Value) : Value :=
  (Value.object [("kind", .string "event"), ("stream", .string stream)]).setField "event" event

/-- A record that could not be understood. -/
def protocolErrorMessage (error : String) : Value :=
  .object [("error", .string error), ("kind", .string "protocol-error")]

/-- The transport generation has failed. -/
def transportErrorMessage (error : String) : Value :=
  .object [("error", .string error), ("kind", .string "transport-error"),
    ("outcome", .string "transport-generation-failure")]

/-- The response to a shutdown request. -/
def shutdownMessage (id : String) : Value :=
  responseMessage id (.object [("shutdown", .bool true)])

/-- The kind of a record. -/
def lineKind (line : Value) : Option String := (line.get "kind").bind Value.asStr

/-- The stream and the payload of an event record; nothing of any other record. -/
def eventOfLine (line : Value) : Option (String × Value) :=
  if lineKind line = some "event" then
    ((line.get "stream").bind Value.asStr).bind fun stream =>
      (line.get "event").map fun event => (stream, event)
  else none

/-- A route changes no field but `route`. -/
theorem get_addressedMessage {key : String} (h : "route" ≠ key) (fields : List (String × Value))
    (route : Option ClientRoute) :
    (addressedMessage (.object fields) route).get key = (Value.object fields).get key := by
  cases route with
  | none => rfl
  | some route => exact Value.get_setField_ne h _ _

/-- A route leaves the kind of a record as it was. -/
theorem lineKind_addressedMessage (fields : List (String × Value)) (route : Option ClientRoute) :
    lineKind (addressedMessage (.object fields) route) = lineKind (.object fields) := by
  unfold lineKind
  rw [get_addressedMessage (by decide)]

/-- An event record, routed or not, is read back as the event it carries. -/
@[simp] theorem eventOfLine_eventMessage (stream : String) (event : Value)
    (route : Option ClientRoute) :
    eventOfLine (addressedMessage (eventMessage stream event) route) = some (stream, event) := by
  have hkind : lineKind (addressedMessage (eventMessage stream event) route) = some "event" := by
    simp only [eventMessage, Value.setField, lineKind_addressedMessage]
    rfl
  have hstream : (addressedMessage (eventMessage stream event) route).get "stream" =
      some (.string stream) := by
    simp only [eventMessage, Value.setField]
    rw [get_addressedMessage (by decide)]
    rfl
  have hevent : (addressedMessage (eventMessage stream event) route).get "event" = some event := by
    simp only [eventMessage, Value.setField]
    rw [get_addressedMessage (by decide)]
    exact Value.get_setField_self "event" event _
  simp [eventOfLine, hkind, hstream, hevent, Value.asStr]

/-- A record of another kind is not an event. -/
theorem eventOfLine_eq_none {line : Value} (kind : String) (h : lineKind line = some kind)
    (hne : kind ≠ "event") : eventOfLine line = none := by
  simp [eventOfLine, h, hne]

/-- A successful response, routed or not, is not an event. -/
@[simp] theorem eventOfLine_responseMessage (id : String) (response : Value)
    (route : Option ClientRoute) :
    eventOfLine (addressedMessage (responseMessage id response) route) = none := by
  apply eventOfLine_eq_none "response" _ (by decide)
  simp only [responseMessage, Value.setField, lineKind_addressedMessage]
  rfl

/-- A failed response, routed or not, is not an event. -/
@[simp] theorem eventOfLine_responseErrorMessage (id error : String)
    (route : Option ClientRoute) :
    eventOfLine (addressedMessage (responseErrorMessage id error) route) = none := by
  apply eventOfLine_eq_none "response" _ (by decide)
  simp only [responseErrorMessage, lineKind_addressedMessage]
  rfl

/-- A failed response with its outcome, routed or not, is not an event. -/
@[simp] theorem eventOfLine_requestError (id error outcome : String) (route : Option ClientRoute) :
    eventOfLine (addressedMessage
      ((responseErrorMessage id error).setField "outcome" (.string outcome)) route) = none := by
  apply eventOfLine_eq_none "response" _ (by decide)
  simp only [responseErrorMessage, Value.setField, lineKind_addressedMessage]
  rfl

/-- A protocol error is not an event. -/
@[simp] theorem eventOfLine_protocolErrorMessage (error : String) :
    eventOfLine (protocolErrorMessage error) = none :=
  eventOfLine_eq_none "protocol-error" rfl (by decide)

/-- A transport error is not an event. -/
@[simp] theorem eventOfLine_transportErrorMessage (error : String) :
    eventOfLine (transportErrorMessage error) = none :=
  eventOfLine_eq_none "transport-error" rfl (by decide)

/-- The response to a shutdown request is not an event. -/
@[simp] theorem eventOfLine_shutdownMessage (id : String) :
    eventOfLine (shutdownMessage id) = none :=
  eventOfLine_responseMessage id _ none

end DaemonFramework
