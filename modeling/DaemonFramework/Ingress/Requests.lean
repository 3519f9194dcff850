import DaemonFramework.JsonlWire

/-!
# Requests

`ClientRequest` and `ClientMessage` of `shelllist-daemon-core/src/jsonl_wire.rs`, and the
`RequestSlots` of `shelllist-daemon-tokio/src/jsonl.rs`, which both ingress paths use: the bridge to
a daemon on D-Bus, and the socket of a service.

What is to hold of a request and its reply on either path is said here too. An `Account` is all that
has come of a request, and `Account.Disciplined` is the discipline; `Truthful` is its part about one
reply.
-/

namespace DaemonFramework.Ingress

/-- A request of a client. -/
inductive ClientRequest where
  | call (id method : String) (params : Value)
  | subscribe (id : String) (streams : List String)
  | cancel (id requestId : String)
  | release (id : String)
  | shutdown (id : String)
deriving DecidableEq

namespace ClientRequest

/-- `request_id`. -/
def requestId : ClientRequest → String
  | call id _ _ | subscribe id _ | cancel id _ | release id | shutdown id => id

/-- The request is a call. -/
def IsCall : ClientRequest → Prop
  | call _ _ _ => True
  | _ => False

/-- The request is a call or a subscription. -/
def IsOrdinary : ClientRequest → Prop
  | call _ _ _ | subscribe _ _ => True
  | _ => False

/-- The request shuts the client down. -/
def IsShutdown : ClientRequest → Prop
  | shutdown _ => True
  | _ => False

instance (r : ClientRequest) : Decidable r.IsCall := by
  cases r <;> unfold IsCall <;> infer_instance

instance (r : ClientRequest) : Decidable r.IsOrdinary := by
  cases r <;> unfold IsOrdinary <;> infer_instance

instance (r : ClientRequest) : Decidable r.IsShutdown := by
  cases r <;> unfold IsShutdown <;> infer_instance

/-- The kind of route that the request may have. -/
def MatchesKind : ClientRequest → RouteKind → Prop
  | call _ _ _, .call => True
  | subscribe _ _, .subscription | subscribe _ _, .baseSubscription => True
  | cancel _ _, .control | release _, .control => True
  | _, _ => False

instance (r : ClientRequest) (kind : RouteKind) : Decidable (r.MatchesKind kind) := by
  cases r <;> cases kind <;> unfold MatchesKind <;> infer_instance

end ClientRequest

/-- A request with its route. -/
structure ClientMessage where
  /-- The request. -/
  request : ClientRequest
  /-- The route of its reply. -/
  route : Option ClientRoute
deriving DecidableEq

/-- `ClientMessage::validate`. -/
def ClientMessage.validate (message : ClientMessage) : Except String Unit :=
  match message.route, message.request with
  | none, .release _ => .error "release requires a consumer route"
  | none, _ => .ok ()
  | some route, request =>
    if ¬ (1 ≤ route.consumerId.utf8ByteSize ∧ route.consumerId.utf8ByteSize ≤ 256) ∨
        ¬ (1 ≤ route.localId.utf8ByteSize ∧ route.localId.utf8ByteSize ≤ 1024) then
      .error "invalid bridge route identifier length"
    else if request.MatchesKind route.kind then .ok ()
    else .error "bridge route kind does not match request"

/-- The message passes its validation, and is no shutdown. -/
def ClientMessage.WellFormed (message : ClientMessage) : Prop :=
  message.validate.isOk = true ∧ ¬ message.request.IsShutdown

instance (message : ClientMessage) : Decidable message.WellFormed := by
  unfold ClientMessage.WellFormed
  infer_instance

/-- `CONTROL_CAPACITY`. -/
def controlCapacity : ℕ := 16

/-- The free permits of the two semaphores. -/
structure RequestSlots where
  /-- For calls and subscriptions. -/
  calls : ℕ
  /-- For all other requests. -/
  controls : ℕ
deriving DecidableEq

namespace RequestSlots

/-- `RequestSlots::new`. -/
def new (maximumCalls : ℕ) : RequestSlots := ⟨maximumCalls, controlCapacity⟩

/-- `RequestSlots::acquire`, which does not wait for a permit. -/
def acquire (slots : RequestSlots) (request : ClientRequest) : Option RequestSlots :=
  if request.IsOrdinary then
    if 0 < slots.calls then some { slots with calls := slots.calls - 1 } else none
  else if 0 < slots.controls then some { slots with controls := slots.controls - 1 } else none

/-- The permit of a request is dropped. -/
def release (slots : RequestSlots) (request : ClientRequest) : RequestSlots :=
  if request.IsOrdinary then { slots with calls := slots.calls + 1 }
  else { slots with controls := slots.controls + 1 }

end RequestSlots

/-- A method that the daemon or the service is asked to execute. -/
inductive Invocation where
  | call (method : String) (params : Value)
  | subscribe (streams : List String)
  | cancel (requestId : String)
deriving DecidableEq

/-- `cancellation_succeeded`. -/
def cancellationSucceeded (response : Value) : Bool :=
  response.get "ok" ≠ some (.bool false)

end DaemonFramework.Ingress
