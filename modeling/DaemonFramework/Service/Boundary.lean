import DaemonFramework.Envelope
import DaemonFramework.Tally

/-!
# The service boundary

`ServiceBoundary` of `shelllist-daemon-tokio/src/service.rs`: the checks before a request is
dispatched, and what an `Admitted` holds until it is dropped. A semaphore is the number of its free
permits. A function that changes the boundary returns the new one, beside the result where it
admits; a rejection changes nothing.

`call_policy` takes its permit and its quota at two moments, since the usage is behind a lock of its
own, so it is here in two parts. `Admitted::drop` gives them back at two moments as well: the fields
are dropped in their order, the quota before the permit.

A response is the value that is written out. Lengths are in bytes.
-/

namespace DaemonFramework.Service

/-- What a method does to the world. -/
inductive ExecutionMode where
  | read
  | effect
  | operation
deriving DecidableEq

/-- The part of a method's declared policy that the boundary reads. -/
structure MethodPolicy where
  /-- What the method does. -/
  execution : ExecutionMode
  /-- The longest parameters. -/
  requestBytes : ℕ
  /-- The longest result. -/
  resultBytes : ℕ
  /-- How many handlers of this method run at once. -/
  maxInFlight : ℕ
  /-- How many handlers run at once for one owner. -/
  maxOwnerInFlight : ℕ
deriving DecidableEq

/-- The policy-governed requests in flight. -/
structure Usage where
  /-- By owner. -/
  owners : Tally String
  /-- By method. -/
  methods : Tally String

/-- A semaphore of the boundary. -/
inductive Lane where
  /-- Requests to do something. -/
  | calls
  /-- Cancellations. -/
  | controls
deriving DecidableEq

/-- The boundary. -/
structure ServiceBoundary where
  /-- The identity in its responses. -/
  api : ApiIdentity
  /-- The free permits for requests. -/
  calls : ℕ
  /-- The free permits for cancellations. -/
  controls : ℕ
  /-- The longest request. -/
  requestBytes : ℕ
  /-- The longest result. -/
  resultBytes : ℕ
  /-- What is in flight. -/
  usage : Usage

/-- A place in the usage of an owner and of a method. -/
structure Quota where
  /-- Whose it is. -/
  owner : String
  /-- What for. -/
  method : String

/-- The right to execute a request, and all that it holds. -/
structure Admitted where
  /-- The identity in the response. -/
  api : ApiIdentity
  /-- The longest result. -/
  resultBytes : ℕ
  /-- The policy, where the request was admitted under one. -/
  policy : Option MethodPolicy
  /-- The place in the usage, where there is a policy. -/
  quota : Option Quota
  /-- The lane of the permit. -/
  permit : Lane

/-- A rejection. -/
def reject (api : ApiIdentity) (code message : String) : Value :=
  error api ((ApiError.new code message).withRetryable false)

/-- The usage without one place. -/
def Quota.drop (quota : Quota) (usage : Usage) : Usage :=
  ⟨usage.owners.release quota.owner, usage.methods.release quota.method⟩

namespace ServiceBoundary

/-- A boundary that nothing has entered. -/
def withLimits (api : ApiIdentity) (calls controls requestBytes resultBytes : ℕ) :
    ServiceBoundary :=
  ⟨api, calls, controls, requestBytes, resultBytes, ⟨∅, ∅⟩⟩

/-- The boundary with the default limits. -/
def new (api : ApiIdentity) : ServiceBoundary :=
  withLimits api 64 16 (1024 * 1024) (16 * 1024 * 1024)

/-- The free permits of a lane. -/
def available (b : ServiceBoundary) : Lane → ℕ
  | .calls => b.calls
  | .controls => b.controls

/-- Set the free permits of a lane. -/
def setAvailable (b : ServiceBoundary) : Lane → ℕ → ServiceBoundary
  | .calls, n => { b with calls := n }
  | .controls, n => { b with controls := n }

/-- A permit is dropped. -/
def dropPermit (b : ServiceBoundary) (lane : Lane) : ServiceBoundary :=
  b.setAvailable lane (b.available lane + 1)

/-- The place in the usage is dropped, if there is one. -/
def dropQuota (b : ServiceBoundary) (quota : Option Quota) : ServiceBoundary :=
  { b with usage := quota.elim b.usage fun q => q.drop b.usage }

/-- `reject`. -/
def reject (b : ServiceBoundary) (code message : String) : Value :=
  Service.reject b.api code message

/-- The rejection of a request whose lane has no free permit. -/
def capacityRejection (b : ServiceBoundary) : Value :=
  b.reject "rejected-before-dispatch" "Service capacity exceeded; request was not dispatched"

/-- Take a permit of the lane. -/
def acquire (b : ServiceBoundary) (lane : Lane) : Except Value (Admitted × ServiceBoundary) :=
  if b.available lane = 0 then .error b.capacityRejection
  else .ok (⟨b.api, b.resultBytes, none, none, lane⟩, b.setAvailable lane (b.available lane - 1))

/-- Check the owner and take a permit of the lane. -/
def enter (b : ServiceBoundary) (owner : Option String) (lane : Lane) :
    Except Value (Admitted × ServiceBoundary) :=
  if owner.all String.isEmpty then
    .error (b.reject "owner-required" "A D-Bus caller identity is required")
  else b.acquire lane

/-- `raw`. -/
def raw (b : ServiceBoundary) (owner : Option String) (name : String) (bytes : ℕ) :
    Except Value (Admitted × ServiceBoundary) :=
  if ¬(1 ≤ name.utf8ByteSize ∧ name.utf8ByteSize ≤ 256) ∨ bytes > b.requestBytes then
    .error (b.reject "request-too-large"
      "Request exceeds service limits; request was not dispatched")
  else b.enter owner .calls

/-- `call`. -/
def call (b : ServiceBoundary) (owner : Option String) (method params : String) :
    Except Value (Admitted × ServiceBoundary) :=
  b.raw owner method params.utf8ByteSize

/-- The first part of `call_policy`: check the length and take a permit. -/
def callPolicyEnter (b : ServiceBoundary) (owner : Option String) (method params : String)
    (policy : MethodPolicy) : Except Value (Admitted × ServiceBoundary) :=
  if params.utf8ByteSize > policy.requestBytes then
    .error (b.reject "request-too-large"
      "Request exceeds method limits; request was not dispatched")
  else b.call owner method params

/-- The second part of `call_policy`: check the usage and take a place in it. -/
def callPolicyQuota (b : ServiceBoundary) (admitted : Admitted) (owner : Option String)
    (method : String) (policy : MethodPolicy) : Except Value (Admitted × ServiceBoundary) :=
  match owner with
  -- `enter` has turned such a request away already.
  | none => .error (b.reject "owner-required" "A D-Bus caller identity is required")
  | some owner =>
    if b.usage.owners.count owner ≥ policy.maxOwnerInFlight ∨
        b.usage.methods.count method ≥ policy.maxInFlight then
      .error (b.reject "rejected-before-dispatch"
        "Method or owner capacity exceeded; request was not dispatched")
    else
      .ok ({ admitted with
          quota := some ⟨owner, method⟩
          resultBytes := min b.resultBytes policy.resultBytes
          policy := some policy },
        { b with usage := ⟨b.usage.owners.increment owner, b.usage.methods.increment method⟩ })

/-- `subscribe`. -/
def subscribe (b : ServiceBoundary) (owner : Option String) (streams : List String) :
    Except Value (Admitted × ServiceBoundary) :=
  if streams.length > 64 ∨
      streams.any (fun s => ¬(1 ≤ s.utf8ByteSize ∧ s.utf8ByteSize ≤ 256)) then
    .error (b.reject "request-too-large"
      "Subscription exceeds service limits; request was not dispatched")
  else b.enter owner .calls

/-- `cancel`. -/
def cancel (b : ServiceBoundary) (owner : Option String) (id : String) :
    Except Value (Admitted × ServiceBoundary) :=
  if ¬(1 ≤ id.utf8ByteSize ∧ id.utf8ByteSize ≤ 256) then
    .error (b.reject "validation-error"
      "Invalid cancellation identifier; request was not dispatched")
  else b.enter owner .controls

/-! ## The permits of the lanes -/

variable (b : ServiceBoundary)

/-- The permits of the lane that were set. -/
@[simp] theorem available_setAvailable_self (lane : Lane) (n : ℕ) :
    (b.setAvailable lane n).available lane = n := by
  cases lane <;> rfl

/-- The permits of the other lane. -/
theorem available_setAvailable_ne {lane lane' : Lane} (h : lane ≠ lane') (n : ℕ) :
    (b.setAvailable lane n).available lane' = b.available lane' := by
  cases lane <;> cases lane' <;> first | rfl | exact absurd rfl h

/-- Permits are apart from the usage. -/
@[simp] theorem usage_setAvailable (lane : Lane) (n : ℕ) :
    (b.setAvailable lane n).usage = b.usage := by
  cases lane <;> rfl

/-- The permits that are set last count. -/
@[simp] theorem setAvailable_setAvailable (lane : Lane) (m n : ℕ) :
    (b.setAvailable lane m).setAvailable lane n = b.setAvailable lane n := by
  cases lane <;> rfl

/-- Setting the permits to what they are. -/
@[simp] theorem setAvailable_available (lane : Lane) :
    b.setAvailable lane (b.available lane) = b := by
  cases lane <;> rfl

/-- Dropping a permit just taken. -/
theorem dropPermit_setAvailable {lane : Lane} (h : 0 < b.available lane) :
    (b.setAvailable lane (b.available lane - 1)).dropPermit lane = b := by
  have hsucc : b.available lane - 1 + 1 = b.available lane := by omega
  unfold dropPermit
  rw [available_setAvailable_self, hsucc, setAvailable_setAvailable, setAvailable_available]

/-- Permits are dropped in any order. -/
theorem dropPermit_comm (lane lane' : Lane) :
    (b.dropPermit lane).dropPermit lane' = (b.dropPermit lane').dropPermit lane := by
  cases lane <;> cases lane' <;> rfl

/-- A permit is dropped before a place or after it. -/
theorem dropQuota_dropPermit (lane : Lane) (quota : Option Quota) :
    (b.dropPermit lane).dropQuota quota = (b.dropQuota quota).dropPermit lane := by
  cases lane <;> rfl

/-- With another permit, `call_policy` decides as without it. -/
theorem callPolicyQuota_dropPermit (lane : Lane) (a : Admitted) (owner : Option String)
    (method : String) (policy : MethodPolicy) :
    (b.dropPermit lane).callPolicyQuota a owner method policy =
      (b.callPolicyQuota a owner method policy).map (Prod.map id (·.dropPermit lane)) := by
  cases owner with
  | none => cases lane <;> rfl
  | some o =>
    have husage : (b.dropPermit lane).usage = b.usage := b.usage_setAvailable _ _
    simp only [callPolicyQuota, husage]
    split_ifs with hfull
    · cases lane <;> rfl
    · cases lane <;> rfl

/-- With another permit, a request that was not refused one gets one as before. -/
theorem acquire_dropPermit {lane lane' : Lane} (h : lane = lane' → 0 < b.available lane') :
    (b.dropPermit lane).acquire lane' =
      (b.acquire lane').map (Prod.map id (·.dropPermit lane)) := by
  unfold acquire
  by_cases hlane : lane = lane'
  · subst hlane
    have hfree := h rfl
    have hleft : (b.dropPermit lane).setAvailable lane ((b.dropPermit lane).available lane - 1) =
        b := by simp [dropPermit]
    have hright := b.dropPermit_setAvailable hfree
    rw [if_neg (by simp [dropPermit]), if_neg (by omega), hleft]
    simp only [Except.map, Prod.map, id_eq, hright]
    cases lane <;> rfl
  · have hother : (b.dropPermit lane).available lane' = b.available lane' :=
      b.available_setAvailable_ne hlane _
    rw [hother]
    split_ifs with hfree
    · cases lane <;> rfl
    · cases lane <;> cases lane' <;> first | rfl | exact absurd rfl hlane

end ServiceBoundary

end DaemonFramework.Service
