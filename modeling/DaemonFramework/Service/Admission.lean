import DaemonFramework.Machine
import DaemonFramework.Roster
import DaemonFramework.Service.Boundary

/-!
# The accounting of admissions

Any number of requests to one boundary, in the order in which they are made. A step is what one of
them does while it holds a lock or a semaphore, so `call_policy` and the drop of an `Admitted` take
two steps each, and another request can come between them.

`Accounted` says that the permits and the usage are the numbers of those that hold them, in every
state. `Without` relates a state to the same state without one request, which is how a rejected
request is shown to leave nothing behind.
-/

namespace DaemonFramework.Service

/-- A request to the boundary. -/
inductive Request where
  | call (owner : Option String) (method params : String)
  | callPolicy (owner : Option String) (method params : String) (policy : MethodPolicy)
  | raw (owner : Option String) (name : String) (bytes : ℕ)
  | subscribe (owner : Option String) (streams : List String)
  | cancel (owner : Option String) (id : String)

namespace Request

/-- The lane of a request: only cancellations are controls. -/
def lane : Request → Lane
  | cancel _ _ => .controls
  | _ => .calls

/-- The place in the usage that a request holds once it is admitted: only `call_policy` takes
one. -/
def quota : Request → Option Quota
  | callPolicy (some owner) method _ _ => some ⟨owner, method⟩
  | _ => none

/-- The policy that a request is admitted under. -/
def policy : Request → Option MethodPolicy
  | callPolicy _ _ _ policy => some policy
  | _ => none

/-- What a request does first. -/
def enter (b : ServiceBoundary) : Request → Except Value (Admitted × ServiceBoundary)
  | call owner method params => b.call owner method params
  | callPolicy owner method params policy => b.callPolicyEnter owner method params policy
  | raw owner name bytes => b.raw owner name bytes
  | subscribe owner streams => b.subscribe owner streams
  | cancel owner id => b.cancel owner id

/-- Whether a request has more to do after that. -/
def isPolicy : Request → Bool
  | callPolicy _ _ _ _ => true
  | _ => false

end Request

/-- Where a request is. -/
inductive Phase where
  /-- `call_policy` has its permit and has not looked at the usage. -/
  | entered (admitted : Admitted)
  /-- `call_policy` was refused a place, and has its permit still. -/
  | refused (admitted : Admitted) (response : Value)
  /-- The request was admitted. -/
  | live (admitted : Admitted)
  /-- The `Admitted` is being dropped and has lost its place. -/
  | dropping (admitted : Admitted)
  /-- The `Admitted` was dropped. -/
  | dropped
  /-- The request was rejected. -/
  | rejected (response : Value)

/-- Whether there is an `Admitted` with its permit. -/
def Phase.isHeld : Phase → Bool
  | entered _ | refused _ _ | live _ | dropping _ => true
  | dropped | rejected _ => false

/-- Whether the request is admitted, with its place. -/
def Phase.isLive : Phase → Bool
  | live _ => true
  | _ => false

/-- A request that was made. -/
structure Entry where
  /-- The request. -/
  request : Request
  /-- Where it is. -/
  phase : Phase

namespace Entry

/-- Whether the request holds a permit of the lane. -/
def holds (lane : Lane) (e : Entry) : Bool := e.phase.isHeld && decide (e.request.lane = lane)

/-- Whether the request is admitted with a place under this key. -/
def inUsage (key : Quota → String) (k : String) (e : Entry) : Bool :=
  e.phase.isLive && decide (e.request.quota.map key = some k)

/-- Whether the request is admitted under a policy for the owner. -/
def ofOwner (owner : String) (e : Entry) : Bool := e.inUsage Quota.owner owner

/-- Whether the request is admitted under a policy for the method. -/
def ofMethod (method : String) (e : Entry) : Bool := e.inUsage Quota.method method

end Entry

/-- A boundary and all that was requested of it. -/
structure Admissions where
  /-- The boundary. -/
  boundary : ServiceBoundary
  /-- The requests, in the order in which they were made. -/
  requests : List Entry

namespace Admissions

/-- The number of `Admitted` values with a permit of the lane. -/
def inLane (s : Admissions) (lane : Lane) : ℕ := s.requests.countP (Entry.holds lane)

/-- The number of requests admitted under a policy for the owner. -/
def ofOwner (s : Admissions) (owner : String) : ℕ := s.requests.countP (Entry.ofOwner owner)

/-- The number of requests admitted under a policy for the method. -/
def ofMethod (s : Admissions) (method : String) : ℕ := s.requests.countP (Entry.ofMethod method)

/-- A request is made. -/
def make (s : Admissions) (r : Request) : Admissions :=
  match r.enter s.boundary with
  | .error response => { s with requests := s.requests ++ [⟨r, .rejected response⟩] }
  | .ok (admitted, boundary) =>
    ⟨boundary, s.requests ++ [⟨r, if r.isPolicy then .entered admitted else .live admitted⟩]⟩

/-- `call_policy` goes on to the usage. -/
def takeQuota (s : Admissions) (i : ℕ) : Option Admissions :=
  match s.requests[i]? with
  | some ⟨.callPolicy owner method params policy, .entered admitted⟩ =>
    match s.boundary.callPolicyQuota admitted owner method policy with
    | .error response =>
      some { s with
        requests := s.requests.set i
          ⟨.callPolicy owner method params policy, .refused admitted response⟩ }
    | .ok (admitted, boundary) =>
      some ⟨boundary,
        s.requests.set i ⟨.callPolicy owner method params policy, .live admitted⟩⟩
  | _ => none

/-- An admitted request drops its place in the usage. -/
def dropQuota (s : Admissions) (i : ℕ) : Option Admissions :=
  match s.requests[i]? with
  | some ⟨r, .live admitted⟩ =>
    some ⟨s.boundary.dropQuota admitted.quota, s.requests.set i ⟨r, .dropping admitted⟩⟩
  | _ => none

/-- A request without a place drops its permit: it was admitted before, or was refused the place. -/
def dropPermit (s : Admissions) (i : ℕ) : Option Admissions :=
  match s.requests[i]? with
  | some ⟨r, .dropping admitted⟩ =>
    some ⟨s.boundary.dropPermit admitted.permit, s.requests.set i ⟨r, .dropped⟩⟩
  | some ⟨r, .refused admitted response⟩ =>
    -- `call_policy` returns its rejection, and drops the `Admitted` that it had from `call`.
    some ⟨s.boundary.dropPermit admitted.permit, s.requests.set i ⟨r, .rejected response⟩⟩
  | _ => none

end Admissions

/-- What can happen next. -/
inductive AdmissionStep where
  /-- A request is made. -/
  | request (r : Request)
  /-- `call_policy` goes on to the usage. -/
  | takeQuota (i : ℕ)
  /-- An `Admitted` is dropped, its place first. -/
  | dropQuota (i : ℕ)
  /-- The permit of an `Admitted` is dropped. -/
  | dropPermit (i : ℕ)

/-- The arguments of `with_limits`. -/
structure Limits where
  /-- The identity in the responses. -/
  api : ApiIdentity
  /-- The permits for requests. -/
  calls : ℕ
  /-- The permits for cancellations. -/
  controls : ℕ
  /-- The longest request. -/
  requestBytes : ℕ
  /-- The longest result. -/
  resultBytes : ℕ

/-- A boundary that nothing has entered. -/
def Limits.boundary (limits : Limits) : ServiceBoundary :=
  .withLimits limits.api limits.calls limits.controls limits.requestBytes limits.resultBytes

/-- The permits of a lane. -/
def Limits.capacity (limits : Limits) (lane : Lane) : ℕ := limits.boundary.available lane

/-- One boundary with any number of requests. -/
def admission (limits : Limits) : Machine Admissions AdmissionStep where
  init := ⟨limits.boundary, []⟩
  step s
    | .request r => some (s.make r)
    | .takeQuota i => s.takeQuota i
    | .dropQuota i => s.dropQuota i
    | .dropPermit i => s.dropPermit i

/-! ## What the steps do -/

namespace Request

/-- Why a request is rejected whatever the boundary holds: what it would be told if there were free
permits. -/
def objection (b : ServiceBoundary) (r : Request) : Option Value :=
  match r.enter { b with calls := 1, controls := 1 } with
  | .error response => some response
  | .ok _ => none

/-- Without an objection, a request comes to a permit of its lane. -/
theorem enter_eq (b : ServiceBoundary) (r : Request) :
    r.enter b = match r.objection b with
      | some response => .error response
      | none => b.acquire r.lane := by
  cases r <;>
    simp only [objection, enter, lane, ServiceBoundary.call, ServiceBoundary.callPolicyEnter,
      ServiceBoundary.raw, ServiceBoundary.subscribe, ServiceBoundary.cancel,
      ServiceBoundary.enter] <;>
    split_ifs <;> rfl

/-- The objection does not depend on the free permits. -/
theorem objection_setAvailable (b : ServiceBoundary) (r : Request) (lane : Lane) (n : ℕ) :
    r.objection (b.setAvailable lane n) = r.objection b := by
  cases lane <;> rfl

/-- A request that enters has taken one permit of its lane. -/
theorem enter_eq_ok {r : Request} {b b' : ServiceBoundary} {a : Admitted}
    (h : r.enter b = .ok (a, b')) :
    a.permit = r.lane ∧ a.quota = none ∧ a.policy = none ∧ 0 < b.available r.lane ∧
      b' = b.setAvailable r.lane (b.available r.lane - 1) := by
  rw [enter_eq] at h
  split at h
  · cases h
  · unfold ServiceBoundary.acquire at h
    split_ifs at h with hfree
    obtain ⟨rfl, rfl⟩ := Prod.mk.inj (Except.ok.inj h)
    exact ⟨rfl, rfl, rfl, by omega, rfl⟩

end Request

/-- `call_policy` admits below both limits, and takes one place. -/
theorem ServiceBoundary.callPolicyQuota_eq_ok {b b' : ServiceBoundary} {a a' : Admitted}
    {owner : Option String} {method : String} {policy : MethodPolicy}
    (h : b.callPolicyQuota a owner method policy = .ok (a', b')) :
    ∃ o, owner = some o ∧ b.usage.owners.count o < policy.maxOwnerInFlight ∧
      b.usage.methods.count method < policy.maxInFlight ∧ a'.permit = a.permit ∧
      a'.quota = some ⟨o, method⟩ ∧ a'.policy = some policy ∧
      b' = { b with usage := ⟨b.usage.owners.increment o, b.usage.methods.increment method⟩ } := by
  cases owner with
  | none => cases h
  | some o =>
    unfold ServiceBoundary.callPolicyQuota at h
    dsimp only at h
    split_ifs at h with hfull
    obtain ⟨rfl, rfl⟩ := Prod.mk.inj (Except.ok.inj h)
    exact ⟨o, rfl, by omega, by omega, rfl, rfl, rfl, rfl⟩

namespace Admissions

variable {s t : Admissions} {i : ℕ}

/-- What `call_policy` does when it goes on. -/
theorem takeQuota_eq_some (h : s.takeQuota i = some t) :
    ∃ owner method params policy admitted,
      s.requests[i]? = some ⟨.callPolicy owner method params policy, .entered admitted⟩ ∧
      ((∃ response, t = ⟨s.boundary, s.requests.set i
          ⟨.callPolicy owner method params policy, .refused admitted response⟩⟩) ∨
        ∃ admitted' boundary,
          s.boundary.callPolicyQuota admitted owner method policy = .ok (admitted', boundary) ∧
          t = ⟨boundary, s.requests.set i
            ⟨.callPolicy owner method params policy, .live admitted'⟩⟩) := by
  unfold takeQuota at h
  split at h
  · rename_i owner method params policy admitted hi
    refine ⟨owner, method, params, policy, admitted, hi, ?_⟩
    split at h
    · rename_i response hquota
      exact .inl ⟨response, (Option.some.inj h).symm⟩
    · rename_i admitted' boundary hquota
      exact .inr ⟨admitted', boundary, hquota, (Option.some.inj h).symm⟩
  · cases h

/-- What dropping a place does. -/
theorem dropQuota_eq_some (h : s.dropQuota i = some t) :
    ∃ r admitted, s.requests[i]? = some ⟨r, .live admitted⟩ ∧
      t = ⟨s.boundary.dropQuota admitted.quota, s.requests.set i ⟨r, .dropping admitted⟩⟩ := by
  unfold dropQuota at h
  split at h
  · rename_i r admitted hi
    exact ⟨r, admitted, hi, (Option.some.inj h).symm⟩
  · cases h

/-- What dropping a permit does. -/
theorem dropPermit_eq_some (h : s.dropPermit i = some t) :
    ∃ r admitted phase phase', s.requests[i]? = some ⟨r, phase⟩ ∧
      (phase = .dropping admitted ∧ phase' = .dropped ∨
        ∃ response, phase = .refused admitted response ∧ phase' = .rejected response) ∧
      t = ⟨s.boundary.dropPermit admitted.permit, s.requests.set i ⟨r, phase'⟩⟩ := by
  unfold dropPermit at h
  split at h
  · rename_i r admitted hi
    exact ⟨r, admitted, _, _, hi, .inl ⟨rfl, rfl⟩, (Option.some.inj h).symm⟩
  · rename_i r admitted response hi
    exact ⟨r, admitted, _, _, hi, .inr ⟨response, rfl, rfl⟩, (Option.some.inj h).symm⟩
  · cases h

end Admissions

/-! ## The counts are exact -/

/-- What an `Admitted` holds is what its request takes. -/
def Entry.Consistent (e : Entry) : Prop :=
  match e.phase with
  | .entered admitted | .refused admitted _ | .dropping admitted =>
    admitted.permit = e.request.lane
  | .live admitted =>
    admitted.permit = e.request.lane ∧ admitted.quota = e.request.quota ∧
      admitted.policy = e.request.policy
  | .dropped | .rejected _ => True

/-- Permits and usage are the numbers of those that hold them. -/
structure Accounted (limits : Limits) (s : Admissions) : Prop where
  /-- A permit is free or held. -/
  permits : ∀ lane, s.boundary.available lane + s.inLane lane = limits.capacity lane
  /-- The usage by owner. -/
  owners : s.boundary.usage.owners.Tallies s.ofOwner
  /-- The usage by method. -/
  methods : s.boundary.usage.methods.Tallies s.ofMethod
  /-- The requests hold what they should. -/
  entries : ∀ e ∈ s.requests, e.Consistent

namespace Entry

variable {e : Entry}

/-- A request that is not admitted has no place. -/
theorem inUsage_of_isLive (h : e.phase.isLive = false) (key : Quota → String) (k : String) :
    e.inUsage key k = false := by
  unfold inUsage
  rw [h, Bool.false_and]

/-- A request without a place is in no usage. -/
theorem inUsage_of_quota (h : e.request.quota = none) (key : Quota → String) (k : String) :
    e.inUsage key k = false := by
  simp [inUsage, h]

/-- An admitted request has its place under its key. -/
theorem inUsage_live {r : Request} {q : Quota} (h : r.quota = some q) (a : Admitted)
    (key : Quota → String) (k : String) :
    inUsage key k ⟨r, .live a⟩ = decide (k = key q) := by
  simp [inUsage, Phase.isLive, h, eq_comm]

end Entry

/-- A request that is admitted adds its place. -/
theorem countP_admit {l : List Entry} {i : ℕ} {r : Request} {phase : Phase} {q : Quota}
    (hi : l[i]? = some ⟨r, phase⟩) (hphase : phase.isLive = false) (hq : r.quota = some q)
    (a : Admitted) (key : Quota → String) (k : String) :
    (l.set i ⟨r, .live a⟩).countP (Entry.inUsage key k) =
      l.countP (Entry.inUsage key k) + (decide (k = key q)).toNat := by
  have hcount := Roster.countP_set_add (Entry.inUsage key k) hi ⟨r, .live a⟩
  rw [Entry.inUsage_of_isLive hphase, Entry.inUsage_live hq] at hcount
  exact hcount

/-- An admitted request takes its place away. -/
theorem countP_dismiss {l : List Entry} {i : ℕ} {r : Request} {a : Admitted} {q : Quota}
    (hi : l[i]? = some ⟨r, .live a⟩) (hq : r.quota = some q) {phase : Phase}
    (hphase : phase.isLive = false) (key : Quota → String) (k : String) :
    (l.set i ⟨r, phase⟩).countP (Entry.inUsage key k) + (decide (k = key q)).toNat =
      l.countP (Entry.inUsage key k) := by
  have hcount := Roster.countP_set_add (Entry.inUsage key k) hi ⟨r, phase⟩
  rw [Entry.inUsage_live hq, Entry.inUsage_of_isLive hphase] at hcount
  exact hcount

namespace Accounted

variable {limits : Limits} {s t : Admissions}

/-- At the start. -/
theorem init : Accounted limits (admission limits).init where
  permits := fun _ => rfl
  owners := Tally.tallies_empty
  methods := Tally.tallies_empty
  entries := fun e he => by cases he

/-- A request is made, and holds no place yet. -/
theorem append (h : Accounted limits s) {b : ServiceBoundary} {e : Entry}
    (hpermits : ∀ lane, b.available lane + (e.holds lane).toNat = s.boundary.available lane)
    (husage : b.usage = s.boundary.usage) (howner : ∀ k, e.ofOwner k = false)
    (hmethod : ∀ k, e.ofMethod k = false) (he : e.Consistent) :
    Accounted limits ⟨b, s.requests ++ [e]⟩ := by
  have howners : (⟨b, s.requests ++ [e]⟩ : Admissions).ofOwner = s.ofOwner := by
    funext k
    unfold Admissions.ofOwner
    rw [Roster.countP_append_singleton, howner k]
    rfl
  have hmethods : (⟨b, s.requests ++ [e]⟩ : Admissions).ofMethod = s.ofMethod := by
    funext k
    unfold Admissions.ofMethod
    rw [Roster.countP_append_singleton, hmethod k]
    rfl
  refine ⟨fun lane => ?_, ?_, ?_, Roster.forall_mem_append_singleton h.entries he⟩
  · have hcount := Roster.countP_append_singleton (Entry.holds lane) s.requests e
    have hlane := h.permits lane
    have hfree := hpermits lane
    unfold Admissions.inLane at hlane ⊢
    dsimp only
    omega
  · rw [howners]
    show b.usage.owners.Tallies s.ofOwner
    rw [husage]
    exact h.owners
  · rw [hmethods]
    show b.usage.methods.Tallies s.ofMethod
    rw [husage]
    exact h.methods

/-- A request goes on. -/
theorem set (h : Accounted limits s) {b : ServiceBoundary} {i : ℕ} {e e' : Entry}
    (hi : s.requests[i]? = some e)
    (hpermits : ∀ lane, b.available lane + (e'.holds lane).toNat =
      s.boundary.available lane + (e.holds lane).toNat)
    (howners : b.usage.owners.Tallies (⟨b, s.requests.set i e'⟩ : Admissions).ofOwner)
    (hmethods : b.usage.methods.Tallies (⟨b, s.requests.set i e'⟩ : Admissions).ofMethod)
    (he : e'.Consistent) : Accounted limits ⟨b, s.requests.set i e'⟩ := by
  refine ⟨fun lane => ?_, howners, hmethods, Roster.forall_mem_set h.entries he⟩
  have hcount := Roster.countP_set_add (Entry.holds lane) hi e'
  have hlane := h.permits lane
  have hfree := hpermits lane
  unfold Admissions.inLane at hlane ⊢
  dsimp only
  omega

/-- A request goes on without a place in the usage. -/
theorem set_of_usage (h : Accounted limits s) {b : ServiceBoundary} {i : ℕ} {e e' : Entry}
    (hi : s.requests[i]? = some e)
    (hpermits : ∀ lane, b.available lane + (e'.holds lane).toNat =
      s.boundary.available lane + (e.holds lane).toNat)
    (husage : b.usage = s.boundary.usage) (howner : ∀ k, e.ofOwner k = e'.ofOwner k)
    (hmethod : ∀ k, e.ofMethod k = e'.ofMethod k) (he : e'.Consistent) :
    Accounted limits ⟨b, s.requests.set i e'⟩ := by
  refine h.set hi hpermits ?_ ?_ he
  · have hsame : (⟨b, s.requests.set i e'⟩ : Admissions).ofOwner = s.ofOwner :=
      funext fun k => Roster.countP_set_of_eq _ hi (howner k)
    rw [hsame, husage]
    exact h.owners
  · have hsame : (⟨b, s.requests.set i e'⟩ : Admissions).ofMethod = s.ofMethod :=
      funext fun k => Roster.countP_set_of_eq _ hi (hmethod k)
    rw [hsame, husage]
    exact h.methods

/-- A request is made. -/
theorem make (h : Accounted limits s) (r : Request) : Accounted limits (s.make r) := by
  unfold Admissions.make
  split
  · exact h.append (fun lane => rfl) rfl (fun k => rfl) (fun k => rfl) trivial
  · rename_i admitted b henter
    obtain ⟨hpermit, hquota, hpolicy, hfree, rfl⟩ := Request.enter_eq_ok henter
    have hpermits : ∀ (phase : Phase) (lane : Lane), phase.isHeld = true →
        (s.boundary.setAvailable r.lane (s.boundary.available r.lane - 1)).available lane +
          ((⟨r, phase⟩ : Entry).holds lane).toNat = s.boundary.available lane := by
      intro phase lane hheld
      unfold Entry.holds
      dsimp only
      rw [hheld]
      by_cases hlane : r.lane = lane
      · subst hlane
        simp only [ServiceBoundary.available_setAvailable_self, decide_true, Bool.and_self,
          Bool.toNat_true]
        omega
      · rw [ServiceBoundary.available_setAvailable_ne _ hlane]
        simp [hlane]
    split_ifs with hfurther
    · exact h.append (fun lane => hpermits _ lane rfl) (by simp) (fun k => rfl) (fun k => rfl)
        hpermit
    -- Whatever is admitted in one step has neither a place nor a policy.
    · have hnone : r.quota = none ∧ r.policy = none := by
        cases r <;> first | exact ⟨rfl, rfl⟩ | exact absurd rfl hfurther
      exact h.append (fun lane => hpermits _ lane rfl) (by simp)
        (Entry.inUsage_of_quota hnone.1 Quota.owner) (Entry.inUsage_of_quota hnone.1 Quota.method)
        ⟨hpermit, hquota.trans hnone.1.symm, hpolicy.trans hnone.2.symm⟩

/-- `call_policy` goes on to the usage. -/
theorem takeQuota (h : Accounted limits s) {i : ℕ} (hstep : s.takeQuota i = some t) :
    Accounted limits t := by
  obtain ⟨owner, method, params, policy, admitted, hi, hcases⟩ :=
    Admissions.takeQuota_eq_some hstep
  have hpermit : admitted.permit = Lane.calls := h.entries _ (List.mem_of_getElem? hi)
  rcases hcases with ⟨response, rfl⟩ | ⟨admitted', b, hquota, rfl⟩
  · exact h.set_of_usage hi (fun lane => rfl) rfl (fun k => rfl) (fun k => rfl) hpermit
  · obtain ⟨o, rfl, -, -, hpermit', hquota', hpolicy', rfl⟩ :=
      ServiceBoundary.callPolicyQuota_eq_ok hquota
    -- The permit stays; the request now counts for its owner and for its method.
    refine h.set hi (fun lane => by cases lane <;> rfl) ?_ ?_
      ⟨hpermit'.trans hpermit, hquota', hpolicy'⟩
    · exact h.owners.increment fun k => countP_admit hi rfl rfl admitted' Quota.owner k
    · exact h.methods.increment fun k => countP_admit hi rfl rfl admitted' Quota.method k

/-- An admitted request drops its place. -/
theorem dropQuota (h : Accounted limits s) {i : ℕ} (hstep : s.dropQuota i = some t) :
    Accounted limits t := by
  obtain ⟨r, admitted, hi, rfl⟩ := Admissions.dropQuota_eq_some hstep
  obtain ⟨hpermit, hquota, -⟩ : admitted.permit = r.lane ∧ admitted.quota = r.quota ∧
      admitted.policy = r.policy := h.entries _ (List.mem_of_getElem? hi)
  cases hplace : r.quota with
  | none =>
    rw [hquota, hplace]
    refine h.set_of_usage hi (fun lane => by cases lane <;> rfl) rfl (fun k => ?_) (fun k => ?_)
      hpermit
    · exact (Entry.inUsage_of_quota hplace Quota.owner k).trans
        (Entry.inUsage_of_quota hplace Quota.owner k).symm
    · exact (Entry.inUsage_of_quota hplace Quota.method k).trans
        (Entry.inUsage_of_quota hplace Quota.method k).symm
  | some q =>
    rw [hquota, hplace]
    refine h.set hi (fun lane => by cases lane <;> rfl) ?_ ?_ hpermit
    · exact h.owners.release fun k => countP_dismiss hi hplace rfl Quota.owner k
    · exact h.methods.release fun k => countP_dismiss hi hplace rfl Quota.method k

/-- A request drops its permit. -/
theorem dropPermit (h : Accounted limits s) {i : ℕ} (hstep : s.dropPermit i = some t) :
    Accounted limits t := by
  obtain ⟨r, admitted, phase, phase', hi, hphase, rfl⟩ := Admissions.dropPermit_eq_some hstep
  have hconsistent : (⟨r, phase⟩ : Entry).Consistent := h.entries _ (List.mem_of_getElem? hi)
  have hpermit : admitted.permit = r.lane := by
    rcases hphase with ⟨rfl, -⟩ | ⟨response, rfl, -⟩ <;> exact hconsistent
  have hheld : phase.isHeld = true := by
    rcases hphase with ⟨rfl, -⟩ | ⟨response, rfl, -⟩ <;> rfl
  have hgone : phase'.isHeld = false := by
    rcases hphase with ⟨-, rfl⟩ | ⟨response, -, rfl⟩ <;> rfl
  have hlive : phase.isLive = false ∧ phase'.isLive = false := by
    rcases hphase with ⟨rfl, rfl⟩ | ⟨response, rfl, rfl⟩ <;> exact ⟨rfl, rfl⟩
  have htrivial : (⟨r, phase'⟩ : Entry).Consistent := by
    rcases hphase with ⟨-, rfl⟩ | ⟨response, -, rfl⟩ <;> trivial
  rw [hpermit]
  refine h.set_of_usage hi (fun lane => ?_) ?_ (fun k => ?_) (fun k => ?_) htrivial
  · unfold Entry.holds ServiceBoundary.dropPermit
    dsimp only
    rw [hheld, hgone]
    by_cases hlane : r.lane = lane
    · subst hlane
      simp
    · rw [ServiceBoundary.available_setAvailable_ne _ hlane]
      simp [hlane]
  · simp [ServiceBoundary.dropPermit]
  · exact (Entry.inUsage_of_isLive hlive.1 Quota.owner k).trans
      (Entry.inUsage_of_isLive hlive.2 Quota.owner k).symm
  · exact (Entry.inUsage_of_isLive hlive.1 Quota.method k).trans
      (Entry.inUsage_of_isLive hlive.2 Quota.method k).symm

/-- Every step keeps the accounts. -/
theorem step (h : Accounted limits s) {l : AdmissionStep}
    (hstep : (admission limits).step s l = some t) : Accounted limits t := by
  cases l with
  | request r =>
    obtain rfl := Option.some.inj hstep
    exact h.make r
  | takeQuota i => exact h.takeQuota hstep
  | dropQuota i => exact h.dropQuota hstep
  | dropPermit i => exact h.dropPermit hstep

end Accounted

/-- The accounts are kept in every run. -/
theorem accounted_of_reachable {limits : Limits} {s : Admissions}
    (h : (admission limits).Reachable s) : Accounted limits s :=
  (admission limits).invariant_of_reachable Accounted.init (fun _ _ _ hs hstep => hs.step hstep) h

/-! ## A rejected request leaves nothing behind -/

/-- The boundary once the request has given its permit back. -/
def Entry.release (e : Entry) (b : ServiceBoundary) : ServiceBoundary :=
  if e.phase.isHeld then b.dropPermit e.request.lane else b

/-- The same moment without one request, which holds no place in the usage. -/
def Admissions.without (r : ℕ) (s : Admissions) : Admissions :=
  match s.requests[r]? with
  | some e => ⟨e.release s.boundary, s.requests.eraseIdx r⟩
  | none => s

/-- The same step without one request: its own steps are gone, and later requests have moved up. -/
def AdmissionStep.without (r : ℕ) : AdmissionStep → Option AdmissionStep
  | .request q => some (.request q)
  | .takeQuota i => if i = r then none else some (.takeQuota (Roster.renumber r i))
  | .dropQuota i => if i = r then none else some (.dropQuota (Roster.renumber r i))
  | .dropPermit i => if i = r then none else some (.dropPermit (Roster.renumber r i))

/-- The request was admitted at some time. -/
def Phase.wasAdmitted : Phase → Bool
  | live _ | dropping _ | dropped => true
  | _ => false

/-- The step does not refuse another request a permit of the lane of which `r` holds one. -/
def Uncrowded (r : ℕ) (s : Admissions) (l : AdmissionStep) : Prop :=
  ∀ e q, s.requests[r]? = some e → l = .request q → e.holds q.lane = true →
    q.enter s.boundary ≠ .error s.boundary.capacityRejection

/-- With another permit, a request that was not refused one is answered as before. -/
theorem Request.enter_dropPermit {q : Request} {b : ServiceBoundary} {lane : Lane}
    (h : lane = q.lane → q.enter b ≠ .error b.capacityRejection) :
    q.enter (b.dropPermit lane) = (q.enter b).map (Prod.map id (·.dropPermit lane)) := by
  have hobjection : q.objection (b.dropPermit lane) = q.objection b :=
    q.objection_setAvailable b lane _
  rw [enter_eq, enter_eq, hobjection]
  cases hq : q.objection b with
  | some response => rfl
  | none =>
    -- An empty lane would have refused the request, which `h` excludes.
    refine b.acquire_dropPermit fun hlane => ?_
    by_contra hfull
    refine h hlane ?_
    rw [enter_eq, hq]
    exact if_pos (by omega)

namespace Entry

variable {e : Entry} {b : ServiceBoundary}

/-- Another request is answered as if the permit had been given back. -/
theorem enter_release {q : Request}
    (h : e.holds q.lane = true → q.enter b ≠ .error b.capacityRejection) :
    q.enter (e.release b) = (q.enter b).map (Prod.map id e.release) := by
  unfold release
  split_ifs with hheld
  · refine Request.enter_dropPermit fun hlane => h ?_
    simp [holds, hheld, hlane]
  · cases q.enter b <;> rfl

/-- The usage decides as if the permit had been given back. -/
theorem callPolicyQuota_release (a : Admitted) (owner : Option String) (method : String)
    (policy : MethodPolicy) :
    (e.release b).callPolicyQuota a owner method policy =
      (b.callPolicyQuota a owner method policy).map (Prod.map id e.release) := by
  unfold release
  split_ifs with hheld
  · exact b.callPolicyQuota_dropPermit _ a owner method policy
  · cases b.callPolicyQuota a owner method policy <;> rfl

/-- Places are dropped as if the permit had been given back. -/
theorem dropQuota_release (quota : Option Quota) :
    (e.release b).dropQuota quota = e.release (b.dropQuota quota) := by
  unfold release
  split_ifs
  · exact b.dropQuota_dropPermit _ quota
  · rfl

/-- Permits are dropped as if the permit had been given back. -/
theorem dropPermit_release (lane : Lane) :
    (e.release b).dropPermit lane = e.release (b.dropPermit lane) := by
  unfold release
  split_ifs
  · exact b.dropPermit_comm _ _
  · rfl

end Entry

namespace Admissions

variable {s t : Admissions} {r i : ℕ} {e : Entry}

/-- Leaving out a request that was made. -/
theorem without_of_getElem? (hr : s.requests[r]? = some e) :
    s.without r = ⟨e.release s.boundary, s.requests.eraseIdx r⟩ := by
  unfold without
  rw [hr]

/-- Another request has gone on. -/
theorem without_set (hr : s.requests[r]? = some e) (h : i ≠ r) (b : ServiceBoundary)
    (x : Entry) :
    without r ⟨b, s.requests.set i x⟩ =
      ⟨e.release b, (s.requests.eraseIdx r).set (Roster.renumber r i) x⟩ := by
  have hsame : (⟨b, s.requests.set i x⟩ : Admissions).requests[r]? = some e := by
    rw [List.getElem?_set_ne h, hr]
  rw [without_of_getElem? hsame, Roster.set_withdraw h]

/-- Another request is made. -/
theorem without_make (hr : s.requests[r]? = some e) {q : Request}
    (h : e.holds q.lane = true →
      q.enter s.boundary ≠ .error s.boundary.capacityRejection) :
    (s.without r).make q = (s.make q).without r := by
  have hlt : r < s.requests.length := (List.getElem?_eq_some_iff.1 hr).1
  have happend : ∀ (b : ServiceBoundary) (x : Entry), without r ⟨b, s.requests ++ [x]⟩ =
      ⟨e.release b, s.requests.eraseIdx r ++ [x]⟩ := by
    intro b x
    have hsame : (⟨b, s.requests ++ [x]⟩ : Admissions).requests[r]? = some e := by
      rw [List.getElem?_append_left hlt, hr]
    rw [without_of_getElem? hsame, Roster.append_withdraw hlt]
  rw [without_of_getElem? hr]
  unfold make
  dsimp only
  rw [Entry.enter_release h]
  cases q.enter s.boundary with
  | error response => exact (happend s.boundary _).symm
  | ok p => exact (happend p.2 _).symm

/-- Another request goes on to the usage. -/
theorem takeQuota_without (hr : s.requests[r]? = some e) (h : i ≠ r) :
    (s.without r).takeQuota (Roster.renumber r i) = (s.takeQuota i).map (without r) := by
  rw [without_of_getElem? hr]
  unfold takeQuota
  dsimp only
  rw [Roster.getElem?_withdraw h]
  cases hi : s.requests[i]? with
  | none => rfl
  | some x =>
    obtain ⟨q, phase⟩ := x
    -- Only a request of `call_policy` that has entered goes on.
    cases q <;> cases phase <;> try rfl
    rename_i owner method params policy admitted
    dsimp only
    rw [Entry.callPolicyQuota_release]
    cases s.boundary.callPolicyQuota admitted owner method policy with
    | error response => exact congrArg some (without_set hr h _ _).symm
    | ok p => exact congrArg some (without_set hr h _ _).symm

/-- Another request drops its place. -/
theorem dropQuota_without (hr : s.requests[r]? = some e) (h : i ≠ r) :
    (s.without r).dropQuota (Roster.renumber r i) = (s.dropQuota i).map (without r) := by
  rw [without_of_getElem? hr]
  unfold dropQuota
  dsimp only
  rw [Roster.getElem?_withdraw h]
  cases hi : s.requests[i]? with
  | none => rfl
  | some x =>
    obtain ⟨q, phase⟩ := x
    cases phase <;> try rfl
    dsimp only
    rw [Entry.dropQuota_release]
    exact congrArg some (without_set hr h _ _).symm

/-- Another request drops its permit. -/
theorem dropPermit_without (hr : s.requests[r]? = some e) (h : i ≠ r) :
    (s.without r).dropPermit (Roster.renumber r i) = (s.dropPermit i).map (without r) := by
  rw [without_of_getElem? hr]
  unfold dropPermit
  dsimp only
  rw [Roster.getElem?_withdraw h]
  cases hi : s.requests[i]? with
  | none => rfl
  | some x =>
    obtain ⟨q, phase⟩ := x
    cases phase <;> try rfl
    all_goals
      dsimp only
      rw [Entry.dropPermit_release]
      exact congrArg some (without_set hr h _ _).symm

/-- The steps of others, without one request. -/
theorem step_without {limits : Limits} (hr : s.requests[r]? = some e) {l l' : AdmissionStep}
    (hl : l.without r = some l') (hcrowd : Uncrowded r s l)
    (hstep : (admission limits).step s l = some t) :
    (admission limits).step (s.without r) l' = some (t.without r) := by
  cases l with
  | request q =>
    obtain rfl := Option.some.inj hl
    obtain rfl := Option.some.inj hstep
    exact congrArg some (without_make hr (hcrowd e q hr rfl))
  | takeQuota i =>
    obtain ⟨hi, hl⟩ := Option.ite_none_left_eq_some.1 hl
    obtain rfl := Option.some.inj hl
    have hstep : s.takeQuota i = some t := hstep
    exact (takeQuota_without hr hi).trans (by rw [hstep]; rfl)
  | dropQuota i =>
    obtain ⟨hi, hl⟩ := Option.ite_none_left_eq_some.1 hl
    obtain rfl := Option.some.inj hl
    have hstep : s.dropQuota i = some t := hstep
    exact (dropQuota_without hr hi).trans (by rw [hstep]; rfl)
  | dropPermit i =>
    obtain ⟨hi, hl⟩ := Option.ite_none_left_eq_some.1 hl
    obtain rfl := Option.some.inj hl
    have hstep : s.dropPermit i = some t := hstep
    exact (dropPermit_without hr hi).trans (by rw [hstep]; rfl)

/-- The steps of others leave a request where it is. -/
theorem getElem?_step {limits : Limits} (hr : s.requests[r]? = some e) {l l' : AdmissionStep}
    (hl : l.without r = some l') (hstep : (admission limits).step s l = some t) :
    t.requests[r]? = some e := by
  cases l with
  | request q =>
    obtain rfl := Option.some.inj hstep
    have hlt : r < s.requests.length := (List.getElem?_eq_some_iff.1 hr).1
    show (s.make q).requests[r]? = some e
    unfold make
    split
    · rw [List.getElem?_append_left hlt, hr]
    · rw [List.getElem?_append_left hlt, hr]
  | takeQuota i =>
    have hi : i ≠ r := (Option.ite_none_left_eq_some.1 hl).1
    obtain ⟨owner, method, params, policy, admitted, -, ⟨response, rfl⟩ | ⟨a, b, -, rfl⟩⟩ :=
      takeQuota_eq_some hstep
    · rw [List.getElem?_set_ne hi, hr]
    · rw [List.getElem?_set_ne hi, hr]
  | dropQuota i =>
    have hi : i ≠ r := (Option.ite_none_left_eq_some.1 hl).1
    obtain ⟨q, admitted, -, rfl⟩ := dropQuota_eq_some hstep
    rw [List.getElem?_set_ne hi, hr]
  | dropPermit i =>
    have hi : i ≠ r := (Option.ite_none_left_eq_some.1 hl).1
    obtain ⟨q, admitted, phase, phase', -, -, rfl⟩ := dropPermit_eq_some hstep
    rw [List.getElem?_set_ne hi, hr]

/-- Its own steps do not show where a request is left out, unless it is admitted. -/
theorem own_without {limits : Limits} (hs : Accounted limits s) (hr : s.requests[r]? = some e)
    {l : AdmissionStep} (hl : l.without r = none) (hstep : (admission limits).step s l = some t) :
    ∃ e', t.requests[r]? = some e' ∧
      (e'.phase.wasAdmitted = false → t.without r = s.without r) := by
  have hlt : r < s.requests.length := (List.getElem?_eq_some_iff.1 hr).1
  have hset : ∀ x : Entry, (s.requests.set r x)[r]? = some x := fun x => List.getElem?_set_self hlt
  cases l with
  | request q => cases hl
  | takeQuota i =>
    have hi : i = r := by simpa [AdmissionStep.without] using hl
    subst hi
    obtain ⟨owner, method, params, policy, admitted, hi, ⟨response, rfl⟩ | ⟨a, b, -, rfl⟩⟩ :=
      takeQuota_eq_some hstep
    -- A refused request keeps its permit for the moment, which leaving it out gives back.
    · refine ⟨_, hset _, fun _ => ?_⟩
      rw [without_of_getElem? hi, without_of_getElem? (hset _), List.eraseIdx_set_eq]
      rfl
    · exact ⟨_, hset _, fun hlive => by cases hlive⟩
  | dropQuota i =>
    have hi : i = r := by simpa [AdmissionStep.without] using hl
    subst hi
    obtain ⟨q, admitted, hi, rfl⟩ := dropQuota_eq_some hstep
    exact ⟨_, hset _, fun hlive => by cases hlive⟩
  | dropPermit i =>
    have hi : i = r := by simpa [AdmissionStep.without] using hl
    subst hi
    obtain ⟨q, admitted, phase, phase', hi, hphase, rfl⟩ := dropPermit_eq_some hstep
    refine ⟨_, hset _, fun hlive => ?_⟩
    rcases hphase with ⟨-, rfl⟩ | ⟨response, rfl, rfl⟩
    · cases hlive
    -- The dropped permit is the one that leaving the request out had given back.
    · have hpermit : admitted.permit = q.lane := hs.entries _ (List.mem_of_getElem? hi)
      rw [without_of_getElem? hi, without_of_getElem? (hset _), List.eraseIdx_set_eq, hpermit]
      rfl

/-- A request that was admitted stays where it is, or drops its place, or then its permit. -/
theorem admitted_step_cases {limits : Limits} (hr : s.requests[r]? = some e)
    (hadmitted : e.phase.wasAdmitted = true) {l : AdmissionStep}
    (hstep : (admission limits).step s l = some t) :
    (∃ l', l.without r = some l') ∧ t.requests[r]? = some e ∨
      (∃ a, l = .dropQuota r ∧ e.phase = .live a ∧
        t.requests[r]? = some ⟨e.request, .dropping a⟩) ∨
      ∃ a, l = .dropPermit r ∧ e.phase = .dropping a ∧
        t.requests[r]? = some ⟨e.request, .dropped⟩ := by
  cases hl : l.without r with
  | some l' => exact .inl ⟨⟨l', rfl⟩, getElem?_step hr hl hstep⟩
  | none =>
    right
    have hlt : r < s.requests.length := (List.getElem?_eq_some_iff.1 hr).1
    cases l with
    | request q => cases hl
    | takeQuota i =>
      have hi : i = r := by simpa [AdmissionStep.without] using hl
      subst hi
      obtain ⟨owner, method, params, policy, admitted, hi, -⟩ := takeQuota_eq_some hstep
      rw [hr] at hi
      obtain rfl := Option.some.inj hi
      cases hadmitted
    | dropQuota i =>
      have hi : i = r := by simpa [AdmissionStep.without] using hl
      subst hi
      obtain ⟨q, admitted, hi, rfl⟩ := dropQuota_eq_some hstep
      rw [hr] at hi
      obtain rfl := Option.some.inj hi
      exact .inl ⟨admitted, rfl, rfl, List.getElem?_set_self hlt⟩
    | dropPermit i =>
      have hi : i = r := by simpa [AdmissionStep.without] using hl
      subst hi
      obtain ⟨q, admitted, phase, phase', hi, hphase, rfl⟩ := dropPermit_eq_some hstep
      rw [hr] at hi
      obtain rfl := Option.some.inj hi
      rcases hphase with ⟨rfl, rfl⟩ | ⟨response, rfl, rfl⟩
      · exact .inr ⟨admitted, rfl, rfl, List.getElem?_set_self hlt⟩
      · cases hadmitted

/-- A request that was admitted is not rejected any more. -/
theorem wasAdmitted_step {limits : Limits} (hr : s.requests[r]? = some e)
    (hadmitted : e.phase.wasAdmitted = true) {l : AdmissionStep}
    (hstep : (admission limits).step s l = some t) :
    ∃ e', t.requests[r]? = some e' ∧ e'.phase.wasAdmitted = true := by
  rcases admitted_step_cases hr hadmitted hstep with ⟨-, hsame⟩ | ⟨a, -, -, ht⟩ | ⟨a, -, -, ht⟩
  · exact ⟨e, hsame, hadmitted⟩
  · exact ⟨_, ht, rfl⟩
  · exact ⟨_, ht, rfl⟩

/-- A request that was admitted is not rejected at the end of a run. -/
theorem wasAdmitted_run {limits : Limits} {labels : List AdmissionStep}
    (hr : s.requests[r]? = some e) (hadmitted : e.phase.wasAdmitted = true)
    (hrun : (admission limits).run s labels = some t) :
    ∃ e', t.requests[r]? = some e' ∧ e'.phase.wasAdmitted = true :=
  Machine.invariant_of_run
    (P := fun s => ∃ e, s.requests[r]? = some e ∧ e.phase.wasAdmitted = true)
    (fun _ _ _ ⟨_, hr, hadmitted⟩ hstep => wasAdmitted_step hr hadmitted hstep)
    ⟨e, hr, hadmitted⟩ hrun

/-- A run in which a request ends rejected is also a run without that request, if no other request
is refused a permit because of it. -/
theorem run_without {limits : Limits} {labels : List AdmissionStep} {q : Request}
    {response : Value} (hs : Accounted limits s) (hr : s.requests[r]? = some e)
    (hcrowd : (admission limits).StepsMeet (Uncrowded r) s labels)
    (hrun : (admission limits).run s labels = some t)
    (hrejected : t.requests[r]? = some ⟨q, .rejected response⟩) :
    (admission limits).run (s.without r) (labels.filterMap (AdmissionStep.without r)) =
      some (t.without r) := by
  induction labels generalizing s e with
  | nil =>
    obtain rfl := Option.some.inj hrun
    rfl
  | cons l labels ih =>
    obtain ⟨u, hstep, hrun⟩ := Machine.run_cons_eq_some _ |>.1 hrun
    cases hl : l.without r with
    | some l' =>
      rw [List.filterMap_cons_some hl]
      exact Machine.run_cons_eq_some _ |>.2 ⟨u.without r, step_without hr hl hcrowd.1 hstep,
        ih (hs.step hstep) (getElem?_step hr hl hstep) (hcrowd.2 u hstep) hrun⟩
    | none =>
      obtain ⟨e', hr', hsame⟩ := own_without hs hr hl hstep
      -- The request is never admitted, since it would not end rejected then.
      have hnever : e'.phase.wasAdmitted = false := by
        by_contra hadmitted
        obtain ⟨e'', hend, hadmitted⟩ := wasAdmitted_run hr' (by simpa using hadmitted) hrun
        rw [hrejected] at hend
        obtain rfl := Option.some.inj hend
        cases hadmitted
      rw [List.filterMap_cons_none hl, ← hsame hnever]
      exact ih (hs.step hstep) hr' (hcrowd.2 u hstep) hrun

/-- Leaving out a request that was just made and is not admitted at once. -/
theorem without_make_self {q : Request}
    (h : ∀ e, (s.make q).requests[s.requests.length]? = some e → e.phase.wasAdmitted = false) :
    (s.make q).without s.requests.length = s ∧
      ∃ e, (s.make q).requests[s.requests.length]? = some e := by
  have hlast : ∀ x : Entry, (s.requests ++ [x])[s.requests.length]? = some x := fun x =>
    List.getElem?_concat_length
  have herase : ∀ x : Entry, (s.requests ++ [x]).eraseIdx s.requests.length = s.requests := by
    intro x
    rw [List.eraseIdx_append_of_length_le (le_refl _), Nat.sub_self]
    exact List.append_nil _
  unfold make at h ⊢
  split at h
  · rename_i response henter
    refine ⟨?_, _, hlast _⟩
    rw [without_of_getElem? (hlast _), herase]
    rfl
  · rename_i admitted b henter
    refine ⟨?_, _, hlast _⟩
    obtain ⟨-, -, -, hfree, rfl⟩ := Request.enter_eq_ok henter
    have hphase := h _ (hlast _)
    rw [without_of_getElem? (hlast _), herase]
    split_ifs at hphase ⊢ with hpolicy
    -- The permit that was just taken is given back.
    · show (⟨(s.boundary.setAvailable q.lane _).dropPermit q.lane, s.requests⟩ : Admissions) = s
      rw [ServiceBoundary.dropPermit_setAvailable _ hfree]
    · cases hphase

end Admissions

/-! ## Exactness -/

/-- A rejection can be told by its code. -/
theorem reject_ne {api : ApiIdentity} {code code' message message' : String} (h : code ≠ code') :
    reject api code message ≠ reject api code' message' := by
  intro heq
  have hcode : ∀ c m, (reject api c m).pointer ["error", "code"] = some (.string c) :=
    fun _ _ => rfl
  have hsame : some (Value.string code) = some (Value.string code') := by
    rw [← hcode code message, heq, hcode]
  exact h (Value.string.inj (Option.some.inj hsame))

namespace Accounted

variable {limits : Limits} {s t : Admissions}

/-- Whatever an admitted request gives back was counted, so no count goes below zero. -/
theorem counted (h : Accounted limits s) {i : ℕ} {r : Request} {admitted : Admitted} {q : Quota}
    (hi : s.requests[i]? = some ⟨r, .live admitted⟩) (hq : admitted.quota = some q) :
    0 < s.boundary.usage.owners.count q.owner ∧ 0 < s.boundary.usage.methods.count q.method := by
  have hmem : (⟨r, .live admitted⟩ : Entry) ∈ s.requests := List.mem_of_getElem? hi
  have hquota : r.quota = some q := (h.entries _ hmem).2.1.symm.trans hq
  have hplace : ∀ key : Quota → String, Entry.inUsage key (key q) ⟨r, .live admitted⟩ = true := by
    intro key
    rw [Entry.inUsage_live hquota]
    exact decide_eq_true rfl
  constructor
  · rw [h.owners.count_eq]
    exact List.countP_pos_iff.2 ⟨_, hmem, hplace Quota.owner⟩
  · rw [h.methods.count_eq]
    exact List.countP_pos_iff.2 ⟨_, hmem, hplace Quota.method⟩

/-- A request of `call_policy` is admitted while both counts are below its limits. -/
theorem below_limits (h : Accounted limits s) {l : AdmissionStep}
    (hstep : (admission limits).step s l = some t) {i : ℕ} {owner : Option String}
    {method params : String} {policy : MethodPolicy} {admitted : Admitted}
    (hi : t.requests[i]? = some ⟨.callPolicy owner method params policy, .live admitted⟩) :
    s.requests[i]? = some ⟨.callPolicy owner method params policy, .live admitted⟩ ∨
      ∃ o, owner = some o ∧ s.ofOwner o < policy.maxOwnerInFlight ∧
        s.ofMethod method < policy.maxInFlight := by
  cases l with
  | request r =>
    obtain rfl := Option.some.inj hstep
    have hi : (s.make r).requests[i]? =
      some ⟨.callPolicy owner method params policy, .live admitted⟩ := hi
    unfold Admissions.make at hi
    split at hi
    · exact (Roster.getElem?_append_singleton_cases hi).imp_right fun he => by cases he
    -- What `call_policy` does first does not admit.
    · refine (Roster.getElem?_append_singleton_cases hi).imp_right fun he => ?_
      obtain ⟨rfl, hphase⟩ := Entry.mk.inj he
      cases hphase
  | takeQuota j =>
    obtain ⟨owner', method', params', policy', a, hj, ⟨response, rfl⟩ | ⟨a', b, hquota, rfl⟩⟩ :=
      Admissions.takeQuota_eq_some hstep
    · exact (Roster.getElem?_set_cases hi).imp_right fun he => by cases he
    · refine (Roster.getElem?_set_cases hi).imp_right fun he => ?_
      -- The quota was taken with the counts that it was checked against.
      obtain ⟨o, ho, howner, hmethod, -⟩ := ServiceBoundary.callPolicyQuota_eq_ok hquota
      rw [h.owners.count_eq] at howner
      rw [h.methods.count_eq] at hmethod
      cases he
      exact ⟨o, ho, howner, hmethod⟩
  | dropQuota j =>
    obtain ⟨r, a, -, rfl⟩ := Admissions.dropQuota_eq_some hstep
    exact (Roster.getElem?_set_cases hi).imp_right fun he => by cases he
  | dropPermit j =>
    obtain ⟨r, a, phase, phase', -, hphase, rfl⟩ := Admissions.dropPermit_eq_some hstep
    refine (Roster.getElem?_set_cases hi).imp_right fun he => ?_
    cases he
    rcases hphase with ⟨-, hphase⟩ | ⟨response, -, hphase⟩ <;> cases hphase

/-- A cancellation is refused for capacity only where the admitted cancellations fill their lane. -/
theorem cancel_refused_iff (h : Accounted limits s) (owner : Option String) (id : String) :
    s.boundary.cancel owner id = .error s.boundary.capacityRejection ↔
      (1 ≤ id.utf8ByteSize ∧ id.utf8ByteSize ≤ 256) ∧ owner.all String.isEmpty = false ∧
        s.inLane .controls = limits.capacity .controls := by
  have hlane := h.permits .controls
  unfold ServiceBoundary.cancel ServiceBoundary.enter ServiceBoundary.acquire
  by_cases hid : 1 ≤ id.utf8ByteSize ∧ id.utf8ByteSize ≤ 256
  · rw [if_neg (not_not.2 hid)]
    cases howner : owner.all String.isEmpty with
    | true =>
      refine ⟨fun heq => absurd (Except.error.inj heq) (reject_ne (by decide)), ?_⟩
      rintro ⟨-, hsome, -⟩
      cases hsome
    | false =>
      rw [if_neg Bool.false_ne_true]
      by_cases hfree : s.boundary.available .controls = 0
      · rw [if_pos hfree]
        -- No free permit means as many admitted cancellations as there are permits.
        exact ⟨fun _ => ⟨hid, rfl, by omega⟩, fun _ => rfl⟩
      · rw [if_neg hfree]
        refine ⟨fun heq => (by cases heq), ?_⟩
        rintro ⟨-, -, hfull⟩
        omega
  · rw [if_pos hid]
    refine ⟨fun heq => absurd (Except.error.inj heq) (reject_ne (by decide)), ?_⟩
    rintro ⟨hvalid, -⟩
    exact absurd hvalid hid

end Accounted

/-- The accounting of admissions, seen from a state of a run. -/
structure Exact (limits : Limits) (s : Admissions) : Prop extends Accounted limits s where
  /-- A place that is given back was counted. -/
  counted : ∀ (i : ℕ) (r : Request) (admitted : Admitted) (q : Quota),
    s.requests[i]? = some ⟨r, .live admitted⟩ → admitted.quota = some q →
      0 < s.boundary.usage.owners.count q.owner ∧ 0 < s.boundary.usage.methods.count q.method
  /-- The next step admits a request of `call_policy` only while both counts are below its limits.
  -/
  belowLimits : ∀ (l : AdmissionStep) (t : Admissions) (i : ℕ) (owner : Option String)
    (method params : String) (policy : MethodPolicy) (admitted : Admitted),
    (admission limits).step s l = some t →
      t.requests[i]? = some ⟨.callPolicy owner method params policy, .live admitted⟩ →
        s.requests[i]? = some ⟨.callPolicy owner method params policy, .live admitted⟩ ∨
          ∃ o, owner = some o ∧ s.ofOwner o < policy.maxOwnerInFlight ∧
            s.ofMethod method < policy.maxInFlight
  /-- A well-formed cancellation is refused for capacity where the admitted ones fill their lane. -/
  cancels : ∀ (owner : Option String) (id : String),
    s.boundary.cancel owner id = .error s.boundary.capacityRejection ↔
      (1 ≤ id.utf8ByteSize ∧ id.utf8ByteSize ≤ 256) ∧ owner.all String.isEmpty = false ∧
        s.inLane .controls = limits.capacity .controls
  /-- Where a request ends rejected, and no other was refused the permit that it held meanwhile, all
  is as if it had not been made. -/
  rejected : ∀ (q : Request) (labels : List AdmissionStep) (t : Admissions) (response : Value),
    (admission limits).run s (.request q :: labels) = some t →
      t.requests[s.requests.length]? = some ⟨q, .rejected response⟩ →
        (admission limits).StepsMeet (Uncrowded s.requests.length) s (.request q :: labels) →
          (admission limits).run s
              (labels.filterMap (AdmissionStep.without s.requests.length)) =
            some ⟨t.boundary, t.requests.eraseIdx s.requests.length⟩

/-- The accounting of admissions is exact in every run. -/
theorem admission_exact {limits : Limits} {s : Admissions}
    (h : (admission limits).Reachable s) : Exact limits s := by
  have hs : Accounted limits s := accounted_of_reachable h
  refine ⟨hs, fun i r admitted q hi hq => hs.counted hi hq,
    fun l t i owner method params policy admitted hstep hi => hs.below_limits hstep hi,
    hs.cancel_refused_iff, ?_⟩
  intro q labels t response hrun hend hcrowd
  obtain ⟨u, hstep, hrun⟩ := Machine.run_cons_eq_some _ |>.1 hrun
  have hu : s.make q = u := Option.some.inj hstep
  subst hu
  have hnever : ∀ e, (s.make q).requests[s.requests.length]? = some e →
      e.phase.wasAdmitted = false := by
    intro e he
    by_contra hadmitted
    obtain ⟨e', he', hadmitted⟩ := Admissions.wasAdmitted_run he (by simpa using hadmitted) hrun
    rw [hend] at he'
    obtain rfl := Option.some.inj he'
    cases hadmitted
  obtain ⟨hsame, e, he⟩ := Admissions.without_make_self hnever
  have hwithout := Admissions.run_without (hs.make q) he (hcrowd.2 _ rfl) hrun hend
  rw [hsame, Admissions.without_of_getElem? hend] at hwithout
  exact hwithout

/-- Two permits for requests and one for cancellations. -/
def twoCalls : Limits := ⟨⟨"test-api", 2⟩, 2, 1, 1024, 1024⟩

/-- A policy that lets an owner do one thing at a time. -/
def oneForOwner : MethodPolicy := ⟨.read, 8, 128, 2, 1⟩

/-- The first request of an owner is admitted. -/
def firstAdmitted : List AdmissionStep :=
  [.request (.callPolicy (some ":1.1") "read" "{}" oneForOwner), .takeQuota 0]

/-- The second request of the owner. -/
def secondRequest : Request := .callPolicy (some ":1.1") "another-read" "{}" oneForOwner

/-- The second request takes the last permit, another owner's request comes, and then the second
request is refused. -/
def secondRefused : List AdmissionStep :=
  [.request (.raw (some ":1.2") "publish" 4), .takeQuota 1, .dropPermit 1]

/-- Both kinds of request in one run, and the account of it. -/
theorem admission_exact_second :
    ∃ s, (admission twoCalls).run (admission twoCalls).init
        (firstAdmitted ++ .request secondRequest :: secondRefused) = some s ∧
      Exact twoCalls s :=
  ⟨_, rfl, admission_exact ⟨firstAdmitted ++ .request secondRequest :: secondRefused, rfl⟩⟩

/-- A request that ends rejected has kept another out: without it the other is admitted, and holds a
permit that is free in the run with it. -/
theorem rejected_keeps_other_out :
    ∃ t u response,
      (admission twoCalls).run (admission twoCalls).init
        (firstAdmitted ++ .request secondRequest :: secondRefused) = some t ∧
      t.requests[1]? = some ⟨secondRequest, .rejected response⟩ ∧
      (admission twoCalls).run (admission twoCalls).init
        (firstAdmitted ++ secondRefused.filterMap (AdmissionStep.without 1)) = some u ∧
      t.boundary.calls = 1 ∧ u.boundary.calls = 0 :=
  ⟨_, _, _, rfl, rfl, rfl, rfl, rfl⟩

end DaemonFramework.Service
