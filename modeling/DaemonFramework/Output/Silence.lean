import DaemonFramework.Output.Effects

/-!
# A retired id stays silent

After an id is retired it is not live, and only an acknowledgement makes it live again
(`silent_run`). While the id is suppressed there is none: its events are dropped and a late response
to it acknowledges nothing (`Invariant.not_uses_of_suppressed`). How long it is suppressed is a
matter of the bounded memory of retired ids: `entered` lists the ids that newly enter it, and
`Invariant.suppressed_run` says that an id is remembered until as many others have entered as the
memory holds. `retired_stays_silent` puts these together for every point of every run.
-/

namespace DaemonFramework.Output

open OutputState

namespace Effect

/-- The effect acknowledges `id`. -/
def Acks (id : String) : Effect → Prop
  | .acknowledge tracked _ => tracked.id = id
  | _ => False

/-- The effect writes an event of `id`. -/
def Writes (policy : CorrelationPolicy) (id : String) : Effect → Prop
  | .write stream event => policy.eventId stream event = some id
  | _ => False

/-- The effect takes a place in the buffer for an event of `id`. -/
def Keeps (id : String) : Effect → Prop
  | .keep a _ _ => a = id
  | _ => False

/-- The id that an effect newly enters into the memory of retired ids. -/
def enters (s : OutputState) : Effect → List String
  | .retire id => if id ∈ s.suppressedIds then [] else [id]
  | _ => []

end Effect

/-- The ids that some effects newly enter into the memory of retired ids, in order. -/
def entered : OutputState → List Effect → List String
  | _, [] => []
  | s, e :: es => e.enters s ++ entered (e.apply s) es

/-- The last thing that happened is that `id` was retired, by an effect or by a whole command. -/
def JustRetired (policy : CorrelationPolicy) (pendingLimit : ℕ) (id : String)
    (before : List Effect) : Prop :=
  (∃ pre, before = pre ++ [.retire id]) ∨
  ∃ cs c, (emitCommands (.new policy pendingLimit) cs).result = .ok () ∧ Retires policy id c ∧
    before = history (.new policy pendingLimit) (cs ++ [c])

section Silence

variable {policy : CorrelationPolicy} {pendingLimit : ℕ} {s t : OutputState} {id : String}

/-! ## An id that is not live -/

/-- Only an acknowledgement makes an id live. -/
theorem notMem_activeIds_apply {e : Effect} (h : id ∉ s.activeIds) (hack : ¬e.Acks id) :
    id ∉ (e.apply s).activeIds := by
  cases e with
  | retire a =>
    intro hmem
    rw [Effect.apply, cancelled_activeIds, AList.mem_erase] at hmem
    exact h hmem.2
  | acknowledge tracked route =>
    intro hmem
    rcases (AList.mem_insert _).1 hmem with heq | hmem
    · exact hack heq.symm
    · exact h hmem
  | reset => exact AList.notMem_empty id
  | _ => exact h

/-- An effect changes neither the policy nor the limit. -/
theorem apply_frame (s : OutputState) (e : Effect) :
    (e.apply s).policy = s.policy ∧ (e.apply s).pendingLimit = s.pendingLimit := by
  cases e with
  | retire id => exact ⟨cancelled_policy s id, cancelled_pendingLimit s id⟩
  | _ => exact ⟨rfl, rfl⟩

/-- Effects change neither the policy nor the limit. -/
theorem effectMachine_frame {es : List Effect}
    (hrun : (effectMachine policy pendingLimit).run s es = some t) :
    t.policy = s.policy ∧ t.pendingLimit = s.pendingLimit := by
  refine Machine.invariant_of_run (P := fun u =>
    u.policy = s.policy ∧ u.pendingLimit = s.pendingLimit) (fun u e v hu hstep => ?_)
      ⟨rfl, rfl⟩ hrun
  obtain ⟨-, rfl⟩ := effectMachine_step_eq_some.1 hstep
  exact ⟨(apply_frame u e).1.trans hu.1, (apply_frame u e).2.trans hu.2⟩

/-- An id that is not live writes nothing and does not become live, until it is acknowledged. -/
theorem silent_run {es : List Effect} (h : id ∉ s.activeIds) (hack : ∀ e ∈ es, ¬e.Acks id)
    (hrun : (effectMachine policy pendingLimit).run s es = some t) :
    id ∉ t.activeIds ∧ ∀ e ∈ es, ¬e.Writes s.policy id := by
  induction es generalizing s with
  | nil =>
    obtain rfl : s = t := by simpa using hrun
    exact ⟨h, by simp⟩
  | cons e es ih =>
    obtain ⟨henabled, hrest⟩ := effectMachine_run_cons.1 hrun
    obtain ⟨hend, hwrites⟩ := ih (notMem_activeIds_apply h (hack e List.mem_cons_self))
      (fun e' he' => hack e' (List.mem_cons_of_mem e he')) hrest
    refine ⟨hend, ?_⟩
    intro e' he'
    rcases List.mem_cons.1 he' with rfl | he'
    -- An event of a named id is written only while the id is live.
    · intro hwrite
      cases e' with
      | write stream event => exact h (henabled id hwrite)
      | _ => exact hwrite
    · rw [← (apply_frame s e).1]
      exact hwrites e' he'

/-- No answer of the actor lists an id that is not live. -/
theorem notMem_reply (h : id ∉ s.activeIds) {owner : Option (String × UInt64)} {ids : List String}
    (hreply : (emitCommand s (.activeIds owner)).reply = some ids) : id ∉ ids := by
  intro hmem
  apply h
  apply AList.mem_keys.2
  cases owner with
  | none =>
    obtain rfl := Option.some.inj hreply
    exact (List.mem_mergeSort).1 hmem
  | some owner =>
    obtain rfl := Option.some.inj hreply
    obtain ⟨entry, hentry, rfl⟩ := List.mem_map.1 hmem
    exact List.mem_map_of_mem (List.mem_of_mem_filter hentry)

/-! ## A suppressed id -/

/-- While an id is suppressed its events are neither written nor kept, and nothing acknowledges
it. -/
theorem Invariant.not_uses_of_suppressed (h : Invariant s) (hsup : id ∈ s.suppressedIds)
    {e : Effect} (he : e.Enabled s) : ¬e.Writes s.policy id ∧ ¬e.Keeps id ∧ ¬e.Acks id := by
  cases e with
  | write stream event =>
    exact ⟨fun hwrite => h.active id (he id hwrite) hsup, not_false, not_false⟩
  | keep a stream event =>
    refine ⟨not_false, ?_, not_false⟩
    rintro rfl
    exact he.2.1 hsup
  | acknowledge tracked route =>
    refine ⟨not_false, not_false, ?_⟩
    rintro rfl
    exact he hsup
  | _ => exact ⟨not_false, not_false, not_false⟩

/-- A late response to a suppressed id writes its line and changes nothing but what its own
cancellation does. -/
theorem Invariant.emitCommand_late_response (h : Invariant s) (request : String) {response : Value}
    (cancelledRequestId : Option String) (route : Option ClientRoute) {tracked : TrackedId}
    (htracked : s.policy.responseId response = some tracked)
    (hsup : tracked.id ∈ (s.retire cancelledRequestId).suppressedIds) :
    Output.emitCommand s (.response request (.ok response) cancelledRequestId route) =
      .done (s.retire cancelledRequestId)
        [addressedMessage (responseMessage request response) route] := by
  simp only [Output.emitCommand, h.emitResponse_eq, htracked, if_pos hsup]

/-- What an effect does to an id in the memory of retired ids: the id stays, and what the effect
enters comes after it, as long as fewer ids than the memory holds have come after it. -/
theorem remembered_apply {n : ℕ} {r : Recent String n} (hr : s.Remembers r)
    {pre post : List String} (hitems : r.items = pre ++ id :: post) {e : Effect}
    (hreset : e ≠ .reset) (hfew : post.length + (e.enters s).length < n) :
    ∃ r' : Recent String n, ∃ pre', (e.apply s).Remembers r' ∧
      r'.items = pre' ++ id :: (post ++ e.enters s) := by
  -- Only a retirement touches the memory.
  have hsame : (e.apply s).Remembers r → e.enters s = [] →
      ∃ r' : Recent String n, ∃ pre', (e.apply s).Remembers r' ∧
        r'.items = pre' ++ id :: (post ++ e.enters s) := fun hr' hnone =>
    ⟨r, pre, hr', by rw [hnone, List.append_nil, hitems]⟩
  cases e with
  | retire a =>
    have hr' : (s.cancelled a).Remembers (r.remember a) := hr.cancelled a
    by_cases ha : a ∈ s.suppressedIds
    · have hmem : a ∈ r.items := by rwa [hr.ids, List.mem_toFinset] at ha
      rw [r.remember_of_mem (.inr hmem)] at hr'
      exact hsame hr' (if_pos ha)
    · have henters : (Effect.retire a).enters s = [a] := if_neg ha
      rw [henters] at hfew ⊢
      have hmem : a ∉ r.items := by rwa [hr.ids, List.mem_toFinset] at ha
      obtain ⟨pre', hitems'⟩ := r.exists_items_remember hitems hmem hfew
      exact ⟨r.remember a, pre', hr', hitems'⟩
  | reset => exact absurd rfl hreset
  | _ => exact hsame ⟨hr.limit, hr.order, hr.ids⟩ rfl

/-- An id in the memory of retired ids stays there until as many ids as it holds have come after
it. -/
theorem remembered_run {n : ℕ} {r : Recent String n} (hr : s.Remembers r)
    {pre post : List String} (hitems : r.items = pre ++ id :: post) {es : List Effect}
    (hreset : .reset ∉ es) (hfew : post.length + (entered s es).length < n)
    (hrun : (effectMachine policy pendingLimit).run s es = some t) : id ∈ t.suppressedIds := by
  induction es generalizing s r pre post with
  | nil =>
    obtain rfl : s = t := by simpa using hrun
    rw [hr.ids, List.mem_toFinset, hitems]
    simp
  | cons e es ih =>
    obtain ⟨-, hrest⟩ := effectMachine_run_cons.1 hrun
    rw [entered, List.length_append] at hfew
    obtain ⟨r', pre', hr', hitems'⟩ := remembered_apply hr hitems
      (fun heq => hreset (heq ▸ List.mem_cons_self)) (by omega : post.length + _ < n)
    refine ih hr' hitems' (fun hmem => hreset (List.mem_cons_of_mem e hmem)) ?_ hrest
    rw [List.length_append]
    omega

/-- An id that newly enters the memory of retired ids is suppressed until as many others have newly
entered as the memory holds. -/
theorem Invariant.suppressed_run (h : Invariant s) (hlimit : s.pendingLimit ≠ 0)
    (hid : id ∉ s.suppressedIds) {es : List Effect} (hreset : .reset ∉ es)
    (hfew : (entered (s.cancelled id) es).length < s.pendingLimit)
    (hrun : (effectMachine policy pendingLimit).run (s.cancelled id) es = some t) :
    id ∈ t.suppressedIds := by
  obtain ⟨n, r, hr⟩ := h.memory
  have hnew : ¬(n = 0 ∨ id ∈ r.items) := by
    rintro (hn | hmem)
    · exact hlimit (hr.limit.trans hn)
    · exact hid (by rwa [hr.ids, List.mem_toFinset])
  rw [hr.limit] at hfew
  exact remembered_run (hr.cancelled id) (r.items_remember hnew) hreset (by simpa using hfew) hrun

/-! ## The retirement -/

/-- After a command that retires an id, the id is not live. -/
theorem Invariant.notMem_activeIds_of_retires (h : Invariant s) (hlimit : s.pendingLimit ≠ 0)
    {c : OutputCommand} (hret : Retires s.policy id c) :
    id ∉ (Output.emitCommand s c).state.activeIds := by
  have herase : id ∉ (s.cancelled id).activeIds := by
    rw [cancelled_activeIds, AList.mem_erase]
    exact fun hmem => hmem.1 rfl
  cases c with
  | cancelled a =>
    obtain rfl : a = id := hret
    exact herase
  | response request result cancelledRequestId route =>
    obtain rfl : cancelledRequestId = some id := hret
    obtain ⟨hrun, -⟩ := h.run_effects s.policy s.pendingLimit
      (.response request result (some id) route)
    obtain ⟨-, hrest⟩ := effectMachine_run_cons.1 hrun
    -- The response can only acknowledge an id that is not suppressed after its cancellation.
    refine (silent_run herase (fun e he hack => ?_) hrest).1
    cases e with
    | acknowledge tracked route' =>
      have hmem : .acknowledge tracked route' ∈
          effects s (.response request result (some id) route) := List.mem_cons_of_mem _ he
      obtain ⟨-, hsup, -⟩ := acknowledge_mem_effects_response hmem
      obtain rfl : tracked.id = id := hack
      exact hsup (h.mem_suppressedIds_cancelled_self tracked.id hlimit)
    | _ => exact hack
  | event stream event =>
    obtain ⟨hname, hterm⟩ := hret
    by_cases hactive : id ∈ s.activeIds
    · rw [emitCommand_event_ok hname
        (acceptEvent_active (h.active id hactive) hactive stream event),
        afterEvent, if_pos hterm]
      exact herase
    -- An event of an id that is not live is dropped or waits.
    · obtain ⟨hrun, -⟩ := h.run_effects s.policy s.pendingLimit (.event stream event)
      refine (silent_run hactive (fun e he hack => ?_) hrun).1
      cases e with
      | acknowledge tracked route =>
        obtain ⟨_, _, _, heq, -⟩ := tracksTo_of_mem_effects he
        cases heq
      | _ => exact hack
  | _ => cases hret

/-- What one more command adds to the history of a run without an error. -/
theorem history_concat {cs : List OutputCommand} (h : (emitCommands s cs).result = .ok ())
    (c : OutputCommand) :
    history s (cs ++ [c]) = history s cs ++ effects (emitCommands s cs).state c := by
  induction cs generalizing s with
  | nil =>
    simp only [List.nil_append, history, emitCommands]
    split <;> simp
  | cons d cs ih =>
    cases hd : (emitCommand s d).result with
    | ok _ =>
      rw [emitCommands_cons_ok hd] at h ⊢
      simp only [List.cons_append, history, hd, ih h, List.append_assoc]
    | error error =>
      rw [emitCommands_cons_error hd] at h
      cases h

/-- An id that was just retired is not live. -/
theorem JustRetired.notMem_activeIds (hlimit : pendingLimit ≠ 0) {before : List Effect}
    (hret : JustRetired policy pendingLimit id before)
    (hrun : (effectMachine policy pendingLimit).run (.new policy pendingLimit) before = some s) :
    id ∉ s.activeIds := by
  have hnew : Invariant (.new policy pendingLimit) := .new policy pendingLimit
  rcases hret with ⟨pre, rfl⟩ | ⟨cs, c, hok, hretires, rfl⟩
  · obtain ⟨u, -, hlast⟩ := Machine.run_append_eq_some _ |>.1 hrun
    obtain ⟨-, hend⟩ := effectMachine_run_cons.1 hlast
    obtain rfl : u.cancelled id = s := by simpa [Effect.apply] using hend
    rw [cancelled_activeIds, AList.mem_erase]
    exact fun hmem => hmem.1 rfl
  · rw [history_concat hok] at hrun
    obtain ⟨u, hfirst, hlast⟩ := Machine.run_append_eq_some _ |>.1 hrun
    obtain ⟨hfirst', -⟩ := hnew.run_history policy pendingLimit cs
    obtain rfl : (emitCommands (.new policy pendingLimit) cs).state = u :=
      Option.some.inj (hfirst'.symm.trans hfirst)
    have hinv := hnew.emitCommands cs
    obtain ⟨hpolicy, hlim⟩ := hnew.emitCommands_frame cs
    obtain ⟨hlast', -⟩ := hinv.run_effects policy pendingLimit c
    obtain rfl := Option.some.inj (hlast'.symm.trans hlast)
    exact hinv.notMem_activeIds_of_retires (by rw [hlim]; exact hlimit)
      (by rw [hpolicy]; exact hretires)

end Silence

/-! ## Every point of every run -/

/-- A retired id stays silent. What a run does is its history, and of every point of it:

* once the id is retired, and until a successful response that is tracked to it is processed while
  it is not suppressed, the id is not live, no answer lists it and no event of it is written;
* an id that has entered the memory of retired ids leaves it only by a reset, or after as many other
  ids have newly entered as the memory holds;
* while the id is suppressed, its events are neither written nor take a place in the buffer, and no
  response makes it live. -/
theorem retired_stays_silent (policy : CorrelationPolicy) (pendingLimit : ℕ)
    (hlimit : pendingLimit ≠ 0) (cs : List OutputCommand) (id : String) :
    let s₀ := OutputState.new policy pendingLimit
    let machine := effectMachine policy pendingLimit
    let s := (emitCommands s₀ cs).state
    let done := history s₀ cs
    (machine.run s₀ done = some s ∧ linesOf s₀ done = (emitCommands s₀ cs).lines ∧
        ∀ tracked route, .acknowledge tracked route ∈ done →
          ∃ c ∈ cs, TracksTo policy tracked route c) ∧
      (∀ before mid after v, done = before ++ mid ++ after →
        JustRetired policy pendingLimit id before → (∀ e ∈ mid, ¬e.Acks id) →
        machine.run s₀ (before ++ mid) = some v →
          id ∉ v.activeIds ∧
            (∀ owner ids, (emitCommand v (.activeIds owner)).reply = some ids → id ∉ ids) ∧
            ∀ e ∈ mid, ¬e.Writes policy id) ∧
      (∀ before mid after u v, done = before ++ .retire id :: mid ++ after →
        machine.run s₀ before = some u → id ∉ u.suppressedIds →
        machine.run (u.cancelled id) mid = some v → id ∉ v.suppressedIds →
          .reset ∈ mid ∨ pendingLimit ≤ (entered (u.cancelled id) mid).length) ∧
      (∀ before e after u, done = before ++ e :: after → machine.run s₀ before = some u →
        id ∈ u.suppressedIds → ¬e.Writes policy id ∧ ¬e.Keeps id ∧ ¬e.Acks id) ∧
      (id ∈ s.suppressedIds →
        (∀ stream event, policy.eventId stream event = some id →
          emitCommand s (.event stream event) = .done s []) ∧
        ∀ request response cancelledRequestId route tracked,
          policy.responseId response = some tracked → tracked.id = id →
          id ∈ (s.retire cancelledRequestId).suppressedIds →
            (emitCommand s (.response request (.ok response) cancelledRequestId route)).state =
                s.retire cancelledRequestId ∧
              id ∉ (s.retire cancelledRequestId).activeIds) := by
  intro s₀ machine s done
  have hnew : Invariant s₀ := .new policy pendingLimit
  have hs : Invariant s := hnew.emitCommands cs
  have hpolicy : s.policy = policy := (hnew.emitCommands_frame cs).1
  obtain ⟨hrun, hlines⟩ := hnew.run_history policy pendingLimit cs
  refine ⟨⟨hrun, hlines, fun _ _ => hnew.tracksTo_of_mem_history⟩, ?_, ?_, ?_, ?_⟩
  -- Nothing but an acknowledgement makes the id live, and events of other ids are not its own.
  · intro before mid after v _ hret hack hv
    obtain ⟨u, hbefore, hmid⟩ := machine.run_append_eq_some.1 hv
    obtain ⟨hactive, hwrites⟩ := silent_run (hret.notMem_activeIds hlimit hbefore) hack hmid
    rw [(effectMachine_frame hbefore).1] at hwrites
    exact ⟨hactive, fun owner ids hreply => notMem_reply hactive hreply, hwrites⟩
  · intro before mid after u v _ hbefore hid hmid hgone
    have hu : u.pendingLimit = pendingLimit := (effectMachine_frame hbefore).2
    -- If neither happened the memory would still have the id.
    by_contra! hstays
    apply hgone
    exact (hnew.run hbefore).suppressed_run (by rwa [hu]) hid hstays.1 (by rw [hu]; exact hstays.2)
      hmid
  · intro before e after u hdone hbefore hsup
    rw [show history (.new policy pendingLimit) cs = _ from hdone] at hrun
    obtain ⟨u', hbefore', hrest⟩ := machine.run_append_eq_some.1 hrun
    obtain rfl : u = u' := Option.some.inj (hbefore.symm.trans hbefore')
    rw [← show u.policy = policy from (effectMachine_frame hbefore).1]
    exact (hnew.run hbefore).not_uses_of_suppressed hsup (effectMachine_run_cons.1 hrest).1
  · intro hsup
    refine ⟨?_, ?_⟩
    · intro stream event hname
      rw [← hpolicy] at hname
      exact emitCommand_event_ok hname (acceptEvent_suppressed hsup stream event)
    · rintro request response cancelledRequestId route tracked htracked rfl hlate
      rw [← hpolicy] at htracked
      rw [hs.emitCommand_late_response request cancelledRequestId route htracked hlate]
      exact ⟨rfl, fun hmem => (hs.retire cancelledRequestId).active _ hmem hlate⟩

/-- A cancelled subscription whose late event arrives: no event of it is written. -/
theorem retired_stays_silent_late_event :
    let event := Value.object [("subscription_id", .string "s-1")]
    let cs := [OutputCommand.cancelled "s-1", .event "late" event]
    "s-1" ∉ (emitCommands (.new basicCorrelation 1) cs).state.activeIds := by
  intro event cs
  obtain ⟨⟨hrun, -, -⟩, hsilent, -⟩ :=
    retired_stays_silent basicCorrelation 1 (by decide) cs "s-1"
  exact (hsilent [.retire "s-1"] [] [] _ rfl (.inl ⟨[], rfl⟩) (by simp) hrun).1

end DaemonFramework.Output
