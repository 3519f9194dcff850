import DaemonFramework.Blocking.Jobs

/-!
# The report of a shutdown

A report with a stopped dispatcher and no active job is to mean that no job runs and none will. A
call that took the dispatcher's handle has seen the dispatcher end. A call that finds the handle
taken by another one reports a stopped dispatcher all the same, and the activity count does not show
a job that the dispatcher has received and not counted yet, or is about to receive: `ReportsApart`
excludes just these moments. `Quiet` is a lane on which no job runs or will run; it is kept by every
step (`Quiet.step`), and in a run that meets `ReportsApart` a clean report is made only on a quiet
lane (`clean_report_truthful`). `clean_report_before_dispatch` is a run that does not meet it.
-/

namespace DaemonFramework.Blocking

variable {α : Type*} {capacity concurrency : ℕ} {s t : Lane α}

/-- A lane on which no job runs and none will. -/
structure Quiet (s : Lane α) : Prop where
  /-- Admission is closed. -/
  closed : s.closed
  /-- The dispatcher has been told to end. -/
  signal : s.signal
  /-- The dispatcher has no job in its hands. -/
  job : s.dispatcher.job = none
  /-- The dispatcher is not about to receive one. -/
  queue : s.dispatcher = .jobChecked → s.queue = []
  /-- Every job that was dispatched is over. -/
  ended : ∀ n phase, s.phaseAt n = some phase → phase.dispatched → phase = .done

/-- The call has closed admission. -/
def Call.hasClosed : Call → Bool
  | .entered | .abandoned => false
  | _ => true

/-- The call has sent the signal. -/
def Call.hasSignalled : Call → Bool
  | .entered | .abandoned | .closing => false
  | _ => true

/-- What shutdown calls have done by the time they are where they are. -/
structure CallsDone (s : Lane α) : Prop where
  /-- Every call past its first step has closed admission. -/
  closed : ∀ c ∈ s.calls, c.hasClosed → s.closed
  /-- Every call past its second step has sent the signal. -/
  signal : ∀ c ∈ s.calls, c.hasSignalled → s.signal
  /-- A call that took the handle and calls the dispatcher stopped has seen it end. -/
  joined : ∀ c ∈ s.calls, c = .idling true true → s.dispatcher = .ended

/-- Admission stays closed, and the signal stays sent. -/
theorem flags_step {label : Label α} (hstep : s.step capacity label = some t) :
    (s.closed → t.closed) ∧ (s.signal → t.signal) := by
  cases label with
  | submit =>
    obtain ⟨-, rfl⟩ := Machine.refused_eq_some.1 hstep
    unfold Lane.trySubmit
    split_ifs <;> exact ⟨id, id⟩
  | dropWaiter n =>
    obtain rfl := Option.some.inj hstep
    exact ⟨id, id⟩
  | dispatcher e =>
    rcases Lane.dispatcherStep_cases hstep with ⟨-, rfl⟩ | ⟨d, -, -, -, -, -, -, rfl⟩ |
      ⟨-, -, rfl⟩ | ⟨m, rest, -, -, rfl⟩ | ⟨m, -, rfl⟩ | ⟨m, -, rfl⟩ <;> exact ⟨id, id⟩
  | job n e =>
    rcases Lane.jobStep_cases hstep with ⟨-, -, rfl⟩ | ⟨outcome, -, -, rfl⟩ | ⟨-, -, rfl⟩ |
      ⟨-, -, rfl⟩ | ⟨-, -, rfl⟩ <;> exact ⟨id, id⟩
  | shutdown =>
    obtain ⟨-, rfl⟩ := Machine.refused_eq_some.1 hstep
    exact ⟨id, id⟩
  | call k e =>
    rcases Lane.callStep_cases hstep with ⟨-, -, rfl⟩ | ⟨-, -, rfl⟩ | ⟨-, -, -, rfl⟩ |
      ⟨-, -, rfl⟩ | ⟨-, -, -, rfl⟩ | ⟨-, -, rfl⟩ | ⟨-, -, rfl⟩ | ⟨found, stopped, -, -, rfl⟩ |
      ⟨-, rfl⟩
    · exact ⟨fun _ => rfl, id⟩
    · exact ⟨id, fun _ => rfl⟩
    all_goals exact ⟨id, id⟩
  | dropLane =>
    obtain ⟨-, rfl⟩ := Machine.refused_eq_some.1 hstep
    exact ⟨id, fun _ => rfl⟩

namespace Quiet

/-- The dispatcher of a quiet lane takes no job in its hands, and does not come to receive one. -/
theorem dispatcher_step (h : Quiet s) {label : Label α} (hstep : s.step capacity label = some t) :
    t.dispatcher.job = none ∧ (t.dispatcher = .jobChecked → t.queue = []) := by
  cases label with
  | submit =>
    obtain ⟨-, rfl⟩ := Machine.refused_eq_some.1 hstep
    unfold Lane.trySubmit
    rw [if_pos (.inl h.closed)]
    exact ⟨h.job, h.queue⟩
  | dropWaiter n =>
    obtain rfl := Option.some.inj hstep
    exact ⟨h.job, h.queue⟩
  | dispatcher e =>
    have hjob := h.job
    rcases Lane.dispatcherStep_cases hstep with ⟨-, rfl⟩ | ⟨d, -, hd, -, -, -, hlook, rfl⟩ |
      ⟨-, -, rfl⟩ | ⟨m, rest, hd, hqueue, rfl⟩ | ⟨m, hd, rfl⟩ | ⟨m, hd, rfl⟩
    · exact ⟨rfl, fun _ => rfl⟩
    · refine ⟨hd, fun hchecked => ?_⟩
      -- The look before a poll for a job sees the signal.
      have hnone := hlook hchecked
      rw [h.signal] at hnone
      cases hnone
    · exact ⟨rfl, fun heq => by cases heq⟩
    · have hempty := h.queue hd
      rw [hqueue] at hempty
      cases hempty
    · rw [hd] at hjob
      cases hjob
    · rw [hd] at hjob
      cases hjob
  | job n e =>
    rcases Lane.jobStep_cases hstep with ⟨-, -, rfl⟩ | ⟨outcome, -, -, rfl⟩ | ⟨-, -, rfl⟩ |
      ⟨-, -, rfl⟩ | ⟨-, -, rfl⟩ <;> exact ⟨h.job, h.queue⟩
  | shutdown =>
    obtain ⟨-, rfl⟩ := Machine.refused_eq_some.1 hstep
    exact ⟨h.job, h.queue⟩
  | call k e =>
    obtain ⟨hqueue, -, hd, -, -⟩ := Lane.callStep_frame hstep
    rw [hqueue, hd]
    exact ⟨h.job, h.queue⟩
  | dropLane =>
    obtain ⟨-, rfl⟩ := Machine.refused_eq_some.1 hstep
    exact ⟨h.job, h.queue⟩

/-- A quiet lane stays quiet, starts no job and accepts none. -/
theorem step (h : Quiet s) (hs : Ordered capacity s) {label : Label α}
    (hstep : s.step capacity label = some t) :
    Quiet t ∧ (∀ n, label.startsJob n = false) ∧
      ∀ n, s.phaseAt n = none → ∀ phase ∈ t.phaseAt n, phase = .rejected .closed := by
  obtain ⟨hclosed, hsignal⟩ := flags_step hstep
  obtain ⟨hjob, hqueue⟩ := h.dispatcher_step hstep
  have ht := hs.step hstep
  -- A job can only be dropped: one that was dispatched is over, and the dispatcher takes none.
  have hmove : ∀ n old new, s.phaseAt n = some old → t.phaseAt n = some new →
      Move n label old new → new = .dropped ∧ label.startsJob n = false := by
    intro n old new hold hnew hmove
    cases hmove with
    | drop e => exact ⟨rfl, rfl⟩
    | receive e =>
      have hdispatching := (ht.dispatching n).2 hnew
      rw [hjob] at hdispatching
      cases hdispatching
    | _ => cases h.ended n _ hold rfl
  refine ⟨⟨hclosed h.closed, hsignal h.signal, hjob, hqueue, ?_⟩, ?_, ?_⟩
  · intro n phase hn hdisp
    rcases phaseAt_step hs hstep n with ⟨hsame, -⟩ | ⟨old, new, hold, hnew, hm⟩ | ⟨-, -, hnew⟩
    · exact h.ended n phase (hsame ▸ hn) hdisp
    · obtain rfl := Option.some.inj (hnew.symm.trans hn)
      rw [(hmove n old new hold hnew hm).1] at hdisp
      cases hdisp
    · rcases hnew phase hn with rfl | ⟨error, rfl⟩ <;> cases hdisp
  · intro n
    rcases phaseAt_step hs hstep n with ⟨-, hstart⟩ | ⟨old, new, hold, hnew, hm⟩ | ⟨rfl, -, -⟩
    · exact hstart
    · exact (hmove n old new hold hnew hm).2
    · rfl
  · intro n hnone phase hphase
    rcases phaseAt_step hs hstep n with ⟨hsame, -⟩ | ⟨old, new, hold, -, -⟩ | ⟨rfl, -, -⟩
    · rw [hsame, hnone] at hphase
      cases hphase
    · rw [hold] at hnone
      cases hnone
    · obtain ⟨-, rfl⟩ := Machine.refused_eq_some.1 hstep
      unfold Lane.trySubmit at hphase
      rw [if_pos (.inl h.closed)] at hphase
      obtain ⟨j, hj, rfl⟩ := Option.map_eq_some_iff.1 hphase
      rcases Roster.getElem?_append_singleton_cases hj with hold | rfl
      · rw [Lane.phaseAt, hold] at hnone
        cases hnone
      · rfl

end Quiet

/-- An ended dispatcher does nothing any more. -/
theorem ended_step (h : s.dispatcher = .ended) {label : Label α}
    (hstep : s.step capacity label = some t) : t.dispatcher = .ended := by
  cases label with
  | submit =>
    obtain ⟨-, rfl⟩ := Machine.refused_eq_some.1 hstep
    unfold Lane.trySubmit
    split_ifs <;> exact h
  | dropWaiter n =>
    obtain rfl := Option.some.inj hstep
    exact h
  | dispatcher e =>
    rcases Lane.dispatcherStep_cases hstep with ⟨-, rfl⟩ | ⟨d, -, -, -, hne, -, -, -⟩ |
      ⟨hd, -, -⟩ | ⟨m, rest, hd, -, -⟩ | ⟨m, hd, -⟩ | ⟨m, hd, -⟩
    · rfl
    · exact absurd h hne
    all_goals
      rw [h] at hd
      cases hd
  | job n e =>
    rcases Lane.jobStep_cases hstep with ⟨-, -, rfl⟩ | ⟨outcome, -, -, rfl⟩ | ⟨-, -, rfl⟩ |
      ⟨-, -, rfl⟩ | ⟨-, -, rfl⟩ <;> exact h
  | shutdown =>
    obtain ⟨-, rfl⟩ := Machine.refused_eq_some.1 hstep
    exact h
  | call k e =>
    obtain ⟨-, -, hd, -, -⟩ := Lane.callStep_frame hstep
    rw [hd]
    exact h
  | dropLane =>
    obtain ⟨-, rfl⟩ := Machine.refused_eq_some.1 hstep
    exact h

/-- Only their own steps change the calls that were made. -/
theorem calls_step {label : Label α} (hstep : s.step capacity label = some t) :
    t.calls = s.calls ∨ t.calls = s.calls ++ [.entered] ∨ ∃ k e, label = .call k e := by
  cases label with
  | submit =>
    left
    obtain ⟨-, rfl⟩ := Machine.refused_eq_some.1 hstep
    unfold Lane.trySubmit
    split_ifs <;> rfl
  | dropWaiter n =>
    left
    obtain rfl := Option.some.inj hstep
    rfl
  | dispatcher e =>
    left
    rcases Lane.dispatcherStep_cases hstep with ⟨-, rfl⟩ | ⟨d, -, -, -, -, -, -, rfl⟩ |
      ⟨-, -, rfl⟩ | ⟨m, rest, -, -, rfl⟩ | ⟨m, -, rfl⟩ | ⟨m, -, rfl⟩ <;> rfl
  | job n e =>
    left
    rcases Lane.jobStep_cases hstep with ⟨-, -, rfl⟩ | ⟨outcome, -, -, rfl⟩ | ⟨-, -, rfl⟩ |
      ⟨-, -, rfl⟩ | ⟨-, -, rfl⟩ <;> rfl
  | shutdown =>
    right; left
    obtain ⟨-, rfl⟩ := Machine.refused_eq_some.1 hstep
    rfl
  | call k e => exact .inr (.inr ⟨k, e, rfl⟩)
  | dropLane =>
    left
    obtain ⟨-, rfl⟩ := Machine.refused_eq_some.1 hstep
    rfl

namespace CallsDone

/-- A step of one call keeps what the calls have done, if the call itself has done it. -/
theorem setCall (h : CallsDone s) {label : Label α} (hstep : s.step capacity label = some t)
    {k : ℕ} {c : Call} (hcalls : t.calls = s.calls.set k c) (hclosed : c.hasClosed → t.closed)
    (hsignal : c.hasSignalled → t.signal)
    (hjoined : c = .idling true true → t.dispatcher = .ended) : CallsDone t where
  closed := by
    rw [hcalls]
    exact Roster.forall_mem_set (fun c hc hdone => (flags_step hstep).1 (h.closed c hc hdone))
      hclosed
  signal := by
    rw [hcalls]
    exact Roster.forall_mem_set (fun c hc hdone => (flags_step hstep).2 (h.signal c hc hdone))
      hsignal
  joined := by
    rw [hcalls]
    exact Roster.forall_mem_set (fun c hc hdone => ended_step (h.joined c hc hdone) hstep) hjoined

/-- Every step keeps what the calls have done. -/
theorem step (h : CallsDone s) {label : Label α} (hstep : s.step capacity label = some t) :
    CallsDone t := by
  have hclosed := fun c hc hdone => (flags_step hstep).1 (h.closed c hc hdone)
  have hsignal := fun c hc hdone => (flags_step hstep).2 (h.signal c hc hdone)
  have hjoined := fun c hc hdone => ended_step (h.joined c hc hdone) hstep
  rcases calls_step hstep with heq | heq | ⟨k, e, rfl⟩
  · exact ⟨heq ▸ hclosed, heq ▸ hsignal, heq ▸ hjoined⟩
  · constructor
    · rw [heq]
      exact Roster.forall_mem_append_singleton hclosed fun hdone => by cases hdone
    · rw [heq]
      exact Roster.forall_mem_append_singleton hsignal fun hdone => by cases hdone
    · rw [heq]
      exact Roster.forall_mem_append_singleton hjoined fun hdone => by cases hdone
  -- One case for each step of a call, which has done what the phases before it say.
  · rcases Lane.callStep_cases hstep with ⟨-, hc, rfl⟩ | ⟨-, hc, rfl⟩ | ⟨-, hc, -, rfl⟩ |
      ⟨-, hc, rfl⟩ | ⟨-, hc, hended, rfl⟩ | ⟨-, hc, rfl⟩ | ⟨-, hc, rfl⟩ |
      ⟨found, stopped, -, hc, rfl⟩ | ⟨-, rfl⟩
    · exact h.setCall hstep rfl (fun _ => rfl) (fun hdone => by cases hdone)
        (fun hjoined => by cases hjoined)
    · exact h.setCall hstep rfl (fun _ => h.closed _ (List.mem_of_getElem? hc) rfl) (fun _ => rfl)
        (fun hjoined => by cases hjoined)
    · exact h.setCall hstep rfl (fun _ => h.closed _ (List.mem_of_getElem? hc) rfl)
        (fun _ => h.signal _ (List.mem_of_getElem? hc) rfl) (fun hjoined => by cases hjoined)
    · exact h.setCall hstep rfl (fun _ => h.closed _ (List.mem_of_getElem? hc) rfl)
        (fun _ => h.signal _ (List.mem_of_getElem? hc) rfl) (fun hjoined => by cases hjoined)
    · exact h.setCall hstep rfl (fun _ => h.closed _ (List.mem_of_getElem? hc) rfl)
        (fun _ => h.signal _ (List.mem_of_getElem? hc) rfl) fun _ => hended
    · exact h.setCall hstep rfl (fun _ => h.closed _ (List.mem_of_getElem? hc) rfl)
        (fun _ => h.signal _ (List.mem_of_getElem? hc) rfl) (fun hjoined => by cases hjoined)
    · exact h.setCall hstep rfl (fun _ => h.closed _ (List.mem_of_getElem? hc) rfl)
        (fun _ => h.signal _ (List.mem_of_getElem? hc) rfl) (fun hjoined => by cases hjoined)
    · exact h.setCall hstep rfl (fun _ => h.closed _ (List.mem_of_getElem? hc) rfl)
        (fun _ => h.signal _ (List.mem_of_getElem? hc) rfl) (fun hjoined => by cases hjoined)
    · exact h.setCall hstep rfl (fun hdone => by cases hdone) (fun hdone => by cases hdone)
        (fun hjoined => by cases hjoined)

end CallsDone

/-! ## The report -/

/-- A call that found the handle taken reads an activity count of zero only while the dispatcher has
no job in its hands, and is not between its last look at the signal and the receipt of one. -/
def ReportsApart (s : Lane α) (label : Label α) : Prop :=
  ∀ k, label = .call k .report → s.calls[k]? = some (.idling false true) → s.count = 0 →
    s.dispatcher.job = none ∧ (s.dispatcher = .jobChecked → s.queue = [])

/-- A clean report is made only on a quiet lane. -/
theorem quiet_of_report (h : Invariant capacity concurrency s) (hcalls : CallsDone s) {k : ℕ}
    {found : Bool} (hapart : ReportsApart s (.call k .report))
    (hc : s.calls[k]? = some (.idling found true)) (hcount : s.count = 0) : Quiet s := by
  have hmem := List.mem_of_getElem? hc
  have hcounted := h.accounted.count
  have hdispatcher : s.dispatcher.job = none ∧ (s.dispatcher = .jobChecked → s.queue = []) := by
    cases found with
    | false => exact hapart k rfl hc hcount
    | true =>
      rw [hcalls.joined _ hmem rfl]
      exact ⟨rfl, fun heq => by cases heq⟩
  refine ⟨hcalls.closed _ hmem rfl, hcalls.signal _ hmem rfl, hdispatcher.1, hdispatcher.2, ?_⟩
  intro n phase hn hdisp
  -- With a count of zero no job has a place in it, and the dispatcher has none in its hands.
  have hnone : s.phases.countP Phase.isCounted = 0 := by omega
  have hnot := List.countP_eq_zero.1 hnone phase
    (List.mem_of_getElem? ((s.getElem?_phases n).trans hn))
  cases phase with
  | done => rfl
  | dispatching =>
    have hjob := (h.ordered.dispatching n).2 hn
    rw [hdispatcher.1] at hjob
    cases hjob
  | rejected error => cases hdisp
  | queued => cases hdisp
  | dropped => cases hdisp
  | _ => exact absurd rfl hnot

/-- What a run that meets `ReportsApart` keeps: a lane on which a clean report was made is quiet. -/
structure Reported (capacity concurrency : ℕ) (s : Lane α) : Prop where
  /-- The invariant of every run. -/
  invariant : Invariant capacity concurrency s
  /-- What the calls have done. -/
  calls : CallsDone s
  /-- A clean report was made on a quiet lane, which stays quiet. -/
  quiet : .reported true 0 ∈ s.calls → Quiet s

/-- Every step that meets `ReportsApart` keeps it. -/
theorem Reported.step (h : Reported capacity concurrency s) {label : Label α}
    (hapart : ReportsApart s label) (hstep : s.step capacity label = some t) :
    Reported capacity concurrency t where
  invariant := h.invariant.step hstep
  calls := h.calls.step hstep
  quiet := by
    intro hclean
    by_cases hold : .reported true 0 ∈ s.calls
    · exact ((h.quiet hold).step h.invariant.ordered hstep).1
    -- The report is new, so this step is the one that returned it.
    · rcases calls_step hstep with heq | heq | ⟨k, e, rfl⟩
      · exact absurd (heq ▸ hclean) hold
      · rw [heq, List.mem_append, List.mem_singleton] at hclean
        exact absurd (hclean.resolve_right (by simp)) hold
      · have hnew : ∀ {c : Call}, t.calls = s.calls.set k c → c = .reported true 0 := by
          intro c heq
          rw [heq] at hclean
          exact ((List.mem_or_eq_of_mem_set hclean).resolve_left hold).symm
        rcases Lane.callStep_cases hstep with ⟨-, -, rfl⟩ | ⟨-, -, rfl⟩ | ⟨-, -, -, rfl⟩ |
          ⟨-, -, rfl⟩ | ⟨-, -, -, rfl⟩ | ⟨-, -, rfl⟩ | ⟨-, -, rfl⟩ |
          ⟨found, stopped, rfl, hc, rfl⟩ | ⟨-, rfl⟩
        · cases hnew rfl
        · cases hnew rfl
        · cases hnew rfl
        · cases hnew rfl
        · cases hnew rfl
        · cases hnew rfl
        · cases hnew rfl
        · have hreport := hnew rfl
          simp only [Call.reported.injEq] at hreport
          obtain ⟨rfl, hcount⟩ := hreport
          have hquiet := quiet_of_report h.invariant h.calls hapart hc hcount
          exact (hquiet.step h.invariant.ordered hstep).1
        · cases hnew rfl

/-- The start of a run. -/
theorem Reported.start (capacity concurrency : ℕ) :
    Reported (α := α) capacity concurrency (.start concurrency) where
  invariant := .start capacity concurrency
  calls := ⟨by simp [Lane.start], by simp [Lane.start], by simp [Lane.start]⟩
  quiet := by simp [Lane.start]

/-- Once a lane is quiet, no run starts a job or accepts one. -/
theorem Quiet.run (h : Quiet s) (hs : Ordered capacity s) {labels : List (Label α)}
    (hrun : (machine α capacity concurrency).run s labels = some t) :
    Quiet t ∧ (∀ label ∈ labels, ∀ n, label.startsJob n = false) ∧
      ∀ n, s.phaseAt n = none → ∀ phase ∈ t.phaseAt n, phase = .rejected .closed := by
  induction labels generalizing s with
  | nil =>
    obtain rfl : s = t := by simpa using hrun
    refine ⟨h, by simp, ?_⟩
    intro n hnone phase hphase
    rw [hnone] at hphase
    cases hphase
  | cons label labels ih =>
    obtain ⟨u, hstep, hrest⟩ := (machine α capacity concurrency).run_cons_eq_some.1 hrun
    have hu := hs.step hstep
    obtain ⟨hquiet, hstart, hnew⟩ := h.step hs hstep
    obtain ⟨hend, hstarts, hnews⟩ := ih hquiet hu hrest
    refine ⟨hend, ?_, ?_⟩
    · intro l hl
      rcases List.mem_cons.1 hl with rfl | hl
      · exact hstart
      · exact hstarts l hl
    · intro n hnone phase hphase
      cases hn : u.phaseAt n with
      | none => exact hnews n hn phase hphase
      | some old =>
        -- What this step rejected stays rejected.
        obtain rfl := hnew n hnone old hn
        have hstays := (Machine.invariant_of_run (P := fun v : Lane α =>
          Ordered capacity v ∧ v.phaseAt n = some (.rejected .closed)) (fun v label w hv hw =>
            ⟨hv.1.step hw, (phaseAt_step_of_final hv.1 hw hv.2 (.inl ⟨_, rfl⟩)).1⟩)
          ⟨hu, hn⟩ hrest).2
        rw [hstays] at hphase
        exact (Option.some.inj hphase).symm

/-- A clean report is truthful, in every run that meets `ReportsApart`: when a shutdown call has
returned a stopped dispatcher and no active job, no accepted job runs, and however the run goes on
none is started and every later submission is rejected. -/
theorem clean_report_truthful (capacity concurrency : ℕ) {labels : List (Label α)} {s : Lane α}
    (hmeets : (machine α capacity concurrency).StepsMeet ReportsApart (.start concurrency) labels)
    (hrun : (machine α capacity concurrency).run (.start concurrency) labels = some s) {k : ℕ}
    (hclean : s.calls[k]? = some (.reported true 0)) :
    (∀ n, s.phaseAt n ≠ some .running) ∧
      ∀ more t, (machine α capacity concurrency).run s more = some t →
        (∀ label ∈ more, ∀ n, label.startsJob n = false) ∧
          (∀ n, t.phaseAt n ≠ some .running) ∧
          ∀ n, s.phaseAt n = none → ∀ phase ∈ t.phaseAt n, phase = .rejected .closed := by
  have h : Reported capacity concurrency s :=
    Machine.invariant_of_stepsMeet (fun _ _ _ hs hapart hstep => hs.step hapart hstep)
      (Reported.start capacity concurrency) hmeets hrun
  have hquiet := h.quiet (List.mem_of_getElem? hclean)
  have hidle : ∀ {u : Lane α}, Quiet u → ∀ n, u.phaseAt n ≠ some .running := by
    intro u hu n hn
    cases hu.ended n _ hn rfl
  refine ⟨hidle hquiet, ?_⟩
  intro more t hmore
  obtain ⟨hend, hstarts, hnew⟩ := hquiet.run h.invariant.ordered hmore
  exact ⟨hstarts, hidle hend, hnew⟩

/-- A call that takes the handle, sees the dispatcher end and reports a clean shutdown. -/
theorem clean_report_truthful_joined :
    ∃ s, (machine ℕ 1 1).run (.start 1) [.submit, .shutdown, .call 0 .close, .call 0 .signal,
        .call 0 .take, .dispatcher .look, .call 0 .joined, .call 0 .report] = some s ∧
      ∀ n, s.phaseAt n ≠ some .running := by
  have hmeets : (machine ℕ 1 1).StepsMeet ReportsApart (.start 1) [.submit, .shutdown,
      .call 0 .close, .call 0 .signal, .call 0 .take, .dispatcher .look, .call 0 .joined,
      .call 0 .report] := by
    refine Machine.stepsMeet_cons nofun rfl ?_
    refine Machine.stepsMeet_cons nofun rfl ?_
    refine Machine.stepsMeet_cons nofun rfl ?_
    refine Machine.stepsMeet_cons nofun rfl ?_
    refine Machine.stepsMeet_cons nofun rfl ?_
    refine Machine.stepsMeet_cons nofun rfl ?_
    refine Machine.stepsMeet_cons nofun rfl ?_
    refine Machine.stepsMeet_cons ?_ rfl trivial
    -- This call found the handle.
    intro k hk hfound
    cases hk
    cases hfound
  exact ⟨_, rfl, (clean_report_truthful 1 1 hmeets rfl (k := 0) rfl).1⟩

/-- Two shutdown calls, and a dispatcher that has looked at the signal before the first of them sent
it. The second call finds the handle taken and reports a stopped dispatcher and no active job. Then
the dispatcher receives the queued job, and the job runs. -/
theorem clean_report_before_dispatch :
    ∃ s, (machine ℕ 1 1).run (.start 1) [.submit, .dispatcher .look, .dispatcher .lookForPermit,
        .dispatcher .takePermit, .dispatcher .lookForJob, .shutdown, .call 0 .close,
        .call 0 .signal, .call 0 .take, .shutdown, .call 1 .close, .call 1 .signal, .call 1 .take,
        .call 1 .report] = some s ∧
      s.calls[1]? = some (.reported true 0) ∧
      ∃ t, (machine ℕ 1 1).run s [.dispatcher .receive, .dispatcher .raise, .dispatcher .spawn,
          .job 0 .start] = some t ∧ t.phaseAt 0 = some .running :=
  ⟨_, rfl, rfl, _, rfl, rfl⟩

end DaemonFramework.Blocking
