import DaemonFramework.Blocking.Lane

/-!
# The jobs of a blocking lane

A job runs at most once, within the bounds of its lane, and its waiter learns how it ended.
`Ordered` relates the channel and the dispatcher to the phases of the jobs and gives the order of
dispatch. `Accounted` counts permits and activity: the available permits, the dispatcher's and those
of the jobs make up the concurrency, and the activity count is the number of its places that are
taken. `Answered` says what the future of each submission resolves to. Each is kept by every step,
and `jobs_once_within_bounds` reads the properties off them.
-/

namespace DaemonFramework.Blocking

variable {α : Type*} {capacity concurrency : ℕ} {s t : Lane α}

/-! ## The order of dispatch -/

/-- How the channel and the dispatcher fit the phases of the jobs. -/
structure Ordered (capacity : ℕ) (s : Lane α) : Prop where
  /-- The channel holds the queued jobs. -/
  queued : ∀ n, n ∈ s.queue ↔ s.phaseAt n = some .queued
  /-- The dispatcher's job is the one being dispatched. -/
  dispatching : ∀ n, s.dispatcher.job = some n ↔ s.phaseAt n = some .dispatching
  /-- The channel is in the order of the submissions. -/
  sorted : s.queue.Pairwise (· < ·)
  /-- The channel keeps its capacity. -/
  length : s.queue.length ≤ capacity
  /-- What was submitted before a dispatched job is not waiting any more, and was not dropped. -/
  order : ∀ m n phase, m < n → s.phaseAt n = some phase → phase.dispatched →
    s.phaseAt m ≠ some .queued ∧ s.phaseAt m ≠ some .dropped
  /-- Jobs are dropped only when the dispatcher ends. -/
  dropped : ∀ n, s.phaseAt n = some .dropped → s.dispatcher = .ended

namespace Ordered

/-- An ended dispatcher leaves no job waiting or being dispatched. -/
theorem endDispatcher (h : Ordered capacity s) (hjob : s.dispatcher.job = none) :
    Ordered capacity s.endDispatcher := by
  have hphase : ∀ n, s.endDispatcher.phaseAt n =
      (s.phaseAt n).map fun phase => if phase = .queued then .dropped else phase := by
    intro n
    unfold Lane.phaseAt Lane.endDispatcher
    rw [List.getElem?_map, Option.map_map, Option.map_map]
    congr 1
    funext j
    simp only [Function.comp_apply, Job.discard]
    split_ifs <;> rfl
  -- No phase but that of a queued job changes.
  have hkeep : ∀ n phase, phase ≠ .dropped → phase ≠ .queued →
      (s.endDispatcher.phaseAt n = some phase ↔ s.phaseAt n = some phase) := by
    intro n phase hdropped hqueued
    rw [hphase, Option.map_eq_some_iff]
    constructor
    · rintro ⟨old, hold, heq⟩
      split_ifs at heq
      · exact absurd heq.symm hdropped
      · rw [hold, heq]
    · intro hold
      exact ⟨phase, hold, if_neg hqueued⟩
  constructor
  · intro n
    constructor
    · intro hmem
      cases hmem
    · intro hn
      rw [hphase, Option.map_eq_some_iff] at hn
      obtain ⟨old, -, heq⟩ := hn
      split_ifs at heq with hq
      exact absurd heq hq
  · intro n
    rw [hkeep n .dispatching (by decide) (by decide), ← h.dispatching n, hjob]
    simp [Lane.endDispatcher, Dispatcher.job]
  · exact List.Pairwise.nil
  · exact Nat.zero_le _
  · intro m n phase hlt hn hdisp
    have hne : phase ≠ .dropped ∧ phase ≠ .queued := by
      constructor <;> rintro rfl <;> simp [Phase.dispatched] at hdisp
    obtain ⟨hqueued, hdropped⟩ := h.order m n phase hlt ((hkeep n phase hne.1 hne.2).1 hn) hdisp
    rw [hphase]
    constructor
    · rw [ne_eq, Option.map_eq_some_iff]
      rintro ⟨old, -, heq⟩
      split_ifs at heq with hq
      exact absurd heq hq
    · rw [ne_eq, Option.map_eq_some_iff]
      rintro ⟨old, hold, heq⟩
      split_ifs at heq with hq
      · exact hqueued (hq ▸ hold)
      · exact hdropped (heq ▸ hold)
  · intro n _
    rfl

/-- What leaves the channel, the dispatcher's job and the phases as they are keeps the order. -/
theorem congr (h : Ordered capacity s) (hqueue : t.queue = s.queue)
    (hjob : t.dispatcher.job = s.dispatcher.job)
    (hended : s.dispatcher = .ended → t.dispatcher = .ended)
    (hphase : ∀ m, t.phaseAt m = s.phaseAt m) : Ordered capacity t where
  queued n := by rw [hqueue, hphase, h.queued]
  dispatching n := by rw [hjob, hphase, h.dispatching]
  sorted := by
    rw [hqueue]
    exact h.sorted
  length := by
    rw [hqueue]
    exact h.length
  order m n phase hlt hn hdisp := by
    rw [hphase] at hn
    rw [hphase]
    exact h.order m n phase hlt hn hdisp
  dropped n hn := by
    rw [hphase] at hn
    exact hended (h.dropped n hn)

/-- A job moves on from one phase after its dispatch to another. -/
theorem advance (h : Ordered capacity s) {n : ℕ} {old : Phase} (new : Phase)
    (hold : s.phaseAt n = some old) (hdisp : old.dispatched) (hne : old ≠ .dispatching)
    (hnew : new.dispatched) (hne' : new ≠ .dispatching) (hqueue : t.queue = s.queue)
    (hd : t.dispatcher = s.dispatcher)
    (hphase : ∀ m, t.phaseAt m = if n = m then some new else s.phaseAt m) :
    Ordered capacity t := by
  have hbefore : old ≠ .queued ∧ old ≠ .dropped ∧ new ≠ .queued ∧ new ≠ .dropped := by
    refine ⟨?_, ?_, ?_, ?_⟩ <;> rintro rfl
    · exact absurd hdisp (by decide)
    · exact absurd hdisp (by decide)
    · exact absurd hnew (by decide)
    · exact absurd hnew (by decide)
  -- Neither phase of the job is one that the other fields speak about.
  have hsame : ∀ m phase, phase ≠ old → phase ≠ new →
      (t.phaseAt m = some phase ↔ s.phaseAt m = some phase) := by
    intro m phase hphaseOld hphaseNew
    rw [hphase]
    split_ifs with hn
    · subst hn
      rw [hold]
      constructor
      · intro heq
        exact absurd (Option.some.inj heq).symm hphaseNew
      · intro heq
        exact absurd (Option.some.inj heq).symm hphaseOld
    · rfl
  constructor
  · intro m
    rw [hqueue, h.queued m, hsame m _ hbefore.1.symm hbefore.2.2.1.symm]
  · intro m
    rw [hd, h.dispatching m, hsame m _ hne.symm hne'.symm]
  · rw [hqueue]
    exact h.sorted
  · rw [hqueue]
    exact h.length
  · intro m k phase hlt hk hphase'
    have hm : s.phaseAt m ≠ some .queued ∧ s.phaseAt m ≠ some .dropped := by
      rw [hphase] at hk
      split_ifs at hk with hn
      · subst hn
        exact h.order m n old hlt hold hdisp
      · exact h.order m k phase hlt hk hphase'
    exact ⟨fun heq => hm.1 ((hsame m _ hbefore.1.symm hbefore.2.2.1.symm).1 heq),
      fun heq => hm.2 ((hsame m _ hbefore.2.1.symm hbefore.2.2.2.symm).1 heq)⟩
  · intro m hm
    rw [hd]
    exact h.dropped m ((hsame m _ hbefore.2.1.symm hbefore.2.2.2.symm).1 hm)

/-- The dispatcher receives the oldest job of the channel. -/
theorem receive (h : Ordered capacity s) {n : ℕ} {rest : List ℕ}
    (hjob : s.dispatcher.job = none) (hne : s.dispatcher ≠ .ended) (hqueue : s.queue = n :: rest) :
    Ordered capacity
      ({ s with dispatcher := .received n, queue := rest }.setPhase n .dispatching) := by
  have hold : s.phaseAt n = some .queued :=
    (h.queued n).1 (by rw [hqueue]; exact List.mem_cons_self)
  have hphase : ∀ m, ({ s with dispatcher := .received n, queue := rest }.setPhase n
      .dispatching).phaseAt m = if n = m then some .dispatching else s.phaseAt m :=
    Lane.phaseAt_modifyJob_of_eq (s := { s with dispatcher := .received n, queue := rest }) hold
      fun _ => rfl
  have hsorted := h.sorted
  rw [hqueue, List.pairwise_cons] at hsorted
  constructor
  · intro m
    rw [hphase]
    have hm := h.queued m
    rw [hqueue, List.mem_cons] at hm
    show m ∈ rest ↔ _
    split_ifs with hn
    · subst hn
      -- The channel lists no job twice.
      simp only [Option.some.injEq, reduceCtorEq, iff_false]
      exact fun hmem => absurd (hsorted.1 n hmem) (Nat.lt_irrefl n)
    · rw [← hm]
      exact ⟨.inr, fun hmem => hmem.resolve_left fun heq => hn heq.symm⟩
  · intro m
    rw [hphase]
    show some n = some m ↔ _
    split_ifs with hn
    · subst hn
      simp
    · simp only [Option.some.injEq, hn, false_iff]
      rw [← h.dispatching m, hjob]
      simp
  · exact hsorted.2
  · have hlength := h.length
    rw [hqueue, List.length_cons] at hlength
    exact Nat.le_of_succ_le hlength
  · intro m k phase hlt hk hdisp
    have hlater : ∀ m, m < n → s.phaseAt m ≠ some .queued ∧ s.phaseAt m ≠ some .dropped := by
      intro m hmn
      refine ⟨fun heq => ?_, fun heq => hne (h.dropped m heq)⟩
      -- An older job would come before it in the channel.
      have hmem := (h.queued m).2 heq
      rw [hqueue, List.mem_cons] at hmem
      rcases hmem with rfl | hmem
      · exact absurd hmn (Nat.lt_irrefl m)
      · exact absurd (hsorted.1 m hmem) (Nat.lt_asymm hmn)
    rw [hphase m]
    split_ifs with hn
    · simp
    · rw [hphase k] at hk
      split_ifs at hk with hk'
      · exact hlater m (hk' ▸ hlt)
      · exact h.order m k phase hlt hk hdisp
  · intro m hm
    rw [hphase] at hm
    split_ifs at hm
    · cases hm
    · exact absurd (h.dropped m hm) hne

/-- The dispatcher spawns the job in its hands. -/
theorem spawn (h : Ordered capacity s) {n : ℕ} (hd : s.dispatcher = .counted n) :
    Ordered capacity ({ s with dispatcher := .top }.setPhase n .spawned) := by
  have hold : s.phaseAt n = some .dispatching := (h.dispatching n).1 (by rw [hd]; rfl)
  have hne : s.dispatcher ≠ .ended := by
    rw [hd]
    exact Dispatcher.noConfusion
  -- Only this job changes its phase.
  have hphase : ∀ m, ({ s with dispatcher := .top }.setPhase n .spawned).phaseAt m =
      if n = m then some .spawned else s.phaseAt m :=
    Lane.phaseAt_modifyJob_of_eq (s := { s with dispatcher := .top }) hold fun _ => rfl
  constructor
  · intro m
    rw [hphase]
    show m ∈ s.queue ↔ _
    rw [h.queued m]
    split_ifs with hn
    · subst hn
      simp [hold]
    · rfl
  · intro m
    rw [hphase]
    show none = some m ↔ _
    split_ifs with hn
    · simp
    · rw [← h.dispatching m, hd]
      simpa [Dispatcher.job] using hn
  · exact h.sorted
  · exact h.length
  · intro m k phase hlt hk hdisp
    have hm : s.phaseAt m ≠ some .queued ∧ s.phaseAt m ≠ some .dropped := by
      rw [hphase k] at hk
      split_ifs at hk with hk'
      · subst hk'
        exact h.order m n .dispatching hlt hold rfl
      · exact h.order m k phase hlt hk hdisp
    rw [hphase m]
    split_ifs
    · simp
    · exact hm
  · intro m hm
    rw [hphase] at hm
    split_ifs at hm
    · cases hm
    · exact absurd (h.dropped m hm) hne

/-- A rejected submission leaves everything but its own entry as it was. -/
theorem reject (h : Ordered capacity s) (error : LaneError) :
    Ordered capacity { s with jobs := s.jobs ++ [.rejected error] } := by
  have hsame : ∀ m phase, (∀ e, phase ≠ .rejected e) →
      (({ s with jobs := s.jobs ++ [.rejected error] } : Lane α).phaseAt m = some phase ↔
        s.phaseAt m = some phase) :=
    fun m phase hne => s.phaseAt_concat_iff s.queue m (hne error)
  constructor
  · intro m
    rw [hsame m _ (by simp)]
    exact h.queued m
  · intro m
    rw [hsame m _ (by simp)]
    exact h.dispatching m
  · exact h.sorted
  · exact h.length
  · intro m n phase hlt hn hdisp
    have hn' := (hsame n phase (by rintro e rfl; cases hdisp)).1 hn
    obtain ⟨hqueued, hdropped⟩ := h.order m n phase hlt hn' hdisp
    exact ⟨fun heq => hqueued ((hsame m _ (by simp)).1 heq),
      fun heq => hdropped ((hsame m _ (by simp)).1 heq)⟩
  · intro n hn
    exact h.dropped n ((hsame n _ (by simp)).1 hn)

/-- An accepted submission is the last in the channel. -/
theorem accept (h : Ordered capacity s) (hroom : s.queue.length < capacity) :
    Ordered capacity
      { s with jobs := s.jobs ++ [.accepted], queue := s.queue ++ [s.jobs.length] } := by
  have hphase := s.phaseAt_concat .accepted (s.queue ++ [s.jobs.length])
  have hsame : ∀ m phase, phase ≠ .queued →
      (({ s with
          jobs := s.jobs ++ [.accepted]
          queue := s.queue ++ [s.jobs.length] } : Lane α).phaseAt m = some phase ↔
        s.phaseAt m = some phase) :=
    fun m phase hne => s.phaseAt_concat_iff _ m hne
  constructor
  · intro m
    rw [hphase]
    show m ∈ s.queue ++ [s.jobs.length] ↔ _
    rw [List.mem_append, List.mem_singleton]
    split_ifs with hm
    · simp [hm, Job.accepted]
    · rw [h.queued m]
      simp [hm]
  · intro m
    rw [hsame m _ (by decide)]
    exact h.dispatching m
  · refine List.pairwise_append.2 ⟨h.sorted, List.pairwise_singleton _ _, ?_⟩
    intro m hm n hn
    rw [List.mem_singleton.1 hn]
    exact Lane.lt_of_phaseAt ((h.queued m).1 hm)
  · show (s.queue ++ [s.jobs.length]).length ≤ capacity
    rw [List.length_append, List.length_singleton]
    exact hroom
  · intro m n phase hlt hn hdisp
    have hne : phase ≠ .queued := by
      rintro rfl
      cases hdisp
    have hn' := (hsame n phase hne).1 hn
    obtain ⟨hqueued, hdropped⟩ := h.order m n phase hlt hn' hdisp
    refine ⟨?_, fun heq => hdropped ((hsame m _ (by decide)).1 heq)⟩
    -- The later job is an older submission than the new one, so the earlier job is too.
    have hm : m ≠ s.jobs.length := by
      have hlater := Lane.lt_of_phaseAt hn'
      omega
    rw [hphase, if_neg hm]
    exact hqueued
  · intro n hn
    exact h.dropped n ((hsame n _ (by decide)).1 hn)

/-- A new submission comes after all others. -/
theorem submit (h : Ordered capacity s) : Ordered capacity (s.trySubmit capacity) := by
  unfold Lane.trySubmit
  split_ifs with hclosed hroom
  · exact h.reject .closed
  · exact h.accept hroom
  · exact h.reject .full

/-- Every step keeps the order. -/
theorem step (h : Ordered capacity s) {label : Label α} (hstep : s.step capacity label = some t) :
    Ordered capacity t := by
  cases label with
  | submit =>
    obtain ⟨-, rfl⟩ := Machine.refused_eq_some.1 hstep
    exact h.submit
  | dropWaiter n =>
    obtain rfl := Option.some.inj hstep
    refine h.congr rfl rfl id fun m => ?_
    rw [Lane.phaseAt_modifyJob]
    simp [Lane.phaseAt]
  -- The dispatcher takes jobs from the front of the queue, or does not touch the queue.
  | dispatcher e =>
    rcases Lane.dispatcherStep_cases hstep with ⟨hd, rfl⟩ | ⟨d, hjob, hd, -, hne, -, -, rfl⟩ |
      ⟨hd, -, rfl⟩ | ⟨n, rest, hd, hqueue, rfl⟩ | ⟨n, hd, rfl⟩ | ⟨n, hd, rfl⟩
    · apply h.endDispatcher
      rcases hd with hd | ⟨hd, -⟩
      · exact Dispatcher.job_of_suspended hd
      · rw [hd]
        rfl
    · exact h.congr rfl (hd.trans hjob.symm) (fun heq => absurd heq hne) fun _ => rfl
    · exact h.congr rfl (by rw [hd]; rfl) (by simp [hd]) fun _ => rfl
    · exact h.receive (by rw [hd]; rfl) (by simp [hd]) hqueue
    · exact h.congr rfl (by rw [hd]; rfl) (by simp [hd]) fun _ => rfl
    · exact h.spawn hd
  -- A job that was spawned moves on by itself, in its own order.
  | job n e =>
    rcases Lane.jobStep_cases hstep with ⟨-, hold, rfl⟩ | ⟨outcome, -, hold, rfl⟩ |
      ⟨-, hold, rfl⟩ | ⟨-, hold, rfl⟩ | ⟨-, hold, rfl⟩
    · exact h.advance .running hold rfl (by decide) rfl (by decide) rfl rfl
        (Lane.phaseAt_modifyJob_of_eq hold fun _ => rfl)
    · exact h.advance .ended hold rfl (by decide) rfl (by decide) rfl rfl
        (Lane.phaseAt_modifyJob_of_eq hold fun _ => rfl)
    · exact h.advance .replied hold rfl (by decide) rfl (by decide) rfl rfl
        (Lane.phaseAt_modifyJob_of_eq hold fun _ => rfl)
    · exact h.advance .released hold rfl (by decide) rfl (by decide) rfl rfl
        (Lane.phaseAt_modifyJob_of_eq (s := { s with permits := s.permits + 1 }) hold fun _ => rfl)
    · exact h.advance .done hold rfl (by decide) rfl (by decide) rfl rfl
        (Lane.phaseAt_modifyJob_of_eq (s := { s with count := s.count - 1 }) hold fun _ => rfl)
  | shutdown =>
    obtain ⟨-, rfl⟩ := Machine.refused_eq_some.1 hstep
    exact h.congr rfl rfl id fun _ => rfl
  | call k e =>
    obtain ⟨hqueue, -, hd, -, hjobs⟩ := Lane.callStep_frame hstep
    exact h.congr hqueue (by rw [hd]) (fun heq => hd.trans heq) fun m => by
      rw [Lane.phaseAt, hjobs]
      rfl
  | dropLane =>
    obtain ⟨-, rfl⟩ := Machine.refused_eq_some.1 hstep
    exact h.congr rfl rfl id fun _ => rfl

end Ordered

/-! ## Permits and activity -/

/-- The permits and the places in the activity count are all accounted for. -/
structure Accounted (concurrency : ℕ) (s : Lane α) : Prop where
  /-- The available permits, the dispatcher's and those of the jobs. -/
  permits : s.permits + s.dispatcher.permits + s.phases.countP Phase.holdsPermit = concurrency
  /-- The places of the dispatcher and of the jobs. -/
  count : s.count = s.dispatcher.counts + s.phases.countP Phase.isCounted

namespace Accounted

/-- A dispatcher without a job has no place in the activity count. -/
theorem counts_of_job {d : Dispatcher} (h : d.job = none) : d.counts = 0 := by
  cases d with
  | counted n => cases h
  | _ => rfl

/-- What is left of the phases when the channel is dropped. -/
theorem phases_endDispatcher (s : Lane α) : s.endDispatcher.phases =
    s.phases.map fun phase => if phase = .queued then .dropped else phase := by
  unfold Lane.phases Lane.endDispatcher
  rw [List.map_map, List.map_map]
  apply List.map_congr_left
  intro j _
  simp only [Function.comp_apply, Job.discard]
  split_ifs <;> rfl

/-- An ended dispatcher gives back what it holds. -/
theorem endDispatcher (h : Accounted concurrency s) (hjob : s.dispatcher.job = none) :
    Accounted concurrency s.endDispatcher := by
  have hcountP : ∀ p : Phase → Bool, p .queued = false → p .dropped = false →
      s.endDispatcher.phases.countP p = s.phases.countP p := by
    intro p hqueued hdropped
    rw [phases_endDispatcher, List.countP_map]
    apply List.countP_congr
    intro phase _
    rw [Function.comp_apply]
    split_ifs with heq
    · rw [heq, hqueued, hdropped]
    · rfl
  constructor
  · rw [hcountP _ rfl rfl]
    exact h.permits
  · rw [hcountP _ rfl rfl]
    have hcount := h.count
    rwa [counts_of_job hjob] at hcount

/-- How the counts change when one job is put into another phase. -/
theorem countP_set {n : ℕ} {old : Phase} (hold : s.phaseAt n = some old) (new : Phase)
    (p : Phase → Bool) :
    (s.phases.set n new).countP p + (p old).toNat = s.phases.countP p + (p new).toNat :=
  Roster.countP_set_add p ((s.getElem?_phases n).trans hold) new

/-- A job moves on, and what it takes or gives back is taken from or given to the lane. -/
theorem setPhase (h : Accounted concurrency s) {n : ℕ} {old : Phase} (new : Phase)
    (hold : s.phaseAt n = some old) (hphases : t.phases = s.phases.set n new)
    (hpermits : t.permits + t.dispatcher.permits + new.holdsPermit.toNat =
      s.permits + s.dispatcher.permits + old.holdsPermit.toNat)
    (hcount : t.count + s.dispatcher.counts + old.isCounted.toNat =
      s.count + t.dispatcher.counts + new.isCounted.toNat) : Accounted concurrency t := by
  have hp := countP_set hold new Phase.holdsPermit
  have hc := countP_set hold new Phase.isCounted
  have hpermits' := h.permits
  have hcount' := h.count
  constructor
  · rw [hphases]
    omega
  · rw [hphases]
    omega

/-- Every step keeps the account. -/
theorem step (h : Accounted concurrency s) (hs : Ordered capacity s) {label : Label α}
    (hstep : s.step capacity label = some t) : Accounted concurrency t := by
  have hpermits := h.permits
  have hcount := h.count
  cases label with
  | submit =>
    obtain ⟨-, rfl⟩ := Machine.refused_eq_some.1 hstep
    -- Neither an accepted nor a rejected submission holds anything.
    have hadd : ∀ (j : Job α) (p : Phase → Bool), p j.phase = false →
        ((s.jobs ++ [j]).map Job.phase).countP p = s.phases.countP p := by
      intro j p hj
      rw [List.map_append, List.countP_append]
      simp [Lane.phases, hj]
    unfold Lane.trySubmit
    split_ifs
    · exact ⟨by rw [← hadd (.rejected .closed) _ rfl] at hpermits; exact hpermits,
        by rw [← hadd (.rejected .closed) _ rfl] at hcount; exact hcount⟩
    · exact ⟨by rw [← hadd .accepted _ rfl] at hpermits; exact hpermits,
        by rw [← hadd .accepted _ rfl] at hcount; exact hcount⟩
    · exact ⟨by rw [← hadd (.rejected .full) _ rfl] at hpermits; exact hpermits,
        by rw [← hadd (.rejected .full) _ rfl] at hcount; exact hcount⟩
  | dropWaiter n =>
    obtain rfl := Option.some.inj hstep
    have hphases := s.phases_modifyJob_of_same n (f := fun j => { j with waiting := false })
      fun _ => rfl
    rw [← hphases] at hpermits hcount
    exact ⟨hpermits, hcount⟩
  | dispatcher e =>
    rcases Lane.dispatcherStep_cases hstep with ⟨hd, rfl⟩ | ⟨d, hjob, hd, hdp, -, -, -, rfl⟩ |
      ⟨hd, hroom, rfl⟩ | ⟨n, rest, hd, hqueue, rfl⟩ | ⟨n, hd, rfl⟩ | ⟨n, hd, rfl⟩
    · apply h.endDispatcher
      rcases hd with hd | ⟨hd, -⟩
      · exact Dispatcher.job_of_suspended hd
      · rw [hd]
        rfl
    · rw [counts_of_job hjob] at hcount
      rw [← hdp] at hpermits
      exact ⟨hpermits, by rw [counts_of_job hd]; exact hcount⟩
    · rw [hd] at hpermits hcount
      refine ⟨?_, hcount⟩
      show s.permits - 1 + 1 + s.phases.countP _ = concurrency
      simp only [Dispatcher.permits] at hpermits
      omega
    · have hold : s.phaseAt n = some .queued :=
        (hs.queued n).1 (by rw [hqueue]; exact List.mem_cons_self)
      refine h.setPhase .dispatching hold (Lane.phases_modifyJob_of_eq
        (s := { s with dispatcher := .received n, queue := rest }) hold fun _ => rfl) ?_ ?_
      · rw [hd]
        rfl
      · rw [hd]
        rfl
    · rw [hd] at hpermits hcount
      refine ⟨hpermits, ?_⟩
      show s.count + 1 = 1 + s.phases.countP _
      simp only [Dispatcher.counts] at hcount
      omega
    · have hold : s.phaseAt n = some .dispatching := (hs.dispatching n).1 (by rw [hd]; rfl)
      refine h.setPhase .spawned hold (Lane.phases_modifyJob_of_eq
        (s := { s with dispatcher := .top }) hold fun _ => rfl) ?_ ?_
      · rw [hd]
        rfl
      · rw [hd]
        rfl
  | job n e =>
    rcases Lane.jobStep_cases hstep with ⟨-, hold, rfl⟩ | ⟨outcome, -, hold, rfl⟩ |
      ⟨-, hold, rfl⟩ | ⟨-, hold, rfl⟩ | ⟨-, hold, rfl⟩
    · exact h.setPhase .running hold (Lane.phases_modifyJob_of_eq hold fun _ => rfl) rfl rfl
    · exact h.setPhase .ended hold (Lane.phases_modifyJob_of_eq hold fun _ => rfl) rfl rfl
    · exact h.setPhase .replied hold (Lane.phases_modifyJob_of_eq hold fun _ => rfl) rfl rfl
    · refine h.setPhase .released hold (Lane.phases_modifyJob_of_eq
        (s := { s with permits := s.permits + 1 }) hold fun _ => rfl) ?_ rfl
      show s.permits + 1 + s.dispatcher.permits + 0 = _
      simp only [Phase.holdsPermit, Bool.toNat_true]
      omega
    · refine h.setPhase .done hold (Lane.phases_modifyJob_of_eq
        (s := { s with count := s.count - 1 }) hold fun _ => rfl) rfl ?_
      -- The job itself has a place in the count, so there is one to give back.
      have hpos : 0 < s.phases.countP Phase.isCounted := by
        rw [List.countP_pos_iff]
        exact ⟨.released, List.mem_of_getElem? ((s.getElem?_phases n).trans hold), rfl⟩
      show s.count - 1 + s.dispatcher.counts + 1 = s.count + s.dispatcher.counts + 0
      omega
  | shutdown =>
    obtain ⟨-, rfl⟩ := Machine.refused_eq_some.1 hstep
    exact ⟨hpermits, hcount⟩
  | call k e =>
    obtain ⟨-, hp, hd, hc, hjobs⟩ := Lane.callStep_frame hstep
    have hphases : t.phases = s.phases := congrArg (List.map Job.phase) hjobs
    rw [← hp, ← hd, ← hphases] at hpermits
    rw [← hc, ← hd, ← hphases] at hcount
    exact ⟨hpermits, hcount⟩
  | dropLane =>
    obtain ⟨-, rfl⟩ := Machine.refused_eq_some.1 hstep
    exact ⟨hpermits, hcount⟩

end Accounted

/-! ## Replies -/

/-- What the future of a submission resolves to, from how far its job is. -/
def Job.resolution (j : Job α) : Option (Except LaneError α) :=
  match j.phase with
  | .rejected error => some (.error error)
  | .dropped => some (.error .closed)
  | .replied | .released | .done => j.outcome.map Outcome.reply
  | _ => none

/-- The future of a submission has what it resolves to, and a job has an outcome exactly when its
body has ended. -/
structure Job.Answered (j : Job α) : Prop where
  /-- A future that is still there has its resolution. -/
  reply : j.waiting → j.reply = j.resolution
  /-- The outcome is that of a body that has ended. -/
  outcome : j.outcome.isSome ↔ j.phase.hasRun

namespace Job.Answered

/-- A job that moves on without a change of its resolution. -/
theorem setPhase {j : Job α} (h : j.Answered) (phase : Phase)
    (hres : ({ j with phase := phase } : Job α).resolution = j.resolution)
    (hrun : phase.hasRun = j.phase.hasRun) : ({ j with phase := phase } : Job α).Answered where
  reply hwaiting := by
    rw [hres]
    exact h.reply hwaiting
  outcome := by
    rw [hrun]
    exact h.outcome

/-- A job whose body ends. -/
theorem finish {j : Job α} (h : j.Answered) (hphase : j.phase = .running) (outcome : Outcome α) :
    ({ j with phase := .ended, outcome := some outcome } : Job α).Answered where
  reply hwaiting := by
    have hreply := h.reply hwaiting
    unfold Job.resolution at hreply
    rw [hphase] at hreply
    exact hreply
  outcome := by simp [Phase.hasRun]

/-- A job that replies. -/
theorem replied {j : Job α} (h : j.Answered) (hphase : j.phase = .ended) : j.answer.Answered := by
  have hsome : j.outcome.isSome := h.outcome.2 (by rw [hphase]; rfl)
  obtain ⟨outcome, houtcome⟩ := Option.isSome_iff_exists.1 hsome
  unfold Job.answer
  rw [houtcome]
  constructor
  · intro hwaiting
    have hwaiting' : j.waiting = true := hwaiting
    simp [Job.resolve, Job.resolution, hwaiting', houtcome]
  · simp [Job.resolve, houtcome, Phase.hasRun]

/-- A job that is dropped with the channel. -/
theorem discard {j : Job α} (h : j.Answered) : j.discard.Answered := by
  unfold Job.discard
  split_ifs with hphase
  · have hnone : j.outcome.isSome ↔ false := by
      rw [h.outcome, hphase]
      rfl
    constructor
    · intro hwaiting
      have hwaiting' : j.waiting = true := hwaiting
      simp [Job.resolve, Job.resolution, hwaiting']
    · simpa [Job.resolve, Phase.hasRun] using hnone
  · exact h

/-- Every step keeps every job answered. -/
theorem step (h : ∀ j ∈ s.jobs, j.Answered) (hs : Ordered capacity s) {label : Label α}
    (hstep : s.step capacity label = some t) : ∀ j ∈ t.jobs, j.Answered := by
  have hphase : ∀ {n : ℕ} {phase : Phase} {j : Job α}, s.phaseAt n = some phase →
      s.jobs[n]? = some j → j.phase = phase := by
    intro n phase j hold hj
    simpa [Lane.phaseAt, hj] using hold
  cases label with
  -- A job that is refused is answered at once, and one that is accepted waits.
  | submit =>
    obtain ⟨-, rfl⟩ := Machine.refused_eq_some.1 hstep
    have hrejected : ∀ error, (Job.rejected error : Job α).Answered := fun error =>
      ⟨fun _ => rfl, by simp [Job.rejected, Phase.hasRun]⟩
    unfold Lane.trySubmit
    split_ifs
    · exact Roster.forall_mem_append_singleton h (hrejected .closed)
    · exact Roster.forall_mem_append_singleton h
        ⟨fun _ => rfl, by simp [Job.accepted, Phase.hasRun]⟩
    · exact Roster.forall_mem_append_singleton h (hrejected .full)
  | dropWaiter n =>
    obtain rfl := Option.some.inj hstep
    exact Roster.forall_mem_modify h fun j hj =>
      ⟨fun hwaiting => (by cases hwaiting), (h j (List.mem_of_getElem? hj)).outcome⟩
  -- The end of the dispatcher discards what is queued; otherwise it moves one job on at most.
  | dispatcher e =>
    rcases Lane.dispatcherStep_cases hstep with ⟨hd, rfl⟩ | ⟨d, -, -, -, -, -, -, rfl⟩ |
      ⟨-, -, rfl⟩ | ⟨n, rest, hd, hqueue, rfl⟩ | ⟨n, -, rfl⟩ | ⟨n, hd, rfl⟩
    · intro j hj
      obtain ⟨j₀, hj₀, rfl⟩ := List.mem_map.1 hj
      exact (h j₀ hj₀).discard
    · exact h
    · exact h
    · have hold : s.phaseAt n = some .queued :=
        (hs.queued n).1 (by rw [hqueue]; exact List.mem_cons_self)
      exact Roster.forall_mem_modify h fun j hj =>
        (h j (List.mem_of_getElem? hj)).setPhase .dispatching
          (by simp [Job.resolution, hphase hold hj]) (by rw [hphase hold hj]; rfl)
    · exact h
    · have hold : s.phaseAt n = some .dispatching := (hs.dispatching n).1 (by rw [hd]; rfl)
      exact Roster.forall_mem_modify h fun j hj =>
        (h j (List.mem_of_getElem? hj)).setPhase .spawned
          (by simp [Job.resolution, hphase hold hj]) (by rw [hphase hold hj]; rfl)
  -- A job answers once it has its outcome, and the later steps only give up its permit.
  | job n e =>
    rcases Lane.jobStep_cases hstep with ⟨-, hold, rfl⟩ | ⟨outcome, -, hold, rfl⟩ |
      ⟨-, hold, rfl⟩ | ⟨-, hold, rfl⟩ | ⟨-, hold, rfl⟩
    · exact Roster.forall_mem_modify h fun j hj =>
        (h j (List.mem_of_getElem? hj)).setPhase .running
          (by simp [Job.resolution, hphase hold hj]) (by rw [hphase hold hj]; rfl)
    · exact Roster.forall_mem_modify h fun j hj =>
        (h j (List.mem_of_getElem? hj)).finish (hphase hold hj) outcome
    · exact Roster.forall_mem_modify h fun j hj =>
        (h j (List.mem_of_getElem? hj)).replied (hphase hold hj)
    · exact Roster.forall_mem_modify h fun j hj =>
        (h j (List.mem_of_getElem? hj)).setPhase .released
          (by simp [Job.resolution, hphase hold hj]) (by rw [hphase hold hj]; rfl)
    · exact Roster.forall_mem_modify h fun j hj =>
        (h j (List.mem_of_getElem? hj)).setPhase .done
          (by simp [Job.resolution, hphase hold hj]) (by rw [hphase hold hj]; rfl)
  | shutdown =>
    obtain ⟨-, rfl⟩ := Machine.refused_eq_some.1 hstep
    exact h
  | call k e =>
    obtain ⟨-, -, -, -, hjobs⟩ := Lane.callStep_frame hstep
    rwa [hjobs]
  | dropLane =>
    obtain ⟨-, rfl⟩ := Machine.refused_eq_some.1 hstep
    exact h

end Job.Answered

/-! ## The life of a job -/

/-- The label is the start of the body of job `n`. -/
def Label.startsJob (n : ℕ) : Label α → Bool
  | .job m .start => m = n
  | _ => false

/-- The steps that a label can make in the life of job `n`. -/
inductive Move (n : ℕ) : Label α → Phase → Phase → Prop where
  | drop (e : DispatcherEvent) : Move n (.dispatcher e) .queued .dropped
  | receive (e : DispatcherEvent) : Move n (.dispatcher e) .queued .dispatching
  | spawn (e : DispatcherEvent) : Move n (.dispatcher e) .dispatching .spawned
  | start : Move n (.job n .start) .spawned .running
  | finish (outcome : Outcome α) : Move n (.job n (.finish outcome)) .running .ended
  | reply : Move n (.job n .reply) .ended .replied
  | release : Move n (.job n .release) .replied .released
  | lower : Move n (.job n .lower) .released .done

/-- What a step does to the phase of job `n`: nothing, one move in its life, or its submission. -/
theorem phaseAt_step (h : Ordered capacity s) {label : Label α}
    (hstep : s.step capacity label = some t) (n : ℕ) :
    (t.phaseAt n = s.phaseAt n ∧ label.startsJob n = false) ∨
    (∃ old new, s.phaseAt n = some old ∧ t.phaseAt n = some new ∧ Move n label old new) ∨
    (label = .submit ∧ s.phaseAt n = none ∧
      ∀ phase ∈ t.phaseAt n, phase = .queued ∨ ∃ error, phase = .rejected error) := by
  -- A job is put into another phase, and that is a move in its life.
  have hmove : ∀ {m : ℕ} {old new : Phase}, s.phaseAt m = some old → Move m label old new →
      (∀ k, t.phaseAt k = if m = k then some new else s.phaseAt k) →
      (m ≠ n → label.startsJob n = false) →
      (t.phaseAt n = s.phaseAt n ∧ label.startsJob n = false) ∨
      ∃ old new, s.phaseAt n = some old ∧ t.phaseAt n = some new ∧ Move n label old new := by
    intro m old new hold hmove hphase hother
    by_cases hm : m = n
    · subst hm
      exact .inr ⟨old, new, hold, by rw [hphase, if_pos rfl], hmove⟩
    · exact .inl ⟨by rw [hphase, if_neg hm], hother hm⟩
  cases label with
  | submit =>
    obtain ⟨-, rfl⟩ := Machine.refused_eq_some.1 hstep
    cases hn : s.phaseAt n with
    | none =>
      refine .inr (.inr ⟨rfl, rfl, ?_⟩)
      -- A new entry is that of an accepted or a rejected submission.
      have hnew : ∀ (j : Job α), j.phase = .queued ∨ (∃ error, j.phase = .rejected error) →
          ∀ phase ∈ ((s.jobs ++ [j])[n]?).map Job.phase,
            phase = .queued ∨ ∃ error, phase = .rejected error := by
        intro j hj phase hphase
        obtain ⟨j', hj', rfl⟩ := Option.map_eq_some_iff.1 hphase
        rcases Roster.getElem?_append_singleton_cases hj' with hold | rfl
        · rw [Lane.phaseAt, hold] at hn
          cases hn
        · exact hj
      unfold Lane.trySubmit
      split_ifs
      · exact hnew _ (.inr ⟨.closed, rfl⟩)
      · exact hnew _ (.inl rfl)
      · exact hnew _ (.inr ⟨.full, rfl⟩)
    | some phase =>
      refine .inl ⟨?_, rfl⟩
      have hlt : n < s.jobs.length := Lane.lt_of_phaseAt hn
      rw [← hn]
      unfold Lane.trySubmit
      split_ifs <;> simp [Lane.phaseAt, List.getElem?_append_left hlt]
  | dropWaiter m =>
    obtain rfl := Option.some.inj hstep
    refine .inl ⟨?_, rfl⟩
    rw [← Lane.getElem?_phases, ← Lane.getElem?_phases]
    rw [s.phases_modifyJob_of_same m (f := fun j => { j with waiting := false }) fun _ => rfl]
  | dispatcher e =>
    rcases Lane.dispatcherStep_cases hstep with ⟨hd, rfl⟩ | ⟨d, -, -, -, -, -, -, rfl⟩ |
      ⟨-, -, rfl⟩ | ⟨m, rest, hd, hqueue, rfl⟩ | ⟨m, -, rfl⟩ | ⟨m, hd, rfl⟩
    · rw [← Lane.getElem?_phases, Accounted.phases_endDispatcher, List.getElem?_map,
        Lane.getElem?_phases]
      cases hn : s.phaseAt n with
      | none => exact .inl ⟨rfl, rfl⟩
      | some phase =>
        by_cases hqueued : phase = .queued
        · subst hqueued
          exact .inr (.inl ⟨_, _, rfl, rfl, .drop e⟩)
        · exact .inl ⟨by simp [hqueued], rfl⟩
    · exact .inl ⟨rfl, rfl⟩
    · exact .inl ⟨rfl, rfl⟩
    · have hold : s.phaseAt m = some .queued :=
        (h.queued m).1 (by rw [hqueue]; exact List.mem_cons_self)
      exact (hmove hold (.receive e) (Lane.phaseAt_modifyJob_of_eq
        (s := { s with dispatcher := .received m, queue := rest }) hold fun _ => rfl)
        fun _ => rfl).imp_right .inl
    · exact .inl ⟨rfl, rfl⟩
    · have hold : s.phaseAt m = some .dispatching := (h.dispatching m).1 (by rw [hd]; rfl)
      exact (hmove hold (.spawn e) (Lane.phaseAt_modifyJob_of_eq
        (s := { s with dispatcher := .top }) hold fun _ => rfl) fun _ => rfl).imp_right .inl
  | job m e =>
    rcases Lane.jobStep_cases hstep with ⟨rfl, hold, rfl⟩ | ⟨outcome, rfl, hold, rfl⟩ |
      ⟨rfl, hold, rfl⟩ | ⟨rfl, hold, rfl⟩ | ⟨rfl, hold, rfl⟩
    · exact (hmove hold .start (Lane.phaseAt_modifyJob_of_eq hold fun _ => rfl)
        fun hne => by simp [Label.startsJob, hne]).imp_right .inl
    · exact (hmove hold (.finish outcome) (Lane.phaseAt_modifyJob_of_eq hold fun _ => rfl)
        fun _ => rfl).imp_right .inl
    · exact (hmove hold .reply (Lane.phaseAt_modifyJob_of_eq hold fun _ => rfl)
        fun _ => rfl).imp_right .inl
    · exact (hmove hold .release (Lane.phaseAt_modifyJob_of_eq
        (s := { s with permits := s.permits + 1 }) hold fun _ => rfl) fun _ => rfl).imp_right .inl
    · exact (hmove hold .lower (Lane.phaseAt_modifyJob_of_eq
        (s := { s with count := s.count - 1 }) hold fun _ => rfl) fun _ => rfl).imp_right .inl
  | shutdown =>
    obtain ⟨-, rfl⟩ := Machine.refused_eq_some.1 hstep
    exact .inl ⟨rfl, rfl⟩
  | call k e =>
    obtain ⟨-, -, -, -, hjobs⟩ := Lane.callStep_frame hstep
    exact .inl ⟨by rw [Lane.phaseAt, hjobs]; rfl, rfl⟩
  | dropLane =>
    obtain ⟨-, rfl⟩ := Machine.refused_eq_some.1 hstep
    exact .inl ⟨rfl, rfl⟩

/-- A rejected, dropped or finished job stays what it is. -/
theorem phaseAt_step_of_final (h : Ordered capacity s) {label : Label α}
    (hstep : s.step capacity label = some t) {n : ℕ} {phase : Phase}
    (hphase : s.phaseAt n = some phase)
    (hfinal : (∃ error, phase = .rejected error) ∨ phase = .dropped ∨ phase = .done) :
    t.phaseAt n = some phase ∧ label.startsJob n = false := by
  rcases phaseAt_step h hstep n with ⟨hsame, hstart⟩ | ⟨old, new, hold, -, hmove⟩ | ⟨-, hnone, -⟩
  · exact ⟨hsame.trans hphase, hstart⟩
  · obtain rfl := Option.some.inj (hold.symm.trans hphase)
    rcases hfinal with ⟨error, rfl⟩ | rfl | rfl <;> cases hmove
  · rw [hnone] at hphase
    cases hphase

/-- The starts of a job among the labels of a run: one if its body has begun, and none before. -/
theorem countP_startsJob {labels : List (Label α)} (h : Ordered capacity s) (n : ℕ)
    (hrun : (machine α capacity concurrency).run s labels = some t) :
    ((t.phaseAt n).any Phase.started).toNat =
      ((s.phaseAt n).any Phase.started).toNat + labels.countP (Label.startsJob n) := by
  refine Machine.countP_of_run (P := Ordered capacity)
    (f := fun s => ((s.phaseAt n).any Phase.started).toNat) (fun s label t hs hstep => ?_) h hrun
  refine ⟨hs.step hstep, ?_⟩
  rcases phaseAt_step hs hstep n with ⟨hsame, hstart⟩ | ⟨old, new, hold, hnew, hmove⟩ |
    ⟨rfl, hnone, hnew⟩
  · rw [hsame, hstart]
    rfl
  · rw [hold, hnew]
    cases hmove <;> simp [Phase.started, Label.startsJob]
  · rw [hnone]
    cases hn : t.phaseAt n with
    | none => rfl
    | some phase =>
      rcases hnew phase hn with rfl | ⟨error, rfl⟩ <;> rfl

/-! ## Every run -/

/-- What holds of every lane that a run reaches. -/
structure Invariant (capacity concurrency : ℕ) (s : Lane α) : Prop where
  /-- The channel and the dispatcher fit the phases of the jobs. -/
  ordered : Ordered capacity s
  /-- Permits and activity are accounted for. -/
  accounted : Accounted concurrency s
  /-- Every future has its resolution. -/
  answered : ∀ j ∈ s.jobs, j.Answered

namespace Invariant

/-- A new lane. -/
theorem start (capacity concurrency : ℕ) :
    Invariant (α := α) capacity concurrency (.start concurrency) where
  ordered :=
    { queued := by simp [Lane.start, Lane.phaseAt]
      dispatching := by simp [Lane.start, Lane.phaseAt, Dispatcher.job]
      sorted := List.Pairwise.nil
      length := Nat.zero_le _
      order := by simp [Lane.start, Lane.phaseAt]
      dropped := by simp [Lane.start, Lane.phaseAt] }
  accounted := ⟨rfl, rfl⟩
  answered := by simp [Lane.start]

/-- Every step keeps the invariant. -/
theorem step (h : Invariant capacity concurrency s) {label : Label α}
    (hstep : s.step capacity label = some t) : Invariant capacity concurrency t where
  ordered := h.ordered.step hstep
  accounted := h.accounted.step h.ordered hstep
  answered := Job.Answered.step h.answered h.ordered hstep

/-- Every run keeps the invariant. -/
theorem run (h : Invariant capacity concurrency s) {labels : List (Label α)}
    (hrun : (machine α capacity concurrency).run s labels = some t) :
    Invariant capacity concurrency t :=
  Machine.invariant_of_run (fun _ _ _ hs hstep => hs.step hstep) h hrun

/-- A running job holds a permit and a place in the activity count. -/
theorem running_le (h : Invariant capacity concurrency s) :
    s.phases.countP (· = .running) ≤ concurrency ∧ s.phases.countP (· = .running) ≤ s.count := by
  have hpermit : s.phases.countP (· = .running) ≤ s.phases.countP Phase.holdsPermit :=
    List.countP_mono_left fun phase _ hphase => by
      rw [of_decide_eq_true hphase]
      rfl
  have hcounted : s.phases.countP (· = .running) ≤ s.phases.countP Phase.isCounted :=
    List.countP_mono_left fun phase _ hphase => by
      rw [of_decide_eq_true hphase]
      rfl
  have hpermits := h.accounted.permits
  have hcount := h.accounted.count
  constructor <;> omega

/-- Whatever the outcome of a job, it can reply and give back its permit and its place in the
activity count. -/
theorem gives_back (h : Invariant capacity concurrency s) {n : ℕ}
    (hphase : s.phaseAt n = some .ended) :
    ∃ t, (machine α capacity concurrency).run s
        [.job n .reply, .job n .release, .job n .lower] = some t ∧
      t.permits = s.permits + 1 ∧ t.count + 1 = s.count := by
  have hstep : ∀ {u : Lane α} {phase : Phase}, u.phaseAt n = some phase →
      ∃ j, u.jobs[n]? = some j ∧ j.phase = phase := fun hu => Option.map_eq_some_iff.1 hu
  have hpos : 0 < s.phases.countP Phase.isCounted := by
    rw [List.countP_pos_iff]
    exact ⟨.ended, List.mem_of_getElem? ((s.getElem?_phases n).trans hphase), rfl⟩
  have hcount := h.accounted.count
  -- The three steps, each of which the phase before it enables.
  let s₁ : Lane α := s.modifyJob n Job.answer
  let s₂ : Lane α := { s₁ with permits := s₁.permits + 1 }.setPhase n .released
  let s₃ : Lane α := { s₂ with count := s₂.count - 1 }.setPhase n .done
  have h₁ : s.jobStep n .reply = some s₁ := by
    obtain ⟨j, hj, hp⟩ := hstep hphase
    simp only [Lane.jobStep, hj, hp]
    rfl
  have hphase₁ : s₁.phaseAt n = some .replied :=
    (Lane.phaseAt_modifyJob_of_eq (f := Job.answer) hphase (fun _ => rfl) n).trans (if_pos rfl)
  have h₂ : s₁.jobStep n .release = some s₂ := by
    obtain ⟨j, hj, hp⟩ := hstep hphase₁
    simp only [Lane.jobStep, hj, hp]
    rfl
  have hphase₂ : s₂.phaseAt n = some .released :=
    (Lane.phaseAt_modifyJob_of_eq (s := { s₁ with permits := s₁.permits + 1 })
      (f := fun j => { j with phase := .released }) hphase₁ (fun _ => rfl) n).trans (if_pos rfl)
  have h₃ : s₂.jobStep n .lower = some s₃ := by
    obtain ⟨j, hj, hp⟩ := hstep hphase₂
    simp only [Lane.jobStep, hj, hp]
    rfl
  refine ⟨s₃, ?_, rfl, ?_⟩
  · exact Machine.run_cons_eq_some _ |>.2 ⟨s₁, h₁, Machine.run_cons_eq_some _ |>.2 ⟨s₂, h₂,
      Machine.run_cons_eq_some _ |>.2 ⟨s₃, h₃, rfl⟩⟩⟩
  · show s.count - 1 + 1 = s.count
    omega

end Invariant

/-- After the reply the future has the outcome, which a body that has ended has. -/
theorem Job.Answered.exists_reply {j : Job α} (h : j.Answered) (hwaiting : j.waiting)
    (hphase : j.phase = .replied ∨ j.phase = .released ∨ j.phase = .done) :
    ∃ outcome, j.outcome = some outcome ∧ j.reply = some outcome.reply := by
  have hsome : j.outcome.isSome := by
    rw [h.outcome]
    rcases hphase with hp | hp | hp <;> rw [hp] <;> rfl
  obtain ⟨outcome, houtcome⟩ := Option.isSome_iff_exists.1 hsome
  refine ⟨outcome, houtcome, ?_⟩
  rw [h.reply hwaiting, Job.resolution]
  rcases hphase with hp | hp | hp <;> rw [hp] <;> simp [houtcome]

/-- An accepted job was dropped, or has replied, or is on its way. -/
theorem Invariant.reply_cases (h : Invariant capacity concurrency s) {n : ℕ} {j : Job α}
    (hj : s.jobs[n]? = some j) (hwaiting : j.waiting)
    (haccepted : ∀ error, j.phase ≠ .rejected error) :
    j.phase = .dropped ∧ j.reply = some (.error .closed) ∨
      (j.phase = .replied ∨ j.phase = .released ∨ j.phase = .done) ∨
      j.reply = none ∧ (n ∈ s.queue ∨ s.dispatcher.job = some n ∨ j.phase = .spawned ∨
        j.phase = .running ∨ j.phase = .ended) := by
  have hphaseAt : s.phaseAt n = some j.phase := by
    rw [Lane.phaseAt, hj]
    rfl
  have hqueued := h.ordered.queued n
  have hdispatching := h.ordered.dispatching n
  rw [hphaseAt] at hqueued hdispatching
  rw [(h.answered j (List.mem_of_getElem? hj)).reply hwaiting, Job.resolution]
  cases hp : j.phase with
  | rejected error => exact absurd hp (haccepted error)
  | dropped => exact .inl ⟨rfl, rfl⟩
  | replied => exact .inr (.inl (.inl rfl))
  | released => exact .inr (.inl (.inr (.inl rfl)))
  | done => exact .inr (.inl (.inr (.inr rfl)))
  | queued => exact .inr (.inr ⟨rfl, .inl (hqueued.2 (by rw [hp]))⟩)
  | dispatching => exact .inr (.inr ⟨rfl, .inr (.inl (hdispatching.2 (by rw [hp])))⟩)
  | spawned => exact .inr (.inr ⟨rfl, .inr (.inr (.inl rfl))⟩)
  | running => exact .inr (.inr ⟨rfl, .inr (.inr (.inr (.inl rfl)))⟩)
  | ended => exact .inr (.inr ⟨rfl, .inr (.inr (.inr (.inr rfl)))⟩)

/-- What the future of an accepted job resolves to. It has the job's value only if the body returned
it, `Panicked` only if the body panicked, and `Closed` exactly when the job was dropped before it
ran. Once the job has replied the future has its outcome, and a future that has nothing yet belongs
to a job that is still on its way. -/
theorem Invariant.reply (h : Invariant capacity concurrency s) {n : ℕ} {j : Job α}
    (hj : s.jobs[n]? = some j) (hwaiting : j.waiting)
    (haccepted : ∀ error, j.phase ≠ .rejected error) :
    (∀ v, j.reply = some (.ok v) → j.outcome = some (.value v)) ∧
      (j.reply = some (.error .panicked) → j.outcome = some .panicked) ∧
      (j.reply = some (.error .closed) ↔ j.phase = .dropped) ∧
      (j.phase = .replied ∨ j.phase = .released ∨ j.phase = .done →
        ∃ outcome, j.outcome = some outcome ∧ j.reply = some outcome.reply) ∧
      (j.reply = none → n ∈ s.queue ∨ s.dispatcher.job = some n ∨
        j.phase = .spawned ∨ j.phase = .running ∨ j.phase = .ended) := by
  have hanswered := h.answered j (List.mem_of_getElem? hj)
  have hrun := hanswered.exists_reply hwaiting
  have hcases := h.reply_cases hj hwaiting haccepted
  -- A reply other than `Closed` comes from the outcome of the job.
  have hof : ∀ result, j.reply = some result → result ≠ .error .closed →
      ∃ outcome, j.outcome = some outcome ∧ outcome.reply = result := by
    intro result hresult hne
    rcases hcases with ⟨-, hclosed⟩ | hphase | ⟨hnone, -⟩
    · rw [hclosed] at hresult
      exact absurd (Option.some.inj hresult).symm hne
    · obtain ⟨outcome, houtcome, hreply'⟩ := hrun hphase
      exact ⟨outcome, houtcome, Option.some.inj (hreply'.symm.trans hresult)⟩
    · rw [hnone] at hresult
      cases hresult
  refine ⟨?_, ?_, ?_, hrun, ?_⟩
  · intro v hv
    obtain ⟨outcome, houtcome, heq⟩ := hof _ hv (by simp)
    cases outcome with
    | value w =>
      obtain rfl : w = v := by simpa [Outcome.reply] using heq
      exact houtcome
    | panicked => cases heq
  · intro hpanicked
    obtain ⟨outcome, houtcome, heq⟩ := hof _ hpanicked (by simp)
    cases outcome with
    | value w => cases heq
    | panicked => exact houtcome
  · constructor
    · intro hclosed
      rcases hcases with ⟨hdropped, -⟩ | hphase | ⟨hnone, -⟩
      · exact hdropped
      · obtain ⟨outcome, -, hreply'⟩ := hrun hphase
        rw [hreply'] at hclosed
        cases outcome <;> cases hclosed
      · rw [hnone] at hclosed
        cases hclosed
    · intro hdropped
      rw [hanswered.reply hwaiting, Job.resolution, hdropped]
  · intro hnone
    rcases hcases with ⟨-, hclosed⟩ | hphase | ⟨-, hway⟩
    · rw [hclosed] at hnone
      cases hnone
    · obtain ⟨outcome, -, hreply'⟩ := hrun hphase
      rw [hreply'] at hnone
      cases hnone
    · exact hway

/-- Jobs run at most once, within the bounds of the lane, and every waiter learns how its job ended.
In every lane that a run reaches: the channel keeps its capacity, at most as many jobs run as the
concurrency allows, and the activity count is not below their number; a job's body has begun at most
once, and never for a job that was rejected or dropped, whatever comes later; a job is dispatched
only after every accepted one before it; an ended body, one that panicked included, gives back its
permit and its place in the activity count; and the future of an accepted job resolves to what its
body came to, or to `Closed` exactly when the job was dropped before it ran. -/
theorem jobs_once_within_bounds (capacity concurrency : ℕ) (labels : List (Label α)) (s : Lane α)
    (hrun : (machine α capacity concurrency).run (.start concurrency) labels = some s) :
    s.queue.length ≤ capacity ∧
      s.phases.countP (· = .running) ≤ concurrency ∧
      s.phases.countP (· = .running) ≤ s.count ∧
      (∀ n, labels.countP (Label.startsJob n) = ((s.phaseAt n).any Phase.started).toNat) ∧
      (∀ n phase more t, s.phaseAt n = some phase →
        (∃ error, phase = .rejected error) ∨ phase = .dropped →
        (machine α capacity concurrency).run s more = some t →
          (labels ++ more).countP (Label.startsJob n) = 0) ∧
      (∀ m n before phase, m < n → s.phaseAt m = some before → s.phaseAt n = some phase →
        phase.dispatched → before.dispatched ∨ ∃ error, before = .rejected error) ∧
      (∀ n, s.phaseAt n = some .ended → ∃ t, (machine α capacity concurrency).run s
          [.job n .reply, .job n .release, .job n .lower] = some t ∧
        t.permits = s.permits + 1 ∧ t.count + 1 = s.count) ∧
      ∀ n j, s.jobs[n]? = some j → j.waiting → (∀ error, j.phase ≠ .rejected error) →
        (∀ v, j.reply = some (.ok v) → j.outcome = some (.value v)) ∧
          (j.reply = some (.error .panicked) → j.outcome = some .panicked) ∧
          (j.reply = some (.error .closed) ↔ j.phase = .dropped) ∧
          (j.phase = .replied ∨ j.phase = .released ∨ j.phase = .done →
            ∃ outcome, j.outcome = some outcome ∧ j.reply = some outcome.reply) ∧
          (j.reply = none → n ∈ s.queue ∨ s.dispatcher.job = some n ∨
            j.phase = .spawned ∨ j.phase = .running ∨ j.phase = .ended) := by
  have hstart : Invariant (α := α) capacity concurrency (.start concurrency) :=
    .start capacity concurrency
  have h := hstart.run hrun
  -- No job has begun in a new lane, so every start is among the labels.
  have hstarts : ∀ {u : Lane α} {all : List (Label α)} (n : ℕ),
      (machine α capacity concurrency).run (.start concurrency) all = some u →
        all.countP (Label.startsJob n) = ((u.phaseAt n).any Phase.started).toNat := by
    intro u all n hu
    have hcount := countP_startsJob hstart.ordered n hu
    simpa [Lane.start, Lane.phaseAt] using hcount.symm
  refine ⟨h.ordered.length, h.running_le.1, h.running_le.2, fun n => hstarts n hrun, ?_, ?_,
    fun n hphase => h.gives_back hphase, fun n j => h.reply⟩
  · intro n phase more t hphase hfinal hmore
    have hall := (machine α capacity concurrency).run_append_eq_some.2 ⟨s, hrun, hmore⟩
    have hstays : t.phaseAt n = some phase :=
      (Machine.invariant_of_run (P := fun s : Lane α =>
          Ordered capacity s ∧ s.phaseAt n = some phase) (fun u label v hu hstep =>
        ⟨hu.1.step hstep, (phaseAt_step_of_final hu.1 hstep hu.2
          (hfinal.imp_right .inl)).1⟩) ⟨h.ordered, hphase⟩ hmore).2
    rw [hstarts n hall, hstays]
    rcases hfinal with ⟨error, rfl⟩ | rfl <;> rfl
  · intro m n before phase hlt hm hn hdisp
    obtain ⟨hqueued, hdropped⟩ := h.ordered.order m n phase hlt hn hdisp
    rw [hm] at hqueued hdropped
    cases before with
    | rejected error => exact .inr ⟨error, rfl⟩
    | queued => exact absurd rfl hqueued
    | dropped => exact absurd rfl hdropped
    | _ => exact .inl rfl

/-- The run of a job that panics. -/
theorem jobs_once_within_bounds_panic :
    let labels : List (Label ℕ) := [.submit, .dispatcher .look, .dispatcher .lookForPermit,
      .dispatcher .takePermit, .dispatcher .lookForJob, .dispatcher .receive, .dispatcher .raise,
      .dispatcher .spawn, .job 0 .start, .job 0 (.finish .panicked), .job 0 .reply]
    labels.countP (Label.startsJob 0) = 1 ∧
      ∃ s, (machine ℕ 1 1).run (.start 1) labels = some s ∧
        ∃ j, s.jobs[0]? = some j ∧ ∃ outcome, j.outcome = some outcome ∧
          j.reply = some outcome.reply := by
  intro labels
  obtain ⟨-, -, -, hstarts, -, -, -, hreply⟩ := jobs_once_within_bounds 1 1 labels _ rfl
  exact ⟨hstarts 0, _, rfl, _, rfl, (hreply 0 _ rfl rfl nofun).2.2.2.1 (.inl rfl)⟩

end DaemonFramework.Blocking
