import DaemonFramework.Machine
import Mathlib.Data.Int.Notation
import Mathlib.Data.List.Basic

/-!
# Detected resumes

`ResumeDetector` of `shelllist-daemon-tokio/src/resume.rs`. The offset between the two clocks grows
when the system is suspended. A poll announces a resume where the offset it sampled has grown, and
so does the signal of logind, unless a poll has before. A sample can be rejected.

`resumes` is the detector with what happens around it: suspends, the signals that are outstanding,
and the announcements. A jump that was not sampled yet is announced by the next accepted sample,
whether a signal announced the resume before or not, and one flag stands for all signals that are
outstanding. So a resume can be announced twice: `Steady` is the condition under which it is not
(`Balanced`), and without it there is one announcement too many for good (`Owed`).
-/

namespace DaemonFramework.Resume

/-- `ResumeDetector` -/
structure ResumeDetector where
  /-- The last offset that was sampled. -/
  offset : Option ℤ
  /-- A poll has announced a resume, and no signal was handled since. -/
  reportedBeforeSignal : Bool
deriving DecidableEq

namespace ResumeDetector

/-- `ResumeDetector::changed` -/
def changed (d : ResumeDetector) (offset : Option ℤ) : Bool × ResumeDetector :=
  match offset with
  | none => (false, d)
  | some offset =>
    let changed := d.offset.any fun previous => offset - previous > 250000000
    (changed, { d with offset := some offset })

/-- `ResumeDetector::poll` -/
def poll (d : ResumeDetector) (offset : Option ℤ) : Bool × ResumeDetector :=
  let (changed, d) := d.changed offset
  (changed, { d with reportedBeforeSignal := d.reportedBeforeSignal || changed })

/-- `ResumeDetector::signal` -/
def signal (d : ResumeDetector) (offset : Option ℤ) : Bool × ResumeDetector :=
  let (changed, d) := d.changed offset
  (changed || !d.reportedBeforeSignal, { d with reportedBeforeSignal := false })

end ResumeDetector

/-- What happens. -/
inductive Event where
  /-- The system is suspended, which raises the offset. -/
  | suspend (rise : ℤ)
  /-- The clocks are polled, with a sample that is accepted or not. -/
  | poll (accepted : Bool)
  /-- The signal of a suspend is handled, with a sample that is accepted or not. -/
  | signal (suspend : ℕ) (accepted : Bool)

/-- The detector and what is around it. -/
structure State where
  /-- The detector. -/
  detector : ResumeDetector
  /-- The offset between the clocks. -/
  offset : ℤ
  /-- The number of suspends, which are numbered from 0. -/
  suspends : ℕ
  /-- The suspends whose signals were not handled yet, the oldest first. -/
  outstanding : List ℕ
  /-- The suspends since which nothing was announced. -/
  quiet : List ℕ
  /-- The number of announcements. -/
  announcements : ℕ
deriving DecidableEq

namespace State

/-- The sample that is taken. -/
def sample (s : State) (accepted : Bool) : Option ℤ := if accepted then some s.offset else none

/-- The detector has returned whether there is something to announce. -/
def report (s : State) (result : Bool × ResumeDetector) : State :=
  if result.1 then
    { s with detector := result.2, quiet := [], announcements := s.announcements + 1 }
  else { s with detector := result.2 }

/-- The detector has not sampled the offset since it was raised. -/
def Unseen (s : State) : Prop := ∃ known, s.detector.offset = some known ∧ known ≠ s.offset

instance (s : State) : Decidable s.Unseen :=
  decidable_of_iff (s.detector.offset.any (· ≠ s.offset) = true) (by
    cases hoffset : s.detector.offset <;> simp [Unseen, hoffset])

/-- Suspends raise the offset by more than the detector tolerates, after a first sample. -/
def step (s : State) : Event → Option State
  | .suspend rise =>
    if 250000000 < rise ∧ s.detector.offset ≠ none then
      some { s with
        offset := s.offset + rise
        suspends := s.suspends + 1
        outstanding := s.outstanding ++ [s.suspends]
        quiet := s.quiet ++ [s.suspends] }
    else none
  | .poll accepted => some (s.report (s.detector.poll (s.sample accepted)))
  | .signal i accepted =>
    if i ∈ s.outstanding then
      some { s.report (s.detector.signal (s.sample accepted)) with
        outstanding := s.outstanding.erase i }
    else none

end State

/-- A detector and its surroundings, with the offset at the start. -/
def resumes (offset : ℤ) : Machine State Event where
  init := ⟨⟨none, false⟩, offset, 0, [], [], 0⟩
  step := State.step

/-- Each suspend whose signal was handled was announced since, and there are no more announcements
than suspends. -/
structure Announced (s : State) : Prop where
  /-- No announcement is missing. -/
  handled : ∀ i < s.suspends, i ∉ s.outstanding → i ∉ s.quiet
  /-- None is made twice. -/
  few : s.announcements ≤ s.suspends

/-- A sample that sees a jump is not taken while a resume that a poll has announced waits for its
signal, and by a poll only while some signal is outstanding. -/
def Seen (s : State) : Event → Prop
  | .suspend _ => True
  | .poll accepted => accepted = true → s.Unseen →
      s.outstanding ≠ [] ∧ s.detector.reportedBeforeSignal = false
  | .signal _ accepted => accepted = true → s.Unseen → s.detector.reportedBeforeSignal = false

/-- The signal that a poll has announced is that of the oldest suspend that waits for one. -/
def InOrder (s : State) : Event → Prop
  | .signal i _ => s.detector.reportedBeforeSignal = true → s.outstanding.head? = some i
  | _ => True

/-- The condition on a step under which resumes are announced once. -/
def Steady (s : State) (e : Event) : Prop := Seen s e ∧ InOrder s e

instance (s : State) : (e : Event) → Decidable (Seen s e)
  | .suspend _ => inferInstanceAs (Decidable True)
  | .poll accepted => inferInstanceAs (Decidable (accepted = true → s.Unseen →
      s.outstanding ≠ [] ∧ s.detector.reportedBeforeSignal = false))
  | .signal _ accepted => inferInstanceAs (Decidable (accepted = true → s.Unseen →
      s.detector.reportedBeforeSignal = false))

instance (s : State) : (e : Event) → Decidable (InOrder s e)
  | .suspend _ => inferInstanceAs (Decidable True)
  | .poll _ => inferInstanceAs (Decidable True)
  | .signal i _ => inferInstanceAs (Decidable (s.detector.reportedBeforeSignal = true →
      s.outstanding.head? = some i))

instance (s : State) (e : Event) : Decidable (Steady s e) :=
  inferInstanceAs (Decidable (Seen s e ∧ InOrder s e))

/-! ### Samples -/

/-- What the detector knows is the offset, or is less by a jump. -/
def Known (s : State) : Prop :=
  ∀ known, s.detector.offset = some known → known = s.offset ∨ 250000000 < s.offset - known

/-- A sample sees a change exactly if it is accepted and there is one to see. -/
theorem changed_iff {s : State} (h : Known s) (accepted : Bool) :
    (s.detector.changed (s.sample accepted)).1 = true ↔ accepted = true ∧ s.Unseen := by
  cases accepted with
  | false => simp [State.sample, ResumeDetector.changed]
  | true =>
    cases hoffset : s.detector.offset with
    | none => simp [State.sample, ResumeDetector.changed, State.Unseen, hoffset]
    | some known =>
      have hknown := h known hoffset
      simp only [State.sample, ResumeDetector.changed, State.Unseen, hoffset, if_true,
        Option.any_some, decide_eq_true_eq, Option.some.injEq, exists_eq_left', true_and]
      omega

/-- What the detector knows after a sample. -/
theorem known_changed {s : State} (h : Known s) (accepted : Bool) (known : ℤ)
    (hknown : (s.detector.changed (s.sample accepted)).2.offset = some known) :
    known = s.offset ∨ 250000000 < s.offset - known := by
  cases accepted with
  | false => exact h known hknown
  | true =>
    have hsame : s.offset = known := by simpa [State.sample, ResumeDetector.changed] using hknown
    exact .inl hsame.symm

/-- A change of the offset leaves the flag as it is. -/
theorem reported_changed (d : ResumeDetector) (sample : Option ℤ) :
    (d.changed sample).2.reportedBeforeSignal = d.reportedBeforeSignal := by
  cases sample <;> rfl

/-- The effect of a poll: it announces what it sees, and nothing else is changed but what is
known. -/
theorem step_poll {s t : State} (h : Known s) {accepted : Bool}
    (hstep : s.step (.poll accepted) = some t) :
    Known t ∧ t.suspends = s.suspends ∧ t.outstanding = s.outstanding ∧
    ((accepted = true ∧ s.Unseen) ∧ t.announcements = s.announcements + 1 ∧ t.quiet = [] ∧
        t.detector.reportedBeforeSignal = true ∨
      ¬ (accepted = true ∧ s.Unseen) ∧ t.announcements = s.announcements ∧ t.quiet = s.quiet ∧
        t.detector.reportedBeforeSignal = s.detector.reportedBeforeSignal) := by
  have hknown := known_changed h accepted
  have hreported := reported_changed s.detector (s.sample accepted)
  rw [← changed_iff h accepted]
  simp only [State.step, Option.some.injEq, ResumeDetector.poll, State.report] at hstep
  subst hstep
  by_cases hchanged : (s.detector.changed (s.sample accepted)).1 = true
  · simp only [hchanged, if_true, Bool.or_true]
    exact ⟨hknown, by simp⟩
  · simp only [hchanged, Bool.or_false, hreported]
    exact ⟨hknown, by simp⟩

/-- The effect of a signal: it announces what it sees, and what no poll has announced. -/
theorem step_signal {s t : State} (h : Known s) {i : ℕ} {accepted : Bool}
    (hstep : s.step (.signal i accepted) = some t) :
    i ∈ s.outstanding ∧ Known t ∧ t.suspends = s.suspends ∧ t.outstanding = s.outstanding.erase i ∧
    t.detector.reportedBeforeSignal = false ∧
    (((accepted = true ∧ s.Unseen) ∨ s.detector.reportedBeforeSignal = false) ∧
        t.announcements = s.announcements + 1 ∧ t.quiet = [] ∨
      ¬ (accepted = true ∧ s.Unseen) ∧ s.detector.reportedBeforeSignal = true ∧
        t.announcements = s.announcements ∧ t.quiet = s.quiet) := by
  have hknown := known_changed h accepted
  have hreported := reported_changed s.detector (s.sample accepted)
  rw [← changed_iff h accepted]
  simp only [State.step, ResumeDetector.signal, State.report, hreported] at hstep
  obtain ⟨hi, hstep⟩ := Machine.guarded_eq_some.mp hstep
  subst hstep
  refine ⟨hi, ?_⟩
  by_cases hannounced : (s.detector.changed (s.sample accepted)).1 = true ∨
      s.detector.reportedBeforeSignal = false
  · have hresult : ((s.detector.changed (s.sample accepted)).1 ||
        !s.detector.reportedBeforeSignal) = true := by simpa using hannounced
    simp only [hresult, if_true]
    exact ⟨hknown, by simp [hannounced]⟩
  · have hresult : ((s.detector.changed (s.sample accepted)).1 ||
        !s.detector.reportedBeforeSignal) = false := by simpa using hannounced
    rw [not_or, Bool.not_eq_false] at hannounced
    simp only [hresult, Bool.false_eq_true, if_false]
    exact ⟨hknown, by simp [hannounced.1, hannounced.2]⟩

/-! ### Runs in which each resume is announced once -/

/-- The number of signals that will announce nothing. -/
def State.flagged (s : State) : ℕ := s.detector.reportedBeforeSignal.toNat

/-- The announcements that were made and those that the signals will make are one for each
suspend. -/
structure Balanced (s : State) : Prop where
  /-- What the detector knows is not more than one jump behind. -/
  known : Known s
  /-- The announcements add up. -/
  balance : s.announcements + s.outstanding.length = s.suspends + s.flagged
  /-- The signal that will announce nothing is of a suspend that was announced. -/
  announced : s.detector.reportedBeforeSignal = true →
    ∃ i, s.outstanding.head? = some i ∧ i ∉ s.quiet
  /-- The suspends that were not announced wait for their signals. -/
  waiting : ∀ i ∈ s.quiet, i ∈ s.outstanding
  /-- The suspends are numbered. -/
  numbered : ∀ i ∈ s.outstanding, i < s.suspends

/-- A balanced state has announced each suspend once. -/
theorem Balanced.announced_once {s : State} (h : Balanced s) : Announced s := by
  refine ⟨fun i _ hhandled hquiet => hhandled (h.waiting i hquiet), ?_⟩
  have hbalance := h.balance
  unfold State.flagged at hbalance
  cases hreported : s.detector.reportedBeforeSignal with
  | false =>
    rw [hreported, Bool.toNat_false] at hbalance
    omega
  | true =>
    obtain ⟨i, hi, -⟩ := h.announced hreported
    have hsome := List.length_pos_of_mem (List.mem_of_mem_head? hi)
    rw [hreported, Bool.toNat_true] at hbalance
    omega

/-- At first nothing has happened. -/
theorem balanced_init (offset : ℤ) : Balanced (resumes offset).init where
  known := nofun
  balance := rfl
  announced := nofun
  waiting := nofun
  numbered := nofun

/-- A suspend adds one signal that will announce it. -/
theorem Balanced.suspend {s t : State} {rise : ℤ} (h : Balanced s)
    (hstep : s.step (.suspend rise) = some t) : Balanced t := by
  obtain ⟨⟨hrise, -⟩, rfl⟩ := Machine.guarded_eq_some.mp hstep
  refine ⟨fun known hknown => ?_, ?_, fun hreported => ?_, fun i hi => ?_, fun i hi => ?_⟩
  · have hold := h.known known hknown
    exact .inr (by dsimp only; omega)
  · have hbalance := h.balance
    unfold State.flagged at hbalance
    simp only [State.flagged, List.length_append, List.length_singleton]
    omega
  · obtain ⟨i, hhead, hquiet⟩ := h.announced hreported
    have hi := h.numbered i (List.mem_of_mem_head? hhead)
    refine ⟨i, by simp [hhead], ?_⟩
    rw [List.mem_append, List.mem_singleton, not_or]
    exact ⟨hquiet, by omega⟩
  · simp only [List.mem_append, List.mem_singleton] at hi ⊢
    exact hi.imp_left (h.waiting i)
  · simp only [List.mem_append, List.mem_singleton] at hi ⊢
    obtain hi | hi := hi
    · have hold := h.numbered i hi
      omega
    · omega

/-- A poll that sees a jump announces it for the oldest signal that is outstanding. -/
theorem Balanced.poll {s t : State} {accepted : Bool} (h : Balanced s)
    (hseen : Seen s (.poll accepted)) (hstep : s.step (.poll accepted) = some t) : Balanced t := by
  obtain ⟨hknown, hsuspends, houtstanding, hreport⟩ := step_poll h.known hstep
  have hbalance := h.balance
  have hnumbered : ∀ i ∈ t.outstanding, i < t.suspends := by
    rw [houtstanding, hsuspends]
    exact h.numbered
  unfold State.flagged at hbalance
  obtain ⟨⟨haccepted, hunseen⟩, hannouncements, hquiet, hreported⟩ |
    ⟨-, hannouncements, hquiet, hreported⟩ := hreport
  · obtain ⟨hne, hclear⟩ := hseen haccepted hunseen
    obtain ⟨i, hhead⟩ := Option.ne_none_iff_exists'.mp (mt List.head?_eq_none_iff.mp hne)
    have holdest : t.outstanding.head? = some i := by rw [houtstanding, hhead]
    refine ⟨hknown, ?_, fun _ => ⟨i, holdest, by simp [hquiet]⟩, by simp [hquiet], hnumbered⟩
    rw [hclear, Bool.toNat_false] at hbalance
    simp only [State.flagged, hreported, Bool.toNat_true, hannouncements, houtstanding,
      hsuspends]
    omega
  · refine ⟨hknown, ?_, ?_, ?_, hnumbered⟩
    · simp only [State.flagged, hreported, hannouncements, houtstanding, hsuspends]
      exact hbalance
    · rw [hreported, houtstanding, hquiet]
      exact h.announced
    · rw [hquiet, houtstanding]
      exact h.waiting

/-- A signal announces its suspend, or a poll has announced it before. -/
theorem Balanced.signal {s t : State} {i : ℕ} {accepted : Bool} (h : Balanced s)
    (hsteady : Steady s (.signal i accepted)) (hstep : s.step (.signal i accepted) = some t) :
    Balanced t := by
  obtain ⟨hi, hknown, hsuspends, houtstanding, hcleared, hreport⟩ := step_signal h.known hstep
  have hbalance := h.balance
  have hlength := List.length_erase_of_mem hi
  have hpositive := List.length_pos_of_mem hi
  have hnumbered : ∀ j ∈ t.outstanding, j < t.suspends := by
    intro j hj
    rw [houtstanding] at hj
    rw [hsuspends]
    exact h.numbered j (List.mem_of_mem_erase hj)
  unfold State.flagged at hbalance
  obtain ⟨hseen, hannouncements, hquiet⟩ | ⟨-, hreported, hannouncements, hquiet⟩ := hreport
  · have hclear : s.detector.reportedBeforeSignal = false :=
      hseen.elim (fun hjump => hsteady.1 hjump.1 hjump.2) id
    refine ⟨hknown, ?_, by simp [hcleared], by simp [hquiet], hnumbered⟩
    rw [hclear, Bool.toNat_false] at hbalance
    simp only [State.flagged, hcleared, Bool.toNat_false, hannouncements, houtstanding, hsuspends]
    omega
  -- The signal is silent, and its suspend was announced by the poll that set the flag.
  · obtain ⟨j, hhead, hannounced⟩ := h.announced hreported
    have holdest : i = j := by simpa [hhead, eq_comm] using hsteady.2 hreported
    subst holdest
    refine ⟨hknown, ?_, by simp [hcleared], fun k hk => ?_, hnumbered⟩
    · rw [hreported, Bool.toNat_true] at hbalance
      simp only [State.flagged, hcleared, Bool.toNat_false, hannouncements, houtstanding,
        hsuspends]
      omega
    · rw [hquiet] at hk
      have hne : k ≠ i := fun heq => hannounced (heq ▸ hk)
      rw [houtstanding]
      exact (List.mem_erase_of_ne hne).mpr (h.waiting k hk)

/-- The step lemma of `Balanced`. -/
theorem Balanced.step {s t : State} {e : Event} (h : Balanced s) (hsteady : Steady s e)
    (hstep : s.step e = some t) : Balanced t := by
  cases e with
  | suspend rise => exact h.suspend hstep
  | poll accepted => exact h.poll hsteady.1 hstep
  | signal i accepted => exact h.signal hsteady hstep

/-! ### Announcements that are too many -/

/-- By this many announcements there will be more than suspends, at least, when all signals are
handled. -/
structure Owed (s : State) (extra : ℕ) : Prop where
  /-- What the detector knows is not more than one jump behind. -/
  known : Known s
  /-- The announcements that were made and those that will be. -/
  owed : s.suspends + s.flagged + extra ≤ s.announcements + s.outstanding.length

/-- At first nothing is owed. -/
theorem owed_init (offset : ℤ) : Owed (resumes offset).init 0 := ⟨nofun, Nat.le_refl _⟩

/-- A suspend changes no announcement. -/
theorem Owed.suspend {s t : State} {rise : ℤ} {extra : ℕ} (h : Owed s extra)
    (hstep : s.step (.suspend rise) = some t) : Owed t extra := by
  obtain ⟨⟨hrise, -⟩, rfl⟩ := Machine.guarded_eq_some.mp hstep
  refine ⟨fun known hknown => ?_, ?_⟩
  · have hold := h.known known hknown
    exact .inr (by dsimp only; omega)
  · have howed := h.owed
    unfold State.flagged at howed
    simp only [State.flagged, List.length_append, List.length_singleton]
    omega

/-- A poll that announces where the flag is set, or where no signal is outstanding, announces once
too often. -/
theorem Owed.poll {s t : State} {accepted : Bool} {extra : ℕ} (h : Owed s extra)
    (hstep : s.step (.poll accepted) = some t) :
    Owed t extra ∧ (¬ Seen s (.poll accepted) →
      Owed t (extra + 1) ∨ t.suspends + extra < t.announcements) := by
  obtain ⟨hknown, hsuspends, houtstanding, hreport⟩ := step_poll h.known hstep
  have howed := h.owed
  unfold State.flagged at howed
  obtain ⟨-, hannouncements, -, hreported⟩ | ⟨hunseen, hannouncements, -, hreported⟩ := hreport
  · have hflag := Bool.toNat_le s.detector.reportedBeforeSignal
    have hmore : t.flagged = 1 := by rw [State.flagged, hreported, Bool.toNat_true]
    refine ⟨⟨hknown, ?_⟩, fun hnot => ?_⟩
    · rw [hmore, hannouncements, houtstanding, hsuspends]
      omega
    by_cases hempty : s.outstanding = []
    · rw [hempty, List.length_nil] at howed
      exact .inr (by rw [hannouncements, hsuspends]; omega)
    -- The flag was set before, so this announcement is another one.
    · have hset : s.detector.reportedBeforeSignal = true := by
        by_contra hclear
        exact hnot fun _ _ => ⟨hempty, by simpa using hclear⟩
      rw [hset, Bool.toNat_true] at howed
      exact .inl ⟨hknown, by rw [hmore, hannouncements, houtstanding, hsuspends]; omega⟩
  · refine ⟨⟨hknown, ?_⟩, fun hnot => absurd (fun ha hu => absurd ⟨ha, hu⟩ hunseen) hnot⟩
    rw [State.flagged, hreported, hannouncements, houtstanding, hsuspends]
    exact howed

/-- A signal that announces where the flag is set announces once too often. -/
theorem Owed.signal {s t : State} {i : ℕ} {accepted : Bool} {extra : ℕ} (h : Owed s extra)
    (hstep : s.step (.signal i accepted) = some t) :
    Owed t extra ∧ (¬ Seen s (.signal i accepted) → Owed t (extra + 1)) := by
  obtain ⟨hi, hknown, hsuspends, houtstanding, hcleared, hreport⟩ := step_signal h.known hstep
  have howed := h.owed
  have hlength := List.length_erase_of_mem hi
  have hpositive := List.length_pos_of_mem hi
  have hflag := Bool.toNat_le s.detector.reportedBeforeSignal
  have hzero : t.flagged = 0 := by rw [State.flagged, hcleared, Bool.toNat_false]
  unfold State.flagged at howed
  obtain ⟨-, hannouncements, -⟩ | ⟨hunseen, hreported, hannouncements, -⟩ := hreport
  · refine ⟨⟨hknown, ?_⟩, fun hnot => ⟨hknown, ?_⟩⟩
    · rw [hzero, hannouncements, houtstanding, hsuspends]
      omega
    · have hset : s.detector.reportedBeforeSignal = true := by
        by_contra hclear
        exact hnot fun _ _ => by simpa using hclear
      rw [hset, Bool.toNat_true] at howed
      rw [hzero, hannouncements, houtstanding, hsuspends]
      omega
  · refine ⟨⟨hknown, ?_⟩, fun hnot => absurd (fun ha hu => absurd ⟨ha, hu⟩ hunseen) hnot⟩
    rw [hreported, Bool.toNat_true] at howed
    rw [hzero, hannouncements, houtstanding, hsuspends]
    omega

/-- No step takes back an announcement that is too many, and one that sees a jump where it should
not makes one. -/
theorem Owed.step {s t : State} {e : Event} {extra : ℕ} (h : Owed s extra)
    (hstep : s.step e = some t) :
    Owed t extra ∧ (¬ Seen s e → Owed t (extra + 1) ∨ t.suspends + extra < t.announcements) := by
  cases e with
  | suspend rise => exact ⟨h.suspend hstep, fun hnot => absurd trivial hnot⟩
  | poll accepted => exact h.poll hstep
  | signal i accepted => exact ⟨(h.signal hstep).1, fun hnot => .inl ((h.signal hstep).2 hnot)⟩

/-- Where there is never an announcement too many, and all signals are handled in the end, no sample
saw a jump where it should not. -/
theorem stepsMeet_seen {offset : ℤ} {s t : State} {es : List Event} (h : Owed s 0)
    (hrun : (resumes offset).run s es = some t) (hcomplete : t.outstanding = [])
    (hfew : ∀ before u, before <+: es → (resumes offset).run s before = some u →
      u.announcements ≤ u.suspends) : (resumes offset).StepsMeet Seen s es := by
  induction es generalizing s with
  | nil => trivial
  | cons e rest ih =>
    obtain ⟨next, hstep, hrest⟩ := (resumes offset).run_cons_eq_some.mp hrun
    obtain ⟨hnext, hextra⟩ := h.step hstep
    refine ⟨?_, fun s' hs' => ?_⟩
    · by_contra hnot
      obtain hmore | hmany := hextra hnot
      -- The announcement that is too many stays to the end.
      · have hend : Owed t 1 := Machine.invariant_of_run (P := fun u => Owed u 1)
          (fun _ _ _ hu hu' => (hu.step hu').1) hmore hrest
        have hlast := hfew (e :: rest) t (List.prefix_refl _) hrun
        have howed := hend.owed
        rw [hcomplete, List.length_nil] at howed
        omega
      · have hfirst := hfew [e] next ⟨rest, rfl⟩
          ((resumes offset).run_cons_eq_some.mpr ⟨next, hstep, rfl⟩)
        omega
    · obtain rfl : next = s' := Option.some.inj (hstep.symm.trans hs')
      refine ih hnext hrest fun before u hbefore hu => ?_
      obtain ⟨after, rfl⟩ := hbefore
      exact hfew (e :: before) u ⟨after, rfl⟩
        ((resumes offset).run_cons_eq_some.mpr ⟨next, hstep, hu⟩)

/-- In a run in which no sample sees a jump while a resume that a poll has announced waits for its
signal, or by a poll after all signals, and in which the announced signal is that of the oldest
suspend, each resume is announced once. In a run that handles all signals in the end and in which
each resume is announced once, no sample sees a jump so. -/
theorem resumes_announced_once (offset : ℤ) (es : List Event) (s : State)
    (hrun : (resumes offset).run (resumes offset).init es = some s) :
    ((resumes offset).StepsMeet Steady (resumes offset).init es → Announced s) ∧
    (s.outstanding = [] →
      (∀ before u, before <+: es → (resumes offset).run (resumes offset).init before = some u →
        Announced u) →
      (resumes offset).StepsMeet Seen (resumes offset).init es) := by
  constructor
  · intro hsteady
    have hbalanced : Balanced s := Machine.invariant_of_stepsMeet
      (fun _ _ _ h hC hstep => h.step hC hstep) (balanced_init offset) hsteady hrun
    exact hbalanced.announced_once
  · intro hcomplete hannounced
    exact stepsMeet_seen (owed_init offset) hrun hcomplete
      fun before u hbefore hu => (hannounced before u hbefore hu).few

/-- A resume that a poll announces before its signal, and one that its signal announces. -/
theorem resumes_announced_once_two :
    ∃ s, (resumes 0).run (resumes 0).init [.poll true, .suspend 5000000000, .poll true,
      .signal 0 false, .suspend 5000000000, .signal 1 true] = some s ∧
      s.announcements = 2 ∧ Announced s := by
  have hsteady : (resumes 0).StepsMeet Steady (resumes 0).init [.poll true, .suspend 5000000000,
      .poll true, .signal 0 false, .suspend 5000000000, .signal 1 true] := by
    refine Machine.stepsMeet_cons (by decide) rfl ?_
    refine Machine.stepsMeet_cons (by decide) rfl ?_
    refine Machine.stepsMeet_cons (by decide) rfl ?_
    refine Machine.stepsMeet_cons (by decide) rfl ?_
    refine Machine.stepsMeet_cons (by decide) rfl ?_
    exact Machine.stepsMeet_cons (by decide) rfl trivial
  exact ⟨_, rfl, rfl, (resumes_announced_once 0 _ _ rfl).1 hsteady⟩

/-- A signal that is handled with a rejected sample announces its resume, and the next poll
announces it again. -/
theorem announced_twice : ¬ ∀ (offset : ℤ) (es : List Event) (s : State),
    (resumes offset).run (resumes offset).init es = some s → Announced s := by
  intro hannounced
  have hfew := (hannounced 0
    [.poll true, .suspend 5000000000, .signal 0 false, .poll true] _ rfl).few
  revert hfew
  decide

end DaemonFramework.Resume
