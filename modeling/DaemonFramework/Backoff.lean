import DaemonFramework.Machine
import Mathlib.Algebra.Group.Nat.Defs

/-!
# The watch backoff

`WatchBackoff` of `shelllist-daemon-core/src/watch.rs`, with instants and durations in nanoseconds.
A caller starts a watcher and reports its failure only when the backoff is ready, at times that do
not go back: `Paced` is this discipline.

The delay doubles up to half a minute, and a watcher that was healthy for a minute takes it back to
a second. `credit` is how many seconds a delay may be ahead of a failure every 15 seconds: each
failure pays 15 seconds, by its delay, by the health that was before it, or from the credit.
-/

namespace DaemonFramework

/-- A second. -/
def second : ℕ := 1000000000

/-- `WatchBackoff`. -/
structure WatchBackoff where
  /-- When the next attempt may be made. -/
  retryAt : ℕ
  /-- The delay behind the next failure. -/
  delay : ℕ
  /-- When the watcher was started, if it has not failed since. -/
  healthySince : Option ℕ
deriving DecidableEq

namespace WatchBackoff

/-- `new`. -/
def new (now : ℕ) : WatchBackoff := ⟨now, second, none⟩

/-- `deadline`. -/
def deadline (s : WatchBackoff) : ℕ := s.retryAt

/-- `ready`. -/
def ready (s : WatchBackoff) (now : ℕ) : Bool := s.retryAt ≤ now

/-- `started`. -/
def started (s : WatchBackoff) (now : ℕ) : WatchBackoff := { s with healthySince := some now }

/-- Whether the watcher has been healthy long enough to take the delay back. -/
def recovered (s : WatchBackoff) (now : ℕ) : Bool :=
  s.healthySince.any fun start => 60 * second ≤ now - start

/-- `failed`. -/
def failed (s : WatchBackoff) (now : ℕ) : WatchBackoff :=
  let delay := if s.recovered now then second else s.delay
  { healthySince := none
    retryAt := now + delay
    delay := min (delay * 2) (30 * second) }

/-- What a caller reports. -/
inductive Report where
  | started (now : ℕ)
  | failed (now : ℕ)
deriving DecidableEq

/-- Whether a failure is reported. -/
def Report.isFailure : Report → Bool
  | .started _ => false
  | .failed _ => true

/-- A backoff that was made at some time, and its reports. -/
def machine (now : ℕ) : Machine WatchBackoff Report where
  init := new now
  step s
    | .started now => some (s.started now)
    | .failed now => some (s.failed now)

/-- A report comes when the backoff is ready. -/
def Paced (s : WatchBackoff) : Report → Prop
  | .started now | .failed now => s.ready now = true

/-- The seconds that a delay may be ahead. -/
def credit (delay : ℕ) : ℕ :=
  if delay = second then 0
  else if delay = 2 * second then 14 * second
  else if delay = 4 * second then 27 * second
  else if delay = 8 * second then 38 * second
  else 45 * second

/-- The delays that there are, and when a started watcher was started. -/
structure Valid (s : WatchBackoff) : Prop where
  /-- The delay is a power of two or half a minute. -/
  delay : s.delay ∈ [second, 2 * second, 4 * second, 8 * second, 16 * second, 30 * second]
  /-- A watcher was started when the backoff was ready. -/
  healthySince : ∀ start ∈ s.healthySince, s.retryAt ≤ start

variable {s t : WatchBackoff} {now : ℕ}

/-- The initial backoff. -/
theorem valid_new (now : ℕ) : Valid (new now) := ⟨by simp [new], nofun⟩

/-- A delay behind a failure is again one that there is. -/
theorem valid_failed (h : Valid s) (now : ℕ) : Valid (s.failed now) := by
  refine ⟨?_, nofun⟩
  have hdelay := h.delay
  simp only [List.mem_cons, List.not_mem_nil, or_false] at hdelay ⊢
  unfold failed second at *
  dsimp only
  split_ifs <;> omega

/-- Every paced report keeps the backoff valid. -/
theorem valid_of_step {report : Report} (h : Valid s) (hpaced : Paced s report)
    (hstep : (machine now).step s report = some t) : Valid t := by
  cases report with
  | started time =>
    obtain rfl := Option.some.inj hstep
    refine ⟨h.delay, fun start hstart => ?_⟩
    obtain rfl := Option.some.inj hstart
    exact of_decide_eq_true hpaced
  | failed time =>
    obtain rfl := Option.some.inj hstep
    exact valid_failed h time

/-- A failure moves the deadline on by 15 seconds, or the credit grows by what it falls short. -/
theorem retryAt_failed (h : Valid s) {now : ℕ} (hpaced : Paced s (.failed now)) :
    s.retryAt + 15 * second + credit s.delay ≤
      (s.failed now).retryAt + credit (s.failed now).delay := by
  have hready : s.retryAt ≤ now := of_decide_eq_true hpaced
  -- A recovered watcher was started when the backoff was ready, a minute ago at least.
  have hrecovered : s.recovered now = true → s.retryAt + 60 * second ≤ now := by
    intro hrecovered
    obtain ⟨start, hsome, hlong⟩ := (Option.any_eq_true _ _).1 hrecovered
    have hbegin := h.healthySince start hsome
    have hlong : 60 * second ≤ now - start := of_decide_eq_true hlong
    unfold second at *
    omega
  have hdelay := h.delay
  simp only [List.mem_cons, List.not_mem_nil, or_false] at hdelay
  have hcredits : credit second = 0 ∧ credit (2 * second) = 14 * second ∧
      credit (4 * second) = 27 * second ∧ credit (8 * second) = 38 * second ∧
      credit (16 * second) = 45 * second ∧ credit (30 * second) = 45 * second := by decide
  obtain ⟨hone, htwo, hfour, height, hsixteen, hthirty⟩ := hcredits
  have hnext : ∀ d d', min (d * 2) (30 * second) = d' →
      credit (min (d * 2) (30 * second)) = credit d' := fun d d' heq => by rw [heq]
  unfold failed
  dsimp only
  split_ifs with hlong
  · have hwait := hrecovered hlong
    rw [hnext second (2 * second) (by decide), htwo]
    rcases hdelay with h | h | h | h | h | h <;> rw [h] <;> unfold second at * <;> omega
  · rcases hdelay with h | h | h | h | h | h <;> rw [h]
    · rw [hnext _ (2 * second) (by decide)]; unfold second at *; omega
    · rw [hnext _ (4 * second) (by decide)]; unfold second at *; omega
    · rw [hnext _ (8 * second) (by decide)]; unfold second at *; omega
    · rw [hnext _ (16 * second) (by decide)]; unfold second at *; omega
    · rw [hnext _ (30 * second) (by decide)]; unfold second at *; omega
    · rw [hnext _ (30 * second) (by decide)]; unfold second at *; omega

/-- Paced reports move the deadline on by 15 seconds a failure, but for the credit. -/
theorem retryAt_of_run {reports : List Report} (h : Valid s)
    (hpaced : (machine now).StepsMeet Paced s reports)
    (hrun : (machine now).run s reports = some t) :
    Valid t ∧ s.retryAt + 15 * second * reports.countP Report.isFailure + credit s.delay ≤
      t.retryAt + credit t.delay := by
  induction reports generalizing s with
  | nil =>
    obtain rfl : s = t := by simpa using hrun
    exact ⟨h, by simp⟩
  | cons report reports ih =>
    obtain ⟨u, hstep, hrest⟩ := (machine now).run_cons_eq_some.1 hrun
    obtain ⟨hvalid, htail⟩ := ih (valid_of_step h hpaced.1 hstep) (hpaced.2 u hstep) hrest
    refine ⟨hvalid, ?_⟩
    -- One report: only a failure moves the deadline.
    have hhead : s.retryAt + 15 * second * (report.isFailure).toNat + credit s.delay ≤
        u.retryAt + credit u.delay := by
      cases report with
      | started start =>
        obtain rfl := Option.some.inj hstep
        simp [started, Report.isFailure]
      | failed time =>
        obtain rfl := Option.some.inj hstep
        have hfailed := retryAt_failed h hpaced.1
        simpa [Report.isFailure] using hfailed
    -- The failures of the whole run are this one and those behind it.
    have hcount : (report :: reports).countP Report.isFailure =
        reports.countP Report.isFailure + (report.isFailure).toNat := by
      rw [List.countP_cons]
      cases report <;> rfl
    rw [hcount, Nat.mul_add]
    omega

/-- A failure of a watcher that has not been healthy for a minute doubles the delay. -/
theorem delay_of_run {reports : List Report} (h : Valid s)
    (hpaced : (machine now).StepsMeet Paced s reports)
    (hsick : (machine now).StepsMeet
      (fun s report => ∀ time, report = .failed time → s.recovered time = false) s reports)
    (hrun : (machine now).run s reports = some t) :
    t.delay = min (s.delay * 2 ^ reports.countP Report.isFailure) (30 * second) := by
  have hbound : ∀ {s : WatchBackoff}, Valid s → s.delay ≤ 30 * second := by
    intro s h
    have hdelay := h.delay
    simp only [List.mem_cons, List.not_mem_nil, or_false] at hdelay
    omega
  induction reports generalizing s with
  | nil =>
    obtain rfl : s = t := by simpa using hrun
    simp [Nat.min_eq_left (hbound h)]
  | cons report reports ih =>
    obtain ⟨u, hstep, hrest⟩ := (machine now).run_cons_eq_some.1 hrun
    have htail := ih (valid_of_step h hpaced.1 hstep) (hpaced.2 u hstep) (hsick.2 u hstep) hrest
    cases report with
    | started start =>
      obtain rfl := Option.some.inj hstep
      simpa [List.countP_cons, Report.isFailure, started] using htail
    | failed time =>
      have hnot := hsick.1 time rfl
      obtain rfl := Option.some.inj hstep
      have hdouble : (s.failed time).delay = min (s.delay * 2) (30 * second) := by
        simp [failed, hnot]
      have hcount : (Report.failed time :: reports).countP Report.isFailure =
          reports.countP Report.isFailure + 1 := List.countP_cons_of_pos rfl
      have hpow : 1 ≤ 2 ^ reports.countP Report.isFailure := Nat.one_le_two_pow
      rw [htail, hdouble, hcount, Nat.pow_succ']
      generalize 2 ^ reports.countP Report.isFailure = k at hpow
      -- Past half a minute, doubling on changes nothing.
      rcases Nat.le_total (s.delay * 2) (30 * second) with hle | hle
      · rw [Nat.min_eq_left hle, Nat.mul_assoc]
      · have hlong : 30 * second * 1 ≤ 30 * second * k := Nat.mul_le_mul_left _ hpow
        have hlong' : 30 * second * k ≤ s.delay * 2 * k := Nat.mul_le_mul_right _ hle
        rw [Nat.min_eq_right hle, ← Nat.mul_assoc]
        omega

/-- Recovery is rate-limited. For reports that come when the backoff is ready, between any two
points of a run with `n` failures between them the deadline moves on by 15 seconds a failure, less
45 seconds at most. As long as no watcher is healthy for a minute, each failure doubles the delay,
up to half a minute; starting a watcher takes nothing back. -/
theorem recovery_rate_limited (now : ℕ) (before after : List Report) (s t : WatchBackoff)
    (hbefore : (machine now).run (machine now).init before = some s)
    (hpacedBefore : (machine now).StepsMeet Paced (machine now).init before)
    (hafter : (machine now).run s after = some t)
    (hpacedAfter : (machine now).StepsMeet Paced s after) :
    s.deadline + 15 * second * after.countP Report.isFailure ≤ t.deadline + 45 * second ∧
      ((machine now).StepsMeet
          (fun s report => ∀ time, report = .failed time → s.recovered time = false) s after →
        t.delay = min (s.delay * 2 ^ after.countP Report.isFailure) (30 * second)) := by
  obtain ⟨hs, -⟩ := retryAt_of_run (valid_new now) hpacedBefore hbefore
  obtain ⟨ht, hrate⟩ := retryAt_of_run hs hpacedAfter hafter
  refine ⟨?_, fun hsick => delay_of_run hs hpacedAfter hsick hafter⟩
  have hcredit : credit t.delay ≤ 45 * second := by
    unfold credit
    split_ifs <;> unfold second <;> omega
  unfold deadline
  omega

/-- Two failures in a row. -/
theorem recovery_rate_limited_twice :
    (new 0).deadline + 15 * second * 2 ≤
      ((new 0).failed 0 |>.failed second).deadline + 45 * second := by
  have hafter : (machine 0).run (new 0) [.failed 0, .failed second] =
      some ((new 0).failed 0 |>.failed second) := rfl
  refine (recovery_rate_limited 0 [] [.failed 0, .failed second] (new 0) _ rfl trivial hafter ?_).1
  have hready : (new 0).ready 0 = true := by decide
  have hready' : ((new 0).failed 0).ready second = true := by decide
  exact Machine.stepsMeet_cons hready rfl (Machine.stepsMeet_cons hready' rfl trivial)

end WatchBackoff

end DaemonFramework
