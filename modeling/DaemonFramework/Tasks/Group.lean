import DaemonFramework.Machine
import Mathlib.Data.List.Basic
import Mathlib.Logic.Function.Basic

/-!
# Groups of workers

`TaskGroup` of `shelllist-daemon-tokio/src/task.rs` with the workers that it has admitted, numbered
in the order of their admission, and the calls of `shutdown`, numbered in the order of theirs. A
worker ends by itself, or with its cleanup after it was aborted. A call holds the lock to close the
group and to take its handles. It aborts what it took, waits for one worker after the other, and can
be dropped while it waits.

`Covers` says that a call will not return before the workers have ended. It holds of a call that
takes the handles of all workers that have not (`Held`), and it is kept by every step
(`Covers.step`). Where some handle was taken by a call before, a call can return without having
waited for its worker (`exists_return`), so `Held` is the exact condition.
-/

namespace DaemonFramework.Tasks.Group

/-- Where a call of `shutdown` is. -/
inductive Call where
  /-- It has taken the handles. -/
  | taken (handles : List ℕ)
  /-- It has aborted the workers and waits for those that are left. -/
  | joining (handles : List ℕ)
  /-- It has returned. -/
  | returned
  /-- It was dropped while it waited. -/
  | abandoned
deriving DecidableEq

/-- `TaskGroup`, its workers and its calls. -/
structure TaskGroup where
  /-- No worker is admitted any more. -/
  closed : Bool
  /-- The handles in the group. -/
  handles : List ℕ
  /-- The number of workers that were admitted. -/
  admitted : ℕ
  /-- The workers that were aborted. -/
  aborted : ℕ → Bool
  /-- The workers that have ended, with their cleanup. -/
  finished : ℕ → Bool
  /-- The number of calls of `shutdown`. -/
  started : ℕ
  /-- The calls. -/
  calls : ℕ → Option Call

/-- What happens. -/
inductive Label where
  /-- `TaskGroup::spawn` -/
  | spawn
  /-- `TaskGroup::abort` -/
  | abort
  /-- A worker ends by itself. -/
  | complete (worker : ℕ)
  /-- A worker that was aborted ends with its cleanup. -/
  | cancelled (worker : ℕ)
  /-- `TaskGroup::shutdown` closes the group and takes its handles. -/
  | shutdown
  /-- A call aborts the workers whose handles it took. -/
  | abortTaken (call : ℕ)
  /-- A call goes on to the next handle, whose worker has ended. -/
  | join (call : ℕ)
  /-- A call returns. -/
  | ret (call : ℕ)
  /-- A call is dropped while it waits. -/
  | abandon (call : ℕ)

namespace TaskGroup

/-- A fresh group. -/
def empty : TaskGroup := ⟨false, [], 0, fun _ => false, fun _ => false, 0, fun _ => none⟩

/-- `TaskGroup::spawn` -/
def spawn (g : TaskGroup) : TaskGroup :=
  if g.closed then g
  else
    { g with
      handles := g.handles.filter (fun w => !g.finished w) ++ [g.admitted]
      admitted := g.admitted + 1 }

/-- The handles are aborted. -/
def abortAll (g : TaskGroup) (handles : List ℕ) : TaskGroup :=
  { g with aborted := fun w => g.aborted w || w ∈ handles }

/-- `TaskGroup::abort` -/
def abort (g : TaskGroup) : TaskGroup := { g with closed := true }.abortAll g.handles

/-- A worker has ended. -/
def finish (g : TaskGroup) (worker : ℕ) : TaskGroup :=
  { g with finished := Function.update g.finished worker true }

/-- The lock is held by `TaskGroup::shutdown`. -/
def take (g : TaskGroup) : TaskGroup :=
  { g with
    closed := true
    handles := []
    started := g.started + 1
    calls := Function.update g.calls g.started (some (.taken g.handles)) }

/-- A call goes on. -/
def setCall (g : TaskGroup) (call : ℕ) (next : Call) : TaskGroup :=
  { g with calls := Function.update g.calls call (some next) }

/-- One step. -/
def step (g : TaskGroup) : Label → Option TaskGroup
  | .spawn => some g.spawn
  | .abort => some g.abort
  | .complete w => if w < g.admitted ∧ g.finished w = false then some (g.finish w) else none
  | .cancelled w =>
    if (w < g.admitted ∧ g.finished w = false) ∧ g.aborted w = true then some (g.finish w) else none
  | .shutdown => some g.take
  | .abortTaken k =>
    match g.calls k with
    | some (.taken handles) => some ((g.abortAll handles).setCall k (.joining handles))
    | _ => none
  | .join k =>
    match g.calls k with
    | some (.joining (w :: rest)) => if g.finished w then some (g.setCall k (.joining rest)) else none
    | _ => none
  | .ret k =>
    match g.calls k with
    | some (.joining []) => some (g.setCall k .returned)
    | _ => none
  | .abandon k =>
    match g.calls k with
    | some (.joining _) => some (g.setCall k .abandoned)
    | _ => none

/-- All workers have ended. -/
def Finished (g : TaskGroup) : Prop := ∀ w < g.admitted, g.finished w = true

/-- The group has the handles of all workers that have not ended. -/
def Held (g : TaskGroup) : Prop := ∀ w < g.admitted, g.finished w = false → w ∈ g.handles

end TaskGroup

/-- A group and what happens around it. -/
def taskGroup : Machine TaskGroup Label := ⟨.empty, TaskGroup.step⟩

/-! ### Steps of a call -/

/-- A call that aborts what it took goes on to wait for it. -/
theorem step_abortTaken {g g' : TaskGroup} {k : ℕ} (hstep : g.step (.abortTaken k) = some g') :
    ∃ handles, g.calls k = some (.taken handles) ∧
      g' = (g.abortAll handles).setCall k (.joining handles) := by
  simp only [TaskGroup.step] at hstep
  split at hstep
  · rename_i handles hplace
    exact ⟨handles, hplace, (Option.some.inj hstep).symm⟩
  · cases hstep

/-- A call that goes on to the next handle has seen the worker of this one end. -/
theorem step_join {g g' : TaskGroup} {k : ℕ} (hstep : g.step (.join k) = some g') :
    ∃ w rest, g.calls k = some (.joining (w :: rest)) ∧ g.finished w = true ∧
      g' = g.setCall k (.joining rest) := by
  simp only [TaskGroup.step] at hstep
  split at hstep
  · rename_i w rest hplace
    obtain ⟨hended, rfl⟩ := Machine.guarded_eq_some.mp hstep
    exact ⟨w, rest, hplace, hended, rfl⟩
  · cases hstep

/-- A call that returns has no handle left. -/
theorem step_ret {g g' : TaskGroup} {k : ℕ} (hstep : g.step (.ret k) = some g') :
    g.calls k = some (.joining []) ∧ g' = g.setCall k .returned := by
  simp only [TaskGroup.step] at hstep
  split at hstep
  · rename_i hplace
    exact ⟨hplace, (Option.some.inj hstep).symm⟩
  · cases hstep

/-- A call that is dropped does nothing else. -/
theorem step_abandon {g g' : TaskGroup} {k : ℕ} (hstep : g.step (.abandon k) = some g') :
    g' = g.setCall k .abandoned := by
  simp only [TaskGroup.step] at hstep
  split at hstep
  · exact (Option.some.inj hstep).symm
  · cases hstep

/-! ### Calls that wait for all workers -/

/-- A call will not return before all workers have ended. -/
structure Covers (g : TaskGroup) (call : ℕ) : Prop where
  /-- No worker is admitted any more. -/
  closed : g.closed = true
  /-- The call was made. -/
  made : call < g.started
  /-- It has the handles of the workers that have not ended. -/
  handles : ∀ handles, g.calls call = some (.taken handles) ∨ g.calls call = some (.joining handles) →
    ∀ w < g.admitted, g.finished w = false → w ∈ handles
  /-- It has returned only after all. -/
  returned : g.calls call = some .returned → g.Finished

/-- Taking a held group covers what it has started. -/
theorem covers_take {g : TaskGroup} (h : g.Held) : Covers g.take g.started where
  closed := rfl
  made := Nat.lt_succ_self _
  handles := by
    intro handles hcall w hw hrunning
    have hsome : g.take.calls g.started = some (.taken g.handles) := Function.update_self ..
    rw [hsome] at hcall
    obtain hcall | hcall := hcall
    · cases hcall
      exact h w hw hrunning
    · cases hcall
  returned := by
    intro hcall
    have hsome : g.take.calls g.started = some (.taken g.handles) := Function.update_self ..
    rw [hsome] at hcall
    cases hcall

/-- A call is as covered as before if it is where it was, and no worker is new. -/
theorem Covers.frame {g g' : TaskGroup} {k : ℕ} (h : Covers g k) (hclosed : g'.closed = true)
    (hmade : g.started ≤ g'.started) (hcall : g'.calls k = g.calls k)
    (hadmitted : g'.admitted = g.admitted)
    (hfinished : ∀ w, g.finished w = true → g'.finished w = true) : Covers g' k := by
  have hrunning : ∀ w, g'.finished w = false → g.finished w = false := fun w hw => by
    by_contra hended
    rw [hfinished w (by simpa using hended)] at hw
    cases hw
  refine ⟨hclosed, Nat.lt_of_lt_of_le h.made hmade, fun handles hplace w hw hw' => ?_,
    fun hreturned w hw => ?_⟩
  · rw [hcall] at hplace
    exact h.handles handles hplace w (hadmitted ▸ hw) (hrunning w hw')
  · rw [hcall] at hreturned
    exact hfinished w (h.returned hreturned w (hadmitted ▸ hw))

/-- Another call goes on, or this one with what it still has to wait for. -/
theorem Covers.setCall {g : TaskGroup} {k j : ℕ} {next : Call} (h : Covers g k)
    (hnext : j = k →
      (∀ handles, next = .taken handles ∨ next = .joining handles →
        ∀ w < g.admitted, g.finished w = false → w ∈ handles) ∧
      (next = .returned → g.Finished)) : Covers (g.setCall j next) k := by
  by_cases hjk : j = k
  · subst hjk
    obtain ⟨hhandles, hreturned⟩ := hnext rfl
    have hcall : (g.setCall j next).calls j = some next := Function.update_self ..
    refine ⟨h.closed, h.made, fun handles hplace => ?_, fun hplace => ?_⟩
    · rw [hcall, Option.some.injEq, Option.some.injEq] at hplace
      exact hhandles handles hplace
    · rw [hcall, Option.some.injEq] at hplace
      exact hreturned hplace
  · have hcall : (g.setCall j next).calls k = g.calls k := Function.update_of_ne (Ne.symm hjk) ..
    exact h.frame h.closed (Nat.le_refl _) hcall rfl fun _ hw => hw

/-- A worker that has finished stays finished. -/
theorem finish_mono (g : TaskGroup) (worker w : ℕ) (hw : g.finished w = true) :
    (g.finish worker).finished w = true := by
  by_cases heq : w = worker
  · rw [heq]
    exact Function.update_self ..
  · have hsame : (g.finish worker).finished w = g.finished w := Function.update_of_ne heq ..
    rw [hsame, hw]

/-- The step lemma of `Covers`. -/
theorem Covers.step {g g' : TaskGroup} {k : ℕ} {e : Label} (h : Covers g k)
    (hstep : g.step e = some g') : Covers g' k := by
  cases e with
  | spawn =>
    obtain rfl := Option.some.inj hstep
    rw [TaskGroup.spawn, if_pos h.closed]
    exact h
  | abort =>
    obtain rfl := Option.some.inj hstep
    exact h.frame rfl (Nat.le_refl _) rfl rfl fun _ hw => hw
  | complete w =>
    obtain ⟨-, rfl⟩ := Machine.guarded_eq_some.mp hstep
    exact h.frame h.closed (Nat.le_refl _) rfl rfl (finish_mono g w)
  | cancelled w =>
    obtain ⟨-, rfl⟩ := Machine.guarded_eq_some.mp hstep
    exact h.frame h.closed (Nat.le_refl _) rfl rfl (finish_mono g w)
  | shutdown =>
    obtain rfl := Option.some.inj hstep
    have hcall : g.take.calls k = g.calls k := Function.update_of_ne (Nat.ne_of_lt h.made) ..
    exact h.frame rfl (Nat.le_succ _) hcall rfl fun _ hw => hw
  | abortTaken j =>
    obtain ⟨handles, hplace, rfl⟩ := step_abortTaken hstep
    have hsame : Covers (g.abortAll handles) k :=
      h.frame h.closed (Nat.le_refl _) rfl rfl fun _ hw => hw
    refine hsame.setCall ?_
    rintro rfl
    -- What it waits for is what it took.
    refine ⟨fun handles' hnext => ?_, nofun⟩
    obtain rfl : handles = handles' := by simpa using hnext
    exact h.handles handles (.inl hplace)
  | join j =>
    obtain ⟨w, rest, hplace, hended, rfl⟩ := step_join hstep
    refine h.setCall ?_
    rintro rfl
    refine ⟨fun handles' hnext v hv hrunning => ?_, nofun⟩
    obtain rfl : rest = handles' := by simpa using hnext
    -- The worker that was waited for has ended, so it is another one.
    have hne : v ≠ w := by
      rintro rfl
      exact absurd (hended.symm.trans hrunning) (by decide)
    exact (List.mem_cons.mp (h.handles _ (.inr hplace) v hv hrunning)).resolve_left hne
  | ret j =>
    obtain ⟨hplace, rfl⟩ := step_ret hstep
    refine h.setCall ?_
    rintro rfl
    refine ⟨by simp, fun _ w hw => ?_⟩
    by_contra hrunning
    have hleft := h.handles [] (.inr hplace) w hw (by simpa using hrunning)
    exact absurd hleft List.not_mem_nil
  | abandon j =>
    obtain rfl := step_abandon hstep
    exact h.setCall fun _ => ⟨by simp, nofun⟩

/-- A call that takes the handles of all workers that have not ended returns after all workers. -/
theorem finished_of_held {g g' g'' : TaskGroup} {labels : List Label} (h : g.Held)
    (hrun : taskGroup.run g (.shutdown :: labels) = some g')
    (hreturn : taskGroup.step g' (.ret g.started) = some g'') : g''.Finished := by
  obtain ⟨taken, htake, hrest⟩ := taskGroup.run_cons_eq_some.mp hrun
  obtain rfl := Option.some.inj htake
  have hcovers : Covers g' g.started :=
    Machine.invariant_of_run (P := fun g' => Covers g' g.started) (fun _ _ _ hc hs => hc.step hs)
      (covers_take h) hrest
  have hafter : Covers g'' g.started := hcovers.step (e := .ret g.started) hreturn
  obtain ⟨-, rfl⟩ := step_ret hreturn
  exact hafter.returned (Function.update_self ..)

/-! ### Calls that return too early -/

/-- A call can go through its handles without the end of any other worker. -/
theorem exists_joined {g : TaskGroup} {k v : ℕ} {handles : List ℕ}
    (hplace : g.calls k = some (.joining handles)) (hknown : ∀ w ∈ handles, w < g.admitted)
    (hv : v ∉ handles) (hrunning : g.finished v = false) :
    ∃ labels g', taskGroup.run g labels = some g' ∧ g'.calls k = some (.joining []) ∧
      g'.finished v = false ∧ g'.admitted = g.admitted := by
  induction handles generalizing g with
  | nil => exact ⟨[], g, rfl, hplace, hrunning, rfl⟩
  | cons w rest ih =>
    obtain ⟨hne, hrest⟩ : v ≠ w ∧ v ∉ rest := by simpa using hv
    -- Once the worker has ended, the call goes on to the rest.
    have hjoin : ∀ g₁ : TaskGroup, g₁.calls k = some (.joining (w :: rest)) →
        g₁.finished w = true → g₁.finished v = false → g₁.admitted = g.admitted →
        ∃ labels g', taskGroup.run g₁ labels = some g' ∧ g'.calls k = some (.joining []) ∧
          g'.finished v = false ∧ g'.admitted = g.admitted := by
      intro g₁ hplace₁ hended hrunning₁ hadmitted₁
      have hstep : taskGroup.step g₁ (.join k) = some (g₁.setCall k (.joining rest)) := by
        simp [taskGroup, TaskGroup.step, hplace₁, hended]
      have hknown₁ : ∀ u ∈ rest, u < (g₁.setCall k (.joining rest)).admitted := fun u hu => by
        have hu' := hknown u (List.mem_cons_of_mem _ hu)
        rw [← hadmitted₁] at hu'
        exact hu'
      obtain ⟨labels, g', hrun, hcall, hstill, hadmitted⟩ :=
        ih (g := g₁.setCall k (.joining rest)) (Function.update_self ..) hknown₁ hrest hrunning₁
      exact ⟨.join k :: labels, g', taskGroup.run_cons_eq_some.mpr ⟨_, hstep, hrun⟩, hcall, hstill,
        hadmitted.trans hadmitted₁⟩
    cases hended : g.finished w with
    | true => exact hjoin g hplace hended hrunning rfl
    | false =>
      have hw : w < g.admitted := hknown w List.mem_cons_self
      have hstep : taskGroup.step g (.complete w) = some (g.finish w) := by
        simp [taskGroup, TaskGroup.step, hw, hended]
      have hstill : (g.finish w).finished v = false :=
        (Function.update_of_ne hne ..).trans hrunning
      obtain ⟨labels, g', hrun, hrest'⟩ :=
        hjoin (g.finish w) hplace (Function.update_self ..) hstill rfl
      exact ⟨.complete w :: labels, g', taskGroup.run_cons_eq_some.mpr ⟨_, hstep, hrun⟩, hrest'⟩

/-- A call that does not take the handles of all workers that have not ended can return before
them. -/
theorem exists_return {g : TaskGroup} (hknown : ∀ w ∈ g.handles, w < g.admitted) (h : ¬ g.Held) :
    ∃ labels g' g'', taskGroup.run g (.shutdown :: labels) = some g' ∧
      taskGroup.step g' (.ret g.started) = some g'' ∧ ¬ g''.Finished := by
  unfold TaskGroup.Held at h
  push Not at h
  obtain ⟨v, hv, hrunning, hmissing⟩ := h
  have hplace : g.take.calls g.started = some (.taken g.handles) := Function.update_self ..
  have hstep : taskGroup.step g.take (.abortTaken g.started) =
      some ((g.take.abortAll g.handles).setCall g.started (.joining g.handles)) := by
    simp [taskGroup, TaskGroup.step, hplace]
  obtain ⟨labels, g', hrun, hcall, hstill, hadmitted⟩ := exists_joined (v := v)
    (g := (g.take.abortAll g.handles).setCall g.started (.joining g.handles))
    (Function.update_self ..) hknown hmissing hrunning
  have hreturn : taskGroup.step g' (.ret g.started) = some (g'.setCall g.started .returned) := by
    simp [taskGroup, TaskGroup.step, hcall]
  refine ⟨.abortTaken g.started :: labels, g', _, ?_, hreturn, fun hall => ?_⟩
  · exact taskGroup.run_cons_eq_some.mpr ⟨_, rfl, taskGroup.run_cons_eq_some.mpr ⟨_, hstep, hrun⟩⟩
  · have hended : g'.finished v = true := hall v (hadmitted ▸ hv)
    rw [hstill] at hended
    cases hended

/-! ### Runs -/

/-- A step that closes the group. -/
def Label.Closes : Label → Prop
  | .abort | .shutdown => True
  | _ => False

/-- What a step does to the gate, and that the handles are of workers that were admitted. -/
theorem step_gate {g g' : TaskGroup} {e : Label} (hstep : g.step e = some g') :
    (g'.closed = true ↔ g.closed = true ∨ e.Closes) ∧
      ((∀ w ∈ g.handles, w < g.admitted) → ∀ w ∈ g'.handles, w < g'.admitted) := by
  cases e with
  | spawn =>
    obtain rfl := Option.some.inj hstep
    unfold TaskGroup.spawn
    split
    · simp [Label.Closes]
    · refine ⟨by simp [Label.Closes], fun hknown w hw => ?_⟩
      obtain hw | hw := List.mem_append.mp hw
      · exact Nat.lt_succ_of_lt (hknown w (List.mem_of_mem_filter hw))
      · rw [List.mem_singleton.mp hw]
        exact Nat.lt_succ_self _
  | abort =>
    obtain rfl := Option.some.inj hstep
    exact ⟨⟨fun _ => .inr trivial, fun _ => rfl⟩, fun hknown => hknown⟩
  | shutdown =>
    obtain rfl := Option.some.inj hstep
    exact ⟨⟨fun _ => .inr trivial, fun _ => rfl⟩, fun _ w hw => absurd hw List.not_mem_nil⟩
  | complete w =>
    obtain ⟨-, rfl⟩ := Machine.guarded_eq_some.mp hstep
    exact ⟨by simp [TaskGroup.finish, Label.Closes], fun hknown => hknown⟩
  | cancelled w =>
    obtain ⟨-, rfl⟩ := Machine.guarded_eq_some.mp hstep
    exact ⟨by simp [TaskGroup.finish, Label.Closes], fun hknown => hknown⟩
  | abortTaken k =>
    obtain ⟨handles, -, rfl⟩ := step_abortTaken hstep
    exact ⟨by simp [TaskGroup.setCall, TaskGroup.abortAll, Label.Closes], fun hknown => hknown⟩
  | join k =>
    obtain ⟨w, rest, -, -, rfl⟩ := step_join hstep
    exact ⟨by simp [TaskGroup.setCall, Label.Closes], fun hknown => hknown⟩
  | ret k =>
    obtain ⟨-, rfl⟩ := step_ret hstep
    exact ⟨by simp [TaskGroup.setCall, Label.Closes], fun hknown => hknown⟩
  | abandon k =>
    obtain rfl := step_abandon hstep
    exact ⟨by simp [TaskGroup.setCall, Label.Closes], fun hknown => hknown⟩

/-- The group is closed from the first step that closes it. -/
theorem closed_of_run {g g' : TaskGroup} {labels : List Label}
    (hrun : taskGroup.run g labels = some g') :
    g'.closed = true ↔ g.closed = true ∨ ∃ e ∈ labels, e.Closes := by
  induction labels generalizing g with
  | nil =>
    obtain rfl : g = g' := by simpa using hrun
    simp
  | cons e rest ih =>
    obtain ⟨next, hstep, hrest⟩ := taskGroup.run_cons_eq_some.mp hrun
    rw [ih hrest, (step_gate hstep).1, List.exists_mem_cons_iff, or_assoc]

/-- A worker is admitted exactly before the first abort or shutdown. Every return of a call of
`shutdown` comes after the end of all workers exactly if the call takes the handles of all workers
that have not ended. -/
theorem shutdown_joins (labels : List Label) (g : TaskGroup)
    (hrun : taskGroup.run taskGroup.init labels = some g) :
    (g.spawn.admitted = g.admitted + 1 ↔ ¬ ∃ e ∈ labels, e.Closes) ∧
    ((∃ e ∈ labels, e.Closes) → g.spawn = g) ∧
    ((∀ after g' g'', taskGroup.run g (.shutdown :: after) = some g' →
        taskGroup.step g' (.ret g.started) = some g'' → g''.Finished) ↔ g.Held) := by
  have hclosed : g.closed = true ↔ ∃ e ∈ labels, e.Closes := by
    rw [closed_of_run hrun]
    simp [taskGroup, TaskGroup.empty]
  have hknown : ∀ w ∈ g.handles, w < g.admitted := Machine.invariant_of_run
    (P := fun g => ∀ w ∈ g.handles, w < g.admitted) (fun _ _ _ hk hs => (step_gate hs).2 hk) nofun
    hrun
  refine ⟨?_, fun hcloses => if_pos (hclosed.mpr hcloses), fun hfinished => ?_,
    fun hheld after g' g'' hrun' => finished_of_held hheld hrun'⟩
  · rw [← hclosed, TaskGroup.spawn]
    cases g.closed <;> simp
  · by_contra hnot
    obtain ⟨after, g', g'', hrun', hreturn, hearly⟩ := exists_return hknown hnot
    exact hearly (hfinished after g' g'' hrun' hreturn)

/-- The first call of `shutdown` waits for two workers. -/
theorem shutdown_joins_two : ∃ g, taskGroup.run taskGroup.init [.spawn, .spawn] = some g ∧
    ∀ after g' g'', taskGroup.run g (.shutdown :: after) = some g' →
      taskGroup.step g' (.ret g.started) = some g'' → g''.Finished := by
  obtain ⟨g, hrun⟩ : ∃ g, taskGroup.run taskGroup.init [.spawn, .spawn] = some g := ⟨_, rfl⟩
  refine ⟨g, hrun, (shutdown_joins [.spawn, .spawn] g hrun).2.2.mpr fun w hw _ => ?_⟩
  obtain rfl := Option.some.inj hrun
  have hlt : w < 2 := hw
  have hmem : w ∈ [0, 1] := by
    simp only [List.mem_cons, List.not_mem_nil, or_false]
    omega
  exact hmem

/-- A second call of `shutdown` returns while the first one waits. -/
theorem shutdown_returns_early : ¬ ∀ (labels : List Label) (g g' : TaskGroup) (k : ℕ),
    taskGroup.run taskGroup.init labels = some g → taskGroup.step g (.ret k) = some g' →
    g'.Finished := by
  intro hjoins
  have hfinished := hjoins
    [.spawn, .shutdown, .abortTaken 0, .shutdown, .abortTaken 1] _ _ 1 rfl rfl
  exact absurd (hfinished 0 (by decide)) (by decide)

end DaemonFramework.Tasks.Group
