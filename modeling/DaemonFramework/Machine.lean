import Mathlib.Data.List.Basic
import Mathlib.Logic.Basic

/-!
# Machines with labelled partial steps

A `Machine` has an initial state and a partial step: a label names what happens next, and the step
is `none` where that cannot happen. All nondeterminism is in the labels, so a finite run is a list
of labels, and an interleaving of several parties is a list of their labels in any order.

`invariant_of_reachable` packages the induction over runs once. `StepsMeet` is a condition on every
step of one run, and `invariant_of_stepsMeet` is the same induction for the runs that satisfy it.
-/

namespace DaemonFramework

/-- A system that moves by labelled partial steps. -/
structure Machine (σ ε : Type*) where
  /-- The state before the first step. -/
  init : σ
  /-- The state after a step with this label, or `none` where the step is not enabled. -/
  step : σ → ε → Option σ

namespace Machine

/-- A step with a guard is taken where the guard holds. -/
theorem guarded_eq_some {σ : Type*} {p : Prop} [Decidable p] {s t : σ} :
    (if p then some s else none) = some t ↔ p ∧ s = t := by
  rw [Option.ite_none_right_eq_some, Option.some.injEq]

/-- A step that a condition refuses is taken where the condition fails. -/
theorem refused_eq_some {σ : Type*} {p : Prop} [Decidable p] {s t : σ} :
    (if p then none else some s) = some t ↔ ¬p ∧ s = t := by
  rw [Option.ite_none_left_eq_some, Option.some.injEq]

variable {σ ε : Type*} (m : Machine σ ε)

/-- Follow a list of labels from `s`; `none` if some label is not enabled where it is reached. -/
def run : σ → List ε → Option σ
  | s, [] => some s
  | s, e :: es => (m.step s e).bind fun s' => run s' es

@[simp] theorem run_nil (s : σ) : m.run s [] = some s := rfl

/-- A run that starts with the label `e` takes that step and then runs on. -/
theorem run_cons_eq_some {s t : σ} {e : ε} {es : List ε} :
    m.run s (e :: es) = some t ↔ ∃ s', m.step s e = some s' ∧ m.run s' es = some t := by
  simp [run, Option.bind_eq_some_iff]

/-- A run over two lists is a run over the first and then one over the second. -/
theorem run_append_eq_some {s t : σ} {es fs : List ε} :
    m.run s (es ++ fs) = some t ↔ ∃ u, m.run s es = some u ∧ m.run u fs = some t := by
  induction es generalizing s with
  | nil => simp
  | cons e es ih =>
    simp only [List.cons_append, run_cons_eq_some, ih]
    constructor
    · rintro ⟨s', hs, u, hu, ht⟩
      exact ⟨u, ⟨s', hs, hu⟩, ht⟩
    · rintro ⟨u, ⟨s', hs, hu⟩, ht⟩
      exact ⟨s', hs, u, hu, ht⟩

/-- The last step of a run. -/
theorem run_concat_eq_some {s t : σ} {es : List ε} {e : ε} :
    m.run s (es ++ [e]) = some t ↔ ∃ u, m.run s es = some u ∧ m.step u e = some t := by
  simp [run_append_eq_some, run_cons_eq_some]

/-- The states that some run from the initial state ends in. -/
def Reachable (s : σ) : Prop := ∃ es, m.run m.init es = some s

/-- The initial state is reachable. -/
theorem reachable_init : m.Reachable m.init := ⟨[], rfl⟩

variable {m}

/-- One more step from a reachable state ends in a reachable state. -/
theorem Reachable.step {s t : σ} {e : ε} (h : m.Reachable s) (ht : m.step s e = some t) :
    m.Reachable t := by
  obtain ⟨es, hes⟩ := h
  exact ⟨es ++ [e], m.run_concat_eq_some.2 ⟨s, hes, ht⟩⟩

/-- What a step preserves, a run preserves. -/
theorem invariant_of_run {P : σ → Prop} (hstep : ∀ s e t, P s → m.step s e = some t → P t)
    {s t : σ} {es : List ε} (hs : P s) (hrun : m.run s es = some t) : P t := by
  induction es generalizing s with
  | nil =>
    obtain rfl : s = t := by simpa using hrun
    exact hs
  | cons e es ih =>
    obtain ⟨s', hs', ht⟩ := m.run_cons_eq_some.1 hrun
    exact ih (hstep s e s' hs hs') ht

/-- Where each step of some kind adds one to a count, a run adds the number of its steps of this
kind. -/
theorem countP_of_run {P : σ → Prop} {f : σ → ℕ} {p : ε → Bool}
    (hstep : ∀ s e t, P s → m.step s e = some t → P t ∧ f t = f s + (p e).toNat)
    {s t : σ} {es : List ε} (hs : P s) (hrun : m.run s es = some t) :
    f t = f s + es.countP p := by
  induction es generalizing s with
  | nil =>
    obtain rfl : s = t := by simpa using hrun
    rfl
  | cons e es ih =>
    obtain ⟨s', hs', ht⟩ := m.run_cons_eq_some.1 hrun
    obtain ⟨hP, hf⟩ := hstep s e s' hs hs'
    have htail := ih hP ht
    rw [List.countP_cons]
    cases hp : p e <;> rw [hp] at hf <;> simp at hf ⊢ <;> omega

/-- What holds at the start and is preserved by each step holds in every reachable state. -/
theorem invariant_of_reachable {P : σ → Prop} (hinit : P m.init)
    (hstep : ∀ s e t, P s → m.step s e = some t → P t) {s : σ} (h : m.Reachable s) : P s := by
  obtain ⟨es, hes⟩ := h
  exact invariant_of_run hstep hinit hes

/-- What comes about in a run comes about in one step of it: there is a state on the way from which
a step can bring it about. -/
theorem exists_state_of_run {P Q W : σ → Prop}
    (hstep : ∀ s e t, P s → m.step s e = some t → P t)
    (hcause : ∀ s e t, P s → m.step s e = some t → Q t → Q s ∨ W s)
    {s t : σ} {es : List ε} (hs : P s) (hnot : ¬ Q s) (hrun : m.run s es = some t) (ht : Q t) :
    ∃ es₁ es₂ u, es = es₁ ++ es₂ ∧ m.run s es₁ = some u ∧ W u := by
  induction es generalizing s with
  | nil =>
    obtain rfl : s = t := by simpa using hrun
    exact absurd ht hnot
  | cons e es ih =>
    obtain ⟨s', hs', hrest⟩ := m.run_cons_eq_some.1 hrun
    by_cases hQ : Q s'
    · have hW : W s := (hcause s e s' hs hs' hQ).resolve_left hnot
      exact ⟨[], e :: es, s, rfl, rfl, hW⟩
    · obtain ⟨es₁, es₂, u, rfl, hu, hW⟩ := ih (hstep s e s' hs hs') hQ hrest
      exact ⟨e :: es₁, es₂, u, rfl, m.run_cons_eq_some.2 ⟨s', hs', hu⟩, hW⟩

variable (m)

/-- Every step of the run over these labels from `s` meets the condition `C` on the state before
the step and the label. -/
def StepsMeet (C : σ → ε → Prop) : σ → List ε → Prop
  | _, [] => True
  | s, e :: es => C s e ∧ ∀ s', m.step s e = some s' → StepsMeet C s' es

variable {m}

/-- The condition is met along a list of labels where the first step meets it, and those from the
state after that step do. -/
theorem stepsMeet_cons {C : σ → ε → Prop} {s t : σ} {e : ε} {es : List ε} (hC : C s e)
    (hstep : m.step s e = some t) (hrest : m.StepsMeet C t es) : m.StepsMeet C s (e :: es) := by
  refine ⟨hC, fun s' hs' => ?_⟩
  obtain rfl : t = s' := Option.some.inj (hstep.symm.trans hs')
  exact hrest

/-- The condition is met along labels that meet it in every state. -/
theorem stepsMeet_of_forall {C : σ → ε → Prop} {es : List ε} (h : ∀ e ∈ es, ∀ s, C s e) (s : σ) :
    m.StepsMeet C s es := by
  induction es generalizing s with
  | nil => trivial
  | cons e es ih =>
    exact ⟨h e List.mem_cons_self s,
      fun s' _ => ih (fun e' he' => h e' (List.mem_cons_of_mem _ he')) s'⟩

/-- A run whose steps all meet the condition preserves what each such step preserves. -/
theorem invariant_of_stepsMeet {P : σ → Prop} {C : σ → ε → Prop}
    (hstep : ∀ s e t, P s → C s e → m.step s e = some t → P t)
    {s t : σ} {es : List ε} (hs : P s) (hC : m.StepsMeet C s es) (hrun : m.run s es = some t) :
    P t := by
  induction es generalizing s with
  | nil =>
    obtain rfl : s = t := by simpa using hrun
    exact hs
  | cons e es ih =>
    obtain ⟨s', hs', ht⟩ := m.run_cons_eq_some.1 hrun
    exact ih (hstep s e s' hs hC.1 hs') (hC.2 s' hs') ht

/-- A run of steps that each lower a measure is no longer than the measure is high. -/
theorem length_le_of_run {P : σ → Prop} {C : ε → Prop} {f : σ → ℕ}
    (hstep : ∀ s e t, P s → C e → m.step s e = some t → P t ∧ f t < f s)
    {s t : σ} {es : List ε} (hs : P s) (hC : ∀ e ∈ es, C e) (hrun : m.run s es = some t) :
    es.length ≤ f s := by
  induction es generalizing s with
  | nil => exact Nat.zero_le _
  | cons e es ih =>
    obtain ⟨s', hs', ht⟩ := m.run_cons_eq_some.1 hrun
    obtain ⟨hP, hless⟩ := hstep s e s' hs (hC e List.mem_cons_self) hs'
    have hrest := ih hP (fun e' he' => hC e' (List.mem_cons_of_mem _ he')) ht
    rw [List.length_cons]
    omega

/-! ## What a run can lead to -/

variable (m)

/-- Some run over labels of one kind leads from one state to another. -/
def Leads (C : ε → Prop) (s t : σ) : Prop := ∃ es, (∀ e ∈ es, C e) ∧ m.run s es = some t

variable {m} {C : ε → Prop} {s t u : σ}

namespace Leads

/-- The run of no step. -/
theorem refl : m.Leads C s s := ⟨[], by simp, rfl⟩

/-- One run after the other. -/
theorem trans (h : m.Leads C s t) (h' : m.Leads C t u) : m.Leads C s u := by
  obtain ⟨es, hes, hrun⟩ := h
  obtain ⟨fs, hfs, hrun'⟩ := h'
  refine ⟨es ++ fs, fun e he => ?_, m.run_append_eq_some.2 ⟨t, hrun, hrun'⟩⟩
  obtain he | he := List.mem_append.1 he
  · exact hes e he
  · exact hfs e he

/-- A run of one step. -/
theorem single {e : ε} (hstep : m.step s e = some t) (he : C e) : m.Leads C s t := by
  refine ⟨[e], fun e' he' => ?_, m.run_cons_eq_some.2 ⟨t, hstep, rfl⟩⟩
  obtain rfl := List.mem_singleton.1 he'
  exact he

/-- A run that starts with a step. -/
theorem head {e : ε} (hstep : m.step s e = some t) (he : C e) (h : m.Leads C t u) :
    m.Leads C s u :=
  (single hstep he).trans h

/-- What steps of the kind preserve holds where they lead. -/
theorem invariant {P : σ → Prop} (h : m.Leads C s t)
    (hstep : ∀ s e t, P s → C e → m.step s e = some t → P t) (hs : P s) : P t := by
  obtain ⟨es, hes, hrun⟩ := h
  exact invariant_of_stepsMeet (C := fun _ e => C e) hstep hs
    (stepsMeet_of_forall (fun e he _ => hes e he) s) hrun

/-- What a reachable state leads to is reachable. -/
theorem reachable (h : m.Leads C s t) (hs : m.Reachable s) : m.Reachable t :=
  h.invariant (fun _ _ _ hs _ hstep => hs.step hstep) hs

end Leads

end Machine

end DaemonFramework
