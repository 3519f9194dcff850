import Mathlib.Data.Set.Finite.Basic
import Mathlib.Logic.Relation

/-!
# Predicates given by equations

A predicate may be given by an equation that refers to the predicate itself. Where each reference is
to something of a smaller measure, the equation has one solution and no more (`exists_solution`,
`solution_unique`). The references may be limited to a domain, in which case the equation says
nothing outside it.

A measure for references that go round in a finite set comes from `exists_rank`: if no reference
leads back, then every element has a rank that goes down with each step.
-/

namespace DaemonFramework.Recursion

variable {α : Type*}

section Rank

variable {r : α → α → Prop} {S : Set α}

open Classical in
/-- Where no chain of steps in a finite set leads back to its start, there is a rank that goes down
with each step. -/
theorem exists_rank (hfinite : S.Finite) (hclosed : ∀ a ∈ S, ∀ b, r a b → b ∈ S)
    (hacyclic : ∀ a ∈ S, ¬Relation.TransGen r a a) :
    ∃ (rank : α → ℕ) (bound : ℕ), (∀ a, rank a ≤ bound) ∧ ∀ a ∈ S, ∀ b, r a b →
      rank b < rank a := by
  -- The rank of an element says how many elements can be reached from it.
  let reached (a : α) : Finset α := hfinite.toFinset.filter (Relation.TransGen r a)
  refine ⟨fun a => (reached a).card, hfinite.toFinset.card, fun a => Finset.card_filter_le _ _, ?_⟩
  intro a ha b hab
  apply Finset.card_lt_card
  have hsub : reached b ⊆ reached a := by
    intro c hc
    obtain ⟨hcS, hbc⟩ := Finset.mem_filter.1 hc
    exact Finset.mem_filter.2 ⟨hcS, .head hab hbc⟩
  refine (Finset.ssubset_iff_of_subset hsub).2 ⟨b, ?_, ?_⟩
  · exact Finset.mem_filter.2 ⟨hfinite.mem_toFinset.2 (hclosed a ha b hab), .single hab⟩
  · intro hb
    exact hacyclic b (hclosed a ha b hab) (Finset.mem_filter.1 hb).2

end Rank

section Equations

variable {D : α → Prop} {μ : α → ℕ} {Φ : (α → Prop) → α → Prop}

/-- An equation that refers only to smaller elements of its domain. -/
def Guarded (D : α → Prop) (μ : α → ℕ) (Φ : (α → Prop) → α → Prop) : Prop :=
  ∀ (V W : α → Prop) (x : α), D x → (∀ y, D y → μ y < μ x → (V y ↔ W y)) → (Φ V x ↔ Φ W x)

/-- A guarded equation has a solution. -/
theorem exists_solution (h : Guarded D μ Φ) : ∃ V : α → Prop, ∀ x, D x → (V x ↔ Φ V x) := by
  let F (x : α) (V : ∀ y, μ y < μ x → Prop) : Prop := Φ (fun y => ∃ hy : μ y < μ x, V y hy) x
  let V : α → Prop := (measure μ).wf.fix F
  have hV : ∀ x, V x = Φ (fun y => ∃ _ : μ y < μ x, V y) x := fun x => (measure μ).wf.fix_eq F x
  refine ⟨V, fun x hx => ?_⟩
  rw [hV x]
  exact h _ _ x hx fun y _ hy => ⟨fun ⟨_, hVy⟩ => hVy, fun hVy => ⟨hy, hVy⟩⟩

/-- Two solutions of a guarded equation agree in its domain. -/
theorem solution_unique (h : Guarded D μ Φ) {V W : α → Prop} (hV : ∀ x, D x → (V x ↔ Φ V x))
    (hW : ∀ x, D x → (W x ↔ Φ W x)) (x : α) (hx : D x) : V x ↔ W x := by
  induction hn : μ x using Nat.strong_induction_on generalizing x with
  | _ n ih =>
    subst hn
    calc V x ↔ Φ V x := hV x hx
      _ ↔ Φ W x := h V W x hx fun y hy hlt => ih (μ y) hlt y hy rfl
      _ ↔ W x := (hW x hx).symm

end Equations

end DaemonFramework.Recursion
