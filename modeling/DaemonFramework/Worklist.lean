import Mathlib.Algebra.GroupWithZero.Nat
import Mathlib.Data.List.Basic

/-!
# Searching with a worklist

`search` visits what can be reached from a list of pending elements, each once, where visiting an
element can fail. Its recursion is bounded by `fuel`. It finds exactly the reachable elements
(`mem_search_iff`), and where the fuel covers the pending elements and what the unvisited ones can
still add, it fails only where a visit does (`error_of_search`).
-/

namespace DaemonFramework.Worklist

variable {α ε : Type*}

/-- What can be reached from `root` by visits. -/
inductive Reaches (visit : α → Except ε (List α)) (root : α) : α → Prop where
  /-- The root itself. -/
  | root : Reaches visit root root
  /-- What a visit of a reachable element finds. -/
  | step {a b : α} {found : List α} (ha : Reaches visit root a) (hvisit : visit a = .ok found)
    (hb : b ∈ found) : Reaches visit root b

variable {visit : α → Except ε (List α)} {root : α}

/-- A bind of results succeeds where both do. -/
theorem bind_eq_ok {β γ : Type*} {x : Except ε β} {f : β → Except ε γ} {c : γ}
    (h : x.bind f = .ok c) : ∃ b, x = .ok b ∧ f b = .ok c := by
  cases x with
  | error e => cases h
  | ok b => exact ⟨b, rfl, h⟩

/-- A bind of results fails where one of them does. -/
theorem bind_eq_error {β γ : Type*} {x : Except ε β} {f : β → Except ε γ} {e : ε}
    (h : x.bind f = .error e) : x = .error e ∨ ∃ b, x = .ok b ∧ f b = .error e := by
  cases x with
  | error e' => exact .inl (congrArg _ (Except.error.inj h))
  | ok b => exact .inr ⟨b, rfl, h⟩

/-- Where a search stands: it has seen and has pending only what can be reached, and what a seen
element leads to is seen or pending. -/
structure Standing (visit : α → Except ε (List α)) (root : α) (seen pending : List α) : Prop where
  /-- Seen elements can be reached. -/
  reached : ∀ a ∈ seen, Reaches visit root a
  /-- Pending elements can be reached. -/
  reachable : ∀ a ∈ pending, Reaches visit root a
  /-- What a seen element leads to is seen or pending. -/
  closed : ∀ a ∈ seen, ∃ found, visit a = .ok found ∧ ∀ b ∈ found, b ∈ seen ∨ b ∈ pending
  /-- The root is seen or pending. -/
  root : root ∈ seen ∨ root ∈ pending

namespace Standing

variable {seen pending found : List α} {a : α}

/-- A search starts at the root. -/
theorem start : Standing visit root [] [root] where
  reached := nofun
  reachable _ ha := List.mem_singleton.1 ha ▸ .root
  closed := nofun
  root := .inr (List.mem_singleton.2 rfl)

/-- A pending element that was seen is dropped. -/
theorem skip (h : Standing visit root seen (a :: pending)) (ha : a ∈ seen) :
    Standing visit root seen pending := by
  have hkeep : ∀ b, b ∈ seen ∨ b ∈ a :: pending → b ∈ seen ∨ b ∈ pending := by
    rintro b (hb | hb)
    · exact .inl hb
    · rcases List.mem_cons.1 hb with rfl | hb
      · exact .inl ha
      · exact .inr hb
  constructor
  · exact h.reached
  · intro b hb
    exact h.reachable b (List.mem_cons_of_mem _ hb)
  · intro b hb
    obtain ⟨found, hvisit, hfound⟩ := h.closed b hb
    exact ⟨found, hvisit, fun c hc => hkeep c (hfound c hc)⟩
  · exact hkeep root h.root

/-- A pending element is visited. -/
theorem expand (h : Standing visit root seen (a :: pending)) (hvisit : visit a = .ok found) :
    Standing visit root (a :: seen) (found ++ pending) := by
  have ha : Reaches _ root a := h.reachable a List.mem_cons_self
  -- What was seen or pending is seen, or pending behind what was found.
  have hkeep : ∀ b, b ∈ seen ∨ b ∈ a :: pending → b ∈ a :: seen ∨ b ∈ found ++ pending := by
    intro b hb
    simp only [List.mem_cons, List.mem_append] at hb ⊢
    tauto
  constructor
  · intro b hb
    exact (List.mem_cons.1 hb).elim (fun heq => heq ▸ ha) (h.reached b)
  · intro b hb
    exact (List.mem_append.1 hb).elim (fun hb => .step ha hvisit hb)
      fun hb => h.reachable b (List.mem_cons_of_mem _ hb)
  · intro b hb
    rcases List.mem_cons.1 hb with rfl | hb
    · exact ⟨found, hvisit, fun c hc => .inr (List.mem_append_left _ hc)⟩
    · obtain ⟨found', hvisit', hfound'⟩ := h.closed b hb
      exact ⟨found', hvisit', fun c hc => hkeep c (hfound' c hc)⟩
  · exact hkeep root h.root

/-- A search with nothing pending has seen exactly what can be reached. -/
theorem mem_iff (h : Standing visit root seen []) (b : α) : b ∈ seen ↔ Reaches visit root b := by
  refine ⟨h.reached b, fun hb => ?_⟩
  induction hb with
  | root => exact h.root.resolve_right (List.not_mem_nil)
  | @step a c found hreach hvisit hc ih =>
    obtain ⟨found', hvisit', hfound'⟩ := h.closed a ih
    obtain rfl : found = found' := Except.ok.inj (hvisit.symm.trans hvisit')
    exact (hfound' c hc).resolve_right (List.not_mem_nil)

end Standing

variable [DecidableEq α]

/-- Visit the pending elements, first things first, and what the visits find before the rest. -/
def search (visit : α → Except ε (List α)) (exhausted : ε) :
    ℕ → List α → List α → Except ε (List α)
  | _, seen, [] => .ok seen
  | 0, _, _ :: _ => .error exhausted
  | fuel + 1, seen, a :: pending =>
    if a ∈ seen then search visit exhausted fuel seen pending
    else
      (visit a).bind fun found => search visit exhausted fuel (a :: seen) (found ++ pending)

variable {exhausted : ε}

/-- A search that succeeds ends with nothing pending. -/
theorem standing_of_search {fuel : ℕ} {seen pending result : List α}
    (h : Standing visit root seen pending)
    (hsearch : search visit exhausted fuel seen pending = .ok result) :
    Standing visit root result [] := by
  induction fuel generalizing seen pending with
  | zero =>
    cases pending with
    | nil =>
      obtain rfl : seen = result := Except.ok.inj hsearch
      exact h
    | cons a pending => cases hsearch
  | succ fuel ih =>
    cases pending with
    | nil =>
      obtain rfl : seen = result := Except.ok.inj hsearch
      exact h
    | cons a pending =>
      unfold search at hsearch
      split_ifs at hsearch with ha
      · exact ih (h.skip ha) hsearch
      · obtain ⟨found, hvisit, hrest⟩ := bind_eq_ok hsearch
        exact ih (h.expand hvisit) hrest

/-- A search that succeeds has seen exactly what can be reached. -/
theorem mem_search_iff {fuel : ℕ} {result : List α}
    (h : search visit exhausted fuel [] [root] = .ok result) (a : α) :
    a ∈ result ↔ Reaches visit root a :=
  (standing_of_search .start h).mem_iff a

/-- In a search that succeeds, every visit has succeeded. -/
theorem visit_of_mem_search {fuel : ℕ} {result : List α}
    (h : search visit exhausted fuel [] [root] = .ok result) {a : α} (ha : a ∈ result) :
    ∃ found, visit a = .ok found := by
  obtain ⟨found, hvisit, -⟩ := (standing_of_search .start h).closed a ha
  exact ⟨found, hvisit⟩

/-- What the elements of a list that were not seen can add to a search. -/
def remaining (weight : α → ℕ) (all seen : List α) : ℕ :=
  (all.map fun a => if a ∈ seen then 0 else weight a).sum

/-- Seeing an element adds nothing to what another one can add. -/
theorem weight_cons_le (weight : α → ℕ) (seen : List α) (a b : α) :
    (if b ∈ a :: seen then 0 else weight b) ≤ if b ∈ seen then 0 else weight b := by
  by_cases hb : b ∈ seen
  · simp [hb]
  · rw [if_neg hb]
    split_ifs <;> omega

/-- Seeing an element adds nothing. -/
theorem remaining_cons_le (weight : α → ℕ) (all seen : List α) (a : α) :
    remaining weight all (a :: seen) ≤ remaining weight all seen := by
  induction all with
  | nil => exact Nat.le_refl _
  | cons b all ih =>
    have hhead := weight_cons_le weight seen a b
    simp only [remaining, List.map_cons, List.sum_cons] at ih ⊢
    omega

/-- Seeing an element takes its weight off. -/
theorem remaining_cons {weight : α → ℕ} {all seen : List α} {a : α} (hall : a ∈ all)
    (hseen : a ∉ seen) :
    remaining weight all (a :: seen) + weight a ≤ remaining weight all seen := by
  induction all with
  | nil => cases hall
  | cons b all ih =>
    have htail : remaining weight all (a :: seen) ≤ remaining weight all seen :=
      remaining_cons_le weight all seen a
    rcases List.mem_cons.1 hall with rfl | hall
    · have hin : a ∈ a :: seen := List.mem_cons_self
      simp only [remaining, List.map_cons, List.sum_cons, if_pos hin, if_neg hseen] at htail ⊢
      omega
    · have ih := ih hall
      have hhead := weight_cons_le weight seen a b
      simp only [remaining, List.map_cons, List.sum_cons] at ih ⊢
      omega

/-- With fuel for the pending elements and for what the others can add, a search fails only where
the visit of a reachable element fails. -/
theorem error_of_search {weight : α → ℕ} {all : List α}
    (hall : ∀ a found, visit a = .ok found → a ∈ all ∧ found.length ≤ weight a)
    {fuel : ℕ} {seen pending : List α} {e : ε} (h : Standing visit root seen pending)
    (hfuel : pending.length + remaining weight all seen ≤ fuel)
    (hsearch : search visit exhausted fuel seen pending = .error e) :
    ∃ a, Reaches visit root a ∧ visit a = .error e := by
  induction fuel generalizing seen pending with
  | zero =>
    cases pending with
    | nil => cases hsearch
    | cons a pending => simp at hfuel
  | succ fuel ih =>
    cases pending with
    | nil => cases hsearch
    | cons a pending =>
      rw [List.length_cons] at hfuel
      unfold search at hsearch
      split_ifs at hsearch with ha
      · exact ih (h.skip ha) (by omega) hsearch
      · rcases bind_eq_error hsearch with hvisit | ⟨found, hvisit, hrest⟩
        · exact ⟨a, h.reachable a List.mem_cons_self, hvisit⟩
        · obtain ⟨hmem, hlength⟩ := hall a found hvisit
          have hweight : remaining weight all (a :: seen) + weight a ≤ remaining weight all seen :=
            remaining_cons hmem ha
          refine ih (h.expand hvisit) ?_ hrest
          rw [List.length_append]
          omega

end DaemonFramework.Worklist
