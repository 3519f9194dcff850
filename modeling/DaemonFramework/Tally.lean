import Mathlib.Data.Finmap

/-!
# Maps of counts

A `Tally` maps keys to counts that are incremented and released one at a time. It stands for a
function to the natural numbers: `Tallies m f` says that the map has exactly the keys at which `f`
is positive, with the values of `f`. A key whose count reaches zero leaves the map.
-/

namespace DaemonFramework

/-- Keys with counts. -/
abbrev Tally (α : Type*) := Finmap fun _ : α => ℕ

namespace Tally

variable {α : Type*} [DecidableEq α]

/-- The count of a key, zero where the map has none. -/
def count (m : Tally α) (k : α) : ℕ := (m.lookup k).getD 0

/-- Count a key once more. -/
def increment (m : Tally α) (k : α) : Tally α := m.insert k (m.count k + 1)

/-- Count a key once less, and remove it at zero. -/
def release (m : Tally α) (k : α) : Tally α :=
  match m.lookup k with
  | none => m
  | some n => if n - 1 = 0 then m.erase k else m.insert k (n - 1)

/-- The map has the keys at which the function is positive, with its values. -/
def Tallies (m : Tally α) (f : α → ℕ) : Prop :=
  ∀ k, m.lookup k = if f k = 0 then none else some (f k)

/-- The empty map. -/
theorem tallies_empty : Tallies (∅ : Tally α) fun _ => 0 := fun k => by
  rw [Finmap.lookup_empty, if_pos rfl]

namespace Tallies

variable {m : Tally α} {f g : α → ℕ}

/-- The count of a key is the value there. -/
theorem count_eq (h : Tallies m f) (k : α) : m.count k = f k := by
  unfold count
  rw [h k]
  split_ifs with hzero
  · exact hzero.symm
  · rfl

/-- Counting a key once more. -/
theorem increment (h : Tallies m f) {k : α}
    (hg : ∀ k', g k' = f k' + (decide (k' = k)).toNat) : Tallies (m.increment k) g := by
  intro k'
  have hk' := hg k'
  unfold Tally.increment
  by_cases heq : k' = k
  · subst heq
    have hsucc : g k' = f k' + 1 := by simpa using hk'
    rw [Finmap.lookup_insert, h.count_eq, hsucc, if_neg (by omega)]
  · have hsame : g k' = f k' := by simpa [heq] using hk'
    rw [Finmap.lookup_insert_of_ne _ heq, h k', hsame]

/-- Counting a key once less. -/
theorem release (h : Tallies m f) {k : α}
    (hg : ∀ k', g k' + (decide (k' = k)).toNat = f k') : Tallies (m.release k) g := by
  have hk : g k + 1 = f k := by simpa using hg k
  have hlookup : m.lookup k = some (f k) := by rw [h k, if_neg (by omega)]
  have hpred : f k - 1 = g k := by omega
  intro k'
  unfold Tally.release
  rw [hlookup]
  dsimp only
  rw [hpred]
  by_cases heq : k' = k
  · subst heq
    split_ifs with hzero
    · exact Finmap.lookup_erase _ _
    · exact Finmap.lookup_insert _
  · have hsame : g k' = f k' := by simpa [heq] using hg k'
    rw [hsame, ← h k']
    split_ifs with hzero
    · exact Finmap.lookup_erase_ne heq
    · exact Finmap.lookup_insert_of_ne _ heq

end Tallies

end Tally

end DaemonFramework
