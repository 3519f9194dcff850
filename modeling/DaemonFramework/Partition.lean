import Mathlib.Data.List.Basic
import Mathlib.Tactic.Common

/-!
# Partition points

`partitionPoint p l` is the binary search of the standard library for the first element that does
not satisfy `p`. It is right on lists whose elements that satisfy `p` come first: what is behind the
point is then what does not satisfy `p` (`drop_partitionPoint`).
-/

namespace DaemonFramework.Partition

variable {α : Type*}

/-- The search between two bounds, which halves their distance; `fuel` bounds the distance. -/
def search (p : α → Bool) (l : List α) : ℕ → ℕ → ℕ → ℕ
  | 0, low, _ => low
  | fuel + 1, low, high =>
    if low < high then
      if (l[(low + high) / 2]?).any p then search p l fuel ((low + high) / 2 + 1) high
      else search p l fuel low ((low + high) / 2)
    else low

/-- `partition_point`. -/
def partitionPoint (p : α → Bool) (l : List α) : ℕ := search p l l.length 0 l.length

/-- The elements that satisfy `p` come first. -/
def Partitioned (p : α → Bool) (l : List α) : Prop :=
  l.Pairwise fun a b => p b = true → p a = true

/-- What is before the index satisfies `p`, and what is not does not. -/
structure Splits (p : α → Bool) (l : List α) (low high : ℕ) : Prop where
  /-- Before the lower bound, everything satisfies `p`. -/
  before : ∀ i a, l[i]? = some a → i < low → p a = true
  /-- From the upper bound on, nothing does. -/
  behind : ∀ i a, l[i]? = some a → high ≤ i → p a = false

variable {p : α → Bool} {l : List α}

/-- In a partitioned list, what is before an element that satisfies `p` satisfies it too. -/
theorem Partitioned.apply_of_le (h : Partitioned p l) {i j : ℕ} {a b : α} (ha : l[i]? = some a)
    (hb : l[j]? = some b) (hij : i ≤ j) (hpb : p b = true) : p a = true := by
  obtain ⟨hi, rfl⟩ := List.getElem?_eq_some_iff.1 ha
  obtain ⟨hj, rfl⟩ := List.getElem?_eq_some_iff.1 hb
  rcases Nat.eq_or_lt_of_le hij with rfl | hlt
  · exact hpb
  · exact List.pairwise_iff_getElem.1 h i j hi hj hlt hpb

/-- Where the bounds have met, they are the point. -/
theorem Splits.met {low high : ℕ} (h : Splits p l low high) (hle : high ≤ low) :
    Splits p l low low :=
  ⟨h.before, fun i a ha hi => h.behind i a ha (Nat.le_trans hle hi)⟩

/-- The search finds the point between what satisfies `p` and what does not. -/
theorem search_splits (h : Partitioned p l) {fuel low high : ℕ} (hfuel : high ≤ low + fuel)
    (hhigh : high ≤ l.length) (hsplits : Splits p l low high) :
    Splits p l (search p l fuel low high) (search p l fuel low high) := by
  induction fuel generalizing low high with
  | zero => exact hsplits.met hfuel
  | succ fuel ih =>
    unfold search
    by_cases hlt : low < high
    · have hlength : (low + high) / 2 < l.length := by omega
      have hmiddle : l[(low + high) / 2]? = some l[(low + high) / 2] :=
        List.getElem?_eq_getElem hlength
      rw [if_pos hlt, hmiddle, Option.any_some]
      split_ifs with hp
      · have hbefore : Splits p l ((low + high) / 2 + 1) high :=
          ⟨fun i a ha hi => h.apply_of_le ha hmiddle (by omega) hp, hsplits.behind⟩
        exact ih (by omega) hhigh hbefore
      · have hbehind : Splits p l low ((low + high) / 2) := by
          refine ⟨hsplits.before, fun i a ha hi => Bool.eq_false_iff.2 fun hpa => hp ?_⟩
          exact h.apply_of_le hmiddle ha hi hpa
        exact ih (by omega) (by omega) hbehind
    · rw [if_neg hlt]
      exact hsplits.met (Nat.not_lt.1 hlt)

/-- Behind the partition point is what does not satisfy `p`. -/
theorem drop_partitionPoint (h : Partitioned p l) :
    l.drop (partitionPoint p l) = l.filter fun a => !p a := by
  have hstart : Splits p l 0 l.length := by
    refine ⟨fun i a _ hi => absurd hi (Nat.not_lt_zero i), fun i a ha hi => ?_⟩
    have hlt := (List.getElem?_eq_some_iff.1 ha).1
    omega
  have hsplits := search_splits h (Nat.le_of_eq (Nat.zero_add _).symm) (Nat.le_refl _) hstart
  unfold partitionPoint
  generalize search p l l.length 0 l.length = point at hsplits
  -- Before the point everything satisfies `p`, and behind it nothing does.
  have htake : (l.take point).filter (fun a => !p a) = [] := by
    rw [List.filter_eq_nil_iff]
    intro a ha
    obtain ⟨i, hi⟩ := List.mem_iff_getElem?.1 ha
    rw [List.getElem?_take, Option.ite_none_right_eq_some] at hi
    simp [hsplits.before i a hi.2 hi.1]
  have hdrop : (l.drop point).filter (fun a => !p a) = l.drop point := by
    rw [List.filter_eq_self]
    intro a ha
    obtain ⟨i, hi⟩ := List.mem_iff_getElem?.1 ha
    rw [List.getElem?_drop] at hi
    simp [hsplits.behind _ a hi (Nat.le_add_right _ _)]
  calc l.drop point = (l.take point).filter (fun a => !p a) ++
        (l.drop point).filter (fun a => !p a) := by rw [htake, hdrop, List.nil_append]
    _ = l.filter fun a => !p a := by rw [← List.filter_append, List.take_append_drop]

end DaemonFramework.Partition
