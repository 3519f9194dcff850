import Mathlib.Algebra.Order.Round
import Mathlib.Data.Nat.Digits.Defs
import Mathlib.Data.Rat.Floor
import Mathlib.Tactic.Linarith
import Mathlib.Tactic.Ring

/-!
# Rounding and decimal strings

`halfEven` is the integer nearest to a number, ties to even, beside Mathlib's `round`, which takes
the larger integer at a tie. They differ at ties only, and `halfEven_add` says where a number that
was moved up from a tie is rounded to.

`decimal n p` is the decimal string of `n / 10 ^ p` with exactly `p` fraction digits, from which `n`
can be read back (`decimal_injective`).
-/

namespace DaemonFramework.Rounding

/-! ## The nearest integer -/

/-- The integer nearest to a number, ties to even. -/
def halfEven (q : ℚ) : ℤ :=
  if Int.fract q < 1 / 2 then ⌊q⌋
  else if 1 / 2 < Int.fract q then ⌊q⌋ + 1
  else if ⌊q⌋ % 2 = 0 then ⌊q⌋
  else ⌊q⌋ + 1

variable {q x : ℚ}

/-- Away from ties, there is one nearest integer. -/
theorem halfEven_eq_round (h : Int.fract q ≠ 1 / 2) : halfEven q = round q := by
  have hsum := Int.floor_add_fract q
  have hlt := Int.fract_lt_one q
  have hnonneg := Int.fract_nonneg q
  unfold halfEven
  symm
  rw [round_eq_iff, Set.mem_Ico]
  rcases lt_or_gt_of_ne h with hlow | hhigh
  · rw [if_pos hlow]
    constructor <;> linarith
  · rw [if_neg hhigh.not_gt, if_pos hhigh]
    push_cast
    constructor <;> linarith

/-- At a tie, the larger integer is the one above. -/
theorem round_of_tie (h : Int.fract q = 1 / 2) : round q = ⌊q⌋ + 1 := by
  have hsum := Int.floor_add_fract q
  rw [round_eq_iff, Set.mem_Ico]
  push_cast
  constructor <;> linarith

/-- A number that was moved up from a tie by less than one is rounded to the integer above the
tie. -/
theorem halfEven_add (h : Int.fract q = 1 / 2) (hpos : 0 < x) (hlt : x < 1) :
    halfEven (q + x) = round q := by
  have hsum := Int.floor_add_fract q
  have hround : round (q + x) = ⌊q⌋ + 1 := by
    rw [round_eq_iff, Set.mem_Ico]
    push_cast
    constructor <;> linarith
  have hnotTie : Int.fract (q + x) ≠ 1 / 2 := by
    intro htie
    have hbelow : ⌊q + x⌋ + 1 = ⌊q⌋ + 1 := by rw [← hround, round_of_tie htie]
    have hsum' := Int.floor_add_fract (q + x)
    have hsame : (⌊q + x⌋ : ℚ) = ⌊q⌋ := by exact_mod_cast (by omega : ⌊q + x⌋ = ⌊q⌋)
    linarith
  rw [halfEven_eq_round hnotTie, hround, round_of_tie h]

/-- One that was moved up by more is rounded to a larger integer. -/
theorem round_lt_halfEven_add (h : Int.fract q = 1 / 2) (hlt : 1 < x) :
    round q < halfEven (q + x) := by
  have hsum := Int.floor_add_fract q
  have hsum' := Int.floor_add_fract (q + x)
  have hnonneg := Int.fract_nonneg (q + x)
  have hfloor : ⌊q⌋ + 1 ≤ ⌊q + x⌋ := by
    rw [Int.le_floor]
    push_cast
    linarith
  rw [round_of_tie h]
  unfold halfEven
  split_ifs with hlow hhigh
  -- Less than a half above the floor, which is then more than one above that of the tie.
  · have hgap : (⌊q⌋ : ℚ) + 1 < ⌊q + x⌋ := by linarith
    exact_mod_cast hgap
  · omega
  · have hhalf : Int.fract (q + x) = 1 / 2 := le_antisymm (not_lt.1 hhigh) (not_lt.1 hlow)
    have hgap : (⌊q⌋ : ℚ) + 1 < ⌊q + x⌋ := by linarith
    exact_mod_cast hgap
  · omega

/-! ## Decimal strings -/

/-- The `p` fraction digits of `n / 10 ^ p`, with leading zeros. -/
def fractionDigits (n p : ℕ) : List Char :=
  List.replicate (p - (Nat.toDigits 10 (n % 10 ^ p)).length) '0' ++ Nat.toDigits 10 (n % 10 ^ p)

/-- The decimal string of `n / 10 ^ p` with `p` fraction digits. -/
def decimal (n p : ℕ) : String :=
  String.ofList (Nat.toDigits 10 (n / 10 ^ p) ++ if p = 0 then [] else '.' :: fractionDigits n p)

/-- There are exactly `p` fraction digits. -/
theorem length_fractionDigits {n p : ℕ} (hp : p ≠ 0) : (fractionDigits n p).length = p := by
  have hlt : n % 10 ^ p < 10 ^ p := Nat.mod_lt _ (by positivity)
  have hlength := (Nat.length_toDigits_le_iff (by norm_num) (Nat.pos_of_ne_zero hp)).2 hlt
  unfold fractionDigits
  rw [List.length_append, List.length_replicate]
  omega

/-- No digit is a point. -/
theorem filter_toDigits (n : ℕ) : (Nat.toDigits 10 n).filter (· ≠ '.') = Nat.toDigits 10 n := by
  rw [List.filter_eq_self]
  intro c hc
  have hdigit := Nat.isDigit_of_mem_toDigits (by norm_num : 0 < 10) (by norm_num : 10 ≤ 10) hc
  simp only [ne_eq, decide_eq_true_eq]
  rintro rfl
  exact absurd hdigit (by decide)

/-- The fraction digits are digits, and make up the fraction. -/
theorem ofDigitChars_fractionDigits (n p i : ℕ) (hp : p ≠ 0) :
    Nat.ofDigitChars 10 ((fractionDigits n p).filter (· ≠ '.')) i = 10 ^ p * i + n % 10 ^ p := by
  have hzeros : (List.replicate (p - (Nat.toDigits 10 (n % 10 ^ p)).length) '0').filter
      (· ≠ '.') = List.replicate (p - (Nat.toDigits 10 (n % 10 ^ p)).length) '0' := by
    rw [List.filter_replicate]
    simp
  have hall : (fractionDigits n p).filter (· ≠ '.') = fractionDigits n p := by
    unfold fractionDigits
    rw [List.filter_append, filter_toDigits, hzeros]
  have hlength := length_fractionDigits (n := n) hp
  have hvalue : Nat.ofDigitChars 10 (fractionDigits n p) 0 = n % 10 ^ p := by
    unfold fractionDigits
    rw [Nat.ofDigitChars_append, Nat.ofDigitChars_replicate_zero, Nat.mul_zero,
      Nat.ofDigitChars_ten_toDigits]
  rw [hall, Nat.ofDigitChars_eq_ofDigitChars_zero, hlength, hvalue]

/-- The number can be read back from its decimal string. -/
theorem ofDigitChars_decimal (n p : ℕ) :
    Nat.ofDigitChars 10 ((decimal n p).toList.filter (· ≠ '.')) 0 = n := by
  unfold decimal
  rw [String.toList_ofList, List.filter_append, filter_toDigits, Nat.ofDigitChars_append,
    Nat.ofDigitChars_ten_toDigits]
  split_ifs with hp
  · subst hp
    simp
  · have hpoint : (('.' :: fractionDigits n p).filter (· ≠ '.')) =
        (fractionDigits n p).filter (· ≠ '.') := by simp
    rw [hpoint, ofDigitChars_fractionDigits n p _ hp]
    exact Nat.div_add_mod n (10 ^ p)

/-- Different numbers have different decimal strings. -/
theorem decimal_injective (p : ℕ) : Function.Injective fun n => decimal n p := by
  intro m n h
  have hm := ofDigitChars_decimal m p
  have hn := ofDigitChars_decimal n p
  simp only at h
  rw [h, hn] at hm
  exact hm.symm

end DaemonFramework.Rounding
