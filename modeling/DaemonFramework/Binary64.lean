import DaemonFramework.Decimal
import DaemonFramework.Text
import Mathlib.Tactic.GCongr

/-!
# Floating-point numbers from text

`nearest` is the `f64` nearest to a rational number, ties to even, and `parseF64` is `from_str` of
`f64`: the decimal number that a text stands for, rounded so. A number that an `f64` holds is
rounded to itself (`nearestMagnitude_abs`).
-/

namespace DaemonFramework.Binary64

open Decimal Rounding Text

/-- The magnitude of infinity. -/
def infinite : ℕ := 0x7ff * 2 ^ 52

/-- The exponent of the first bit of a positive number. -/
def leading (q : ℚ) : ℤ :=
  let e : ℤ := q.num.natAbs.log2 - q.den.log2
  if 2 ^ e ≤ q then e else e - 1

/-- The magnitude nearest to a number that is not negative. Below the normal numbers the step is
that of the smallest of them, and above the largest is infinity. -/
def nearestMagnitude (q : ℚ) : ℕ :=
  let e := max (leading q) (-1022)
  if q = 0 then 0
  else min (((e + 1022) * 2 ^ 52 + halfEven (q / 2 ^ (e - 52))).toNat) infinite

theorem nearestMagnitude_lt (q : ℚ) : nearestMagnitude q < 2 ^ 63 := by
  have hinfinite : infinite < 2 ^ 63 := by decide
  unfold nearestMagnitude
  split
  · decide
  · exact (Nat.min_le_right _ _).trans_lt hinfinite

/-- The number nearest to a magnitude, with a sign. -/
def nearest (negative : Bool) (q : ℚ) : F64 := ⟨negative, nearestMagnitude q, nearestMagnitude_lt q⟩

/-- The power of ten behind the digits of a number. -/
def parseExponent : List Char → Option ℤ
  | [] => some 0
  | c :: rest =>
    if c.toLower = 'e' then
      if rest.head? = some '-' then (parseDigits 10 rest.tail).map fun value : ℕ => -(value : ℤ)
      else if rest.head? = some '+' then (parseDigits 10 rest.tail).map fun value : ℕ => (value : ℤ)
      else (parseDigits 10 rest).map fun value : ℕ => (value : ℤ)
    else none

/-- The number that digits with a point stand for. -/
def parseNumber (text : List Char) : Option ℚ :=
  let integer := text.takeWhile Char.isDigit
  let rest := text.dropWhile Char.isDigit
  let fraction := if rest.head? = some '.' then rest.tail.takeWhile Char.isDigit else []
  let rest := if rest.head? = some '.' then rest.tail.dropWhile Char.isDigit else rest
  (parseDigits 10 (integer ++ fraction)).bind fun value =>
    (parseExponent rest).map fun exponent => (value : ℚ) * 10 ^ (exponent - (fraction.length : ℤ))

/-- `f64::from_str`. -/
def parseF64 (text : List Char) : Option F64 :=
  let negative : Bool := text.head? = some '-'
  let unsigned := if text.head? = some '-' ∨ text.head? = some '+' then text.tail else text
  let word := unsigned.map Char.toLower
  if word = "inf".toList ∨ word = "infinity".toList then some ⟨negative, infinite, by decide⟩
  else if word = "nan".toList then some ⟨negative, 0x7ff8 * 2 ^ 48, by decide⟩
  else (parseNumber unsigned).map (nearest negative)

/-! ## Numbers that are represented -/

/-- The first bit of a natural number. -/
theorem log2_bounds {n : ℕ} (hn : n ≠ 0) :
    (2 : ℚ) ^ (n.log2 : ℤ) ≤ n ∧ (n : ℚ) < 2 ^ ((n.log2 : ℤ) + 1) := by
  have hlow := Nat.log2_self_le hn
  have hhigh := Nat.lt_log2_self (n := n)
  constructor
  · exact_mod_cast hlow
  · exact_mod_cast hhigh

/-- The exponent of the first bit says between which powers of two the number is. -/
theorem leading_eq {q : ℚ} {k : ℤ} (hlow : 2 ^ k ≤ q) (hhigh : q < 2 ^ (k + 1)) :
    leading q = k := by
  have hpos : 0 < q := lt_of_lt_of_le (by positivity) hlow
  have hle : ∀ {a b : ℤ}, (2 : ℚ) ^ a < 2 ^ b → a < b := (zpow_lt_zpow_iff_right₀ one_lt_two).1
  have hnum : (q.num.natAbs : ℚ) = q.num := by
    rw [Nat.cast_natAbs, abs_of_nonneg (Rat.num_nonneg.2 hpos.le)]
  have hden : (0 : ℚ) < q.den := by exact_mod_cast q.den_pos
  have hfrac : q * q.den = q.num.natAbs := by rw [hnum, Rat.mul_den_eq_num]
  obtain ⟨hnumLow, hnumHigh⟩ := log2_bounds (n := q.num.natAbs) (by simpa using hpos.ne')
  obtain ⟨hdenLow, hdenHigh⟩ := log2_bounds q.den_nz
  -- The quotient of two numbers is determined by their first bits up to a factor of two.
  have hbelow : (q.num.natAbs.log2 : ℤ) - q.den.log2 ≤ k + 1 := by
    have hlt : (2 : ℚ) ^ (q.num.natAbs.log2 : ℤ) < 2 ^ (k + 1 + (q.den.log2 + 1)) := by
      rw [zpow_add₀ two_ne_zero]
      calc (2 : ℚ) ^ (q.num.natAbs.log2 : ℤ) ≤ q * q.den := hfrac ▸ hnumLow
        _ < 2 ^ (k + 1) * 2 ^ ((q.den.log2 : ℤ) + 1) := by gcongr
    have := hle hlt
    omega
  have habove : k ≤ (q.num.natAbs.log2 : ℤ) - q.den.log2 := by
    have hlt : (2 : ℚ) ^ (k + q.den.log2) < 2 ^ ((q.num.natAbs.log2 : ℤ) + 1) := by
      rw [zpow_add₀ two_ne_zero]
      calc (2 : ℚ) ^ k * 2 ^ (q.den.log2 : ℤ) ≤ q * q.den := by gcongr
        _ < 2 ^ ((q.num.natAbs.log2 : ℤ) + 1) := hfrac ▸ hnumHigh
    have := hle hlt
    omega
  unfold leading
  dsimp only
  generalize (q.num.natAbs.log2 : ℤ) - q.den.log2 = e at hbelow habove
  obtain rfl | rfl : e = k ∨ e = k + 1 := by omega
  · rw [if_pos hlow]
  · rw [if_neg hhigh.not_ge, Int.add_sub_cancel]

/-- Scaled by a power of two, the first bit moves by its exponent. -/
theorem leading_natCast_mul {n : ℕ} (hn : n ≠ 0) (e : ℤ) : leading (n * 2 ^ e) = n.log2 + e := by
  obtain ⟨hlow, hhigh⟩ := log2_bounds hn
  refine leading_eq ?_ ?_
  · rw [zpow_add₀ two_ne_zero]
    gcongr
  · rw [add_right_comm, zpow_add₀ two_ne_zero]
    gcongr

/-- An integer is the nearest one to itself. -/
theorem halfEven_natCast (n : ℕ) : halfEven n = n := by
  unfold halfEven
  rw [Int.fract_natCast, if_pos (by norm_num), Int.floor_natCast]

/-- A multiple of the step is rounded to itself. -/
theorem nearestMagnitude_mul {q : ℚ} {e : ℤ} {n : ℕ} (he : max (leading q) (-1022) = e) (hn : n ≠ 0)
    (hq : q = n * 2 ^ (e - 52)) :
    nearestMagnitude q = min (((e + 1022) * 2 ^ 52 + n).toNat) infinite := by
  have hstep : (2 : ℚ) ^ (e - 52) ≠ 0 := by positivity
  have hne : q ≠ 0 := by
    rw [hq]
    exact mul_ne_zero (by exact_mod_cast hn) hstep
  unfold nearestMagnitude
  dsimp only
  rw [if_neg hne, he, hq, mul_div_cancel_right₀ _ hstep, halfEven_natCast]

/-- A finite number is the nearest one to itself. -/
theorem nearestMagnitude_abs {v : F64} (h : v.isFinite) : nearestMagnitude v.abs = v.magnitude := by
  have hexponent := v.exponent_eq
  have hmantissa := v.mantissa_eq
  have hbound : v.exponent ≠ 0x7ff := by simpa [F64.isFinite] using h
  have hlt := v.lt
  have hfinite : v.magnitude ≤ infinite := by
    unfold infinite
    omega
  by_cases hzero : v.magnitude = 0
  · have habs : v.abs = 0 :=
      le_antisymm (not_lt.1 fun hpos => v.abs_pos_iff.1 hpos hzero) v.abs_nonneg
    rw [habs, hzero]
    rfl
  -- The exponent that the number is rounded with is its own.
  obtain ⟨e, he⟩ : ∃ e, v.binaryExponent = e - 52 := ⟨v.binaryExponent + 52, by ring⟩
  have habs : v.abs = v.mantissa * 2 ^ (e - 52) := by rw [← he]; rfl
  have hne : v.mantissa ≠ 0 := by split_ifs at hmantissa <;> omega
  have hleading : leading v.abs = v.mantissa.log2 + (e - 52) := by
    rw [habs, leading_natCast_mul hne]
  unfold F64.binaryExponent at he
  split_ifs at he hmantissa with hsub
  -- Below the normal numbers the mantissa is the magnitude, and its first bit is too low to count.
  · have hlog : v.mantissa.log2 < 52 := (Nat.log2_lt hne).2 (by omega)
    rw [nearestMagnitude_mul (by omega) hne habs]
    omega
  -- A normal number has 53 bits.
  · have hhigh : v.mantissa.log2 < 53 := (Nat.log2_lt hne).2 v.mantissa_lt
    have hlow : 52 ≤ v.mantissa.log2 := (Nat.le_log2 hne).2 (by omega)
    rw [nearestMagnitude_mul (by omega) hne habs]
    omega

end DaemonFramework.Binary64
