import Mathlib.Algebra.Order.Field.Power
import Mathlib.Data.Nat.Bitwise
import Mathlib.Tactic.FieldSimp
import DaemonFramework.Rounding

/-!
# Presentation rounding

`fixed_decimal` of `shelllist-daemon-core/src/decimal.rs`: an `f64` with a fixed number of fraction
digits, ties away from zero. The formatter of the language rounds exact ties to even, so a tie is
detected on the mantissa and the next representable number is formatted in its place.

That number lies a whole step of the mantissa above the tie. Where the step is no smaller than the
last printed digit, the digits printed are those of another number: `fixedDecimal_eq_iff` says when
the result is the correct one.
-/

namespace DaemonFramework.Decimal

open Rounding

/-! ## Floating-point numbers -/

/-- An `f64`: its sign bit, and the other bits. -/
structure F64 where
  /-- The sign bit. -/
  negative : Bool
  /-- `value.abs().to_bits()`. -/
  magnitude : ℕ
  /-- These are 63 bits. -/
  lt : magnitude < 2 ^ 63

namespace F64

/-- The exponent field. -/
def exponent (v : F64) : ℕ := v.magnitude >>> 52 &&& 0x7ff

/-- `f64::is_finite`. -/
def isFinite (v : F64) : Bool := v.exponent != 0x7ff

/-- The mantissa with its hidden bit. -/
def mantissa (v : F64) : ℕ :=
  v.magnitude &&& ((1 <<< 52) - 1) ||| if v.exponent = 0 then 0 else 1 <<< 52

/-- The exponent of the last bit of the mantissa. -/
def binaryExponent (v : F64) : ℤ :=
  if v.exponent = 0 then -1074 else v.exponent - 1023 - 52

/-- The step from a number to the next one. -/
def ulp (v : F64) : ℚ := 2 ^ v.binaryExponent

/-- The absolute value of a finite number. -/
def abs (v : F64) : ℚ := v.mantissa * v.ulp

/-- A finite number. -/
def toRat (v : F64) : ℚ := if v.negative then -v.abs else v.abs

/-- The number with the next magnitude, of the same sign. -/
def next (v : F64) : F64 :=
  ⟨v.negative, (v.magnitude + 1) % 2 ^ 63, Nat.mod_lt _ (by norm_num)⟩

/-- `value + 0.0`: only the sign of zero is lost. -/
def addZero (v : F64) : F64 := { v with negative := v.negative && v.magnitude != 0 }

/-- A finite number in a format string with a precision: its exact value, rounded correctly, ties to
even. -/
def format (v : F64) (precision : ℕ) : String :=
  (if v.negative then "-" else "") ++ decimal (halfEven (v.abs * 10 ^ precision)).toNat precision

end F64

/-! ## The function -/

/-- The mantissa times the power of five, in 128 bits. -/
def numerator (value : F64) (decimals : UInt8) : ℕ :=
  value.mantissa * 5 ^ decimals.toNat % 2 ^ 128

/-- The number of bits of the numerator after the point. -/
def shift (value : F64) (decimals : UInt8) : ℤ := -(value.binaryExponent + decimals.toNat)

/-- The bits after the point are a one and zeros. -/
def isTie (value : F64) (decimals : UInt8) : Bool :=
  let s := shift value decimals
  decide (1 ≤ s) && decide (s < 128) &&
    numerator value decimals &&& ((1 <<< s.toNat) - 1) == 1 <<< (s.toNat - 1)

/-- `fixed_decimal`. -/
def fixedDecimal (value : F64) (decimals : UInt8) : Option String :=
  if !value.isFinite || decimals > 9 then none
  else
    let rounded := if isTie value decimals then value.next else value.addZero
    some (rounded.format decimals.toNat)

/-! ## What it should print -/

/-- The number with a fixed number of fraction digits, ties away from zero, with a sign if it is
negative: the result of `toFixed`. -/
def toFixed (value : F64) (decimals : ℕ) : String :=
  (if value.toRat < 0 then "-" else "") ++ decimal (round (value.abs * 10 ^ decimals)).toNat decimals

/-- The number lies half way between two decimals with so many fraction digits. -/
def HalfWay (value : F64) (decimals : ℕ) : Prop := Int.fract (value.abs * 10 ^ decimals) = 1 / 2

/-! ## Bits and values -/

namespace F64

variable (v : F64)

/-- The exponent field is what is above the fraction. -/
theorem exponent_eq : v.exponent = v.magnitude / 2 ^ 52 := by
  have hlt := v.lt
  have hmask : (0x7ff : ℕ) = 2 ^ 11 - 1 := by norm_num
  unfold exponent
  rw [hmask, Nat.and_two_pow_sub_one_eq_mod, Nat.shiftRight_eq_div_pow, Nat.mod_eq_of_lt]
  omega

/-- The mantissa is the fraction, with the hidden bit above it. -/
theorem mantissa_eq :
    v.mantissa = v.magnitude % 2 ^ 52 + if v.exponent = 0 then 0 else 2 ^ 52 := by
  have hlt : v.magnitude % 2 ^ 52 < 2 ^ 52 := Nat.mod_lt _ (by norm_num)
  unfold mantissa
  rw [Nat.one_shiftLeft, Nat.and_two_pow_sub_one_eq_mod]
  split_ifs
  · rw [Nat.or_zero, Nat.add_zero]
  · have hor := Nat.two_pow_add_eq_or_of_lt hlt 1
    rw [Nat.mul_one] at hor
    rw [Nat.or_comm, ← hor, Nat.add_comm]

/-- A mantissa has 53 bits. -/
theorem mantissa_lt : v.mantissa < 2 ^ 53 := by
  have hlt : v.magnitude % 2 ^ 52 < 2 ^ 52 := Nat.mod_lt _ (by norm_num)
  rw [mantissa_eq]
  split_ifs <;> omega

/-- The step to the next number is positive. -/
theorem ulp_pos : 0 < v.ulp := by
  unfold ulp
  positivity

/-- The absolute value is not negative. -/
theorem abs_nonneg : 0 ≤ v.abs := by
  have hulp := v.ulp_pos
  unfold abs
  positivity

/-- Only zero has the mantissa zero. -/
theorem abs_pos_iff : 0 < v.abs ↔ v.magnitude ≠ 0 := by
  have hulp := v.ulp_pos
  have hmantissa : 0 < v.mantissa ↔ v.magnitude ≠ 0 := by
    rw [mantissa_eq, exponent_eq]
    split_ifs with hexponent <;> omega
  unfold abs
  rw [← hmantissa]
  constructor
  · intro h
    by_contra hzero
    have hzero : v.mantissa = 0 := by omega
    rw [hzero] at h
    simp at h
  · intro h
    have hcast : (0 : ℚ) < v.mantissa := by exact_mod_cast h
    positivity

/-- The next number is one step above. -/
theorem abs_next (h : v.isFinite) : v.next.abs = v.abs + v.ulp := by
  have hlt := v.lt
  have hexponent : v.magnitude / 2 ^ 52 ≠ 0x7ff := by
    rw [← exponent_eq]
    simpa [isFinite] using h
  have hmagnitude : v.next.magnitude = v.magnitude + 1 := by
    show (v.magnitude + 1) % 2 ^ 63 = v.magnitude + 1
    rw [Nat.mod_eq_of_lt]
    omega
  have hnext : v.next.exponent = (v.magnitude + 1) / 2 ^ 52 := by rw [exponent_eq, hmagnitude]
  by_cases hfraction : v.magnitude % 2 ^ 52 + 1 < 2 ^ 52
  -- The fraction has room for one more.
  · have hsame : v.next.exponent = v.exponent := by
      rw [hnext, exponent_eq]
      omega
    have hmantissa : v.next.mantissa = v.mantissa + 1 := by
      rw [mantissa_eq, mantissa_eq, hsame, hmagnitude]
      omega
    have hulp : v.next.ulp = v.ulp := by
      unfold ulp binaryExponent
      rw [hsame]
    unfold abs
    rw [hmantissa, hulp]
    push_cast
    ring
  -- The fraction is full, so the next number begins the next exponent.
  · have hcarry : v.next.exponent = v.exponent + 1 := by
      rw [hnext, exponent_eq]
      omega
    have hmantissa : v.next.mantissa = 2 ^ 52 := by
      rw [mantissa_eq, hcarry, if_neg (Nat.succ_ne_zero _), hmagnitude]
      omega
    unfold abs
    rw [hmantissa]
    by_cases hzero : v.exponent = 0
    -- The largest subnormal number: the step stays the same.
    · have hfull : v.mantissa = 2 ^ 52 - 1 := by
        rw [mantissa_eq, if_pos hzero]
        omega
      have hulp : v.next.ulp = v.ulp := by
        unfold ulp binaryExponent
        rw [hcarry, hzero]
        norm_num
      rw [hfull, hulp]
      push_cast
      ring
    -- A normal number: the mantissa starts anew with half of the range, and the step is doubled.
    · have hfull : v.mantissa = 2 ^ 53 - 1 := by
        rw [mantissa_eq, if_neg hzero]
        omega
      have hulp : v.next.ulp = v.ulp * 2 := by
        have hexponents : v.next.binaryExponent = v.binaryExponent + 1 := by
          unfold binaryExponent
          rw [hcarry, if_neg (Nat.succ_ne_zero _), if_neg hzero]
          push_cast
          ring
        unfold ulp
        rw [hexponents, zpow_add_one₀ (by norm_num)]
      rw [hfull, hulp]
      push_cast
      ring

end F64

/-! ## Ties -/

variable {value : F64} {decimals : UInt8}

/-- The product fits in 128 bits, with room to spare. -/
theorem product_lt (value : F64) (hdecimals : decimals ≤ 9) :
    value.mantissa * 5 ^ decimals.toNat < 2 ^ 74 := by
  have hmantissa := value.mantissa_lt
  have hpow : 5 ^ decimals.toNat ≤ 5 ^ 9 := Nat.pow_le_pow_right (by norm_num) hdecimals
  calc value.mantissa * 5 ^ decimals.toNat ≤ value.mantissa * 5 ^ 9 := Nat.mul_le_mul_left _ hpow
    _ < 2 ^ 53 * 5 ^ 9 := Nat.mul_lt_mul_of_pos_right hmantissa (by norm_num)
    _ < 2 ^ 74 := by norm_num

/-- The scaled step is a power of five over a power of two. -/
theorem ulp_scaled (value : F64) (decimals : UInt8) :
    value.ulp * 10 ^ decimals.toNat = 5 ^ decimals.toNat * 2 ^ (-shift value decimals) := by
  have hten : (10 : ℚ) ^ decimals.toNat = 5 ^ decimals.toNat * 2 ^ (decimals.toNat : ℤ) := by
    rw [zpow_natCast, ← mul_pow]
    norm_num
  unfold F64.ulp shift
  rw [hten, neg_neg, zpow_add₀ (by norm_num)]
  ring

/-- A number half way between two decimals has a fraction to it. -/
theorem not_halfWay_of_shift (h : shift value decimals ≤ 0) : ¬HalfWay value decimals.toNat := by
  obtain ⟨k, hk⟩ := Int.eq_ofNat_of_zero_le (Int.neg_nonneg_of_nonpos h)
  have hinteger : value.abs * 10 ^ decimals.toNat =
      (value.mantissa * (5 ^ decimals.toNat * 2 ^ k) : ℕ) := by
    unfold F64.abs
    rw [mul_assoc, ulp_scaled, hk, zpow_natCast]
    push_cast
    ring
  unfold HalfWay
  rw [hinteger, Int.fract_natCast]
  norm_num

/-- The bits after the point are a one and zeros exactly where the number is half way. -/
theorem isTie_iff (hdecimals : decimals ≤ 9) :
    isTie value decimals ↔ HalfWay value decimals.toNat := by
  have hproduct := product_lt value hdecimals
  have hnumerator : numerator value decimals = value.mantissa * 5 ^ decimals.toNat := by
    unfold numerator
    rw [Nat.mod_eq_of_lt]
    omega
  by_cases hshift : shift value decimals ≤ 0
  -- All digits fit: there is no bit after the point.
  · have htie : ¬isTie value decimals := by
      unfold isTie
      simp [show ¬1 ≤ shift value decimals by omega]
    simp [htie, not_halfWay_of_shift hshift]
  -- Scaled by the decimals the number is a product over a power of two.
  · obtain ⟨k, hk⟩ : ∃ k : ℕ, shift value decimals = k + 1 :=
      ⟨(shift value decimals - 1).toNat, by omega⟩
    have hquotient : value.abs * 10 ^ decimals.toNat =
        (value.mantissa * 5 ^ decimals.toNat : ℕ) / (2 ^ (k + 1) : ℕ) := by
      have hcast : (k : ℤ) + 1 = (k + 1 : ℕ) := by push_cast; rfl
      unfold F64.abs
      rw [mul_assoc, ulp_scaled, hk, hcast, zpow_neg, zpow_natCast]
      push_cast
      ring
    -- It is half way where the rest by this power is half of it.
    have hhalf : HalfWay value decimals.toNat ↔
        value.mantissa * 5 ^ decimals.toNat % 2 ^ (k + 1) = 2 ^ k := by
      unfold HalfWay
      rw [hquotient, Int.fract_div_natCast_eq_div_natCast_mod, div_eq_div_iff (by positivity)
        (by norm_num)]
      norm_cast
      rw [Nat.pow_succ]
      omega
    rw [hhalf]
    unfold isTie
    rw [hnumerator, hk]
    have hpoint : ((k : ℤ) + 1).toNat = k + 1 := by omega
    by_cases hlarge : k + 1 < 128
    · have hrange : (1 : ℤ) ≤ k + 1 ∧ (k : ℤ) + 1 < 128 := by omega
      simp [hrange, hpoint, Nat.one_shiftLeft, Nat.and_two_pow_sub_one_eq_mod]
    -- So far down, the product does not reach the bit after the point.
    · have hsmall : value.mantissa * 5 ^ decimals.toNat < 2 ^ k :=
        hproduct.trans_le (Nat.pow_le_pow_right (by norm_num) (by omega))
      have hmod : value.mantissa * 5 ^ decimals.toNat % 2 ^ (k + 1) < 2 ^ k :=
        (Nat.mod_le _ _).trans_lt hsmall
      have hbeyond : ¬(k : ℤ) + 1 < 128 := by omega
      simp [hbeyond, hmod.ne]

/-- At a tie, the step is not equal to the last printed digit. -/
theorem ulp_scaled_ne_one (h : HalfWay value decimals.toNat) :
    value.ulp * 10 ^ decimals.toNat ≠ 1 := by
  have hshift : ¬shift value decimals ≤ 0 := fun hle => not_halfWay_of_shift hle h
  obtain ⟨k, hk⟩ : ∃ k : ℕ, shift value decimals = (k + 1 : ℕ) :=
    ⟨(shift value decimals - 1).toNat, by omega⟩
  rw [ulp_scaled, hk, zpow_neg, zpow_natCast, ← div_eq_mul_inv]
  intro heq
  have hpowers : (5 : ℚ) ^ decimals.toNat = 2 ^ (k + 1) := (div_eq_one_iff_eq (by positivity)).1 heq
  have hnat : 5 ^ decimals.toNat = 2 ^ (k + 1) := by exact_mod_cast hpowers
  -- A power of five is odd.
  have hodd : 5 ^ decimals.toNat % 2 = 1 := by
    rw [Nat.pow_mod]
    norm_num
  rw [hnat, Nat.pow_succ] at hodd
  omega

/-! ## The result -/

/-- The sign is that of the number, but for a negative zero. -/
theorem toRat_neg_iff (value : F64) : value.toRat < 0 ↔ value.negative ∧ value.magnitude ≠ 0 := by
  have hpos := value.abs_pos_iff
  have hnonneg := value.abs_nonneg
  rw [← hpos]
  unfold F64.toRat
  cases value.negative with
  | true => simp
  | false => simpa using hnonneg

/-- Away from ties, the formatter prints what it should. -/
theorem format_addZero (h : ¬HalfWay value decimals.toNat) :
    value.addZero.format decimals.toNat = toFixed value decimals.toNat := by
  have habs : value.addZero.abs = value.abs := rfl
  have hsign : value.addZero.negative = decide (value.toRat < 0) := by
    have hiff := toRat_neg_iff value
    rw [Bool.eq_iff_iff, decide_eq_true_iff, hiff]
    simp [F64.addZero]
  unfold F64.format toFixed
  rw [habs, halfEven_eq_round h, hsign]
  simp

/-- At a tie, the next number is printed. -/
theorem format_next_eq_iff (hfinite : value.isFinite) (h : HalfWay value decimals.toNat) :
    value.next.format decimals.toNat = toFixed value decimals.toNat ↔
      value.ulp * 10 ^ decimals.toNat < 1 := by
  have hne := ulp_scaled_ne_one h
  have hpos : 0 < value.ulp * 10 ^ decimals.toNat := by
    have hulp := value.ulp_pos
    positivity
  -- The next number is one step above, with the same sign: a tie is not zero.
  have habs : value.next.abs * 10 ^ decimals.toNat =
      value.abs * 10 ^ decimals.toNat + value.ulp * 10 ^ decimals.toNat := by
    rw [value.abs_next hfinite]
    ring
  have hmagnitude : value.magnitude ≠ 0 := by
    rw [← value.abs_pos_iff]
    refine value.abs_nonneg.lt_of_ne fun hzero => ?_
    unfold HalfWay at h
    rw [← hzero, zero_mul, Int.fract_zero] at h
    norm_num at h
  have hsign : value.next.negative = decide (value.toRat < 0) := by
    have hiff := toRat_neg_iff value
    rw [Bool.eq_iff_iff, decide_eq_true_iff, hiff]
    simp [F64.next, hmagnitude]
  unfold F64.format toFixed
  rw [habs, hsign]
  constructor
  -- A step of one or more comes too far: the text of a larger number is another one.
  · intro heq
    by_contra hle
    have hgap := round_lt_halfEven_add h (lt_of_le_of_ne (not_lt.1 hle) hne.symm)
    have hfloor : 0 ≤ ⌊value.abs * 10 ^ decimals.toNat⌋ := by
      have hnonneg := value.abs_nonneg
      exact Int.floor_nonneg.2 (by positivity)
    have hround := round_of_tie h
    simp only [decide_eq_true_eq] at heq
    have hnumbers := decimal_injective decimals.toNat (String.append_right_inj _ |>.1 heq)
    omega
  · intro hlt
    rw [halfEven_add h hpos hlt]
    simp

/-- For finite numbers and up to nine decimals the product does not overflow, and the result is the
decimal string of the exactly rounded number if and only if the number is not half way between two
decimals, or the step to the next number is smaller than the last printed digit. -/
theorem fixedDecimal_eq_iff (value : F64) (decimals : UInt8) (hfinite : value.isFinite)
    (hdecimals : decimals ≤ 9) :
    value.mantissa * 5 ^ decimals.toNat < 2 ^ 128 ∧
      (fixedDecimal value decimals = some (toFixed value decimals.toNat) ↔
        (HalfWay value decimals.toNat → value.ulp * 10 ^ decimals.toNat < 1)) := by
  have hproduct := product_lt value hdecimals
  refine ⟨by omega, ?_⟩
  have hguard : (!value.isFinite || decide (decimals > 9)) = false := by
    have hle : ¬decimals > 9 := UInt8.not_lt.2 hdecimals
    simp [hfinite, hle]
  have htie : isTie value decimals ↔ HalfWay value decimals.toNat := isTie_iff hdecimals
  unfold fixedDecimal
  rw [if_neg (by simp [hguard])]
  by_cases h : HalfWay value decimals.toNat
  · rw [if_pos (htie.2 h), Option.some.injEq, format_next_eq_iff hfinite h]
    simp [h]
  · rw [if_neg (mt htie.1 h), Option.some.injEq, format_addZero h]
    simp [h]

/-- Two and a half, without decimals. -/
theorem fixedDecimal_eq_iff_half :
    fixedDecimal ⟨false, 0x4004000000000000, by decide⟩ 0 = some "3" :=
  ((fixedDecimal_eq_iff ⟨false, 0x4004000000000000, by decide⟩ 0 (by decide) (by decide)).2.2
    fun _ => by decide +kernel).trans (by decide +kernel)

/-- The number `2 ^ 42 + 2 ^ (-10)` is half way between two decimals with nine fraction digits, and
the next number is almost a thousandth above it. -/
theorem fixedDecimal_wrong :
    fixedDecimal ⟨false, 0x4290000000000001, by decide⟩ 9 = some "4398046511104.001953125" ∧
      toFixed ⟨false, 0x4290000000000001, by decide⟩ 9 = "4398046511104.000976563" := by
  decide +kernel

end DaemonFramework.Decimal
