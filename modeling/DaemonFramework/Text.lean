import Mathlib.Algebra.Ring.Int.Defs
import Mathlib.Algebra.Ring.Nat
import Mathlib.Data.List.Basic

/-!
# Text of the standard library

The methods of `str` that the sources parse text with, on lists of characters: `trim` and its kind
take the white space of Unicode, `splitOnce` splits at the first occurrence of a character, and
`parseSigned` and `parseUnsigned` are `from_str_radix` of the integers of some width.
-/

namespace DaemonFramework.Text

/-- `char::is_whitespace`: the property `White_Space` of Unicode. -/
def isWhitespace (c : Char) : Bool :=
  (0x9 ≤ c.toNat && c.toNat ≤ 0xd) || (0x2000 ≤ c.toNat && c.toNat ≤ 0x200a) ||
    c.toNat ∈ [0x20, 0x85, 0xa0, 0x1680, 0x2028, 0x2029, 0x202f, 0x205f, 0x3000]

/-- `trim_start`. -/
def trimStart (text : List Char) : List Char := text.dropWhile isWhitespace

/-- `trim_end`. -/
def trimEnd (text : List Char) : List Char := (text.reverse.dropWhile isWhitespace).reverse

/-- `trim`. -/
def trim (text : List Char) : List Char := trimEnd (trimStart text)

/-- `split_whitespace`. -/
def splitWhitespace (text : List Char) : List (List Char) :=
  (text.splitOnP isWhitespace).filter (· ≠ [])

/-- `split_once`: what is before the first occurrence of a character, and what is behind it. -/
def splitOnce (separator : Char) : List Char → Option (List Char × List Char)
  | [] => none
  | c :: rest =>
    if c = separator then some ([], rest)
    else (splitOnce separator rest).map fun (before, behind) => (c :: before, behind)

/-- `strip_prefix`. -/
def stripPrefix (start text : List Char) : Option (List Char) :=
  if start.isPrefixOf text then some (text.drop start.length) else none

/-- `strip_suffix`. -/
def stripSuffix (tail text : List Char) : Option (List Char) :=
  if tail.isSuffixOf text then some (text.take (text.length - tail.length)) else none

/-! ## Integers -/

/-- `char::to_digit`. -/
def toDigit (radix : ℕ) (c : Char) : Option ℕ :=
  let value :=
    if '0' ≤ c ∧ c ≤ '9' then some (c.toNat - '0'.toNat)
    else if 'a' ≤ c ∧ c ≤ 'z' then some (c.toNat - 'a'.toNat + 10)
    else if 'A' ≤ c ∧ c ≤ 'Z' then some (c.toNat - 'A'.toNat + 10)
    else none
  value.filter (· < radix)

/-- The value of digits, read behind a value. -/
def digitsValue (radix : ℕ) (value : ℕ) (digits : List Char) : Option ℕ :=
  digits.foldlM (fun value c => (toDigit radix c).map (value * radix + ·)) value

/-- The value of digits, of which there is one at least. -/
def parseDigits (radix : ℕ) (digits : List Char) : Option ℕ :=
  if digits = [] then none else digitsValue radix 0 digits

/-- `from_str_radix` of an unsigned integer, which has no sign but `+`. -/
def parseUnsigned (bits radix : ℕ) (text : List Char) : Option ℕ :=
  let digits := if text.head? = some '+' then text.tail else text
  (parseDigits radix digits).filter (· < 2 ^ bits)

/-- `from_str_radix` of a signed integer. -/
def parseSigned (bits radix : ℕ) (text : List Char) : Option ℤ :=
  let value : Option ℤ :=
    if text.head? = some '-' then (parseDigits radix text.tail).map fun value : ℕ => -(value : ℤ)
    else if text.head? = some '+' then (parseDigits radix text.tail).map fun value : ℕ => (value : ℤ)
    else (parseDigits radix text).map fun value : ℕ => (value : ℤ)
  value.filter fun value => -2 ^ (bits - 1) ≤ value ∧ value < 2 ^ (bits - 1)

example : parseSigned 8 10 "-128".toList = some (-128) ∧ parseSigned 8 16 "+80".toList = none := by decide

/-- A text that starts so is stripped. -/
theorem stripPrefix_append (start rest : List Char) :
    stripPrefix start (start ++ rest) = some rest := by
  simp [stripPrefix]

/-- A text is split where the character is first. -/
theorem splitOnce_append {separator : Char} {before behind : List Char} (h : separator ∉ before) :
    splitOnce separator (before ++ separator :: behind) = some (before, behind) := by
  induction before with
  | nil => simp [splitOnce]
  | cons c before ih =>
    have hc : c ≠ separator := fun heq => h (List.mem_cons.mpr (.inl heq.symm))
    have hrest : separator ∉ before := fun hmem => h (List.mem_cons_of_mem c hmem)
    rw [List.cons_append, splitOnce, if_neg hc, ih hrest]
    rfl

/-! ### Printed integers are parsed -/

/-- A number is the value of its digits. -/
theorem digitsValue_toDigits {radix : ℕ} (hlow : 1 < radix) (hhigh : radix ≤ 16) (n : ℕ) :
    digitsValue radix 0 (Nat.toDigits radix n) = some n := by
  have hchar : ∀ r ≤ 16, ∀ d < r, toDigit r (Nat.digitChar d) = some d := by decide
  induction n using Nat.strongRecOn with
  | _ n ih =>
    rw [Nat.toDigits_eq_if hlow]
    split
    · rename_i hlt
      simp [digitsValue, hchar radix hhigh n hlt]
    · rename_i hge
      have hdiv : n / radix < n := Nat.div_lt_self (by omega) hlow
      have hlast := hchar radix hhigh (n % radix) (Nat.mod_lt _ (by omega))
      have hvalue : n / radix * radix + n % radix = n := Nat.div_add_mod' n radix
      unfold digitsValue at ih ⊢
      rw [List.foldlM_append, ih (n / radix) hdiv]
      simp [hlast, hvalue]

/-- A number is determined by its digits. -/
theorem toDigits_inj {radix m n : ℕ} (hlow : 1 < radix) (hhigh : radix ≤ 16) :
    Nat.toDigits radix m = Nat.toDigits radix n ↔ m = n := by
  constructor
  · intro h
    have hvalue := congrArg (digitsValue radix 0) h
    rw [digitsValue_toDigits hlow hhigh, digitsValue_toDigits hlow hhigh] at hvalue
    exact Option.some.inj hvalue
  · rintro rfl
    rfl

/-- A number is parsed from its digits. -/
theorem parseDigits_toDigits (n : ℕ) : parseDigits 10 (Nat.toDigits 10 n) = some n := by
  unfold parseDigits
  rw [if_neg Nat.toDigits_ne_nil]
  exact digitsValue_toDigits (by decide) (by decide) n

/-- The characters of a printed integer. -/
theorem mem_repr {c : Char} {n : ℤ} (h : c ∈ n.repr.toList) : c.isDigit ∨ c = '-' := by
  have hdigits : ∀ m : ℕ, c ∈ Nat.toDigits 10 m → c.isDigit :=
    fun m hm => Nat.isDigit_of_mem_toDigits (by decide) (by decide) hm
  cases n with
  | ofNat m =>
    have hm : c ∈ (Nat.repr m).toList := h
    rw [Nat.toList_repr] at hm
    exact .inl (hdigits m hm)
  | negSucc m =>
    have hm : c ∈ ("-" ++ Nat.repr (m + 1)).toList := h
    rw [String.toList_append, Nat.toList_repr, List.mem_append] at hm
    obtain hsign | hm := hm
    · exact .inr (by simpa using hsign)
    · exact .inl (hdigits _ hm)

/-- An integer of the width is parsed from its text. -/
theorem parseSigned_repr {bits : ℕ} {n : ℤ} (hlow : -2 ^ (bits - 1) ≤ n)
    (hhigh : n < 2 ^ (bits - 1)) :
    parseSigned bits 10 n.repr.toList = some n := by
  cases n with
  | ofNat m =>
    have htext : (Int.ofNat m).repr.toList = Nat.toDigits 10 m := Nat.toList_repr
    -- The text of a natural number begins with a digit, so there is no sign to be read.
    have hhead : ∀ c, c.isDigit = false → (Nat.toDigits 10 m).head? ≠ some c := by
      intro c hc hhead
      have hmem := Nat.isDigit_of_mem_toDigits (by decide) (by decide) (List.mem_of_mem_head? hhead)
      rw [hc] at hmem
      cases hmem
    unfold parseSigned
    rw [htext, if_neg (hhead '-' (by decide)), if_neg (hhead '+' (by decide)), parseDigits_toDigits]
    simp only [Int.ofNat_eq_natCast] at hlow hhigh ⊢
    simp [hlow, hhigh]
  | negSucc m =>
    have htext : (Int.negSucc m).repr.toList = '-' :: Nat.toDigits 10 (m + 1) := by
      have hrepr : (Int.negSucc m).repr = "-" ++ Nat.repr (m + 1) := rfl
      rw [hrepr, String.toList_append, Nat.toList_repr]
      rfl
    have hvalue : -((m + 1 : ℕ) : ℤ) = Int.negSucc m := rfl
    unfold parseSigned
    rw [htext, List.head?_cons, if_pos rfl, List.tail_cons, parseDigits_toDigits]
    rw [Option.map_some, hvalue]
    simp [hlow, hhigh]

end DaemonFramework.Text
