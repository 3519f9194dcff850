import DaemonFramework.Text
import Mathlib.Data.Nat.Digits.Defs

/-!
# Minted identities

`IdSequence` of `shelllist-daemon-core/src/endpoint.rs` and `new_owner` of
`shelllist-daemon-tokio/src/socket.rs`. Both print a counter behind a separator. The counter is an
`AtomicU64`, so each call takes a value of its own until it wraps. `next_eq_iff` and `owner_eq_iff`
say exactly when two calls give one name, which rests on two facts about text: what is behind the
last separator is determined, and so is a number by its digits.

`new_owner` reads its entropy in a loop, as much at a time as the kernel gives. `fill_chunks` says
that only the bytes count, and not how they came.
-/

namespace DaemonFramework

namespace Text

/-- The last occurrence of a character splits a text in one way. -/
theorem append_separator_inj {separator : Char} {a b x y : List Char} (hx : separator ∉ x)
    (hy : separator ∉ y) : a ++ separator :: x = b ++ separator :: y ↔ a = b ∧ x = y := by
  constructor
  · intro h
    have hsplit : ∀ {u v : List Char}, separator ∉ v →
        splitOnce separator (u ++ separator :: v).reverse = some (v.reverse, u.reverse) := by
      intro u v hv
      have hv' : separator ∉ v.reverse := by rwa [List.mem_reverse]
      rw [List.reverse_append, List.reverse_cons, List.append_assoc]
      exact splitOnce_append hv'
    have hpair := (hsplit hx).symm.trans
      ((congrArg (splitOnce separator ·.reverse) h).trans (hsplit hy))
    rw [Option.some.injEq, Prod.mk.injEq, List.reverse_inj, List.reverse_inj] at hpair
    exact ⟨hpair.2, hpair.1⟩
  · rintro ⟨rfl, rfl⟩
    rfl

/-- The digits of a number that are not decimal are no separators either. -/
theorem isAlphanum_of_mem_toDigits {b n : ℕ} (hb : 1 < b) (hb' : b ≤ 16) {c : Char}
    (hc : c ∈ Nat.toDigits b n) : c.isAlphanum := by
  have hdigit : ∀ d < 16, (Nat.digitChar d).isAlphanum := by decide
  induction n using Nat.strongRecOn with
  | _ n ih =>
    rw [Nat.toDigits_eq_if hb] at hc
    split at hc
    · rename_i hlt
      obtain rfl := List.mem_singleton.1 hc
      exact hdigit n (by omega)
    · rename_i hge
      obtain hc | hc := List.mem_append.1 hc
      · exact ih (n / b) (Nat.div_lt_self (by omega) hb) hc
      · obtain rfl := List.mem_singleton.1 hc
        exact hdigit (n % b) (lt_of_lt_of_le (Nat.mod_lt _ (by omega)) hb')

/-- Leading zeros do not count. -/
theorem digitsValue_replicate_zero {radix : ℕ} (h : 0 < radix) (k : ℕ) (digits : List Char) :
    digitsValue radix 0 (List.replicate k '0' ++ digits) = digitsValue radix 0 digits := by
  have hzero : toDigit radix '0' = some 0 := by simp [toDigit, h]
  induction k with
  | zero => rfl
  | succ k ih =>
    rw [← ih]
    simp [digitsValue, List.replicate_succ, hzero]

/-- `format!` with a width and leading zeros: `{:032x}` is `padded 32 16`. -/
def padded (width radix n : ℕ) : List Char := (Nat.toDigits radix n).leftpad width '0'

/-- A number is determined by its padded digits. -/
theorem padded_inj {width radix m n : ℕ} (hlow : 1 < radix) (hhigh : radix ≤ 16) :
    padded width radix m = padded width radix n ↔ m = n := by
  have hvalue : ∀ k, digitsValue radix 0 (padded width radix k) = some k := by
    intro k
    unfold padded List.leftpad
    rw [digitsValue_replicate_zero (by omega), digitsValue_toDigits hlow hhigh]
  constructor
  · intro h
    have heq := congrArg (digitsValue radix 0) h
    rw [hvalue, hvalue] at heq
    exact Option.some.inj heq
  · rintro rfl
    rfl

end Text

/-- `IdSequence`: the value that the next call takes. -/
structure IdSequence where
  /-- The counter. -/
  value : UInt64
deriving DecidableEq

namespace IdSequence

/-- `new`. -/
def new (first : UInt64) : IdSequence := ⟨first⟩

instance : Inhabited IdSequence := ⟨.new 1⟩

/-- `next`: the id, and the sequence behind the `fetch_add`, which wraps. -/
def next (s : IdSequence) (stem : String) : String × IdSequence :=
  (stem ++ "-" ++ Nat.repr s.value.toNat, ⟨s.value + 1⟩)

/-- Two calls give one id exactly if they have the prefix and the value of the counter in common. -/
theorem next_eq_iff {s t : IdSequence} {p q : String} :
    (s.next p).1 = (t.next q).1 ↔ p = q ∧ s.value = t.value := by
  have hdash : ∀ n : ℕ, '-' ∉ Nat.toDigits 10 n := by
    intro n hmem
    have halnum := Text.isAlphanum_of_mem_toDigits (by decide) (by decide) hmem
    cases halnum
  have htext : ∀ (s : IdSequence) (p : String),
      (s.next p).1.toList = p.toList ++ '-' :: Nat.toDigits 10 s.value.toNat := by
    intro s p
    unfold next
    rw [String.toList_append, String.toList_append, Nat.toList_repr, List.append_assoc]
    rfl
  rw [← String.toList_inj, htext, htext, Text.append_separator_inj (hdash _) (hdash _),
    Text.toDigits_inj (by decide) (by decide), String.toList_inj, UInt64.toNat_inj]

end IdSequence

namespace Socket

/-- Why a connection gets no owner. -/
inductive OwnerError (ε : Type*) where
  /-- `getrandom` failed: "mint socket owner identity". -/
  | mint (error : ε)
  /-- `getrandom` returned nothing: "kernel returned no socket owner entropy". -/
  | empty

variable {ε : Type*}

/-- The loop of `new_owner` over what the calls of `getrandom` return, which is at most what is left
of the buffer; `none` if it goes on behind them. -/
def fill (filled : List UInt8) : List (Except ε (List UInt8)) →
    Option (Except (OwnerError ε) (List UInt8))
  | [] => if filled.length < 16 then none else some (.ok filled)
  | read :: reads =>
    if filled.length < 16 then
      match read with
      | .error error => some (.error (.mint error))
      | .ok bytes =>
        if bytes = [] then some (.error .empty)
        else fill (filled ++ bytes.take (16 - filled.length)) reads
    else some (.ok filled)

/-- The name of an owner: `unix:{:032x}:{}`. -/
def ownerName (bytes : List UInt8) (count : UInt64) : List Char :=
  "unix:".toList ++ Text.padded 32 16 (Nat.ofDigits 256 (bytes.map UInt8.toNat)) ++
    ':' :: Nat.toDigits 10 count.toNat

/-- `new_owner`: the owner, and `NEXT_OWNER` behind the call. -/
def newOwner (count : UInt64) (reads : List (Except ε (List UInt8))) :
    Option (Except (OwnerError ε) (List Char) × UInt64) :=
  (fill [] reads).map fun
    | .error error => (.error error, count)
    | .ok bytes => (.ok (ownerName bytes count), count + 1)

/-- The buffer is full at the end of the loop. -/
theorem length_of_fill {filled bytes : List UInt8} {reads : List (Except ε (List UInt8))}
    (hfilled : filled.length ≤ 16) (h : fill filled reads = some (.ok bytes)) :
    bytes.length = 16 := by
  have hfull : ∀ {filled : List UInt8}, filled.length ≤ 16 → ¬filled.length < 16 →
      some (.ok filled) = some (.ok bytes : Except (OwnerError ε) (List UInt8)) →
      bytes.length = 16 := by
    intro filled hle hnot heq
    obtain rfl := Except.ok.inj (Option.some.inj heq)
    omega
  induction reads generalizing filled with
  | nil =>
    unfold fill at h
    split at h
    · cases h
    · rename_i hnot
      exact hfull hfilled hnot h
  | cons read reads ih =>
    unfold fill at h
    split at h
    · cases read with
      | error error => cases h
      | ok chunk =>
        dsimp only at h
        split at h
        · cases h
        · refine ih ?_ h
          rw [List.length_append, List.length_take]
          omega
    · rename_i hnot
      exact hfull hfilled hnot h

/-- Only the bytes count, and not in which pieces the kernel returned them. -/
theorem fill_chunks {filled : List UInt8} {chunks : List (List UInt8)}
    (hfilled : filled.length ≤ 16)
    (hempty : [] ∉ chunks) (hlong : 16 ≤ filled.length + chunks.flatten.length) :
    fill (ε := ε) filled (chunks.map .ok) = some (.ok ((filled ++ chunks.flatten).take 16)) := by
  induction chunks generalizing filled with
  | nil =>
    rw [List.flatten_nil, List.length_nil] at hlong
    rw [List.map_nil, fill, if_neg (by omega), List.flatten_nil, List.append_nil,
      List.take_of_length_le hfilled]
  | cons chunk chunks ih =>
    rw [List.map_cons, fill]
    split
    · rename_i hlt
      have hchunk : chunk ≠ [] := fun h => hempty (h ▸ List.mem_cons_self)
      have hrest : [] ∉ chunks := fun h => hempty (List.mem_cons_of_mem _ h)
      rw [if_neg hchunk]
      rw [List.flatten_cons, List.length_append] at hlong
      by_cases hfits : chunk.length ≤ 16 - filled.length
      · have hlen : (filled ++ chunk).length = filled.length + chunk.length := List.length_append
        rw [List.take_of_length_le hfits, ih (by omega) hrest (by omega), List.flatten_cons,
          List.append_assoc]
      -- The chunk fills the buffer, and the chunks behind it are not asked for.
      · have hfull : (filled ++ chunk.take (16 - filled.length)).length = 16 := by
          rw [List.length_append, List.length_take]
          omega
        have hdone : ∀ reads : List (Except ε (List UInt8)),
            fill (filled ++ chunk.take (16 - filled.length)) reads =
              some (.ok (filled ++ chunk.take (16 - filled.length))) := by
          intro reads
          cases reads <;> exact if_neg (by omega)
        rw [hdone, List.flatten_cons, List.take_append, List.take_of_length_le hfilled,
          List.take_append_of_le_length (by omega)]
    · rename_i hnot
      rw [List.take_append_of_le_length (by omega), List.take_of_length_le hfilled]

/-- Two calls give one owner exactly if they have the entropy and the value of the counter in
common. -/
theorem ownerName_eq_iff {a b : List UInt8} {m n : UInt64} (ha : a.length = 16)
    (hb : b.length = 16) : ownerName a m = ownerName b n ↔ a = b ∧ m = n := by
  have hcolon : ∀ n : ℕ, ':' ∉ Nat.toDigits 10 n := by
    intro n hmem
    have halnum := Text.isAlphanum_of_mem_toDigits (by decide) (by decide) hmem
    cases halnum
  have hbytes : Nat.ofDigits 256 (a.map UInt8.toNat) = Nat.ofDigits 256 (b.map UInt8.toNat) ↔
      a = b := by
    have hbyte : ∀ bytes : List UInt8, ∀ d ∈ bytes.map UInt8.toNat, d < 256 := by
      intro bytes d hd
      obtain ⟨byte, -, rfl⟩ := List.mem_map.1 hd
      exact byte.toNat_lt
    constructor
    · intro h
      have hlist := Nat.ofDigits_inj_of_len_eq (by decide) (by simp [ha, hb]) (hbyte a) (hbyte b) h
      exact List.map_injective_iff.2 (fun _ _ => UInt8.toNat_inj.1) hlist
    · rintro rfl
      rfl
  unfold ownerName
  rw [Text.append_separator_inj (hcolon _) (hcolon _), List.append_cancel_left_eq,
    Text.padded_inj (by decide) (by decide), hbytes, Text.toDigits_inj (by decide) (by decide),
    UInt64.toNat_inj]

end Socket

end DaemonFramework
