import DaemonFramework.Json
import DaemonFramework.Text

/-!
# JSON text

The compact text of a JSON value, as `serde_json` writes it: without white space, with an escape for
each character below U+0020, quote and backslash. The text of a float is a parameter, of which only
the alphabet counts and that different floats have different texts.

Such a text has no character below U+0020 (`isPlain_text`), and a value is determined by it, even
with more behind it as long as a number does not go on there (`text_inj`).
-/

namespace DaemonFramework

/-- A number as `serde_json` keeps it: a negative integer is negative. -/
def Number.Proper : Number → Prop
  | .negInt n => n.toInt < 0
  | _ => True

namespace JsonText

/-! ## Strings -/

/-- The escapes of one letter. -/
def letterEscape (c : Char) : Option Char :=
  if c = '"' then some '"'
  else if c = '\\' then some '\\'
  else if c = '\x08' then some 'b'
  else if c = '\x0c' then some 'f'
  else if c = '\n' then some 'n'
  else if c = '\r' then some 'r'
  else if c = '\t' then some 't'
  else none

/-- The character that an escape of one letter stands for. -/
def letterValue (letter : Char) : Char :=
  if letter = 'b' then '\x08'
  else if letter = 'f' then '\x0c'
  else if letter = 'n' then '\n'
  else if letter = 'r' then '\r'
  else if letter = 't' then '\t'
  else letter

/-- The text of a character in a string. -/
def escape (c : Char) : List Char :=
  match letterEscape c with
  | some letter => ['\\', letter]
  | none =>
    if c.toNat < 32 then
      ['\\', 'u', '0', '0', Nat.digitChar (c.toNat / 16), Nat.digitChar (c.toNat % 16)]
    else [c]

/-- The text of a string. -/
def quoted (text : List Char) : List Char := '"' :: (text.flatMap escape ++ ['"'])

example : quoted "a\"\n\x01".toList = "\"a\\\"\\n\\u0001\"".toList := by decide

/-- What the text of a character is. -/
theorem escape_cases (c : Char) :
    (∃ letter, letterEscape c = some letter ∧ escape c = ['\\', letter]) ∨
      (c.toNat < 32 ∧ escape c =
        ['\\', 'u', '0', '0', Nat.digitChar (c.toNat / 16), Nat.digitChar (c.toNat % 16)]) ∨
      (32 ≤ c.toNat ∧ c ≠ '"' ∧ c ≠ '\\' ∧ escape c = [c]) := by
  unfold escape
  cases hletter : letterEscape c with
  | some letter => exact .inl ⟨letter, rfl, rfl⟩
  | none =>
    have hquote : c ≠ '"' := by
      rintro rfl
      cases hletter
    have hbackslash : c ≠ '\\' := by
      rintro rfl
      cases hletter
    by_cases hcontrol : c.toNat < 32
    · exact .inr (.inl ⟨hcontrol, if_pos hcontrol⟩)
    · exact .inr (.inr ⟨Nat.not_lt.1 hcontrol, hquote, hbackslash, if_neg hcontrol⟩)

/-- The letter of an escape is no `u`, and it determines the character. -/
theorem letterEscape_inj {c letter : Char} (hc : letterEscape c = some letter) :
    letter ≠ 'u' ∧ ∀ d, letterEscape d = some letter → c = d := by
  have hvalue : ∀ d, letterEscape d = some letter → letter ≠ 'u' ∧ letterValue letter = d := by
    intro d hd
    unfold letterEscape at hd
    split_ifs at hd <;> cases hd <;> subst d <;> decide
  refine ⟨(hvalue c hc).1, fun d hd => ?_⟩
  rw [← (hvalue c hc).2, (hvalue d hd).2]

/-- The digits of an escape determine the character. -/
theorem digits_inj {c d : Char} (hc : c.toNat < 32) (hd : d.toNat < 32)
    (hhigh : Nat.digitChar (c.toNat / 16) = Nat.digitChar (d.toNat / 16))
    (hlow : Nat.digitChar (c.toNat % 16) = Nat.digitChar (d.toNat % 16)) : c = d := by
  have hinj : ∀ a < 16, ∀ b < 16, Nat.digitChar a = Nat.digitChar b → a = b := by decide
  have hdiv := hinj _ (by omega) _ (by omega) hhigh
  have hmod := hinj _ (by omega) _ (by omega) hlow
  have hnat : c.toNat = d.toNat := by omega
  exact Char.toNat_inj.1 hnat

/-- A character is determined by its text, and where it ends. -/
theorem escape_inj {c d : Char} {r t : List Char} (h : escape c ++ r = escape d ++ t) :
    c = d ∧ r = t := by
  rcases escape_cases c with ⟨x, hx, hc⟩ | ⟨hlow, hc⟩ | ⟨hlow, hquote, hbackslash, hc⟩ <;>
    rcases escape_cases d with ⟨y, hy, hd⟩ | ⟨hlow', hd⟩ | ⟨hlow', hquote', hbackslash', hd⟩ <;>
    rw [hc, hd] at h <;>
    simp only [List.cons_append, List.nil_append, List.cons.injEq, true_and] at h
  · obtain ⟨rfl, hrest⟩ := h
    exact ⟨(letterEscape_inj hx).2 d hy, hrest⟩
  · exact absurd h.1 (letterEscape_inj hx).1
  · exact absurd h.1.symm hbackslash'
  · exact absurd h.1.symm (letterEscape_inj hy).1
  · exact ⟨digits_inj hlow hlow' h.1 h.2.1, h.2.2⟩
  · exact absurd h.1.symm hbackslash'
  · exact absurd h.1 hbackslash
  · exact absurd h.1 hbackslash
  · exact h

/-- A quote does not begin the text of a character. -/
theorem escape_ne_quote {c : Char} {r t : List Char} : escape c ++ r ≠ '"' :: t := by
  rcases escape_cases c with ⟨x, -, hc⟩ | ⟨-, hc⟩ | ⟨-, hquote, -, hc⟩ <;> rw [hc]
  · simp
  · simp
  · simp [hquote]

/-- A string is determined by its text, and where it ends. -/
theorem quoted_inj {a b r t : List Char} (h : quoted a ++ r = quoted b ++ t) : a = b ∧ r = t := by
  -- By induction on the first string: each character is determined by its escape.
  have hbody : ∀ a b : List Char, a.flatMap escape ++ '"' :: r = b.flatMap escape ++ '"' :: t →
      a = b ∧ r = t := by
    intro a
    induction a with
    | nil =>
      intro b h
      cases b with
      | nil => exact ⟨rfl, (List.cons.inj h).2⟩
      | cons d b =>
        rw [List.flatMap_cons, List.append_assoc] at h
        exact absurd h.symm escape_ne_quote
    | cons c a ih =>
      intro b h
      rw [List.flatMap_cons, List.append_assoc] at h
      cases b with
      | nil => exact absurd h escape_ne_quote
      | cons d b =>
        rw [List.flatMap_cons, List.append_assoc] at h
        obtain ⟨rfl, hrest⟩ := escape_inj h
        obtain ⟨rfl, hend⟩ := ih b hrest
        exact ⟨rfl, hend⟩
  apply hbody
  simpa [quoted] using h

/-- A character from U+0020 on. -/
def IsPlain (c : Char) : Prop := 32 ≤ c.toNat

instance (c : Char) : Decidable (IsPlain c) := by
  unfold IsPlain
  infer_instance

/-- The text of a string has no others. -/
theorem isPlain_quoted {text : List Char} : ∀ c ∈ quoted text, IsPlain c := by
  have hdigit : ∀ d < 16, 32 ≤ (Nat.digitChar d).toNat := by decide
  -- An escape has a letter or hexadecimal digits, and what is not escaped is printable.
  have hescape : ∀ c, ∀ x ∈ escape c, IsPlain x := by
    intro c x hx
    unfold IsPlain
    rcases escape_cases c with ⟨letter, hletter, hc⟩ | ⟨hlow, hc⟩ | ⟨hlow, -, -, hc⟩ <;>
      rw [hc] at hx
    · have hplain : 32 ≤ letter.toNat := by
        unfold letterEscape at hletter
        split_ifs at hletter <;> cases hletter <;> decide
      simp only [List.mem_cons, List.not_mem_nil, or_false] at hx
      rcases hx with rfl | rfl
      · decide
      · exact hplain
    · simp only [List.mem_cons, List.not_mem_nil, or_false] at hx
      rcases hx with rfl | rfl | rfl | rfl | rfl | rfl
      · decide
      · decide
      · decide
      · decide
      · exact hdigit _ (by omega)
      · exact hdigit _ (by omega)
    · rw [List.mem_singleton.1 hx]
      exact hlow
  intro c hc
  simp only [quoted, List.mem_cons, List.mem_append, List.mem_flatMap, List.not_mem_nil,
    or_false] at hc
  rcases hc with rfl | ⟨d, -, hd⟩ | rfl
  · decide
  · exact hescape d c hd
  · decide

/-! ## Numbers -/

/-- A character of a number. -/
def isNumberChar (c : Char) : Bool := c.isDigit || c ∈ ['-', '+', '.', 'e']

/-- How floats are written: in the alphabet of numbers, with a point or an exponent, and different
floats differently. -/
structure FloatText where
  /-- The text of a float, which is given by its bits. -/
  text : UInt64 → List Char
  /-- Its characters. -/
  alphabet : ∀ bits, ∀ c ∈ text bits, isNumberChar c
  /-- It is no integer. -/
  fraction : ∀ bits, '.' ∈ text bits ∨ 'e' ∈ text bits
  /-- A float is determined by it. -/
  injective : Function.Injective text

/-- The text of a number. -/
def numberText (floats : FloatText) : Number → List Char
  | .posInt n => Nat.toDigits 10 n.toNat
  | .negInt n => '-' :: Nat.toDigits 10 n.toInt.natAbs
  | .float bits => floats.text bits

/-- The characters of a number are such. -/
theorem isPlain_of_isNumberChar {c : Char} (h : isNumberChar c = true) : IsPlain c := by
  unfold isNumberChar at h
  rcases Bool.or_eq_true_iff.1 h with hdigit | hsign
  · have hrange : 48 ≤ c.val ∧ c.val ≤ 57 := by simpa [Char.isDigit] using hdigit
    have hlow : 48 ≤ c.toNat := hrange.1
    exact Nat.le_trans (by decide) hlow
  · simp only [List.mem_cons, List.not_mem_nil, or_false, decide_eq_true_eq] at hsign
    rcases hsign with rfl | rfl | rfl | rfl <;> decide

variable {floats : FloatText}

/-- The digits of an integer. -/
theorem isDigit_of_mem {n : ℕ} {c : Char} (h : c ∈ Nat.toDigits 10 n) : c.isDigit = true :=
  Nat.isDigit_of_mem_toDigits (by decide) (by decide) h

/-- The characters of a number. -/
theorem isNumberChar_numberText {n : Number} : ∀ c ∈ numberText floats n, isNumberChar c := by
  intro c hc
  cases n with
  | posInt n => simp [isNumberChar, isDigit_of_mem hc]
  | negInt n =>
    rcases List.mem_cons.1 hc with rfl | hc
    · decide
    · simp [isNumberChar, isDigit_of_mem hc]
  | float bits => exact floats.alphabet bits c hc

/-- A number has a text. -/
theorem numberText_ne_nil {n : Number} : numberText floats n ≠ [] := by
  cases n with
  | posInt n => exact Nat.toDigits_ne_nil
  | negInt n => exact List.cons_ne_nil _ _
  | float bits =>
    rcases floats.fraction bits with h | h <;> exact List.ne_nil_of_mem h

/-- A float is not written as an integer. -/
theorem float_ne_digits {bits : UInt64} {n : ℕ} (sign : List Char) (hsign : sign ∈ [[], ['-']]) :
    floats.text bits ≠ sign ++ Nat.toDigits 10 n := by
  intro h
  have hnone : ∀ c ∈ floats.text bits, c.isDigit ∨ c = '-' := by
    intro c hc
    rw [h] at hc
    rcases List.mem_append.1 hc with hc | hc
    · simp only [List.mem_cons, List.not_mem_nil, or_false] at hsign
      rcases hsign with rfl | rfl
      · cases hc
      · exact .inr (List.mem_singleton.1 hc)
    · exact .inl (isDigit_of_mem hc)
  rcases floats.fraction bits with hc | hc <;> exact absurd (hnone _ hc) (by decide)

/-- A number is determined by its text. -/
theorem numberText_inj {m n : Number} (hm : m.Proper) (hn : n.Proper)
    (h : numberText floats m = numberText floats n) : m = n := by
  -- No digit is a minus sign.
  have hminus : ∀ k l : ℕ, Nat.toDigits 10 k ≠ '-' :: Nat.toDigits 10 l := by
    intro k l hkl
    have hdigit := isDigit_of_mem (hkl ▸ List.mem_cons_self : '-' ∈ Nat.toDigits 10 k)
    cases hdigit
  cases m with
  | posInt a =>
    cases n with
    | posInt b => rw [UInt64.toNat_inj.1 ((Text.toDigits_inj (by decide) (by decide)).1 h)]
    | negInt b => exact absurd h (hminus _ _)
    | float b => exact absurd h.symm (float_ne_digits [] (by simp))
  | negInt a =>
    cases n with
    | posInt b => exact absurd h.symm (hminus _ _)
    | negInt b =>
      have habs := (Text.toDigits_inj (by decide) (by decide)).1 (List.cons.inj h).2
      have hsame : a.toInt = b.toInt := by
        have ha : a.toInt < 0 := hm
        have hb : b.toInt < 0 := hn
        omega
      rw [Int64.toInt_inj.1 hsame]
    | float b => exact absurd h.symm (float_ne_digits ['-'] (by simp))
  | float a =>
    cases n with
    | posInt b => exact absurd h (float_ne_digits [] (by simp))
    | negInt b => exact absurd h (float_ne_digits ['-'] (by simp))
    | float b => rw [floats.injective h]

/-- What does not go on with a number. -/
def Stops (r : List Char) : Prop := ∀ c ∈ r.head?, isNumberChar c = false

/-- The text of a number ends where its alphabet does. -/
theorem numeral_append_inj {a b r t : List Char} (ha : ∀ c ∈ a, isNumberChar c)
    (hb : ∀ c ∈ b, isNumberChar c) (hr : Stops r) (ht : Stops t) (h : a ++ r = b ++ t) :
    a = b ∧ r = t := by
  have htake : ∀ x y : List Char, (∀ c ∈ x, isNumberChar c) → Stops y →
      (x ++ y).takeWhile isNumberChar = x := by
    intro x y hx hy
    rw [List.takeWhile_append_of_pos (by simpa using hx)]
    cases y with
    | nil => simp
    | cons c y => simp [hy c rfl]
  have hsame : a = b := by
    rw [← htake a r ha hr, h, htake b t hb ht]
  subst hsame
  exact ⟨rfl, List.append_cancel_left h⟩

/-! ## Values -/

mutual

/-- The text of a value. -/
def text (floats : FloatText) : Value → List Char
  | .null => "null".toList
  | .bool true => "true".toList
  | .bool false => "false".toList
  | .number n => numberText floats n
  | .string s => quoted s.toList
  | .array [] => ['[', ']']
  | .array (v :: rest) => '[' :: (text floats v ++ itemsText floats rest)
  | .object [] => ['\x7b', '\x7d']
  | .object ((k, v) :: rest) =>
    '\x7b' :: (quoted k.toList ++ ':' :: (text floats v ++ fieldsText floats rest))

/-- The text of an array behind an item. -/
def itemsText (floats : FloatText) : List Value → List Char
  | [] => [']']
  | v :: rest => ',' :: (text floats v ++ itemsText floats rest)

/-- The text of an object behind a field. -/
def fieldsText (floats : FloatText) : List (String × Value) → List Char
  | [] => ['\x7d']
  | (k, v) :: rest =>
    ',' :: (quoted k.toList ++ ':' :: (text floats v ++ fieldsText floats rest))

end

mutual

/-- A value whose numbers are as `serde_json` keeps them. -/
def Proper : Value → Prop
  | .number n => n.Proper
  | .array items => ProperItems items
  | .object fields => ProperFields fields
  | _ => True

/-- The items of an array. -/
def ProperItems : List Value → Prop
  | [] => True
  | v :: rest => Proper v ∧ ProperItems rest

/-- The fields of an object. -/
def ProperFields : List (String × Value) → Prop
  | [] => True
  | (_, v) :: rest => Proper v ∧ ProperFields rest

end

mutual

/-- The text of a value has no others. -/
theorem isPlain_text : ∀ v : Value, ∀ c ∈ text floats v, IsPlain c
  | .null => by simp [text]; decide
  | .bool true => by simp [text]; decide
  | .bool false => by simp [text]; decide
  | .number n => fun c hc => isPlain_of_isNumberChar (isNumberChar_numberText c hc)
  | .string s => isPlain_quoted
  | .array [] => by simp [text]; decide
  | .array (v :: rest) => by
    intro c hc
    simp only [text, List.mem_cons, List.mem_append] at hc
    rcases hc with rfl | hc | hc
    · decide
    · exact isPlain_text v c hc
    · exact isPlain_itemsText rest c hc
  | .object [] => by simp [text]; decide
  | .object ((k, v) :: rest) => by
    intro c hc
    simp only [text, List.mem_cons, List.mem_append] at hc
    rcases hc with rfl | hc | rfl | hc | hc
    · decide
    · exact isPlain_quoted c hc
    · decide
    · exact isPlain_text v c hc
    · exact isPlain_fieldsText rest c hc

/-- Nor in the rest of an array. -/
theorem isPlain_itemsText : ∀ items : List Value, ∀ c ∈ itemsText floats items, IsPlain c
  | [] => by simp [itemsText]; decide
  | v :: rest => by
    intro c hc
    simp only [itemsText, List.mem_cons, List.mem_append] at hc
    rcases hc with rfl | hc | hc
    · decide
    · exact isPlain_text v c hc
    · exact isPlain_itemsText rest c hc

/-- Nor in the rest of an object. -/
theorem isPlain_fieldsText :
    ∀ fields : List (String × Value), ∀ c ∈ fieldsText floats fields, IsPlain c
  | [] => by simp [fieldsText]; decide
  | (k, v) :: rest => by
    intro c hc
    simp only [fieldsText, List.mem_cons, List.mem_append] at hc
    rcases hc with rfl | hc | rfl | hc | hc
    · decide
    · exact isPlain_quoted c hc
    · decide
    · exact isPlain_text v c hc
    · exact isPlain_fieldsText rest c hc

end

/-- What kind of value a text begins, by its first character. -/
def headKind (c : Char) : ℕ :=
  if c = 'n' then 0
  else if c = 't' ∨ c = 'f' then 1
  else if c = '"' then 2
  else if c = '[' then 3
  else if c = '\x7b' then 4
  else if isNumberChar c then 5
  else 6

/-- The kind of a value. -/
def kind : Value → ℕ
  | .null => 0
  | .bool _ => 1
  | .string _ => 2
  | .array _ => 3
  | .object _ => 4
  | .number _ => 5

/-- A text begins as its value does. -/
theorem head?_text (v : Value) (r : List Char) :
    (text floats v ++ r).head?.map headKind = some (kind v) := by
  cases v with
  | null => rfl
  | bool b => cases b <;> rfl
  | string s => rfl
  | array items => cases items <;> rfl
  | object fields => cases fields <;> rfl
  | number n =>
    have hne : numberText floats n ≠ [] := numberText_ne_nil
    obtain ⟨c, rest, hc⟩ := List.exists_cons_of_ne_nil hne
    have hnumber : isNumberChar c := isNumberChar_numberText c (hc ▸ List.mem_cons_self)
    have hkind : headKind c = 5 := by
      have hother : ∀ d ∈ ['n', 't', 'f', '"', '[', '\x7b'], c ≠ d := by
        rintro d hd rfl
        simp only [List.mem_cons, List.not_mem_nil, or_false] at hd
        rcases hd with rfl | rfl | rfl | rfl | rfl | rfl <;> cases hnumber
      simp only [List.mem_cons, List.not_mem_nil, or_false, forall_eq_or_imp, forall_eq] at hother
      simp [headKind, hother, hnumber]
    simp [text, hc, hkind, kind]

/-- An item ends where a comma or a bracket comes. -/
theorem stops_itemsText (items : List Value) (r : List Char) :
    Stops (itemsText floats items ++ r) := by
  cases items <;> simp [itemsText, Stops] <;> decide

/-- A field ends where a comma or a brace comes. -/
theorem stops_fieldsText (fields : List (String × Value)) (r : List Char) :
    Stops (fieldsText floats fields ++ r) := by
  rcases fields with _ | ⟨⟨k, v⟩, rest⟩ <;> simp [fieldsText, Stops] <;> decide

/-- Values with one text are of one kind. -/
theorem kind_eq {v w : Value} {r t : List Char} (h : text floats v ++ r = text floats w ++ t) :
    kind v = kind w := by
  have hhead := congrArg (fun l => l.head?.map headKind) h
  simpa only [head?_text, Option.some.injEq] using hhead

/-- The text of an array, item by item. -/
theorem text_array_append (v : Value) (rest : List Value) (r : List Char) :
    text floats (.array (v :: rest)) ++ r =
      '[' :: (text floats v ++ (itemsText floats rest ++ r)) := by
  simp [text]

/-- The rest of an array, item by item. -/
theorem itemsText_append (v : Value) (rest : List Value) (r : List Char) :
    itemsText floats (v :: rest) ++ r = ',' :: (text floats v ++ (itemsText floats rest ++ r)) := by
  simp [itemsText]

/-- The text of an object, field by field. -/
theorem text_object_append (k : String) (v : Value) (rest : List (String × Value)) (r : List Char) :
    text floats (.object ((k, v) :: rest)) ++ r =
      '\x7b' :: (quoted k.toList ++ ':' :: (text floats v ++ (fieldsText floats rest ++ r))) := by
  simp [text]

/-- The rest of an object, field by field. -/
theorem fieldsText_append (k : String) (v : Value) (rest : List (String × Value)) (r : List Char) :
    fieldsText floats ((k, v) :: rest) ++ r =
      ',' :: (quoted k.toList ++ ':' :: (text floats v ++ (fieldsText floats rest ++ r))) := by
  simp [fieldsText]

/-- A bracket does not begin a value. -/
theorem text_ne_bracket {v : Value} {r t : List Char} : text floats v ++ r ≠ ']' :: t := by
  intro h
  have hhead := @head?_text floats v r
  rw [h] at hhead
  cases v <;> cases hhead

mutual

/-- A value is determined by its text, and where the text ends. -/
theorem text_append_inj : ∀ (v w : Value) (r t : List Char),
    Proper v → Proper w → Stops r → Stops t →
    text floats v ++ r = text floats w ++ t → v = w ∧ r = t
  -- The first character fixes the kind of the value.
  | .null, w, r, t, _, _, _, _, h => by
    have hkind := kind_eq h
    cases w with
    | null => exact ⟨rfl, List.append_cancel_left h⟩
    | _ => cases hkind
  | .bool a, w, r, t, _, _, _, _, h => by
    have hkind := kind_eq h
    cases w with
    | bool b => cases a <;> cases b <;> simp [text] at h ⊢ <;> exact h
    | _ => cases hkind
  -- A number ends where no character of a number follows.
  | .number m, w, r, t, hm, hw, hr, ht, h => by
    have hkind := kind_eq h
    cases w with
    | number n =>
      obtain ⟨htext, hrest⟩ :=
        numeral_append_inj isNumberChar_numberText isNumberChar_numberText hr ht h
      rw [numberText_inj hm hw htext]
      exact ⟨rfl, hrest⟩
    | _ => cases hkind
  | .string a, w, r, t, _, _, _, _, h => by
    have hkind := kind_eq h
    cases w with
    | string b =>
      obtain ⟨htext, hrest⟩ := quoted_inj h
      rw [String.toList_inj.1 htext]
      exact ⟨rfl, hrest⟩
    | _ => cases hkind
  -- An empty array closes at once, and no value starts with a bracket that closes.
  | .array as, w, r, t, hv, hw, _, _, h => by
    have hkind := kind_eq h
    cases w with
    | array bs =>
      cases as with
      | nil =>
        cases bs with
        | nil => exact ⟨rfl, List.append_cancel_left h⟩
        | cons w bs =>
          rw [text_array_append] at h
          exact absurd (List.cons.inj h).2.symm text_ne_bracket
      | cons v as =>
        cases bs with
        | nil =>
          rw [text_array_append] at h
          exact absurd (List.cons.inj h).2 text_ne_bracket
        | cons w bs =>
          rw [text_array_append, text_array_append] at h
          obtain ⟨rfl, hitems⟩ := text_append_inj v w _ _ hv.1 hw.1 (stops_itemsText as r)
            (stops_itemsText bs t) (List.cons.inj h).2
          obtain ⟨rfl, hrest⟩ := itemsText_inj as bs r t hv.2 hw.2 hitems
          exact ⟨rfl, hrest⟩
    | _ => cases hkind
  | .object as, w, r, t, hv, hw, _, _, h => by
    have hkind := kind_eq h
    cases w with
    | object bs =>
      rcases as with _ | ⟨⟨k, v⟩, as⟩ <;> rcases bs with _ | ⟨⟨l, w⟩, bs⟩
      · exact ⟨rfl, List.append_cancel_left h⟩
      · exact absurd (List.cons.inj (List.cons.inj h).2).1 (by decide)
      · exact absurd (List.cons.inj (List.cons.inj h).2).1 (by decide)
      -- The name ends at its quote, the value where its text does, and the rest are fields again.
      · rw [text_object_append, text_object_append] at h
        obtain ⟨hname, hvalue⟩ := quoted_inj (List.cons.inj h).2
        obtain rfl := String.toList_inj.1 hname
        obtain ⟨rfl, hfields⟩ := text_append_inj v w _ _ hv.1 hw.1 (stops_fieldsText as r)
          (stops_fieldsText bs t) (List.cons.inj hvalue).2
        obtain ⟨rfl, hrest⟩ := fieldsText_inj as bs r t hv.2 hw.2 hfields
        exact ⟨rfl, hrest⟩
    | _ => cases hkind

/-- The items of an array are determined by the text behind the one before. -/
theorem itemsText_inj : ∀ (as bs : List Value) (r t : List Char), ProperItems as → ProperItems bs →
    itemsText floats as ++ r = itemsText floats bs ++ t → as = bs ∧ r = t
  | [], [], r, t, _, _, h => ⟨rfl, List.append_cancel_left h⟩
  | [], w :: bs, r, t, _, _, h => absurd (List.cons.inj h).1 (by decide)
  | v :: as, [], r, t, _, _, h => absurd (List.cons.inj h).1 (by decide)
  | v :: as, w :: bs, r, t, hv, hw, h => by
    rw [itemsText_append, itemsText_append] at h
    obtain ⟨rfl, hitems⟩ := text_append_inj v w _ _ hv.1 hw.1 (stops_itemsText as r)
      (stops_itemsText bs t) (List.cons.inj h).2
    obtain ⟨rfl, hrest⟩ := itemsText_inj as bs r t hv.2 hw.2 hitems
    exact ⟨rfl, hrest⟩

/-- So are the fields of an object. -/
theorem fieldsText_inj : ∀ (as bs : List (String × Value)) (r t : List Char), ProperFields as →
    ProperFields bs → fieldsText floats as ++ r = fieldsText floats bs ++ t → as = bs ∧ r = t
  | [], [], r, t, _, _, h => ⟨rfl, List.append_cancel_left h⟩
  | [], (l, w) :: bs, r, t, _, _, h => absurd (List.cons.inj h).1 (by decide)
  | (k, v) :: as, [], r, t, _, _, h => absurd (List.cons.inj h).1 (by decide)
  | (k, v) :: as, (l, w) :: bs, r, t, hv, hw, h => by
    rw [fieldsText_append, fieldsText_append] at h
    obtain ⟨hname, hvalue⟩ := quoted_inj (List.cons.inj h).2
    obtain rfl := String.toList_inj.1 hname
    obtain ⟨rfl, hfields⟩ := text_append_inj v w _ _ hv.1 hw.1 (stops_fieldsText as r)
      (stops_fieldsText bs t) (List.cons.inj hvalue).2
    obtain ⟨rfl, hrest⟩ := fieldsText_inj as bs r t hv.2 hw.2 hfields
    exact ⟨rfl, hrest⟩

end

/-- A value is determined by its text. -/
theorem text_inj {v w : Value} (hv : Proper v) (hw : Proper w) (h : text floats v = text floats w) :
    v = w :=
  (text_append_inj v w [] [] hv hw nofun nofun (congrArg (· ++ []) h)).1

end JsonText

end DaemonFramework
