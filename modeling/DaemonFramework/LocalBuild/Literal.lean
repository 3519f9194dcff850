import DaemonFramework.JsonText

/-!
# A path in a Nix expression

`SystemNix::inputs` of `shelllist-local-build/src/nix.rs` splices a path into an expression as a
double-quoted string: the JSON text of the path, with a backslash before each `${`. `lexString` and
`unescapeStr` read such a string as Nix does, where `${` opens an interpolation unless another
dollar sign or a backslash takes the dollar sign away from it.

`literal_is_string` says that Nix reads one string up to the closing quote, whatever the path is. It
is the path, but for the characters below U+0020 that JSON escapes by their codes and Nix does not
read.
-/

namespace DaemonFramework.LocalBuild

open JsonText

/-! ## Strings in Nix -/

/-- The text of a double-quoted string behind its opening quote, up to its closing quote, and what
is behind that; nothing where an interpolation begins or the input ends. -/
def lexString : List Char → Option (List Char × List Char)
  | [] => none
  | '"' :: rest => some ([], rest)
  | '\\' :: c :: rest => (lexString rest).map fun (text, rest) => ('\\' :: c :: text, rest)
  | '$' :: '\x7b' :: _ => none
  | '$' :: '"' :: rest => some (['$'], rest)
  | '$' :: '\\' :: c :: rest => (lexString rest).map fun (text, rest) => ('$' :: '\\' :: c :: text, rest)
  | '$' :: c :: rest => (lexString rest).map fun (text, rest) => ('$' :: c :: text, rest)
  | c :: rest => (lexString rest).map fun (text, rest) => (c :: text, rest)

/-- The string that a text stands for. -/
def unescapeStr : List Char → List Char
  | [] => []
  | '\\' :: 'n' :: rest => '\n' :: unescapeStr rest
  | '\\' :: 'r' :: rest => '\r' :: unescapeStr rest
  | '\\' :: 't' :: rest => '\t' :: unescapeStr rest
  | '\\' :: c :: rest => c :: unescapeStr rest
  | '\r' :: '\n' :: rest => '\n' :: unescapeStr rest
  | '\r' :: rest => '\n' :: unescapeStr rest
  | c :: rest => c :: unescapeStr rest

/-! ## The literal -/

/-- `replace("${", "\\${")`. -/
def escapeInterpolation : List Char → List Char
  | [] => []
  | '$' :: '\x7b' :: rest => '\\' :: '$' :: '\x7b' :: escapeInterpolation rest
  | c :: rest => c :: escapeInterpolation rest

/-- The literal of a path. -/
def literal (path : List Char) : List Char := escapeInterpolation (quoted path)

/-- The expression for the inputs of a flake, whose file is at this path. -/
def inputsExpression (path : List Char) : List Char :=
  "(import (builtins.toPath ".toList ++ literal path ++ ")).inputs".toList

example : literal ['a', '$', '{', 'b'] = ['"', 'a', '\\', '$', '{', 'b', '"'] := by decide

/-! ## The literal, character by character -/

/-- The text between the quotes. -/
def body (path : List Char) : List Char := escapeInterpolation (path.flatMap escape)

/-- Without dollar signs nothing is escaped. -/
theorem escapeInterpolation_append {text rest : List Char} (h : '$' ∉ text) :
    escapeInterpolation (text ++ rest) = text ++ escapeInterpolation rest := by
  induction text with
  | nil => rfl
  | cons c text ih =>
    have hc : c ≠ '$' := fun heq => h (heq ▸ List.mem_cons_self)
    rw [List.cons_append, escapeInterpolation, ih fun hmem => h (List.mem_cons_of_mem _ hmem),
      List.cons_append]
    exact fun _ heq => absurd heq hc

/-- A dollar sign that is before no brace stays. -/
theorem escapeInterpolation_dollar {rest : List Char} (h : rest.head? ≠ some '\x7b') :
    escapeInterpolation ('$' :: rest) = '$' :: escapeInterpolation rest := by
  rw [escapeInterpolation]
  rintro tail - rfl
  exact h rfl

/-- The quote behind a text does not change it. -/
theorem escapeInterpolation_quote (text : List Char) :
    escapeInterpolation (text ++ ['"']) = escapeInterpolation text ++ ['"'] := by
  fun_induction escapeInterpolation text with
  | case1 => rfl
  | case2 rest ih => simp only [List.cons_append, escapeInterpolation, ih]
  | case3 c rest hnot ih =>
    rw [List.cons_append, escapeInterpolation, ih, List.cons_append]
    rintro tail rfl htail
    cases rest with
    | nil => cases htail
    | cons d rest => exact hnot rest rfl (by rw [(List.cons.inj htail).1])

/-- The text of another character has no dollar sign. -/
theorem dollar_notMem_escape {c : Char} (h : c ≠ '$') : '$' ∉ escape c := by
  have hdigit : ∀ d < 16, Nat.digitChar d ≠ '$' := by decide
  rcases escape_cases c with ⟨letter, hletter, hc⟩ | ⟨hlow, hc⟩ | ⟨-, -, -, hc⟩ <;> rw [hc]
  · unfold letterEscape at hletter
    split_ifs at hletter <;> cases hletter <;> decide
  · simp only [List.mem_cons, List.not_mem_nil, or_false, not_or]
    exact ⟨by decide, by decide, by decide, by decide, (hdigit _ (by omega)).symm,
      (hdigit _ (by omega)).symm⟩
  · simpa using h.symm

/-- The text of a path that does not begin with a brace does not either. -/
theorem head?_escape {path : List Char} (h : path.head? ≠ some '\x7b') :
    (path.flatMap escape).head? ≠ some '\x7b' := by
  cases path with
  | nil => exact h
  | cons c path =>
    rw [List.flatMap_cons]
    rcases escape_cases c with ⟨letter, -, hc⟩ | ⟨-, hc⟩ | ⟨-, -, -, hc⟩ <;> rw [hc]
    · simp
    · simp
    · simpa using h

/-- A character that is no dollar sign. -/
theorem body_cons {c : Char} (h : c ≠ '$') (path : List Char) :
    body (c :: path) = escape c ++ body path := by
  rw [body, List.flatMap_cons, escapeInterpolation_append (dollar_notMem_escape h), body]

/-- A dollar sign before no brace. -/
theorem body_dollar {path : List Char} (h : path.head? ≠ some '\x7b') :
    body ('$' :: path) = '$' :: body path := by
  rw [body, List.flatMap_cons]
  exact escapeInterpolation_dollar (head?_escape h)

/-- A dollar sign before a brace. -/
theorem body_interpolation (path : List Char) :
    body ('$' :: '\x7b' :: path) = '\\' :: '$' :: '\x7b' :: body path := by
  rw [body, List.flatMap_cons, List.flatMap_cons]
  rfl

/-- The literal of a path. -/
theorem literal_eq (path : List Char) : literal path = '"' :: (body path ++ ['"']) := by
  rw [literal, quoted, escapeInterpolation, escapeInterpolation_quote, body]
  simp

/-! ## Nix reads the literal -/

/-- An ordinary character of a string. -/
theorem lexString_cons {c : Char} (hquote : c ≠ '"') (hbackslash : c ≠ '\\') (hdollar : c ≠ '$')
    {rest text behind : List Char} (h : lexString rest = some (text, behind)) :
    lexString (c :: rest) = some (c :: text, behind) := by
  rw [lexString, h]
  · rfl
  all_goals intros; simp_all

/-- A backslash with the character behind it. -/
theorem lexString_backslash (c : Char) {rest text behind : List Char}
    (h : lexString rest = some (text, behind)) :
    lexString ('\\' :: c :: rest) = some ('\\' :: c :: text, behind) := by
  rw [lexString, h]
  rfl

/-- A dollar sign with an ordinary character behind it. -/
theorem lexString_dollar {c : Char} (hbrace : c ≠ '\x7b') (hquote : c ≠ '"') (hbackslash : c ≠ '\\')
    {rest text behind : List Char} (h : lexString rest = some (text, behind)) :
    lexString ('$' :: c :: rest) = some ('$' :: c :: text, behind) := by
  rw [lexString, h]
  · rfl
  all_goals intros; simp_all

/-- A dollar sign with a backslash behind it, and the next character. -/
theorem lexString_dollar_backslash (c : Char) {rest text behind : List Char}
    (h : lexString rest = some (text, behind)) :
    lexString ('$' :: '\\' :: c :: rest) = some ('$' :: '\\' :: c :: text, behind) := by
  rw [lexString, h]
  rfl

/-- The digits of an escape are ordinary. -/
theorem lexString_digits {c : Char} (hc : c.toNat < 32) {rest text behind : List Char}
    (h : lexString rest = some (text, behind)) :
    lexString ('0' :: '0' :: Nat.digitChar (c.toNat / 16) :: Nat.digitChar (c.toNat % 16) :: rest) =
      some ('0' :: '0' :: Nat.digitChar (c.toNat / 16) :: Nat.digitChar (c.toNat % 16) :: text,
        behind) := by
  have hdigit : ∀ d < 16,
    Nat.digitChar d ≠ '"' ∧ Nat.digitChar d ≠ '\\' ∧ Nat.digitChar d ≠ '$' := by
    decide
  obtain ⟨hquote, hbackslash, hdollar⟩ := hdigit (c.toNat % 16) (Nat.mod_lt _ (by decide))
  obtain ⟨hquote', hbackslash', hdollar'⟩ := hdigit (c.toNat / 16) (by omega)
  have hlow := lexString_cons hquote hbackslash hdollar h
  have hhigh := lexString_cons hquote' hbackslash' hdollar' hlow
  exact lexString_cons (by decide) (by decide) (by decide)
    (lexString_cons (by decide) (by decide) (by decide) hhigh)

/-- The text of a character. -/
theorem lexString_escape {c : Char} (hc : c ≠ '$') {rest text behind : List Char}
    (h : lexString rest = some (text, behind)) :
    lexString (escape c ++ rest) = some (escape c ++ text, behind) := by
  rcases escape_cases c with ⟨letter, -, heq⟩ | ⟨hlow, heq⟩ | ⟨-, hquote, hbackslash, heq⟩ <;>
    rw [heq]
  · exact lexString_backslash letter h
  · exact lexString_backslash 'u' (lexString_digits hlow h)
  · exact lexString_cons hquote hbackslash hc h

/-- The text of a character behind a dollar sign. -/
theorem lexString_dollar_escape {c : Char} (hbrace : c ≠ '\x7b') {rest text behind : List Char}
    (h : lexString rest = some (text, behind)) :
    lexString ('$' :: (escape c ++ rest)) = some ('$' :: (escape c ++ text), behind) := by
  rcases escape_cases c with ⟨letter, -, heq⟩ | ⟨hlow, heq⟩ | ⟨-, hquote, hbackslash, heq⟩ <;>
    rw [heq]
  · exact lexString_dollar_backslash letter h
  · exact lexString_dollar_backslash 'u' (lexString_digits hlow h)
  · exact lexString_dollar hbrace hquote hbackslash h

/-- A brace behind an escaped dollar sign is ordinary. -/
theorem lexString_brace {rest text behind : List Char} (h : lexString rest = some (text, behind)) :
    lexString ('\x7b' :: rest) = some ('\x7b' :: text, behind) :=
  lexString_cons (by decide) (by decide) (by decide) h

/-- A path that begins with a brace. -/
theorem exists_of_head?_eq_brace {path : List Char} (h : path.head? = some '\x7b') :
    ∃ rest, path = '\x7b' :: rest := by
  cases path with
  | nil => cases h
  | cons c rest => exact ⟨rest, by rw [Option.some.inj h]⟩

/-- Nix reads the text between the quotes as it stands, up to the closing quote. -/
theorem lexString_body (path rest : List Char) :
    lexString (body path ++ '"' :: rest) = some (body path, rest) := by
  induction hlength : path.length using Nat.strongRecOn generalizing path with
  | _ n ih =>
    have hshorter : ∀ tail : List Char, tail.length < path.length →
        lexString (body tail ++ '"' :: rest) = some (body tail, rest) :=
      fun tail htail => ih tail.length (hlength ▸ htail) tail rfl
    match path, hshorter with
    | [], _ => rfl
    | c :: path, hshorter =>
      by_cases hdollar : c = '$'
      -- A dollar sign before a brace would begin an interpolation, and `literal` has escaped it.
      · subst hdollar
        by_cases hbrace : path.head? = some '\x7b'
        · obtain ⟨path, rfl⟩ := exists_of_head?_eq_brace hbrace
          rw [body_interpolation]
          have hrest := hshorter path (by simp only [List.length_cons]; omega)
          exact lexString_backslash '$' (lexString_brace hrest)
        · rw [body_dollar hbrace]
          match path, hshorter with
          | [], _ => rfl
          | d :: path, hshorter =>
            by_cases hsecond : d = '$'
            -- Nix takes two dollar signs together, and the escape of the second if it has one.
            · subst hsecond
              by_cases hbrace' : path.head? = some '\x7b'
              · obtain ⟨path, rfl⟩ := exists_of_head?_eq_brace hbrace'
                rw [body_interpolation]
                exact lexString_dollar_backslash '$'
                  (lexString_brace (hshorter path (by simp only [List.length_cons]; omega)))
              · rw [body_dollar hbrace']
                exact lexString_dollar (by decide) (by decide) (by decide)
                  (hshorter path (by simp only [List.length_cons]; omega))
            · have hd : d ≠ '\x7b' := fun heq => hbrace (by rw [heq]; rfl)
              rw [body_cons hsecond, List.cons_append, List.append_assoc]
              exact lexString_dollar_escape hd
                (hshorter path (by simp only [List.length_cons]; omega))
      · rw [body_cons hdollar, List.append_assoc]
        exact lexString_escape hdollar (hshorter path (by simp only [List.length_cons]; omega))

/-! ## What Nix makes of it -/

/-- A character that JSON writes as it is, or escapes as Nix does. -/
def Faithful (c : Char) : Prop := 32 ≤ c.toNat ∨ c ∈ ['\t', '\n', '\r']

instance (c : Char) : Decidable (Faithful c) := by
  unfold Faithful
  infer_instance

/-- An ordinary character stands for itself. -/
theorem unescapeStr_cons {c : Char} (hbackslash : c ≠ '\\') (hreturn : c ≠ '\r')
    (rest : List Char) : unescapeStr (c :: rest) = c :: unescapeStr rest := by
  rw [unescapeStr]
  all_goals intros; simp_all

/-- What the letter of an escape stands for in Nix. -/
def nixLetter (letter : Char) : Char :=
  if letter = 'n' then '\n' else if letter = 'r' then '\r' else if letter = 't' then '\t' else letter

/-- An escape stands for one character. -/
theorem unescapeStr_backslash (letter : Char) (rest : List Char) :
    unescapeStr ('\\' :: letter :: rest) = nixLetter letter :: unescapeStr rest := by
  unfold nixLetter
  split_ifs with hn hr ht
  · rw [hn, unescapeStr]
  · rw [hr, unescapeStr]
  · rw [ht, unescapeStr]
  · rw [unescapeStr]
    all_goals intros; simp_all

/-- What a character of a path becomes: itself, or something without characters that
are lost. -/
theorem exists_unescapeStr_escape (c : Char) :
    ∃ read, (∀ rest, unescapeStr (escape c ++ rest) = read ++ unescapeStr rest) ∧
      (Faithful c → read = [c]) ∧ ∀ d ∈ read, Faithful d := by
  -- Hexadecimal digits are read as they are.
  have hdigit : ∀ d < 16, Nat.digitChar d ≠ '\\' ∧ Nat.digitChar d ≠ '\r' ∧
      Faithful (Nat.digitChar d) := by decide
  rcases escape_cases c with ⟨letter, hletter, heq⟩ | ⟨hlow, heq⟩ |
    ⟨hhigh, hquote, hbackslash, heq⟩ <;>
    rw [heq]
  -- A letter behind a backslash: the same in both languages, or read as the letter itself.
  · have hread : (Faithful c → nixLetter letter = c) ∧ Faithful (nixLetter letter) := by
      unfold letterEscape at hletter
      split_ifs at hletter <;> cases hletter <;> subst c <;> decide
    exact ⟨[nixLetter letter], fun rest => unescapeStr_backslash letter rest,
      fun h => congrArg (fun d => [d]) (hread.1 h), fun d hd => List.mem_singleton.1 hd ▸ hread.2⟩
  -- A numeric escape, which Nix does not know: its five characters are read.
  · obtain ⟨hback, hret, hfine⟩ := hdigit (c.toNat % 16) (Nat.mod_lt _ (by decide))
    obtain ⟨hback', hret', hfine'⟩ := hdigit (c.toNat / 16)
      (Nat.div_lt_of_lt_mul (Nat.lt_of_lt_of_le hlow (by decide)))
    refine ⟨['u', '0', '0', Nat.digitChar (c.toNat / 16), Nat.digitChar (c.toNat % 16)],
      fun rest => ?_, fun hfaithful => ?_, ?_⟩
    · simp only [List.cons_append, List.nil_append]
      rw [unescapeStr_backslash, unescapeStr_cons (by decide) (by decide),
        unescapeStr_cons (by decide) (by decide), unescapeStr_cons hback' hret',
        unescapeStr_cons hback hret]
      rfl
    · rcases hfaithful with hhigh | hmem
      · omega
      · simp only [List.mem_cons, List.not_mem_nil, or_false] at hmem
        rcases hmem with rfl | rfl | rfl <;> exact absurd heq (by decide)
    · simp only [List.mem_cons, List.not_mem_nil, or_false]
      rintro d (rfl | rfl | rfl | rfl | rfl)
      · decide
      · decide
      · decide
      · exact hfine'
      · exact hfine
  -- Everything else stands for itself.
  · have hreturn : c ≠ '\r' := by
      rintro rfl
      exact absurd hhigh (by decide)
    exact ⟨[c], fun rest => unescapeStr_cons hbackslash hreturn rest, fun _ => rfl,
      fun d hd => List.mem_singleton.1 hd ▸ .inl hhigh⟩

/-- A dollar sign is unescaped to itself, whether it was escaped or not. -/
theorem unescapeStr_body_dollar (path : List Char) :
    unescapeStr (body ('$' :: path)) = '$' :: unescapeStr (body path) := by
  by_cases hbrace : path.head? = some '\x7b'
  · obtain ⟨path, rfl⟩ := exists_of_head?_eq_brace hbrace
    rw [body_interpolation, body_cons (by decide), unescapeStr_backslash]
    rfl
  · rw [body_dollar hbrace, unescapeStr_cons (by decide) (by decide)]

/-- The string is the path where all characters of the path are faithful, and otherwise it has
none that is not. -/
theorem unescapeStr_body (path : List Char) :
    ((∀ c ∈ path, Faithful c) → unescapeStr (body path) = path) ∧
      ∀ d ∈ unescapeStr (body path), Faithful d := by
  induction path with
  | nil => exact ⟨fun _ => rfl, nofun⟩
  | cons c path ih =>
    by_cases hdollar : c = '$'
    · subst hdollar
      rw [unescapeStr_body_dollar]
      refine ⟨fun h => by rw [ih.1 fun d hd => h d (List.mem_cons_of_mem _ hd)], fun d hd => ?_⟩
      rcases List.mem_cons.1 hd with rfl | hd
      · decide
      · exact ih.2 d hd
    · obtain ⟨read, hread, hsame, hfaithful⟩ := exists_unescapeStr_escape c
      rw [body_cons hdollar, hread]
      refine ⟨fun h => ?_, fun d hd => ?_⟩
      · rw [hsame (h c List.mem_cons_self), ih.1 fun d hd => h d (List.mem_cons_of_mem _ hd)]
        rfl
      · rcases List.mem_append.1 hd with hd | hd
        · exact hfaithful d hd
        · exact ih.2 d hd

/-- Whatever the path is, Nix reads its literal in the expression as one string that ends where the
path does, so that nothing of the path is code. The string is the path exactly if the path has no
characters below U+0020 but tabs, line feeds and carriage returns. -/
theorem literal_is_string (path : List Char) :
    ∃ text, inputsExpression path =
        "(import (builtins.toPath ".toList ++ '"' :: (text ++ '"' :: ")).inputs".toList) ∧
      lexString (text ++ '"' :: ")).inputs".toList) = some (text, ")).inputs".toList) ∧
      (unescapeStr text = path ↔ ∀ c ∈ path, Faithful c) := by
  have hsplice : ∀ before behind : List Char,
      before ++ literal path ++ behind = before ++ '"' :: (body path ++ '"' :: behind) := by
    intro before behind
    rw [literal_eq]
    simp
  refine ⟨body path, hsplice _ _, lexString_body path _, fun h c hc => ?_,
    (unescapeStr_body path).1⟩
  rw [← h] at hc
  exact (unescapeStr_body path).2 c hc

end DaemonFramework.LocalBuild
