import Mathlib.Data.List.Basic
import Mathlib.Data.Nat.Notation

/-!
# Calls with a table in Lua

A reader of Lua expressions that call a method with one table of literals: names, strings in double
quotes with their simple escapes, decimal numerals, and the marks of tables and calls. `lex` is a
machine that takes one character at a time, so that a text is read piece by piece (`run_append`): a
piece without unknown parts is computed, and the rules below read what is spliced in between
(`run_quoted`, `run_numeral`).
-/

namespace DaemonFramework.Lua

/-- A token. -/
inductive Token where
  | name (text : List Char)
  | string (text : List Char)
  | numeral (text : List Char)
  | symbol (c : Char)
deriving DecidableEq

/-- What a lexer is in, with what was read of it, the last character first. -/
inductive Mode where
  | between
  | dot
  | name (read : List Char)
  | numeral (read : List Char)
  | string (read : List Char)
  | escape (read : List Char)
deriving DecidableEq

/-- A lexer: the tokens so far, the last one first, and what it is in. -/
structure Lexer where
  tokens : List Token
  mode : Mode
deriving DecidableEq

/-- White space. -/
def isSpace (c : Char) : Bool := c ∈ [' ', '\t', '\n', '\r', '\x0b', '\x0c']

/-- The marks of tables and calls. -/
def isSymbol (c : Char) : Bool := c ∈ ['(', ')', '\x7b', '\x7d', '=', ',', ';']

/-- A character of a name. -/
def isNameChar (c : Char) : Bool := c.isAlphanum || c = '_'

/-- The character that an escape stands for. -/
def escaped (c : Char) : Option Char :=
  [('a', '\x07'), ('b', '\x08'), ('f', '\x0c'), ('n', '\n'), ('r', '\r'), ('t', '\t'), ('v', '\x0b'),
    ('\\', '\\'), ('"', '"'), (Char.ofNat 39, Char.ofNat 39), ('\n', '\n')].find? (·.1 = c) |>.map Prod.snd

/-- A character starts a token, or is between tokens. -/
def start (tokens : List Token) (c : Char) : Option Lexer :=
  if isSpace c then some ⟨tokens, .between⟩
  else if c = '"' then some ⟨tokens, .string []⟩
  else if c.isDigit then some ⟨tokens, .numeral [c]⟩
  else if isNameChar c then some ⟨tokens, .name [c]⟩
  else if c = '.' then some ⟨tokens, .dot⟩
  else if isSymbol c then some ⟨.symbol c :: tokens, .between⟩
  else none

/-- The tokens when a token ends that has no end of its own. A numeral has one point at most. -/
def flush (s : Lexer) : Option (List Token) :=
  match s.mode with
  | .between => some s.tokens
  | .dot => some (.symbol '.' :: s.tokens)
  | .name read => some (.name read.reverse :: s.tokens)
  | .numeral read => if read.count '.' ≤ 1 then some (.numeral read.reverse :: s.tokens) else none
  | .string _ => none
  | .escape _ => none

/-- A character is read. -/
def step (s : Lexer) (c : Char) : Option Lexer :=
  match s.mode with
  | .string read =>
    if c = '"' then some ⟨.string read.reverse :: s.tokens, .between⟩
    else if c = '\\' then some ⟨s.tokens, .escape read⟩
    else if c = '\n' ∨ c = '\r' then none
    else some ⟨s.tokens, .string (c :: read)⟩
  | .escape read => (escaped c).map fun c => ⟨s.tokens, .string (c :: read)⟩
  | .name read =>
    if isNameChar c then some ⟨s.tokens, .name (c :: read)⟩ else (flush s).bind (start · c)
  | .numeral read =>
    if c.isDigit ∨ c = '.' then some ⟨s.tokens, .numeral (c :: read)⟩
    else if isNameChar c then none
    else (flush s).bind (start · c)
  | .dot =>
    if c.isDigit then some ⟨s.tokens, .numeral [c, '.']⟩ else (flush s).bind (start · c)
  | .between => start s.tokens c

/-- A text is read. -/
def run (s : Lexer) (text : List Char) : Option Lexer := text.foldlM step s

/-- The tokens of a text. -/
def lex (text : List Char) : Option (List Token) :=
  ((run ⟨[], .between⟩ text).bind flush).map List.reverse

/-! ### Tables -/

/-- A literal. -/
inductive Literal where
  | string (text : List Char)
  | number (text : List Char)
  | bool (value : Bool)
deriving DecidableEq

/-- The reserved words. -/
def reserved : List (List Char) :=
  ["and", "break", "do", "else", "elseif", "end", "false", "for", "function", "goto", "if", "in", "local",
    "nil", "not", "or", "repeat", "return", "then", "true", "until", "while"].map String.toList

/-- The literal that a token is. -/
def literal : Token → Option Literal
  | .string text => some (.string text)
  | .numeral text => some (.number text)
  | .name text =>
    if text = "true".toList then some (.bool true)
    else if text = "false".toList then some (.bool false)
    else none
  | .symbol _ => none

/-- The fields of a table behind its opening brace, and what follows its closing one. -/
def fields : List Token → Option (List (List Char × Literal) × List Token)
  | .symbol '\x7d' :: rest => some ([], rest)
  | .name key :: .symbol '=' :: value :: .symbol separator :: rest =>
    if key ∈ reserved then none
    else
      (literal value).bind fun value =>
        if separator = '\x7d' then some ([(key, value)], rest)
        else if separator = ',' ∨ separator = ';' then
          (fields rest).map fun (others, rest) => ((key, value) :: others, rest)
        else none
  | _ => none

/-- The fields of the table that `object.method({ key = value, ... })` is called with. -/
def call (object method : List Char) (text : List Char) : Option (List (List Char × Literal)) :=
  match lex text with
  | some (.name o :: .symbol '.' :: .name m :: .symbol '(' :: .symbol '\x7b' :: rest) =>
    if o = object ∧ m = method then
      match fields rest with
      | some (read, [.symbol ')']) => some read
      | _ => none
    else none
  | _ => none

/-! ### Fields -/

section Fields

variable {key : List Char} {token : Token} {value : Literal} {rest : List Token}

/-- A string token is a string. -/
theorem literal_string (text : List Char) : literal (.string text) = some (.string text) := rfl

/-- A numeral token is a number. -/
theorem literal_numeral (text : List Char) : literal (.numeral text) = some (.number text) := rfl

/-- The names of the truth values stand for them. -/
theorem literal_bool (value : Bool) :
    literal (.name (if value then "true".toList else "false".toList)) = some (.bool value) := by
  cases value <;> decide

/-- A field and a comma come before other fields. -/
theorem fields_cons (hkey : key ∉ reserved) (hvalue : literal token = some value) :
    fields (.name key :: .symbol '=' :: token :: .symbol ',' :: rest) =
      (fields rest).map fun (others, rest) => ((key, value) :: others, rest) := by
  simp [fields, hkey, hvalue]

/-- A field and a closing brace end a table. -/
theorem fields_last (hkey : key ∉ reserved) (hvalue : literal token = some value) :
    fields (.name key :: .symbol '=' :: token :: .symbol '\x7d' :: rest) =
      some ([(key, value)], rest) := by
  simp [fields, hkey, hvalue]

/-- A call is read if its table is. -/
theorem call_of_fields {object method text : List Char} {read : List (List Char × Literal)}
    (hlex : lex text =
      some (.name object :: .symbol '.' :: .name method :: .symbol '(' :: .symbol '\x7b' :: rest))
    (hfields : fields rest = some (read, [.symbol ')'])) : call object method text = some read := by
  unfold call
  simp only [hlex, and_self, ↓reduceIte, hfields]

end Fields

/-! ### Reading piece by piece -/

variable {s : Lexer} {tokens : List Token} {text rest : List Char}

/-- A text is read piece by piece. -/
theorem run_append : run s (text ++ rest) = (run s text).bind (run · rest) :=
  List.foldlM_append

/-- A character that a string takes as it is. -/
def Plain (c : Char) : Prop := c ≠ '"' ∧ c ≠ '\\' ∧ c ≠ '\n' ∧ c ≠ '\r'

/-- Plain characters are taken into a string. -/
theorem run_plain (h : ∀ c ∈ text, Plain c) (read : List Char) :
    run ⟨tokens, .string read⟩ text = some ⟨tokens, .string (text.reverse ++ read)⟩ := by
  induction text generalizing read with
  | nil => rfl
  | cons c text ih =>
    obtain ⟨hquote, hescape, hnewline, hreturn⟩ := h c (List.mem_cons_self ..)
    have hrest : ∀ c ∈ text, Plain c := fun c hc => h c (List.mem_cons_of_mem _ hc)
    have hstep : step ⟨tokens, .string read⟩ c = some ⟨tokens, .string (c :: read)⟩ := by
      simp [step, hquote, hescape, hnewline, hreturn]
    unfold run at ih ⊢
    rw [List.foldlM_cons, hstep]
    simp only [Option.bind_eq_bind, Option.bind_some, ih hrest, List.reverse_cons,
      List.append_assoc,
      List.singleton_append]

/-- The characters of a class are plain where these four are not in it. -/
theorem plain_of_class {p : Char → Bool} {c : Char} (hc : p c = true)
    (hp : (['"', '\\', '\n', '\r'].all fun c => !p c) = true) : Plain c := by
  have hne : ∀ d ∈ ['"', '\\', '\n', '\r'], c ≠ d := by
    intro d hd heq
    have hout := List.all_eq_true.mp hp d hd
    rw [← heq, hc] at hout
    cases hout
  exact ⟨hne _ (by simp), hne _ (by simp), hne _ (by simp), hne _ (by simp)⟩

/-- A plain text is a string up to the next quote. -/
theorem run_quoted (h : ∀ c ∈ text, Plain c) :
    run ⟨tokens, .string []⟩ (text ++ '"' :: rest) =
      run ⟨.string text :: tokens, .between⟩ rest := by
  rw [run_append, run_plain h]
  have hstep : step ⟨tokens, .string (text.reverse ++ [])⟩ '"' =
      some ⟨.string text :: tokens, .between⟩ := by
    simp [step]
  unfold run
  rw [Option.bind_some, List.foldlM_cons, hstep]
  rfl

/-- A decimal number without an exponent. -/
structure Numeral (text : List Char) : Prop where
  characters : ∀ c ∈ text, c.isDigit ∨ c = '.'
  point : text.count '.' ≤ 1
  digit : ∃ c ∈ text, c.isDigit

/-- Digits and points are taken into a numeral. -/
theorem run_digits (h : ∀ c ∈ text, c.isDigit ∨ c = '.') (read : List Char) :
    run ⟨tokens, .numeral read⟩ text = some ⟨tokens, .numeral (text.reverse ++ read)⟩ := by
  induction text generalizing read with
  | nil => rfl
  | cons c text ih =>
    have hc := h c (List.mem_cons_self ..)
    have hrest : ∀ c ∈ text, c.isDigit ∨ c = '.' := fun c hc => h c (List.mem_cons_of_mem _ hc)
    have hstep : step ⟨tokens, .numeral read⟩ c = some ⟨tokens, .numeral (c :: read)⟩ := by
      simp [step, hc]
    unfold run at ih ⊢
    rw [List.foldlM_cons, hstep]
    simp only [Option.bind_eq_bind, Option.bind_some, ih hrest, List.reverse_cons,
      List.append_assoc,
      List.singleton_append]

/-- A digit starts a numeral. -/
theorem start_digit {c : Char} (h : c.isDigit) : start tokens c = some ⟨tokens, .numeral [c]⟩ := by
  have hne : ∀ d : Char, d.isDigit = false → c ≠ d := by
    intro d hd heq
    rw [heq, hd] at h
    cases h
  have hspace : isSpace c = false := by
    simp [isSpace, hne ' ' (by decide), hne '\t' (by decide), hne '\n' (by decide),
      hne '\r' (by decide),
      hne '\x0b' (by decide), hne '\x0c' (by decide)]
  unfold start
  rw [hspace, if_neg (by decide), if_neg (hne '"' (by decide)), if_pos h]

/-- A numeral is read as one token. -/
theorem run_numeral_text (h : Numeral text) :
    run ⟨tokens, .between⟩ text = some ⟨tokens, .numeral text.reverse⟩ := by
  -- Behind its first character a numeral only takes digits and points.
  have hcons : ∀ (c : Char) (text : List Char), (∀ d ∈ text, d.isDigit ∨ d = '.') → ∀ read,
      run ⟨tokens, .numeral (c :: read)⟩ text =
        some ⟨tokens, .numeral (text.reverse ++ c :: read)⟩ :=
    fun c text htext read => run_digits htext (c :: read)
  obtain ⟨hcharacters, hpoint, e, he, hdigit⟩ := h
  cases text with
  | nil => cases he
  | cons c text =>
    have htext : ∀ d ∈ text, d.isDigit ∨ d = '.' :=
      fun d hd => hcharacters d (List.mem_cons_of_mem _ hd)
    obtain hc | rfl := hcharacters c (List.mem_cons_self ..)
    · unfold run
      rw [List.foldlM_cons, show step ⟨tokens, .between⟩ c = _ from start_digit hc]
      simpa [run] using hcons c text htext []
    -- Behind a leading point is a digit: there is no other point, and some digit.
    · cases text with
      | nil => simp at he; rw [he] at hdigit; cases hdigit
      | cons d text =>
        have hd : d.isDigit := by
          obtain hd | rfl := htext d (List.mem_cons_self ..)
          · exact hd
          · simp at hpoint
        have hdot : step ⟨tokens, .between⟩ '.' = some ⟨tokens, .dot⟩ := by
          simp [step, start, isSpace, isNameChar]
        have hnext : step ⟨tokens, .dot⟩ d = some ⟨tokens, .numeral [d, '.']⟩ := by
          simp [step, hd]
        unfold run
        rw [List.foldlM_cons, hdot]
        simp only [Option.bind_eq_bind, Option.bind_some]
        rw [List.foldlM_cons, hnext]
        simpa [run] using hcons d text (fun e he => htext e (List.mem_cons_of_mem _ he)) ['.']

/-- A numeral goes on until a comma. -/
theorem run_numeral (h : Numeral text) :
    run ⟨tokens, .between⟩ (text ++ ',' :: rest) =
      run ⟨.symbol ',' :: .numeral text :: tokens, .between⟩ rest := by
  have hcount : text.count '.' ≤ 1 := h.point
  have hstep : step ⟨tokens, .numeral text.reverse⟩ ',' =
      some ⟨.symbol ',' :: .numeral text :: tokens, .between⟩ := by
    simp [step, flush, start, hcount, isNameChar, isSpace, isSymbol]
  rw [run_append, run_numeral_text h, Option.bind_some]
  unfold run
  rw [List.foldlM_cons, hstep]
  rfl

/-- What a lexer does is done over tokens that were read before. -/
theorem step_over (behind : List Token) (c : Char) :
    step ⟨s.tokens ++ behind, s.mode⟩ c =
      (step s c).map fun next => ⟨next.tokens ++ behind, next.mode⟩ := by
  -- A token that starts is put over what was read.
  have hstart : ∀ tokens : List Token, start (tokens ++ behind) c =
      (start tokens c).map fun next => ⟨next.tokens ++ behind, next.mode⟩ := by
    intro tokens
    unfold start
    split_ifs <;> rfl
  obtain ⟨tokens, mode⟩ := s
  -- So is the token that ends.
  have hflush : flush ⟨tokens ++ behind, mode⟩ = (flush ⟨tokens, mode⟩).map (· ++ behind) := by
    cases mode with
    | numeral read => simp only [flush]; split_ifs <;> rfl
    | _ => rfl
  have hbind : (flush ⟨tokens ++ behind, mode⟩).bind (start · c) =
      ((flush ⟨tokens, mode⟩).bind (start · c)).map
        fun next => ⟨next.tokens ++ behind, next.mode⟩ := by
    rw [hflush]
    cases flush ⟨tokens, mode⟩ with
    | none => rfl
    | some tokens => exact hstart tokens
  -- A character goes on with the token, or ends it and starts another one.
  unfold step
  cases mode with
  | between => exact hstart tokens
  | escape read => cases escaped c <;> rfl
  | string read => simp only; split_ifs <;> rfl
  | _ => simp only [hbind]; split_ifs <;> rfl

/-- A piece without unknown parts is read by itself. -/
theorem run_last {mode next : Mode} {read : List Token}
    (h : run ⟨[], mode⟩ text = some ⟨read, next⟩) :
    run ⟨tokens, mode⟩ text = some ⟨read ++ tokens, next⟩ := by
  have hover : ∀ (text : List Char) (s : Lexer), run ⟨s.tokens ++ tokens, s.mode⟩ text =
      (run s text).map fun next => ⟨next.tokens ++ tokens, next.mode⟩ := by
    intro text
    unfold run
    induction text with
    | nil => exact fun s => rfl
    | cons c text ih =>
      intro s
      rw [List.foldlM_cons, List.foldlM_cons, step_over]
      cases step s c with
      | none => rfl
      | some next => exact ih next
  have hpiece := hover text ⟨[], mode⟩
  rw [h] at hpiece
  exact hpiece

/-- What a piece is read as goes in front of what was read before. -/
theorem run_piece {mode next : Mode} {read : List Token}
    (h : run ⟨[], mode⟩ text = some ⟨read, next⟩) :
    run ⟨tokens, mode⟩ (text ++ rest) = run ⟨read ++ tokens, next⟩ rest := by
  rw [run_append, run_last h]
  rfl

end DaemonFramework.Lua
