import DaemonFramework.Binary64
import DaemonFramework.Lua
import DaemonFramework.Worklist

/-!
# Monitor rules

`command` of `shelllist-hyprland/src/monitor.rs` encodes a monitor rule as a call in Lua that
Hyprland evaluates, with the strings of the caller in it. What is accepted is read back from the
text: the table has the keys and the values that were meant (`command_reads`), so no string ends
before its quote, and different rules have different texts.
-/

namespace DaemonFramework.Hyprland.MonitorRule

open Decimal Text Binary64

/-- `Mode`. -/
inductive Mode where
  | preferred
  | exact (value : String)
deriving DecidableEq

/-- `Position`. -/
inductive Position where
  | auto
  | exact (x y : Int32)
deriving DecidableEq

/-- `Rule`. -/
inductive Rule where
  | disable
  | enable (mode : Mode) (position : Position) (scale : F64) (transform : Option UInt8) (mirror : String)

/-- A result, or an error with the text of its context. -/
def context {α : Type*} (result : Option α) (text : String) : Except String α :=
  match result with
  | some a => .ok a
  | none => .error text

/-- `ensure!`. -/
def ensure (condition : Bool) (text : String) : Except String Unit :=
  if condition then .ok () else .error text

/-- `v > 0.0`, of what is not NaN. -/
def positive (v : F64) : Bool := !v.negative && v.magnitude != 0

/-- `identifier`. -/
def identifier (value : String) : Bool :=
  value.toList ≠ [] && value.toList.all fun c => c.isAlphanum || c ∈ ['-', '_']

/-- A mode without one suffix `Hz`. -/
def withoutUnit (value : List Char) : List Char := (stripSuffix "Hz".toList value).getD value

/-- `Mode::token`. -/
def Mode.token : Mode → Except String String
  | .preferred => .ok "preferred"
  | .exact value => do
    let value := withoutUnit value.toList
    ensure (value.all fun c => c.isDigit || c ∈ ['x', '@', '.']) "Invalid Hyprland monitor mode"
    let (size, rate) ← context (splitOnce '@' value) "Monitor mode needs a refresh rate"
    let (width, height) ← context (splitOnce 'x' size) "Monitor mode needs dimensions"
    let width ← context (parseUnsigned 32 10 width) "Invalid monitor width"
    let height ← context (parseUnsigned 32 10 height) "Invalid monitor height"
    let rate ← context (parseF64 rate) "Invalid monitor refresh rate"
    ensure (0 < width && 0 < height && rate.isFinite && positive rate) "Invalid Hyprland monitor mode"
    return String.ofList value

/-- The text of a position. -/
def Position.text : Position → String
  | .auto => "auto"
  | .exact x y => s!"{x}x{y}"

/-- `command`; `render` is the text of a number. -/
def command (render : F64 → String) (output : String) (rule : Rule) : Except String String := do
  ensure (identifier output) "Invalid Hyprland output identifier"
  match rule with
  | .disable => return s!"eval hl.monitor(\x7b output = \"{output}\", disabled = true \x7d)"
  | .enable mode position scale transform mirror =>
    let mode ← mode.token
    ensure (scale.isFinite && positive scale) "Invalid Hyprland monitor scale"
    ensure (transform.all (· ≤ 7)) "Invalid Hyprland monitor transform"
    ensure (mirror.isEmpty || identifier mirror) "Invalid Hyprland mirror identifier"
    let position := position.text
    let transform := (transform.map fun value => s!", transform = {value}").getD ""
    let scale := render scale
    return s!"eval hl.monitor(\x7b output = \"{output}\", disabled = false, mode = \"{mode}\", " ++
      s!"position = \"{position}\", scale = {scale}{transform}, mirror = \"{mirror}\" \x7d)"

/-! ## What is meant -/

/-- The text that a mode is written as. -/
def Mode.written : Mode → List Char
  | .preferred => "preferred".toList
  | .exact value => withoutUnit value.toList

/-- The mode without one suffix `Hz`. -/
def Mode.bare : Mode → Mode
  | .preferred => .preferred
  | .exact value => .exact (String.ofList (withoutUnit value.toList))

/-- The rule with its mode without one suffix `Hz`. -/
def Rule.bare : Rule → Rule
  | .disable => .disable
  | .enable mode position scale transform mirror => .enable mode.bare position scale transform mirror

/-- The keys and values of the table for a rule. -/
def settings (render : F64 → String) (output : String) : Rule → List (List Char × Lua.Literal)
  | .disable => [("output".toList, .string output.toList), ("disabled".toList, .bool true)]
  | .enable mode position scale transform mirror =>
    [("output".toList, .string output.toList), ("disabled".toList, .bool false),
      ("mode".toList, .string mode.written), ("position".toList, .string position.text.toList),
      ("scale".toList, .number (render scale).toList)] ++
    (transform.map fun value => ("transform".toList, .number (toString value).toList)).toList ++
    [("mirror".toList, .string mirror.toList)]

/-- The table in the call that a request evaluates. -/
def evaluated (text : String) : Option (List (List Char × Lua.Literal)) :=
  (stripPrefix "eval ".toList text.toList).bind (Lua.call "hl".toList "monitor".toList)

/-- A position from its text. -/
def Position.read (text : List Char) : Option Position :=
  if text = "auto".toList then some .auto
  else
    (splitOnce 'x' text).bind fun (x, y) => (parseSigned 32 10 x).bind fun x =>
      (parseSigned 32 10 y).map fun y => .exact (Int32.ofInt x) (Int32.ofInt y)

/-- What a table says of a monitor. -/
structure Reading where
  output : List Char
  disabled : Bool
  mode : Option (List Char)
  position : Option Position
  scale : Option (List Char)
  transform : Option ℕ
  mirror : Option (List Char)

/-- The string at a key. -/
def stringAt (fields : List (List Char × Lua.Literal)) (key : List Char) : Option (List Char) :=
  match fields.lookup key with
  | some (.string text) => some text
  | _ => none

/-- The number at a key, by its text. -/
def numberAt (fields : List (List Char × Lua.Literal)) (key : List Char) : Option (List Char) :=
  match fields.lookup key with
  | some (.number text) => some text
  | _ => none

/-- The truth value at a key. -/
def boolAt (fields : List (List Char × Lua.Literal)) (key : List Char) : Option Bool :=
  match fields.lookup key with
  | some (.bool value) => some value
  | _ => none

/-- A table is read. -/
def reading (fields : List (List Char × Lua.Literal)) : Option Reading := do
  let output ← stringAt fields "output".toList
  let disabled ← boolAt fields "disabled".toList
  return {
    output := output
    disabled := disabled
    mode := stringAt fields "mode".toList
    position := (stringAt fields "position".toList).bind Position.read
    scale := numberAt fields "scale".toList
    transform := (numberAt fields "transform".toList).bind (parseDigits 10)
    mirror := stringAt fields "mirror".toList }

/-- What is meant by a rule for an output. -/
def Rule.meant (render : F64 → String) (output : String) : Rule → Reading
  | .disable => ⟨output.toList, true, none, none, none, none, none⟩
  | .enable mode position scale transform mirror =>
    ⟨output.toList, false, some mode.written, some position, some (render scale).toList,
      transform.map UInt8.toNat, some mirror.toList⟩

/-- The texts of positive numbers, of which each belongs to one number: digits with one point at
most. -/
structure Rendering where
  text : F64 → String
  numeral : ∀ v, v.isFinite → positive v → Lua.Numeral (text v).toList
  injective : ∀ v w, v.isFinite → positive v → w.isFinite → positive w → text v = text w → v = w

/-! ### What is accepted -/

section Accepted

variable {render : F64 → String} {output text : String}

/-- A step behind a condition is reached only if the condition holds. -/
theorem ensure_bind {α : Type} {condition : Bool} {message : String} {next : Except String α}
    {a : α}
    (h : (do ensure condition message; next) = .ok a) : condition = true ∧ next = .ok a := by
  cases condition with
  | false => cases h
  | true => exact ⟨rfl, h⟩

/-- A step behind a value is reached only if the value is there. -/
theorem context_bind {α β : Type} {result : Option α} {message : String}
    {next : α → Except String β} {b : β}
    (h : (do next (← context result message)) = .ok b) :
    ∃ a, result = some a ∧ next a = .ok b := by
  cases result with
  | none => cases h
  | some a => exact ⟨a, rfl, h⟩

/-- An identifier has no character that ends or escapes a string. -/
theorem plain_of_identifier (h : identifier output) : ∀ c ∈ output.toList, Lua.Plain c := by
  unfold identifier at h
  rw [Bool.and_eq_true, List.all_eq_true] at h
  exact fun c hc => @Lua.plain_of_class (fun c => c.isAlphanum || c ∈ ['-', '_']) c (h.2 c hc)
    (by decide)

/-- Nor have letters. -/
theorem plain_of_letters {word : List Char} (h : word.all Char.isAlpha = true) :
    ∀ c ∈ word, Lua.Plain c :=
  fun c hc => @Lua.plain_of_class Char.isAlpha c (List.all_eq_true.mp h c hc) (by decide)

/-- An accepted mode is written as it is, in digits and marks or as the word. -/
theorem written_of_token {mode : Mode} (h : mode.token = .ok text) :
    text.toList = mode.written ∧ (∀ c ∈ text.toList, Lua.Plain c) ∧
      (mode = .preferred ∨ ∀ c ∈ text.toList, c.isDigit || c ∈ ['x', '@', '.']) := by
  cases mode with
  | preferred =>
    cases h
    exact ⟨rfl, plain_of_letters (by decide), .inl rfl⟩
  | exact given =>
    unfold Mode.token at h
    obtain ⟨hclass, h⟩ := ensure_bind h
    obtain ⟨⟨size, rate⟩, -, h⟩ := context_bind h
    obtain ⟨⟨width, height⟩, -, h⟩ := context_bind h
    obtain ⟨width, -, h⟩ := context_bind h
    obtain ⟨height, -, h⟩ := context_bind h
    obtain ⟨rate, -, h⟩ := context_bind h
    obtain ⟨-, h⟩ := ensure_bind h
    cases h
    rw [String.toList_ofList]
    rw [List.all_eq_true] at hclass
    have hplain : ∀ c ∈ withoutUnit given.toList, Lua.Plain c := fun c hc =>
      @Lua.plain_of_class (fun c => c.isDigit || c ∈ ['x', '@', '.']) c (hclass c hc) (by decide)
    exact ⟨rfl, hplain, .inr hclass⟩

/-- An exact position is written as two integers around an `x`. -/
theorem toList_text (x y : Int32) :
    (Position.exact x y).text.toList = x.toInt.repr.toList ++ 'x' :: y.toInt.repr.toList := by
  have hmark : "x".toList = ['x'] := by decide
  have htext : (Position.exact x y).text = x.toInt.repr ++ "x" ++ y.toInt.repr := rfl
  rw [htext, String.toList_append, String.toList_append, hmark, List.append_assoc,
    List.singleton_append]

/-- The characters of an exact position. -/
theorem mem_text {x y : Int32} {c : Char} (h : c ∈ (Position.exact x y).text.toList) :
    c.isDigit || c ∈ ['-', 'x'] := by
  rw [toList_text, List.mem_append, List.mem_cons] at h
  obtain h | rfl | h := h
  · obtain h | rfl := mem_repr h
    · rw [h, Bool.true_or]
    · decide
  · decide
  · obtain h | rfl := mem_repr h
    · rw [h, Bool.true_or]
    · decide

/-- The text of a position can stand in a string. -/
theorem plain_text (position : Position) : ∀ c ∈ position.text.toList, Lua.Plain c := by
  cases position with
  | auto => exact plain_of_letters (by decide)
  | exact x y =>
    exact fun c hc => @Lua.plain_of_class (fun c => c.isDigit || c ∈ ['-', 'x']) c (mem_text hc)
      (by decide)

/-- A position is read from its text. -/
theorem read_text (position : Position) : Position.read position.text.toList = some position := by
  cases position with
  | auto => rfl
  | exact x y =>
    have hauto : (Position.exact x y).text.toList ≠ "auto".toList := by
      intro h
      have hmem : 'a' ∈ (Position.exact x y).text.toList := by rw [h]; decide
      exact absurd (mem_text hmem) (by decide)
    have hmark : 'x' ∉ x.toInt.repr.toList := by
      intro hmem
      have hclass := mem_repr hmem
      revert hclass
      decide
    have hparse : ∀ z : Int32, parseSigned 32 10 z.toInt.repr.toList = some z.toInt :=
      fun z => parseSigned_repr (Int32.le_toInt z) (Int32.toInt_lt z)
    unfold Position.read
    rw [if_neg hauto, toList_text, splitOnce_append hmark]
    simp [hparse]

/-- The text of a transform, which may be left out. -/
def transformText (transform : Option UInt8) : List Char :=
  (transform.map fun value => ", transform = ".toList ++ (toString value).toList).getD []

/-- The command for a disabled output, in the pieces that it is read in. -/
theorem of_disable (h : command render output .disable = .ok text) :
    (∀ c ∈ output.toList, Lua.Plain c) ∧
      text.toList = "eval ".toList ++ ("hl.monitor(\x7b output = \"".toList ++ (output.toList ++
        '"' :: ", disabled = true \x7d)".toList)) := by
  unfold command at h
  obtain ⟨houtput, h⟩ := ensure_bind h
  have hstart : "eval hl.monitor(\x7b output = \"".toList =
      "eval ".toList ++ "hl.monitor(\x7b output = \"".toList := by decide
  have hdisabled :
      "\", disabled = true \x7d)".toList = '"' :: ", disabled = true \x7d)".toList := by decide
  cases h
  refine ⟨plain_of_identifier houtput, ?_⟩
  simp only [toString, String.toList_append, hstart, hdisabled, List.append_assoc]

/-- The command for an enabled output, in the pieces that it is read in, and what was accepted for
it. -/
theorem of_enable {mode : Mode} {position : Position} {scale : F64} {transform : Option UInt8}
    {mirror : String}
    (h : command render output (.enable mode position scale transform mirror) = .ok text) :
    ∃ token, mode.token = .ok token ∧ scale.isFinite ∧ positive scale ∧
      (∀ c ∈ output.toList, Lua.Plain c) ∧ (∀ c ∈ mirror.toList, Lua.Plain c) ∧
      text.toList = "eval ".toList ++ ("hl.monitor(\x7b output = \"".toList ++ (output.toList ++
        '"' :: (", disabled = false, mode = \"".toList ++ (token.toList ++
        '"' :: (", position = \"".toList ++ (position.text.toList ++
        '"' :: (", scale = ".toList ++ ((render scale).toList ++ (transformText transform ++
        (", mirror = \"".toList ++ (mirror.toList ++ '"' :: " \x7d)".toList))))))))))) := by
  unfold command at h
  obtain ⟨houtput, h⟩ := ensure_bind h
  obtain ⟨token, htoken, h⟩ := Worklist.bind_eq_ok h
  obtain ⟨hscale, h⟩ := ensure_bind h
  obtain ⟨-, h⟩ := ensure_bind h
  obtain ⟨hmirror, h⟩ := ensure_bind h
  rw [Bool.and_eq_true] at hscale
  rw [Bool.or_eq_true] at hmirror
  have hplain : ∀ c ∈ mirror.toList, Lua.Plain c := by
    obtain hempty | hmirror := hmirror
    · rw [String.isEmpty_iff] at hempty
      subst hempty
      exact nofun
    · exact plain_of_identifier hmirror
  -- The fixed texts are cut where a string of the caller begins or ends.
  have hstart : "eval hl.monitor(\x7b output = \"".toList =
      "eval ".toList ++ "hl.monitor(\x7b output = \"".toList := by decide
  have hmode : "\", disabled = false, mode = \"".toList =
      '"' :: ", disabled = false, mode = \"".toList := by decide
  have hcomma : "\", ".toList = '"' :: ", ".toList := by decide
  have hposition : ", position = \"".toList = ", ".toList ++ "position = \"".toList := by decide
  have hscaleKey : "\", scale = ".toList = '"' :: ", scale = ".toList := by decide
  have hend : "\" \x7d)".toList = '"' :: " \x7d)".toList := by decide
  cases h
  refine ⟨token, htoken, hscale.1, hscale.2, plain_of_identifier houtput, hplain, ?_⟩
  have htransform :
      ((transform.map fun value => ", transform = " ++ value.toNat.repr).getD "").toList =
      transformText transform := by
    cases transform with
    | none => rfl
    | some value => exact String.toList_append
  simp only [toString, String.toList_append, hstart, hmode, hcomma, hposition, hscaleKey, hend,
    htransform,
    List.append_assoc, List.cons_append]

end Accepted

/-! ### Reading it back -/

section Reading

open Lua (Token run lex fields run_piece run_quoted run_numeral run_last fields_cons fields_last
  call_of_fields)

variable {output mode position scale mirror : List Char} {tokens : List Token}

/-- Printed natural numbers are numerals. -/
theorem numeral_toDigits (n : ℕ) : Lua.Numeral (Nat.toDigits 10 n) := by
  have hdigits : ∀ c ∈ Nat.toDigits 10 n, c.isDigit :=
    fun c hc => Nat.isDigit_of_mem_toDigits (by decide) (by decide) hc
  refine ⟨fun c hc => .inl (hdigits c hc), ?_, ?_⟩
  · have hpoint : '.' ∉ Nat.toDigits 10 n := fun hmem => absurd (hdigits _ hmem) (by decide)
    rw [List.count_eq_zero.mpr hpoint]
    exact Nat.zero_le 1
  · obtain ⟨c, hc⟩ := List.exists_mem_of_ne_nil _ (@Nat.toDigits_ne_nil n 10)
    exact ⟨c, hc, hdigits c hc⟩

/-- A byte is printed in decimal digits. -/
theorem toList_toString (value : UInt8) : (toString value).toList = Nat.toDigits 10 value.toNat :=
  Nat.toList_repr

/-- The call for a disabled monitor. -/
theorem call_disable (houtput : ∀ c ∈ output, Lua.Plain c) :
    Lua.call "hl".toList "monitor".toList ("hl.monitor(\x7b output = \"".toList ++ (output ++
        '"' :: ", disabled = true \x7d)".toList)) =
      some [("output".toList, .string output), ("disabled".toList, .bool true)] := by
  -- The text around the name of the output is fixed, so it is read by evaluation.
  have hhead : run ⟨[], .between⟩ "hl.monitor(\x7b output = \"".toList =
      some ⟨[.symbol '=', .name "output".toList, .symbol '\x7b', .symbol '(',
        .name "monitor".toList,
        .symbol '.', .name "hl".toList], .string []⟩ := by decide
  have htail : run ⟨[], .between⟩ ", disabled = true \x7d)".toList =
      some ⟨[.symbol ')', .symbol '\x7d', .name "true".toList, .symbol '=', .name "disabled".toList,
        .symbol ','], .between⟩ := by decide
  have hlex : lex ("hl.monitor(\x7b output = \"".toList ++ (output ++
        '"' :: ", disabled = true \x7d)".toList)) =
      some [.name "hl".toList, .symbol '.', .name "monitor".toList, .symbol '(', .symbol '\x7b',
        .name "output".toList, .symbol '=', .string output, .symbol ',',
        .name "disabled".toList, .symbol '=', .name "true".toList, .symbol '\x7d',
        .symbol ')'] := by
    unfold lex
    rw [run_piece hhead, run_quoted houtput, run_last htail]
    rfl
  -- The tokens are the call of a table with two fields.
  have houtputKey : "output".toList ∉ Lua.reserved := by decide
  have hdisabledKey : "disabled".toList ∉ Lua.reserved := by decide
  have htrue : Lua.literal (.name "true".toList) = some (.bool true) := Lua.literal_bool true
  refine call_of_fields hlex ?_
  rw [fields_cons houtputKey (Lua.literal_string output), fields_last hdisabledKey htrue]
  rfl

/-- The tokens of the fields for an enabled monitor, with what is behind them. -/
def enableTokens (output mode position scale : List Char) (transform : Option UInt8) (mirror : List Char) :
    List Token :=
  .name "output".toList :: .symbol '=' :: .string output :: .symbol ',' ::
  .name "disabled".toList :: .symbol '=' :: .name "false".toList :: .symbol ',' ::
  .name "mode".toList :: .symbol '=' :: .string mode :: .symbol ',' ::
  .name "position".toList :: .symbol '=' :: .string position :: .symbol ',' ::
  .name "scale".toList :: .symbol '=' :: .numeral scale :: .symbol ',' ::
  ((transform.map fun value => [.name "transform".toList, .symbol '=', .numeral (toString value).toList,
      .symbol ',']).getD [] ++
    [.name "mirror".toList, .symbol '=', .string mirror, .symbol '\x7d', .symbol ')'])

/-- The table of an enabled output is read field by field. -/
theorem fields_enableTokens (transform : Option UInt8) :
    fields (enableTokens output mode position scale transform mirror) =
      some ([("output".toList, .string output), ("disabled".toList, .bool false),
        ("mode".toList, .string mode),
          ("position".toList, .string position), ("scale".toList, .number scale)] ++
        (transform.map fun value => ("transform".toList, .number (toString value).toList)).toList ++
        [("mirror".toList, .string mirror)], [.symbol ')']) := by
  -- No key of the table is a word that Lua reserves.
  have houtputKey : "output".toList ∉ Lua.reserved := by decide
  have hdisabledKey : "disabled".toList ∉ Lua.reserved := by decide
  have hmodeKey : "mode".toList ∉ Lua.reserved := by decide
  have hpositionKey : "position".toList ∉ Lua.reserved := by decide
  have hscaleKey : "scale".toList ∉ Lua.reserved := by decide
  have htransformKey : "transform".toList ∉ Lua.reserved := by decide
  have hmirrorKey : "mirror".toList ∉ Lua.reserved := by decide
  have hfalse : Lua.literal (.name "false".toList) = some (.bool false) := Lua.literal_bool false
  -- The fields are read from the first one to the last, which no comma follows.
  have hlast := @fields_last _ _ _ [.symbol ')'] hmirrorKey (Lua.literal_string mirror)
  unfold enableTokens
  rw [fields_cons houtputKey (Lua.literal_string output), fields_cons hdisabledKey hfalse,
    fields_cons hmodeKey (Lua.literal_string mode),
    fields_cons hpositionKey (Lua.literal_string position),
    fields_cons hscaleKey (Lua.literal_numeral scale)]
  -- The transform is written only where there is one.
  cases transform with
  | none =>
    rw [Option.map_none, Option.getD_none, List.nil_append, hlast]
    rfl
  | some value =>
    have htransform := @fields_cons _ _ _
      [.name "mirror".toList, .symbol '=', .string mirror, .symbol '\x7d', .symbol ')']
      htransformKey
      (Lua.literal_numeral (toString value).toList)
    rw [hlast] at htransform
    rw [Option.map_some, Option.getD_some, List.cons_append, List.cons_append, List.cons_append,
      List.cons_append, List.nil_append, htransform]
    rfl

/-- What a lexer reads behind the scale. -/
theorem run_transform {transform : Option UInt8} (hscale : Lua.Numeral scale) (rest : List Char) :
    run ⟨tokens, .between⟩
        (scale ++ (transformText transform ++ (", mirror = \"".toList ++ rest))) =
      run ⟨[.symbol '=', .name "mirror".toList, .symbol ','] ++
        (transform.map fun value => [.numeral (toString value).toList, .symbol '=',
          .name "transform".toList,
          .symbol ',']).getD [] ++ .numeral scale :: tokens, .string []⟩ rest := by
  have hmirror : ", mirror = \"".toList = ',' :: " mirror = \"".toList := by decide
  have hpiece : run ⟨[], .between⟩ " mirror = \"".toList =
      some ⟨[.symbol '=', .name "mirror".toList], .string []⟩ := by decide
  rw [hmirror]
  cases transform with
  | none =>
    have hnone : transformText none = [] := rfl
    rw [hnone, List.nil_append, List.cons_append, run_numeral hscale, run_piece hpiece]
    rfl
  | some value =>
    have hkey : ", transform = ".toList = ',' :: " transform = ".toList := by decide
    have htransform : run ⟨[], .between⟩ " transform = ".toList =
        some ⟨[.symbol '=', .name "transform".toList], .between⟩ := by decide
    have hsome : transformText (some value) = ", transform = ".toList ++ (toString value).toList :=
      rfl
    have hvalue : Lua.Numeral (toString value).toList := by
      rw [toList_toString]
      exact numeral_toDigits value.toNat
    rw [hsome, hkey, List.append_assoc, List.cons_append, List.cons_append, run_numeral hscale,
      run_piece htransform, run_numeral hvalue, run_piece hpiece]
    rfl

/-- The call for an enabled monitor. -/
theorem call_enable {transform : Option UInt8} (houtput : ∀ c ∈ output, Lua.Plain c)
    (hmode : ∀ c ∈ mode, Lua.Plain c) (hposition : ∀ c ∈ position, Lua.Plain c)
    (hscale : Lua.Numeral scale) (hmirror : ∀ c ∈ mirror, Lua.Plain c) :
    Lua.call "hl".toList "monitor".toList ("hl.monitor(\x7b output = \"".toList ++ (output ++
        '"' :: (", disabled = false, mode = \"".toList ++ (mode ++
        '"' :: (", position = \"".toList ++ (position ++
        '"' :: (", scale = ".toList ++ (scale ++ (transformText transform ++
        (", mirror = \"".toList ++ (mirror ++ '"' :: " \x7d)".toList))))))))))) =
      some ([("output".toList, .string output), ("disabled".toList, .bool false),
        ("mode".toList, .string mode),
          ("position".toList, .string position), ("scale".toList, .number scale)] ++
        (transform.map fun value => ("transform".toList, .number (toString value).toList)).toList ++
        [("mirror".toList, .string mirror)]) := by
  -- The fixed texts are read by evaluation, and the strings between them as they are.
  have hhead : run ⟨[], .between⟩ "hl.monitor(\x7b output = \"".toList =
      some ⟨[.symbol '=', .name "output".toList, .symbol '\x7b', .symbol '(',
        .name "monitor".toList,
        .symbol '.', .name "hl".toList], .string []⟩ := by decide
  have hdisabled : run ⟨[], .between⟩ ", disabled = false, mode = \"".toList =
      some ⟨[.symbol '=', .name "mode".toList, .symbol ',', .name "false".toList, .symbol '=',
        .name "disabled".toList, .symbol ','], .string []⟩ := by decide
  have hplace : run ⟨[], .between⟩ ", position = \"".toList =
      some ⟨[.symbol '=', .name "position".toList, .symbol ','], .string []⟩ := by decide
  have hscaleKey : run ⟨[], .between⟩ ", scale = ".toList =
      some ⟨[.symbol '=', .name "scale".toList, .symbol ','], .between⟩ := by decide
  have htail : run ⟨[], .between⟩ " \x7d)".toList =
      some ⟨[.symbol ')', .symbol '\x7d'], .between⟩ := by
    decide
  refine call_of_fields ?_ (fields_enableTokens transform)
  unfold lex
  rw [run_piece hhead, run_quoted houtput, run_piece hdisabled, run_quoted hmode, run_piece hplace,
    run_quoted hposition, run_piece hscaleKey, run_transform hscale, run_quoted hmirror,
    run_last htail]
  cases transform <;> rfl

end Reading

/-- An accepted command is evaluated to the settings of its rule. -/
theorem evaluated_of_command (rendering : Rendering) {output text : String} {rule : Rule}
    (h : command rendering.text output rule = .ok text) :
    evaluated text = some (settings rendering.text output rule) := by
  unfold evaluated
  cases rule with
  | disable =>
    obtain ⟨houtput, htext⟩ := of_disable h
    rw [htext, stripPrefix_append, Option.bind_some, call_disable houtput]
    rfl
  | enable mode position scale transform mirror =>
    obtain ⟨token, htoken, hfinite, hpositive, houtput, hmirror, htext⟩ := of_enable h
    obtain ⟨hwritten, hmode, -⟩ := written_of_token htoken
    rw [htext, stripPrefix_append, Option.bind_some,
      call_enable houtput hmode (plain_text position)
        (rendering.numeral scale hfinite hpositive) hmirror,
      hwritten]
    rfl

/-- The settings for a rule say what is meant. -/
theorem reading_settings {render : F64 → String} {output : String} {rule : Rule} :
    reading (settings render output rule) = some (rule.meant render output) := by
  cases rule with
  | disable => rfl
  | enable mode position scale transform mirror =>
    have hposition := read_text position
    have htransform : ∀ value : UInt8,
        parseDigits 10 (toString value).toList = some value.toNat := by
      intro value
      rw [toList_toString, parseDigits_toDigits]
    cases transform with
    | none =>
      simp [reading, settings, stringAt, numberAt, boolAt, List.lookup_cons, Rule.meant, hposition]
    | some value =>
      have hvalue := htransform value
      simpa [reading, settings, stringAt, numberAt, boolAt, List.lookup_cons, Rule.meant,
        hposition] using hvalue

/-- An exact mode is not written as the word. -/
theorem written_ne_preferred {value text : String} (h : (Mode.exact value).token = .ok text) :
    (Mode.exact value).written ≠ Mode.preferred.written := by
  obtain ⟨hwritten, -, hword | hclass⟩ := written_of_token h
  · cases hword
  · intro heq
    have hfirst : 'p' ∈ Mode.preferred.written := by decide
    rw [← heq, ← hwritten] at hfirst
    exact absurd (hclass 'p' hfirst) (by decide)

/-- Accepted modes that are written alike differ in the suffix only. -/
theorem bare_of_written {mode mode' : Mode} {text text' : String} (h : mode.token = .ok text)
    (h' : mode'.token = .ok text') (hsame : mode'.written = mode.written) :
    mode'.bare = mode.bare := by
  cases mode with
  | preferred =>
    cases mode' with
    | preferred => rfl
    | exact value => exact absurd hsame (written_ne_preferred h')
  | exact value =>
    cases mode' with
    | preferred => exact absurd hsame.symm (written_ne_preferred h)
    | exact value' =>
      have hbare : ∀ value, (Mode.exact value).bare =
          .exact (String.ofList (Mode.exact value).written) :=
        fun _ => rfl
      rw [hbare, hbare, hsame]

/-- What is accepted is read back: the table has the keys and values that were meant, and different
rules have different texts. -/
theorem command_reads (rendering : Rendering) {output text : String} {rule : Rule}
    (h : command rendering.text output rule = .ok text) :
    evaluated text = some (settings rendering.text output rule) ∧
      (evaluated text).bind reading = some (rule.meant rendering.text output) ∧
      ∀ output' rule', command rendering.text output' rule' = .ok text →
        output' = output ∧ rule'.bare = rule.bare := by
  have hread := evaluated_of_command rendering h
  refine ⟨hread, ?_, fun output' rule' h' => ?_⟩
  · rw [hread]
    exact reading_settings
  -- One text has one reading, so what both rules mean is the same.
  · have hmeant : rule'.meant rendering.text output' = rule.meant rendering.text output := by
      have hread' := evaluated_of_command rendering h'
      rw [hread, Option.some.injEq] at hread'
      have hsame := congrArg reading hread'
      rw [reading_settings, reading_settings, Option.some.injEq] at hsame
      exact hsame.symm
    cases rule with
    | disable =>
      cases rule' with
      | disable => exact ⟨String.toList_inj.mp (congrArg Reading.output hmeant), rfl⟩
      | enable => cases congrArg Reading.disabled hmeant
    | enable mode position scale transform mirror =>
      cases rule' with
      | disable => cases congrArg Reading.disabled hmeant
      | enable mode' position' scale' transform' mirror' =>
        simp only [Rule.meant, Reading.mk.injEq, Option.some.injEq, true_and] at hmeant
        obtain ⟨houtput, hmode, hposition, hscale, htransform, hmirror⟩ := hmeant
        obtain ⟨token, htoken, hfinite, hpositive, -⟩ := of_enable h
        obtain ⟨token', htoken', hfinite', hpositive', -⟩ := of_enable h'
        -- Of the mode and the numbers only texts are read, which belong to one value each.
        have hbare := bare_of_written htoken htoken' hmode
        have hnumber := rendering.injective scale' scale hfinite' hpositive' hfinite hpositive
          (String.toList_inj.mp hscale)
        have hcode : transform' = transform :=
          Option.map_injective (fun a b => UInt8.toNat_inj.mp) htransform
        refine ⟨String.toList_inj.mp houtput, ?_⟩
        rw [Rule.bare, Rule.bare, hbare, hposition, hnumber, hcode, String.toList_inj.mp hmirror]

/-- The number 1.25. -/
def scaled : F64 := ⟨false, 0x3ff4000000000000, by decide⟩

/-- Texts of numbers, with the right one for 1.25: the others are numbered. -/
def scaledText (v : F64) : String := if v.magnitude = scaled.magnitude then "1.25" else Nat.repr v.magnitude

/-- Different numbers have different texts. -/
theorem scaledText_inj {v w : F64} (hv : positive v) (hw : positive w)
    (h : scaledText v = scaledText w) :
    v = w := by
  have hmagnitude : v.magnitude = w.magnitude := by
    have hpoint : ∀ n : ℕ, "1.25" ≠ Nat.repr n := by
      intro n heq
      have hmem : '.' ∈ (Nat.repr n).toList := by rw [← heq]; decide
      rw [Nat.toList_repr] at hmem
      exact absurd (Nat.isDigit_of_mem_toDigits (by decide) (by decide) hmem) (by decide)
    unfold scaledText at h
    split_ifs at h with hv hw hw
    · rw [hv, hw]
    · exact absurd h (hpoint _)
    · exact absurd h.symm (hpoint _)
    · have hdigits := congrArg (fun text => parseDigits 10 (String.toList text)) h
      simp only [Nat.toList_repr, parseDigits_toDigits, Option.some.injEq] at hdigits
      exact hdigits
  unfold positive at hv hw
  rw [Bool.and_eq_true, Bool.not_eq_true'] at hv hw
  cases v
  cases w
  simp_all

/-- They are a rendering. -/
def scaledRendering : Rendering where
  text := scaledText
  numeral v _ _ := by
    unfold scaledText
    split
    · have hall : "1.25".toList.all (fun c => c.isDigit || c = '.') = true := by decide
      have hcharacters : ∀ c ∈ "1.25".toList, c.isDigit ∨ c = '.' := by
        intro c hc
        simpa using List.all_eq_true.mp hall c hc
      exact ⟨hcharacters, by decide, '1', by decide, by decide⟩
    · rw [Nat.toList_repr]
      exact numeral_toDigits v.magnitude
  injective _ _ _ hv _ hw h := scaledText_inj hv hw h

/-- The rule for the screen of a laptop. -/
theorem command_reads_laptop :
    (evaluated ("eval hl.monitor(\x7b output = \"eDP-1\", disabled = false, mode = \"1920x1200@60.00\", " ++
      "position = \"-1920x120\", scale = 1.25, transform = 0, mirror = \"\" \x7d)")).bind reading =
      some ⟨"eDP-1".toList, false, some "1920x1200@60.00".toList, some (.exact (-1920) 120),
        some "1.25".toList, some 0, some []⟩ :=
  (@command_reads scaledRendering "eDP-1"
    ("eval hl.monitor(\x7b output = \"eDP-1\", disabled = false, mode = \"1920x1200@60.00\", " ++
      "position = \"-1920x120\", scale = 1.25, transform = 0, mirror = \"\" \x7d)")
    (.enable (.exact "1920x1200@60.00Hz") (.exact (-1920) 120) scaled (some 0) "")
    (by decide +kernel)).2.1

end DaemonFramework.Hyprland.MonitorRule
