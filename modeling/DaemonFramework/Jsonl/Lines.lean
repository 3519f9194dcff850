import DaemonFramework.JsonText
import DaemonFramework.Jsonl.Frames

/-!
# The lines of a JSONL stream

`emit_line` of `shelllist-daemon-tokio/src/output_actor.rs` writes a value as one line, and `Frames`
of `jsonl_input.rs` reads lines, which has its own limit. `jsonl_round_trip` says that the two agree
on what a record is: the values of a stream come out one frame each, however it is read, and a value
is determined by its frame.

Of the text of a value this needs no more than that it has no line break and determines the value,
so it is said of any such text first (`lines_round_trip`).
-/

namespace DaemonFramework.Jsonl

/-- The bytes of a text in UTF-8. -/
def utf8 (text : List Char) : List UInt8 := text.flatMap String.utf8EncodeChar

/-- A text is read back from its bytes. -/
theorem decode_utf8 (text : List Char) : decode (utf8 text) = .ok (.line (String.ofList text)) := by
  have hvalid : (utf8 text).toByteArray.IsValidUTF8 := ByteArray.isValidUTF8_utf8Encode
  have htext : String.fromUTF8? (utf8 text).toByteArray = some (String.ofList text) := by
    rw [String.fromUTF8?, dif_pos hvalid]
    rfl
  rw [decode, htext]

/-- A byte below 128 comes from its own character only. -/
theorem not_mem_utf8 {text : List Char} {byte : UInt8} (hbyte : byte.toNat < 128)
    (h : ∀ c ∈ text, c.toNat ≠ byte.toNat) : byte ∉ utf8 text := by
  intro hmem
  obtain ⟨c, hc, hmem⟩ := List.mem_flatMap.1 hmem
  have hother : c.val.toNat ≠ byte.toNat := h c hc
  have hofNat : ∀ n < 256, n ≠ byte.toNat → byte ≠ UInt8.ofNat n := by
    rintro n hn hne rfl
    rw [UInt8.toNat_ofNat', Nat.mod_eq_of_lt hn] at hne
    exact hne rfl
  -- A character of more than one byte has none below 128.
  unfold String.utf8EncodeChar at hmem
  dsimp only at hmem
  split_ifs at hmem <;> simp only [List.mem_cons, List.not_mem_nil, or_false] at hmem
  · exact hofNat _ (by omega) hother hmem
  · rcases hmem with hmem | hmem <;> exact hofNat _ (by omega) (by omega) hmem
  · rcases hmem with hmem | hmem | hmem <;> exact hofNat _ (by omega) (by omega) hmem
  · rcases hmem with hmem | hmem | hmem | hmem <;> exact hofNat _ (by omega) (by omega) hmem

/-! ## Any text without line breaks -/

section AnyText

variable {α : Type} {text : α → List Char}

/-- The line of a value that has this text. -/
def lineOf (text : α → List Char) (value : α) : List UInt8 := utf8 (text value) ++ [LF]

/-- The frame of this line. -/
def frameOfText (text : α → List Char) (value : α) : Frame := .line (String.ofList (text value))

/-- A stream of lines that are not too long is read as these lines. -/
theorem framesOf_lines (hline : ∀ v, '\n' ∉ text v ∧ '\r' ∉ text v) {maximum : ℕ} {values : List α}
    (hfit : ∀ v ∈ values, (utf8 (text v)).length ≤ maximum) :
    framesOf maximum (values.flatMap (lineOf text)) =
      values.map fun v => .ok (frameOfText text v) := by
  have hfree : ∀ {c : Char} {byte : UInt8}, c.toNat = byte.toNat → byte.toNat < 128 →
      ∀ v, c ∉ text v → byte ∉ utf8 (text v) := by
    intro c byte hc hbyte v hv
    refine not_mem_utf8 hbyte fun d hd heq => hv ?_
    rwa [← Char.toNat_inj.1 (heq.trans hc.symm)]
  induction values with
  | nil => exact framesOf_of_notMem (List.not_mem_nil)
  | cons v values ih =>
    have hLF : LF ∉ utf8 (text v) := hfree rfl (by decide) v (hline v).1
    have hCR : CR ∉ utf8 (text v) := hfree rfl (by decide) v (hline v).2
    have hkept : stripCR (utf8 (text v)) = utf8 (text v) :=
      if_neg fun hlast => hCR (List.mem_of_getLast? hlast)
    have hframe : frameOf maximum (utf8 (text v)) = .ok (frameOfText text v) := by
      rw [frameOf, if_neg (Nat.not_lt.2 (hfit v List.mem_cons_self))]
      exact decode_utf8 _
    rw [List.flatMap_cons, lineOf, List.append_assoc, List.singleton_append, framesOf_append hLF,
      hkept, hframe, ih fun w hw => hfit w (List.mem_cons_of_mem _ hw), List.map_cons]

/-- Values are determined by their frames. -/
theorem map_frameOfText_inj {values others : List α}
    (hinj : ∀ v ∈ values, ∀ w ∈ others, text w = text v → w = v)
    (h : others.map (frameOfText text) = values.map (frameOfText text)) : others = values := by
  induction others generalizing values with
  | nil => exact (List.map_eq_nil_iff.1 h.symm).symm
  | cons w others ih =>
    cases values with
    | nil => cases h
    | cons v values =>
      obtain ⟨hhead, htail⟩ := List.cons.inj h
      have htext : text w = text v := String.ofList_injective (Frame.line.inj hhead)
      rw [hinj v List.mem_cons_self w List.mem_cons_self htext,
        ih (fun x hx y hy =>
          hinj x (List.mem_cons_of_mem _ hx) y (List.mem_cons_of_mem _ hy)) htail]

/-- Lines of values whose texts have no line break and determine the values come out of `Frames` as
one frame for each value, in order, and then the end of the stream; and the frames determine the
values. -/
theorem lines_round_trip (hline : ∀ v, '\n' ∉ text v ∧ '\r' ∉ text v) {Proper : α → Prop}
    (hinj : ∀ v w, Proper v → Proper w → text v = text w → v = w) {usizeMax maximum : ℕ}
    (hmax : maximum < usizeMax) {values : List α}
    (hfit : ∀ v ∈ values, (utf8 (text v)).length ≤ maximum) (hproper : ∀ v ∈ values, Proper v) :
    ∃ f, Frames.new usizeMax maximum = some f ∧
      (∀ schedule k, schedule.length ≤ k →
        (values.flatMap (lineOf text)).length + 2 ≤ schedule.countP ReadStep.isReady →
        values.map (fun v => .ok (some (frameOfText text v))) ++ [.ok none] <+:
          results (calls usizeMax k schedule f (values.flatMap (lineOf text)))) ∧
      ∀ others : List α, (∀ v ∈ others, Proper v) →
        others.map (frameOfText text) = values.map (frameOfText text) → others = values := by
  refine ⟨⟨[], 0, maximum, false⟩, if_pos hmax, fun schedule k hk hready => ?_,
    fun others hothers =>
    map_frameOfText_inj fun v hv w hw => hinj w v (hothers w hw) (hproper v hv)⟩
  have hempty : Partial ⟨[], 0, maximum, false⟩ [] :=
    ⟨by simp, fun _ => ⟨rfl, by simp⟩, by simp, by simp⟩
  have hframes := append_end_prefix (hempty.calls_prefix hmax k schedule _)
    (hempty.calls_end hmax k schedule _ hk (.inl hready))
  rw [List.nil_append, framesOf_lines hline hfit, List.map_map] at hframes
  exact hframes

end AnyText

/-! ## The texts of the library -/

/-- `serde_json::to_vec`. -/
def toVec (floats : JsonText.FloatText) (value : Value) : List UInt8 :=
  utf8 (JsonText.text floats value)

/-- What `emit_line` writes. -/
def emitLine (floats : JsonText.FloatText) : Value → List UInt8 := lineOf (JsonText.text floats)

/-- The frame of the line of a value. -/
def frameOfValue (floats : JsonText.FloatText) : Value → Frame := frameOfText (JsonText.text floats)

/-- The lines that `emit_line` writes, none longer than the limit of the reader, come out of
`Frames` as one frame for each value, in order, and then the end of the stream, in whatever pieces
the stream is read and however often a call is abandoned. From these frames the values are
determined. -/
theorem jsonl_round_trip (floats : JsonText.FloatText) {usizeMax maximum : ℕ}
    (hmax : maximum < usizeMax) {values : List Value}
    (hfit : ∀ v ∈ values, (toVec floats v).length ≤ maximum)
    (hproper : ∀ v ∈ values, JsonText.Proper v) :
    ∃ f, Frames.new usizeMax maximum = some f ∧
      (∀ schedule k, schedule.length ≤ k →
        (values.flatMap (emitLine floats)).length + 2 ≤ schedule.countP ReadStep.isReady →
        values.map (fun v => .ok (some (frameOfValue floats v))) ++ [.ok none] <+:
          results (calls usizeMax k schedule f (values.flatMap (emitLine floats)))) ∧
      ∀ others : List Value, (∀ v ∈ others, JsonText.Proper v) →
        others.map (frameOfValue floats) = values.map (frameOfValue floats) → others = values := by
  have hline : ∀ v, '\n' ∉ JsonText.text floats v ∧ '\r' ∉ JsonText.text floats v := by
    intro v
    have hplain : ∀ c ∈ JsonText.text floats v, JsonText.IsPlain c := JsonText.isPlain_text v
    exact ⟨fun hmem => absurd (hplain _ hmem) (by decide),
      fun hmem => absurd (hplain _ hmem) (by decide)⟩
  exact lines_round_trip hline (fun v w hv hw h => JsonText.text_inj hv hw h) hmax hfit hproper

/-- Floats whose bits are written as an integer with a fraction. -/
def bitsText : JsonText.FloatText where
  text bits := Nat.toDigits 10 bits.toNat ++ ".0".toList
  alphabet := by
    intro bits c hc
    rcases List.mem_append.1 hc with hc | hc
    · simp [JsonText.isNumberChar, JsonText.isDigit_of_mem hc]
    · simp only [String.reduceToList, List.mem_cons, List.not_mem_nil, or_false] at hc
      rcases hc with rfl | rfl <;> decide
  fraction := by simp
  injective a b h := UInt64.toNat_inj.1 ((Text.toDigits_inj (by decide) (by decide)).1 (List.append_cancel_right h))

/-- Two values, one of them with a line break in a string, read three bytes at a time. -/
theorem jsonl_round_trip_two : ∃ f, Frames.new 255 40 = some f ∧
    [.object [("text", .string "a\nb")], .array [.number (.posInt 1), .null]].map
        (fun v => .ok (some (frameOfValue bitsText v))) ++ [.ok none] <+:
      results (calls 255 60 (List.replicate 60 (.ready 2)) f
        ([.object [("text", .string "a\nb")], .array [.number (.posInt 1), .null]].flatMap
          (emitLine bitsText))) := by
  have hfit : ∀ v ∈ [.object [("text", .string "a\nb")], .array [.number (.posInt 1), .null]],
      (toVec bitsText v).length ≤ 40 := by decide
  obtain ⟨f, hf, h, -⟩ := jsonl_round_trip bitsText (show 40 < 255 by decide) hfit
    (by simp [JsonText.Proper, JsonText.ProperItems, JsonText.ProperFields, Number.Proper])
  exact ⟨f, hf, h _ _ (by decide) (by decide)⟩

end DaemonFramework.Jsonl
