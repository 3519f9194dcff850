import DaemonFramework.Service.Boundary

/-!
# Responses within their limit

`Admitted::encode` of `shelllist-daemon-tokio/src/service.rs`: a serializer writes the text of a
value in pieces to a `BoundedWriter`, which refuses the piece that does not fit. A response that is
too long, or that cannot be written at all, is replaced by an error. `Admitted::encoded` does the
same with a text that is complete.

What a writer holds and what more fits add up to the limit (`BoundedWriter.Keeps`), so all pieces
fit exactly when the whole text does (`toWriter_eq`), and the two agree (`encode_eq_encoded`).
-/

namespace DaemonFramework.Service

/-- What a serializer does with a value. -/
structure Serialization where
  /-- The pieces of text that it writes. -/
  chunks : List (List UInt8)
  /-- Whether it ends without an error after these. -/
  completes : Bool

/-- A writer with a limit. -/
structure BoundedWriter where
  /-- What was written. -/
  bytes : List UInt8
  /-- How much more fits. -/
  remaining : ℕ

/-- Write one piece, if it fits. -/
def BoundedWriter.write (w : BoundedWriter) (buf : List UInt8) : Option BoundedWriter :=
  if buf.length > w.remaining then none else some ⟨w.bytes ++ buf, w.remaining - buf.length⟩

/-- `serde_json::to_writer`: write all pieces, up to the first that the writer refuses. -/
def Serialization.toWriter (value : Serialization) (w : BoundedWriter) : Option BoundedWriter :=
  (value.chunks.foldlM BoundedWriter.write w).bind fun w => if value.completes then some w else none

/-- A response. -/
inductive Response where
  /-- The text of a result. -/
  | text (s : String)
  /-- An error of the boundary, to be written out. -/
  | error (response : Value)

namespace Admitted

/-- The response that stands for a result that cannot be delivered. -/
def unknown (a : Admitted) : Response :=
  .error (reject a.api "outcome-unknown"
    ("Result could not be delivered within service limits; " ++
      "execution may have completed; do not replay mutations"))

/-- The response with the text of the value, if it keeps within the limit. -/
def encode (a : Admitted) (value : Serialization) : Response :=
  match value.toWriter ⟨[], a.resultBytes⟩ with
  | none => a.unknown
  | some w =>
    match String.fromUTF8? ⟨w.bytes.toArray⟩ with
    | none => a.unknown
    | some s => .text s

/-- The response with a text, if it keeps within the limit. -/
def encoded (a : Admitted) (response : String) : Response :=
  if response.utf8ByteSize > a.resultBytes then a.unknown else .text response

end Admitted

/-! ### Pieces and the whole -/

/-- What a writer holds and what more fits add up to its limit. -/
def BoundedWriter.Keeps (w : BoundedWriter) (limit : ℕ) : Prop :=
  w.bytes.length + w.remaining = limit

/-- A write is accepted if it fits, and leaves so much less room. -/
theorem BoundedWriter.write_eq_some {w w' : BoundedWriter} {buf : List UInt8} :
    w.write buf = some w' ↔
      buf.length ≤ w.remaining ∧ w' = ⟨w.bytes ++ buf, w.remaining - buf.length⟩ := by
  unfold BoundedWriter.write
  split
  · rename_i hlong
    have hnot : ¬ buf.length ≤ w.remaining := by omega
    simp [hnot]
  · rename_i hfits
    have hle : buf.length ≤ w.remaining := by omega
    simp [hle, eq_comm]

/-- A piece that is written fits, and the writer keeps its limit. -/
theorem BoundedWriter.Keeps.write {w w' : BoundedWriter} {buf : List UInt8} {limit : ℕ}
    (h : w.Keeps limit) (hwrite : w.write buf = some w') :
    buf.length ≤ w.remaining ∧ w'.Keeps limit := by
  obtain ⟨hfits, rfl⟩ := BoundedWriter.write_eq_some.mp hwrite
  unfold BoundedWriter.Keeps at h ⊢
  have hlength : (w.bytes ++ buf).length = w.bytes.length + buf.length := List.length_append
  exact ⟨hfits, by dsimp only; omega⟩

/-- Pieces fit one after the other exactly when they fit together. -/
theorem BoundedWriter.foldlM_write (chunks : List (List UInt8)) (w : BoundedWriter) :
    chunks.foldlM BoundedWriter.write w =
      if chunks.flatten.length ≤ w.remaining then
        some ⟨w.bytes ++ chunks.flatten, w.remaining - chunks.flatten.length⟩
      else none := by
  induction chunks generalizing w with
  | nil => simp
  | cons buf rest ih =>
    rw [List.foldlM_cons, List.flatten_cons, List.length_append]
    cases hwrite : w.write buf with
    | none =>
      have hlong : ¬ buf.length ≤ w.remaining := fun hfits => by
        rw [BoundedWriter.write_eq_some.mpr ⟨hfits, rfl⟩] at hwrite
        cases hwrite
      have hall : ¬ buf.length + rest.flatten.length ≤ w.remaining := by omega
      rw [if_neg hall]
      rfl
    | some next =>
      obtain ⟨hfits, rfl⟩ := BoundedWriter.write_eq_some.mp hwrite
      have hiff : rest.flatten.length ≤ w.remaining - buf.length ↔
          buf.length + rest.flatten.length ≤ w.remaining := by omega
      have hleft : w.remaining - buf.length - rest.flatten.length =
          w.remaining - (buf.length + rest.flatten.length) := by omega
      change List.foldlM BoundedWriter.write _ rest = _
      rw [ih]
      simp only [hiff, hleft, List.append_assoc]

/-- What a serialization leaves in a fresh writer. -/
theorem Serialization.toWriter_eq (value : Serialization) (limit : ℕ) :
    value.toWriter ⟨[], limit⟩ =
      if value.completes = true ∧ value.chunks.flatten.length ≤ limit then
        some ⟨value.chunks.flatten, limit - value.chunks.flatten.length⟩
      else none := by
  unfold Serialization.toWriter
  rw [BoundedWriter.foldlM_write]
  by_cases hfits : value.chunks.flatten.length ≤ limit
  · rw [if_pos hfits]
    cases hcompletes : value.completes with
    | false => simp
    | true => simp only [hfits, and_self, if_true, List.nil_append, Option.bind_some]
  · rw [if_neg hfits, if_neg fun h => hfits h.2]
    rfl

/-- The bytes of a text. -/
def textBytes (text : String) : List UInt8 := text.toByteArray.data.toList

/-- The bytes of a text are counted by its size. -/
theorem length_textBytes (text : String) : (textBytes text).length = text.utf8ByteSize := by
  unfold textBytes
  rw [Array.length_toList]
  rfl

/-- A text is read back from its bytes. -/
theorem fromUTF8?_textBytes (text : String) :
    String.fromUTF8? ⟨(textBytes text).toArray⟩ = some text := by
  have hbytes : (⟨(textBytes text).toArray⟩ : ByteArray) = text.toByteArray := by
    unfold textBytes
    rw [Array.toArray_toList]
  unfold String.fromUTF8?
  rw [hbytes, dif_pos text.isValidUTF8]
  rfl

namespace Admitted

/-- A serialization that completes is encoded as its text, if that fits. -/
theorem encode_of_completes (a : Admitted) {value : Serialization} {text : String}
    (hcompletes : value.completes = true) (htext : value.chunks.flatten = textBytes text) :
    a.encode value = if text.utf8ByteSize ≤ a.resultBytes then .text text else a.unknown := by
  unfold encode
  rw [Serialization.toWriter_eq, htext, length_textBytes]
  by_cases hfits : text.utf8ByteSize ≤ a.resultBytes
  · rw [if_pos ⟨hcompletes, hfits⟩, if_pos hfits]
    simp only [fromUTF8?_textBytes]
  · rw [if_neg fun h => hfits h.2, if_neg hfits]

/-- The response of a text is the text, if that fits. -/
theorem encoded_eq (a : Admitted) (text : String) :
    a.encoded text = if text.utf8ByteSize ≤ a.resultBytes then .text text else a.unknown := by
  unfold encoded
  by_cases hfits : text.utf8ByteSize ≤ a.resultBytes
  · rw [if_pos hfits, if_neg (by omega)]
  · rw [if_neg hfits, if_pos (by omega)]

/-- A serialization that fails leaves the outcome unknown. -/
theorem encode_of_fails (a : Admitted) {value : Serialization} (hfails : value.completes = false) :
    a.encode value = a.unknown := by
  unfold encode
  rw [Serialization.toWriter_eq, if_neg]
  rintro ⟨hcompletes, -⟩
  rw [hfails] at hcompletes
  cases hcompletes

end Admitted

/-- Any pieces that were written keep the limit. -/
theorem BoundedWriter.Keeps.foldlM {w w' : BoundedWriter} {limit : ℕ} (h : w.Keeps limit)
    {chunks : List (List UInt8)} (hwrite : chunks.foldlM BoundedWriter.write w = some w') :
    w'.Keeps limit := by
  induction chunks generalizing w with
  | nil =>
    cases hwrite
    exact h
  | cons buf rest ih =>
    rw [List.foldlM_cons] at hwrite
    obtain ⟨next, hnext, hrest⟩ := Option.bind_eq_some_iff.mp hwrite
    exact ih (h.write hnext).2 hrest

/-- Writing the text of a value in pieces, however they are cut, gives what the complete text gives:
the text where it keeps within the limit, and the error elsewhere. A serialization that fails gives
the error. At any time before, the pieces that are written fit, and the writer holds no more than
the limit. -/
theorem encode_eq_encoded (a : Admitted) (value : Serialization) :
    (∀ text, value.completes = true → value.chunks.flatten = textBytes text →
      a.encode value = a.encoded text ∧
        a.encoded text = if text.utf8ByteSize ≤ a.resultBytes then .text text else a.unknown) ∧
    (value.completes = false → a.encode value = a.unknown) ∧
    ∀ (before : List (List UInt8)) (buf : List UInt8) (after : List (List UInt8))
      (w next : BoundedWriter), value.chunks = before ++ buf :: after →
      before.foldlM BoundedWriter.write ⟨[], a.resultBytes⟩ = some w → w.write buf = some next →
      buf.length ≤ w.remaining ∧ next.bytes.length + next.remaining = a.resultBytes := by
  refine ⟨fun text hcompletes htext => ?_, a.encode_of_fails,
    fun before buf after w next _ hw hnext => ?_⟩
  · rw [a.encode_of_completes hcompletes htext, a.encoded_eq text]
    exact ⟨rfl, rfl⟩
  · have hfresh : (⟨[], a.resultBytes⟩ : BoundedWriter).Keeps a.resultBytes := by
      simp [BoundedWriter.Keeps]
    exact (hfresh.foldlM hw).write hnext

/-- The text `true` in two pieces, at the exact limit. -/
theorem encode_eq_encoded_true :
    let a : Admitted := ⟨⟨"org.example", 1⟩, 4, none, none, .calls⟩
    a.encode ⟨[[116, 114], [117, 101]], true⟩ = .text "true" := by
  intro a
  obtain ⟨htext, hencoded⟩ := (encode_eq_encoded a ⟨[[116, 114], [117, 101]], true⟩).1 "true" rfl
    (by decide +kernel)
  rw [htext, hencoded]
  rfl

end DaemonFramework.Service
