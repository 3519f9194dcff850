import DaemonFramework.Records

/-!
# Record framing

`Frames` of `shelllist-daemon-tokio/src/jsonl_input.rs`: the bounded framing of JSONL input. The
reader is the rest of its stream, and a schedule of what its `fill_buf` does each time it is called:
it gives some of the next bytes (none at the end of the stream), it fails, or the caller of `next`
abandons the call while it waits. `next` follows the loop of the source, and `calls` calls it again
and again.

`framesOf` says what the results are, from the whole stream at once: its records, split at LF. The
buffer of an unfinished record holds the record itself until it is too long to be of use, and
nothing from then on (`Partial`), so `next` agrees with `framesOf` (`frames_next`).
-/

namespace DaemonFramework.Jsonl

/-- `b'\n'`. -/
def LF : UInt8 := 10

/-- `b'\r'`. -/
def CR : UInt8 := 13

/-- A record, or the place of one that is too long. -/
inductive Frame where
  | line (text : String)
  | tooLarge
deriving DecidableEq

/-- Why a call fails. -/
inductive NextError where
  /-- `fill_buf` failed. -/
  | read (error : String)
  /-- The record is not UTF-8. -/
  | invalidData
deriving DecidableEq

/-- The text of the error. -/
def NextError.message : NextError → String
  | read error => error
  | invalidData => "stream did not contain valid UTF-8"

/-- The state of the framing, without the reader. -/
structure Frames where
  /-- The bytes of the unfinished record. -/
  bytes : List UInt8
  /-- The capacity of the vector that holds them. -/
  capacity : ℕ
  /-- The longest record. -/
  maximum : ℕ
  /-- The unfinished record is too long, and its bytes are dropped. -/
  oversized : Bool
deriving DecidableEq

/-- What `fill_buf` does when it is called. -/
inductive ReadStep where
  /-- It gives this many bytes and one more, or what is left of the stream. -/
  | ready (more : ℕ)
  /-- The call of `next` is abandoned while it waits. -/
  | pending
  /-- It fails. -/
  | failed (error : String)
deriving DecidableEq

/-- How a call of `next` ends. -/
inductive Outcome where
  /-- It is abandoned. -/
  | abandoned
  /-- An assertion or a subtraction fails. -/
  | panicked
  /-- It returns. -/
  | returned (result : Except NextError (Option Frame))

/-- What a call of `next` leaves. -/
structure Call where
  /-- The state of the framing. -/
  frames : Frames
  /-- The rest of the stream. -/
  input : List UInt8
  /-- The rest of the schedule. -/
  schedule : List ReadStep
  /-- How the call ended. -/
  outcome : Outcome

/-- `Frames::new`, which asserts that the maximum is below `usize::MAX`. -/
def Frames.new (usizeMax maximum : ℕ) : Option Frames :=
  if maximum < usizeMax then some ⟨[], 0, maximum, false⟩ else none

/-- `extend_bounded`: the vector and its capacity after it, and whether the chunk fitted; nothing if
the subtraction underflows. -/
def extendBounded (usizeMax : ℕ) (bytes : List UInt8) (capacity : ℕ) (chunk : List UInt8)
    (ceiling : ℕ) : Option (List UInt8 × ℕ × Bool) :=
  if ceiling < bytes.length then none
  else if ceiling - bytes.length < chunk.length then some ([], capacity, false)
  else
    -- `reserve_exact` is asked for twice the capacity at most, and never for more than the ceiling.
    let needed := bytes.length + chunk.length
    let capacity :=
      if capacity < needed then min (max (min (capacity * 2) usizeMax) needed) ceiling
      else capacity
    some (bytes ++ chunk, capacity, true)

/-- Keep a chunk of the unfinished record, unless the record is too long already. -/
def Frames.retain (usizeMax : ℕ) (f : Frames) (chunk : List UInt8) : Option Frames :=
  if f.oversized then some f
  else if usizeMax < f.maximum + 1 then none
  else (extendBounded usizeMax f.bytes f.capacity chunk (f.maximum + 1)).map fun r =>
    { f with bytes := r.1, capacity := r.2.1, oversized := !r.2.2 }

/-- `String::from_utf8`, as a line. -/
def decode (bytes : List UInt8) : Except NextError Frame :=
  match String.fromUTF8? bytes.toByteArray with
  | some text => .ok (.line text)
  | none => .error .invalidData

/-- A record without the CR before its LF. -/
def stripCR (bytes : List UInt8) : List UInt8 :=
  if bytes.getLast? = some CR then bytes.dropLast else bytes

/-- `Frames::finish`. -/
def Frames.finish (f : Frames) (newline : Bool) : Frames × Except NextError Frame :=
  let bytes := if newline then stripCR f.bytes else f.bytes
  if f.oversized ∨ f.maximum < bytes.length then
    -- Clearing the vector keeps its allocation; taking it does not.
    ({ f with bytes := [], oversized := false }, .ok .tooLarge)
  else ({ f with bytes := [], capacity := 0 }, decode bytes)

/-- `Frames::next`. A schedule that ends leaves the call waiting. -/
def next (usizeMax : ℕ) : List ReadStep → Frames → List UInt8 → Call
  | [], f, input => ⟨f, input, [], .abandoned⟩
  | .pending :: schedule, f, input => ⟨f, input, schedule, .abandoned⟩
  | .failed error :: schedule, f, input => ⟨f, input, schedule, .returned (.error (.read error))⟩
  | .ready more :: schedule, f, input =>
    let available := input.take (more + 1)
    if available = [] then
      if f.oversized ∨ f.bytes ≠ [] then
        ⟨(f.finish false).1, input, schedule, .returned ((f.finish false).2.map some)⟩
      else ⟨f, input, schedule, .returned (.ok none)⟩
    else
      let newline := available.findIdx? fun byte => byte = LF
      let count := newline.getD available.length
      match f.retain usizeMax (available.take count) with
      | none => ⟨f, input, schedule, .panicked⟩
      | some f =>
        let input := input.drop (count + if newline.isSome then 1 else 0)
        if newline.isSome then
          ⟨(f.finish true).1, input, schedule, .returned ((f.finish true).2.map some)⟩
        else next usizeMax schedule f input

/-- A number of calls of `next`, one after the other. -/
def calls (usizeMax : ℕ) : ℕ → List ReadStep → Frames → List UInt8 → List Call
  | 0, _, _, _ => []
  | k + 1, schedule, f, input =>
    let call := next usizeMax schedule f input
    call :: calls usizeMax k call.schedule call.frames call.input

/-- The result of a call, if it returned and the reader did not fail. -/
def Call.result? (c : Call) : Option (Except NextError (Option Frame)) :=
  match c.outcome with
  | .returned (.error (.read _)) => none
  | .returned result => some result
  | _ => none

/-- What becomes of a whole record. -/
def frameOf (maximum : ℕ) (content : List UInt8) : Except NextError Frame :=
  if maximum < content.length then .ok .tooLarge else decode content

/-- What becomes of a stream: each record that an LF ends loses one CR at its end, and a rest behind
the last LF is taken as it is. -/
def framesOf (maximum : ℕ) (stream : List UInt8) : List (Except NextError Frame) :=
  (terminated LF stream).map (fun record => frameOf maximum (stripCR record)) ++
    if unterminated LF stream = [] then [] else [frameOf maximum (unterminated LF stream)]

/-! ## The stream, record by record -/

/-- A stream that is one record without an LF. -/
theorem framesOf_of_notMem {maximum : ℕ} {stream : List UInt8} (h : LF ∉ stream) :
    framesOf maximum stream = if stream = [] then [] else [frameOf maximum stream] := by
  unfold framesOf
  rw [terminated_of_notMem h, unterminated_of_notMem h]
  rfl

/-- A stream whose first record ends with an LF. -/
theorem framesOf_append {maximum : ℕ} {record : List UInt8} (h : LF ∉ record)
    (stream : List UInt8) :
    framesOf maximum (record ++ LF :: stream) =
      frameOf maximum (stripCR record) :: framesOf maximum stream := by
  unfold framesOf
  rw [terminated_append h, unterminated_append h]
  rfl

/-- A record loses at most one byte. -/
theorem length_le_stripCR (bytes : List UInt8) : bytes.length ≤ (stripCR bytes).length + 1 := by
  unfold stripCR
  split_ifs
  · rw [List.length_dropLast]
    omega
  · omega

/-! ## The unfinished record -/

/-- The state of the framing when `record` is what was read of an unfinished record. -/
structure Partial (f : Frames) (record : List UInt8) : Prop where
  /-- The record is not finished. -/
  unfinished : LF ∉ record
  /-- The bytes of the record are kept, while it and a CR can be within the maximum. -/
  kept : f.oversized = false → f.bytes = record ∧ record.length ≤ f.maximum + 1
  /-- None of them is kept from then on. -/
  dropped : f.oversized = true → f.bytes = [] ∧ f.maximum + 1 < record.length
  /-- No more than a longest record with its CR is allocated. -/
  capacity : f.capacity ≤ f.maximum + 1

namespace Partial

variable {f : Frames} {record : List UInt8}

/-- The bytes kept are never more than a longest record with its CR. -/
theorem length_le (h : Partial f record) : f.bytes.length ≤ f.maximum + 1 := by
  cases hover : f.oversized with
  | false =>
    obtain ⟨hbytes, hlength⟩ := h.kept hover
    rw [hbytes]
    exact hlength
  | true =>
    obtain ⟨hbytes, -⟩ := h.dropped hover
    rw [hbytes]
    exact Nat.zero_le _

/-- Whether anything was read of the record. -/
theorem nonempty_iff (h : Partial f record) :
    (f.oversized = true ∨ f.bytes ≠ []) ↔ record ≠ [] := by
  cases hover : f.oversized with
  | false =>
    obtain ⟨hbytes, -⟩ := h.kept hover
    simp [hbytes]
  | true =>
    obtain ⟨-, hlength⟩ := h.dropped hover
    have hne : record ≠ [] := by
      rintro rfl
      simp at hlength
    simp [hne]

/-- A chunk of the record is read. -/
theorem retain (h : Partial f record) {usizeMax : ℕ} (hmax : f.maximum < usizeMax)
    {chunk : List UInt8} (hchunk : LF ∉ chunk) :
    ∃ f', f.retain usizeMax chunk = some f' ∧ Partial f' (record ++ chunk) ∧
      f'.maximum = f.maximum := by
  have hunfinished : LF ∉ record ++ chunk := by
    rw [List.mem_append]
    exact not_or.2 ⟨h.unfinished, hchunk⟩
  unfold Frames.retain
  cases hover : f.oversized with
  | true =>
    -- The record was dropped before, and what follows of it is not kept.
    obtain ⟨hbytes, hlength⟩ := h.dropped hover
    refine ⟨f, if_pos rfl, ⟨hunfinished, ?_, fun _ => ⟨hbytes, ?_⟩, h.capacity⟩, rfl⟩
    · intro hfalse
      rw [hover] at hfalse
      cases hfalse
    · rw [List.length_append]
      omega
  | false =>
    obtain ⟨hbytes, hlength⟩ := h.kept hover
    have hceiling : ¬f.maximum + 1 < f.bytes.length := by
      rw [hbytes]
      omega
    rw [if_neg (by simp), if_neg (by omega)]
    unfold extendBounded
    rw [if_neg hceiling]
    by_cases hfits : f.maximum + 1 - f.bytes.length < chunk.length
    -- The chunk does not fit, and the whole record is dropped.
    · rw [if_pos hfits]
      refine ⟨_, rfl, ⟨hunfinished, by simp, fun _ => ⟨rfl, ?_⟩, h.capacity⟩, rfl⟩
      show f.maximum + 1 < (record ++ chunk).length
      rw [List.length_append]
      rw [hbytes] at hfits
      omega
    -- The chunk is appended, and the capacity grows to what it needs.
    · rw [if_neg hfits]
      have hsum : f.bytes.length + chunk.length ≤ f.maximum + 1 := by
        rw [hbytes] at hfits ⊢
        omega
      refine ⟨_, rfl, ⟨hunfinished, fun _ => ⟨?_, ?_⟩, by simp, ?_⟩, rfl⟩
      · show f.bytes ++ chunk = record ++ chunk
        rw [hbytes]
      · show (record ++ chunk).length ≤ f.maximum + 1
        rw [List.length_append, ← hbytes]
        exact hsum
      · have hcapacity := h.capacity
        dsimp only
        split_ifs <;> omega

/-- The record is finished by an LF or by the end of the stream. -/
theorem finish (h : Partial f record) (newline : Bool) :
    Partial (f.finish newline).1 [] ∧ (f.finish newline).1.maximum = f.maximum ∧
      (f.finish newline).2 =
        frameOf f.maximum (if newline then stripCR record else record) := by
  have hstrip := length_le_stripCR record
  unfold Frames.finish frameOf
  cases hover : f.oversized with
  | true =>
    obtain ⟨-, hlength⟩ := h.dropped hover
    -- Even without a CR the record is longer than the maximum.
    have hlong : f.maximum < (if newline then stripCR record else record).length := by
      split_ifs <;> omega
    dsimp only
    rw [if_pos (.inl rfl), if_pos hlong]
    exact ⟨⟨by simp, fun _ => ⟨rfl, by simp⟩, by simp, h.capacity⟩, rfl, rfl⟩
  | false =>
    obtain ⟨hbytes, -⟩ := h.kept hover
    dsimp only
    rw [hbytes]
    by_cases hlong : f.maximum < (if newline then stripCR record else record).length
    · rw [if_pos (.inr hlong), if_pos hlong]
      exact ⟨⟨by simp, fun _ => ⟨rfl, by simp⟩, by simp, h.capacity⟩, rfl, rfl⟩
    · rw [if_neg (by simp [hlong]), if_neg hlong]
      exact ⟨⟨by simp, fun _ => ⟨rfl, by simp⟩, by simp, by simp⟩, rfl, rfl⟩

end Partial

/-! ## One call -/

/-- Whether `fill_buf` gives bytes or the end of the stream. -/
def ReadStep.isReady : ReadStep → Bool
  | ready _ => true
  | _ => false

/-- The framing of a record is a result of its own. -/
theorem result?_frameOf {f : Frames} {input : List UInt8} {schedule : List ReadStep} {maximum : ℕ}
    {content : List UInt8} :
    Call.result? ⟨f, input, schedule, .returned ((frameOf maximum content).map some)⟩ =
      some ((frameOf maximum content).map some) := by
  unfold frameOf decode
  split_ifs
  · rfl
  · cases String.fromUTF8? content.toByteArray <;> rfl

/-- What `finish` makes of a record is a result of its own. -/
theorem result?_finish {f g : Frames} {input : List UInt8} {schedule : List ReadStep}
    {newline : Bool} :
    Call.result? ⟨g, input, schedule, .returned ((f.finish newline).2.map some)⟩ ≠ none := by
  unfold Frames.finish
  dsimp only
  generalize (if newline = true then stripCR f.bytes else f.bytes) = bytes
  split_ifs
  · simp [Call.result?, Except.map]
  · unfold decode
    cases String.fromUTF8? bytes.toByteArray <;> simp [Call.result?, Except.map]

/-- The first LF among some bytes, the first of a stream, ends the first record of the stream. -/
theorem split_of_findIdx? {input : List UInt8} {n i : ℕ}
    (h : (input.take n).findIdx? (fun byte => byte = LF) = some i) :
    LF ∉ (input.take n).take i ∧
      input = (input.take n).take i ++ LF :: input.drop (i + 1) := by
  obtain ⟨hi, hlf, hbefore⟩ := List.findIdx?_eq_some_iff_getElem.1 h
  have hlength : i < n ∧ i < input.length := by
    rw [List.length_take] at hi
    omega
  constructor
  · intro hmem
    obtain ⟨j, hj, hget⟩ := List.mem_iff_getElem.1 hmem
    rw [List.length_take] at hj
    rw [List.getElem_take] at hget
    have := hbefore j (by omega)
    simp [hget] at this
  · have htake : (input.take n).take i = input.take i := by
      rw [List.take_take, Nat.min_eq_left (by omega)]
    have hget : input[i] = LF := by
      rw [List.getElem_take] at hlf
      simpa using hlf
    rw [htake]
    conv_lhs => rw [← List.take_append_drop i input]
    rw [List.drop_eq_getElem_cons hlength.2, hget]

/-- What a call of `next` leaves: a call without a result leaves the same stream to be framed; a
call without a frame is at the end of the stream; and every other call gives the first frame of what
is left of the stream and leaves the others. -/
structure Agrees (maximum : ℕ) (record input : List UInt8) (c : Call) : Prop where
  /-- The maximum does not change. -/
  same : c.frames.maximum = maximum
  /-- No assertion and no subtraction fails. -/
  outcome : c.outcome ≠ .panicked
  /-- The result and what is left. -/
  result : ∃ record', Partial c.frames record' ∧
    ((c.result? = none ∧ record' ++ c.input = record ++ input) ∨
      (c.result? = some (.ok none) ∧ record' ++ c.input = [] ∧ record ++ input = []) ∨
      ∃ r, c.result? = some (r.map some) ∧ record' = [] ∧
        framesOf maximum (record ++ input) = r :: framesOf maximum c.input)

/-! ## A read of `next` -/

section Read

variable {usizeMax more i : ℕ} {schedule : List ReadStep} {f f' : Frames} {input : List UInt8}

/-- At the end of the stream the call returns what it has, if it has anything. -/
theorem next_of_end :
    next usizeMax (.ready more :: schedule) f [] =
      if f.oversized ∨ f.bytes ≠ [] then
        ⟨(f.finish false).1, [], schedule, .returned ((f.finish false).2.map some)⟩
      else ⟨f, [], schedule, .returned (.ok none)⟩ := by
  simp [next]

/-- The bytes before an LF end a record. -/
theorem next_of_newline (hend : input.take (more + 1) ≠ [])
    (hnewline : ((input.take (more + 1)).findIdx? fun byte => byte = LF) = some i)
    (hretain : f.retain usizeMax ((input.take (more + 1)).take i) = some f') :
    next usizeMax (.ready more :: schedule) f input =
      ⟨(f'.finish true).1, input.drop (i + 1), schedule,
        .returned ((f'.finish true).2.map some)⟩ := by
  conv_lhs => unfold next
  simp only [if_neg hend, hnewline, Option.getD_some, Option.isSome_some, if_true, hretain]

/-- Without an LF the loop goes on with the rest. -/
theorem next_of_rest (hend : input.take (more + 1) ≠ [])
    (hnewline : ((input.take (more + 1)).findIdx? fun byte => byte = LF) = none)
    (hretain : f.retain usizeMax
      ((input.take (more + 1)).take (input.take (more + 1)).length) = some f') :
    next usizeMax (.ready more :: schedule) f input =
      next usizeMax schedule f' (input.drop (input.take (more + 1)).length) := by
  conv_lhs => unfold next
  simp only [if_neg hend, hnewline, Option.getD_none, Option.isSome_none, hretain,
    Bool.false_eq_true, if_false, Nat.add_zero]

/-- A length that does not fit panics. -/
theorem next_of_panic (hend : input.take (more + 1) ≠ [])
    (hretain : f.retain usizeMax ((input.take (more + 1)).take
      (((input.take (more + 1)).findIdx? fun byte => byte = LF).getD
        (input.take (more + 1)).length)) = none) :
    next usizeMax (.ready more :: schedule) f input = ⟨f, input, schedule, .panicked⟩ := by
  conv_lhs => unfold next
  simp only [if_neg hend, hretain]

end Read

/-- A call of `next` agrees with the framing of the whole stream. -/
theorem Partial.next {f : Frames} {record : List UInt8} (h : Partial f record) {usizeMax : ℕ}
    (hmax : f.maximum < usizeMax) (schedule : List ReadStep) (input : List UInt8) :
    Agrees f.maximum record input (Jsonl.next usizeMax schedule f input) := by
  induction schedule generalizing f record input with
  | nil => exact ⟨rfl, by simp [Jsonl.next], record, h, .inl ⟨rfl, rfl⟩⟩
  | cons step schedule ih =>
    cases step with
    | pending => exact ⟨rfl, by simp [Jsonl.next], record, h, .inl ⟨rfl, rfl⟩⟩
    | failed error => exact ⟨rfl, by simp [Jsonl.next], record, h, .inl ⟨rfl, rfl⟩⟩
    | ready more =>
      by_cases hend : input.take (more + 1) = []
      -- The end of the stream finishes the record, if there is one.
      · obtain rfl : input = [] := by simpa using hend
        rw [next_of_end]
        by_cases hnonempty : f.oversized = true ∨ f.bytes ≠ []
        · obtain ⟨hafter, hmaximum, hresult⟩ := h.finish false
          rw [if_pos hnonempty, hresult]
          refine ⟨hmaximum, by simp, [], hafter, .inr (.inr ⟨_, result?_frameOf, rfl, ?_⟩)⟩
          rw [List.append_nil, framesOf_of_notMem h.unfinished,
            if_neg (h.nonempty_iff.1 hnonempty), framesOf_of_notMem (by simp)]
          rfl
        · have hrecord : record = [] := by
            by_contra hne
            exact hnonempty (h.nonempty_iff.2 hne)
          rw [if_neg hnonempty]
          exact ⟨rfl, by simp, record, h, .inr (.inl ⟨rfl, by simp [hrecord], by simp [hrecord]⟩)⟩
      · cases hnewline : (input.take (more + 1)).findIdx? fun byte => byte = LF with
        | some i =>
          -- The LF finishes the record.
          obtain ⟨hchunk, hsplit⟩ := split_of_findIdx? hnewline
          obtain ⟨f', hretain, hpartial, hmaximum⟩ := h.retain hmax hchunk
          obtain ⟨hafter, hmaximum', hresult⟩ := hpartial.finish true
          rw [next_of_newline hend hnewline hretain, hresult, hmaximum]
          refine ⟨hmaximum'.trans hmaximum, by simp, [], hafter,
            .inr (.inr ⟨_, result?_frameOf, rfl, ?_⟩)⟩
          conv_lhs => rw [hsplit, ← List.append_assoc]
          exact framesOf_append hpartial.unfinished _
        | none =>
          -- All bytes belong to the record, and the loop goes on.
          have hchunk : LF ∉ (input.take (more + 1)).take (input.take (more + 1)).length := by
            rw [List.take_length]
            intro hmem
            have := List.findIdx?_eq_none_iff.1 hnewline LF hmem
            simp at this
          obtain ⟨f', hretain, hpartial, hmaximum⟩ := h.retain hmax hchunk
          -- The induction is on the schedule: the rest of the call starts from a longer record.
          have hrest := ih hpartial (hmaximum ▸ hmax)
            (input.drop (input.take (more + 1)).length)
          have hjoin : record ++ (input.take (more + 1)).take (input.take (more + 1)).length ++
              input.drop (input.take (more + 1)).length = record ++ input := by
            rw [List.take_length, List.append_assoc, List.length_take]
            rcases Nat.le_total (more + 1) input.length with hle | hle
            · rw [Nat.min_eq_left hle, List.take_append_drop]
            · rw [Nat.min_eq_right hle, List.take_of_length_le hle, List.drop_length,
                List.append_nil]
          rw [next_of_rest hend hnewline hretain]
          obtain ⟨hsame, houtcome, record', hafter, hresult⟩ := hrest
          rw [hjoin] at hresult
          rw [hmaximum] at hsame hresult
          exact ⟨hsame, houtcome, record', hafter, hresult⟩

/-- What a call of `next` takes from its schedule: something, if anything is left, and no more bytes
and ends of the stream than it reads bytes. Only a call that returns at the end of the stream takes
one more. -/
theorem next_progress (usizeMax : ℕ) (schedule : List ReadStep) (f : Frames)
    (input : List UInt8) :
    let c := next usizeMax schedule f input
    (schedule ≠ [] → c.schedule.length < schedule.length) ∧
      (c.outcome ≠ .panicked →
        schedule.countP ReadStep.isReady + c.input.length ≤
            c.schedule.countP ReadStep.isReady + input.length ∨
          (c.result? ≠ none ∧ c.input = [] ∧ schedule.countP ReadStep.isReady ≤
            c.schedule.countP ReadStep.isReady + input.length + 1)) := by
  induction schedule generalizing f input with
  | nil => exact ⟨by simp, fun _ => .inl (by simp [next])⟩
  | cons step schedule ih =>
    cases step with
    | pending => exact ⟨by simp [next], fun _ => .inl (by simp [next, ReadStep.isReady])⟩
    | failed error => exact ⟨by simp [next], fun _ => .inl (by simp [next, ReadStep.isReady])⟩
    | ready more =>
      have hcount : (ReadStep.ready more :: schedule).countP ReadStep.isReady =
          schedule.countP ReadStep.isReady + 1 := by
        rw [List.countP_cons_of_pos rfl]
      intro c
      rw [hcount]
      by_cases hend : input.take (more + 1) = []
      · obtain rfl : input = [] := by simpa using hend
        -- At the end of the stream the call returns, and only here a read takes no byte.
        have hc : c.schedule = schedule ∧ c.result? ≠ none ∧ c.input = [] := by
          show (next _ _ _ _).schedule = _ ∧ (next _ _ _ _).result? ≠ _ ∧ (next _ _ _ _).input = _
          rw [next_of_end]
          split_ifs
          · exact ⟨rfl, result?_finish, rfl⟩
          · exact ⟨rfl, by simp [Call.result?], rfl⟩
        rw [hc.1, hc.2.2]
        exact ⟨by simp, fun _ => .inr ⟨hc.2.1, rfl, by simp⟩⟩
      · have hpos : 0 < input.length := by
          rw [List.length_pos_iff]
          rintro rfl
          exact hend rfl
        cases hretain : f.retain usizeMax ((input.take (more + 1)).take
            (((input.take (more + 1)).findIdx? fun byte => byte = LF).getD
              (input.take (more + 1)).length)) with
        | none =>
          have hc : c = ⟨f, input, schedule, .panicked⟩ := next_of_panic hend hretain
          rw [hc]
          exact ⟨by simp, fun hne => absurd rfl hne⟩
        | some f' =>
          cases hnewline : (input.take (more + 1)).findIdx? fun byte => byte = LF with
          | some i =>
            rw [hnewline] at hretain
            have hc : c = ⟨(f'.finish true).1, input.drop (i + 1), schedule,
                .returned ((f'.finish true).2.map some)⟩ := next_of_newline hend hnewline hretain
            rw [hc]
            refine ⟨by simp, fun _ => .inl ?_⟩
            -- The record and its LF are at least one byte.
            dsimp only
            rw [List.length_drop]
            omega
          | none =>
            rw [hnewline] at hretain
            have hc : c =
                next usizeMax schedule f' (input.drop (input.take (more + 1)).length) :=
              next_of_rest hend hnewline hretain
            obtain ⟨hshorter, hready⟩ := ih f' (input.drop (input.take (more + 1)).length)
            rw [← hc] at hshorter hready
            rw [List.length_drop, List.length_take] at hready
            constructor
            · intro _
              by_cases hnil : schedule = []
              · have hcs : c.schedule = [] := by
                  rw [hc, hnil]
                  rfl
                rw [hcs]
                simp
              · have := hshorter hnil
                rw [List.length_cons]
                omega
            · intro houtcome
              rcases hready houtcome with hready | ⟨hresult, hinput, hready⟩
              · exact .inl (by omega)
              · exact .inr ⟨hresult, hinput, by omega⟩

/-! ## Many calls -/

/-- The results of some calls. -/
def results (cs : List Call) : List (Except NextError (Option Frame)) :=
  cs.filterMap Call.result?

/-- Every call leaves an unfinished record in a state that fits it, and none panics. -/
theorem Partial.calls_state {f : Frames} {record : List UInt8} (h : Partial f record)
    {usizeMax : ℕ} (hmax : f.maximum < usizeMax) (k : ℕ) (schedule : List ReadStep)
    (input : List UInt8) :
    ∀ c ∈ calls usizeMax k schedule f input, c.outcome ≠ .panicked ∧
      c.frames.maximum = f.maximum ∧ ∃ record', Partial c.frames record' := by
  induction k generalizing f record schedule input with
  | zero => simp [calls]
  | succ k ih =>
    have hone := h.next hmax schedule input
    obtain ⟨record', hafter, -⟩ := hone.result
    intro c hc
    rcases List.mem_cons.1 hc with rfl | hc
    · exact ⟨hone.outcome, hone.same, record', hafter⟩
    · have := ih hafter (hone.same ▸ hmax) _ _ c hc
      rwa [hone.same] at this

/-- The results of some calls are a first part of the frames of the whole stream, followed by the
end of the stream again and again. -/
theorem Partial.calls_prefix {f : Frames} {record : List UInt8} (h : Partial f record)
    {usizeMax : ℕ} (hmax : f.maximum < usizeMax) (k : ℕ) (schedule : List ReadStep)
    (input : List UInt8) :
    results (calls usizeMax k schedule f input) <+:
      (framesOf f.maximum (record ++ input)).map (Except.map some) ++
        List.replicate k (.ok none) := by
  induction k generalizing f record schedule input with
  | zero => exact List.nil_prefix
  | succ k ih =>
    have hone := h.next hmax schedule input
    obtain ⟨record', hafter, hresult⟩ := hone.result
    have hrest := ih hafter (hone.same ▸ hmax) (Jsonl.next usizeMax schedule f input).schedule
      (Jsonl.next usizeMax schedule f input).input
    rw [hone.same] at hrest
    -- One more end of the stream allows no less.
    have hmore : ∀ frames : List (Except NextError (Option Frame)),
        frames ++ List.replicate k (.ok none) <+:
          frames ++ List.replicate (k + 1) (.ok none) := by
      intro frames
      rw [List.replicate_succ', ← List.append_assoc]
      exact List.prefix_append _ _
    unfold results at hrest ⊢
    rw [calls]
    rcases hresult with ⟨hnone, hsame⟩ | ⟨hend, hsame, hempty⟩ | ⟨r, hsome, rfl, hframes⟩
    · rw [List.filterMap_cons_none hnone, ← hsame]
      exact hrest.trans (hmore _)
    · rw [List.filterMap_cons_some hend, hempty]
      rw [hsame] at hrest
      exact List.cons_prefix_cons.2 ⟨rfl, hrest⟩
    · rw [List.filterMap_cons_some hsome, hframes]
      exact List.cons_prefix_cons.2 ⟨rfl, hrest.trans (hmore _)⟩

/-- Calls that use up a long enough schedule see the end of the stream. -/
theorem Partial.calls_end {f : Frames} {record : List UInt8} (h : Partial f record)
    {usizeMax : ℕ} (hmax : f.maximum < usizeMax) (k : ℕ) (schedule : List ReadStep)
    (input : List UInt8) (hk : schedule.length ≤ k)
    (hready : input.length + 2 ≤ schedule.countP ReadStep.isReady ∨
      (record ++ input = [] ∧ 1 ≤ schedule.countP ReadStep.isReady)) :
    .ok none ∈ results (calls usizeMax k schedule f input) := by
  induction k generalizing f record schedule input with
  | zero =>
    obtain rfl : schedule = [] := by simpa using hk
    simp at hready
  | succ k ih =>
    have hone := h.next hmax schedule input
    obtain ⟨hshorter, hcount⟩ := next_progress usizeMax schedule f input
    have hcount := hcount hone.outcome
    have hne : schedule ≠ [] := by
      rintro rfl
      simp at hready
    have hk' := hshorter hne
    obtain ⟨record', hafter, hresult⟩ := hone.result
    have hrest := ih hafter (hone.same ▸ hmax) (Jsonl.next usizeMax schedule f input).schedule
      (Jsonl.next usizeMax schedule f input).input (by omega)
    unfold results at hrest ⊢
    rw [calls]
    rcases hresult with ⟨hnone, hsame⟩ | ⟨hend, -, -⟩ | ⟨r, hsome, rfl, hframes⟩
    · rw [List.filterMap_cons_none hnone]
      refine hrest ?_
      -- A call without a result leaves enough reads for the bytes it leaves.
      rcases hready with hready | ⟨hempty, hready⟩
      · rcases hcount with hcount | ⟨hsome, -, -⟩
        · exact .inl (by omega)
        · exact absurd hnone hsome
      · rcases hcount with hcount | ⟨hsome, -, -⟩
        · have hinput : input.length = 0 := by
            rw [(List.append_eq_nil_iff.1 hempty).2]
            rfl
          exact .inr ⟨hsame.trans hempty, by omega⟩
        · exact absurd hnone hsome
    · rw [List.filterMap_cons_some hend]
      exact List.mem_cons_self
    · rw [List.filterMap_cons_some hsome]
      refine List.mem_cons_of_mem _ (hrest ?_)
      rcases hready with hready | ⟨hempty, -⟩
      · rcases hcount with hcount | ⟨-, hinput, hcount⟩
        · exact .inl (by omega)
        · exact .inr ⟨by rw [hinput]; rfl, by omega⟩
      · rw [hempty, framesOf_of_notMem (by simp), if_pos rfl] at hframes
        cases hframes

/-- A first part of `frames`, followed by ends of the stream, that has an end of the stream has all
of `frames`. -/
theorem append_end_prefix {frames : List (Except NextError Frame)}
    {l : List (Except NextError (Option Frame))} {k : ℕ}
    (h : l <+: frames.map (Except.map some) ++ List.replicate k (.ok none))
    (hmem : .ok none ∈ l) : frames.map (Except.map some) ++ [.ok none] <+: l := by
  have hframes : (.ok none : Except NextError (Option Frame)) ∉ frames.map (Except.map some) := by
    intro hin
    obtain ⟨r, -, hr⟩ := List.mem_map.1 hin
    cases r <;> simp [Except.map] at hr
  -- An end of the stream is no frame, so `l` reaches beyond the frames.
  have hlonger : (frames.map (Except.map some)).length < l.length := by
    by_contra hshort
    have hin := List.prefix_of_prefix_length_le h (List.prefix_append _ _) (by omega)
    exact hframes (hin.subset hmem)
  have hk : k ≠ 0 := by
    rintro rfl
    have := h.length_le
    rw [List.replicate_zero, List.append_nil] at this
    omega
  refine List.prefix_of_prefix_length_le ?_ h ?_
  · obtain ⟨k, rfl⟩ := Nat.exists_eq_succ_of_ne_zero hk
    exact ⟨List.replicate k (.ok none), by rw [List.append_assoc]; rfl⟩
  · rw [List.length_append, List.length_singleton]
    omega

/-- Below `usize::MAX`, whatever the stream and whatever the reader does, the results of calling
`next` again and again are the frames of the whole stream and then its end; if there are calls and
reads enough, all frames and the end are among them. No call panics, and no more than a longest
record with one more byte is ever kept. -/
theorem frames_next {usizeMax maximum : ℕ} (hmax : maximum < usizeMax) :
    ∃ f, Frames.new usizeMax maximum = some f ∧
      ∀ (input : List UInt8) (schedule : List ReadStep) (k : ℕ),
        let cs := calls usizeMax k schedule f input
        results cs <+: (framesOf maximum input).map (Except.map some) ++
            List.replicate k (.ok none) ∧
          (schedule.length ≤ k → input.length + 2 ≤ schedule.countP ReadStep.isReady →
            (framesOf maximum input).map (Except.map some) ++ [.ok none] <+: results cs) ∧
          ∀ c ∈ cs, c.outcome ≠ .panicked ∧ c.frames.bytes.length ≤ maximum + 1 := by
  refine ⟨⟨[], 0, maximum, false⟩, if_pos hmax, ?_⟩
  intro input schedule k cs
  have hempty : Partial ⟨[], 0, maximum, false⟩ [] :=
    ⟨by simp, fun _ => ⟨rfl, by simp⟩, by simp, by simp⟩
  have hstarts := hempty.calls_prefix hmax k schedule input
  refine ⟨hstarts, ?_, ?_⟩
  · intro hk hready
    exact append_end_prefix hstarts (hempty.calls_end hmax k schedule input hk (.inl hready))
  · intro c hc
    obtain ⟨houtcome, hmaximum, record, hrecord⟩ :=
      hempty.calls_state hmax k schedule input c hc
    have hlength := hrecord.length_le
    rw [hmaximum] at hlength
    exact ⟨houtcome, hlength⟩

/-- Four calls on a record that is too long, read in two parts between which a call is abandoned,
and on a rest without an LF. -/
theorem frames_next_split :
    ∃ f, Frames.new 255 2 = some f ∧
      (framesOf 2 [1, 2, 3, 4, LF, 65]).map (Except.map some) ++ [.ok none] <+:
        results (calls 255 9 [.ready 2, .pending, .ready 7, .ready 7, .ready 7, .ready 7, .ready 7,
          .ready 7, .ready 7] f [1, 2, 3, 4, LF, 65]) := by
  obtain ⟨f, hf, h⟩ := frames_next (show 2 < 255 by decide)
  exact ⟨f, hf, (h _ _ _).2.1 (by decide) (by decide)⟩

end DaemonFramework.Jsonl
