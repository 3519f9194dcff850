import Mathlib.Data.List.Induction
import Mathlib.Tactic.Common
import DaemonFramework.Machine

/-!
# The deadline of a record

`DeadlineWriter` of `shelllist-daemon-tokio/src/socket/writer.rs` under `emit_line`, which writes a
record with `write_all` and then flushes. A record is polled any number of times: the writer below
may take a part of the bytes or not be ready. Each poll makes the timer of the record, if it has
none, and asks it whether its time has come; the clock may go on between the two.

A record that fails retires the connection, so nothing is polled after that. `deadline_writer_law`
says that the size of a whole record decides whether it is refused, and its first poll when it times
out.
-/

namespace DaemonFramework.Socket

/-- Why a record fails. -/
inductive WriteError where
  /-- `InvalidData`: the record exceeds the limit. -/
  | tooLarge
  | timedOut
  /-- `write_all` fails when nothing is taken. -/
  | writeZero
  /-- The writer below has failed. -/
  | other
deriving DecidableEq

/-- What the writer below answers. -/
inductive WriterAnswer where
  | pending
  /-- It takes so many bytes, if there are as many; or it has flushed. -/
  | takes (count : ℕ)
  | fails
deriving DecidableEq

/-- A poll: the times at which a timer would be made and at which it is asked, and the answer of the
writer below. -/
structure WriterPoll where
  /-- When a timer would be made. -/
  made : ℕ
  /-- When the timer is asked. -/
  now : ℕ
  /-- What the writer below answers. -/
  answer : WriterAnswer

/-- `Poll<io::Result<T>>`. -/
inductive Polled (α : Type) where
  | pending
  | ready (result : Except WriteError α)

/-- `DeadlineWriter`, without the writer below. -/
structure DeadlineWriter where
  /-- How many bytes a record can have. -/
  limit : ℕ
  /-- How many bytes of the record were taken. -/
  written : ℕ
  /-- How long a record may take. -/
  timeout : ℕ
  /-- When the time of the record has come, if there is a timer. -/
  deadline : Option ℕ

namespace DeadlineWriter

/-- `new`. -/
def new (limit timeout : ℕ) : DeadlineWriter := ⟨limit, 0, timeout, none⟩

/-- `expired`: the timer of the record, and whether its time has come. -/
def expired (w : DeadlineWriter) (p : WriterPoll) : Bool × DeadlineWriter :=
  let deadline := w.deadline.getD (p.made + w.timeout)
  (decide (deadline ≤ p.now), { w with deadline := some deadline })

/-- `poll_write` of so many bytes. -/
def pollWrite (w : DeadlineWriter) (p : WriterPoll) (length : ℕ) : Polled ℕ × DeadlineWriter :=
  if w.limit - w.written < length then (.ready (.error .tooLarge), w)
  else
    let (expired, w) := w.expired p
    if expired then (.ready (.error .timedOut), w)
    else
      match p.answer with
      | .pending => (.pending, w)
      | .takes count =>
        (.ready (.ok (min count length)), { w with written := w.written + min count length })
      | .fails => (.ready (.error .other), w)

/-- `poll_flush`. -/
def pollFlush (w : DeadlineWriter) (p : WriterPoll) : Polled Unit × DeadlineWriter :=
  let (expired, w) := w.expired p
  if expired then (.ready (.error .timedOut), w)
  else
    match p.answer with
    | .pending => (.pending, w)
    | .takes _ => (.ready (.ok ()), { w with written := 0, deadline := none })
    | .fails => (.ready (.error .other), w)

end DeadlineWriter

/-- Where a connection stands. -/
inductive WriterPhase where
  /-- Between records. -/
  | idle
  /-- A record, with what is left to write; it is flushed when nothing is left. -/
  | emitting (rest : List UInt8)
  | failed (error : WriteError)
deriving DecidableEq

/-- A connection that writes records. -/
structure WriterState where
  /-- The writer. -/
  writer : DeadlineWriter
  /-- Where it stands. -/
  phase : WriterPhase
  /-- The bytes that the writer below has taken. -/
  sent : List UInt8
  /-- The last time on the clock. -/
  clock : ℕ

/-- What happens next. -/
inductive WriterLabel where
  /-- `emit_line` begins with a record. -/
  | emit (record : List UInt8)
  | poll (p : WriterPoll)

namespace WriterState

/-- A poll of `emit_line`: of `write_all` while something is left, and of `flush` then. -/
def poll (s : WriterState) (p : WriterPoll) : List UInt8 → WriterState
  | [] =>
    let (polled, writer) := s.writer.pollFlush p
    match polled with
    | .pending => { s with writer := writer, clock := p.now }
    | .ready (.ok ()) => { s with writer := writer, clock := p.now, phase := .idle }
    | .ready (.error e) => { s with writer := writer, clock := p.now, phase := .failed e }
  | byte :: bytes =>
    let (polled, writer) := s.writer.pollWrite p (bytes.length + 1)
    match polled with
    | .pending => { s with writer := writer, clock := p.now }
    | .ready (.ok count) =>
      { s with
        writer := writer
        clock := p.now
        sent := s.sent ++ (byte :: bytes).take count
        phase := if count = 0 then .failed .writeZero else .emitting ((byte :: bytes).drop count) }
    | .ready (.error e) => { s with writer := writer, clock := p.now, phase := .failed e }

/-- A step: a record begins between others, and polls come one after the other in time. -/
def step (s : WriterState) : WriterLabel → Option WriterState
  | .emit record => if s.phase = .idle then some { s with phase := .emitting record } else none
  | .poll p =>
    match s.phase with
    | .emitting rest => if s.clock ≤ p.made ∧ p.made ≤ p.now then some (s.poll p rest) else none
    | .idle | .failed _ => none

/-- A connection with such a writer. -/
def machine (limit timeout : ℕ) : Machine WriterState WriterLabel where
  init := ⟨.new limit timeout, .idle, [], 0⟩
  step := step

end WriterState

/-! ## A poll -/

/-- When the time of the record comes, with the timer that a poll finds or makes. -/
def DeadlineWriter.due (w : DeadlineWriter) (p : WriterPoll) : ℕ :=
  w.deadline.getD (p.made + w.timeout)

namespace WriterState

variable {s t : WriterState} {p : WriterPoll} {rest : List UInt8}

/-- A poll that finds too many bytes refuses them. -/
theorem poll_of_tooLarge (h : s.writer.limit - s.writer.written < rest.length) :
    s.poll p rest = { s with clock := p.now, phase := .failed .tooLarge } := by
  cases rest with
  | nil => exact absurd h (Nat.not_lt_zero _)
  | cons byte bytes =>
    rw [List.length_cons] at h
    unfold poll DeadlineWriter.pollWrite
    simp only [h, if_true]

/-- A poll after the time has come fails. -/
theorem poll_of_due (h : rest.length ≤ s.writer.limit - s.writer.written)
    (hdue : s.writer.due p ≤ p.now) :
    s.poll p rest =
      { s with
        clock := p.now
        phase := .failed .timedOut
        writer := { s.writer with deadline := some (s.writer.due p) } } := by
  unfold DeadlineWriter.due at hdue ⊢
  cases rest with
  | nil =>
    unfold poll DeadlineWriter.pollFlush DeadlineWriter.expired
    simp only [hdue, decide_true, if_true]
  | cons byte bytes =>
    rw [List.length_cons] at h
    unfold poll DeadlineWriter.pollWrite DeadlineWriter.expired
    simp only [Nat.not_lt.2 h, if_false, hdue, decide_true, if_true]

/-- What a poll in time does. -/
structure PolledInTime (s : WriterState) (p : WriterPoll) (rest : List UInt8) (t : WriterState) :
    Prop where
  /-- The record is flushed, or it goes on, or it fails for another reason. -/
  outcome : rest = [] ∧ t.phase = .idle ∧ t.writer = { s.writer with written := 0, deadline := none } ∧
      t.sent = s.sent ∨
    ∃ taken left, rest = taken ++ left ∧ t.sent = s.sent ++ taken ∧
      t.writer = { s.writer with
        written := s.writer.written + taken.length, deadline := some (s.writer.due p) } ∧
      (t.phase = .emitting left ∨ t.phase = .failed .writeZero ∨ t.phase = .failed .other)

/-- A poll in time. -/
theorem poll_of_inTime (hs : s.phase = .emitting rest)
    (h : rest.length ≤ s.writer.limit - s.writer.written) (hdue : ¬s.writer.due p ≤ p.now) :
    PolledInTime s p rest (s.poll p rest) := by
  constructor
  have hstay : rest = [] ++ rest ∧ s.sent = s.sent ++ [] :=
    ⟨rfl, (List.append_nil _).symm⟩
  unfold DeadlineWriter.due at hdue ⊢
  cases rest with
  -- Everything is handed over, so the poll flushes.
  | nil =>
    unfold poll DeadlineWriter.pollFlush DeadlineWriter.expired
    simp only [hdue, decide_false, Bool.false_eq_true, if_false]
    cases p.answer with
    | pending => exact .inr ⟨[], [], hstay.1, hstay.2, rfl, .inl hs⟩
    | takes count => exact .inl ⟨trivial, rfl, rfl, rfl⟩
    | fails => exact .inr ⟨[], [], hstay.1, hstay.2, rfl, .inr (.inr rfl)⟩
  -- The stream takes some of the rest, at most all of it.
  | cons byte bytes =>
    rw [List.length_cons] at h
    unfold poll DeadlineWriter.pollWrite DeadlineWriter.expired
    simp only [Nat.not_lt.2 h, if_false, hdue, decide_false, Bool.false_eq_true]
    cases p.answer with
    | pending => exact .inr ⟨[], byte :: bytes, hstay.1, hstay.2, rfl, .inl hs⟩
    | takes count =>
      refine .inr ⟨(byte :: bytes).take (min count (bytes.length + 1)),
        (byte :: bytes).drop (min count (bytes.length + 1)), (List.take_append_drop _ _).symm, rfl,
        ?_, ?_⟩
      · have hlength : ((byte :: bytes).take (min count (bytes.length + 1))).length =
            min count (bytes.length + 1) := by
          rw [List.length_take, List.length_cons]
          omega
        rw [hlength]
      · dsimp only
        split_ifs
        · exact .inr (.inl rfl)
        · exact .inl rfl
    | fails => exact .inr ⟨[], byte :: bytes, hstay.1, hstay.2, rfl, .inr (.inr rfl)⟩

/-! ## A record -/

/-- Where a record stands after some polls. -/
structure Progress (limit timeout : ℕ) (record sent : List UInt8) (polls : List WriterPoll)
    (t : WriterState) : Prop where
  /-- The writer keeps its limit. -/
  limit_eq : t.writer.limit = limit
  /-- The writer keeps its timeout. -/
  timeout_eq : t.writer.timeout = timeout
  /-- While the record goes on, what was taken of it is counted, and the deadline is that of the
  first poll. A record that is too large is not polled again. -/
  emitting : ∀ rest, t.phase = .emitting rest →
    (∃ taken, record = taken ++ rest ∧ t.sent = sent ++ taken ∧ t.writer.written = taken.length) ∧
      t.writer.deadline = polls.head?.map (fun p => p.made + timeout) ∧
      (record.length ≤ limit ∨ polls = [])
  /-- After the record the writer is as before it. -/
  idle : t.phase = .idle → t.writer.written = 0 ∧ t.writer.deadline = none
  /-- A record that is too large is refused at its first poll, before any of its bytes was taken. -/
  tooLarge : limit < record.length → t.sent = sent ∧ (polls ≠ [] → t.phase = .failed .tooLarge)
  /-- No other record is refused. -/
  fits : record.length ≤ limit → t.phase ≠ .failed .tooLarge
  /-- A record has timed out exactly when the deadline of its first poll had passed at its last. -/
  timedOut : record.length ≤ limit → ∀ first ∈ polls.head?, ∀ last ∈ polls.getLast?,
    (t.phase = .failed .timedOut ↔ first.made + timeout ≤ last.now)

variable {limit timeout : ℕ} {record sent : List UInt8} {polls : List WriterPoll}

/-- A record begins. -/
theorem Progress.begin (hlimit : s.writer.limit = limit) (htimeout : s.writer.timeout = timeout)
    (hwritten : s.writer.written = 0) (hdeadline : s.writer.deadline = none) (record : List UInt8) :
    Progress limit timeout record s.sent [] { s with phase := .emitting record } where
  limit_eq := hlimit
  timeout_eq := htimeout
  emitting rest hrest := by
    obtain rfl := WriterPhase.emitting.inj hrest
    exact ⟨⟨[], rfl, (List.append_nil _).symm, hwritten⟩, hdeadline, .inr rfl⟩
  idle h := by cases h
  tooLarge _ := ⟨rfl, fun h => absurd rfl h⟩
  fits _ h := by cases h
  timedOut _ first hfirst := by cases hfirst

/-- The time of a record that goes on comes when the timer says, which its first poll has made. -/
theorem Progress.due_eq (h : Progress limit timeout record sent polls s)
    (hs : s.phase = .emitting rest) (p : WriterPoll) :
    ∀ first ∈ (polls ++ [p]).head?, s.writer.due p = first.made + timeout := by
  obtain ⟨-, hdeadline, -⟩ := h.emitting rest hs
  intro first hfirst
  unfold DeadlineWriter.due
  rw [hdeadline, h.timeout_eq]
  cases polls with
  | nil =>
    obtain rfl : p = first := Option.some.inj hfirst
    rfl
  | cons head rest =>
    obtain rfl : head = first := Option.some.inj hfirst
    rfl

/-- At the poll that was last, the record has timed out exactly when its time has come. -/
theorem Progress.timedOut_iff (h : Progress limit timeout record sent polls s)
    (hs : s.phase = .emitting rest) (p : WriterPoll)
    (hphase : t.phase = .failed .timedOut ↔ s.writer.due p ≤ p.now) :
    ∀ first ∈ (polls ++ [p]).head?, ∀ last ∈ (polls ++ [p]).getLast?,
      (t.phase = .failed .timedOut ↔ first.made + timeout ≤ last.now) := by
  intro first hfirst last hmem
  rw [List.getLast?_concat] at hmem
  obtain rfl : p = last := Option.some.inj hmem
  rw [hphase, h.due_eq hs p first hfirst]

/-- A record that is too large is refused at its first poll. -/
theorem Progress.poll_tooLarge (h : Progress limit timeout record sent polls s)
    (hs : s.phase = .emitting rest) (p : WriterPoll) (hlarge : limit < record.length) :
    Progress limit timeout record sent (polls ++ [p]) (s.poll p rest) := by
  have hfits : ¬record.length ≤ limit := Nat.not_le.2 hlarge
  obtain ⟨⟨taken, hrecord, hsent, hwritten⟩, -, hpolled⟩ := h.emitting rest hs
  have hpolls : polls = [] := hpolled.resolve_left hfits
  have htaken : taken = [] := by
    have hsame := (h.tooLarge hlarge).1
    rwa [hsent, List.append_right_eq_self] at hsame
  have hlength : record.length = taken.length + rest.length := by
    rw [hrecord, List.length_append]
  rw [htaken, List.length_nil] at hlength hwritten
  have hover : s.writer.limit - s.writer.written < rest.length := by
    rw [h.limit_eq, hwritten]
    omega
  rw [poll_of_tooLarge hover]
  refine ⟨h.limit_eq, h.timeout_eq, fun _ h => (by cases h), fun h => (by cases h), fun _ => ?_,
    fun h => absurd h hfits, fun h => absurd h hfits⟩
  exact ⟨(h.tooLarge hlarge).1, fun _ => rfl⟩

/-- A record fails at the first poll after its time has come. -/
theorem Progress.poll_due (h : Progress limit timeout record sent polls s)
    (hs : s.phase = .emitting rest) (p : WriterPoll) (hfits : record.length ≤ limit)
    (hroom : rest.length ≤ s.writer.limit - s.writer.written) (hpast : s.writer.due p ≤ p.now) :
    Progress limit timeout record sent (polls ++ [p]) (s.poll p rest) := by
  have hnotLarge : ¬limit < record.length := Nat.not_lt.2 hfits
  rw [poll_of_due hroom hpast]
  refine ⟨h.limit_eq, h.timeout_eq, fun _ h => (by cases h), fun h => (by cases h),
    fun h => absurd h hnotLarge, fun _ h => (by cases h), fun _ => ?_⟩
  exact h.timedOut_iff hs p ⟨fun _ => hpast, fun _ => rfl⟩

/-- A record goes on or ends at a poll in time. -/
theorem Progress.poll_inTime (h : Progress limit timeout record sent polls s)
    (hs : s.phase = .emitting rest) (p : WriterPoll) (hfits : record.length ≤ limit)
    (hroom : rest.length ≤ s.writer.limit - s.writer.written) (hpast : ¬s.writer.due p ≤ p.now) :
    Progress limit timeout record sent (polls ++ [p]) (s.poll p rest) := by
  obtain ⟨⟨taken, hrecord, hsent, hwritten⟩, -, -⟩ := h.emitting rest hs
  have hnotLarge : ¬limit < record.length := Nat.not_lt.2 hfits
  have hno : ∀ t : WriterState, t.phase ≠ .failed .timedOut → ∀ first ∈ (polls ++ [p]).head?,
      ∀ last ∈ (polls ++ [p]).getLast?,
        (t.phase = .failed .timedOut ↔ first.made + timeout ≤ last.now) :=
    fun t ht => h.timedOut_iff hs p ⟨fun h => absurd h ht, fun h => absurd h hpast⟩
  obtain ⟨⟨hrest, hidle, hwriter, -⟩ | ⟨more, left, hrest, hsent', hwriter, hphase⟩⟩ :=
    poll_of_inTime hs hroom hpast
  -- The record is flushed.
  · refine ⟨?_, ?_, ?_, ?_, fun h => absurd h hnotLarge, ?_, fun _ => hno _ ?_⟩
    · rw [hwriter]
      exact h.limit_eq
    · rw [hwriter]
      exact h.timeout_eq
    · intro rest' hrest'
      cases hidle.symm.trans hrest'
    · rw [hwriter]
      exact fun _ => ⟨rfl, rfl⟩
    · rw [hidle]
      exact fun _ => nofun
    · rw [hidle]
      exact nofun
  -- Some bytes were taken, or none, and the timer stays.
  · have hother : (s.poll p rest).phase ≠ .idle ∧ (s.poll p rest).phase ≠ .failed .tooLarge ∧
        (s.poll p rest).phase ≠ .failed .timedOut := by
      rcases hphase with hphase | hphase | hphase <;> rw [hphase] <;> simp
    refine ⟨?_, ?_, ?_, fun h => absurd h hother.1, fun h => absurd h hnotLarge,
      fun _ => hother.2.1, fun _ => hno _ hother.2.2⟩
    · rw [hwriter]
      exact h.limit_eq
    · rw [hwriter]
      exact h.timeout_eq
    · intro rest' hrest'
      obtain rfl : left = rest' := by
        rcases hphase with hphase | hphase | hphase
        · exact WriterPhase.emitting.inj (hphase.symm.trans hrest')
        · cases hphase.symm.trans hrest'
        · cases hphase.symm.trans hrest'
      refine ⟨⟨taken ++ more, ?_, ?_, ?_⟩, ?_, .inl hfits⟩
      · rw [hrecord, hrest, List.append_assoc]
      · rw [hsent', hsent, List.append_assoc]
      · rw [hwriter, List.length_append]
        exact congrArg (· + more.length) hwritten
      · obtain ⟨first, hfirst⟩ : ∃ first, (polls ++ [p]).head? = some first := by
          cases polls <;> exact ⟨_, rfl⟩
        rw [hwriter, hfirst]
        exact congrArg some (h.due_eq hs p first hfirst)

/-- A record is polled. -/
theorem Progress.poll (h : Progress limit timeout record sent polls s)
    (hs : s.phase = .emitting rest) (p : WriterPoll) :
    Progress limit timeout record sent (polls ++ [p]) (s.poll p rest) := by
  by_cases hfits : record.length ≤ limit
  · have hroom : rest.length ≤ s.writer.limit - s.writer.written := by
      obtain ⟨⟨taken, hrecord, -, hwritten⟩, -, -⟩ := h.emitting rest hs
      have hlength : record.length = taken.length + rest.length := by
        rw [hrecord, List.length_append]
      rw [h.limit_eq, hwritten]
      omega
    by_cases hpast : s.writer.due p ≤ p.now
    · exact h.poll_due hs p hfits hroom hpast
    · exact h.poll_inTime hs p hfits hroom hpast
  · exact h.poll_tooLarge hs p (Nat.not_le.1 hfits)

/-- A step polls a record that goes on. -/
theorem step_poll_eq_some (h : s.step (.poll p) = some t) :
    ∃ rest, s.phase = .emitting rest ∧ t = s.poll p rest := by
  unfold step at h
  dsimp only at h
  split at h
  · rename_i rest hrest
    exact ⟨rest, hrest, (Machine.guarded_eq_some.1 h).2.symm⟩
  · cases h
  · cases h

/-- A record is polled any number of times. -/
theorem Progress.run (h : Progress limit timeout record sent [] s)
    (hrun : (machine limit timeout).run s (polls.map .poll) = some t) :
    Progress limit timeout record sent polls t := by
  induction polls using List.reverseRecOn generalizing t with
  | nil =>
    obtain rfl : s = t := by simpa using hrun
    exact h
  | append_singleton polls p ih =>
    rw [List.map_append, List.map_singleton, Machine.run_concat_eq_some] at hrun
    obtain ⟨u, hu, hstep⟩ := hrun
    obtain ⟨rest, hrest, rfl⟩ := step_poll_eq_some hstep
    exact (ih hu).poll hrest p

/-- Between records the writer is as at first. -/
structure Fresh (limit timeout : ℕ) (s : WriterState) : Prop where
  /-- The writer keeps its limit. -/
  limit_eq : s.writer.limit = limit
  /-- The writer keeps its timeout. -/
  timeout_eq : s.writer.timeout = timeout
  /-- No byte is counted, and there is no timer. -/
  idle : s.phase = .idle → s.writer.written = 0 ∧ s.writer.deadline = none

/-- Every step leaves the writer as at first between records. -/
theorem Fresh.step (h : Fresh limit timeout s) {label : WriterLabel}
    (hstep : s.step label = some t) :
    Fresh limit timeout t := by
  cases label with
  | emit record =>
    obtain ⟨-, rfl⟩ := Machine.guarded_eq_some.1 hstep
    exact ⟨h.limit_eq, h.timeout_eq, fun h => by cases h⟩
  | poll p =>
    obtain ⟨rest, hrest, rfl⟩ := step_poll_eq_some hstep
    by_cases hroom : rest.length ≤ s.writer.limit - s.writer.written
    · by_cases hpast : s.writer.due p ≤ p.now
      · rw [poll_of_due hroom hpast]
        exact ⟨h.limit_eq, h.timeout_eq, fun h => by cases h⟩
      · obtain ⟨⟨-, -, hwriter, -⟩ | ⟨more, left, -, -, hwriter, hphase⟩⟩ :=
          poll_of_inTime hrest hroom hpast
        · constructor <;> rw [hwriter]
          · exact h.limit_eq
          · exact h.timeout_eq
          · exact fun _ => ⟨rfl, rfl⟩
        · constructor
          · rw [hwriter]
            exact h.limit_eq
          · rw [hwriter]
            exact h.timeout_eq
          · rcases hphase with hphase | hphase | hphase <;> rw [hphase] <;> exact nofun
    · rw [poll_of_tooLarge (Nat.not_le.1 hroom)]
      exact ⟨h.limit_eq, h.timeout_eq, fun h => by cases h⟩

end WriterState

open WriterState

/-- The law of a record, whatever was written before it. It begins with the whole budget and without
a timer. If it is too large, its first poll refuses it before any of its bytes is taken. Otherwise
no poll refuses it for its size, and a poll of it times out exactly if the deadline that its first
poll has fixed has passed. While it goes on, the writer holds that deadline. -/
theorem deadline_writer_law (limit timeout : ℕ) (labels : List WriterLabel) (s : WriterState)
    (hrun : (machine limit timeout).run (machine limit timeout).init labels = some s)
    (record : List UInt8) (polls : List WriterPoll) (t : WriterState)
    (hrecord : (machine limit timeout).run s (.emit record :: polls.map .poll) = some t) :
    (s.writer.written = 0 ∧ s.writer.deadline = none) ∧
      (limit < record.length → t.sent = s.sent ∧ (polls ≠ [] → t.phase = .failed .tooLarge)) ∧
      (record.length ≤ limit → t.phase ≠ .failed .tooLarge ∧
        ∀ first ∈ polls.head?, ∀ last ∈ polls.getLast?,
          (t.phase = .failed .timedOut ↔ first.made + timeout ≤ last.now) ∧
          ∀ rest, t.phase = .emitting rest → t.writer.deadline = some (first.made + timeout)) := by
  have hfresh : Fresh limit timeout s :=
    Machine.invariant_of_run (m := machine limit timeout) (P := Fresh limit timeout)
      (fun s label t h hstep => h.step hstep) ⟨rfl, rfl, fun _ => ⟨rfl, rfl⟩⟩ hrun
  obtain ⟨u, hemit, hpolls⟩ := Machine.run_cons_eq_some _ |>.1 hrecord
  obtain ⟨hidle, rfl⟩ := Machine.guarded_eq_some.1 hemit
  obtain ⟨hwritten, hdeadline⟩ := hfresh.idle hidle
  have hprogress : Progress limit timeout record s.sent polls t :=
    (Progress.begin hfresh.limit_eq hfresh.timeout_eq hwritten hdeadline record).run hpolls
  refine ⟨⟨hwritten, hdeadline⟩, hprogress.tooLarge, fun hfits => ⟨hprogress.fits hfits, ?_⟩⟩
  intro first hfirst last hlast
  refine ⟨hprogress.timedOut hfits first hfirst last hlast, fun rest hrest => ?_⟩
  rw [(hprogress.emitting rest hrest).2.1, hfirst]
  rfl

/-- A record was written and flushed; the next one stalls after its first byte, and its second poll
times out. -/
theorem deadline_writer_law_stalled :
    ∃ t, (machine 3 10).run (machine 3 10).init
        [.emit [1], .poll ⟨0, 0, .takes 1⟩, .poll ⟨2, 2, .takes 0⟩, .emit [1, 2, 3],
          .poll ⟨20, 20, .takes 1⟩, .poll ⟨30, 30, .takes 1⟩] = some t ∧
      t.phase = .failed .timedOut :=
  ⟨_, rfl, (((deadline_writer_law 3 10
    [.emit [1], .poll ⟨0, 0, .takes 1⟩, .poll ⟨2, 2, .takes 0⟩] _ rfl [1, 2, 3]
    [⟨20, 20, .takes 1⟩, ⟨30, 30, .takes 1⟩] _ rfl).2.2 (by decide)).2 _ rfl _ rfl).1.2 (by decide)⟩

end DaemonFramework.Socket
