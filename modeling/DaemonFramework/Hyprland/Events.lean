import DaemonFramework.Jsonl.Frames
import DaemonFramework.Machine
import Mathlib.Data.List.Induction

/-!
# The compositor's event stream

`watch_events_with`, `reconnect_events`, `forward_events` and `read_event` of
`shelllist-hyprland/src/lib.rs`: a task that connects to the event socket again and again, reads its
lines, and sends all that happens into a bounded channel. What the socket and the receiver do is up
to them. A read gives some bytes, none at the end of the stream, or an error; `scan` is what one
round of `read_until` does with the bytes in the buffer.

`protocol` is the stream of events as its receiver may rely on it, and `sessionOf` says which
messages a connection gives, and why it ends, from all that was read of it at once. `Watching`
connects the two with where the task is.
-/

namespace DaemonFramework.Hyprland

open Jsonl (LF stripCR)

/-- `MAX_EVENT_BYTES`. -/
def maxEventBytes : ℕ := 64 * 1024

/-- What the receiver is told. -/
inductive Event where
  /-- A connection is established. -/
  | connected
  /-- It has ended, at the end of the stream or with an error. -/
  | disconnected (cause : Option String)
  /-- No connection could be established. -/
  | connectFailed (cause : String)
  /-- A line of the stream. -/
  | message (text : String)
deriving DecidableEq

/-! ## Reading -/

/-- What one round of `read_until` comes to. -/
inductive Scan where
  /-- It needs more. -/
  | more (bytes : List UInt8)
  /-- It has its bytes, and leaves the rest in the buffer. -/
  | done (bytes rest : List UInt8)

/-- One round of `take(MAX_EVENT_BYTES + 1).read_until(b'\\n')` over what is in the buffer. -/
def scan (bytes available : List UInt8) : Scan :=
  let limited := available.take (maxEventBytes + 1 - bytes.length)
  match limited.findIdx? (· = LF) with
  | some i => .done (bytes ++ limited.take (i + 1)) (available.drop (i + 1))
  | none =>
    -- With the limit used up, the next round is given nothing and ends.
    if (bytes ++ limited).length = maxEventBytes + 1 then
      .done (bytes ++ limited) (available.drop limited.length)
    else .more (bytes ++ limited)

/-- The error of an event that is too long. -/
def tooLarge : String := "Hyprland event is too large"

/-- `String::from_utf8`. -/
def text (bytes : List UInt8) : Option String := String.fromUTF8? bytes.toByteArray

variable (describe : List UInt8 → String)

/-- What `read_event` returns for the bytes that it has read; `describe` is the text of the error
for bytes that are not UTF-8. -/
def finishEvent (bytes : List UInt8) : Except String (Option String) :=
  if maxEventBytes < bytes.length then .error tooLarge
  else if bytes = [] then .ok none
  else
    let record := if bytes.getLast? = some LF then stripCR bytes.dropLast else bytes
    match text record with
    | some line => .ok (some line)
    | none => .error (describe record)

/-- Where the task is. -/
inductive Place where
  /-- In `event_socket`. -/
  | connecting
  /-- It sends `ConnectFailed`. -/
  | failing (cause : String)
  /-- It sends `Connected`. -/
  | greeting
  /-- In `read_event`, with what it has read of the line and what is in the buffer. -/
  | reading (bytes buffer : List UInt8)
  /-- It sends a message. -/
  | telling (line : String) (buffer : List UInt8)
  /-- It sends `Disconnected`. -/
  | parting (cause : Option String)
  /-- It sleeps. -/
  | backoff
  /-- It has ended, as the receiver is closed. -/
  | ended
deriving DecidableEq

/-- How the stream of a connection ended. -/
inductive Ending where
  | eof
  | error (message : String)
deriving DecidableEq

/-- The task and its channel. -/
structure Watcher where
  /-- Where the task is. -/
  place : Place
  /-- `last_connect_error`. -/
  lastError : Option String
  /-- What the stream of the last connection has given. -/
  input : List UInt8
  /-- How this stream ended, once it has. -/
  ending : Option Ending
  /-- The events in the channel. -/
  queue : List Event
  /-- The events that the receiver has taken. -/
  received : List Event
  /-- All events that were sent. -/
  sent : List Event

/-- What can happen. -/
inductive WatchStep where
  /-- `event_socket` fails. -/
  | refused (cause : String)
  /-- `event_socket` gives a stream. -/
  | accepted
  /-- The buffer is filled from the stream. -/
  | fill (read : Except String (List UInt8))
  /-- `read_until` looks at the buffer. -/
  | look
  /-- An event goes into the channel. -/
  | send
  /-- The delay is over. -/
  | wake
  /-- The receiver takes an event. -/
  | receive
  /-- The receiver is closed. -/
  | close

namespace Watcher

/-- `read_event` is at its end. -/
def finish (s : Watcher) (bytes buffer : List UInt8) : Watcher :=
  match finishEvent describe bytes with
  | .ok (some line) => { s with place := .telling line buffer }
  | .ok none => { s with place := .parting none }
  | .error cause => { s with place := .parting (some cause) }

/-- An event goes into the channel. -/
def push (s : Watcher) (event : Event) (place : Place) : Watcher :=
  { s with place := place, queue := s.queue ++ [event], sent := s.sent ++ [event] }

/-- The event that the task has ready goes into the channel. -/
def send (s : Watcher) : Option Watcher :=
  match s.place with
  | .failing cause => some { s.push (.connectFailed cause) .backoff with lastError := some cause }
  | .greeting => some (s.push .connected (.reading [] []))
  | .telling line buffer => some (s.push (.message line) (.reading [] buffer))
  | .parting cause => some (s.push (.disconnected cause) .backoff)
  | _ => none

/-- The buffer is filled. A stream that has ended gives nothing more. -/
def fill (s : Watcher) (read : Except String (List UInt8)) : Option Watcher :=
  match s.place, read with
  | .reading bytes [], .ok chunk =>
    if chunk = [] then some ({ s with ending := some .eof }.finish describe bytes [])
    else if s.ending = none then
      some { s with place := .reading bytes chunk, input := s.input ++ chunk }
    else none
  | .reading _ [], .error message =>
    if s.ending = none then
      some { s with place := .parting (some message), ending := some (.error message) }
    else none
  | _, _ => none

/-- A round of `read_until` over what is in the buffer. -/
def look (s : Watcher) : Option Watcher :=
  match s.place with
  | .reading bytes (b :: buffer) =>
    match scan bytes (b :: buffer) with
    | .more bytes => some { s with place := .reading bytes [] }
    | .done bytes rest => some (s.finish describe bytes rest)
  | _ => none

/-- One step of a task with a channel of this capacity. -/
def step (capacity : ℕ) (s : Watcher) : WatchStep → Option Watcher
  | .refused cause =>
    if s.place = .connecting then
      some { s with place := if s.lastError = some cause then .backoff else .failing cause }
    else none
  | .accepted =>
    if s.place = .connecting then
      some { s with place := .greeting, lastError := none, input := [], ending := none }
    else none
  | .fill read => s.fill describe read
  | .look => s.look describe
  | .send => if s.queue.length < capacity then s.send else none
  | .wake => if s.place = .backoff then some { s with place := .connecting } else none
  | .receive =>
    match s.queue with
    | event :: queue => some { s with queue := queue, received := s.received ++ [event] }
    | [] => none
  | .close => some { s with place := .ended }

/-- The task from its start on. -/
def machine (capacity : ℕ) : Machine Watcher WatchStep where
  init := ⟨.connecting, none, [], none, [], [], []⟩
  step := step describe capacity

end Watcher

/-! ## What the receiver may rely on -/

/-- What the receiver knows. -/
inductive View where
  /-- There is no connection, and the last attempt failed with this cause, if it failed. -/
  | disconnected (last : Option String)
  /-- There is a connection, and these are its messages. -/
  | connected (messages : List String)
deriving DecidableEq

/-- The stream of events: messages come within a connection, and a failure is told when it is
new. -/
def protocol : Machine View Event where
  init := .disconnected none
  step
    | .disconnected last, .connectFailed cause =>
      if last = some cause then none else some (.disconnected (some cause))
    | .disconnected _, .connected => some (.connected [])
    | .connected messages, .message line => some (.connected (messages ++ [line]))
    | .connected _, .disconnected _ => some (.disconnected none)
    | _, _ => none

/-- The messages of lines, up to the first that is none, and the error of this one. -/
def messagesOf : List (List UInt8) → List String × Option String
  | [] => ([], none)
  | record :: records =>
    if maxEventBytes < record.length + 1 then ([], some tooLarge)
    else
      match text (stripCR record) with
      | none => ([], some (describe (stripCR record)))
      | some line =>
        let (lines, error) := messagesOf records
        (line :: lines, error)

/-- The messages of a connection and the cause of its end, from all that its stream has given. -/
def sessionOf (input : List UInt8) (ending : Option Ending) : List String × Option (Option String) :=
  match messagesOf describe (terminated LF input) with
  | (lines, some error) => (lines, some (some error))
  | (lines, none) =>
    let rest := unterminated LF input
    if maxEventBytes < rest.length then (lines, some (some tooLarge))
    else
      match ending with
      | none => (lines, none)
      | some (.error message) => (lines, some (some message))
      | some .eof =>
        if rest = [] then (lines, some none)
        else
          match text rest with
          | some line => (lines ++ [line], some none)
          | none => (lines, some (some (describe rest)))

/-! ## The lines of a stream -/

/-- A first line, with what is behind it. -/
theorem sessionOf_record {record : List UInt8} (h : LF ∉ record) (rest : List UInt8)
    (ending : Option Ending) :
    sessionOf describe (record ++ LF :: rest) ending =
      if maxEventBytes < record.length + 1 then ([], some (some tooLarge))
      else
        match text (stripCR record) with
        | none => ([], some (some (describe (stripCR record))))
        | some line =>
          (line :: (sessionOf describe rest ending).1, (sessionOf describe rest ending).2) := by
  unfold sessionOf
  rw [terminated_append h, unterminated_append h, messagesOf]
  split_ifs with hlong
  · rfl
  · cases text (stripCR record) with
    | none => rfl
    | some line =>
      obtain ⟨lines, error⟩ := messagesOf describe (terminated LF rest)
      cases error with
      | some error => rfl
      | none =>
        dsimp only
        split_ifs with hrest hempty
        · rfl
        · rcases ending with _ | (_ | message) <;> rfl
        · rcases ending with _ | (_ | message)
          · rfl
          · cases text (unterminated LF rest) <;> rfl
          · rfl

/-- A rest that no LF ends. -/
theorem sessionOf_rest {rest : List UInt8} (h : LF ∉ rest) (ending : Option Ending) :
    sessionOf describe rest ending =
      if maxEventBytes < rest.length then ([], some (some tooLarge))
      else
        match ending with
        | none => ([], none)
        | some (.error message) => ([], some (some message))
        | some .eof =>
          if rest = [] then ([], some none)
          else
            match text rest with
            | some line => ([line], some none)
            | none => ([], some (some (describe rest))) := by
  unfold sessionOf
  rw [terminated_of_notMem h, unterminated_of_notMem h]
  rfl

/-- A line that is too long before its end is seen. -/
theorem sessionOf_tooLarge {bytes : List UInt8} (h : LF ∉ bytes)
    (hlong : maxEventBytes < bytes.length) (rest : List UInt8) (ending : Option Ending) :
    sessionOf describe (bytes ++ rest) ending = ([], some (some tooLarge)) := by
  by_cases hrest : LF ∈ rest
  · obtain ⟨before, behind, rfl, hbefore⟩ := List.eq_append_cons_of_mem hrest
    have hline : LF ∉ bytes ++ before := by
      rw [List.mem_append]
      exact not_or.2 ⟨h, hbefore⟩
    rw [← List.append_assoc, sessionOf_record describe hline, if_pos]
    rw [List.length_append]
    omega
  · have hnone : LF ∉ bytes ++ rest := by
      rw [List.mem_append]
      exact not_or.2 ⟨h, hrest⟩
    rw [sessionOf_rest describe hnone, if_pos]
    rw [List.length_append]
    omega

/-- These lines of the stream are messages, and nothing else is in them. -/
def Consumed (done : List UInt8) (lines : List String) : Prop :=
  ∀ rest ending, sessionOf describe (done ++ rest) ending =
    (lines ++ (sessionOf describe rest ending).1, (sessionOf describe rest ending).2)

namespace Consumed

variable {describe} {done : List UInt8} {lines : List String}

/-- Nothing of the stream. -/
theorem nil : Consumed describe [] [] := fun _ _ => rfl

/-- One more line. -/
theorem concat (h : Consumed describe done lines) {record : List UInt8} {line : String}
    (hrecord : LF ∉ record) (hshort : ¬maxEventBytes < record.length + 1)
    (htext : text (stripCR record) = some line) :
    Consumed describe (done ++ (record ++ [LF])) (lines ++ [line]) := by
  intro rest ending
  have hsplit : done ++ (record ++ [LF]) ++ rest = done ++ (record ++ LF :: rest) := by simp
  rw [hsplit, h, sessionOf_record describe hrecord, if_neg hshort, htext]
  simp

end Consumed

/-! ## Rounds of a read -/

/-- What a round of `read_until` has read ends with the first LF, or fills the limit without any. -/
theorem scan_eq_done {bytes available bytes' rest : List UInt8} (hbytes : LF ∉ bytes)
    (hshort : bytes.length ≤ maxEventBytes) (h : scan bytes available = .done bytes' rest) :
    bytes ++ available = bytes' ++ rest ∧
      ((∃ record, LF ∉ record ∧ bytes' = record ++ [LF] ∧ record.length ≤ maxEventBytes) ∨
        LF ∉ bytes' ∧ bytes'.length = maxEventBytes + 1) := by
  unfold scan at h
  have hlimited : (available.take (maxEventBytes + 1 - bytes.length)).length ≤
      maxEventBytes + 1 - bytes.length := List.length_take_le _ _
  set limited := available.take (maxEventBytes + 1 - bytes.length) with hdef
  have hprefix : limited ++ available.drop limited.length = available := by
    have hbegin : limited <+: available := List.take_prefix _ _
    obtain ⟨tail, htail⟩ := hbegin
    rw [← htail, List.drop_left]
  dsimp only at h
  split at h
  -- A line feed is in reach: the record ends with the first one.
  · rename_i i hfind
    obtain ⟨rfl, rfl⟩ := Scan.done.inj h
    obtain ⟨hlt, hi, hbefore⟩ := List.findIdx?_eq_some_iff_getElem.1 hfind
    have hi' : limited[i] = LF := by simpa using hi
    have htake : limited.take (i + 1) = limited.take i ++ [LF] := by
      rw [← hi', List.take_append_getElem]
    have hfirst : LF ∉ limited.take i := by
      intro hmem
      obtain ⟨j, hj, hLF⟩ := List.mem_take_iff_getElem.1 hmem
      have hji : j < i := by omega
      exact hbefore j hji (by simpa using hLF)
    refine ⟨?_, .inl ⟨bytes ++ limited.take i, ?_, ?_, ?_⟩⟩
    · have hsame : limited.take (i + 1) = available.take (i + 1) := by
        rw [hdef, List.take_take, Nat.min_eq_left (by omega)]
      rw [hsame, List.append_assoc, List.take_append_drop]
    · rw [List.mem_append]
      exact not_or.2 ⟨hbytes, hfirst⟩
    · rw [htake, List.append_assoc]
    · rw [List.length_append, List.length_take]
      omega
  -- No line feed is in reach, so the limit is full.
  · rename_i hfind
    split_ifs at h with hfull
    obtain ⟨rfl, rfl⟩ := Scan.done.inj h
    refine ⟨?_, .inr ⟨?_, hfull⟩⟩
    · rw [List.append_assoc, hprefix]
    · rw [List.mem_append]
      refine not_or.2 ⟨hbytes, fun hmem => ?_⟩
      have hnone := List.findIdx?_eq_none_iff.1 hfind LF hmem
      simp at hnone

/-- Where a round of `read_until` needs more, it has read the whole buffer, and no LF. -/
theorem scan_eq_more {bytes available bytes' : List UInt8} (hbytes : LF ∉ bytes)
    (hshort : bytes.length ≤ maxEventBytes) (h : scan bytes available = .more bytes') :
    bytes' = bytes ++ available ∧ LF ∉ bytes' ∧ bytes'.length ≤ maxEventBytes := by
  unfold scan at h
  dsimp only at h
  split at h
  · cases h
  · rename_i hfind
    split_ifs at h with hfull
    obtain rfl := Scan.more.inj h
    have hall : available.take (maxEventBytes + 1 - bytes.length) = available := by
      refine List.take_of_length_le ?_
      rw [List.length_append, List.length_take] at hfull
      omega
    rw [hall] at hfind hfull ⊢
    refine ⟨rfl, ?_, ?_⟩
    · rw [List.mem_append]
      refine not_or.2 ⟨hbytes, fun hmem => ?_⟩
      have hnone := List.findIdx?_eq_none_iff.1 hfind LF hmem
      simp at hnone
    · have hle := List.length_take_le (maxEventBytes + 1 - bytes.length) available
      rw [hall] at hle
      rw [List.length_append] at hfull ⊢
      omega

/-- What `read_event` returns for a line that an LF ends. -/
theorem finishEvent_line {record : List UInt8} :
    finishEvent describe (record ++ [LF]) =
      if maxEventBytes < record.length + 1 then .error tooLarge
      else
        match text (stripCR record) with
        | some line => .ok (some line)
        | none => .error (describe (stripCR record)) := by
  unfold finishEvent
  simp

/-- What `read_event` returns for bytes without an LF. -/
theorem finishEvent_rest {bytes : List UInt8} (h : LF ∉ bytes) :
    finishEvent describe bytes =
      if maxEventBytes < bytes.length then .error tooLarge
      else if bytes = [] then .ok none
      else
        match text bytes with
        | some line => .ok (some line)
        | none => .error (describe bytes) := by
  have hlast : bytes.getLast? ≠ some LF := fun hlast => h (List.mem_of_getLast? hlast)
  unfold finishEvent
  rw [if_neg hlast]

/-! ## The invariant -/

namespace Watcher

variable {describe} {capacity : ℕ} {s t : Watcher}

/-- What the receiver knows when it has taken all events that were sent, by where the task is. -/
def Knows (describe : List UInt8 → String) (s : Watcher) (view : View) : Prop :=
  match s.place with
  | .connecting | .backoff => view = .disconnected s.lastError
  | .failing cause => view = .disconnected s.lastError ∧ s.lastError ≠ some cause
  | .greeting =>
    s.lastError = none ∧ s.input = [] ∧ s.ending = none ∧ ∃ last, view = .disconnected last
  | .reading bytes buffer =>
    s.lastError = none ∧ ∃ lines, view = .connected lines ∧
      (s.ending = none ∧ (∃ done, s.input = done ++ (bytes ++ buffer) ∧
          Consumed describe done lines) ∧ LF ∉ bytes ∧ bytes.length ≤ maxEventBytes ∨
        s.ending = some .eof ∧ bytes = [] ∧ buffer = [] ∧
          sessionOf describe s.input s.ending = (lines, some none))
  | .telling line buffer =>
    s.lastError = none ∧ ∃ lines, view = .connected lines ∧
      (s.ending = none ∧ (∃ done, s.input = done ++ buffer ∧
          Consumed describe done (lines ++ [line])) ∨
        s.ending = some .eof ∧ buffer = [] ∧
          sessionOf describe s.input s.ending = (lines ++ [line], some none))
  | .parting cause =>
    s.lastError = none ∧ ∃ lines, view = .connected lines ∧
      sessionOf describe s.input s.ending = (lines, some cause)
  | .ended => True

variable {lines : List String} {done bytes rest : List UInt8} {view : View}

/-- A line that has been read is a message or ends the connection. -/
theorem knows_finish_line {record : List UInt8} (herror : s.lastError = none)
    (hending : s.ending = none) (hinput : s.input = done ++ (record ++ LF :: rest))
    (hdone : Consumed describe done lines) (hrecord : LF ∉ record) :
    Knows describe (s.finish describe (record ++ [LF]) rest) (.connected lines) := by
  have hsession : sessionOf describe s.input s.ending =
      (lines ++ (sessionOf describe (record ++ LF :: rest) s.ending).1,
        (sessionOf describe (record ++ LF :: rest) s.ending).2) := by
    rw [hinput]
    exact hdone _ _
  rw [sessionOf_record describe hrecord] at hsession
  unfold finish
  rw [finishEvent_line]
  split_ifs at hsession ⊢ with hlong
  · exact ⟨herror, lines, rfl, by simpa using hsession⟩
  · cases htext : text (stripCR record) with
    | none =>
      rw [htext] at hsession
      exact ⟨herror, lines, rfl, by simpa using hsession⟩
    | some line =>
      refine ⟨herror, lines, rfl, .inl ⟨hending, done ++ (record ++ [LF]), ?_, ?_⟩⟩
      · rw [hinput]
        simp
      · exact hdone.concat hrecord hlong htext

/-- Bytes that fill the limit without an LF end the connection. -/
theorem knows_finish_full (herror : s.lastError = none)
    (hinput : s.input = done ++ (bytes ++ rest)) (hdone : Consumed describe done lines)
    (hbytes : LF ∉ bytes) (hfull : bytes.length = maxEventBytes + 1) :
    Knows describe (s.finish describe bytes rest) (.connected lines) := by
  have hlong : maxEventBytes < bytes.length := by omega
  unfold finish
  rw [finishEvent_rest describe hbytes, if_pos hlong]
  refine ⟨herror, lines, rfl, ?_⟩
  show sessionOf describe s.input s.ending = _
  rw [hinput, hdone, sessionOf_tooLarge describe hbytes hlong, List.append_nil]

/-- The end of the stream ends the connection, behind a last message where there is one. -/
theorem knows_finish_eof (herror : s.lastError = none) (hinput : s.input = done ++ bytes)
    (hdone : Consumed describe done lines) (hbytes : LF ∉ bytes)
    (hshort : bytes.length ≤ maxEventBytes) :
    Knows describe ({ s with ending := some .eof }.finish describe bytes [])
      (.connected lines) := by
  have hsession : sessionOf describe s.input (some .eof) =
      (lines ++ (sessionOf describe bytes (some .eof)).1,
        (sessionOf describe bytes (some .eof)).2) := by
    rw [hinput]
    exact hdone _ _
  rw [sessionOf_rest describe hbytes, if_neg (by omega)] at hsession
  unfold finish
  rw [finishEvent_rest describe hbytes, if_neg (by omega)]
  split_ifs at hsession ⊢ with hempty
  · exact ⟨herror, lines, rfl, by simpa [hempty] using hsession⟩
  · cases htext : text bytes with
    | none =>
      rw [htext] at hsession
      exact ⟨herror, lines, rfl, by simpa [hempty] using hsession⟩
    | some line =>
      rw [htext] at hsession
      exact ⟨herror, lines, rfl, .inr ⟨rfl, rfl, by simpa [hempty] using hsession⟩⟩

/-- The receiver learns what the task has ready. -/
theorem knows_send (h : Knows describe s view) (hsend : s.send = some t) :
    ∃ event view', t.sent = s.sent ++ [event] ∧ t.queue = s.queue ++ [event] ∧
      t.received = s.received ∧ protocol.step view event = some view' ∧
      Knows describe t view' := by
  unfold Knows at h
  unfold send at hsend
  split at hsend
  · rename_i cause hplace
    rw [hplace] at h
    obtain ⟨rfl, hnew⟩ := h
    obtain rfl := Option.some.inj hsend
    exact ⟨.connectFailed cause, .disconnected (some cause), rfl, rfl, rfl, if_neg hnew, rfl⟩
  · rename_i hplace
    rw [hplace] at h
    obtain ⟨herror, hinput, hending, last, rfl⟩ := h
    obtain rfl := Option.some.inj hsend
    refine ⟨.connected, .connected [], rfl, rfl, rfl, rfl, herror, [], rfl, .inl ⟨hending, ?_⟩⟩
    exact ⟨⟨[], hinput, .nil⟩, by simp, Nat.zero_le _⟩
  · rename_i line buffer hplace
    rw [hplace] at h
    obtain ⟨herror, lines, rfl, hsource⟩ := h
    obtain rfl := Option.some.inj hsend
    refine ⟨.message line, .connected (lines ++ [line]), rfl, rfl, rfl, rfl, herror, _, rfl, ?_⟩
    rcases hsource with ⟨hending, done, hinput, hdone⟩ | ⟨hending, rfl, hsession⟩
    · exact .inl ⟨hending, ⟨done, hinput, hdone⟩, by simp, Nat.zero_le _⟩
    · exact .inr ⟨hending, rfl, rfl, hsession⟩
  · rename_i cause hplace
    rw [hplace] at h
    obtain ⟨herror, lines, rfl, -⟩ := h
    obtain rfl := Option.some.inj hsend
    refine ⟨.disconnected cause, .disconnected none, rfl, rfl, rfl, rfl, ?_⟩
    show View.disconnected none = .disconnected s.lastError
    rw [herror]
  · cases hsend

/-- The invariant of every run. -/
structure Watching (describe : List UInt8 → String) (capacity : ℕ) (s : Watcher) : Prop where
  /-- The events are a stream that the receiver may rely on, up to where the task is. -/
  view : ∃ view, protocol.run protocol.init s.sent = some view ∧ Knows describe s view
  /-- The receiver takes them in order, and none is lost. -/
  sent : s.sent = s.received ++ s.queue
  /-- The channel is bounded. -/
  queue : s.queue.length ≤ capacity

/-- The end of `read_event` sends nothing. -/
theorem finish_frame (describe : List UInt8 → String) (s : Watcher) (bytes rest : List UInt8) :
    (s.finish describe bytes rest).sent = s.sent ∧
      (s.finish describe bytes rest).received = s.received ∧
      (s.finish describe bytes rest).queue = s.queue := by
  unfold finish
  split <;> exact ⟨rfl, rfl, rfl⟩

namespace Watching

/-- What the task does by itself sends nothing. -/
theorem silent (h : Watching describe capacity s) (hsent : t.sent = s.sent)
    (hreceived : t.received = s.received) (hqueue : t.queue = s.queue)
    (hknows : ∀ view, Knows describe s view → Knows describe t view) :
    Watching describe capacity t where
  view := by
    obtain ⟨view, hrun, hview⟩ := h.view
    exact ⟨view, hsent ▸ hrun, hknows view hview⟩
  sent := by rw [hsent, hreceived, hqueue, h.sent]
  queue := by rw [hqueue]; exact h.queue

/-- The start of the task. -/
theorem init : Watching describe capacity (machine describe capacity).init where
  view := ⟨.disconnected none, rfl, rfl⟩
  sent := rfl
  queue := Nat.zero_le _

/-- What comes of a filled buffer. -/
theorem fill (h : Watching describe capacity s) {read : Except String (List UInt8)}
    (hfill : s.fill describe read = some t) : Watching describe capacity t := by
  unfold Watcher.fill at hfill
  split at hfill
  · rename_i bytes chunk hplace
    split_ifs at hfill with hchunk hending
    · obtain rfl := Option.some.inj hfill
      obtain ⟨hsent, hreceived, hqueue⟩ :=
        finish_frame describe { s with ending := some .eof } bytes []
      refine h.silent hsent hreceived hqueue fun view hview => ?_
      unfold Knows at hview
      rw [hplace] at hview
      obtain ⟨herror, lines, rfl, hsource⟩ := hview
      rcases hsource with ⟨hnone, ⟨done, hinput, hdone⟩, hbytes, hshort⟩ | ⟨heof, rfl, -, hsession⟩
      · rw [List.append_nil] at hinput
        exact knows_finish_eof herror hinput hdone hbytes hshort
      · have hend : finishEvent describe [] = .ok none := rfl
        unfold finish
        rw [hend]
        exact ⟨herror, lines, rfl, heof ▸ hsession⟩
    · obtain rfl := Option.some.inj hfill
      refine h.silent rfl rfl rfl fun view hview => ?_
      unfold Knows at hview
      rw [hplace] at hview
      obtain ⟨herror, lines, rfl, hsource⟩ := hview
      rcases hsource with ⟨hnone, ⟨done, hinput, hdone⟩, hbytes, hshort⟩ | ⟨heof, -, -, -⟩
      · refine ⟨herror, lines, rfl, .inl ⟨hnone, ⟨done, ?_, hdone⟩, hbytes, hshort⟩⟩
        show s.input ++ chunk = _
        rw [hinput]
        simp
      · rw [hending] at heof
        cases heof
  · rename_i bytes message hplace
    split_ifs at hfill with hending
    obtain rfl := Option.some.inj hfill
    refine h.silent rfl rfl rfl fun view hview => ?_
    unfold Knows at hview
    rw [hplace] at hview
    obtain ⟨herror, lines, rfl, hsource⟩ := hview
    rcases hsource with ⟨hnone, ⟨done, hinput, hdone⟩, hbytes, hshort⟩ | ⟨heof, -, -, -⟩
    · refine ⟨herror, lines, rfl, ?_⟩
      show sessionOf describe s.input (some (.error message)) = _
      rw [hinput, hdone, List.append_nil, sessionOf_rest describe hbytes, if_neg (by omega)]
      simp
    · rw [hending] at heof
      cases heof
  · cases hfill

/-- A round of `read_until`. -/
theorem look (h : Watching describe capacity s) (hlook : s.look describe = some t) :
    Watching describe capacity t := by
  unfold Watcher.look at hlook
  split at hlook
  · rename_i bytes b buffer hplace
    split at hlook
    · rename_i bytes' hscan
      obtain rfl := Option.some.inj hlook
      refine h.silent rfl rfl rfl fun view hview => ?_
      unfold Knows at hview
      rw [hplace] at hview
      obtain ⟨herror, lines, rfl, hsource⟩ := hview
      obtain ⟨hnone, ⟨done, hinput, hdone⟩, hbytes, hshort⟩ := hsource.resolve_right nofun
      obtain ⟨rfl, hbytes', hshort'⟩ := scan_eq_more hbytes hshort hscan
      refine ⟨herror, lines, rfl, .inl ⟨hnone, ⟨done, ?_, hdone⟩, hbytes', hshort'⟩⟩
      rw [List.append_nil]
      exact hinput
    · rename_i bytes' rest hscan
      obtain rfl := Option.some.inj hlook
      obtain ⟨hsent, hreceived, hqueue⟩ := finish_frame describe s bytes' rest
      refine h.silent hsent hreceived hqueue fun view hview => ?_
      unfold Knows at hview
      rw [hplace] at hview
      obtain ⟨herror, lines, rfl, hsource⟩ := hview
      obtain ⟨hnone, ⟨done, hinput, hdone⟩, hbytes, hshort⟩ := hsource.resolve_right nofun
      obtain ⟨hsplit, ⟨record, hrecord, rfl, -⟩ | ⟨hbytes', hfull⟩⟩ :=
        scan_eq_done hbytes hshort hscan
      · rw [hsplit, List.append_assoc] at hinput
        exact knows_finish_line herror hnone hinput hdone hrecord
      · rw [hsplit] at hinput
        exact knows_finish_full herror hinput hdone hbytes' hfull
  · cases hlook

/-- Every step keeps the invariant. -/
theorem step {label : WatchStep} (h : Watching describe capacity s)
    (hstep : s.step describe capacity label = some t) : Watching describe capacity t := by
  cases label with
  -- The ends of an attempt: what was told last is what there is to say next.
  | refused cause =>
    obtain ⟨hplace, rfl⟩ := Machine.guarded_eq_some.1 hstep
    refine h.silent rfl rfl rfl fun view hview => ?_
    unfold Knows at hview
    rw [hplace] at hview
    by_cases hlast : s.lastError = some cause
    · simpa [Knows, hlast] using hview
    · simpa [Knows, hlast] using hview
  | accepted =>
    obtain ⟨hplace, rfl⟩ := Machine.guarded_eq_some.1 hstep
    refine h.silent rfl rfl rfl fun view hview => ?_
    unfold Knows at hview
    rw [hplace] at hview
    exact ⟨rfl, rfl, rfl, s.lastError, hview⟩
  | fill read => exact h.fill hstep
  | look => exact h.look hstep
  -- The event sent is the one that the protocol allows in this place.
  | send =>
    obtain ⟨hroom, hsend⟩ := Option.ite_none_right_eq_some.1 hstep
    obtain ⟨view, hrun, hview⟩ := h.view
    obtain ⟨event, view', hsent, hqueue, hreceived, hevent, hview'⟩ := knows_send hview hsend
    refine ⟨⟨view', ?_, hview'⟩, ?_, ?_⟩
    · rw [hsent]
      exact protocol.run_concat_eq_some.2 ⟨view, hrun, hevent⟩
    · rw [hsent, hqueue, hreceived, h.sent, List.append_assoc]
    · rw [hqueue, List.length_append, List.length_singleton]
      exact hroom
  | wake =>
    obtain ⟨hplace, rfl⟩ := Machine.guarded_eq_some.1 hstep
    refine h.silent rfl rfl rfl fun view hview => ?_
    unfold Knows at hview
    rw [hplace] at hview
    exact hview
  | receive =>
    simp only [Watcher.step] at hstep
    split at hstep
    · rename_i event queue hqueue
      obtain rfl := Option.some.inj hstep
      have hsent := h.sent
      have hlength := h.queue
      rw [hqueue] at hsent hlength
      refine ⟨h.view, by simpa using hsent, ?_⟩
      exact Nat.le_of_succ_le hlength
    · cases hstep
  | close =>
    obtain rfl := Option.some.inj hstep
    exact h.silent rfl rfl rfl fun _ _ => trivial

/-- Every run keeps the invariant. -/
theorem of_reachable (h : (machine describe capacity).Reachable s) : Watching describe capacity s :=
  Machine.invariant_of_reachable init (fun _ _ _ hs hstep => hs.step hstep) h

end Watching

/-- Whether the step is an attempt to connect. -/
def isAttempt : WatchStep → Bool
  | .refused _ | .accepted => true
  | _ => false

/-- Whether the step is the end of a delay. -/
def isWake : WatchStep → Bool
  | .wake => true
  | _ => false

/-- Whether the task can attempt to connect. -/
def ready (s : Watcher) : ℕ := if s.place = .connecting then 1 else 0

/-- An attempt to connect uses up what the end of a delay allows. -/
theorem ready_of_step {label : WatchStep} (hstep : s.step describe capacity label = some t) :
    ready t + (isAttempt label).toNat ≤ ready s + (isWake label).toNat := by
  -- Only a watcher that is connecting can make an attempt.
  have hgone : ∀ {u : Watcher}, u.place ≠ .connecting → ready u = 0 := fun hne => if_neg hne
  have hfinish : ∀ (u : Watcher) (bytes rest : List UInt8),
      ready (u.finish describe bytes rest) = 0 := by
    intro u bytes rest
    unfold finish
    split <;> exact hgone nofun
  cases label with
  -- The two ends of an attempt use it up.
  | refused cause =>
    obtain ⟨hplace, rfl⟩ := Machine.guarded_eq_some.1 hstep
    have hready : ready s = 1 := if_pos hplace
    have hnot : ready { s with
        place := if s.lastError = some cause then .backoff else .failing cause } = 0 := by
      refine hgone ?_
      dsimp only
      split_ifs <;> exact nofun
    rw [hready, hnot]
    exact Nat.le_refl 1
  | accepted =>
    obtain ⟨hplace, rfl⟩ := Machine.guarded_eq_some.1 hstep
    have hready : ready s = 1 := if_pos hplace
    rw [hready]
    exact Nat.le_refl 1
  -- Reading, looking for lines and sending need a connection and never lead to an attempt.
  | fill read =>
    have hfill : s.fill describe read = some t := hstep
    have hnot : ready t = 0 := by
      unfold fill at hfill
      split at hfill
      · split_ifs at hfill
        · obtain rfl := Option.some.inj hfill
          exact hfinish _ _ _
        · obtain rfl := Option.some.inj hfill
          exact hgone nofun
      · split_ifs at hfill
        obtain rfl := Option.some.inj hfill
        exact hgone nofun
      · cases hfill
    rw [hnot]
    exact Nat.zero_le _
  | look =>
    have hlook : s.look describe = some t := hstep
    have hnot : ready t = 0 := by
      unfold look at hlook
      split at hlook
      · split at hlook
        · obtain rfl := Option.some.inj hlook
          exact hgone nofun
        · obtain rfl := Option.some.inj hlook
          exact hfinish _ _ _
      · cases hlook
    rw [hnot]
    exact Nat.zero_le _
  | send =>
    have hsend : s.send = some t := (Option.ite_none_right_eq_some.1 hstep).2
    have hnot : ready t = 0 := by
      unfold send at hsend
      split at hsend <;> cases hsend <;> exact hgone nofun
    rw [hnot]
    exact Nat.zero_le _
  -- The end of a delay allows one attempt.
  | wake =>
    obtain ⟨hplace, rfl⟩ := Machine.guarded_eq_some.1 hstep
    have hone : ready { s with place := .connecting } = 1 := rfl
    rw [hone]
    exact Nat.le_add_left 1 _
  | receive =>
    simp only [Watcher.step] at hstep
    split at hstep
    · obtain rfl := Option.some.inj hstep
      exact Nat.le_refl _
    · cases hstep
  | close =>
    obtain rfl := Option.some.inj hstep
    exact Nat.zero_le _

/-- Between two attempts to connect there is a delay. -/
theorem attempts_le {labels : List WatchStep}
    (hrun : (machine describe capacity).run (machine describe capacity).init labels = some s) :
    labels.countP isAttempt + ready s ≤ labels.countP isWake + 1 := by
  induction labels using List.reverseRecOn generalizing s with
  | nil =>
    obtain rfl := Option.some.inj hrun
    exact Nat.le_refl _
  | append_singleton labels label ih =>
    obtain ⟨u, hu, hstep⟩ := (machine describe capacity).run_concat_eq_some.1 hrun
    have hbefore := ih hu
    have hready := ready_of_step hstep
    have hcount : ∀ p : WatchStep → Bool,
        (labels ++ [label]).countP p = labels.countP p + (p label).toNat := by
      intro p
      rw [List.countP_append, List.countP_singleton]
      cases p label <;> rfl
    rw [hcount, hcount]
    omega

/-- The compositor's event stream, for every channel and every run. The receiver takes what was
sent, in order and without a gap. What it takes is a stream as `protocol` has it: messages only
between `Connected` and `Disconnected`, and no failure twice in a row. When a connection is over,
its messages and the cause in its `Disconnected` are those of all that its stream has given, in
whatever pieces this came; while it is not, and all that was read has been looked at, its messages
are those of the lines that are complete, and what is kept of the next one is bounded. Between two
attempts to connect there is a delay. -/
theorem watch_events_delivery (describe : List UInt8 → String) (capacity : ℕ)
    (labels : List WatchStep) (s : Watcher)
    (hrun : (machine describe capacity).run (machine describe capacity).init labels = some s) :
    s.sent = s.received ++ s.queue ∧ s.queue.length ≤ capacity ∧
      (∃ view, protocol.run protocol.init s.received = some view) ∧
      (∀ cause, s.place = .parting cause → ∃ lines,
        protocol.run protocol.init s.sent = some (.connected lines) ∧
        sessionOf describe s.input s.ending = (lines, some cause)) ∧
      (∀ bytes, s.place = .reading bytes [] → s.ending = none →
        bytes.length ≤ maxEventBytes ∧ ∃ lines,
          protocol.run protocol.init s.sent = some (.connected lines) ∧
          sessionOf describe s.input none = (lines, none)) ∧
      labels.countP isAttempt ≤ labels.countP isWake + 1 := by
  have hinv : Watching describe capacity s := Watching.of_reachable ⟨labels, hrun⟩
  obtain ⟨view, hview, hknows⟩ := hinv.view
  refine ⟨hinv.sent, hinv.queue, ?_, ?_, ?_, ?_⟩
  · have hsplit := hview
    rw [hinv.sent] at hsplit
    obtain ⟨middle, hmiddle, -⟩ := protocol.run_append_eq_some.1 hsplit
    exact ⟨middle, hmiddle⟩
  -- The connection is over: its messages are those of the whole input.
  · intro cause hplace
    unfold Knows at hknows
    rw [hplace] at hknows
    obtain ⟨-, lines, rfl, hsession⟩ := hknows
    exact ⟨lines, hview, hsession⟩
  -- What was read has been looked at: the complete lines are sent, and the rest is short.
  · intro bytes hplace hending
    unfold Knows at hknows
    rw [hplace] at hknows
    obtain ⟨-, lines, rfl, hsource⟩ := hknows
    rcases hsource with ⟨-, ⟨done, hinput, hdone⟩, hbytes, hshort⟩ | ⟨heof, -⟩
    · refine ⟨hshort, lines, hview, ?_⟩
      rw [hinput, List.append_nil, hdone, sessionOf_rest describe hbytes, if_neg (by omega)]
      simp
    · rw [hending] at heof
      cases heof
  · exact Nat.le_trans (Nat.le_add_right _ _) (attempts_le hrun)

/-- Two lines in three reads, the second of which is not ended, and then the end of the stream. -/
def twoLines : List WatchStep :=
  [.refused "no", .send, .wake, .refused "no", .wake, .accepted, .send, .fill (.ok [97]), .look,
    .fill (.ok [13]), .look, .fill (.ok [10, 98]), .look, .send, .look, .receive, .fill (.ok [])]

/-- Both are messages. -/
theorem watch_events_delivery_two :
    ∃ s, (machine (fun _ => "") 4).run (machine (fun _ => "") 4).init twoLines = some s ∧
      s.sent = s.received ++ s.queue := by
  obtain ⟨s, hrun⟩ : ∃ s, (machine (fun _ => "") 4).run (machine (fun _ => "") 4).init twoLines =
      some s := ⟨_, rfl⟩
  exact ⟨s, hrun, (watch_events_delivery (fun _ => "") 4 twoLines s hrun).1⟩

end Watcher

end DaemonFramework.Hyprland
