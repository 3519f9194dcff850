import DaemonFramework.Files.Directories

/-!
# The contents of the temporary file

The second phase of the work on a staged file. The disk differs from what it was before by the
temporary file alone (`Holding`), and the contents of that file and the buffer make up what has been
written so far (`Pending`). A flush that succeeds leaves nothing in the buffer, so
`writeBuffered_spec` finds the complete contents in the file when nothing has failed.
-/

namespace DaemonFramework.Files

open Fallible

/-- The disk differs from `base` by the temporary file alone, and `base` from what was there before
by directories that lead to the path. -/
structure Holding (path : Path) (before base : Entries) (temporary : Path) (contents : List UInt8)
    (s : World) : Prop where
  /-- Only directories had changed when the temporary file was made. -/
  unchanged : ∀ p, Unchanged path before base p
  /-- Its name was free. -/
  free : base temporary = none
  /-- It has these contents. -/
  held : ∃ mode, s.entries = Function.update base temporary (some (.file contents mode))
  /-- Nothing was replaced or removed. -/
  calm : ∀ entry ∈ s.log, Calm entry

variable {path temporary : Path} {before base : Entries} {contents : List UInt8} {s : World}

/-! ## The temporary file -/

/-- The name of a temporary file is longer than that of the file. -/
theorem temporaryName_ne (name : String) (process number : ℕ) :
    temporaryName name process number ≠ name := by
  intro h
  have hlength := congrArg String.length h
  simp [temporaryName] at hlength

/-- What the search for a name leaves: a temporary file that holds nothing, or nothing but new
directories. -/
def Searched (path : Path) (before : Entries) (parent : Path) (name : String)
    (r : Except ErrorKind Path) (s : World) : Prop :=
  match r with
  | .ok temporary => (∃ process number,
      temporary = parent.join (temporaryName name process number)) ∧
      ∃ base, Holding path before base temporary [] s
  | .error _ => Prepared path before s

/-- The file is made if its name is free. -/
theorem createNew_spec {temporary : Path} (mode : UInt32) (h : Prepared path before s) :
    (createNew temporary mode).Meets s fun r s' =>
      (r = .ok () → ∃ base, Holding path before base temporary [] s') ∧
      (∀ e, r = .error e → Prepared path before s') := by
  apply call_spec
  · intro n a entries hresult
    split_ifs at hresult with hthere hparent
    obtain ⟨-, rfl⟩ := Prod.mk.inj (Except.ok.inj hresult)
    have hfree : s.entries temporary = none := by simpa using hthere
    have hcalm := (Prepared.steady s (.createNew temporary) true trivial h).calm
    exact ⟨fun _ => ⟨s.entries, h.unchanged, hfree, ⟨_, rfl⟩, hcalm⟩, fun _ h => by cases h⟩
  · exact fun e => ⟨fun h => (by cases h), fun _ _ =>
      Prepared.steady s (.createNew temporary) false trivial h⟩

/-- The search for a name tries one after another, and makes a file of the first that is free. -/
theorem createTemporary_spec {parent : Path} {name : String} (mode : Option UInt32) (tries : ℕ)
    (h : Prepared path before s) :
    (createTemporary parent name mode tries).Meets s (Searched path before parent name) := by
  induction tries generalizing s with
  | zero => exact h
  | succ tries ih =>
    -- The number is taken whether or not the name is free.
    have hfetch : (fetchAdd : Disk ErrorKind ℕ).Meets s fun _ s' => Prepared path before s' :=
      ⟨h.unchanged, h.calm⟩
    unfold createTemporary
    apply hfetch.bind _ fun _ _ h => h
    intro number s h
    apply Meets.read_bind
    apply (createNew_spec (mode.getD 0o666) h).observe_bind
    rintro r s' ⟨hmade, hfailed⟩
    split
    · exact ⟨⟨_, _, rfl⟩, hmade rfl⟩
    · exact ih (hfailed _ rfl)
    · exact hfailed _ rfl

/-! ## The writes -/

/-- Calm operations change nothing about it. -/
theorem Holding.steady : Steady (Holding path before base temporary contents) :=
  fun _ _ _ hc h => ⟨h.unchanged, h.free, h.held, calm_append h.calm hc⟩

/-- The entry of the temporary file. -/
theorem Holding.entry (h : Holding path before base temporary contents s) :
    ∃ mode, s.entries temporary = some (.file contents mode) := by
  obtain ⟨mode, hheld⟩ := h.held
  exact ⟨mode, by rw [hheld, Function.update_self]⟩

/-- The temporary file gets other contents or another mode. -/
theorem Holding.update (h : Holding path before base temporary contents s)
    (contents' : List UInt8) (mode : UInt32) (c : Call) (hc : Calm (c, true)) :
    Holding path before base temporary contents'
      { s with
        entries := Function.update s.entries temporary (some (.file contents' mode))
        log := s.log ++ [(c, true)] } where
  unchanged := h.unchanged
  free := h.free
  held := by
    obtain ⟨mode', hheld⟩ := h.held
    exact ⟨mode, by rw [hheld, Function.update_idem]⟩
  calm := calm_append h.calm hc

/-- The temporary file has some contents, which do not matter. -/
def HoldingSome (path : Path) (before base : Entries) (temporary : Path) (s : World) : Prop :=
  ∃ contents, Holding path before base temporary contents s

/-- A write takes some of the bytes, or none if it fails. -/
theorem write_spec (bytes : List UInt8) (h : Holding path before base temporary contents s) :
    (write temporary bytes).Meets s fun r s' =>
      Holding path before base temporary (contents ++ bytes.take (r.toOption.getD 0)) s' := by
  obtain ⟨mode, hentry⟩ := h.entry
  apply call_spec
  · intro n a entries hresult
    simp only [hentry] at hresult
    obtain ⟨rfl, rfl⟩ := Prod.mk.inj (Except.ok.inj hresult)
    exact h.update _ mode (.write temporary) trivial
  · intro e
    simpa [Except.toOption] using Holding.steady s (.write temporary) false trivial h

/-- What has been written so far is in the file and in the buffer. -/
def Pending (path : Path) (before base : Entries) (temporary : Path) (total : List UInt8)
    (t : List UInt8 × World) : Prop :=
  ∃ contents, Holding path before base temporary contents t.2 ∧ contents ++ t.1 = total

/-- The file has some contents, and so has the buffer. -/
theorem Pending.some {total : List UInt8} {t : List UInt8 × World}
    (h : Pending path before base temporary total t) :
    HoldingSome path before base temporary t.2 := by
  obtain ⟨contents, hholding, -⟩ := h
  exact ⟨contents, hholding⟩

/-- Writing the buffer loses nothing, and leaves nothing in the buffer if it does not fail. -/
theorem flushBuffer_spec {total : List UInt8} (n : ℕ) {t : List UInt8 × World}
    (h : Pending path before base temporary total t) (hn : t.1.length ≤ n) :
    (flushBuffer temporary n).Meets t fun r t' =>
      Pending path before base temporary total t' ∧ (r = .ok () → t'.1 = []) := by
  induction n generalizing t with
  | zero => exact ⟨h, fun _ => List.length_eq_zero_iff.1 (Nat.le_zero.1 hn)⟩
  | succ n ih =>
    obtain ⟨buffer, s⟩ := t
    obtain ⟨contents, hholding, htotal⟩ := h
    unfold flushBuffer
    apply Meets.read_bind
    split_ifs with hempty
    · exact ⟨⟨contents, hholding, htotal⟩, fun _ => hempty⟩
    · apply Meets.bind (Q := fun r t' => t'.1 = buffer ∧
        Holding path before base temporary (contents ++ buffer.take (r.toOption.getD 0)) t'.2)
      · exact Meets.lift ((write_spec buffer hholding).mono fun r s' h => ⟨rfl, h⟩)
      · rintro count ⟨buffer', s'⟩ ⟨rfl, hwritten⟩
        split_ifs with hzero
        -- Writing no byte is an error, and the buffer keeps what was left.
        · subst hzero
          have hsame : Holding path before base temporary contents s' := by
            simpa [Except.toOption] using hwritten
          exact ⟨⟨contents, hsame, htotal⟩, fun h => by cases h⟩
        · apply Meets.read_bind
          apply Meets.write_bind
          apply ih
          · refine ⟨_, hwritten, ?_⟩
            simpa [Except.toOption] using htotal
          · simp only [List.length_drop]
            simp only at hn
            omega
      · rintro e ⟨buffer', s'⟩ ⟨rfl, hwritten⟩
        exact ⟨⟨contents, by simpa [Except.toOption] using hwritten, htotal⟩, fun h => by cases h⟩

/-- Bytes that are written past the buffer. -/
theorem writeAll_spec (n : ℕ) {bytes : List UInt8}
    (h : Holding path before base temporary contents s) (hn : bytes.length ≤ n) :
    (writeAll temporary n bytes).Meets s fun r s' =>
      (r = .ok () → Holding path before base temporary (contents ++ bytes) s') ∧
      HoldingSome path before base temporary s' := by
  induction n generalizing bytes contents s with
  | zero =>
    obtain rfl := List.length_eq_zero_iff.1 (Nat.le_zero.1 hn)
    exact ⟨fun _ => by simpa [writeAll, ok] using h, contents, h⟩
  | succ n ih =>
    cases bytes with
    | nil => exact ⟨fun _ => by simpa [writeAll, ok] using h, contents, h⟩
    | cons byte bytes =>
      unfold writeAll
      apply (write_spec _ h).bind
      · intro count s' hwritten
        split_ifs with hzero
        · exact ⟨fun h => (by cases h), _, hwritten⟩
        · have hlength : ((byte :: bytes).drop count).length ≤ n := by
            rw [List.length_drop]
            omega
          apply (ih hwritten hlength).mono
          rintro r s'' ⟨hok, hsome⟩
          refine ⟨fun hr => ?_, hsome⟩
          simpa [Except.toOption] using hok hr
      · exact fun e s' hwritten => ⟨fun h => (by cases h), _, hwritten⟩

/-- Bytes that go through the buffer. -/
theorem pushBuffer_spec {total : List UInt8} (bytes : List UInt8) {t : List UInt8 × World}
    (h : Pending path before base temporary total t) :
    (pushBuffer bytes).Meets t fun _ t' =>
      Pending path before base temporary (total ++ bytes) t' := by
  obtain ⟨contents, hholding, rfl⟩ := h
  exact ⟨contents, hholding, (List.append_assoc _ _ _).symm⟩

/-- What is written to the `BufWriter` is in the file and in the buffer, unless a write failed. -/
theorem bufferedWriteAll_spec {total : List UInt8} (bytes : List UInt8) {t : List UInt8 × World}
    (h : Pending path before base temporary total t) :
    (bufferedWriteAll temporary bytes).Meets t fun r t' =>
      (r = .ok () → Pending path before base temporary (total ++ bytes) t') ∧
      HoldingSome path before base temporary t'.2 := by
  unfold bufferedWriteAll
  apply Meets.read_bind
  dsimp only
  split_ifs with hspare hlong
  · exact (pushBuffer_spec bytes h).mono fun r t' h => ⟨fun _ => h, h.some⟩
  -- The buffer is empty here: it has been flushed, or its whole capacity was spare.
  · have hflush : (onlyIf (decide (bufferCapacity - t.1.length < bytes.length))
        (flushBuffer temporary t.1.length)).Meets t fun r t' =>
          Pending path before base temporary total t' ∧ (r = .ok () → t'.1 = []) := by
      apply Meets.onlyIf
      · exact fun _ => flushBuffer_spec _ h le_rfl
      · intro hfits
        have hfits := of_decide_eq_false hfits
        refine ⟨h, fun _ => List.length_eq_zero_iff.1 ?_⟩
        have hpos : 0 < bufferCapacity := by decide
        omega
    -- The bytes go to the file behind what was flushed, past the buffer.
    apply hflush.bind
    · rintro _ ⟨buffer, s⟩ ⟨⟨contents, hholding, htotal⟩, hempty⟩
      obtain rfl : buffer = [] := hempty rfl
      obtain rfl : contents = total := by simpa using htotal
      apply Meets.lift
      apply (writeAll_spec _ hholding le_rfl).mono
      rintro r s' ⟨hok, hsome⟩
      exact ⟨fun hr => ⟨_, hok hr, List.append_nil _⟩, hsome⟩
    · exact fun e t' h => ⟨fun h => (by cases h), h.1.some⟩
  -- A short write goes into the buffer, behind what is left there.
  · have hflush : (onlyIf (decide (bufferCapacity - t.1.length < bytes.length))
        (flushBuffer temporary t.1.length)).Meets t fun _ t' =>
          Pending path before base temporary total t' := by
      apply Meets.onlyIf
      · exact fun _ => (flushBuffer_spec _ h le_rfl).mono fun _ _ h => h.1
      · exact fun _ => h
    apply hflush.bind
    · exact fun _ t' h => (pushBuffer_spec bytes h).mono fun r t'' h => ⟨fun _ => h, h.some⟩
    · exact fun e t' h => ⟨fun h => (by cases h), h.some⟩

/-- What the callback writes is in the file and in the buffer, unless a write failed. -/
theorem writeChunks_spec {total : List UInt8} (chunks : List (List UInt8))
    {t : List UInt8 × World} (h : Pending path before base temporary total t) :
    (writeChunks temporary chunks).Meets t fun r t' =>
      (r = .ok () → Pending path before base temporary (total ++ chunks.flatten) t') ∧
      HoldingSome path before base temporary t'.2 := by
  induction chunks generalizing total t with
  | nil => exact ⟨fun _ => by simpa [writeChunks, ok] using h, h.some⟩
  | cons chunk chunks ih =>
    apply (bufferedWriteAll_spec chunk h).bind
    · intro _ t' h
      rw [List.flatten_cons, ← List.append_assoc]
      exact ih (h.1 rfl)
    · exact fun e t' h => ⟨fun h => (by cases h), h.2⟩

/-- A flush that succeeds has everything in the file. -/
theorem flush_spec {total : List UInt8} {t : List UInt8 × World}
    (h : Pending path before base temporary total t) :
    (flush temporary).Meets t fun r t' =>
      Pending path before base temporary total t' ∧ (r = .ok () → t'.1 = []) := by
  unfold flush
  apply Meets.read_bind
  apply (flushBuffer_spec _ h le_rfl).bind
  · rintro _ ⟨buffer, s⟩ ⟨⟨contents, hholding, htotal⟩, hempty⟩
    apply Meets.lift
    apply ask_spec (c := .flush temporary)
    · have hlogged := Holding.steady s (.flush temporary) true trivial hholding
      exact fun _ _ => ⟨⟨contents, hlogged, htotal⟩, fun _ => hempty rfl⟩
    · have hlogged := Holding.steady s (.flush temporary) false trivial hholding
      exact fun e => ⟨⟨contents, hlogged, htotal⟩, fun h => by cases h⟩
  · exact fun e t' h => ⟨h.1, fun h => by cases h⟩

/-- What is left in the buffer when it is dropped does not matter. -/
theorem dropBuffer_spec {t : List UInt8 × World} (h : HoldingSome path before base temporary t.2) :
    (dropBuffer temporary).Meets t fun _ t' => HoldingSome path before base temporary t'.2 := by
  obtain ⟨contents, hholding⟩ := h
  have hpending : Pending path before base temporary (contents ++ t.1) t :=
    ⟨contents, hholding, rfl⟩
  exact (flushBuffer_spec _ hpending le_rfl).mono fun _ _ h => h.1.some

/-- The complete contents are in the file, unless something failed. -/
theorem writeBuffered_spec {ε : Type} (fromIo : ErrorKind → ε) (callback : Callback ε)
    (h : Holding path before base temporary [] s) :
    (writeBuffered fromIo temporary callback).Meets s fun r s' =>
      (r = .ok () → Holding path before base temporary callback.contents s') ∧
      HoldingSome path before base temporary s' := by
  apply Meets.withLocal (Q := fun r t => (r = .ok () → t.1 = [] ∧
    Holding path before base temporary callback.contents t.2) ∧
      HoldingSome path before base temporary t.2)
  · have hstart : Pending path before base temporary [] ([], s) := ⟨[], h, rfl⟩
    have hchunks := writeChunks_spec callback.chunks hstart
    apply (Meets.adapt_unit (f := fromIo) hchunks).bind
    · rintro _ t ⟨hpending, -⟩
      have hpending : Pending path before base temporary callback.contents t := hpending rfl
      -- The callback may end with an error of its own.
      apply (Meets.result callback.result).bind
      · rintro _ t' rfl
        apply Meets.adapt_unit
        apply (flush_spec hpending).mono
        rintro r ⟨buffer, s'⟩ ⟨⟨contents, hholding, htotal⟩, hempty⟩
        refine ⟨fun hr => ?_, contents, hholding⟩
        obtain rfl : buffer = [] := hempty hr
        obtain rfl : contents = callback.contents := by simpa using htotal
        exact ⟨rfl, hholding⟩
      · rintro e t' rfl
        exact ⟨fun h => (by cases h), hpending.some⟩
    · exact fun e t h => ⟨fun h => (by cases h), h.2⟩
  · rintro r ⟨buffer, s'⟩ ⟨hok, hsome⟩
    cases r with
    | ok u =>
      obtain ⟨rfl, hholding⟩ := hok rfl
      exact ⟨fun _ => hholding, _, hholding⟩
    | error e => exact (dropBuffer_spec hsome).mono fun _ _ h => ⟨fun h => (by cases h), h⟩

/-- The mode of the temporary file is set. -/
theorem setMode_spec (mode : UInt32) (h : Holding path before base temporary contents s) :
    (setPermissions temporary mode).Meets s fun _ s' =>
      Holding path before base temporary contents s' := by
  obtain ⟨mode', hentry⟩ := h.entry
  apply call_spec
  · intro n a entries hresult
    simp only [hentry] at hresult
    obtain ⟨-, rfl⟩ := Prod.mk.inj (Except.ok.inj hresult)
    exact h.update contents mode (.setPermissions temporary) trivial
  · exact fun e => Holding.steady s (.setPermissions temporary) false trivial h

end DaemonFramework.Files
