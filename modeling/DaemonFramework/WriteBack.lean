import Mathlib.Data.List.Nodup

/-!
# A cell that is written back

A cell holds the last value written to it, but what has reached stable storage lags behind: a sync
brings everything there, and where the power is lost, any of the pending writes may have reached it,
and the last of these is what the cell then holds.

`history` lists all values ever written, in order and each once. `Follows` says that the cell only
ever goes through it forwards, and `Settled` that a value can no longer be lost: only it or a later
one can come back.
-/

namespace DaemonFramework

variable {α : Type*}

/-- A cell with the value in stable storage and the writes that are pending. -/
structure WriteBack (α : Type*) where
  /-- The value in stable storage. -/
  stable : α
  /-- The values written since, in order. -/
  pending : List α

namespace WriteBack

/-- All values that the cell may hold after the power is lost, in the order of their writes. -/
def trail (cell : WriteBack α) : List α := cell.stable :: cell.pending

/-- The value that the cell holds. -/
def current (cell : WriteBack α) : α := cell.pending.getLast?.getD cell.stable

/-- A value is written. -/
def write (cell : WriteBack α) (a : α) : WriteBack α := { cell with pending := cell.pending ++ [a] }

/-- Everything is brought to stable storage. -/
def sync (cell : WriteBack α) : WriteBack α := ⟨cell.current, []⟩

/-- The power is lost, and of the pending writes these have reached stable storage. -/
def lose (cell : WriteBack α) (kept : List α) : WriteBack α :=
  ⟨kept.getLast?.getD cell.stable, []⟩

variable {history : List α} {cell : WriteBack α} {a b c : α} {kept : List α}

/-- The cell holds the last value of its trail. -/
theorem getLast?_trail : cell.trail.getLast? = some cell.current := List.getLast?_cons

/-- A cell holds what was written last. -/
@[simp] theorem current_write : (cell.write a).current = a := by
  unfold current write
  rw [List.getLast?_concat, Option.getD_some]

/-- What the cell may hold after a write. -/
theorem trail_write : (cell.write a).trail = cell.trail ++ [a] := rfl

/-- What a cell holds may come back. -/
theorem current_mem_trail : cell.current ∈ cell.trail := List.mem_of_getLast? getLast?_trail

/-- The last of some values is one of them. -/
theorem singleton_sublist_of_getLast? {values : List α} (h : values.getLast? = some a) :
    [a].Sublist values := by
  obtain ⟨init, rfl⟩ := List.getLast?_eq_some_iff.1 h
  exact List.sublist_append_right init [a]

/-- What a cell holds after a loss of power is the last of what was kept. -/
theorem getLast?_kept : (cell.stable :: kept).getLast? = some (cell.lose kept).stable :=
  List.getLast?_cons

/-- The cell goes through the history forwards. -/
structure Follows (history : List α) (cell : WriteBack α) : Prop where
  /-- No value was written twice. -/
  nodup : history.Nodup
  /-- What the cell may hold is in the order of the history. -/
  trail : cell.trail.Sublist history

namespace Follows

/-- A new value is written. -/
theorem write (h : Follows history cell) (ha : a ∉ history) :
    Follows (history ++ [a]) (cell.write a) where
  nodup := by
    rw [← List.concat_eq_append]
    exact h.nodup.concat ha
  trail := by
    rw [trail_write]
    exact h.trail.append (List.Sublist.refl [a])

/-- A sync. -/
theorem sync (h : Follows history cell) : Follows history cell.sync where
  nodup := h.nodup
  trail := (singleton_sublist_of_getLast? getLast?_trail).trans h.trail

/-- What is left of the trail when the power is lost. -/
theorem kept_sublist (h : Follows history cell) (hkept : kept.Sublist cell.pending) :
    (cell.stable :: kept).Sublist history :=
  (hkept.cons_cons cell.stable).trans h.trail

/-- A loss of power. -/
theorem lose (h : Follows history cell) (hkept : kept.Sublist cell.pending) :
    Follows history (cell.lose kept) where
  nodup := h.nodup
  trail := (singleton_sublist_of_getLast? getLast?_kept).trans (h.kept_sublist hkept)

/-- A cell holds a value of the history. -/
theorem current_mem (h : Follows history cell) : cell.current ∈ history :=
  h.trail.subset current_mem_trail

end Follows

/-! ## What is not lost -/

variable [DecidableEq α]

/-- One value was written before the other, or they are the same. -/
def NotBefore (history : List α) (a b : α) : Prop :=
  a ∈ history ∧ b ∈ history ∧ history.idxOf a ≤ history.idxOf b

namespace NotBefore

/-- Every value is the same as itself. -/
theorem refl (h : a ∈ history) : NotBefore history a a := ⟨h, h, Nat.le_refl _⟩

/-- The order of writes is transitive. -/
theorem trans (h : NotBefore history a b) (h' : NotBefore history b c) : NotBefore history a c :=
  ⟨h.1, h'.2.1, Nat.le_trans h.2.2 h'.2.2⟩

/-- Later writes leave the order as it is. -/
theorem append (h : NotBefore history a b) (later : List α) : NotBefore (history ++ later) a b := by
  refine ⟨List.mem_append_left _ h.1, List.mem_append_left _ h.2.1, ?_⟩
  rw [List.idxOf_append_of_mem h.1, List.idxOf_append_of_mem h.2.1]
  exact h.2.2

/-- Only the first value of all was not written after the first one. -/
theorem eq_first (h : NotBefore (a :: history) b a) : b = a := by
  obtain ⟨-, -, hle⟩ := h
  by_contra hne
  rw [List.idxOf_cons_self, List.idxOf_cons_ne _ (Ne.symm hne)] at hle
  omega

/-- Values that stand one behind the other in the history were written in this order. -/
theorem of_sublist (hnodup : history.Nodup) (h : [a, b].Sublist history) :
    NotBefore history a b := by
  have ha : a ∈ history := h.subset List.mem_cons_self
  have hb : b ∈ history := h.subset (List.mem_cons_of_mem _ List.mem_cons_self)
  refine ⟨ha, hb, ?_⟩
  induction history with
  | nil => cases ha
  | cons first rest ih =>
    obtain ⟨hfirst, hrest⟩ := List.nodup_cons.1 hnodup
    cases h with
    | cons _ h =>
      have ha' : a ∈ rest := h.subset List.mem_cons_self
      have hb' : b ∈ rest := h.subset (List.mem_cons_of_mem _ List.mem_cons_self)
      have hle := ih hrest h ha' hb'
      rw [List.idxOf_cons_ne _ (by rintro rfl; exact hfirst ha'),
        List.idxOf_cons_ne _ (by rintro rfl; exact hfirst hb')]
      omega
    | cons_cons _ h =>
      rw [List.idxOf_cons_self]
      exact Nat.zero_le _

/-- The last of some values in the order of the history was not written before any of them. -/
theorem of_getLast? (hnodup : history.Nodup) {values : List α} (h : values.Sublist history)
    (ha : a ∈ values) (hb : values.getLast? = some b) : NotBefore history a b := by
  obtain ⟨init, rfl⟩ := List.getLast?_eq_some_iff.1 hb
  rcases List.mem_append.1 ha with ha | ha
  · have hpair : [a, b].Sublist (init ++ [b]) :=
      (List.singleton_sublist.2 ha).append (List.Sublist.refl [b])
    exact of_sublist hnodup (hpair.trans h)
  · obtain rfl := List.mem_singleton.1 ha
    exact refl (h.subset (List.mem_append_right _ ha))

end NotBefore

/-- A value was written, and it or a later one may come back whatever happens. -/
def Standing (history : List α) (cell : WriteBack α) (a : α) : Prop :=
  ∃ b ∈ cell.trail, NotBefore history a b

/-- A value was written, and it or a later one is in stable storage. -/
def Settled (history : List α) (cell : WriteBack α) (a : α) : Prop :=
  NotBefore history a cell.stable

/-- The cell holds a value that was not written before one that stands. -/
theorem Standing.current (h : Standing history cell a) (hfollows : Follows history cell) :
    NotBefore history a cell.current := by
  obtain ⟨b, hb, hle⟩ := h
  exact hle.trans (.of_getLast? hfollows.nodup hfollows.trail hb getLast?_trail)

/-- A value that is written stands. -/
theorem standing_write : Standing (history ++ [a]) (cell.write a) a := by
  refine ⟨a, ?_, .refl (List.mem_append_right _ (List.mem_singleton_self a))⟩
  rw [trail_write]
  exact List.mem_append_right _ (List.mem_singleton_self a)

/-- What stands goes on standing when another value is written. -/
theorem Standing.write (h : Standing history cell a) (b : α) :
    Standing (history ++ [b]) (cell.write b) a := by
  obtain ⟨c, hc, hle⟩ := h
  refine ⟨c, ?_, hle.append [b]⟩
  rw [trail_write]
  exact List.mem_append_left _ hc

/-- What stands is settled by a sync. -/
theorem Standing.sync (h : Standing history cell a) (hfollows : Follows history cell) :
    Settled history cell.sync a :=
  h.current hfollows

namespace Settled

/-- What is settled stands. -/
theorem standing (h : Settled history cell a) : Standing history cell a :=
  ⟨cell.stable, List.mem_cons_self, h⟩

/-- What is settled stays so when another value is written. -/
theorem write (h : Settled history cell a) (b : α) :
    Settled (history ++ [b]) (cell.write b) a :=
  NotBefore.append h [b]

/-- What is settled stays so when the power is lost. -/
theorem lose (h : Settled history cell a) (hfollows : Follows history cell)
    (hkept : kept.Sublist cell.pending) : Settled history (cell.lose kept) a :=
  NotBefore.trans h (.of_getLast? hfollows.nodup (hfollows.kept_sublist hkept)
    List.mem_cons_self getLast?_kept)

end Settled

end WriteBack

end DaemonFramework
