import Mathlib.Data.List.Basic

/-!
# Records of a stream

A stream of items in which a separator ends each record: the records that are ended, and the rest
behind the last separator. Both are read off the whole stream at once; `terminated_append` and
`unterminated_append` take off one record, which is what a reader of the stream does.
-/

namespace DaemonFramework

variable {α : Type*} [DecidableEq α]

/-- The records that end with a separator, in order. -/
def terminated (sep : α) (stream : List α) : List (List α) := (stream.splitOn sep).dropLast

/-- What stands behind the last separator. -/
def unterminated (sep : α) (stream : List α) : List α := (stream.splitOn sep).getLastD []

/-- Without a separator no record ends. -/
theorem terminated_of_notMem {sep : α} {stream : List α} (h : sep ∉ stream) :
    terminated sep stream = [] := by
  unfold terminated
  rw [List.splitOn_eq_singleton h]
  rfl

/-- Without a separator everything stands behind the last one. -/
theorem unterminated_of_notMem {sep : α} {stream : List α} (h : sep ∉ stream) :
    unterminated sep stream = stream := by
  unfold unterminated
  rw [List.splitOn_eq_singleton h]
  rfl

/-- The first separator ends the first record. -/
theorem terminated_append {sep : α} {first : List α} (h : sep ∉ first) (stream : List α) :
    terminated sep (first ++ sep :: stream) = first :: terminated sep stream := by
  unfold terminated
  rw [List.splitOn_append_cons_self_of_not_mem h,
    List.dropLast_cons_of_ne_nil (List.splitOn_ne_nil sep stream)]

/-- The first record has no part in the rest behind the last separator. -/
theorem unterminated_append {sep : α} {first : List α} (h : sep ∉ first) (stream : List α) :
    unterminated sep (first ++ sep :: stream) = unterminated sep stream := by
  unfold unterminated
  rw [List.splitOn_append_cons_self_of_not_mem h]
  have hne := List.splitOn_ne_nil sep stream
  rw [List.getLastD_cons]
  cases hsplit : stream.splitOn sep with
  | nil => exact absurd hsplit hne
  | cons a l => rw [List.getLastD_cons, List.getLastD_cons]

end DaemonFramework
