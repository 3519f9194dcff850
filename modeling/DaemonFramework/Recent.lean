import Mathlib.Data.List.Nodup

/-!
# A bounded memory of distinct items

`Recent α n` lists at most `n` distinct items, oldest first. `remember` adds an item that is not
there yet, and forgets the oldest one when the list is full. With `n = 0` nothing is ever
remembered.
-/

namespace DaemonFramework

/-- At most `n` distinct items, oldest first. -/
structure Recent (α : Type*) (n : ℕ) where
  /-- The items, oldest first. -/
  items : List α
  /-- No item is listed twice. -/
  nodup : items.Nodup
  /-- There are at most `n` items. -/
  length_le : items.length ≤ n

namespace Recent

variable {α : Type*} {n : ℕ}

/-- The memory that holds nothing. -/
def empty : Recent α n := ⟨[], List.nodup_nil, Nat.zero_le n⟩

/-- The items once the oldest one has made room for another. -/
def makeRoom (n : ℕ) (items : List α) : List α :=
  if n ≤ items.length then items.tail else items

/-- Making room only forgets. -/
theorem makeRoom_sublist (n : ℕ) (items : List α) : (makeRoom n items).Sublist items := by
  unfold makeRoom
  split_ifs
  · exact List.tail_sublist items
  · exact List.Sublist.refl items

/-- After making room there is room for one more item. -/
theorem makeRoom_length_lt (items : List α) (hn : n ≠ 0) (h : items.length ≤ n) :
    (makeRoom n items).length < n := by
  unfold makeRoom
  split_ifs
  · rw [List.length_tail]
    omega
  · omega

variable [DecidableEq α]

/-- Remember an item, and forget the oldest one when there is no room for it. -/
def remember (r : Recent α n) (a : α) : Recent α n :=
  if h : n = 0 ∨ a ∈ r.items then r
  else
    { items := makeRoom n r.items ++ [a]
      nodup := by
        have hsub := makeRoom_sublist n r.items
        refine List.nodup_append.2 ⟨hsub.nodup r.nodup, List.nodup_singleton a, ?_⟩
        rintro b hb c hc rfl
        exact h (.inr (List.mem_singleton.1 hc ▸ hsub.subset hb))
      length_le := by
        have hlt := makeRoom_length_lt r.items (fun hn => h (.inl hn)) r.length_le
        rw [List.length_append, List.length_singleton]
        omega }

/-- Nothing changes when the item is there already, or when there is no room for any. -/
theorem remember_of_mem (r : Recent α n) {a : α} (h : n = 0 ∨ a ∈ r.items) : r.remember a = r :=
  dif_pos h

/-- A new item comes last. -/
theorem items_remember (r : Recent α n) {a : α} (h : ¬(n = 0 ∨ a ∈ r.items)) :
    (r.remember a).items = makeRoom n r.items ++ [a] := by
  rw [remember, dif_neg h]

/-- Only the remembered item is new. -/
theorem mem_of_mem_remember (r : Recent α n) {a b : α} (h : b ∈ (r.remember a).items) :
    b ∈ r.items ∨ b = a := by
  by_cases ha : n = 0 ∨ a ∈ r.items
  · rw [r.remember_of_mem ha] at h
    exact .inl h
  · rw [r.items_remember ha] at h
    exact (List.mem_append.1 h).imp (fun hb => (makeRoom_sublist n r.items).subset hb)
      List.mem_singleton.1

/-- What was just remembered is there, when there is room for anything. -/
theorem mem_remember_self (r : Recent α n) (a : α) (hn : n ≠ 0) : a ∈ (r.remember a).items := by
  by_cases h : n = 0 ∨ a ∈ r.items
  · rw [r.remember_of_mem h]
    exact h.resolve_left hn
  · rw [r.items_remember h]
    exact List.mem_append_right _ (List.mem_singleton_self a)

/-- An item is not forgotten while fewer than `n` items have come after it, the new one included. -/
theorem exists_items_remember (r : Recent α n) {a b : α} {pre post : List α}
    (hitems : r.items = pre ++ b :: post) (ha : a ∉ r.items) (hfew : post.length + 1 < n) :
    ∃ pre', (r.remember a).items = pre' ++ b :: (post ++ [a]) := by
  have hnew : ¬(n = 0 ∨ a ∈ r.items) := by
    rintro (hn | hmem)
    · omega
    · exact ha hmem
  rw [r.items_remember hnew, makeRoom]
  split_ifs with hfull
  -- The list is full, so something older than `b` makes room.
  · have hpre : pre ≠ [] := by
      rintro rfl
      rw [hitems, List.nil_append, List.length_cons] at hfull
      omega
    refine ⟨pre.tail, ?_⟩
    rw [hitems, List.tail_append_of_ne_nil hpre]
    simp
  · exact ⟨pre, by simp [hitems]⟩

end Recent

end DaemonFramework
