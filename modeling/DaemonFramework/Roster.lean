import Mathlib.Data.List.Basic

/-!
# Participants in a list

A system with any number of participants keeps them in a list in the order of their arrival, and a
step changes the entry of one of them. `countP_set_add` says how the number of those with a property
changes, and `withdraw` how the list without one participant changes: the later ones have moved up,
so what was at `i` is at `renumber r i`.
-/

namespace DaemonFramework.Roster

variable {α : Type*} {l : List α} {a b : α} {i r : ℕ}

/-- The number of entries with a property, when one entry changes. -/
theorem countP_set_add (p : α → Bool) (hi : l[i]? = some a) (b : α) :
    (l.set i b).countP p + (p a).toNat = l.countP p + (p b).toNat := by
  obtain ⟨hlt, rfl⟩ := List.getElem?_eq_some_iff.1 hi
  have hpos : p l[i] = true → 0 < l.countP p := fun hp =>
    List.countP_pos_iff.2 ⟨l[i], List.getElem_mem hlt, hp⟩
  rw [List.countP_set hlt]
  cases ha : p l[i] with
  | false => cases p b <;> simp
  | true =>
    have hcount : 0 < l.countP p := hpos ha
    cases p b <;> simp <;> omega

/-- The number of entries with a property, when one entry changes in other respects. -/
theorem countP_set_of_eq (p : α → Bool) (hi : l[i]? = some a) (hab : p a = p b) :
    (l.set i b).countP p = l.countP p := by
  have hcount := countP_set_add p hi b
  rw [hab] at hcount
  omega

/-- The number of entries with a property, when an entry is added. -/
theorem countP_append_singleton (p : α → Bool) (l : List α) (b : α) :
    (l ++ [b]).countP p = l.countP p + (p b).toNat := by
  rw [List.countP_append, List.countP_singleton]
  cases p b <;> rfl

/-- Modifying an entry is setting it. -/
theorem modify_eq_set (hi : l[i]? = some a) (f : α → α) : l.modify i f = l.set i (f a) := by
  rw [List.modify_eq_set_getElem?, hi]
  rfl

/-- What changes with every entry holds after one has changed. -/
theorem forall_mem_set {P : α → Prop} (h : ∀ x ∈ l, P x) (hb : P b) : ∀ x ∈ l.set i b, P x := by
  intro x hx
  rcases List.mem_or_eq_of_mem_set hx with hx | rfl
  · exact h x hx
  · exact hb

/-- What holds of every entry holds after one has been modified. -/
theorem forall_mem_modify {P : α → Prop} (h : ∀ x ∈ l, P x) {f : α → α}
    (hf : ∀ x, l[i]? = some x → P (f x)) : ∀ x ∈ l.modify i f, P x := by
  cases hi : l[i]? with
  | none =>
    rw [List.modify_eq_self (List.getElem?_eq_none_iff.1 hi)]
    exact h
  | some a =>
    rw [modify_eq_set hi]
    exact forall_mem_set h (hf a hi)

/-- What holds of every entry holds after one has been added. -/
theorem forall_mem_append_singleton {P : α → Prop} (h : ∀ x ∈ l, P x) (hb : P b) :
    ∀ x ∈ l ++ [b], P x := by
  intro x hx
  rcases List.mem_append.1 hx with hx | hx
  · exact h x hx
  · rw [List.mem_singleton.1 hx]
    exact hb

/-- An entry other than the one that changes is still there. -/
theorem mem_set_of_mem {x : α} (hi : l[i]? = some a) (hx : x ∈ l) (b : α) :
    x = a ∨ x ∈ l.set i b := by
  obtain ⟨k, hk⟩ := List.mem_iff_getElem?.1 hx
  by_cases hik : i = k
  · subst hik
    exact .inl (Option.some.inj (hk.symm.trans hi))
  · exact .inr (List.mem_iff_getElem?.2 ⟨k, by rw [List.getElem?_set_ne hik, hk]⟩)

/-- After one entry has changed, an entry is as before or the changed one. -/
theorem getElem?_set_cases {k : ℕ} {x : α} (h : (l.set i b)[k]? = some x) :
    l[k]? = some x ∨ b = x := by
  by_cases hik : i = k
  · subst hik
    have hlt : i < l.length := by simpa using (List.getElem?_eq_some_iff.1 h).1
    rw [List.getElem?_set_self hlt] at h
    exact .inr (Option.some.inj h)
  · rw [List.getElem?_set_ne hik] at h
    exact .inl h

/-- After an entry has been added, an entry is an old one or the added one. -/
theorem getElem?_append_singleton_cases {k : ℕ} {x : α} (h : (l ++ [b])[k]? = some x) :
    l[k]? = some x ∨ b = x := by
  rw [List.getElem?_append] at h
  split_ifs at h with hlt
  · exact .inl h
  · exact .inr (List.mem_singleton.1 (List.mem_of_getElem? h)).symm

/-- The number of a participant after `r` was left out. -/
def renumber (r i : ℕ) : ℕ := if i < r then i else i - 1

/-- The others keep their entries. -/
theorem getElem?_withdraw (h : i ≠ r) : (l.eraseIdx r)[renumber r i]? = l[i]? := by
  unfold renumber
  rw [List.getElem?_eraseIdx]
  by_cases hlt : i < r
  · rw [if_pos hlt, if_pos hlt]
  · have hpred : i - 1 + 1 = i := by omega
    rw [if_neg hlt, if_neg (by omega), hpred]

/-- A change to another participant is made to the list without one as well. -/
theorem set_withdraw (h : i ≠ r) (b : α) :
    (l.set i b).eraseIdx r = (l.eraseIdx r).set (renumber r i) b := by
  unfold renumber
  split_ifs with hlt
  · exact List.eraseIdx_set_gt hlt
  · exact List.eraseIdx_set_lt (by omega)

/-- A participant that arrives later arrives in the list without one as well. -/
theorem append_withdraw (h : r < l.length) (b : α) :
    (l ++ [b]).eraseIdx r = l.eraseIdx r ++ [b] :=
  List.eraseIdx_append_of_lt_length h [b]

end DaemonFramework.Roster
