import Mathlib.Data.List.Basic

/-!
# Tasks that wait

An asynchronous task waits, again and again, for something that others bring about, and goes on
from there. A `Resumption` is such a task as a tree: it is done, or it names the operation that it
waits for and says how it goes on with each answer. Who answers, and when, is not said, so several
tasks can run at once and in any order.

`timeout` lets a deadline end the waits of a task. A wait says how the task goes on when one of the
deadlines around it expires; the deadlines are numbered from the inside.

`Upholds I Q` is the rule of reasoning. Whatever the answers are, the task begins an operation only
where `I` allows it after what has happened so far, and `Q` holds of what has happened when it is
done. `Upholds.resume` is the step lemma, and the other rules follow the way a task is put together.
-/

namespace DaemonFramework

/-- How a wait ends. -/
inductive Wake (β : Type) where
  /-- The answer comes. -/
  | answered (a : β)
  /-- One of the deadlines around the wait expires. -/
  | expired (i : ℕ)
deriving DecidableEq

/-- A task that waits for operations `op` with answers of type `Ans op`. -/
inductive Resumption (Op : Type) (Ans : Op → Type) (α : Type) where
  /-- The task has ended. -/
  | done (a : α)
  /-- It waits for an operation, within a number of deadlines. -/
  | wait (op : Op) (deadlines : ℕ) (answered : Ans op → Resumption Op Ans α)
      (expired : Fin deadlines → Resumption Op Ans α)

namespace Resumption

variable {Op : Type} {Ans : Op → Type} {α β ε : Type}

/-- A wait that has ended. -/
structure Event (Op : Type) (Ans : Op → Type) where
  /-- What was waited for. -/
  op : Op
  /-- How the wait ended. -/
  wake : Wake (Ans op)

/-- A task that waits for one operation, without a deadline. -/
def perform (op : Op) : Resumption Op Ans (Ans op) := .wait op 0 .done Fin.elim0

/-- One task after another. -/
def bind (f : α → Resumption Op Ans β) : Resumption Op Ans α → Resumption Op Ans β
  | .done a => f a
  | .wait op n answered expired =>
    .wait op n (fun a => bind f (answered a)) fun i => bind f (expired i)

/-- One task after another that has not failed; a failure ends both. -/
def andThen (f : α → Resumption Op Ans (Except ε β)) (t : Resumption Op Ans (Except ε α)) :
    Resumption Op Ans (Except ε β) :=
  t.bind fun
    | .ok a => f a
    | .error e => .done (.error e)

/-- A task within a deadline, with nothing as its result if the deadline expires. -/
def timeout : Resumption Op Ans α → Resumption Op Ans (Option α)
  | .done a => .done (some a)
  | .wait op n answered expired =>
    .wait op (n + 1) (fun a => timeout (answered a)) fun i =>
      -- The new deadline is outside of those that are there.
      if h : i.val < n then timeout (expired ⟨i, h⟩) else .done none

/-- The operation that the task waits for. -/
def current : Resumption Op Ans α → Option Op
  | .done _ => none
  | .wait op _ _ _ => some op

/-- How the task goes on after a wait has ended so, if it waits for that and can end so. -/
def resume [DecidableEq Op] (e : Event Op Ans) : Resumption Op Ans α → Option (Resumption Op Ans α)
  | .done _ => none
  | .wait op n answered expired =>
    if h : e.op = op then
      match e.wake with
      | .answered a => some (answered (h ▸ a))
      | .expired i => if hi : i < n then some (expired ⟨i, hi⟩) else none
    else none

/-- A task can go on only from what it waits for. -/
theorem current_of_resume [DecidableEq Op] {e : Event Op Ans} {t t' : Resumption Op Ans α}
    (h : t.resume e = some t') : t.current = some e.op := by
  cases t with
  | done a => simp [resume] at h
  | wait op n answered expired =>
    simp only [resume] at h
    split_ifs at h with hop
    rw [hop]
    rfl

/-- The task begins operations only where `I` allows it, and `Q` holds when it is done. -/
def Upholds (I : List (Event Op Ans) → Op → Prop) (Q : List (Event Op Ans) → α → Prop) :
    Resumption Op Ans α → List (Event Op Ans) → Prop
  | .done a, past => Q past a
  | .wait op n answered expired, past =>
    I past op ∧ (∀ a, Upholds I Q (answered a) (past ++ [⟨op, .answered a⟩])) ∧
      ∀ i : Fin n, Upholds I Q (expired i) (past ++ [⟨op, .expired i⟩])

/-- Every operation of the past was begun where `I` allows it. -/
def Kept (I : List (Event Op Ans) → Op → Prop) (past : List (Event Op Ans)) : Prop :=
  ∀ before e after, past = before ++ e :: after → I before e.op

variable {I : List (Event Op Ans) → Op → Prop} {past : List (Event Op Ans)}

/-- Nothing has happened yet. -/
theorem Kept.nil : Kept I [] := fun before e after h => by simp at h

/-- One more operation that was allowed. -/
theorem Kept.concat {e : Event Op Ans} (h : Kept I past) (he : I past e.op) :
    Kept I (past ++ [e]) := by
  intro before e' after heq
  rcases List.eq_nil_or_concat' after with rfl | ⟨rest, last, rfl⟩
  · obtain ⟨rfl, hlast⟩ := List.append_inj' heq rfl
    obtain rfl : e = e' := by simpa using hlast
    exact he
  · rw [← List.cons_append, ← List.append_assoc] at heq
    obtain ⟨rfl, -⟩ := List.append_inj' heq rfl
    exact h before e' rest rfl

namespace Upholds

variable {Q : List (Event Op Ans) → α → Prop} {t t' : Resumption Op Ans α}

/-- The operation that the task waits for is allowed. -/
theorem current (h : t.Upholds I Q past) {op : Op} (hop : t.current = some op) : I past op := by
  cases t with
  | done a => cases hop
  | wait op' n answered expired =>
    obtain rfl : op' = op := Option.some.inj hop
    exact h.1

/-- A task goes on as it must, whatever it was waiting for. -/
theorem resume [DecidableEq Op] {e : Event Op Ans} (h : t.Upholds I Q past)
    (hr : t.resume e = some t') : t'.Upholds I Q (past ++ [e]) := by
  cases t with
  | done a => simp [Resumption.resume] at hr
  | wait op n answered expired =>
    obtain ⟨op', wake⟩ := e
    simp only [Resumption.resume] at hr
    split_ifs at hr with hop
    obtain rfl : op' = op := hop
    obtain ⟨-, hanswered, hexpired⟩ := h
    cases wake with
    | answered a =>
      obtain rfl : answered a = t' := Option.some.inj hr
      exact hanswered a
    | expired i =>
      simp only [Option.dite_none_right_eq_some, Option.some.injEq] at hr
      obtain ⟨hi, rfl⟩ := hr
      exact hexpired ⟨i, hi⟩

/-- One operation. -/
theorem perform {op : Op} {Q : List (Event Op Ans) → Ans op → Prop} (hop : I past op)
    (h : ∀ a, Q (past ++ [⟨op, .answered a⟩]) a) :
    (perform op : Resumption Op Ans (Ans op)).Upholds I Q past :=
  ⟨hop, h, fun i => i.elim0⟩

/-- One task after another. -/
theorem bind {f : α → Resumption Op Ans β} {R : List (Event Op Ans) → β → Prop}
    (h : t.Upholds I (fun past a => (f a).Upholds I R past) past) :
    (t.bind f).Upholds I R past := by
  induction t generalizing past with
  | done a => exact h
  | wait op n answered expired ihanswered ihexpired =>
    obtain ⟨hop, hanswered, hexpired⟩ := h
    exact ⟨hop, fun a => ihanswered a (hanswered a), fun i => ihexpired i (hexpired i)⟩

/-- What holds whenever a task is done may be weakened. -/
theorem mono {R : List (Event Op Ans) → α → Prop} (h : t.Upholds I Q past)
    (hQR : ∀ past a, Q past a → R past a) : t.Upholds I R past := by
  induction t generalizing past with
  | done a => exact hQR past a h
  | wait op n answered expired ihanswered ihexpired =>
    obtain ⟨hop, hanswered, hexpired⟩ := h
    exact ⟨hop, fun a => ihanswered a (hanswered a), fun i => ihexpired i (hexpired i)⟩

/-- One task after another that has not failed. -/
theorem andThen {t : Resumption Op Ans (Except ε α)} {f : α → Resumption Op Ans (Except ε β)}
    {Q : List (Event Op Ans) → Except ε α → Prop} {R : List (Event Op Ans) → Except ε β → Prop}
    (h : t.Upholds I Q past) (hok : ∀ past a, Q past (.ok a) → (f a).Upholds I R past)
    (herror : ∀ past e, Q past (.error e) → R past (.error e)) :
    (t.andThen f).Upholds I R past := by
  apply bind
  apply h.mono
  intro past r hr
  cases r with
  | ok a => exact hok past a hr
  | error e => exact herror past e hr

/-- A task within a deadline. If the deadline expires, only what was allowed has happened. -/
theorem timeout {R : List (Event Op Ans) → Option α → Prop}
    (h : t.Upholds I (fun past a => R past (some a)) past)
    (hnone : ∀ past op i, I past op → R (past ++ [⟨op, .expired i⟩]) none) :
    t.timeout.Upholds I R past := by
  induction t generalizing past with
  | done a => exact h
  | wait op n answered expired ihanswered ihexpired =>
    obtain ⟨hop, hanswered, hexpired⟩ := h
    refine ⟨hop, fun a => ihanswered a (hanswered a), fun i => ?_⟩
    by_cases hi : i.val < n
    · simp only [hi, dif_pos]
      exact ihexpired ⟨i, hi⟩ (hexpired ⟨i, hi⟩)
    · simp only [hi, dif_neg, not_false_eq_true]
      exact hnone past op i hop

/-- One operation within a deadline. -/
theorem timeout_perform {op : Op} {R : List (Event Op Ans) → Option (Ans op) → Prop}
    (hop : I past op) (hanswered : ∀ a, R (past ++ [⟨op, .answered a⟩]) (some a))
    (hexpired : R (past ++ [⟨op, .expired 0⟩]) none) :
    (Resumption.perform op : Resumption Op Ans (Ans op)).timeout.Upholds I R past := by
  refine ⟨hop, hanswered, fun i => ?_⟩
  obtain ⟨i, hi⟩ := i
  obtain rfl : i = 0 := by omega
  exact hexpired

end Upholds

end Resumption

end DaemonFramework
