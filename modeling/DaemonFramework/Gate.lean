import Mathlib.Data.List.Basic

/-!
# Gates

A `Gate` stands before a sink that may not be fed yet. While it is closed it holds what is pushed
into it; releasing it passes everything it held on, in order, and from then on items pass at once.

`held_run` is conservation: what has come out, followed by what is still held, is what went in.
`run_closed` says that nothing comes out before the gate is released.
-/

namespace DaemonFramework

/-- A gate before a sink. -/
inductive Gate (α : Type*) where
  /-- The gate holds these items, oldest first. -/
  | closed (held : List α)
  /-- The gate has been released. -/
  | opened

namespace Gate

/-- What can happen to a gate. -/
inductive Input (α : Type*) where
  | push (a : α)
  | release

variable {α : Type*}

/-- The items that a gate holds. -/
def held : Gate α → List α
  | closed items => items
  | opened => []

/-- One input: the gate after it, and the items that come out. -/
def step : Gate α → Input α → Gate α × List α
  | closed items, .push a => (closed (items ++ [a]), [])
  | closed items, .release => (opened, items)
  | opened, .push a => (opened, [a])
  | opened, .release => (opened, [])

/-- Some inputs in turn: the gate after them, and all the items that come out. -/
def run : Gate α → List (Input α) → Gate α × List α
  | g, [] => (g, [])
  | g, i :: is => (((g.step i).1.run is).1, (g.step i).2 ++ ((g.step i).1.run is).2)

/-- The items that are pushed by some inputs. -/
def pushed (inputs : List (Input α)) : List α :=
  inputs.filterMap fun
    | .push a => some a
    | .release => none

@[simp] theorem run_nil (g : Gate α) : g.run [] = (g, []) := rfl

@[simp] theorem run_singleton (g : Gate α) (i : Input α) : g.run [i] = g.step i := by
  unfold run
  simp

/-- Some inputs, and then others. -/
theorem run_append (g : Gate α) (is js : List (Input α)) :
    g.run (is ++ js) =
      (((g.run is).1.run js).1, (g.run is).2 ++ ((g.run is).1.run js).2) := by
  induction is generalizing g with
  | nil => simp
  | cons i is ih =>
    rw [List.cons_append, run, ih]
    simp only [run, List.append_assoc]

/-- No item is lost, repeated or reordered by one input. -/
theorem held_step (g : Gate α) (i : Input α) :
    (g.step i).2 ++ (g.step i).1.held = g.held ++ pushed [i] := by
  cases g <;> cases i <;> simp [step, held, pushed]

/-- No item is lost, repeated or reordered: what comes out, followed by what is still held, is what
was held at the start, followed by what was pushed. -/
theorem held_run (g : Gate α) (is : List (Input α)) :
    (g.run is).2 ++ (g.run is).1.held = g.held ++ pushed is := by
  induction is generalizing g with
  | nil => simp [pushed]
  | cons i is ih =>
    calc (g.run (i :: is)).2 ++ (g.run (i :: is)).1.held
        = (g.step i).2 ++ (((g.step i).1.run is).2 ++ ((g.step i).1.run is).1.held) := by
          simp only [run, List.append_assoc]
      _ = ((g.step i).2 ++ (g.step i).1.held) ++ pushed is := by
          rw [ih, List.append_assoc]
      _ = g.held ++ pushed (i :: is) := by
          rw [held_step, List.append_assoc, pushed, pushed, pushed, ← List.filterMap_append]
          rfl

/-- Nothing comes out of a closed gate before it is released. -/
theorem run_closed (items : List α) {is : List (Input α)} (h : .release ∉ is) :
    (closed items).run is = (closed (items ++ pushed is), []) := by
  induction is generalizing items with
  | nil => simp [pushed]
  | cons i is ih =>
    have hrest : Input.release ∉ is := fun hmem => h (List.mem_cons_of_mem _ hmem)
    cases i with
    | push a => simp [run, step, ih _ hrest, pushed]
    | release => exact absurd List.mem_cons_self h

end Gate

end DaemonFramework
