import Mathlib.Logic.Basic

/-!
# Programs that may fail

A `Fallible` program changes a state and returns a value or an error. What it has changed before an
error remains changed, and `onError` is the cleanup that then runs.

`Meets m s Q` says that `Q` holds of the result and the state that the program leaves when it starts
in `s`. Each way to put programs together has its rule, which leaves a goal for each of its parts.
-/

namespace DaemonFramework

/-- A program on states `σ` with errors `ε` and values `α`. -/
def Fallible (σ ε α : Type) : Type := σ → Except ε α × σ

namespace Fallible

variable {σ τ ε ε' α β : Type}

/-- The program does nothing but return a value. -/
def ok (a : α) : Fallible σ ε α := fun s => (.ok a, s)

/-- The program does nothing but fail. -/
def fail (e : ε) : Fallible σ ε α := fun s => (.error e, s)

/-- The program does nothing but return a value or fail. -/
def result (r : Except ε α) : Fallible σ ε α := fun s => (r, s)

/-- One program after another that has not failed. -/
def bind (m : Fallible σ ε α) (f : α → Fallible σ ε β) : Fallible σ ε β := fun s =>
  match m s with
  | (.ok a, s') => f a s'
  | (.error e, s') => (.error e, s')

instance : Monad (Fallible σ ε) where
  pure := ok
  bind := bind

/-- The state that the program is in. -/
def read : Fallible σ ε σ := fun s => (.ok s, s)

/-- Put the program in another state. -/
def write (s : σ) : Fallible σ ε Unit := fun _ => (.ok (), s)

/-- A program whose failure is no failure of the whole. -/
def observe (m : Fallible σ ε α) : Fallible σ ε' (Except ε α) := fun s => (.ok (m s).1, (m s).2)

/-- A program whose errors are those of a larger one. -/
def adapt (f : ε → ε') (m : Fallible σ ε α) : Fallible σ ε' α := fun s =>
  ((m s).1.mapError f, (m s).2)

/-- A program that leaves the first part of the state alone. -/
def lift (m : Fallible σ ε α) : Fallible (τ × σ) ε α := fun s => ((m s.2).1, (s.1, (m s.2).2))

/-- A program that is run only under a condition. -/
def onlyIf (c : Bool) (m : Fallible σ ε Unit) : Fallible σ ε Unit := if c then m else ok ()

/-- A program with a first part of the state of its own, which `drop` gives up at the end; what
comes of that is ignored. -/
def withLocal (t : τ) (m : Fallible (τ × σ) ε α) (drop : Fallible (τ × σ) ε' β) : Fallible σ ε α :=
  fun s => ((m (t, s)).1, (drop (m (t, s)).2).2.2)

/-- A program with a cleanup for its failure; the failure of the cleanup is ignored. -/
def onError (m : Fallible σ ε α) (cleanup : Fallible σ ε' β) : Fallible σ ε α := fun s =>
  match m s with
  | (.ok a, s') => (.ok a, s')
  | (.error e, s') => (.error e, (cleanup s').2)

/-- `Q` holds of what the program returns and of the state it leaves. -/
def Meets (m : Fallible σ ε α) (s : σ) (Q : Except ε α → σ → Prop) : Prop := Q (m s).1 (m s).2

namespace Meets

variable {m : Fallible σ ε α} {s : σ} {Q : Except ε α → σ → Prop}

/-- What holds of the outcome may be weakened. -/
theorem mono (h : m.Meets s Q) {R : Except ε α → σ → Prop} (hQR : ∀ r s, Q r s → R r s) :
    m.Meets s R :=
  hQR _ _ h

/-- What holds of a run. -/
theorem of_eq (h : m.Meets s Q) {r : Except ε α} {s' : σ} (hrun : m s = (r, s')) : Q r s' := by
  unfold Meets at h
  rw [hrun] at h
  exact h

/-- A value. -/
theorem pure {a : α} (h : Q (.ok a) s) : (Pure.pure a : Fallible σ ε α).Meets s Q := h

/-- A value or a failure leaves the state alone. -/
theorem result (r : Except ε α) : (result r : Fallible σ ε α).Meets s fun _ s' => s' = s := rfl

/-- One program after another. -/
theorem bind {f : α → Fallible σ ε β} {R : Except ε β → σ → Prop} (h : m.Meets s Q)
    (hok : ∀ a s', Q (.ok a) s' → (f a).Meets s' R)
    (herror : ∀ e s', Q (.error e) s' → R (.error e) s') : (m >>= f).Meets s R := by
  rcases hm : m s with ⟨r, s'⟩
  have hQ := h.of_eq hm
  show R (Fallible.bind m f s).1 (Fallible.bind m f s).2
  cases r with
  | ok a =>
    simp only [Fallible.bind, hm]
    exact hok a s' hQ
  | error e =>
    simp only [Fallible.bind, hm]
    exact herror e s' hQ

/-- A program that depends on the state. -/
theorem read_bind {f : σ → Fallible σ ε β} {R : Except ε β → σ → Prop} (h : (f s).Meets s R) :
    (read >>= f).Meets s R := h

/-- A program in another state. -/
theorem write_bind {t : σ} {f : Unit → Fallible σ ε β} {R : Except ε β → σ → Prop}
    (h : (f ()).Meets t R) : (write t >>= f).Meets s R := h

/-- One program after another, whether or not the first one has failed. -/
theorem observe_bind {f : Except ε α → Fallible σ ε' β} {R : Except ε' β → σ → Prop}
    (h : m.Meets s Q) (hf : ∀ r s', Q r s' → (f r).Meets s' R) : (m.observe >>= f).Meets s R :=
  hf _ _ h

/-- A program whose errors are adapted. -/
theorem adapt {f : ε → ε'} {R : Except ε' α → σ → Prop}
    (h : m.Meets s fun r s => R (r.mapError f) s) : (m.adapt f).Meets s R := h

/-- A program whose errors are adapted, before another. -/
theorem adapt_bind {f : ε → ε'} {g : α → Fallible σ ε' β} {R : Except ε' β → σ → Prop}
    (h : m.Meets s Q) (hok : ∀ a s', Q (.ok a) s' → (g a).Meets s' R)
    (herror : ∀ e s', Q (.error e) s' → R (.error (f e)) s') : ((m.adapt f) >>= g).Meets s R := by
  apply bind (Q := fun r s' => ∃ r', r = r'.mapError f ∧ Q r' s')
  · exact adapt (h.mono fun r s' hr => ⟨r, rfl, hr⟩)
  · rintro a s' ⟨r, hr, hQ⟩
    cases r with
    | ok b =>
      obtain rfl : a = b := Except.ok.inj hr
      exact hok a s' hQ
    | error e => cases hr
  · rintro e s' ⟨r, hr, hQ⟩
    cases r with
    | ok b => cases hr
    | error e' =>
      obtain rfl : e = f e' := Except.error.inj hr
      exact herror e' s' hQ

/-- A program whose errors are adapted succeeds when the program itself does. -/
theorem adapt_unit {m : Fallible σ ε Unit} {f : ε → ε'} {P E : σ → Prop}
    (h : m.Meets s fun r s' => (r = .ok () → P s') ∧ E s') :
    (m.adapt f).Meets s fun r s' => (r = .ok () → P s') ∧ E s' := by
  apply adapt
  apply h.mono
  rintro r s' ⟨hok, hall⟩
  refine ⟨fun hr => hok ?_, hall⟩
  cases r with
  | ok u => rfl
  | error e => cases hr

/-- A program on a part of the state. -/
theorem lift {t : τ} {R : Except ε α → τ × σ → Prop} (h : m.Meets s fun r s => R r (t, s)) :
    (m.lift : Fallible (τ × σ) ε α).Meets (t, s) R := h

/-- A program that is run only under a condition. -/
theorem onlyIf {c : Bool} {m : Fallible σ ε Unit} {Q : Except ε Unit → σ → Prop}
    (h : c = true → m.Meets s Q) (hskip : c = false → Q (.ok ()) s) : (onlyIf c m).Meets s Q := by
  cases c with
  | true => exact h rfl
  | false => exact hskip rfl

/-- A program with a state of its own. -/
theorem withLocal {t : τ} {m : Fallible (τ × σ) ε α} {drop : Fallible (τ × σ) ε' β}
    {Q : Except ε α → τ × σ → Prop} {R : Except ε α → σ → Prop} (h : m.Meets (t, s) Q)
    (hdrop : ∀ r s', Q r s' → drop.Meets s' fun _ s'' => R r s''.2) :
    (withLocal t m drop).Meets s R :=
  hdrop _ _ h

/-- A program with a cleanup. -/
theorem onError {cleanup : Fallible σ ε' β} {R : Except ε α → σ → Prop} (h : m.Meets s Q)
    (hok : ∀ a s', Q (.ok a) s' → R (.ok a) s')
    (herror : ∀ e s', Q (.error e) s' → cleanup.Meets s' fun _ s'' => R (.error e) s'') :
    (m.onError cleanup).Meets s R := by
  rcases hm : m s with ⟨r, s'⟩
  have hQ := h.of_eq hm
  unfold Meets Fallible.onError
  cases r with
  | ok a =>
    rw [hm]
    exact hok a s' hQ
  | error e =>
    rw [hm]
    exact herror e s' hQ

end Meets

/-- What holds of the state before the program holds after it, whether it fails or not. -/
def Keeps (m : Fallible σ ε α) (P : σ → Prop) : Prop := ∀ s, P s → m.Meets s fun _ s' => P s'

namespace Keeps

variable {m : Fallible σ ε α} {P : σ → Prop}

/-- A value. -/
theorem ok {a : α} : (ok a : Fallible σ ε α).Keeps P := fun _ h => h

/-- A failure. -/
theorem fail {e : ε} : (fail e : Fallible σ ε α).Keeps P := fun _ h => h

/-- One program after another. -/
theorem bind {f : α → Fallible σ ε β} (h : m.Keeps P) (hf : ∀ a, (f a).Keeps P) :
    (m >>= f).Keeps P :=
  fun s hs => (h s hs).bind (fun a s' hs' => hf a s' hs') fun _ _ hs' => hs'

/-- A value that is changed. -/
theorem map {f : α → β} (h : m.Keeps P) : (f <$> m).Keeps P := h.bind fun _ => ok

/-- A program whose failure is observed. -/
theorem observe (h : m.Keeps P) : (observe m : Fallible σ ε' (Except ε α)).Keeps P :=
  fun s hs => h s hs

/-- A program whose errors are adapted. -/
theorem adapt {f : ε → ε'} (h : m.Keeps P) : (m.adapt f).Keeps P := fun s hs => h s hs

/-- A program that is run only under a condition. -/
theorem onlyIf {c : Bool} {m : Fallible σ ε Unit} (h : m.Keeps P) : (onlyIf c m).Keeps P :=
  fun s hs => .onlyIf (fun _ => h s hs) fun _ => hs

end Keeps

end Fallible

end DaemonFramework
