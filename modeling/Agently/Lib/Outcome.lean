import Mathlib.Init

/-! # What a raising action leaves

Actions over a state that may raise keep what they assigned before they raised. `KeepsOnError`
says that whatever is raised, the part `view` of the state is still `v`. -/

namespace Agently.Lib.Outcome

universe u

variable {ε σ α β : Type u} {π : Type u}

/-- If the action raises from `s`, the view of the state it leaves is `v`. -/
def KeepsOnError (view : σ → π) (v : π) (m : EStateM ε σ α) (s : σ) : Prop :=
  ∀ e t, m s = .error e t → view t = v

variable {m : EStateM ε σ α} {f : α → EStateM ε σ β} {s t : σ}

theorem bind_ok {a : α} (h : m s = .ok a t) : (m >>= f) s = f a t := by
  show EStateM.bind m f s = f a t
  simp only [EStateM.bind, h]

theorem bind_error {e : ε} (h : m s = .error e t) : (m >>= f) s = .error e t := by
  show EStateM.bind m f s = .error e t
  simp only [EStateM.bind, h]

theorem bind_get {f : σ → EStateM ε σ β} : (EStateM.get >>= f) s = f s s := rfl

theorem bind_modify {g : σ → σ} {f : PUnit → EStateM ε σ β} :
    ((modify g : EStateM ε σ PUnit) >>= f) s = f ⟨⟩ (g s) := rfl

variable {view : σ → π} {v : π}

theorem keeps_of_ok {a : α} (h : m s = .ok a t) :
    KeepsOnError view v m s := by
  intro e u hu
  rw [h] at hu
  cases hu

theorem keeps_error_iff {e : ε} (h : m s = .error e t) :
    KeepsOnError view v m s ↔ view t = v := by
  constructor
  · intro hk
    exact hk e t h
  · intro hv e' u hu
    rw [h] at hu
    cases hu
    exact hv

theorem keeps_bind_ok_iff {a : α}
    (h : m s = .ok a t) : KeepsOnError view v (m >>= f) s ↔ KeepsOnError view v (f a) t := by
  unfold KeepsOnError
  rw [bind_ok h]

theorem keeps_bind_error_iff {e : ε}
    (h : m s = .error e t) : KeepsOnError view v (m >>= f) s ↔ view t = v :=
  keeps_error_iff (bind_error h)

end Agently.Lib.Outcome
