import Mathlib.Order.WellFounded

/-! # Tables of results

A result is computed from the results of what lies before it. Two tables that compute their
results by the same function agree wherever both have one. -/

namespace Agently.Lib.Evaluation

universe u v

variable {α : Type u} {β : Type v}

/-- `step table a` looks at what lies before `a` and nothing else. -/
def Local (before : α → α → Prop) (step : (α → Option β) → α → Option β) : Prop :=
  ∀ p q a, (∀ b, before b a → p b = q b) → step p a = step q a

structure Computes (before : α → α → Prop) (step : (α → Option β) → α → Option β)
    (table : α → Option β) : Prop where
  computed : ∀ a v, table a = some v → step table a = some v
  complete : ∀ a v, table a = some v → ∀ b, before b a → ∃ w, table b = some w

theorem Computes.agree {before : α → α → Prop} {step : (α → Option β) → α → Option β}
    (wf : WellFounded before) (hl : Local before step) {p q : α → Option β}
    (hp : Computes before step p) (hq : Computes before step q) {a : α} {v w : β}
    (hv : p a = some v) (hw : q a = some w) : v = w := by
  induction a using wf.induction generalizing v w with
  | _ a ih =>
    have hbefore : ∀ b, before b a → p b = q b := by
      intro b hb
      obtain ⟨x, hx⟩ := hp.complete a v hv b hb
      obtain ⟨y, hy⟩ := hq.complete a w hw b hb
      rw [hx, hy, ih b hb hx hy]
    have hstep := hl p q a hbefore
    rw [hp.computed a v hv, hq.computed a w hw] at hstep
    exact Option.some.inj hstep

end Agently.Lib.Evaluation
