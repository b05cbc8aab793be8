import Mathlib.Data.List.Basic
import Mathlib.Data.List.Induction

/-! # Joining values by slot

Values arrive at slots one after another. A join holds the last value of each slot and fires
when every slot holds one; a firing takes all of them. A value that arrived is carried by the
first firing at or after its arrival, unless its slot was overwritten before. -/

namespace Agently.Lib.Joining

universe u v

variable {σ : Type u} {ν : Type v} [DecidableEq σ]

structure Entry (σ : Type u) (ν : Type v) where
  slot : σ
  value : ν
  fired : Bool

def offer (held : σ → Option ν) (slot : σ) (value : ν) : σ → Option ν :=
  fun s => if s = slot then some value else held s

def after (held : σ → Option ν) (e : Entry σ ν) : σ → Option ν :=
  if e.fired then fun _ => none else offer held e.slot e.value

def held (log : List (Entry σ ν)) : σ → Option ν := log.foldl after fun _ => none

theorem held_nil : held ([] : List (Entry σ ν)) = fun _ => none := rfl

theorem held_concat (log : List (Entry σ ν)) (e : Entry σ ν) :
    held (log ++ [e]) = after (held log) e := by
  simp [held, List.foldl_append]

/-- The arrival `i` is the last one of `s` up to `j`, and nothing fired from there until `j`. -/
structure Carried (log : List (Entry σ ν)) (s : σ) (i j : Nat) : Prop where
  le : i ≤ j
  slot : ∃ e : Entry σ ν, log[i]? = some e ∧ e.slot = s
  last : ∀ (k : Nat) (e : Entry σ ν), i < k → k ≤ j → log[k]? = some e → e.slot ≠ s
  unfired : ∀ (k : Nat) (e : Entry σ ν), i ≤ k → k < j → log[k]? = some e → e.fired = false

omit [DecidableEq σ] in
theorem Carried.eq_of_fired {log : List (Entry σ ν)} {s s' : σ} {i j j' : Nat} {e e' : Entry σ ν}
    (h : Carried log s i j) (h' : Carried log s' i j') (hj : log[j]? = some e)
    (hj' : log[j']? = some e') (he : e.fired = true) (he' : e'.fired = true) : j = j' := by
  rcases Nat.lt_trichotomy j j' with hlt | heq | hlt
  · have hn := h'.unfired j e h.le hlt hj
    rw [he] at hn
    cases hn
  · exact heq
  · have hn := h.unfired j' e' h'.le hlt hj'
    rw [he'] at hn
    cases hn

omit [DecidableEq σ] in
theorem getElem?_concat {log : List (Entry σ ν)} {e x : Entry σ ν} {k : Nat}
    (h : (log ++ [e])[k]? = some x) :
    (k < log.length ∧ log[k]? = some x) ∨ (k = log.length ∧ x = e) := by
  by_cases hk : k < log.length
  · rw [List.getElem?_append_left hk] at h
    exact .inl ⟨hk, h⟩
  · rw [List.getElem?_append_right (by omega)] at h
    obtain ⟨hlt, hx⟩ := List.getElem?_eq_some_iff.mp h
    have hz : k = log.length := by
      simp only [List.length_singleton] at hlt
      omega
    subst hz
    exact .inr ⟨rfl, by simpa using hx.symm⟩

theorem held_eq_some {log : List (Entry σ ν)} {s : σ} {v : ν} :
    held log s = some v ↔ ∃ (i : Nat) (e : Entry σ ν), log[i]? = some e ∧ e.slot = s ∧ e.value = v ∧
      (∀ (k : Nat) (x : Entry σ ν), i < k → log[k]? = some x → x.slot ≠ s) ∧
      ∀ (k : Nat) (x : Entry σ ν), i ≤ k → log[k]? = some x → x.fired = false := by
  induction log using List.reverseRecOn with
  | nil => simp [held_nil]
  | append_singleton log e ih =>
    have hlast : (log ++ [e])[log.length]? = some e := by simp
    rw [held_concat, after]
    constructor
    · intro h
      cases hf : e.fired with
      | true =>
        rw [hf, if_pos rfl] at h
        cases h
      | false =>
        rw [hf, if_neg (by simp), offer] at h
        by_cases hs : s = e.slot
        · rw [if_pos hs] at h
          refine ⟨log.length, e, hlast, hs.symm, Option.some.inj h, ?_, ?_⟩
          · intro k x hk hx
            rcases getElem?_concat hx with ⟨hlt, -⟩ | ⟨heq, -⟩ <;> omega
          · intro k x hk hx
            rcases getElem?_concat hx with ⟨hlt, -⟩ | ⟨-, rfl⟩
            · omega
            · exact hf
        · rw [if_neg hs] at h
          obtain ⟨i, x, hi, hslot, hval, hlater, hunfired⟩ := ih.mp h
          have hlt : i < log.length := (List.getElem?_eq_some_iff.mp hi).1
          refine ⟨i, x, by rw [List.getElem?_append_left hlt, hi], hslot, hval, ?_, ?_⟩
          · intro k y hk hy
            rcases getElem?_concat hy with ⟨-, hy⟩ | ⟨-, rfl⟩
            · exact hlater k y hk hy
            · exact Ne.symm hs
          · intro k y hk hy
            rcases getElem?_concat hy with ⟨-, hy⟩ | ⟨-, rfl⟩
            · exact hunfired k y hk hy
            · exact hf
    · rintro ⟨i, x, hi, hslot, hval, hlater, hunfired⟩
      have hile : i ≤ log.length := by
        rcases getElem?_concat hi with ⟨hlt, -⟩ | ⟨heq, -⟩ <;> omega
      have hf : e.fired = false := hunfired log.length e hile hlast
      rw [hf, if_neg (by simp), offer]
      rcases getElem?_concat hi with ⟨hlt, hi'⟩ | ⟨-, rfl⟩
      · have hne : ¬ s = e.slot := fun he => hlater log.length e hlt hlast he.symm
        rw [if_neg hne]
        refine ih.mpr ⟨i, x, hi', hslot, hval, ?_, ?_⟩
        · intro k y hk hy
          have hkl : k < log.length := (List.getElem?_eq_some_iff.mp hy).1
          exact hlater k y hk (by rw [List.getElem?_append_left hkl, hy])
        · intro k y hk hy
          have hkl : k < log.length := (List.getElem?_eq_some_iff.mp hy).1
          exact hunfired k y hk (by rw [List.getElem?_append_left hkl, hy])
      · rw [if_pos hslot.symm, hval]

theorem offer_held_eq_some {log : List (Entry σ ν)} {j : Nat} {e : Entry σ ν}
    (hj : log[j]? = some e) {s : σ} {v : ν} :
    offer (held (log.take j)) e.slot e.value s = some v ↔
      ∃ (i : Nat) (x : Entry σ ν), log[i]? = some x ∧ x.value = v ∧ Carried log s i j := by
  have hjl : j < log.length := (List.getElem?_eq_some_iff.mp hj).1
  have htake : ∀ {k : Nat} {x : Entry σ ν}, (log.take j)[k]? = some x ↔ k < j ∧ log[k]? = some x := by
    intro k x
    rw [List.getElem?_take]
    by_cases hk : k < j
    · simp [hk]
    · simp [hk]
  rw [offer]
  by_cases hs : s = e.slot
  · rw [if_pos hs]
    constructor
    · intro h
      refine ⟨j, e, hj, Option.some.inj h, Nat.le_refl j, ⟨e, hj, hs.symm⟩, ?_, ?_⟩
      · intro k x hk hkj
        omega
      · intro k x hk hkj
        omega
    · rintro ⟨i, x, hi, hv, hc⟩
      have hij : i = j := by
        rcases Nat.lt_or_eq_of_le hc.le with hlt | heq
        · exact absurd hs.symm (hc.last j e hlt (Nat.le_refl j) hj)
        · exact heq
      subst hij
      rw [hj] at hi
      rw [← hv, Option.some.inj hi]
  · rw [if_neg hs, held_eq_some]
    constructor
    · rintro ⟨i, x, hi, hslot, hval, hlater, hunfired⟩
      obtain ⟨hij, hi'⟩ := htake.mp hi
      refine ⟨i, x, hi', hval, Nat.le_of_lt hij, ⟨x, hi', hslot⟩, ?_, ?_⟩
      · intro k y hk hkj hy
        rcases Nat.lt_or_eq_of_le hkj with hlt | rfl
        · exact hlater k y hk (htake.mpr ⟨hlt, hy⟩)
        · rw [hj] at hy
          rw [← Option.some.inj hy]
          exact Ne.symm hs
      · intro k y hk hkj hy
        exact hunfired k y hk (htake.mpr ⟨hkj, hy⟩)
    · rintro ⟨i, x, hi, hv, hc⟩
      obtain ⟨y, hy, hslot⟩ := hc.slot
      rw [hi] at hy
      obtain rfl := Option.some.inj hy
      have hij : i < j := by
        rcases Nat.lt_or_eq_of_le hc.le with hlt | rfl
        · exact hlt
        · rw [hj] at hi
          rw [Option.some.inj hi] at hs
          exact absurd hslot.symm hs
      refine ⟨i, x, htake.mpr ⟨hij, hi⟩, hslot, hv, ?_, ?_⟩
      · intro k y hk hy'
        obtain ⟨hkj, hky⟩ := htake.mp hy'
        exact hc.last k y hk (Nat.le_of_lt hkj) hky
      · intro k y hk hy'
        obtain ⟨hkj, hky⟩ := htake.mp hy'
        exact hc.unfired k y hk hkj hky

end Agently.Lib.Joining
