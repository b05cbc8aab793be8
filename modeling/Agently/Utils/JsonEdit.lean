import Agently.Lib.Edit
import Agently.Utils.Json

/-! # Editing parts of a JSON value

Dictionaries that code rewrites in place: under a key, in each value, in each item. -/

namespace Agently.Utils.Json

open Agently.Lib

universe u v

abbrev JsonEdit (ε : Type u) (μ : Type v) := Edit ε μ Json

variable {ε : Type u} {μ : Type v} [AddMonoid μ]

def setKey (j : Json) (k : String) (v : Json) : Json :=
  match j with
  | .obj kvs => .obj (Dict.set kvs k v)
  | j => j

def atKey (k : String) (f : JsonEdit ε μ) : JsonEdit ε μ := fun j =>
  match j.get? k with
  | none => .ok (j, 0)
  | some v =>
    match f v with
    | .error e => .error e
    | .ok (w, m) => .ok (setKey j k w, m)

def atKeys : List (String × JsonEdit ε μ) → JsonEdit ε μ
  | [] => Edit.skip
  | (k, f) :: rest => Edit.seq (atKey k f) (atKeys rest)

def atEntry (f : JsonEdit ε μ) : Edit ε μ (String × Json) := fun p =>
  match f p.2 with
  | .error e => .error e
  | .ok (w, m) => .ok ((p.1, w), m)

def atValues (f : JsonEdit ε μ) : JsonEdit ε μ
  | .obj kvs =>
    match Edit.each (atEntry f) kvs with
    | .error e => .error e
    | .ok (lvs, m) => .ok (.obj lvs, m)
  | j => .ok (j, 0)

def atItems (f : JsonEdit ε μ) : JsonEdit ε μ
  | .arr xs =>
    match Edit.each f xs with
    | .error e => .error e
    | .ok (ys, m) => .ok (.arr ys, m)
  | j => .ok (j, 0)

variable {k : String}

theorem get?_setKey_of_ne (j : Json) {l : String} (v : Json) (h : k ≠ l) :
    (setKey j k v).get? l = j.get? l := by
  cases j with
  | obj kvs => exact Dict.get?_set_of_ne kvs v h
  | _ => rfl

variable {j : Json}

theorem get?_setKey_self {u : Json} (v : Json) (h : j.get? k = some u) :
    (setKey j k v).get? k = some v := by
  cases j with
  | obj kvs => exact Dict.get?_set_self kvs k v
  | _ => cases h

theorem setKey_same {v : Json} (h : j.get? k = some v) :
    setKey j k v = j := by
  cases j with
  | obj kvs => exact congrArg Json.obj (Dict.set_of_get? h)
  | _ => cases h

variable {f : JsonEdit ε μ} {i : Json} {m : μ}

theorem atKey_eq_ok :
    atKey k f j = .ok (i, m) ↔
      (j.get? k = none ∧ i = j ∧ m = 0) ∨
        ∃ v w, j.get? k = some v ∧ f v = .ok (w, m) ∧ i = setKey j k w := by
  unfold atKey
  cases hj : j.get? k with
  | none => simp [eq_comm]
  | some v =>
    cases hf : f v with
    | error e => simp [hf]
    | ok p =>
      obtain ⟨w, n⟩ := p
      simp only [hf, reduceCtorEq, false_and, false_or, Except.ok.injEq, Prod.mk.injEq,
        Option.some.injEq]
      constructor
      · rintro ⟨rfl, rfl⟩
        exact ⟨v, w, rfl, hf, rfl⟩
      · rintro ⟨v', w', rfl, h, rfl⟩
        rw [hf] at h
        obtain ⟨rfl, rfl⟩ := Prod.mk.inj (Except.ok.inj h)
        exact ⟨rfl, rfl⟩

theorem get?_atKey_of_ne {l : String}
    (h : atKey k f j = .ok (i, m)) (hne : k ≠ l) : i.get? l = j.get? l := by
  rcases atKey_eq_ok.mp h with ⟨-, rfl, -⟩ | ⟨v, w, -, -, rfl⟩
  · rfl
  · exact get?_setKey_of_ne j w hne

theorem atKey_idempotent (hf : f.Idempotent) :
    (atKey k f).Idempotent := by
  intro j i m h
  rcases atKey_eq_ok.mp h with ⟨hn, rfl, rfl⟩ | ⟨v, w, hv, hw, rfl⟩
  · exact h
  · have hg := get?_setKey_self w hv
    exact atKey_eq_ok.mpr (.inr ⟨w, w, hg, hf v w m hw, (setKey_same hg).symm⟩)

theorem atKey_of_get?_eq
    (h : atKey k f j = .ok (j, m)) (hg : i.get? k = j.get? k) : atKey k f i = .ok (i, m) := by
  rcases atKey_eq_ok.mp h with ⟨hn, -, rfl⟩ | ⟨v, w, hv, hw, he⟩
  · exact atKey_eq_ok.mpr (.inl ⟨hg.trans hn, rfl, rfl⟩)
  · have hjw : j.get? k = some w := by
      rw [he]
      exact get?_setKey_self w hv
    have hvw : v = w := Option.some.inj (hv.symm.trans hjw)
    subst hvw
    have hi : i.get? k = some v := hg.trans hv
    exact atKey_eq_ok.mpr (.inr ⟨v, v, hi, hw, (setKey_same hi).symm⟩)

variable {es : List (String × JsonEdit ε μ)}

theorem get?_atKeys_of_not_mem {l : String}
    (h : atKeys es j = .ok (i, m)) (hl : l ∉ es.map Prod.fst) :
    i.get? l = j.get? l := by
  induction es generalizing j m with
  | nil =>
    obtain ⟨rfl, -⟩ := Prod.mk.inj (Except.ok.inj h)
    rfl
  | cons e es ih =>
    obtain ⟨k, f⟩ := e
    have hl' : l ≠ k ∧ l ∉ es.map Prod.fst := by simpa using hl
    obtain ⟨y, m₁, m₂, h₁, h₂, -⟩ := Edit.seq_eq_ok.mp h
    rw [ih h₂ hl'.2, get?_atKey_of_ne h₁ (Ne.symm hl'.1)]

theorem atKeys_idempotent (hn : (es.map Prod.fst).Nodup)
    (hf : ∀ e ∈ es, e.2.Idempotent) : (atKeys es).Idempotent := by
  induction es with
  | nil => exact Edit.skip_idempotent
  | cons e es ih =>
    obtain ⟨k, f⟩ := e
    have hn' : k ∉ es.map Prod.fst ∧ (es.map Prod.fst).Nodup := List.nodup_cons.mp hn
    have hk : f.Idempotent := hf (k, f) List.mem_cons_self
    refine Edit.seq_idempotent (atKey_idempotent hk)
      (ih hn'.2 (List.forall_mem_cons.mp hf).2) ?_
    intro y z m n hy hz
    exact atKey_of_get?_eq hy (get?_atKeys_of_not_mem hz hn'.1)

theorem get?_atKeys_of_mem {v : Json} (hn : (es.map Prod.fst).Nodup) (hm : (k, f) ∈ es)
    (h : atKeys es j = .ok (i, m)) (hv : j.get? k = some v) :
    ∃ w n, f v = .ok (w, n) ∧ i.get? k = some w := by
  induction es generalizing j m with
  | nil => simp at hm
  | cons e es ih =>
    obtain ⟨l, g⟩ := e
    have hn' : l ∉ es.map Prod.fst ∧ (es.map Prod.fst).Nodup := List.nodup_cons.mp hn
    obtain ⟨y, m₁, m₂, h₁, h₂, -⟩ := Edit.seq_eq_ok.mp h
    rcases List.mem_cons.mp hm with he | hm
    · obtain ⟨rfl, rfl⟩ := Prod.mk.inj he
      rcases atKey_eq_ok.mp h₁ with ⟨hnone, -, -⟩ | ⟨u, w, hu, hw, rfl⟩
      · rw [hv] at hnone
        cases hnone
      · have hvu : v = u := Option.some.inj (hv.symm.trans hu)
        subst hvu
        refine ⟨w, m₁, hw, ?_⟩
        rw [get?_atKeys_of_not_mem h₂ hn'.1]
        exact get?_setKey_self w hv
    · have hlk : l ≠ k := by
        intro e
        exact hn'.1 (e ▸ List.mem_map_of_mem hm)
      refine ih hn'.2 hm h₂ ?_
      rw [get?_atKey_of_ne h₁ hlk]
      exact hv

omit [AddMonoid μ] in
theorem atEntry_eq_ok {p q : String × Json} :
    atEntry f p = .ok (q, m) ↔ q.1 = p.1 ∧ f p.2 = .ok (q.2, m) := by
  unfold atEntry
  cases hf : f p.2 with
  | error e => simp
  | ok r =>
    obtain ⟨w, n⟩ := r
    obtain ⟨k, x⟩ := q
    simp only [Except.ok.injEq, Prod.mk.injEq]
    constructor
    · rintro ⟨⟨rfl, rfl⟩, rfl⟩
      exact ⟨rfl, rfl, rfl⟩
    · rintro ⟨rfl, rfl, rfl⟩
      exact ⟨⟨rfl, rfl⟩, rfl⟩

omit [AddMonoid μ] in
theorem atEntry_idempotent (hf : f.Idempotent) : (atEntry f).Idempotent := by
  intro p q m h
  obtain ⟨-, hq⟩ := atEntry_eq_ok.mp h
  exact atEntry_eq_ok.mpr ⟨rfl, hf p.2 q.2 m hq⟩

theorem atValues_eq_ok {kvs : List (String × Json)} :
    atValues f (.obj kvs) = .ok (i, m) ↔
      ∃ lvs, Edit.each (atEntry f) kvs = .ok (lvs, m) ∧ i = .obj lvs := by
  simp only [atValues]
  cases he : Edit.each (atEntry f) kvs with
  | error e => simp
  | ok p =>
    obtain ⟨lvs, n⟩ := p
    constructor
    · intro h
      obtain ⟨rfl, rfl⟩ := Prod.mk.inj (Except.ok.inj h)
      exact ⟨lvs, rfl, rfl⟩
    · rintro ⟨lvs', h, rfl⟩
      obtain ⟨rfl, rfl⟩ := Prod.mk.inj (Except.ok.inj h)
      rfl

theorem atValues_idempotent (hf : f.Idempotent) : (atValues f).Idempotent := by
  intro j i m h
  cases j with
  | obj kvs =>
    obtain ⟨lvs, he, rfl⟩ := atValues_eq_ok.mp h
    exact atValues_eq_ok.mpr
      ⟨lvs, Edit.each_idempotent (atEntry_idempotent hf) kvs lvs m he, rfl⟩
  | _ =>
    obtain ⟨rfl, rfl⟩ := Prod.mk.inj (Except.ok.inj h)
    rfl

theorem atItems_idempotent (hf : f.Idempotent) : (atItems f).Idempotent := by
  intro j i m h
  cases j with
  | arr xs =>
    simp only [atItems] at h
    cases he : Edit.each f xs with
    | error e =>
      rw [he] at h
      cases h
    | ok p =>
      obtain ⟨ys, n⟩ := p
      rw [he] at h
      obtain ⟨rfl, rfl⟩ := Prod.mk.inj (Except.ok.inj h)
      simp only [atItems, Edit.each_idempotent hf xs ys n he]
  | _ =>
    obtain ⟨rfl, rfl⟩ := Prod.mk.inj (Except.ok.inj h)
    rfl

theorem get?_each {kvs lvs : List (String × Json)} (h : Edit.each (atEntry f) kvs = .ok (lvs, m)) :
    (Dict.get? kvs k = none ∧ Dict.get? lvs k = none) ∨
      ∃ v w n, Dict.get? kvs k = some v ∧ f v = .ok (w, n) ∧ Dict.get? lvs k = some w := by
  induction kvs generalizing lvs m with
  | nil =>
    obtain ⟨rfl, -⟩ := Prod.mk.inj (Except.ok.inj h)
    exact .inl ⟨rfl, rfl⟩
  | cons p rest ih =>
    obtain ⟨q, zs, m₁, m₂, h₁, h₂, rfl, -⟩ := Edit.each_cons_eq_ok.mp h
    obtain ⟨l, x⟩ := p
    obtain ⟨l', y⟩ := q
    obtain ⟨hl, hy⟩ := atEntry_eq_ok.mp h₁
    simp only at hl hy
    subst hl
    by_cases hk : l' = k
    · subst hk
      exact .inr ⟨x, y, m₁, Dict.get?_cons_self l' x rest, hy, Dict.get?_cons_self l' y zs⟩
    · rw [Dict.get?_cons, Dict.get?_cons, if_neg hk, if_neg hk]
      exact ih h₂

theorem get?_atValues {v : Json} (h : atValues f j = .ok (i, m)) (hv : j.get? k = some v) :
    ∃ w n, f v = .ok (w, n) ∧ i.get? k = some w := by
  cases j with
  | obj kvs =>
    obtain ⟨lvs, he, rfl⟩ := atValues_eq_ok.mp h
    rcases get?_each (k := k) he with ⟨hn, -⟩ | ⟨u, w, n, hu, hw, hg⟩
    · have hs : Dict.get? kvs k = some v := hv
      rw [hs] at hn
      cases hn
    · have huv : u = v := Option.some.inj (hu.symm.trans hv)
      subst huv
      exact ⟨w, n, hw, hg⟩
  | _ => cases hv

end Agently.Utils.Json
