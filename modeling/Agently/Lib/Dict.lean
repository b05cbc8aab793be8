import Mathlib.Data.List.Basic
import Mathlib.Data.List.Nodup

/-! # Insertion-ordered dictionaries

A dictionary is the list of its entries in insertion order. Setting a present key
keeps its place, setting a new one appends, deleting removes the key. -/

namespace Agently.Lib

universe u v w

abbrev Dict (κ : Type u) (ν : Type v) := List (κ × ν)

namespace Dict

variable {κ : Type u} {ν : Type v} {μ : Type w} [DecidableEq κ]

def get? : Dict κ ν → κ → Option ν
  | [], _ => none
  | (k', v) :: rest, k => if k' = k then some v else get? rest k

def set : Dict κ ν → κ → ν → Dict κ ν
  | [], k, v => [(k, v)]
  | (k', w) :: rest, k, v => if k' = k then (k', v) :: rest else (k', w) :: set rest k v

def del (d : Dict κ ν) (k : κ) : Dict κ ν := d.filter fun p => p.1 ≠ k

def keys (d : Dict κ ν) : List κ := d.map Prod.fst

def vals (d : Dict κ ν) : List ν := d.map Prod.snd

@[simp] theorem get?_nil (k : κ) : get? ([] : Dict κ ν) k = none := rfl

theorem get?_cons (k' : κ) (v : ν) (rest : Dict κ ν) (k : κ) :
    get? ((k', v) :: rest) k = if k' = k then some v else get? rest k := rfl

@[simp] theorem get?_cons_self (k : κ) (v : ν) (rest : Dict κ ν) :
    get? ((k, v) :: rest) k = some v := by
  rw [get?_cons, if_pos rfl]

@[simp] theorem get?_set_self (d : Dict κ ν) (k : κ) (v : ν) : (set d k v).get? k = some v := by
  induction d with
  | nil => exact get?_cons_self k v []
  | cons p rest ih =>
    obtain ⟨k', w⟩ := p
    by_cases hk : k' = k
    · rw [set, if_pos hk, get?_cons, if_pos hk]
    · rw [set, if_neg hk, get?_cons, if_neg hk, ih]

variable {k : κ}

theorem get?_set_of_ne (d : Dict κ ν) {j : κ} (v : ν) (h : k ≠ j) :
    (set d k v).get? j = d.get? j := by
  induction d with
  | nil => rw [set, get?_cons, if_neg h]
  | cons p rest ih =>
    obtain ⟨k', w⟩ := p
    by_cases hk : k' = k
    · have hj : k' ≠ j := fun e => h (hk.symm.trans e)
      rw [set, if_pos hk, get?_cons, get?_cons, if_neg hj, if_neg hj]
    · rw [set, if_neg hk, get?_cons, get?_cons, ih]

theorem get?_set (d : Dict κ ν) (k j : κ) (v : ν) :
    (set d k v).get? j = if k = j then some v else d.get? j := by
  by_cases h : k = j
  · subst h
    rw [get?_set_self, if_pos rfl]
  · rw [get?_set_of_ne d v h, if_neg h]

variable {d : Dict κ ν} {v : ν}

theorem set_of_get? (h : d.get? k = some v) : set d k v = d := by
  induction d with
  | nil => simp at h
  | cons p rest ih =>
    obtain ⟨k', w⟩ := p
    by_cases hk : k' = k
    · rw [get?_cons, if_pos hk] at h
      rw [set, if_pos hk, Option.some.inj h]
    · rw [get?_cons, if_neg hk] at h
      rw [set, if_neg hk, ih h]

@[simp] theorem get?_del_self (d : Dict κ ν) (k : κ) : (del d k).get? k = none := by
  induction d with
  | nil => rfl
  | cons p rest ih =>
    obtain ⟨k', w⟩ := p
    by_cases hk : k' = k
    · simpa [del, hk] using ih
    · simpa [del, hk, get?_cons] using ih

theorem get?_del_of_ne (d : Dict κ ν) {j : κ} (h : k ≠ j) : (del d k).get? j = d.get? j := by
  induction d with
  | nil => rfl
  | cons p rest ih =>
    obtain ⟨k', w⟩ := p
    by_cases hk : k' = k
    · have hj : k' ≠ j := fun e => h (hk.symm.trans e)
      simpa [del, hk, get?_cons, hj, h] using ih
    · have hkeep : del ((k', w) :: rest) k = (k', w) :: del rest k := by simp [del, hk]
      rw [hkeep, get?_cons, get?_cons, ih]

theorem get?_mapVals (f : ν → μ) (d : Dict κ ν) (k : κ) :
    get? (d.map fun p => (p.1, f p.2)) k = (d.get? k).map f := by
  induction d with
  | nil => rfl
  | cons p rest ih =>
    obtain ⟨k', v⟩ := p
    by_cases hk : k' = k
    · simp [hk]
    · simpa [get?_cons, hk] using ih

theorem set_map {α : Type w} (key : α → κ) (f : α → ν) {xs : List α} (hn : (xs.map key).Nodup)
    (hk : k ∈ xs.map key) (v : ν) :
    set (xs.map fun a => (key a, f a)) k v =
      xs.map fun a => (key a, if key a = k then v else f a) := by
  induction xs with
  | nil => simp at hk
  | cons a rest ih =>
    obtain ⟨ha, hrest⟩ := List.nodup_cons.mp hn
    rw [List.map_cons, List.map_cons, set]
    by_cases he : key a = k
    · rw [if_pos he, if_pos he]
      congr 1
      refine List.map_congr_left fun b hb => ?_
      have hb' : key b ≠ k := fun e => ha (by rw [he, ← e]; exact List.mem_map_of_mem hb)
      rw [if_neg hb']
    · rw [if_neg he, if_neg he, ih hrest]
      rcases List.mem_cons.mp hk with rfl | hk
      · exact absurd rfl he
      · exact hk

theorem get?_map {α : Type w} (key : α → κ) (f : α → ν) {xs : List α} (hn : (xs.map key).Nodup)
    {a : α} (ha : a ∈ xs) : get? (xs.map fun a => (key a, f a)) (key a) = some (f a) := by
  induction xs with
  | nil => simp at ha
  | cons b rest ih =>
    obtain ⟨hb, hrest⟩ := List.nodup_cons.mp hn
    rw [List.map_cons, get?_cons]
    rcases List.mem_cons.mp ha with rfl | ha
    · rw [if_pos rfl]
    · have hne : key b ≠ key a := fun e => hb (by rw [e]; exact List.mem_map_of_mem ha)
      rw [if_neg hne]
      exact ih hrest ha

theorem mem_of_get? (h : d.get? k = some v) : (k, v) ∈ d := by
  induction d with
  | nil => simp at h
  | cons p rest ih =>
    obtain ⟨k', w⟩ := p
    by_cases hk : k' = k
    · rw [get?_cons, if_pos hk] at h
      have hv : w = v := Option.some.inj h
      simp [hk, hv]
    · rw [get?_cons, if_neg hk] at h
      exact List.mem_cons_of_mem _ (ih h)

theorem mem_set_of_ne {e : κ × ν} (h : e ∈ d) (hne : e.1 ≠ k) :
    e ∈ set d k v := by
  induction d with
  | nil => cases h
  | cons p rest ih =>
    obtain ⟨j, w⟩ := p
    rw [set]
    rcases List.mem_cons.mp h with rfl | h
    · rw [if_neg hne]
      exact List.mem_cons_self
    · split
      · exact List.mem_cons_of_mem _ h
      · exact List.mem_cons_of_mem _ (ih h)

theorem mem_set {e : κ × ν} (h : e ∈ set d k v) :
    e = (k, v) ∨ e ∈ d := by
  induction d with
  | nil => exact .inl (List.mem_singleton.mp h)
  | cons p rest ih =>
    obtain ⟨k', w⟩ := p
    by_cases hk : k' = k
    · rw [set, if_pos hk] at h
      rcases List.mem_cons.mp h with h | h
      · exact .inl (hk ▸ h)
      · exact .inr (List.mem_cons_of_mem _ h)
    · rw [set, if_neg hk] at h
      rcases List.mem_cons.mp h with h | h
      · exact .inr (h ▸ List.mem_cons_self)
      · rcases ih h with h | h
        · exact .inl h
        · exact .inr (List.mem_cons_of_mem _ h)

theorem get?_eq_none_iff : d.get? k = none ↔ k ∉ d.keys := by
  induction d with
  | nil => simp [keys]
  | cons p rest ih =>
    obtain ⟨k', w⟩ := p
    by_cases hk : k' = k
    · simp [keys, hk]
    · have hk' : k ≠ k' := fun e => hk e.symm
      simpa [get?_cons, keys, hk, hk'] using ih

theorem get?_of_mem (hd : d.keys.Nodup) (h : (k, v) ∈ d) :
    d.get? k = some v := by
  induction d with
  | nil => simp at h
  | cons p rest ih =>
    obtain ⟨k', w⟩ := p
    have hn : k' ∉ keys rest ∧ (keys rest).Nodup := by simpa [keys] using hd
    rcases List.mem_cons.mp h with h | h
    · obtain ⟨rfl, rfl⟩ := Prod.mk.inj h
      simp
    · have hk : k' ≠ k := by
        intro e
        exact hn.1 (e ▸ List.mem_map_of_mem h)
      rw [get?_cons, if_neg hk]
      exact ih hn.2 h

theorem mem_keys_set {j : κ} : j ∈ (set d k v).keys ↔ j = k ∨ j ∈ d.keys := by
  induction d with
  | nil => simp [set, keys]
  | cons p rest ih =>
    obtain ⟨k', w⟩ := p
    by_cases hk : k' = k
    · simp [set, keys, hk]
    · have ih' : j ∈ List.map Prod.fst (set rest k v) ↔ j = k ∨ j ∈ List.map Prod.fst rest := ih
      simp only [set, keys, hk, if_false, List.map_cons, List.mem_cons, ih']
      tauto

theorem keys_set_of_mem (h : k ∈ d.keys) (v : ν) :
    (set d k v).keys = d.keys := by
  induction d with
  | nil => cases h
  | cons p rest ih =>
    obtain ⟨k', w⟩ := p
    by_cases hk : k' = k
    · rw [set, if_pos hk]
      rfl
    · have hrest : k ∈ keys rest := (List.mem_cons.mp h).resolve_left fun e => hk e.symm
      rw [set, if_neg hk]
      exact congrArg (k' :: ·) (ih hrest)

theorem keys_set_of_not_mem (h : k ∉ d.keys) (v : ν) :
    (set d k v).keys = d.keys ++ [k] := by
  induction d with
  | nil => rfl
  | cons e d ih =>
    obtain ⟨k', w⟩ := e
    have hk : ¬ k' = k := fun he => h (he ▸ List.mem_cons_self)
    have ht : k ∉ keys d := fun hm => h (List.mem_cons_of_mem _ hm)
    rw [set, if_neg hk]
    exact congrArg (k' :: ·) (ih ht)

theorem set_of_not_mem (h : k ∉ d.keys) (v : ν) :
    set d k v = d ++ [(k, v)] := by
  induction d with
  | nil => rfl
  | cons p rest ih =>
    obtain ⟨k', w⟩ := p
    obtain ⟨hk, hrest⟩ : k' ≠ k ∧ k ∉ Dict.keys rest := by
      constructor
      · rintro rfl
        exact h List.mem_cons_self
      · exact fun hm => h (List.mem_cons_of_mem _ hm)
    rw [set, if_neg hk, ih hrest]
    rfl

theorem nodup_keys_set (h : d.keys.Nodup) (k : κ) (v : ν) :
    (set d k v).keys.Nodup := by
  induction d with
  | nil => simp [set, keys]
  | cons p rest ih =>
    obtain ⟨k', w⟩ := p
    have hn : k' ∉ keys rest ∧ (keys rest).Nodup := by simpa [keys] using h
    by_cases hk : k' = k
    · simpa [set, keys, hk] using h
    · rw [set, if_neg hk]
      refine List.nodup_cons.mpr ⟨?_, ih hn.2⟩
      intro hm
      rcases mem_keys_set.mp hm with e | hm
      · exact hk e
      · exact hn.1 hm

theorem del_of_not_mem (h : k ∉ d.keys) : del d k = d := by
  apply List.filter_eq_self.mpr
  intro p hp
  rw [decide_eq_true_iff]
  rintro rfl
  exact h (List.mem_map_of_mem hp)

def merge (d update : Dict κ ν) : Dict κ ν := update.foldl (fun acc p => set acc p.1 p.2) d

theorem get?_merge_of_not_mem {update : Dict κ ν} (h : k ∉ keys update) :
    (merge d update).get? k = d.get? k := by
  induction update generalizing d with
  | nil => rfl
  | cons p rest ih =>
    have hk : k ≠ p.1 ∧ k ∉ keys rest := by simpa [keys] using h
    exact (ih hk.2).trans (get?_set_of_ne d p.2 (Ne.symm hk.1))

theorem get?_merge_of_mem {update : Dict κ ν} (hn : (keys update).Nodup) (h : k ∈ keys update) :
    (merge d update).get? k = update.get? k := by
  induction update generalizing d with
  | nil => cases h
  | cons p rest ih =>
    obtain ⟨hp, hrest⟩ := List.nodup_cons.mp hn
    by_cases hk : k ∈ keys rest
    · have hne : p.1 ≠ k := by
        rintro rfl
        exact hp hk
      rw [get?_cons, if_neg hne]
      exact ih hrest hk
    · have hself : k = p.1 := by
        rcases List.mem_cons.mp h with h | h
        · exact h
        · exact absurd h hk
      subst hself
      rw [get?_cons_self]
      exact (get?_merge_of_not_mem hk).trans (get?_set_self d p.1 p.2)

end Dict

end Agently.Lib
