import Agently.Utils.UpdateTwice

/-! # The view over a chain of layers

Source: `_merge_view` and `_get_inherited_view` of `utils/StateData.py`, over the values of the
layers. At each path the values of the layers come together as a list, the nearest first; a layer
whose nearer one has no dictionary on the way does not show. -/

namespace Agently.StateTree

open Agently.Lib

variable {α : Type} [DecidableEq α]

def itemsOf : Value α → List (Value α)
  | .leaf (.list ys) | .leaf (.set ys) | .leaf (.tuple ys) => ys
  | v => [v]

def mergeLeaf (held : Value α) : Leaf α → Except StateError (Value α)
  | .list xs => .ok (.leaf (.list ((itemsOf held).foldl appendNew xs)))
  | .set xs =>
    match addAll xs (itemsOf held) with
    | (zs, none) => .ok (.leaf (.set zs))
    | (_, some e) => .error e
  | l => .ok (.leaf l)

mutual

def mergeValue : Value α → Value α → Except StateError (Value α)
  | .leaf l, held => mergeLeaf held l
  | .dict kvs, .dict pvs =>
    match mergeEntries pvs kvs pvs with
    | .ok es => .ok (.dict es)
    | .error e => .error e
  | .dict kvs, .leaf _ => .ok (.dict kvs)

def mergeEntries (parent : Entries α) : Entries α → Entries α → Except StateError (Entries α)
  | [], result => .ok result
  | (k, v) :: rest, result =>
    match Dict.get? parent k with
    | none => mergeEntries parent rest (Dict.set result k v)
    | some held =>
      match mergeValue v held with
      | .ok v => mergeEntries parent rest (Dict.set result k v)
      | .error e => .error e

end

def mergeAll : Value α → List (Value α) → Except StateError (Value α)
  | v, [] => .ok v
  | v, held :: rest =>
    match mergeValue v held with
    | .ok v => mergeAll v rest
    | .error e => .error e

def viewFrom (result : Entries α) : List (Entries α) → Except StateError (Entries α)
  | [] => .ok result
  | layer :: rest =>
    match mergeEntries layer result layer with
    | .ok result => viewFrom result rest
    | .error e => .error e

def dictsOf (vs : List (Value α)) : List (Entries α) :=
  vs.filterMap fun
    | .dict kvs => some kvs
    | .leaf _ => none

def at? (k : Key α) (dicts : List (Entries α)) : List (Value α) :=
  dicts.filterMap fun kvs => Dict.get? kvs k

def valuesAt : List (Key α) → List (Value α) → List (Value α)
  | [], vs => vs
  | k :: p, .dict kvs :: rest => valuesAt p (at? k (kvs :: dictsOf rest))
  | _, _ => []

inductive Clash : List (Value α) → Prop
  | set {xs rest : List (Value α)} {v item : Value α} : v ∈ rest → item ∈ itemsOf v →
      hashable item = false → Clash (.leaf (.set xs) :: rest)
  | dict {kvs : Entries α} {rest : List (Value α)} (k : Key α) :
      Clash (at? k (kvs :: dictsOf rest)) → Clash (.dict kvs :: rest)

variable {xs : List (Value α)}

omit [DecidableEq α] in
theorem hashableAll_iff :
    hashableAll xs = true ↔ ∀ x ∈ xs, hashable x = true := by
  induction xs with
  | nil => simp [hashableAll]
  | cons x xs ih => rw [hashableAll, Bool.and_eq_true, ih, List.forall_mem_cons]

theorem hashable_foldl {ys : List (Value α)} (hx : ∀ x ∈ xs, hashable x = true)
    (hy : ∀ y ∈ ys, hashable y = true) : ∀ z ∈ ys.foldl appendNew xs, hashable z = true := by
  induction ys generalizing xs with
  | nil => exact hx
  | cons y ys ih =>
    apply ih _ fun z hz => hy z (List.mem_cons_of_mem y hz)
    intro z hz
    unfold appendNew at hz
    split at hz
    · exact hx z hz
    · obtain hz | hz := List.mem_append.mp hz
      · exact hx z hz
      · rw [List.mem_singleton.mp hz]
        exact hy y List.mem_cons_self

variable {kvs : Entries α}

omit [DecidableEq α] in
theorem wellFormedEntries_iff :
    WellFormedEntries kvs ↔ ∀ p ∈ kvs, WellFormed p.2 := by
  induction kvs with
  | nil => simp [WellFormedEntries]
  | cons p rest ih =>
    obtain ⟨k, v⟩ := p
    rw [WellFormedEntries, ih, List.forall_mem_cons]

variable {k : Key α} {v : Value α}

theorem wellFormed_of_get? (h : WellFormedEntries kvs)
    (hk : Dict.get? kvs k = some v) : WellFormed v :=
  wellFormedEntries_iff.mp h _ (Dict.mem_of_get? hk)

theorem wellFormedEntries_set (h : WellFormedEntries kvs) (k : Key α)
    (hv : WellFormed v) : WellFormedEntries (Dict.set kvs k v) := by
  apply wellFormedEntries_iff.mpr
  intro p hp
  obtain hp | hp := Dict.mem_set hp
  · rw [hp]
    exact hv
  · exact wellFormedEntries_iff.mp h p hp

variable {r : Value α}

theorem wellFormed_mergeLeaf {l : Leaf α} {held : Value α} (hl : WellFormed (.leaf l))
    (h : mergeLeaf held l = .ok r) : WellFormed r := by
  cases l with
  | set xs =>
    rw [mergeLeaf] at h
    cases hadd : addAll xs (itemsOf held) with
    | mk zs e =>
      rw [hadd] at h
      cases e with
      | some e => cases h
      | none =>
        cases h
        obtain ⟨hy, rfl⟩ := addAll_eq_none hadd
        exact hashableAll_iff.mpr (hashable_foldl (hashableAll_iff.mp hl) hy)
  | list xs =>
    cases h
    exact trivial
  | none => cases h; exact hl
  | str s => cases h; exact hl
  | atom a => cases h; exact hl
  | tuple xs => cases h; exact hl

variable {parent result es : Entries α}

theorem mergeEntries_cons_eq {rest : Entries α}
    (h : mergeEntries parent ((k, v) :: rest) result = .ok es) :
    ∃ m, mergeEntries parent rest (Dict.set result k m) = .ok es ∧
      (Dict.get? parent k = none ∧ m = v ∨
        ∃ held, Dict.get? parent k = some held ∧ mergeValue v held = .ok m) := by
  rw [mergeEntries] at h
  cases hk : Dict.get? parent k with
  | none =>
    rw [hk] at h
    exact ⟨v, h, .inl ⟨rfl, rfl⟩⟩
  | some held =>
    rw [hk] at h
    cases hm : mergeValue v held with
    | error e =>
      simp only [hm] at h
      cases h
    | ok m =>
      simp only [hm] at h
      exact ⟨m, h, .inr ⟨held, rfl, hm⟩⟩

theorem mergeValue_dict_eq {pvs : Entries α} (h : mergeValue (.dict kvs) (.dict pvs) = .ok r) :
    ∃ es, mergeEntries pvs kvs pvs = .ok es ∧ r = .dict es := by
  rw [mergeValue] at h
  cases hm : mergeEntries pvs kvs pvs with
  | error e =>
    rw [hm] at h
    cases h
  | ok es =>
    rw [hm] at h
    cases h
    exact ⟨es, rfl, rfl⟩

mutual

theorem wellFormed_mergeValue : (v : Value α) → {held r : Value α} → WellFormed v →
    WellFormed held → mergeValue v held = .ok r → WellFormed r
  | .leaf l, held, r, hv, _, h => by
      rw [mergeValue] at h
      exact wellFormed_mergeLeaf hv h
  | .dict kvs, .leaf l, r, hv, _, h => by
      rw [mergeValue] at h
      cases h
      exact hv
  | .dict kvs, .dict pvs, r, hv, hh, h => by
      obtain ⟨es, hes, rfl⟩ := mergeValue_dict_eq h
      exact wellFormed_mergeEntries kvs hv.2 hh.2 hh hes

theorem wellFormed_mergeEntries : (child : Entries α) → {parent result es : Entries α} →
    WellFormedEntries child → WellFormedEntries parent → WellFormed (.dict result) →
    mergeEntries parent child result = .ok es → WellFormed (.dict es)
  | [], parent, result, es, _, _, hr, h => by
      rw [mergeEntries] at h
      cases h
      exact hr
  | (k, v) :: rest, parent, result, es, hc, hp, hr, h => by
      obtain ⟨m, hrest, hm⟩ := mergeEntries_cons_eq h
      have hwf : WellFormed m := by
        obtain ⟨-, rfl⟩ | ⟨held, hk, hm⟩ := hm
        · exact hc.1
        · exact wellFormed_mergeValue v hc.1 (wellFormed_of_get? hp hk) hm
      exact wellFormed_mergeEntries rest hc.2 hp
        ⟨Dict.nodup_keys_set hr.1 k m, wellFormedEntries_set hr.2 k hwf⟩ hrest

end

variable {child : Entries α}

theorem get?_mergeEntries_of_not_mem
    (h : mergeEntries parent child result = .ok es) (hk : k ∉ Dict.keys child) :
    Dict.get? es k = Dict.get? result k := by
  induction child generalizing result with
  | nil =>
    rw [mergeEntries] at h
    cases h
    rfl
  | cons p rest ih =>
    obtain ⟨j, v⟩ := p
    have hne : j ≠ k := fun he => hk (by rw [he]; exact List.mem_cons_self)
    obtain ⟨m, hrest, -⟩ := mergeEntries_cons_eq h
    rw [ih hrest (fun hm => hk (List.mem_cons_of_mem _ hm)), Dict.get?_set_of_ne result m hne]

theorem get?_mergeEntries (hn : (Dict.keys child).Nodup)
    (h : mergeEntries parent child result = .ok es)
    (hk : Dict.get? child k = some v) : ∃ m, Dict.get? es k = some m ∧
      (Dict.get? parent k = none ∧ m = v ∨
        ∃ held, Dict.get? parent k = some held ∧ mergeValue v held = .ok m) := by
  induction child generalizing result with
  | nil => cases hk
  | cons p rest ih =>
    obtain ⟨j, w⟩ := p
    obtain ⟨hnot, hnodup⟩ := List.nodup_cons.mp hn
    obtain ⟨m, hrest, hm⟩ := mergeEntries_cons_eq h
    by_cases hj : j = k
    · subst hj
      rw [Dict.get?_cons_self] at hk
      cases hk
      exact ⟨m, by rw [get?_mergeEntries_of_not_mem hrest hnot, Dict.get?_set_self], hm⟩
    · rw [Dict.get?_cons, if_neg hj] at hk
      exact ih hnodup hrest hk

theorem mergeEntries_ok (hc : ∀ p ∈ child, ∀ held,
    Dict.get? parent p.1 = some held → ∃ m, mergeValue p.2 held = .ok m) (result : Entries α) :
    ∃ es, mergeEntries parent child result = .ok es := by
  induction child generalizing result with
  | nil => exact ⟨result, by rw [mergeEntries]⟩
  | cons p rest ih =>
    obtain ⟨k, v⟩ := p
    have hrest := ih (List.forall_mem_cons.mp hc).2
    rw [mergeEntries]
    cases hk : Dict.get? parent k with
    | none => exact hrest _
    | some held =>
      obtain ⟨m, hm⟩ := hc (k, v) List.mem_cons_self held hk
      simp only at hm
      simp only [hm]
      exact hrest _

def HoldsAt (es : Entries α) (k : Key α) : List (Value α) → Prop
  | [] => Dict.get? es k = none
  | v :: vs => ∃ m, mergeAll v vs = .ok m ∧ Dict.get? es k = some m

theorem at?_cons (k : Key α) (kvs : Entries α) (dicts : List (Entries α)) :
    at? k (kvs :: dicts) = match Dict.get? kvs k with
      | some v => v :: at? k dicts
      | none => at? k dicts := by
  rw [at?, List.filterMap_cons]
  cases Dict.get? kvs k with
  | none => rfl
  | some v => rfl

theorem holdsAt_self (kvs : Entries α) (k : Key α) : HoldsAt kvs k (at? k [kvs]) := by
  rw [at?_cons]
  cases hk : Dict.get? kvs k with
  | none => exact hk
  | some v => exact ⟨v, rfl, hk⟩

variable {rest : List (Value α)}

theorem mergeAll_cons_eq {held : Value α} (h : mergeAll v (held :: rest) = .ok r) :
    ∃ m, mergeValue v held = .ok m ∧ mergeAll m rest = .ok r := by
  rw [mergeAll] at h
  cases hm : mergeValue v held with
  | error e =>
    rw [hm] at h
    cases h
  | ok m =>
    rw [hm] at h
    exact ⟨m, rfl, h⟩

theorem mergeAll_cons {held m : Value α} (h : mergeValue v held = .ok m)
    (rest : List (Value α)) : mergeAll v (held :: rest) = mergeAll m rest := by
  rw [mergeAll, h]

theorem at?_merged {pvs : Entries α} (hn : (Dict.keys kvs).Nodup)
    (h : mergeEntries pvs kvs pvs = .ok es) (k : Key α) (dicts : List (Entries α)) :
    at? k (kvs :: pvs :: dicts) = at? k (es :: dicts) ∨
      ∃ v held m, at? k (kvs :: pvs :: dicts) = v :: held :: at? k dicts ∧
        at? k (es :: dicts) = m :: at? k dicts ∧ mergeValue v held = .ok m := by
  cases hk : Dict.get? kvs k with
  | none =>
    have hes := get?_mergeEntries_of_not_mem h (Dict.get?_eq_none_iff.mp hk)
    rw [at?_cons, at?_cons, at?_cons, hk, hes]
    exact .inl rfl
  | some v =>
    obtain ⟨m, hes, hm⟩ := get?_mergeEntries hn h hk
    rw [at?_cons, at?_cons, at?_cons, hk, hes]
    obtain ⟨hp, rfl⟩ | ⟨held, hp, hm⟩ := hm
    · rw [hp]
      exact .inl rfl
    · rw [hp]
      exact .inr ⟨v, held, m, rfl, rfl, hm⟩

theorem mergeAll_dict (hw : WellFormed (.dict kvs))
    (hr : ∀ w ∈ rest, WellFormed w) (h : mergeAll (.dict kvs) rest = .ok r) :
    ∃ es, r = .dict es ∧ ∀ k, HoldsAt es k (at? k (kvs :: dictsOf rest)) := by
  induction rest generalizing kvs with
  | nil =>
    cases h
    exact ⟨kvs, rfl, holdsAt_self kvs⟩
  | cons held rest ih =>
    obtain ⟨m, hm, hrest⟩ := mergeAll_cons_eq h
    have hr' := fun w hw => hr w (List.mem_cons_of_mem held hw)
    cases held with
    | leaf l =>
      rw [mergeValue] at hm
      cases hm
      exact ih hw hr' hrest
    | dict pvs =>
      obtain ⟨es, hes, rfl⟩ := mergeValue_dict_eq hm
      have hpw := hr _ List.mem_cons_self
      have hwf : WellFormed (.dict es) := wellFormed_mergeEntries kvs hw.2 hpw.2 hpw hes
      obtain ⟨fs, rfl, hall⟩ := ih hwf hr' hrest
      refine ⟨fs, rfl, fun k => ?_⟩
      have hk := hall k
      obtain heq | ⟨v, w, n, hleft, hright, hn⟩ := at?_merged hw.1 hes k (dictsOf rest)
      · change HoldsAt fs k (at? k (kvs :: pvs :: dictsOf rest))
        rw [heq]
        exact hk
      · change HoldsAt fs k (at? k (kvs :: pvs :: dictsOf rest))
        rw [hright] at hk
        rw [hleft]
        obtain ⟨x, hx, hget⟩ := hk
        exact ⟨x, by rw [mergeAll_cons hn, hx], hget⟩

theorem mergeAll_dict_ok (hw : WellFormed (.dict kvs))
    (hr : ∀ w ∈ rest, WellFormed w) (hk : ∀ k v vs, at? k (kvs :: dictsOf rest) = v :: vs →
      ∃ m, mergeAll v vs = .ok m) : ∃ r, mergeAll (.dict kvs) rest = .ok r := by
  induction rest generalizing kvs with
  | nil => exact ⟨_, rfl⟩
  | cons held rest ih =>
    have hr' := fun w hw => hr w (List.mem_cons_of_mem held hw)
    cases held with
    | leaf l =>
      obtain ⟨r, h⟩ := ih hw hr' hk
      exact ⟨r, by rw [mergeAll_cons (by rw [mergeValue]), h]⟩
    | dict pvs =>
      have hpw := hr _ List.mem_cons_self
      have hc : ∀ p ∈ kvs, ∀ held, Dict.get? pvs p.1 = some held →
          ∃ m, mergeValue p.2 held = .ok m := by
        intro p hp held hget
        have hself : Dict.get? kvs p.1 = some p.2 := Dict.get?_of_mem hw.1 hp
        have hat : at? p.1 (kvs :: pvs :: dictsOf rest) =
            p.2 :: held :: at? p.1 (dictsOf rest) := by
          rw [at?_cons, hself, at?_cons, hget]
        obtain ⟨m, hm⟩ := hk p.1 p.2 _ hat
        obtain ⟨n, hn, -⟩ := mergeAll_cons_eq hm
        exact ⟨n, hn⟩
      obtain ⟨es, hes⟩ := mergeEntries_ok hc pvs
      have hwf : WellFormed (.dict es) := wellFormed_mergeEntries kvs hw.2 hpw.2 hpw hes
      have hrest : ∃ r, mergeAll (.dict es) rest = .ok r := by
        apply ih hwf hr'
        intro k v vs hat
        obtain heq | ⟨v', w, n, hleft, hright, hn⟩ := at?_merged hw.1 hes k (dictsOf rest)
        · exact hk k v vs (heq.trans hat)
        · rw [hright] at hat
          cases hat
          obtain ⟨m, hm⟩ := hk k v' _ hleft
          rw [mergeAll_cons hn] at hm
          exact ⟨m, hm⟩
      obtain ⟨r, hr⟩ := hrest
      exact ⟨r, by rw [mergeAll_cons (by rw [mergeValue, hes]), hr]⟩

theorem mergeAll_list (xs : List (Value α)) (rest : List (Value α)) :
    mergeAll (.leaf (.list xs)) rest =
      .ok (.leaf (.list ((rest.flatMap itemsOf).foldl appendNew xs))) := by
  induction rest generalizing xs with
  | nil => rfl
  | cons held rest ih =>
    rw [mergeAll_cons (by rw [mergeValue, mergeLeaf]), ih, List.flatMap_cons, List.foldl_append]

theorem mergeAll_set_ok :
    (∃ r, mergeAll (.leaf (.set xs)) rest = .ok r) ↔
      ∀ v ∈ rest, ∀ item ∈ itemsOf v, hashable item = true := by
  induction rest generalizing xs with
  | nil => exact ⟨fun _ v hv => (nomatch hv), fun _ => ⟨_, rfl⟩⟩
  | cons held rest ih =>
    rw [List.forall_mem_cons]
    constructor
    · rintro ⟨r, h⟩
      obtain ⟨m, hm, hrest⟩ := mergeAll_cons_eq h
      rw [mergeValue, mergeLeaf] at hm
      cases hadd : addAll xs (itemsOf held) with
      | mk zs e =>
        rw [hadd] at hm
        cases e with
        | some e => cases hm
        | none =>
          cases hm
          exact ⟨(addAll_eq_none hadd).1, ih.mp ⟨r, hrest⟩⟩
    · rintro ⟨hheld, hrest⟩
      obtain ⟨r, hr⟩ := ih.mpr hrest
      refine ⟨r, ?_⟩
      rw [mergeAll_cons (by rw [mergeValue, mergeLeaf, addAll_of_hashable hheld]), hr]

theorem mergeAll_other {l : Leaf α} (hlist : ∀ xs, l ≠ .list xs) (hset : ∀ xs, l ≠ .set xs)
    (rest : List (Value α)) : mergeAll (.leaf l) rest = .ok (.leaf l) := by
  have hone : ∀ held, mergeValue (.leaf l) held = .ok (.leaf l) := by
    intro held
    rw [mergeValue]
    cases l with
    | list xs => exact absurd rfl (hlist xs)
    | set xs => exact absurd rfl (hset xs)
    | none => rfl
    | str s => rfl
    | atom a => rfl
    | tuple xs => rfl
  induction rest with
  | nil => rfl
  | cons held rest ih => rw [mergeAll_cons (hone held), ih]

mutual

def depth : Value α → Nat
  | .leaf _ => 0
  | .dict kvs => depthOf kvs + 1

def depthOf : Entries α → Nat
  | [] => 0
  | (_, v) :: rest => max (depth v) (depthOf rest)

end

omit [DecidableEq α] in
theorem depth_le_of_mem {p : Key α × Value α} (h : p ∈ kvs) :
    depth p.2 ≤ depthOf kvs := by
  induction kvs with
  | nil => cases h
  | cons q rest ih =>
    obtain ⟨k, v⟩ := q
    rw [depthOf]
    obtain rfl | h := List.mem_cons.mp h
    · exact Nat.le_max_left _ _
    · exact (ih h).trans (Nat.le_max_right _ _)

omit [DecidableEq α] in
theorem mem_dictsOf {vs : List (Value α)} :
    kvs ∈ dictsOf vs ↔ .dict kvs ∈ vs := by
  rw [dictsOf, List.mem_filterMap]
  constructor
  · rintro ⟨v, hv, hk⟩
    cases v with
    | leaf l => cases hk
    | dict es =>
      cases hk
      exact hv
  · exact fun h => ⟨_, h, rfl⟩

theorem mem_at? {dicts : List (Entries α)} (h : v ∈ at? k dicts) :
    ∃ kvs ∈ dicts, (k, v) ∈ kvs := by
  obtain ⟨kvs, hk, hget⟩ := List.mem_filterMap.mp h
  exact ⟨kvs, hk, Dict.mem_of_get? hget⟩

theorem forall_at? {P : Value α → Prop} (h : ∀ w ∈ .dict kvs :: rest, P w)
    (hP : ∀ es : Entries α, P (.dict es) → ∀ p ∈ es, P p.2) (k : Key α) :
    ∀ w ∈ at? k (kvs :: dictsOf rest), P w := by
  intro w hw
  obtain ⟨es, hes, hmem⟩ := mem_at? hw
  have hdict : .dict es ∈ .dict kvs :: rest := by
    obtain rfl | hes := List.mem_cons.mp hes
    · exact List.mem_cons_self
    · exact List.mem_cons_of_mem _ (mem_dictsOf.mp hes)
  exact hP es (h _ hdict) _ hmem

theorem wellFormed_at? (h : ∀ w ∈ .dict kvs :: rest, WellFormed w) (k : Key α) :
    ∀ w ∈ at? k (kvs :: dictsOf rest), WellFormed w :=
  forall_at? h (fun _ hes => wellFormedEntries_iff.mp hes.2) k

theorem mergeAll_ok_of_not_clash (n : Nat)
    (hn : ∀ w ∈ v :: rest, depth w ≤ n) (hw : ∀ w ∈ v :: rest, WellFormed w)
    (hc : ¬ Clash (v :: rest)) : ∃ r, mergeAll v rest = .ok r := by
  induction n generalizing v rest with
  | zero =>
    cases v with
    | dict kvs =>
      have h := hn _ List.mem_cons_self
      rw [depth] at h
      omega
    | leaf l => exact mergeAll_leaf_ok hc
  | succ n ih =>
    cases v with
    | leaf l => exact mergeAll_leaf_ok hc
    | dict kvs =>
      apply mergeAll_dict_ok (hw _ List.mem_cons_self)
        (List.forall_mem_cons.mp hw).2
      intro k v vs hat
      have hdepth : ∀ w ∈ at? k (kvs :: dictsOf rest), depth w ≤ n := by
        intro w hm
        obtain ⟨es, hes, hmem⟩ := mem_at? hm
        have hdict : .dict es ∈ .dict kvs :: rest := by
          obtain rfl | hes := List.mem_cons.mp hes
          · exact List.mem_cons_self
          · exact List.mem_cons_of_mem _ (mem_dictsOf.mp hes)
        have hle := hn _ hdict
        have hmem : depth w ≤ depthOf es := depth_le_of_mem hmem
        rw [depth] at hle
        omega
      have hwf := wellFormed_at? hw k
      have hclash : ¬ Clash (at? k (kvs :: dictsOf rest)) := fun h => hc (.dict k h)
      rw [hat] at hdepth hwf hclash
      exact ih hdepth hwf hclash
where
  mergeAll_leaf_ok {l : Leaf α} {rest : List (Value α)} (hc : ¬ Clash (.leaf l :: rest)) :
      ∃ r, mergeAll (.leaf l) rest = .ok r := by
    cases l with
    | list xs => exact ⟨_, mergeAll_list xs rest⟩
    | set xs =>
      apply mergeAll_set_ok.mpr
      intro v hv item hi
      by_contra hno
      exact hc (.set hv hi (by simpa using hno))
    | none => exact ⟨_, mergeAll_other (by simp) (by simp) rest⟩
    | str s => exact ⟨_, mergeAll_other (by simp) (by simp) rest⟩
    | atom a => exact ⟨_, mergeAll_other (by simp) (by simp) rest⟩
    | tuple xs => exact ⟨_, mergeAll_other (by simp) (by simp) rest⟩

theorem not_ok_of_clash {vs : List (Value α)} (hc : Clash vs) :
    ∀ v rest, vs = v :: rest → (∀ w ∈ vs, WellFormed w) → ∀ r, mergeAll v rest ≠ .ok r := by
  induction hc with
  | set hv hi hh =>
    rintro v rest ⟨⟩ _ r h
    have hall := mergeAll_set_ok.mp ⟨r, h⟩ _ hv _ hi
    rw [hh] at hall
    cases hall
  | @dict kvs tail k hk ih =>
    rintro v rest ⟨⟩ hw r h
    obtain ⟨es, rfl, hall⟩ := mergeAll_dict (hw _ List.mem_cons_self)
      (List.forall_mem_cons.mp hw).2 h
    have hat := hall k
    have hwf := wellFormed_at? hw k
    cases hlist : at? k (kvs :: dictsOf tail) with
    | nil =>
      rw [hlist] at hk
      cases hk
    | cons w ws =>
      rw [hlist] at hat
      obtain ⟨m, hm, -⟩ := hat
      exact ih w ws hlist hwf m hm

omit [DecidableEq α] in
theorem exists_depth (vs : List (Value α)) : ∃ n, ∀ w ∈ vs, depth w ≤ n := by
  induction vs with
  | nil => exact ⟨0, fun w hw => nomatch hw⟩
  | cons v vs ih =>
    obtain ⟨n, hn⟩ := ih
    refine ⟨max (depth v) n, fun w hw => ?_⟩
    obtain rfl | hw := List.mem_cons.mp hw
    · exact Nat.le_max_left _ _
    · exact (hn w hw).trans (Nat.le_max_right _ _)

theorem mergeAll_ok_iff (hw : ∀ w ∈ v :: rest, WellFormed w) :
    (∃ r, mergeAll v rest = .ok r) ↔ ¬ Clash (v :: rest) := by
  constructor
  · rintro ⟨r, h⟩ hc
    exact not_ok_of_clash hc v rest rfl hw r h
  · intro hc
    obtain ⟨n, hn⟩ := exists_depth (v :: rest)
    exact mergeAll_ok_of_not_clash n hn hw hc

theorem get_mergeAll {p : List (Key α)} {v r : Value α} {rest : List (Value α)}
    (hw : ∀ w ∈ v :: rest, WellFormed w) (h : mergeAll v rest = .ok r) :
    match valuesAt p (v :: rest) with
    | [] => Node.get p r = none
    | w :: ws => ∃ m, mergeAll w ws = .ok m ∧ Node.get p r = some m := by
  induction p generalizing v r rest with
  | nil => exact ⟨r, h, Node.get_nil r⟩
  | cons k p ih =>
    cases v with
    | leaf l =>
      have hleaf : ∃ l', r = .leaf l' := by
        cases l with
        | list xs =>
          rw [mergeAll_list] at h
          cases h
          exact ⟨_, rfl⟩
        | set xs => exact mergeAll_set_leaf h
        | none => exact mergeAll_other_leaf (by simp) (by simp) h
        | str s => exact mergeAll_other_leaf (by simp) (by simp) h
        | atom a => exact mergeAll_other_leaf (by simp) (by simp) h
        | tuple xs => exact mergeAll_other_leaf (by simp) (by simp) h
      obtain ⟨l', rfl⟩ := hleaf
      rfl
    | dict kvs =>
      obtain ⟨es, rfl, hall⟩ := mergeAll_dict (hw _ List.mem_cons_self)
        (List.forall_mem_cons.mp hw).2 h
      have hat := hall k
      have hwf := wellFormed_at? hw k
      rw [valuesAt]
      cases hlist : at? k (kvs :: dictsOf rest) with
      | nil =>
        rw [hlist] at hat
        have hempty : valuesAt p ([] : List (Value α)) = [] := by cases p <;> rfl
        rw [hempty]
        exact Node.get_cons_of_none p hat
      | cons w ws =>
        rw [hlist] at hat hwf
        obtain ⟨m, hm, hget⟩ := hat
        rw [Node.get_cons_of_some p hget]
        exact ih hwf hm
where
  mergeAll_other_leaf {l : Leaf α} (hlist : ∀ xs, l ≠ .list xs) (hset : ∀ xs, l ≠ .set xs)
      {rest : List (Value α)} {r : Value α} (h : mergeAll (.leaf l) rest = .ok r) :
      ∃ l', r = .leaf l' := by
    rw [mergeAll_other hlist hset] at h
    cases h
    exact ⟨l, rfl⟩
  mergeAll_set_leaf {xs rest : List (Value α)} {r : Value α}
      (h : mergeAll (.leaf (.set xs)) rest = .ok r) : ∃ l', r = .leaf l' := by
    induction rest generalizing xs with
    | nil =>
      cases h
      exact ⟨_, rfl⟩
    | cons held rest ih =>
      obtain ⟨m, hm, hrest⟩ := mergeAll_cons_eq h
      rw [mergeValue, mergeLeaf] at hm
      split at hm
      · cases hm
        exact ih hrest
      · cases hm

def Unset (p : List (Key α)) (v : Value α) : Prop :=
  Node.get p v = none ∧ ∀ q, q <+: p → ∀ l, Node.get q v ≠ some (.leaf l)

theorem at?_dictsOf (k : Key α) (vs : List (Value α)) :
    at? k (dictsOf vs) = vs.filterMap (Node.get [k]) := by
  rw [at?, dictsOf, List.filterMap_filterMap]
  congr 1
  funext v
  cases v with
  | leaf l => rfl
  | dict kvs =>
    rw [Option.bind_some]
    cases hk : Dict.get? kvs k with
    | none => rw [Node.get_cons_of_none [] hk]
    | some n => rw [Node.get_cons_of_some [] hk, Node.get_nil]

variable {p : List (Key α)}

theorem Unset.cons (h : Unset (k :: p) v) :
    (∃ kvs, v = .dict kvs) ∧ ∀ n, Node.get [k] v = some n → Unset p n := by
  obtain ⟨hnone, hway⟩ := h
  refine ⟨?_, fun n hn => ?_⟩
  · cases v with
    | leaf l => exact absurd (Node.get_nil _) (hway [] List.nil_prefix l)
    | dict kvs => exact ⟨kvs, rfl⟩
  · have happ : ∀ q, Node.get (k :: q) v = Node.get q n := by
      intro q
      have h := Node.get_append [k] q v
      rw [hn, Option.bind_some] at h
      exact h
    refine ⟨by rw [← happ]; exact hnone, fun q hq l => ?_⟩
    rw [← happ]
    exact hway (k :: q) (List.cons_prefix_cons.mpr ⟨rfl, hq⟩) l

theorem valuesAt_nearest {before after : List (Value α)} {w : Value α}
    (hb : ∀ b ∈ before, Unset p b) (hv : Node.get p w = some v) :
    valuesAt p (before ++ w :: after) = v :: after.filterMap (Node.get p) := by
  induction p generalizing before after w with
  | nil =>
    have hempty : before = [] := by
      cases before with
      | nil => rfl
      | cons b bs =>
        have hnone := (hb b List.mem_cons_self).1
        rw [Node.get_nil] at hnone
        cases hnone
    subst hempty
    rw [Node.get_nil] at hv
    cases hv
    have hself : after.filterMap (Node.get []) = after := by
      rw [show (Node.get [] : Value α → Option (Value α)) = some from funext Node.get_nil]
      exact List.filterMap_some
    rw [hself]
    rfl
  | cons k p ih =>
    have happ : ∀ x : Value α, Node.get (k :: p) x = (Node.get [k] x).bind (Node.get p) :=
      Node.get_append [k] p
    have hhead : ∃ kvs rest, before ++ w :: after = .dict kvs :: rest := by
      cases before with
      | nil =>
        cases w with
        | leaf l => cases hv
        | dict kvs => exact ⟨kvs, after, rfl⟩
      | cons b bs =>
        obtain ⟨⟨kvs, rfl⟩, -⟩ := (hb b List.mem_cons_self).cons
        exact ⟨kvs, bs ++ w :: after, rfl⟩
    obtain ⟨kvs, rest, hlist⟩ := hhead
    have hat : at? k (kvs :: dictsOf rest) = (before ++ w :: after).filterMap (Node.get [k]) := by
      rw [hlist, ← at?_dictsOf]
      rfl
    rw [happ] at hv
    obtain ⟨n, hn, hnv⟩ := Option.bind_eq_some_iff.mp hv
    have hbefore : ∀ b ∈ before.filterMap (Node.get [k]), Unset p b := by
      intro m hm
      obtain ⟨b, hmem, hget⟩ := List.mem_filterMap.mp hm
      exact (hb b hmem).cons.2 m hget
    have hafter : (after.filterMap (Node.get [k])).filterMap (Node.get p) =
        after.filterMap (Node.get (k :: p)) := by
      rw [List.filterMap_filterMap]
      congr 1
      funext x
      exact (happ x).symm
    rw [hlist, valuesAt, hat, List.filterMap_append, List.filterMap_cons_some hn, ih hbefore hnv,
      hafter]

def given (p : List (Key α)) (v : Value α) : List (Value α) :=
  match Node.get p v with
  | some w => itemsOf w
  | none => []

theorem flatMap_given (p : List (Key α)) (vs : List (Value α)) :
    (vs.filterMap (Node.get p)).flatMap itemsOf = vs.flatMap (given p) := by
  induction vs with
  | nil => rfl
  | cons v vs ih =>
    rw [List.flatMap_cons, given]
    cases hv : Node.get p v with
    | none => rw [List.filterMap_cons_none hv, ih, List.nil_append]
    | some w => rw [List.filterMap_cons_some hv, List.flatMap_cons, ih]

/-- Each item of `part` is new where it is added. -/
def New (xs part : List (Value α)) : Prop :=
  ∀ pre y post, part = pre ++ y :: post → member (xs ++ pre) y = false

theorem New.append {part more : List (Value α)} (h : New xs part) (hm : New (xs ++ part) more) :
    New xs (part ++ more) := by
  intro pre y post heq
  obtain ⟨as, hpre, hmore⟩ | ⟨as, hpart, hrest⟩ := List.append_eq_append_iff.mp heq
  · rw [hpre, ← List.append_assoc]
    exact hm as y post hmore
  · cases as with
    | nil =>
      rw [List.append_nil] at hpart
      rw [List.nil_append] at hrest
      have hnew := hm [] y post hrest.symm
      rw [List.append_nil, hpart] at hnew
      exact hnew
    | cons a as =>
      rw [List.cons_append] at hrest
      injection hrest with ha
      subst ha
      exact h pre y as hpart

theorem foldl_appendNew (xs ys : List (Value α)) :
    ∃ part, part.Sublist ys ∧ ys.foldl appendNew xs = xs ++ part ∧ New xs part := by
  induction ys generalizing xs with
  | nil => exact ⟨[], .slnil, by simp, fun pre y post h => by simp at h⟩
  | cons y ys ih =>
    rw [List.foldl_cons]
    cases hy : member xs y with
    | true =>
      obtain ⟨part, hsub, heq, hnew⟩ := ih xs
      rw [appendNew_of_member hy]
      exact ⟨part, hsub.cons y, heq, hnew⟩
    | false =>
      have happ : appendNew xs y = xs ++ [y] := if_neg (by simp [hy])
      obtain ⟨part, hsub, heq, hnew⟩ := ih (xs ++ [y])
      have hone : New xs [y] := by
        intro pre z post h
        cases pre with
        | nil =>
          injection h with hz
          rw [← hz, List.append_nil]
          exact hy
        | cons a pre => simp at h
      rw [happ]
      exact ⟨y :: part, hsub.cons_cons y, by rw [heq]; simp, hone.append hnew⟩

theorem foldl_parts (xs : List (Value α)) (p : List (Key α)) (vs : List (Value α)) :
    ∃ parts, List.Forall₂ (fun part v => List.Sublist part (given p v)) parts vs ∧
      (vs.flatMap (given p)).foldl appendNew xs = xs ++ parts.flatten ∧ New xs parts.flatten := by
  induction vs generalizing xs with
  | nil => exact ⟨[], .nil, by simp, fun pre y post h => by simp at h⟩
  | cons v vs ih =>
    obtain ⟨part, hsub, heq, hnew⟩ := foldl_appendNew xs (given p v)
    obtain ⟨parts, hall, hrest, hmore⟩ := ih (xs ++ part)
    refine ⟨part :: parts, .cons hsub hall, ?_, ?_⟩
    · rw [List.flatMap_cons, List.foldl_append, heq, hrest]
      simp
    · rw [List.flatten_cons]
      exact hnew.append hmore

/-- A list over the layers: the list of the nearest first, then for each farther layer what is
new in what it gives; nothing of any layer's list is missing. -/
structure ListView (p : List (Key α)) (before : List (Value α)) (near : Value α)
    (after : List (Value α)) (xs ys : List (Value α)) : Prop where
  inOrder : ∃ parts, ys = xs ++ parts.flatten ∧
    List.Forall₂ (fun part v => List.Sublist part (given p v)) parts after
  once : ∀ pre y post, ys = pre ++ y :: post → xs.length ≤ pre.length → member pre y = false
  every : ∀ v ∈ before ++ near :: after, ∀ zs, Node.get p v = some (.leaf (.list zs)) →
    ∀ z ∈ zs, member ys z = true

theorem listView {before after : List (Value α)} {near : Value α} (hb : ∀ b ∈ before, Unset p b)
    (hn : Node.get p near = some (.leaf (.list xs))) :
    ListView p before near after xs ((after.flatMap (given p)).foldl appendNew xs) := by
  obtain ⟨parts, hall, heq, hnew⟩ := foldl_parts xs p after
  refine ⟨⟨parts, heq, hall⟩, fun pre y post hys hlen => ?_, fun v hv zs hz z hmem => ?_⟩
  · rw [heq] at hys
    obtain ⟨as, hpre, hparts⟩ | ⟨as, hxs, -⟩ := List.append_eq_append_iff.mp hys
    · rw [hpre]
      exact hnew as y post hparts
    · have has : as = [] := by
        have hl := congrArg List.length hxs
        rw [List.length_append] at hl
        exact List.eq_nil_of_length_eq_zero (by omega)
      subst has
      rw [List.append_nil] at hxs
      have hparts : parts.flatten = y :: post := by
        rw [hxs] at hys
        exact List.append_cancel_left hys
      have hfirst := hnew [] y post hparts
      rw [List.append_nil, hxs] at hfirst
      exact hfirst
  · obtain hv | hv := List.mem_append.mp hv
    · rw [(hb v hv).1] at hz
      cases hz
    · obtain rfl | hv := List.mem_cons.mp hv
      · rw [hn] at hz
        cases hz
        exact member_foldl (member_of_mem hmem) _
      · apply member_foldl_self
        have hgiven : given p v = zs := by rw [given, hz]; rfl
        exact List.mem_flatMap.mpr ⟨v, hv, by rw [hgiven]; exact hmem⟩

theorem viewFrom_eq (result : Entries α) (layers : List (Entries α)) :
    mergeAll (.dict result) (layers.map .dict) = match viewFrom result layers with
      | .ok es => .ok (.dict es)
      | .error e => .error e := by
  induction layers generalizing result with
  | nil => rfl
  | cons layer rest ih =>
    rw [List.map_cons, mergeAll, mergeValue, viewFrom]
    cases mergeEntries layer result layer with
    | error e => rfl
    | ok es => exact ih es

end Agently.StateTree
