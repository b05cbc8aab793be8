import Agently.Utils.InheritedView
import Agently.Utils.StateObjects

/-! # Reads through the layers

Source: `_merge_view`, `_get_inherited_view` and `get` of `utils/StateData.py`. The lists and
sets of the child are changed in place while the view is built. -/

namespace Agently.StateObjects

open Agently.Lib
open Agently.StateTree
open Agently.Utils.StateData (pathOf isPath)

variable {α : Type} [DecidableEq α]

structure Trace (α : Type) where
  next : Nat
  written : Dict Nat (Object α)

def Trace.copied (t : Trace α) (x : Object α) : Object α × Trace α :=
  ((copy x t.next).1, { t with next := (copy x t.next).2 })

def Trace.append (t : Trace α) (label : Nat) (make : List (Object α) → Object α)
    (xs : List (Object α)) (item : Object α) : List (Object α) × Trace α :=
  let r := copy item t.next
  (xs ++ [r.1], ⟨r.2, Dict.set t.written label (make (xs ++ [r.1]))⟩)

def appendAll (label : Nat) (xs : List (Object α)) :
    List (Object α) → Trace α → List (Object α) × Trace α
  | [], t => (xs, t)
  | item :: rest, t =>
    if member (values xs) (value item) then appendAll label xs rest t
    else
      let r := t.append label (.list label) xs item
      appendAll label r.1 rest r.2

def addEach (label : Nat) (xs : List (Object α)) :
    List (Object α) → Trace α → Except StateError (List (Object α)) × Trace α
  | [], t => (.ok xs, t)
  | item :: rest, t =>
    if hashable (value item) then
      if member (values xs) (value item) then addEach label xs rest t
      else
        let r := t.append label (.set label) xs item
        addEach label r.1 rest r.2
    else (.error .typeError, t)

def objectsOf : Object α → List (Object α)
  | .list _ ys | .set _ ys | .tuple ys => ys
  | x => [x]

mutual

/-- A value under a key that the parent has, too, and the copy of it in the result. -/
def mergeObject : Object α → Object α → Trace α → Except StateError (Object α) × Trace α
  | .list label xs, held, t =>
    let r := appendAll label xs (objectsOf held) t
    (.ok (r.2.copied (.list label r.1)).1, (r.2.copied (.list label r.1)).2)
  | .set label xs, held, t =>
    match addEach label xs (objectsOf held) t with
    | (.ok zs, t) => (.ok (t.copied (.set label zs)).1, (t.copied (.set label zs)).2)
    | (.error e, t) => (.error e, t)
  | .dict _ kvs, .dict _ pvs, t =>
    let r := copyIn pvs (t.next + 1)
    match mergeObjects pvs kvs r.1 { t with next := r.2 } with
    | (.ok es, t') => (.ok (.dict t.next es), t')
    | (.error e, t') => (.error e, t')
  | x, _, t => (.ok (t.copied x).1, (t.copied x).2)

def mergeObjects (parent : ObjectEntries α) : ObjectEntries α → ObjectEntries α → Trace α →
    Except StateError (ObjectEntries α) × Trace α
  | [], result, t => (.ok result, t)
  | (k, x) :: rest, result, t =>
    match Dict.get? parent k with
    | none =>
      let r := t.copied x
      mergeObjects parent rest (Dict.set result k r.1) r.2
    | some held =>
      match mergeObject x held t with
      | (.ok x, t) => mergeObjects parent rest (Dict.set result k x) t
      | (.error e, t) => (.error e, t)

end

/-- `_get_inherited_view`: each layer is copied before it is the parent of what is there. -/
def inheritedView (result : ObjectEntries α) : List (ObjectEntries α) → Trace α →
    Except StateError (ObjectEntries α) × Trace α
  | [], t => (.ok result, t)
  | layer :: rest, t =>
    let parent := copyIn layer t.next
    let r := copyIn parent.1 parent.2
    match mergeObjects parent.1 result r.1 { t with next := r.2 } with
    | (.ok result, t) => inheritedView result rest t
    | (.error e, t) => (.error e, t)

def objectAt : List (Key α) → Object α → Option (Object α)
  | [], x => some x
  | k :: rest, .dict _ kvs =>
    match Dict.get? kvs k with
    | some x => objectAt rest x
    | none => none
  | _ :: _, _ => none

def get (layers : List (ObjectEntries α)) (key : Key α) (default : Object α) (t : Trace α) :
    Except StateError (Object α) × Trace α :=
  match inheritedView [] layers t with
  | (.error e, t) => (.error e, t)
  | (.ok view, t) =>
    let root := Object.dict t.next view
    (.ok (if key = .none then root else (objectAt (keyPath key) root).getD default),
      { t with next := t.next + 1 })

omit [DecidableEq α] in
theorem values_append (xs ys : List (Object α)) : values (xs ++ ys) = values xs ++ values ys := by
  induction xs with
  | nil => rfl
  | cons x xs ih => rw [List.cons_append, values, values, ih, List.cons_append]

omit [DecidableEq α] in
theorem values_snoc_copy (xs : List (Object α)) (item : Object α) (next : Nat) :
    values (xs ++ [(copy item next).1]) = values xs ++ [value item] := by
  rw [values_append, values, values, value_copy]

theorem values_appendAll (label : Nat) (xs items : List (Object α)) (t : Trace α) :
    values (appendAll label xs items t).1 = (values items).foldl appendNew (values xs) := by
  induction items generalizing xs t with
  | nil => rfl
  | cons item rest ih =>
    rw [appendAll, values, List.foldl_cons, appendNew]
    split
    · rw [ih]
    · rw [ih, Trace.append]
      simp only
      rw [values_snoc_copy]

/-- The set and the error of `addAll`, as one or the other. -/
def settled (r : List (Value α) × Option StateError) : Except StateError (List (Value α)) :=
  match r with
  | (zs, none) => .ok zs
  | (_, some e) => .error e

theorem values_addEach (label : Nat) (xs items : List (Object α)) (t : Trace α) :
    (addEach label xs items t).1.map values = settled (addAll (values xs) (values items)) := by
  induction items generalizing xs t with
  | nil => rfl
  | cons item rest ih =>
    rw [addEach, values, addAll, appendNew]
    split
    · split
      · rw [ih]
      · rw [ih, Trace.append]
        simp only
        rw [values_snoc_copy]
    · rfl

omit [DecidableEq α] in
theorem values_objectsOf (x : Object α) : values (objectsOf x) = itemsOf (value x) := by
  cases x <;> rfl

theorem get?_entryValues (kvs : ObjectEntries α) (k : Key α) :
    Dict.get? (entryValues kvs) k = (Dict.get? kvs k).map value := by
  induction kvs with
  | nil => rfl
  | cons p rest ih =>
    obtain ⟨j, x⟩ := p
    rw [entryValues, Dict.get?_cons, Dict.get?_cons]
    split
    · rfl
    · exact ih

theorem entryValues_set (kvs : ObjectEntries α) (k : Key α) (x : Object α) :
    entryValues (Dict.set kvs k x) = Dict.set (entryValues kvs) k (value x) := by
  induction kvs with
  | nil => rfl
  | cons p rest ih =>
    obtain ⟨j, y⟩ := p
    rw [entryValues, Dict.set, Dict.set]
    split
    · rfl
    · rw [entryValues, ih]

theorem mergeValue_held_leaf (kvs : Entries α) (l : Leaf α) :
    mergeValue (.dict kvs) (.leaf l) = .ok (.dict kvs) := by
  rw [mergeValue]

mutual

theorem value_mergeObject : (x held : Object α) → (t : Trace α) →
    (mergeObject x held t).1.map value = mergeValue (value x) (value held)
  | .list label xs, held, t => by
      rw [mergeObject, value, mergeValue, mergeLeaf, ← values_objectsOf, ← values_appendAll label xs _ t]
      simp only [Except.map, Trace.copied, value_copy, value]
  | .set label xs, held, t => by
      have hadd := values_addEach label xs (objectsOf held) t
      rw [values_objectsOf] at hadd
      rw [mergeObject, value, mergeValue, mergeLeaf]
      cases hr : addEach label xs (objectsOf held) t with
      | mk r t' =>
        rw [hr] at hadd
        cases ha : addAll (values xs) (itemsOf (value held)) with
        | mk zs e =>
          rw [ha] at hadd
          cases e with
          | none =>
            cases r with
            | error e => cases hadd
            | ok ys =>
              cases hadd
              simp only [Except.map, Trace.copied, value_copy, value]
          | some e =>
            cases r with
            | ok ys => cases hadd
            | error e' =>
              cases hadd
              rfl
  | .dict _ kvs, .dict _ pvs, t => by
      have hentries := value_mergeObjects kvs pvs (copyIn pvs (t.next + 1)).1
        { t with next := (copyIn pvs (t.next + 1)).2 }
      rw [entryValues_copyIn] at hentries
      rw [mergeObject, value, value, mergeValue, ← hentries]
      cases mergeObjects pvs kvs (copyIn pvs (t.next + 1)).1
        { t with next := (copyIn pvs (t.next + 1)).2 } with
      | mk r t' => cases r <;> rfl
  | .dict label kvs, .none, t | .dict label kvs, .str _, t | .dict label kvs, .atom _, t
  | .dict label kvs, .foreign _ _, t | .dict label kvs, .tuple _, t
  | .dict label kvs, .list _ _, t | .dict label kvs, .set _ _, t => by
      simp only [mergeObject, Except.map, Trace.copied, value_copy, value, mergeValue_held_leaf]
  | .none, _, t | .str _, _, t | .atom _, _, t | .foreign _ _, _, t | .tuple _, _, t => by
      simp only [mergeObject, Except.map, Trace.copied, value_copy, value, mergeValue, mergeLeaf]

theorem value_mergeObjects : (child parent result : ObjectEntries α) → (t : Trace α) →
    (mergeObjects parent child result t).1.map entryValues =
      mergeEntries (entryValues parent) (entryValues child) (entryValues result)
  | [], parent, result, t => by
      rw [mergeObjects, entryValues, mergeEntries]
      rfl
  | (k, x) :: rest, parent, result, t => by
      rw [mergeObjects, entryValues, mergeEntries, get?_entryValues]
      cases Dict.get? parent k with
      | none =>
        simp only [Option.map_none]
        rw [value_mergeObjects rest, entryValues_set, Trace.copied, value_copy]
      | some held =>
        have hx := value_mergeObject x held t
        simp only [Option.map_some]
        rw [← hx]
        cases mergeObject x held t with
        | mk r t' =>
          cases r with
          | error e => rfl
          | ok y =>
            simp only [Except.map]
            have hrest := value_mergeObjects rest parent (Dict.set result k y) t'
            rw [entryValues_set] at hrest
            exact hrest

end

theorem value_inheritedView (result : ObjectEntries α) (layers : List (ObjectEntries α))
    (t : Trace α) : (inheritedView result layers t).1.map entryValues =
      viewFrom (entryValues result) (layers.map entryValues) := by
  induction layers generalizing result t with
  | nil => rfl
  | cons layer rest ih =>
    have hmerge := value_mergeObjects result (copyIn layer t.next).1
      (copyIn (copyIn layer t.next).1 (copyIn layer t.next).2).1
      { t with next := (copyIn (copyIn layer t.next).1 (copyIn layer t.next).2).2 }
    rw [entryValues_copyIn, entryValues_copyIn, entryValues_copyIn] at hmerge
    rw [inheritedView, List.map_cons, viewFrom, ← hmerge]
    cases mergeObjects (copyIn layer t.next).1 result
      (copyIn (copyIn layer t.next).1 (copyIn layer t.next).2).1
      { t with next := (copyIn (copyIn layer t.next).1 (copyIn layer t.next).2).2 } with
    | mk r t' =>
      cases r with
      | error e => rfl
      | ok es => exact ih es t'

theorem value_objectAt (p : List (Key α)) (x : Object α) :
    (objectAt p x).map value = Node.get p (value x) := by
  induction p generalizing x with
  | nil => rw [objectAt, Node.get_nil, Option.map_some]
  | cons k rest ih =>
    cases x with
    | dict label kvs =>
      rw [objectAt, value]
      cases hk : Dict.get? kvs k with
      | none =>
        rw [Node.get_cons_of_none rest (by rw [get?_entryValues, hk]; rfl)]
        rfl
      | some y =>
        rw [Node.get_cons_of_some rest (by rw [get?_entryValues, hk]; rfl)]
        exact ih y
    | none => rfl
    | str s => rfl
    | atom a => rfl
    | foreign label a => rfl
    | tuple xs => rfl
    | list label xs => rfl
    | set label xs => rfl

theorem value_get (layers : List (ObjectEntries α)) {key : Key α} (hk : key ≠ .none)
    (default : Object α) (t : Trace α) : (get layers key default t).1.map value =
      (viewFrom [] (layers.map entryValues)).map fun es =>
        (Node.get (keyPath key) (.dict es)).getD (value default) := by
  have hview := value_inheritedView [] layers t
  rw [entryValues] at hview
  rw [get, ← hview]
  cases inheritedView [] layers t with
  | mk r t' =>
    cases r with
    | error e => rfl
    | ok view =>
      have hat := value_objectAt (keyPath key) (.dict t'.next view)
      rw [value] at hat
      simp only [Except.map, if_neg hk, ← hat]
      cases objectAt (keyPath key) (.dict t'.next view) with
      | none => rfl
      | some x => rfl

/-- All labels that are given out or written to are `first` or later. -/
structure Trace.From (first : Nat) (t : Trace α) : Prop where
  next : first ≤ t.next
  written : ∀ l ∈ Dict.keys t.written, first ≤ l

def AllFrom (first : Nat) (labels : List Nat) : Prop := ∀ l ∈ labels, first ≤ l

variable {first : Nat}

theorem allFrom_append {ls rs : List Nat} (hl : AllFrom first ls)
    (hr : AllFrom first rs) : AllFrom first (ls ++ rs) := by
  intro l hmem
  obtain hmem | hmem := List.mem_append.mp hmem
  · exact hl l hmem
  · exact hr l hmem

theorem allFrom_cons {l : Nat} {ls : List Nat} (hl : first ≤ l) (hls : AllFrom first ls) :
    AllFrom first (l :: ls) := by
  intro m hm
  obtain rfl | hm := List.mem_cons.mp hm
  · exact hl
  · exact hls m hm

omit [DecidableEq α] in
theorem containersOf_append (xs ys : List (Object α)) :
    containersOf (xs ++ ys) = containersOf xs ++ containersOf ys := by
  induction xs with
  | nil => rfl
  | cons x xs ih => rw [List.cons_append, containersOf, containersOf, ih, List.append_assoc]

theorem containersIn_set {kvs : ObjectEntries α} {k : Key α} {x : Object α}
    (hk : AllFrom first (containersIn kvs)) (hx : AllFrom first (containers x)) :
    AllFrom first (containersIn (Dict.set kvs k x)) := by
  induction kvs with
  | nil =>
    rw [Dict.set, containersIn, containersIn, List.append_nil]
    exact hx
  | cons p rest ih =>
    obtain ⟨j, y⟩ := p
    have hy : AllFrom first (containers y) := fun l hl => hk l (by simp [containersIn, hl])
    have hrest : AllFrom first (containersIn rest) := fun l hl =>
      hk l (by simp [containersIn, hl])
    rw [Dict.set]
    split
    · exact allFrom_append hx hrest
    · exact allFrom_append hy (ih hrest)

variable {t : Trace α}

omit [DecidableEq α] in
theorem Trace.From.fresh (h : t.From first) (x : Object α) :
    AllFrom first (containers (copy x t.next).1) := fun l hl =>
  h.next.trans (fresh_copy x t.next l hl).1

omit [DecidableEq α] in
theorem Trace.From.copied (h : t.From first) (x : Object α) :
    (t.copied x).2.From first := ⟨h.next.trans (le_copy x t.next), h.written⟩

variable {xs : List (Object α)}

omit [DecidableEq α] in
theorem Trace.From.append {label : Nat}
    (h : t.From first) (hl : first ≤ label) (hx : AllFrom first (containersOf xs))
    (make : List (Object α) → Object α) (item : Object α) :
    AllFrom first (containersOf (t.append label make xs item).1) ∧
      (t.append label make xs item).2.From first := by
  refine ⟨?_, h.next.trans (le_copy item t.next), fun l hmem => ?_⟩
  · rw [Trace.append, containersOf_append, containersOf, containersOf, List.append_nil]
    exact allFrom_append hx (h.fresh item)
  · obtain rfl | hmem := Dict.mem_keys_set.mp hmem
    · exact hl
    · exact h.written l hmem

theorem from_appendAll {label : Nat} (hl : first ≤ label)
    (items : List (Object α)) (hx : AllFrom first (containersOf xs))
    (h : t.From first) : (appendAll label xs items t).2.From first := by
  induction items generalizing xs t with
  | nil => exact h
  | cons item rest ih =>
    rw [appendAll]
    split
    · exact ih hx h
    · obtain ⟨hxs, ht⟩ := h.append hl hx (.list label) item
      exact ih hxs ht

theorem from_addEach {label : Nat} (hl : first ≤ label)
    (items : List (Object α)) (hx : AllFrom first (containersOf xs))
    (h : t.From first) : (addEach label xs items t).2.From first := by
  induction items generalizing xs t with
  | nil => exact h
  | cons item rest ih =>
    rw [addEach]
    split
    · split
      · exact ih hx h
      · obtain ⟨hxs, ht⟩ := h.append hl hx (.set label) item
        exact ih hxs ht
    · exact h

/-- A result whose objects, if it is one, and whose changes are `first` or later. -/
def ResultFrom (first : Nat) (r : Except StateError (Object α) × Trace α) : Prop :=
  r.2.From first ∧ ∀ x, r.1 = .ok x → AllFrom first (containers x)

def EntriesFrom (first : Nat) (r : Except StateError (ObjectEntries α) × Trace α) : Prop :=
  r.2.From first ∧ ∀ kvs, r.1 = .ok kvs → AllFrom first (containersIn kvs)

omit [DecidableEq α] in
theorem from_copied (h : t.From first) (x : Object α) :
    ResultFrom first (.ok (t.copied x).1, (t.copied x).2) := by
  refine ⟨h.copied x, fun y hy => ?_⟩
  cases hy
  exact h.fresh x

mutual

theorem from_mergeObject {first : Nat} : (x held : Object α) → (t : Trace α) →
    AllFrom first (containers x) → t.From first → ResultFrom first (mergeObject x held t)
  | .list label xs, held, t, hx, h => by
      have hl : first ≤ label := hx label (by simp [containers])
      have hxs : AllFrom first (containersOf xs) := fun l hm => hx l (by simp [containers, hm])
      rw [mergeObject]
      exact from_copied (from_appendAll hl (objectsOf held) hxs h) _
  | .set label xs, held, t, hx, h => by
      have hl : first ≤ label := hx label (by simp [containers])
      have hxs : AllFrom first (containersOf xs) := fun l hm => hx l (by simp [containers, hm])
      have hadd := from_addEach hl (objectsOf held) hxs h
      rw [mergeObject]
      cases hr : addEach label xs (objectsOf held) t with
      | mk r t' =>
        rw [hr] at hadd
        cases r with
        | ok zs => exact from_copied hadd _
        | error e => exact ⟨hadd, fun y hy => nomatch hy⟩
  | .dict label kvs, .dict _ pvs, t, hx, h => by
      have hkvs : AllFrom first (containersIn kvs) := fun l hm => hx l (by simp [containers, hm])
      have hnext := h.next
      have hcopy : AllFrom first (containersIn (copyIn pvs (t.next + 1)).1) := by
        intro l hl
        have hfresh := fresh_copyIn pvs (t.next + 1) l hl
        omega
      have hle := le_copyIn pvs (t.next + 1)
      have ht : Trace.From first { t with next := (copyIn pvs (t.next + 1)).2 } :=
        ⟨by simp only; omega, h.written⟩
      have hentries := from_mergeObjects kvs pvs _ _ hkvs hcopy ht
      rw [mergeObject]
      cases hr : mergeObjects pvs kvs (copyIn pvs (t.next + 1)).1
        { t with next := (copyIn pvs (t.next + 1)).2 } with
      | mk r t' =>
        rw [hr] at hentries
        cases r with
        | error e => exact ⟨hentries.1, fun y hy => nomatch hy⟩
        | ok es =>
          refine ⟨hentries.1, fun y hy => ?_⟩
          cases hy
          exact allFrom_cons h.next (hentries.2 es rfl)
  | .dict label kvs, .none, t, _, h | .dict label kvs, .str _, t, _, h
  | .dict label kvs, .atom _, t, _, h | .dict label kvs, .foreign _ _, t, _, h
  | .dict label kvs, .tuple _, t, _, h | .dict label kvs, .list _ _, t, _, h
  | .dict label kvs, .set _ _, t, _, h => by
      simp only [mergeObject]
      exact from_copied h _
  | .none, _, t, _, h | .str _, _, t, _, h | .atom _, _, t, _, h | .foreign _ _, _, t, _, h
  | .tuple _, _, t, _, h => by
      simp only [mergeObject]
      exact from_copied h _

theorem from_mergeObjects {first : Nat} : (child parent result : ObjectEntries α) →
    (t : Trace α) → AllFrom first (containersIn child) → AllFrom first (containersIn result) →
    t.From first → EntriesFrom first (mergeObjects parent child result t)
  | [], parent, result, t, _, hr, h => by
      rw [mergeObjects]
      refine ⟨h, fun es hes => ?_⟩
      cases hes
      exact hr
  | (k, x) :: rest, parent, result, t, hc, hr, h => by
      have hx : AllFrom first (containers x) := fun l hl => hc l (by simp [containersIn, hl])
      have hrest : AllFrom first (containersIn rest) := fun l hl =>
        hc l (by simp [containersIn, hl])
      rw [mergeObjects]
      cases Dict.get? parent k with
      | none =>
        exact from_mergeObjects rest parent _ _ hrest (containersIn_set hr (h.fresh x))
          (h.copied x)
      | some held =>
        have hmerge := from_mergeObject x held t hx h
        simp only
        cases hm : mergeObject x held t with
        | mk r t' =>
          rw [hm] at hmerge
          cases r with
          | error e => exact ⟨hmerge.1, fun y hy => nomatch hy⟩
          | ok y =>
            exact from_mergeObjects rest parent _ _ hrest
              (containersIn_set hr (hmerge.2 y rfl)) hmerge.1

end

theorem from_inheritedView (layers : List (ObjectEntries α))
    {result : ObjectEntries α} (hr : AllFrom first (containersIn result))
    (h : t.From first) : (inheritedView result layers t).2.From first := by
  induction layers generalizing result t with
  | nil => exact h
  | cons layer rest ih =>
    have hnext := h.next
    have hle := le_copyIn layer t.next
    have hle' := le_copyIn (copyIn layer t.next).1 (copyIn layer t.next).2
    have hcopy : AllFrom first
        (containersIn (copyIn (copyIn layer t.next).1 (copyIn layer t.next).2).1) := by
      intro l hl
      have hfresh := fresh_copyIn _ _ l hl
      omega
    have ht : Trace.From first
        { t with next := (copyIn (copyIn layer t.next).1 (copyIn layer t.next).2).2 } :=
      ⟨by simp only; omega, h.written⟩
    have hmerge := from_mergeObjects result (copyIn layer t.next).1 _ _ hr hcopy ht
    rw [inheritedView]
    cases hm : mergeObjects (copyIn layer t.next).1 result
      (copyIn (copyIn layer t.next).1 (copyIn layer t.next).2).1
      { t with next := (copyIn (copyIn layer t.next).1 (copyIn layer t.next).2).2 } with
    | mk r t' =>
      rw [hm] at hmerge
      cases r with
      | error e => exact hmerge.1
      | ok es => exact ih (hmerge.2 es rfl) hmerge.1

theorem from_get (layers : List (ObjectEntries α)) (key : Key α) (default : Object α)
    (h : t.From first) : (get layers key default t).2.From first := by
  have hnil : AllFrom first (containersIn ([] : ObjectEntries α)) := fun l hl => nomatch hl
  have hview := from_inheritedView layers hnil h
  rw [get]
  cases hv : inheritedView [] layers t with
  | mk r t' =>
    rw [hv] at hview
    cases r with
    | error e => exact hview
    | ok es => exact ⟨hview.next.trans (Nat.le_succ _), hview.written⟩

end Agently.StateObjects
