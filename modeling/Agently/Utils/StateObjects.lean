import Agently.Utils.StateTree

/-! # State data as objects

Source: `StateData._copy` of `utils/StateData.py`. Dictionaries, lists, sets and the objects of
other classes have a label, by which they are told apart from equal ones and by which a change of
one is seen wherever it is held. -/

namespace Agently.StateObjects

open Agently.Lib
open Agently.StateTree (Key Leaf Value Entries)

inductive Object (α : Type) where
  | none
  | str (s : String)
  | atom (a : α)
  /-- An object of a class outside the builtins. -/
  | foreign (label : Nat) (a : α)
  | tuple (items : List (Object α))
  | list (label : Nat) (items : List (Object α))
  | set (label : Nat) (items : List (Object α))
  | dict (label : Nat) (entries : List (Key α × Object α))

abbrev ObjectEntries (α : Type) := Dict (Key α) (Object α)

variable {α : Type}

mutual

def value : Object α → Value α
  | .none => .leaf .none
  | .str s => .leaf (.str s)
  | .atom a => .leaf (.atom a)
  | .foreign _ a => .leaf (.atom a)
  | .tuple xs => .leaf (.tuple (values xs))
  | .list _ xs => .leaf (.list (values xs))
  | .set _ xs => .leaf (.set (values xs))
  | .dict _ kvs => .dict (entryValues kvs)

def values : List (Object α) → List (Value α)
  | [] => []
  | x :: xs => value x :: values xs

def entryValues : ObjectEntries α → Entries α
  | [] => []
  | (k, x) :: rest => (k, value x) :: entryValues rest

end

mutual

def containers : Object α → List Nat
  | .tuple xs => containersOf xs
  | .list label xs => label :: containersOf xs
  | .set label xs => label :: containersOf xs
  | .dict label kvs => label :: containersIn kvs
  | _ => []

def containersOf : List (Object α) → List Nat
  | [] => []
  | x :: xs => containers x ++ containersOf xs

def containersIn : ObjectEntries α → List Nat
  | [] => []
  | (_, x) :: rest => containers x ++ containersIn rest

end

mutual

def foreign : Object α → List Nat
  | .foreign label _ => [label]
  | .tuple xs => foreignOf xs
  | .list _ xs => foreignOf xs
  | .set _ xs => foreignOf xs
  | .dict _ kvs => foreignIn kvs
  | _ => []

def foreignOf : List (Object α) → List Nat
  | [] => []
  | x :: xs => foreign x ++ foreignOf xs

def foreignIn : ObjectEntries α → List Nat
  | [] => []
  | (_, x) :: rest => foreign x ++ foreignIn rest

end

section Changes

variable (changed : Nat → Option (Object α)) (becomes : Nat → Option α)

mutual

/-- An object after containers with these labels have become others and foreign objects with
these labels have changed. -/
def reread : Object α → Object α
  | .foreign label a => .foreign label ((becomes label).getD a)
  | .tuple xs => .tuple (rereadAll xs)
  | .list label xs => (changed label).getD (.list label (rereadAll xs))
  | .set label xs => (changed label).getD (.set label (rereadAll xs))
  | .dict label kvs => (changed label).getD (.dict label (rereadIn kvs))
  | x => x

def rereadAll : List (Object α) → List (Object α)
  | [] => []
  | x :: xs => reread x :: rereadAll xs

def rereadIn : ObjectEntries α → ObjectEntries α
  | [] => []
  | (k, x) :: rest => (k, reread x) :: rereadIn rest

end

mutual

theorem reread_of_apart : (x : Object α) → (∀ l ∈ containers x, changed l = none) →
    (∀ l ∈ foreign x, becomes l = none) → reread changed becomes x = x
  | .none, _, _ => by rw [reread] <;> simp
  | .str s, _, _ => by rw [reread] <;> simp
  | .atom a, _, _ => by rw [reread] <;> simp
  | .foreign label a, _, hi => by
      have hlabel := hi label (by simp [foreign])
      rw [reread, hlabel, Option.getD_none]
  | .tuple xs, hc, hi => by
      rw [reread, rereadAll_of_apart xs (fun l hl => hc l (by simpa [containers] using hl))
        fun l hl => hi l (by simpa [foreign] using hl)]
  | .list label xs, hc, hi => by
      have hlabel := hc label (by simp [containers])
      rw [reread, hlabel, Option.getD_none, rereadAll_of_apart xs
        (fun l hl => hc l (by simp [containers, hl])) fun l hl => hi l (by simp [foreign, hl])]
  | .set label xs, hc, hi => by
      have hlabel := hc label (by simp [containers])
      rw [reread, hlabel, Option.getD_none, rereadAll_of_apart xs
        (fun l hl => hc l (by simp [containers, hl])) fun l hl => hi l (by simp [foreign, hl])]
  | .dict label kvs, hc, hi => by
      have hlabel := hc label (by simp [containers])
      rw [reread, hlabel, Option.getD_none, rereadIn_of_apart kvs
        (fun l hl => hc l (by simp [containers, hl])) fun l hl => hi l (by simp [foreign, hl])]

theorem rereadAll_of_apart : (xs : List (Object α)) → (∀ l ∈ containersOf xs, changed l = none) →
    (∀ l ∈ foreignOf xs, becomes l = none) → rereadAll changed becomes xs = xs
  | [], _, _ => rfl
  | x :: xs, hc, hi => by
      rw [rereadAll, reread_of_apart x (fun l hl => hc l (by simp [containersOf, hl]))
          fun l hl => hi l (by simp [foreignOf, hl]),
        rereadAll_of_apart xs (fun l hl => hc l (by simp [containersOf, hl]))
          fun l hl => hi l (by simp [foreignOf, hl])]

theorem rereadIn_of_apart : (kvs : ObjectEntries α) →
    (∀ l ∈ containersIn kvs, changed l = none) → (∀ l ∈ foreignIn kvs, becomes l = none) →
    rereadIn changed becomes kvs = kvs
  | [], _, _ => rfl
  | (k, x) :: rest, hc, hi => by
      rw [rereadIn, reread_of_apart x (fun l hl => hc l (by simp [containersIn, hl]))
          fun l hl => hi l (by simp [foreignIn, hl]),
        rereadIn_of_apart rest (fun l hl => hc l (by simp [containersIn, hl]))
          fun l hl => hi l (by simp [foreignIn, hl])]

end

end Changes

mutual

/-- `_copy`, with the next free label. Objects of other classes are handed back. -/
def copy : Object α → Nat → Object α × Nat
  | .tuple xs, next => let r := copyAll xs next; (.tuple r.1, r.2)
  | .list _ xs, next => let r := copyAll xs (next + 1); (.list next r.1, r.2)
  | .set _ xs, next => let r := copyAll xs (next + 1); (.set next r.1, r.2)
  | .dict _ kvs, next => let r := copyIn kvs (next + 1); (.dict next r.1, r.2)
  | x, next => (x, next)

def copyAll : List (Object α) → Nat → List (Object α) × Nat
  | [], next => ([], next)
  | x :: xs, next =>
    let r := copy x next
    let rest := copyAll xs r.2
    (r.1 :: rest.1, rest.2)

def copyIn : ObjectEntries α → Nat → ObjectEntries α × Nat
  | [], next => ([], next)
  | (k, x) :: rest, next =>
    let r := copy x next
    let others := copyIn rest r.2
    ((k, r.1) :: others.1, others.2)

end

mutual

theorem value_copy : (x : Object α) → (next : Nat) → value (copy x next).1 = value x
  | .none, _ | .str _, _ | .atom _, _ | .foreign _ _, _ => by rw [copy] <;> simp
  | .tuple xs, next => by rw [copy, value, value, values_copyAll xs]
  | .list _ xs, next => by rw [copy, value, value, values_copyAll xs]
  | .set _ xs, next => by rw [copy, value, value, values_copyAll xs]
  | .dict _ kvs, next => by rw [copy, value, value, entryValues_copyIn kvs]

theorem values_copyAll : (xs : List (Object α)) → (next : Nat) →
    values (copyAll xs next).1 = values xs
  | [], _ => rfl
  | x :: xs, next => by
      rw [copyAll, values, values, value_copy x, values_copyAll xs]

theorem entryValues_copyIn : (kvs : ObjectEntries α) → (next : Nat) →
    entryValues (copyIn kvs next).1 = entryValues kvs
  | [], _ => rfl
  | (k, x) :: rest, next => by
      rw [copyIn, entryValues, entryValues, value_copy x, entryValues_copyIn rest]

end

mutual

theorem le_copy : (x : Object α) → (next : Nat) → next ≤ (copy x next).2
  | .none, _ | .str _, _ | .atom _, _ | .foreign _ _, _ => by rw [copy] <;> simp
  | .tuple xs, next => le_copyAll xs next
  | .list _ xs, next => by
      have h := le_copyAll xs (next + 1)
      rw [copy]
      omega
  | .set _ xs, next => by
      have h := le_copyAll xs (next + 1)
      rw [copy]
      omega
  | .dict _ kvs, next => by
      have h := le_copyIn kvs (next + 1)
      rw [copy]
      omega

theorem le_copyAll : (xs : List (Object α)) → (next : Nat) → next ≤ (copyAll xs next).2
  | [], _ => Nat.le_refl _
  | x :: xs, next => (le_copy x next).trans (le_copyAll xs _)

theorem le_copyIn : (kvs : ObjectEntries α) → (next : Nat) → next ≤ (copyIn kvs next).2
  | [], _ => Nat.le_refl _
  | (_, x) :: rest, next => (le_copy x next).trans (le_copyIn rest _)

end

theorem fresh_cons {next last : Nat} {ls : List Nat} (hle : next + 1 ≤ last)
    (h : ∀ l ∈ ls, next + 1 ≤ l ∧ l < last) : ∀ l ∈ next :: ls, next ≤ l ∧ l < last := by
  intro l hl
  obtain rfl | hl := List.mem_cons.mp hl
  · exact ⟨Nat.le_refl l, hle⟩
  · have hfresh := h l hl
    omega

theorem fresh_append {next mid last : Nat} {ls rs : List Nat} (hl : next ≤ mid) (hr : mid ≤ last)
    (hls : ∀ l ∈ ls, next ≤ l ∧ l < mid) (hrs : ∀ l ∈ rs, mid ≤ l ∧ l < last) :
    ∀ l ∈ ls ++ rs, next ≤ l ∧ l < last := by
  intro l hmem
  obtain hmem | hmem := List.mem_append.mp hmem
  · have hfresh := hls l hmem
    omega
  · have hfresh := hrs l hmem
    omega

mutual

theorem fresh_copy : (x : Object α) → (next : Nat) →
    ∀ l ∈ containers (copy x next).1, next ≤ l ∧ l < (copy x next).2
  | .none, _, _, hl | .str _, _, _, hl | .atom _, _, _, hl | .foreign _ _, _, _, hl => by
      simp [copy, containers] at hl
  | .tuple xs, next, l, hl => by
      rw [copy, containers] at hl
      exact fresh_copyAll xs next l hl
  | .list _ xs, next, l, hl => by
      rw [copy, containers] at hl
      exact fresh_cons (le_copyAll xs (next + 1)) (fresh_copyAll xs (next + 1)) l hl
  | .set _ xs, next, l, hl => by
      rw [copy, containers] at hl
      exact fresh_cons (le_copyAll xs (next + 1)) (fresh_copyAll xs (next + 1)) l hl
  | .dict _ kvs, next, l, hl => by
      rw [copy, containers] at hl
      exact fresh_cons (le_copyIn kvs (next + 1)) (fresh_copyIn kvs (next + 1)) l hl

theorem fresh_copyAll : (xs : List (Object α)) → (next : Nat) →
    ∀ l ∈ containersOf (copyAll xs next).1, next ≤ l ∧ l < (copyAll xs next).2
  | [], _, l, hl => by
      rw [copyAll, containersOf] at hl
      cases hl
  | x :: xs, next, l, hl => by
      rw [copyAll, containersOf] at hl
      exact fresh_append (le_copy x next) (le_copyAll xs _) (fresh_copy x next)
        (fresh_copyAll xs _) l hl

theorem fresh_copyIn : (kvs : ObjectEntries α) → (next : Nat) →
    ∀ l ∈ containersIn (copyIn kvs next).1, next ≤ l ∧ l < (copyIn kvs next).2
  | [], _, l, hl => by
      rw [copyIn, containersIn] at hl
      cases hl
  | (_, x) :: rest, next, l, hl => by
      rw [copyIn, containersIn] at hl
      exact fresh_append (le_copy x next) (le_copyIn rest _) (fresh_copy x next)
        (fresh_copyIn rest _) l hl

end

theorem nodup_append_fresh {mid : Nat} {ls rs : List Nat} (hl : ls.Nodup) (hr : rs.Nodup)
    (hls : ∀ l ∈ ls, l < mid) (hrs : ∀ l ∈ rs, mid ≤ l) : (ls ++ rs).Nodup := by
  apply List.nodup_append.mpr
  refine ⟨hl, hr, ?_⟩
  rintro l hleft r hright rfl
  have hlt := hls l hleft
  have hle := hrs l hright
  omega

mutual

theorem nodup_copy : (x : Object α) → (next : Nat) → (containers (copy x next).1).Nodup
  | .none, _ | .str _, _ | .atom _, _ | .foreign _ _, _ => by simp [copy, containers]
  | .tuple xs, next => by
      rw [copy, containers]
      exact nodup_copyAll xs next
  | .list _ xs, next => by
      rw [copy, containers]
      apply List.nodup_cons.mpr ⟨fun hmem => ?_, nodup_copyAll xs (next + 1)⟩
      have hfresh := fresh_copyAll xs (next + 1) _ hmem
      omega
  | .set _ xs, next => by
      rw [copy, containers]
      apply List.nodup_cons.mpr ⟨fun hmem => ?_, nodup_copyAll xs (next + 1)⟩
      have hfresh := fresh_copyAll xs (next + 1) _ hmem
      omega
  | .dict _ kvs, next => by
      rw [copy, containers]
      apply List.nodup_cons.mpr ⟨fun hmem => ?_, nodup_copyIn kvs (next + 1)⟩
      have hfresh := fresh_copyIn kvs (next + 1) _ hmem
      omega

theorem nodup_copyAll : (xs : List (Object α)) → (next : Nat) →
    (containersOf (copyAll xs next).1).Nodup
  | [], _ => .nil
  | x :: xs, next => by
      rw [copyAll, containersOf]
      exact nodup_append_fresh (nodup_copy x next) (nodup_copyAll xs _)
        (fun l hl => (fresh_copy x next l hl).2) fun l hl => (fresh_copyAll xs _ l hl).1

theorem nodup_copyIn : (kvs : ObjectEntries α) → (next : Nat) →
    (containersIn (copyIn kvs next).1).Nodup
  | [], _ => .nil
  | (_, x) :: rest, next => by
      rw [copyIn, containersIn]
      exact nodup_append_fresh (nodup_copy x next) (nodup_copyIn rest _)
        (fun l hl => (fresh_copy x next l hl).2) fun l hl => (fresh_copyIn rest _ l hl).1

end

end Agently.StateObjects
