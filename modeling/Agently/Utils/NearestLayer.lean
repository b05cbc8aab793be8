import Agently.Utils.LayerReads

/-! # What an inherited view shows

Source: `StateData.get` of `utils/StateData.py` on a chain of parents. The value of the nearest
layer shows, a list takes in what the farther ones have, and the layers stay; but a set does not
take in what is not hashable, and then every read raises. -/

namespace Agently.StateObjects

open Agently.Lib
open Agently.StateTree

variable {α : Type} [DecidableEq α]

structure Chain (α : Type) where
  self : ObjectEntries α
  parents : List (ObjectEntries α)
  next : Nat
  allocated : ∀ layer ∈ self :: parents, ∀ l ∈ containersIn layer, l < next
  wellFormed : ∀ layer ∈ self :: parents, WellFormed (.dict (entryValues layer))

namespace Chain

def layers (c : Chain α) : List (ObjectEntries α) := c.self :: c.parents

def layerValues (c : Chain α) : List (Value α) := c.layers.map fun layer => .dict (entryValues layer)

def get (c : Chain α) (key : Key α) (default : Object α) : Except StateError (Value α) :=
  (StateObjects.get c.layers key default ⟨c.next, []⟩).1.map value

def readOnce (layers : List (ObjectEntries α)) (next : Nat) (key : Key α) :
    List (ObjectEntries α) × Nat :=
  let t := (StateObjects.get layers key .none ⟨next, []⟩).2
  (layers.map (rereadIn (Dict.get? t.written) fun _ => none), t.next)

def readAll (layers : List (ObjectEntries α)) (next : Nat) :
    List (Key α) → List (ObjectEntries α)
  | [] => layers
  | key :: keys => readAll (readOnce layers next key).1 (readOnce layers next key).2 keys

theorem readOnce_eq {layers : List (ObjectEntries α)} {next : Nat}
    (h : ∀ layer ∈ layers, ∀ l ∈ containersIn layer, l < next) (key : Key α) :
    (readOnce layers next key).1 = layers ∧ next ≤ (readOnce layers next key).2 := by
  have hstart : Trace.From next (⟨next, []⟩ : Trace α) :=
    ⟨Nat.le_refl next, fun l hl => nomatch hl⟩
  have hread := from_get layers key .none hstart
  refine ⟨?_, hread.next⟩
  have hsame : ∀ layer ∈ layers,
      rereadIn (Dict.get? (StateObjects.get layers key .none ⟨next, []⟩).2.written)
        (fun _ => none) layer = layer := by
    intro layer hmem
    apply rereadIn_of_apart
    · intro l hl
      apply Dict.get?_eq_none_iff.mpr
      intro hw
      have hlt := h layer hmem l hl
      have hle := hread.written l hw
      omega
    · exact fun _ _ => rfl
  exact (List.map_congr_left hsame).trans (List.map_id' layers)

theorem readAll_eq (keys : List (Key α)) {layers : List (ObjectEntries α)} {next : Nat}
    (h : ∀ layer ∈ layers, ∀ l ∈ containersIn layer, l < next) :
    readAll layers next keys = layers := by
  induction keys generalizing next with
  | nil => rfl
  | cons key keys ih =>
    obtain ⟨hsame, hle⟩ := readOnce_eq h key
    rw [readAll, hsame]
    exact ih fun layer hmem l hl => (h layer hmem l hl).trans_le hle

/-- The nearest layer that has a value at the path, none before it having one on the way. -/
structure Nearest (c : Chain α) (p : List (Key α)) (before : List (Value α)) (near : Value α)
    (after : List (Value α)) (v : Value α) : Prop where
  layers : c.layerValues = before ++ near :: after
  unset : ∀ b ∈ before, Unset p b
  held : Node.get p near = some v

theorem mergeAll_layers (c : Chain α) :
    mergeAll (.dict (entryValues c.self)) (c.parents.map fun layer => .dict (entryValues layer)) =
      match viewFrom [] (c.layers.map entryValues) with
      | .ok es => .ok (.dict es)
      | .error e => .error e := by
  have hview := viewFrom_eq [] (c.layers.map entryValues)
  have hself : mergeValue (.dict []) (.dict (entryValues c.self)) =
      .ok (.dict (entryValues c.self)) := by
    rw [mergeValue, mergeEntries]
  refine Eq.trans ?_ hview
  rw [layers, List.map_map, List.map_cons]
  exact (mergeAll_cons hself _).symm

omit [DecidableEq α] in
theorem wellFormed_layers (c : Chain α) : ∀ w ∈ c.layerValues, WellFormed w := by
  intro w hw
  obtain ⟨layer, hmem, rfl⟩ := List.mem_map.mp hw
  exact c.wellFormed layer hmem

theorem get_eq (c : Chain α) {key : Key α} (hk : key ≠ .none) (default : Object α) :
    c.get key default = (viewFrom [] (c.layers.map entryValues)).map fun es =>
      (Node.get (keyPath key) (.dict es)).getD (value default) :=
  value_get c.layers hk default _

theorem get_of_clash {c : Chain α} (hc : Clash c.layerValues) {key : Key α} (hk : key ≠ .none)
    (default : Object α) (v : Value α) : c.get key default ≠ .ok v := by
  intro h
  rw [get_eq c hk] at h
  have hlayers := mergeAll_layers c
  cases hv : viewFrom [] (c.layers.map entryValues) with
  | error e =>
    rw [hv] at h
    cases h
  | ok es =>
    rw [hv] at hlayers
    exact (mergeAll_ok_iff c.wellFormed_layers).mp ⟨_, hlayers⟩ hc

theorem get_nearest {c : Chain α} (hc : ¬ Clash c.layerValues) {key : Key α} (hk : key ≠ .none)
    {before after : List (Value α)} {near v : Value α}
    (hn : c.Nearest (keyPath key) before near after v) (default : Object α) :
    ∃ m, mergeAll v (after.filterMap (Node.get (keyPath key))) = .ok m ∧
      c.get key default = .ok m := by
  obtain ⟨r, hr⟩ := (mergeAll_ok_iff c.wellFormed_layers).mpr hc
  have hget := get_mergeAll (p := keyPath key) c.wellFormed_layers hr
  have hlist : .dict (entryValues c.self) ::
      c.parents.map (fun layer => .dict (entryValues layer)) = before ++ near :: after := hn.layers
  rw [hlist, valuesAt_nearest hn.unset hn.held] at hget
  obtain ⟨m, hm, hget⟩ := hget
  refine ⟨m, hm, ?_⟩
  rw [mergeAll_layers] at hr
  rw [get_eq c hk]
  cases hv : viewFrom [] (c.layers.map entryValues) with
  | error e =>
    rw [hv] at hr
    cases hr
  | ok es =>
    rw [hv] at hr
    cases hr
    simp only [Except.map, hget, Option.getD_some]

def Scalar : Leaf α → Prop
  | .none | .str _ | .atom _ => True
  | _ => False

theorem mergeAll_scalar {l : Leaf α} (h : Scalar l) (rest : List (Value α)) :
    mergeAll (.leaf l) rest = .ok (.leaf l) := by
  apply mergeAll_other
  · rintro xs rfl
    exact h
  · rintro xs rfl
    exact h

/-- Reads show the nearest scalar, lists with what farther layers add, and change nothing. -/
structure Inherits (c : Chain α) : Prop where
  scalar : ∀ key before near after l, key ≠ .none →
    c.Nearest (keyPath key) before near after (.leaf l) → Scalar l →
    ∀ default, c.get key default = .ok (.leaf l)
  list : ∀ key before near after xs, key ≠ .none →
    c.Nearest (keyPath key) before near after (.leaf (.list xs)) →
    ∀ default, ∃ ys, c.get key default = .ok (.leaf (.list ys)) ∧
      ListView (keyPath key) before near after xs ys
  pure : ∀ keys, readAll c.layers c.next keys = c.layers

theorem inherits_of_not_clash {c : Chain α} (hc : ¬ Clash c.layerValues) : c.Inherits := by
  refine ⟨fun key before near after l hk hn hl default => ?_,
    fun key before near after xs hk hn default => ?_, fun keys => readAll_eq keys c.allocated⟩
  · obtain ⟨m, hm, hget⟩ := get_nearest hc hk hn default
    rw [mergeAll_scalar hl] at hm
    cases hm
    exact hget
  · obtain ⟨m, hm, hget⟩ := get_nearest hc hk hn default
    rw [mergeAll_list, flatMap_given] at hm
    cases hm
    exact ⟨_, hget, listView hn.unset hn.held⟩

def Shows (c : Chain α) : Prop :=
  ∃ key before near after l, key ≠ .none ∧
    c.Nearest (keyPath key) before near after (.leaf l) ∧ (Scalar l ∨ ∃ xs, l = .list xs)

/-- A chain shows what its layers hold exactly if no set meets what is not hashable, or if
there is nothing to show. -/
theorem inherits_iff (c : Chain α) : c.Inherits ↔ ¬ Clash c.layerValues ∨ ¬ c.Shows := by
  constructor
  · intro h
    by_contra hno
    push Not at hno
    obtain ⟨hc, key, before, near, after, l, hk, hn, hl | ⟨xs, rfl⟩⟩ := hno
    · exact get_of_clash hc hk .none _ (h.scalar key before near after l hk hn hl .none)
    · obtain ⟨ys, hget, -⟩ := h.list key before near after xs hk hn .none
      exact get_of_clash hc hk .none _ hget
  · rintro (hc | hno)
    · exact inherits_of_not_clash hc
    · refine ⟨fun key before near after l hk hn hl default => ?_,
        fun key before near after xs hk hn default => ?_,
        fun keys => readAll_eq keys c.allocated⟩
      · exact absurd ⟨key, before, near, after, l, hk, hn, .inl hl⟩ hno
      · exact absurd ⟨key, before, near, after, _, hk, hn, .inr ⟨xs, rfl⟩⟩ hno

/-- A set that meets a dictionary under its key: the text under another key is not read. -/
def setOverDict : Chain ℤ where
  self := [(.str "a", .set 0 [.atom 1]), (.str "b", .str "text")]
  parents := [[(.str "a", .dict 1 [(.str "x", .atom 1)])]]
  next := 2
  allocated := by
    intro layer hmem l hl
    simp only [List.mem_cons, List.not_mem_nil, or_false] at hmem
    obtain rfl | rfl := hmem
    · simp [containersIn, containers, containersOf] at hl
      omega
    · simp [containersIn, containers] at hl
      omega
  wellFormed := by
    intro layer hmem
    simp only [List.mem_cons, List.not_mem_nil, or_false] at hmem
    obtain rfl | rfl := hmem
    · simp [WellFormed, WellFormedEntries, entryValues, value, values, Dict.keys, hashableAll,
        hashable, hashableLeaf]
    · simp [WellFormed, WellFormedEntries, entryValues, value, Dict.keys]

theorem setOverDict_raises :
    setOverDict.get (.str "b") .none = .error .typeError ∧
      setOverDict.Nearest (keyPath (.str "b")) []
        (.dict [(.str "a", .leaf (.set [.leaf (.atom 1)])), (.str "b", .leaf (.str "text"))])
        [.dict [(.str "a", .dict [(.str "x", .leaf (.atom 1))])]] (.leaf (.str "text")) ∧
      ¬ setOverDict.Inherits := by
  have hraises : setOverDict.get (.str "b") .none = .error .typeError := rfl
  have hnear : setOverDict.Nearest (keyPath (.str "b")) []
      (.dict [(.str "a", .leaf (.set [.leaf (.atom 1)])), (.str "b", .leaf (.str "text"))])
      [.dict [(.str "a", .dict [(.str "x", .leaf (.atom 1))])]] (.leaf (.str "text")) :=
    ⟨rfl, fun b hb => (nomatch hb), rfl⟩
  refine ⟨hraises, hnear, fun h => ?_⟩
  have hget := h.scalar _ _ _ _ _ (by simp) hnear trivial .none
  rw [hraises] at hget
  cases hget

end Chain

end Agently.StateObjects
