import Agently.Lib.Dict
import Mathlib.Data.List.Induction
import Mathlib.Logic.Relation

/-! # Objects that hold one another

Lists, tuples and dictionaries with an identity: an object is its place in the heap, and what
it holds was made before it. -/

namespace Agently.Lib.ObjectHeap

universe u v

inductive Item (α : Type u) where
  | atom (a : α)
  | object (address : Nat)

abbrev Entries (α : Type u) := Dict String (Item α)

inductive Cell (α : Type u) where
  | list (items : List (Item α))
  | tuple (items : List (Item α))
  | dict (entries : Entries α)

abbrev Heap (α : Type u) := List (Cell α)

variable {α : Type u} {β : Type v}

def Item.address? : Item α → Option Nat
  | .atom _ => none
  | .object a => some a

def Cell.items : Cell α → List (Item α)
  | .list xs | .tuple xs => xs
  | .dict kvs => kvs.map Prod.snd

def Cell.addresses (c : Cell α) : List Nat := c.items.filterMap Item.address?

def Ordered (h : Heap α) : Prop :=
  ∀ (a : Nat) (c : Cell α), h[a]? = some c → ∀ b ∈ c.addresses, b < a

structure Objects (α : Type u) where
  cells : Heap α
  ordered : Ordered cells

def Holds (h : Heap α) (a b : Nat) : Prop :=
  ∃ c : Cell α, h[a]? = some c ∧ b ∈ c.addresses

/-- `a` is one of the roots, or held by one of them, and so on. -/
def Reaches (h : Heap α) (roots : List Nat) (a : Nat) : Prop :=
  ∃ root ∈ roots, Relation.ReflTransGen (Holds h) root a

variable {h : Heap α} {roots : List Nat}

theorem Reaches.held {a b : Nat} (ha : Reaches h roots a)
    (hb : Holds h a b) : Reaches h roots b := by
  obtain ⟨root, hr, hp⟩ := ha
  exact ⟨root, hr, hp.tail hb⟩

theorem reaches_lt (ho : Ordered h)
    (hr : ∀ root ∈ roots, root < h.length) {a : Nat} (ha : Reaches h roots a) : a < h.length := by
  obtain ⟨root, hm, hp⟩ := ha
  induction hp with
  | refl => exact hr root hm
  | tail hb hc ih =>
    obtain ⟨c, hg, hmem⟩ := hc
    exact Nat.lt_trans (ho _ c hg _ hmem) ih

def Unchanged (roots : List Nat) (h h' : Heap α) : Prop :=
  ∀ a, Reaches h roots a → h'[a]? = h[a]?

theorem Unchanged.refl (roots : List Nat) (h : Heap α) : Unchanged roots h h := fun _ _ => rfl

theorem unchanged_alloc (ho : Ordered h)
    (hr : ∀ root ∈ roots, root < h.length) (c : Cell α) : Unchanged roots h (h ++ [c]) := by
  intro a ha
  exact List.getElem?_append_left (reaches_lt ho hr ha)

theorem unchanged_set {a : Nat} {c c' : Cell α} (ha : h[a]? = some c) (hne : c' ≠ c) :
    Unchanged roots h (h.set a c') ↔ ¬ Reaches h roots a := by
  have hlt : a < h.length := (List.getElem?_eq_some_iff.mp ha).1
  constructor
  · intro hu hreach
    have h' := hu a hreach
    rw [List.getElem?_set_self hlt, ha] at h'
    exact hne (Option.some.inj h')
  · intro hn b hb
    apply List.getElem?_set_ne
    intro he
    exact hn (he ▸ hb)

structure Reading (α : Type u) (β : Type v) where
  atom : α → β
  list : List β → β
  tuple : List β → β
  dict : List (String × β) → β
  missing : β

namespace Reading

variable (m : Reading α β)

def item (vs : List β) : Item α → β
  | .atom a => m.atom a
  | .object b => vs.getD b m.missing

def entries (vs : List β) (kvs : Entries α) : List (String × β) :=
  kvs.map fun q => (q.1, m.item vs q.2)

def cell (vs : List β) : Cell α → β
  | .list xs => m.list (xs.map (m.item vs))
  | .tuple xs => m.tuple (xs.map (m.item vs))
  | .dict kvs => m.dict (m.entries vs kvs)

def values (h : Heap α) : List β := h.foldl (fun vs c => vs ++ [m.cell vs c]) []

def read (h : Heap α) (x : Item α) : β := m.item (m.values h) x

theorem values_append (h : Heap α) (c : Cell α) :
    m.values (h ++ [c]) = m.values h ++ [m.cell (m.values h) c] := by
  simp [values, List.foldl_append]

@[simp] theorem length_values (h : Heap α) : (m.values h).length = h.length := by
  induction h using List.reverseRecOn with
  | nil => rfl
  | append_singleton h c ih => rw [values_append, List.length_append, ih, List.length_append]; rfl

theorem item_append {vs : List β} (more : List β) {x : Item α}
    (hx : ∀ b, x.address? = some b → b < vs.length) : m.item (vs ++ more) x = m.item vs x := by
  cases x with
  | atom a => rfl
  | object b =>
    have hb : b < vs.length := hx b rfl
    simp [item, List.getD, List.getElem?_append_left hb]

variable {c : Cell α}

theorem cell_append {vs : List β} (more : List β)
    (hc : ∀ b ∈ c.addresses, b < vs.length) : m.cell (vs ++ more) c = m.cell vs c := by
  have hitem : ∀ x ∈ c.items, m.item (vs ++ more) x = m.item vs x := by
    intro x hx
    apply item_append
    intro b hb
    exact hc b (List.mem_filterMap.mpr ⟨x, hx, hb⟩)
  cases c with
  | list xs => exact congrArg m.list (List.map_congr_left hitem)
  | tuple xs => exact congrArg m.tuple (List.map_congr_left hitem)
  | dict kvs =>
    apply congrArg m.dict
    apply List.map_congr_left
    intro q hq
    rw [hitem q.2 (List.mem_map_of_mem hq)]

variable {h : Heap α}

theorem ordered_of_append (ho : Ordered (h ++ [c])) : Ordered h := by
  intro a d hd
  have hlt : a < h.length := (List.getElem?_eq_some_iff.mp hd).1
  exact ho a d (by rw [List.getElem?_append_left hlt, hd])

theorem values_get (ho : Ordered h) {a : Nat} (ha : h[a]? = some c) :
    (m.values h)[a]? = some (m.cell (m.values h) c) := by
  induction h using List.reverseRecOn with
  | nil => simp at ha
  | append_singleton h d ih =>
    have hlt : a < (h ++ [d]).length := (List.getElem?_eq_some_iff.mp ha).1
    have hlen : (h ++ [d]).length = h.length + 1 := List.length_append
    have hheld : ∀ b ∈ c.addresses, b < (m.values h).length := by
      intro b hb
      have hba := ho a c ha b hb
      have hlv := m.length_values h
      omega
    rw [values_append, cell_append m _ hheld]
    by_cases he : a < h.length
    · rw [List.getElem?_append_left he] at ha
      rw [List.getElem?_append_left (by rw [length_values]; exact he)]
      exact ih (ordered_of_append ho) ha
    · have hae : a = h.length := by omega
      subst hae
      rw [List.getElem?_concat_length] at ha
      rw [Option.some.inj ha, ← m.length_values h, List.getElem?_concat_length]

theorem read_object (ho : Ordered h) {a : Nat} (ha : h[a]? = some c) :
    m.read h (.object a) = m.cell (m.values h) c := by
  have hv := m.values_get ho ha
  simp [read, item, List.getD, hv]

theorem read_missing {a : Nat} (ha : h[a]? = none) :
    m.read h (.object a) = m.missing := by
  have hlen : (m.values h).length ≤ a := by
    rw [length_values]
    exact List.getElem?_eq_none_iff.mp ha
  simp [read, item, List.getD, List.getElem?_eq_none hlen]

end Reading

end Agently.Lib.ObjectHeap
