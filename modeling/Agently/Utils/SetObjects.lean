import Mathlib
import Agently.Utils.LayerReads
import Agently.Utils.NamespaceFrames

/-! # Setting a value

Source: `set`, `_set_item_by_dot_path`, `get` and `__delitem__` of `utils/StateData.py`, on data
without parent. What is set is a copy, so that the containers of the value that was given are not
those of the data. -/

namespace Agently.StateObjects

open Agently.Lib
open Agently.StateTree
open Agently.Utils.StateData (pathOf isPath pathOf_ne_nil)

variable {α : Type} [DecidableEq α]

/-- `_set_item_by_dot_path` with `cover` below the keys `walked`, with the next free label. -/
def setObjectAt (dotPath : String) (v : Object α) (walked : List String) :
    List String → Object α → Nat → (Object α × Option StateError) × Nat
  | [], _, next => (((copy v next).1, none), (copy v next).2)
  | k :: rest, .dict label kvs, next =>
    let held := match Dict.get? kvs (.str k) with
      | some x => (x, next)
      | none => (.dict next [], next + 1)
    let r := setObjectAt dotPath v (walked ++ [k]) rest held.1 held.2
    ((.dict label (Dict.set kvs (.str k) r.1.1), r.1.2), r.2)
  | _ :: _, x, next => ((x, some (pathError dotPath walked)), next)

def deleteObjectAt : List (Key α) → Object α → Object α
  | [k], .dict label kvs => .dict label (Dict.del kvs k)
  | k :: rest, .dict label kvs =>
    match Dict.get? kvs k with
    | some x => .dict label (Dict.set kvs k (deleteObjectAt rest x))
    | none => .dict label kvs
  | _, x => x

theorem value_setObjectAt (dotPath : String) (v : Object α) (walked path : List String)
    (x : Object α) (next : Nat) :
    let r := setObjectAt dotPath v walked path x next
    (value r.1.1, r.1.2) = setAt dotPath (fun _ => (value v, none)) walked path (value x) := by
  induction path generalizing walked x next with
  | nil =>
    rw [setObjectAt, setAt]
    exact Prod.ext (value_copy v next) rfl
  | cons k rest ih =>
    cases x with
    | dict label kvs =>
      rw [setObjectAt, value, setAt, get?_entryValues]
      simp only
      cases hk : Dict.get? kvs (Key.str k) with
      | none =>
        have h := ih (walked ++ [k]) (.dict next []) (next + 1)
        simp only [value, entryValues] at h ⊢
        rw [Option.map_none, Option.getD_none, ← h, entryValues_set]
      | some y =>
        have h := ih (walked ++ [k]) y next
        simp only [value] at h ⊢
        rw [Option.map_some, Option.getD_some, ← h, entryValues_set]
    | none => rfl
    | str s => rfl
    | atom a => rfl
    | foreign label a => rfl
    | tuple xs => rfl
    | list label xs => rfl
    | set label xs => rfl

omit [DecidableEq α] in
theorem entryValues_filter [DecidableEq (Key α)] (kvs : ObjectEntries α) (k : Key α) :
    entryValues (Dict.del kvs k) = Dict.del (entryValues kvs) k := by
  induction kvs with
  | nil => rfl
  | cons p rest ih =>
    obtain ⟨j, x⟩ := p
    rw [Dict.del, Dict.del] at ih ⊢
    rw [entryValues, List.filter_cons, List.filter_cons]
    split
    · rw [entryValues, ih]
    · exact ih

theorem value_deleteObjectAt (p : List (Key α)) (x : Object α) :
    value (deleteObjectAt p x) = Node.del p (value x) := by
  induction p generalizing x with
  | nil => cases x <;> rfl
  | cons k rest ih =>
    cases rest with
    | nil =>
      cases x with
      | dict label kvs =>
        rw [deleteObjectAt, value, value, entryValues_filter]
        rfl
      | none => rfl
      | str s => rfl
      | atom a => rfl
      | foreign label a => rfl
      | tuple xs => rfl
      | list label xs => rfl
      | set label xs => rfl
    | cons j rest =>
      cases x with
      | dict label kvs =>
        rw [value, Node.del_cons_dict (by simp), get?_entryValues]
        rw [deleteObjectAt]
        · cases Dict.get? kvs k with
          | none => rfl
          | some y =>
            simp only [Option.map_some, value]
            rw [entryValues_set, ih]
        · simp
      | none => rfl
      | str s => rfl
      | atom a => rfl
      | foreign label a => rfl
      | tuple xs => rfl
      | list label xs => rfl
      | set label xs => rfl

variable {kvs : ObjectEntries α}

theorem count_set_of_some {k : Key α} {y : Object α}
    (h : Dict.get? kvs k = some y) (x : Object α) (l : Nat) :
    (containersIn (Dict.set kvs k x)).count l + (containers y).count l =
      (containersIn kvs).count l + (containers x).count l := by
  induction kvs with
  | nil => cases h
  | cons p rest ih =>
    obtain ⟨j, z⟩ := p
    rw [Dict.get?_cons] at h
    rw [Dict.set]
    split at h
    · rename_i hj
      cases h
      rw [if_pos hj, containersIn, containersIn, List.count_append, List.count_append]
      omega
    · rename_i hj
      have hrest := ih h
      rw [if_neg hj, containersIn, containersIn, List.count_append, List.count_append]
      omega

theorem count_le_of_get? {k : Key α} {y : Object α} (h : Dict.get? kvs k = some y) (l : Nat) :
    (containers y).count l ≤ (containersIn kvs).count l := by
  induction kvs with
  | nil => cases h
  | cons p rest ih =>
    obtain ⟨j, z⟩ := p
    rw [Dict.get?_cons] at h
    rw [containersIn, List.count_append]
    split at h
    · cases h
      omega
    · have hrest := ih h
      omega

theorem count_set_of_none {k : Key α} (h : Dict.get? kvs k = none)
    (x : Object α) (l : Nat) : (containersIn (Dict.set kvs k x)).count l =
      (containersIn kvs).count l + (containers x).count l := by
  induction kvs with
  | nil => simp [Dict.set, containersIn]
  | cons p rest ih =>
    obtain ⟨j, z⟩ := p
    rw [Dict.get?_cons] at h
    rw [Dict.set]
    split at h
    · cases h
    · rename_i hj
      rw [if_neg hj, containersIn, containersIn, List.count_append, List.count_append, ih h]
      omega

theorem count_del_le (kvs : ObjectEntries α) (k : Key α) (l : Nat) :
    (containersIn (Dict.del kvs k)).count l ≤ (containersIn kvs).count l := by
  induction kvs with
  | nil => exact Nat.le_refl _
  | cons p rest ih =>
    obtain ⟨j, x⟩ := p
    rw [Dict.del] at ih ⊢
    rw [List.filter_cons]
    split
    · rw [containersIn, containersIn, List.count_append, List.count_append]
      omega
    · rw [containersIn, List.count_append]
      omega

theorem count_deleteObjectAt_le (p : List (Key α)) (x : Object α) (l : Nat) :
    (containers (deleteObjectAt p x)).count l ≤ (containers x).count l := by
  fun_induction deleteObjectAt p x with
  | case1 k label kvs =>
    have h := count_del_le kvs k l
    rw [containers, containers, List.count_cons, List.count_cons]
    omega
  | case2 k rest label kvs _ x hk ih =>
    have h := count_set_of_some hk (deleteObjectAt rest x) l
    rw [containers, containers, List.count_cons, List.count_cons]
    omega
  | case3 => exact Nat.le_refl _
  | case4 => exact Nat.le_refl _

theorem deleteObjectAt_dict (p : List (Key α)) (label : Nat) (kvs : ObjectEntries α) :
    ∃ kvs', deleteObjectAt p (.dict label kvs) = .dict label kvs' := by
  cases p with
  | nil => exact ⟨kvs, rfl⟩
  | cons k rest =>
    cases rest with
    | nil => exact ⟨_, rfl⟩
    | cons j rest =>
      rw [deleteObjectAt]
      · cases Dict.get? kvs k with
        | none => exact ⟨_, rfl⟩
        | some x => exact ⟨_, rfl⟩
      · simp

/-- Of the labels up to `first` none has come, and the others are there once at most. -/
structure Grows (old new : List Nat) (first next : Nat) : Prop where
  le : first ≤ next
  kept : ∀ l, l < first → new.count l ≤ old.count l
  fresh : ∀ l, first ≤ l → new.count l ≤ 1
  bound : ∀ l, next ≤ l → new.count l = 0

variable {first : Nat}

theorem count_eq_zero_of_bound {ls : List Nat} (h : ∀ l ∈ ls, l < first) {l : Nat}
    (hl : first ≤ l) : ls.count l = 0 := by
  apply List.count_eq_zero_of_not_mem
  intro hmem
  have hlt := h l hmem
  omega

omit [DecidableEq α] in
theorem grows_copy (old : List Nat) (v : Object α) (next : Nat) :
    Grows old (containers (copy v next).1) next (copy v next).2 := by
  refine ⟨le_copy v next, fun l hl => ?_, fun l _ => ?_, fun l hl => ?_⟩
  · have hzero : (containers (copy v next).1).count l = 0 := by
      apply List.count_eq_zero_of_not_mem
      intro hmem
      have hfresh := fresh_copy v next l hmem
      omega
    omega
  · exact List.nodup_iff_count_le_one.mp (nodup_copy v next) l
  · exact count_eq_zero_of_bound (fun l hmem => (fresh_copy v next l hmem).2) hl

variable {new : List Nat} {next : Nat}

theorem Grows.start (h : Grows [first] new (first + 1) next) :
    Grows [] new first next := by
  obtain ⟨hle, hkept, hfresh, hbound⟩ := h
  refine ⟨by omega, fun l hl => ?_, fun l hl => ?_, hbound⟩
  · have hk := hkept l (by omega)
    rw [List.count_singleton, if_neg (by rw [beq_iff_eq]; omega)] at hk
    rw [List.count_nil]
    exact hk
  · by_cases hf : l = first
    · have hk := hkept l (by omega)
      rw [List.count_singleton, if_pos (by rw [beq_iff_eq]; omega)] at hk
      exact hk
    · exact hfresh l (by omega)

variable {old : List Nat}

theorem Grows.entry {label : Nat} {old' held : List Nat} (h : Grows held new first next)
    (hcount : ∀ l, old'.count l + held.count l = old.count l + new.count l)
    (hold : ∀ l ∈ label :: old, l < first) :
    Grows (label :: old) (label :: old') first next := by
  obtain ⟨hle, hkept, hfresh, hbound⟩ := h
  have hzero : ∀ l, first ≤ l → (label :: old).count l = 0 := fun l hl =>
    count_eq_zero_of_bound hold hl
  refine ⟨hle, fun l hl => ?_, fun l hl => ?_, fun l hl => ?_⟩
  · have hc := hcount l
    have hk := hkept l hl
    rw [List.count_cons, List.count_cons]
    omega
  · have hc := hcount l
    have hz := hzero l hl
    have hf := hfresh l hl
    rw [List.count_cons] at hz ⊢
    omega
  · have hc := hcount l
    have hz := hzero l (by omega)
    have hb := hbound l hl
    rw [List.count_cons] at hz ⊢
    omega

theorem grows_setObjectAt (dotPath : String) (v : Object α) (walked path : List String)
    {x : Object α} (h : ∀ l ∈ containers x, l < next) :
    let r := setObjectAt dotPath v walked path x next
    Grows (containers x) (containers r.1.1) next r.2 := by
  induction path generalizing walked x next with
  | nil => exact grows_copy (containers x) v next
  | cons k rest ih =>
    have hzero : ∀ l, next ≤ l → (containers x).count l = 0 := fun l hl =>
      count_eq_zero_of_bound h hl
    have hstay : Grows (containers x) (containers x) next next :=
      ⟨Nat.le_refl _, fun _ _ => Nat.le_refl _, fun l hl => by rw [hzero l hl]; omega, hzero⟩
    cases x with
    | dict label kvs =>
      rw [containers] at h
      rw [setObjectAt]
      simp only [containers]
      cases hk : Dict.get? kvs (Key.str k) with
      | none =>
        have hnew : ∀ l ∈ containers (.dict next [] : Object α), l < next + 1 := by
          simp [containers, containersIn]
        have hgrows := (ih (walked ++ [k]) hnew).start
        exact hgrows.entry (fun l => count_set_of_none hk _ l) h
      | some y =>
        have hy : ∀ l ∈ containers y, l < next := by
          intro l hl
          have hpos := List.count_pos_iff.mpr hl
          have hle := count_le_of_get? hk l
          exact h l (List.mem_cons_of_mem _ (List.count_pos_iff.mp (by omega)))
        exact (ih (walked ++ [k]) hy).entry (fun l => count_set_of_some hk _ l) h
    | none => exact hstay
    | str s => exact hstay
    | atom a => exact hstay
    | foreign label a => exact hstay
    | tuple xs => exact hstay
    | list label xs => exact hstay
    | set label xs => exact hstay

theorem Grows.nodup (h : Grows old new first next) (hold : old.Nodup) : new.Nodup := by
  apply List.nodup_iff_count_le_one.mpr
  intro l
  by_cases hl : l < first
  · exact (h.kept l hl).trans (List.nodup_iff_count_le_one.mp hold l)
  · exact h.fresh l (by omega)

theorem Grows.lt (h : Grows old new first next) :
    ∀ l ∈ new, l < next := by
  intro l hl
  by_contra hno
  exact List.count_eq_zero.mp (h.bound l (by omega)) hl

theorem Grows.mem (h : Grows old new first next) {l : Nat}
    (hl : l ∈ new) : l ∈ old ∨ first ≤ l := by
  by_cases hf : l < first
  · have hk := h.kept l hf
    have hpos := List.count_pos_iff.mpr hl
    exact .inl (List.count_pos_iff.mp (by omega))
  · exact .inr (by omega)

structure LocalData (α : Type) where
  label : Nat
  entries : ObjectEntries α
  next : Nat
  distinct : (containers (.dict label entries)).Nodup
  allocated : ∀ l ∈ containers (.dict label entries), l < next

def entriesOf : Object α → ObjectEntries α
  | .dict _ kvs => kvs
  | _ => []

namespace LocalData

def root (d : LocalData α) : Object α := .dict d.label d.entries

/-- What `set` does to the root, with the next free label. -/
def setRoot (d : LocalData α) (key : Key α) (v : Object α) : (Object α × Option StateError) × Nat :=
  match dotted key with
  | some dotPath => setObjectAt dotPath v [] (pathOf dotPath) d.root d.next
  | none =>
    ((.dict d.label (Dict.set d.entries key (copy v d.next).1), none), (copy v d.next).2)

theorem setRoot_dict (d : LocalData α) (key : Key α) (v : Object α) :
    .dict d.label (entriesOf (d.setRoot key v).1.1) = (d.setRoot key v).1.1 := by
  rw [setRoot]
  cases dotted key with
  | none => rfl
  | some dotPath =>
    obtain ⟨k, rest, hpath⟩ := List.exists_cons_of_ne_nil (pathOf_ne_nil dotPath)
    simp only [hpath]
    rfl

theorem grows_setRoot (d : LocalData α) (key : Key α) (v : Object α) :
    Grows (containers d.root) (containers (d.setRoot key v).1.1) d.next (d.setRoot key v).2 := by
  rw [setRoot]
  cases dotted key with
  | some dotPath => exact grows_setObjectAt dotPath v [] (pathOf dotPath) d.allocated
  | none =>
    have hold : ∀ l ∈ d.label :: containersIn d.entries, l < d.next := d.allocated
    cases hk : Dict.get? d.entries key with
    | none => exact (grows_copy [] v d.next).entry (fun l => count_set_of_none hk _ l) hold
    | some y =>
      exact (grows_copy (containers y) v d.next).entry (fun l => count_set_of_some hk _ l) hold

def set (d : LocalData α) (key : Key α) (v : Object α) : LocalData α × Option StateError :=
  ({ label := d.label
     entries := entriesOf (d.setRoot key v).1.1
     next := (d.setRoot key v).2
     distinct := by
       rw [setRoot_dict]
       exact (d.grows_setRoot key v).nodup d.distinct
     allocated := by
       rw [setRoot_dict]
       exact (d.grows_setRoot key v).lt }, (d.setRoot key v).1.2)

theorem delete_dict (d : LocalData α) (key : Key α) :
    .dict d.label (entriesOf (deleteObjectAt (keyPath key) d.root)) =
      deleteObjectAt (keyPath key) d.root := by
  obtain ⟨kvs, hk⟩ := deleteObjectAt_dict (keyPath key) d.label d.entries
  rw [root, hk]
  rfl

def delete (d : LocalData α) (key : Key α) : LocalData α :=
  { d with
    entries := entriesOf (deleteObjectAt (keyPath key) d.root)
    distinct := by
      rw [delete_dict]
      apply List.nodup_iff_count_le_one.mpr
      intro l
      exact (count_deleteObjectAt_le _ _ l).trans (List.nodup_iff_count_le_one.mp d.distinct l)
    allocated := by
      rw [delete_dict]
      intro l hl
      have hpos := List.count_pos_iff.mpr hl
      have hle := count_deleteObjectAt_le (keyPath key) d.root l
      exact d.allocated l (List.count_pos_iff.mp (hpos.trans_le hle)) }

def get (d : LocalData α) (key : Key α) (default : Object α) : Except StateError (Value α) :=
  (StateObjects.get [d.entries] key default ⟨d.next, []⟩).1.map value

theorem get_eq (d : LocalData α) {key : Key α} (hk : key ≠ .none) (default : Object α) :
    d.get key default = .ok ((Node.get (keyPath key) (value d.root)).getD (value default)) := by
  have hview : viewFrom [] [entryValues d.entries] = .ok (entryValues d.entries) := by
    simp only [viewFrom, mergeEntries]
  rw [get, value_get [d.entries] hk, List.map_singleton, hview, root, value]
  rfl

theorem setAt_of_set {dotPath : String} {v t t' : Value α} {walked path : List String}
    (h : Node.set (path.map Key.str) v t = some t') :
    setAt dotPath (fun _ => (v, none)) walked path t = (t', none) := by
  induction path generalizing walked t t' with
  | nil =>
    cases h
    rfl
  | cons k rest ih =>
    obtain ⟨kvs, n, rfl, hn, rfl⟩ := Node.set_cons_eq_some h
    rw [setAt, ih hn]

omit [DecidableEq α] in
theorem keyPath_text (text : String) : keyPath (Key.str text : Key α) = textPath text := by
  cases hp : isPath text with
  | true => rw [keyPath_dotted (dotted_of_path hp), textPath]
  | false => rw [keyPath_plain (dotted_of_plain hp), textPath, pathOf_of_plain hp, List.map_singleton]

theorem value_set (d : LocalData α) {text : String} {v : Object α} {t' : Value α}
    (h : Node.set (textPath text) (value v) (value d.root) = some t') :
    value (d.set (.str text) v).1.root = t' ∧ (d.set (.str text) v).2 = none := by
  have hroot : (d.set (.str text) v).1.root = (d.setRoot (.str text) v).1.1 :=
    d.setRoot_dict (.str text) v
  have herror : (d.set (.str text) v).2 = (d.setRoot (.str text) v).1.2 := rfl
  rw [hroot, herror]
  cases hp : isPath text with
  | true =>
    have hset := value_setObjectAt text v [] (pathOf text) d.root d.next
    rw [setAt_of_set h] at hset
    rw [setRoot, dotted_of_path hp]
    exact Prod.mk.inj hset
  | false =>
    rw [textPath, pathOf_of_plain hp, List.map_singleton, root, value, Node.set] at h
    cases h
    rw [setRoot, dotted_of_plain hp]
    refine ⟨?_, rfl⟩
    rw [value, entryValues_set, value_copy]

theorem value_delete (d : LocalData α) (key : Key α) :
    value (d.delete key).root = Node.del (keyPath key) (value d.root) := by
  have hroot : (d.delete key).root = deleteObjectAt (keyPath key) d.root := d.delete_dict key
  rw [hroot, value_deleteObjectAt]

theorem set_isolated (d : LocalData α) (key : Key α) {v : Object α}
    (hv : ∀ l ∈ containers v, l < d.next) {changed : Nat → Option (Object α)}
    (hc : ∀ l, changed l ≠ none → l ∈ containers v ∧ l ∉ containers d.root) :
    reread changed (fun _ => none) (d.set key v).1.root = (d.set key v).1.root := by
  apply reread_of_apart
  · intro l hl
    by_contra hno
    obtain ⟨hgiven, hnot⟩ := hc l hno
    have hroot : (d.set key v).1.root = (d.setRoot key v).1.1 := d.setRoot_dict key v
    rw [hroot] at hl
    obtain hold | hnew := (d.grows_setRoot key v).mem hl
    · exact hnot hold
    · have hlt := hv l hgiven
      omega
  · exact fun _ _ => rfl

/-- What `set` does at a path on which there are dictionaries or nothing: the value is read
there, what stands apart is left, `delete` takes it away again, and later changes of the
containers of the value that was given do not show. -/
theorem set_laws (d : LocalData α) (text : String) {v : Object α}
    (hv : ∀ l ∈ containers v, l < d.next)
    (hway : ∀ q, q <+: textPath text → q ≠ textPath text → ∀ l,
      Node.get q (value d.root) ≠ some (.leaf l)) :
    let after := (d.set (.str text) v).1
    (d.set (.str text) v).2 = none ∧
      (∀ default, after.get (.str text) default = .ok (value v)) ∧
      (∀ key default, key ≠ .none → Node.Apart (textPath text) (keyPath key) →
        after.get key default = d.get key default) ∧
      ((∀ default, (after.delete (.str text)).get (.str text) default = .ok (value default)) ∧
        ∀ key default, key ≠ .none → Node.Apart (textPath text) (keyPath key) →
          (after.delete (.str text)).get key default = after.get key default) ∧
      ∀ changed : Nat → Option (Object α),
        (∀ l, changed l ≠ none → l ∈ containers v ∧ l ∉ containers d.root) →
        reread changed (fun _ => none) after.root = after.root := by
  intro after
  have hsome : (Node.set (textPath text) (value v) (value d.root)).isSome = true :=
    Node.isSome_set_iff.mpr fun q l hq hne => hway q hq hne l
  obtain ⟨t', ht⟩ := Option.isSome_iff_exists.mp hsome
  obtain ⟨hvalue, herror⟩ := d.value_set ht
  have hkey : (Key.str text : Key α) ≠ .none := by simp
  have hdelete : value (after.delete (.str text)).root = Node.del (textPath text) t' := by
    rw [value_delete, keyPath_text, hvalue]
  refine ⟨herror, fun default => ?_, fun key default hk hq => ?_,
    ⟨fun default => ?_, fun key default hk hq => ?_⟩, fun changed hc => d.set_isolated _ hv hc⟩
  · rw [get_eq _ hkey, keyPath_text, hvalue, Node.get_set_self ht, Option.getD_some]
  · rw [get_eq _ hk, get_eq _ hk, hvalue, Node.get_set_of_apart hq ht]
  · rw [get_eq _ hkey, keyPath_text, hdelete, Node.get_del_self (textPath_ne_nil text),
      Option.getD_none]
  · rw [get_eq _ hk, get_eq _ hk, hdelete, hvalue, Node.get_del_of_apart hq]

def empty : LocalData ℤ where
  label := 0
  entries := []
  next := 2
  distinct := by simp [containers, containersIn]
  allocated := by simp [containers, containersIn]

theorem set_laws_dict :
    let v : Object ℤ := .dict 1 [(.str "c", .none)]
    let after := (empty.set (.str "a.b") v).1
    (empty.set (.str "a.b") v).2 = none ∧
      (∀ default, after.get (.str "a.b") default = .ok (value v)) ∧
      (∀ key default, key ≠ .none → Node.Apart (textPath "a.b") (keyPath key) →
        after.get key default = empty.get key default) ∧
      ((∀ default, (after.delete (.str "a.b")).get (.str "a.b") default = .ok (value default)) ∧
        ∀ key default, key ≠ .none → Node.Apart (textPath "a.b") (keyPath key) →
          (after.delete (.str "a.b")).get key default = after.get key default) ∧
      ∀ changed : Nat → Option (Object ℤ),
        (∀ l, changed l ≠ none → l ∈ containers v ∧ l ∉ containers empty.root) →
        reread changed (fun _ => none) after.root = after.root := by
  apply set_laws
  · intro l hl
    simp [containers, containersIn] at hl
    simp [empty, hl]
  · intro q _ _ l hq
    cases q with
    | nil => cases hq
    | cons k rest => cases hq

def holding : LocalData ℤ where
  label := 0
  entries := [(.str "x", .dict 1 [])]
  next := 2
  distinct := by simp [containers, containersIn]
  allocated := by simp [containers, containersIn]

theorem later_changes_show :
    let foreignSet := (empty.set (.str "p") (.foreign 1 5)).1.root
    let heldSet := (holding.set (.str "p") (.dict 1 [])).1.root
    let changed : Nat → Option (Object ℤ) := fun l =>
      if l = 1 then some (.dict 1 [(.str "y", .none)]) else none
    (value foreignSet = .dict [(.str "p", .leaf (.atom 5))] ∧
      value (reread (fun _ => none) (fun l => if l = 1 then some 6 else none) foreignSet) =
        .dict [(.str "p", .leaf (.atom 6))]) ∧
    value heldSet = .dict [(.str "x", .dict []), (.str "p", .dict [])] ∧
    value (reread changed (fun _ => none) heldSet) =
      .dict [(.str "x", .dict [(.str "y", .leaf .none)]), (.str "p", .dict [])] :=
  ⟨⟨rfl, rfl⟩, rfl, rfl⟩

end LocalData

end Agently.StateObjects
