import Agently.Utils.StateTree

/-! # The same update twice

What an entry leaves at its path is left again by the same entry, and entries at paths apart
do not see each other. The cell of a `None` key is the dictionary itself, and of two entries
on one path the later one changes what the earlier one finds. -/

namespace Agently.StateTree

open Agently.Lib
open Agently.Utils.StateData (pathOf isPath)

variable {α : Type} [DecidableEq α]

mutual

/-- No mapping has a `None` key, also within mappings. -/
def NoNoneKey : Value α → Prop
  | .leaf _ => True
  | .dict kvs => Key.none ∉ Dict.keys kvs ∧ NoNoneKeys kvs

def NoNoneKeys : Entries α → Prop
  | [] => True
  | (_, v) :: rest => NoNoneKey v ∧ NoNoneKeys rest

end

def keyPath (key : Key α) : List (Key α) :=
  match dotted key with
  | some dotPath => (pathOf dotPath).map Key.str
  | none => [key]

def PathsApart (x : Entries α) : Prop :=
  x.Pairwise fun a b => Node.Apart (keyPath a.1) (keyPath b.1)

mutual

theorem pyEq_refl : (v : Value α) → pyEq v v = true
  | .leaf l => by
      rw [pyEq]
      exact pyEqLeaf_refl l
  | .dict kvs => by
      rw [pyEq, beq_self_eq_true, Bool.true_and]
      exact pyEqEntries_of_subset kvs kvs fun _ hp => hp

theorem pyEqLeaf_refl : (l : Leaf α) → pyEqLeaf l l = true
  | .none => by rw [pyEqLeaf]
  | .str s => by
      rw [pyEqLeaf]
      exact beq_self_eq_true s
  | .atom a => by
      rw [pyEqLeaf]
      exact beq_self_eq_true a
  | .tuple xs => by
      rw [pyEqLeaf]
      exact pyEqList_refl xs
  | .list xs => by
      rw [pyEqLeaf]
      exact pyEqList_refl xs
  | .set xs => by
      rw [pyEqLeaf, beq_self_eq_true, Bool.true_and]
      exact pyEqMembers_of_subset xs xs fun _ hx => hx

theorem pyEqList_refl : (xs : List (Value α)) → pyEqList xs xs = true
  | [] => by rw [pyEqList]
  | x :: xs => by
      rw [pyEqList, pyEq_refl x, pyEqList_refl xs]
      rfl

theorem pyEqMembers_of_subset : (xs ys : List (Value α)) → (∀ x ∈ xs, x ∈ ys) →
    pyEqMembers xs ys = true
  | [], _, _ => by rw [pyEqMembers]
  | x :: xs, ys, h => by
      have hx : ys.any (pyEq x) = true :=
        List.any_eq_true.mpr ⟨x, h x List.mem_cons_self, pyEq_refl x⟩
      rw [pyEqMembers, hx, pyEqMembers_of_subset xs ys fun y hy => h y (List.mem_cons_of_mem x hy)]
      rfl

theorem pyEqEntries_of_subset : (xs ys : Entries α) → (∀ p ∈ xs, p ∈ ys) →
    pyEqEntries xs ys = true
  | [], _, _ => by rw [pyEqEntries]
  | (k, x) :: xs, ys, h => by
      have hx : ys.any (fun p => p.1 = k && pyEq x p.2) = true :=
        List.any_eq_true.mpr ⟨(k, x), h _ List.mem_cons_self, by simp [pyEq_refl x]⟩
      rw [pyEqEntries, hx,
        pyEqEntries_of_subset xs ys (List.forall_mem_cons.mp h).2]
      rfl

end

variable {xs : List (Value α)} {item : Value α}

theorem member_of_mem (h : item ∈ xs) :
    member xs item = true :=
  List.any_eq_true.mpr ⟨item, h, pyEq_refl item⟩

theorem appendNew_of_member (h : member xs item = true) :
    appendNew xs item = xs := if_pos h

theorem member_append_left (h : member xs item = true)
    (ys : List (Value α)) : member (xs ++ ys) item = true := by
  rw [member, List.any_append]
  rw [member] at h
  rw [h, Bool.true_or]

theorem member_appendNew_self (xs : List (Value α)) (item : Value α) :
    member (appendNew xs item) item = true := by
  unfold appendNew
  split
  · assumption
  · exact member_of_mem (List.mem_append_right xs List.mem_cons_self)

theorem member_appendNew (h : member xs item = true)
    (other : Value α) : member (appendNew xs other) item = true := by
  unfold appendNew
  split
  · exact h
  · exact member_append_left h [other]

theorem member_foldl (h : member xs item = true)
    (ys : List (Value α)) : member (ys.foldl appendNew xs) item = true := by
  induction ys generalizing xs with
  | nil => exact h
  | cons y ys ih => exact ih (member_appendNew h y)

variable {ys : List (Value α)}

theorem member_foldl_self (h : item ∈ ys)
    (xs : List (Value α)) : member (ys.foldl appendNew xs) item = true := by
  induction ys generalizing xs with
  | nil => cases h
  | cons y ys ih =>
    obtain rfl | h := List.mem_cons.mp h
    · exact member_foldl (member_appendNew_self xs item) ys
    · exact ih h _

theorem foldl_of_members (h : ∀ y ∈ ys, member xs y = true) :
    ys.foldl appendNew xs = xs := by
  induction ys with
  | nil => rfl
  | cons y ys ih =>
    rw [List.foldl_cons, appendNew_of_member (h y List.mem_cons_self)]
    exact ih fun z hz => h z (List.mem_cons_of_mem y hz)

theorem union_twice (xs ys : List (Value α)) :
    ys.foldl appendNew (ys.foldl appendNew xs) = ys.foldl appendNew xs :=
  foldl_of_members fun _ hy => member_foldl_self hy xs

theorem addAll_eq_none {zs : List (Value α)} (h : addAll xs ys = (zs, none)) :
    (∀ y ∈ ys, hashable y = true) ∧ zs = ys.foldl appendNew xs := by
  induction ys generalizing xs with
  | nil =>
    injection h with hxs _
    exact ⟨fun y hy => (by cases hy), hxs.symm⟩
  | cons y ys ih =>
    rw [addAll] at h
    split at h
    · rename_i hy
      obtain ⟨hys, hz⟩ := ih h
      refine ⟨fun z hz => ?_, hz⟩
      obtain rfl | hz := List.mem_cons.mp hz
      · exact hy
      · exact hys z hz
    · injection h with _ he
      cases he

theorem addAll_of_hashable (h : ∀ y ∈ ys, hashable y = true)
    (xs : List (Value α)) : addAll xs ys = (ys.foldl appendNew xs, none) := by
  induction ys generalizing xs with
  | nil => rfl
  | cons y ys ih =>
    rw [addAll, if_pos (h y List.mem_cons_self)]
    exact ih (fun z hz => h z (List.mem_cons_of_mem y hz)) _

theorem addAll_twice {zs : List (Value α)} (h : addAll xs ys = (zs, none)) :
    addAll zs ys = (zs, none) := by
  obtain ⟨hy, rfl⟩ := addAll_eq_none h
  rw [addAll_of_hashable hy, union_twice]

omit [DecidableEq α] in
theorem setOf_eq {r : List (Value α) × Option StateError} {v : Value α}
    (h : setOf r = (v, none)) : ∃ zs, r = (zs, none) ∧ v = .leaf (.set zs) := by
  obtain ⟨zs, e⟩ := r
  injection h with hv he
  subst he
  exact ⟨zs, rfl, hv.symm⟩

omit [DecidableEq α] in
theorem hashable_of_all (h : hashableAll xs = true) :
    ∀ x ∈ xs, hashable x = true := by
  induction xs with
  | nil => exact fun x hx => nomatch hx
  | cons y xs ih =>
    rw [hashableAll, Bool.and_eq_true] at h
    intro x hx
    obtain rfl | hx := List.mem_cons.mp hx
    · exact h.1
    · exact ih h.2 x hx

theorem setLeaf_self {value : Leaf α} (h : WellFormed (.leaf value)) :
    setLeaf false (.leaf value) value = (.leaf value, none) := by
  cases value with
  | none => rfl
  | str s => rfl
  | atom a => rfl
  | tuple xs => rfl
  | list xs =>
    rw [setLeaf, foldl_of_members fun y hy => member_of_mem hy]
  | set xs =>
    rw [setLeaf, addAll_of_hashable (hashable_of_all h),
      foldl_of_members fun y hy => member_of_mem hy]
    rfl

theorem setLeaf_twice {held r : Value α} {value : Leaf α} (hw : WellFormed (.leaf value))
    (h : setLeaf false held value = (r, none)) : setLeaf false r value = (r, none) := by
  have hother : r = .leaf value → setLeaf false r value = (r, none) := by
    rintro rfl
    exact setLeaf_self hw
  have happend : ∀ xs : List (Value α), setLeaf false held value =
      (.leaf (.list (appendNew xs (.leaf value))), none) →
      (∀ zs : List (Value α), setLeaf false (.leaf (.list zs)) value =
        (.leaf (.list (appendNew zs (.leaf value))), none)) →
      setLeaf false r value = (r, none) := by
    intro xs hxs hall
    rw [hxs] at h
    injection h with hr
    rw [← hr, hall, appendNew_of_member (member_appendNew_self xs _)]
  have hset : ∀ xs ys : List (Value α), setLeaf false held value = setOf (addAll xs ys) →
      (∀ zs : List (Value α), setLeaf false (.leaf (.set zs)) value = setOf (addAll zs ys)) →
      setLeaf false r value = (r, none) := by
    intro xs ys hxs hall
    rw [hxs] at h
    obtain ⟨zs, hz, rfl⟩ := setOf_eq h
    rw [hall, addAll_twice hz]
    rfl
  cases held with
  | dict kvs =>
    apply hother
    injection h with hr
    exact hr.symm
  | leaf l =>
    cases l with
    | list xs =>
      cases value with
      | list ys =>
        injection h with hr
        rw [← hr, setLeaf, union_twice]
      | tuple ys =>
        injection h with hr
        rw [← hr, setLeaf, union_twice]
      | none => exact happend xs rfl fun _ => rfl
      | str s => exact happend xs rfl fun _ => rfl
      | atom a => exact happend xs rfl fun _ => rfl
      | set ys => exact happend xs rfl fun _ => rfl
    | set xs =>
      cases value with
      | list ys => exact hset xs ys rfl fun _ => rfl
      | tuple ys => exact hset xs ys rfl fun _ => rfl
      | set ys => exact hset xs ys rfl fun _ => rfl
      | none => exact hset xs [.leaf .none] rfl fun _ => rfl
      | str s => exact hset xs [.leaf (.str s)] rfl fun _ => rfl
      | atom a => exact hset xs [.leaf (.atom a)] rfl fun _ => rfl
    | none =>
      apply hother
      injection h with hr
      exact hr.symm
    | str s =>
      apply hother
      injection h with hr
      exact hr.symm
    | atom a =>
      apply hother
      injection h with hr
      exact hr.symm
    | tuple ys =>
      apply hother
      injection h with hr
      exact hr.symm

def Fixed (kvs : Entries α) (p : Key α × Value α) : Prop :=
  ∃ v, Dict.get? kvs p.1 = some v ∧ setItem false v p.2 = (v, none)

variable {kvs : Entries α}

theorem setItems_cons_of_new {k : Key α} (h : Dict.get? kvs k = none)
    (item : Value α) (rest : Entries α) :
    setItems kvs ((k, item) :: rest) = setItems (Dict.set kvs k item) rest := by
  rw [setItems, h]

theorem setItems_cons_of_held {kvs : Entries α} {k : Key α} {held : Value α}
    (h : Dict.get? kvs k = some held) (hk : k ≠ .none) (item : Value α) (rest : Entries α) :
    setItems kvs ((k, item) :: rest) =
      match setItem false held item with
      | (v, none) => setItems (Dict.set kvs k v) rest
      | (v, some e) => (Dict.set kvs k v, some e) := by
  cases hr : setItem false held item with
  | mk v e =>
    cases e with
    | none => simp only [setItems, h, if_neg hk, hr]
    | some e => simp only [setItems, h, if_neg hk, hr]

variable {new : Entries α}

theorem setItems_of_fixed (hk : Key.none ∉ Dict.keys new)
    (h : ∀ p ∈ new, Fixed kvs p) : setItems kvs new = (kvs, none) := by
  induction new with
  | nil => rfl
  | cons p rest ih =>
    obtain ⟨k, item⟩ := p
    have hne : k ≠ .none := fun he => hk (by rw [he]; exact List.mem_cons_self)
    obtain ⟨v, hv, hset⟩ := h (k, item) List.mem_cons_self
    rw [setItems_cons_of_held hv hne, hset]
    simp only [Dict.set_of_get? hv]
    exact ih (fun hm => hk (List.mem_cons_of_mem _ hm))
      (List.forall_mem_cons.mp h).2

variable {kvs' rest : Entries α}

theorem setItems_cons_eq {k : Key α}
    (hk : k ≠ .none) (h : setItems kvs ((k, item) :: rest) = (kvs', none)) :
    ∃ v, setItems (Dict.set kvs k v) rest = (kvs', none) ∧
      (v = item ∨ ∃ held, setItem false held item = (v, none)) := by
  cases hget : Dict.get? kvs k with
  | none =>
    rw [setItems_cons_of_new hget] at h
    exact ⟨item, h, .inl rfl⟩
  | some held =>
    rw [setItems_cons_of_held hget hk] at h
    cases hset : setItem false held item with
    | mk v e =>
      rw [hset] at h
      cases e with
      | none => exact ⟨v, h, .inr ⟨held, hset⟩⟩
      | some e =>
        injection h with _ he
        cases he

theorem get?_setItems (hk : Key.none ∉ Dict.keys new)
    (h : setItems kvs new = (kvs', none)) {j : Key α} (hj : j ∉ Dict.keys new) :
    Dict.get? kvs' j = Dict.get? kvs j := by
  induction new generalizing kvs with
  | nil =>
    injection h with hkvs
    rw [hkvs]
  | cons p rest ih =>
    obtain ⟨k, item⟩ := p
    have hne : k ≠ .none := fun he => hk (by rw [he]; exact List.mem_cons_self)
    have hkj : k ≠ j := fun he => hj (by rw [he]; exact List.mem_cons_self)
    obtain ⟨v, hrest, -⟩ := setItems_cons_eq hne h
    rw [ih (fun hm => hk (List.mem_cons_of_mem _ hm)) hrest
      (fun hm => hj (List.mem_cons_of_mem _ hm)), Dict.get?_set_of_ne kvs v hkj]

def Settles (item : Value α) : Prop :=
  setItem false item item = (item, none) ∧
    ∀ held r, setItem false held item = (r, none) → setItem false r item = (r, none)

theorem fixed_of_setItems (hk : Key.none ∉ Dict.keys new)
    (hn : (Dict.keys new).Nodup) (hs : ∀ p ∈ new, Settles p.2)
    (h : setItems kvs new = (kvs', none)) : ∀ p ∈ new, Fixed kvs' p := by
  induction new generalizing kvs with
  | nil => exact fun p hp => nomatch hp
  | cons q rest ih =>
    obtain ⟨k, item⟩ := q
    have hne : k ≠ .none := fun he => hk (by rw [he]; exact List.mem_cons_self)
    have hk' : Key.none ∉ Dict.keys rest := fun hm => hk (List.mem_cons_of_mem _ hm)
    obtain ⟨hnot, hnodup⟩ := List.nodup_cons.mp hn
    obtain ⟨v, hrest, hv⟩ := setItems_cons_eq hne h
    intro p hp
    obtain rfl | hp := List.mem_cons.mp hp
    · refine ⟨v, ?_, ?_⟩
      · rw [get?_setItems hk' hrest hnot, Dict.get?_set_self]
      · obtain ⟨hself, htwice⟩ := hs (k, item) List.mem_cons_self
        obtain rfl | ⟨held, hheld⟩ := hv
        · exact hself
        · exact htwice held v hheld
    · exact ih hk' hnodup (List.forall_mem_cons.mp hs).2 hrest p hp

theorem setItem_dict_dict (whole : Bool) (kvs new : Entries α) :
    setItem whole (.dict kvs) (.dict new) = (.dict (setItems kvs new).1, (setItems kvs new).2) := by
  rw [setItem]

theorem settles_dict (hk : Key.none ∉ Dict.keys new)
    (hn : (Dict.keys new).Nodup) (hs : ∀ p ∈ new, Settles p.2) : Settles (.dict new) := by
  have hself : setItem false (.dict new) (.dict new) = (.dict new, none) := by
    have hfixed : ∀ p ∈ new, Fixed new p := fun p hp =>
      ⟨p.2, Dict.get?_of_mem hn hp, (hs p hp).1⟩
    rw [setItem_dict_dict, setItems_of_fixed hk hfixed]
  refine ⟨hself, fun held r h => ?_⟩
  cases held with
  | dict kvs =>
    rw [setItem_dict_dict] at h
    injection h with hr he
    rw [← hr, setItem_dict_dict,
      setItems_of_fixed hk (fixed_of_setItems hk hn hs (Prod.ext rfl he))]
  | leaf l =>
    cases l with
    | list xs =>
      injection h with hr
      rw [← hr, setItem, appendNew_of_member (member_appendNew_self xs _)]
    | set xs =>
      obtain ⟨zs, hz, rfl⟩ := setOf_eq h
      rw [setItem, addAll_twice hz]
      rfl
    | none =>
      injection h with hr
      rw [← hr]
      exact hself
    | str s =>
      injection h with hr
      rw [← hr]
      exact hself
    | atom a =>
      injection h with hr
      rw [← hr]
      exact hself
    | tuple xs =>
      injection h with hr
      rw [← hr]
      exact hself

mutual

theorem settles : (v : Value α) → WellFormed v → NoNoneKey v → Settles v
  | .leaf _, hw, _ => ⟨setLeaf_self hw, fun _ _ h => setLeaf_twice hw h⟩
  | .dict kvs, hw, hk => settles_dict hk.1 hw.1 (settlesEntries kvs hw.2 hk.2)

theorem settlesEntries : (kvs : Entries α) → WellFormedEntries kvs → NoNoneKeys kvs →
    ∀ p ∈ kvs, Settles p.2
  | [], _, _ => fun p hp => nomatch hp
  | (_, v) :: rest, hw, hk => fun p hp => by
      obtain rfl | hp := List.mem_cons.mp hp
      · exact settles v hw.1 hk.1
      · exact settlesEntries rest hw.2 hk.2 p hp

end

variable {key : Key α}

theorem updateKey_dotted {dotPath : String} (hd : dotted key = some dotPath)
    (data : Entries α) (value : Value α) :
    ∃ r, setAt dotPath (fun held => setItem false held value) [] (pathOf dotPath) (.dict data) =
      (.dict r, (updateKey data key value).2) ∧ (updateKey data key value).1 = r := by
  obtain ⟨k, rest, hpath⟩ := List.exists_cons_of_ne_nil
    (Agently.Utils.StateData.pathOf_ne_nil dotPath)
  obtain ⟨r, hr⟩ := setAt_dict dotPath (fun held => setItem false held value) [] k rest data
  rw [updateKey, hd]
  simp only [hpath]
  refine ⟨r, ?_, ?_⟩
  · rw [onRoot_dict (Prod.ext hr rfl)]
    exact Prod.ext hr rfl
  · rw [onRoot_dict (Prod.ext hr rfl)]

theorem updateKey_plain (hd : dotted key = none) (data : Entries α)
    (value : Value α) : updateKey data key value = setItems data [(key, value)] := by
  rw [updateKey, hd]

omit [DecidableEq α] in
theorem keyPath_dotted {dotPath : String} (hd : dotted key = some dotPath) :
    keyPath key = (pathOf dotPath).map Key.str := by
  rw [keyPath, hd]

omit [DecidableEq α] in
theorem keyPath_plain (hd : dotted key = none) : keyPath key = [key] := by
  rw [keyPath, hd]

variable {value : Value α} {data' : Entries α}

theorem get_updateKey_of_apart (hk : key ≠ .none) {q : List (Key α)}
    (hq : Node.Apart (keyPath key) q) (data : Entries α)
    (h : updateKey data key value = (data', none)) :
    Node.get q (.dict data') = Node.get q (.dict data) := by
  cases hd : dotted key with
  | some dotPath =>
    obtain ⟨r, hset, hr⟩ := updateKey_dotted hd data value
    rw [h] at hset hr
    rw [keyPath_dotted hd] at hq
    have hget := get_setAt_of_apart dotPath (fun held => setItem false held value) [] hq
      (.dict data)
    rw [hset, ← hr] at hget
    exact hget
  | none =>
    rw [updateKey_plain hd] at h
    rw [keyPath_plain hd] at hq
    cases q with
    | nil => exact absurd List.nil_prefix hq.2
    | cons j qs =>
      have hne : key ≠ j := by
        rintro rfl
        exact hq.1 (List.cons_prefix_cons.mpr ⟨rfl, List.nil_prefix⟩)
      have hnot : j ∉ Dict.keys [(key, value)] := by
        intro hj
        exact hne (List.mem_singleton.mp hj).symm
      have hnone : Key.none ∉ Dict.keys [(key, value)] := by
        intro hj
        exact hk (List.mem_singleton.mp hj).symm
      rw [Node.get, Node.get, get?_setItems hnone h hnot]

def Held (data : Entries α) (p : Key α × Value α) : Prop :=
  ∃ v, Node.get (keyPath p.1) (.dict data) = some v ∧ setItem false v p.2 = (v, none)

variable {data : Entries α}

theorem held_of_plain {p : Key α × Value α} (hd : dotted p.1 = none) :
    Held data p ↔ Fixed data p := by
  have hget : Node.get [p.1] (.dict data) = Dict.get? data p.1 := by
    cases hv : Dict.get? data p.1 with
    | none => rw [Node.get_cons_of_none _ hv]
    | some v => rw [Node.get_cons_of_some _ hv, Node.get_nil]
  rw [Held, Fixed, keyPath_plain hd, hget]

theorem updateKey_of_held (hk : key ≠ .none)
    (h : Held data (key, value)) : updateKey data key value = (data, none) := by
  cases hd : dotted key with
  | some dotPath =>
    obtain ⟨v, hget, hput⟩ := h
    rw [keyPath_dotted hd] at hget
    rw [updateKey, hd]
    exact onRoot_dict (setAt_of_fixed hget hput)
  | none =>
    rw [updateKey_plain hd]
    apply setItems_of_fixed
    · intro hj
      exact hk (List.mem_singleton.mp hj).symm
    · intro p hp
      rw [List.mem_singleton.mp hp]
      exact (held_of_plain hd).mp h

theorem held_of_updateKey
    (hk : key ≠ .none) (hs : Settles value) (h : updateKey data key value = (data', none)) :
    Held data' (key, value) := by
  cases hd : dotted key with
  | some dotPath =>
    obtain ⟨r, hset, hr⟩ := updateKey_dotted hd data value
    rw [h] at hset hr
    obtain ⟨held, v, hput, hget⟩ := get_setAt_self hset
    refine ⟨v, ?_, hs.2 held v hput⟩
    rw [keyPath_dotted hd, show data' = r from hr]
    exact hget
  | none =>
    rw [updateKey_plain hd] at h
    apply (held_of_plain hd).mpr
    have hn : (Dict.keys [(key, value)]).Nodup := List.nodup_singleton key
    apply fixed_of_setItems ?_ hn ?_ h (key, value) List.mem_cons_self
    · intro hj
      exact hk (List.mem_singleton.mp hj).symm
    · intro p hp
      rw [List.mem_singleton.mp hp]
      exact hs

theorem update_cons_eq (h : update data ((key, value) :: rest) = (data', none)) :
    ∃ mid, updateKey data key value = (mid, none) ∧ update mid rest = (data', none) := by
  rw [update] at h
  cases hu : updateKey data key value with
  | mk mid e =>
    rw [hu] at h
    cases e with
    | none => exact ⟨mid, rfl, h⟩
    | some e =>
      injection h with _ he
      cases he

theorem held_update (hk : Key.none ∉ Dict.keys rest)
    {p : Key α × Value α} (hp : ∀ b ∈ rest, Node.Apart (keyPath p.1) (keyPath b.1))
    (h : update data rest = (data', none)) (hd : Held data p) : Held data' p := by
  induction rest generalizing data with
  | nil =>
    injection h with hdata
    rw [← hdata]
    exact hd
  | cons b rest ih =>
    obtain ⟨key, value⟩ := b
    have hne : key ≠ .none := fun he => hk (by rw [he]; exact List.mem_cons_self)
    obtain ⟨mid, hmid, hrest⟩ := update_cons_eq h
    obtain ⟨v, hget, hput⟩ := hd
    apply ih (fun hm => hk (List.mem_cons_of_mem _ hm))
      (List.forall_mem_cons.mp hp).2 hrest
    refine ⟨v, ?_, hput⟩
    rw [get_updateKey_of_apart hne (hp (key, value) List.mem_cons_self).symm data hmid]
    exact hget

theorem update_of_held {x : Entries α} (hk : Key.none ∉ Dict.keys x)
    (h : ∀ p ∈ x, Held data p) : update data x = (data, none) := by
  induction x with
  | nil => rfl
  | cons p rest ih =>
    obtain ⟨key, value⟩ := p
    have hne : key ≠ .none := fun he => hk (by rw [he]; exact List.mem_cons_self)
    rw [update, updateKey_of_held hne (h (key, value) List.mem_cons_self)]
    exact ih (fun hm => hk (List.mem_cons_of_mem _ hm))
      (List.forall_mem_cons.mp h).2

theorem held_of_update {x : Entries α} (hk : Key.none ∉ Dict.keys x)
    (hs : ∀ p ∈ x, Settles p.2) (hp : PathsApart x) (h : update data x = (data', none)) :
    ∀ p ∈ x, Held data' p := by
  induction x generalizing data with
  | nil => exact fun p hp => nomatch hp
  | cons b rest ih =>
    obtain ⟨key, value⟩ := b
    have hne : key ≠ .none := fun he => hk (by rw [he]; exact List.mem_cons_self)
    have hk' : Key.none ∉ Dict.keys rest := fun hm => hk (List.mem_cons_of_mem _ hm)
    obtain ⟨hfirst, hrest⟩ := List.pairwise_cons.mp hp
    obtain ⟨mid, hmid, hupdate⟩ := update_cons_eq h
    intro p hmem
    obtain rfl | hmem := List.mem_cons.mp hmem
    · exact held_update hk' hfirst hupdate
        (held_of_updateKey hne (hs (key, value) List.mem_cons_self) hmid)
    · exact ih hk' (List.forall_mem_cons.mp hs).2 hrest hupdate p hmem

/-- An update by a mapping without `None` keys, whose key paths are apart, leaves nothing for
the same update to do. -/
theorem update_twice {data data' x : Entries α} (hw : WellFormed (.dict x))
    (hk : NoNoneKey (.dict x)) (hp : PathsApart x) (h : update data x = (data', none)) :
    update data' x = (data', none) :=
  update_of_held hk.1 (held_of_update hk.1 (settlesEntries x hw.2 hk.2) hp h)

theorem update_twice_nested :
    update [] [(Key.str "a", .dict [(.str "b", .leaf (.list [.leaf (.atom (1 : ℤ))]))])] =
        ([(.str "a", .dict [(.str "b", .leaf (.list [.leaf (.atom 1)]))])], none) ∧
      update [(Key.str "a", .dict [(.str "b", .leaf (.list [.leaf (.atom (1 : ℤ))]))])]
          [(.str "a", .dict [(.str "b", .leaf (.list [.leaf (.atom 1)]))])] =
        ([(.str "a", .dict [(.str "b", .leaf (.list [.leaf (.atom 1)]))])], none) := by
  have hfirst : update []
      [(Key.str "a", .dict [(.str "b", .leaf (.list [.leaf (.atom (1 : ℤ))]))])] =
      ([(.str "a", .dict [(.str "b", .leaf (.list [.leaf (.atom 1)]))])], none) := rfl
  refine ⟨hfirst, update_twice ?_ ?_ (List.pairwise_singleton _ _) hfirst⟩
  · simp [WellFormed, WellFormedEntries, Dict.keys]
  · simp [NoNoneKey, NoNoneKeys, Dict.keys]

/-- A list merged at a path that an earlier entry has set to a number takes the number in the
second time, and the cell of a `None` key is the mapping that holds it. -/
theorem second_update_differs :
    (update [] [(Key.str "a", .dict [(.str "b", .leaf (.atom (1 : ℤ)))]),
        (.str "a.b", .leaf (.list [.leaf (.atom 2)]))] =
      ([(.str "a", .dict [(.str "b", .leaf (.list [.leaf (.atom 2)]))])], none) ∧
    update [(.str "a", .dict [(.str "b", .leaf (.list [.leaf (.atom 2)]))])]
        [(Key.str "a", .dict [(.str "b", .leaf (.atom (1 : ℤ)))]),
          (.str "a.b", .leaf (.list [.leaf (.atom 2)]))] =
      ([(.str "a", .dict [(.str "b", .leaf (.list [.leaf (.atom 2), .leaf (.atom 1)]))])],
        none)) ∧
    update [] [(Key.none, .leaf (.atom (1 : ℤ)))] = ([(.none, .leaf (.atom 1))], none) ∧
    update [(Key.none, .leaf (.atom (1 : ℤ)))] [(.none, .leaf (.atom 1))] =
      ([(.none, .leaf (.atom 1))], some .typeError) := by
  refine ⟨⟨rfl, ?_⟩, rfl, rfl⟩
  have hplain : isPath "a" = false := by decide
  have hpath : isPath "a.b" = true := by decide
  have hkeys : pathOf "a.b" = ["a", "b"] := by decide
  simp [update, updateKey, dotted, hplain, hpath, hkeys, setItems, setItem, setLeaf, setAt, onRoot,
    appendNew, member, pyEq, pyEqLeaf, Dict.get?, Dict.set]

end Agently.StateTree
