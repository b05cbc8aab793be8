import Agently.Utils.StateNamespace
import Agently.Utils.UpdateTwice

/-! # What a namespace does to the root

A text key of a namespace is a path that goes on from the path of the namespace, so that what
is done there is done in the dictionary held at the namespace. The methods that use the
namespace as one root key do that only where the namespace has no dot. -/

namespace Agently.StateTree

open Agently.Lib
open Agently.Utils.StateData (pathOf isPath pathOf_append pathOf_ne_nil pathOf_plain)

variable {α : Type} [DecidableEq α]

def textPath (text : String) : List (Key α) := (pathOf text).map Key.str

def StateError.name : StateError → String
  | .raised _ | .typeError => "TypeError"
  | .attributeError => "AttributeError"

def Effect.outcome (e : Effect α) : Option (Value α) × Option String :=
  (e.popped, e.error.map StateError.name)

omit [DecidableEq α] in
theorem dotted_of_path {text : String} (h : isPath text = true) :
    dotted (Key.str text : Key α) = some text := if_pos h

omit [DecidableEq α] in
theorem dotted_of_plain {text : String} (h : isPath text = false) :
    dotted (Key.str text : Key α) = none := if_neg (by simp [h])

theorem pathOf_of_plain {text : String} (h : isPath text = false) : pathOf text = [text] := by
  apply pathOf_plain
  intro hc
  rw [isPath, List.contains_eq_mem, decide_eq_false_iff_not] at h
  exact h hc

theorem isPath_nsKey (ns text : String) : isPath (ns ++ "." ++ text) = true := by
  simp [isPath]

theorem set_text (data : Entries α) (text : String) (value : Value α) :
    set data (.str text) value =
      onRoot (setAt text (fun _ => (value, none)) [] (pathOf text)) data := by
  cases hp : isPath text with
  | true =>
    rw [set, dotted_of_path hp]
  | false =>
    rw [set, dotted_of_plain hp, pathOf_of_plain hp]
    rfl

theorem cover_text (data : Entries α) (text : String) (value : Value α) :
    cover data (.str text) value = set data (.str text) value := by
  rw [set_text, cover]

theorem current_text (data : Entries α) (text : String) :
    current data (.str text) = itemAt (pathOf text) (.dict data) := by
  cases hp : isPath text with
  | true => rw [current, dotted_of_path hp]
  | false =>
    rw [current, dotted_of_plain hp, pathOf_of_plain hp]
    simp only [itemAt]
    cases Dict.get? data (Key.str text) with
    | none => rfl
    | some v => rfl

theorem delete_text (data : Entries α) (text : String) :
    .dict (delete data (.str text)) = Node.del (textPath text) (.dict data) := by
  cases hp : isPath text with
  | true =>
    have hne : (textPath text : List (Key α)) ≠ [] := by simp [textPath, pathOf_ne_nil]
    obtain ⟨kvs, hk⟩ := Node.del_dict hne data
    rw [delete, dotted_of_path hp]
    simp only
    rw [← textPath, hk]
  | false =>
    rw [delete, dotted_of_plain hp, textPath, pathOf_of_plain hp]
    rfl

theorem getLocal_text (data : Entries α) (text : String) :
    getLocal data (.str text) = match Node.get (textPath text) (.dict data) with
      | some (.leaf .none) => none
      | found => found := by
  cases hp : isPath text with
  | true =>
    rw [getLocal, dotted_of_path hp, textPath]
    all_goals rfl
  | false =>
    have hget : Node.get [(Key.str text : Key α)] (.dict data) = Dict.get? data (.str text) := by
      cases hv : Dict.get? data (Key.str text) with
      | none => rw [Node.get_cons_of_none _ hv]
      | some v => rw [Node.get_cons_of_some _ hv, Node.get_nil]
    rw [getLocal, dotted_of_plain hp, textPath, pathOf_of_plain hp, List.map_singleton, hget]
    all_goals rfl

theorem setItems_of_new {kvs new : Entries α} (hn : (Dict.keys new).Nodup)
    (hd : ∀ k ∈ Dict.keys new, k ∉ Dict.keys kvs) : setItems kvs new = (kvs ++ new, none) := by
  induction new generalizing kvs with
  | nil =>
    rw [setItems, List.append_nil]
  | cons p rest ih =>
    obtain ⟨k, item⟩ := p
    obtain ⟨hnot, hnodup⟩ := List.nodup_cons.mp hn
    have hk : k ∉ Dict.keys kvs := hd k List.mem_cons_self
    rw [setItems_cons_of_new (Dict.get?_eq_none_iff.mpr hk), Dict.set_of_not_mem hk, ih hnodup]
    · simp
    · intro j hj hmem
      rw [Dict.keys, List.map_append, List.mem_append] at hmem
      obtain hmem | hmem := hmem
      · exact hd j (List.mem_cons_of_mem _ hj) hmem
      · exact hnot (List.mem_singleton.mp hmem ▸ hj)

theorem setItem_empty {value : Value α} (hw : WellFormed value) :
    setItem false (.dict []) value = (value, none) := by
  cases value with
  | leaf l => cases l <;> rfl
  | dict new =>
    rw [setItem_dict_dict, setItems_of_new hw.1 (by simp [Dict.keys])]
    rfl

theorem updateKey_text {value : Value α} (hw : WellFormed value) (data : Entries α)
    (text : String) : updateKey data (.str text) value =
      onRoot (setAt text (fun held => setItem false held value) [] (pathOf text)) data := by
  cases hp : isPath text with
  | true => rw [updateKey, dotted_of_path hp]
  | false =>
    rw [updateKey_plain (dotted_of_plain hp), pathOf_of_plain hp]
    cases hk : Dict.get? data (Key.str text) with
    | none =>
      rw [setItems_cons_of_new hk, setItems, onRoot, setAt, setAt, hk, Option.getD_none,
        setItem_empty hw]
    | some held =>
      rw [setItems_cons_of_held hk (by simp), onRoot, setAt, setAt, hk, Option.getD_some]
      cases setItem false held value with
      | mk v e => cases e <;> rfl

theorem setAt_names (dotPath dotPath' : String) (put : Value α → Value α × Option StateError)
    (walked walked' path : List String) (t : Value α) :
    (setAt dotPath put walked path t).1 = (setAt dotPath' put walked' path t).1 ∧
      (setAt dotPath put walked path t).2.map StateError.name =
        (setAt dotPath' put walked' path t).2.map StateError.name := by
  induction path generalizing walked walked' t with
  | nil => exact ⟨rfl, rfl⟩
  | cons k rest ih =>
    cases t with
    | leaf l => exact ⟨rfl, rfl⟩
    | dict kvs =>
      obtain ⟨hv, he⟩ := ih (walked ++ [k]) (walked' ++ [k])
        ((Dict.get? kvs (.str k)).getD (.dict []))
      simp only [setAt]
      exact ⟨by rw [hv], he⟩

theorem setAt_sub (dotPath : String) (put : Value α → Value α × Option StateError)
    {base path : List String} (hpath : path ≠ []) (walked : List String) {t : Value α}
    {s : Entries α} (h : Node.sub (base.map Key.str) t = some s) :
    ∃ s', (setAt dotPath put (walked ++ base) path (.dict s)).1 = .dict s' ∧
      Node.sub (base.map Key.str) (setAt dotPath put walked (base ++ path) t).1 = some s' ∧
      (setAt dotPath put walked (base ++ path) t).2 =
        (setAt dotPath put (walked ++ base) path (.dict s)).2 := by
  induction base generalizing walked t with
  | nil =>
    cases t with
    | leaf l => cases h
    | dict kvs =>
      cases h
      obtain ⟨k, rest, rfl⟩ := List.exists_cons_of_ne_nil hpath
      rw [List.append_nil]
      exact ⟨_, rfl, rfl, rfl⟩
  | cons k rest ih =>
    cases t with
    | leaf l => cases h
    | dict kvs =>
      rw [List.map_cons, Node.sub] at h
      obtain ⟨s', hs, hsub, he⟩ := ih (walked ++ [k]) h
      have hwalked : walked ++ [k] ++ rest = walked ++ k :: rest := by simp
      rw [hwalked] at hs he
      refine ⟨s', hs, ?_, ?_⟩
      · rw [List.cons_append, setAt, List.map_cons, Node.sub_cons_set_self]
        exact hsub
      · rw [List.cons_append, setAt]
        exact he

/-- At the path the dictionary has become `s`, and what stands apart from it is left. -/
structure Mirrors (base : List (Key α)) (s data data' : Entries α) : Prop where
  sub : Node.sub base (.dict data') = some s
  apart : ∀ q, Node.Apart base q → Node.get q (.dict data') = Node.get q (.dict data)

theorem Mirrors.refl {base : List (Key α)} {s data : Entries α}
    (h : Node.sub base (.dict data) = some s) : Mirrors base s data data := ⟨h, fun _ _ => rfl⟩

theorem Mirrors.trans {base : List (Key α)} {s s' data mid data' : Entries α}
    (h : Mirrors base s data mid) (h' : Mirrors base s' mid data') :
    Mirrors base s' data data' :=
  ⟨h'.sub, fun q hq => (h'.apart q hq).trans (h.apart q hq)⟩

omit [DecidableEq α] in
theorem textPath_append (ns text : String) :
    (textPath (ns ++ "." ++ text) : List (Key α)) = textPath ns ++ textPath text := by
  rw [textPath, pathOf_append, List.map_append]
  rfl

omit [DecidableEq α] in
theorem textPath_ne_nil (text : String) : (textPath text : List (Key α)) ≠ [] := by
  simp [textPath, pathOf_ne_nil]

theorem onRoot_mirrors (put : Value α → Value α × Option StateError) {ns : String}
    (text : String) {data s : Entries α} (h : Node.sub (textPath ns) (.dict data) = some s) :
    let key := ns ++ "." ++ text
    let r := onRoot (setAt key put [] (pathOf key)) data
    let r' := onRoot (setAt text put [] (pathOf text)) s
    Mirrors (textPath ns) r'.1 data r.1 ∧
      r.2.map StateError.name = r'.2.map StateError.name := by
  intro key r r'
  have hkey : pathOf key = pathOf ns ++ pathOf text := pathOf_append ns text
  obtain ⟨s', hs, hsub, he⟩ := setAt_sub key put (pathOf_ne_nil text) [] h
  obtain ⟨hv, hname⟩ := setAt_names key text put ([] ++ pathOf ns) [] (pathOf text) (.dict s)
  rw [hs] at hv
  rw [← he] at hname
  rw [← hkey] at hsub hname
  obtain ⟨k, rest, hcons⟩ := List.exists_cons_of_ne_nil (pathOf_ne_nil key)
  obtain ⟨kvs, hkvs⟩ := setAt_dict key put [] k rest data
  rw [← hcons] at hkvs
  have hr : r = (kvs, (setAt key put [] (pathOf key) (.dict data)).2) :=
    onRoot_dict (Prod.ext hkvs rfl)
  have hr' : r' = (s', (setAt text put [] (pathOf text) (.dict s)).2) :=
    onRoot_dict (Prod.ext hv.symm rfl)
  rw [hr, hr']
  refine ⟨⟨?_, fun q hq => ?_⟩, hname⟩
  · rw [← hkvs]
    exact hsub
  · have hq' : Node.Apart ((pathOf key).map Key.str) q := by
      rw [hkey, List.map_append]
      exact hq.append_right _
    rw [← hkvs]
    exact get_setAt_of_apart _ _ _ hq' _

theorem itemAt_sub {base path : List String} (hpath : path ≠ []) {t : Value α} {s : Entries α}
    (h : Node.sub (base.map Key.str) t = some s) :
    itemAt (base ++ path) t = itemAt path (.dict s) := by
  induction base generalizing t with
  | nil =>
    cases t with
    | leaf l => cases h
    | dict kvs =>
      cases h
      rfl
  | cons k rest ih =>
    cases t with
    | leaf l => cases h
    | dict kvs =>
      rw [List.map_cons, Node.sub] at h
      rw [List.cons_append, itemAt]
      cases hk : Dict.get? kvs (.str k) with
      | some v =>
        rw [hk, Option.getD_some] at h
        exact ih h
      | none =>
        rw [hk, Option.getD_none, Node.sub_empty] at h
        cases h
        obtain ⟨j, js, rfl⟩ := List.exists_cons_of_ne_nil hpath
        rfl

def Agrees (ns : String) (data : Entries α) (e e' : Effect α) : Prop :=
  Mirrors (textPath ns) e'.data data e.data ∧ e.outcome = e'.outcome

section Operations

variable (textOf : α → String) {ns : String} {data s : Entries α}

theorem agrees_writes {r r' : Entries α × Option StateError}
    (h : Mirrors (textPath ns) r'.1 data r.1) (he : r.2.map StateError.name = r'.2.map StateError.name) :
    Agrees ns data (writes r) (writes r') :=
  ⟨h, congrArg (Prod.mk none) he⟩

theorem set_agrees (h : Node.sub (textPath ns) (.dict data) = some s) (text : String)
    (value : Value α) :
    Agrees ns data (writes (set data (nsKey textOf ns (.str text)) value))
      (writes (set s (.str text) value)) := by
  rw [nsKey, set_text, set_text]
  obtain ⟨hm, he⟩ := onRoot_mirrors (fun _ => (value, none)) text h
  exact agrees_writes hm he

theorem update_singleton (data : Entries α) (key : Key α) (value : Value α) :
    update data [(key, value)] = updateKey data key value := by
  rw [update]
  cases updateKey data key value with
  | mk d e => cases e <;> rfl

theorem update_agrees {new : Entries α} (hk : ∀ p ∈ new, ∃ text, p.1 = .str text)
    (hw : WellFormedEntries new) (h : Node.sub (textPath ns) (.dict data) = some s) :
    Agrees ns data (writes (nsUpdate textOf ns data new)) (writes (update s new)) := by
  induction new generalizing data s with
  | nil => exact ⟨.refl h, rfl⟩
  | cons p rest ih =>
    obtain ⟨key, value⟩ := p
    obtain ⟨text, ht⟩ := hk _ List.mem_cons_self
    simp only at ht
    subst ht
    obtain ⟨hm, he⟩ := onRoot_mirrors (fun held => setItem false held value) text h
    rw [nsUpdate, update_singleton, nsKey, updateKey_text hw.1, update, updateKey_text hw.1]
    generalize onRoot (setAt (ns ++ "." ++ text) (fun held => setItem false held value) []
      (pathOf (ns ++ "." ++ text))) data = r at hm he
    generalize onRoot (setAt text (fun held => setItem false held value) [] (pathOf text)) s =
      r' at hm he
    obtain ⟨d, e⟩ := r
    obtain ⟨d', e'⟩ := r'
    cases e with
    | none =>
      cases e' with
      | some _ => cases he
      | none =>
        obtain ⟨hrest, hout⟩ := ih (List.forall_mem_cons.mp hk).2 hw.2 hm.sub
        exact ⟨hm.trans hrest, hout⟩
    | some e =>
      cases e' with
      | none => cases he
      | some e' => exact agrees_writes hm he

theorem current_sub (h : Node.sub (textPath ns) (.dict data) = some s) (text : String) :
    current data (nsKey textOf ns (.str text)) = current s (.str text) := by
  rw [nsKey, current_text, current_text, pathOf_append]
  exact itemAt_sub (pathOf_ne_nil text) h

theorem agrees_error (h : Node.sub (textPath ns) (.dict data) = some s) (e : StateError) :
    Agrees ns data (writes (data, some e)) (writes (s, some e)) := ⟨.refl h, rfl⟩

theorem append_agrees (h : Node.sub (textPath ns) (.dict data) = some s) (text : String)
    (value : Value α) :
    Agrees ns data (writes (append data (nsKey textOf ns (.str text)) value))
      (writes (append s (.str text) value)) := by
  have hset := set_agrees textOf h text
  have hcover : ∀ v, Agrees ns data (writes (cover data (nsKey textOf ns (.str text)) v))
      (writes (cover s (.str text) v)) := by
    intro v
    rw [nsKey, cover_text, cover_text]
    exact hset v
  rw [append, append, current_sub textOf h]
  cases current s (.str text) with
  | error e => exact agrees_error h e
  | ok held =>
    cases held with
    | dict kvs => exact hset _
    | leaf l =>
      cases l with
      | set xs =>
        simp only
        cases addAll xs [value] with
        | mk zs e =>
          cases e with
          | none => exact hcover _
          | some e => exact agrees_error h e
      | none => exact hset _
      | str t => exact hset _
      | atom a => exact hset _
      | tuple xs => exact hset _
      | list xs => exact hset _

theorem extend_agrees (h : Node.sub (textPath ns) (.dict data) = some s) (text : String)
    (values : List (Value α)) :
    Agrees ns data (writes (extend data (nsKey textOf ns (.str text)) values))
      (writes (extend s (.str text) values)) := by
  rw [extend, extend, current_sub textOf h]
  cases current s (.str text) with
  | error e => exact agrees_error h e
  | ok held => exact set_agrees textOf h text _

theorem delete_mirrors (h : Node.sub (textPath ns) (.dict data) = some s) (text : String) :
    Mirrors (textPath ns) (delete s (.str text)) data
      (delete data (nsKey textOf ns (.str text))) := by
  have hroot := delete_text data (ns ++ "." ++ text)
  rw [textPath_append] at hroot
  refine ⟨?_, fun q hq => ?_⟩
  · rw [nsKey, hroot]
    exact Node.sub_del (textPath_ne_nil text) h (delete_text s text).symm
  · rw [nsKey, hroot]
    exact Node.get_del_of_apart (hq.append_right _) _

theorem getLocal_sub (h : Node.sub (textPath ns) (.dict data) = some s) (text : String) :
    getLocal data (nsKey textOf ns (.str text)) = getLocal s (.str text) := by
  rw [nsKey, getLocal_text, getLocal_text, textPath_append,
    Node.get_append_of_sub (textPath_ne_nil text) h]

theorem pop_agrees (h : Node.sub (textPath ns) (.dict data) = some s) {text : String}
    (ht : isPath text = true) :
    Agrees ns data (takes (pop data (nsKey textOf ns (.str text))))
      (takes (pop s (.str text))) := by
  have hdel := delete_mirrors textOf h text
  have hroot : dotted (nsKey textOf ns (.str text)) = some (ns ++ "." ++ text) :=
    dotted_of_path (isPath_nsKey ns text)
  rw [pop, pop, hroot, dotted_of_path ht, getLocal_sub textOf h]
  cases getLocal s (.str text) with
  | none => exact ⟨.refl h, rfl⟩
  | some v => exact ⟨hdel, rfl⟩

omit [DecidableEq α] in
theorem textPath_plain (hns : isPath ns = false) : (textPath ns : List (Key α)) = [.str ns] := by
  rw [textPath, pathOf_of_plain hns]
  rfl

theorem plain_mirrors (hns : isPath ns = false) (data left : Entries α) :
    Mirrors (textPath ns) left data (Dict.set data (.str ns) (.dict left)) := by
  rw [textPath_plain hns]
  refine ⟨Node.sub_cons_set_self data (.str ns) (.dict left) [], fun q hq => ?_⟩
  cases q with
  | nil => exact absurd List.nil_prefix hq.2
  | cons j qs =>
    have hne : (Key.str ns : Key α) ≠ j := by
      rintro rfl
      exact hq.1 (List.cons_prefix_cons.mpr ⟨rfl, List.nil_prefix⟩)
    exact Node.get_cons_set_of_ne data hne _ qs

theorem nsPut_plain (hns : isPath ns = false) (left : Entries α) :
    nsPut ns data left = Dict.set data (.str ns) (.dict left) := by
  rw [nsPut, pathOf_of_plain hns]
  exact Dict.set_of_get? (Dict.get?_set_self data (.str ns) (.dict left))

theorem getLocal_eq_of_sub (h : Node.sub (textPath ns) (.dict data) = some s) :
    getLocal data (.str ns) = some (.dict s) ∨ getLocal data (.str ns) = none ∧ s = [] := by
  rw [getLocal_text]
  obtain hget | ⟨hget, hs⟩ := Node.get_eq_of_sub h
  · rw [hget]
    exact .inl rfl
  · rw [hget]
    exact .inr ⟨rfl, hs⟩

omit [DecidableEq α] in
theorem dotted_cases (key : Key α) :
    dotted key = none ∨ ∃ text, key = .str text ∧ isPath text = true := by
  cases key with
  | none => exact .inl rfl
  | other a => exact .inl rfl
  | str text =>
    cases ht : isPath text with
    | true => exact .inr ⟨text, rfl, ht⟩
    | false => exact .inl (dotted_of_plain ht)

theorem nsSet_agrees (h : Node.sub (textPath ns) (.dict data) = some s) (text : String)
    (hns : isPath ns = true → isPath text = true ∨ getLocal data (.str ns) ≠ none)
    (value : Value α) :
    Agrees ns data (writes (nsSet textOf ns data (.str text) value))
      (writes (set s (.str text) value)) := by
  have hset := set_agrees textOf h text value
  obtain hd | ⟨t, ht, hp⟩ := dotted_cases (Key.str text : Key α)
  · obtain hheld | ⟨hheld, rfl⟩ := getLocal_eq_of_sub h
    · rw [nsSet, hd, hheld]
      exact hset
    · have hplain : isPath ns = false := by
        by_contra hc
        obtain hc | hc := hns (by simpa using hc)
        · rw [dotted_of_path hc] at hd
          cases hd
        · exact hc hheld
      have hnew := plain_mirrors hplain data []
      obtain ⟨hm, he⟩ := set_agrees textOf hnew.sub text value
      rw [nsSet, hd, hheld]
      exact ⟨hnew.trans hm, he⟩
  · rw [nsSet, ht, dotted_of_path hp, ← ht]
    exact hset

theorem not_mem_of_absent (h : Node.sub (textPath ns) (.dict data) = some s) {key : Key α}
    (ha : Node.get (textPath ns ++ [key]) (.dict data) = none) : key ∉ Dict.keys s := by
  rw [Node.get_append_of_sub (by simp) h] at ha
  apply Dict.get?_eq_none_iff.mp
  cases hk : Dict.get? s key with
  | none => rfl
  | some v =>
    rw [Node.get_cons_of_some [] hk, Node.get_nil] at ha
    cases ha

theorem delete_of_plain {key : Key α} (hd : dotted key = none) (s : Entries α) :
    delete s key = Dict.del s key := by
  rw [delete, hd]

theorem nsDelItem_mirrors (h : Node.sub (textPath ns) (.dict data) = some s) {key : Key α}
    (hns : isPath ns = true → dotted key ≠ none ∨
      Node.get (textPath ns ++ [key]) (.dict data) = none) :
    Mirrors (textPath ns) (delete s key) data (nsDelItem textOf ns data key) := by
  obtain hd | ⟨text, rfl, hp⟩ := dotted_cases key
  · rw [delete_of_plain hd, nsDelItem, hd]
    obtain hheld | ⟨hheld, rfl⟩ := getLocal_eq_of_sub h
    · rw [hheld]
      simp only
      split
      · rename_i hmem
        have hplain : isPath ns = false := by
          by_contra hc
          obtain hc | hc := hns (by simpa using hc)
          · exact hc hd
          · exact not_mem_of_absent h hc hmem
        rw [nsPut_plain hplain]
        exact plain_mirrors hplain _ _
      · rename_i hmem
        rw [Dict.del_of_not_mem hmem]
        exact .refl h
    · rw [hheld]
      exact .refl h
  · rw [nsDelItem, dotted_of_path hp]
    exact delete_mirrors textOf h text

theorem nsPop_agrees (h : Node.sub (textPath ns) (.dict data) = some s) {key : Key α}
    (hns : isPath ns = true → dotted key ≠ none ∨
      Node.get (textPath ns ++ [key]) (.dict data) = none) :
    Agrees ns data (takes (nsPop textOf ns data key)) (takes (pop s key)) := by
  obtain hd | ⟨text, rfl, hp⟩ := dotted_cases key
  · rw [pop, nsPop, hd]
    obtain hheld | ⟨hheld, rfl⟩ := getLocal_eq_of_sub h
    · rw [hheld]
      simp only
      cases hk : Dict.get? s key with
      | none =>
        rw [Dict.del_of_not_mem (Dict.get?_eq_none_iff.mp hk)]
        exact ⟨.refl h, rfl⟩
      | some v =>
        have hplain : isPath ns = false := by
          by_contra hc
          obtain hc | hc := hns (by simpa using hc)
          · exact hc hd
          · rw [Dict.get?_eq_none_iff.mpr (not_mem_of_absent h hc)] at hk
            cases hk
        rw [nsPut_plain hplain]
        exact ⟨plain_mirrors hplain _ _, rfl⟩
    · rw [hheld]
      exact ⟨.refl h, rfl⟩
  · have hpop := pop_agrees textOf h hp
    rw [nsPop, dotted_of_path hp]
    exact hpop

end Operations

/-- The keys are texts. The namespace has no dot, or the operation does not use it as a root
key: no `clear`, no deletion of a held key without a dot, and no such key set where nothing is
held at the namespace. -/
def Fits (ns : String) (data : Entries α) : Op α → Prop
  | .set key _ => ∃ text, key = .str text ∧
      (isPath ns = true → isPath text = true ∨ getLocal data (.str ns) ≠ none)
  | .update new => ∀ p ∈ new, ∃ text, p.1 = .str text
  | .append key _ | .extend key _ | .delete key => ∃ text, key = .str text
  | .delItem key | .pop key => isPath ns = true →
      dotted key ≠ none ∨ Node.get (textPath ns ++ [key]) (.dict data) = none
  | .clear => isPath ns = false

def Op.WellFormed : Op α → Prop
  | .update new => WellFormedEntries new
  | _ => True

theorem nsStep_agrees (textOf : α → String) {ns : String} {data s : Entries α} {op : Op α}
    (hw : op.WellFormed) (hf : Fits ns data op)
    (h : Node.sub (textPath ns) (.dict data) = some s) :
    Agrees ns data (nsStep textOf ns data op) (step s op) := by
  cases op with
  | set key value =>
    obtain ⟨text, rfl, hns⟩ := hf
    exact nsSet_agrees textOf h text hns value
  | update new => exact update_agrees textOf hf hw h
  | append key value =>
    obtain ⟨text, rfl⟩ := hf
    exact append_agrees textOf h text value
  | extend key values =>
    obtain ⟨text, rfl⟩ := hf
    exact extend_agrees textOf h text values
  | delete key =>
    obtain ⟨text, rfl⟩ := hf
    exact agrees_writes (delete_mirrors textOf h text) rfl
  | delItem key => exact agrees_writes (nsDelItem_mirrors textOf h hf) rfl
  | pop key => exact nsPop_agrees textOf h hf
  | clear => exact agrees_writes (plain_mirrors hf _ []) rfl

def runOps (f : Entries α → Op α → Effect α) (data : Entries α) :
    List (Op α) → Entries α × List (Option (Value α) × Option String)
  | [] => (data, [])
  | op :: ops =>
    let rest := runOps f (f data op).data ops
    (rest.1, (f data op).outcome :: rest.2)

def FitsRun (textOf : α → String) (ns : String) : Entries α → List (Op α) → Prop
  | _, [] => True
  | data, op :: ops => Fits ns data op ∧ FitsRun textOf ns (nsStep textOf ns data op).data ops

/-- In a run whose steps fit, the dictionary at the namespace goes through what the same
operations do to it, and the rest of the root stays. -/
theorem namespace_frames (textOf : α → String) {ns : String} {data s : Entries α}
    {ops : List (Op α)} (hw : ∀ op ∈ ops, op.WellFormed) (hf : FitsRun textOf ns data ops)
    (h : Node.sub (textPath ns) (.dict data) = some s) :
    let root := runOps (nsStep textOf ns) data ops
    let alone := runOps step s ops
    Node.sub (textPath ns) (.dict root.1) = some alone.1 ∧ root.2 = alone.2 ∧
      ∀ q, Node.Apart (textPath ns) q → Node.get q (.dict root.1) = Node.get q (.dict data) := by
  induction ops generalizing data s with
  | nil => exact ⟨h, rfl, fun _ _ => rfl⟩
  | cons op ops ih =>
    obtain ⟨hm, hout⟩ := nsStep_agrees textOf (hw op List.mem_cons_self) hf.1 h
    obtain ⟨hsub, houts, hapart⟩ :=
      ih (List.forall_mem_cons.mp hw).2 hf.2 hm.sub
    exact ⟨hsub, List.cons_eq_cons.mpr ⟨hout, houts⟩,
      fun q hq => (hapart q hq).trans (hm.apart q hq)⟩

theorem namespace_frames_appended :
    let ops := [Op.append (.str "k") (.leaf (.atom (1 : ℤ))), .update [(.str "m.n", .leaf .none)],
      .delete (.str "k")]
    let root := runOps (nsStep toString "a.b") [(.str "c", .leaf .none)] ops
    let alone := runOps step [] ops
    Node.sub (textPath "a.b") (.dict root.1) = some alone.1 ∧ root.2 = alone.2 ∧
      ∀ q, Node.Apart (textPath "a.b") q →
        Node.get q (.dict root.1) = Node.get q (.dict [(.str "c", .leaf .none)]) := by
  apply namespace_frames
  · simp [Op.WellFormed, WellFormedEntries, WellFormed]
  · exact ⟨⟨"k", rfl⟩, fun p hp => ⟨"m.n", by rw [List.mem_singleton.mp hp]⟩, ⟨"k", rfl⟩, trivial⟩
  · rfl

/-- `set` where nothing is held at the namespace, `pop` and `clear` write the namespace as one
key into the root, and `clear` empties nothing. -/
theorem root_key_written :
    let value : Value ℤ := .leaf (.atom 1)
    let held : Entries ℤ := [(.str "a", .dict [(.str "b", .dict [(.str "k", value)])])]
    (nsStep toString "a.b" [] (.set (.str "k") value)).data = (.str "a.b", .dict []) :: held ∧
      (nsStep toString "a.b" held (.pop (.str "k"))).data =
        [(.str "a", .dict [(.str "b", .dict [])]), (.str "a.b", .dict [])] ∧
      (nsStep toString "a.b" held .clear).data = held ++ [(.str "a.b", .dict [])] :=
  ⟨rfl, rfl, rfl⟩

end Agently.StateTree
