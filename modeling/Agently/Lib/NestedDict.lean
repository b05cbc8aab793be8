import Agently.Lib.Dict

/-! # Nested dictionaries

A node is a value or a dictionary of nodes, and a path is a list of keys. Setting at a path
makes the dictionaries that are missing on the way and fails at a value. What is set or
deleted at one path is not seen at another unless one path goes on from the other. -/

namespace Agently.Lib

universe u v

inductive Node (κ : Type u) (ν : Type v) where
  | leaf (value : ν)
  | dict (entries : List (κ × Node κ ν))

namespace Node

variable {κ : Type u} {ν : Type v} [DecidableEq κ]

def get : List κ → Node κ ν → Option (Node κ ν)
  | [], n => some n
  | _ :: _, .leaf _ => none
  | k :: rest, .dict kvs =>
    match Dict.get? kvs k with
    | some n => get rest n
    | none => none

def set : List κ → Node κ ν → Node κ ν → Option (Node κ ν)
  | [], new, _ => some new
  | _ :: _, _, .leaf _ => none
  | k :: rest, new, .dict kvs =>
    (set rest new ((Dict.get? kvs k).getD (.dict []))).map fun n => .dict (Dict.set kvs k n)

def del : List κ → Node κ ν → Node κ ν
  | [], n => n
  | _ :: _, .leaf v => .leaf v
  | [k], .dict kvs => .dict (Dict.del kvs k)
  | k :: j :: rest, .dict kvs =>
    match Dict.get? kvs k with
    | some n => .dict (Dict.set kvs k (del (j :: rest) n))
    | none => .dict kvs

def Apart (p q : List κ) : Prop := ¬ p <+: q ∧ ¬ q <+: p

variable {p q : List κ}

omit [DecidableEq κ] in
theorem Apart.symm (h : Apart p q) : Apart q p := ⟨h.2, h.1⟩

variable {k : κ}

omit [DecidableEq κ] in
theorem Apart.cons (h : Apart (k :: p) (k :: q)) : Apart p q :=
  ⟨fun hp => h.1 (List.cons_prefix_cons.mpr ⟨rfl, hp⟩),
    fun hq => h.2 (List.cons_prefix_cons.mpr ⟨rfl, hq⟩)⟩

omit [DecidableEq κ] in
theorem Apart.append_left (base : List κ) (h : Apart p q) :
    Apart (base ++ p) (base ++ q) :=
  ⟨fun hp => h.1 ((List.prefix_append_right_inj base).mp hp),
    fun hq => h.2 ((List.prefix_append_right_inj base).mp hq)⟩

@[simp] theorem get_nil (n : Node κ ν) : get [] n = some n := by
  cases n <;> rfl

theorem get_empty (hp : p ≠ []) : get p (.dict [] : Node κ ν) = none := by
  cases p with
  | nil => exact absurd rfl hp
  | cons k rest => rfl

variable {kvs : List (κ × Node κ ν)} {n : Node κ ν}

theorem get_cons_of_some (rest : List κ)
    (h : Dict.get? kvs k = some n) : get (k :: rest) (.dict kvs) = get rest n := by
  rw [get, h]

theorem get_cons_of_none (rest : List κ)
    (h : Dict.get? kvs k = none) : get (k :: rest) (.dict kvs) = none := by
  rw [get, h]

theorem get_cons_getD {rest : List κ} (hr : rest ≠ []) :
    get (k :: rest) (.dict kvs) = get rest ((Dict.get? kvs k).getD (.dict [])) := by
  cases hk : Dict.get? kvs k with
  | none => rw [get_cons_of_none rest hk, Option.getD_none, get_empty hr]
  | some n => rw [get_cons_of_some rest hk, Option.getD_some]

theorem get_cons_set_self (kvs : List (κ × Node κ ν)) (k : κ) (n : Node κ ν) (rest : List κ) :
    get (k :: rest) (.dict (Dict.set kvs k n)) = get rest n :=
  get_cons_of_some rest (Dict.get?_set_self kvs k n)

theorem get_cons_set_of_ne (kvs : List (κ × Node κ ν)) {j : κ} (h : k ≠ j) (n : Node κ ν)
    (rest : List κ) : get (j :: rest) (.dict (Dict.set kvs k n)) = get (j :: rest) (.dict kvs) := by
  rw [get, get, Dict.get?_set_of_ne kvs n h]

variable {new t t' : Node κ ν}

theorem set_cons_eq_some {rest : List κ} (h : set (k :: rest) new t = some t') :
    ∃ kvs n, t = .dict kvs ∧ set rest new ((Dict.get? kvs k).getD (.dict [])) = some n ∧
      t' = .dict (Dict.set kvs k n) := by
  cases t with
  | leaf v => cases h
  | dict kvs =>
    rw [set] at h
    obtain ⟨n, hn, rfl⟩ := Option.map_eq_some_iff.mp h
    exact ⟨kvs, n, rfl, hn, rfl⟩

theorem get_set_self (h : set p new t = some t') :
    get p t' = some new := by
  induction p generalizing t t' with
  | nil =>
    cases h
    exact get_nil _
  | cons k rest ih =>
    obtain ⟨kvs, n, rfl, hn, rfl⟩ := set_cons_eq_some h
    rw [get_cons_set_self]
    exact ih hn

theorem get_set_of_apart (hpq : Apart p q) (h : set p new t = some t') : get q t' = get q t := by
  induction p generalizing q t t' with
  | nil => exact absurd List.nil_prefix hpq.1
  | cons k rest ih =>
    obtain ⟨kvs, n, rfl, hn, rfl⟩ := set_cons_eq_some h
    cases q with
    | nil => exact absurd List.nil_prefix hpq.2
    | cons j qs =>
      by_cases hk : k = j
      · subst hk
        have hne : qs ≠ [] := by
          rintro rfl
          exact hpq.cons.2 List.nil_prefix
        rw [get_cons_set_self, get_cons_getD hne]
        exact ih hpq.cons hn
      · exact get_cons_set_of_ne kvs hk n qs

theorem isSome_set_of_apart (hpq : Apart p q)
    (h : set p new t = some t') (m : Node κ ν) : (set q m t').isSome = (set q m t).isSome := by
  induction p generalizing q t t' with
  | nil => exact absurd List.nil_prefix hpq.1
  | cons k rest ih =>
    obtain ⟨kvs, n, rfl, hn, rfl⟩ := set_cons_eq_some h
    cases q with
    | nil => exact absurd List.nil_prefix hpq.2
    | cons j qs =>
      rw [set, set, Option.isSome_map, Option.isSome_map]
      by_cases hk : k = j
      · subst hk
        rw [Dict.get?_set_self, Option.getD_some]
        exact ih hpq.cons hn
      · rw [Dict.get?_set_of_ne kvs n hk]

theorem get_set_of_prefix (hq : q <+: p)
    (h : set p new t = some t') : (get q t').isSome = true := by
  induction p generalizing q t t' with
  | nil =>
    rw [List.prefix_nil.mp hq, get_nil]
    rfl
  | cons k rest ih =>
    obtain ⟨kvs, n, rfl, hn, rfl⟩ := set_cons_eq_some h
    cases q with
    | nil =>
      rw [get_nil]
      rfl
    | cons j qs =>
      obtain ⟨rfl, hqs⟩ := List.cons_prefix_cons.mp hq
      rw [get_cons_set_self]
      exact ih hqs hn

theorem set_empty (p : List κ) (new : Node κ ν) : (set p new (.dict [])).isSome = true := by
  induction p with
  | nil => rfl
  | cons k rest ih =>
    rw [set, Option.isSome_map]
    exact ih

theorem set_of_get (h : get p t = some n) (new : Node κ ν) :
    (set p new t).isSome = true := by
  induction p generalizing t with
  | nil => rfl
  | cons k rest ih =>
    cases t with
    | leaf v => cases h
    | dict kvs =>
      rw [set, Option.isSome_map]
      cases hk : Dict.get? kvs k with
      | none => exact set_empty rest new
      | some m =>
        rw [get_cons_of_some rest hk] at h
        exact ih h

theorem del_cons_dict {rest : List κ} (hr : rest ≠ []) (kvs : List (κ × Node κ ν)) :
    del (k :: rest) (.dict kvs) = match Dict.get? kvs k with
      | some n => .dict (Dict.set kvs k (del rest n))
      | none => .dict kvs := by
  cases rest with
  | nil => exact absurd rfl hr
  | cons j rest => rfl

theorem get_del_self (hp : p ≠ []) (t : Node κ ν) : get p (del p t) = none := by
  induction p generalizing t with
  | nil => exact absurd rfl hp
  | cons k rest ih =>
    cases t with
    | leaf v => cases rest <;> rfl
    | dict kvs =>
      cases rest with
      | nil => exact get_cons_of_none [] (Dict.get?_del_self kvs k)
      | cons j rest =>
        rw [del_cons_dict (by simp)]
        cases hk : Dict.get? kvs k with
        | none => exact get_cons_of_none _ hk
        | some n =>
          simp only
          rw [get_cons_set_self]
          exact ih (by simp) n

theorem get_del_of_apart (hpq : Apart p q) (t : Node κ ν) :
    get q (del p t) = get q t := by
  induction p generalizing q t with
  | nil => exact absurd List.nil_prefix hpq.1
  | cons k rest ih =>
    cases q with
    | nil => exact absurd List.nil_prefix hpq.2
    | cons j qs =>
      cases t with
      | leaf v => cases rest <;> rfl
      | dict kvs =>
        cases rest with
        | nil =>
          have hk : k ≠ j := by
            rintro rfl
            exact hpq.cons.1 List.nil_prefix
          rw [del, get, get, Dict.get?_del_of_ne kvs hk]
        | cons i rest =>
          rw [del_cons_dict (by simp)]
          cases hk : Dict.get? kvs k with
          | none => rfl
          | some n =>
            simp only
            by_cases hkj : k = j
            · subst hkj
              rw [get_cons_set_self, get_cons_of_some qs hk]
              exact ih hpq.cons n
            · exact get_cons_set_of_ne kvs hkj _ qs

theorem isSome_set_del_of_apart (hpq : Apart p q) (t m : Node κ ν) :
    (set q m (del p t)).isSome = (set q m t).isSome := by
  induction p generalizing q t with
  | nil => exact absurd List.nil_prefix hpq.1
  | cons k rest ih =>
    cases q with
    | nil => exact absurd List.nil_prefix hpq.2
    | cons j qs =>
      cases t with
      | leaf v => cases rest <;> rfl
      | dict kvs =>
        cases rest with
        | nil =>
          have hk : k ≠ j := by
            rintro rfl
            exact hpq.cons.1 List.nil_prefix
          rw [del, set, set, Option.isSome_map, Option.isSome_map,
            Dict.get?_del_of_ne kvs hk]
        | cons i rest =>
          rw [del_cons_dict (by simp)]
          cases hk : Dict.get? kvs k with
          | none => rfl
          | some n =>
            simp only
            rw [set, set, Option.isSome_map, Option.isSome_map]
            by_cases hkj : k = j
            · subst hkj
              rw [Dict.get?_set_self, Option.getD_some, hk, Option.getD_some]
              exact ih hpq.cons n
            · rw [Dict.get?_set_of_ne kvs _ hkj]

theorem isSome_set_entry (h : get p t = some (.dict kvs)) (k : κ) (n : Node κ ν) :
    (set (p ++ [k]) n t).isSome = true := by
  induction p generalizing t with
  | nil =>
    rw [get_nil] at h
    cases h
    rfl
  | cons j rest ih =>
    cases t with
    | leaf v => cases h
    | dict jvs =>
      cases hj : Dict.get? jvs j with
      | none =>
        rw [get_cons_of_none rest hj] at h
        cases h
      | some m =>
        rw [get_cons_of_some rest hj] at h
        rw [List.cons_append, set, Option.isSome_map, hj, Option.getD_some]
        exact ih h

theorem get_set_entry (h : get p t = some (.dict kvs)) (hs : set (p ++ [k]) n t = some t') :
    get p t' = some (.dict (Dict.set kvs k n)) := by
  induction p generalizing t t' with
  | nil =>
    rw [get_nil] at h
    cases h
    cases hs
    exact get_nil _
  | cons j rest ih =>
    obtain ⟨jvs, m, rfl, hm, rfl⟩ := set_cons_eq_some hs
    rw [get_cons_set_self]
    cases hj : Dict.get? jvs j with
    | none =>
      rw [get_cons_of_none rest hj] at h
      cases h
    | some m' =>
      rw [get_cons_of_some rest hj] at h
      rw [hj, Option.getD_some] at hm
      exact ih h hm

theorem get_set_first (h : get p t = none)
    (hs : set (p ++ [k]) n t = some t') : get p t' = some (.dict [(k, n)]) := by
  induction p generalizing t t' with
  | nil =>
    rw [get_nil] at h
    cases h
  | cons j rest ih =>
    obtain ⟨jvs, m, rfl, hm, rfl⟩ := set_cons_eq_some hs
    rw [get_cons_set_self]
    cases hj : Dict.get? jvs j with
    | some m' =>
      rw [get_cons_of_some rest hj] at h
      rw [hj, Option.getD_some] at hm
      exact ih h hm
    | none =>
      rw [hj, Option.getD_none] at hm
      cases rest with
      | nil => exact get_set_entry (get_nil _) hm
      | cons i rest => exact ih rfl hm

theorem get_of_prefix_none (hpq : p <+: q) (h : get p t = none) :
    get q t = none := by
  induction p generalizing q t with
  | nil =>
    rw [get_nil] at h
    cases h
  | cons k rest ih =>
    cases q with
    | nil => exact absurd (List.prefix_nil.mp hpq) (by simp)
    | cons j qs =>
      obtain ⟨rfl, hqs⟩ := List.cons_prefix_cons.mp hpq
      cases t with
      | leaf v => rfl
      | dict kvs =>
        cases hk : Dict.get? kvs k with
        | none => exact get_cons_of_none qs hk
        | some n =>
          rw [get_cons_of_some rest hk] at h
          rw [get_cons_of_some qs hk]
          exact ih hqs h

theorem isSome_set_del_of_prefix (hp : p ≠ []) (hpq : p <+: q)
    {x : Node κ ν} (h : (set p x t).isSome = true) (m : Node κ ν) :
    (set q m (del p t)).isSome = true := by
  induction p generalizing q t with
  | nil => exact absurd rfl hp
  | cons k rest ih =>
    cases q with
    | nil => exact absurd (List.prefix_nil.mp hpq) (by simp)
    | cons j qs =>
      obtain ⟨rfl, hqs⟩ := List.cons_prefix_cons.mp hpq
      cases t with
      | leaf v => cases h
      | dict kvs =>
        cases rest with
        | nil =>
          rw [del, set, Option.isSome_map, Dict.get?_del_self]
          exact set_empty qs m
        | cons i rest =>
          rw [set, Option.isSome_map] at h
          rw [del_cons_dict (by simp)]
          cases hk : Dict.get? kvs k with
          | none =>
            simp only
            rw [set, Option.isSome_map, hk]
            exact set_empty qs m
          | some inner =>
            rw [hk] at h
            simp only
            rw [set, Option.isSome_map, Dict.get?_set_self, Option.getD_some]
            exact ih (by simp) hqs h

def setEach : List (List κ × Node κ ν) → Node κ ν → Option (Node κ ν)
  | [], t => some t
  | b :: rest, t => (set b.1 b.2 t).bind (setEach rest)

def PathsApart (bs : List (List κ × Node κ ν)) : Prop := bs.Pairwise fun a b => Apart a.1 b.1

theorem setEach_cons_eq_some {b : List κ × Node κ ν} {rest : List (List κ × Node κ ν)}
    (h : setEach (b :: rest) t = some t') :
    ∃ u, set b.1 b.2 t = some u ∧ setEach rest u = some t' :=
  Option.bind_eq_some_iff.mp h

variable {bs : List (List κ × Node κ ν)}

theorem get_setEach_of_apart (hq : ∀ b ∈ bs, Apart b.1 q) (h : setEach bs t = some t') :
    get q t' = get q t := by
  induction bs generalizing t with
  | nil =>
    cases h
    rfl
  | cons b rest ih =>
    obtain ⟨u, hu, hrest⟩ := setEach_cons_eq_some h
    rw [ih (fun c hc => hq c (List.mem_cons_of_mem b hc)) hrest]
    exact get_set_of_apart (hq b List.mem_cons_self) hu

theorem get_setEach_self (hbs : PathsApart bs)
    (h : setEach bs t = some t') : ∀ b ∈ bs, get b.1 t' = some b.2 := by
  induction bs generalizing t with
  | nil => exact List.forall_mem_nil _
  | cons b rest ih =>
    obtain ⟨u, hu, hrest⟩ := setEach_cons_eq_some h
    obtain ⟨hb, hrestApart⟩ := List.pairwise_cons.mp hbs
    intro c hc
    rcases List.mem_cons.mp hc with rfl | hc
    · rw [get_setEach_of_apart (fun d hd => (hb d hd).symm) hrest]
      exact get_set_self hu
    · exact ih hrestApart hrest c hc

theorem isSome_setEach (hbs : PathsApart bs) :
    (setEach bs t).isSome = true ↔ ∀ b ∈ bs, (set b.1 b.2 t).isSome = true := by
  induction bs generalizing t with
  | nil => simp [setEach]
  | cons b rest ih =>
    obtain ⟨hb, hrest⟩ := List.pairwise_cons.mp hbs
    cases hu : set b.1 b.2 t with
    | none => simp [setEach, hu]
    | some u =>
      have hsame : ∀ c ∈ rest, (set c.1 c.2 u).isSome = (set c.1 c.2 t).isSome :=
        fun c hc => isSome_set_of_apart (hb c hc) hu c.2
      rw [setEach, hu, Option.bind_some, ih hrest]
      constructor
      · intro h c hc
        rcases List.mem_cons.mp hc with rfl | hc
        · rw [hu]
          rfl
        · rw [← hsame c hc]
          exact h c hc
      · intro h c hc
        rw [hsame c hc]
        exact h c (List.mem_cons_of_mem b hc)

theorem isSome_set_iff :
    (set p new t).isSome = true ↔ ∀ q v, q <+: p → q ≠ p → get q t ≠ some (.leaf v) := by
  induction p generalizing t with
  | nil =>
    refine ⟨fun _ q v hq hne => absurd (List.prefix_nil.mp hq) hne, fun _ => rfl⟩
  | cons k rest ih =>
    cases t with
    | leaf v =>
      refine ⟨nofun, fun h => ?_⟩
      exact absurd (get_nil _) (h [] v List.nil_prefix (by simp))
    | dict kvs =>
      rw [set, Option.isSome_map, ih]
      constructor
      · intro h q v hq hne
        cases q with
        | nil => simp
        | cons j qs =>
          obtain ⟨rfl, hqs⟩ := List.cons_prefix_cons.mp hq
          have hqs' : qs ≠ rest := fun e => hne (by rw [e])
          cases hk : Dict.get? kvs j with
          | none => simp [get_cons_of_none qs hk]
          | some n =>
            rw [get_cons_of_some qs hk]
            rw [hk] at h
            exact h qs v hqs hqs'
      · intro h q v hq hne
        have hcons := h (k :: q) v (List.cons_prefix_cons.mpr ⟨rfl, hq⟩) (by simpa using hne)
        cases hk : Dict.get? kvs k with
        | none =>
          cases q with
          | nil => simp
          | cons j qs => simp [get]
        | some n =>
          rw [get_cons_of_some q hk] at hcons
          exact hcons

theorem get_append (p q : List κ) (t : Node κ ν) :
    get (p ++ q) t = (get p t).bind (get q) := by
  induction p generalizing t with
  | nil => simp
  | cons k rest ih =>
    cases t with
    | leaf v => rfl
    | dict kvs =>
      rw [List.cons_append]
      cases hk : Dict.get? kvs k with
      | none => rw [get_cons_of_none _ hk, get_cons_of_none _ hk, Option.bind_none]
      | some n => rw [get_cons_of_some _ hk, get_cons_of_some _ hk, ih]

omit [DecidableEq κ] in
theorem Apart.append_right (h : Apart p q) (r : List κ) : Apart (p ++ r) q := by
  refine ⟨fun hp => h.1 ((List.prefix_append p r).trans hp), fun hq => ?_⟩
  obtain hpq | hqp := List.prefix_or_prefix_of_prefix (List.prefix_append p r) hq
  · exact h.1 hpq
  · exact h.2 hqp

def sub : List κ → Node κ ν → Option (List (κ × Node κ ν))
  | [], .dict kvs => some kvs
  | k :: rest, .dict kvs => sub rest ((Dict.get? kvs k).getD (.dict []))
  | _, .leaf _ => none

theorem sub_empty (p : List κ) : sub p (.dict [] : Node κ ν) = some [] := by
  induction p with
  | nil => rfl
  | cons k rest ih => exact ih

theorem sub_cons_set_self (kvs : List (κ × Node κ ν)) (k : κ) (n : Node κ ν) (rest : List κ) :
    sub (k :: rest) (.dict (Dict.set kvs k n)) = sub rest n := by
  rw [sub, Dict.get?_set_self, Option.getD_some]

variable {s : List (κ × Node κ ν)}

theorem get_eq_of_sub
    (h : sub p t = some s) : get p t = some (.dict s) ∨ get p t = none ∧ s = [] := by
  induction p generalizing t with
  | nil =>
    cases t with
    | leaf v => cases h
    | dict kvs =>
      cases h
      exact .inl (get_nil _)
  | cons k rest ih =>
    cases t with
    | leaf v => cases h
    | dict kvs =>
      rw [sub] at h
      cases hk : Dict.get? kvs k with
      | none =>
        rw [hk, Option.getD_none, sub_empty] at h
        cases h
        exact .inr ⟨get_cons_of_none rest hk, rfl⟩
      | some n =>
        rw [hk, Option.getD_some] at h
        rw [get_cons_of_some rest hk]
        exact ih h

theorem get_append_of_sub (hq : q ≠ [])
    (h : sub p t = some s) : get (p ++ q) t = get q (.dict s) := by
  rw [get_append]
  obtain hp | ⟨hp, rfl⟩ := get_eq_of_sub h
  · rw [hp, Option.bind_some]
  · rw [hp, Option.bind_none, get_empty hq]

theorem del_empty (hq : q ≠ []) : del q (.dict [] : Node κ ν) = .dict [] := by
  cases q with
  | nil => exact absurd rfl hq
  | cons k rest => cases rest <;> rfl

theorem del_dict (hq : q ≠ []) (kvs : List (κ × Node κ ν)) :
    ∃ kvs', del q (.dict kvs) = .dict kvs' := by
  cases q with
  | nil => exact absurd rfl hq
  | cons k rest =>
    cases rest with
    | nil => exact ⟨_, rfl⟩
    | cons j rest =>
      rw [del_cons_dict (by simp)]
      cases Dict.get? kvs k with
      | none => exact ⟨_, rfl⟩
      | some n => exact ⟨_, rfl⟩

theorem sub_del (hq : q ≠ []) {s' : List (κ × Node κ ν)}
    (h : sub p t = some s) (hs : del q (.dict s) = .dict s') : sub p (del (p ++ q) t) = some s' := by
  induction p generalizing t with
  | nil =>
    cases t with
    | leaf v => cases h
    | dict kvs =>
      cases h
      rw [List.nil_append, hs]
      rfl
  | cons k rest ih =>
    cases t with
    | leaf v => cases h
    | dict kvs =>
      have hne : rest ++ q ≠ [] := by simp [hq]
      rw [sub] at h
      rw [List.cons_append, del_cons_dict hne]
      cases hk : Dict.get? kvs k with
      | none =>
        rw [hk, Option.getD_none, sub_empty] at h
        cases h
        rw [del_empty hq] at hs
        cases hs
        simp only
        rw [sub, hk, Option.getD_none, sub_empty]
      | some n =>
        rw [hk, Option.getD_some] at h
        simp only
        rw [sub_cons_set_self]
        exact ih h

def value? : Node κ ν → Option ν
  | .leaf v => some v
  | .dict _ => none

def Same (s t : Node κ ν) : Prop := ∀ q, (get q s).map value? = (get q t).map value?

theorem Same.refl (t : Node κ ν) : Same t t := fun _ => rfl

theorem value?_of_below {r : List κ} (hr : r ≠ []) (h : get (q ++ r) t = some n) :
    (get q t).map value? = some none := by
  rw [get_append] at h
  obtain ⟨m, hm, hn⟩ := Option.bind_eq_some_iff.mp h
  rw [hm, Option.map_some]
  cases m with
  | dict kvs => rfl
  | leaf v =>
    cases r with
    | nil => exact absurd rfl hr
    | cons k rest => cases hn

theorem same_setEach_of_perm {cs : List (List κ × Node κ ν)} (hbs : PathsApart bs)
    (hperm : cs.Perm bs) {s' : Node κ ν} (hs : setEach cs t = some s')
    (ht : setEach bs t = some t') : Same s' t' := by
  have hcs : PathsApart cs := (hperm.pairwise_iff fun h => h.symm).mpr hbs
  intro q
  by_cases hq : ∀ b ∈ bs, Apart b.1 q
  · rw [get_setEach_of_apart hq ht,
      get_setEach_of_apart (fun c hc => hq c (hperm.mem_iff.mp hc)) hs]
  · push Not at hq
    obtain ⟨b, hb, hnot⟩ := hq
    have hself := get_setEach_self hbs ht b hb
    have hself' := get_setEach_self hcs hs b (hperm.mem_iff.mpr hb)
    by_cases hbq : b.1 <+: q
    · obtain ⟨r, rfl⟩ := hbq
      rw [get_append, get_append, hself, hself']
    · have hqb : q <+: b.1 := by
        by_contra hno
        exact hnot ⟨hbq, hno⟩
      obtain ⟨r, hr⟩ := hqb
      have hne : r ≠ [] := by
        rintro rfl
        rw [List.append_nil] at hr
        rw [hr] at hbq
        exact hbq (List.prefix_refl _)
      rw [← hr] at hself hself'
      rw [value?_of_below hne hself, value?_of_below hne hself']

theorem keys_setEach (hne : ∀ b ∈ bs, b.1 ≠ []) (h : setEach bs (.dict kvs) = some t') :
    ∃ kvs', t' = .dict kvs' ∧ ((Dict.keys kvs).Nodup → (Dict.keys kvs').Nodup) ∧
      ∀ k, k ∈ Dict.keys kvs' ↔ k ∈ Dict.keys kvs ∨ ∃ b ∈ bs, b.1.head? = some k := by
  induction bs generalizing kvs with
  | nil =>
    cases h
    exact ⟨kvs, rfl, id, fun k => by simp⟩
  | cons b rest ih =>
    obtain ⟨u, hu, hrest⟩ := setEach_cons_eq_some h
    obtain ⟨p, new⟩ := b
    cases p with
    | nil => exact absurd rfl (hne _ List.mem_cons_self)
    | cons j js =>
      obtain ⟨kvs₀, n, hkvs, -, rfl⟩ := set_cons_eq_some hu
      cases hkvs
      obtain ⟨kvs', rfl, hnodup, hkeys⟩ :=
        ih (List.forall_mem_cons.mp hne).2 hrest
      refine ⟨kvs', rfl, fun hn => hnodup (Dict.nodup_keys_set hn j n), fun k => ?_⟩
      rw [hkeys k, Dict.mem_keys_set]
      constructor
      · rintro ((rfl | hk) | ⟨c, hc, hk⟩)
        · exact .inr ⟨_, List.mem_cons_self, rfl⟩
        · exact .inl hk
        · exact .inr ⟨c, List.mem_cons_of_mem _ hc, hk⟩
      · rintro (hk | ⟨c, hc, hk⟩)
        · exact .inl (.inr hk)
        · rcases List.mem_cons.mp hc with rfl | hc
          · exact .inl (.inl (Option.some.inj hk).symm)
          · exact .inr ⟨c, hc, hk⟩

end Node

end Agently.Lib
