import Agently.Lib.TopologicalSort

/-! # Lists of nodes that name their dependencies

A node has an identifier and the identifiers of the nodes it depends on. Where the
identifiers are unique and all named ones are there, counting sorts the list exactly when
its dependency relation is acyclic. -/

namespace Agently.Lib.DependencyList

universe u v

variable {ν : Type u} {α : Type v} [DecidableEq α] (ident : ν → α) (deps : ν → List α)

def find (nodes : List ν) (x : α) : Option ν := nodes.find? fun n => decide (ident n = x)

def dependsOn (nodes : List ν) (x : α) : List α := ((find ident nodes x).map deps).getD []

def children (nodes : List ν) (d : α) : List α :=
  nodes.flatMap fun n => ((deps n).filter fun e => e = d).map fun _ => ident n

def roots (nodes : List ν) : List α := (nodes.filter fun n => (deps n).isEmpty).map ident

def sorted (nodes : List ν) : TopologicalSort.State α :=
  TopologicalSort.rounds (children ident deps nodes) (nodes.map ident).length
    { queue := roots ident deps nodes
      ordered := []
      indegree := fun x => (dependsOn ident deps nodes x).length }

structure References (nodes : List ν) : Prop where
  nodup : (nodes.map ident).Nodup
  known : ∀ n ∈ nodes, ∀ d ∈ deps n, d ∈ nodes.map ident

variable {ident deps} {nodes : List ν}

theorem find_of_mem (hn : (nodes.map ident).Nodup) {n : ν} (h : n ∈ nodes) :
    find ident nodes (ident n) = some n := by
  unfold find
  cases hf : nodes.find? fun m => decide (ident m = ident n) with
  | none =>
    have hnone := List.find?_eq_none.mp hf n h
    simp at hnone
  | some m =>
    have hid : ident m = ident n := by simpa using List.find?_some hf
    have hmem := List.mem_of_find?_eq_some hf
    exact congrArg some (List.inj_on_of_nodup_map hn hmem h hid)

theorem find_spec {x : α} {n : ν} (h : find ident nodes x = some n) : n ∈ nodes ∧ ident n = x :=
  ⟨List.mem_of_find?_eq_some h, by simpa using List.find?_some h⟩

theorem find_of_mem_ids (hn : (nodes.map ident).Nodup) {x : α} (h : x ∈ nodes.map ident) :
    ∃ n ∈ nodes, ident n = x ∧ find ident nodes x = some n := by
  obtain ⟨n, hm, rfl⟩ := List.mem_map.mp h
  exact ⟨n, hm, rfl, find_of_mem hn hm⟩

theorem dependsOn_of_mem (hn : (nodes.map ident).Nodup) {n : ν} (h : n ∈ nodes) :
    dependsOn ident deps nodes (ident n) = deps n := by
  rw [dependsOn, find_of_mem hn h]
  rfl

theorem References.dependsOn (h : References ident deps nodes) {x : α} (hx : x ∈ nodes.map ident) :
    ∀ d ∈ dependsOn ident deps nodes x, d ∈ nodes.map ident := by
  obtain ⟨n, hm, rfl⟩ := List.mem_map.mp hx
  rw [dependsOn_of_mem h.nodup hm]
  exact h.known n hm

theorem count_map_const (n : ν) (ds : List α) (d x : α) :
    ((ds.filter fun e => e = d).map fun _ => ident n).count x =
      if ident n = x then ds.count d else 0 := by
  rw [List.map_const', List.count_replicate, ← List.countP_eq_length_filter]
  by_cases hx : ident n = x
  · simp only [hx, beq_self_eq_true, if_true, List.count]
    congr 1
  · have hb : (ident n == x) = false := by simpa using hx
    simp [hx]

theorem count_children (d : α) (hn : (nodes.map ident).Nodup) {n : ν} (h : n ∈ nodes) :
    (children ident deps nodes d).count (ident n) = (deps n).count d := by
  have hout : ∀ ms : List ν, ident n ∉ ms.map ident →
      (children ident deps ms d).count (ident n) = 0 := by
    intro ms hm
    rw [List.count_eq_zero]
    intro hx
    obtain ⟨m, hms, hmx⟩ := List.mem_flatMap.mp hx
    obtain ⟨-, -, he⟩ := List.mem_map.mp hmx
    exact hm (he ▸ List.mem_map_of_mem hms)
  induction nodes with
  | nil => cases h
  | cons m ms ih =>
    obtain ⟨hmn, hn'⟩ := List.nodup_cons.mp hn
    rw [children, List.flatMap_cons, List.count_append, count_map_const]
    rcases List.mem_cons.mp h with rfl | hms
    · have hrest := hout ms hmn
      rw [children] at hrest
      rw [if_pos rfl, hrest, Nat.add_zero]
    · have hne : ¬ ident m = ident n := by
        intro e
        exact hmn (e ▸ List.mem_map_of_mem hms)
      have hrest := ih hn' hms
      rw [children] at hrest
      rw [if_neg hne, hrest, Nat.zero_add]

theorem children_spec (h : References ident deps nodes) :
    TopologicalSort.Children (nodes.map ident) (dependsOn ident deps nodes)
      (children ident deps nodes) := by
  refine ⟨?_, ?_⟩
  · intro d x hx
    obtain ⟨n, hn, hm⟩ := List.mem_flatMap.mp hx
    obtain ⟨-, -, rfl⟩ := List.mem_map.mp hm
    exact List.mem_map_of_mem hn
  · intro d x hx
    obtain ⟨n, hn, rfl⟩ := List.mem_map.mp hx
    rw [dependsOn_of_mem h.nodup hn]
    exact count_children d h.nodup hn

theorem mem_roots (h : References ident deps nodes) {x : α} :
    x ∈ roots ident deps nodes ↔ x ∈ nodes.map ident ∧ dependsOn ident deps nodes x = [] := by
  constructor
  · intro hr
    obtain ⟨n, hn, rfl⟩ := List.mem_map.mp hr
    obtain ⟨hm, he⟩ := List.mem_filter.mp hn
    rw [dependsOn_of_mem h.nodup hm]
    exact ⟨List.mem_map_of_mem hm, List.isEmpty_iff.mp he⟩
  · rintro ⟨hx, hd⟩
    obtain ⟨n, hn, rfl⟩ := List.mem_map.mp hx
    rw [dependsOn_of_mem h.nodup hn] at hd
    exact List.mem_map_of_mem (List.mem_filter.mpr ⟨hn, by simp [hd]⟩)

theorem sorted_invariant (h : References ident deps nodes) :
    TopologicalSort.Invariant (nodes.map ident) (dependsOn ident deps nodes)
      (sorted ident deps nodes) ∧ (sorted ident deps nodes).queue = [] := by
  have hsub : (roots ident deps nodes).Sublist (nodes.map ident) :=
    List.Sublist.map _ List.filter_sublist
  have hc := children_spec h
  have h₀ : TopologicalSort.Invariant (nodes.map ident) (dependsOn ident deps nodes)
      { queue := roots ident deps nodes, ordered := [],
        indegree := fun x => (dependsOn ident deps nodes x).length } :=
    TopologicalSort.initial_invariant (hsub.nodup h.nodup) rfl (fun x => mem_roots h) fun _ _ => rfl
  exact ⟨TopologicalSort.rounds_invariant hc _ h₀, TopologicalSort.rounds_queue hc h₀⟩

theorem roots_ne_nil (h : References ident deps nodes) (hne : nodes ≠ [])
    (ha : TopologicalSort.Acyclic (nodes.map ident) (dependsOn ident deps nodes)) :
    roots ident deps nodes ≠ [] := by
  intro hr
  obtain ⟨n, hn⟩ := List.exists_mem_of_ne_nil _ hne
  refine ha.induction (p := fun _ => False) (fun x hx ih => ?_) (ident n) (List.mem_map_of_mem hn)
  cases hd : dependsOn ident deps nodes x with
  | nil =>
    have hxr := (mem_roots h).mpr ⟨hx, hd⟩
    simp [hr] at hxr
  | cons d ds =>
    have hdm : d ∈ dependsOn ident deps nodes x := by simp [hd]
    exact ih d (h.dependsOn hx d hdm) hdm

theorem sorted_length_iff (h : References ident deps nodes) :
    (sorted ident deps nodes).ordered.length = nodes.length ↔
      TopologicalSort.Acyclic (nodes.map ident) (dependsOn ident deps nodes) := by
  obtain ⟨hi, hq⟩ := sorted_invariant h
  have hl := hi.length_eq_iff hq h.nodup fun _ hx => h.dependsOn hx
  rw [List.length_map] at hl
  exact hl

theorem sorted_perm (h : References ident deps nodes)
    (ha : TopologicalSort.Acyclic (nodes.map ident) (dependsOn ident deps nodes)) :
    (sorted ident deps nodes).ordered.Perm (nodes.map ident) := by
  obtain ⟨hi, hq⟩ := sorted_invariant h
  exact hi.perm_of_acyclic hq h.nodup (fun _ hx => h.dependsOn hx) ha

section Part

variable {keep : α → Bool}

def part (ident : ν → α) (keep : α → Bool) (nodes : List ν) : List ν :=
  nodes.filter fun n => keep (ident n)

theorem find_part {x : α} (hx : keep x = true) :
    find ident (part ident keep nodes) x = find ident nodes x := by
  unfold find part
  rw [List.find?_filter]
  congr 1
  funext n
  by_cases hn : ident n = x
  · simp [hn, hx]
  · simp [hn]

theorem dependsOn_part {x : α} (hx : keep x = true) :
    dependsOn ident deps (part ident keep nodes) x = dependsOn ident deps nodes x := by
  rw [dependsOn, find_part hx, dependsOn]

theorem children_part (d : α) :
    children ident deps (part ident keep nodes) d = (children ident deps nodes d).filter keep := by
  induction nodes with
  | nil => rfl
  | cons n ns ih =>
    have hcons : ∀ ms : List ν, children ident deps (n :: ms) d =
        ((deps n).filter fun e => e = d).map (fun _ => ident n) ++ children ident deps ms d :=
      fun ms => List.flatMap_cons
    rw [hcons ns, List.filter_append, ← ih, part]
    cases hn : keep (ident n) with
    | true =>
      have hall : ∀ x ∈ ((deps n).filter fun e => e = d).map fun _ => ident n, keep x = true := by
        intro x hx
        obtain ⟨-, -, rfl⟩ := List.mem_map.mp hx
        exact hn
      have hp : (n :: ns).filter (fun m => keep (ident m)) = n :: part ident keep ns :=
        List.filter_cons_of_pos hn
      rw [List.filter_eq_self.mpr hall, hp, hcons]
    | false =>
      have hnone : ∀ x ∈ ((deps n).filter fun e => e = d).map fun _ => ident n,
          ¬ keep x = true := by
        intro x hx
        obtain ⟨-, -, rfl⟩ := List.mem_map.mp hx
        simp [hn]
      have hp : (n :: ns).filter (fun m => keep (ident m)) = part ident keep ns :=
        List.filter_cons_of_neg (by simp [hn])
      rw [List.filter_eq_nil_iff.mpr hnone, hp, List.nil_append]

omit [DecidableEq α] in
theorem roots_part :
    roots ident deps (part ident keep nodes) = (roots ident deps nodes).filter keep := by
  rw [roots, roots, List.filter_map, part, List.filter_filter, List.filter_filter]
  congr 2
  funext n
  exact Bool.and_comm _ _

def Closed (ident : ν → α) (deps : ν → List α) (keep : α → Bool) (nodes : List ν) : Prop :=
  ∀ n ∈ nodes, keep (ident n) = true → ∀ d ∈ deps n, keep d = true

theorem References.part (h : References ident deps nodes) (hc : Closed ident deps keep nodes) :
    References ident deps (part ident keep nodes) := by
  have hsub : ((DependencyList.part ident keep nodes).map ident).Sublist (nodes.map ident) :=
    List.Sublist.map _ List.filter_sublist
  refine ⟨hsub.nodup h.nodup, ?_⟩
  intro n hn d hd
  obtain ⟨hm, hk⟩ := List.mem_filter.mp hn
  obtain ⟨m, hmm, he⟩ := List.mem_map.mp (h.known n hm d hd)
  refine List.mem_map.mpr ⟨m, List.mem_filter.mpr ⟨hmm, ?_⟩, he⟩
  rw [he]
  exact hc n hm hk d hd

theorem sorted_part (keep : α → Bool) (h : References ident deps nodes) (hc : Closed ident deps keep nodes) :
    (sorted ident deps (part ident keep nodes)).ordered =
      (sorted ident deps nodes).ordered.filter keep := by
  have hp : TopologicalSort.PartOf keep (children ident deps nodes)
      (children ident deps (part ident keep nodes)) := by
    refine ⟨fun t _ => children_part t, fun t ht => ?_⟩
    refine List.filter_eq_nil_iff.mpr fun x hx hk => ?_
    obtain ⟨n, hn, hm⟩ := List.mem_flatMap.mp hx
    obtain ⟨e, he, rfl⟩ := List.mem_map.mp hm
    obtain ⟨hed, het⟩ := List.mem_filter.mp he
    have hkt := hc n hn hk e hed
    rw [of_decide_eq_true het, ht] at hkt
    cases hkt
  have hr := h.part hc
  exact TopologicalSort.ordered_restricts hp
    ⟨roots_part, rfl, fun x hx => by simp only [dependsOn_part hx]⟩
    (sorted_invariant h).2 (sorted_invariant hr).2

end Part

end Agently.Lib.DependencyList
