import Mathlib.Data.List.Perm.Basic
import Mathlib.Data.List.Count
import Mathlib.Data.Fintype.Card
import Mathlib.Data.Set.Finite.Basic
import Mathlib.Logic.Relation
import Mathlib.Order.WellFounded

/-! # Sorting a dependency relation by counting

Nodes whose dependencies are all ordered wait in a queue. Taking one orders it and counts it
off for each node that depends on it, as often as it does; a node counted down to zero joins
the queue. -/

namespace Agently.Lib.TopologicalSort

universe u

variable {α : Type u} [DecidableEq α]

structure State (α : Type u) where
  queue : List α
  ordered : List α
  indegree : α → Int

def visit (s : State α) (child : α) : State α :=
  let n := s.indegree child - 1
  { s with
    indegree := fun x => if x = child then n else s.indegree x
    queue := if n = 0 then s.queue ++ [child] else s.queue }

def visitAll : List α → State α → State α
  | [], s => s
  | child :: rest, s => visitAll rest (visit s child)

def round (children : α → List α) (s : State α) : State α :=
  match s.queue with
  | [] => s
  | t :: rest => visitAll (children t) { s with queue := rest, ordered := s.ordered ++ [t] }

def rounds (children : α → List α) : Nat → State α → State α
  | 0, s => s
  | n + 1, s => rounds children n (round children s)

def DependenciesFirst (deps : α → List α) (order : List α) : Prop :=
  ∀ l₁ x l₂, order = l₁ ++ x :: l₂ → ∀ d ∈ deps x, d ∈ l₁

def Edge (nodes : List α) (deps : α → List α) (d x : α) : Prop :=
  d ∈ nodes ∧ x ∈ nodes ∧ d ∈ deps x

def Acyclic (nodes : List α) (deps : α → List α) : Prop :=
  ∀ x, ¬ Relation.TransGen (Edge nodes deps) x x

theorem visitAll_ordered (cs : List α) (s : State α) : (visitAll cs s).ordered = s.ordered := by
  induction cs generalizing s with
  | nil => rfl
  | cons c cs ih =>
    rw [visitAll, ih]
    rfl

theorem visitAll_indegree (cs : List α) (s : State α) (x : α) :
    (visitAll cs s).indegree x = s.indegree x - cs.count x := by
  induction cs generalizing s with
  | nil => simp [visitAll]
  | cons c cs ih =>
    rw [visitAll, ih, List.count_cons]
    by_cases hx : x = c
    · subst hx
      simp [visit]
      omega
    · have hc : ¬ c = x := fun e => hx e.symm
      simp [visit, hx, hc]

theorem visitAll_queue (cs : List α) (s : State α)
    (h : ∀ x ∈ cs, (cs.count x : Int) ≤ s.indegree x) :
    ∃ new, (visitAll cs s).queue = s.queue ++ new ∧ new.Nodup ∧
      ∀ x, x ∈ new ↔ x ∈ cs ∧ s.indegree x = cs.count x := by
  induction cs generalizing s with
  | nil => exact ⟨[], by simp [visitAll], List.nodup_nil, by simp⟩
  | cons c cs ih =>
    have hc := h c List.mem_cons_self
    have hrest : ∀ x ∈ cs, (cs.count x : Int) ≤ (visit s c).indegree x := by
      intro x hxm
      have hx := h x (List.mem_cons_of_mem c hxm)
      rw [List.count_cons] at hx
      by_cases hxc : x = c
      · subst hxc
        simp [visit] at hx ⊢
        omega
      · have hcx : ¬ c = x := fun e => hxc e.symm
        simpa [visit, hxc, hcx] using hx
    obtain ⟨new, hq, hn, hm⟩ := ih (visit s c) hrest
    rw [List.count_cons_self] at hc
    by_cases hz : s.indegree c - 1 = 0
    · have hcount : cs.count c = 0 := by omega
      have hnot : c ∉ cs := List.count_eq_zero.mp hcount
      refine ⟨c :: new, ?_, ?_, ?_⟩
      · rw [visitAll, hq]
        simp [visit, hz]
      · refine List.nodup_cons.mpr ⟨?_, hn⟩
        intro hcn
        exact hnot ((hm c).mp hcn).1
      · intro x
        rw [List.mem_cons, List.mem_cons, hm x, List.count_cons]
        by_cases hxc : x = c
        · subst hxc
          simp [hcount]
          omega
        · have hcx : ¬ c = x := fun e => hxc e.symm
          simp [visit, hxc, hcx]
    · refine ⟨new, ?_, hn, ?_⟩
      · rw [visitAll, hq]
        simp [visit, hz]
      · intro x
        rw [List.mem_cons, hm x, List.count_cons]
        by_cases hxc : x = c
        · subst hxc
          have hpos : 0 < cs.count x ∨ cs.count x = 0 := by omega
          simp only [visit, if_true, beq_self_eq_true, true_or, true_and]
          constructor
          · rintro ⟨-, he⟩
            push_cast
            omega
          · intro he
            push_cast at he
            have hcp : 0 < cs.count x := by omega
            exact ⟨List.count_pos_iff.mp hcp, by omega⟩
        · have hcx : ¬ c = x := fun e => hxc e.symm
          simp [visit, hxc, hcx]

section Run

variable (nodes : List α) (deps children : α → List α)

structure Invariant (s : State α) : Prop where
  nodup : (s.ordered ++ s.queue).Nodup
  degree : ∀ x ∈ nodes, s.indegree x = ((deps x).filter fun d => d ∉ s.ordered).length
  mem : ∀ x, x ∈ s.ordered ++ s.queue ↔ x ∈ nodes ∧ ∀ d ∈ deps x, d ∈ s.ordered
  first : DependenciesFirst deps s.ordered

structure Children : Prop where
  mem : ∀ t, ∀ x ∈ children t, x ∈ nodes
  count : ∀ t, ∀ x ∈ nodes, (children t).count x = (deps x).count t

variable {nodes deps children}

variable {order : List α}

omit [DecidableEq α] in
theorem DependenciesFirst.concat {x : α} (h : DependenciesFirst deps order)
    (hx : ∀ d ∈ deps x, d ∈ order) : DependenciesFirst deps (order ++ [x]) := by
  intro l₁ y l₂ he d hd
  rcases List.eq_nil_or_concat l₂ with rfl | ⟨l, z, rfl⟩
  · obtain ⟨rfl, hy⟩ := List.append_inj' he rfl
    obtain rfl : x = y := by simpa using hy
    exact hx d hd
  · have he' : order ++ [x] = (l₁ ++ y :: l) ++ [z] := by simpa using he
    obtain ⟨ho, -⟩ := List.append_inj' he' rfl
    exact h l₁ y l ho d hd

theorem filter_length_concat (ds ordered : List α) (t : α) (ht : t ∉ ordered) :
    ((ds.filter fun d => d ∉ ordered ++ [t]).length : Int) =
      (ds.filter fun d => d ∉ ordered).length - ds.count t := by
  induction ds with
  | nil => rfl
  | cons d ds ih =>
    rw [List.filter_cons, List.filter_cons, List.count_cons]
    by_cases hdt : d = t
    · subst hdt
      simp only [List.mem_append, List.mem_singleton, or_true, not_true_eq_false, decide_false,
        ht, not_false_eq_true, decide_true, if_true, Bool.false_eq_true, if_false,
        beq_self_eq_true, List.length_cons]
      push_cast
      simp only [List.mem_append, List.mem_singleton] at ih
      omega
    · have hb : (d == t) = false := by simpa using hdt
      by_cases hdo : d ∈ ordered
      · simpa [hdo, hdt, hb] using ih
      · simp only [List.mem_append, List.mem_singleton, hdo, hdt, or_self, not_false_eq_true,
          decide_true, if_true, List.length_cons, hb, Bool.false_eq_true, if_false]
        push_cast
        simp only [List.mem_append, List.mem_singleton] at ih
        omega

variable {s : State α}

theorem round_invariant (hc : Children nodes deps children)
    (h : Invariant nodes deps s) : Invariant nodes deps (round children s) := by
  unfold round
  cases hq : s.queue with
  | nil => exact h
  | cons t rest =>
    simp only
    have htm : t ∈ s.ordered ++ s.queue := by simp [hq]
    obtain ⟨htn, htd⟩ := (h.mem t).mp htm
    have hnd := h.nodup
    rw [hq] at hnd
    have hto : t ∉ s.ordered := by
      intro hm
      exact (List.nodup_append.mp hnd).2.2 t hm t List.mem_cons_self rfl
    have hleft : ∀ x ∈ nodes, (((deps x).filter fun d => d ∉ s.ordered ++ [t]).length : Int) =
        s.indegree x - (children t).count x := by
      intro x hx
      rw [filter_length_concat (deps x) s.ordered t hto, h.degree x hx, hc.count t x hx]
    have hnone : ∀ x, (((deps x).filter fun d => d ∉ s.ordered ++ [t]).length : Int) = 0 ↔
        ∀ d ∈ deps x, d ∈ s.ordered ++ [t] := by
      intro x
      rw [Int.natCast_eq_zero, List.length_eq_zero_iff, List.filter_eq_nil_iff]
      simp only [decide_eq_true_eq, not_not]
    obtain ⟨new, hnq, hnn, hnm⟩ := visitAll_queue (children t)
      { s with queue := rest, ordered := s.ordered ++ [t] } (by
        intro x hx
        have hl := hleft x (hc.mem t x hx)
        simp only
        omega)
    simp only at hnq hnm
    have hnew : ∀ x ∈ new, x ∈ nodes ∧ t ∈ deps x ∧ ∀ d ∈ deps x, d ∈ s.ordered ++ [t] := by
      intro x hx
      obtain ⟨hxc, hxi⟩ := (hnm x).mp hx
      have hxn := hc.mem t x hxc
      have hpos : 0 < (deps x).count t := by
        rw [← hc.count t x hxn]
        exact List.count_pos_iff.mpr hxc
      refine ⟨hxn, List.count_pos_iff.mp hpos, (hnone x).mp ?_⟩
      rw [hleft x hxn]
      omega
    have hold : ∀ x, x ∈ s.ordered ∨ x = t ∨ x ∈ rest ↔
        x ∈ nodes ∧ ∀ d ∈ deps x, d ∈ s.ordered := by
      intro x
      have hx := h.mem x
      rw [hq] at hx
      simpa using hx
    refine ⟨?_, ?_, ?_, ?_⟩
    · rw [visitAll_ordered, hnq, ← List.append_assoc, List.append_assoc s.ordered,
        List.singleton_append]
      refine List.nodup_append.mpr ⟨hnd, hnn, ?_⟩
      rintro x hx y hy rfl
      obtain ⟨-, htx, -⟩ := hnew x hy
      have hx' : x ∈ s.ordered ∨ x = t ∨ x ∈ rest := by simpa using hx
      exact hto (((hold x).mp hx').2 t htx)
    · intro x hx
      rw [visitAll_indegree, visitAll_ordered]
      exact (hleft x hx).symm
    · intro x
      rw [visitAll_ordered, hnq]
      constructor
      · intro hx
        have hx' : (x ∈ s.ordered ∨ x = t ∨ x ∈ rest) ∨ x ∈ new := by
          simpa [or_assoc] using hx
        rcases hx' with hx' | hx'
        · obtain ⟨hxn, hd⟩ := (hold x).mp hx'
          exact ⟨hxn, fun d hdx => List.mem_append_left _ (hd d hdx)⟩
        · obtain ⟨hxn, -, hd⟩ := hnew x hx'
          exact ⟨hxn, hd⟩
      · rintro ⟨hxn, hd⟩
        suffices hx : (x ∈ s.ordered ∨ x = t ∨ x ∈ rest) ∨ x ∈ new by
          simpa [or_assoc] using hx
        by_cases htx : t ∈ deps x
        · refine .inr ((hnm x).mpr ?_)
          have hcount := hc.count t x hxn
          have hpos : 0 < (deps x).count t := List.count_pos_iff.mpr htx
          have hz := (hnone x).mpr hd
          rw [hleft x hxn] at hz
          exact ⟨List.count_pos_iff.mp (by omega), by omega⟩
        · refine .inl ((hold x).mpr ⟨hxn, fun d hdx => ?_⟩)
          have hdo := hd d hdx
          rw [List.mem_append, List.mem_singleton] at hdo
          rcases hdo with hdo | rfl
          · exact hdo
          · exact absurd hdx htx
    · rw [visitAll_ordered]
      exact h.first.concat fun d hd => ((hold t).mp (.inr (.inl rfl))).2 d hd

theorem rounds_invariant (hc : Children nodes deps children) (n : Nat)
    (h : Invariant nodes deps s) : Invariant nodes deps (rounds children n s) := by
  induction n generalizing s with
  | zero => exact h
  | succ n ih => exact ih (round_invariant hc h)

theorem rounds_of_empty (hq : s.queue = []) (n : Nat) :
    rounds children n s = s := by
  induction n with
  | zero => rfl
  | succ n ih => rw [rounds, round, hq, ih]

theorem rounds_length (n : Nat) (s : State α) :
    (rounds children n s).queue = [] ∨
      (rounds children n s).ordered.length = s.ordered.length + n := by
  induction n generalizing s with
  | zero => exact .inr rfl
  | succ n ih =>
    cases hq : s.queue with
    | nil =>
      have hs : rounds children (n + 1) s = s := rounds_of_empty hq (n + 1)
      rw [hs]
      exact .inl hq
    | cons t rest =>
      rw [rounds]
      rcases ih (round children s) with he | hl
      · exact .inl he
      · right
        rw [hl, round, hq]
        simp only
        rw [visitAll_ordered, List.length_append, List.length_singleton]
        omega

theorem Invariant.length_le (h : Invariant nodes deps s) :
    s.ordered.length + s.queue.length ≤ nodes.length := by
  have hsub : s.ordered ++ s.queue ⊆ nodes := fun x hx => ((h.mem x).mp hx).1
  have hl := (List.subperm_of_subset h.nodup hsub).length_le
  rwa [List.length_append] at hl

theorem rounds_queue (hc : Children nodes deps children)
    (h : Invariant nodes deps s) : (rounds children nodes.length s).queue = [] := by
  have hcases : (rounds children nodes.length s).queue = [] ∨ _ := rounds_length nodes.length s
  rcases hcases with hq | hl
  · exact hq
  · have hle := (rounds_invariant hc nodes.length h).length_le
    apply List.length_eq_zero_iff.mp
    omega

theorem initial_invariant (hq : s.queue.Nodup) (ho : s.ordered = [])
    (hm : ∀ x, x ∈ s.queue ↔ x ∈ nodes ∧ deps x = [])
    (hd : ∀ x ∈ nodes, s.indegree x = (deps x).length) : Invariant nodes deps s := by
  refine ⟨by simpa [ho] using hq, ?_, ?_, ?_⟩
  · intro x hx
    rw [hd x hx, ho]
    simp
  · intro x
    rw [ho, List.nil_append, hm x]
    simp [List.eq_nil_iff_forall_not_mem]
  · intro l₁ x l₂ he
    rw [ho] at he
    simp at he

theorem idxOf_lt_of_edge (hn : order.Nodup) (hf : DependenciesFirst deps order)
    {d x : α} (hx : x ∈ order) (hd : d ∈ deps x) : order.idxOf d < order.idxOf x := by
  obtain ⟨l₁, l₂, rfl⟩ := List.append_of_mem hx
  have hdl := hf l₁ x l₂ rfl d hd
  have hxl : x ∉ l₁ := fun hm => (List.nodup_append.mp hn).2.2 x hm x List.mem_cons_self rfl
  rw [List.idxOf_append_of_mem hdl, List.idxOf_append_of_notMem hxl]
  have hlt := List.idxOf_lt_length_iff.mpr hdl
  omega

theorem acyclic_of_first (hn : order.Nodup) (hf : DependenciesFirst deps order)
    (hm : ∀ x ∈ nodes, x ∈ order) : Acyclic nodes deps := by
  have hlt : ∀ d x, Relation.TransGen (Edge nodes deps) d x → order.idxOf d < order.idxOf x := by
    intro d x h
    induction h with
    | single he => exact idxOf_lt_of_edge hn hf (hm _ he.2.1) he.2.2
    | tail _ he ih => exact ih.trans (idxOf_lt_of_edge hn hf (hm _ he.2.1) he.2.2)
  intro x hx
  exact absurd (hlt x x hx) (by omega)

omit [DecidableEq α] in
theorem Acyclic.induction (ha : Acyclic nodes deps) {p : α → Prop}
    (step : ∀ x ∈ nodes, (∀ d ∈ nodes, d ∈ deps x → p d) → p x) : ∀ x ∈ nodes, p x := by
  let r : {x // x ∈ nodes} → {x // x ∈ nodes} → Prop := fun d x =>
    Relation.TransGen (Edge nodes deps) d.val x.val
  have : IsTrans {x // x ∈ nodes} r := ⟨fun _ _ _ hab hbc => hab.trans hbc⟩
  have : Std.Irrefl r := ⟨fun x hx => ha x.val hx⟩
  have : Finite {x // x ∈ nodes} := Set.Finite.to_subtype (List.finite_toSet nodes)
  have hwf : WellFounded r := Finite.wellFounded_of_trans_of_irrefl r
  have hall : ∀ x : {x // x ∈ nodes}, p x.val := by
    intro x
    induction x using hwf.induction with
    | _ x ih =>
      exact step x.val x.property fun d hd hdx =>
        ih ⟨d, hd⟩ (.single ⟨hd, x.property, hdx⟩)
  exact fun x hx => hall ⟨x, hx⟩

theorem Invariant.perm_of_acyclic (h : Invariant nodes deps s)
    (hq : s.queue = []) (hn : nodes.Nodup) (hd : ∀ x ∈ nodes, ∀ d ∈ deps x, d ∈ nodes)
    (ha : Acyclic nodes deps) : s.ordered.Perm nodes := by
  have hm := h.mem
  have ho := h.nodup
  rw [hq, List.append_nil] at hm ho
  refine (List.perm_ext_iff_of_nodup ho hn).mpr fun x => ⟨fun hx => ((hm x).mp hx).1, ?_⟩
  exact ha.induction (p := fun x => x ∈ s.ordered) (fun x hx ih =>
    (hm x).mpr ⟨hx, fun d hdx => ih d (hd x hx d hdx) hdx⟩) x

theorem Invariant.length_eq_iff (h : Invariant nodes deps s) (hq : s.queue = [])
    (hn : nodes.Nodup) (hd : ∀ x ∈ nodes, ∀ d ∈ deps x, d ∈ nodes) :
    s.ordered.length = nodes.length ↔ Acyclic nodes deps := by
  constructor
  · intro hl
    have ho := h.nodup
    rw [hq, List.append_nil] at ho
    have hsub : s.ordered ⊆ nodes := fun x hx => ((h.mem x).mp (List.mem_append_left _ hx)).1
    have hp := (List.subperm_of_subset ho hsub).perm_of_length_le (by omega)
    exact acyclic_of_first ho h.first fun x hx => hp.mem_iff.mpr hx
  · intro ha
    exact (h.perm_of_acyclic hq hn hd ha).length_eq

omit [DecidableEq α] in
theorem DependenciesFirst.filter (h : DependenciesFirst deps order)
    (p : α → Bool) (hp : ∀ x ∈ order, p x = true → ∀ d ∈ deps x, p d = true) :
    DependenciesFirst deps (order.filter p) := by
  intro l₁ x l₂ he d hd
  obtain ⟨m₁, m₂, rfl, h₁, h₂⟩ := List.filter_eq_append_iff.mp he
  obtain ⟨n₁, n₂, rfl, hn₁, hpx, -⟩ := List.filter_eq_cons_iff.mp h₂
  have hdm := h (m₁ ++ n₁) x n₂ (by simp) d hd
  have hpd := hp x (by simp) hpx d hd
  rw [← h₁, List.mem_filter]
  refine ⟨?_, hpd⟩
  rcases List.mem_append.mp hdm with hdm | hdn
  · exact hdm
  · exact absurd hpd (hn₁ d hdn)

end Run

section Part

variable (keep : α → Bool) (children part : α → List α)

/-- A kept node has its kept children in the part, one that is left out has none. -/
structure PartOf : Prop where
  kept : ∀ t, keep t = true → part t = (children t).filter keep
  left : ∀ t, keep t = false → (children t).filter keep = []

/-- `p` is `s` without what is left out. -/
structure Restricts (s p : State α) : Prop where
  queue : p.queue = s.queue.filter keep
  ordered : p.ordered = s.ordered.filter keep
  indegree : ∀ x, keep x = true → p.indegree x = s.indegree x

variable {keep children part}

variable {s p : State α}

theorem visit_restricts (h : Restricts keep s p) {c : α} (hc : keep c = true) :
    Restricts keep (visit s c) (visit p c) := by
  have hd := h.indegree c hc
  refine ⟨?_, h.ordered, ?_⟩
  · simp only [visit, hd]
    by_cases hz : s.indegree c - 1 = 0
    · rw [if_pos hz, if_pos hz, List.filter_append, h.queue]
      simp [hc]
    · rw [if_neg hz, if_neg hz, h.queue]
  · intro x hx
    simp only [visit, hd, h.indegree x hx]

theorem visit_left (h : Restricts keep s p) {c : α} (hc : keep c = false) :
    Restricts keep (visit s c) p := by
  refine ⟨?_, h.ordered, ?_⟩
  · simp only [visit]
    by_cases hz : s.indegree c - 1 = 0
    · rw [if_pos hz, List.filter_append, h.queue]
      simp [hc]
    · rw [if_neg hz, h.queue]
  · intro x hx
    have hne : ¬ x = c := by
      rintro rfl
      rw [hc] at hx
      cases hx
    simp only [visit, hne, if_false, h.indegree x hx]

theorem visitAll_restricts (cs : List α) (h : Restricts keep s p) :
    Restricts keep (visitAll cs s) (visitAll (cs.filter keep) p) := by
  induction cs generalizing s p with
  | nil => exact h
  | cons c cs ih =>
    cases hc : keep c with
    | true =>
      rw [List.filter_cons_of_pos hc]
      exact ih (visit_restricts h hc)
    | false =>
      rw [List.filter_cons_of_neg (by simp [hc])]
      exact ih (visit_left h hc)

theorem round_restricts (hp : PartOf keep children part) (h : Restricts keep s p) :
    Restricts keep (round children s) p ∨ Restricts keep (round children s) (round part p) := by
  unfold round
  cases hq : s.queue with
  | nil => exact .inl h
  | cons t rest =>
    have hpq := h.queue
    rw [hq] at hpq
    cases ht : keep t with
    | true =>
      right
      rw [List.filter_cons_of_pos ht] at hpq
      simp only [hpq, hp.kept t ht]
      apply visitAll_restricts
      refine ⟨rfl, ?_, h.indegree⟩
      simp [h.ordered, ht]
    | false =>
      left
      rw [List.filter_cons_of_neg (by simp [ht])] at hpq
      have hr := visitAll_restricts (children t) (s := { s with
        queue := rest
        ordered := s.ordered ++ [t] }) (p := p) ⟨hpq, by simp [h.ordered, ht], h.indegree⟩
      rw [hp.left t ht] at hr
      exact hr

theorem rounds_restricts (hp : PartOf keep children part) (n : Nat) (h : Restricts keep s p) :
    ∃ m, Restricts keep (rounds children n s) (rounds part m p) := by
  induction n generalizing s p with
  | zero => exact ⟨0, h⟩
  | succ n ih =>
    rcases round_restricts hp h with h' | h'
    · exact ih h'
    · obtain ⟨m, hm⟩ := ih h'
      exact ⟨m + 1, hm⟩

theorem rounds_add (m n : Nat) (s : State α) :
    rounds children (m + n) s = rounds children n (rounds children m s) := by
  induction m generalizing s with
  | zero => rw [Nat.zero_add, rounds]
  | succ m ih => rw [Nat.succ_add, rounds, rounds, ih]

theorem rounds_done {m n : Nat} (hm : (rounds children m s).queue = [])
    (hn : (rounds children n s).queue = []) : rounds children m s = rounds children n s := by
  rcases Nat.le_total m n with h | h
  · obtain ⟨k, rfl⟩ := Nat.exists_eq_add_of_le h
    rw [rounds_add, rounds_of_empty hm]
  · obtain ⟨k, rfl⟩ := Nat.exists_eq_add_of_le h
    rw [rounds_add, rounds_of_empty hn]

theorem ordered_restricts (hp : PartOf keep children part) {m n : Nat}
    (h : Restricts keep s p) (hs : (rounds children n s).queue = [])
    (he : (rounds part m p).queue = []) :
    (rounds part m p).ordered = (rounds children n s).ordered.filter keep := by
  obtain ⟨k, hk⟩ := rounds_restricts hp n h
  have hq := hk.queue
  rw [hs, List.filter_nil] at hq
  rw [rounds_done he hq]
  exact hk.ordered

end Part

end Agently.Lib.TopologicalSort
