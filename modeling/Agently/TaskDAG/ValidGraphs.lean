import Agently.Lib.DependencyList
import Agently.TaskDAG.TaskDAGValidation

/-! # What task graph validation accepts

Source: `TaskDAG/TaskDAGValidation.py`. A graph is accepted when its ids and references are in
order, its dependency relation is acyclic, whatever cannot be resolved is optional and something
is left to run; what is left comes in dependency order. -/

namespace Agently.TaskDAGValidation

open Agently.Lib Agently.Utils

theorem checkEach_ok {α : Type} (check : α → Except Fault Unit) (xs : List α) :
    checkEach check xs = .ok () ↔ ∀ x ∈ xs, check x = .ok () := by
  induction xs with
  | nil => simp [checkEach]
  | cons x xs ih =>
    rw [checkEach]
    cases hx : check x with
    | error e => simp [hx]
    | ok u => simp [hx, ih]

theorem bind_eq_ok {α β : Type} {x : Except Fault α} {f : α → Except Fault β} {b : β} :
    (x >>= f) = .ok b ↔ ∃ a, x = .ok a ∧ f a = .ok b := by
  cases x with
  | error e => simp [bind, Except.bind]
  | ok a => simp [bind, Except.bind]

theorem then_eq_ok {β : Type} {x : Except Fault Unit} {f : Unit → Except Fault β} {b : β} :
    (x >>= f) = .ok b ↔ x = .ok () ∧ f () = .ok b := by
  rw [bind_eq_ok]
  constructor
  · rintro ⟨⟨⟩, hx, hf⟩
    exact ⟨hx, hf⟩
  · rintro ⟨hx, hf⟩
    exact ⟨(), hx, hf⟩

theorem checkTaskId_ok (task : TaskDAGNode) :
    checkTaskId task = .ok () ↔ matchesTaskId task.id = true := by
  unfold checkTaskId raise
  by_cases he : task.id = ""
  · rw [if_pos he, he]
    simp [matchesTaskId]
  · rw [if_neg he]
    cases matchesTaskId task.id with
    | false => simp
    | true => simp

theorem duplicates_eq_nil (seen ids : List String) :
    duplicates seen ids = [] ↔ ids.Nodup ∧ ∀ id ∈ ids, id ∉ seen := by
  induction ids generalizing seen with
  | nil => simp [duplicates]
  | cons id rest ih =>
    rw [duplicates]
    by_cases hs : id ∈ seen
    · simp [hs]
    · rw [if_neg hs, ih]
      simp only [List.nodup_cons, List.mem_cons, not_or]
      constructor
      · rintro ⟨hn, hd⟩
        refine ⟨⟨fun hm => (hd id hm).1 rfl, hn⟩, ?_⟩
        rintro x (rfl | hx)
        · exact hs
        · exact (hd x hx).2
      · rintro ⟨⟨hm, hn⟩, hd⟩
        exact ⟨hn, fun x hx => ⟨fun e => hm (e ▸ hx), hd x (.inr hx)⟩⟩

theorem checkDuplicates_ok (ids : List String) : checkDuplicates ids = .ok () ↔ ids.Nodup := by
  unfold checkDuplicates raise
  have h := duplicates_eq_nil [] ids
  by_cases hd : duplicates [] ids = []
  · rw [if_pos hd]
    simpa using (h.mp hd).1
  · rw [if_neg hd]
    have hn : ¬ ids.Nodup := fun hn => hd (h.mpr ⟨hn, by simp⟩)
    simp [hn]

theorem checkDependencies_ok (graph : TaskDAG) :
    checkDependencies graph = .ok () ↔
      ∀ task ∈ graph.tasks, ∀ d ∈ task.dependsOn, d ∈ graph.ids := by
  have hone : ∀ task d, checkDependency graph.ids task d = .ok () ↔ d ∈ graph.ids := by
    intro task d
    unfold checkDependency raise
    by_cases hd : d ∈ graph.ids
    · simp [hd]
    · simp [hd]
  simp only [checkDependencies, checkEach_ok, hone]

structure References (graph : TaskDAG) : Prop where
  ids_nodup : graph.ids.Nodup
  known : ∀ task ∈ graph.tasks, ∀ d ∈ task.dependsOn, d ∈ graph.ids

section Order

variable {graph : TaskDAG}

theorem taskById_of_mem (hn : graph.ids.Nodup) {task : TaskDAGNode} (ht : task ∈ graph.tasks) :
    graph.taskById task.id = some task :=
  DependencyList.find_of_mem hn ht

theorem dependsOn_of_mem (hn : graph.ids.Nodup) {task : TaskDAGNode} (ht : task ∈ graph.tasks) :
    graph.dependsOn task.id = task.dependsOn :=
  DependencyList.dependsOn_of_mem hn ht

theorem mem_ids {id : String} : id ∈ graph.ids ↔ ∃ task ∈ graph.tasks, task.id = id :=
  List.mem_map

theorem References.listed (h : References graph) :
    DependencyList.References TaskDAGNode.id TaskDAGNode.dependsOn graph.tasks :=
  ⟨h.ids_nodup, h.known⟩

theorem References.dependsOn (h : References graph) {id : String} (hid : id ∈ graph.ids) :
    ∀ d ∈ graph.dependsOn id, d ∈ graph.ids :=
  h.listed.dependsOn hid

theorem sorted_invariant (h : References graph) :
    TopologicalSort.Invariant graph.ids graph.dependsOn graph.sorted ∧ graph.sorted.queue = [] :=
  DependencyList.sorted_invariant h.listed

theorem roots_ne_nil (h : References graph) (hne : graph.tasks ≠ [])
    (ha : TopologicalSort.Acyclic graph.ids graph.dependsOn) : graph.roots ≠ [] :=
  DependencyList.roots_ne_nil h.listed hne ha

theorem checkOrder_ok (h : References graph) (hne : graph.tasks ≠ []) :
    checkOrder graph = .ok () ↔ TopologicalSort.Acyclic graph.ids graph.dependsOn := by
  have hl : graph.sorted.ordered.length = graph.tasks.length ↔
      TopologicalSort.Acyclic graph.ids graph.dependsOn := DependencyList.sorted_length_iff h.listed
  unfold checkOrder raise
  constructor
  · intro hok
    by_cases hr : graph.roots = []
    · rw [if_pos hr] at hok
      cases hok
    · rw [if_neg hr] at hok
      by_cases hlen : graph.sorted.ordered.length = graph.tasks.length
      · exact hl.mp hlen
      · rw [if_pos hlen] at hok
        cases hok
  · intro ha
    rw [if_neg (roots_ne_nil h hne ha), if_neg (by simpa using hl.mpr ha)]

end Order

section Pruning

variable (isCallable : Value → Bool) (call : Value → TaskDAGNode → Value)
  (reprOf : Value → String) (r : TaskDAGResolver) (graph : TaskDAG)

def Required (id : String) : Prop :=
  Reachable.Reaches graph.dependsOn (graph.outputTasks reprOf) id

inductive Skipped : String → Prop where
  | unresolved (task : TaskDAGNode) (mem : task ∈ graph.tasks)
      (h : isUnresolved isCallable call r task = true) : Skipped task.id
  | dependent (task : TaskDAGNode) (mem : task ∈ graph.tasks) (d : String)
      (dep : d ∈ task.dependsOn) (h : Skipped d) : Skipped task.id

structure IsOptional (task : TaskDAGNode) : Prop where
  not_required : ¬ Required reprOf graph task.id
  no_approval : approvalRequired task = .ok false
  no_policy : task.sideEffectPolicy = []

def UnresolvedOptional : Prop :=
  ∀ task ∈ graph.tasks, isUnresolved isCallable call r task = true →
    IsOptional reprOf graph task

variable {isCallable call reprOf r graph}

theorem mem_required (h : References graph) (id : String) :
    id ∈ semanticRequiredTaskIds reprOf graph ↔ Required reprOf graph id := by
  have hu : ∀ x ∈ graph.outputTasks reprOf ++ graph.ids,
      ∀ y ∈ graph.dependsOn x, y ∈ graph.outputTasks reprOf ++ graph.ids := by
    intro x _ y hy
    refine List.mem_append_right _ ?_
    by_cases hx : x ∈ graph.ids
    · exact h.dependsOn hx y hy
    · have hnone : graph.taskById x = none := by
        refine List.find?_eq_none.mpr fun task ht => ?_
        have hne : task.id ≠ x := fun e => hx (mem_ids.mpr ⟨task, ht, e⟩)
        simpa using hne
      simp [TaskDAG.dependsOn, hnone] at hy
  have h₀ : Reachable.Invariant graph.dependsOn (graph.outputTasks reprOf)
      (graph.outputTasks reprOf ++ graph.ids)
      { queue := graph.outputTasks reprOf, seen := graph.outputTasks reprOf } :=
    ⟨List.nodup_dedup _, fun _ hx => List.mem_append_left _ hx, fun _ hx => hx, fun _ hx => hx,
      fun x hx => ⟨x, hx, .refl⟩, fun _ hx hq => absurd hx hq⟩
  exact (Reachable.rounds_invariant hu _ h₀).mem_iff (Reachable.rounds_queue hu h₀ rfl) id

theorem Skipped.not_required (hr : References graph)
    (ho : UnresolvedOptional isCallable call reprOf r graph) {id : String}
    (h : Skipped isCallable call r graph id) : ¬ Required reprOf graph id := by
  induction h with
  | unresolved task mem hu => exact (ho task mem hu).not_required
  | dependent task mem d dep _ ih =>
    intro hreq
    refine ih (hreq.next ?_)
    rw [dependsOn_of_mem hr.ids_nodup mem]
    exact dep

theorem failOrPrune_ok (hr : References graph) (p : Pruning) (task : TaskDAGNode)
    (reason : String) :
    (∃ q, failOrPrune (semanticRequiredTaskIds reprOf graph) p task reason = .ok q) ↔
      IsOptional reprOf graph task := by
  unfold failOrPrune
  have hm : _ ↔ Required reprOf graph task.id := mem_required hr task.id
  by_cases hreq : task.id ∈ semanticRequiredTaskIds reprOf graph
  · rw [if_pos hreq]
    have hno : ¬ IsOptional reprOf graph task := fun h => h.not_required (hm.mp hreq)
    simp [hno]
  · rw [if_neg hreq]
    have hnr : ¬ Required reprOf graph task.id := fun h => hreq (hm.mpr h)
    cases ha : approvalRequired task with
    | error e =>
      have hno : ¬ IsOptional reprOf graph task := by
        intro h
        have hn := h.no_approval
        rw [ha] at hn
        cases hn
      simp [hno]
    | ok b =>
      cases b with
      | true =>
        have hno : ¬ IsOptional reprOf graph task := by
          intro h
          have hn := h.no_approval
          rw [ha] at hn
          cases hn
        simp [hno]
      | false =>
        by_cases hp : task.sideEffectPolicy = []
        · simp [hp, IsOptional.mk hnr ha hp]
        · have hno : ¬ IsOptional reprOf graph task := fun h => hp h.no_policy
          simp [hp, hno]

variable {p : Pruning}

theorem failOrPrune_pruned {required : List String} {q : Pruning} {task : TaskDAGNode}
    {reason : String} (h : failOrPrune required p task reason = .ok q) :
    q.pruned = p.pruned ++ [task.id] ∧ q.changed = p.changed := by
  unfold failOrPrune at h
  split at h
  · cases h
  · split at h
    · cases h
    · cases h
    · split at h
      · cases h
      · cases h
        exact ⟨rfl, rfl⟩

theorem pruneUnresolved_ok (hr : References graph) (tasks : List TaskDAGNode) (p : Pruning) :
    (∃ q, pruneUnresolved isCallable call r (semanticRequiredTaskIds reprOf graph) tasks p =
        .ok q) ↔
      ∀ task ∈ tasks, isUnresolved isCallable call r task = true → IsOptional reprOf graph task := by
  induction tasks generalizing p with
  | nil => simp [pruneUnresolved]
  | cons task rest ih =>
    rw [pruneUnresolved]
    by_cases hu : isUnresolved isCallable call r task = true
    · rw [if_pos hu]
      have hf : _ ↔ IsOptional reprOf graph task :=
        failOrPrune_ok hr p task "dynamic_task.unknown_optional_binding_skipped"
      cases hq : failOrPrune (semanticRequiredTaskIds reprOf graph) p task
          "dynamic_task.unknown_optional_binding_skipped" with
      | error e =>
        rw [hq] at hf
        have hno : ¬ IsOptional reprOf graph task := by simpa using hf
        simp [hu, hno]
      | ok q =>
        rw [hq] at hf
        have hopt : IsOptional reprOf graph task := by simpa using hf
        simp only [ih q, List.mem_cons, forall_eq_or_imp, hu, hopt, true_implies, true_and]
    · simp [hu, ih p]

theorem pruneUnresolved_pruned {required : List String} {tasks : List TaskDAGNode}
    {q : Pruning} (h : pruneUnresolved isCallable call r required tasks p = .ok q) :
    q.pruned = p.pruned ++
        ((tasks.filter (isUnresolved isCallable call r)).map TaskDAGNode.id) ∧
      q.changed = p.changed := by
  induction tasks generalizing p with
  | nil =>
    cases h
    simp
  | cons task rest ih =>
    rw [pruneUnresolved] at h
    by_cases hu : isUnresolved isCallable call r task = true
    · rw [if_pos hu] at h
      cases hq : failOrPrune required p task
          "dynamic_task.unknown_optional_binding_skipped" with
      | error e =>
        rw [hq] at h
        cases h
      | ok p' =>
        rw [hq] at h
        obtain ⟨hp, hc⟩ := failOrPrune_pruned hq
        obtain ⟨hp', hc'⟩ := ih h
        rw [hp', hp, List.filter_cons_of_pos hu]
        exact ⟨by simp, hc'.trans hc⟩
    · rw [if_neg hu] at h
      rw [List.filter_cons_of_neg hu]
      exact ih h

structure Pruned (isCallable : Value → Bool) (call : Value → TaskDAGNode → Value)
    (r : TaskDAGResolver) (graph : TaskDAG) (p : Pruning) : Prop where
  nodup : p.pruned.Nodup
  inside : ∀ id ∈ p.pruned, id ∈ graph.ids
  skipped : ∀ id ∈ p.pruned, Skipped isCallable call r graph id
  unresolved : ∀ task ∈ graph.tasks, isUnresolved isCallable call r task = true →
    task.id ∈ p.pruned

theorem prunePass_ok (hr : References graph)
    (ho : UnresolvedOptional isCallable call reprOf r graph) (tasks : List TaskDAGNode)
    (hsub : ∀ task ∈ tasks, task ∈ graph.tasks) (p : Pruning)
    (hp : Pruned isCallable call r graph p) :
    ∃ q, prunePass (semanticRequiredTaskIds reprOf graph) tasks p = .ok q ∧
      Pruned isCallable call r graph q ∧ (∀ id ∈ p.pruned, id ∈ q.pruned) ∧
      (q.changed = true → p.changed = true ∨ p.pruned.length < q.pruned.length) ∧
      p.pruned.length ≤ q.pruned.length ∧
      (q.changed = false → p.changed = false ∧ q.pruned = p.pruned ∧
        ∀ task ∈ tasks, task.id ∉ p.pruned → ∀ d ∈ task.dependsOn, d ∉ p.pruned) := by
  induction tasks generalizing p with
  | nil => exact ⟨p, rfl, hp, fun _ h => h, .inl, Nat.le_refl _, fun h => ⟨h, rfl, by simp⟩⟩
  | cons task rest ih =>
    have hrest : ∀ t ∈ rest, t ∈ graph.tasks := fun t ht => hsub t (List.mem_cons_of_mem task ht)
    rw [prunePass]
    by_cases hin : task.id ∈ p.pruned
    · rw [if_pos hin]
      obtain ⟨q, hq, hpq, hkeep, hgrow, hle, hfix⟩ := ih hrest p hp
      refine ⟨q, hq, hpq, hkeep, hgrow, hle, fun hc => ?_⟩
      obtain ⟨hc', he, hall⟩ := hfix hc
      refine ⟨hc', he, ?_⟩
      intro t ht hnt
      rcases List.mem_cons.mp ht with rfl | ht
      · exact absurd hin hnt
      · exact hall t ht hnt
    · rw [if_neg hin]
      by_cases hmiss : (task.dependsOn.filter fun d => d ∈ p.pruned) = []
      · simp only [hmiss, if_true]
        obtain ⟨q, hq, hpq, hkeep, hgrow, hle, hfix⟩ := ih hrest p hp
        refine ⟨q, hq, hpq, hkeep, hgrow, hle, fun hc => ?_⟩
        obtain ⟨hc', he, hall⟩ := hfix hc
        refine ⟨hc', he, ?_⟩
        intro t ht hnt d hd
        rcases List.mem_cons.mp ht with rfl | ht
        · have hf := List.filter_eq_nil_iff.mp hmiss d hd
          simpa using hf
        · exact hall t ht hnt d hd
      · obtain ⟨d, hd⟩ := List.exists_mem_of_ne_nil _ hmiss
        obtain ⟨hdt, hdp⟩ := List.mem_filter.mp hd
        have hdp' : d ∈ p.pruned := by simpa using hdp
        have htg := hsub task List.mem_cons_self
        have hsk : Skipped isCallable call r graph task.id :=
          .dependent task htg d hdt (hp.skipped d hdp')
        have hnreq : task.id ∉ semanticRequiredTaskIds reprOf graph := by
          rw [mem_required hr]
          exact hsk.not_required hr ho
        simp only [if_neg hmiss, if_neg hnreq]
        have hp' : Pruned isCallable call r graph
            { pruned := p.pruned ++ [task.id]
              diagnostics := p.diagnostics ++ [[("level", .str "warning"),
                ("code", .str "dynamic_task.optional_dependent_skipped"),
                ("task_id", .str task.id),
                ("dependencies", .list ((task.dependsOn.filter fun d => d ∈ p.pruned).map .str))]]
              changed := true } := by
          refine ⟨?_, ?_, ?_, ?_⟩
          · refine List.nodup_append.mpr ⟨hp.nodup, by simp, ?_⟩
            intro a ha b hb e
            rw [List.mem_singleton] at hb
            exact hin (hb ▸ e ▸ ha)
          · intro id hid
            rcases List.mem_append.mp hid with hid | hid
            · exact hp.inside id hid
            · rw [List.mem_singleton.mp hid]
              exact mem_ids.mpr ⟨task, htg, rfl⟩
          · intro id hid
            rcases List.mem_append.mp hid with hid | hid
            · exact hp.skipped id hid
            · rw [List.mem_singleton.mp hid]
              exact hsk
          · intro t ht hu
            exact List.mem_append_left _ (hp.unresolved t ht hu)
        obtain ⟨q, hq, hpq, hkeep, -, hle, hfix⟩ := ih hrest _ hp'
        simp only [List.length_append, List.length_singleton] at hle
        refine ⟨q, hq, hpq, fun id hid => hkeep id (List.mem_append_left _ hid),
          fun _ => .inr (by omega), by omega, fun hc => ?_⟩
        exact absurd (hfix hc).1 (by simp)

theorem Pruned.length_le (hp : Pruned isCallable call r graph p) :
    p.pruned.length ≤ graph.tasks.length := by
  have hle := (List.subperm_of_subset hp.nodup hp.inside).length_le
  rwa [TaskDAG.ids, List.length_map] at hle

theorem prunePasses_ok (hr : References graph)
    (ho : UnresolvedOptional isCallable call reprOf r graph) (n : Nat) (p : Pruning)
    (hp : Pruned isCallable call r graph p) (hc : p.changed = true)
    (hn : graph.tasks.length < p.pruned.length + n) :
    ∃ q, prunePasses (semanticRequiredTaskIds reprOf graph) graph.tasks n p = .ok q ∧
      Pruned isCallable call r graph q ∧
      ∀ task ∈ graph.tasks, task.id ∉ q.pruned → ∀ d ∈ task.dependsOn, d ∉ q.pruned := by
  induction n generalizing p with
  | zero =>
    have hle := hp.length_le
    omega
  | succ n ih =>
    have hp' : Pruned isCallable call r graph { p with changed := false } :=
      ⟨hp.nodup, hp.inside, hp.skipped, hp.unresolved⟩
    obtain ⟨q, hq, hpq, -, hgrow, -, hfix⟩ :=
      prunePass_ok hr ho graph.tasks (fun _ h => h) { p with changed := false } hp'
    rw [prunePasses, if_pos hc, hq]
    cases hcq : q.changed with
    | true =>
      have hlt : p.pruned.length < q.pruned.length := by simpa using hgrow hcq
      exact ih q hpq hcq (by omega)
    | false =>
      obtain ⟨-, he, hall⟩ := hfix hcq
      have hqq : prunePasses (semanticRequiredTaskIds reprOf graph) graph.tasks n q = .ok q := by
        cases n with
        | zero => rfl
        | succ n => rw [prunePasses, hcq, if_neg (by simp)]
      refine ⟨q, hqq, hpq, ?_⟩
      rw [he]
      exact hall

theorem mem_pruned_iff (hp : Pruned isCallable call r graph p)
    (hall : ∀ task ∈ graph.tasks, task.id ∉ p.pruned → ∀ d ∈ task.dependsOn, d ∉ p.pruned)
    (id : String) : id ∈ p.pruned ↔ Skipped isCallable call r graph id := by
  constructor
  · exact hp.skipped id
  · intro h
    induction h with
    | unresolved task mem hu => exact hp.unresolved task mem hu
    | dependent task mem d dep _ ih =>
      by_contra hn
      exact hall task mem hn d dep ih

structure KeptPart (isCallable : Value → Bool) (call : Value → TaskDAGNode → Value)
    (r : TaskDAGResolver) (graph : TaskDAG) (k : Ordered) : Prop where
  sublist : k.graph.tasks.Sublist graph.tasks
  mem : ∀ task, task ∈ k.graph.tasks ↔
    task ∈ graph.tasks ∧ ¬ Skipped isCallable call r graph task.id
  roots : k.roots = k.graph.roots
  perm : k.ordered.Perm k.graph.ids
  first : TopologicalSort.DependenciesFirst graph.dependsOn k.ordered
  outputs : k.graph.semanticOutputs = graph.semanticOutputs
  policies : k.graph.policies = graph.policies

section Kept

variable {p : Pruning} (hr : References graph)
  (hall : ∀ task ∈ graph.tasks, task.id ∉ p.pruned → ∀ d ∈ task.dependsOn, d ∉ p.pruned)

theorem mem_keptGraph {task : TaskDAGNode} :
    task ∈ (keptGraph graph p).tasks ↔ task ∈ graph.tasks ∧ task.id ∉ p.pruned := by
  simp [keptGraph]

theorem mem_keptGraph_ids {id : String} :
    id ∈ (keptGraph graph p).ids ↔ id ∈ graph.ids ∧ id ∉ p.pruned := by
  rw [mem_ids, mem_ids]
  constructor
  · rintro ⟨task, ht, rfl⟩
    obtain ⟨htg, htp⟩ := mem_keptGraph.mp ht
    exact ⟨⟨task, htg, rfl⟩, htp⟩
  · rintro ⟨⟨task, ht, rfl⟩, hp⟩
    exact ⟨task, mem_keptGraph.mpr ⟨ht, hp⟩, rfl⟩

include hr

theorem keptGraph_ids_nodup : (keptGraph graph p).ids.Nodup := by
  have hsub : (keptGraph graph p).ids.Sublist graph.ids := List.Sublist.map _ List.filter_sublist
  exact hsub.nodup hr.ids_nodup

theorem dependsOn_keptGraph {id : String} (h : id ∈ (keptGraph graph p).ids) :
    (keptGraph graph p).dependsOn id = graph.dependsOn id := by
  obtain ⟨task, ht, rfl⟩ := mem_ids.mp h
  rw [dependsOn_of_mem (keptGraph_ids_nodup hr) ht,
    dependsOn_of_mem hr.ids_nodup (mem_keptGraph.mp ht).1]

include hall

theorem keptGraph_references : References (keptGraph graph p) := by
  refine ⟨keptGraph_ids_nodup hr, ?_⟩
  intro task ht d hd
  obtain ⟨htg, htp⟩ := mem_keptGraph.mp ht
  exact mem_keptGraph_ids.mpr ⟨hr.known task htg d hd, hall task htg htp d hd⟩

omit hall in
theorem keptGraph_acyclic (ha : TopologicalSort.Acyclic graph.ids graph.dependsOn) :
    TopologicalSort.Acyclic (keptGraph graph p).ids (keptGraph graph p).dependsOn := by
  intro x hx
  refine ha x (Relation.TransGen.mono ?_ x x hx)
  rintro a b ⟨hka, hkb, hd⟩
  rw [dependsOn_keptGraph hr hkb] at hd
  exact ⟨(mem_keptGraph_ids.mp hka).1, (mem_keptGraph_ids.mp hkb).1, hd⟩

end Kept

theorem sorted_perm (hr : References graph)
    (ha : TopologicalSort.Acyclic graph.ids graph.dependsOn) :
    graph.sorted.ordered.Perm graph.ids := by
  obtain ⟨hi, hq⟩ := sorted_invariant hr
  exact hi.perm_of_acyclic hq hr.ids_nodup (fun _ hx => hr.dependsOn hx) ha

theorem keptPart_of_pruned (hr : References graph)
    (ha : TopologicalSort.Acyclic graph.ids graph.dependsOn)
    (hm : ∀ id, id ∈ p.pruned ↔ Skipped isCallable call r graph id)
    (hall : ∀ task ∈ graph.tasks, task.id ∉ p.pruned → ∀ d ∈ task.dependsOn, d ∉ p.pruned) :
    KeptPart isCallable call r graph ⟨keptGraph graph p, (keptGraph graph p).roots,
      graph.sorted.ordered.filter fun id => id ∈ (keptGraph graph p).ids⟩ := by
  have hp := sorted_perm hr ha
  have hn := (List.Perm.nodup_iff hp).mpr hr.ids_nodup
  refine ⟨List.filter_sublist, ?_, rfl, ?_, ?_, rfl, rfl⟩
  · intro task
    rw [mem_keptGraph, hm]
  · refine (List.perm_ext_iff_of_nodup (hn.filter _) (keptGraph_ids_nodup hr)).mpr fun id => ?_
    rw [List.mem_filter, decide_eq_true_eq, hp.mem_iff]
    constructor
    · exact fun h => h.2
    · exact fun h => ⟨(mem_keptGraph_ids.mp h).1, h⟩
  · refine (sorted_invariant hr).1.first.filter _ ?_
    intro x hx hk d hd
    rw [decide_eq_true_eq] at hk ⊢
    obtain ⟨task, ht, rfl⟩ := mem_ids.mp hk
    obtain ⟨htg, htp⟩ := mem_keptGraph.mp ht
    rw [dependsOn_of_mem hr.ids_nodup htg] at hd
    exact mem_keptGraph_ids.mpr ⟨hr.known task htg d hd, hall task htg htp d hd⟩

theorem keptPart_of_none (hr : References graph)
    (ha : TopologicalSort.Acyclic graph.ids graph.dependsOn)
    (hm : ∀ id, ¬ Skipped isCallable call r graph id) :
    KeptPart isCallable call r graph ⟨graph, graph.roots, graph.sorted.ordered⟩ :=
  ⟨List.Sublist.refl _, fun task => by simp [hm], rfl, sorted_perm hr ha,
    (sorted_invariant hr).1.first, rfl, rfl⟩

theorem keptTasks_spec (hr : References graph) (hne : graph.tasks ≠ [])
    (ha : TopologicalSort.Acyclic graph.ids graph.dependsOn)
    (hm : ∀ id, id ∈ p.pruned ↔ Skipped isCallable call r graph id)
    (hall : ∀ task ∈ graph.tasks, task.id ∉ p.pruned → ∀ d ∈ task.dependsOn, d ∉ p.pruned) :
    ((∃ k, keptTasks graph p = .ok k) ↔
      ∃ task ∈ graph.tasks, ¬ Skipped isCallable call r graph task.id) ∧
    ∀ k, keptTasks graph p = .ok k → KeptPart isCallable call r graph k := by
  unfold keptTasks
  simp only
  by_cases hnil : p.pruned = []
  · have hnone : ∀ id, ¬ Skipped isCallable call r graph id := by
      intro id h
      have hid := (hm id).mpr h
      simp [hnil] at hid
    obtain ⟨task, ht⟩ := List.exists_mem_of_ne_nil _ hne
    rw [if_pos hnil]
    refine ⟨⟨fun _ => ⟨task, ht, hnone task.id⟩, fun _ => ⟨_, rfl⟩⟩, ?_⟩
    intro k hk
    cases hk
    exact keptPart_of_none hr ha hnone
  · rw [if_neg hnil]
    have hkeep := keptPart_of_pruned hr ha hm hall
    have hmem := hkeep.mem
    simp only at hmem
    by_cases htasks : (keptGraph graph p).tasks = []
    · rw [if_pos htasks]
      have hno : ¬ ∃ task ∈ graph.tasks, ¬ Skipped isCallable call r graph task.id := by
        rintro ⟨task, ht, hs⟩
        have htk := (hmem task).mpr ⟨ht, hs⟩
        rw [htasks] at htk
        cases htk
      simp [hno]
    · have hroots := roots_ne_nil (keptGraph_references hr hall) htasks (keptGraph_acyclic hr ha)
      rw [if_neg htasks, if_neg hroots]
      obtain ⟨task, ht⟩ := List.exists_mem_of_ne_nil _ htasks
      obtain ⟨htg, hs⟩ := (hmem task).mp ht
      refine ⟨⟨fun _ => ⟨task, htg, hs⟩, fun _ => ⟨_, rfl⟩⟩, ?_⟩
      intro k hk
      cases hk
      exact hkeep

theorem keptTasks_order (hr : References graph)
    (ha : TopologicalSort.Acyclic graph.ids graph.dependsOn)
    (hall : ∀ task ∈ graph.tasks, task.id ∉ p.pruned → ∀ d ∈ task.dependsOn, d ∉ p.pruned)
    {k : Ordered} (hk : keptTasks graph p = .ok k) : k.ordered = k.graph.sorted.ordered := by
  unfold keptTasks at hk
  simp only at hk
  split at hk
  · cases hk
    rfl
  · split at hk
    · cases hk
    · split at hk
      · cases hk
      · cases hk
        have hpart : (keptGraph graph p).sorted.ordered = _ :=
          DependencyList.sorted_part (fun id => decide (id ∉ p.pruned)) hr.listed (by
            intro task ht hkeep d hd
            exact decide_eq_true (hall task ht (of_decide_eq_true hkeep) d hd))
        simp only
        rw [hpart]
        refine List.filter_congr fun id hid => ?_
        have hin : id ∈ graph.ids := (sorted_perm hr ha).mem_iff.mp hid
        rw [decide_eq_decide, mem_keptGraph_ids]
        exact and_iff_right hin

theorem pruned_of_unresolved (hr : References graph)
    (hp : p.pruned = (graph.tasks.filter (isUnresolved isCallable call r)).map TaskDAGNode.id) :
    Pruned isCallable call r graph p := by
  have hin : ∀ id, id ∈ p.pruned ↔
      ∃ task ∈ graph.tasks, isUnresolved isCallable call r task = true ∧ task.id = id := by
    intro id
    rw [hp, List.mem_map]
    simp [and_assoc]
  refine ⟨?_, ?_, ?_, ?_⟩
  · rw [hp]
    have hsub : ((graph.tasks.filter (isUnresolved isCallable call r)).map
      TaskDAGNode.id).Sublist graph.ids := List.Sublist.map _ List.filter_sublist
    exact hsub.nodup hr.ids_nodup
  · intro id hid
    obtain ⟨task, ht, -, rfl⟩ := (hin id).mp hid
    exact mem_ids.mpr ⟨task, ht, rfl⟩
  · intro id hid
    obtain ⟨task, ht, hu, rfl⟩ := (hin id).mp hid
    exact .unresolved task ht hu
  · exact fun task ht hu => (hin task.id).mpr ⟨task, ht, hu, rfl⟩

theorem prune_eq (hr : References graph)
    (ho : UnresolvedOptional isCallable call reprOf r graph) :
    ∃ p, Pruned isCallable call r graph p ∧
      (∀ task ∈ graph.tasks, task.id ∉ p.pruned → ∀ d ∈ task.dependsOn, d ∉ p.pruned) ∧
      pruneUnresolvedOptionalTasks isCallable call reprOf r graph = keptTasks graph p := by
  obtain ⟨p, hp⟩ := (pruneUnresolved_ok hr graph.tasks
    { pruned := [], diagnostics := graph.diagnostics, changed := true }).mpr ho
  obtain ⟨hpp, hpc⟩ := pruneUnresolved_pruned hp
  rw [List.nil_append] at hpp
  obtain ⟨q, hq, hpq, hall⟩ := prunePasses_ok hr ho (graph.tasks.length + 1) p
    (pruned_of_unresolved hr hpp) hpc (by omega)
  refine ⟨q, hpq, hall, ?_⟩
  simp only [pruneUnresolvedOptionalTasks, hp, hq]

theorem prune_optional (hr : References graph) {k : Ordered}
    (hk : pruneUnresolvedOptionalTasks isCallable call reprOf r graph = .ok k) :
    UnresolvedOptional isCallable call reprOf r graph := by
  unfold pruneUnresolvedOptionalTasks at hk
  simp only at hk
  cases hp : pruneUnresolved isCallable call r (semanticRequiredTaskIds reprOf graph) graph.tasks
      { pruned := [], diagnostics := graph.diagnostics, changed := true } with
  | error e =>
    rw [hp] at hk
    cases hk
  | ok p => exact (pruneUnresolved_ok hr graph.tasks _).mp ⟨p, hp⟩

theorem prune_spec (hr : References graph) (hne : graph.tasks ≠ [])
    (ha : TopologicalSort.Acyclic graph.ids graph.dependsOn) :
    ((∃ k, pruneUnresolvedOptionalTasks isCallable call reprOf r graph = .ok k) ↔
      UnresolvedOptional isCallable call reprOf r graph ∧
        ∃ task ∈ graph.tasks, ¬ Skipped isCallable call r graph task.id) ∧
    ∀ k, pruneUnresolvedOptionalTasks isCallable call reprOf r graph = .ok k →
      KeptPart isCallable call r graph k := by
  constructor
  · constructor
    · rintro ⟨k, hk⟩
      have ho := prune_optional hr hk
      obtain ⟨p, hp, hall, heq⟩ := prune_eq hr ho
      rw [heq] at hk
      exact ⟨ho, (keptTasks_spec hr hne ha (mem_pruned_iff hp hall) hall).1.mp ⟨k, hk⟩⟩
    · rintro ⟨ho, hleft⟩
      obtain ⟨p, hp, hall, heq⟩ := prune_eq hr ho
      rw [heq]
      exact (keptTasks_spec hr hne ha (mem_pruned_iff hp hall) hall).1.mpr hleft
  · intro k hk
    obtain ⟨p, hp, hall, heq⟩ := prune_eq hr (prune_optional hr hk)
    rw [heq] at hk
    exact (keptTasks_spec hr hne ha (mem_pruned_iff hp hall) hall).2 k hk

theorem prune_order (hr : References graph)
    (ha : TopologicalSort.Acyclic graph.ids graph.dependsOn) {k : Ordered}
    (hk : pruneUnresolvedOptionalTasks isCallable call reprOf r graph = .ok k) :
    k.ordered = k.graph.sorted.ordered := by
  obtain ⟨p, -, hall, heq⟩ := prune_eq hr (prune_optional hr hk)
  rw [heq] at hk
  exact keptTasks_order hr ha hall hk

theorem prune_of_none (hr : References graph)
    (hno : ∀ id, ¬ Skipped isCallable call r graph id) :
    pruneUnresolvedOptionalTasks isCallable call reprOf r graph =
      .ok ⟨graph, graph.roots, graph.sorted.ordered⟩ := by
  have ho : UnresolvedOptional isCallable call reprOf r graph := fun task ht hu =>
    absurd (.unresolved task ht hu) (hno task.id)
  obtain ⟨p, hp, -, heq⟩ := prune_eq hr ho
  have hnil : p.pruned = [] :=
    List.eq_nil_iff_forall_not_mem.mpr fun id hid => hno id (hp.skipped id hid)
  rw [heq, keptTasks]
  simp only [hnil, if_true]

end Pruning

section Valid

variable (isCallable : Value → Bool) (call : Value → TaskDAGNode → Value)
  (reprOf : Value → String) (r : TaskDAGResolver) (graph : TaskDAG)

/-- The graphs `validate_task_dag` accepts. -/
structure ValidGraph : Prop where
  nonempty : graph.tasks ≠ []
  ids : ∀ task ∈ graph.tasks, matchesTaskId task.id = true
  ids_nodup : graph.ids.Nodup
  known : ∀ task ∈ graph.tasks, ∀ d ∈ task.dependsOn, d ∈ graph.ids
  acyclic : TopologicalSort.Acyclic graph.ids graph.dependsOn
  optional : UnresolvedOptional isCallable call reprOf r graph
  kept : ∃ task ∈ graph.tasks, ¬ Skipped isCallable call r graph task.id
  outputs : ∀ output ∈ semanticOutputTaskRefs reprOf graph.semanticOutputs, output.2 ∈ graph.ids
  guarded : requiresApprovals reprOf graph = true → ∀ task ∈ graph.tasks,
    ¬ Skipped isCallable call r graph task.id → declaresSideEffects task = true →
      approvalRequired task = .ok true

structure Validated (v : Validation) : Prop where
  kept : ∀ task, task ∈ v.graph.tasks ↔
    task ∈ graph.tasks ∧ ¬ Skipped isCallable call r graph task.id
  resolved : ∀ task ∈ v.graph.tasks, isUnresolved isCallable call r task = false
  taskIds : v.taskIds = v.graph.tasks.map TaskDAGNode.id
  order : v.topologicalTaskIds.Perm v.taskIds
  dependencies : ∀ task ∈ v.graph.tasks, ∀ d ∈ task.dependsOn,
    d ∈ v.taskIds ∧ v.topologicalTaskIds.idxOf d < v.topologicalTaskIds.idxOf task.id
  roots : v.rootTaskIds =
    (v.graph.tasks.filter fun task => task.dependsOn.isEmpty).map TaskDAGNode.id

variable {isCallable call reprOf r graph}

theorem checkSideEffects_ok (task : TaskDAGNode) : checkSideEffects task = .ok () ↔
    (declaresSideEffects task = true → approvalRequired task = .ok true) := by
  unfold checkSideEffects raise
  cases declaresSideEffects task with
  | false => simp
  | true =>
    cases approvalRequired task with
    | error e => simp
    | ok b => cases b <;> simp

theorem checkOutput_ok (ids : List String) (output : String × String) :
    checkOutput ids output = .ok () ↔ output.2 ∈ ids := by
  unfold checkOutput raise
  by_cases h : output.2 ∈ ids
  · simp [h]
  · simp [h]

theorem checkResolver_ok (task : TaskDAGNode) : checkResolver isCallable call r task = .ok () ↔
    isUnresolved isCallable call r task = false := by
  unfold checkResolver raise
  cases isUnresolved isCallable call r task with
  | false => simp
  | true => simp

variable {k : Ordered}

theorem KeptPart.resolved (h : KeptPart isCallable call r graph k)
    {task : TaskDAGNode} (ht : task ∈ k.graph.tasks) :
    isUnresolved isCallable call r task = false := by
  obtain ⟨htg, hs⟩ := (h.mem task).mp ht
  by_contra hu
  exact hs (.unresolved task htg (by simpa using hu))

theorem KeptPart.ids_nodup (h : KeptPart isCallable call r graph k)
    (hr : References graph) : k.graph.ids.Nodup := by
  have hsub : k.graph.ids.Sublist graph.ids := h.sublist.map _
  exact hsub.nodup hr.ids_nodup

theorem outputs_ok_iff (hr : References graph)
    (ho : UnresolvedOptional isCallable call reprOf r graph)
    (h : KeptPart isCallable call r graph k) :
    validateSemanticOutputs reprOf k.graph = .ok () ↔
      ∀ output ∈ semanticOutputTaskRefs reprOf graph.semanticOutputs, output.2 ∈ graph.ids := by
  simp only [validateSemanticOutputs, checkEach_ok, checkOutput_ok, h.outputs]
  constructor
  · intro hall output hm
    obtain ⟨task, ht, he⟩ := mem_ids.mp (hall output hm)
    exact mem_ids.mpr ⟨task, ((h.mem task).mp ht).1, he⟩
  · intro hall output hm
    obtain ⟨task, ht, he⟩ := mem_ids.mp (hall output hm)
    have hreq : Required reprOf graph task.id := by
      refine ⟨task.id, List.mem_dedup.mpr ?_, .refl⟩
      exact he ▸ List.mem_map_of_mem hm
    refine mem_ids.mpr ⟨task, (h.mem task).mpr ⟨ht, fun hs => ?_⟩, he⟩
    exact hs.not_required hr ho hreq

theorem sideEffects_ok_iff (h : KeptPart isCallable call r graph k) :
    validateSideEffects reprOf k.graph = .ok () ↔
      (requiresApprovals reprOf graph = true → ∀ task ∈ graph.tasks,
        ¬ Skipped isCallable call r graph task.id → declaresSideEffects task = true →
          approvalRequired task = .ok true) := by
  have hpol : requiresApprovals reprOf k.graph = requiresApprovals reprOf graph := by
    simp only [requiresApprovals, approvalPolicy, h.policies]
  unfold validateSideEffects
  rw [hpol]
  cases requiresApprovals reprOf graph with
  | false => simp
  | true =>
    simp only [if_true, checkEach_ok, checkSideEffects_ok, h.mem, true_implies, and_imp]

variable {v : Validation}

theorem validateGraph_eq_ok :
    validateGraph isCallable call reprOf r graph = .ok v ↔
      graph.tasks ≠ [] ∧ checkEach checkTaskId graph.tasks = .ok () ∧
        checkDuplicates graph.ids = .ok () ∧ checkDependencies graph = .ok () ∧
        checkOrder graph = .ok () ∧
        ∃ k, pruneUnresolvedOptionalTasks isCallable call reprOf r graph = .ok k ∧
          checkEach (checkResolver isCallable call r) k.graph.tasks = .ok () ∧
          validateSemanticOutputs reprOf k.graph = .ok () ∧
          validateSideEffects reprOf k.graph = .ok () ∧
          v = { graph := k.graph, taskIds := k.graph.ids, rootTaskIds := k.roots
                topologicalTaskIds := k.ordered, diagnostics := k.graph.diagnostics } := by
  unfold validateGraph
  by_cases hne : graph.tasks = []
  · simp [hne, throw, throwThe, MonadExceptOf.throw, bind, Except.bind]
  · have hret : ∀ w : Validation, (pure w : Except Fault Validation) = .ok v ↔ v = w := by
      intro w
      simp [pure, Except.pure, eq_comm]
    simp only [hne, if_false, then_eq_ok, ne_eq, not_false_eq_true, true_and]
    rw [bind_eq_ok]
    simp only [then_eq_ok, hret]

theorem validateGraph_spec :
    ((∃ v, validateGraph isCallable call reprOf r graph = .ok v) ↔
      ValidGraph isCallable call reprOf r graph) ∧
    ∀ v, validateGraph isCallable call reprOf r graph = .ok v →
      Validated isCallable call r graph v := by
  have hchecks : ∀ v, validateGraph isCallable call reprOf r graph = .ok v →
      graph.tasks ≠ [] ∧ References graph ∧
        TopologicalSort.Acyclic graph.ids graph.dependsOn := by
    intro v h
    obtain ⟨hne, -, hdup, hdep, hord, -⟩ := validateGraph_eq_ok.mp h
    have hr : References graph :=
      ⟨(checkDuplicates_ok _).mp hdup, (checkDependencies_ok graph).mp hdep⟩
    exact ⟨hne, hr, (checkOrder_ok hr hne).mp hord⟩
  constructor
  · constructor
    · rintro ⟨v, h⟩
      obtain ⟨hne, hr, ha⟩ := hchecks v h
      obtain ⟨-, hids, -, -, -, k, hk, -, hout, hside, -⟩ := validateGraph_eq_ok.mp h
      obtain ⟨ho, hkept⟩ := (prune_spec hr hne ha).1.mp ⟨k, hk⟩
      have hpart := (prune_spec hr hne ha).2 k hk
      refine ⟨hne, ?_, hr.ids_nodup, hr.known, ha, ho, hkept, ?_, ?_⟩
      · intro task ht
        exact (checkTaskId_ok task).mp ((checkEach_ok _ _).mp hids task ht)
      · exact (outputs_ok_iff hr ho hpart).mp hout
      · exact (sideEffects_ok_iff hpart).mp hside
    · intro hv
      have hr : References graph := ⟨hv.ids_nodup, hv.known⟩
      obtain ⟨k, hk⟩ := (prune_spec hr hv.nonempty hv.acyclic).1.mpr ⟨hv.optional, hv.kept⟩
      have hpart := (prune_spec hr hv.nonempty hv.acyclic).2 k hk
      refine ⟨_, validateGraph_eq_ok.mpr ⟨hv.nonempty, ?_, (checkDuplicates_ok _).mpr hv.ids_nodup,
        (checkDependencies_ok graph).mpr hv.known, (checkOrder_ok hr hv.nonempty).mpr hv.acyclic,
        k, hk, ?_, (outputs_ok_iff hr hv.optional hpart).mpr hv.outputs,
        (sideEffects_ok_iff hpart).mpr hv.guarded, rfl⟩⟩
      · exact (checkEach_ok _ _).mpr fun task ht => (checkTaskId_ok task).mpr (hv.ids task ht)
      · exact (checkEach_ok _ _).mpr fun task ht => (checkResolver_ok task).mpr (hpart.resolved ht)
  · intro v h
    obtain ⟨hne, hr, ha⟩ := hchecks v h
    obtain ⟨-, -, -, -, -, k, hk, -, -, -, rfl⟩ := validateGraph_eq_ok.mp h
    have hpart := (prune_spec hr hne ha).2 k hk
    have hn := (List.Perm.nodup_iff hpart.perm).mpr (hpart.ids_nodup hr)
    refine ⟨hpart.mem, fun task ht => hpart.resolved ht, rfl, hpart.perm, ?_, hpart.roots⟩
    intro task ht d hd
    obtain ⟨htg, -⟩ := (hpart.mem task).mp ht
    have hdg : d ∈ graph.dependsOn task.id := by
      rw [dependsOn_of_mem hr.ids_nodup htg]
      exact hd
    have hin : task.id ∈ k.ordered := hpart.perm.mem_iff.mpr (mem_ids.mpr ⟨task, ht, rfl⟩)
    obtain ⟨l₁, l₂, hl⟩ := List.append_of_mem hin
    have hdl := hpart.first l₁ task.id l₂ hl d hdg
    refine ⟨hpart.perm.mem_iff.mp ?_, TopologicalSort.idxOf_lt_of_edge hn hpart.first hin hdg⟩
    rw [hl]
    exact List.mem_append_left _ hdl

theorem validateGraph_kept (h : validateGraph isCallable call reprOf r graph = .ok v) :
    v.graph.ids.Nodup ∧ v.rootTaskIds = v.graph.roots ∧ v.graph.policies = graph.policies ∧
      v.graph.semanticOutputs = graph.semanticOutputs := by
  have hv := validateGraph_spec.1.mp ⟨v, h⟩
  have hr : References graph := ⟨hv.ids_nodup, hv.known⟩
  obtain ⟨-, -, -, -, -, k, hk, -, -, -, rfl⟩ := validateGraph_eq_ok.mp h
  have hpart := (prune_spec hr hv.nonempty hv.acyclic).2 k hk
  exact ⟨hpart.ids_nodup hr, hpart.roots, hpart.policies, hpart.outputs⟩

theorem validated_valid (h : validateGraph isCallable call reprOf r graph = .ok v) :
    ValidGraph isCallable call reprOf r v.graph ∧
      ∀ id, ¬ Skipped isCallable call r v.graph id := by
  have hv := validateGraph_spec.1.mp ⟨v, h⟩
  have hk := validateGraph_spec.2 v h
  obtain ⟨hn, -, hpol, hout⟩ := validateGraph_kept h
  have hr : References graph := ⟨hv.ids_nodup, hv.known⟩
  have hno : ∀ id, ¬ Skipped isCallable call r v.graph id := by
    intro id hs
    induction hs with
    | unresolved task mem hu =>
      rw [hk.resolved task mem] at hu
      cases hu
    | dependent task mem d dep _ ih => exact ih
  have hknown : ∀ task ∈ v.graph.tasks, ∀ d ∈ task.dependsOn, d ∈ v.graph.ids := by
    intro task ht d hd
    have hd' := (hk.dependencies task ht d hd).1
    rwa [hk.taskIds] at hd'
  have hr' : References v.graph := ⟨hn, hknown⟩
  have hsub : ∀ x ∈ v.graph.ids, x ∈ graph.ids ∧ v.graph.dependsOn x = graph.dependsOn x := by
    intro x hx
    obtain ⟨task, ht, rfl⟩ := mem_ids.mp hx
    have htg := ((hk.kept task).mp ht).1
    exact ⟨mem_ids.mpr ⟨task, htg, rfl⟩, by
      rw [dependsOn_of_mem hn ht, dependsOn_of_mem hv.ids_nodup htg]⟩
  obtain ⟨task, ht, hs⟩ := hv.kept
  have htk := (hk.kept task).mpr ⟨ht, hs⟩
  refine ⟨⟨List.ne_nil_of_mem htk, fun t hm => hv.ids t ((hk.kept t).mp hm).1, hn, hknown, ?_, ?_,
    ⟨task, htk, hno _⟩, ?_, ?_⟩, hno⟩
  · intro x hx
    refine hv.acyclic x (Relation.TransGen.mono ?_ x x hx)
    rintro a b ⟨ha, hb, hd⟩
    rw [(hsub b hb).2] at hd
    exact ⟨(hsub a ha).1, (hsub b hb).1, hd⟩
  · intro t hm hu
    exact absurd (.unresolved t hm hu) (hno _)
  · intro output hm
    rw [hout] at hm
    obtain ⟨t, htm, he⟩ := mem_ids.mp (hv.outputs output hm)
    have hreq : Required reprOf graph t.id := by
      refine ⟨t.id, List.mem_dedup.mpr ?_, .refl⟩
      exact he ▸ List.mem_map_of_mem hm
    have hts : ¬ Skipped isCallable call r graph t.id := fun hs =>
      hs.not_required hr hv.optional hreq
    exact mem_ids.mpr ⟨t, (hk.kept t).mpr ⟨htm, hts⟩, he⟩
  · intro hreq t hm _
    obtain ⟨htg, hts⟩ := (hk.kept t).mp hm
    refine hv.guarded ?_ t htg hts
    simpa only [requiresApprovals, approvalPolicy, hpol] using hreq

theorem validateGraph_again (h : validateGraph isCallable call reprOf r graph = .ok v) :
    ∃ w, validateGraph isCallable call reprOf r v.graph = .ok w ∧ w.graph = v.graph ∧
      w.rootTaskIds = v.rootTaskIds := by
  obtain ⟨hvalid, hno⟩ := validated_valid h
  obtain ⟨w, hw⟩ := validateGraph_spec.1.mpr hvalid
  obtain ⟨-, -, -, -, -, k, hk, -, -, -, hwk⟩ := validateGraph_eq_ok.mp hw
  rw [prune_of_none ⟨hvalid.ids_nodup, hvalid.known⟩ hno] at hk
  have hwg : w.graph = v.graph := by
    cases hk
    rw [hwk]
  have hroots := (validateGraph_kept hw).2.1
  have hroots' := (validateGraph_kept h).2.1
  refine ⟨w, hw, hwg, ?_⟩
  rw [hroots, hwg, hroots']

end Valid

/-- A candidate is accepted exactly when it reads as a valid graph, and what is kept of it
is then resolvable and comes in dependency order. -/
theorem validate_task_dag_accepts (isCallable : Value → Bool) (call : Value → TaskDAGNode → Value)
    (reprOf : Value → String) (nodeOf : Value → Option TaskDAGNode)
    (graphOf : Value → Option TaskDAG) (freshId : String) (candidate : Value)
    (resolver : ResolverArg) :
    ((∃ v, validateTaskDag isCallable call reprOf nodeOf graphOf freshId candidate resolver = .ok v) ↔
      ∃ graph r, graphFromValue reprOf nodeOf graphOf freshId candidate = .ok graph ∧
        coerceResolver resolver = .ok r ∧ ValidGraph isCallable call reprOf r graph) ∧
    ∀ v, validateTaskDag isCallable call reprOf nodeOf graphOf freshId candidate resolver = .ok v →
      ∃ graph r, graphFromValue reprOf nodeOf graphOf freshId candidate = .ok graph ∧
        coerceResolver resolver = .ok r ∧ Validated isCallable call r graph v := by
  have heq : ∀ v, validateTaskDag isCallable call reprOf nodeOf graphOf freshId candidate resolver =
      .ok v ↔ ∃ graph, graphFromValue reprOf nodeOf graphOf freshId candidate = .ok graph ∧
        ∃ r, coerceResolver resolver = .ok r ∧
          validateGraph isCallable call reprOf r graph = .ok v := by
    intro v
    simp only [validateTaskDag, bind_eq_ok]
  constructor
  · constructor
    · rintro ⟨v, h⟩
      obtain ⟨graph, hg, r, hr, hv⟩ := (heq v).mp h
      exact ⟨graph, r, hg, hr, validateGraph_spec.1.mp ⟨v, hv⟩⟩
    · rintro ⟨graph, r, hg, hr, hv⟩
      obtain ⟨v, h⟩ := validateGraph_spec.1.mpr hv
      exact ⟨v, (heq v).mpr ⟨graph, hg, r, hr, h⟩⟩
  · intro v h
    obtain ⟨graph, hg, r, hr, hv⟩ := (heq v).mp h
    exact ⟨graph, r, hg, hr, validateGraph_spec.2 v hv⟩

/-- Ids, references and order are right, and what is kept can be resolved. -/
structure WellFormedGraph (isCallable : Value → Bool) (call : Value → TaskDAGNode → Value)
    (reprOf : Value → String) (r : TaskDAGResolver) (graph : TaskDAG) : Prop where
  ids : ∀ task ∈ graph.tasks, matchesTaskId task.id = true
  ids_nodup : graph.ids.Nodup
  known : ∀ task ∈ graph.tasks, ∀ d ∈ task.dependsOn, d ∈ graph.ids
  outputs : ∀ output ∈ semanticOutputTaskRefs reprOf graph.semanticOutputs, output.2 ∈ graph.ids
  acyclic : TopologicalSort.Acyclic graph.ids graph.dependsOn
  resolvable : ∀ task ∈ graph.tasks, ¬ Skipped isCallable call r graph task.id →
    isUnresolved isCallable call r task = false

def noCallables : Value → Bool := fun _ => false

def answerNone : Value → TaskDAGNode → Value := fun _ _ => .none

def noText : Value → String := fun _ => ""

def defaultResolver : TaskDAGResolver :=
  [("validate", defaultValidateTask), ("emit", defaultEmitTask)]

def emptyGraph : TaskDAG := { graphId := "empty", tasks := [] }

def skippedGraph : TaskDAG := { graphId := "skipped", tasks := [{ id := "search", kind := "action" }] }

def unguardedGraph : TaskDAG :=
  { graphId := "unguarded"
    tasks := [{ id := "report", kind := "emit", sideEffectPolicy := [("local_write", .bool true)] }]
    policies := [("approval", .str "require")] }

def guardedDependentGraph : TaskDAG :=
  { graphId := "dependent"
    tasks := [{ id := "search", kind := "action" },
      { id := "post", kind := "action", dependsOn := ["search"]
        sideEffectPolicy := [("network", .bool true)] },
      { id := "report", kind := "emit" }] }

theorem emptyGraph_wellFormed :
    WellFormedGraph noCallables answerNone noText defaultResolver emptyGraph := by
  refine ⟨by simp [emptyGraph], by simp [emptyGraph, TaskDAG.ids], by simp [emptyGraph],
    by simp [emptyGraph, semanticOutputTaskRefs], ?_, by simp [emptyGraph]⟩
  intro x hx
  obtain ⟨y, hy, -⟩ := Relation.TransGen.head'_iff.mp hx
  simpa [emptyGraph, TaskDAG.ids] using hy.1

theorem wellFormed_of_order {graph : TaskDAG} (hi : ∀ task ∈ graph.tasks, matchesTaskId task.id = true)
    (hn : graph.ids.Nodup) (hk : ∀ task ∈ graph.tasks, ∀ d ∈ task.dependsOn, d ∈ graph.ids)
    (hs : graph.semanticOutputs = .dict []) (hne : graph.tasks ≠ [])
    (ho : checkOrder graph = .ok ()) :
    WellFormedGraph noCallables answerNone noText defaultResolver graph := by
  refine ⟨hi, hn, hk, ?_, (checkOrder_ok ⟨hn, hk⟩ hne).mp ho, ?_⟩
  · rw [hs]
    simp [semanticOutputTaskRefs]
  · intro task ht hsk
    by_contra hu
    exact hsk (.unresolved task ht (by simpa using hu))

def Refused (graph : TaskDAG) : Prop :=
  WellFormedGraph noCallables answerNone noText defaultResolver graph ∧
    (validateGraph noCallables answerNone noText defaultResolver graph).toOption = none

/-- No task at all, no task left, a side effect nobody approves and an unresolved dependent
that is no optional task are refused although ids, references and order are right. -/
theorem well_formed_graphs_refused :
    Refused emptyGraph ∧ Refused skippedGraph ∧ Refused unguardedGraph ∧
      Refused guardedDependentGraph := by
  refine ⟨⟨emptyGraph_wellFormed, by decide +kernel⟩, ⟨?_, by decide +kernel⟩,
    ⟨?_, by decide +kernel⟩, ?_, by decide +kernel⟩
  · exact wellFormed_of_order (by decide +kernel) (by decide +kernel) (by decide +kernel) rfl
      (by decide) (by decide +kernel)
  · exact wellFormed_of_order (by decide +kernel) (by decide +kernel) (by decide +kernel) rfl
      (by decide) (by decide +kernel)
  · exact wellFormed_of_order (by decide +kernel) (by decide +kernel) (by decide +kernel) rfl
      (by decide) (by decide +kernel)

def diamondCandidate : Value :=
  .dict [("graph_id", .str "diamond"), ("tasks", .list [
    .dict [("id", .str "join"), ("kind", .str "emit"), ("depends_on", .list [.str "left", .str "right"])],
    .dict [("id", .str "left"), ("kind", .str "emit"), ("depends_on", .str "start")],
    .dict [("id", .str "right"), ("kind", .str "emit"), ("depends_on", .str "start")],
    .dict [("id", .str "start"), ("kind", .str "emit")],
    .dict [("id", .str "extra"), ("kind", .str "search"), ("depends_on", .str "start")]])]

def noNode : Value → Option TaskDAGNode := fun _ => none

def noGraph : Value → Option TaskDAG := fun _ => none

theorem validate_task_dag_accepts_diamond :
    ∃ v, validateTaskDag noCallables answerNone noText noNode noGraph "graph-1" diamondCandidate .none =
        .ok v ∧ v.topologicalTaskIds = ["start", "left", "right", "join"] ∧
      ∃ graph r, graphFromValue noText noNode noGraph "graph-1" diamondCandidate = .ok graph ∧
        coerceResolver .none = .ok r ∧ Validated noCallables answerNone r graph v := by
  cases h : validateTaskDag noCallables answerNone noText noNode noGraph "graph-1"
      diamondCandidate .none with
  | error e =>
    have hsome : (validateTaskDag noCallables answerNone noText noNode noGraph "graph-1"
      diamondCandidate .none).toOption ≠ none := by decide +kernel
    rw [h] at hsome
    exact absurd rfl hsome
  | ok v =>
    have hids : (validateTaskDag noCallables answerNone noText noNode noGraph "graph-1"
      diamondCandidate .none).toOption.map Validation.topologicalTaskIds =
        some ["start", "left", "right", "join"] := by decide +kernel
    rw [h] at hids
    exact ⟨v, rfl, Option.some.inj hids, (validate_task_dag_accepts noCallables answerNone noText
      noNode noGraph "graph-1" diamondCandidate .none).2 v h⟩

end Agently.TaskDAGValidation
