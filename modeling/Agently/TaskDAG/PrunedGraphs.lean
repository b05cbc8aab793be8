import Agently.TaskDAG.ValidGraphs

/-! # What pruning keeps

Source: `TaskDAG/TaskDAGValidation.py`. What is left is the part of the graph that can be resolved
with all it depends on, and validating it again changes nothing of it. The cascade asks no dependent
whether it is guarded. -/

namespace Agently.TaskDAGValidation

open Agently.Lib Agently.Utils

section Kept

variable (isCallable : Value → Bool) (call : Value → TaskDAGNode → Value)
  (reprOf : Value → String) (r : TaskDAGResolver) (graph : TaskDAG)

/-- What `validate_task_dag` has checked when it prunes. -/
structure Checked : Prop where
  nonempty : graph.tasks ≠ []
  duplicates : checkDuplicates graph.ids = .ok ()
  dependencies : checkDependencies graph = .ok ()
  order : checkOrder graph = .ok ()

/-- `x` depends on `d`, directly or through others. -/
def DependsOn (d x : String) : Prop :=
  Relation.TransGen (fun d x => d ∈ graph.dependsOn x) d x

def Grounded (task : TaskDAGNode) : Prop :=
  ∀ d ∈ graph.tasks, DependsOn graph d.id task.id → isUnresolved isCallable call r d = false

def Guarded (task : TaskDAGNode) : Prop :=
  approvalRequired task = .ok true ∨ task.sideEffectPolicy ≠ []

/-- The largest part that can be resolved is kept, with all that is needed or guarded. -/
structure KeepsLargest (k : Ordered) : Prop where
  kept : ∀ task, task ∈ k.graph.tasks ↔ task ∈ graph.tasks ∧
    isUnresolved isCallable call r task = false ∧ Grounded isCallable call r graph task
  outputs : ∀ task ∈ graph.tasks, Required reprOf graph task.id → task ∈ k.graph.tasks
  guarded : ∀ task ∈ graph.tasks, Guarded task → task ∈ k.graph.tasks

variable {isCallable call reprOf r graph}

theorem Checked.references (h : Checked graph) : References graph :=
  ⟨(checkDuplicates_ok _).mp h.duplicates, (checkDependencies_ok graph).mp h.dependencies⟩

theorem Checked.acyclic (h : Checked graph) :
    TopologicalSort.Acyclic graph.ids graph.dependsOn :=
  (checkOrder_ok h.references h.nonempty).mp h.order

theorem mem_of_dependsOn {d id : String} (h : d ∈ graph.dependsOn id) :
    ∃ task ∈ graph.tasks, task.id = id ∧ d ∈ task.dependsOn := by
  unfold TaskDAG.dependsOn at h
  cases ht : graph.taskById id with
  | none =>
    rw [ht] at h
    cases h
  | some task =>
    rw [ht] at h
    exact ⟨task, List.mem_of_find?_eq_some ht, by simpa using List.find?_some ht, h⟩

theorem skipped_iff (hr : References graph) (id : String) :
    Skipped isCallable call r graph id ↔
      ∃ task ∈ graph.tasks, isUnresolved isCallable call r task = true ∧
        Relation.ReflTransGen (fun d x => d ∈ graph.dependsOn x) task.id id := by
  constructor
  · intro h
    induction h with
    | unresolved task mem hu => exact ⟨task, mem, hu, .refl⟩
    | dependent task mem d dep _ ih =>
      obtain ⟨t, ht, hu, hpath⟩ := ih
      refine ⟨t, ht, hu, hpath.tail ?_⟩
      rw [dependsOn_of_mem hr.ids_nodup mem]
      exact dep
  · rintro ⟨task, ht, hu, hpath⟩
    induction hpath with
    | refl => exact .unresolved task ht hu
    | tail _ hd ih =>
      obtain ⟨t, htm, rfl, hdt⟩ := mem_of_dependsOn hd
      exact .dependent t htm _ hdt ih

theorem not_skipped_iff (hr : References graph) {task : TaskDAGNode} (ht : task ∈ graph.tasks) :
    ¬ Skipped isCallable call r graph task.id ↔
      isUnresolved isCallable call r task = false ∧ Grounded isCallable call r graph task := by
  rw [skipped_iff hr]
  constructor
  · intro h
    refine ⟨?_, ?_⟩
    · by_contra hu
      exact h ⟨task, ht, by simpa using hu, .refl⟩
    · intro d hd hpath
      by_contra hu
      exact h ⟨d, hd, by simpa using hu, hpath.to_reflTransGen⟩
  · rintro ⟨hu, hg⟩ ⟨d, hd, hdu, hpath⟩
    rcases Relation.reflTransGen_iff_eq_or_transGen.mp hpath with he | hpath
    · have hsame : d = task := List.inj_on_of_nodup_map hr.ids_nodup hd ht he.symm
      rw [hsame, hu] at hdu
      cases hdu
    · rw [hg d hd hpath] at hdu
      cases hdu

theorem prune_keeps (h : Checked graph) {k : Ordered}
    (hk : pruneUnresolvedOptionalTasks isCallable call reprOf r graph = .ok k) :
    UnresolvedOptional isCallable call reprOf r graph ∧
      (∀ task, task ∈ k.graph.tasks ↔ task ∈ graph.tasks ∧
        isUnresolved isCallable call r task = false ∧ Grounded isCallable call r graph task) ∧
      ∀ task ∈ graph.tasks, Required reprOf graph task.id → task ∈ k.graph.tasks := by
  have hr := h.references
  have hspec := @prune_spec isCallable call reprOf r graph hr h.nonempty h.acyclic
  obtain ⟨ho, -⟩ := hspec.1.mp ⟨k, hk⟩
  have hpart := hspec.2 k hk
  refine ⟨ho, ?_, ?_⟩
  · intro task
    rw [hpart.mem task]
    exact and_congr_right fun ht => not_skipped_iff hr ht
  · intro task ht hreq
    exact (hpart.mem task).mpr ⟨ht, fun hs => hs.not_required hr ho hreq⟩

/-- Pruning keeps the largest part that can be resolved and all that an output needs; no
guarded task is dropped exactly when none depends on a task that cannot be resolved, or
pruning raises. -/
theorem keepsLargest_iff (h : Checked graph) :
    (∀ k, pruneUnresolvedOptionalTasks isCallable call reprOf r graph = .ok k →
      KeepsLargest isCallable call reprOf r graph k) ↔
    (UnresolvedOptional isCallable call reprOf r graph →
      (∃ task ∈ graph.tasks, isUnresolved isCallable call r task = false ∧
        Grounded isCallable call r graph task) →
      ∀ task ∈ graph.tasks, Guarded task → Grounded isCallable call r graph task) := by
  have hr := h.references
  have hspec := @prune_spec isCallable call reprOf r graph hr h.nonempty h.acyclic
  constructor
  · rintro hall ho ⟨t, ht, hkept⟩ task htask hg
    obtain ⟨k, hk⟩ := hspec.1.mpr ⟨ho, t, ht, (not_skipped_iff hr ht).mpr hkept⟩
    have hlargest := hall k hk
    exact ((hlargest.kept task).mp (hlargest.guarded task htask hg)).2.2
  · intro hcond k hk
    obtain ⟨ho, hkept, hout⟩ := prune_keeps h hk
    obtain ⟨-, t, ht, hs⟩ := hspec.1.mp ⟨k, hk⟩
    refine ⟨hkept, hout, ?_⟩
    intro task htask hg
    refine (hkept task).mpr ⟨htask, ?_, hcond ho ⟨t, ht, (not_skipped_iff hr ht).mp hs⟩ task htask hg⟩
    by_contra hu
    have hopt := ho task htask (by simpa using hu)
    rcases hg with hg | hg
    · rw [hopt.no_approval] at hg
      cases hg
    · exact hg hopt.no_policy

end Kept

def guardedCascadeGraph : TaskDAG :=
  { graphId := "cascade"
    tasks := [{ id := "search", kind := "action" },
      { id := "post", kind := "emit", dependsOn := ["search"], approval := .bool true
        sideEffectPolicy := [("external_write", .bool true)] },
      { id := "report", kind := "emit" }] }

theorem guardedCascadeGraph_checked : Checked guardedCascadeGraph :=
  ⟨by decide, by decide +kernel, by decide +kernel, by decide +kernel⟩

theorem keepsLargest_iff_cascade :
    (∀ k, pruneUnresolvedOptionalTasks noCallables answerNone noText defaultResolver
        guardedCascadeGraph = .ok k →
      KeepsLargest noCallables answerNone noText defaultResolver guardedCascadeGraph k) ↔
    (UnresolvedOptional noCallables answerNone noText defaultResolver guardedCascadeGraph →
      (∃ task ∈ guardedCascadeGraph.tasks,
        isUnresolved noCallables answerNone defaultResolver task = false ∧
          Grounded noCallables answerNone defaultResolver guardedCascadeGraph task) →
      ∀ task ∈ guardedCascadeGraph.tasks, Guarded task →
        Grounded noCallables answerNone defaultResolver guardedCascadeGraph task) :=
  keepsLargest_iff guardedCascadeGraph_checked

theorem guarded_task_dropped :
    ¬ (∀ graph, Checked graph → ∀ k,
        pruneUnresolvedOptionalTasks noCallables answerNone noText defaultResolver graph = .ok k →
          KeepsLargest noCallables answerNone noText defaultResolver graph k) ∧
      (validateGraph noCallables answerNone noText defaultResolver guardedCascadeGraph).toOption.map
        Validation.taskIds = some ["report"] := by
  refine ⟨fun hall => ?_, by decide +kernel⟩
  have hids : (pruneUnresolvedOptionalTasks noCallables answerNone noText defaultResolver
      guardedCascadeGraph).toOption.map (fun k => k.graph.ids) = some ["report"] := by
    decide +kernel
  cases hk : pruneUnresolvedOptionalTasks noCallables answerNone noText defaultResolver
      guardedCascadeGraph with
  | error e =>
    rw [hk] at hids
    cases hids
  | ok k =>
    rw [hk] at hids
    have hkids : k.graph.ids = ["report"] := Option.some.inj hids
    have hlargest := hall _ guardedCascadeGraph_checked k hk
    have hpost := hlargest.guarded (guardedCascadeGraph.tasks.get ⟨1, by decide⟩)
      (List.get_mem _ _) (.inl rfl)
    have hin : "post" ∈ k.graph.ids := mem_ids.mpr ⟨_, hpost, rfl⟩
    rw [hkids] at hin
    exact absurd hin (by decide)

section Again

variable {isCallable : Value → Bool} {call : Value → TaskDAGNode → Value}
  {reprOf : Value → String} {r : TaskDAGResolver} {graph : TaskDAG}

theorem validateGraph_order {v : Validation}
    (h : validateGraph isCallable call reprOf r graph = .ok v) :
    v.topologicalTaskIds = v.graph.sorted.ordered := by
  have hv := validateGraph_spec.1.mp ⟨v, h⟩
  obtain ⟨-, -, -, -, -, k, hk, -, -, -, rfl⟩ := validateGraph_eq_ok.mp h
  exact prune_order ⟨hv.ids_nodup, hv.known⟩ hv.acyclic hk

theorem validateGraph_idem {v : Validation}
    (h : validateGraph isCallable call reprOf r graph = .ok v) :
    validateGraph isCallable call reprOf r v.graph = .ok v := by
  obtain ⟨w, hw, hgraph, hroots⟩ := validateGraph_again h
  have horder : w.topologicalTaskIds = v.topologicalTaskIds := by
    rw [validateGraph_order hw, validateGraph_order h, hgraph]
  have hparts : ∀ {g : TaskDAG} {u : Validation},
      validateGraph isCallable call reprOf r g = .ok u →
        u = ⟨u.graph, u.graph.ids, u.rootTaskIds, u.topologicalTaskIds, u.graph.diagnostics⟩ := by
    intro g u hu
    obtain ⟨-, -, -, -, -, k, -, -, -, -, rfl⟩ := validateGraph_eq_ok.mp hu
    rfl
  rw [hw, hparts hw, hgraph, hroots, horder, ← hparts h]

end Again

/-- Validating the graph that validation returns gives the same validation: its tasks, outputs,
roots, order and diagnostics. -/
theorem validate_task_dag_idempotent (isCallable : Value → Bool)
    (call : Value → TaskDAGNode → Value) (reprOf : Value → String)
    (nodeOf : Value → Option TaskDAGNode) (graphOf : Value → Option TaskDAG)
    (freshId freshId' : String) (candidate returned : Value) (resolver : ResolverArg)
    (v : Validation)
    (h : validateTaskDag isCallable call reprOf nodeOf graphOf freshId candidate resolver = .ok v)
    (hreturned : graphOf returned = some v.graph) :
    validateTaskDag isCallable call reprOf nodeOf graphOf freshId' returned resolver = .ok v := by
  unfold validateTaskDag at h
  obtain ⟨graph, -, h⟩ := bind_eq_ok.mp h
  obtain ⟨r, hr, h⟩ := bind_eq_ok.mp h
  have hg : graphFromValue reprOf nodeOf graphOf freshId' returned = .ok v.graph := by
    simp only [graphFromValue, hreturned]
  unfold validateTaskDag
  exact bind_eq_ok.mpr ⟨v.graph, hg, bind_eq_ok.mpr ⟨r, hr, validateGraph_idem h⟩⟩

def diamondGraphOf : Value → Option TaskDAG
  | .object _ _ => (validateTaskDag noCallables answerNone noText noNode noGraph "graph-1"
      diamondCandidate .none).toOption.map Validation.graph
  | _ => none

theorem validate_task_dag_idempotent_diamond :
    ∃ v, validateTaskDag noCallables answerNone noText noNode diamondGraphOf "graph-1"
        diamondCandidate .none = .ok v ∧ v.topologicalTaskIds = ["start", "left", "right", "join"] ∧
      validateTaskDag noCallables answerNone noText noNode diamondGraphOf "graph-2"
        (.object "TaskDAG" []) .none = .ok v := by
  have hsame : validateTaskDag noCallables answerNone noText noNode diamondGraphOf "graph-1"
      diamondCandidate .none = validateTaskDag noCallables answerNone noText noNode noGraph "graph-1"
        diamondCandidate .none := rfl
  have hids : (validateTaskDag noCallables answerNone noText noNode noGraph "graph-1"
      diamondCandidate .none).toOption.map Validation.topologicalTaskIds =
        some ["start", "left", "right", "join"] := by decide +kernel
  cases h : validateTaskDag noCallables answerNone noText noNode noGraph "graph-1"
      diamondCandidate .none with
  | error e =>
    rw [h] at hids
    cases hids
  | ok v =>
    have hof : diamondGraphOf (.object "TaskDAG" []) = some v.graph := by
      simp only [diamondGraphOf, h]
      rfl
    rw [h] at hids
    exact ⟨v, hsame.trans h, Option.some.inj hids, validate_task_dag_idempotent noCallables
      answerNone noText noNode diamondGraphOf "graph-1" "graph-2" diamondCandidate
      (.object "TaskDAG" []) .none v (hsame.trans h) hof⟩

end Agently.TaskDAGValidation
