import Agently.Lib.Evaluation
import Agently.TaskDAG.ExecutionPaths

/-! # When both paths of a task graph agree -/

namespace Agently.TaskDAGValidation

open Agently.Lib Agently.Utils Agently.DataLocator

section Statement

variable (ex : TaskDAGExecutor) (graph : TaskDAG)

def DirectRun.Failed (d : DirectRun) : Prop :=
  ∃ id run reason, d.runs.get? id = some run ∧ run.phase = .failed reason

def BlocksRun.Failed (b : BlocksRun) : Prop :=
  ∃ id run reason, b.runs.get? id = some run ∧ run.phase = .failed reason

/-- A task executed on both paths is called with the same, after the same approvals, and comes to
the same after as many attempts; both paths end with the same outputs, or both fail. -/
structure SameExecution (graphInput : Value) (d : DirectRun) (b : BlocksRun) : Prop where
  calls : ∀ id p q, d.runs.get? id = some p → b.runs.get? id = some q →
    p.call = q.call ∧ p.approvals = q.approvals
  outcomes : ∀ id p q, d.runs.get? id = some p → b.runs.get? id = some q →
    ∀ x y, p.phase.outcome = some x → q.phase.outcome = some y → x = y ∧ p.attempts = q.attempts
  results : ∀ id v w, Dict.get? d.taskResults id = some v →
    Dict.get? (outputsByTask b.executionBlockResults) id = some w → v = w
  finished : ∀ x y, d.semanticOutputs = some x → b.semanticOutputs = some y →
    x = y ∧ ∀ task ∈ graph.tasks, ∃ v, Dict.get? d.taskResults task.id = some v ∧
      Dict.get? (outputsByTask b.executionBlockResults) task.id = some v
  failures : (d.Failed → b.semanticOutputs = none) ∧ (b.Failed → d.semanticOutputs = none)
  directProgress : d.semanticOutputs = none → ¬ d.Failed → ∃ a e, directStep ex graph d a = some e
  blocksProgress : b.semanticOutputs = none → ¬ b.Failed →
    ∃ a c, blocksStep ex graph graphInput b a = some c

def HandlersAreFunctions : Prop :=
  ∀ task ∈ graph.tasks, isApprovalTask task = false → ex.isCallable (ex.resolve task) = true

/-- A task that starts needs no approval and its inputs stand for themselves; one that raises is
neither retried nor skipped; the outputs are those the graph names, without artifact refs. -/
def DirectAllowed (d : DirectRun) : DirectAction → Prop
  | .start task triggerPayload executionState =>
    approvalRequired task = .ok false ∧
      ∀ deps, dependencyResults d.taskResults task.dependsOn [] = some deps →
        resolvePlaceholders (fun s => ex.intOf (.str s))
          ⟨triggerPayload, d.graphInput, executionState, deps, task.id⟩ task.inputs = .ok task.inputs
  | .execute id => ∀ run, d.runs.get? id = some run → ∀ reason,
      executeHandler ex run.call = .error reason →
        (∀ n, fallbackRetryConfig ex run.call.task = some n → n ≤ 1) ∧
          fallbackTerminalAction ex run.call.task ≠ some "skip"
  | .finalize =>
    semanticOutputTaskRefs ex.reprOf graph.semanticOutputs ≠ [] ∧
      (∀ ref ∈ semanticOutputTaskRefs ex.reprOf graph.semanticOutputs,
        Dict.get? d.artifactRefs ref.2 = none) ∧
      ∀ task ∈ graph.tasks, ∀ item ∈ task.produces, ∀ role, produceRole ex item = some role →
        role ≠ "" → role ∈ Dict.keys (semanticOutputTaskRefs ex.reprOf graph.semanticOutputs)
  | _ => True

def BlocksAllowed (b : BlocksRun) : BlocksAction → Prop
  | .start task _ => blockId graph task.id ∉ b.cancelledExecutionBlockIds
  | _ => True

end Statement

/-- The results that `p` has for `dependsOn`, once it has them all. -/
def gathered (p : String → Option Value) :
    List String → List (String × Value) → Option (List (String × Value))
  | [], deps => some deps
  | d :: rest, deps =>
    match p d with
    | none => none
    | some result => gathered p rest (Dict.set deps d result)

theorem dependencyResults_eq (table : List (String × Value)) (dependsOn : List String)
    (deps : List (String × Value)) :
    dependencyResults table dependsOn deps = gathered (Dict.get? table) dependsOn deps := by
  induction dependsOn generalizing deps with
  | nil => rfl
  | cons d rest ih =>
    rw [dependencyResults, gathered]
    cases Dict.get? table d with
    | none => rfl
    | some result => exact ih _

variable {p : String → Option Value} {dependsOn : List String}

theorem gathered_congr {q : String → Option Value}
    (h : ∀ d ∈ dependsOn, p d = q d) (deps : List (String × Value)) :
    gathered p dependsOn deps = gathered q dependsOn deps := by
  induction dependsOn generalizing deps with
  | nil => rfl
  | cons d rest ih =>
    rw [gathered, gathered, h d List.mem_cons_self]
    cases q d with
    | none => rfl
    | some result => exact ih (List.forall_mem_cons.mp h).2 _

theorem gathered_complete
    {deps found : List (String × Value)} (h : gathered p dependsOn deps = some found) :
    ∀ d ∈ dependsOn, ∃ x, p d = some x := by
  induction dependsOn generalizing deps with
  | nil =>
    intro d hd
    cases hd
  | cons d rest ih =>
    rw [gathered] at h
    cases hp : p d with
    | none =>
      rw [hp] at h
      cases h
    | some result =>
      rw [hp] at h
      intro x hx
      rcases List.mem_cons.mp hx with rfl | hx
      · exact ⟨result, hp⟩
      · exact ih h x hx

theorem gathered_of_complete
    (h : ∀ d ∈ dependsOn, ∃ x, p d = some x) (deps : List (String × Value)) :
    ∃ found, gathered p dependsOn deps = some found := by
  induction dependsOn generalizing deps with
  | nil => exact ⟨deps, rfl⟩
  | cons d rest ih =>
    obtain ⟨x, hx⟩ := h d List.mem_cons_self
    rw [gathered, hx]
    exact ih (List.forall_mem_cons.mp h).2 _

theorem gathered_mono {q : String → Option Value}
    {deps found : List (String × Value)} (h : gathered p dependsOn deps = some found)
    (hpq : ∀ d x, p d = some x → q d = some x) : gathered q dependsOn deps = some found := by
  have hc := gathered_complete h
  rw [← h]
  refine (gathered_congr ?_ deps).symm
  intro d hd
  obtain ⟨x, hx⟩ := hc d hd
  rw [hx, hpq d x hx]

theorem gathered_forBlock {results : List BlockResult}
    (h : ∀ d ∈ dependsOn, ∃ x, Dict.get? (outputsByTask results) d = some x) :
    gathered (Dict.get? (outputsByTask results)) dependsOn [] =
      some (dependencyResultsForBlock results dependsOn) := by
  have hfold : ∀ deps : List (String × Value),
      gathered (Dict.get? (outputsByTask results)) dependsOn deps =
        some (dependsOn.foldl
          (fun deps d => (Dict.get? (outputsByTask results) d).elim deps (Dict.set deps d))
          deps) := by
    induction dependsOn with
    | nil => exact fun deps => rfl
    | cons d rest ih =>
      intro deps
      obtain ⟨x, hx⟩ := h d List.mem_cons_self
      rw [gathered, List.foldl_cons, hx]
      exact ih (List.forall_mem_cons.mp h).2 _
  rw [hfold []]
  unfold dependencyResultsForBlock
  congr 2
  funext deps d
  cases Dict.get? (outputsByTask results) d <;> rfl

structure Plain (ex : TaskDAGExecutor) (graph : TaskDAG) (graphInput : Value)
    (table : Dict String Value) (id : String) (run : TaskRun) : Prop where
  approvals : run.approvals = []
  pending : run.phase.outcome = none → run.phase = .calling ∧ run.attempts = 0
  answered : ∀ o, run.phase.outcome = some o → run.attempts = 1 ∧ blocksTaskHandler ex run.call = o
  listed : run.call.task ∈ graph.tasks ∧ run.call.task.id = id
  input : run.call.graphInput = graphInput
  gathers : gathered (Dict.get? table) run.call.task.dependsOn [] = some run.call.dependencyResults

theorem Plain.calling_of {ex : TaskDAGExecutor} {graph : TaskDAG} {graphInput : Value}
    {table : Dict String Value} {id : String} {run : TaskRun} {p : TaskPhase}
    (h : Plain ex graph graphInput table id run) (hp : run.phase = p) (ho : p.outcome = none) :
    p = .calling := by
  subst hp
  exact (h.pending ho).1

structure Explained (ex : TaskDAGExecutor) (graph : TaskDAG) (graphInput : Value)
    (runs : Dict String TaskRun) (table : Dict String Value) : Prop where
  ran : ∀ id run, runs.get? id = some run → Plain ex graph graphInput table id run
  recorded : ∀ id v, table.get? id = some v →
    ∃ run, runs.get? id = some run ∧ run.phase.outcome = some (.ok v)

section Explaining

variable {ex : TaskDAGExecutor} {graph : TaskDAG} {graphInput : Value}
  {runs : Dict String TaskRun} {table : Dict String Value}

theorem Explained.start (h : Explained ex graph graphInput runs table) {task : TaskDAGNode}
    (hnew : runs.get? task.id = none) (ht : task ∈ graph.tasks) {deps : List (String × Value)}
    (hd : gathered (Dict.get? table) task.dependsOn [] = some deps) :
    Explained ex graph graphInput
      (runs.set task.id { call := ⟨task, graphInput, deps⟩, phase := .calling }) table := by
  constructor
  · intro id run hrun
    rw [Dict.get?_set] at hrun
    split at hrun
    · rename_i he
      cases hrun
      refine ⟨rfl, fun _ => ⟨rfl, rfl⟩, ?_, ⟨ht, he⟩, rfl, hd⟩
      intro o ho
      cases ho
    · exact h.ran id run hrun
  · intro id v hv
    obtain ⟨run, hrun, ho⟩ := h.recorded id v hv
    have hne : task.id ≠ id := by
      rintro rfl
      rw [hnew] at hrun
      cases hrun
    exact ⟨run, by rw [Dict.get?_set_of_ne _ _ hne, hrun], ho⟩

variable {id : String}

theorem Explained.move (h : Explained ex graph graphInput runs table)
    {run next : TaskRun} (hrun : runs.get? id = some run) (hcall : next.call = run.call)
    (happ : next.approvals = run.approvals)
    (hpending : next.phase.outcome = none → next.phase = .calling ∧ next.attempts = 0)
    (hans : ∀ o, next.phase.outcome = some o →
      next.attempts = 1 ∧ blocksTaskHandler ex run.call = o)
    (hkeep : ∀ v, run.phase.outcome = some (.ok v) → next.phase.outcome = some (.ok v)) :
    Explained ex graph graphInput (runs.set id next) table := by
  have hp := h.ran id run hrun
  constructor
  · intro j r hr
    rw [Dict.get?_set] at hr
    split at hr
    · rename_i he
      subst he
      cases hr
      rw [← hcall] at hans
      exact ⟨happ.trans hp.approvals, hpending, hans, by rw [hcall]; exact hp.listed,
        by rw [hcall]; exact hp.input, by rw [hcall]; exact hp.gathers⟩
    · exact h.ran j r hr
  · intro j v hv
    obtain ⟨r, hr, ho⟩ := h.recorded j v hv
    by_cases he : id = j
    · subst he
      rw [hrun] at hr
      cases hr
      exact ⟨next, Dict.get?_set_self _ _ _, hkeep v ho⟩
    · exact ⟨r, by rw [Dict.get?_set_of_ne _ _ he, hr], ho⟩

theorem Explained.onward (h : Explained ex graph graphInput runs table) {run : TaskRun}
    {p : TaskPhase} {x : Except String Value} (hrun : runs.get? id = some run)
    (ho : run.phase.outcome = some x) (hp : p.outcome = some x) :
    Explained ex graph graphInput (runs.set id { run with phase := p }) table := by
  refine h.move hrun rfl rfl (fun hn => ?_) (fun o ho' => ?_) (fun v hv => ?_)
  · cases hp.symm.trans hn
  · cases hp.symm.trans ho'
    exact (h.ran id run hrun).answered _ ho
  · cases ho.symm.trans hv
    exact hp

theorem Explained.record_again (h : Explained ex graph graphInput runs table)
    {run : TaskRun} {v w : Value} (hrun : runs.get? id = some run)
    (ho : run.phase.outcome = some (.ok v)) (hw : table.get? id = some w) : w = v := by
  obtain ⟨r, hr, ho'⟩ := h.recorded id w hw
  rw [hrun] at hr
  cases hr
  rw [ho] at ho'
  cases ho'
  rfl

theorem Explained.record (h : Explained ex graph graphInput runs table)
    {run : TaskRun} {v : Value} (hrun : runs.get? id = some run)
    (ho : run.phase.outcome = some (.ok v)) :
    Explained ex graph graphInput runs (table.set id v) := by
  have hmono : ∀ d x, Dict.get? table d = some x → Dict.get? (Dict.set table id v) d = some x := by
    intro d x hx
    rw [Dict.get?_set]
    split
    · rename_i he
      subst he
      rw [h.record_again hrun ho hx]
    · exact hx
  constructor
  · intro j r hr
    have hp := h.ran j r hr
    exact { hp with gathers := gathered_mono hp.gathers hmono }
  · intro j x hx
    rw [Dict.get?_set] at hx
    split at hx
    · rename_i he
      subst he
      cases hx
      exact ⟨run, hrun, ho⟩
    · exact h.recorded j x hx

theorem Explained.key_listed (h : Explained ex graph graphInput runs table)
    (hid : id ∈ Dict.keys table) : id ∈ graph.ids := by
  cases hv : Dict.get? table id with
  | none => exact absurd hid (Dict.get?_eq_none_iff.mp hv)
  | some v =>
    obtain ⟨run, hrun, -⟩ := h.recorded id v hv
    obtain ⟨ht, he⟩ := (h.ran id run hrun).listed
    exact mem_ids.mpr ⟨_, ht, he⟩

end Explaining

section Agreement

variable {ex : TaskDAGExecutor} {graph : TaskDAG} {graphInput : Value}

/-- The result a task has, when those of its dependencies are `p`. -/
def computed (ex : TaskDAGExecutor) (graph : TaskDAG) (graphInput : Value)
    (p : String → Option Value) (id : String) : Option Value :=
  (graph.taskById id).bind fun task =>
    (gathered p task.dependsOn []).bind fun deps =>
      (blocksTaskHandler ex ⟨task, graphInput, deps⟩).toOption

def Before (graph : TaskDAG) (d id : String) : Prop :=
  ∃ task ∈ graph.tasks, task.id = id ∧ d ∈ task.dependsOn

theorem eq_of_id (hn : graph.ids.Nodup) {s t : TaskDAGNode} (hs : s ∈ graph.tasks)
    (ht : t ∈ graph.tasks) (he : s.id = t.id) : s = t := by
  have hfound := taskById_of_mem hn hs
  rw [he, taskById_of_mem hn ht] at hfound
  exact (Option.some.inj hfound).symm

theorem local_computed (hn : graph.ids.Nodup) :
    Evaluation.Local (Before graph) (computed ex graph graphInput) := by
  intro p q id h
  unfold computed
  cases ht : graph.taskById id with
  | none => rfl
  | some task =>
    have hmem : task ∈ graph.tasks := List.mem_of_find?_eq_some ht
    have hid : task.id = id := by
      have hf := List.find?_some ht
      simpa using hf
    have hg := gathered_congr (fun d hd => h d ⟨task, hmem, hid, hd⟩) ([] : List (String × Value))
    rw [Option.bind_some, Option.bind_some, hg]

theorem Explained.computes {runs : Dict String TaskRun} {table : Dict String Value}
    (h : Explained ex graph graphInput runs table) (hn : graph.ids.Nodup) :
    Evaluation.Computes (Before graph) (computed ex graph graphInput) (Dict.get? table) := by
  constructor
  · intro id v hv
    obtain ⟨run, hrun, ho⟩ := h.recorded id v hv
    have hp := h.ran id run hrun
    have ht : graph.taskById id = some run.call.task := by
      rw [← hp.listed.2]
      exact taskById_of_mem hn hp.listed.1
    have hcall : (⟨run.call.task, graphInput, run.call.dependencyResults⟩ : TaskCall) = run.call := by
      rw [← hp.input]
    unfold computed
    rw [ht, Option.bind_some, hp.gathers, Option.bind_some, hcall, (hp.answered _ ho).2]
    rfl
  · rintro id v hv d ⟨task, ht, hid, hd⟩
    obtain ⟨run, hrun, -⟩ := h.recorded id v hv
    have hp := h.ran id run hrun
    have heq : run.call.task = task := eq_of_id hn hp.listed.1 ht (hp.listed.2.trans hid.symm)
    exact gathered_complete hp.gathers d (heq ▸ hd)

def Ranked (graph : TaskDAG) (rank : String → Nat) : Prop :=
  ∀ task ∈ graph.tasks, ∀ d ∈ task.dependsOn, rank d < rank task.id

variable {rank : String → Nat}

theorem Ranked.wf (h : Ranked graph rank) : WellFounded (Before graph) := by
  refine Subrelation.wf ?_ (measure rank).wf
  rintro d id ⟨task, ht, rfl, hd⟩
  exact h task ht d hd

variable {runs runs' : Dict String TaskRun} {table table' : Dict String Value}

variable {id : String}

theorem Explained.agree (hr : Ranked graph rank) (hn : graph.ids.Nodup)
    (h : Explained ex graph graphInput runs table)
    (h' : Explained ex graph graphInput runs' table') {v w : Value}
    (hv : Dict.get? table id = some v) (hw : Dict.get? table' id = some w) : v = w :=
  (h.computes hn).agree hr.wf (local_computed hn) (h'.computes hn) hv hw

theorem Explained.calls_agree (hr : Ranked graph rank) (hn : graph.ids.Nodup)
    (h : Explained ex graph graphInput runs table)
    (h' : Explained ex graph graphInput runs' table') {p q : TaskRun}
    (hp : runs.get? id = some p) (hq : runs'.get? id = some q) : p.call = q.call := by
  have hp := h.ran id p hp
  have hq := h'.ran id q hq
  have htask : p.call.task = q.call.task :=
    eq_of_id hn hp.listed.1 hq.listed.1 (hp.listed.2.trans hq.listed.2.symm)
  have hsame : ∀ d ∈ p.call.task.dependsOn, Dict.get? table d = Dict.get? table' d := by
    intro d hd
    obtain ⟨x, hx⟩ := gathered_complete hp.gathers d hd
    obtain ⟨y, hy⟩ := gathered_complete hq.gathers d (htask ▸ hd)
    rw [hx, hy, h.agree hr hn h' hx hy]
  have hdeps : p.call.dependencyResults = q.call.dependencyResults := by
    have hg := gathered_congr hsame ([] : List (String × Value))
    rw [hp.gathers, htask, hq.gathers] at hg
    exact Option.some.inj hg
  have hinput := hp.input.trans hq.input.symm
  cases hpc : p.call with
  | mk t g ds =>
    cases hqc : q.call with
    | mk t' g' ds' =>
      rw [hpc, hqc] at htask hdeps hinput
      cases htask
      cases hdeps
      cases hinput
      rfl

theorem Explained.outcomes_agree (hr : Ranked graph rank)
    (hn : graph.ids.Nodup) (h : Explained ex graph graphInput runs table)
    (h' : Explained ex graph graphInput runs' table') {p q : TaskRun}
    (hp : runs.get? id = some p) (hq : runs'.get? id = some q) {x y : Except String Value}
    (hx : p.phase.outcome = some x) (hy : q.phase.outcome = some y) :
    x = y ∧ p.attempts = q.attempts := by
  obtain ⟨hpa, hpx⟩ := (h.ran id p hp).answered x hx
  obtain ⟨hqa, hqy⟩ := (h'.ran id q hq).answered y hy
  rw [h.calls_agree hr hn h' hp hq] at hpx
  exact ⟨hpx.symm.trans hqy, hpa.trans hqa.symm⟩

theorem Explained.failed_unrecorded (hr : Ranked graph rank)
    (hn : graph.ids.Nodup) (h : Explained ex graph graphInput runs table)
    (h' : Explained ex graph graphInput runs' table') {reason : String} {run : TaskRun}
    (hrun : runs.get? id = some run) (hf : run.phase = .failed reason) :
    Dict.get? table' id = none := by
  cases hv : Dict.get? table' id with
  | none => rfl
  | some v =>
    obtain ⟨q, hq, ho⟩ := h'.recorded id v hv
    have hx : run.phase.outcome = some (.error reason) := by rw [hf]; rfl
    have he := (h.outcomes_agree hr hn h' hrun hq hx ho).1
    cases he

end Agreement

section Outputs

variable {ex : TaskDAGExecutor} {graph : TaskDAG}

def addNamed (table : Dict String Value) (outputs : SemanticOutputs) (ref : String × String) :
    SemanticOutputs :=
  match Dict.get? table ref.2 with
  | some x => Dict.set outputs ref.1 (resultOutput ref.2 x)
  | none => outputs

def namedOutputs (ex : TaskDAGExecutor) (graph : TaskDAG) (table : Dict String Value) :
    SemanticOutputs :=
  (semanticOutputTaskRefs ex.reprOf graph.semanticOutputs).foldl (addNamed table) []

variable {refs : List (String × String)}

theorem addNamed_congr {p q : Dict String Value}
    (h : ∀ ref ∈ refs, Dict.get? p ref.2 = Dict.get? q ref.2) (outputs : SemanticOutputs) :
    refs.foldl (addNamed p) outputs = refs.foldl (addNamed q) outputs := by
  induction refs generalizing outputs with
  | nil => rfl
  | cons ref rest ih =>
    have hstep : addNamed p outputs ref = addNamed q outputs ref := by
      rw [addNamed, addNamed, h ref List.mem_cons_self]
    rw [List.foldl_cons, List.foldl_cons, hstep]
    exact ih (List.forall_mem_cons.mp h).2 _

variable {table : Dict String Value}

theorem mem_keys_addNamed
    (h : ∀ ref ∈ refs, ∃ x, Dict.get? table ref.2 = some x) (outputs : SemanticOutputs)
    {role : String} (hrole : role ∈ Dict.keys outputs ∨ role ∈ Dict.keys refs) :
    role ∈ Dict.keys (refs.foldl (addNamed table) outputs) := by
  induction refs generalizing outputs with
  | nil =>
    rcases hrole with hrole | hrole
    · exact hrole
    · cases hrole
  | cons ref rest ih =>
    obtain ⟨x, hx⟩ := h ref List.mem_cons_self
    have hstep : addNamed table outputs ref = Dict.set outputs ref.1 (resultOutput ref.2 x) := by
      rw [addNamed, hx]
    rw [List.foldl_cons, hstep]
    refine ih (List.forall_mem_cons.mp h).2 _ ?_
    rcases hrole with hrole | hrole
    · exact .inl (Dict.mem_keys_set.mpr (.inr hrole))
    · rcases List.mem_cons.mp hrole with he | hrole
      · exact .inl (Dict.mem_keys_set.mpr (.inl he))
      · exact .inr hrole

variable {artifacts : Dict String Value}

theorem foldl_collectRef
    (h : ∀ ref ∈ refs, Dict.get? artifacts ref.2 = none) (outputs : SemanticOutputs) :
    refs.foldl (collectRef table artifacts) outputs = refs.foldl (addNamed table) outputs := by
  induction refs generalizing outputs with
  | nil => rfl
  | cons ref rest ih =>
    have hstep : collectRef table artifacts outputs ref = addNamed table outputs ref := by
      rw [collectRef, collected, h ref List.mem_cons_self, addNamed]
      cases Dict.get? table ref.2 with
      | none => rfl
      | some x => rfl
    rw [List.foldl_cons, List.foldl_cons, hstep]
    exact ih (List.forall_mem_cons.mp h).2 _

theorem foldl_collectProduced {task : String} {outputs : SemanticOutputs} {produces : List Value}
    (h : ∀ item ∈ produces, ∀ role, produceRole ex item = some role → role ≠ "" →
      role ∈ Dict.keys outputs) :
    produces.foldl (collectProduced ex table artifacts task) outputs = outputs := by
  induction produces with
  | nil => rfl
  | cons item rest ih =>
    have hstep : collectProduced ex table artifacts task outputs item = outputs := by
      unfold collectProduced
      cases hr : produceRole ex item with
      | none => rfl
      | some role =>
        refine if_neg ?_
        rintro ⟨hne, hnew, -⟩
        exact hnew (h item List.mem_cons_self role hr hne)
    rw [List.foldl_cons, hstep]
    exact ih (List.forall_mem_cons.mp h).2

theorem collectSemanticOutputs_eq
    (hall : ∀ ref ∈ semanticOutputTaskRefs ex.reprOf graph.semanticOutputs,
      ∃ x, Dict.get? table ref.2 = some x)
    (hart : ∀ ref ∈ semanticOutputTaskRefs ex.reprOf graph.semanticOutputs,
      Dict.get? artifacts ref.2 = none)
    (hprod : ∀ task ∈ graph.tasks, ∀ item ∈ task.produces, ∀ role, produceRole ex item = some role →
      role ≠ "" → role ∈ Dict.keys (semanticOutputTaskRefs ex.reprOf graph.semanticOutputs)) :
    collectSemanticOutputs ex graph table artifacts = namedOutputs ex graph table := by
  have hfold : ∀ tasks : List TaskDAGNode, (∀ task ∈ tasks, task ∈ graph.tasks) →
      tasks.foldl
        (fun outputs task =>
          task.produces.foldl (collectProduced ex table artifacts task.id) outputs)
        (namedOutputs ex graph table) = namedOutputs ex graph table := by
    intro tasks hsub
    induction tasks with
    | nil => rfl
    | cons task rest ih =>
      rw [List.foldl_cons, foldl_collectProduced ?_]
      · exact ih (List.forall_mem_cons.mp hsub).2
      · intro item hi role hr hne
        exact mem_keys_addNamed hall []
          (.inr (hprod task (hsub task List.mem_cons_self) item hi role hr hne))
  rw [collectSemanticOutputs, foldl_collectRef hart]
  exact hfold graph.tasks fun _ ht => ht

theorem semanticOutputsFromSnapshot_eq {results : List BlockResult}
    (hne : semanticOutputTaskRefs ex.reprOf graph.semanticOutputs ≠ [])
    (hall : ∀ ref ∈ semanticOutputTaskRefs ex.reprOf graph.semanticOutputs,
      ∃ x, Dict.get? (outputsByTask results) ref.2 = some x) :
    semanticOutputsFromSnapshot ex graph results =
      namedOutputs ex graph (outputsByTask results) := by
  refine if_pos ?_
  intro hnil
  obtain ⟨ref, rest, hrefs⟩ := List.exists_cons_of_ne_nil hne
  have hkey : ref.1 ∈ Dict.keys (namedOutputs ex graph (outputsByTask results)) := by
    refine mem_keys_addNamed hall [] (.inr ?_)
    rw [hrefs]
    exact List.mem_cons_self
  have hsame : namedOutputs ex graph (outputsByTask results) = [] := hnil
  rw [hsame] at hkey
  cases hkey

end Outputs

section Direct

variable {ex : TaskDAGExecutor} {graph : TaskDAG} {graphInput : Value}

def AllRecorded (graph : TaskDAG) (table : Dict String Value) : Prop :=
  ∀ task ∈ graph.tasks, ∃ v, Dict.get? table task.id = some v

def IsFunction (ex : TaskDAGExecutor) (task : TaskDAGNode) : Prop :=
  ex.resolve task ≠ .none ∧ ex.isCallable (ex.resolve task) = true

structure DirectTask (ex : TaskDAGExecutor) (table : Dict String Value) (id : String)
    (run : TaskRun) : Prop where
  function : IsFunction ex run.call.task
  kept : ∀ v, run.phase = .recorded v → Dict.get? table id = some v
  final : ∀ reason, run.phase = .raising reason →
    fallbackTerminalAction ex run.call.task ≠ some "skip"
  own : ∀ v ids, run.phase ≠ .cancelling v ids

structure DirectPlain (ex : TaskDAGExecutor) (graph : TaskDAG) (graphInput : Value)
    (d : DirectRun) : Prop where
  explained : Explained ex graph graphInput d.runs d.taskResults
  input : d.graphInput = graphInput
  tasks : ∀ id run, d.runs.get? id = some run → DirectTask ex d.taskResults id run
  nodup : (Dict.keys d.taskResults).Nodup
  outputs : ∀ o, d.semanticOutputs = some o →
    semanticOutputTaskRefs ex.reprOf graph.semanticOutputs ≠ [] ∧
      AllRecorded graph d.taskResults ∧ o = namedOutputs ex graph d.taskResults

theorem executeHandler_eq {c : TaskCall} (h : IsFunction ex c.task) :
    executeHandler ex c = blocksTaskHandler ex c := by
  unfold executeHandler blocksTaskHandler
  simp only [h.1, h.2, if_true, if_false]

theorem beginTask_plain {task : TaskDAGNode} {d : PlaceholderData}
    (ha : approvalRequired task = .ok false)
    (hi : resolvePlaceholders (fun s => ex.intOf (.str s)) d task.inputs = .ok task.inputs) :
    beginTask ex task d =
      { call := ⟨task, d.initialInput, d.dependencyResults⟩, phase := .calling } := by
  have hsame : ({ task with inputs := task.inputs } : TaskDAGNode) = task := rfl
  unfold beginTask
  rw [hi]
  simp only [hsame, ha]

def answeredPhase (answer : Except String Value) : TaskPhase :=
  match answer with
  | .ok output => .returned output
  | .error reason => .raising reason

theorem outcome_answeredPhase (answer : Except String Value) :
    (answeredPhase answer).outcome = some answer := by
  cases answer with
  | ok output => rfl
  | error reason => rfl

variable {run : TaskRun}

theorem executeNodeHandler_once (h : run.attempts = 0)
    (hr : ∀ reason, executeHandler ex run.call = .error reason →
      ∀ n, fallbackRetryConfig ex run.call.task = some n → n ≤ 1) :
    executeNodeHandler ex run =
      { run with attempts := 1, phase := answeredPhase (executeHandler ex run.call) } := by
  unfold executeNodeHandler answeredPhase
  rw [h]
  cases he : executeHandler ex run.call with
  | ok output => rfl
  | error reason =>
    cases hc : fallbackRetryConfig ex run.call.task with
    | none => rfl
    | some n =>
      have hn : n ≤ 0 + 1 := hr reason he n hc
      simp only [if_pos hn]

variable {d : DirectRun} {id : String}

theorem DirectRun.advance_some {e : DirectRun} {next : TaskRun → Option DirectRun}
    (h : d.advance id next = some e) : ∃ run, d.runs.get? id = some run ∧ next run = some e :=
  Option.bind_eq_some_iff.mp h

theorem tasks_set {P : String → TaskRun → Prop} {runs : Dict String TaskRun}
    (h : ∀ id run, runs.get? id = some run → P id run) {next : TaskRun}
    (hn : P id next) : ∀ j run, (runs.set id next).get? j = some run → P j run := by
  intro j run hrun
  rw [Dict.get?_set] at hrun
  split at hrun
  · rename_i he
    subst he
    cases hrun
    exact hn
  · exact h j run hrun

theorem DirectPlain.start {e : DirectRun} (h : DirectPlain ex graph graphInput d)
    (hfun : ∀ task ∈ graph.tasks, isApprovalTask task = false → IsFunction ex task)
    {task : TaskDAGNode} {payload state : Value}
    (hc : DirectAllowed ex graph d (.start task payload state))
    (hs : startTask ex graph d task payload state = some e) : DirectPlain ex graph graphInput e := by
  obtain ⟨happ, hinputs⟩ := hc
  unfold startTask at hs
  split at hs
  · rename_i hg
    obtain ⟨deps, hd, rfl⟩ := Option.map_eq_some_iff.mp hs
    have hbegin := @beginTask_plain ex task ⟨payload, d.graphInput, state, deps, task.id⟩ happ
      (hinputs deps hd)
    rw [hbegin]
    simp only [h.input]
    rw [dependencyResults_eq] at hd
    have hna : isApprovalTask task = false := by
      unfold approvalRequired at happ
      cases hi : isApprovalTask task with
      | false => rfl
      | true =>
        rw [hi] at happ
        cases happ
    exact { h with
      explained := h.explained.start hg.2 hg.1 hd
      tasks := tasks_set h.tasks ⟨hfun task hg.1 hna, nofun, nofun, nofun⟩ }
  · cases hs

theorem DirectPlain.execute (h : DirectPlain ex graph graphInput d)
    (hc : DirectAllowed ex graph d (.execute id)) (hrun : d.runs.get? id = some run)
    (hp : run.phase = .calling) :
    DirectPlain ex graph graphInput (d.setRun id (executeNodeHandler ex run)) := by
  have hplain := h.explained.ran id run hrun
  have htask := h.tasks id run hrun
  have hpend : run.phase.outcome = none := by rw [hp]; rfl
  have hzero := (hplain.pending hpend).2
  have hcond := hc run hrun
  rw [executeNodeHandler_once hzero fun reason hr => (hcond reason hr).1]
  have hsame := executeHandler_eq htask.function
  constructor
  · refine h.explained.move hrun rfl rfl ?_ ?_ ?_
    · intro hn
      rw [outcome_answeredPhase] at hn
      cases hn
    · intro o ho
      rw [outcome_answeredPhase, hsame] at ho
      exact ⟨rfl, Option.some.inj ho⟩
    · intro v hv
      rw [hpend] at hv
      cases hv
  · exact h.input
  · refine tasks_set h.tasks ⟨htask.function, ?_, ?_, ?_⟩
    · intro v hv
      cases ha : executeHandler ex run.call with
      | ok output => rw [ha] at hv; cases hv
      | error reason => rw [ha] at hv; cases hv
    · intro reason hr
      cases ha : executeHandler ex run.call with
      | ok output => rw [ha] at hr; cases hr
      | error reason' => exact (hcond reason' ha).2
    · intro v ids hv
      cases ha : executeHandler ex run.call with
      | ok output => rw [ha] at hv; cases hv
      | error reason => rw [ha] at hv; cases hv
  · exact h.nodup
  · exact h.outputs

theorem DirectPlain.fail (h : DirectPlain ex graph graphInput d)
    {reason : String} (hrun : d.runs.get? id = some run)
    (hp : run.phase = .raising reason) :
    DirectPlain ex graph graphInput (recordTaskFailure ex d id run reason) := by
  have htask := h.tasks id run hrun
  have hphase : (if fallbackTerminalAction ex run.call.task = some "skip" then
      TaskPhase.returned (skippedOutput reason) else .failed reason) = .failed reason :=
    if_neg (htask.final reason hp)
  unfold recordTaskFailure
  rw [hphase]
  exact { h with
    explained := h.explained.onward hrun (by rw [hp]; rfl) rfl
    tasks := tasks_set h.tasks ⟨htask.function, nofun, nofun, nofun⟩ }

variable {table : Dict String Value}

theorem set_recorded {v : Value}
    (hsame : ∀ w, table.get? id = some w → w = v) {j : String} {x : Value}
    (hx : table.get? j = some x) : (Dict.set table id v).get? j = some x := by
  rw [Dict.get?_set]
  split
  · rename_i he
    subst he
    rw [hsame x hx]
  · exact hx

theorem set_of_allRecorded (h : AllRecorded graph table)
    {v : Value} (hid : id ∈ graph.ids) (hsame : ∀ w, table.get? id = some w → w = v) :
    Dict.set table id v = table := by
  obtain ⟨task, ht, rfl⟩ := mem_ids.mp hid
  obtain ⟨w, hw⟩ := h task ht
  have he := hsame w hw
  exact Dict.set_of_get? (he ▸ hw)

theorem DirectPlain.record (h : DirectPlain ex graph graphInput d)
    {output : Value} (hrun : d.runs.get? id = some run)
    (hp : run.phase = .returned output) :
    DirectPlain ex graph graphInput (recordTaskSuccess d id run output) := by
  have htask := h.tasks id run hrun
  have hplain := h.explained.ran id run hrun
  have ho : run.phase.outcome = some (.ok output) := by rw [hp]; rfl
  have hsame : ∀ w, d.taskResults.get? id = some w → w = output := fun w hw =>
    h.explained.record_again hrun ho hw
  have hmove : Explained ex graph graphInput (d.runs.set id { run with phase := .recorded output })
      d.taskResults := h.explained.onward hrun ho rfl
  have hkept : ∀ j r, DirectTask ex d.taskResults j r →
      DirectTask ex (Dict.set d.taskResults id output) j r := fun j r hr =>
    { hr with kept := fun v hv => set_recorded hsame (hr.kept v hv) }
  constructor
  · exact hmove.record (Dict.get?_set_self _ _ _) rfl
  · exact h.input
  · refine tasks_set (fun j r hr => hkept j r (h.tasks j r hr)) ⟨htask.function, ?_, nofun, nofun⟩
    intro v hv
    cases hv
    exact Dict.get?_set_self _ _ _
  · exact Dict.nodup_keys_set h.nodup _ _
  · intro o hso
    obtain ⟨hne, hall, hout⟩ := h.outputs o hso
    have hid : id ∈ graph.ids := mem_ids.mpr ⟨_, hplain.listed⟩
    have heq := set_of_allRecorded hall hid hsame
    have htable : (recordTaskSuccess d id run output).taskResults = d.taskResults := heq
    rw [htable]
    exact ⟨hne, hall, hout⟩

theorem Explained.allRecorded {runs : Dict String TaskRun}
    (h : Explained ex graph graphInput runs table) (hn : (Dict.keys table).Nodup)
    (hlen : table.length = graph.tasks.length) : AllRecorded graph table := by
  have hsub : Dict.keys table ⊆ graph.ids := fun id hid => h.key_listed hid
  have hlen' : graph.ids.length ≤ (Dict.keys table).length := by
    rw [Dict.keys, TaskDAG.ids, List.length_map, List.length_map, hlen]
  have hperm := (List.subperm_of_subset hn hsub).perm_of_length_le hlen'
  intro task ht
  have hid : task.id ∈ Dict.keys table := hperm.mem_iff.mpr (mem_ids.mpr ⟨task, ht, rfl⟩)
  cases hv : Dict.get? table task.id with
  | none => exact absurd hid (Dict.get?_eq_none_iff.mp hv)
  | some v => exact ⟨v, rfl⟩

theorem AllRecorded.refs (h : AllRecorded graph table)
    (hout : ∀ ref ∈ semanticOutputTaskRefs ex.reprOf graph.semanticOutputs, ref.2 ∈ graph.ids) :
    ∀ ref ∈ semanticOutputTaskRefs ex.reprOf graph.semanticOutputs,
      ∃ x, Dict.get? table ref.2 = some x := by
  intro ref href
  obtain ⟨task, ht, he⟩ := mem_ids.mp (hout ref href)
  rw [← he]
  exact h task ht

theorem directPlain_step
    (hfun : ∀ task ∈ graph.tasks, isApprovalTask task = false → IsFunction ex task)
    (hout : ∀ ref ∈ semanticOutputTaskRefs ex.reprOf graph.semanticOutputs, ref.2 ∈ graph.ids)
    (d : DirectRun) (a : DirectAction) (e : DirectRun) (h : DirectPlain ex graph graphInput d)
    (hc : DirectAllowed ex graph d a) (hs : directStep ex graph d a = some e) :
    DirectPlain ex graph graphInput e := by
  cases a with
  | start task payload state => exact h.start hfun hc hs
  | answer id a =>
    obtain ⟨run, hrun, hs⟩ := DirectRun.advance_some hs
    split at hs
    · rename_i hp
      cases (h.explained.ran id run hrun).calling_of hp rfl
    · cases hs
  | resume id value payload state =>
    obtain ⟨run, hrun, hs⟩ := DirectRun.advance_some hs
    split at hs
    · rename_i hp
      cases (h.explained.ran id run hrun).calling_of hp rfl
    · cases hs
  | execute id =>
    obtain ⟨run, hrun, hs⟩ := DirectRun.advance_some hs
    split at hs
    · rename_i hp
      cases hs
      exact h.execute hc hrun hp
    · cases hs
  | fail id =>
    obtain ⟨run, hrun, hs⟩ := DirectRun.advance_some hs
    split at hs
    · rename_i reason hp
      cases hs
      exact h.fail hrun hp
    · cases hs
  | record id =>
    obtain ⟨run, hrun, hs⟩ := DirectRun.advance_some hs
    split at hs
    · rename_i output hp
      cases hs
      exact h.record hrun hp
    · cases hs
  | finalize =>
    obtain ⟨hne, hart, hprod⟩ := hc
    rw [directStep] at hs
    split at hs
    · rename_i hg
      cases hs
      have hall := h.explained.allRecorded h.nodup hg.1
      refine { h with outputs := ?_ }
      intro o ho
      cases ho
      exact ⟨hne, hall, collectSemanticOutputs_eq (hall.refs hout) hart hprod⟩
    · cases hs

theorem directPlain_initial : DirectPlain ex graph graphInput (.initial graphInput) :=
  ⟨⟨nofun, nofun⟩, rfl, nofun, List.nodup_nil, nofun⟩

theorem direct_progress {rank : String → Nat} (hr : Ranked graph rank) (hn : graph.ids.Nodup)
    (hk : ∀ task ∈ graph.tasks, ∀ d ∈ task.dependsOn, d ∈ graph.ids)
    (h : DirectPlain ex graph graphInput d) (ho : d.semanticOutputs = none) (hf : ¬ d.Failed) :
    ∃ a e, directStep ex graph d a = some e := by
  by_contra hno
  have hstuck : ∀ a, directStep ex graph d a = none := by
    intro a
    cases ha : directStep ex graph d a with
    | none => rfl
    | some e => exact absurd ⟨a, e, ha⟩ hno
  have hall : ∀ id, id ∈ graph.ids → ∃ v, Dict.get? d.taskResults id = some v := by
    intro id
    induction id using hr.wf.induction with
    | _ id ih =>
      intro hid
      obtain ⟨task, ht, rfl⟩ := mem_ids.mp hid
      have hdeps : ∀ x ∈ task.dependsOn, ∃ v, Dict.get? d.taskResults x = some v :=
        fun x hx => ih x ⟨task, ht, rfl, hx⟩ (hk task ht x hx)
      cases hrun : d.runs.get? task.id with
      | none =>
        obtain ⟨deps, hd⟩ := gathered_of_complete hdeps []
        rw [← dependencyResults_eq] at hd
        have hs := hstuck (.start task .none .none)
        rw [directStep, startTask, if_pos ⟨ht, hrun⟩, hd] at hs
        cases hs
      | some run =>
        have htask := h.tasks _ run hrun
        have hplain := h.explained.ran _ run hrun
        cases hp : run.phase with
        | gating =>
          cases hplain.calling_of hp rfl
        | calling =>
          have hs := hstuck (.execute task.id)
          rw [directStep, DirectRun.advance, hrun, Option.bind_some, if_pos hp] at hs
          cases hs
        | raising reason =>
          have hs := hstuck (.fail task.id)
          rw [directStep, DirectRun.advance, hrun, Option.bind_some, hp] at hs
          cases hs
        | returned output =>
          have hs := hstuck (.record task.id)
          rw [directStep, DirectRun.advance, hrun, Option.bind_some, hp] at hs
          cases hs
        | cancelling output ids => exact absurd hp (htask.own output ids)
        | dropped =>
          cases hplain.calling_of hp rfl
        | recorded output => exact ⟨output, htask.kept output hp⟩
        | failed reason => exact absurd ⟨task.id, run, reason, hrun, hp⟩ hf
  have hmem : ∀ id, id ∈ Dict.keys d.taskResults ↔ id ∈ graph.ids := by
    intro id
    constructor
    · exact fun hid => h.explained.key_listed hid
    · intro hid
      obtain ⟨v, hv⟩ := hall id hid
      by_contra hnot
      rw [Dict.get?_eq_none_iff.mpr hnot] at hv
      cases hv
  have hlen : d.taskResults.length = graph.tasks.length := by
    have hperm := ((List.perm_ext_iff_of_nodup h.nodup hn).mpr hmem).length_eq
    simpa [Dict.keys, TaskDAG.ids] using hperm
  have hs := hstuck .finalize
  rw [directStep, if_pos ⟨hlen, ho⟩] at hs
  cases hs

end Direct

section Blocks

variable {ex : TaskDAGExecutor} {graph : TaskDAG} {graphInput : Value}

theorem blockId_injective (graph : TaskDAG) {s t : String} (h : blockId graph s = blockId graph t) :
    s = t := by
  have hl := congrArg String.toList h
  simp only [blockId, String.toList_append, List.append_cancel_left_eq] at hl
  exact String.toList_inj.mp hl

theorem outputsByTask_append (results : List BlockResult) (x : BlockResult) :
    outputsByTask (results ++ [x]) =
      Dict.set (outputsByTask results) x.sourceTaskDagNodeId x.output := by
  rw [outputsByTask, List.foldl_append]
  rfl

structure BlocksTask (graph : TaskDAG) (table : Dict String Value) (completed : List String)
    (id : String) (run : TaskRun) : Prop where
  ready : ∀ d ∈ run.call.task.dependsOn, blockId graph d ∈ completed
  kept : ∀ v, (run.phase = .recorded v ∨ ∃ ids, run.phase = .cancelling v ids) →
    Dict.get? table id = some v
  done : ∀ v, run.phase = .recorded v → blockId graph id ∈ completed
  own : ∀ reason, run.phase ≠ .raising reason

structure BlocksPlain (ex : TaskDAGExecutor) (graph : TaskDAG) (graphInput : Value)
    (b : BlocksRun) : Prop where
  explained : Explained ex graph graphInput b.runs (outputsByTask b.executionBlockResults)
  input : b.graphInput = some graphInput ∨ b.graphInput = none ∧ b.runs = []
  tasks : ∀ id run, b.runs.get? id = some run →
    BlocksTask graph (outputsByTask b.executionBlockResults) b.completed id run
  completed : ∀ x ∈ b.completed, ∃ id run v, x = blockId graph id ∧
    b.runs.get? id = some run ∧ run.phase = .recorded v
  outputs : ∀ o, b.semanticOutputs = some o →
    AllRecorded graph (outputsByTask b.executionBlockResults) ∧
      (semanticOutputTaskRefs ex.reprOf graph.semanticOutputs ≠ [] →
        o = namedOutputs ex graph (outputsByTask b.executionBlockResults))

variable {b : BlocksRun} {id : String}

theorem BlocksRun.advance_some {c : BlocksRun} {next : TaskRun → Option BlocksRun}
    (h : b.advance id next = some c) : ∃ run, b.runs.get? id = some run ∧ next run = some c :=
  Option.bind_eq_some_iff.mp h

variable {run : TaskRun}

theorem BlocksPlain.known (h : BlocksPlain ex graph graphInput b)
    (hrun : b.runs.get? id = some run) : b.graphInput = some graphInput := by
  rcases h.input with hi | ⟨-, hnone⟩
  · exact hi
  · rw [hnone] at hrun
    cases hrun

theorem BlocksPlain.recorded (h : BlocksPlain ex graph graphInput b)
    (hc : blockId graph id ∈ b.completed) : ∃ run v, b.runs.get? id = some run ∧
      run.phase = .recorded v ∧ Dict.get? (outputsByTask b.executionBlockResults) id = some v := by
  obtain ⟨j, run, v, hj, hrun, hp⟩ := h.completed _ hc
  cases blockId_injective graph hj
  exact ⟨run, v, hrun, hp, (h.tasks _ run hrun).kept v (.inl hp)⟩

theorem completed_set (h : BlocksPlain ex graph graphInput b)
    {next : TaskRun} (hnot : ∀ run, b.runs.get? id = some run → ∀ v, run.phase ≠ .recorded v) :
    ∀ x ∈ b.completed, ∃ j run v, x = blockId graph j ∧
      (b.runs.set id next).get? j = some run ∧ run.phase = .recorded v := by
  intro x hx
  obtain ⟨j, run, v, hj, hrun, hp⟩ := h.completed x hx
  have hne : id ≠ j := by
    rintro rfl
    exact hnot run hrun v hp
  exact ⟨j, run, v, hj, by rw [Dict.get?_set_of_ne _ _ hne, hrun], hp⟩

theorem BlocksPlain.start {c : BlocksRun} (h : BlocksPlain ex graph graphInput b)
    {task : TaskDAGNode} {input : Value}
    (hc : BlocksAllowed graph b (.start task input))
    (hs : startBlock graph graphInput b task input = some c) :
    BlocksPlain ex graph graphInput c := by
  unfold startBlock at hs
  split at hs
  · rename_i hg
    obtain ⟨ht, hnew, hready⟩ := hg
    have hknown : b.graphInput.getD (if task.dependsOn = [] then graphInput else input) =
        graphInput := by
      rcases h.input with hi | ⟨hi, hnone⟩
      · rw [hi]
        rfl
      · rw [hi, Option.getD_none]
        cases hd : task.dependsOn with
        | nil => exact if_pos rfl
        | cons d rest =>
          obtain ⟨run, -, hrun, -⟩ := h.recorded (hready d (hd ▸ List.mem_cons_self))
          rw [hnone] at hrun
          cases hrun
    have hrec : ∀ d ∈ task.dependsOn,
        ∃ x, Dict.get? (outputsByTask b.executionBlockResults) d = some x := by
      intro d hd
      obtain ⟨-, v, -, -, hv⟩ := h.recorded (hready d hd)
      exact ⟨v, hv⟩
    simp only [hknown, if_neg hc] at hs
    cases hs
    constructor
    · exact h.explained.start hnew ht (gathered_forBlock hrec)
    · exact .inl rfl
    · refine tasks_set h.tasks ⟨hready, ?_, nofun, nofun⟩
      rintro v (hv | ⟨ids, hv⟩)
      · cases hv
      · cases hv
    · refine completed_set h ?_
      intro run hrun
      rw [hnew] at hrun
      cases hrun
    · exact h.outputs
  · cases hs

theorem BlocksPlain.execute (h : BlocksPlain ex graph graphInput b)
    (hrun : b.runs.get? id = some run) (hp : run.phase = .calling) :
    BlocksPlain ex graph graphInput (b.setRun id (executeBlock ex run)) := by
  have hplain := h.explained.ran id run hrun
  have hpend : run.phase.outcome = none := by rw [hp]; rfl
  have hzero := (hplain.pending hpend).2
  have hnext : ∃ phase, executeBlock ex run = { run with attempts := 1, phase := phase } ∧
      phase.outcome = some (blocksTaskHandler ex run.call) ∧ (∀ v, phase ≠ .recorded v) ∧
      (∀ v ids, phase ≠ .cancelling v ids) ∧ ∀ reason, phase ≠ .raising reason := by
    unfold executeBlock
    rw [hzero]
    cases blocksTaskHandler ex run.call with
    | ok output => exact ⟨.returned output, rfl, rfl, nofun, nofun, nofun⟩
    | error reason => exact ⟨.failed reason, rfl, rfl, nofun, nofun, nofun⟩
  obtain ⟨phase, hnext, hout, hnr, hnc, hna⟩ := hnext
  rw [hnext]
  constructor
  · refine h.explained.move hrun rfl rfl ?_ ?_ ?_
    · intro hn
      have hn' : phase.outcome = none := hn
      rw [hout] at hn'
      cases hn'
    · intro o ho
      have ho' : phase.outcome = some o := ho
      rw [hout] at ho'
      exact ⟨rfl, Option.some.inj ho'⟩
    · intro v hv
      rw [hpend] at hv
      cases hv
  · exact .inl (h.known hrun)
  · refine tasks_set h.tasks ⟨(h.tasks id run hrun).ready, ?_, ?_, hna⟩
    · rintro v (hv | ⟨ids, hv⟩)
      · exact absurd hv (hnr v)
      · exact absurd hv (hnc v ids)
    · intro v hv
      exact absurd hv (hnr v)
  · refine completed_set h ?_
    intro r hr v hv
    rw [hrun] at hr
    cases hr
    rw [hp] at hv
    cases hv
  · exact h.outputs

theorem BlocksPlain.record (h : BlocksPlain ex graph graphInput b)
    {output : Value} (ids : List String) (hrun : b.runs.get? id = some run)
    (hp : run.phase = .returned output) :
    BlocksPlain ex graph graphInput
      (recordBlockResult graph b id output { run with phase := .cancelling output ids }) := by
  have hplain := h.explained.ran id run hrun
  have ho : run.phase.outcome = some (.ok output) := by rw [hp]; rfl
  have hsame : ∀ w, (outputsByTask b.executionBlockResults).get? id = some w → w = output :=
    fun w hw => h.explained.record_again hrun ho hw
  have htable : outputsByTask (recordBlockResult graph b id output
      { run with phase := .cancelling output ids }).executionBlockResults =
        Dict.set (outputsByTask b.executionBlockResults) id output := outputsByTask_append _ _
  have hmove : Explained ex graph graphInput
      (b.runs.set id { run with phase := .cancelling output ids })
      (outputsByTask b.executionBlockResults) := h.explained.onward hrun ho rfl
  have hkept : ∀ j r, BlocksTask graph (outputsByTask b.executionBlockResults) b.completed j r →
      BlocksTask graph (Dict.set (outputsByTask b.executionBlockResults) id output) b.completed j r :=
    fun j r hr => { hr with kept := fun v hv => set_recorded hsame (hr.kept v hv) }
  constructor
  · rw [htable]
    exact hmove.record (Dict.get?_set_self _ _ _) rfl
  · exact .inl (h.known hrun)
  · rw [htable]
    refine tasks_set (fun j r hr => hkept j r (h.tasks j r hr))
      ⟨(h.tasks id run hrun).ready, ?_, nofun, nofun⟩
    rintro v (hv | ⟨rest, hv⟩)
    · cases hv
    · cases hv
      exact Dict.get?_set_self _ _ _
  · refine completed_set h ?_
    intro r hr v hv
    rw [hrun] at hr
    cases hr
    rw [hp] at hv
    cases hv
  · intro o hso
    obtain ⟨hall, hout⟩ := h.outputs o hso
    have hid : id ∈ graph.ids := mem_ids.mpr ⟨_, hplain.listed⟩
    rw [htable, set_of_allRecorded hall hid hsame]
    exact ⟨hall, hout⟩

theorem BlocksPlain.cancel (h : BlocksPlain ex graph graphInput b)
    {output : Value} {ids : List String} (hrun : b.runs.get? id = some run)
    (hp : run.phase = .cancelling output ids) (rest cancelled : List String) :
    BlocksPlain ex graph graphInput
      { b with
        cancelledExecutionBlockIds := cancelled
        runs := b.runs.set id { run with phase := .cancelling output rest } } := by
  have htask := h.tasks id run hrun
  have ho : run.phase.outcome = some (.ok output) := by rw [hp]; rfl
  exact { h with
    input := .inl (h.known hrun)
    explained := h.explained.onward hrun ho rfl
    tasks := by
      refine tasks_set h.tasks ⟨htask.ready, ?_, nofun, nofun⟩
      rintro v (hv | ⟨ids', hv⟩)
      · cases hv
      · cases hv
        exact htask.kept output (.inr ⟨ids, hp⟩)
    completed := by
      refine completed_set h ?_
      intro r hr v hv
      rw [hrun] at hr
      cases hr
      rw [hp] at hv
      cases hv }

theorem BlocksPlain.complete (h : BlocksPlain ex graph graphInput b)
    {output : Value} (hrun : b.runs.get? id = some run)
    (hp : run.phase = .cancelling output []) :
    BlocksPlain ex graph graphInput
      (completeBlock graph b id { run with phase := .recorded output }) := by
  have htask := h.tasks id run hrun
  have ho : run.phase.outcome = some (.ok output) := by rw [hp]; rfl
  have hin : ∀ x ∈ b.completed, x ∈ b.completed ++ [blockId graph id] :=
    fun x hx => List.mem_append_left _ hx
  have hmore : ∀ j r,
      BlocksTask graph (outputsByTask b.executionBlockResults) b.completed j r →
      BlocksTask graph (outputsByTask b.executionBlockResults)
        (b.completed ++ [blockId graph id]) j r := fun j r hr =>
    { hr with
      ready := fun d hd => hin _ (hr.ready d hd)
      done := fun v hv => hin _ (hr.done v hv) }
  constructor
  · exact h.explained.onward hrun ho rfl
  · exact .inl (h.known hrun)
  · refine tasks_set (fun j r hr => hmore j r (h.tasks j r hr))
      ⟨fun d hd => hin _ (htask.ready d hd), ?_, fun v _ => ?_, nofun⟩
    · rintro v (hv | ⟨ids', hv⟩)
      · cases hv
        exact htask.kept output (.inr ⟨[], hp⟩)
      · cases hv
    · exact List.mem_append_right _ List.mem_cons_self
  · intro x hx
    rcases List.mem_append.mp hx with hx | hx
    · refine completed_set h ?_ x hx
      intro r hr v hv
      rw [hrun] at hr
      cases hr
      rw [hp] at hv
      cases hv
    · exact ⟨id, _, output, List.mem_singleton.mp hx, Dict.get?_set_self _ _ _, rfl⟩
  · exact h.outputs

theorem mem_terminalBlocks (hid : id ∈ graph.ids)
    (hno : ∀ task ∈ graph.tasks, id ∉ task.dependsOn) : blockId graph id ∈ terminalBlocks graph := by
  have hnil : blockChildren graph (blockId graph id) = [] := by
    rw [blockChildren, List.flatMap_eq_nil_iff]
    intro task ht
    rw [List.map_eq_nil_iff, List.filter_eq_nil_iff]
    intro d hd he
    have heq : d = id := blockId_injective graph (by simpa using he)
    exact hno task ht (heq ▸ hd)
  refine List.mem_filter.mpr ⟨List.mem_map_of_mem hid, ?_⟩
  rw [hnil]
  rfl

variable {rank : String → Nat}

theorem BlocksPlain.allRecorded (h : BlocksPlain ex graph graphInput b)
    (hr : Ranked graph rank) (hn : graph.ids.Nodup) {bound : Nat}
    (hb : ∀ id ∈ graph.ids, rank id < bound)
    (hterm : ∀ x ∈ terminalBlocks graph, x ∈ b.completed) :
    AllRecorded graph (outputsByTask b.executionBlockResults) := by
  have hall : ∀ n id, id ∈ graph.ids → bound ≤ rank id + n → blockId graph id ∈ b.completed := by
    intro n
    induction n with
    | zero =>
      intro id hid hle
      have hlt := hb id hid
      omega
    | succ n ih =>
      intro id hid hle
      by_cases hno : ∀ task ∈ graph.tasks, id ∉ task.dependsOn
      · exact hterm _ (mem_terminalBlocks hid hno)
      · push Not at hno
        obtain ⟨task, ht, hd⟩ := hno
        have hlt := hr task ht id hd
        have hdone := ih task.id (mem_ids.mpr ⟨task, ht, rfl⟩) (by omega)
        obtain ⟨run, v, hrun, -, -⟩ := h.recorded hdone
        obtain ⟨hlisted, hid'⟩ := (h.explained.ran _ run hrun).listed
        have htask := eq_of_id hn hlisted ht hid'
        exact (h.tasks _ run hrun).ready id (htask ▸ hd)
  intro task ht
  obtain ⟨-, v, -, -, hv⟩ := h.recorded (hall bound task.id (mem_ids.mpr ⟨task, ht, rfl⟩) (by omega))
  exact ⟨v, hv⟩

theorem blocksPlain_step (hr : Ranked graph rank) (hn : graph.ids.Nodup)
    {bound : Nat} (hb : ∀ id ∈ graph.ids, rank id < bound)
    (hout : ∀ ref ∈ semanticOutputTaskRefs ex.reprOf graph.semanticOutputs, ref.2 ∈ graph.ids)
    (b : BlocksRun) (a : BlocksAction) (c : BlocksRun) (h : BlocksPlain ex graph graphInput b)
    (hc : BlocksAllowed graph b a) (hs : blocksStep ex graph graphInput b a = some c) :
    BlocksPlain ex graph graphInput c := by
  cases a with
  | start task input => exact h.start hc hs
  | execute id =>
    obtain ⟨run, hrun, hs⟩ := BlocksRun.advance_some hs
    split at hs
    · rename_i hp
      cases hs
      exact h.execute hrun hp
    · cases hs
  | record id =>
    obtain ⟨run, hrun, hs⟩ := BlocksRun.advance_some hs
    split at hs
    · rename_i output hp
      cases hs
      exact h.record _ hrun hp
    · rename_i hp
      cases (h.explained.ran id run hrun).calling_of hp rfl
    · cases hs
  | cancel id =>
    obtain ⟨run, hrun, hs⟩ := BlocksRun.advance_some hs
    split at hs
    · rename_i output x rest hp
      cases hs
      exact h.cancel hrun hp rest _
    · rename_i output hp
      cases hs
      exact h.complete hrun hp
    · cases hs
  | finalize =>
    rw [blocksStep] at hs
    split at hs
    · rename_i hg
      cases hs
      have hall := h.allRecorded hr hn hb hg.1
      refine { h with outputs := ?_ }
      intro o ho
      cases ho
      exact ⟨hall, fun hne => semanticOutputsFromSnapshot_eq hne (hall.refs hout)⟩
    · cases hs

theorem blocksPlain_initial : BlocksPlain ex graph graphInput .initial :=
  ⟨⟨nofun, nofun⟩, .inr ⟨rfl, rfl⟩, nofun, nofun, nofun⟩

theorem blocks_progress (hr : Ranked graph rank)
    (hk : ∀ task ∈ graph.tasks, ∀ d ∈ task.dependsOn, d ∈ graph.ids)
    (h : BlocksPlain ex graph graphInput b) (ho : b.semanticOutputs = none) (hf : ¬ b.Failed) :
    ∃ a c, blocksStep ex graph graphInput b a = some c := by
  by_contra hno
  have hstuck : ∀ a, blocksStep ex graph graphInput b a = none := by
    intro a
    cases ha : blocksStep ex graph graphInput b a with
    | none => rfl
    | some c => exact absurd ⟨a, c, ha⟩ hno
  have hall : ∀ id, id ∈ graph.ids → blockId graph id ∈ b.completed := by
    intro id
    induction id using hr.wf.induction with
    | _ id ih =>
      intro hid
      obtain ⟨task, ht, rfl⟩ := mem_ids.mp hid
      have hready : ∀ d ∈ task.dependsOn, blockId graph d ∈ b.completed :=
        fun d hd => ih d ⟨task, ht, rfl, hd⟩ (hk task ht d hd)
      cases hrun : b.runs.get? task.id with
      | none =>
        have hs := hstuck (.start task .none)
        rw [blocksStep, startBlock, if_pos ⟨ht, hrun, hready⟩] at hs
        cases hs
      | some run =>
        have htask := h.tasks _ run hrun
        have hplain := h.explained.ran _ run hrun
        cases hp : run.phase with
        | gating =>
          cases hplain.calling_of hp rfl
        | calling =>
          have hs := hstuck (.execute task.id)
          rw [blocksStep, BlocksRun.advance, hrun, Option.bind_some, if_pos hp] at hs
          cases hs
        | raising reason => exact absurd hp (htask.own reason)
        | returned output =>
          have hs := hstuck (.record task.id)
          rw [blocksStep, BlocksRun.advance, hrun, Option.bind_some, hp] at hs
          cases hs
        | cancelling output ids =>
          have hs := hstuck (.cancel task.id)
          rw [blocksStep, BlocksRun.advance, hrun, Option.bind_some, hp] at hs
          cases ids with
          | nil => cases hs
          | cons x rest => cases hs
        | dropped =>
          have hs := hstuck (.record task.id)
          rw [blocksStep, BlocksRun.advance, hrun, Option.bind_some, hp] at hs
          cases hs
        | recorded output => exact htask.done output hp
        | failed reason => exact absurd ⟨task.id, run, reason, hrun, hp⟩ hf
  have hterm : ∀ x ∈ terminalBlocks graph, x ∈ b.completed := by
    intro x hx
    obtain ⟨id, hid, rfl⟩ := List.mem_map.mp (List.mem_of_mem_filter hx)
    exact hall id hid
  have hs := hstuck .finalize
  rw [blocksStep, if_pos ⟨hterm, ho⟩] at hs
  cases hs

end Blocks

theorem ranked_of_validated {isCallable : Value → Bool} {call : Value → TaskDAGNode → Value}
    {r : TaskDAGResolver} {graph : TaskDAG} {v : Validation}
    (h : Validated isCallable call r graph v) :
    Ranked v.graph v.topologicalTaskIds.idxOf :=
  fun task ht d hd => (h.dependencies task ht d hd).2

/-- On a validated graph whose handlers are functions the two paths execute the same, in every run
of each that keeps to the condition. -/
theorem paths_agree (ex : TaskDAGExecutor) (graph : TaskDAG) (v : Validation)
    (hv : ex.validate graph = .ok v) (hfun : HandlersAreFunctions ex v.graph) (graphInput : Value)
    (as : List DirectAction) (bs : List BlocksAction) (d : DirectRun) (b : BlocksRun)
    (hd : (asyncRun ex v.graph).run (.initial graphInput) as = some d)
    (hdm : (asyncRun ex v.graph).Meets (DirectAllowed ex v.graph) (.initial graphInput) as)
    (hb : (asyncRunBlocks ex v.graph graphInput).run .initial bs = some b)
    (hbm : (asyncRunBlocks ex v.graph graphInput).Meets (BlocksAllowed v.graph) .initial bs) :
    SameExecution ex v.graph graphInput d b := by
  have hvalid := (validated_valid hv).1
  have hval := validateGraph_spec.2 v hv
  have hr := ranked_of_validated hval
  have hn := hvalid.ids_nodup
  have hbound : ∀ id ∈ v.graph.ids, v.topologicalTaskIds.idxOf id < v.topologicalTaskIds.length := by
    intro id hid
    have hmem : id ∈ v.taskIds := hval.taskIds ▸ hid
    exact List.idxOf_lt_length_of_mem (hval.order.mem_iff.mpr hmem)
  have hall : ∀ task ∈ v.graph.tasks, isApprovalTask task = false → IsFunction ex task := by
    intro task ht ha
    refine ⟨?_, hfun task ht ha⟩
    intro hnone
    have hres := hval.resolved task ht
    simp only [isUnresolved, ha] at hres
    have hnone' : TaskDAGResolver.resolve ex.isCallable ex.call ex.resolver task = .none := hnone
    simp [hnone'] at hres
  have hpd : DirectPlain ex v.graph graphInput d :=
    (asyncRun ex v.graph).run_invariant_meeting (directPlain_step hall hvalid.outputs)
      directPlain_initial hdm hd
  have hpb : BlocksPlain ex v.graph graphInput b :=
    (asyncRunBlocks ex v.graph graphInput).run_invariant_meeting
      (blocksPlain_step hr hn hbound hvalid.outputs) blocksPlain_initial hbm hb
  have he := hpd.explained
  have he' := hpb.explained
  constructor
  · intro id p q hp hq
    refine ⟨he.calls_agree hr hn he' hp hq, ?_⟩
    rw [(he.ran id p hp).approvals, (he'.ran id q hq).approvals]
  · intro id p q hp hq x y hx hy
    exact he.outcomes_agree hr hn he' hp hq hx hy
  · intro id x y hx hy
    exact he.agree hr hn he' hx hy
  · intro x y hx hy
    obtain ⟨hne, hdall, hxo⟩ := hpd.outputs x hx
    obtain ⟨hball, hyo⟩ := hpb.outputs y hy
    have hsame : ∀ task ∈ v.graph.tasks, ∃ w, Dict.get? d.taskResults task.id = some w ∧
        Dict.get? (outputsByTask b.executionBlockResults) task.id = some w := by
      intro task ht
      obtain ⟨w, hw⟩ := hdall task ht
      obtain ⟨u, hu⟩ := hball task ht
      exact ⟨w, hw, by rw [hu, he.agree hr hn he' hw hu]⟩
    refine ⟨?_, hsame⟩
    rw [hxo, hyo hne]
    refine addNamed_congr ?_ []
    intro ref href
    obtain ⟨task, ht, hid⟩ := mem_ids.mp (hvalid.outputs ref href)
    obtain ⟨w, hw, hu⟩ := hsame task ht
    rw [← hid, hw, hu]
  · constructor
    · rintro ⟨id, run, reason, hrun, hp⟩
      have hnone := he.failed_unrecorded hr hn he' hrun hp
      cases ho : b.semanticOutputs with
      | none => rfl
      | some o =>
        obtain ⟨ht, hid⟩ := (he.ran id run hrun).listed
        obtain ⟨w, hw⟩ := (hpb.outputs o ho).1 _ ht
        rw [hid, hnone] at hw
        cases hw
    · rintro ⟨id, run, reason, hrun, hp⟩
      have hnone := he'.failed_unrecorded hr hn he hrun hp
      cases ho : d.semanticOutputs with
      | none => rfl
      | some o =>
        obtain ⟨ht, hid⟩ := (he'.ran id run hrun).listed
        obtain ⟨w, hw⟩ := (hpd.outputs o ho).2.1 _ ht
        rw [hid, hnone] at hw
        cases hw
  · exact fun ho hf => direct_progress hr hn hvalid.known hpd ho hf
  · exact fun ho hf => blocks_progress hr hvalid.known hpb ho hf

def objectsCallable : Value → Bool
  | .object _ _ => true
  | _ => false

def echoExecutor : TaskDAGExecutor where
  isCallable := objectsCallable
  call := answerNone
  reprOf := noText
  intOf := fun _ => none
  answer := fun _ c => .ok c.task.inputs
  resolver := defaultResolver

def countTask : TaskDAGNode := { id := "count", kind := "emit", inputs := .dict [("total", .int 3)] }

def countGraph : TaskDAG := { graphId := "counting", tasks := [countTask] }

def greetTask : TaskDAGNode := { id := "greet", kind := "emit", inputs := .str (placeholderText "INIT") }

def greetGraph : TaskDAG := { graphId := "greeting", tasks := [greetTask] }

theorem validate_of_graph {ex : TaskDAGExecutor} {graph : TaskDAG}
    (h : (ex.validate graph).toOption.map (fun v => v.graph) = some graph) :
    ∃ v, ex.validate graph = .ok v ∧ v.graph = graph := by
  cases hv : ex.validate graph with
  | error e =>
    rw [hv] at h
    cases h
  | ok v =>
    rw [hv] at h
    exact ⟨v, rfl, Option.some.inj h⟩

theorem paths_agree_count : ∃ v d b, echoExecutor.validate countGraph = .ok v ∧
    (asyncRun echoExecutor v.graph).run (.initial (.int 1))
      [.start countTask .none .none, .execute "count"] = some d ∧
    (asyncRunBlocks echoExecutor v.graph (.int 1)).run .initial
      [.start countTask .none, .execute "count"] = some b ∧
    SameExecution echoExecutor v.graph (.int 1) d b := by
  obtain ⟨v, hv, hg⟩ := @validate_of_graph echoExecutor countGraph (by decide +kernel)
  have hd : ((asyncRun echoExecutor v.graph).run (.initial (.int 1))
      [.start countTask .none .none, .execute "count"]).isSome = true := by
    rw [hg]
    decide +kernel
  have hb : ((asyncRunBlocks echoExecutor v.graph (.int 1)).run .initial
      [.start countTask .none, .execute "count"]).isSome = true := by
    rw [hg]
    decide +kernel
  obtain ⟨d, hd⟩ := Option.isSome_iff_exists.mp hd
  obtain ⟨b, hb⟩ := Option.isSome_iff_exists.mp hb
  refine ⟨v, d, b, hv, hd, hb, paths_agree echoExecutor countGraph v hv ?_ (.int 1) _ _ d b hd ?_ hb ?_⟩
  · rw [hg]
    unfold HandlersAreFunctions
    decide +kernel
  · refine ⟨⟨by decide +kernel, fun deps _ => rfl⟩, fun t ht => ⟨?_, fun u _ => trivial⟩⟩
    intro run hrun reason hr
    have htask : ((asyncRun echoExecutor v.graph).step (.initial (.int 1))
        (.start countTask .none .none)).map
          (fun d => (d.runs.get? "count").map fun run => run.call.task) = some (some countTask) := by
      rw [hg]
      decide +kernel
    rw [ht, Option.map_some, hrun] at htask
    have hcount : run.call.task = countTask := Option.some.inj (Option.some.inj htask)
    have hcall : echoExecutor.isCallable (echoExecutor.resolve run.call.task) = true := by
      rw [hcount]
      decide +kernel
    rw [executeHandler, if_pos hcall] at hr
    cases hr
  · refine ⟨?_, fun t _ => ⟨trivial, fun u _ => trivial⟩⟩
    exact List.not_mem_nil

theorem placeholder_paths_differ :
    ¬ ∀ (ex : TaskDAGExecutor) (graph : TaskDAG) (v : Validation), ex.validate graph = .ok v →
      HandlersAreFunctions ex v.graph → ∀ (graphInput : Value) (as : List DirectAction)
        (bs : List BlocksAction) (d : DirectRun) (b : BlocksRun),
          (asyncRun ex v.graph).run (.initial graphInput) as = some d →
          (asyncRunBlocks ex v.graph graphInput).run .initial bs = some b →
            SameExecution ex v.graph graphInput d b := by
  intro hall
  obtain ⟨v, hv, hg⟩ := @validate_of_graph echoExecutor greetGraph (by decide +kernel)
  have hfun : HandlersAreFunctions echoExecutor v.graph := by
    rw [hg]
    unfold HandlersAreFunctions
    decide +kernel
  have hagree := hall echoExecutor greetGraph v hv hfun (.str "hello")
    [.start greetTask .none .none] [.start greetTask .none]
  rw [hg] at hagree
  have hd : ((asyncRun echoExecutor greetGraph).run (.initial (.str "hello"))
      [.start greetTask .none .none]).map
        (fun d => (d.runs.get? "greet").map fun run => run.call.task.inputs) =
          some (some (.str "hello")) := by decide +kernel
  have hb : ((asyncRunBlocks echoExecutor greetGraph (.str "hello")).run .initial
      [.start greetTask .none]).map
        (fun b => (b.runs.get? "greet").map fun run => run.call.task.inputs) =
          some (some (.str (placeholderText "INIT"))) := by decide +kernel
  obtain ⟨d, hd, hdi⟩ := Option.map_eq_some_iff.mp hd
  obtain ⟨b, hb, hbi⟩ := Option.map_eq_some_iff.mp hb
  obtain ⟨p, hp, hpi⟩ := Option.map_eq_some_iff.mp hdi
  obtain ⟨q, hq, hqi⟩ := Option.map_eq_some_iff.mp hbi
  have hcall := ((hagree d b hd hb).calls "greet" p q hp hq).1
  rw [hcall, hqi] at hpi
  exact absurd hpi (by decide +kernel)

end Agently.TaskDAGValidation
