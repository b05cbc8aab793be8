import Agently.TaskDAG.TaskDAGRuntime
import Agently.TriggerFlow.SoloResume

/-! # The runners of a task graph and their steps

Source: `TaskDAG/TaskDAGRuntime.py`. Which handlers a compiled graph registers, what one step of a
runner can do, and which facts about runners no later step undoes. -/

namespace Agently.DynamicTask

open Agently.Lib Agently.Utils Agently.TriggerFlow Agently.Operation

theorem mem_registered {h : DagHandler} {l : List DagHandler} : h ∈ registered l ↔ h ∈ l := by
  induction l with
  | nil => rfl
  | cons x rest ih =>
    by_cases hx : h = x
    · simp [registered, hx]
    · simp [registered, hx, ih]

theorem nodup_registered (l : List DagHandler) : (registered l).Nodup := by
  induction l with
  | nil => exact List.nodup_nil
  | cons x rest ih =>
    refine List.nodup_cons.mpr ⟨?_, ih.filter _⟩
    simp

variable {graph : TaskDAG} {chunkId : DagHandler → String}

theorem compileTaskDag_nodup (type : TriggerType) (event : DagEvent) :
    ((compileTaskDag graph chunkId).handlers type event).Nodup := by
  unfold compileTaskDag
  dsimp only
  split
  · simp
  · simp
  · exact nodup_registered _
  · exact List.nodup_nil

theorem listens_cases {h : DagHandler} {type : TriggerType} {event : DagEvent}
    (hm : h ∈ (compileTaskDag graph chunkId).handlers type event) :
    (h = .kickoff ∧ event = .flowStart) ∨ (h = .finalize ∧ event = .doneGraph) ∨
      (∃ task ∈ graph.tasks, h = .run task.id ∧ event = taskTrigger task) ∨
      ∃ dependencies, h = .join dependencies ∧ ∃ d ∈ dependencies, event = .done d := by
  unfold compileTaskDag at hm
  dsimp only at hm
  split at hm
  · exact .inl ⟨List.mem_singleton.mp hm, rfl⟩
  · exact .inr (.inl ⟨List.mem_singleton.mp hm, rfl⟩)
  · obtain ⟨task, htask, hreg⟩ := List.mem_flatMap.mp (mem_registered.mp hm)
    right
    right
    unfold registers at hreg
    rcases List.mem_append.mp hreg with hreg | hreg
    · split at hreg
      next htrigger => exact .inl ⟨task, htask, List.mem_singleton.mp hreg, htrigger.symm⟩
      next => cases hreg
    · split at hreg
      next d _ _ _ =>
        split at hreg
        next hdep =>
          refine .inr ⟨_, List.mem_singleton.mp hreg, d, ?_, rfl⟩
          exact (List.mem_insertionSort _).mpr hdep.2
        next => cases hreg
      next => cases hreg
  · cases hm

theorem task_eq_of_id {task task' : TaskDAGNode} (h : task ∈ graph.tasks) (h' : task' ∈ graph.tasks)
    (hid : task.id = task'.id) : task = task' :=
  List.inj_on_of_nodup_map graph.ids_nodup h h' hid

theorem task?_spec {id : String} {task : TaskDAGNode} (h : graph.task? id = some task) :
    task ∈ graph.tasks ∧ task.id = id :=
  ⟨List.mem_of_find?_eq_some h, by simpa using List.find?_some h⟩

theorem approvalRequired_eq {id : String} {task : TaskDAGNode} (h : graph.task? id = some task) :
    graph.approvalRequired id = task.approvalRequired := by
  simp [TaskDAG.approvalRequired, h]

theorem roots_nodup : (roots graph).Nodup :=
  graph.ids_nodup.sublist (List.filter_sublist.map _)

theorem approvalInterruptId_inj {t t' : String}
    (h : approvalInterruptId graph t = approvalInterruptId graph t') : t = t' := by
  simpa [approvalInterruptId] using h

def RunnerPhase.heldBy (serial : Nat) : RunnerPhase → Prop
  | .paused s _ => s = serial
  | .suspended s => s = serial
  | _ => False

def RunnerPhase.announces : RunnerPhase → Bool
  | .announced _ | .returning _ | .over => true
  | _ => false

def RunnerPhase.finished : RunnerPhase → Bool
  | .recording _ | .announced _ | .returning _ | .over => true
  | _ => false

/-- The kickoff will not start the root `t` any more. -/
def RunnerPhase.passed (t : String) : RunnerPhase → Prop
  | .kickoff rest => t ∉ rest
  | _ => True

def RunnerPhase.asking : RunnerPhase → Bool
  | .gating | .pausing _ => true
  | _ => false

structure PhaseKept (p p' : RunnerPhase) : Prop where
  held : ∀ s, p.heldBy s → p'.heldBy s
  announces : p.announces = true → p'.announces = true
  finished : p.finished = true → p'.finished = true
  passed : ∀ t, p.passed t → p'.passed t
  joined : p ≠ .joining → p' ≠ .joining

theorem PhaseKept.refl (p : RunnerPhase) : PhaseKept p p :=
  ⟨fun _ h => h, fun h => h, fun h => h, fun _ h => h, fun h => h⟩

/-- The handler run at place `n`, with what it was given, is at phase `p`. -/
def Runs (graph : TaskDAG) (r : DagRun) (n : Nat) (x : Nat × DagHandler × Signal DagEvent)
    (p : RunnerPhase) : Prop :=
  (deliveries r.execution)[n]? = some x ∧
    (r.phases.get? n).getD (initialPhase graph x.2.1) = p

theorem Runs.eq {r : DagRun} {n : Nat} {x y : Nat × DagHandler × Signal DagEvent}
    {p q : RunnerPhase} (hp : Runs graph r n x p) (hq : Runs graph r n y q) : x = y ∧ p = q := by
  have hxy : x = y := Option.some.inj (hp.1.symm.trans hq.1)
  subst hxy
  exact ⟨rfl, hp.2.symm.trans hq.2⟩

def RunsKept (graph : TaskDAG) (r r' : DagRun) : Prop :=
  ∀ n x p, Runs graph r n x p → ∃ p', Runs graph r' n x p' ∧ PhaseKept p p'

/-- A join on `dependencies` has taken the done signal of `d`. -/
def Handled (graph : TaskDAG) (r : DagRun) (dependencies : List String) (d : String) : Prop :=
  ∃ n x p, Runs graph r n x p ∧ x.2.1 = .join dependencies ∧ x.2.2.triggerEvent = .done d ∧
    p ≠ .joining

def Spent (graph : TaskDAG) (r : DagRun) : DagEvent → Prop
  | .start t => ∃ n x p, Runs graph r n x p ∧ x.2.1 = .kickoff ∧ p.passed t
  | .done t => ∃ n x p, Runs graph r n x p ∧ x.2.1 = .run t ∧ p.announces = true
  | .joined dependencies => ∀ d ∈ dependencies, Handled graph r dependencies d
  | _ => True

theorem RunsKept.handled {r r' : DagRun} (h : RunsKept graph r r') {ds : List String} {d : String}
    (hd : Handled graph r ds d) : Handled graph r' ds d := by
  obtain ⟨n, x, p, hr, hx, he, hp⟩ := hd
  obtain ⟨p', hr', hk⟩ := h n x p hr
  exact ⟨n, x, p', hr', hx, he, hk.joined hp⟩

theorem RunsKept.spent {r r' : DagRun} (h : RunsKept graph r r') {event : DagEvent}
    (hs : Spent graph r event) : Spent graph r' event := by
  cases event with
  | start t =>
    obtain ⟨n, x, p, hr, hx, hp⟩ := hs
    obtain ⟨p', hr', hk⟩ := h n x p hr
    exact ⟨n, x, p', hr', hx, hk.passed t hp⟩
  | done t =>
    obtain ⟨n, x, p, hr, hx, hp⟩ := hs
    obtain ⟨p', hr', hk⟩ := h n x p hr
    exact ⟨n, x, p', hr', hx, hk.announces hp⟩
  | joined ds =>
    intro d hd
    exact h.handled (hs d hd)
  | _ => trivial

theorem runs_setPhase {r r' : DagRun} {n : Nat} {p' : RunnerPhase}
    (hd : deliveries r'.execution = deliveries r.execution) (hp : r'.phases = r.phases.set n p')
    {m : Nat} {y : Nat × DagHandler × Signal DagEvent} {q : RunnerPhase}
    (h : Runs graph r' m y q) : (m ≠ n ∧ Runs graph r m y q) ∨ (m = n ∧ q = p') := by
  obtain ⟨hy, hq⟩ := h
  rw [hd] at hy
  rw [hp, Dict.get?_set] at hq
  by_cases hm : n = m
  · rw [if_pos hm] at hq
    exact .inr ⟨hm.symm, hq.symm⟩
  · rw [if_neg hm] at hq
    exact .inl ⟨Ne.symm hm, hy, hq⟩

theorem runs_moved {r r' : DagRun} {n : Nat} {x : Nat × DagHandler × Signal DagEvent}
    {p p' : RunnerPhase} (hd : deliveries r'.execution = deliveries r.execution)
    (hp : r'.phases = r.phases.set n p') (h : Runs graph r n x p) : Runs graph r' n x p' := by
  refine ⟨by rw [hd]; exact h.1, ?_⟩
  rw [hp, Dict.get?_set_self]
  rfl

theorem runsKept_setPhase {r r' : DagRun} {n : Nat} {x : Nat × DagHandler × Signal DagEvent}
    {p p' : RunnerPhase} (hd : deliveries r'.execution = deliveries r.execution)
    (hp : r'.phases = r.phases.set n p') (h : Runs graph r n x p) (hk : PhaseKept p p') :
    RunsKept graph r r' := by
  intro m y q hm
  by_cases hmn : n = m
  · subst hmn
    obtain ⟨rfl, rfl⟩ := hm.eq h
    exact ⟨p', runs_moved hd hp h, hk⟩
  · refine ⟨q, ⟨by rw [hd]; exact hm.1, ?_⟩, PhaseKept.refl q⟩
    rw [hp, Dict.get?_set_of_ne _ _ hmn]
    exact hm.2

theorem runsKept_engine {r r' : DagRun} {more : List (Nat × DagHandler × Signal DagEvent)}
    (hd : deliveries r'.execution = deliveries r.execution ++ more) (hp : r'.phases = r.phases) :
    RunsKept graph r r' := by
  intro m y q hm
  obtain ⟨hlen, -⟩ := List.getElem?_eq_some_iff.mp hm.1
  refine ⟨q, ⟨?_, ?_⟩, PhaseKept.refl q⟩
  · rw [hd, List.getElem?_append_left hlen]
    exact hm.1
  · rw [hp]
    exact hm.2

theorem runs_engine {r r' : DagRun} {more : List (Nat × DagHandler × Signal DagEvent)}
    (hknown : ∀ (n : Nat) p, r.phases.get? n = some p → n < (deliveries r.execution).length)
    (hd : deliveries r'.execution = deliveries r.execution ++ more) (hp : r'.phases = r.phases)
    {m : Nat} {y : Nat × DagHandler × Signal DagEvent} {q : RunnerPhase}
    (h : Runs graph r' m y q) : Runs graph r m y q ∨ q = initialPhase graph y.2.1 := by
  obtain ⟨hy, hq⟩ := h
  rw [hd] at hy
  rw [hp] at hq
  rcases getElem?_append_cases hy with hy | ⟨hlen, -⟩
  · exact .inl ⟨hy, hq⟩
  · right
    cases hphase : r.phases.get? m with
    | none =>
      rw [hphase] at hq
      exact hq.symm
    | some p =>
      have hlt := hknown m p hphase
      omega

inductive Quiet (graph : TaskDAG) (r : DagRun) (inv : Invocation DagEvent DagHandler) :
    RunnerPhase → RunnerPhase → Prop where
  | discards : Quiet graph r inv .starting .over
  | gates (task : TaskDAGNode) (hh : inv.handler = .run task.id) (hr : graph.approvalRequired task.id = true)
      (hf : inv.signal.isResume = false) : Quiet graph r inv .starting .gating
  | denies : Quiet graph r inv .gating .failing
  | asks (d : PolicyApprovalDecision) (task : TaskDAGNode) (hh : inv.handler = .run task.id)
      (hr : graph.approvalRequired task.id = true) (hf : inv.signal.isResume = false) :
      Quiet graph r inv .gating (.pausing d)
  | suspends (serial index : Nat) : Quiet graph r inv (.paused serial index) (.suspended serial)
  | breaks (serial index : Nat)
      (ht : r.execution.pool.tasks[index]? = some (PoolTask.pauseFor (.finished true))) :
      Quiet graph r inv (.paused serial index) .failing
  | fails : Quiet graph r inv .executing .failing
  | skips (output : Value) : Quiet graph r inv .failed (.recording output)
  | stops : Quiet graph r inv .failed .over
  | kicked : Quiet graph r inv (.kickoff []) (.returning .none)
  | leaves (output : Value) (p' : RunnerPhase) (hp : p' = .over ∨ p' = .returning output) :
      Quiet graph r inv (.announced output) p'
  | returns (output : Value) : Quiet graph r inv (.returning output) .over
  | finalizes (output : Value) : Quiet graph r inv .finalizing (.returning output)

inductive Emits : DagHandler → RunnerPhase → DagEvent → RunnerPhase → Prop where
  | done (t : String) (output : Value) : Emits (.run t) (.recording output) (.done t) (.announced output)
  | doneGraph (t : String) (output : Value) : Emits (.run t) (.announced output) .doneGraph (.returning output)
  | failed (t : String) : Emits (.run t) .failing (.failed t) .failed
  | returned (h : DagHandler) (output : Value) : Emits h (.returning output) (.returned h) .over

theorem PhaseKept.of_quiet {r : DagRun} {inv : Invocation DagEvent DagHandler} {p p' : RunnerPhase}
    (h : Quiet graph r inv p p') (hb : ∀ serial index, p = .paused serial index →
      r.execution.pool.tasks[index]? ≠ some (PoolTask.pauseFor (.finished true))) :
    PhaseKept p p' := by
  cases h with
  | breaks serial index ht => exact absurd ht (hb serial index rfl)
  | leaves output p' hp =>
    rcases hp with rfl | rfl
    · constructor <;> simp [RunnerPhase.heldBy, RunnerPhase.announces, RunnerPhase.finished,
        RunnerPhase.passed]
    · constructor <;> simp [RunnerPhase.heldBy, RunnerPhase.announces, RunnerPhase.finished,
        RunnerPhase.passed]
  | _ =>
    constructor <;> simp [RunnerPhase.heldBy, RunnerPhase.announces, RunnerPhase.finished,
      RunnerPhase.passed]

theorem PhaseKept.of_emits {h : DagHandler} {p p' : RunnerPhase} {event : DagEvent}
    (he : Emits h p event p') : PhaseKept p p' := by
  cases he <;>
    constructor <;> simp [RunnerPhase.heldBy, RunnerPhase.announces, RunnerPhase.finished,
      RunnerPhase.passed]

section

variable (graph) (chunkId) (r : DagRun) (n : Nat) (inv : Invocation DagEvent DagHandler)

/-- What one step of the runner of `inv` can do. -/
inductive RunnerStep (c : RunnerInput) : RunnerPhase → DagRun → Prop where
  | ends {p} (he : executionStep (compileTaskDag graph chunkId) r.execution (.endHandler n) =
      some { r.execution with invocations := r.execution.invocations.set n { inv with running := false } }) :
      RunnerStep c p { r with execution := { r.execution with
        invocations := r.execution.invocations.set n { inv with running := false } } }
  | quiet {p p'} (hq : Quiet graph r inv p p') : RunnerStep c p (setRunner r n p')
  | runs {p} (task : TaskDAGNode) (hh : inv.handler = .run task.id)
      (hp : (p = .starting ∧ (graph.approvalRequired task.id = true → inv.signal.isResume = true)) ∨
        (p = .gating ∧ ∃ d, normalizeDecision "" c.value = some d ∧ d.status = .approved)) :
      RunnerStep c p (execute r n task.id)
  | completes (task : TaskDAGNode) (output : Value) (hh : inv.handler = .run task.id) :
      RunnerStep c .executing (complete r n task.id output)
  | emits {p p'} (event : DagEvent) (value : Value) (results : Dict String Value)
      (he : Emits inv.handler p event p') :
      RunnerStep c p (setRunner (emitDag { r with results := results }
        (emitFrom inv.signal c.freshId event value inv.signal.layerMarks)) n p')
  | kicks (t : String) (rest : List String) (value : Value) (hh : inv.handler = .kickoff)
      (e : Execution DagEvent DagHandler)
      (he : executionStep (compileTaskDag graph chunkId) r.execution
        (.emitNowait (emitFrom inv.signal c.freshId (.start t) value inv.signal.layerMarks)) = some e) :
      RunnerStep c (.kickoff (t :: rest)) (setRunner { r with execution := e } n (.kickoff rest))
  | pauses (d : PolicyApprovalDecision) (task : TaskDAGNode) (hh : inv.handler = .run task.id)
      (e : Execution DagEvent DagHandler)
      (he : pauseFrom (compileTaskDag graph chunkId) r.execution inv (approvalPause graph task d)
        c.now c.freshId = some e) :
      RunnerStep c (.pausing d) (if r.execution.raises.length < e.raises.length then
          setRunner { r with execution := e, log := .gated task.id r.execution.raises.length :: r.log } n
            (.paused r.execution.raises.length r.execution.pool.tasks.length)
        else setRunner { r with execution := e } n .failing)
  | joins (dependencies : List String) (filled : List String)
      (hh : inv.handler = .join dependencies)
      (hf : ∀ d ∈ filled, d ∈ (r.joins.get? (dependencies, inv.signal.layerKey)).getD [] ∨
        inv.signal.triggerEvent = .done d)
      (hm : ∃ d ∈ dependencies, d ∉ filled) :
      RunnerStep c .joining (setRunner
        { r with joins := r.joins.set (dependencies, inv.signal.layerKey) filled } n .over)
  | fires (dependencies : List String) (filled : List String) (value : Value)
      (hh : inv.handler = .join dependencies)
      (hf : ∀ d ∈ filled, d ∈ (r.joins.get? (dependencies, inv.signal.layerKey)).getD [] ∨
        inv.signal.triggerEvent = .done d)
      (hm : ∀ d ∈ dependencies, d ∈ filled) :
      RunnerStep c .joining (setRunner
        (emitDag { r with joins := r.joins.set (dependencies, inv.signal.layerKey) filled }
          (emitFrom inv.signal c.freshId (.joined dependencies) value inv.signal.layerMarks)) n
        (.joined (dependencies, inv.signal.layerKey)))
  | clears (key : List String × String) :
      RunnerStep c (.joined key) (setRunner { r with joins := r.joins.del key } n .over)

variable {graph chunkId r n inv}

theorem runnerStep_of_runTask {c : RunnerInput} {p : RunnerPhase} {r' : DagRun} {task : TaskDAGNode}
    (htask : graph.task? task.id = some task) (hh : inv.handler = .run task.id)
    (hs : p.asking = true → graph.approvalRequired task.id = true ∧ inv.signal.isResume = false)
    (h : stepRunTask graph (compileTaskDag graph chunkId) r n inv task c p = some r') :
    RunnerStep graph chunkId r n inv c p r' := by
  have hreq := approvalRequired_eq htask
  cases p with
  | starting =>
    simp only [stepRunTask] at h
    split at h
    · cases h
      exact .quiet .discards
    · split at h
      next hgate =>
        cases h
        exact .quiet (.gates task hh (hreq.trans hgate.1) hgate.2)
      next hgate =>
        cases h
        refine .runs task hh (.inl ⟨rfl, ?_⟩)
        intro hr
        have hr' := hreq.symm.trans hr
        simpa [hr'] using hgate
  | gating =>
    obtain ⟨hr, hf⟩ := hs rfl
    simp only [stepRunTask] at h
    split at h
    · cases h
      exact .quiet .denies
    · unfold gateAnswer at h
      cases hd : normalizeDecision "" c.value with
      | none =>
        simp only [hd] at h
        cases h
        exact .quiet .denies
      | some d =>
        simp only [hd] at h
        cases hst : d.status with
        | approved =>
          simp only [hst] at h
          cases h
          exact .runs task hh (.inr ⟨rfl, d, hd, hst⟩)
        | denied =>
          simp only [hst] at h
          cases h
          exact .quiet .denies
        | pending =>
          simp only [hst] at h
          cases h
          exact .quiet (.asks d task hh hr hf)
  | pausing d =>
    simp only [stepRunTask] at h
    obtain ⟨e, he, rfl⟩ := Option.map_eq_some_iff.mp h
    exact .pauses d task hh e he
  | paused serial index =>
    simp only [stepRunTask] at h
    split at h
    next raised ht =>
      cases h
      cases raised with
      | true => exact .quiet (.breaks serial index ht)
      | false => exact .quiet (.suspends serial index)
    next => cases h
  | executing =>
    simp only [stepRunTask] at h
    split at h
    · cases h
      exact .completes task _ hh
    · split at h
      · cases h
        exact .quiet .fails
      · cases h
        exact .completes task _ hh
  | recording output =>
    cases h
    exact .emits (.done task.id) _ _ (hh ▸ .done task.id output)
  | announced output =>
    simp only [stepRunTask] at h
    split at h
    · cases h
      exact .quiet (.leaves output _ (.inl rfl))
    · split at h
      · cases h
        exact .emits .doneGraph _ r.results (hh ▸ .doneGraph task.id output)
      · cases h
        exact .quiet (.leaves output _ (.inr rfl))
  | failing =>
    cases h
    exact .emits (.failed task.id) _ r.results (hh ▸ .failed task.id)
  | failed =>
    simp only [stepRunTask] at h
    split at h
    · cases h
      exact .quiet (.skips _)
    · cases h
      exact .quiet .stops
  | _ => cases h

omit graph chunkId r n inv in
theorem mem_filledBy {ds : List String} {s : Signal DagEvent} {old : List String} {d : String}
    (h : d ∈ filledBy ds s old) : d ∈ old ∨ s.triggerEvent = .done d := by
  unfold filledBy at h
  split at h
  next d' he =>
    split at h
    · rcases List.mem_append.mp h with h | h
      · exact .inl h
      · rw [List.mem_singleton.mp h]
        exact .inr he
    · exact .inl h
  next => exact .inl h

theorem runnerStep_of_join {c : RunnerInput} {p : RunnerPhase} {r' : DagRun} {ds : List String}
    (hh : inv.handler = .join ds) (h : stepJoin r n inv ds c p = some r') :
    RunnerStep graph chunkId r n inv c p r' := by
  cases p with
  | joining =>
    simp only [stepJoin] at h
    split at h
    next hall =>
      cases h
      refine .fires ds _ _ hh (fun d hd => mem_filledBy hd) ?_
      intro d hd
      exact of_decide_eq_true (List.all_eq_true.mp hall d hd)
    next hall =>
      cases h
      refine .joins ds _ hh (fun d hd => mem_filledBy hd) ?_
      simpa using hall
  | joined key =>
    cases h
    exact .clears key
  | _ => cases h

theorem runnerStep_of_kickoff {c : RunnerInput} {p : RunnerPhase} {r' : DagRun}
    (hh : inv.handler = .kickoff) (h : stepKickoff graph r n inv c p = some r') :
    RunnerStep graph chunkId r n inv c p r' := by
  cases p with
  | kickoff remaining =>
    cases remaining with
    | nil =>
      cases h
      exact .quiet .kicked
    | cons t rest =>
      cases h
      refine .kicks t rest
        (.dict [("task_id", .str t), ("graph_id", .str graph.graphId)]) hh _ ?_
      simp only [executionStep]
      split <;> rfl
  | _ => cases h

theorem runnerStep_of_handler {c : RunnerInput} {p : RunnerPhase} {r' : DagRun}
    (hinv : r.execution.invocations[n]? = some inv)
    (hs : p.asking = true → ∃ t, inv.handler = .run t ∧ graph.approvalRequired t = true ∧
      inv.signal.isResume = false)
    (h : stepHandler graph (compileTaskDag graph chunkId) r n inv c p = some r') :
    RunnerStep graph chunkId r n inv c p r' := by
  unfold stepHandler at h
  rcases (Option.orElse_eq_some _ _ _).mp h with hover | ⟨-, h⟩
  · rcases (Option.orElse_eq_some _ _ _).mp hover with hend | ⟨-, hret⟩
    · unfold endRunner at hend
      split at hend
      · cases hend
        exact .ends (by simp [executionStep, hinv])
      · cases hend
        exact .ends (by simp [executionStep, hinv])
      · cases hend
    · unfold stepReturn at hret
      split at hret
      next output =>
        split at hret
        · cases hret
          exact .quiet (.returns output)
        · cases hret
          exact .emits (.returned inv.handler) _ r.results (.returned inv.handler output)
      next => cases hret
  · cases hh : inv.handler with
    | kickoff =>
      simp only [hh] at h
      exact runnerStep_of_kickoff hh h
    | run t =>
      simp only [hh] at h
      obtain ⟨task, htask, hstep⟩ := Option.bind_eq_some_iff.mp h
      obtain ⟨-, rfl⟩ := task?_spec htask
      refine runnerStep_of_runTask htask hh ?_ hstep
      intro hp
      obtain ⟨t', ht', hr, hf⟩ := hs hp
      rw [hh] at ht'
      cases ht'
      exact ⟨hr, hf⟩
    | join ds =>
      simp only [hh] at h
      exact runnerStep_of_join hh h
    | finalize =>
      simp only [hh] at h
      split at h
      next hp =>
        cases h
        subst hp
        exact .quiet (.finalizes _)
      next => cases h

end

end Agently.DynamicTask
