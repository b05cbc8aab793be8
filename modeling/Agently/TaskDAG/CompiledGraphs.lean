import Agently.TaskDAG.TaskDAGCompile

/-! # Which graph a flow runs

Source: `TaskDAG/TaskDAGRuntime.py`. A flow keeps the handlers it was first given, so a call runs
what it was given as long as all calls before it gave the same. -/

namespace Agently.TaskDAGCompile

open Agently.Lib Agently.Utils Agently.TaskDAGValidation

structure Grows (f g : TaskFlow) : Prop where
  closures : ∀ k c, Dict.get? f.closures k = some c → Dict.get? g.closures k = some c
  registered : ∀ p ∈ f.registered, p ∈ g.registered
  gates : ∀ s l, Dict.get? f.gates s = some l → Dict.get? g.gates s = some l

theorem Grows.refl (f : TaskFlow) : Grows f f := ⟨fun _ _ h => h, fun _ h => h, fun _ _ h => h⟩

variable {f g : TaskFlow}

theorem Grows.trans {h : TaskFlow} (h₁ : Grows f g) (h₂ : Grows g h) : Grows f h :=
  ⟨fun k c hc => h₂.closures k c (h₁.closures k c hc), fun p hp => h₂.registered p (h₁.registered p hp),
    fun s l hl => h₂.gates s l (h₁.gates s l hl)⟩

theorem get?_set_grows {κ ν : Type} [DecidableEq κ] {d : Dict κ ν} {k k' : κ} {v c : ν}
    (hn : Dict.get? d k = none) (h : Dict.get? d k' = some c) :
    Dict.get? (Dict.set d k v) k' = some c := by
  have hne : k ≠ k' := by
    rintro rfl
    rw [hn] at h
    cases h
  rw [Dict.get?_set_of_ne d v hne, h]

theorem cachedHandler_grows (f : TaskFlow) (key : HandlerKey) (c : Closure) :
    Grows f (f.cachedHandler key c) := by
  unfold TaskFlow.cachedHandler
  cases hk : Dict.get? f.closures key with
  | some _ => exact Grows.refl f
  | none => exact ⟨fun _ _ h => get?_set_grows hk h, fun _ h => h, fun _ _ h => h⟩

theorem get?_cachedHandler (f : TaskFlow) (key : HandlerKey) (c : Closure) :
    Dict.get? (f.cachedHandler key c).closures key = some ((Dict.get? f.closures key).getD c) := by
  unfold TaskFlow.cachedHandler
  cases hk : Dict.get? f.closures key with
  | some d => simp [hk]
  | none => simp

variable {k : HandlerKey}

theorem get?_cachedHandler_of_ne (f : TaskFlow) {key : HandlerKey} (c : Closure) (h : key ≠ k) :
    Dict.get? (f.cachedHandler key c).closures k = Dict.get? f.closures k := by
  unfold TaskFlow.cachedHandler
  cases Dict.get? f.closures key with
  | some _ => rfl
  | none => exact Dict.get?_set_of_ne _ c h

theorem mem_addHandler (f : TaskFlow) (event : FlowEvent) (id : HandlerId)
    (p : FlowEvent × HandlerId) :
    p ∈ (f.addHandler event id).registered ↔ p ∈ f.registered ∨ p = (event, id) := by
  unfold TaskFlow.addHandler
  by_cases h : (event, id) ∈ f.registered
  · rw [if_pos h]
    constructor
    · exact .inl
    · rintro (hp | rfl)
      · exact hp
      · exact h
  · rw [if_neg h]
    simp

@[simp] theorem addHandler_closures (f : TaskFlow) (event : FlowEvent) (id : HandlerId) :
    (f.addHandler event id).closures = f.closures := by
  unfold TaskFlow.addHandler
  split
  · rfl
  · rfl

@[simp] theorem addHandler_gates (f : TaskFlow) (event : FlowEvent) (id : HandlerId) :
    (f.addHandler event id).gates = f.gates := by
  unfold TaskFlow.addHandler
  split
  · rfl
  · rfl

@[simp] theorem addHandler_signatures (f : TaskFlow) (event : FlowEvent) (id : HandlerId) :
    (f.addHandler event id).signatures = f.signatures := by
  unfold TaskFlow.addHandler
  split
  · rfl
  · rfl

theorem addHandler_grows (f : TaskFlow) (event : FlowEvent) (id : HandlerId) :
    Grows f (f.addHandler event id) :=
  ⟨fun _ _ h => by rwa [addHandler_closures], fun p h => (mem_addHandler f event id p).mpr (.inl h),
    fun _ _ h => by rwa [addHandler_gates]⟩

theorem mem_addHandlers (f : TaskFlow) (id : HandlerId) (events : List FlowEvent)
    (p : FlowEvent × HandlerId) :
    p ∈ (f.addHandlers id events).registered ↔
      p ∈ f.registered ∨ ∃ e ∈ events, p = (e, id) := by
  induction events generalizing f with
  | nil => simp [TaskFlow.addHandlers]
  | cons e rest ih =>
    rw [TaskFlow.addHandlers, ih, mem_addHandler]
    simp [or_assoc]

@[simp] theorem addHandlers_closures (f : TaskFlow) (id : HandlerId) (events : List FlowEvent) :
    (f.addHandlers id events).closures = f.closures := by
  induction events generalizing f with
  | nil => rfl
  | cons e rest ih => rw [TaskFlow.addHandlers, ih, addHandler_closures]

@[simp] theorem addHandlers_gates (f : TaskFlow) (id : HandlerId) (events : List FlowEvent) :
    (f.addHandlers id events).gates = f.gates := by
  induction events generalizing f with
  | nil => rfl
  | cons e rest ih => rw [TaskFlow.addHandlers, ih, addHandler_gates]

@[simp] theorem addHandlers_signatures (f : TaskFlow) (id : HandlerId) (events : List FlowEvent) :
    (f.addHandlers id events).signatures = f.signatures := by
  induction events generalizing f with
  | nil => rfl
  | cons e rest ih => rw [TaskFlow.addHandlers, ih, addHandler_signatures]

theorem addHandlers_grows (f : TaskFlow) (id : HandlerId) (events : List FlowEvent) :
    Grows f (f.addHandlers id events) :=
  ⟨fun _ _ h => by rwa [addHandlers_closures],
    fun p h => (mem_addHandlers f id events p).mpr (.inl h), fun _ _ h => by rwa [addHandlers_gates]⟩

theorem addGate_cases (f : TaskFlow) (deps : List String) :
    let added := f.addHandlers (.gate (gateOf deps)) ((listenSignals deps).map .doneTask)
    (Dict.get? f.gates (gateOf deps) = none ∧ f.addGate deps =
        .ok { added with gates := Dict.set f.gates (gateOf deps) (listenSignals deps) }) ∨
      (Dict.get? f.gates (gateOf deps) = some (listenSignals deps) ∧ f.addGate deps = .ok added) ∨
      (∃ l, Dict.get? f.gates (gateOf deps) = some l ∧ l ≠ listenSignals deps ∧
        f.addGate deps = .error (.valueError (operatorExists (gateOf deps)), added)) := by
  intro added
  unfold TaskFlow.addGate
  cases hl : Dict.get? f.gates (gateOf deps) with
  | none =>
    refine .inl ⟨rfl, ?_⟩
    simp only [addHandlers_gates, hl]
    rfl
  | some l =>
    by_cases he : l = listenSignals deps
    · refine .inr (.inl ⟨by rw [he], ?_⟩)
      simp only [addHandlers_gates, hl, if_pos he]
      rfl
    · refine .inr (.inr ⟨l, rfl, he, ?_⟩)
      simp only [addHandlers_gates, hl, if_neg he]
      rfl

theorem addGate_grows (f : TaskFlow) (deps : List String) : Grows f (leftFlow (f.addGate deps)) := by
  have ha := addHandlers_grows f (.gate (gateOf deps)) ((listenSignals deps).map .doneTask)
  rcases addGate_cases f deps with ⟨hn, h⟩ | ⟨-, h⟩ | ⟨l, -, -, h⟩
  · rw [h]
    refine ⟨ha.closures, ha.registered, fun s l hl => ?_⟩
    exact get?_set_grows hn hl
  · rw [h]
    exact ha
  · rw [h]
    exact ha

theorem taskTrigger_grows (f : TaskFlow) (task : TaskDAGNode) :
    Grows f (leftFlow (f.taskTrigger task)) := by
  unfold TaskFlow.taskTrigger
  split
  · exact Grows.refl f
  · exact addGate_grows f task.dependsOn

theorem compileTask_grows (f : TaskFlow) (graph : TaskDAG) (r : TaskDAGResolver)
    (task : TaskDAGNode) : Grows f (leftFlow (f.compileTask graph r task)) := by
  have hc := cachedHandler_grows f (runKey graph task) (.runTask graph task r)
  have ht := hc.trans (taskTrigger_grows _ task)
  unfold TaskFlow.compileTask
  cases h : (f.cachedHandler (runKey graph task) (.runTask graph task r)).taskTrigger task with
  | error e =>
    rw [h] at ht
    exact ht
  | ok g =>
    rw [h] at ht
    exact ht.trans (addHandler_grows g _ _)

theorem compileTasks_grows (graph : TaskDAG) (r : TaskDAGResolver) (tasks : List TaskDAGNode)
    (f : TaskFlow) : Grows f (leftFlow (f.compileTasks graph r tasks)) := by
  induction tasks generalizing f with
  | nil => exact Grows.refl f
  | cons task rest ih =>
    have ht := compileTask_grows f graph r task
    rw [TaskFlow.compileTasks]
    cases h : f.compileTask graph r task with
    | error e =>
      rw [h] at ht
      exact ht
    | ok g =>
      rw [h] at ht
      exact ht.trans (ih g)

theorem compileKickoff_grows (f : TaskFlow) (v : Validation) : Grows f (f.compileKickoff v) := by
  have hs : Grows f (f.noteSignature v.graph) := ⟨fun _ _ h => h, fun _ h => h, fun _ _ h => h⟩
  exact (hs.trans (cachedHandler_grows _ _ _)).trans (addHandler_grows _ _ _)

theorem compileGraph_grows (f : TaskFlow) (v : Validation) (r : TaskDAGResolver) :
    Grows f (leftFlow (f.compileGraph v r)) := by
  unfold TaskFlow.compileGraph
  split
  · exact Grows.refl f
  · have hk := compileKickoff_grows f v
    have ht := hk.trans (compileTasks_grows v.graph r v.graph.tasks (f.compileKickoff v))
    cases h : (f.compileKickoff v).compileTasks v.graph r v.graph.tasks with
    | error e =>
      rw [h] at ht
      exact ht
    | ok g =>
      rw [h] at ht
      exact ht.trans ((cachedHandler_grows _ _ _).trans (addHandler_grows _ _ _))

structure Complete (f : TaskFlow) (graph : TaskDAG) : Prop where
  kickoff : (Dict.get? f.closures (kickoffKey graph)).isSome
  kickoffOn : (.start, .chunk (kickoffKey graph)) ∈ f.registered
  run : ∀ task ∈ graph.tasks, (Dict.get? f.closures (runKey graph task)).isSome
  runOn : ∀ task ∈ graph.tasks, (taskEvent task, .chunk (runKey graph task)) ∈ f.registered
  gate : ∀ task ∈ graph.tasks, 2 ≤ task.dependsOn.length →
    Dict.get? f.gates (gateOf task.dependsOn) = some (listenSignals task.dependsOn)
  gateOn : ∀ task ∈ graph.tasks, 2 ≤ task.dependsOn.length → ∀ d ∈ listenSignals task.dependsOn,
    (.doneTask d, .gate (gateOf task.dependsOn)) ∈ f.registered
  finalize : (Dict.get? f.closures (finalizeKey graph)).isSome
  finalizeOn : (.doneGraph graph.graphId, .chunk (finalizeKey graph)) ∈ f.registered

structure HasTask (f : TaskFlow) (graph : TaskDAG) (task : TaskDAGNode) : Prop where
  run : (Dict.get? f.closures (runKey graph task)).isSome
  runOn : (taskEvent task, .chunk (runKey graph task)) ∈ f.registered
  gate : 2 ≤ task.dependsOn.length →
    Dict.get? f.gates (gateOf task.dependsOn) = some (listenSignals task.dependsOn)
  gateOn : 2 ≤ task.dependsOn.length → ∀ d ∈ listenSignals task.dependsOn,
    (.doneTask d, .gate (gateOf task.dependsOn)) ∈ f.registered

theorem isSome_grows {κ ν : Type} [DecidableEq κ] {d e : Dict κ ν} {k : κ}
    (h : ∀ v, Dict.get? d k = some v → Dict.get? e k = some v) (hs : (Dict.get? d k).isSome) :
    (Dict.get? e k).isSome := by
  obtain ⟨v, hv⟩ := Option.isSome_iff_exists.mp hs
  exact Option.isSome_iff_exists.mpr ⟨v, h v hv⟩

variable {graph : TaskDAG}

theorem HasTask.grows {task : TaskDAGNode}
    (h : HasTask f graph task) (hg : Grows f g) : HasTask g graph task :=
  ⟨isSome_grows (hg.closures _) h.run, hg.registered _ h.runOn,
    fun hl => hg.gates _ _ (h.gate hl), fun hl d hd => hg.registered _ (h.gateOn hl d hd)⟩

variable {r : TaskDAGResolver}

theorem compileTask_hasTask
    {task : TaskDAGNode} (h : f.compileTask graph r task = .ok g) : HasTask g graph task := by
  unfold TaskFlow.compileTask at h
  have hkey := get?_cachedHandler f (runKey graph task) (.runTask graph task r)
  generalize hf' : f.cachedHandler (runKey graph task) (.runTask graph task r) = f' at h hkey
  have htg := taskTrigger_grows f' task
  cases ht : f'.taskTrigger task with
  | error e =>
    rw [ht] at h
    cases h
  | ok k =>
    rw [ht] at h htg
    cases h
    have hrun : (Dict.get? k.closures (runKey graph task)).isSome :=
      Option.isSome_iff_exists.mpr ⟨_, htg.closures _ _ hkey⟩
    refine ⟨by rwa [addHandler_closures], (mem_addHandler k _ _ _).mpr (.inr rfl), ?_, ?_⟩
    · intro hl
      unfold TaskFlow.taskTrigger at ht
      rw [if_neg (by omega)] at ht
      rw [addHandler_gates]
      rcases addGate_cases f' task.dependsOn with ⟨-, he⟩ | ⟨hs, he⟩ | ⟨l, -, -, he⟩
      · rw [he] at ht
        cases ht
        exact Dict.get?_set_self _ _ _
      · rw [he] at ht
        cases ht
        rwa [addHandlers_gates]
      · rw [he] at ht
        cases ht
    · intro hl d hd
      unfold TaskFlow.taskTrigger at ht
      rw [if_neg (by omega)] at ht
      have hm : (.doneTask d, .gate (gateOf task.dependsOn)) ∈
          (f'.addHandlers (.gate (gateOf task.dependsOn))
            ((listenSignals task.dependsOn).map .doneTask)).registered :=
        (mem_addHandlers f' _ _ _).mpr (.inr ⟨_, List.mem_map_of_mem hd, rfl⟩)
      refine (mem_addHandler k _ _ _).mpr (.inl ?_)
      rcases addGate_cases f' task.dependsOn with ⟨-, he⟩ | ⟨-, he⟩ | ⟨l, -, -, he⟩
      · rw [he] at ht
        cases ht
        exact hm
      · rw [he] at ht
        cases ht
        exact hm
      · rw [he] at ht
        cases ht

theorem compileTasks_hasTask {tasks : List TaskDAGNode} (h : f.compileTasks graph r tasks = .ok g) :
    ∀ task ∈ tasks, HasTask g graph task := by
  induction tasks generalizing f with
  | nil => simp
  | cons task rest ih =>
    rw [TaskFlow.compileTasks] at h
    cases hc : f.compileTask graph r task with
    | error e =>
      rw [hc] at h
      cases h
    | ok k =>
      rw [hc] at h
      have hgrow := compileTasks_grows graph r rest k
      simp only [h] at hgrow
      intro t ht
      rcases List.mem_cons.mp ht with rfl | ht
      · exact (compileTask_hasTask hc).grows hgrow
      · exact ih h t ht

theorem compileGraph_complete {v : Validation}
    (h : f.compileGraph v r = .ok g) : Complete g v.graph := by
  unfold TaskFlow.compileGraph at h
  split at h
  · cases h
  · cases ht : (f.compileKickoff v).compileTasks v.graph r v.graph.tasks with
    | error e =>
      rw [ht] at h
      cases h
    | ok k =>
      rw [ht] at h
      cases h
      have hgrow := compileTasks_grows v.graph r v.graph.tasks (f.compileKickoff v)
      simp only [ht, leftFlow] at hgrow
      have hfin : Grows k (k.compileFinalize v.graph) :=
        (cachedHandler_grows _ _ _).trans (addHandler_grows _ _ _)
      have hall := hgrow.trans hfin
      have hkick : (Dict.get? (f.compileKickoff v).closures (kickoffKey v.graph)).isSome := by
        rw [TaskFlow.compileKickoff, addHandler_closures, get?_cachedHandler]
        rfl
      have hkickOn : (.start, .chunk (kickoffKey v.graph)) ∈ (f.compileKickoff v).registered :=
        (mem_addHandler _ _ _ _).mpr (.inr rfl)
      have htask := fun t hm => (compileTasks_hasTask ht t hm).grows hfin
      refine ⟨isSome_grows (hall.closures _) hkick, hall.registered _ hkickOn,
        fun t hm => (htask t hm).run, fun t hm => (htask t hm).runOn,
        fun t hm => (htask t hm).gate, fun t hm => (htask t hm).gateOn, ?_, ?_⟩
      · rw [TaskFlow.compileFinalize, addHandler_closures, get?_cachedHandler]
        rfl
      · exact (mem_addHandler _ _ _ _).mpr (.inr rfl)

theorem Complete.gatesAgree (h : Complete f graph) :
    GatesAgree graph := by
  intro a ha b hb hla hlb hg
  have hga := h.gate a ha hla
  rw [hg, h.gate b hb hlb] at hga
  exact (Option.some.inj hga).symm

theorem addHandler_of_mem {event : FlowEvent} {id : HandlerId}
    (h : (event, id) ∈ f.registered) : f.addHandler event id = f := by
  rw [TaskFlow.addHandler, if_pos h]

theorem addHandlers_of_mem {id : HandlerId} {events : List FlowEvent}
    (h : ∀ e ∈ events, (e, id) ∈ f.registered) : f.addHandlers id events = f := by
  induction events with
  | nil => rfl
  | cons e rest ih =>
    rw [TaskFlow.addHandlers, addHandler_of_mem (h e List.mem_cons_self)]
    exact ih fun e' he' => h e' (List.mem_cons_of_mem e he')

theorem cachedHandler_of_isSome {key : HandlerKey} (c : Closure)
    (h : (Dict.get? f.closures key).isSome) : f.cachedHandler key c = f := by
  obtain ⟨d, hd⟩ := Option.isSome_iff_exists.mp h
  simp [TaskFlow.cachedHandler, hd]

theorem compileTask_of_hasTask (r : TaskDAGResolver)
    {task : TaskDAGNode} (h : HasTask f graph task) : f.compileTask graph r task = .ok f := by
  have ht : f.taskTrigger task = .ok f := by
    unfold TaskFlow.taskTrigger
    by_cases hl : task.dependsOn.length < 2
    · rw [if_pos hl]
    · rw [if_neg hl]
      have hm : f.addHandlers (.gate (gateOf task.dependsOn))
          ((listenSignals task.dependsOn).map .doneTask) = f := by
        apply addHandlers_of_mem
        intro e he
        obtain ⟨d, hd, rfl⟩ := List.mem_map.mp he
        exact h.gateOn (by omega) d hd
      have hg := h.gate (by omega)
      unfold TaskFlow.addGate
      simp only [hm, hg, if_true]
  rw [TaskFlow.compileTask, cachedHandler_of_isSome _ h.run, ht]
  simp only [addHandler_of_mem h.runOn]

theorem compileTasks_of_hasTask (r : TaskDAGResolver)
    {tasks : List TaskDAGNode} (h : ∀ task ∈ tasks, HasTask f graph task) :
    f.compileTasks graph r tasks = .ok f := by
  induction tasks with
  | nil => rfl
  | cons task rest ih =>
    rw [TaskFlow.compileTasks, compileTask_of_hasTask r (h task List.mem_cons_self)]
    exact ih fun t ht => h t (List.mem_cons_of_mem task ht)

theorem Complete.note (h : Complete f graph) (other : TaskDAG) :
    Complete (f.noteSignature other) graph :=
  ⟨h.kickoff, h.kickoffOn, h.run, h.runOn, h.gate, h.gateOn, h.finalize, h.finalizeOn⟩

theorem compileGraph_of_complete {v : Validation} (r : TaskDAGResolver)
    (ha : f.allows v.graph = true) (h : Complete f v.graph) :
    f.compileGraph v r = .ok (f.noteSignature v.graph) := by
  have hn := h.note v.graph
  have hk : f.compileKickoff v = f.noteSignature v.graph := by
    rw [TaskFlow.compileKickoff, cachedHandler_of_isSome _ hn.kickoff]
    exact addHandler_of_mem hn.kickoffOn
  unfold TaskFlow.compileGraph
  rw [if_neg (by simp [ha]), hk, compileTasks_of_hasTask r fun t ht =>
    ⟨hn.run t ht, hn.runOn t ht, hn.gate t ht, hn.gateOn t ht⟩]
  simp only [TaskFlow.compileFinalize]
  rw [cachedHandler_of_isSome _ hn.finalize, addHandler_of_mem hn.finalizeOn]

structure SameShape (a b : TaskDAG) : Prop where
  graphId : a.graphId = b.graphId
  tasks : a.tasks.map (fun t => (t.id, t.dependsOn)) = b.tasks.map fun t => (t.id, t.dependsOn)

theorem SameShape.task {a b : TaskDAG} (h : SameShape a b) {t : TaskDAGNode} (ht : t ∈ b.tasks) :
    ∃ s ∈ a.tasks, s.id = t.id ∧ s.dependsOn = t.dependsOn := by
  have hm : (t.id, t.dependsOn) ∈ a.tasks.map fun t => (t.id, t.dependsOn) := by
    rw [h.tasks]
    exact List.mem_map_of_mem ht
  obtain ⟨s, hs, he⟩ := List.mem_map.mp hm
  exact ⟨s, hs, congrArg Prod.fst he, congrArg Prod.snd he⟩

theorem Complete.of_shape {a b : TaskDAG} (h : Complete f a) (hs : SameShape a b) :
    Complete f b := by
  have hk : kickoffKey b = kickoffKey a := by rw [kickoffKey, kickoffKey, hs.graphId]
  have hf : finalizeKey b = finalizeKey a := by rw [finalizeKey, finalizeKey, hs.graphId]
  have htask : ∀ t ∈ b.tasks, ∃ s ∈ a.tasks, runKey b t = runKey a s ∧
      taskEvent t = taskEvent s ∧ t.dependsOn = s.dependsOn := by
    intro t ht
    obtain ⟨s, hsm, hid, hd⟩ := hs.task ht
    refine ⟨s, hsm, ?_, ?_, hd.symm⟩
    · rw [runKey, runKey, hs.graphId, hid]
    · rw [taskEvent, taskEvent, hid, hd]
  refine ⟨hk ▸ h.kickoff, hk ▸ h.kickoffOn, ?_, ?_, ?_, ?_, hf ▸ h.finalize, ?_⟩
  · intro t ht
    obtain ⟨s, hsm, hr, -, -⟩ := htask t ht
    exact hr ▸ h.run s hsm
  · intro t ht
    obtain ⟨s, hsm, hr, he, -⟩ := htask t ht
    exact hr ▸ he ▸ h.runOn s hsm
  · intro t ht hl
    obtain ⟨s, hsm, -, -, hd⟩ := htask t ht
    rw [hd] at hl ⊢
    exact h.gate s hsm hl
  · intro t ht hl
    obtain ⟨s, hsm, -, -, hd⟩ := htask t ht
    rw [hd] at hl ⊢
    exact h.gateOn s hsm hl
  · rw [hf, ← hs.graphId]
    exact h.finalizeOn

theorem sameSignature_shape {as bs : List TaskDAGNode}
    (h : sameSignature (as.map fun task =>
        { id := task.id, kind := task.kind, dependsOn := task.dependsOn
          binding := bindingName task.binding, approval := task.approval
          fallback := task.fallback })
      (bs.map fun task =>
        { id := task.id, kind := task.kind, dependsOn := task.dependsOn
          binding := bindingName task.binding, approval := task.approval
          fallback := task.fallback }) = true) :
    as.map (fun t => (t.id, t.dependsOn)) = bs.map fun t => (t.id, t.dependsOn) := by
  induction as generalizing bs with
  | nil =>
    cases bs with
    | nil => rfl
    | cons b bs => cases h
  | cons a as ih =>
    cases bs with
    | nil => cases h
    | cons b bs =>
      simp only [List.map_cons, sameSignature, Bool.and_eq_true, sameEntry,
        decide_eq_true_eq] at h
      obtain ⟨⟨⟨⟨⟨⟨hid, -⟩, hd⟩, -⟩, -⟩, -⟩, hrest⟩ := h
      rw [List.map_cons, List.map_cons, ih hrest, hid, hd]

inductive GivenClosure (v : Validation) (r : TaskDAGResolver) : HandlerKey → Closure → Prop where
  | kickoff : GivenClosure v r (kickoffKey v.graph) (.kickoff v.graph v.rootTaskIds)
  | runTask (task : TaskDAGNode) (mem : task ∈ v.graph.tasks) :
      GivenClosure v r (runKey v.graph task) (.runTask v.graph task r)
  | finalize : GivenClosure v r (finalizeKey v.graph) (.finalize v.graph)

inductive GivenHandler (v : Validation) : FlowEvent → HandlerId → Prop where
  | kickoff : GivenHandler v .start (.chunk (kickoffKey v.graph))
  | runTask (task : TaskDAGNode) (mem : task ∈ v.graph.tasks) :
      GivenHandler v (taskEvent task) (.chunk (runKey v.graph task))
  | gate (task : TaskDAGNode) (mem : task ∈ v.graph.tasks) (d : String)
      (dep : d ∈ task.dependsOn) (several : 2 ≤ task.dependsOn.length) :
      GivenHandler v (.doneTask d) (.gate (gateOf task.dependsOn))
  | finalize : GivenHandler v (.doneGraph v.graph.graphId) (.chunk (finalizeKey v.graph))

structure Holds (v : Validation) (r : TaskDAGResolver) (f : TaskFlow) : Prop where
  closures : ∀ k c, Dict.get? f.closures k = some c → GivenClosure v r k c
  registered : ∀ p ∈ f.registered, GivenHandler v p.1 p.2
  gates : ∀ s l, Dict.get? f.gates s = some l → ∃ task ∈ v.graph.tasks,
    2 ≤ task.dependsOn.length ∧ s = gateOf task.dependsOn ∧ l = listenSignals task.dependsOn

section Holds

variable {v : Validation} {r : TaskDAGResolver} {f : TaskFlow}

theorem holds_of_empty (hc : f.closures = []) (hr : f.registered = []) (hg : f.gates = []) :
    Holds v r f := by
  refine ⟨?_, ?_, ?_⟩
  · simp [hc]
  · simp [hr]
  · simp [hg]

theorem Holds.cachedHandler (h : Holds v r f) {key : HandlerKey} {c : Closure}
    (hc : GivenClosure v r key c) : Holds v r (f.cachedHandler key c) := by
  unfold TaskFlow.cachedHandler
  cases hk : Dict.get? f.closures key with
  | some d => exact h
  | none =>
    refine ⟨fun k d hd => ?_, h.registered, h.gates⟩
    simp only at hd
    by_cases he : key = k
    · subst he
      rw [Dict.get?_set_self] at hd
      exact Option.some.inj hd ▸ hc
    · rw [Dict.get?_set_of_ne _ _ he] at hd
      exact h.closures k d hd

theorem Holds.addHandler (h : Holds v r f) {event : FlowEvent} {id : HandlerId}
    (hg : GivenHandler v event id) : Holds v r (f.addHandler event id) := by
  refine ⟨by rw [addHandler_closures]; exact h.closures, ?_, by rw [addHandler_gates]; exact h.gates⟩
  intro p hp
  rcases (mem_addHandler f event id p).mp hp with hp | rfl
  · exact h.registered p hp
  · exact hg

theorem Holds.addHandlers (h : Holds v r f) {id : HandlerId} {events : List FlowEvent}
    (hg : ∀ e ∈ events, GivenHandler v e id) : Holds v r (f.addHandlers id events) := by
  induction events generalizing f with
  | nil => exact h
  | cons e rest ih =>
    exact ih (h.addHandler (hg e List.mem_cons_self)) fun e' he' => hg e' (List.mem_cons_of_mem e he')

theorem mem_listenSignals {deps : List String} {d : String} :
    d ∈ listenSignals deps ↔ d ∈ deps := List.mem_eraseDups

theorem Holds.addGate (h : Holds v r f) {task : TaskDAGNode} (ht : task ∈ v.graph.tasks)
    (hl : 2 ≤ task.dependsOn.length) : Holds v r (leftFlow (f.addGate task.dependsOn)) := by
  have hadd : Holds v r (f.addHandlers (.gate (gateOf task.dependsOn))
      ((listenSignals task.dependsOn).map .doneTask)) := by
    refine h.addHandlers fun e he => ?_
    obtain ⟨d, hd, rfl⟩ := List.mem_map.mp he
    exact .gate task ht d (mem_listenSignals.mp hd) hl
  rcases addGate_cases f task.dependsOn with ⟨-, he⟩ | ⟨-, he⟩ | ⟨l, -, -, he⟩
  · rw [he]
    refine ⟨hadd.closures, hadd.registered, fun s l hs => ?_⟩
    simp only [leftFlow] at hs
    by_cases hk : gateOf task.dependsOn = s
    · rw [hk, Dict.get?_set_self] at hs
      exact ⟨task, ht, hl, hk.symm, (Option.some.inj hs).symm⟩
    · rw [Dict.get?_set_of_ne _ _ hk] at hs
      exact h.gates s l hs
  · rw [he]
    exact hadd
  · rw [he]
    exact hadd

theorem Holds.taskTrigger (h : Holds v r f) {task : TaskDAGNode} (ht : task ∈ v.graph.tasks) :
    Holds v r (leftFlow (f.taskTrigger task)) := by
  unfold TaskFlow.taskTrigger
  split
  · exact h
  · exact h.addGate ht (by omega)

theorem Holds.compileTask (h : Holds v r f) {task : TaskDAGNode} (ht : task ∈ v.graph.tasks) :
    Holds v r (leftFlow (f.compileTask v.graph r task)) := by
  have hc := (h.cachedHandler (.runTask task ht)).taskTrigger ht
  unfold TaskFlow.compileTask
  cases he : (f.cachedHandler (runKey v.graph task) (.runTask v.graph task r)).taskTrigger task with
  | error e =>
    rw [he] at hc
    exact hc
  | ok g =>
    rw [he] at hc
    exact hc.addHandler (.runTask task ht)

theorem Holds.compileTask_ok (h : Holds v r f) (hg : GatesAgree v.graph) {task : TaskDAGNode}
    (ht : task ∈ v.graph.tasks) : ∃ g, f.compileTask v.graph r task = .ok g := by
  have hc := h.cachedHandler (.runTask task ht)
  unfold TaskFlow.compileTask
  cases he : (f.cachedHandler (runKey v.graph task) (.runTask v.graph task r)).taskTrigger task with
  | ok g => exact ⟨_, rfl⟩
  | error e =>
    unfold TaskFlow.taskTrigger at he
    split at he
    · cases he
    · next hl =>
      rcases addGate_cases (f.cachedHandler (runKey v.graph task) (.runTask v.graph task r))
          task.dependsOn with ⟨-, ha⟩ | ⟨-, ha⟩ | ⟨l, hs, hne, -⟩
      · rw [ha] at he
        cases he
      · rw [ha] at he
        cases he
      · obtain ⟨t, htm, htl, hst, rfl⟩ := hc.gates _ _ hs
        exact absurd (hg t htm task ht htl (by omega) hst.symm) hne

theorem Holds.compileTasks (h : Holds v r f) (hg : GatesAgree v.graph) {tasks : List TaskDAGNode}
    (ht : ∀ task ∈ tasks, task ∈ v.graph.tasks) :
    ∃ g, f.compileTasks v.graph r tasks = .ok g ∧ Holds v r g := by
  induction tasks generalizing f with
  | nil => exact ⟨f, rfl, h⟩
  | cons task rest ih =>
    have hm := ht task List.mem_cons_self
    obtain ⟨g, hgk⟩ := h.compileTask_ok hg hm
    have hgh := h.compileTask hm
    rw [hgk] at hgh
    rw [TaskFlow.compileTasks, hgk]
    exact ih hgh fun t htr => ht t (List.mem_cons_of_mem task htr)

theorem compileGraph_fresh (hg : GatesAgree v.graph) :
    ∃ g, TaskFlow.fresh.compileGraph v r = .ok g ∧ Holds v r g ∧ Complete g v.graph := by
  have hk : Holds v r (TaskFlow.fresh.compileKickoff v) := by
    have h₀ : Holds v r (TaskFlow.fresh.noteSignature v.graph) := holds_of_empty rfl rfl rfl
    exact (h₀.cachedHandler .kickoff).addHandler .kickoff
  obtain ⟨g, hgt, hgh⟩ := hk.compileTasks hg fun _ h => h
  have hgraph : TaskFlow.fresh.compileGraph v r = .ok (g.compileFinalize v.graph) := by
    unfold TaskFlow.compileGraph
    rw [if_neg (by simp [TaskFlow.allows, TaskFlow.fresh]), hgt]
  exact ⟨_, hgraph, (hgh.cachedHandler .finalize).addHandler .finalize, compileGraph_complete hgraph⟩

end Holds

section Runs

variable {isCallable : Value → Bool} {call : Value → TaskDAGNode → Value}
  {v : Validation} {r : TaskDAGResolver} {f : TaskFlow}

theorem mem_listeners {event : FlowEvent} {b : Behaviour} :
    b ∈ f.listeners isCallable call event ↔
      ∃ id, (event, id) ∈ f.registered ∧ f.behaviour isCallable call id = some b := by
  unfold TaskFlow.listeners
  rw [List.mem_filterMap]
  constructor
  · rintro ⟨⟨e, id⟩, hp, hb⟩
    obtain ⟨hm, he⟩ := List.mem_filter.mp hp
    have he' : e = event := by simpa using he
    exact ⟨id, he' ▸ hm, hb⟩
  · rintro ⟨id, hm, hb⟩
    exact ⟨(event, id), List.mem_filter.mpr ⟨hm, by simp⟩, hb⟩

theorem runKey_inj {graph : TaskDAG} (hn : graph.ids.Nodup) {a b : TaskDAGNode}
    (ha : a ∈ graph.tasks) (hb : b ∈ graph.tasks) (h : runKey graph a = runKey graph b) : a = b := by
  have hid : a.id = b.id := congrArg HandlerKey.taskId h
  exact List.inj_on_of_nodup_map hn ha hb hid

theorem Holds.closure_kickoff (h : Holds v r f) {c : Closure}
    (hc : Dict.get? f.closures (kickoffKey v.graph) = some c) :
    c = .kickoff v.graph v.rootTaskIds := by
  have hg := h.closures _ _ hc
  generalize hk : kickoffKey v.graph = k at hg
  cases hg with
  | kickoff => rfl
  | runTask task mem => cases hk
  | finalize => cases hk

theorem Holds.closure_finalize (h : Holds v r f) {c : Closure}
    (hc : Dict.get? f.closures (finalizeKey v.graph) = some c) : c = .finalize v.graph := by
  have hg := h.closures _ _ hc
  generalize hk : finalizeKey v.graph = k at hg
  cases hg with
  | kickoff => cases hk
  | runTask task mem => cases hk
  | finalize => rfl

theorem Holds.closure_run (h : Holds v r f) (hn : v.graph.ids.Nodup) {task : TaskDAGNode}
    (ht : task ∈ v.graph.tasks) {c : Closure}
    (hc : Dict.get? f.closures (runKey v.graph task) = some c) : c = .runTask v.graph task r := by
  have hg := h.closures _ _ hc
  generalize hk : runKey v.graph task = k at hg
  cases hg with
  | kickoff => cases hk
  | runTask other mem => rw [runKey_inj hn ht mem hk]
  | finalize => cases hk

theorem runsAsGiven_of_holds (h : Holds v r f) (hc : Complete f v.graph)
    (hn : v.graph.ids.Nodup) : RunsAsGiven isCallable call f v r := by
  intro event b
  rw [mem_listeners]
  constructor
  · rintro ⟨id, hm, hb⟩
    have hg := h.registered _ hm
    simp only at hg
    cases hg with
    | kickoff =>
      obtain ⟨c, hcl, rfl⟩ := Option.map_eq_some_iff.mp hb
      rw [h.closure_kickoff hcl]
      exact .kickoff
    | runTask task mem =>
      obtain ⟨c, hcl, rfl⟩ := Option.map_eq_some_iff.mp hb
      rw [h.closure_run hn mem hcl]
      exact .runTask task mem
    | gate task mem d dep several =>
      cases hb
      exact .gate task mem d dep several
    | finalize =>
      obtain ⟨c, hcl, rfl⟩ := Option.map_eq_some_iff.mp hb
      rw [h.closure_finalize hcl]
      exact .finalize
  · intro hg
    cases hg with
    | kickoff =>
      obtain ⟨c, hcl⟩ := Option.isSome_iff_exists.mp hc.kickoff
      refine ⟨_, hc.kickoffOn, ?_⟩
      rw [TaskFlow.behaviour, hcl, h.closure_kickoff hcl]
      rfl
    | runTask task mem =>
      obtain ⟨c, hcl⟩ := Option.isSome_iff_exists.mp (hc.run task mem)
      refine ⟨_, hc.runOn task mem, ?_⟩
      rw [TaskFlow.behaviour, hcl, h.closure_run hn mem hcl]
      rfl
    | gate task mem d dep several =>
      exact ⟨_, hc.gateOn task mem several d (mem_listenSignals.mpr dep), rfl⟩
    | finalize =>
      obtain ⟨c, hcl⟩ := Option.isSome_iff_exists.mp hc.finalize
      refine ⟨_, hc.finalizeOn, ?_⟩
      rw [TaskFlow.behaviour, hcl, h.closure_finalize hcl]
      rfl

def SameHandlers (isCallable : Value → Bool) (call : Value → TaskDAGNode → Value)
    (graph : TaskDAG) (r s : TaskDAGResolver) : Prop :=
  ∀ task ∈ graph.tasks, handlerOf isCallable call r task = handlerOf isCallable call s task

theorem given_congr {w : Validation} {s : TaskDAGResolver} (hg : w.graph = v.graph)
    (hr : w.rootTaskIds = v.rootTaskIds) (hs : SameHandlers isCallable call v.graph s r)
    {event : FlowEvent} {b : Behaviour} (h : Given isCallable call w s event b) :
    Given isCallable call v r event b := by
  cases h with
  | kickoff =>
    rw [hg, hr]
    exact .kickoff
  | runTask task mem =>
    rw [hg] at mem
    rw [hg, hs task mem]
    exact .runTask task mem
  | gate task mem d dep several =>
    rw [hg] at mem
    exact .gate task mem d dep several
  | finalize =>
    rw [hg]
    exact .finalize

end Runs

abbrev Entry := Validation × TaskDAGResolver

def flowAfter : TaskFlow → List Entry → TaskFlow
  | f, [] => f
  | f, p :: rest => flowAfter (leftFlow (f.compileGraph p.1 p.2)) rest

theorem flowAfter_grows (f : TaskFlow) (entries : List Entry) : Grows f (flowAfter f entries) := by
  induction entries generalizing f with
  | nil => exact Grows.refl f
  | cons p rest ih => exact (compileGraph_grows f p.1 p.2).trans (ih _)

theorem cachedHandler_signatures (f : TaskFlow) (key : HandlerKey) (c : Closure) :
    (f.cachedHandler key c).signatures = f.signatures := by
  unfold TaskFlow.cachedHandler
  cases Dict.get? f.closures key with
  | some _ => rfl
  | none => rfl

theorem addGate_frame (f : TaskFlow) (deps : List String) :
    (leftFlow (f.addGate deps)).closures = f.closures ∧
      (leftFlow (f.addGate deps)).signatures = f.signatures := by
  rcases addGate_cases f deps with ⟨-, he⟩ | ⟨-, he⟩ | ⟨l, -, -, he⟩
  · rw [he]
    exact ⟨addHandlers_closures f _ _, addHandlers_signatures f _ _⟩
  · rw [he]
    exact ⟨addHandlers_closures f _ _, addHandlers_signatures f _ _⟩
  · rw [he]
    exact ⟨addHandlers_closures f _ _, addHandlers_signatures f _ _⟩

theorem compileTask_frame (f : TaskFlow) (graph : TaskDAG) (r : TaskDAGResolver)
    (task : TaskDAGNode) (hk : k.phase ≠ .run) :
    Dict.get? (leftFlow (f.compileTask graph r task)).closures k = Dict.get? f.closures k ∧
      (leftFlow (f.compileTask graph r task)).signatures = f.signatures := by
  have hne : runKey graph task ≠ k := fun e => hk (e ▸ rfl)
  have hc := get?_cachedHandler_of_ne f (.runTask graph task r) hne
  have hs := cachedHandler_signatures f (runKey graph task) (.runTask graph task r)
  unfold TaskFlow.compileTask
  generalize f.cachedHandler (runKey graph task) (.runTask graph task r) = g at hc hs ⊢
  have ht : (leftFlow (g.taskTrigger task)).closures = g.closures ∧
      (leftFlow (g.taskTrigger task)).signatures = g.signatures := by
    unfold TaskFlow.taskTrigger
    split
    · exact ⟨rfl, rfl⟩
    · exact addGate_frame g task.dependsOn
  cases he : g.taskTrigger task with
  | error e =>
    rw [he] at ht
    exact ⟨by rw [← hc, ← ht.1], by rw [← hs, ← ht.2]⟩
  | ok k' =>
    rw [he] at ht
    simp only [leftFlow] at ht ⊢
    rw [addHandler_closures, addHandler_signatures, ht.1, ht.2]
    exact ⟨hc, hs⟩

theorem compileTasks_frame (graph : TaskDAG) (r : TaskDAGResolver) (tasks : List TaskDAGNode)
    (f : TaskFlow) (hk : k.phase ≠ .run) :
    Dict.get? (leftFlow (f.compileTasks graph r tasks)).closures k = Dict.get? f.closures k ∧
      (leftFlow (f.compileTasks graph r tasks)).signatures = f.signatures := by
  induction tasks generalizing f with
  | nil => exact ⟨rfl, rfl⟩
  | cons task rest ih =>
    have ht := compileTask_frame f graph r task hk
    rw [TaskFlow.compileTasks]
    cases he : f.compileTask graph r task with
    | error e =>
      rw [he] at ht
      exact ht
    | ok g =>
      rw [he] at ht
      obtain ⟨hc, hs⟩ := ih g
      exact ⟨hc.trans ht.1, hs.trans ht.2⟩

theorem compileGraph_signatures (f : TaskFlow) (v : Validation) (r : TaskDAGResolver) :
    if f.allows v.graph = true then
      (leftFlow (f.compileGraph v r)).signatures =
        Dict.set f.signatures v.graph.graphId (graphSignature v.graph)
    else leftFlow (f.compileGraph v r) = f := by
  by_cases ha : f.allows v.graph = true
  · have hnf : ¬ f.allows v.graph = false := by simp [ha]
    have hk : (f.compileKickoff v).signatures =
        Dict.set f.signatures v.graph.graphId (graphSignature v.graph) := by
      rw [TaskFlow.compileKickoff, addHandler_signatures, cachedHandler_signatures]
      rfl
    have hs := (compileTasks_frame v.graph r v.graph.tasks (f.compileKickoff v)
      (k := kickoffKey v.graph) (by simp [kickoffKey])).2
    rw [if_pos ha]
    unfold TaskFlow.compileGraph
    rw [if_neg hnf]
    cases he : (f.compileKickoff v).compileTasks v.graph r v.graph.tasks with
    | error e =>
      rw [he] at hs
      exact hs.trans hk
    | ok g =>
      rw [he] at hs
      simp only [leftFlow, TaskFlow.compileFinalize, addHandler_signatures,
        cachedHandler_signatures]
      exact hs.trans hk
  · have hf : f.allows v.graph = false := by simpa using ha
    rw [if_neg ha]
    unfold TaskFlow.compileGraph
    rw [if_pos hf]
    rfl

structure KicksOff (f : TaskFlow) : Prop where
  kickoffs : ∀ id c, Dict.get? f.closures ⟨id, .kickoff, "*"⟩ = some c →
    ∃ graph roots, c = .kickoff graph roots ∧ graph.graphId = id
  signed : ∀ id s, Dict.get? f.signatures id = some s →
    (Dict.get? f.closures ⟨id, .kickoff, "*"⟩).isSome ∧
      (.start, .chunk ⟨id, .kickoff, "*"⟩) ∈ f.registered

theorem kicksOff_fresh : KicksOff TaskFlow.fresh := by
  refine ⟨?_, ?_⟩
  · intro id c h
    cases h
  · intro id s h
    cases h

theorem KicksOff.compileGraph (h : KicksOff f) (v : Validation)
    (r : TaskDAGResolver) : KicksOff (leftFlow (f.compileGraph v r)) := by
  have hsig := compileGraph_signatures f v r
  have hgrow := compileGraph_grows f v r
  by_cases ha : f.allows v.graph = true
  · rw [if_pos ha] at hsig
    have hnf : ¬ f.allows v.graph = false := by simp [ha]
    have hkg : Grows (f.compileKickoff v) (leftFlow (f.compileGraph v r)) ∧
        ∀ k : HandlerKey, k.phase = .kickoff →
          Dict.get? (leftFlow (f.compileGraph v r)).closures k =
            Dict.get? (f.compileKickoff v).closures k := by
      have htg := compileTasks_grows v.graph r v.graph.tasks (f.compileKickoff v)
      have htf := fun k hk => (compileTasks_frame v.graph r v.graph.tasks (f.compileKickoff v)
        (k := k) hk).1
      unfold TaskFlow.compileGraph
      rw [if_neg hnf]
      cases he : (f.compileKickoff v).compileTasks v.graph r v.graph.tasks with
      | error e =>
        rw [he] at htg htf
        exact ⟨htg, fun k hk => htf k (by simp [hk])⟩
      | ok g =>
        rw [he] at htg htf
        refine ⟨htg.trans ((cachedHandler_grows _ _ _).trans (addHandler_grows _ _ _)), ?_⟩
        intro k hk
        simp only [leftFlow, TaskFlow.compileFinalize, addHandler_closures]
        have hne : finalizeKey v.graph ≠ k := by
          rintro rfl
          cases hk
        rw [get?_cachedHandler_of_ne _ _ hne]
        exact htf k (by simp [hk])
    obtain ⟨hkgrow, hkframe⟩ := hkg
    have hkick : ∀ k : HandlerKey, Dict.get? (f.compileKickoff v).closures k =
        if kickoffKey v.graph = k then
          some ((Dict.get? f.closures k).getD (.kickoff v.graph v.rootTaskIds))
        else Dict.get? f.closures k := by
      intro k
      rw [TaskFlow.compileKickoff, addHandler_closures]
      by_cases hk : kickoffKey v.graph = k
      · rw [if_pos hk, ← hk, get?_cachedHandler]
        rfl
      · rw [if_neg hk, get?_cachedHandler_of_ne _ _ hk]
        rfl
    refine ⟨?_, ?_⟩
    · intro id c hc
      rw [hkframe _ rfl, hkick] at hc
      by_cases hk : kickoffKey v.graph = ⟨id, .kickoff, "*"⟩
      · rw [if_pos hk] at hc
        have hid : v.graph.graphId = id := congrArg HandlerKey.graphId hk
        cases hold : Dict.get? f.closures ⟨id, .kickoff, "*"⟩ with
        | none =>
          rw [hold] at hc
          exact ⟨v.graph, v.rootTaskIds, (Option.some.inj hc).symm, hid⟩
        | some d =>
          rw [hold] at hc
          exact h.kickoffs id c (hold.trans hc)
      · rw [if_neg hk] at hc
        exact h.kickoffs id c hc
    · intro id s hs
      rw [hsig] at hs
      by_cases hid : v.graph.graphId = id
      · subst hid
        refine ⟨?_, hkgrow.registered _ ((mem_addHandler _ _ _ _).mpr (.inr rfl))⟩
        rw [hkframe _ rfl, hkick]
        simp [kickoffKey]
      · rw [Dict.get?_set_of_ne _ _ hid] at hs
        obtain ⟨hc, hr⟩ := h.signed id s hs
        exact ⟨isSome_grows (hgrow.closures _) hc, hgrow.registered _ hr⟩
  · rw [if_neg ha] at hsig
    rwa [hsig]

theorem KicksOff.after (h : KicksOff f) (entries : List Entry) :
    KicksOff (flowAfter f entries) := by
  induction entries generalizing f with
  | nil => exact h
  | cons p rest ih => exact ih (h.compileGraph p.1 p.2)

theorem signed_compileGraph (f : TaskFlow) (v : Validation) (r : TaskDAGResolver) (id : String)
    (h : v.graph.graphId = id ∨ (Dict.get? f.signatures id).isSome) :
    (Dict.get? (leftFlow (f.compileGraph v r)).signatures id).isSome := by
  have hsig := compileGraph_signatures f v r
  by_cases ha : f.allows v.graph = true
  · rw [if_pos ha] at hsig
    rw [hsig]
    by_cases hid : v.graph.graphId = id
    · rw [hid, Dict.get?_set_self]
      rfl
    · rw [Dict.get?_set_of_ne _ _ hid]
      exact h.resolve_left hid
  · rw [if_neg ha] at hsig
    rw [hsig]
    rcases h with rfl | h
    · unfold TaskFlow.allows at ha
      cases hs : Dict.get? f.signatures v.graph.graphId with
      | none => simp [hs] at ha
      | some s => rfl
    · exact h

theorem signed_after (f : TaskFlow) (entries : List Entry) (id : String)
    (h : (∃ p ∈ entries, p.1.graph.graphId = id) ∨ (Dict.get? f.signatures id).isSome) :
    (Dict.get? (flowAfter f entries).signatures id).isSome := by
  induction entries generalizing f with
  | nil =>
    rcases h with ⟨p, hp, -⟩ | h
    · cases hp
    · exact h
  | cons p rest ih =>
    refine ih _ ?_
    rcases h with ⟨q, hq, hid⟩ | h
    · rcases List.mem_cons.mp hq with rfl | hq
      · exact .inr (signed_compileGraph f q.1 q.2 id (.inl hid))
      · exact .inl ⟨q, hq, hid⟩
    · exact .inr (signed_compileGraph f p.1 p.2 id (.inr h))

section Agreement

variable (isCallable : Value → Bool) (call : Value → TaskDAGNode → Value)

structure EntryOk (p : Entry) : Prop where
  ids_nodup : p.1.graph.ids.Nodup
  roots : p.1.rootTaskIds = p.1.graph.roots

/-- All calls before gave a graph of this id, and the first of them gave this graph and a
resolver with the same handlers. -/
structure Agreed (entries : List Entry) (p : Entry) : Prop where
  graphIds : ∀ q ∈ entries, q.1.graph.graphId = p.1.graph.graphId
  first : ∀ q, entries.head? = some q →
    q.1.graph = p.1.graph ∧ SameHandlers isCallable call p.1.graph q.2 p.2

variable {isCallable call}

/-- The flow has the first call's graph, and knows it by a signature of its shape. -/
structure Kept (v : Validation) (r : TaskDAGResolver) (f : TaskFlow) : Prop where
  holds : Holds v r f
  complete : Complete f v.graph
  signed : ∃ g, Dict.get? f.signatures v.graph.graphId = some (graphSignature g) ∧
    SameShape v.graph g

variable {v : Validation} {r : TaskDAGResolver} {f : TaskFlow}

theorem Kept.compileGraph {w : Validation} {s : TaskDAGResolver}
    (h : Kept v r f) (hid : w.graph.graphId = v.graph.graphId) :
    Kept v r (leftFlow (f.compileGraph w s)) := by
  by_cases ha : f.allows w.graph = true
  · obtain ⟨g, hg, hs⟩ := h.signed
    have hsame : sameSignature (graphSignature g) (graphSignature w.graph) = true := by
      simpa [TaskFlow.allows, hid, hg] using ha
    have hshape : SameShape v.graph w.graph :=
      ⟨hid.symm, hs.tasks.trans (sameSignature_shape hsame)⟩
    rw [compileGraph_of_complete s ha (h.complete.of_shape hshape)]
    refine ⟨⟨h.holds.closures, h.holds.registered, h.holds.gates⟩, h.complete.note w.graph,
      w.graph, ?_, hshape⟩
    simp only [leftFlow, TaskFlow.noteSignature, ← hid]
    exact Dict.get?_set_self _ _ _
  · have hsig := compileGraph_signatures f w s
    rw [if_neg ha] at hsig
    rwa [hsig]

theorem Kept.after (h : Kept v r f)
    (entries : List Entry) (hid : ∀ q ∈ entries, q.1.graph.graphId = v.graph.graphId) :
    Kept v r (flowAfter f entries) := by
  induction entries generalizing f with
  | nil => exact h
  | cons q rest ih =>
    exact ih (h.compileGraph (hid q List.mem_cons_self)) fun p hp =>
      hid p (List.mem_cons_of_mem q hp)

theorem kept_fresh (r : TaskDAGResolver) (hg : GatesAgree v.graph) :
    Kept v r (leftFlow (TaskFlow.fresh.compileGraph v r)) := by
  obtain ⟨f, hf, hh, hc⟩ := compileGraph_fresh (v := v) (r := r) hg
  have hsig := compileGraph_signatures TaskFlow.fresh v r
  rw [if_pos (by rfl)] at hsig
  rw [hf] at hsig ⊢
  refine ⟨hh, hc, v.graph, ?_, rfl, rfl⟩
  rw [hsig]
  exact Dict.get?_set_self _ _ _

variable {entries : List Entry}

theorem runs_of_agreed {p : Entry} (hp : EntryOk p) (hok : ∀ q ∈ entries, EntryOk q)
    (ha : (flowAfter TaskFlow.fresh entries).allows p.1.graph = true) (hg : GatesAgree p.1.graph)
    (h : Agreed isCallable call entries p) :
    ∃ f, (flowAfter TaskFlow.fresh entries).compileGraph p.1 p.2 = .ok f ∧
      RunsAsGiven isCallable call f p.1 p.2 := by
  cases entries with
  | nil =>
    obtain ⟨f, hf, hh, hc⟩ := compileGraph_fresh (v := p.1) (r := p.2) hg
    exact ⟨f, hf, runsAsGiven_of_holds hh hc hp.ids_nodup⟩
  | cons q rest =>
    obtain ⟨hgraph, hsame⟩ := h.first q rfl
    have hq := hok q List.mem_cons_self
    have hids : ∀ q' ∈ rest, q'.1.graph.graphId = q.1.graph.graphId := by
      intro q' hq'
      rw [h.graphIds q' (List.mem_cons_of_mem q hq'), hgraph]
    have hk := (kept_fresh q.2 (hgraph ▸ hg)).after rest hids
    have hc : Complete (flowAfter TaskFlow.fresh (q :: rest)) p.1.graph := hgraph ▸ hk.complete
    have hn := hk.complete.note p.1.graph
    have hh : Holds q.1 q.2 ((flowAfter TaskFlow.fresh (q :: rest)).noteSignature p.1.graph) :=
      ⟨hk.holds.closures, hk.holds.registered, hk.holds.gates⟩
    have hruns : RunsAsGiven isCallable call _ q.1 q.2 := runsAsGiven_of_holds hh hn hq.ids_nodup
    have hroots : q.1.rootTaskIds = p.1.rootTaskIds := by rw [hq.roots, hp.roots, hgraph]
    have hsame' : SameHandlers isCallable call q.1.graph p.2 q.2 := by
      intro task ht
      rw [hgraph] at ht
      exact (hsame task ht).symm
    refine ⟨_, compileGraph_of_complete p.2 ha hc, fun event b => ?_⟩
    rw [hruns event b]
    exact ⟨given_congr hgraph hroots hsame, given_congr hgraph.symm hroots.symm hsame'⟩

variable {event : FlowEvent}

theorem Given.start {graph : TaskDAG} {roots : List String}
    (h : Given isCallable call v r event (.kickoff graph roots)) :
    graph = v.graph := by
  cases h
  rfl

theorem Given.handler {graph : TaskDAG} {task : TaskDAGNode} {run : Value → Value}
    (h : Given isCallable call v r event (.runTask graph task run)) :
    run = handlerOf isCallable call r task := by
  cases h
  rfl

theorem behaviour_of_grows {g : TaskFlow} (hg : Grows f g) {key : HandlerKey} {c : Closure}
    (hc : Dict.get? f.closures key = some c)
    (hm : (event, .chunk key) ∈ f.registered) :
    behaviourOf isCallable call c ∈ g.listeners isCallable call event := by
  refine mem_listeners.mpr ⟨_, hg.registered _ hm, ?_⟩
  rw [TaskFlow.behaviour, hg.closures _ _ hc]
  rfl

theorem agreed_of_runs {p : Entry} (hok : ∀ q ∈ entries, EntryOk q)
    (hf : (flowAfter TaskFlow.fresh entries).compileGraph p.1 p.2 = .ok f)
    (hr : RunsAsGiven isCallable call f p.1 p.2) :
    (flowAfter TaskFlow.fresh entries).allows p.1.graph = true ∧ GatesAgree p.1.graph ∧
      Agreed isCallable call entries p := by
  have hgates := (compileGraph_complete hf).gatesAgree
  have hgrow := compileGraph_grows (flowAfter TaskFlow.fresh entries) p.1 p.2
  rw [hf] at hgrow
  simp only [leftFlow] at hgrow
  refine ⟨?_, hgates, ?_, ?_⟩
  · unfold TaskFlow.compileGraph at hf
    split at hf
    · cases hf
    · next ha => simpa using ha
  · intro q hq
    have hs := signed_after TaskFlow.fresh entries q.1.graph.graphId (.inl ⟨q, hq, rfl⟩)
    obtain ⟨s, hs⟩ := Option.isSome_iff_exists.mp hs
    have hk := kicksOff_fresh.after entries
    obtain ⟨hc, hm⟩ := hk.signed _ s hs
    obtain ⟨c, hc⟩ := Option.isSome_iff_exists.mp hc
    obtain ⟨graph, roots, rfl, hid⟩ := hk.kickoffs _ c hc
    have hstart := (hr _ _).mp (behaviour_of_grows hgrow hc hm)
    rw [← hid, hstart.start]
  · intro q hq
    cases entries with
    | nil => cases hq
    | cons q' rest =>
      cases Option.some.inj hq
      have hrest := (flowAfter_grows (leftFlow (TaskFlow.fresh.compileGraph q.1 q.2)) rest).trans
        hgrow
      have hkick : Grows (TaskFlow.fresh.compileKickoff q.1)
          (leftFlow (TaskFlow.fresh.compileGraph q.1 q.2)) := by
        have ht := compileTasks_grows q.1.graph q.2 q.1.graph.tasks
          (TaskFlow.fresh.compileKickoff q.1)
        unfold TaskFlow.compileGraph
        rw [if_neg (by simp [TaskFlow.allows, TaskFlow.fresh])]
        cases he : (TaskFlow.fresh.compileKickoff q.1).compileTasks q.1.graph q.2
            q.1.graph.tasks with
        | error e =>
          rw [he] at ht
          exact ht
        | ok g =>
          rw [he] at ht
          exact ht.trans ((cachedHandler_grows _ _ _).trans (addHandler_grows _ _ _))
      have hc : Dict.get? (TaskFlow.fresh.compileKickoff q.1).closures (kickoffKey q.1.graph) =
          some (.kickoff q.1.graph q.1.rootTaskIds) := by
        rw [TaskFlow.compileKickoff, addHandler_closures, get?_cachedHandler]
        rfl
      have hstart := (hr _ _).mp (behaviour_of_grows (hkick.trans hrest) hc
        ((mem_addHandler _ _ _ _).mpr (.inr rfl)))
      have hgraph : q.1.graph = p.1.graph := hstart.start
      refine ⟨hgraph, fun task ht => ?_⟩
      obtain ⟨g, hg, hh, hcomp⟩ := compileGraph_fresh (v := q.1) (r := q.2) (hgraph ▸ hgates)
      rw [hg] at hrest
      rw [← hgraph] at ht
      obtain ⟨c, hcl⟩ := Option.isSome_iff_exists.mp (hcomp.run task ht)
      have hn := (hok q List.mem_cons_self).ids_nodup
      have hrun := (hr _ _).mp (behaviour_of_grows hrest hcl (hcomp.runOn task ht))
      rw [hh.closure_run hn ht hcl] at hrun
      exact hrun.handler

theorem flow_runs_iff {p : Entry} (hp : EntryOk p) (hok : ∀ q ∈ entries, EntryOk q) :
    (∃ f, (flowAfter TaskFlow.fresh entries).compileGraph p.1 p.2 = .ok f ∧
        RunsAsGiven isCallable call f p.1 p.2) ↔
      (flowAfter TaskFlow.fresh entries).allows p.1.graph = true ∧ GatesAgree p.1.graph ∧
        Agreed isCallable call entries p := by
  constructor
  · rintro ⟨f, hf, hr⟩
    exact agreed_of_runs hok hf hr
  · rintro ⟨ha, hg, h⟩
    exact runs_of_agreed hp hok ha hg h

end Agreement

section Executor

variable (isCallable : Value → Bool) (call : Value → TaskDAGNode → Value)
  (reprOf : Value → String) (nodeOf : Value → Option TaskDAGNode)
  (graphOf : Value → Option TaskDAG)

def accepted (calls : List Call) : List Entry :=
  calls.filterMap fun c => (c.validated isCallable call reprOf nodeOf graphOf).toOption

def reached (hasFlow : Bool) (calls : List Call) : List Entry :=
  if hasFlow then accepted isCallable call reprOf nodeOf graphOf calls
  else (accepted isCallable call reprOf nodeOf graphOf calls).dropWhile fun p =>
    !decide (GatesAgree p.1.graph)

def startHost (hasFlow : Bool) : Option TaskFlow := if hasFlow then some TaskFlow.fresh else none

variable {isCallable call reprOf nodeOf graphOf}

theorem validated_entryOk {c : Call} {p : Entry}
    (h : c.validated isCallable call reprOf nodeOf graphOf = .ok p) : EntryOk p := by
  have hone : ∀ {graph v r}, validateGraph isCallable call reprOf r graph = .ok v →
      EntryOk (v, r) := fun hv => ⟨(validateGraph_kept hv).1, (validateGraph_kept hv).2.1⟩
  unfold Call.validated at h
  split at h
  · cases h
  · split at h
    · cases h
    · split at h
      · cases h
      · next hv =>
        split at h
        · split at h
          · cases h
          · next hw =>
            cases h
            exact hone hw
        · cases h
          exact hone hv

theorem accepted_entryOk (calls : List Call) :
    ∀ q ∈ accepted isCallable call reprOf nodeOf graphOf calls, EntryOk q := by
  intro q hq
  obtain ⟨c, -, hc⟩ := List.mem_filterMap.mp hq
  cases hv : c.validated isCallable call reprOf nodeOf graphOf with
  | error e =>
    rw [hv] at hc
    cases hc
  | ok p =>
    rw [hv] at hc
    cases hc
    exact validated_entryOk hv

theorem reached_entryOk (hasFlow : Bool) (calls : List Call) :
    ∀ q ∈ reached isCallable call reprOf nodeOf graphOf hasFlow calls, EntryOk q := by
  intro q hq
  have hall : ∀ q ∈ accepted isCallable call reprOf nodeOf graphOf calls, EntryOk q :=
    accepted_entryOk calls
  unfold reached at hq
  split at hq
  · exact hall q hq
  · exact hall q ((List.dropWhile_sublist _).subset hq)

theorem callStep_flow {c : Call} {f : TaskFlow} :
    (callStep isCallable call reprOf nodeOf graphOf (some f) c).2 =
      some (flowAfter f (accepted isCallable call reprOf nodeOf graphOf [c])) := by
  unfold callStep accepted
  cases hv : c.validated isCallable call reprOf nodeOf graphOf with
  | error e => simp [hv, Except.toOption, flowAfter]
  | ok p =>
    simp only [Option.getD_some, List.filterMap_cons, hv, Except.toOption, List.filterMap_nil]
    cases hc : f.compileGraph p.1 p.2 with
    | error e => simp [flowAfter, hc, leftFlow]
    | ok g => simp [flowAfter, hc, leftFlow]

theorem flowAfter_append (f : TaskFlow) (as bs : List Entry) :
    flowAfter f (as ++ bs) = flowAfter (flowAfter f as) bs := by
  induction as generalizing f with
  | nil => rfl
  | cons a as ih => exact ih _

theorem accepted_cons (c : Call) (rest : List Call) :
    accepted isCallable call reprOf nodeOf graphOf (c :: rest) =
      accepted isCallable call reprOf nodeOf graphOf [c] ++
        accepted isCallable call reprOf nodeOf graphOf rest := by
  simp only [accepted, ← List.filterMap_append, List.singleton_append]

theorem runCalls_flow (f : TaskFlow) (calls : List Call) :
    runCalls isCallable call reprOf nodeOf graphOf (some f) calls =
      some (flowAfter f (accepted isCallable call reprOf nodeOf graphOf calls)) := by
  induction calls generalizing f with
  | nil => rfl
  | cons c rest ih => rw [runCalls, callStep_flow, ih, accepted_cons c rest, flowAfter_append]

theorem callStep_none {c : Call} {p : Entry}
    (h : c.validated isCallable call reprOf nodeOf graphOf = .ok p) :
    (callStep isCallable call reprOf nodeOf graphOf none c).2 =
      if GatesAgree p.1.graph then some (leftFlow (TaskFlow.fresh.compileGraph p.1 p.2))
      else none := by
  unfold callStep
  simp only [h, Option.getD_none]
  by_cases hg : GatesAgree p.1.graph
  · obtain ⟨f, hf, -, -⟩ := compileGraph_fresh (v := p.1) (r := p.2) hg
    simp [hf, hg, leftFlow]
  · rw [if_neg hg]
    cases hc : TaskFlow.fresh.compileGraph p.1 p.2 with
    | error e => rfl
    | ok f => exact absurd (compileGraph_complete hc).gatesAgree hg

theorem runCalls_none (calls : List Call) :
    runCalls isCallable call reprOf nodeOf graphOf none calls =
      match reached isCallable call reprOf nodeOf graphOf false calls with
      | [] => none
      | entries => some (flowAfter TaskFlow.fresh entries) := by
  induction calls with
  | nil => rfl
  | cons c rest ih =>
    rw [runCalls]
    unfold reached at ih ⊢
    simp only [Bool.false_eq_true, if_false] at ih ⊢
    cases hv : c.validated isCallable call reprOf nodeOf graphOf with
    | error e =>
      have hs : (callStep isCallable call reprOf nodeOf graphOf none c).2 = none := by
        simp [callStep, hv]
      have ha : accepted isCallable call reprOf nodeOf graphOf (c :: rest) =
          accepted isCallable call reprOf nodeOf graphOf rest := by
        simp [accepted, hv, Except.toOption]
      rw [hs, ha, ih]
    | ok p =>
      have ha : accepted isCallable call reprOf nodeOf graphOf (c :: rest) =
          p :: accepted isCallable call reprOf nodeOf graphOf rest := by
        simp [accepted, hv, Except.toOption]
      rw [callStep_none hv, ha]
      by_cases hg : GatesAgree p.1.graph
      · rw [if_pos hg, runCalls_flow, List.dropWhile_cons_of_neg (by simp [hg])]
        rfl
      · rw [if_neg hg, ih, List.dropWhile_cons_of_pos (by simp [hg])]

theorem host_flow (hasFlow : Bool) (calls : List Call) :
    (runCalls isCallable call reprOf nodeOf graphOf (startHost hasFlow) calls).getD TaskFlow.fresh =
      flowAfter TaskFlow.fresh (reached isCallable call reprOf nodeOf graphOf hasFlow calls) := by
  cases hasFlow with
  | true =>
    rw [startHost, if_pos rfl, runCalls_flow, reached, if_pos rfl]
    rfl
  | false =>
    rw [startHost, if_neg (by simp), runCalls_none]
    cases reached isCallable call reprOf nodeOf graphOf false calls with
    | nil => rfl
    | cons p rest => rfl

end Executor

/-- After any calls, a call runs its graph with its resolver exactly when it is valid, the signature
check lets it through, its gates agree, and every call that reached the flow before gave a graph of
its id, the first of them its graph and handlers. -/
theorem call_runs_its_graph_iff (isCallable : Value → Bool) (call : Value → TaskDAGNode → Value)
    (reprOf : Value → String) (nodeOf : Value → Option TaskDAGNode)
    (graphOf : Value → Option TaskDAG) (hasFlow : Bool) (calls : List Call) (c : Call) :
    (∃ v r f, c.validated isCallable call reprOf nodeOf graphOf = .ok (v, r) ∧
        callStep isCallable call reprOf nodeOf graphOf
          (runCalls isCallable call reprOf nodeOf graphOf (startHost hasFlow) calls) c =
            (.ok v, some f) ∧
        RunsAsGiven isCallable call f v r) ↔
      ∃ v r, c.validated isCallable call reprOf nodeOf graphOf = .ok (v, r) ∧
        ((runCalls isCallable call reprOf nodeOf graphOf (startHost hasFlow) calls).getD
          TaskFlow.fresh).allows v.graph = true ∧
        GatesAgree v.graph ∧
        Agreed isCallable call (reached isCallable call reprOf nodeOf graphOf hasFlow calls)
          (v, r) := by
  rw [host_flow]
  have hok : ∀ q ∈ reached isCallable call reprOf nodeOf graphOf hasFlow calls, EntryOk q :=
    reached_entryOk hasFlow calls
  constructor
  · rintro ⟨v, r, f, hv, hs, hr⟩
    have hf : (flowAfter TaskFlow.fresh
        (reached isCallable call reprOf nodeOf graphOf hasFlow calls)).compileGraph v r = .ok f := by
      unfold callStep at hs
      simp only [hv, host_flow] at hs
      split at hs
      · next g hg =>
        cases hs
        exact hg
      · cases hs
    obtain ⟨ha, hg, hagree⟩ := (flow_runs_iff (p := (v, r)) (validated_entryOk hv) hok).mp
      ⟨f, hf, hr⟩
    exact ⟨v, r, hv, ha, hg, hagree⟩
  · rintro ⟨v, r, hv, ha, hg, hagree⟩
    obtain ⟨f, hf, hr⟩ := (flow_runs_iff (p := (v, r)) (validated_entryOk hv) hok).mpr
      ⟨ha, hg, hagree⟩
    refine ⟨v, r, f, hv, ?_, hr⟩
    unfold callStep
    simp only [hv, host_flow, hf]

def emitGraph (n : Int) : Value :=
  .dict [("graph_id", .str "report"), ("tasks", .list [
    .dict [("id", .str "emit_number"), ("kind", .str "emit"), ("inputs", .int n)]])]

def emitCall (n : Int) : Call := executorCall defaultResolver (emitGraph n) .none "graph-1"

def emitEntry (n : Int) : Entry :=
  ({ graph := { graphId := "report"
                tasks := [{ id := "emit_number", kind := "emit", inputs := .int n }] }
     taskIds := ["emit_number"], rootTaskIds := ["emit_number"]
     topologicalTaskIds := ["emit_number"], diagnostics := [] }, defaultResolver)

theorem emitCall_validated {n : Int} (hn : n ∈ [(1 : Int), 2]) :
    (emitCall n).validated noCallables answerNone noText noNode noGraph = .ok (emitEntry n) := by
  have h : ∀ n ∈ [(1 : Int), 2],
      ((emitCall n).validated noCallables answerNone noText noNode noGraph).toOption =
        some (emitEntry n) := by decide +kernel
  have he := h n hn
  cases hv : (emitCall n).validated noCallables answerNone noText noNode noGraph with
  | error e =>
    rw [hv] at he
    cases he
  | ok p =>
    rw [hv] at he
    exact congrArg Except.ok (Option.some.inj he)

theorem second_call_runs_first_graph :
    ∃ f, callStep noCallables answerNone noText noNode noGraph
        (runCalls noCallables answerNone noText noNode noGraph none [emitCall 1]) (emitCall 2) =
          (.ok (emitEntry 2).1, some f) ∧
      ¬ RunsAsGiven noCallables answerNone f (emitEntry 2).1 (emitEntry 2).2 := by
  have h₁ := emitCall_validated (n := 1) (by simp)
  have h₂ := emitCall_validated (n := 2) (by simp)
  have hg : GatesAgree (emitEntry 1).1.graph := by decide
  have hrun : runCalls noCallables answerNone noText noNode noGraph none [emitCall 1] =
      some (flowAfter TaskFlow.fresh [emitEntry 1]) := by
    rw [runCalls, callStep_none h₁, if_pos hg]
    rfl
  have hallow : (flowAfter TaskFlow.fresh [emitEntry 1]).allows (emitEntry 2).1.graph = true := by
    decide +kernel
  have hkept := kept_fresh (emitEntry 1).2 hg
  have hc : Complete (flowAfter TaskFlow.fresh [emitEntry 1]) (emitEntry 2).1.graph :=
    hkept.complete.of_shape ⟨rfl, rfl⟩
  have hcompile := compileGraph_of_complete (emitEntry 2).2 hallow hc
  refine ⟨(flowAfter TaskFlow.fresh [emitEntry 1]).noteSignature (emitEntry 2).1.graph, ?_, ?_⟩
  · rw [hrun, callStep]
    simp only [h₂, Option.getD_some, hcompile]
  · intro hruns
    have hok : ∀ q ∈ [emitEntry 1], EntryOk q := by
      intro q hq
      rw [List.mem_singleton.mp hq]
      exact validated_entryOk h₁
    obtain ⟨-, -, hagree⟩ := agreed_of_runs hok hcompile hruns
    have hgraph := (hagree.first _ rfl).1
    exact absurd hgraph (by decide)

end Agently.TaskDAGCompile
