import Mathlib
import Agently.Lib.Outcome
import Agently.TriggerFlow.SnapshotLoad

/-! # What a load that raises leaves

`load` checks some parts of a snapshot before it assigns anything and converts the others as it
goes. -/

namespace Agently.TriggerFlow.Persistence

open Agently.Lib Agently.Lib.Outcome Agently.Utils Agently.Utils.Json

structure Observed where
  executions : Dict String Nat
  runtimeData : Data
  flowData : Data
  interrupts : Json
  interventionMode : Json
  interventionPolicyName : Option String
  interventionsVersion : Int
  interventions : Json
  dynamicBindings : Bindings
  status : String
  lifecycleState : String
  stateVersion : Int

def Execution.observed (e : Execution) : Observed :=
  { executions := e.triggerFlow.executions
    runtimeData := e.runtimeData
    flowData := e.triggerFlow.flowData
    interrupts := e.interrupts
    interventionMode := e.interventionMode
    interventionPolicyName := e.interventionPolicyName
    interventionsVersion := e.interventionsVersion
    interventions := e.interventions
    dynamicBindings := e.dynamicBindings
    status := e.status
    lifecycleState := e.lifecycleState
    stateVersion := e.stateVersion }

structure Held where
  interventionPolicy : Option String
  handlerRegistry : Dict String (Nat × Json × Json)
  executionResourceRequirements : List Data
  runtimeResources : Data

def Execution.held (e : Execution) : Held :=
  { interventionPolicy := e.interventionPolicy
    handlerRegistry := e.handlerRegistry
    executionResourceRequirements := e.executionResourceRequirements
    runtimeResources := e.runtimeResources }

/-- The conversions that can raise once the checks are passed, in their order. -/
inductive Conversion where
  | runContext
  | runtimeData
  | flowData
  | interventionMode
  | ledgerVersions
  | signalAttempts
  | bindings
  | createdAt
  | stateVersion
  | resourceRequirements
  | runtimeResources
  deriving DecidableEq

def conversionOrder : List Conversion :=
  [.runContext, .runtimeData, .flowData, .interventionMode, .ledgerVersions, .signalAttempts,
    .bindings, .createdAt, .stateVersion, .resourceRequirements, .runtimeResources]

def raisedBy {α : Type} : Except PyError α → Option PyError
  | .ok _ => none
  | .error e => some e

section Conversions

variable (b : Builtins) (state : Data) (dump : Json → String) (args : LoadArguments)

def loadedRuntimeData : Data := (StateData.update b.floatValue [] (runtimeDataOf state)).1

def loadedFlowData : Data := (StateData.update b.floatValue [] (flowDataOf state)).1

def modeOf (e : Execution) : Json := getOr (interventionOf state) "mode" e.interventionMode

def versionOf : Except PyError Int :=
  versionOrZero b (getOr (interventionOf state) "version" (.int 0))

def interventionsVersionOf : Except PyError Int :=
  match versionOf b state with
  | .ok n => ledgerVersion b (ledgerData state) n
  | .error e => .error e

def attemptsOf : Except PyError (Dict String Json × Option PyError) :=
  (signalNetItems b state "signal_attempts").map (restoreAttempts b [])

def bindingsOf (e : Execution) : Except PyError (Bindings × Option PyError) :=
  (signalNetItems b state "bindings").map (restoreBindings b e.handlerRegistry noBindings)

def loadedBindings (e : Execution) : Bindings :=
  match bindingsOf b state e with
  | .ok (bindings, _) => bindings
  | .error _ => noBindings

def Conversion.raises (e : Execution) : Conversion → Option PyError
  | .runContext => raisedBy (runContextOf state e.runContext)
  | .runtimeData => (StateData.update b.floatValue [] (runtimeDataOf state)).2
  | .flowData => (StateData.update b.floatValue [] (flowDataOf state)).2
  | .interventionMode => raisedBy (normalMode (modeOf state e))
  | .ledgerVersions => raisedBy (interventionsVersionOf b state)
  | .signalAttempts =>
    match attemptsOf b state with
    | .ok (_, raised) => raised
    | .error err => some err
  | .bindings =>
    match bindingsOf b state e with
    | .ok (_, raised) => raised
    | .error err => some err
  | .createdAt => raisedBy (createdAtOf b state e.createdAt)
  | .stateVersion => raisedBy (stateVersionOf b state e.stateVersion)
  | .resourceRequirements =>
    raisedBy (resolveExecutionResourceRequirements b state dump
      e.executionResourceRequirements args.executionResources)
  | .runtimeResources => (StateData.setAll e.runtimeResources args.runtimeResources).2

def firstRaising (e : Execution) : Option Conversion :=
  conversionOrder.find? fun c => (c.raises b state dump args e).isSome

def RegistryHeld (e : Execution) : Prop :=
  registered e.triggerFlow.executions e.id (executionIdOf b state e) e.ref =
    e.triggerFlow.executions

def RuntimeDataHeld (e : Execution) : Prop :=
  RegistryHeld b state e ∧ loadedRuntimeData b state = e.runtimeData

def FlowDataHeld (e : Execution) : Prop :=
  RuntimeDataHeld b state e ∧ loadedFlowData b state = e.triggerFlow.flowData

def InterruptsHeld (e : Execution) : Prop :=
  FlowDataHeld b state e ∧ interruptsOf state = e.interrupts

def PolicyHeld (e : Execution) : Prop :=
  normalMode (modeOf state e) = .ok e.interventionMode ∧
    policyNameOf b state e = e.interventionPolicyName

def InterventionsHeld (e : Execution) : Prop :=
  RegistryHeld b state e ∧
    Dict.set (loadedRuntimeData b state) interventionsStateKey (.obj (ledgerData state)) =
      e.runtimeData ∧
    loadedFlowData b state = e.triggerFlow.flowData ∧
    interruptsOf state = e.interrupts ∧
    PolicyHeld b state e ∧
    interventionsVersionOf b state = .ok e.interventionsVersion ∧
    .obj (ledgerData state) = e.interventions

def LifecycleHeld (e : Execution) : Prop :=
  InterventionsHeld b state e ∧ loadedBindings b state e = e.dynamicBindings ∧
    statusOf b state = e.status ∧ lifecycleOf b state = e.lifecycleState

/-- What `load` assigns before the conversion is what the execution holds. -/
def Conversion.HeldBefore (e : Execution) : Conversion → Prop
  | .runContext => RegistryHeld b state e
  | .runtimeData => RuntimeDataHeld b state e
  | .flowData => FlowDataHeld b state e
  | .interventionMode => InterruptsHeld b state e ∧ modeOf state e = e.interventionMode
  | .ledgerVersions =>
    InterruptsHeld b state e ∧ PolicyHeld b state e ∧
      versionOf b state = .ok e.interventionsVersion
  | .signalAttempts => InterventionsHeld b state e ∧ noBindings = e.dynamicBindings
  | .bindings => InterventionsHeld b state e ∧ loadedBindings b state e = e.dynamicBindings
  | .createdAt => LifecycleHeld b state e
  | .stateVersion => LifecycleHeld b state e
  | .resourceRequirements =>
    LifecycleHeld b state e ∧ stateVersionOf b state e.stateVersion = .ok e.stateVersion
  | .runtimeResources =>
    LifecycleHeld b state e ∧ stateVersionOf b state e.stateVersion = .ok e.stateVersion

end Conversions

section Steps

variable (b : Builtins) (state : Data) (dump : Json → String) (args : LoadArguments)

theorem orRaise_ok {α : Type} (a : α) (s : Execution) :
    (orRaise (.ok a) : Load α) s = .ok a s := rfl

theorem orRaise_error {α : Type} (err : PyError) (s : Execution) :
    (orRaise (.error err) : Load α) s = .error err s := rfl

/-- The step is passed, and this is what it does to what later steps read. -/
structure Passes (m : Load Unit) (s t : Execution) (after : Observed) : Prop where
  run : m s = .ok () t
  observed : t.observed = after
  held : t.held = s.held

theorem takeIdentity_run (e : Execution) :
    ∃ t, Passes (takeIdentity b state) e t { e.observed with
        executions := registered e.triggerFlow.executions e.id (executionIdOf b state e) e.ref } ∧
      t.runContext = e.runContext ∧ t.createdAt = e.createdAt := by
  refine ⟨_, ⟨rfl, rfl, rfl⟩, rfl, rfl⟩

variable {s : Execution}

theorem restoreRunContext_ok {c : RunContext} (h : runContextOf state s.runContext = .ok c) :
    ∃ t, Passes (restoreRunContext state) s t s.observed ∧ t.createdAt = s.createdAt := by
  refine ⟨{ s with runContext := c.ofExecution s.id }, ⟨?_, rfl, rfl⟩, rfl⟩
  unfold restoreRunContext
  rw [bind_get, h, bind_ok (orRaise_ok c s)]
  rfl

variable {err : PyError}

theorem restoreRunContext_error (h : runContextOf state s.runContext = .error err) :
    restoreRunContext state s = .error err s := by
  unfold restoreRunContext
  rw [bind_get, h]
  exact bind_error (orRaise_error err s)

theorem restoreRuntimeData_ok (s : Execution)
    (h : (StateData.update b.floatValue [] (runtimeDataOf state)).2 = none) :
    ∃ t, Passes (restoreRuntimeData b state) s t
        { s.observed with runtimeData := loadedRuntimeData b state } ∧
      t.createdAt = s.createdAt := by
  refine ⟨{ s with runtimeData := loadedRuntimeData b state }, ⟨?_, rfl, rfl⟩, rfl⟩
  unfold restoreRuntimeData loadedRuntimeData
  generalize StateData.update b.floatValue [] (runtimeDataOf state) = out at h ⊢
  obtain ⟨data, raised⟩ := out
  subst h
  rfl

theorem restoreRuntimeData_error (s : Execution)
    (h : (StateData.update b.floatValue [] (runtimeDataOf state)).2 = some err) :
    restoreRuntimeData b state s =
      .error err { s with runtimeData := loadedRuntimeData b state } := by
  unfold restoreRuntimeData loadedRuntimeData
  generalize StateData.update b.floatValue [] (runtimeDataOf state) = out at h ⊢
  obtain ⟨data, raised⟩ := out
  subst h
  rfl

theorem restoreFlowData_ok (s : Execution)
    (h : (StateData.update b.floatValue [] (flowDataOf state)).2 = none) :
    ∃ t, Passes (restoreFlowData b state) s t
        { s.observed with flowData := loadedFlowData b state } ∧ t.createdAt = s.createdAt := by
  refine ⟨s.withFlowData (loadedFlowData b state), ⟨?_, rfl, rfl⟩, rfl⟩
  unfold restoreFlowData loadedFlowData
  generalize StateData.update b.floatValue [] (flowDataOf state) = out at h ⊢
  obtain ⟨data, raised⟩ := out
  subst h
  rfl

theorem restoreFlowData_error (s : Execution)
    (h : (StateData.update b.floatValue [] (flowDataOf state)).2 = some err) :
    restoreFlowData b state s = .error err (s.withFlowData (loadedFlowData b state)) := by
  unfold restoreFlowData loadedFlowData
  generalize StateData.update b.floatValue [] (flowDataOf state) = out at h ⊢
  obtain ⟨data, raised⟩ := out
  subst h
  rfl

theorem restoreResult_run (s : Execution) :
    ∃ t, Passes (restoreResult b state) s t
        { s.observed with interrupts := interruptsOf state } ∧ t.createdAt = s.createdAt := by
  refine ⟨_, ⟨rfl, rfl, rfl⟩, rfl⟩

theorem policyNameOf_congr {t : Execution} (hp : s.interventionPolicy = t.interventionPolicy)
    (hn : s.interventionPolicyName = t.interventionPolicyName) :
    policyNameOf b state s = policyNameOf b state t := by
  unfold policyNameOf
  rw [hp, hn]

theorem restoreInterventionMode_ok {mode : Json} (h : normalMode (modeOf state s) = .ok mode) :
    ∃ t, Passes (restoreInterventionMode b state) s t
        { s.observed with
          interventionMode := mode, interventionPolicyName := policyNameOf b state s } ∧
      t.createdAt = s.createdAt := by
  refine ⟨{ s with interventionMode := mode, interventionPolicyName := policyNameOf b state s },
    ⟨?_, rfl, rfl⟩, rfl⟩
  unfold modeOf at h
  unfold restoreInterventionMode
  simp only [bind_modify, bind_get, h]
  rw [bind_ok (orRaise_ok mode _)]
  rfl

theorem restoreInterventionMode_error (h : normalMode (modeOf state s) = .error err) :
    restoreInterventionMode b state s =
      .error err { s with interventionMode := modeOf state s } := by
  unfold modeOf at h ⊢
  unfold restoreInterventionMode
  simp only [bind_modify, bind_get, h]
  exact bind_error (orRaise_error err _)

theorem versionOf_ok : ∃ n, versionOf b state = .ok n := by
  unfold versionOf versionOrZero
  cases hv : b.pyInt (getOr (interventionOf state) "version" (.int 0)) with
  | ok n => exact ⟨n, rfl⟩
  | error err => exact ⟨0, if_pos (b.pyInt_kind hv)⟩

theorem interventionsVersionOf_eq {m : Int} (hm : versionOf b state = .ok m) :
    interventionsVersionOf b state = ledgerVersion b (ledgerData state) m := by
  unfold interventionsVersionOf
  rw [hm]

theorem restoreLedger_ok {n : Int} (h : interventionsVersionOf b state = .ok n) :
    ∃ t, Passes (restoreLedger b state) s t
        { s.observed with
          interventionsVersion := n
          interventions := .obj (ledgerData state)
          runtimeData :=
            Dict.set s.runtimeData interventionsStateKey (.obj (ledgerData state)) } ∧
      t.createdAt = s.createdAt := by
  obtain ⟨m, hm⟩ := versionOf_ok b state
  rw [interventionsVersionOf_eq b state hm] at h
  unfold versionOf at hm
  refine ⟨{ s with
    interventionsVersion := n
    interventions := .obj (ledgerData state)
    runtimeData := Dict.set s.runtimeData interventionsStateKey (.obj (ledgerData state))
    subFlowFrames := getOr state "sub_flow_frames" (.obj [])
    lastSignal := get state "last_signal" }, ⟨?_, rfl, rfl⟩, rfl⟩
  unfold restoreLedger
  rw [hm, bind_ok (orRaise_ok m s), bind_modify, h, bind_ok (orRaise_ok n _)]
  rfl

theorem restoreLedger_error {m : Int}
    (hm : versionOf b state = .ok m) (h : interventionsVersionOf b state = .error err) :
    restoreLedger b state s = .error err { s with interventionsVersion := m } := by
  rw [interventionsVersionOf_eq b state hm] at h
  unfold versionOf at hm
  unfold restoreLedger
  rw [hm, bind_ok (orRaise_ok m s), bind_modify, h]
  exact bind_error (orRaise_error err _)

theorem restoreSignalAttempts_ok {attempts : Dict String Json}
    (h : attemptsOf b state = .ok (attempts, none)) :
    ∃ t, Passes (restoreSignalAttempts b state) s t
        { s.observed with dynamicBindings := noBindings } ∧ t.createdAt = s.createdAt := by
  unfold attemptsOf at h
  cases hi : signalNetItems b state "signal_attempts" with
  | error err => simp [hi, Except.map] at h
  | ok items =>
    rw [hi] at h
    have hr : restoreAttempts b [] items = (attempts, none) := Except.ok.inj h
    refine ⟨{ s with
      dynamicBindings := noBindings, signalAttempts := attempts, acceptedSignalIds := [] },
      ⟨?_, rfl, rfl⟩, rfl⟩
    unfold restoreSignalAttempts
    rw [bind_modify, hi, bind_ok (orRaise_ok items _), hr]
    rfl

theorem restoreSignalAttempts_error (s : Execution)
    (h : Conversion.raises b state dump args s .signalAttempts = some err) :
    ∃ t, restoreSignalAttempts b state s = .error err t ∧
      t.observed = { s.observed with dynamicBindings := noBindings } := by
  unfold Conversion.raises attemptsOf at h
  cases hi : signalNetItems b state "signal_attempts" with
  | error err' =>
    rw [hi] at h
    have he : err' = err := Option.some.inj h
    subst he
    refine ⟨{ s with dynamicBindings := noBindings, signalAttempts := [] }, ?_, rfl⟩
    unfold restoreSignalAttempts
    rw [bind_modify, hi]
    exact bind_error (orRaise_error err' _)
  | ok items =>
    rw [hi] at h
    have hr : (restoreAttempts b [] items).2 = some err := h
    refine ⟨{ s with
      dynamicBindings := noBindings, signalAttempts := (restoreAttempts b [] items).1 },
      ?_, rfl⟩
    unfold restoreSignalAttempts
    rw [bind_modify, hi, bind_ok (orRaise_ok items _)]
    generalize restoreAttempts b [] items = out at hr ⊢
    obtain ⟨attempts, raised⟩ := out
    subst hr
    rfl

theorem restoreDynamicBindings_ok {bindings : Bindings}
    (hs : s.dynamicBindings = noBindings) (h : bindingsOf b state s = .ok (bindings, none)) :
    ∃ t, Passes (restoreDynamicBindings b state) s t
        { s.observed with dynamicBindings := bindings } ∧ t.createdAt = s.createdAt := by
  unfold bindingsOf at h
  cases hi : signalNetItems b state "bindings" with
  | error err => simp [hi, Except.map] at h
  | ok items =>
    rw [hi] at h
    have hr : restoreBindings b s.handlerRegistry noBindings items = (bindings, none) :=
      Except.ok.inj h
    refine ⟨{ s with dynamicBindings := bindings }, ⟨?_, rfl, rfl⟩, rfl⟩
    unfold restoreDynamicBindings
    rw [hi, bind_ok (orRaise_ok items s), bind_get, hs, hr]
    rfl

theorem restoreDynamicBindings_error (hs : s.dynamicBindings = noBindings)
    (h : Conversion.raises b state dump args s .bindings = some err) :
    ∃ t, restoreDynamicBindings b state s = .error err t ∧
      t.observed = { s.observed with dynamicBindings := loadedBindings b state s } := by
  unfold loadedBindings
  unfold Conversion.raises at h
  unfold bindingsOf at h ⊢
  cases hi : signalNetItems b state "bindings" with
  | error err' =>
    rw [hi] at h
    have he : err' = err := Option.some.inj h
    subst he
    refine ⟨s, ?_, ?_⟩
    · unfold restoreDynamicBindings
      rw [hi]
      exact bind_error (orRaise_error err' s)
    · simp only [Except.map, Execution.observed, hs]
  | ok items =>
    rw [hi] at h
    have hr : (restoreBindings b s.handlerRegistry noBindings items).2 = some err := h
    refine ⟨{ s with
      dynamicBindings := (restoreBindings b s.handlerRegistry noBindings items).1 }, ?_, rfl⟩
    unfold restoreDynamicBindings
    rw [hi, bind_ok (orRaise_ok items s), bind_get, hs]
    generalize restoreBindings b s.handlerRegistry noBindings items = out at hr ⊢
    obtain ⟨bindings, raised⟩ := out
    subst hr
    rfl

theorem restoreLifecycle_run (s : Execution) :
    ∃ t, Passes (restoreLifecycle b state) s t
        { s.observed with status := statusOf b state, lifecycleState := lifecycleOf b state } ∧
      t.createdAt = s.createdAt := by
  refine ⟨_, ⟨rfl, rfl, rfl⟩, rfl⟩

theorem restoreCreatedAt_ok {x : PyFloat} (h : createdAtOf b state s.createdAt = .ok x) :
    ∃ t, Passes (restoreCreatedAt b state) s t s.observed := by
  refine ⟨{ s with
    createdAt := x
    startedAt := getOr state "started_at" s.startedAt
    lastActivityAt := getOr state "last_activity_at" s.lastActivityAt
    sealedAt := getOr state "sealed_at" s.sealedAt
    closedAt := getOr state "closed_at" s.closedAt
    closeReason := getOr state "close_reason" s.closeReason }, ⟨?_, rfl, rfl⟩⟩
  unfold restoreCreatedAt
  rw [bind_get, h, bind_ok (orRaise_ok x s)]
  rfl

theorem restoreCreatedAt_error (h : createdAtOf b state s.createdAt = .error err) :
    restoreCreatedAt b state s = .error err s := by
  unfold restoreCreatedAt
  rw [bind_get, h]
  exact bind_error (orRaise_error err s)

theorem restoreStateVersion_ok {n : Int} (h : stateVersionOf b state s.stateVersion = .ok n) :
    ∃ t, Passes (restoreStateVersion b state) s t { s.observed with stateVersion := n } := by
  refine ⟨{ s with
    stateVersion := n
    ownerId := getOr state "owner_id" s.ownerId
    leaseTtl := getOr state "lease_ttl" s.leaseTtl
    leaseUntil := getOr state "lease_until" s.leaseUntil
    heartbeatAt := getOr state "heartbeat_at" s.heartbeatAt }, ⟨?_, rfl, rfl⟩⟩
  unfold restoreStateVersion
  rw [bind_get, h, bind_ok (orRaise_ok n s)]
  rfl

theorem restoreStateVersion_error (h : stateVersionOf b state s.stateVersion = .error err) :
    restoreStateVersion b state s = .error err s := by
  unfold restoreStateVersion
  rw [bind_get, h]
  exact bind_error (orRaise_error err s)

theorem restoreRequirements_ok {requirements : List Data}
    (h : resolveExecutionResourceRequirements b state dump s.executionResourceRequirements
      args.executionResources = .ok requirements) :
    ∃ t, restoreRequirements b state dump args s = .ok () t ∧ t.observed = s.observed ∧
      t.runtimeResources = s.runtimeResources := by
  refine ⟨{ s with
    executionResourceRequirements := requirements
    compaction := snapshotCompactionState state
    snapshotProjectionPolicy := projectionPolicyOf state s.snapshotProjectionPolicy },
    ?_, rfl, rfl⟩
  unfold restoreRequirements
  rw [bind_get, h, bind_ok (orRaise_ok requirements s)]
  rfl

theorem restoreRequirements_error
    (h : resolveExecutionResourceRequirements b state dump s.executionResourceRequirements
      args.executionResources = .error err) :
    restoreRequirements b state dump args s = .error err s := by
  unfold restoreRequirements
  rw [bind_get, h]
  exact bind_error (orRaise_error err s)

theorem restoreRetention_ok {retention : Option (Option Int)}
    (h : retentionOf state = .ok retention) :
    ∃ t, restoreRetention b state s = .ok () t ∧ t.observed = s.observed ∧
      t.runtimeResources = s.runtimeResources := by
  refine ⟨restoreClosing b state { s with snapshotRetentionPolicy := retention }, ?_, rfl, rfl⟩
  unfold restoreRetention
  rw [h, bind_ok (orRaise_ok retention s)]
  rfl

theorem updateRuntimeResources_ok (s : Execution)
    (h : (StateData.setAll s.runtimeResources args.runtimeResources).2 = none) :
    ∃ t, updateRuntimeResources args s = .ok () t := by
  refine ⟨{ s with
    runtimeResources := (StateData.setAll s.runtimeResources args.runtimeResources).1 }, ?_⟩
  unfold updateRuntimeResources
  rw [bind_get]
  generalize StateData.setAll s.runtimeResources args.runtimeResources = out at h ⊢
  obtain ⟨resources, raised⟩ := out
  subst h
  rfl

theorem updateRuntimeResources_error (s : Execution)
    (h : (StateData.setAll s.runtimeResources args.runtimeResources).2 = some err) :
    ∃ t, updateRuntimeResources args s = .error err t ∧ t.observed = s.observed := by
  refine ⟨{ s with
    runtimeResources := (StateData.setAll s.runtimeResources args.runtimeResources).1 }, ?_, rfl⟩
  unfold updateRuntimeResources
  rw [bind_get]
  generalize StateData.setAll s.runtimeResources args.runtimeResources = out at h ⊢
  obtain ⟨resources, raised⟩ := out
  subst h
  rfl

theorem bind_eq_ok {α β : Type} {x : Except PyError α} {f : α → Except PyError β} {y : β}
    (h : (x >>= f) = .ok y) : ∃ a, x = .ok a ∧ f a = .ok y := by
  cases x with
  | error err => cases h
  | ok a => exact ⟨a, rfl, h⟩

/-- A state that passes the checks of its sections has a retention policy `load` can read. -/
theorem retentionOf_ok {executionId : String}
    (h : validateStateSections executionId state = .ok ()) :
    ∃ retention, retentionOf state = .ok retention := by
  unfold validateStateSections at h
  iterate 12 obtain ⟨_, -, h⟩ := bind_eq_ok h
  unfold retentionOf
  cases hp : get state "snapshot_retention_policy" with
  | null => exact ⟨none, rfl⟩
  | _ =>
    simp only [hp] at h ⊢
    cases hn : normalizeSnapshotRetentionPolicy _ with
    | error err => simp [hn, Except.map] at h
    | ok keep => exact ⟨some keep, rfl⟩

end Steps

section Whole

variable (b : Builtins) (state : Data) (dump : Json → String) (args : LoadArguments)

def FirstHeld (e : Execution) (rest : List Conversion) : Prop :=
  ∀ c, (rest.find? fun c => (c.raises b state dump args e).isSome) = some c →
    c.HeldBefore b state e

variable {b state dump args}

variable {e : Execution}

theorem firstHeld_nil : FirstHeld b state dump args e [] := by
  intro c hc
  cases hc

theorem firstHeld_cons_none {c : Conversion} {rest : List Conversion}
    (h : c.raises b state dump args e = none) :
    FirstHeld b state dump args e (c :: rest) ↔ FirstHeld b state dump args e rest := by
  unfold FirstHeld
  rw [List.find?_cons_of_neg (by simp [h])]

theorem firstHeld_cons_some {c : Conversion} {rest : List Conversion}
    (h : (c.raises b state dump args e).isSome = true) :
    FirstHeld b state dump args e (c :: rest) ↔ c.HeldBefore b state e := by
  have hf : ((c :: rest).find? fun c => (c.raises b state dump args e).isSome) = some c :=
    List.find?_cons_of_pos h
  unfold FirstHeld
  rw [hf]
  simp only [Option.some.injEq, forall_eq']

theorem with_stateVersion_iff {o o' : Observed} {n : Int} (h : o.stateVersion = o'.stateVersion) :
    { o with stateVersion := n } = o' ↔ o = o' ∧ n = o'.stateVersion := by
  cases o
  cases o'
  simp only [Observed.mk.injEq] at h ⊢
  tauto

theorem with_bindings_iff {o o' : Observed} {x : Bindings}
    (h : o.dynamicBindings = o'.dynamicBindings) :
    { o with dynamicBindings := x } = o' ↔ o = o' ∧ x = o'.dynamicBindings := by
  cases o
  cases o'
  simp only [Observed.mk.injEq] at h ⊢
  tauto

variable {s : Execution} {retention : Option (Option Int)}

theorem keeps_from_createdAt (hret : retentionOf state = .ok retention)
    (hobs : s.observed = e.observed ↔ LifecycleHeld b state e)
    (hversion : s.stateVersion = e.stateVersion) (hcreated : s.createdAt = e.createdAt)
    (hheld : s.held = e.held) :
    KeepsOnError Execution.observed e.observed
        (do restoreCreatedAt b state
            restoreStateVersion b state
            restoreRequirements b state dump args
            restoreRetention b state
            updateRuntimeResources args) s ↔
      FirstHeld b state dump args e
        [.createdAt, .stateVersion, .resourceRequirements, .runtimeResources] := by
  cases h1 : createdAtOf b state e.createdAt with
  | error err =>
    rw [keeps_bind_error_iff (restoreCreatedAt_error b state (hcreated ▸ h1)), hobs,
      firstHeld_cons_some (by simp only [Conversion.raises, h1, raisedBy, Option.isSome])]
    exact Iff.rfl
  | ok x =>
  obtain ⟨s1, p1⟩ := restoreCreatedAt_ok b state (hcreated ▸ h1)
  have hv1 : s1.stateVersion = e.stateVersion :=
    (congrArg Observed.stateVersion p1.observed).trans hversion
  rw [keeps_bind_ok_iff p1.run,
    firstHeld_cons_none (by simp only [Conversion.raises, h1, raisedBy])]
  cases h2 : stateVersionOf b state e.stateVersion with
  | error err =>
    rw [keeps_bind_error_iff (restoreStateVersion_error b state (hv1 ▸ h2)), p1.observed, hobs,
      firstHeld_cons_some (by simp only [Conversion.raises, h2, raisedBy, Option.isSome])]
    exact Iff.rfl
  | ok n =>
  obtain ⟨s2, p2⟩ := restoreStateVersion_ok b state (hv1 ▸ h2)
  have hobs2 : s2.observed = e.observed ↔
      LifecycleHeld b state e ∧ stateVersionOf b state e.stateVersion = .ok e.stateVersion := by
    rw [p2.observed, p1.observed, with_stateVersion_iff hversion, hobs, h2, Except.ok.injEq]
    exact Iff.rfl
  have hheld2 : s2.held = e.held := p2.held.trans (p1.held.trans hheld)
  have hreq2 : s2.executionResourceRequirements = e.executionResourceRequirements :=
    congrArg Held.executionResourceRequirements hheld2
  have hres2 : s2.runtimeResources = e.runtimeResources := congrArg Held.runtimeResources hheld2
  rw [keeps_bind_ok_iff p2.run,
    firstHeld_cons_none (by simp only [Conversion.raises, h2, raisedBy])]
  cases h3 : resolveExecutionResourceRequirements b state dump e.executionResourceRequirements
      args.executionResources with
  | error err =>
    rw [keeps_bind_error_iff (restoreRequirements_error b state dump args (hreq2 ▸ h3)), hobs2,
      firstHeld_cons_some (by simp only [Conversion.raises, h3, raisedBy, Option.isSome])]
    exact Iff.rfl
  | ok requirements =>
  obtain ⟨s3, r3, o3, m3⟩ := restoreRequirements_ok b state dump args (hreq2 ▸ h3)
  obtain ⟨s4, r4, o4, m4⟩ := restoreRetention_ok b state (s := s3) hret
  have hres4 : s4.runtimeResources = e.runtimeResources := m4.trans (m3.trans hres2)
  rw [keeps_bind_ok_iff r3, keeps_bind_ok_iff r4,
    firstHeld_cons_none (by simp only [Conversion.raises, h3, raisedBy])]
  cases h4 : (StateData.setAll e.runtimeResources args.runtimeResources).2 with
  | some err =>
    obtain ⟨s5, r5, o5⟩ := updateRuntimeResources_error args s4 (hres4 ▸ h4)
    rw [keeps_error_iff r5, o5, o4, o3, hobs2,
      firstHeld_cons_some (by simp only [Conversion.raises, h4, Option.isSome])]
    exact Iff.rfl
  | none =>
    obtain ⟨s5, r5⟩ := updateRuntimeResources_ok args s4 (hres4 ▸ h4)
    rw [firstHeld_cons_none (by simp only [Conversion.raises, h4])]
    exact iff_of_true (keeps_of_ok r5) firstHeld_nil

theorem keeps_from_signalAttempts (hret : retentionOf state = .ok retention)
    (hobs : s.observed = e.observed ↔ InterventionsHeld b state e)
    (hbindings : s.dynamicBindings = e.dynamicBindings) (hstatus : s.status = e.status)
    (hlifecycle : s.lifecycleState = e.lifecycleState)
    (hversion : s.stateVersion = e.stateVersion) (hcreated : s.createdAt = e.createdAt)
    (hheld : s.held = e.held) :
    KeepsOnError Execution.observed e.observed
        (do restoreSignalAttempts b state
            restoreDynamicBindings b state
            restoreLifecycle b state
            restoreCreatedAt b state
            restoreStateVersion b state
            restoreRequirements b state dump args
            restoreRetention b state
            updateRuntimeResources args) s ↔
      FirstHeld b state dump args e
        [.signalAttempts, .bindings, .createdAt, .stateVersion, .resourceRequirements,
          .runtimeResources] := by
  have hattempts : Conversion.raises b state dump args s .signalAttempts =
      Conversion.raises b state dump args e .signalAttempts := rfl
  cases h1 : Conversion.raises b state dump args e .signalAttempts with
  | some err =>
    obtain ⟨t, rt, ot⟩ := restoreSignalAttempts_error b state dump args s (hattempts.trans h1)
    rw [keeps_bind_error_iff rt, ot, with_bindings_iff hbindings, hobs,
      firstHeld_cons_some (by rw [h1]; rfl)]
    exact Iff.rfl
  | none =>
  rw [firstHeld_cons_none h1]
  obtain ⟨attempts, ha⟩ : ∃ attempts, attemptsOf b state = .ok (attempts, none) := by
    unfold Conversion.raises at h1
    cases hp : attemptsOf b state with
    | error err => simp [hp] at h1
    | ok out =>
      obtain ⟨attempts, raised⟩ := out
      rw [hp] at h1
      have hr : raised = none := h1
      exact ⟨attempts, by rw [hr]⟩
  obtain ⟨s1, p1, c1⟩ := restoreSignalAttempts_ok b state (s := s) ha
  have hb1 : s1.dynamicBindings = noBindings := congrArg Observed.dynamicBindings p1.observed
  have hheld1 : s1.held = e.held := p1.held.trans hheld
  have hregistry : s1.handlerRegistry = e.handlerRegistry :=
    congrArg Held.handlerRegistry hheld1
  have hof : bindingsOf b state s1 = bindingsOf b state e := by
    unfold bindingsOf
    rw [hregistry]
  have hraises : Conversion.raises b state dump args s1 .bindings =
      Conversion.raises b state dump args e .bindings := by
    unfold Conversion.raises
    rw [hof]
  have hloaded : loadedBindings b state s1 = loadedBindings b state e := by
    unfold loadedBindings
    rw [hof]
  have hwith : ∀ x, { s1.observed with dynamicBindings := x } = e.observed ↔
      InterventionsHeld b state e ∧ x = e.dynamicBindings := by
    intro x
    rw [p1.observed, ← hobs]
    exact @with_bindings_iff s.observed e.observed x hbindings
  rw [keeps_bind_ok_iff p1.run]
  cases h2 : Conversion.raises b state dump args e .bindings with
  | some err =>
    obtain ⟨t, rt, ot⟩ := restoreDynamicBindings_error b state dump args hb1 (hraises.trans h2)
    rw [keeps_bind_error_iff rt, ot, hloaded, hwith, firstHeld_cons_some (by rw [h2]; rfl)]
    exact Iff.rfl
  | none =>
  rw [firstHeld_cons_none h2]
  obtain ⟨bindings, hb⟩ : ∃ bindings, bindingsOf b state e = .ok (bindings, none) := by
    unfold Conversion.raises at h2
    cases hp : bindingsOf b state e with
    | error err => simp [hp] at h2
    | ok out =>
      obtain ⟨bindings, raised⟩ := out
      rw [hp] at h2
      have hr : raised = none := h2
      exact ⟨bindings, by rw [hr]⟩
  have hloadedEq : loadedBindings b state e = bindings := by
    unfold loadedBindings
    rw [hb]
  obtain ⟨s2, p2, c2⟩ := restoreDynamicBindings_ok b state hb1 (hof.trans hb)
  obtain ⟨s3, p3, c3⟩ := restoreLifecycle_run b state s2
  rw [keeps_bind_ok_iff p2.run, keeps_bind_ok_iff p3.run]
  apply keeps_from_createdAt hret
  · rw [p3.observed, p2.observed, p1.observed]
    unfold LifecycleHeld
    rw [← hobs, hloadedEq]
    unfold Execution.observed
    simp only [Observed.mk.injEq, hbindings, hstatus, hlifecycle]
    tauto
  · have hv : s3.stateVersion = s.stateVersion := by
      have h3 : s3.observed.stateVersion = s2.observed.stateVersion := by rw [p3.observed]
      have h2' : s2.observed.stateVersion = s1.observed.stateVersion := by rw [p2.observed]
      have h1' : s1.observed.stateVersion = s.observed.stateVersion := by rw [p1.observed]
      exact h3.trans (h2'.trans h1')
    exact hv.trans hversion
  · exact c3.trans (c2.trans (c1.trans hcreated))
  · exact p3.held.trans (p2.held.trans hheld1)

theorem keeps_from_interventionMode (hret : retentionOf state = .ok retention)
    (hobs : s.observed = { e.observed with
      executions := registered e.triggerFlow.executions e.id (executionIdOf b state e) e.ref
      runtimeData := loadedRuntimeData b state
      flowData := loadedFlowData b state
      interrupts := interruptsOf state })
    (hcreated : s.createdAt = e.createdAt) (hheld : s.held = e.held) :
    KeepsOnError Execution.observed e.observed
        (do restoreInterventionMode b state
            restoreLedger b state
            restoreSignalAttempts b state
            restoreDynamicBindings b state
            restoreLifecycle b state
            restoreCreatedAt b state
            restoreStateVersion b state
            restoreRequirements b state dump args
            restoreRetention b state
            updateRuntimeResources args) s ↔
      FirstHeld b state dump args e
        [.interventionMode, .ledgerVersions, .signalAttempts, .bindings, .createdAt,
          .stateVersion, .resourceRequirements, .runtimeResources] := by
  have hmode : s.interventionMode = e.interventionMode :=
    congrArg Observed.interventionMode hobs
  have hmodeOf : modeOf state s = modeOf state e := by
    unfold modeOf
    rw [hmode]
  have hpolicy : policyNameOf b state s = policyNameOf b state e :=
    policyNameOf_congr b state (congrArg Held.interventionPolicy hheld)
      (congrArg Observed.interventionPolicyName hobs)
  cases h1 : normalMode (modeOf state e) with
  | error err =>
    rw [keeps_bind_error_iff (restoreInterventionMode_error b state (by rw [hmodeOf, h1])),
      firstHeld_cons_some (by simp only [Conversion.raises, h1, raisedBy, Option.isSome])]
    have ho : Execution.observed { s with interventionMode := modeOf state s } =
        { s.observed with interventionMode := modeOf state s } := rfl
    rw [ho, hobs, hmodeOf]
    simp only [Execution.observed, Observed.mk.injEq, Conversion.HeldBefore, InterruptsHeld,
      FlowDataHeld, RuntimeDataHeld, RegistryHeld]
    tauto
  | ok mode =>
  have hmode : normalMode (modeOf state s) = .ok mode := by rw [hmodeOf, h1]
  obtain ⟨s1, p1, c1⟩ := restoreInterventionMode_ok b state hmode
  rw [keeps_bind_ok_iff p1.run,
    firstHeld_cons_none (by simp only [Conversion.raises, h1, raisedBy])]
  obtain ⟨m, hm⟩ := versionOf_ok b state
  cases h2 : interventionsVersionOf b state with
  | error err =>
    rw [keeps_bind_error_iff (restoreLedger_error b state hm h2),
      firstHeld_cons_some (by simp only [Conversion.raises, h2, raisedBy, Option.isSome])]
    have ho : Execution.observed { s1 with interventionsVersion := m } =
        { s1.observed with interventionsVersion := m } := rfl
    rw [ho, p1.observed, hobs, hpolicy]
    simp only [Execution.observed, Observed.mk.injEq, Conversion.HeldBefore, InterruptsHeld,
      FlowDataHeld, RuntimeDataHeld, RegistryHeld, PolicyHeld, h1, hm, Except.ok.injEq]
    tauto
  | ok n =>
  obtain ⟨s2, p2, c2⟩ := restoreLedger_ok b state (s := s1) h2
  rw [keeps_bind_ok_iff p2.run,
    firstHeld_cons_none (by simp only [Conversion.raises, h2, raisedBy])]
  have hdata : s1.runtimeData = loadedRuntimeData b state := by
    have hd : s1.observed.runtimeData = s.observed.runtimeData := by rw [p1.observed]
    exact hd.trans (congrArg Observed.runtimeData hobs)
  have hobs2 : s2.observed = { e.observed with
      executions := registered e.triggerFlow.executions e.id (executionIdOf b state e) e.ref
      runtimeData :=
        Dict.set (loadedRuntimeData b state) interventionsStateKey (.obj (ledgerData state))
      flowData := loadedFlowData b state
      interrupts := interruptsOf state
      interventionMode := mode
      interventionPolicyName := policyNameOf b state e
      interventionsVersion := n
      interventions := .obj (ledgerData state) } := by
    rw [p2.observed, p1.observed, hobs, hdata, hpolicy]
  apply keeps_from_signalAttempts hret
  · rw [hobs2]
    simp only [Execution.observed, Observed.mk.injEq, InterventionsHeld, RegistryHeld, PolicyHeld,
      h1, h2, Except.ok.injEq]
    tauto
  · exact congrArg Observed.dynamicBindings hobs2
  · exact congrArg Observed.status hobs2
  · exact congrArg Observed.lifecycleState hobs2
  · exact congrArg Observed.stateVersion hobs2
  · exact c2.trans (c1.trans hcreated)
  · exact p2.held.trans (p1.held.trans hheld)

theorem restore_keeps_iff (hret : retentionOf state = .ok retention) :
    KeepsOnError Execution.observed e.observed (restore b state dump args) e ↔
      FirstHeld b state dump args e conversionOrder := by
  unfold restore conversionOrder
  obtain ⟨s0, p0, x0, c0⟩ := takeIdentity_run b state e
  rw [keeps_bind_ok_iff p0.run]
  cases h1 : runContextOf state e.runContext with
  | error err =>
    rw [keeps_bind_error_iff (restoreRunContext_error state (x0 ▸ h1)), p0.observed,
      firstHeld_cons_some (by simp only [Conversion.raises, h1, raisedBy, Option.isSome])]
    simp only [Execution.observed, Observed.mk.injEq, Conversion.HeldBefore, RegistryHeld,
      and_true]
  | ok context =>
  obtain ⟨s1, p1, c1⟩ := restoreRunContext_ok state (s := s0) (x0 ▸ h1)
  rw [keeps_bind_ok_iff p1.run,
    firstHeld_cons_none (by simp only [Conversion.raises, h1, raisedBy])]
  cases h2 : (StateData.update b.floatValue [] (runtimeDataOf state)).2 with
  | some err =>
    rw [keeps_bind_error_iff (restoreRuntimeData_error b state s1 h2),
      firstHeld_cons_some (by simp only [Conversion.raises, h2, Option.isSome])]
    have ho : Execution.observed { s1 with runtimeData := loadedRuntimeData b state } =
        { s1.observed with runtimeData := loadedRuntimeData b state } := rfl
    rw [ho, p1.observed, p0.observed]
    simp only [Execution.observed, Observed.mk.injEq, Conversion.HeldBefore, RuntimeDataHeld,
      RegistryHeld, and_true]
  | none =>
  obtain ⟨s2, p2, c2⟩ := restoreRuntimeData_ok b state s1 h2
  rw [keeps_bind_ok_iff p2.run,
    firstHeld_cons_none (by simp only [Conversion.raises, h2])]
  cases h3 : (StateData.update b.floatValue [] (flowDataOf state)).2 with
  | some err =>
    rw [keeps_bind_error_iff (restoreFlowData_error b state s2 h3),
      firstHeld_cons_some (by simp only [Conversion.raises, h3, Option.isSome])]
    have ho : (s2.withFlowData (loadedFlowData b state)).observed =
        { s2.observed with flowData := loadedFlowData b state } := rfl
    rw [ho, p2.observed, p1.observed, p0.observed]
    simp only [Execution.observed, Observed.mk.injEq, Conversion.HeldBefore, FlowDataHeld,
      RuntimeDataHeld, RegistryHeld, and_true]
    tauto
  | none =>
  obtain ⟨s3, p3, c3⟩ := restoreFlowData_ok b state s2 h3
  obtain ⟨s4, p4, c4⟩ := restoreResult_run b state s3
  rw [keeps_bind_ok_iff p3.run, keeps_bind_ok_iff p4.run,
    firstHeld_cons_none (by simp only [Conversion.raises, h3])]
  apply keeps_from_interventionMode hret
  · rw [p4.observed, p3.observed, p2.observed, p1.observed, p0.observed]
  · exact c4.trans (c3.trans (c2.trans (c1.trans c0)))
  · exact p4.held.trans (p3.held.trans (p2.held.trans (p1.held.trans p0.held)))

theorem retentionOf_ok_of_rejected {fingerprint : Json → String}
    (h : rejected b state fingerprint args e = .ok ()) :
    ∃ retention, retentionOf state = .ok retention := by
  obtain ⟨_, hs, -⟩ := bind_eq_ok h
  exact retentionOf_ok state hs

end Whole

def sharedFlow : Flow :=
  { definition := { operators := [], fingerprint := "definition" }
    executions := [("e", 0)]
    flowData := [("shared", .int 1)] }

def freshExecution : Execution where
  ref := 0
  id := "e"
  triggerFlow := sharedFlow
  runContext :=
    { runId := "r", runKind := "workflow_execution", rootRunId := some "r", parentRunId := none
      agentId := none, agentName := none, sessionId := none, responseId := none
      executionId := some "e", info := [] }
  runtimeData := []
  runtimeResources := []
  result := none
  interrupts := .obj []
  interventionMode := .null
  interventionPolicy := none
  interventionPolicyName := none
  interventionsVersion := 0
  interventions := .obj []
  subFlowFrames := .obj []
  lastSignal := .null
  handlerRegistry := []
  dynamicBindings := noBindings
  signalAttempts := []
  acceptedSignalIds := []
  durableSystemState := []
  status := "created"
  autoClose := true
  autoCloseTimeout := .null
  lifecycleState := "open"
  createdAt := .finite 0
  startedAt := .null
  lastActivityAt := .null
  sealedAt := .null
  closedAt := .null
  closeReason := .null
  stateVersion := 0
  ownerId := .null
  leaseTtl := .null
  leaseUntil := .null
  heartbeatAt := .null
  executionResourceRequirements := []
  compaction :=
    { segments := [], retainedLineageAnchors := [], artifactRefs := [], policy := []
      loadPolicy := [] }
  snapshotProjectionPolicy := .obj []
  snapshotRetentionPolicy := none
  runtimeStreamStopped := false
  closed := false
  closeStarted := false
  closeResult := none
  started := false
  runtimeStartedEmitted := false
  runtimeCompletedEmitted := false
  runtimeFailedEmitted := false

/-- A snapshot of the first schema whose `state_version` is `None`. -/
def unversionedState : Data :=
  [("kind", .str triggerFlowExecutionSnapshotKind), ("schema_version", .int 1),
    ("flow_definition_fingerprint", .str "definition"), ("execution_id", .str "e"),
    ("flow_data", .obj []), ("state_version", .null)]

def plainBuiltins : Builtins :=
  { floatValue := fun _ => 0
    intOfText := String.toInt?
    floatOfText := fun s => (String.toInt? s).map fun n => .finite n
    nearestFloat := fun n => n
    reprOf := fun _ => ⟨"{..}", by decide⟩ }

end Agently.TriggerFlow.Persistence
