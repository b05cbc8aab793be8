import Agently.TriggerFlow.TerminalClose

/-! # Signals and the close of an execution

Source: `TriggerFlow/Execution.py`. Signals are emitted and dispatched while the execution is sealed
and closed. A dispatch runs in a managed task of its own, inside a managed task that awaits it, or
in a coroutine the execution does not manage; a close waits for managed tasks. -/

namespace Agently.TriggerFlow.Close

open Agently.Lib Agently.Utils

variable {ε η : Type}

/-- `other` is every managed task that is neither an `emit_nowait` nor a handler. -/
inductive TaskOrigin where
  | emit
  | handler (dispatch : Nat)
  | other
  deriving DecidableEq

structure ManagedTask where
  origin : TaskOrigin
  running : Bool := true

/-- `scheduled` is an accepted `emit_nowait` whose task has not run yet, `resuming` every
suspension between the lifecycle check and the first handler. -/
inductive SignalPhase (η : Type) where
  | scheduled
  | resuming
  | handing (remaining : List η)
  | gathering
  | completed
  | failed
  | rejected

/-- `host` is the managed task the dispatch runs in, `handlers` what `iter_handlers` found, and
`started` its handlers with the lifecycle state each was started in. -/
structure SignalDispatch (η : Type) where
  source : String
  nowait : Bool
  host : Option Nat
  phase : SignalPhase η
  handlers : Option (List η) := none
  started : List (η × Lifecycle) := []

/-- `awaited`: the dispatches before this place were there when a drain that leaves no managed
task out ended. No function of the engine reads it. -/
structure SignalRun (ε η : Type) where
  closing : Closing ε
  tasks : List ManagedTask
  dispatches : List (SignalDispatch η)
  awaited : Nat

/-- `host` of an `async_emit` is the managed task that awaits it. An `advance` carries the
handlers that are found when the dispatch looks for them. -/
inductive SignalAction (ε η : Type) where
  | emitNowait (source : String)
  | asyncEmit (host : Option Nat) (source : String)
  | advance (index : Nat) (found : List η)
  | fail (index : Nat)
  | startTask
  | endTask (index : Nat) (retained : Option TaskError)
  | close (a : CloseAction ε)

def SignalDispatch.over (d : SignalDispatch η) : Bool :=
  match d.phase with
  | .completed | .failed | .rejected => true
  | _ => false

def SignalDispatch.starting (d : SignalDispatch η) : Bool :=
  match d.phase with
  | .scheduled | .resuming | .handing _ => true
  | _ => false

def runningTasks (tasks : List ManagedTask) : Nat := tasks.countP ManagedTask.running

def isRunning (tasks : List ManagedTask) (index : Nat) : Bool :=
  tasks[index]?.any ManagedTask.running

def SignalRun.view (r : SignalRun ε η) : Closing ε :=
  { r.closing with state := { r.closing.state with tasks := runningTasks r.tasks } }

def SignalRun.initial (c : Closing ε) : SignalRun ε η :=
  { closing := c, tasks := [], dispatches := [], awaited := 0 }

def setDispatch (r : SignalRun ε η) (index : Nat) (d : SignalDispatch η) : SignalRun ε η :=
  { r with dispatches := r.dispatches.set index d }

def emitNowait (r : SignalRun ε η) (source : String) : SignalRun ε η :=
  if acceptsSignal r.closing.state source false then
    { r with
      tasks := r.tasks ++ [{ origin := .emit }]
      dispatches := r.dispatches ++
        [{ source := source, nowait := true, host := some r.tasks.length, phase := .scheduled }] }
  else
    { r with dispatches := r.dispatches ++
        [{ source := source, nowait := true, host := none, phase := .rejected }] }

def asyncEmit (r : SignalRun ε η) (host : Option Nat) (source : String) : SignalRun ε η :=
  { r with dispatches := r.dispatches ++
      [{ source := source, nowait := false, host := host
         phase := if acceptsSignal r.closing.state source false then .resuming else .rejected }] }

def handlersEnded (tasks : List ManagedTask) (dispatch : Nat) : Bool :=
  tasks.all fun t => decide (t.origin ≠ .handler dispatch) || !t.running

def advanceSignal (r : SignalRun ε η) (index : Nat) (found : List η) (d : SignalDispatch η) :
    Option (SignalRun ε η) :=
  match d.phase with
  | .scheduled =>
    if acceptsSignal r.closing.state d.source true then
      some (setDispatch r index { d with phase := .resuming })
    else some (setDispatch r index { d with phase := .rejected })
  | .resuming =>
    some (setDispatch r index { d with phase := .handing found, handlers := some found })
  | .handing (h :: rest) =>
    some (setDispatch { r with tasks := r.tasks ++ [{ origin := .handler index }] } index
      { d with
        phase := .handing rest
        started := d.started ++ [(h, r.closing.state.lifecycle)] })
  | .handing [] => some (setDispatch r index { d with phase := .gathering })
  | .gathering =>
    if handlersEnded r.tasks index then some (setDispatch r index { d with phase := .completed })
    else none
  | .completed | .failed | .rejected => none

def failSignal (r : SignalRun ε η) (index : Nat) (d : SignalDispatch η) :
    Option (SignalRun ε η) :=
  if d.over then none else some (setDispatch r index { d with phase := .failed })

def endTask (r : SignalRun ε η) (index : Nat) (retained : Option TaskError) :
    Option (SignalRun ε η) :=
  match r.tasks[index]? with
  | none => none
  | some t =>
    if t.running ∧ r.dispatches.all fun d => decide (d.host ≠ some index) || d.over then
      some { r with
        closing := { r.closing with state := managedTaskDone r.view.state retained }
        tasks := r.tasks.set index { t with running := false } }
    else none

def endsDrain (c : Closing ε) : CloseAction ε → Option CloseArgs
  | .advance index .ok | .advance index .timedOut =>
    match c.calls[index]? with
    | some (.closing args _ (.draining _)) => some args
    | _ => none
  | _ => none

section Step

variable (floatValue : FloatText → ℚ) (validateResult : Json → Except PyError Json)

/-- A step of the close. A drain that times out cancels tasks; those steps come before it, and
like any drain it ends when no task it waits for is left. -/
def closeSignals (r : SignalRun ε η) (a : CloseAction ε) : Option (SignalRun ε η) :=
  match a with
  | .signal _ _ => none
  | .taskDone _ => none
  | a =>
    match endsDrain r.closing a with
    | none => (closeStep floatValue validateResult r.view a).map fun c => { r with closing := c }
    | some args =>
      if runningTasks r.tasks ≤ args.ownTasks then
        (closeStep floatValue validateResult r.view a).map fun c =>
          { r with
            closing := c
            awaited := if args.ownTasks = 0 then r.dispatches.length else r.awaited }
      else none

def signalStep (r : SignalRun ε η) : SignalAction ε η → Option (SignalRun ε η)
  | .emitNowait source => some (emitNowait r source)
  | .asyncEmit host source =>
    if host.all (isRunning r.tasks) then some (asyncEmit r host source) else none
  | .advance index found => r.dispatches[index]?.bind (advanceSignal r index found)
  | .fail index => r.dispatches[index]?.bind (failSignal r index)
  | .startTask => some { r with tasks := r.tasks ++ [{ origin := .other }] }
  | .endTask index retained => endTask r index retained
  | .close a => closeSignals floatValue validateResult r a

def signalMachine : Machine (SignalRun ε η) (SignalAction ε η) :=
  ⟨signalStep floatValue validateResult⟩

def SignalRun.isClosed (r : SignalRun ε η) : Bool := decide (r.closing.state.lifecycle = .closed)

/-- What `emit_nowait` accepted has started its handlers before the execution is closed, what
is refused starts none, and no handler is started afterwards. -/
structure SignalsSurvive (r : SignalRun ε η) : Prop where
  dispatched : r.isClosed = true → ∀ d ∈ r.dispatches, d.nowait = true → d.phase ≠ .rejected →
    d.handlers = some (d.started.map Prod.fst)
  refused : ∀ d ∈ r.dispatches, d.phase = .rejected → d.started = []
  before : ∀ d ∈ r.dispatches, ∀ x ∈ d.started, x.2 ≠ .closed

def unawaited (r : SignalRun ε η) : List (SignalDispatch η) :=
  (r.dispatches.zipIdx.filter fun p => p.1.host.isNone || decide (r.awaited ≤ p.2)).map Prod.fst

def closesNow (r : SignalRun ε η) (a : CloseAction ε) : Bool :=
  !r.isClosed && (closeSignals floatValue validateResult r a).any SignalRun.isClosed

def Drained (r : SignalRun ε η) : SignalAction ε η → Prop
  | .emitNowait source | .asyncEmit _ source =>
    r.isClosed = true → acceptsSignal r.closing.state source false = false
  | .fail index => ∀ d ∈ r.dispatches[index]?, d.nowait = true → d.starting = false
  | .close a =>
    closesNow floatValue validateResult r a = true → ∀ d ∈ unawaited r, d.starting = false
  | _ => True

instance (r : SignalRun ε η) (a : SignalAction ε η) :
    Decidable (Drained floatValue validateResult r a) :=
  match a with
  | .emitNowait source | .asyncEmit _ source =>
    inferInstanceAs (Decidable (_ → acceptsSignal r.closing.state source false = false))
  | .fail index =>
    inferInstanceAs (Decidable (∀ d ∈ r.dispatches[index]?, d.nowait = true → d.starting = false))
  | .close _ => inferInstanceAs (Decidable (_ → ∀ d ∈ unawaited r, d.starting = false))
  | .advance _ _ | .startTask | .endTask _ _ => isTrue trivial

end Step

def Accounted (d : SignalDispatch η) : Prop :=
  match d.phase with
  | .scheduled | .resuming | .rejected => d.started = []
  | .handing remaining => d.handlers = some (d.started.map Prod.fst ++ remaining)
  | .gathering | .completed => d.handlers = some (d.started.map Prod.fst)
  | .failed => d.nowait = true → d.handlers = some (d.started.map Prod.fst)

structure DispatchOk (d : SignalDispatch η) : Prop where
  accounted : Accounted d
  before : ∀ x ∈ d.started, x.2 ≠ .closed

structure SurvivalInv (r : SignalRun ε η) : Prop where
  dispatches : ∀ d ∈ r.dispatches, DispatchOk d
  hosted : ∀ d ∈ r.dispatches, ∀ t, d.host = some t → d.over = false → isRunning r.tasks t = true
  waited : ∀ (n : Nat) d, r.dispatches[n]? = some d → n < r.awaited → d.host ≠ none →
    d.starting = false
  bound : r.awaited ≤ r.dispatches.length
  closed : r.isClosed = true → ∀ d ∈ r.dispatches, d.starting = false

theorem survivalInv_initial {c : Closing ε} : SurvivalInv (SignalRun.initial c : SignalRun ε η) where
  dispatches := by intro d hd; cases hd
  hosted := by intro d hd; cases hd
  waited := by intro n d hd; simp [SignalRun.initial] at hd
  bound := Nat.le_refl 0
  closed := by intro hc d hd; cases hd

variable {d : SignalDispatch η}

theorem over_of_starting (h : d.starting = true) : d.over = false := by
  unfold SignalDispatch.starting at h
  unfold SignalDispatch.over
  cases hp : d.phase <;> simp [hp] at h ⊢

theorem isRunning_append {tasks : List ManagedTask} {t : ManagedTask} {n : Nat}
    (h : isRunning tasks n = true) : isRunning (tasks ++ [t]) n = true := by
  unfold isRunning at h ⊢
  cases hn : tasks[n]? with
  | none => simp [hn] at h
  | some x =>
    obtain ⟨hlen, -⟩ := List.getElem?_eq_some_iff.mp hn
    rw [List.getElem?_append_left hlen, hn]
    rwa [hn] at h

theorem isRunning_new (tasks : List ManagedTask) (origin : TaskOrigin) :
    isRunning (tasks ++ [{ origin := origin }]) tasks.length = true := by
  simp [isRunning]

theorem not_isRunning_of_none {tasks : List ManagedTask} (h : runningTasks tasks = 0) (n : Nat) :
    isRunning tasks n = false := by
  unfold isRunning
  cases hn : tasks[n]? with
  | none => rfl
  | some t =>
    have hzero := List.countP_eq_zero.mp h t (List.mem_of_getElem? hn)
    simpa using hzero

variable {r : SignalRun ε η}

theorem SurvivalInv.addTask (h : SurvivalInv r) (t : ManagedTask) :
    SurvivalInv { r with tasks := r.tasks ++ [t] } where
  dispatches := h.dispatches
  hosted := fun d hd n hn ho => isRunning_append (h.hosted d hd n hn ho)
  waited := h.waited
  bound := h.bound
  closed := h.closed

theorem SurvivalInv.append (h : SurvivalInv r) (hok : DispatchOk d)
    (hhost : ∀ t, d.host = some t → d.over = false → isRunning r.tasks t = true)
    (hclosed : r.isClosed = true → d.starting = false) :
    SurvivalInv { r with dispatches := r.dispatches ++ [d] } where
  dispatches := by
    intro x hx
    rcases List.mem_append.mp hx with hx | hx
    · exact h.dispatches x hx
    · rw [List.mem_singleton.mp hx]
      exact hok
  hosted := by
    intro x hx
    rcases List.mem_append.mp hx with hx | hx
    · exact h.hosted x hx
    · rw [List.mem_singleton.mp hx]
      exact hhost
  waited := by
    intro n x hn hlt
    have hlen := h.bound
    have hold : n < r.dispatches.length := by
      have hn' : n < r.awaited := hlt
      omega
    rw [List.getElem?_append_left hold] at hn
    exact h.waited n x hn hlt
  bound := by
    have hlen := h.bound
    simp only [List.length_append]
    omega
  closed := by
    intro hc x hx
    rcases List.mem_append.mp hx with hx | hx
    · exact h.closed hc x hx
    · rw [List.mem_singleton.mp hx]
      exact hclosed hc

theorem SurvivalInv.set (h : SurvivalInv r) {index : Nat}
    {d' : SignalDispatch η} (hd : r.dispatches[index]? = some d) (hhost : d'.host = d.host)
    (hok : DispatchOk d') (hover : d'.over = false → d.over = false)
    (hstart : d'.starting = true → d.starting = true) : SurvivalInv (setDispatch r index d') := by
  have hmem := List.mem_of_getElem? hd
  have hstop : d.starting = false → d'.starting = false := by
    intro hs
    by_contra hn
    rw [hstart (Bool.eq_true_of_not_eq_false hn)] at hs
    cases hs
  refine ⟨?_, ?_, ?_, ?_, ?_⟩
  · intro x hx
    rcases List.mem_or_eq_of_mem_set hx with hx | rfl
    · exact h.dispatches x hx
    · exact hok
  · intro x hx
    rcases List.mem_or_eq_of_mem_set hx with hx | rfl
    · exact h.hosted x hx
    · intro t ht ho
      exact h.hosted d hmem t (hhost.symm.trans ht) (hover ho)
  · intro n x hn hlt hx
    rcases getElem?_set_cases hn with ⟨-, hn⟩ | ⟨rfl, rfl⟩
    · exact h.waited n x hn hlt hx
    · rw [hhost] at hx
      exact hstop (h.waited n d hd hlt hx)
  · show r.awaited ≤ (r.dispatches.set index d').length
    rw [List.length_set]
    exact h.bound
  · intro hc x hx
    rcases List.mem_or_eq_of_mem_set hx with hx | rfl
    · exact h.closed hc x hx
    · exact hstop (h.closed hc d hmem)

variable {r' : SignalRun ε η}

theorem SurvivalInv.advance (h : SurvivalInv r) {index : Nat}
    {found : List η} (hd : r.dispatches[index]? = some d)
    (he : advanceSignal r index found d = some r') : SurvivalInv r' := by
  obtain ⟨hacc, hbefore⟩ := h.dispatches d (List.mem_of_getElem? hd)
  unfold advanceSignal at he
  cases hp : d.phase with
  | scheduled =>
    simp only [hp] at he
    simp only [Accounted, hp] at hacc
    split at he
    · cases he
      exact h.set hd rfl ⟨hacc, hbefore⟩ (fun _ => by simp [SignalDispatch.over, hp])
        (fun _ => by simp [SignalDispatch.starting, hp])
    · cases he
      exact h.set hd rfl ⟨hacc, hbefore⟩ (fun ho => by cases ho) (fun hs => by cases hs)
  | resuming =>
    simp only [hp] at he
    simp only [Accounted, hp] at hacc
    cases he
    refine h.set hd rfl ⟨?_, hbefore⟩ (fun _ => by simp [SignalDispatch.over, hp])
      (fun _ => by simp [SignalDispatch.starting, hp])
    show some found = some (d.started.map Prod.fst ++ found)
    rw [hacc]
    rfl
  | handing remaining =>
    simp only [Accounted, hp] at hacc
    cases remaining with
    | nil =>
      simp only [hp] at he
      cases he
      refine h.set hd rfl ⟨?_, hbefore⟩ (fun _ => by simp [SignalDispatch.over, hp])
        (fun hs => by cases hs)
      show d.handlers = some (d.started.map Prod.fst)
      rw [hacc, List.append_nil]
    | cons x rest =>
      simp only [hp] at he
      cases he
      -- a dispatch that still starts handlers is not found once the execution is closed
      have hopen : r.closing.state.lifecycle ≠ .closed := by
        intro hc
        have hs := h.closed (decide_eq_true hc) d (List.mem_of_getElem? hd)
        simp [SignalDispatch.starting, hp] at hs
      refine (h.addTask _).set (r := { r with tasks := _ }) hd rfl ⟨?_, ?_⟩
        (fun _ => by simp [SignalDispatch.over, hp])
        (fun _ => by simp [SignalDispatch.starting, hp])
      · show d.handlers = some ((d.started ++ [(x, _)]).map Prod.fst ++ rest)
        rw [hacc, List.map_append, List.append_assoc]
        rfl
      · intro y hy
        rcases List.mem_append.mp hy with hy | hy
        · exact hbefore y hy
        · rw [List.mem_singleton.mp hy]
          exact hopen
  | gathering =>
    simp only [hp] at he
    simp only [Accounted, hp] at hacc
    split at he
    · cases he
      exact h.set hd rfl ⟨hacc, hbefore⟩ (fun ho => by cases ho) (fun hs => by cases hs)
    · cases he
  | completed | failed | rejected => simp only [hp] at he; cases he

theorem SurvivalInv.fail (h : SurvivalInv r) {index : Nat} (hd : r.dispatches[index]? = some d)
    (hc : d.nowait = true → d.starting = false) (he : failSignal r index d = some r') :
    SurvivalInv r' := by
  obtain ⟨hacc, hbefore⟩ := h.dispatches d (List.mem_of_getElem? hd)
  unfold failSignal at he
  split at he
  · cases he
  next hover =>
    cases he
    refine h.set hd rfl ⟨?_, hbefore⟩ (fun ho => by cases ho) (fun hs => by cases hs)
    intro hn
    have hs := hc hn
    show d.handlers = some (d.started.map Prod.fst)
    unfold Accounted at hacc
    cases hp : d.phase with
    | scheduled | resuming | handing remaining => simp [SignalDispatch.starting, hp] at hs
    | completed | failed | rejected => simp [SignalDispatch.over, hp] at hover
    | gathering => simpa only [hp] using hacc

theorem SurvivalInv.endTask (h : SurvivalInv r) {index : Nat}
    {retained : Option TaskError} (he : endTask r index retained = some r') : SurvivalInv r' := by
  unfold Close.endTask at he
  split at he
  · cases he
  next t ht =>
    split at he
    next hends =>
      cases he
      refine ⟨h.dispatches, ?_, h.waited, h.bound, h.closed⟩
      intro d hd n hn ho
      have hne : n ≠ index := by
        intro hsame
        have hall := List.all_eq_true.mp hends.2 d hd
        rw [hn, hsame, ho] at hall
        simp at hall
      have hrun := h.hosted d hd n hn ho
      unfold isRunning at hrun ⊢
      rwa [List.getElem?_set_ne (Ne.symm hne)]
    next => cases he

section Step

variable {floatValue : FloatText → ℚ} {validateResult : Json → Except PyError Json}

variable {r : SignalRun ε η}

theorem mem_unawaited {n : Nat} {d : SignalDispatch η}
    (hd : r.dispatches[n]? = some d) (h : d.host = none ∨ r.awaited ≤ n) : d ∈ unawaited r := by
  refine List.mem_map.mpr ⟨(d, n), List.mem_filter.mpr ⟨?_, ?_⟩, rfl⟩
  · exact List.mem_zipIdx_iff_getElem?.mpr hd
  · rcases h with h | h
    · simp [h]
    · simp [h]

variable {r' : SignalRun ε η}

theorem closeSignals_cases {a : CloseAction ε}
    (h : closeSignals floatValue validateResult r a = some r') :
    ∃ c, r' = { r with closing := c } ∨
      runningTasks r.tasks = 0 ∧ r' = { r with closing := c, awaited := r.dispatches.length } := by
  unfold closeSignals at h
  split at h
  · cases h
  · cases h
  · split at h
    · obtain ⟨c, -, rfl⟩ := Option.map_eq_some_iff.mp h
      exact ⟨c, .inl rfl⟩
    next args hends =>
      split at h
      next hle =>
        obtain ⟨c, -, rfl⟩ := Option.map_eq_some_iff.mp h
        refine ⟨c, ?_⟩
        by_cases hown : args.ownTasks = 0
        · right
          rw [if_pos hown]
          exact ⟨by omega, rfl⟩
        · left
          rw [if_neg hown]
      next => cases h

theorem SurvivalInv.stopped (h : SurvivalInv r) (hrun : runningTasks r.tasks = 0)
    {d : SignalDispatch η} (hd : d ∈ r.dispatches) (hhost : d.host ≠ none) : d.starting = false := by
  obtain ⟨t, ht⟩ := Option.ne_none_iff_exists'.mp hhost
  by_contra hs
  have hover := over_of_starting (Bool.eq_true_of_not_eq_false hs)
  have hrunning := h.hosted d hd t ht hover
  rw [not_isRunning_of_none hrun t] at hrunning
  cases hrunning

theorem SurvivalInv.close (h : SurvivalInv r) {a : CloseAction ε}
    (hc : closesNow floatValue validateResult r a = true → ∀ d ∈ unawaited r, d.starting = false)
    (he : closeSignals floatValue validateResult r a = some r') : SurvivalInv r' := by
  have hclosed : r'.isClosed = true → ∀ d ∈ r.dispatches, d.starting = false := by
    intro hr' d hd
    by_cases hr : r.isClosed = true
    · exact h.closed hr d hd
    · have hnow : closesNow floatValue validateResult r a = true := by
        simp [closesNow, he, hr', Bool.eq_false_iff.mpr hr]
      obtain ⟨n, hn⟩ := List.mem_iff_getElem?.mp hd
      by_cases hun : d.host = none ∨ r.awaited ≤ n
      · exact hc hnow d (mem_unawaited hn hun)
      · have hlt : n < r.awaited := by omega
        exact h.waited n d hn hlt fun hnone => hun (.inl hnone)
  obtain ⟨c, rfl | ⟨hrun, rfl⟩⟩ := closeSignals_cases he
  · exact ⟨h.dispatches, h.hosted, h.waited, h.bound, hclosed⟩
  · refine ⟨h.dispatches, h.hosted, ?_, Nat.le_refl _, hclosed⟩
    intro n d hn _ hhost
    exact h.stopped hrun (List.mem_of_getElem? hn) hhost

theorem survivalInv_step {a : SignalAction ε η} (h : SurvivalInv r)
    (hc : Drained floatValue validateResult r a)
    (he : signalStep floatValue validateResult r a = some r') : SurvivalInv r' := by
  cases a with
  | emitNowait source =>
    cases he
    unfold emitNowait
    split
    next haccepts =>
      refine (h.addTask { origin := .emit }).append ⟨rfl, by intro x hx; cases hx⟩ ?_ ?_
      · intro t ht _
        cases ht
        exact isRunning_new r.tasks .emit
      · intro hclosed
        rw [hc hclosed] at haccepts
        cases haccepts
    next =>
      exact h.append ⟨rfl, by intro x hx; cases hx⟩ (by intro t ht; cases ht)
        (fun _ => rfl)
  | asyncEmit host source =>
    simp only [signalStep] at he
    split at he
    next hhost =>
      cases he
      refine h.append ⟨?_, by intro x hx; cases hx⟩ ?_ ?_
      · cases acceptsSignal r.closing.state source false <;> rfl
      · intro t ht _
        cases ht
        exact hhost
      · intro hclosed
        rw [hc hclosed]
        rfl
    next => cases he
  | advance index found =>
    obtain ⟨d, hd, hadv⟩ := Option.bind_eq_some_iff.mp he
    exact h.advance hd hadv
  | fail index =>
    obtain ⟨d, hd, hfail⟩ := Option.bind_eq_some_iff.mp he
    exact h.fail hd (hc d hd) hfail
  | startTask =>
    cases he
    exact h.addTask _
  | endTask index retained => exact h.endTask he
  | close a => exact h.close hc he

theorem signalsSurvive_of_inv (h : SurvivalInv r) : SignalsSurvive r where
  dispatched := by
    intro hclosed d hd hn hrej
    have hacc := (h.dispatches d hd).accounted
    have hs := h.closed hclosed d hd
    unfold Accounted at hacc
    cases hp : d.phase with
    | scheduled | resuming | handing remaining => simp [SignalDispatch.starting, hp] at hs
    | gathering | completed => simpa only [hp] using hacc
    | failed =>
      simp only [hp] at hacc
      exact hacc hn
    | rejected => exact absurd hp hrej
  refused := by
    intro d hd hrej
    have hacc := (h.dispatches d hd).accounted
    simpa only [Accounted, hrej] using hacc
  before := fun d hd => (h.dispatches d hd).before

/-- In every run whose steps meet the condition, what `emit_nowait` accepted is dispatched
before the execution is closed, and nothing is started later. -/
theorem signals_survive_sealing {c : Closing ε} {as : List (SignalAction ε η)} {r : SignalRun ε η}
    (hm : (signalMachine floatValue validateResult).Meets (Drained floatValue validateResult)
      (SignalRun.initial c) as)
    (hr : (signalMachine floatValue validateResult).run (SignalRun.initial c) as = some r) :
    SignalsSurvive r :=
  signalsSurvive_of_inv <|
    (signalMachine floatValue validateResult).run_invariant_meeting
      (fun _ _ _ hi hd hs => survivalInv_step hi hd hs) survivalInv_initial hm hr

end Step

def plainSignals : Machine (SignalRun String String) (SignalAction String String) :=
  signalMachine (fun _ => 0) Except.ok

def closingOutcomes : List CloseOutcome :=
  [.ok, .prepared "completed" "closed", .ok, .ok, .ok]

/-- A close from its start to the closed state, of an execution where nothing is left; `first`
are its awaits before the drain. -/
def closeRun (first : List CloseOutcome) : List (SignalAction String String) :=
  .close (.close {}) :: (first ++ closingOutcomes).map fun o => .close (.advance 0 o)

def outsideRun : List (SignalAction String String) :=
  .asyncEmit none "runtime" :: closeRun [.ok, .ok] ++ [.advance 0 ["audit"], .advance 0 []]

def nowaitRun : List (SignalAction String String) :=
  [.emitNowait "runtime", .close .asyncSeal, .advance 0 [], .advance 0 ["audit"], .advance 0 [],
    .advance 0 [], .endTask 1 none, .advance 0 [], .endTask 0 none] ++ closeRun [.ok]

def afterSignals (as : List (SignalAction String String)) : SignalRun String String :=
  (plainSignals.run (SignalRun.initial openExecution) as).getD (SignalRun.initial openExecution)

theorem afterSignals_run {as : List (SignalAction String String)}
    (h : (plainSignals.run (SignalRun.initial openExecution) as).isSome) :
    plainSignals.run (SignalRun.initial openExecution) as = some (afterSignals as) := by
  obtain ⟨r, hr⟩ := Option.isSome_iff_exists.mp h
  rw [afterSignals, hr]
  rfl

theorem handler_starts_when_closed :
    ¬ ∀ (c : Closing String) (as : List (SignalAction String String)) r, Unclosed c →
      plainSignals.run (SignalRun.initial c) as = some r → SignalsSurvive r := by
  intro h
  have hsurvive := h openExecution outsideRun _ openExecution_unclosed
    (afterSignals_run (by decide +kernel))
  have hstarted : ∃ d ∈ (afterSignals outsideRun).dispatches, ∃ x ∈ d.started, x.2 = .closed := by
    decide +kernel
  obtain ⟨d, hd, x, hx, hclosed⟩ := hstarted
  exact hsurvive.before d hd x hx hclosed

theorem sealed_signal_is_dispatched :
    SignalsSurvive (afterSignals nowaitRun) ∧ (afterSignals nowaitRun).isClosed = true :=
  ⟨@signals_survive_sealing String String (fun _ => 0) Except.ok openExecution nowaitRun _
    (by decide +kernel) (afterSignals_run (by decide +kernel)), by decide +kernel⟩

end Agently.TriggerFlow.Close
