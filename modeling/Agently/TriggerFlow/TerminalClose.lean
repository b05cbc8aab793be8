import Agently.TriggerFlow.CloseProtocol
import Agently.TriggerFlow.PoolRecords

/-! # One terminal unit

Close attempts hold a lock, freeze the state, store a terminal unit and close the execution.
Until a unit is stored a failing attempt thaws the state; from then on the state stays frozen
and every later attempt reuses the unit, until one of them closes the execution for good. -/

namespace Agently.TriggerFlow.Close

open Agently.Lib Agently.Utils
open Agently.Utils.StateData (Data)

variable {ε : Type}

def IsEventOf (unit : TerminalRetention) : TerminalEvent → Prop
  | .completed id version =>
    id = unit.completedEventId ∧ version = unit.completedEventStateVersion
  | .closed id event => id = unit.closedEventId ∧ unit.closedEvent = some event

/-- The unit `v` is the unit `u`, perhaps with its closed event fixed since. -/
structure Continues (u v : TerminalRetention) : Prop where
  closeResult : v.closeResult = u.closeResult
  completedEventId : v.completedEventId = u.completedEventId
  completedEventStateVersion : v.completedEventStateVersion = u.completedEventStateVersion
  closedEventId : v.closedEventId = u.closedEventId
  closedEvent : ∀ event, u.closedEvent = some event → v.closedEvent = some event

def SameData (s t : CloseState ε) : Prop :=
  t.result = s.result ∧ ∀ key, key ≠ interventionsStateKey →
    Dict.get? t.runtimeData key = Dict.get? s.runtimeData key

structure Later (s t : CloseState ε) : Prop where
  closed : s.lifecycle = .closed → t.lifecycle = .closed ∧ t.closeResult = s.closeResult
  unit : ∀ u, s.terminalRetention = some u →
    t.built = s.built ∧ ∃ v, t.terminalRetention = some v ∧ Continues u v

def gaveUp : CloseCall → Prop
  | .raised => True
  | .closing _ _ .unsealing => True
  | _ => False

section Protocol

variable (floatValue : FloatText → ℚ) (validateResult : Json → Except PyError Json)

structure ClosesOnce (c : Closing ε) : Prop where
  oneAttempt : ∀ (i j : Nat) (x y : CloseArgs) (b d : Bool) (ph qh : ClosePhase),
    c.calls[i]? = some (.closing x b ph) → c.calls[j]? = some (.closing y d qh) → i = j
  result : ∀ (i : Nat) (r : Option Data), c.calls[i]? = some (.returned r) →
    c.state.lifecycle = .closed ∧
      ∃ u, c.state.terminalRetention = some u ∧ r = some u.closeResult
  snapshot : ∀ u, c.state.terminalRetention = some u → c.state.built.head? = some u.closeResult
  events : ∀ e ∈ c.state.emitted, ∃ u, c.state.terminalRetention = some u ∧ IsEventOf u e
  thawed : c.lock = none → c.state.terminalRetention = none →
    c.state.terminalStateFrozen = false
  frozen : c.state.terminalRetention.isSome = true → c.state.terminalStateFrozen = true
  refuses : c.state.terminalStateFrozen = true → c.state.lifecycle ≠ .closed →
    (∀ operation key value, ∃ e,
      changeRuntimeData floatValue c.state operation key value = .error e) ∧
    (∀ value, ∃ e, setResult validateResult c.state value = .error e) ∧
    ∃ e, asyncUnseal c.state = .error e
  closable : ∃ as d, (closeMachine floatValue validateResult).run c as = some d ∧
    d.state.lifecycle = .closed

structure StepKeeps (c : Closing ε) (a : CloseAction ε) (d : Closing ε) : Prop where
  data : c.state.terminalStateFrozen = true → c.state.lifecycle ≠ .closed →
    (∀ runtimeData flowData, a ≠ .writeBack runtimeData flowData) → SameData c.state d.state
  reopened : ∀ (i : Nat) (o : CloseOutcome) (args : CloseArgs) (phase : ClosePhase)
    (call : CloseCall), a = .advance i o → c.calls[i]? = some (.closing args true phase) →
    phase ≠ .unsealing → d.calls[i]? = some call → gaveUp call →
    d.state.terminalRetention = none →
      d.state.terminalStateFrozen = false ∧ d.state.lifecycle ≠ .sealed

end Protocol

structure Unclosed (c : Closing ε) : Prop where
  lock : c.lock = none
  calls : c.calls = []
  lifecycle : c.state.lifecycle ≠ .closed
  thawed : c.state.terminalStateFrozen = false
  unit : c.state.terminalRetention = none
  emitted : c.state.emitted = []

structure Terminal where
  lifecycle : Lifecycle
  frozen : Bool
  retention : Option TerminalRetention
  closeResult : Option Data
  built : List Data
  emitted : List TerminalEvent

def CloseState.terminal (s : CloseState ε) : Terminal where
  lifecycle := s.lifecycle
  frozen := s.terminalStateFrozen
  retention := s.terminalRetention
  closeResult := s.closeResult
  built := s.built
  emitted := s.emitted

structure Sound (t : Terminal) : Prop where
  frozen : t.retention.isSome = true → t.frozen = true
  snapshot : ∀ u, t.retention = some u → t.built.head? = some u.closeResult
  events : ∀ e ∈ t.emitted, ∃ u, t.retention = some u ∧ IsEventOf u e
  closed : t.lifecycle = .closed →
    ∃ u, t.retention = some u ∧ t.closeResult = some u.closeResult

def Rest (t : Terminal) : Prop := Sound t ∧ (t.frozen = true → t.retention.isSome = true)

def PhaseOk (t : Terminal) : ClosePhase → Prop
  | .preparing result =>
    Sound t ∧ t.lifecycle ≠ .closed ∧ t.retention = none ∧ t.frozen = true ∧
      t.built.head? = some result
  | .completing u => Rest t ∧ t.lifecycle ≠ .closed ∧ t.retention = some u
  | .stopping u => Rest t ∧ t.lifecycle ≠ .closed ∧ t.retention = some u
  | .releasing u => Rest t ∧ t.lifecycle ≠ .closed ∧ t.retention = some u
  | .notifying u =>
    Rest t ∧ t.lifecycle ≠ .closed ∧ t.retention = some u ∧
      t.closeResult = some u.closeResult
  | .renotifying u =>
    Rest t ∧ t.lifecycle ≠ .closed ∧ t.retention = some u ∧
      t.closeResult = some u.closeResult
  | .applying u _ => Rest t ∧ t.lifecycle = .closed ∧ t.retention = some u
  | .retaining u _ => Rest t ∧ t.lifecycle = .closed ∧ t.retention = some u
  | .staging _ => Rest t ∧ t.lifecycle = .closed
  | _ => Rest t ∧ t.lifecycle ≠ .closed

def CallOk (t : Terminal) : CloseCall → Prop
  | .waiting _ => False
  | .closing _ _ phase => PhaseOk t phase
  | .returned r => Rest t ∧ t.lifecycle = .closed ∧ r = t.closeResult
  | .raised => Rest t

structure Keeps (t t' : Terminal) : Prop where
  closed : t.lifecycle = .closed → t'.lifecycle = .closed ∧ t'.closeResult = t.closeResult
  unit : ∀ u, t.retention = some u →
    t'.built = t.built ∧ ∃ v, t'.retention = some v ∧ Continues u v

theorem Continues.refl (u : TerminalRetention) : Continues u u := ⟨rfl, rfl, rfl, rfl, fun _ h => h⟩

variable {u : TerminalRetention}

theorem Continues.trans {v w : TerminalRetention} (h : Continues u v) (h' : Continues v w) :
    Continues u w :=
  ⟨h'.closeResult.trans h.closeResult, h'.completedEventId.trans h.completedEventId,
    h'.completedEventStateVersion.trans h.completedEventStateVersion,
    h'.closedEventId.trans h.closedEventId, fun e he => h'.closedEvent e (h.closedEvent e he)⟩

theorem continues_closedEvent (h : u.closedEvent = none)
    (event : ClosedEvent) : Continues u { u with closedEvent := some event } :=
  ⟨rfl, rfl, rfl, rfl, fun e he => by rw [h] at he; cases he⟩

theorem isEventOf_of_continues {v : TerminalRetention} (h : Continues u v) {e : TerminalEvent}
    (he : IsEventOf u e) : IsEventOf v e := by
  cases e with
  | completed id version =>
    exact ⟨he.1.trans h.completedEventId.symm, he.2.trans h.completedEventStateVersion.symm⟩
  | closed id event => exact ⟨he.1.trans h.closedEventId.symm, h.closedEvent event he.2⟩

theorem Keeps.refl (t : Terminal) : Keeps t t :=
  ⟨fun h => ⟨h, rfl⟩, fun u hu => ⟨rfl, u, hu, .refl u⟩⟩

theorem Keeps.trans {t t' t'' : Terminal} (h : Keeps t t') (h' : Keeps t' t'') : Keeps t t'' := by
  refine ⟨?_, ?_⟩
  · intro hc
    obtain ⟨hc', hr⟩ := h.closed hc
    obtain ⟨hc'', hr'⟩ := h'.closed hc'
    exact ⟨hc'', hr'.trans hr⟩
  · intro u hu
    obtain ⟨hb, v, hv, huv⟩ := h.unit u hu
    obtain ⟨hb', w, hw, hvw⟩ := h'.unit v hv
    exact ⟨hb'.trans hb, w, hw, huv.trans hvw⟩

theorem SameData.refl (s : CloseState ε) : SameData s s := ⟨rfl, fun _ _ => rfl⟩

theorem SameData.trans {r s t : CloseState ε} (h : SameData r s) (h' : SameData s t) :
    SameData r t :=
  ⟨h'.1.trans h.1, fun key hk => (h'.2 key hk).trans (h.2 key hk)⟩

theorem PhaseOk.sound {t : Terminal} {phase : ClosePhase} (h : PhaseOk t phase) : Sound t := by
  cases phase with
  | preparing result => exact h.1
  | _ => exact h.1.1

/-- What a segment makes of the state, given whether the call has sealed the execution. -/
structure Yields (s : CloseState ε) (sealedForClose : Bool) (r : CloseState ε × CloseCall) :
    Prop where
  call : CallOk r.1.terminal r.2
  keeps : Keeps s.terminal r.1.terminal
  data : SameData s r.1
  reopened : gaveUp r.2 → r.1.terminalRetention = none → r.1.terminalStateFrozen = false ∧
    (sealedForClose = true → r.1.lifecycle ≠ .sealed)

section Segments

variable {s : CloseState ε} {args : CloseArgs} {sealedForClose cancelled : Bool}
  {u : TerminalRetention}

variable {r : CloseState ε × CloseCall}

theorem Yields.after {t : CloseState ε} (hk : Keeps s.terminal t.terminal) (hd : SameData s t)
    (h : Yields t sealedForClose r) : Yields s sealedForClose r :=
  ⟨h.call, hk.trans h.keeps, hd.trans h.data, h.reopened⟩

theorem terminal_setLifecycleState (s : CloseState ε) (l : Lifecycle) :
    (setLifecycleState s l).terminal = { s.terminal with lifecycle := l } := by
  unfold setLifecycleState
  split
  next h =>
    rw [← h]
    rfl
  next => rfl

@[simp] theorem lifecycle_setLifecycleState (s : CloseState ε) (l : Lifecycle) :
    (setLifecycleState s l).lifecycle = l :=
  congrArg Terminal.lifecycle (terminal_setLifecycleState s l)

@[simp] theorem frozen_setLifecycleState (s : CloseState ε) (l : Lifecycle) :
    (setLifecycleState s l).terminalStateFrozen = s.terminalStateFrozen :=
  congrArg Terminal.frozen (terminal_setLifecycleState s l)

theorem opened_ne_closed : Lifecycle.opened ≠ .closed := by decide

theorem sameData_setLifecycleState (s : CloseState ε) (l : Lifecycle) :
    SameData s (setLifecycleState s l) := by
  unfold setLifecycleState
  split
  · exact .refl s
  · exact ⟨rfl, fun _ _ => rfl⟩

theorem terminal_completed (s : CloseState ε) : (completed s).terminal = s.terminal := by
  unfold completed
  split <;> rfl

theorem sameData_completed (s : CloseState ε) : SameData s (completed s) := by
  unfold completed
  split
  · exact .refl s
  · exact ⟨rfl, fun _ _ => rfl⟩

variable {t : Terminal}

theorem sound_lifecycle {l : Lifecycle} (h : Sound t) (hl : l ≠ .closed) :
    Sound { t with lifecycle := l } :=
  ⟨h.frozen, h.snapshot, h.events, fun hc => absurd hc hl⟩

theorem keeps_lifecycle (l : Lifecycle) (h : t.lifecycle ≠ .closed) :
    Keeps t { t with lifecycle := l } :=
  ⟨fun hc => absurd hc h, fun u hu => ⟨rfl, u, hu, .refl u⟩⟩

theorem failClose_yields (h : Sound s.terminal) (hl : s.lifecycle ≠ .closed) :
    Yields s sealedForClose (failClose s args sealedForClose) := by
  have hthawed : Rest { s.terminal with
      frozen := s.terminalStateFrozen && s.terminalRetention.isSome } := by
    refine ⟨⟨?_, h.snapshot, h.events, h.closed⟩, ?_⟩
    · intro hr
      show (s.terminalStateFrozen && s.terminalRetention.isSome) = true
      rw [Bool.and_eq_true]
      exact ⟨h.frozen hr, hr⟩
    · intro hf
      exact (Bool.and_eq_true _ _ ▸ hf : _ ∧ _).2
  have hnone : s.terminalRetention = none →
      (s.terminalStateFrozen && s.terminalRetention.isSome) = false := by
    intro hr
    rw [hr]
    exact Bool.and_false _
  unfold failClose
  rw [if_neg hl]
  split
  next hsealed =>
    refine ⟨?_, ?_, ?_, ?_⟩
    · show Rest _ ∧ _
      rw [terminal_setLifecycleState]
      exact ⟨⟨sound_lifecycle hthawed.1 opened_ne_closed, hthawed.2⟩, opened_ne_closed⟩
    · rw [terminal_setLifecycleState]
      exact ⟨fun hc => absurd hc hl, fun u hu => ⟨rfl, u, hu, .refl u⟩⟩
    · exact SameData.trans ⟨rfl, fun _ _ => rfl⟩ (sameData_setLifecycleState _ _)
    · intro _ _
      have hr : s.terminalRetention = none := by simpa using hsealed.2.1
      refine ⟨?_, fun _ => ?_⟩
      · rw [frozen_setLifecycleState]
        exact hnone hr
      · rw [lifecycle_setLifecycleState]
        decide
  next hsealed =>
    refine ⟨hthawed, ⟨fun hc => absurd hc hl, fun u hu => ⟨rfl, u, hu, .refl u⟩⟩,
      ⟨rfl, fun _ _ => rfl⟩, ?_⟩
    intro _ hr
    refine ⟨hnone hr, fun hs hl' => hsealed ⟨hs, ?_, hl'⟩⟩
    rw [show s.terminalRetention = none from hr]
    rfl

variable {s' : CloseState ε} {b : Bool}

theorem yields_phase {phase : ClosePhase}
    (hk : Keeps s.terminal s'.terminal) (hd : SameData s s') (hp : PhaseOk s'.terminal phase)
    (hu : phase ≠ .unsealing) : Yields s sealedForClose (s', .closing args b phase) :=
  ⟨hp, hk, hd, fun hg => by cases phase <;> first | exact absurd rfl hu | exact hg.elim⟩

theorem yields_same {phase : ClosePhase} (ht : s'.terminal = s.terminal) (hd : SameData s s')
    (hp : PhaseOk s.terminal phase) (hu : phase ≠ .unsealing) :
    Yields s sealedForClose (s', .closing args b phase) :=
  yields_phase (ht ▸ .refl _) hd (ht ▸ hp) hu

theorem rest_continues {v : TerminalRetention} (h : Rest t)
    (hu : t.retention = some u) (hv : Continues u v) : Rest { t with retention := some v } := by
  have hsame : ∀ w, t.retention = some w → w = u := by
    intro w hw
    exact Option.some.inj (hw.symm.trans hu)
  refine ⟨⟨fun _ => h.1.frozen (by rw [hu]; rfl), ?_, ?_, ?_⟩, fun _ => rfl⟩
  · intro w hw
    rw [← Option.some.inj hw, hv.closeResult]
    exact h.1.snapshot u hu
  · intro e he
    obtain ⟨w, hw, hew⟩ := h.1.events e he
    rw [hsame w hw] at hew
    exact ⟨v, rfl, isEventOf_of_continues hv hew⟩
  · intro hc
    obtain ⟨w, hw, hres⟩ := h.1.closed hc
    rw [hsame w hw] at hres
    exact ⟨v, rfl, by rw [hv.closeResult]; exact hres⟩

theorem keeps_continues {v : TerminalRetention} (hu : t.retention = some u)
    (hv : Continues u v) : Keeps t { t with retention := some v } := by
  refine ⟨fun hc => ⟨hc, rfl⟩, ?_⟩
  intro w hw
  have hwu : w = u := Option.some.inj (hw.symm.trans hu)
  exact ⟨rfl, v, rfl, hwu ▸ hv⟩

theorem rest_closeResult (h : Rest t) (hl : t.lifecycle ≠ .closed)
    (r : Option Data) : Rest { t with closeResult := r } :=
  ⟨⟨h.1.frozen, h.1.snapshot, h.1.events, fun hc => absurd hc hl⟩, h.2⟩

theorem keeps_closeResult (hl : t.lifecycle ≠ .closed) (r : Option Data) :
    Keeps t { t with closeResult := r } :=
  ⟨fun hc => absurd hc hl, fun u hu => ⟨rfl, u, hu, .refl u⟩⟩

theorem notifyClosed_yields (h : Rest s.terminal) (hl : s.lifecycle ≠ .closed)
    (hu : s.terminalRetention = some u) :
    Yields s sealedForClose (notifyClosed s args sealedForClose u) := by
  have hrest := rest_closeResult h hl (some u.closeResult)
  have hkeeps : Keeps s.terminal { s.terminal with closeResult := some u.closeResult } :=
    keeps_closeResult hl _
  unfold notifyClosed
  split
  next event he =>
    exact yields_phase hkeeps ⟨rfl, fun _ _ => rfl⟩ ⟨hrest, hl, hu, rfl⟩ nofun
  next he =>
    have hcont := continues_closedEvent he
      { reason := args.reason
        retentionStatus := retentionStatus s u
        stateVersion := s.stateVersion + 1 }
    exact yields_phase (hkeeps.trans (keeps_continues hu hcont)) ⟨rfl, fun _ _ => rfl⟩
      ⟨rest_continues hrest hu hcont, hl, rfl, rfl⟩ nofun

theorem releaseResources_yields (h : Rest s.terminal) (hl : s.lifecycle ≠ .closed)
    (hu : s.terminalRetention = some u) :
    Yields s sealedForClose (releaseResources s args sealedForClose u) := by
  unfold releaseResources
  split
  · exact notifyClosed_yields h hl hu
  · exact yields_phase (.refl _) ⟨rfl, fun _ _ => rfl⟩ ⟨h, hl, hu⟩ nofun

theorem stopStream_yields (h : Rest s.terminal) (hl : s.lifecycle ≠ .closed)
    (hu : s.terminalRetention = some u) :
    Yields s sealedForClose (stopStream s args sealedForClose u) := by
  unfold stopStream
  split
  · exact releaseResources_yields h hl hu
  · exact yields_phase (.refl _) ⟨rfl, fun _ _ => rfl⟩ ⟨h, hl, hu⟩ nofun

theorem emitCompleted_yields (h : Rest s.terminal) (hl : s.lifecycle ≠ .closed)
    (hu : s.terminalRetention = some u) :
    Yields s sealedForClose (emitCompleted s args sealedForClose u) := by
  unfold emitCompleted
  split
  · exact yields_phase (.refl _) (.refl _) ⟨h, hl, hu⟩ nofun
  · exact stopStream_yields h hl hu

theorem freezeTerminalState_yields (h : Rest s.terminal) (hl : s.lifecycle ≠ .closed) :
    Yields s sealedForClose (freezeTerminalState s args sealedForClose) := by
  unfold freezeTerminalState
  split
  next unit hu =>
    have hterminal := terminal_completed s
    refine Yields.after (t := completed s) (by rw [hterminal]; exact .refl _)
      (sameData_completed s) (emitCompleted_yields (by rw [hterminal]; exact h) ?_ ?_)
    · exact fun hc => hl ((congrArg Terminal.lifecycle hterminal).symm.trans hc)
    · exact (congrArg Terminal.retention hterminal).trans hu
  next hu =>
    have hterminal := terminal_completed
      { s with terminalStateFrozen := true, built := buildCloseSnapshot s :: s.built }
    refine yields_phase ?_ (SameData.trans ⟨rfl, fun _ _ => rfl⟩ (sameData_completed _)) ?_
      nofun
    · rw [hterminal]
      refine ⟨fun hc => absurd hc hl, fun v hv => ?_⟩
      rw [show s.terminal.retention = none from hu] at hv
      cases hv
    · rw [hterminal]
      refine ⟨⟨fun _ => rfl, ?_, h.1.events, h.1.closed⟩, hl, hu, rfl, rfl⟩
      intro v hv
      rw [show s.terminalRetention = some v from hv] at hu
      cases hu

theorem sameData_writeInterventionRecords (s : CloseState ε) (records : Data) :
    SameData s (writeInterventionRecords s records) :=
  ⟨rfl, fun _ hk => Dict.get?_set_of_ne _ _ (Ne.symm hk)⟩

theorem expireInterventions_yields (h : Rest s.terminal) (hl : s.lifecycle ≠ .closed) :
    Yields s sealedForClose (expireInterventions s args sealedForClose) := by
  unfold expireInterventions
  split
  · exact freezeTerminalState_yields h hl
  · exact yields_phase (.refl _) (sameData_writeInterventionRecords s _) ⟨h, hl⟩
      nofun

theorem thawed_of_rest (h : Rest s.terminal) (hr : s.terminalRetention = none) :
    s.terminalStateFrozen = false := by
  cases hf : s.terminalStateFrozen with
  | false => rfl
  | true =>
    have hs := h.2 hf
    rw [show s.terminal.retention = none from hr] at hs
    cases hs

theorem startDrain_yields (h : Rest s.terminal) (hl : s.lifecycle ≠ .closed) :
    Yields s sealedForClose (startDrain s args b) :=
  yields_phase (.refl _) ⟨rfl, fun _ _ => rfl⟩ ⟨h, hl⟩ nofun

theorem raisePendingTaskErrors_spec {errors : List TaskError} {r : CloseState ε × Bool}
    (h : raisePendingTaskErrors s errors = some r) :
    r.1.terminal = s.terminal ∧ SameData s r.1 := by
  induction errors with
  | nil => cases h
  | cons error rest ih =>
    cases error with
    | failed =>
      simp only [raisePendingTaskErrors, Option.some.injEq] at h
      subst h
      exact ⟨rfl, rfl, fun _ _ => rfl⟩
    | cancelled =>
      unfold raisePendingTaskErrors at h
      split at h
      · exact ih h
      · cases h
        exact ⟨rfl, rfl, fun _ _ => rfl⟩

theorem handlePendingInterrupts_spec (h : handlePendingInterrupts s args = .cancelled s') :
    s'.terminal = s.terminal ∧ SameData s s' := by
  unfold handlePendingInterrupts at h
  dsimp only at h
  split at h
  · cases h
  · split at h
    · split at h
      · cases h
        exact ⟨rfl, rfl, fun _ _ => rfl⟩
      · cases h
    · cases h

theorem endDrain_yields {collected : List TaskError} (h : Rest s.terminal)
    (hl : s.lifecycle ≠ .closed) :
    Yields s sealedForClose (endDrain s args sealedForClose collected) := by
  unfold endDrain
  dsimp only
  split
  next s' hs =>
    obtain ⟨hterminal, hdata⟩ := raisePendingTaskErrors_spec hs
    exact yields_same hterminal hdata ⟨h, hl⟩ nofun
  next s' hs =>
    obtain ⟨hterminal, hdata⟩ := raisePendingTaskErrors_spec hs
    have hterminal' : s'.terminal = s.terminal := hterminal
    refine Yields.after (t := s') (by rw [hterminal']; exact .refl _) hdata
      (failClose_yields (by rw [hterminal']; exact h.1) ?_)
    exact fun hc => hl ((congrArg Terminal.lifecycle hterminal').symm.trans hc)
  next =>
    split
    · exact Yields.after (t := { s with retainedFailures := [] }) (.refl _) ⟨rfl, fun _ _ => rfl⟩
        (expireInterventions_yields h hl)
    next s' hs =>
      obtain ⟨hterminal, hdata⟩ := handlePendingInterrupts_spec hs
      exact yields_same hterminal hdata ⟨h, hl⟩ nofun
    · exact yields_phase (.refl _) ⟨rfl, fun _ _ => rfl⟩ ⟨h, hl⟩ nofun

theorem sealForClose_yields (h : Rest s.terminal) (hl : s.lifecycle ≠ .closed) :
    Yields s sealedForClose (sealForClose s args) := by
  unfold sealForClose
  split
  · exact startDrain_yields h hl
  · split
    · have hseal : asyncSeal s = setLifecycleState s .sealed := if_neg hl
      rw [hseal]
      refine yields_phase ?_ (sameData_setLifecycleState _ _) ?_ nofun
      · rw [terminal_setLifecycleState]
        exact keeps_lifecycle _ hl
      · rw [terminal_setLifecycleState]
        have hne : Lifecycle.sealed ≠ .closed := by decide
        exact ⟨⟨sound_lifecycle h.1 hne, h.2⟩, hne⟩
    · exact startDrain_yields h hl

theorem enterClose_yields (h : Rest s.terminal) : Yields s false (enterClose s args) := by
  unfold enterClose
  split
  next hc => exact ⟨⟨h, hc, rfl⟩, .refl _, .refl s, fun hg => hg.elim⟩
  next hl =>
    split
    · refine ⟨h, .refl _, .refl s, ?_⟩
      intro _ hr
      exact ⟨thawed_of_rest h hr, fun hb => by cases hb⟩
    · dsimp only
      split
      · exact Yields.after
          (t := { s with closeStarted := true, closeReason := some args.reason }) (.refl _)
          ⟨rfl, fun _ _ => rfl⟩ (sealForClose_yields h hl)
      next s' hs =>
        obtain ⟨hterminal, hdata⟩ := handlePendingInterrupts_spec hs
        exact yields_same hterminal hdata ⟨h, hl⟩ nofun
      · exact yields_phase (.refl _) ⟨rfl, fun _ _ => rfl⟩ ⟨h, hl⟩ nofun

theorem yields_closed (hcall : CallOk r.1.terminal r.2)
    (hk : Keeps s.terminal r.1.terminal) (hd : SameData s r.1) (hc : r.1.lifecycle = .closed)
    (hs : Sound r.1.terminal) : Yields s sealedForClose r := by
  refine ⟨hcall, hk, hd, ?_⟩
  intro _ hr
  obtain ⟨u, hu, -⟩ := hs.closed hc
  rw [show r.1.terminal.retention = none from hr] at hu
  cases hu

theorem finishClose_yields (h : Rest s.terminal) (hc : s.lifecycle = .closed) :
    Yields s sealedForClose (finishClose s cancelled) := by
  unfold finishClose
  cases cancelled with
  | true => exact yields_closed h (.refl _) (.refl s) hc h.1
  | false => exact yields_closed ⟨h, hc, rfl⟩ (.refl _) (.refl s) hc h.1

theorem finalizeClose_yields (h : Rest s.terminal) (hc : s.lifecycle = .closed) :
    Yields s sealedForClose (finalizeClose s args sealedForClose cancelled) := by
  unfold finalizeClose
  dsimp only
  split
  · exact yields_phase (.refl _) ⟨rfl, fun _ _ => rfl⟩ ⟨h, hc⟩ nofun
  · exact Yields.after (t := { s with closedEventSet := true, registered := false }) (.refl _)
      ⟨rfl, fun _ _ => rfl⟩ (finishClose_yields h hc)

theorem settleRetention_yields (h : Rest s.terminal) (hc : s.lifecycle = .closed)
    (hu : s.terminalRetention = some u) :
    Yields s sealedForClose (settleRetention s args sealedForClose cancelled u) := by
  unfold settleRetention
  split
  · exact yields_phase (.refl _) (.refl s) ⟨h, hc, hu⟩ nofun
  · exact finalizeClose_yields h hc

theorem commitClose_yields (h : Rest s.terminal) (hl : s.lifecycle ≠ .closed)
    (hu : s.terminalRetention = some u) (hr : s.closeResult = some u.closeResult) :
    Yields s sealedForClose (commitClose s args sealedForClose u cancelled) := by
  unfold commitClose
  refine yields_phase ?_ (sameData_setLifecycleState _ _) ?_ nofun
  · rw [terminal_setLifecycleState]
    exact keeps_lifecycle _ hl
  · rw [terminal_setLifecycleState]
    exact ⟨⟨⟨h.1.frozen, h.1.snapshot, h.1.events, fun _ => ⟨u, hu, hr⟩⟩, h.2⟩, rfl, hu⟩

theorem rest_deliver {e : TerminalEvent} (h : Rest s.terminal) (hu : s.terminalRetention = some u)
    (he : IsEventOf u e) : Rest (deliver s e).terminal := by
  refine ⟨⟨h.1.frozen, h.1.snapshot, ?_, h.1.closed⟩, h.2⟩
  intro e' he'
  rcases List.mem_cons.mp he' with rfl | he'
  · exact ⟨u, hu, he⟩
  · exact h.1.events e' he'

theorem rest_deliverIf {e : TerminalEvent} (h : Rest s.terminal)
    (hu : s.terminalRetention = some u) (he : IsEventOf u e) :
    Rest (deliverIf s b e).terminal := by
  cases b with
  | true => exact rest_deliver h hu he
  | false => exact h

theorem deliverIf_fields (s : CloseState ε) (b : Bool) (e : TerminalEvent) :
    deliverIf s b e = { s with emitted := (deliverIf s b e).emitted } := by
  cases b <;> rfl

theorem deliverClosed_fields (s : CloseState ε) (b : Bool) (u : TerminalRetention) :
    deliverClosed s b u = { s with emitted := (deliverClosed s b u).emitted } := by
  unfold deliverClosed
  split
  · exact deliverIf_fields _ _ _
  · rfl

theorem rest_deliverClosed (h : Rest s.terminal) (hu : s.terminalRetention = some u) :
    Rest (deliverClosed s b u).terminal := by
  unfold deliverClosed
  split
  next event he => exact rest_deliverIf h hu ⟨rfl, he⟩
  next => exact h

theorem Yields.of_emitted
    (he : s' = { s with emitted := s'.emitted }) (h : Yields s' sealedForClose r) :
    Yields s sealedForClose r := by
  refine h.after ?_ ?_
  · rw [he]
    exact ⟨fun hc => ⟨hc, rfl⟩, fun u hu => ⟨rfl, u, hu, .refl u⟩⟩
  · rw [he]
    exact ⟨rfl, fun _ _ => rfl⟩

theorem isEventOf_completedEvent (u : TerminalRetention) : IsEventOf u u.completedEvent :=
  ⟨rfl, rfl⟩

theorem storeUnit_yields (h : Sound s.terminal) (hl : s.lifecycle ≠ .closed)
    (hnone : s.terminalRetention = none) (hfrozen : s.terminalStateFrozen = true)
    (hbuilt : s.built.head? = some u.closeResult) :
    Yields s sealedForClose
      (emitCompleted { s with terminalRetention := some u } args sealedForClose u) := by
  have hrest : Rest { s with terminalRetention := some u }.terminal := by
    refine ⟨⟨fun _ => hfrozen, ?_, ?_, fun hc => absurd hc hl⟩, fun _ => rfl⟩
    · intro v hv
      rw [← Option.some.inj hv]
      exact hbuilt
    · intro e he
      obtain ⟨v, hv, -⟩ := h.events e he
      rw [show s.terminal.retention = none from hnone] at hv
      cases hv
  refine Yields.after (t := { s with terminalRetention := some u })
    ⟨fun hc => absurd hc hl, ?_⟩ ⟨rfl, fun _ _ => rfl⟩ (emitCompleted_yields hrest hl rfl)
  intro v hv
  rw [show s.terminal.retention = none from hnone] at hv
  cases hv

theorem commit_delivered (h : Rest s.terminal) (hl : s.lifecycle ≠ .closed)
    (hu : s.terminalRetention = some u) (hr : s.closeResult = some u.closeResult) :
    Yields s sealedForClose
      (commitClose (deliverClosed s b u) args sealedForClose u cancelled) := by
  have hrest : Rest (deliverClosed s b u).terminal := rest_deliverClosed h hu
  have he := deliverClosed_fields s b u
  refine Yields.of_emitted he (commitClose_yields hrest ?_ ?_ ?_)
  · rw [he]
    exact hl
  · rw [he]
    exact hu
  · rw [he]
    exact hr

theorem fail_delivered (h : Rest s.terminal) (hl : s.lifecycle ≠ .closed)
    (hu : s.terminalRetention = some u) :
    Yields s sealedForClose (failClose (deliverClosed s b u) args sealedForClose) := by
  have hrest : Rest (deliverClosed s b u).terminal := rest_deliverClosed h hu
  have he := deliverClosed_fields s b u
  refine Yields.of_emitted he (failClose_yields hrest.1 ?_)
  rw [he]
  exact hl

theorem advanceClose_yields {phase : ClosePhase} {o : CloseOutcome}
    (h : PhaseOk s.terminal phase) (hu : phase ≠ .unsealing)
    (hr : advanceClose s args sealedForClose phase o = some r) : Yields s sealedForClose r := by
  cases phase with
  | rejecting =>
    cases o <;> cases hr
    all_goals exact failClose_yields h.1.1 h.2
  | cancelling drained =>
    cases drained <;> cases o <;> cases hr
    · exact sealForClose_yields h.1 h.2
    · exact failClose_yields h.1.1 h.2
    · exact expireInterventions_yields h.1 h.2
    · exact failClose_yields h.1.1 h.2
  | sealing =>
    cases o <;> cases hr
    · exact startDrain_yields h.1 h.2
    · exact failClose_yields h.1.1 h.2
  | draining collected =>
    cases o with
    | ok =>
      simp only [advanceClose, Option.ite_none_right_eq_some, Option.some.injEq] at hr
      obtain ⟨-, rfl⟩ := hr
      exact endDrain_yields h.1 h.2
    | timedOut =>
      simp only [advanceClose, Option.ite_none_right_eq_some, Option.some.injEq] at hr
      obtain ⟨-, rfl⟩ := hr
      exact Yields.after (t := { s with tasks := min s.tasks args.ownTasks }) (.refl _)
        ⟨rfl, fun _ _ => rfl⟩ (endDrain_yields h.1 h.2)
    | unsettled =>
      simp only [advanceClose, Option.ite_none_right_eq_some, Option.some.injEq] at hr
      obtain ⟨-, rfl⟩ := hr
      exact Yields.after (t := { s with retainedFailures := [] }) (.refl _)
        ⟨rfl, fun _ _ => rfl⟩ (failClose_yields h.1.1 h.2)
    | raised delivered =>
      cases hr
      exact failClose_yields h.1.1 h.2
    | prepared a b => cases hr
    | retained status => cases hr
    | cancelled delivered => cases hr
  | failing =>
    cases o <;> cases hr
    all_goals exact failClose_yields h.1.1 h.2
  | expiring left =>
    cases o with
    | ok =>
      rcases left with - | - | n
      · cases hr
        exact freezeTerminalState_yields h.1 h.2
      · cases hr
        exact freezeTerminalState_yields h.1 h.2
      · cases hr
        exact yields_phase (.refl _) (.refl s) h nofun
    | raised delivered =>
      rcases left with - | - | n <;> cases hr
      all_goals exact failClose_yields h.1.1 h.2
    | _ => rcases left with - | - | n <;> cases hr
  | preparing result =>
    obtain ⟨hsound, hl, hnone, hfrozen, hbuilt⟩ := h
    cases o with
    | prepared completedEventId closedEventId =>
      cases hr
      exact storeUnit_yields hsound hl hnone hfrozen hbuilt
    | raised delivered =>
      cases hr
      exact failClose_yields hsound hl
    | _ => cases hr
  | completing u =>
    obtain ⟨hrest, hl, hunit⟩ := h
    cases o with
    | ok =>
      cases hr
      have hdelivered := rest_deliver hrest hunit (isEventOf_completedEvent u)
      exact Yields.after
        (t := { deliver s u.completedEvent with runtimeCompletedEmitted := true })
        ⟨fun hc => ⟨hc, rfl⟩, fun u hu => ⟨rfl, u, hu, .refl u⟩⟩ ⟨rfl, fun _ _ => rfl⟩
        (stopStream_yields hdelivered hl hunit)
    | raised delivered =>
      cases hr
      refine Yields.of_emitted (deliverIf_fields s delivered _)
        (failClose_yields (rest_deliverIf hrest hunit (isEventOf_completedEvent u)).1 ?_)
      rw [deliverIf_fields]
      exact hl
    | _ => cases hr
  | stopping u =>
    obtain ⟨hrest, hl, hunit⟩ := h
    cases o <;> cases hr
    · exact releaseResources_yields hrest hl hunit
    · exact failClose_yields hrest.1 hl
  | releasing u =>
    obtain ⟨hrest, hl, hunit⟩ := h
    cases o <;> cases hr
    · exact notifyClosed_yields hrest hl hunit
    · exact failClose_yields hrest.1 hl
  | notifying u =>
    obtain ⟨hrest, hl, hunit, hresult⟩ := h
    cases o with
    | ok =>
      cases hr
      exact commit_delivered hrest hl hunit hresult
    | raised delivered =>
      cases hr
      exact fail_delivered hrest hl hunit
    | cancelled delivered =>
      cases delivered with
      | none =>
        cases hr
        exact yields_phase (.refl _) (.refl s) ⟨hrest, hl, hunit, hresult⟩
          nofun
      | some delivered =>
        cases hr
        exact commit_delivered hrest hl hunit hresult
    | _ => cases hr
  | renotifying u =>
    obtain ⟨hrest, hl, hunit, hresult⟩ := h
    cases o <;> cases hr
    · exact commit_delivered hrest hl hunit hresult
    · exact fail_delivered hrest hl hunit
  | applying u cancelled =>
    obtain ⟨hrest, hc, hunit⟩ := h
    cases o with
    | retained status =>
      cases hr
      have hcont : Continues u { u with result := some status } :=
        ⟨rfl, rfl, rfl, rfl, fun e he => he⟩
      exact Yields.after
        (t := { s with terminalRetention := some { u with result := some status } })
        (keeps_continues hunit hcont) ⟨rfl, fun _ _ => rfl⟩
        (settleRetention_yields (rest_continues hrest hunit hcont) hc rfl)
    | raised delivered =>
      cases hr
      exact settleRetention_yields hrest hc hunit
    | _ => cases hr
  | retaining u cancelled =>
    obtain ⟨hrest, hc, hunit⟩ := h
    cases o <;> cases hr
    all_goals exact finalizeClose_yields hrest hc
  | staging cancelled =>
    obtain ⟨hrest, hc⟩ := h
    cases o <;> cases hr
    · exact finishClose_yields hrest hc
    · exact yields_closed hrest (.refl _) (.refl s) hc hrest.1
  | unsealing => exact absurd rfl hu

theorem unsealing_yields {o : CloseOutcome} (h : PhaseOk s.terminal .unsealing)
    (hr : advanceClose s args sealedForClose .unsealing o = some r) : Yields s false r := by
  cases o <;> cases hr
  all_goals
    refine ⟨h.1, .refl _, .refl s, fun _ hn => ⟨thawed_of_rest h.1 hn, fun hb => ?_⟩⟩
    cases hb

end Segments

section Others

variable {floatValue : FloatText → ℚ} {validateResult : Json → Except PyError Json}

variable {l : Lifecycle}

theorem rest_alike {t : Terminal} (h : Rest t)
    (hl : l = .closed ↔ t.lifecycle = .closed) : Rest { t with lifecycle := l } :=
  ⟨⟨h.1.frozen, h.1.snapshot, h.1.events, fun hc => h.1.closed (hl.mp hc)⟩, h.2⟩

theorem phaseOk_alike {t : Terminal} {phase : ClosePhase} (h : PhaseOk t phase)
    (hl : l = .closed ↔ t.lifecycle = .closed) : PhaseOk { t with lifecycle := l } phase := by
  have hne : t.lifecycle ≠ .closed → l ≠ .closed := fun hn hc => hn (hl.mp hc)
  cases phase with
  | preparing result =>
    obtain ⟨hs, hn, hrest⟩ := h
    exact ⟨⟨hs.frozen, hs.snapshot, hs.events, fun hc => hs.closed (hl.mp hc)⟩, hne hn, hrest⟩
  | completing u => exact ⟨rest_alike h.1 hl, hne h.2.1, h.2.2⟩
  | stopping u => exact ⟨rest_alike h.1 hl, hne h.2.1, h.2.2⟩
  | releasing u => exact ⟨rest_alike h.1 hl, hne h.2.1, h.2.2⟩
  | notifying u => exact ⟨rest_alike h.1 hl, hne h.2.1, h.2.2⟩
  | renotifying u => exact ⟨rest_alike h.1 hl, hne h.2.1, h.2.2⟩
  | applying u _ => exact ⟨rest_alike h.1 hl, hl.mpr h.2.1, h.2.2⟩
  | retaining u _ => exact ⟨rest_alike h.1 hl, hl.mpr h.2.1, h.2.2⟩
  | staging _ => exact ⟨rest_alike h.1 hl, hl.mpr h.2⟩
  | _ => exact ⟨rest_alike h.1 hl, hne h.2⟩

theorem keeps_alike {t : Terminal} (hl : l = .closed ↔ t.lifecycle = .closed) :
    Keeps t { t with lifecycle := l } :=
  ⟨fun hc => ⟨hl.mpr hc, rfl⟩, fun u hu => ⟨rfl, u, hu, .refl u⟩⟩

variable {s : CloseState ε}

theorem mutable_error (hf : s.terminalStateFrozen = true)
    (hl : s.lifecycle ≠ .closed) : ∃ e, ensureTerminalStateMutable s = .error e := by
  unfold ensureTerminalStateMutable
  rw [if_pos ⟨hf, hl⟩]
  exact ⟨_, rfl⟩

theorem changeRuntimeData_error (hf : s.terminalStateFrozen = true)
    (hl : s.lifecycle ≠ .closed) (operation : StateOperation) (key : String) (value : Json) :
    ∃ e, changeRuntimeData floatValue s operation key value = .error e := by
  obtain ⟨e, he⟩ := mutable_error hf hl
  exact ⟨e, by simp only [changeRuntimeData, he]⟩

theorem setResult_error (hf : s.terminalStateFrozen = true)
    (hl : s.lifecycle ≠ .closed) (value : Json) :
    ∃ e, setResult validateResult s value = .error e := by
  obtain ⟨e, he⟩ := mutable_error hf hl
  exact ⟨e, by simp only [setResult, he]⟩

theorem asyncUnseal_error (hf : s.terminalStateFrozen = true)
    (hl : s.lifecycle ≠ .closed) : ∃ e, asyncUnseal s = .error e := by
  obtain ⟨e, he⟩ := mutable_error hf hl
  exact ⟨e, by simp only [asyncUnseal, if_neg hl, he]⟩

variable {t : CloseState ε}

theorem terminal_changeRuntimeData {operation : StateOperation} {key : String}
    {value : Json} (h : changeRuntimeData floatValue s operation key value = .ok t) :
    t.terminal = s.terminal := by
  unfold changeRuntimeData at h
  split at h
  · cases h
  · split at h <;> cases h <;> rfl

theorem terminal_setResult {value : Json}
    (h : setResult validateResult s value = .ok t) : t.terminal = s.terminal := by
  unfold setResult at h
  split at h
  · cases h
  · split at h <;> cases h
    rfl

theorem changeFlowData_spec {operation : StateOperation} {key : String}
    {value : Json} (h : changeFlowData floatValue s operation key value = .ok t) :
    t.terminal = s.terminal ∧ SameData s t := by
  unfold changeFlowData at h
  split at h <;> cases h
  · exact ⟨rfl, .refl s⟩
  · exact ⟨rfl, rfl, fun _ _ => rfl⟩

theorem terminal_attempt {r : Except PyError (CloseState ε)}
    (h : ∀ t, r = .ok t → t.terminal = s.terminal) : (attempt s r).terminal = s.terminal := by
  cases r with
  | error e => rfl
  | ok t => exact h t rfl

theorem terminal_writeBack (s : CloseState ε) (runtimeData flowData : Data) :
    (writeBack s runtimeData flowData).terminal = s.terminal := by
  unfold writeBack
  dsimp only
  split <;> rfl

theorem asyncUnseal_spec (h : asyncUnseal s = .ok t) :
    t = s ∨ (s.lifecycle ≠ .closed ∧ t = setLifecycleState s .opened) := by
  unfold asyncUnseal at h
  split at h
  · cases h
    exact .inl rfl
  next hl =>
    split at h <;> cases h
    exact .inr ⟨hl, rfl⟩

theorem terminal_otherStep (s : CloseState ε) (a : CloseAction ε) :
    ∃ l, (otherStep floatValue validateResult s a).terminal = { s.terminal with lifecycle := l } ∧
      (l = .closed ↔ s.lifecycle = .closed) := by
  have hsame : ∀ t : CloseState ε, t.terminal = s.terminal →
      ∃ l, t.terminal = { s.terminal with lifecycle := l } ∧
        (l = .closed ↔ s.lifecycle = .closed) :=
    fun t ht => ⟨s.lifecycle, ht, Iff.rfl⟩
  cases a with
  | asyncSeal =>
    show ∃ l, (asyncSeal s).terminal = _ ∧ _
    unfold asyncSeal
    split
    · exact hsame s rfl
    next hl =>
      have hne : Lifecycle.sealed ≠ .closed := by decide
      exact ⟨.sealed, terminal_setLifecycleState _ _, fun hc => absurd hc hne,
        fun hc => absurd hc hl⟩
  | asyncUnseal =>
    show ∃ l, (attempt s (asyncUnseal s)).terminal = _ ∧ _
    cases hu : asyncUnseal s with
    | error e => exact hsame s rfl
    | ok t =>
      rcases asyncUnseal_spec hu with rfl | ⟨hl, rfl⟩
      · exact hsame _ rfl
      · exact ⟨.opened, terminal_setLifecycleState _ _,
          fun hc => absurd hc opened_ne_closed, fun hc => absurd hc hl⟩
  | signal source preaccepted =>
    apply hsame
    show (if _ then _ else _ : CloseState ε).terminal = _
    split <;> rfl
  | taskDone retained =>
    apply hsame
    show (if _ then _ else _ : CloseState ε).terminal = _
    split <;> rfl
  | changeRuntimeData operation key value =>
    exact hsame _ (terminal_attempt fun t ht => terminal_changeRuntimeData ht)
  | setResult value => exact hsame _ (terminal_attempt fun t ht => terminal_setResult ht)
  | changeFlowData operation key value =>
    exact hsame _ (terminal_attempt fun t ht => (changeFlowData_spec ht).1)
  | writeBack runtimeData flowData => exact hsame _ (terminal_writeBack s _ _)
  | _ => exact hsame _ rfl

theorem sameData_otherStep {a : CloseAction ε}
    (hf : s.terminalStateFrozen = true) (hl : s.lifecycle ≠ .closed)
    (ha : ∀ runtimeData flowData, a ≠ .writeBack runtimeData flowData) :
    SameData s (otherStep floatValue validateResult s a) := by
  cases a with
  | asyncSeal =>
    show SameData s (asyncSeal s)
    unfold asyncSeal
    split
    · exact .refl s
    · exact sameData_setLifecycleState s _
  | asyncUnseal =>
    obtain ⟨e, he⟩ := asyncUnseal_error hf hl
    show SameData s (attempt s (asyncUnseal s))
    rw [he]
    exact .refl s
  | signal source preaccepted =>
    show SameData s (if _ then _ else _)
    split
    · exact ⟨rfl, fun _ _ => rfl⟩
    · exact .refl s
  | taskDone retained =>
    show SameData s (if _ then _ else _)
    split
    · exact .refl s
    · exact ⟨rfl, fun _ _ => rfl⟩
  | changeRuntimeData operation key value =>
    obtain ⟨e, he⟩ := @changeRuntimeData_error _ floatValue s hf hl operation key value
    show SameData s (attempt s (changeRuntimeData floatValue s operation key value))
    rw [he]
    exact .refl s
  | setResult value =>
    obtain ⟨e, he⟩ := @setResult_error _ validateResult s hf hl value
    show SameData s (attempt s (setResult validateResult s value))
    rw [he]
    exact .refl s
  | changeFlowData operation key value =>
    show SameData s (attempt s (changeFlowData floatValue s operation key value))
    cases hc : changeFlowData floatValue s operation key value with
    | error e => exact .refl s
    | ok t => exact (changeFlowData_spec hc).2
  | writeBack runtimeData flowData => exact absurd rfl (ha runtimeData flowData)
  | writeInterventions records => exact sameData_writeInterventionRecords s records
  | _ => exact ⟨rfl, fun _ _ => rfl⟩

end Others

structure CloseInv (c : Closing ε) : Prop where
  free : c.lock = none → Rest c.state.terminal
  holder : ∀ (i : Nat) (args : CloseArgs) (b : Bool) (phase : ClosePhase),
    c.calls[i]? = some (.closing args b phase) →
      c.lock = some i ∧ PhaseOk c.state.terminal phase
  held : ∀ i, c.lock = some i → ∃ args b phase, c.calls[i]? = some (.closing args b phase)
  returned : ∀ (i : Nat) (r : Option Data), c.calls[i]? = some (.returned r) →
    c.state.lifecycle = .closed ∧ r = c.state.closeResult

section Lock

variable {floatValue : FloatText → ℚ} {validateResult : Json → Except PyError Json}
  {c d : Closing ε}

theorem CloseInv.sound (h : CloseInv c) : Sound c.state.terminal := by
  cases hl : c.lock with
  | none => exact (h.free hl).1
  | some i =>
    obtain ⟨args, b, phase, hc⟩ := h.held i hl
    exact (h.holder i args b phase hc).2.sound

theorem CloseInv.setCall (h : CloseInv c) {index : Nat} {old : CloseCall}
    {r : CloseState ε × CloseCall} (ho : c.calls[index]? = some old)
    (hlock : c.lock = none ∨ c.lock = some index) (hr : CallOk r.1.terminal r.2)
    (hk : Keeps c.state.terminal r.1.terminal) : CloseInv (c.setCall index r) := by
  have hlen : index < c.calls.length := (List.getElem?_eq_some_iff.mp ho).1
  have hself : (c.calls.set index r.2)[index]? = some r.2 := by simp [hlen]
  have hother : ∀ (i : Nat) (args : CloseArgs) (b : Bool) (phase : ClosePhase), i ≠ index →
      c.calls[i]? ≠ some (.closing args b phase) := by
    intro i args b phase hne hc
    have hi := (h.holder i args b phase hc).1
    rcases hlock with hl | hl <;> rw [hl] at hi
    · cases hi
    · exact hne (Option.some.inj hi).symm
  refine ⟨?_, ?_, ?_, ?_⟩
  · intro hfree
    have hfinished : r.2.isFinished = true := by
      by_contra hf
      have hnone : (if r.2.isFinished then none else some index) = none := hfree
      rw [if_neg hf] at hnone
      cases hnone
    show Rest r.1.terminal
    cases hcall : r.2 with
    | returned result =>
      rw [hcall] at hr
      exact hr.1
    | raised =>
      rw [hcall] at hr
      exact hr
    | waiting args => rw [hcall] at hfinished; cases hfinished
    | closing args b phase => rw [hcall] at hfinished; cases hfinished
  · intro i args b phase hi
    have hi' : (c.calls.set index r.2)[i]? = some (.closing args b phase) := hi
    rcases getElem?_set_cases hi' with ⟨hne, hc⟩ | ⟨heq, hcall⟩
    · exact absurd hc (hother i args b phase hne)
    · rw [← hcall] at hr
      refine ⟨?_, hr⟩
      show (if r.2.isFinished then none else some index) = some i
      rw [← hcall, heq]
      rfl
  · intro i hi
    have hi' : (if r.2.isFinished then none else some index) = some i := hi
    split at hi'
    · cases hi'
    next hf =>
      obtain rfl := Option.some.inj hi'
      show ∃ args b phase, (c.calls.set index r.2)[index]? = _
      rw [hself]
      cases hcall : r.2 with
      | closing args b phase => exact ⟨args, b, phase, rfl⟩
      | waiting args =>
        rw [hcall] at hr
        exact hr.elim
      | returned result => rw [hcall] at hf; exact absurd rfl hf
      | raised => rw [hcall] at hf; exact absurd rfl hf
  · intro i result hi
    have hi' : (c.calls.set index r.2)[i]? = some (.returned result) := hi
    rcases getElem?_set_cases hi' with ⟨-, hc⟩ | ⟨-, hcall⟩
    · obtain ⟨hcl, hres⟩ := h.returned i result hc
      obtain ⟨hcl', hres'⟩ := hk.closed hcl
      exact ⟨hcl', hres.trans hres'.symm⟩
    · rw [← hcall] at hr
      exact hr.2

theorem CloseInv.place (h : CloseInv c) {calls : List CloseCall}
    (hcalls : ∀ (i : Nat) (x : CloseCall), calls[i]? = some x → c.calls[i]? = some x ∨
      (∃ args, x = .waiting args) ∨ x = .raised ∨
        (x = .returned c.state.closeResult ∧ c.state.lifecycle = .closed))
    (hkept : ∀ (i : Nat) (args : CloseArgs) (b : Bool) (phase : ClosePhase),
      c.calls[i]? = some (.closing args b phase) → calls[i]? = c.calls[i]?) :
    CloseInv { c with calls := calls } := by
  refine ⟨h.free, ?_, ?_, ?_⟩
  · intro i args b phase hi
    rcases hcalls i _ hi with hc | ⟨_, he⟩ | he | ⟨he, -⟩
    · exact h.holder i args b phase hc
    · cases he
    · cases he
    · cases he
  · intro i hi
    obtain ⟨args, b, phase, hc⟩ := h.held i hi
    exact ⟨args, b, phase, (hkept i args b phase hc).trans hc⟩
  · intro i result hi
    rcases hcalls i _ hi with hc | ⟨_, he⟩ | he | ⟨he, hcl⟩
    · exact h.returned i result hc
    · cases he
    · cases he
    · cases he
      exact ⟨hcl, rfl⟩

theorem CloseInv.close (h : CloseInv c) (args : CloseArgs) :
    CloseInv { c with
      calls := c.calls ++
        [if c.state.lifecycle = .closed then CloseCall.returned c.state.closeResult
          else .waiting args] } := by
  refine h.place ?_ ?_
  · intro i x hx
    rcases getElem?_concat hx with hx | hx
    · exact .inl hx
    · split at hx
      next hc => exact .inr (.inr (.inr ⟨hx, hc⟩))
      next => exact .inr (.inl ⟨args, hx⟩)
  · intro i x b phase hi
    exact List.getElem?_append_left (List.getElem?_eq_some_iff.mp hi).1

theorem CloseInv.giveUp (h : CloseInv c) {index : Nat} {args : CloseArgs}
    (ho : c.calls[index]? = some (.waiting args)) :
    CloseInv { c with calls := c.calls.set index .raised } := by
  refine h.place ?_ ?_
  · intro i x hx
    rcases getElem?_set_cases hx with ⟨-, hc⟩ | ⟨-, hr⟩
    · exact .inl hc
    · exact .inr (.inr (.inl hr))
  · intro i x b phase hi
    refine List.getElem?_set_ne ?_
    rintro rfl
    rw [ho] at hi
    cases hi

theorem CloseInv.other (h : CloseInv c) (a : CloseAction ε) :
    CloseInv { c with state := otherStep floatValue validateResult c.state a } := by
  obtain ⟨l, ht, hl⟩ := @terminal_otherStep _ floatValue validateResult c.state a
  refine ⟨?_, ?_, h.held, ?_⟩
  · intro hf
    show Rest (otherStep floatValue validateResult c.state a).terminal
    rw [ht]
    exact rest_alike (h.free hf) hl
  · intro i args b phase hi
    obtain ⟨hlock, hphase⟩ := h.holder i args b phase hi
    refine ⟨hlock, ?_⟩
    show PhaseOk (otherStep floatValue validateResult c.state a).terminal phase
    rw [ht]
    exact phaseOk_alike hphase hl
  · intro i r hi
    obtain ⟨hcl, hres⟩ := h.returned i r hi
    have hlife : (otherStep floatValue validateResult c.state a).lifecycle = l :=
      congrArg Terminal.lifecycle ht
    have hresult : (otherStep floatValue validateResult c.state a).closeResult =
        c.state.closeResult := congrArg Terminal.closeResult ht
    exact ⟨hlife.trans (hl.mpr hcl), hres.trans hresult.symm⟩

/-- What one step does: a close call is made or gives up waiting, one that takes or holds the
lock goes on, or something else happens. -/
inductive Steps (c : Closing ε) : CloseAction ε → Closing ε → Prop where
  | close (args : CloseArgs) : Steps c (.close args)
      { c with
        calls := c.calls ++
          [if c.state.lifecycle = .closed then CloseCall.returned c.state.closeResult
            else .waiting args] }
  | giveUp (index : Nat) (args : CloseArgs) (delivered : Bool)
      (h : c.calls[index]? = some (.waiting args)) :
      Steps c (.advance index (.raised delivered)) { c with calls := c.calls.set index .raised }
  | takes (index : Nat) (args : CloseArgs) (h : c.calls[index]? = some (.waiting args))
      (hf : c.lock = none) :
      Steps c (.advance index .ok) (c.setCall index (enterClose c.state args))
  | goesOn (index : Nat) (args : CloseArgs) (b : Bool) (phase : ClosePhase) (o : CloseOutcome)
      (r : CloseState ε × CloseCall) (h : c.calls[index]? = some (.closing args b phase))
      (hr : advanceClose c.state args b phase o = some r) :
      Steps c (.advance index o) (c.setCall index r)
  | other (a : CloseAction ε) (hc : ∀ args, a ≠ .close args) (ha : ∀ i o, a ≠ .advance i o) :
      Steps c a { c with state := otherStep floatValue validateResult c.state a }

variable {a : CloseAction ε}

theorem steps_of_step (h : closeStep floatValue validateResult c a = some d) :
    @Steps _ floatValue validateResult c a d := by
  cases a with
  | close args =>
    cases h
    exact .close args
  | advance index o =>
    simp only [closeStep] at h
    split at h
    next args hcall =>
      split at h
      next hf =>
        cases h
        exact .takes index args hcall hf
      next => cases h
    next args delivered hcall =>
      cases h
      exact .giveUp index args delivered hcall
    next args b phase hcall =>
      obtain ⟨r, hr, rfl⟩ := Option.map_eq_some_iff.mp h
      exact .goesOn index args b phase _ r hcall hr
    next => cases h
  | _ =>
    cases h
    exact .other _ (by intro args he; cases he) (by intro i o he; cases he)

theorem advance_ok {args : CloseArgs} {b : Bool} {phase : ClosePhase} {o : CloseOutcome}
    {r : CloseState ε × CloseCall} (h : PhaseOk c.state.terminal phase)
    (hr : advanceClose c.state args b phase o = some r) :
    Yields c.state false r ∧ (phase ≠ .unsealing → Yields c.state b r) := by
  have hfalse : Yields c.state b r → Yields c.state false r := fun hy =>
    ⟨hy.call, hy.keeps, hy.data, fun hg hn => ⟨(hy.reopened hg hn).1, fun hb => by cases hb⟩⟩
  refine ⟨?_, fun hu => advanceClose_yields h hu hr⟩
  by_cases hu : ∃ u : Unit, phase = .unsealing
  · obtain ⟨-, rfl⟩ := hu
    exact unsealing_yields h hr
  · exact hfalse (advanceClose_yields h (fun he => hu ⟨(), he⟩) hr)

theorem closeInv_step (h : CloseInv c) (hs : closeStep floatValue validateResult c a = some d) :
    CloseInv d ∧ Keeps c.state.terminal d.state.terminal := by
  cases steps_of_step hs with
  | close args => exact ⟨h.close args, .refl _⟩
  | giveUp index args delivered hc => exact ⟨h.giveUp hc, .refl _⟩
  | takes index args hc hf =>
    have hy : Yields c.state false (enterClose c.state args) := enterClose_yields (h.free hf)
    exact ⟨h.setCall hc (.inl hf) hy.call hy.keeps, hy.keeps⟩
  | goesOn index args b phase o r hc hr =>
    obtain ⟨hlock, hphase⟩ := h.holder index args b phase hc
    have hy := (advance_ok hphase hr).1
    exact ⟨h.setCall hc (.inr hlock) hy.call hy.keeps, hy.keeps⟩
  | other a hc ha =>
    obtain ⟨l, ht, hl⟩ := @terminal_otherStep _ floatValue validateResult c.state a
    refine ⟨h.other a, ?_⟩
    show Keeps c.state.terminal (otherStep floatValue validateResult c.state a).terminal
    rw [ht]
    exact keeps_alike hl

theorem stepKeeps_of_inv (h : CloseInv c)
    (hs : closeStep floatValue validateResult c a = some d) : StepKeeps c a d := by
  cases steps_of_step hs with
  | close args =>
    exact ⟨fun _ _ _ => .refl _, fun i o args phase call ha => by cases ha⟩
  | giveUp index args delivered hc =>
    refine ⟨fun _ _ _ => .refl _, ?_⟩
    intro i o args' phase call ha hi
    cases ha
    rw [hc] at hi
    cases hi
  | takes index args hc hf =>
    have hy : Yields c.state false (enterClose c.state args) := enterClose_yields (h.free hf)
    refine ⟨fun _ _ _ => hy.data, ?_⟩
    intro i o args' phase call ha hi
    cases ha
    rw [hc] at hi
    cases hi
  | goesOn index args b phase o r hc hr =>
    obtain ⟨hlock, hphase⟩ := h.holder index args b phase hc
    obtain ⟨hy, hyb⟩ := advance_ok hphase hr
    refine ⟨fun _ _ _ => hy.data, ?_⟩
    intro i o' args' phase' call ha hi hu hcall hg hn
    cases ha
    rw [hc] at hi
    cases hi
    have hlen : index < c.calls.length := (List.getElem?_eq_some_iff.mp hc).1
    have hself : (c.setCall index r).calls[index]? = some r.2 := by
      show (c.calls.set index r.2)[index]? = _
      simp [hlen]
    have hcall' : r.2 = call := Option.some.inj (hself.symm.trans hcall)
    obtain ⟨hthawed, hopen⟩ := (hyb hu).reopened (hcall' ▸ hg) hn
    exact ⟨hthawed, hopen rfl⟩
  | other a hc ha =>
    refine ⟨fun hf hl hw => sameData_otherStep hf hl hw, ?_⟩
    intro i o args phase call he
    exact absurd he (ha i o)

end Lock

section Closable

variable (floatValue : FloatText → ℚ) (validateResult : Json → Except PyError Json)

def Closable (c : Closing ε) : Prop :=
  ∃ as d, (closeMachine floatValue validateResult).run c as = some d ∧
    d.state.lifecycle = .closed

variable {floatValue validateResult} {c d : Closing ε} {n : Nat} {s : CloseState ε}
  {args : CloseArgs} {b : Bool}

theorem closable_of_closed (h : c.state.lifecycle = .closed) :
    Closable floatValue validateResult c := ⟨[], c, rfl, h⟩

theorem closable_of_step {a : CloseAction ε} (h : closeStep floatValue validateResult c a = some d)
    (hd : Closable floatValue validateResult d) : Closable floatValue validateResult c := by
  obtain ⟨as, e, hrun, he⟩ := hd
  refine ⟨a :: as, e, ?_, he⟩
  rw [Machine.run_cons]
  show (closeStep floatValue validateResult c a).bind _ = _
  rw [h]
  exact hrun

theorem getElem?_setCall (hn : n < c.calls.length) (r : CloseState ε × CloseCall) :
    (c.setCall n r).calls[n]? = some r.2 := by
  show (c.calls.set n r.2)[n]? = _
  simp [hn]

theorem setCall_setCall (r q : CloseState ε × CloseCall) :
    (c.setCall n r).setCall n q = c.setCall n q := by
  simp only [Closing.setCall, List.set_set]

theorem closable_of_phase (hn : n < c.calls.length) {phase : ClosePhase} (o : CloseOutcome)
    {r : CloseState ε × CloseCall} (hr : advanceClose s args b phase o = some r)
    (h : Closable floatValue validateResult (c.setCall n r)) :
    Closable floatValue validateResult (c.setCall n (s, .closing args b phase)) := by
  refine closable_of_step (a := .advance n o) (d := c.setCall n r) ?_ h
  simp only [closeStep, getElem?_setCall hn]
  show (advanceClose s args b phase o).map _ = _
  rw [hr, Option.map_some, setCall_setCall]

variable {u : TerminalRetention}

theorem closable_notifying (hn : n < c.calls.length) :
    Closable floatValue validateResult (c.setCall n (s, .closing args b (.notifying u))) := by
  refine closable_of_phase hn .ok rfl (closable_of_closed ?_)
  exact lifecycle_setLifecycleState _ _

theorem closable_notifyClosed (hn : n < c.calls.length) :
    Closable floatValue validateResult (c.setCall n (notifyClosed s args b u)) := by
  unfold notifyClosed
  split
  · exact closable_notifying hn
  · exact closable_notifying hn

theorem closable_releaseResources (hn : n < c.calls.length) :
    Closable floatValue validateResult (c.setCall n (releaseResources s args b u)) := by
  unfold releaseResources
  split
  · exact closable_notifyClosed hn
  · exact closable_of_phase hn .ok rfl (closable_notifyClosed hn)

theorem closable_stopStream (hn : n < c.calls.length) :
    Closable floatValue validateResult (c.setCall n (stopStream s args b u)) := by
  unfold stopStream
  split
  · exact closable_releaseResources hn
  · exact closable_of_phase hn .ok rfl (closable_releaseResources hn)

theorem closable_emitCompleted (hn : n < c.calls.length) :
    Closable floatValue validateResult (c.setCall n (emitCompleted s args b u)) := by
  unfold emitCompleted
  split
  · exact closable_of_phase hn .ok rfl (closable_stopStream hn)
  · exact closable_stopStream hn

theorem closable_freezeTerminalState (hn : n < c.calls.length) :
    Closable floatValue validateResult (c.setCall n (freezeTerminalState s args b)) := by
  unfold freezeTerminalState
  split
  · exact closable_emitCompleted hn
  · exact closable_of_phase hn (.prepared "" "") rfl (closable_emitCompleted hn)

theorem closable_expiring (hn : n < c.calls.length) (left : Nat) :
    Closable floatValue validateResult (c.setCall n (s, .closing args b (.expiring left))) := by
  induction left with
  | zero => exact closable_of_phase hn .ok rfl (closable_freezeTerminalState hn)
  | succ left ih =>
    cases left with
    | zero => exact closable_of_phase hn .ok rfl (closable_freezeTerminalState hn)
    | succ left => exact closable_of_phase hn .ok rfl ih

theorem closable_expireInterventions (hn : n < c.calls.length) :
    Closable floatValue validateResult (c.setCall n (expireInterventions s args b)) := by
  unfold expireInterventions
  split
  · exact closable_freezeTerminalState hn
  · exact closable_expiring hn _

theorem not_rejected (hp : args.pendingInterrupts = .cancel) :
    handlePendingInterrupts s args ≠ .rejected := by
  intro h
  simp only [handlePendingInterrupts, hp, if_true] at h
  split at h
  · cases h
  · split at h <;> cases h

theorem closable_endDrain (hn : n < c.calls.length) (hp : args.pendingInterrupts = .cancel)
    (hr : s.retainedFailures = []) :
    Closable floatValue validateResult (c.setCall n (endDrain s args b [])) := by
  have herrors : (if s.skipExceptions then [] else [] ++ s.retainedFailures) = [] := by
    rw [hr]
    split <;> rfl
  simp only [endDrain, herrors, raisePendingTaskErrors]
  split
  · exact closable_expireInterventions hn
  · exact closable_of_phase hn .ok rfl (closable_expireInterventions hn)
  next h => exact absurd h (not_rejected hp)

def forcedClose : CloseArgs where
  timed := true
  sealing := false
  pendingInterrupts := .cancel

theorem enterClose_drains (hl : s.lifecycle ≠ .closed) :
    ∃ s', s'.lifecycle = s.lifecycle ∧ s'.retainedFailures = [] ∧
      (enterClose s forcedClose =
          (s', .closing forcedClose false (.draining s.retainedFailures)) ∨
        ∃ s'', enterClose s forcedClose = (s'', .closing forcedClose false (.cancelling false)) ∧
          advanceClose s'' forcedClose false (.cancelling false) .ok =
            some (s', .closing forcedClose false (.draining s.retainedFailures))) := by
  unfold enterClose
  rw [if_neg hl, if_neg (by decide)]
  dsimp only
  split
  · exact ⟨{ s with
      closeStarted := true, closeReason := some forcedClose.reason, retainedFailures := [] },
      rfl, rfl, .inl rfl⟩
  next s'' hs =>
    have hkept : s''.lifecycle = s.lifecycle ∧ s''.retainedFailures = s.retainedFailures := by
      unfold handlePendingInterrupts at hs
      dsimp only at hs
      split at hs
      · cases hs
      · split at hs
        · split at hs <;> cases hs
          exact ⟨rfl, rfl⟩
        · cases hs
    refine ⟨{ s'' with retainedFailures := [] }, hkept.1, rfl, .inr ⟨s'', rfl, ?_⟩⟩
    rw [← hkept.2]
    rfl
  next h => exact absurd h (not_rejected rfl)

theorem closable_of_drain (hf : c.lock = none) (hl : c.state.lifecycle ≠ .closed)
    (h : ∀ (e : Closing ε) (n : Nat) (s' : CloseState ε), n < e.calls.length →
      s'.lifecycle = c.state.lifecycle → s'.retainedFailures = [] →
        Closable floatValue validateResult
          (e.setCall n
            (s', .closing forcedClose false (.draining c.state.retainedFailures)))) :
    Closable floatValue validateResult c := by
  have hcall : closeStep floatValue validateResult c (.close forcedClose) =
      some { c with calls := c.calls ++ [.waiting forcedClose] } := by
    simp only [closeStep, if_neg hl]
  refine closable_of_step hcall ?_
  have hlast : (c.calls ++ [CloseCall.waiting forcedClose])[c.calls.length]? =
      some (.waiting forcedClose) := by simp
  have henter : closeStep floatValue validateResult
      { c with calls := c.calls ++ [.waiting forcedClose] } (.advance c.calls.length .ok) =
        some (Closing.setCall { c with calls := c.calls ++ [.waiting forcedClose] } c.calls.length
          (enterClose c.state forcedClose)) := by
    simp only [closeStep, hlast, hf, if_true]
  refine closable_of_step henter ?_
  have hn : c.calls.length <
      ({ c with calls := c.calls ++ [.waiting forcedClose] } : Closing ε).calls.length := by simp
  obtain ⟨s', hlife, hfail, he | ⟨s'', he, hstep⟩⟩ := enterClose_drains (s := c.state) hl
  · rw [he]
    exact h _ _ s' hn hlife hfail
  · rw [he]
    exact closable_of_phase hn .ok hstep (h _ _ s' hn hlife hfail)

theorem closable_without_failures (hf : c.lock = none) (hl : c.state.lifecycle ≠ .closed)
    (hr : c.state.retainedFailures = []) : Closable floatValue validateResult c := by
  refine closable_of_drain hf hl ?_
  intro e n s' hn hlife hfail
  rw [hr]
  exact closable_of_phase hn .timedOut rfl (closable_endDrain hn rfl hfail)

theorem closable_free (hf : c.lock = none) (hl : c.state.lifecycle ≠ .closed) :
    Closable floatValue validateResult c := by
  refine closable_of_drain hf hl ?_
  intro e n s' hn hlife hfail
  have hl' : s'.lifecycle ≠ .closed := by
    rw [hlife]
    exact hl
  refine closable_of_phase hn (.raised false) rfl ?_
  have hfailed : failClose s' forcedClose false =
      ({ s' with
          closeStarted := false
          closeReason := none
          terminalStateFrozen := s'.terminalStateFrozen && s'.terminalRetention.isSome },
        .raised) := by
    unfold failClose
    rw [if_neg hl', if_neg (by simp)]
  rw [hfailed]
  exact closable_without_failures rfl hl' hfail

theorem closable_of_inv (h : CloseInv c) : Closable floatValue validateResult c := by
  by_cases hl : c.state.lifecycle = .closed
  · exact closable_of_closed hl
  cases hlock : c.lock with
  | none => exact closable_free hlock hl
  | some i =>
    obtain ⟨args, b, phase, hc⟩ := h.held i hlock
    obtain ⟨-, hphase⟩ := h.holder i args b phase hc
    have hn : i < c.calls.length := (List.getElem?_eq_some_iff.mp hc).1
    have hself : c = c.setCall i (c.state, .closing args b phase) := by
      rw [Closing.setCall, set_of_getElem? hc, ← hlock]
      cases c
      rfl
    have hfail : ∀ s' : CloseState ε, s'.lifecycle ≠ .closed →
        Closable floatValue validateResult (c.setCall i (failClose s' args b)) := by
      intro s' hl'
      unfold failClose
      rw [if_neg hl']
      split
      · refine closable_of_phase hn .ok rfl (closable_free rfl ?_)
        show (setLifecycleState _ _).lifecycle ≠ _
        rw [lifecycle_setLifecycleState]
        exact opened_ne_closed
      · exact closable_free rfl hl'
    have hdelivered : ∀ u, (deliverClosed c.state false u).lifecycle ≠ .closed := by
      intro u
      rw [deliverClosed_fields]
      exact hl
    rw [hself]
    cases phase with
    | expiring left =>
      rcases left with - | - | left
      all_goals exact closable_of_phase hn (.raised false) rfl (hfail _ hl)
    | notifying u => exact closable_of_phase hn (.raised false) rfl (hfail _ (hdelivered u))
    | renotifying u => exact closable_of_phase hn (.raised false) rfl (hfail _ (hdelivered u))
    | applying u cancelled => exact absurd hphase.2.1 hl
    | retaining u cancelled => exact absurd hphase.2.1 hl
    | staging cancelled => exact absurd hphase.2 hl
    | unsealing => exact closable_of_phase hn (.raised false) rfl (closable_free rfl hl)
    | cancelling drained =>
      cases drained
      all_goals exact closable_of_phase hn (.raised false) rfl (hfail _ hl)
    | _ => exact closable_of_phase hn (.raised false) rfl (hfail _ hl)

end Closable

section Runs

variable {floatValue : FloatText → ℚ} {validateResult : Json → Except PyError Json}
  {c d : Closing ε}

theorem closeInv_of_unclosed (h : Unclosed c) : CloseInv c := by
  have hnone : ∀ (i : Nat) (x : CloseCall), c.calls[i]? ≠ some x := by
    intro i x hx
    rw [h.calls] at hx
    simp at hx
  refine ⟨fun _ => ⟨⟨?_, ?_, ?_, fun hc => absurd hc h.lifecycle⟩, ?_⟩,
    fun i args b phase hx => absurd hx (hnone i _), ?_, fun i r hx => absurd hx (hnone i _)⟩
  · intro hr
    rw [show c.state.terminal.retention = none from h.unit] at hr
    cases hr
  · intro u hu
    rw [show c.state.terminal.retention = none from h.unit] at hu
    cases hu
  · intro e he
    rw [show c.state.terminal.emitted = [] from h.emitted] at he
    cases he
  · intro hf
    rw [show c.state.terminal.frozen = false from h.thawed] at hf
    cases hf
  · intro i hi
    rw [h.lock] at hi
    cases hi

theorem closesOnce_of_inv (h : CloseInv c) : ClosesOnce floatValue validateResult c where
  oneAttempt := by
    intro i j x y b b' ph qh hi hj
    have hlock := (h.holder i x b ph hi).1
    exact Option.some.inj (hlock.symm.trans (h.holder j y b' qh hj).1)
  result := by
    intro i r hi
    obtain ⟨hc, hr⟩ := h.returned i r hi
    obtain ⟨u, hu, hres⟩ := h.sound.closed hc
    exact ⟨hc, u, hu, hr.trans hres⟩
  snapshot := h.sound.snapshot
  events := h.sound.events
  thawed := fun hl hr => thawed_of_rest (h.free hl) hr
  frozen := h.sound.frozen
  refuses := fun hf hl =>
    ⟨fun operation key value => changeRuntimeData_error hf hl operation key value,
      fun value => setResult_error hf hl value, asyncUnseal_error hf hl⟩
  closable := closable_of_inv h

theorem run_keeps (h : CloseInv c) {as : List (CloseAction ε)}
    (hr : (closeMachine floatValue validateResult).run c as = some d) :
    CloseInv d ∧ Keeps c.state.terminal d.state.terminal := by
  refine Machine.run_invariant (closeMachine floatValue validateResult)
    (I := fun e => CloseInv e ∧ Keeps c.state.terminal e.state.terminal) ?_ ⟨h, .refl _⟩ hr
  rintro e a f ⟨he, hk⟩ hs
  obtain ⟨hf, hk'⟩ := closeInv_step he hs
  exact ⟨hf, hk.trans hk'⟩

/-- At most one attempt at a time, at most one terminal unit, one result for good; failed
attempts reopen the execution or leave a unit that a later one can close it with; what is
frozen stays as it is. -/
theorem close_protocol (floatValue : FloatText → ℚ)
    (validateResult : Json → Except PyError Json) (c d : Closing ε) (as : List (CloseAction ε))
    (hc : Unclosed c) (hd : (closeMachine floatValue validateResult).run c as = some d) :
    ClosesOnce floatValue validateResult d ∧
      (∀ a e, closeStep floatValue validateResult d a = some e → StepKeeps d a e) ∧
      ∀ bs e, (closeMachine floatValue validateResult).run d bs = some e →
        Later d.state e.state := by
  obtain ⟨hinv, -⟩ := run_keeps (closeInv_of_unclosed hc) hd
  refine ⟨closesOnce_of_inv hinv, fun a e he => stepKeeps_of_inv hinv he, ?_⟩
  intro bs e he
  obtain ⟨-, hk⟩ := run_keeps hinv he
  exact ⟨hk.closed, hk.unit⟩

end Runs

def openExecution : Closing String where
  state :=
    { id := "e"
      lifecycle := .opened
      status := .running
      stateVersion := 0
      interrupts := []
      interventions := []
      runtimeData := []
      result := none
      flowData := []
      now := .null
      tasks := 0
      retainedFailures := []
      skipExceptions := false
      recordStore := false
      resourceHandles := 0
      runtimeStreamStopped := false
      taskStageCloseStarted := false
      registered := true
      closeStarted := false
      closeReason := none
      terminalStateFrozen := false
      terminalRetention := none
      runtimeCompletedEmitted := false
      runtimeFailedEmitted := false
      closeResult := none
      closedEventSet := false
      built := []
      emitted := [] }
  lock := none
  calls := []

theorem openExecution_unclosed : Unclosed openExecution where
  lock := rfl
  calls := rfl
  lifecycle := by decide
  thawed := rfl
  unit := rfl
  emitted := rfl

def failedAttempt : List (CloseAction String) :=
  [.close {}, .advance 0 .ok, .advance 0 .ok, .advance 0 .ok,
    .advance 0 (.prepared "completed" "closed"), .advance 0 (.raised true)]

def secondAttempt : List (CloseAction String) :=
  .close {} :: List.replicate 5 (.advance 1 .ok) ++
    [.advance 1 (.retained .noop), .advance 1 .ok, .advance 1 .ok]

def plainMachine : Machine (Closing String) (CloseAction String) :=
  closeMachine (fun _ => 0) Except.ok

theorem retry_runs :
    (plainMachine.run openExecution (failedAttempt ++ secondAttempt)).isSome = true := by
  decide +kernel

def retried : Closing String :=
  (plainMachine.run openExecution (failedAttempt ++ secondAttempt)).get retry_runs

theorem close_protocol_retry :
    ClosesOnce (fun _ => 0) Except.ok retried ∧ retried.state.lifecycle = .closed :=
  ⟨(close_protocol (fun _ => 0) Except.ok openExecution retried (failedAttempt ++ secondAttempt)
    openExecution_unclosed (Option.some_get retry_runs).symm).1, by decide +kernel⟩

def isCompletedEvent : TerminalEvent → Bool
  | .completed _ _ => true
  | .closed _ _ => false

theorem completed_event_again :
    ¬ ∀ (c d : Closing String) (as : List (CloseAction String)), Unclosed c →
      plainMachine.run c as = some d →
        d.state.emitted.countP isCompletedEvent ≤ 1 ∧
          (d.calls.all CloseCall.isFinished = true →
            d.state.lifecycle = .closed ∨ d.state.lifecycle = .opened) := by
  intro h
  have htwice := (h openExecution retried (failedAttempt ++ secondAttempt) openExecution_unclosed
    (Option.some_get retry_runs).symm).1
  have hcount : retried.state.emitted.countP isCompletedEvent = 2 := by decide +kernel
  omega

end Agently.TriggerFlow.Close
