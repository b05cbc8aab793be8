import Agently.Operation.PolicyApproval
import Agently.TriggerFlow.SelfResume

/-! # No approval is used twice

Source: `operation/PolicyApproval/PolicyApproval.py`. Handlers of a running execution call gates; a
gate of a replay may answer from the ledger. An answer is its own if the interrupt was raised by the
same gate for the same originating signal. -/

namespace Agently.Operation

open Agently.Lib Agently.Utils Agently.TriggerFlow

/-- What a suspended `async_gate` does next; `none` in `answered` is a decision that raised. -/
inductive GatePhase where
  | looking
  | resolving
  | pausing (decision : PolicyApprovalDecision)
  | answered (decision : Option PolicyApprovalDecision)
  | paused
  deriving DecidableEq

structure GateTask (γ ε : Type) where
  invocation : Nat
  call : GateCall γ ε
  phase : GatePhase

/-- An answer from the ledger: the gate, the signal it works for, and the interrupt it used. -/
structure GateAnswer (γ : Type) where
  invocation : Nat
  gate : γ
  origin : Nat
  interruptId : String
  serial : Nat
  approved : Bool
  deriving DecidableEq

/-- `claimed` keeps the `_policy_gate_claimed_interrupt_ids` of each handler run; `raisedBy`
the gate behind a pause, which no function of the source reads. -/
structure GateExecution (γ ε η : Type) where
  execution : Execution ε η
  gates : List (GateTask γ ε)
  claimed : List (Nat × String)
  answers : List (GateAnswer γ)
  raisedBy : List (Nat × γ)

inductive GateAction (γ ε η : Type) where
  | engine (a : ExecutionAction ε η)
  | openGate (invocation : Nat) (call : GateCall γ ε)
  | advanceGate (index : Nat) (resolved : Value) (now : Nat)

variable {γ ε η : Type}

def claimedBy (claimed : List (Nat × String)) (invocation : Nat) : List String :=
  (claimed.filter fun p => decide (p.1 = invocation)).map Prod.snd

def setGate (g : GateExecution γ ε η) (index : Nat) (t : GateTask γ ε) (phase : GatePhase) :
    GateExecution γ ε η :=
  { g with gates := g.gates.set index { t with phase := phase } }

def resumeValueOf (s : Signal ε) : Value :=
  match s.signalMeta.get? "resume" with
  | some (.dict kvs) => (Dict.get? kvs "value").getD .none
  | _ => .none

/-- `_claim_resumed_gate_decision` in a replay. Without a ledger the gate takes the value
of the resume itself. -/
def lookGate (g : GateExecution γ ε η) (index : Nat) (t : GateTask γ ε) (inv : Invocation ε η) :
    GateExecution γ ε η :=
  let interrupts := g.execution.pool.state.interrupts
  if interrupts.isEmpty then setGate g index t (.answered (resumeDecision (resumeValueOf inv.signal)))
  else match claimedCandidate interrupts (claimedBy g.claimed t.invocation) t.call with
    | none => setGate g index t .resolving
    | some (id, i) =>
      setGate
        { g with
          claimed := g.claimed ++ [(t.invocation, id)]
          answers := g.answers ++
            [{ invocation := t.invocation, gate := t.call.gate, origin := inv.origin
               interruptId := id, serial := i.serial, approved := approves i.resumeValue }] }
        index t (.answered (resumeDecision i.resumeValue))

def resolvedPhase (resolved : Value) : GatePhase :=
  match normalizeDecision "" resolved with
  | none => .answered none
  | some d => if d.status = .pending then .pausing d else .answered (some d)

/-- The pause of a gate, recorded under its name; it raises at the self-resume limit. -/
def pauseGate (flow : Flow ε η) (g : GateExecution γ ε η) (index : Nat) (t : GateTask γ ε)
    (inv : Invocation ε η) (d : PolicyApprovalDecision) (now : Nat) :
    Option (GateExecution γ ε η) :=
  (pauseFrom flow g.execution inv (t.call.pauseArgs d) now "").map fun execution =>
    let serial := g.execution.raises.length
    if serial < execution.raises.length then
      setGate { g with execution := execution, raisedBy := g.raisedBy ++ [(serial, t.call.gate)] }
        index t .paused
    else setGate { g with execution := execution } index t (.answered none)

def advanceGate (flow : Flow ε η) (g : GateExecution γ ε η) (index : Nat) (t : GateTask γ ε)
    (inv : Invocation ε η) (resolved : Value) (now : Nat) : Option (GateExecution γ ε η) :=
  match t.phase with
  | .looking =>
    if inv.signal.isResume then some (lookGate g index t inv)
    else some (setGate g index t .resolving)
  | .resolving => some (setGate g index t (resolvedPhase resolved))
  | .pausing d => pauseGate flow g index t inv d now
  | .answered _ | .paused => none

variable [DecidableEq ε] [DecidableEq η]

def gateStep (flow : Flow ε η) (g : GateExecution γ ε η) :
    GateAction γ ε η → Option (GateExecution γ ε η)
  | .engine a => (executionStep flow g.execution a).map fun e => { g with execution := e }
  | .openGate invocation call =>
    g.execution.invocations[invocation]?.bind fun inv =>
      if inv.running then
        some { g with gates := g.gates ++
          [{ invocation := invocation, call := call, phase := .looking }] }
      else none
  | .advanceGate index resolved now =>
    g.gates[index]?.bind fun t =>
      g.execution.invocations[t.invocation]?.bind fun inv =>
        if inv.running then advanceGate flow g index t inv resolved now else none

def gateExecution (γ : Type) (flow : Flow ε η) :
    Machine (GateExecution γ ε η) (GateAction γ ε η) :=
  ⟨gateStep flow⟩

omit [DecidableEq ε] [DecidableEq η] in
def GateExecution.initial : GateExecution γ ε η :=
  { execution := Execution.initial, gates := [], claimed := [], answers := [], raisedBy := [] }

def RaisedFor (g : GateExecution γ ε η) (gate : γ) (origin serial : Nat) : Prop :=
  (serial, gate) ∈ g.raisedBy ∧ ∃ raise ∈ g.execution.raises[serial]?, raise.origin = origin

def ApprovalsOwned (g : GateExecution γ ε η) : Prop :=
  ∀ a ∈ g.answers, a.approved = true → RaisedFor g a.gate a.origin a.serial

def ClaimedOnce (g : GateExecution γ ε η) : Prop :=
  g.answers.Pairwise fun a b => a.invocation = b.invocation → a.interruptId ≠ b.interruptId

def candidatesOf (g : GateExecution γ ε η) (t : GateTask γ ε) : List (String × Interrupt ε) :=
  gateCandidates g.execution.pool.state.interrupts (claimedBy g.claimed t.invocation) t.call

/-- Of the resumed interrupts that match a gate about to look into the ledger, an approving
one of another gate or another signal is never the oldest. -/
def ForeignApprovalsPreceded (g : GateExecution γ ε η) : GateAction γ ε η → Prop
  | .advanceGate index _ _ => ∀ t ∈ g.gates[index]?, ∀ inv ∈ g.execution.invocations[t.invocation]?,
      t.phase = .looking → inv.signal.isResume = true →
        ∀ x ∈ candidatesOf g t, approves x.2.resumeValue = true →
          ¬ RaisedFor g t.call.gate inv.origin x.2.serial →
            ∃ y ∈ candidatesOf g t, ¬ earlier x y = true
  | _ => True

variable {g g' : GateExecution γ ε η}

omit [DecidableEq ε] [DecidableEq η] in
theorem raisedFor_mono {gate : γ} {origin serial : Nat}
    (hr : g.execution.raises <+: g'.execution.raises) (hb : g.raisedBy ⊆ g'.raisedBy)
    (h : RaisedFor g gate origin serial) : RaisedFor g' gate origin serial := by
  obtain ⟨hm, raise, hraise, ho⟩ := h
  obtain ⟨more, hmore⟩ := hr
  obtain ⟨hlen, -⟩ := List.getElem?_eq_some_iff.mp hraise
  refine ⟨hb hm, raise, ?_, ho⟩
  rw [← hmore, List.getElem?_append_left hlen]
  exact hraise

omit [DecidableEq ε] [DecidableEq η] in
theorem mem_claimedBy {claimed : List (Nat × String)} {n : Nat} {id : String} :
    id ∈ claimedBy claimed n ↔ (n, id) ∈ claimed := by
  simp only [claimedBy, List.mem_map, List.mem_filter, decide_eq_true_eq]
  constructor
  · intro h
    obtain ⟨p, ⟨hp, hn⟩, hid⟩ := h
    obtain ⟨m, id'⟩ := p
    simp only at hn hid
    subst hn
    subst hid
    exact hp
  · intro h
    exact ⟨(n, id), ⟨h, rfl⟩, rfl⟩

structure GateInv (g : GateExecution γ ε η) : Prop where
  owned : ApprovalsOwned g
  once : ClaimedOnce g
  recorded : ∀ a ∈ g.answers, (a.invocation, a.interruptId) ∈ g.claimed

omit [DecidableEq ε] [DecidableEq η] in
theorem gateInv_initial : GateInv (GateExecution.initial : GateExecution γ ε η) where
  owned := by intro a ha; cases ha
  once := List.Pairwise.nil
  recorded := by intro a ha; cases ha

omit [DecidableEq ε] [DecidableEq η] in
theorem gateInv_of_same_answers (h : GateInv g)
    (hr : g.execution.raises <+: g'.execution.raises) (hb : g.raisedBy ⊆ g'.raisedBy)
    (ha : g'.answers = g.answers) (hc : g'.claimed = g.claimed) : GateInv g' where
  owned := by
    intro a hm happ
    rw [ha] at hm
    exact raisedFor_mono hr hb (h.owned a hm happ)
  once := by
    unfold ClaimedOnce
    rw [ha]
    exact h.once
  recorded := by
    intro a hm
    rw [ha] at hm
    rw [hc]
    exact h.recorded a hm

variable {inv : Invocation ε η}

omit [DecidableEq ε] [DecidableEq η] in
theorem oldest_owned {t : GateTask γ ε} {x : String × Interrupt ε}
    (hpre : ∀ x ∈ candidatesOf g t, approves x.2.resumeValue = true →
      ¬ RaisedFor g t.call.gate inv.origin x.2.serial →
        ∃ y ∈ candidatesOf g t, ¬ earlier x y = true)
    (hx : oldest (candidatesOf g t) = some x) (happ : approves x.2.resumeValue = true) :
    RaisedFor g t.call.gate inv.origin x.2.serial := by
  obtain ⟨hmem, hmin⟩ := oldest_spec hx
  by_contra hforeign
  obtain ⟨y, hy, hlater⟩ := hpre x hmem happ hforeign
  exact hlater (hmin y hy)

omit [DecidableEq ε] [DecidableEq η] in
theorem gateInv_look {index : Nat} {t : GateTask γ ε} (h : GateInv g)
    (hpre : ∀ x ∈ candidatesOf g t, approves x.2.resumeValue = true →
      ¬ RaisedFor g t.call.gate inv.origin x.2.serial →
        ∃ y ∈ candidatesOf g t, ¬ earlier x y = true) :
    GateInv (lookGate g index t inv) := by
  unfold lookGate
  simp only
  split
  · exact gateInv_of_same_answers h (List.prefix_refl _) (List.Subset.refl _) rfl rfl
  · split
    next => exact gateInv_of_same_answers h (List.prefix_refl _) (List.Subset.refl _) rfl rfl
    next id i hclaim =>
      have hx : oldest (candidatesOf g t) = some (id, i) := hclaim
      obtain ⟨hmem, -⟩ := oldest_spec hx
      have hnew : (t.invocation, id) ∉ g.claimed := by
        have hnot := not_claimed_of_matches (mem_gateCandidates.mp hmem).2
        rwa [mem_claimedBy] at hnot
      refine ⟨?_, ?_, ?_⟩
      · intro a ha happ
        rcases List.mem_append.mp ha with ha | ha
        · exact h.owned a ha happ
        · rw [List.mem_singleton.mp ha] at happ ⊢
          exact oldest_owned hpre hx happ
      · refine List.pairwise_append.mpr ⟨h.once, List.pairwise_singleton _ _, ?_⟩
        intro a ha b hb hinv hid
        rw [List.mem_singleton.mp hb] at hinv hid
        have hrec := h.recorded a ha
        rw [hinv, hid] at hrec
        exact hnew hrec
      · intro a ha
        rcases List.mem_append.mp ha with ha | ha
        · exact List.mem_append_left _ (h.recorded a ha)
        · rw [List.mem_singleton.mp ha]
          exact List.mem_append_right _ (List.mem_singleton_self _)

variable {flow : Flow ε η}

omit [DecidableEq ε] [DecidableEq η] in
theorem pauseFrom_raises {e e' : Execution ε η} {args : PauseArgs ε} {now : Nat} {freshId : String}
    (he : pauseFrom flow e inv args now freshId = some e') : e.raises <+: e'.raises := by
  obtain ⟨pool, -, rfl⟩ := Option.map_eq_some_iff.mp he
  exact List.prefix_append _ _

theorem executionStep_raises {e e' : Execution ε η} {a : ExecutionAction ε η}
    (he : executionStep flow e a = some e') : e.raises <+: e'.raises := by
  by_cases hp : ∀ n args now freshId, a ≠ .pauseFor n args now freshId
  · have hsame := executionStep_raises_eq hp he
    exact ⟨[], by rw [List.append_nil, hsame]⟩
  · push Not at hp
    obtain ⟨n, args, now, freshId, rfl⟩ := hp
    obtain ⟨inv, -, hpause⟩ := Option.bind_eq_some_iff.mp he
    split at hpause
    · exact pauseFrom_raises hpause
    · cases hpause

theorem gateInv_step {a : GateAction γ ε η}
    (h : GateInv g) (hpre : ForeignApprovalsPreceded g a) (hg : gateStep flow g a = some g') :
    GateInv g' := by
  cases a with
  | engine a =>
    obtain ⟨e, he, rfl⟩ := Option.map_eq_some_iff.mp hg
    exact gateInv_of_same_answers h (executionStep_raises he) (List.Subset.refl _) rfl rfl
  | openGate invocation call =>
    obtain ⟨inv, -, hopen⟩ := Option.bind_eq_some_iff.mp hg
    split at hopen
    · cases hopen
      exact gateInv_of_same_answers h (List.prefix_refl _) (List.Subset.refl _) rfl rfl
    · cases hopen
  | advanceGate index resolved now =>
    obtain ⟨t, ht, hrest⟩ := Option.bind_eq_some_iff.mp hg
    obtain ⟨inv, hinv, hrunning⟩ := Option.bind_eq_some_iff.mp hrest
    have hadv : advanceGate flow g index t inv resolved now = some g' := by
      by_cases hr : inv.running = true
      · rwa [if_pos hr] at hrunning
      · rw [if_neg hr] at hrunning
        cases hrunning
    unfold advanceGate at hadv
    cases hp : t.phase with
    | looking =>
      simp only [hp] at hadv
      split at hadv
      next hresume =>
        cases hadv
        exact gateInv_look h (hpre t ht inv hinv hp hresume)
      next =>
        cases hadv
        exact gateInv_of_same_answers h (List.prefix_refl _) (List.Subset.refl _) rfl rfl
    | resolving =>
      simp only [hp] at hadv
      cases hadv
      exact gateInv_of_same_answers h (List.prefix_refl _) (List.Subset.refl _) rfl rfl
    | pausing d =>
      simp only [hp] at hadv
      obtain ⟨e, he, hg'⟩ := Option.map_eq_some_iff.mp hadv
      have hpref := pauseFrom_raises he
      simp only at hg'
      split at hg'
      · subst hg'
        exact gateInv_of_same_answers h hpref (List.subset_append_left _ _) rfl rfl
      · subst hg'
        exact gateInv_of_same_answers h hpref (List.Subset.refl _) rfl rfl
    | answered d => simp only [hp] at hadv; cases hadv
    | paused => simp only [hp] at hadv; cases hadv

def planGate : GateCall String String :=
  { gate := "plan", interruptId := some "gate:plan", request := [("subject", .str "plan")] }

def toolGate : GateCall String String :=
  { gate := "tool", interruptId := some "gate:tool", request := [("subject", .str "tool")] }

/-- A fresh signal is dispatched as `dispatch` and its handler runs as `invocation`; the gate
pauses as `task` of the pool and as gate `gate`, and is continued with an approval, which
the handler is replayed for. -/
def approvedRound (dispatch invocation task gate : Nat) (call : GateCall String String) :
    List (GateAction String String String) :=
  .engine (.emit { id := "s", triggerEvent := "Start" }) ::
    List.replicate 4 (.engine (.advanceDispatch dispatch)) ++
    .openGate invocation call :: List.replicate 3 (.advanceGate gate .none task) ++
    List.replicate 7 (.engine (.advance task .ok "")) ++
    .engine (.continueWith { interruptId := call.pauseId, value := .bool true }) ::
    List.replicate 3 (.engine (.advance (task + 1) .ok "r")) ++
    List.replicate 4 (.engine (.advanceDispatch (dispatch + 1)))

/-- The first signal is approved at `tool`. The second is approved at `plan`, and its replay
goes on to `tool`. -/
def reusedRun : List (GateAction String String String) :=
  approvedRound 0 0 0 0 toolGate ++ approvedRound 2 2 2 1 planGate ++
    [.openGate 3 toolGate, .advanceGate 2 .none 0]

def reused : GateExecution String String String :=
  ((gateExecution String reviewFlow).run GateExecution.initial reusedRun).get (by decide)

def ownRun : List (GateAction String String String) :=
  approvedRound 0 0 0 0 toolGate ++ [.openGate 1 toolGate, .advanceGate 1 .none 0]

instance (g : GateExecution String String String) (a : GateAction String String String) :
    Decidable (ForeignApprovalsPreceded g a) :=
  match a with
  | .engine _ | .openGate _ _ => isTrue trivial
  | .advanceGate index _ _ => inferInstanceAs (Decidable (∀ t ∈ g.gates[index]?,
      ∀ inv ∈ g.execution.invocations[t.invocation]?, t.phase = .looking →
        inv.signal.isResume = true → ∀ x ∈ candidatesOf g t, approves x.2.resumeValue = true →
          ¬ ((x.2.serial, t.call.gate) ∈ g.raisedBy ∧
            ∃ raise ∈ g.execution.raises[x.2.serial]?, raise.origin = inv.origin) →
          ∃ y ∈ candidatesOf g t, ¬ earlier x y = true))

end Agently.Operation
