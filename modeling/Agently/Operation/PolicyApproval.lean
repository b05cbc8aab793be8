import Agently.TriggerFlow.Execution
import Mathlib.Data.List.Sort
import Mathlib.Data.String.Basic

/-! # Policy approval gates

Source: `operation/PolicyApproval/PolicyApproval.py`. Requests are taken as `normalize_request`
leaves them, with the policy merged; the answer of the registered policy handler is an input. -/

namespace Agently.Operation

open Agently.Lib Agently.Utils Agently.TriggerFlow

inductive DecisionStatus where
  | approved | denied | pending
  deriving DecidableEq

structure PolicyApprovalDecision where
  status : DecisionStatus
  reason : Value
  handler : String
  policyOverride : Option (List (String × Value)) := none
  waitStrategy : Option Value := none
  decisionMeta : Option (List (String × Value)) := none
  deriving DecidableEq

def PolicyApprovalDecision.approved (d : PolicyApprovalDecision) : Bool :=
  decide (d.status = .approved)

def statusText : DecisionStatus → String
  | .approved => "approved"
  | .denied => "denied"
  | .pending => "pending"

/-- An item `dict` takes from an iterable; keys that are no strings are read by nobody. -/
def pairOf : Value → Option (String × Value)
  | .list [k, v] | .tuple [k, v] => some (match k with | .str s => s | _ => "", v)
  | .str s =>
    match s.toList with
    | [a, b] => some (String.singleton a, .str (String.singleton b))
    | _ => none
  | _ => none

def decisionDict (v : Value) : Option (List (String × Value)) :=
  match v with
  | .dict kvs => some kvs
  | .list xs | .tuple xs =>
    (xs.mapM pairOf).map fun pairs => pairs.foldl (fun d p => Dict.set d p.1 p.2) []
  | .str s => if s = "" then some [] else none
  | .none => some []
  | .bool b => if b then none else some []
  | .int n => if n = 0 then some [] else none
  | .empty | .object _ _ => none

def isPySpace (c : Char) : Bool :=
  c.isWhitespace || c.val.toNat ∈ [0x0b, 0x0c, 0x1c, 0x1d, 0x1e, 0x1f, 0x85, 0xa0, 0x1680, 0x2000,
    0x2001, 0x2002, 0x2003, 0x2004, 0x2005, 0x2006, 0x2007, 0x2008, 0x2009, 0x200a, 0x2028, 0x2029,
    0x202f, 0x205f, 0x3000]

/-- `str(raw.get("status") or "").strip().lower()`, as far as it can be a status: no number,
list or dict has the text of one. -/
def rawStatus (raw : List (String × Value)) : List Char :=
  let text := match Dict.get? raw "status" with
    | some (.str s) => s
    | some (.object text _) => text
    | _ => ""
  let strip := fun cs : List Char => cs.dropWhile isPySpace
  ((strip (strip text.toList).reverse).reverse).map Char.toLower

def decisionStatus (raw : List (String × Value)) : DecisionStatus :=
  if rawStatus raw = "approved".toList then .approved
  else if rawStatus raw = "denied".toList then .denied
  else if rawStatus raw = "pending".toList then .pending
  else match Dict.get? raw "approved" with
    | some (.bool true) => .approved
    | some (.bool false) =>
      if ((Dict.get? raw "reason").getD .none).truthy then .denied else .pending
    | _ => .pending

def dictEntry (raw : List (String × Value)) (key : String) : Option (List (String × Value)) :=
  match Dict.get? raw key with
  | some (.dict kvs) => some kvs
  | _ => none

/-- `normalize_decision`; `none` where it raises. -/
def normalizeDecision (handler : String) (decision : Value) : Option PolicyApprovalDecision :=
  match decision with
  | .bool b =>
    let status := if b then DecisionStatus.approved else .denied
    some { status := status, reason := .str (statusText status), handler := handler }
  | _ => (decisionDict decision).map fun raw =>
    let status := decisionStatus raw
    let reason := (Dict.get? raw "reason").getD .none
    { status := status
      reason := if reason.truthy then reason else .str (statusText status)
      handler := match Dict.get? raw "handler" with
        | some (.str s) => if s = "" then handler else s
        | _ => handler
      policyOverride := dictEntry raw "policy_override"
      waitStrategy := (Dict.get? raw "wait_strategy").filter fun v => v ≠ .none
      decisionMeta := dictEntry raw "meta" }

def resumeDecision (v : Value) : Option PolicyApprovalDecision :=
  normalizeDecision "triggerflow_resume" v

def approves (v : Value) : Bool := (resumeDecision v).any PolicyApprovalDecision.approved

def PolicyApprovalDecision.toValue (d : PolicyApprovalDecision) : Value :=
  .dict [("status", .str (statusText d.status)), ("approved", .bool d.approved),
    ("reason", d.reason), ("handler", .str d.handler)]

mutual

/-- What `json.dumps(sort_keys=True, default=str)` keeps of a value: two values have the
same text exactly if these agree. -/
def jsonForm : Value → Value
  | .list xs | .tuple xs => .list (jsonList xs)
  | .dict kvs => .dict ((jsonEntries kvs).insertionSort fun a b => a.1 ≤ b.1)
  | .empty => .str Value.emptyText
  | .object text _ => .str text
  | v => v

def jsonList : List Value → List Value
  | [] => []
  | x :: xs => jsonForm x :: jsonList xs

def jsonEntries : List (String × Value) → List (String × Value)
  | [] => []
  | (k, v) :: rest => (k, jsonForm v) :: jsonEntries rest

end

def requestIdentity : Value → Option Value
  | .dict request => some (.list
      (["source", "capability", "subject", "risk", "payload", "policy", "lineage"].map fun key =>
        jsonForm ((Dict.get? request key).getD .none)))
  | _ => none

/-- A call of a gate: `gate` names the gate of the handler's code that makes it. -/
structure GateCall (γ ε : Type) where
  gate : γ
  interruptId : Option String := none
  request : List (String × Value)
  resumeTo : ResumeTo ε := .self

variable {γ ε : Type}

def GateCall.unpinnedId (c : GateCall γ ε) : String :=
  match Dict.get? c.request "request_id" with
  | some (.str s) => "policy:" ++ s
  | _ => "policy:"

def GateCall.pauseId (c : GateCall γ ε) : String :=
  match c.interruptId with
  | some pin => if pin = "" then c.unpinnedId else pin
  | none => c.unpinnedId

def GateCall.pauseArgs (c : GateCall γ ε) (d : PolicyApprovalDecision) : PauseArgs ε :=
  { type := "policy_approval"
    exchangeKind := some "approval"
    payload := .dict [("request", .dict c.request), ("decision", d.toValue)]
    interruptId := some c.pauseId
    resumeTo := some c.resumeTo }

def payloadRequest (payload : Value) : Value :=
  match payload with
  | .dict kvs => (Dict.get? kvs "request").getD .none
  | _ => .none

/-- A resumed interrupt the gate may claim: its own id, or the identity of its request. -/
def gateMatches (claimed : List String) (c : GateCall γ ε) (id : String) (i : Interrupt ε) : Bool :=
  decide (i.type = "policy_approval") && decide (i.status = .resumed) && !claimed.contains id &&
    match c.interruptId with
    | some pin => decide (id = pin)
    | none =>
      (requestIdentity (payloadRequest i.payload)).isSome &&
        decide (requestIdentity (payloadRequest i.payload) = requestIdentity (.dict c.request))

/-- The order of `candidates.sort`: by creation time, then by id. -/
def earlier (a b : String × Interrupt ε) : Bool :=
  decide (a.2.createdAt < b.2.createdAt ∨ (a.2.createdAt = b.2.createdAt ∧ a.1 ≤ b.1))

def gateCandidates (interrupts : Ledger ε) (claimed : List String) (c : GateCall γ ε) :
    List (String × Interrupt ε) :=
  interrupts.filter fun p => gateMatches claimed c p.1 p.2

def oldest : List (String × Interrupt ε) → Option (String × Interrupt ε)
  | [] => none
  | x :: rest =>
    match oldest rest with
    | none => some x
    | some y => if earlier x y then some x else some y

/-- The interrupt `_claim_resumed_gate_decision` claims. -/
def claimedCandidate (interrupts : Ledger ε) (claimed : List String) (c : GateCall γ ε) :
    Option (String × Interrupt ε) :=
  oldest (gateCandidates interrupts claimed c)

theorem earlier_trans {a b c : String × Interrupt ε} (hab : earlier a b = true)
    (hbc : earlier b c = true) : earlier a c = true := by
  simp only [earlier, decide_eq_true_eq] at hab hbc ⊢
  rcases hab with h | ⟨h, hs⟩
  · rcases hbc with h' | ⟨h', -⟩
    · exact .inl (h.trans h')
    · exact .inl (h' ▸ h)
  · rcases hbc with h' | ⟨h', hs'⟩
    · exact .inl (h ▸ h')
    · exact .inr ⟨h.trans h', hs.trans hs'⟩

theorem earlier_of_not_earlier {a b : String × Interrupt ε} (h : ¬ earlier a b = true) :
    earlier b a = true := by
  simp only [earlier, decide_eq_true_eq, not_or, not_and] at h ⊢
  rcases Nat.lt_trichotomy a.2.createdAt b.2.createdAt with hlt | heq | hgt
  · exact absurd hlt h.1
  · exact .inr ⟨heq.symm, (le_total b.1 a.1).resolve_right (h.2 heq)⟩
  · exact .inl hgt

theorem earlier_refl (a : String × Interrupt ε) : earlier a a = true := by
  simp [earlier]

theorem oldest_spec {l : List (String × Interrupt ε)} {x : String × Interrupt ε}
    (h : oldest l = some x) : x ∈ l ∧ ∀ y ∈ l, earlier x y = true := by
  induction l generalizing x with
  | nil => cases h
  | cons a rest ih =>
    unfold oldest at h
    cases ho : oldest rest with
    | none =>
      simp only [ho] at h
      cases h
      have hrest : rest = [] := by
        cases rest with
        | nil => rfl
        | cons b rest' =>
          exfalso
          unfold oldest at ho
          cases hb : oldest rest' with
          | none => simp [hb] at ho
          | some c => by_cases hc : earlier b c = true <;> simp [hb, hc] at ho
      subst hrest
      simp [earlier_refl]
    | some b =>
      obtain ⟨hb, hmin⟩ := ih ho
      simp only [ho] at h
      by_cases hab : earlier a b = true
      · rw [if_pos hab] at h
        cases h
        refine ⟨List.mem_cons_self, ?_⟩
        intro y hy
        rcases List.mem_cons.mp hy with rfl | hy
        · exact earlier_refl y
        · exact earlier_trans hab (hmin y hy)
      · rw [if_neg hab] at h
        cases h
        refine ⟨List.mem_cons_of_mem _ hb, ?_⟩
        intro y hy
        rcases List.mem_cons.mp hy with rfl | hy
        · exact earlier_of_not_earlier hab
        · exact hmin y hy

theorem mem_gateCandidates {interrupts : Ledger ε} {claimed : List String} {c : GateCall γ ε}
    {x : String × Interrupt ε} :
    x ∈ gateCandidates interrupts claimed c ↔
      x ∈ interrupts ∧ gateMatches claimed c x.1 x.2 = true := by
  simp [gateCandidates]

theorem not_claimed_of_matches {claimed : List String} {c : GateCall γ ε} {id : String}
    {i : Interrupt ε} (h : gateMatches claimed c id i = true) : id ∉ claimed := by
  simp only [gateMatches, Bool.and_eq_true, Bool.not_eq_true', List.contains_eq_mem,
    decide_eq_false_iff_not] at h
  exact h.1.2

end Agently.Operation
