import Mathlib.Data.Fintype.EquivFin
import Mathlib.Data.List.Forall2
import Agently.Action.ActionDispatcher

/-! # What a plan cannot grant itself

Host-only policy keys and inputs the spec does not declare are dropped under the planning protocols
only, and the protocol is a text of the command. -/

namespace Agently.Action

open Agently.Lib
open Agently.Utils (Value)

theorem get?_update_of_not_mem {policy other : Policy} {key : String}
    (h : ∀ p ∈ other, p.1 ≠ key) : (update policy other).get? key = policy.get? key := by
  induction other generalizing policy with
  | nil => rfl
  | cons p rest ih =>
    show (update (policy.set p.1 p.2) rest).get? key = _
    rw [ih (List.forall_mem_cons.mp h).2]
    exact Dict.get?_set_of_ne policy p.2 (h p List.mem_cons_self)

theorem sanitizedOverride_host {policy : Policy} {key : String}
    (hkey : key ∈ HOST_ONLY_POLICY_KEYS) : ∀ p ∈ sanitizedOverride policy, p.1 ≠ key := by
  intro p hp he
  have hno := (List.mem_filter.mp hp).2
  rw [decide_eq_true_eq, he] at hno
  exact hno hkey

theorem sanitizedOverride_set (policy : Policy) {key : String} (v : PolicyValue)
    (hkey : key ∈ HOST_ONLY_POLICY_KEYS) :
    sanitizedOverride (policy.set key v) = sanitizedOverride policy := by
  unfold sanitizedOverride
  induction policy with
  | nil =>
    show List.filter _ [(key, v)] = []
    rw [List.filter_cons_of_neg (by simpa using hkey)]
    rfl
  | cons p rest ih =>
    obtain ⟨k, w⟩ := p
    unfold Dict.set
    split
    · rename_i hk
      rw [List.filter_cons_of_neg (by simpa [hk] using hkey),
        List.filter_cons_of_neg (by simpa [hk] using hkey)]
    · by_cases hk : k ∉ HOST_ONLY_POLICY_KEYS
      · rw [List.filter_cons_of_pos (by simpa using hk),
          List.filter_cons_of_pos (by simpa using hk), ih]
      · rw [List.filter_cons_of_neg (by simpa using hk),
          List.filter_cons_of_neg (by simpa using hk), ih]

theorem sanitizedOverride_sanitized (policy : Policy) :
    sanitizedOverride (sanitizedOverride policy) = sanitizedOverride policy := by
  unfold sanitizedOverride
  rw [List.filter_filter]
  simp

theorem sanitizedOverride_trusted (policy : Policy) (d : Decision) :
    sanitizedOverride (update (sanitizedOverride policy) (trustedOverride d)) =
      sanitizedOverride policy := by
  show sanitizedOverride (Dict.set (Dict.set (sanitizedOverride policy) "policy_approval_granted" _)
    "policy_approval_decision" _) = _
  rw [sanitizedOverride_set _ _ (by decide), sanitizedOverride_set _ _ (by decide),
    sanitizedOverride_sanitized]

theorem get?_trusted (policy : Policy) (d : Decision) :
    (update policy (trustedOverride d)).get? "policy_approval_decision" = some (.decision d) :=
  Dict.get?_set_self _ _ _

variable (H : Host)

def normalized (str : Value → String) (fallback_next : Option String) (commands : List Value) :
    List ActionCall :=
  commands.filterMap (normalize_action_call str fallback_next)

/-- The first command is the second, which names no protocol, and what it may carry besides:
host-only policy keys, inputs the spec drops, and a protocol. -/
structure Carries (c d : ActionCall) : Prop where
  purpose : c.purpose = d.purpose
  action_id : c.action_id = d.action_id
  todo_suggestion : c.todo_suggestion = d.todo_suggestion
  policy_override : sanitizedOverride c.policy_override = sanitizedOverride d.policy_override
  action_input : ∀ spec, H.spec c.action_id = some spec →
    sanitizedInput spec c.action_input = sanitizedInput spec d.action_input
  source_protocol : d.source_protocol = "structured_plan"

def Unaffected (str : Value → String) (fallback_next : Option String) (commands : List Value) :
    Prop :=
  ∀ plain, List.Forall₂ (Carries H) (normalized str fallback_next commands)
      (normalized str fallback_next plain) →
    round H str fallback_next commands = round H str fallback_next plain

structure Aligned (c d : ActionCall) : Prop where
  action_id : c.action_id = d.action_id
  policy_override : sanitizedOverride c.policy_override = sanitizedOverride d.policy_override
  action_input : ∀ spec, H.spec c.action_id = some spec →
    sanitizedInput spec c.action_input = sanitizedInput spec d.action_input
  planned : planned c.source_protocol = true ∧ planned d.source_protocol = true

section

variable {H}

variable {c d : ActionCall}

theorem Carries.aligned (h : Carries H c d)
    (hplanned : Agently.Action.planned c.source_protocol = true) : Aligned H c d := by
  refine ⟨h.action_id, h.policy_override, h.action_input, hplanned, ?_⟩
  rw [h.source_protocol]
  decide

theorem gatePolicy_congr (hid : c.action_id = d.action_id)
    (hover : sanitizedOverride c.policy_override = sanitizedOverride d.policy_override) :
    gatePolicy H c = gatePolicy H d := by
  unfold gatePolicy
  rw [hid, hover]

theorem gatePolicy_approve (c : ActionCall) (d : Decision) :
    gatePolicy H (c.approve d) = gatePolicy H c :=
  gatePolicy_congr rfl (sanitizedOverride_trusted c.policy_override d)

theorem Aligned.approve (h : Aligned H c d) (decision : Decision) :
    Aligned H (c.approve decision) (d.approve decision) := by
  refine ⟨h.action_id, ?_, h.action_input, h.planned⟩
  unfold ActionCall.approve
  rw [sanitizedOverride_trusted, sanitizedOverride_trusted, h.policy_override]

def GatedAlike (x y : ActionCall × Option Decision) : Prop :=
  Aligned H x.1 y.1 ∧ x.2 = y.2

variable {cs ds : List ActionCall}

theorem gate_aligned (h : List.Forall₂ (Aligned H) cs ds) (n : Nat) :
    (gate H n cs).1 = (gate H n ds).1 ∧
      Option.Rel (List.Forall₂ (GatedAlike (H := H))) (gate H n cs).2 (gate H n ds).2 := by
  induction h generalizing n with
  | nil => exact ⟨rfl, .some .nil⟩
  | @cons c d cs ds hcd _ ih =>
    obtain ⟨hasked, hrel⟩ := ih (n + 1)
    have hpolicy := gatePolicy_congr (H := H) hcd.action_id hcd.policy_override
    unfold gate
    rw [hpolicy, hcd.action_id]
    generalize (gate H (n + 1) cs).2 = gatedC at hrel ⊢
    generalize (gate H (n + 1) ds).2 = gatedD at hrel ⊢
    cases gatePolicy H d with
    | none =>
      refine ⟨hasked, ?_⟩
      cases hrel with
      | none => exact .none
      | some hlist => exact .some (.cons ⟨hcd, rfl⟩ hlist)
    | some found =>
      obtain ⟨spec, policy⟩ := found
      dsimp only
      cases (H.gate n).approved with
      | false => exact ⟨rfl, .none⟩
      | true =>
        refine ⟨by rw [if_pos rfl, if_pos rfl, hasked], ?_⟩
        rw [if_pos rfl, if_pos rfl]
        cases hrel with
        | none => exact .none
        | some hlist => exact .some (.cons ⟨hcd.approve _, rfl⟩ hlist)

/-- A gated command has the decision in its override exactly when its action needs one. -/
structure Granted (x : ActionCall × Option Decision) : Prop where
  needless : x.2 = none → gatePolicy H x.1 = none
  granted : ∀ d, x.2 = some d → gatePolicy H x.1 ≠ none ∧ d.approved = true ∧
    x.1.policy_override.get? "policy_approval_decision" = some (.decision d)

theorem gate_granted {n : Nat}
    {gated : List (ActionCall × Option Decision)} (h : (gate H n cs).2 = some gated) :
    ∀ x ∈ gated, Granted (H := H) x := by
  induction cs generalizing n gated with
  | nil =>
    cases h
    nofun
  | cons c rest ih =>
    unfold gate at h
    cases hp : gatePolicy H c with
    | none =>
      rw [hp] at h
      obtain ⟨gated', hg, rfl⟩ := Option.map_eq_some_iff.mp h
      intro x hx
      rcases List.mem_cons.mp hx with rfl | hx
      · exact ⟨fun _ => hp, nofun⟩
      · exact ih hg x hx
    | some found =>
      obtain ⟨spec, policy⟩ := found
      rw [hp] at h
      dsimp only at h
      by_cases ha : (H.gate n).approved = true
      · rw [if_pos ha] at h
        obtain ⟨gated', hg, rfl⟩ := Option.map_eq_some_iff.mp h
        intro x hx
        rcases List.mem_cons.mp hx with rfl | hx
        · refine ⟨nofun, ?_⟩
          rintro d ⟨⟩
          refine ⟨?_, ha, get?_trusted _ _⟩
          rw [gatePolicy_approve, hp]
          exact Option.some_ne_none _
        · exact ih hg x hx
      · rw [if_neg ha] at h
        cases h

theorem Granted.eq {d d' : Option Decision} (h : Granted (H := H) (c, d))
    (h' : Granted (H := H) (c, d')) : d = d' := by
  cases d with
  | none =>
    cases d' with
    | none => rfl
    | some e' => exact absurd (h.needless rfl) (h'.granted e' rfl).1
  | some e =>
    cases d' with
    | none => exact absurd (h'.needless rfl) (h.granted e rfl).1
    | some e' =>
      have hget := (h.granted e rfl).2.2.symm.trans (h'.granted e' rfl).2.2
      cases hget
      rfl

theorem trustedOf_eq {gated : List (ActionCall × Option Decision)}
    (hall : ∀ x ∈ gated, Granted (H := H) x) {d : Option Decision}
    (hmem : (c, d) ∈ gated) : trustedOf gated c = d.map trustedOverride := by
  have hc : c ∈ gated.map Prod.fst := List.mem_map_of_mem hmem
  have hlt : (gated.map Prod.fst).idxOf c < gated.length := by
    have h := List.idxOf_lt_length_of_mem hc
    rwa [List.length_map] at h
  have hget : gated[(gated.map Prod.fst).idxOf c]? =
      some gated[(gated.map Prod.fst).idxOf c] := List.getElem?_eq_getElem hlt
  have hfst : gated[(gated.map Prod.fst).idxOf c].1 = c := by
    have h := List.getElem_idxOf (List.idxOf_lt_length_of_mem hc)
    rwa [List.getElem_map] at h
  obtain ⟨d', hd'⟩ : ∃ d', gated[(gated.map Prod.fst).idxOf c] = (c, d') :=
    ⟨_, Prod.ext hfst rfl⟩
  have hfound : (c, d') ∈ gated := by
    rw [← hd']
    exact List.getElem_mem hlt
  obtain rfl : d = d' := (hall _ hmem).eq (hall _ hfound)
  unfold trustedOf
  rw [hget, hd']
  cases d with
  | none => rfl
  | some decision =>
    dsimp only
    rw [if_pos ((hall _ hmem).granted decision rfl).2.1]
    rfl

theorem async_execute_aligned (h : Aligned H c d) (position : Nat) (trusted : Option Policy) :
    async_execute H position c trusted = async_execute H position d trusted := by
  unfold async_execute
  rw [h.action_id]
  cases hspec : H.spec d.action_id with
  | none => rfl
  | some spec =>
    have hover : _sanitize_policy_override c.policy_override c.source_protocol =
        _sanitize_policy_override d.policy_override d.source_protocol := by
      unfold _sanitize_policy_override
      rw [if_pos h.planned.1, if_pos h.planned.2, h.policy_override]
    have hinput : _sanitize_action_input spec c.action_input c.source_protocol =
        _sanitize_action_input spec d.action_input d.source_protocol := by
      unfold _sanitize_action_input
      rw [if_pos h.planned.1, if_pos h.planned.2]
      exact h.action_input spec (by rw [h.action_id]; exact hspec)
    dsimp only
    rw [hover, hinput, h.planned.1, h.planned.2]

theorem dispatchFrom_aligned {gatedC gatedD : List (ActionCall × Option Decision)}
    (hC : ∀ x ∈ gatedC, Granted (H := H) x) (hD : ∀ x ∈ gatedD, Granted (H := H) x)
    {xs ys : List (ActionCall × Option Decision)}
    (h : List.Forall₂ (GatedAlike (H := H)) xs ys) (hxs : ∀ x ∈ xs, x ∈ gatedC)
    (hys : ∀ y ∈ ys, y ∈ gatedD) (n : Nat) :
    dispatchFrom H gatedC n xs = dispatchFrom H gatedD n ys := by
  induction h generalizing n with
  | nil => rfl
  | @cons x y xs ys hxy _ ih =>
    obtain ⟨haligned, hdecision⟩ := hxy
    have hx : trustedOf gatedC x.1 = x.2.map trustedOverride :=
      trustedOf_eq hC (hxs x List.mem_cons_self)
    have hy : trustedOf gatedD y.1 = y.2.map trustedOverride :=
      trustedOf_eq hD (hys y List.mem_cons_self)
    show async_execute H n x.1 (trustedOf gatedC x.1) ++ dispatchFrom H gatedC (n + 1) xs =
      async_execute H n y.1 (trustedOf gatedD y.1) ++ dispatchFrom H gatedD (n + 1) ys
    rw [hx, hy, hdecision, async_execute_aligned haligned,
      ih (List.forall_mem_cons.mp hxs).2
        (List.forall_mem_cons.mp hys).2]

theorem filter_aligned (h : List.Forall₂ (Aligned H) cs ds) (action_id : String) :
    List.Forall₂ (Aligned H) (cs.filter fun c => c.action_id = action_id)
      (ds.filter fun d => d.action_id = action_id) := by
  induction h with
  | nil => exact .nil
  | @cons c d cs ds hcd _ ih =>
    by_cases hid : d.action_id = action_id
    · rw [List.filter_cons_of_pos (by simpa [hcd.action_id] using hid),
        List.filter_cons_of_pos (by simpa using hid)]
      exact .cons hcd ih
    · rw [List.filter_cons_of_neg (by simpa [hcd.action_id] using hid),
        List.filter_cons_of_neg (by simpa using hid)]
      exact ih

theorem cohort_aligned (h : List.Forall₂ (Aligned H) cs ds) :
    List.Forall₂ (Aligned H) (cohort H cs) (cohort H ds) := by
  unfold cohort
  split
  · cases h with
    | nil => exact .nil
    | cons hcd hrest =>
      dsimp only
      rw [hcd.action_id]
      exact filter_aligned (.cons hcd hrest) _
  · exact h

theorem execute_step_aligned (h : List.Forall₂ (Aligned H) cs ds) :
    execute_step H cs = execute_step H ds := by
  obtain ⟨hasked, hrel⟩ := gate_aligned (cohort_aligned h) 0
  unfold execute_step
  cases hc : gate H 0 (cohort H cs) with
  | mk askedC resultC =>
    cases hd : gate H 0 (cohort H ds) with
    | mk askedD resultD =>
      rw [hc, hd] at hasked hrel
      dsimp only at hasked hrel
      cases hrel with
      | none => exact hasked
      | some hlist =>
        dsimp only
        rw [hasked, dispatchFrom_aligned (gate_granted (congrArg Prod.snd hc))
          (gate_granted (congrArg Prod.snd hd)) hlist (fun _ hx => hx) (fun _ hy => hy)]

theorem carries_aligned (h : List.Forall₂ (Carries H) cs ds)
    (hplanned : ∀ c ∈ cs, planned c.source_protocol = true) :
    List.Forall₂ (Aligned H) cs ds := by
  induction h with
  | nil => exact .nil
  | cons hcd _ ih =>
    refine .cons (hcd.aligned (hplanned _ List.mem_cons_self)) ?_
    exact ih (List.forall_mem_cons.mp hplanned).2

theorem planned_unaffected {str : Value → String} {fallback_next : Option String}
    {commands : List Value}
    (hplanned : ∀ c ∈ normalized str fallback_next commands, planned c.source_protocol = true) :
    Unaffected H str fallback_next commands := by
  intro plain h
  exact execute_step_aligned (carries_aligned h hplanned)

def probe (required : String) : Host where
  spec _ := some ⟨"", false, [], none, [], [required], ""⟩
  has_executor _ := true
  global_policy := []
  agent_policy := []
  auto_allow := false
  policy_approval_handler := none
  single_action_id_cohort := false
  approval_required_when _ _ := none
  gate _ := ⟨"", "", []⟩
  resolve _ := ⟨"approved", "", []⟩
  admits _ _ := true

theorem gatePolicy_probe (required : String) (c : ActionCall) :
    gatePolicy (probe required) c = none := by
  have hnone : ((_merge_policy (probe required) ⟨"", false, [], none, [], [required], ""⟩
      (sanitizedOverride c.policy_override)).get? "approval_mode") = none := by
    unfold _merge_policy merge_access_control_policy
    have hbase : (update (update (update (ofValues (probe required).global_policy)
        (ofValues (probe required).agent_policy)) (ofValues []))
        (sanitizedOverride c.policy_override)).get? "approval_mode" = none :=
      get?_update_of_not_mem (sanitizedOverride_host (by decide))
    split
    · rw [Dict.get?_set_of_ne _ _ (by decide)]
      exact hbase
    · rw [Dict.get?_set_of_ne _ _ (by decide)]
      exact hbase
  have halways : always (withHandler (probe required) (_merge_policy (probe required)
      ⟨"", false, [], none, [], [required], ""⟩ (sanitizedOverride c.policy_override))) = false := by
    apply decide_eq_false
    show ¬ Dict.get? (_merge_policy _ _ _) "approval_mode" = _
    rw [hnone]
    nofun
  unfold gatePolicy
  show (if (false || always _) = true then _ else none) = none
  rw [halways]
  rfl

theorem gate_probe (required : String) (n : Nat) (calls : List ActionCall) :
    gate (probe required) n calls = ([], some (calls.map fun c => (c, none))) := by
  induction calls generalizing n with
  | nil => rfl
  | cons c rest ih =>
    unfold gate
    rw [gatePolicy_probe, ih]
    rfl

theorem async_execute_missing {required : String}
    (hplanned : planned c.source_protocol = true) (hkey : required ∉ c.action_input.keys) (n : Nat)
    (trusted : Option Policy) : async_execute (probe required) n c trusted = [] := by
  have hmissing : required ∉ Dict.keys
      (_sanitize_action_input ⟨"", false, [], none, [], [required], ""⟩ c.action_input
        c.source_protocol) := by
    unfold _sanitize_action_input
    rw [if_pos hplanned]
    intro hmem
    obtain ⟨p, hp, hpk⟩ := List.mem_map.mp hmem
    exact hkey (List.mem_map.mpr ⟨p, (List.mem_filter.mp hp).1, hpk⟩)
  unfold async_execute
  show (if (true = false) then _ else _) = _
  rw [if_neg (by decide)]
  dsimp only
  rw [if_pos]
  exact ⟨hplanned, by simpa using hmissing⟩

theorem async_execute_unplanned (required : String)
    (hplanned : planned c.source_protocol = false) (n : Nat) (trusted : Option Policy) :
    async_execute (probe required) n c trusted ≠ [] := by
  unfold async_execute
  show (if (true = false) then _ else _) ≠ _
  rw [if_neg (by decide)]
  dsimp only
  rw [if_neg (by rw [hplanned]; simp)]
  split
  · split
    · exact List.cons_ne_nil _ _
    · exact List.cons_ne_nil _ _
  · exact List.cons_ne_nil _ _

theorem dispatch_missing {required : String} (gated : List (ActionCall × Option Decision))
    (calls : List ActionCall)
    (h : ∀ c ∈ calls, planned c.source_protocol = true ∧ required ∉ c.action_input.keys) (n : Nat) :
    dispatchFrom (probe required) gated n (calls.map fun c => (c, none)) = [] := by
  induction calls generalizing n with
  | nil => rfl
  | cons c rest ih =>
    obtain ⟨hplanned, hkey⟩ := h c List.mem_cons_self
    show async_execute (probe required) n c (trustedOf gated c) ++
      dispatchFrom (probe required) gated (n + 1) (rest.map fun c => (c, none)) = []
    rw [async_execute_missing hplanned hkey, ih (List.forall_mem_cons.mp h).2]
    rfl

theorem dispatch_unplanned (required : String) (gated : List (ActionCall × Option Decision))
    {calls : List ActionCall} (hc : c ∈ calls)
    (hplanned : planned c.source_protocol = false) (n : Nat) :
    dispatchFrom (probe required) gated n (calls.map fun c => (c, none)) ≠ [] := by
  induction calls generalizing n with
  | nil => cases hc
  | cons d rest ih =>
    show async_execute (probe required) n d (trustedOf gated d) ++
      dispatchFrom (probe required) gated (n + 1) (rest.map fun c => (c, none)) ≠ []
    rw [Ne, List.append_eq_nil_iff, not_and_or]
    rcases List.mem_cons.mp hc with rfl | hc
    · exact .inl (async_execute_unplanned required hplanned n _)
    · exact .inr (ih hc (n + 1))

theorem execute_step_probe (required : String) (calls : List ActionCall) :
    execute_step (probe required) calls = dispatchFrom (probe required)
      (calls.map fun c => (c, none)) 0 (calls.map fun c => (c, none)) := by
  unfold execute_step
  rw [show cohort (probe required) calls = calls from rfl, gate_probe]
  rfl

def withoutProtocol : Value → Value
  | .dict command => .dict (Dict.del command "source_protocol")
  | v => v

theorem normalize_withoutProtocol (str : Value → String) (fallback_next : Option String)
    (command : Value) :
    normalize_action_call str fallback_next (withoutProtocol command) =
      (normalize_action_call str fallback_next command).map fun c =>
        { c with source_protocol := "structured_plan" } := by
  cases command with
  | dict command =>
    have hdel : ∀ key, key ≠ "source_protocol" →
        Dict.get? (Dict.del command "source_protocol") key = Dict.get? command key :=
      fun key hkey => Dict.get?_del_of_ne command hkey.symm
    unfold withoutProtocol normalize_action_call
    dsimp only
    rw [hdel "action_id" (by decide), hdel "tool_name" (by decide)]
    cases (textOf (Dict.get? command "action_id")).or (textOf (Dict.get? command "tool_name")) with
    | none => rfl
    | some action_id =>
      dsimp only
      rw [hdel "purpose" (by decide), hdel "action_input" (by decide),
        hdel "tool_kwargs" (by decide), hdel "policy_override" (by decide),
        hdel "todo_suggestion" (by decide), hdel "next" (by decide), Dict.get?_del_self]
      rfl
  | _ => rfl

theorem mem_normalized_withoutProtocol {str : Value → String} {fallback_next : Option String}
    {commands : List Value}
    (h : d ∈ normalized str fallback_next (commands.map withoutProtocol)) :
    ∃ c ∈ normalized str fallback_next commands,
      { c with source_protocol := "structured_plan" } = d := by
  obtain ⟨v, hv, hd⟩ := List.mem_filterMap.mp h
  obtain ⟨u, hu, rfl⟩ := List.mem_map.mp hv
  rw [normalize_withoutProtocol] at hd
  obtain ⟨c, hc, hcd⟩ := Option.map_eq_some_iff.mp hd
  exact ⟨c, List.mem_filterMap.mpr ⟨u, hu, hc⟩, hcd⟩

theorem carries_withoutProtocol (str : Value → String) (fallback_next : Option String)
    (commands : List Value) :
    List.Forall₂ (Carries H) (normalized str fallback_next commands)
      (normalized str fallback_next (commands.map withoutProtocol)) := by
  induction commands with
  | nil => exact .nil
  | cons command rest ih =>
    unfold normalized at ih ⊢
    rw [List.map_cons, List.filterMap_cons, List.filterMap_cons, normalize_withoutProtocol]
    cases normalize_action_call str fallback_next command with
    | none => exact ih
    | some c => exact .cons ⟨rfl, rfl, rfl, rfl, fun _ _ => rfl, rfl⟩ ih

end

def guarded : Host where
  spec _ := some ⟨"write", false, [], none, [], [], "write"⟩
  has_executor _ := true
  global_policy := []
  agent_policy := []
  auto_allow := false
  policy_approval_handler := none
  single_action_id_cohort := false
  approval_required_when _ _ := some ⟨"", ""⟩
  gate _ := ⟨"denied", "", []⟩
  resolve _ := ⟨"denied", "", []⟩
  admits _ _ := true

def selfGranted : Value :=
  .dict [("action_id", .str "write"), ("source_protocol", .str "direct"),
    ("policy_override", .dict [("policy_approval_granted", .bool true)])]

end Agently.Action
