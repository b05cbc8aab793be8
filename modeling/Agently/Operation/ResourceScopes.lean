import Agently.Lib.Machine
import Agently.TaskDAG.TaskDAGData
import Agently.Utils.JsonText

/-! # Resources of a scope

Source: `operation/ExecutionResource/ExecutionResource.py` (`_derive_reuse_key`,
`_normalize_requirement`, `declare`, `async_ensure`, `_async_release_handle`,
`async_release_scope`), one call after the other. Configurations and capabilities are JSON data. -/

namespace Agently.ResourceScopes

open Agently.Lib Agently.Utils
open Agently.TaskDAGValidation (strip)

/-- A requirement as far as a resource is chosen by it; a field that is not given is `none`, a
text that is not given is empty. -/
structure Requirement where
  requirement_id : String
  kind : String
  scope : Option String
  owner_id : Option String
  resource_key : Option String
  config : List (String × Json)
  provider_id : String
  provider_candidates : List (String × List (String × Json))
  required_capabilities : List (String × Json)
  preferred_capabilities : List (String × Json)
  grant_id : String
  reuse_key : String

structure Parts where
  kind : String
  scope : String
  owner_id : String
  resource_key : String
  config : List (String × Json)
  provider_id : String
  provider_candidates : List (String × List (String × Json))
  required_capabilities : List (String × Json)
  preferred_capabilities : List (String × Json)
  grant_id : String

structure Normalized extends Parts where
  requirement_id : String
  reuse_key : String

/-- `_stable_json`: the blanks that Python puts after separators tell no two texts apart. -/
def stable_json (v : Json) : String := v.canonicalText

def Parts.json (p : Parts) : Json :=
  .obj [("kind", .str p.kind), ("scope", .str p.scope), ("owner_id", .str p.owner_id),
    ("resource_key", .str p.resource_key), ("config", .obj p.config),
    ("provider_id", .str p.provider_id),
    ("provider_candidates", .arr (p.provider_candidates.map fun c =>
      .obj [("provider_id", .str c.1), ("config", .obj c.2)])),
    ("required_capabilities", .obj p.required_capabilities),
    ("preferred_capabilities", .obj p.preferred_capabilities),
    ("task_workspace_access_grant_id", .str p.grant_id)]

def derive_reuse_key (reuse_key : String) (p : Parts) : String :=
  if reuse_key ≠ "" then reuse_key else stable_json p.json

inductive ResourceError where
  | valueError (message : String)
  | failed

/-- `isolation` of the capabilities of code is a mapping. -/
def isolated (kind : String) (capabilities : List (String × Json)) : Bool :=
  kind ≠ "code_execution" ||
    match Dict.get? capabilities "isolation" with
    | none => true
    | some .null => true
    | some (.obj _) => true
    | some _ => false

def given (override : Option String) (own : String) : String :=
  match override with
  | none => own
  | some text => if text = "" then own else text

/-- `fresh` is the id that a requirement without one is given. -/
def normalize_requirement (r : Requirement) (scope owner_id : Option String) (fresh : String) :
    Except ResourceError Normalized :=
  let kind := strip r.kind
  if kind = "" then .error (.valueError "ExecutionResourceRequirement.kind is required.")
  else if r.provider_candidates.any fun c => strip c.1 = "" then
    .error (.valueError "ExecutionResourceRequirement.provider_candidates provider_id is required.")
  else if (isolated kind r.required_capabilities && isolated kind r.preferred_capabilities) = false
  then
    .error (.valueError ("code_execution isolation capability must be a mapping of " ++
      "verifiable isolation axes, not a policy label"))
  else
    let parts : Parts :=
      { kind := kind
        scope := given scope (r.scope.getD "action_call")
        owner_id := given owner_id (r.owner_id.getD "Agently")
        resource_key := r.resource_key.getD kind
        config := r.config
        provider_id := r.provider_id
        provider_candidates := r.provider_candidates.map fun c => (strip c.1, c.2)
        required_capabilities := r.required_capabilities
        preferred_capabilities := r.preferred_capabilities
        grant_id := r.grant_id }
    .ok { parts with
      requirement_id := if r.requirement_id = "" then fresh else r.requirement_id
      reuse_key := derive_reuse_key r.reuse_key parts }

/-- A normalized requirement is normalized again when it is ensured by its id. -/
def Normalized.again (n : Normalized) : Requirement :=
  { requirement_id := n.requirement_id
    kind := n.kind
    scope := some n.scope
    owner_id := some n.owner_id
    resource_key := some n.resource_key
    config := n.config
    provider_id := n.provider_id
    provider_candidates := n.provider_candidates
    required_capabilities := n.required_capabilities
    preferred_capabilities := n.preferred_capabilities
    grant_id := n.grant_id
    reuse_key := n.reuse_key }

inductive Status where
  | ready
  | unhealthy
  | failed
  | released
deriving DecidableEq

/-- A handle stays an object when it has left `_handles`; `held` says that it is there. -/
structure Handle where
  status : Status
  ref_count : Nat
  scope : String
  owner_id : String
  reuse_key : String
  held : Bool

/-- The manager, the handles by their ids, and which handle was returned for what. -/
structure Manager where
  requirements : List (String × Normalized)
  handles : List Handle
  by_reuse_key : String → Option Nat
  returned : List (Parts × Nat)

def initial : Manager :=
  { requirements := [], handles := [], by_reuse_key := fun _ => none, returned := [] }

/-- What the providers do during a call: the one that is selected, if one is, and whether the
health check, the creation and the releases succeed. -/
structure World where
  fresh : String
  selected : Option String
  healthy : Bool
  created : Bool
  releases : Nat → Bool

def Manager.setHandle (m : Manager) (id : Nat) (f : Handle → Handle) : Manager :=
  { m with handles := m.handles.modify id f }

/-- The provider's part of a release: whether it succeeds, and the manager afterwards. -/
def Manager.finish (m : Manager) (w : World) (id : Nat) : Manager × Bool :=
  match m.handles[id]? with
  | none => (m, true)
  | some handle =>
    if w.releases id then
      ({ (m.setHandle id fun h => { h with status := .released, held := false }) with
        by_reuse_key := fun k =>
          if k = handle.reuse_key ∧ m.by_reuse_key k = some id then none else m.by_reuse_key k },
        true)
    else (m.setHandle id fun h => { h with status := .failed }, false)

def Manager.release (m : Manager) (w : World) (id : Nat) : Manager × Bool :=
  match m.handles[id]? with
  | none => (m, true)
  | some handle =>
    if handle.held = false then (m, true)
    else if 1 < handle.ref_count then
      (m.setHandle id fun h => { h with ref_count := h.ref_count - 1 }, true)
    else m.finish w id

/-- The handles of the scope are released in turn; an error ends the loop. -/
def Manager.releaseAll (m : Manager) (w : World) : List Nat → Manager
  | [] => m
  | id :: rest =>
    let done := m.release w id
    if done.2 then done.1.releaseAll w rest else done.1

def Manager.targets (m : Manager) (scope owner_id : String) : List Nat :=
  (List.range m.handles.length).filter fun id =>
    m.handles[id]?.any fun h => h.held && h.scope = scope && h.owner_id = owner_id

def Manager.create (m : Manager) (n : Normalized) (key : String) : Manager :=
  { m with
    handles := m.handles ++ [⟨.ready, 1, n.scope, n.owner_id, key, true⟩]
    by_reuse_key := fun k => if k = key then some m.handles.length else m.by_reuse_key k
    returned := (n.toParts, m.handles.length) :: m.returned }

def Manager.reuse (m : Manager) (n : Normalized) (id : Nat) : Manager :=
  { (m.setHandle id fun h => { h with ref_count := h.ref_count + 1 }) with
    returned := (n.toParts, id) :: m.returned }

def Manager.mark (m : Manager) (id : Nat) (status : Status) : Manager :=
  if status = .ready then m.setHandle id fun h => { h with status := .unhealthy } else m

def final_key (reuse_key provider_id : String) : String :=
  stable_json (.obj [("requirement", .str reuse_key), ("provider_id", .str provider_id)])

/-- `async_ensure` from where the requirement is normalized; `none` where it raises. -/
def Manager.ensure (m : Manager) (w : World) (n : Normalized) : Manager :=
  match w.selected with
  | none => m
  | some provider_id =>
    let key := final_key n.reuse_key provider_id
    let make (m : Manager) : Manager := if w.created then m.create n key else m
    match (m.by_reuse_key key).bind fun id => (m.handles[id]?).map fun h => (id, h) with
    | none => make m
    | some (id, handle) =>
      if handle.held = false then make m
      else if handle.status = .ready ∧ w.healthy = true then m.reuse n id
      else
        let done := (m.mark id handle.status).finish w id
        if done.2 then make done.1 else done.1

inductive Call where
  | declare (r : Requirement)
  | ensure (r : Requirement) (scope owner_id : Option String)
  | ensure_id (requirement_id : String) (scope owner_id : Option String)
  | release_scope (scope owner_id : String)

def store (m : Manager) (n : Normalized) : Manager :=
  { m with requirements := Dict.set m.requirements n.requirement_id n }

def call (m : Manager) (w : World) : Call → Manager
  | .declare r =>
    match normalize_requirement r none none w.fresh with
    | .error _ => m
    | .ok n => store m n
  | .ensure r scope owner_id =>
    match normalize_requirement r scope owner_id w.fresh with
    | .error _ => m
    | .ok n => (store m n).ensure w n
  | .ensure_id requirement_id scope owner_id =>
    match Dict.get? m.requirements requirement_id with
    | none => m
    | some found =>
      match normalize_requirement found.again scope owner_id w.fresh with
      | .error _ => m
      | .ok n => m.ensure w n
  | .release_scope scope owner_id => m.releaseAll w (m.targets scope owner_id)

def machine : Machine Manager (World × Call) where
  step m a := some (call m a.1 a.2)

structure Agree (p q : Parts) : Prop where
  kind : p.kind = q.kind
  scope : p.scope = q.scope
  owner : p.owner_id = q.owner_id
  resource : p.resource_key = q.resource_key
  config : Json.Same (.obj p.config) (.obj q.config)
  required : Json.Same (.obj p.required_capabilities) (.obj q.required_capabilities)
  preferred : Json.Same (.obj p.preferred_capabilities) (.obj q.preferred_capabilities)

theorem same_field {xs ys : List (String × Json)} (h : Json.Same (.obj xs) (.obj ys))
    (hn : (Dict.keys ys).Nodup) {k : String} {v w : Json} (hv : (k, v) ∈ xs)
    (hw : Dict.get? ys k = some w) : Json.Same v w := by
  have hp := Json.perm_of_sortKeys_eq (Json.obj.inj h)
  obtain ⟨y, hy, he⟩ := Json.found_of_perm hn hp (k, v) hv
  have hyw : y = w := Option.some.inj (hy.symm.trans hw)
  rw [← hyw]
  exact he

theorem str_of_same {a b : String} (h : Json.Same (.str a) (.str b)) : a = b :=
  Json.str.inj h

theorem agree_of_key {p q : Parts} (h : stable_json p.json = stable_json q.json) : Agree p q := by
  have hs := (Json.canonicalText_eq_iff _ _).mp h
  have hn : (Dict.keys [("kind", Json.str q.kind), ("scope", .str q.scope),
      ("owner_id", .str q.owner_id), ("resource_key", .str q.resource_key),
      ("config", .obj q.config), ("provider_id", .str q.provider_id),
      ("provider_candidates", .arr (q.provider_candidates.map fun c =>
        .obj [("provider_id", .str c.1), ("config", .obj c.2)])),
      ("required_capabilities", .obj q.required_capabilities),
      ("preferred_capabilities", .obj q.preferred_capabilities),
      ("task_workspace_access_grant_id", .str q.grant_id)]).Nodup := by
    simp [Dict.keys]
  have field : ∀ {k v w}, _ → _ → _ := fun {k v w} => same_field (k := k) (v := v) (w := w) hs hn
  exact
    { kind := str_of_same (field (k := "kind") (by simp) rfl)
      scope := str_of_same (field (k := "scope") (by simp) rfl)
      owner := str_of_same (field (k := "owner_id") (by simp) rfl)
      resource := str_of_same (field (k := "resource_key") (by simp) rfl)
      config := field (k := "config") (by simp) rfl
      required := field (k := "required_capabilities") (by simp) rfl
      preferred := field (k := "preferred_capabilities") (by simp) rfl }

theorem final_key_inj {a b p q : String} (h : final_key a p = final_key b q) : a = b := by
  have hs := (Json.canonicalText_eq_iff _ _).mp h
  refine str_of_same (same_field hs (by simp [Dict.keys]) (k := "requirement") (by simp) rfl)

theorem stable_json_ne_empty (p : Parts) : stable_json p.json ≠ "" := by
  intro h
  have hl := congrArg String.toList h
  rw [stable_json, Json.canonicalText, String.toList_ofList] at hl
  obtain ⟨t, ht⟩ := Json.text_head (v := Json.normal p.json) (by simp [Parts.json, Json.normal, Json.shape])
  rw [ht] at hl
  cases hl

structure Clean (n : Normalized) : Prop where
  kind : strip n.kind = n.kind
  candidates : ∀ c ∈ n.provider_candidates, strip c.1 = c.1
  key : n.reuse_key = stable_json n.json

theorem normalize_cases {r : Requirement} {scope owner_id : Option String} {fresh : String}
    {n : Normalized} (h : normalize_requirement r scope owner_id fresh = .ok n) :
    n.toParts =
        { kind := strip r.kind
          scope := given scope (r.scope.getD "action_call")
          owner_id := given owner_id (r.owner_id.getD "Agently")
          resource_key := r.resource_key.getD (strip r.kind)
          config := r.config
          provider_id := r.provider_id
          provider_candidates := r.provider_candidates.map fun c => (strip c.1, c.2)
          required_capabilities := r.required_capabilities
          preferred_capabilities := r.preferred_capabilities
          grant_id := r.grant_id } ∧
      n.reuse_key = derive_reuse_key r.reuse_key n.toParts := by
  unfold normalize_requirement at h
  dsimp only at h
  split_ifs at h
  all_goals
    cases h
    exact ⟨rfl, rfl⟩

theorem clean_of_normalize {r : Requirement} {scope owner_id : Option String} {fresh : String}
    {n : Normalized} (h : normalize_requirement r scope owner_id fresh = .ok n)
    (hkey : r.reuse_key = "") : Clean n := by
  obtain ⟨hp, hk⟩ := normalize_cases h
  refine ⟨?_, ?_, ?_⟩
  · rw [hp]
    exact TaskDAGValidation.strip_strip _
  · intro c hc
    rw [hp] at hc
    obtain ⟨d, -, rfl⟩ := List.mem_map.mp hc
    exact TaskDAGValidation.strip_strip _
  · rw [hk, derive_reuse_key, hkey, if_neg (by simp)]

theorem normalize_again {found n : Normalized} {scope owner_id : Option String} {fresh : String}
    (hf : Clean found) (hs : given scope found.scope = found.scope)
    (ho : given owner_id found.owner_id = found.owner_id)
    (h : normalize_requirement found.again scope owner_id fresh = .ok n) : Clean n := by
  obtain ⟨hp, hk⟩ := normalize_cases h
  have hc : (found.provider_candidates.map fun c => (strip c.1, c.2)) =
      found.provider_candidates := by
    have he : ∀ c ∈ found.provider_candidates, (strip c.1, c.2) = id c := fun c hc => by
      rw [hf.candidates c hc]
      rfl
    rw [List.map_congr_left he, List.map_id]
  have hparts : n.toParts = found.toParts := by
    rw [hp]
    simp only [Normalized.again, Option.getD_some, hf.kind, hs, ho, hc]
  have hne : found.again.reuse_key ≠ "" := by
    rw [Normalized.again, hf.key]
    exact stable_json_ne_empty _
  refine ⟨by rw [hparts]; exact hf.kind, by rw [hparts]; exact hf.candidates, ?_⟩
  rw [hk, derive_reuse_key, if_pos hne, hparts]
  exact hf.key

structure Made (p : Parts) (h : Handle) : Prop where
  scope : h.scope = p.scope
  owner : h.owner_id = p.owner_id
  key : ∃ provider_id, h.reuse_key = final_key (stable_json p.json) provider_id

theorem agree_of_made {p q : Parts} {h : Handle} (hp : Made p h) (hq : Made q h) : Agree p q := by
  obtain ⟨a, ha⟩ := hp.key
  obtain ⟨b, hb⟩ := hq.key
  exact agree_of_key (final_key_inj (ha.symm.trans hb))

structure Inv (m : Manager) : Prop where
  stored : ∀ {k n}, Dict.get? m.requirements k = some n → Clean n
  keyed : ∀ {k id}, m.by_reuse_key k = some id → ∃ h, m.handles[id]? = some h ∧ h.reuse_key = k
  made : ∀ {id h}, m.handles[id]? = some h → ∃ p, (p, id) ∈ m.returned ∧ Made p h
  returned : ∀ {p id}, (p, id) ∈ m.returned → ∃ h, m.handles[id]? = some h ∧ Made p h

theorem inv_initial : Inv initial where
  stored h := by cases h
  keyed h := by cases h
  made h := by cases h
  returned h := by cases h

def Same (f : Handle → Handle) : Prop :=
  ∀ h, (f h).scope = h.scope ∧ (f h).owner_id = h.owner_id ∧ (f h).reuse_key = h.reuse_key

theorem made_of_same {f : Handle → Handle} (hf : Same f) {p : Parts} {h : Handle} (hm : Made p h) :
    Made p (f h) := by
  obtain ⟨hs, ho, hk⟩ := hf h
  exact ⟨hs.trans hm.scope, ho.trans hm.owner, hm.key.imp fun _ he => hk.trans he⟩

theorem get_setHandle (m : Manager) (id : Nat) (f : Handle → Handle) (i : Nat) :
    (m.setHandle id f).handles[i]? = (m.handles[i]?).map fun h => if id = i then f h else h := by
  rw [Manager.setHandle, List.getElem?_modify]
  by_cases hi : id = i
  · simp [hi]
  · simp [hi]

theorem same_ite {f : Handle → Handle} (hf : Same f) (id i : Nat) :
    Same fun h => if id = i then f h else h := by
  intro h
  dsimp only
  split_ifs
  · exact hf h
  · exact ⟨rfl, rfl, rfl⟩

theorem Inv.setHandle {m : Manager} (hi : Inv m) (id : Nat) {f : Handle → Handle} (hf : Same f) :
    Inv (m.setHandle id f) where
  stored h := hi.stored h
  keyed := by
    intro k i h
    obtain ⟨x, hx, hk⟩ := hi.keyed h
    exact ⟨_, by rw [get_setHandle, hx]; rfl, (same_ite hf id i x).2.2.trans hk⟩
  made := by
    intro i y h
    rw [get_setHandle] at h
    obtain ⟨x, hx, rfl⟩ := Option.map_eq_some_iff.mp h
    obtain ⟨p, hp, hm⟩ := hi.made hx
    exact ⟨p, hp, made_of_same (same_ite hf id i) hm⟩
  returned := by
    intro p i h
    obtain ⟨x, hx, hm⟩ := hi.returned h
    exact ⟨_, by rw [get_setHandle, hx]; rfl, made_of_same (same_ite hf id i) hm⟩

theorem Inv.finish {m : Manager} (hi : Inv m) (w : World) (id : Nat) : Inv (m.finish w id).1 := by
  unfold Manager.finish
  split
  · exact hi
  · next handle hh =>
    split_ifs
    · have hset := hi.setHandle id (f := fun h => { h with status := .released, held := false })
        fun h => ⟨rfl, rfl, rfl⟩
      refine ⟨hset.stored, ?_, hset.made, hset.returned⟩
      intro k i h
      dsimp only at h
      split_ifs at h
      exact hset.keyed h
    · exact hi.setHandle id fun h => ⟨rfl, rfl, rfl⟩

theorem Inv.release {m : Manager} (hi : Inv m) (w : World) (id : Nat) : Inv (m.release w id).1 := by
  unfold Manager.release
  split
  · exact hi
  · split_ifs
    · exact hi
    · exact hi.setHandle id fun h => ⟨rfl, rfl, rfl⟩
    · exact hi.finish w id

theorem Inv.releaseAll {m : Manager} (hi : Inv m) (w : World) (ids : List Nat) :
    Inv (m.releaseAll w ids) := by
  induction ids generalizing m with
  | nil => exact hi
  | cons id rest ih =>
    unfold Manager.releaseAll
    dsimp only
    split_ifs
    · exact ih (hi.release w id)
    · exact hi.release w id

theorem Inv.create {m : Manager} (hi : Inv m) {n : Normalized} (hn : Clean n)
    (provider_id : String) : Inv (m.create n (final_key n.reuse_key provider_id)) := by
  have hlt : ∀ {i : Nat} {x : Handle}, m.handles[i]? = some x →
      (m.create n (final_key n.reuse_key provider_id)).handles[i]? = some x := by
    intro i x h
    have hl := (List.getElem?_eq_some_iff.mp h).1
    rw [Manager.create, List.getElem?_append_left hl]
    exact h
  have hself : (m.create n (final_key n.reuse_key provider_id)).handles[m.handles.length]? =
      some ⟨.ready, 1, n.scope, n.owner_id, final_key n.reuse_key provider_id, true⟩ :=
    List.getElem?_concat_length
  have hmade : Made n.toParts
      ⟨.ready, 1, n.scope, n.owner_id, final_key n.reuse_key provider_id, true⟩ :=
    ⟨rfl, rfl, provider_id, by rw [hn.key]⟩
  refine ⟨hi.stored, ?_, ?_, ?_⟩
  · intro k i h
    dsimp only [Manager.create] at h
    split_ifs at h with hk
    · cases h
      exact ⟨_, hself, hk.symm⟩
    · obtain ⟨x, hx, hxk⟩ := hi.keyed h
      exact ⟨x, hlt hx, hxk⟩
  · intro i y h
    rcases Nat.lt_trichotomy i m.handles.length with hl | rfl | hg
    · rw [Manager.create, List.getElem?_append_left hl] at h
      obtain ⟨p, hp, hm⟩ := hi.made h
      exact ⟨p, List.mem_cons_of_mem _ hp, hm⟩
    · rw [hself] at h
      cases h
      exact ⟨n.toParts, List.mem_cons_self, hmade⟩
    · rw [Manager.create, List.getElem?_eq_none (by simp; omega)] at h
      cases h
  · intro p i h
    rcases List.mem_cons.mp h with he | h
    · cases he
      exact ⟨_, hself, hmade⟩
    · obtain ⟨x, hx, hm⟩ := hi.returned h
      exact ⟨x, hlt hx, hm⟩

theorem Inv.found {m : Manager} (hi : Inv m) {n : Normalized} (hn : Clean n) {provider_id : String}
    {id : Nat} {x : Handle} (hk : m.by_reuse_key (final_key n.reuse_key provider_id) = some id)
    (hx : m.handles[id]? = some x) : Made n.toParts x := by
  obtain ⟨y, hy, hkey⟩ := hi.keyed hk
  cases hx.symm.trans hy
  obtain ⟨q, -, hq⟩ := hi.made hx
  obtain ⟨b, hb⟩ := hq.key
  have hagree : Agree n.toParts q := by
    rw [hkey, hn.key] at hb
    exact agree_of_key (final_key_inj hb)
  exact ⟨hq.scope.trans hagree.scope.symm, hq.owner.trans hagree.owner.symm, provider_id,
    by rw [hkey, hn.key]⟩

theorem Inv.reuse {m : Manager} (hi : Inv m) {n : Normalized} {id : Nat} {x : Handle}
    (hx : m.handles[id]? = some x) (hn : Made n.toParts x) : Inv (m.reuse n id) := by
  have hset := hi.setHandle id (f := fun h => { h with ref_count := h.ref_count + 1 })
    fun h => ⟨rfl, rfl, rfl⟩
  refine ⟨hset.stored, hset.keyed, ?_, ?_⟩
  · intro j z h
    obtain ⟨p, hp, hm⟩ := hset.made h
    exact ⟨p, List.mem_cons_of_mem _ hp, hm⟩
  · intro p j h
    rcases List.mem_cons.mp h with he | h
    · cases he
      refine ⟨{ x with ref_count := x.ref_count + 1 }, ?_, hn.scope, hn.owner, hn.key⟩
      exact (get_setHandle m id _ id).trans (by rw [hx, Option.map_some, if_pos rfl])
    · exact hset.returned h

theorem Inv.mark {m : Manager} (hi : Inv m) (id : Nat) (status : Status) :
    Inv (m.mark id status) := by
  unfold Manager.mark
  split_ifs
  · exact hi.setHandle id fun h => ⟨rfl, rfl, rfl⟩
  · exact hi

theorem Inv.ensure {m : Manager} (hi : Inv m) (w : World) {n : Normalized} (hn : Clean n) :
    Inv (m.ensure w n) := by
  have hmake : ∀ {m : Manager} (p : String), Inv m →
      Inv (if w.created then m.create n (final_key n.reuse_key p) else m) := by
    intro m p h
    split_ifs
    · exact h.create hn p
    · exact h
  unfold Manager.ensure
  split
  · exact hi
  · next provider_id hsel =>
    dsimp only
    split
    · exact hmake provider_id hi
    · next id x hfound =>
      obtain ⟨i, hk, hx⟩ := Option.bind_eq_some_iff.mp hfound
      obtain ⟨y, hy, he⟩ := Option.map_eq_some_iff.mp hx
      cases he
      have hdone := (hi.mark id x.status).finish w id
      by_cases hheld : x.held = false
      · rw [if_pos hheld]
        exact hmake provider_id hi
      · rw [if_neg hheld]
        by_cases hready : x.status = .ready ∧ w.healthy = true
        · rw [if_pos hready]
          exact hi.reuse hy (hi.found hn hk hy)
        · rw [if_neg hready]
          by_cases hfin : ((m.mark id x.status).finish w id).2 = true
          · rw [if_pos hfin]
            exact hmake provider_id hdone
          · rw [if_neg hfin]
            exact hdone

theorem Inv.store {m : Manager} (hi : Inv m) {n : Normalized} (hn : Clean n) : Inv (store m n) where
  stored := by
    intro k x h
    by_cases hk : n.requirement_id = k
    · subst hk
      rw [ResourceScopes.store, Dict.get?_set_self] at h
      cases h
      exact hn
    · rw [ResourceScopes.store, Dict.get?_set_of_ne _ _ hk] at h
      exact hi.stored h
  keyed h := hi.keyed h
  made h := hi.made h
  returned h := hi.returned h

/-- A handle of the scope that the release does not keep: only one ensure holds it, and every
release before the last one succeeds. -/
structure Releasable (m : Manager) (w : World) (ids : List Nat) : Prop where
  single : ∀ id ∈ ids, ∃ h, m.handles[id]? = some h ∧ h.ref_count ≤ 1
  last : ∀ id ∈ ids.dropLast, w.releases id = true

/-- A call without a reuse key of its own, in the scope that was declared, or a release of a
scope whose handles it can let go. -/
def Kept (m : Manager) (a : World × Call) : Prop :=
  match a.2 with
  | .declare r => r.reuse_key = ""
  | .ensure r _ _ => r.reuse_key = ""
  | .ensure_id requirement_id scope owner_id =>
    ∀ n, Dict.get? m.requirements requirement_id = some n →
      given scope n.scope = n.scope ∧ given owner_id n.owner_id = n.owner_id
  | .release_scope scope owner_id => Releasable m a.1 (m.targets scope owner_id)

theorem call_inv {m : Manager} {w : World} {c : Call} (hi : Inv m) (hk : Kept m (w, c)) :
    Inv (call m w c) := by
  cases c with
  | declare r =>
    unfold call
    dsimp only
    split
    · exact hi
    · next n hn => exact hi.store (clean_of_normalize hn hk)
  | ensure r scope owner_id =>
    unfold call
    dsimp only
    split
    · exact hi
    · next n hn =>
      have hc := clean_of_normalize hn hk
      exact (hi.store hc).ensure w hc
  | ensure_id requirement_id scope owner_id =>
    unfold call
    dsimp only
    split
    · exact hi
    · next found hf =>
      obtain ⟨hs, ho⟩ := hk found hf
      split
      · exact hi
      · next n hn => exact hi.ensure w (normalize_again (hi.stored hf) hs ho hn)
  | release_scope scope owner_id => exact hi.releaseAll w _

def Ended (h : Handle) : Prop := h.held = false ∨ h.status = .failed

theorem setHandle_get {m : Manager} {i : Nat} {h : Handle} (hh : m.handles[i]? = some h) (id : Nat)
    {f : Handle → Handle} (hf : ∀ h, (f h).ref_count ≤ h.ref_count ∧ (Ended h → Ended (f h))) :
    ∃ x, (m.setHandle id f).handles[i]? = some x ∧ x.ref_count ≤ h.ref_count ∧
      (Ended h → Ended x) ∧ (i = id → x = f h) := by
  by_cases he : id = i
  · refine ⟨f h, ?_, (hf h).1, (hf h).2, fun _ => rfl⟩
    rw [get_setHandle, hh, Option.map_some, if_pos he]
  · refine ⟨h, ?_, Nat.le_refl _, fun g => g, fun h => absurd h.symm he⟩
    rw [get_setHandle, hh, Option.map_some, if_neg he]

theorem release_get (m : Manager) (w : World) (id : Nat) {i : Nat} {h : Handle}
    (hh : m.handles[i]? = some h) :
    ∃ x, (m.release w id).1.handles[i]? = some x ∧ x.ref_count ≤ h.ref_count ∧
      (Ended h → Ended x) ∧ (i = id → h.ref_count ≤ 1 → Ended x) := by
  unfold Manager.release
  split
  · next hnone =>
    refine ⟨h, hh, Nat.le_refl _, fun g => g, ?_⟩
    intro he
    rw [← he, hh] at hnone
    cases hnone
  · next y hy =>
    have hsame : i = id → y = h := by
      intro he
      rw [← he, hh] at hy
      exact (Option.some.inj hy).symm
    by_cases hheld : y.held = false
    · rw [if_pos hheld]
      exact ⟨h, hh, Nat.le_refl _, fun g => g, fun he _ => Or.inl (hsame he ▸ hheld)⟩
    · rw [if_neg hheld]
      by_cases hone : 1 < y.ref_count
      · rw [if_pos hone]
        obtain ⟨x, hx, hle, hkeep, -⟩ := setHandle_get hh id
          (f := fun h => { h with ref_count := h.ref_count - 1 }) fun h => ⟨Nat.sub_le _ _, fun g => g⟩
        refine ⟨x, hx, hle, hkeep, ?_⟩
        intro he hone'
        rw [hsame he] at hone
        omega
      · rw [if_neg hone]
        unfold Manager.finish
        rw [hy]
        dsimp only
        split_ifs
        · obtain ⟨x, hx, hle, hkeep, hself⟩ := setHandle_get hh id
            (f := fun h => { h with status := .released, held := false })
            fun h => ⟨Nat.le_refl _, fun _ => Or.inl rfl⟩
          exact ⟨x, hx, hle, hkeep, fun he _ => hself he ▸ Or.inl rfl⟩
        · obtain ⟨x, hx, hle, hkeep, hself⟩ := setHandle_get hh id
            (f := fun h => { h with status := .failed })
            fun h => ⟨Nat.le_refl _, fun _ => Or.inr rfl⟩
          exact ⟨x, hx, hle, hkeep, fun he _ => hself he ▸ Or.inr rfl⟩

theorem release_fails {m : Manager} {w : World} {id : Nat} (h : (m.release w id).2 = false) :
    w.releases id = false := by
  unfold Manager.release at h
  split at h
  · cases h
  · split_ifs at h
    unfold Manager.finish at h
    split at h
    · cases h
    · split_ifs at h with hrel
      exact Bool.eq_false_iff.mpr hrel

theorem releaseAll_ends {m : Manager} {w : World} {ids : List Nat} (hr : Releasable m w ids)
    {i : Nat} {h : Handle} (hh : m.handles[i]? = some h) (hg : i ∈ ids ∨ Ended h) :
    ∃ x, (m.releaseAll w ids).handles[i]? = some x ∧ Ended x := by
  induction ids generalizing m h with
  | nil => exact ⟨h, hh, hg.resolve_left (by simp)⟩
  | cons id rest ih =>
    obtain ⟨x, hx, -, hkeep, hself⟩ := release_get m w id hh
    have hended : i ∉ rest → Ended x := by
      intro hni
      rcases hg with hm | hg
      · rcases List.mem_cons.mp hm with he | hm
        · obtain ⟨y, hy, hle⟩ := hr.single i (by simp [he])
          cases hh.symm.trans hy
          exact hself he hle
        · exact absurd hm hni
      · exact hkeep hg
    unfold Manager.releaseAll
    dsimp only
    by_cases hok : (m.release w id).2 = true
    · rw [if_pos hok]
      refine ih ⟨?_, ?_⟩ hx ?_
      · intro j hj
        obtain ⟨y, hy, hle⟩ := hr.single j (List.mem_cons_of_mem _ hj)
        obtain ⟨z, hz, hzle, -, -⟩ := release_get m w id hy
        exact ⟨z, hz, hzle.trans hle⟩
      · intro j hj
        cases rest with
        | nil => cases hj
        | cons a rest => exact hr.last j (List.mem_cons_of_mem _ hj)
      · by_cases hm : i ∈ rest
        · exact Or.inl hm
        · exact Or.inr (hended hm)
    · rw [if_neg hok]
      have hf := release_fails (Bool.eq_false_iff.mpr hok)
      cases rest with
      | nil => exact ⟨x, hx, hended (by simp)⟩
      | cons a rest =>
        rw [hr.last id (by simp)] at hf
        cases hf

theorem releaseAll_returned (m : Manager) (w : World) (ids : List Nat) :
    (m.releaseAll w ids).returned = m.returned := by
  have hone : ∀ (m : Manager) (id : Nat), (m.release w id).1.returned = m.returned := by
    intro m id
    unfold Manager.release
    split
    · rfl
    · split_ifs
      · rfl
      · rfl
      · unfold Manager.finish
        split
        · rfl
        · split_ifs <;> rfl
  induction ids generalizing m with
  | nil => rfl
  | cons id rest ih =>
    unfold Manager.releaseAll
    dsimp only
    split_ifs
    · rw [ih, hone]
    · exact hone m id

theorem release_scope_ends {m : Manager} (hi : Inv m) {w : World} {scope owner_id : String}
    (hr : Releasable m w (m.targets scope owner_id)) {p : Parts} {id : Nat}
    (hp : (p, id) ∈ (m.releaseAll w (m.targets scope owner_id)).returned) (hs : p.scope = scope)
    (ho : p.owner_id = owner_id) :
    ∃ h, (m.releaseAll w (m.targets scope owner_id)).handles[id]? = some h ∧ Ended h := by
  rw [releaseAll_returned] at hp
  obtain ⟨h, hh, hm⟩ := hi.returned hp
  refine releaseAll_ends hr hh ?_
  by_cases hheld : h.held = true
  · refine Or.inl (List.mem_filter.mpr ⟨?_, ?_⟩)
    · exact List.mem_range.mpr (List.getElem?_eq_some_iff.mp hh).1
    · rw [hh]
      simp [hheld, hm.scope, hm.owner, hs, ho]
  · exact Or.inr (Or.inl (Bool.eq_false_iff.mpr hheld))

theorem run_inv {as : List (World × Call)} {m : Manager} (hm : machine.Meets Kept initial as)
    (hr : machine.run initial as = some m) : Inv m :=
  machine.run_invariant_meeting (fun _ a t hi hk hs => by
    cases hs
    exact call_inv (w := a.1) (c := a.2) hi hk) inv_initial hm hr

/-- In every run whose calls are kept to their scopes, a handle is shared only by requirements
that agree, and the release of a scope ends each handle ensured for it. -/
theorem scopes_released {as : List (World × Call)} {m : Manager}
    (hm : machine.Meets Kept initial as) (hr : machine.run initial as = some m) :
    (∀ p q id, (p, id) ∈ m.returned → (q, id) ∈ m.returned → Agree p q) ∧
      ∀ w scope owner_id, Kept m (w, .release_scope scope owner_id) →
        let after := call m w (.release_scope scope owner_id)
        ∀ p id, (p, id) ∈ after.returned → p.scope = scope → p.owner_id = owner_id →
          ∃ h, after.handles[id]? = some h ∧ (h.held = false ∨ h.status = .failed) := by
  have hi := run_inv hm hr
  refine ⟨?_, ?_⟩
  · intro p q id hp hq
    obtain ⟨h, hh, hpm⟩ := hi.returned hp
    obtain ⟨x, hx, hqm⟩ := hi.returned hq
    cases hh.symm.trans hx
    exact agree_of_made hpm hqm
  · intro w scope owner_id hk after p id hp hs ho
    exact release_scope_ends hi hk hp hs ho

def sandbox : Requirement :=
  { requirement_id := "r", kind := "sandbox", scope := some "execution", owner_id := some "a",
    resource_key := none, config := [], provider_id := "", provider_candidates := [],
    required_capabilities := [], preferred_capabilities := [], grant_id := "", reuse_key := "" }

def calm : World :=
  { fresh := "", selected := some "p", healthy := true, created := true, releases := fun _ => true }

theorem sandbox_normalized (scope owner_id : Option String) :
    ∃ n, normalize_requirement sandbox scope owner_id "" = .ok n := by
  have hs : strip "sandbox" = "sandbox" := by decide
  unfold normalize_requirement
  simp [sandbox, hs, isolated]

theorem scopes_released_once : ∃ m,
    machine.run initial [(calm, .ensure sandbox none none)] = some m ∧
      (∀ p q id, (p, id) ∈ m.returned → (q, id) ∈ m.returned → Agree p q) ∧
      ∀ w scope owner_id, Kept m (w, .release_scope scope owner_id) →
        let after := call m w (.release_scope scope owner_id)
        ∀ p id, (p, id) ∈ after.returned → p.scope = scope → p.owner_id = owner_id →
          ∃ h, after.handles[id]? = some h ∧ (h.held = false ∨ h.status = .failed) := by
  have hm : machine.Meets Kept initial [(calm, .ensure sandbox none none)] :=
    ⟨rfl, fun _ _ => trivial⟩
  exact ⟨_, rfl, scopes_released hm rfl⟩

theorem shared_handle_stays : ¬ ∀ (as : List (World × Call)) (m : Manager),
    machine.run initial as = some m →
      ∀ w scope owner_id,
        let after := call m w (.release_scope scope owner_id)
        ∀ p id, (p, id) ∈ after.returned → p.scope = scope → p.owner_id = owner_id →
          ∃ h, after.handles[id]? = some h ∧ (h.held = false ∨ h.status = .failed) := by
  intro hall
  obtain ⟨n, hn⟩ := sandbox_normalized none none
  have hfirst : call initial calm (.ensure sandbox none none) =
      (store initial n).create n (final_key n.reuse_key "p") := by
    simp [call, calm, hn, Manager.ensure, store, initial]
  have hsecond : call ((store initial n).create n (final_key n.reuse_key "p")) calm
        (.ensure sandbox none none) =
      (store ((store initial n).create n (final_key n.reuse_key "p")) n).reuse n 0 := by
    simp [call, calm, hn, Manager.ensure, Manager.create, store, initial]
  have hrun : machine.run initial
        [(calm, .ensure sandbox none none), (calm, .ensure sandbox none none)] =
      some ((store ((store initial n).create n (final_key n.reuse_key "p")) n).reuse n 0) := by
    simp only [Machine.run, machine, Option.bind_some, hfirst, hsecond]
  obtain ⟨h, hh, hended⟩ := hall _ _ hrun calm n.scope n.owner_id n.toParts 0
    (by simp [call, releaseAll_returned, Manager.reuse]) rfl rfl
  have hget : (call ((store ((store initial n).create n (final_key n.reuse_key "p")) n).reuse n 0)
        calm (.release_scope n.scope n.owner_id)).handles[0]? =
      some ⟨.ready, 1, n.scope, n.owner_id, final_key n.reuse_key "p", true⟩ := by
    simp [call, Manager.targets, Manager.reuse, Manager.setHandle, Manager.create, store, initial,
      Manager.releaseAll, Manager.release, List.range_succ]
  cases hh.symm.trans hget
  simp at hended

end Agently.ResourceScopes
