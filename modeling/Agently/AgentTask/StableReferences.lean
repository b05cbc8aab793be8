import Agently.AgentTask.ReferenceIdentities

/-! # Reference identities over a run

What each call can do to a sound catalog is said once; soundness, what stays of every record
and the ids given out follow for whole runs. -/

namespace Agently.AgentTask

open Agently.Utils Agently.Lib
open Agently.Storage.Identity (encode_base62)
open Agently.TaskDAGValidation (strip strOf orElse get)

variable (H : Host)

def Carried (target : Item) : Prop :=
  text H (get target "evidence_id") ≠ "" ∨ text H (get target "reference_id") ≠ ""

instance (target : Item) : Decidable (Carried H target) :=
  inferInstanceAs (Decidable (_ ∨ _))

def joinedRecord (c : TaskReferenceCatalog) (target : Item) : Option EvidenceRecord :=
  match (c.fingerprints.get? (_evidence_fingerprint H target)).filter (· ≠ "") with
  | some existing_id => c.evidence.get? existing_id
  | none => _canonical_projection_target H c target

def newEvidence (c : TaskReferenceCatalog) (target : Item) : EvidenceRecord :=
  { evidence_id := tagged "evd" (c.high_water + 1)
    reference_id := tagged "ref" (c.high_water + 2)
    task_id := c.task_id
    fingerprint := _evidence_fingerprint H target
    source_role := _source_role H target
    target := target }

def newReference (c : TaskReferenceCatalog) (target : Item) : ReferenceRecord :=
  { reference_id := tagged "ref" (c.high_water + 2)
    evidence_id := tagged "evd" (c.high_water + 1)
    task_id := c.task_id
    source_role := _source_role H target
    kind := strOf H.strOf (orElse (get target "kind") (.str ""))
    status := strOf H.strOf (orElse (get target "status") (.str "ok"))
    body_state := strOf H.strOf (orElse (get target "body_state") (.str "ref_only")) }

def added (c : TaskReferenceCatalog) (target : Item) : TaskReferenceCatalog :=
  { c with
    high_water := c.high_water + 2
    evidence := c.evidence.set (tagged "evd" (c.high_water + 1)) (newEvidence H c target)
    references := c.references.set (tagged "ref" (c.high_water + 2)) (newReference H c target)
    fingerprints :=
      c.fingerprints.set (_evidence_fingerprint H target) (tagged "evd" (c.high_water + 1)) }

variable {H} {c : TaskReferenceCatalog}

variable {record : EvidenceRecord}

theorem evidence_of_vals (h : Sound H c) (hr : record ∈ c.evidence.vals) :
    c.evidence.get? record.evidence_id = some record := by
  obtain ⟨p, hp, rfl⟩ := List.mem_map.mp hr
  have hget := Dict.get?_of_mem h.evidence_nodup hp
  rw [(h.mem_evidence hp).own]
  exact hget

variable {target : Item}

theorem canonical_mem (hr : _canonical_projection_target H c target = some record) :
    record ∈ candidates H c target := by
  unfold _canonical_projection_target at hr
  split at hr
  · cases hr
  · dsimp only at hr
    split at hr
    · cases hr
    · split at hr
      · exact List.mem_of_find?_eq_some hr
      · split at hr
        · exact List.mem_of_head? hr
        · cases hr

theorem fingerprint_get (h : Sound H c) {print id : String}
    (hp : c.fingerprints.get? print = some id) :
    id ≠ "" ∧ ∃ record, c.evidence.get? id = some record := by
  have hk := h.fingerprint print id hp
  obtain ⟨n, -, -, rfl⟩ := h.evidenceNumbers id hk
  exact ⟨tagged_ne _ _, evidence_get hk⟩

theorem joinedRecord_get (h : Sound H c) (hr : joinedRecord H c target = some record) :
    c.evidence.get? record.evidence_id = some record := by
  unfold joinedRecord at hr
  split at hr
  · rename_i id hid
    rw [(h.evidence id record hr).own]
    exact hr
  · exact evidence_of_vals h (List.mem_of_mem_filter (canonical_mem hr))

theorem add_evidence_carried {item : Item} (hc : Carried H (sanitized item)) :
    add_evidence H item c =
      match _resolve_supplied_identity H c (sanitized item)
          (text H (get (sanitized item) "evidence_id"))
          (text H (get (sanitized item) "reference_id")) with
      | .error e => .error e c
      | .ok projected => .ok projected c := by
  unfold add_evidence
  dsimp only
  exact if_pos hc

theorem add_evidence_joined (h : Sound H c) {item : Item} (hc : ¬ Carried H (sanitized item))
    (hj : joinedRecord H c (sanitized item) = some record) :
    add_evidence H item c = .ok (_project_canonical_item record (sanitized item)) c := by
  unfold add_evidence
  dsimp only
  refine (if_neg hc).trans ?_
  unfold joinedRecord at hj
  cases hf : (c.fingerprints.get? (_evidence_fingerprint H (sanitized item))).filter (· ≠ "") with
  | some id =>
    rw [hf] at hj
    dsimp only at hj ⊢
    rw [hj]
  | none =>
    rw [hf] at hj
    dsimp only at hj ⊢
    rw [hj]

theorem add_evidence_added (h : Sound H c) {item : Item} (hc : ¬ Carried H (sanitized item))
    (hj : joinedRecord H c (sanitized item) = none) :
    c.fingerprints.get? (_evidence_fingerprint H (sanitized item)) = none ∧
      add_evidence H item c = .ok
        (_project_canonical_item (newEvidence H c (sanitized item)) (sanitized item))
        (added H c (sanitized item)) := by
  have hnone : c.fingerprints.get? (_evidence_fingerprint H (sanitized item)) = none := by
    cases hf : c.fingerprints.get? (_evidence_fingerprint H (sanitized item)) with
    | none => rfl
    | some id =>
      obtain ⟨hne, record, hr⟩ := fingerprint_get h hf
      unfold joinedRecord at hj
      have hfilter : (some id).filter (· ≠ "") = some id := by simp [hne]
      rw [hf, hfilter] at hj
      dsimp only at hj
      rw [hr] at hj
      cases hj
  refine ⟨hnone, ?_⟩
  unfold add_evidence
  dsimp only
  refine (if_neg hc).trans ?_
  unfold joinedRecord at hj
  rw [hnone] at hj ⊢
  dsimp only [Option.filter] at hj ⊢
  rw [hj]
  rfl

theorem resolve_supplied_ok {projected : Item} {evidence_id reference_id : String} (h : Sound H c)
    (hr : _resolve_supplied_identity H c target evidence_id reference_id = .ok projected) :
    ∃ record, c.evidence.get? record.evidence_id = some record ∧
      retarget H target record.target = .ok () ∧
      projected = _project_canonical_item record target := by
  unfold _resolve_supplied_identity at hr
  split at hr
  · cases hr
  · split at hr
    · rename_i evidence reference he href
      split at hr
      · cases hr
      · cases hret : retarget H target evidence.target with
        | error e =>
          rw [hret] at hr
          cases hr
        | ok u =>
          rw [hret] at hr
          refine ⟨evidence, ?_, hret, (Except.ok.inj hr).symm⟩
          rw [(h.evidence _ _ he).own]
          exact he
    · cases hr

theorem add_evidence_cases (h : Sound H c) (item : Item) :
    (Carried H (sanitized item) ∧ ∃ e, add_evidence H item c = .error e c) ∨
    (∃ record, c.evidence.get? record.evidence_id = some record ∧
      add_evidence H item c = .ok (_project_canonical_item record (sanitized item)) c ∧
      (Carried H (sanitized item) ∧ retarget H (sanitized item) record.target = .ok () ∨
        ¬ Carried H (sanitized item) ∧ joinedRecord H c (sanitized item) = some record)) ∨
    (¬ Carried H (sanitized item) ∧ joinedRecord H c (sanitized item) = none ∧
      c.fingerprints.get? (_evidence_fingerprint H (sanitized item)) = none ∧
      add_evidence H item c = .ok
        (_project_canonical_item (newEvidence H c (sanitized item)) (sanitized item))
        (added H c (sanitized item))) := by
  by_cases hc : Carried H (sanitized item)
  · rw [add_evidence_carried hc]
    cases hr : _resolve_supplied_identity H c (sanitized item)
        (text H (get (sanitized item) "evidence_id"))
        (text H (get (sanitized item) "reference_id")) with
    | error e => exact .inl ⟨hc, e, rfl⟩
    | ok projected =>
      obtain ⟨record, hget, hret, rfl⟩ := resolve_supplied_ok h hr
      exact .inr (.inl ⟨record, hget, rfl, .inl ⟨hc, hret⟩⟩)
  · cases hj : joinedRecord H c (sanitized item) with
    | some record =>
      exact .inr (.inl ⟨record, joinedRecord_get h hj, add_evidence_joined h hc hj,
        .inr ⟨hc, rfl⟩⟩)
    | none =>
      obtain ⟨hnone, hadd⟩ := add_evidence_added h hc hj
      exact .inr (.inr ⟨hc, rfl, hnone, hadd⟩)

variable {ids : List String}

theorem Numbered.mono {c c' : TaskReferenceCatalog} {tag : String}
    (h : Numbered c tag ids) (hw : c.high_water ≤ c'.high_water) : Numbered c' tag ids := by
  intro id hid
  obtain ⟨n, h0, hn, he⟩ := h id hid
  exact ⟨n, h0, by omega, he⟩

theorem Numbered.append {tag : String} (h : Numbered c tag ids) {n : Nat}
    (h0 : 0 < n) (hn : n ≤ c.high_water) : Numbered c tag (ids ++ [tagged tag n]) := by
  intro id hid
  rcases List.mem_append.mp hid with hid | hid
  · exact h id hid
  · rw [List.mem_singleton] at hid
    exact ⟨n, h0, hn, hid⟩

theorem fresh_evidence (h : Sound H c) : tagged "evd" (c.high_water + 1) ∉ c.evidence.keys := by
  have hf : tagged "evd" (c.high_water + 1) ∉ idsOf c :=
    h.fresh_id (by simp [tags]) (Nat.lt_succ_self c.high_water)
  intro hm
  exact hf (by simp [idsOf, hm])

theorem fresh_reference (h : Sound H c) : tagged "ref" (c.high_water + 2) ∉ c.references.keys := by
  have hf : tagged "ref" (c.high_water + 2) ∉ idsOf c := h.fresh_id (by simp [tags]) (by omega)
  intro hm
  exact hf (by simp [idsOf, hm])

theorem fresh_binding (h : Sound H c) : tagged "bnd" (c.high_water + 1) ∉ c.bindings.keys := by
  have hf : tagged "bnd" (c.high_water + 1) ∉ idsOf c :=
    h.fresh_id (by simp [tags]) (Nat.lt_succ_self c.high_water)
  intro hm
  exact hf (by simp [idsOf, hm])

theorem Sound.added (h : Sound H c) (ht : sanitized target = target)
    (hp : c.fingerprints.get? (_evidence_fingerprint H target) = none) :
    Sound H (added H c target) := by
  have hkeys : (AgentTask.added H c target).evidence.keys =
      c.evidence.keys ++ [tagged "evd" (c.high_water + 1)] :=
    Dict.keys_set_of_not_mem (fresh_evidence h) _
  have hrkeys : (AgentTask.added H c target).references.keys =
      c.references.keys ++ [tagged "ref" (c.high_water + 2)] :=
    Dict.keys_set_of_not_mem (fresh_reference h) _
  have hold : ∀ {id}, id ∈ c.evidence.keys → tagged "evd" (c.high_water + 1) ≠ id :=
    fun hid he => fresh_evidence h (he ▸ hid)
  have hrold : ∀ {id}, id ∈ c.references.keys → tagged "ref" (c.high_water + 2) ≠ id :=
    fun hid he => fresh_reference h (he ▸ hid)
  have hmem : ∀ {id r}, c.evidence.get? id = some r → id ∈ c.evidence.keys := by
    intro id r hr
    by_contra hn
    rw [Dict.get?_eq_none_iff.mpr hn] at hr
    cases hr
  have hrmem : ∀ {id r}, c.references.get? id = some r → id ∈ c.references.keys := by
    intro id r hr
    by_contra hn
    rw [Dict.get?_eq_none_iff.mpr hn] at hr
    cases hr
  refine ⟨h.task, ?_, ?_, ?_, ?_, ?_, ?_, ?_, ?_⟩
  · intro id record hr
    change (Dict.set c.evidence _ _).get? id = some record at hr
    by_cases he : tagged "evd" (c.high_water + 1) = id
    · subst he
      rw [Dict.get?_set_self] at hr
      have hrec := Option.some.inj hr
      subst hrec
      exact ⟨rfl, rfl, H.sha256_ne _, Dict.get?_set_self _ _ _,
        ⟨newReference H c target, Dict.get?_set_self _ _ _, rfl⟩, ht⟩
    · rw [Dict.get?_set_of_ne _ _ he] at hr
      have hs := h.evidence id record hr
      obtain ⟨reference, href, hid⟩ := hs.joined
      refine ⟨hs.own, hs.task, hs.fingerprint, ?_, ⟨reference, ?_, hid⟩, hs.target⟩
      · change (Dict.set c.fingerprints _ _).get? record.fingerprint = some id
        rw [Dict.get?_set_of_ne, hs.indexed]
        intro hprint
        rw [hprint, hs.indexed] at hp
        cases hp
      · change (Dict.set c.references _ _).get? record.reference_id = some reference
        rw [Dict.get?_set_of_ne _ _ (hrold (hrmem href)), href]
  · intro id reference hr
    change (Dict.set c.references _ _).get? id = some reference at hr
    by_cases he : tagged "ref" (c.high_water + 2) = id
    · subst he
      rw [Dict.get?_set_self] at hr
      have hrec := Option.some.inj hr
      subst hrec
      exact ⟨rfl, rfl, newEvidence H c target, Dict.get?_set_self _ _ _, rfl⟩
    · rw [Dict.get?_set_of_ne _ _ he] at hr
      have hs := h.reference id reference hr
      obtain ⟨record, hrec, hid⟩ := hs.joined
      refine ⟨hs.own, hs.task, record, ?_, hid⟩
      change (Dict.set c.evidence _ _).get? reference.evidence_id = some record
      rw [Dict.get?_set_of_ne _ _ (hold (hmem hrec)), hrec]
  · intro id record hr
    have hs := h.binding id record hr
    refine ⟨hs.own, hs.task, fun r hro => ?_⟩
    rw [hrkeys]
    exact List.mem_append_left _ (hs.offered r hro)
  · intro print id hprint
    rw [hkeys]
    change (Dict.set c.fingerprints _ _).get? print = some id at hprint
    rw [Dict.get?_set] at hprint
    split at hprint
    · exact List.mem_append_right _ (by simp [Option.some.inj hprint])
    · exact List.mem_append_left _ (h.fingerprint print id hprint)
  · rw [hkeys]
    have hmono : Numbered (AgentTask.added H c target) "evd" c.evidence.keys :=
      h.evidenceNumbers.mono (Nat.le_add_right _ 2)
    exact hmono.append (Nat.succ_pos _) (Nat.le_succ _)
  · rw [hrkeys]
    have hmono : Numbered (AgentTask.added H c target) "ref" c.references.keys :=
      h.referenceNumbers.mono (Nat.le_add_right _ 2)
    exact hmono.append (Nat.succ_pos _) (Nat.le_refl _)
  · exact h.bindingNumbers.mono (Nat.le_add_right _ 2)
  · have hperm : (idsOf (AgentTask.added H c target)).Perm
        (tagged "evd" (c.high_water + 1) :: tagged "ref" (c.high_water + 2) :: idsOf c) := by
      unfold idsOf
      rw [hkeys, hrkeys]
      rw [List.perm_iff_count]
      intro id
      have hb : (AgentTask.added H c target).bindings.keys = c.bindings.keys := rfl
      simp only [hb, List.count_append, List.count_cons, List.count_nil]
      omega
    rw [(hperm.map idNumber).nodup_iff, List.map_cons, List.map_cons,
      idNumber_tagged (by simp [tags]) (Nat.succ_pos _),
      idNumber_tagged (by simp [tags]) (Nat.succ_pos _)]
    refine List.nodup_cons.mpr ⟨?_, List.nodup_cons.mpr ⟨h.fresh_number (by omega), h.distinct⟩⟩
    rw [List.mem_cons]
    rintro (he | hm)
    · omega
    · exact h.fresh_number (Nat.lt_succ_self _) hm

def bound (c : TaskReferenceCatalog) (subject : String) (reference_ids : List String)
    (required_role : Option String) : TaskReferenceCatalog :=
  { c with
    high_water := c.high_water + 1
    bindings := c.bindings.set (tagged "bnd" (c.high_water + 1))
      ⟨tagged "bnd" (c.high_water + 1), c.task_id, strip subject, reference_ids,
        required_role.getD ""⟩ }

theorem bindableAll_mem {role : Option String}
    (h : bindableAll c role ids = .ok ()) : ∀ id ∈ ids, id ∈ c.references.keys := by
  induction ids with
  | nil => simp
  | cons id ids ih =>
    rw [bindableAll] at h
    cases hb : bindable c role id with
    | error e =>
      rw [hb] at h
      cases h
    | ok u =>
      rw [hb] at h
      intro x hx
      rcases List.mem_cons.mp hx with rfl | hx
      · by_contra hn
        unfold bindable at hb
        rw [Dict.get?_eq_none_iff.mpr hn] at hb
        split at hb
        · split at hb <;> cases hb
        · cases hb
      · exact ih h x hx

theorem bind_cases (c : TaskReferenceCatalog) (subject : String) (ids : List String)
    (role : Option String) :
    (∃ e, bind subject ids role c = .error e c) ∨
    ((∀ id ∈ ids.map strip, id ∈ c.references.keys) ∧
      bind subject ids role c = .ok ⟨tagged "bnd" (c.high_water + 1), c.task_id, strip subject,
        ids.map strip, role.getD ""⟩ (bound c subject (ids.map strip) role)) := by
  unfold bind
  dsimp only
  split
  · exact .inl ⟨_, rfl⟩
  · split
    · exact .inl ⟨_, rfl⟩
    · split
      · exact .inl ⟨_, rfl⟩
      · cases hb : bindableAll c role (ids.map strip) with
        | error e => exact .inl ⟨e, rfl⟩
        | ok u => exact .inr ⟨bindableAll_mem hb, rfl⟩

theorem Sound.bound (h : Sound H c) (subject : String)
    (role : Option String) (hids : ∀ id ∈ ids, id ∈ c.references.keys) :
    Sound H (bound c subject ids role) := by
  have hkeys : (AgentTask.bound c subject ids role).bindings.keys =
      c.bindings.keys ++ [tagged "bnd" (c.high_water + 1)] :=
    Dict.keys_set_of_not_mem (fresh_binding h) _
  refine ⟨h.task, ?_, ?_, ?_, h.fingerprint, h.evidenceNumbers.mono (Nat.le_succ _),
    h.referenceNumbers.mono (Nat.le_succ _), ?_, ?_⟩
  · intro id record hr
    have hs := h.evidence id record hr
    exact ⟨hs.own, hs.task, hs.fingerprint, hs.indexed, hs.joined, hs.target⟩
  · intro id reference hr
    have hs := h.reference id reference hr
    exact ⟨hs.own, hs.task, hs.joined⟩
  · intro id record hr
    change (Dict.set c.bindings _ _).get? id = some record at hr
    rw [Dict.get?_set] at hr
    split at hr
    · rename_i he
      have hrec := Option.some.inj hr
      subst hrec
      exact ⟨he, rfl, hids⟩
    · have hs := h.binding id record hr
      exact ⟨hs.own, hs.task, hs.offered⟩
  · rw [hkeys]
    have hmono : Numbered (AgentTask.bound c subject ids role) "bnd" c.bindings.keys :=
      h.bindingNumbers.mono (Nat.le_succ _)
    exact hmono.append
      (Nat.succ_pos _) (Nat.le_refl _)
  · have hids' : idsOf (AgentTask.bound c subject ids role) =
        idsOf c ++ [tagged "bnd" (c.high_water + 1)] := by
      unfold idsOf
      rw [hkeys, ← List.append_assoc]
      rfl
    rw [hids', List.map_append, List.map_singleton,
      idNumber_tagged (by simp [tags]) (Nat.succ_pos _), List.nodup_append]
    refine ⟨h.distinct, List.nodup_singleton _, ?_⟩
    intro n hn m hm he
    rw [List.mem_singleton] at hm
    exact h.fresh_number (Nat.lt_succ_self _) (hm ▸ he ▸ hn)

end Agently.AgentTask
