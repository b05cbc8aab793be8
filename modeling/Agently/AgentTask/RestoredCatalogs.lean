import Agently.AgentTask.ReferenceRuns

/-! # Restored catalogs

A snapshot keeps of a stored target the fields that carried ids are checked against, and of its
discriminators only the content version. -/

namespace Agently.AgentTask

open Agently.Utils Agently.Lib
open Agently.TaskDAGValidation (strip get)

variable (H : Host)

/-- Both catalogs refuse the item, both join it to the same ids, or both allocate the same. -/
@[irreducible]
def SameOutcome (item : Item) (c c' : TaskReferenceCatalog) : Prop :=
  match add_evidence H item c, add_evidence H item c' with
  | .error _ _, .error _ _ => True
  | .ok a d, .ok b d' =>
    get a "evidence_id" = get b "evidence_id" ∧ get a "reference_id" = get b "reference_id" ∧
      (d.high_water = c.high_water ↔ d'.high_water = c'.high_water)
  | _, _ => False

def keptIdentity (target : Item) : Dict String String :=
  if text H (get target "content_version_id") = "" then []
  else [("content_version_id", text H (get target "content_version_id"))]

def firstAgreeing (identity : Item → Dict String String) (c : TaskReferenceCatalog)
    (target : Item) : Option EvidenceRecord :=
  (candidates H c target).find? fun record =>
    agrees (_snapshot_identity H target) (identity record.target)

/-- The record of the item is not told by a discriminator that snapshots lose. -/
def KeepsDiscriminators (c : TaskReferenceCatalog) (item : Item) : Prop :=
  Carried H (sanitized item) ∨
    (c.fingerprints.get? (_evidence_fingerprint H (sanitized item))).isSome ∨
    text H (get (sanitized item) "id") = "" ∨
    _snapshot_identity H (sanitized item) = [] ∨
    firstAgreeing H (_snapshot_identity H) c (sanitized item) =
      firstAgreeing H (keptIdentity H) c (sanitized item)

/-- `_canonical_projection_target`, with the discriminators of stored targets a parameter. -/
def canonicalBy (identity : Item → Dict String String) (c : TaskReferenceCatalog)
    (target : Item) : Option EvidenceRecord :=
  if text H (get target "id") = "" then none
  else if _snapshot_identity H target ≠ [] then firstAgreeing H identity c target
  else if _is_lossy_projection H target ∧ (candidates H c target).length = 1 then
    (candidates H c target).head?
  else none

variable {H} {c : TaskReferenceCatalog}

theorem canonical_eq (c : TaskReferenceCatalog) (target : Item) :
    _canonical_projection_target H c target = canonicalBy H (_snapshot_identity H) c target := by
  unfold _canonical_projection_target canonicalBy firstAgreeing
  dsimp only
  by_cases hid : text H (get target "id") = ""
  · rw [if_pos hid, if_pos hid]
  · rw [if_neg hid, if_neg hid]
    by_cases hc : candidates H c target = []
    · rw [if_pos hc, hc]
      simp
    · rw [if_neg hc]

theorem get_persisted_of_not_mem (record : EvidenceRecord) {field : String}
    (hf : field ∉ persistentFields) : get record.persisted.target field = .none := by
  change get (sanitized (sanitized (_persistent_target record.target))) field = _
  rw [get_sanitized, get_sanitized, persistent_target_eq]
  unfold TaskDAGValidation.get
  rw [get?_filterMap_keys, if_neg hf]
  rfl

theorem text_none : text H .none = "" := text_of_blank (by decide)

theorem snapshot_identity_persisted {record : EvidenceRecord}
    (ht : sanitized record.target = record.target) :
    _snapshot_identity H record.persisted.target = keptIdentity H record.target := by
  have hlost : ∀ field ∈ ["snapshot_id", "sha256", "content_fingerprint", "digest", "etag",
      "provenance"], get record.persisted.target field = .none := by
    intro field hfield
    have hall : ∀ f ∈ ["snapshot_id", "sha256", "content_fingerprint", "digest", "etag",
        "provenance"], f ∉ persistentFields := by decide +kernel
    exact get_persisted_of_not_mem record (hall field hfield)
  have hversion := text_persisted (H := H) ht "content_version_id" (by decide +kernel)
  unfold _snapshot_identity keptIdentity
  rw [hlost "provenance" (by simp)]
  simp only [_SNAPSHOT_IDENTITY_FIELDS, List.filterMap_cons, List.filterMap_nil,
    hlost "snapshot_id" (by simp), hlost "sha256" (by simp),
    hlost "content_fingerprint" (by simp), hlost "digest" (by simp), hlost "etag" (by simp),
    text_none, if_true, hversion]
  by_cases hv : text H (get record.target "content_version_id") = ""
  · rw [if_pos hv, if_pos hv]
  · rw [if_neg hv, if_neg hv]

theorem mem_vals_sound (h : Sound H c) {record : EvidenceRecord} (hr : record ∈ c.evidence.vals) :
    sanitized record.target = record.target :=
  (h.evidence _ _ (evidence_of_vals h hr)).target

theorem candidates_restored (h : Sound H c) (target : Item) :
    candidates H (restored c) target =
      (candidates H c target).map EvidenceRecord.persisted := by
  have hvals : (restored c).evidence.vals = c.evidence.vals.map EvidenceRecord.persisted := by
    simp [restored, Dict.vals, Function.comp_def]
  unfold candidates
  rw [hvals, List.filter_map]
  refine congrArg (List.map EvidenceRecord.persisted) (List.filter_congr ?_)
  intro record hr
  have ht := mem_vals_sound h hr
  have hid := text_persisted (H := H) ht "id" (by decide +kernel)
  have hkind := text_persisted (H := H) ht "kind" (by decide +kernel)
  simp only [Function.comp_apply, hid, hkind]

theorem firstAgreeing_restored (h : Sound H c) (target : Item) :
    firstAgreeing H (_snapshot_identity H) (restored c) target =
      (firstAgreeing H (keptIdentity H) c target).map EvidenceRecord.persisted := by
  unfold firstAgreeing
  rw [candidates_restored h, List.find?_map]
  refine congrArg (Option.map EvidenceRecord.persisted) (List.find?_congr ?_)
  intro record hr
  have ht := mem_vals_sound h (List.mem_of_mem_filter hr)
  simp only [Function.comp_apply, snapshot_identity_persisted ht]

theorem canonical_restored (h : Sound H c) (target : Item) :
    _canonical_projection_target H (restored c) target =
      (canonicalBy H (keptIdentity H) c target).map EvidenceRecord.persisted := by
  rw [canonical_eq]
  unfold canonicalBy
  by_cases hid : text H (get target "id") = ""
  · rw [if_pos hid, if_pos hid]
    rfl
  · rw [if_neg hid, if_neg hid]
    by_cases hs : _snapshot_identity H target ≠ []
    · rw [if_pos hs, if_pos hs, firstAgreeing_restored h]
    · rw [if_neg hs, if_neg hs, candidates_restored h, List.length_map, List.head?_map]
      split <;> rfl

theorem resolve_supplied_restored (h : Sound H c) (target : Item)
    (evidence_id reference_id : String) :
    _resolve_supplied_identity H (restored c) target evidence_id reference_id =
      _resolve_supplied_identity H c target evidence_id reference_id := by
  have hrefs : (restored c).references = c.references := rfl
  unfold _resolve_supplied_identity
  rw [get_restored, hrefs]
  cases he : c.evidence.get? evidence_id with
  | none => rfl
  | some record =>
    have hret := retarget_persisted (H := H) (h.evidence _ _ he).target target
    rw [Option.map_some]
    cases c.references.get? reference_id with
    | none => rfl
    | some reference =>
      dsimp only
      rw [hret]
      rfl

theorem keepsDiscriminators_iff (item : Item) (hc : ¬ Carried H (sanitized item))
    (hp : c.fingerprints.get? (_evidence_fingerprint H (sanitized item)) = none) :
    KeepsDiscriminators H c item ↔
      canonicalBy H (_snapshot_identity H) c (sanitized item) =
        canonicalBy H (keptIdentity H) c (sanitized item) := by
  unfold KeepsDiscriminators canonicalBy
  rw [hp]
  by_cases hid : text H (get (sanitized item) "id") = ""
  · simp [hid]
  · rw [if_neg hid, if_neg hid]
    by_cases hs : _snapshot_identity H (sanitized item) = []
    · simp [hs]
    · simp [hc, hid, hs]

theorem joinedRecord_restored_known (h : Sound H c) {target : Item} {id : String}
    (hp : c.fingerprints.get? (_evidence_fingerprint H target) = some id) :
    joinedRecord H c target = c.evidence.get? id ∧
      joinedRecord H (restored c) target = (c.evidence.get? id).map EvidenceRecord.persisted := by
  have hne := (fingerprint_get h hp).1
  have hp' : (restored c).fingerprints.get? (_evidence_fingerprint H target) = some id := hp
  have hfilter : (some id).filter (· ≠ "") = some id := by simp [hne]
  unfold joinedRecord
  rw [hp, hp', hfilter]
  exact ⟨rfl, get_restored id⟩

theorem joinedRecord_unknown {target : Item}
    (hp : c.fingerprints.get? (_evidence_fingerprint H target) = none) :
    joinedRecord H c target = canonicalBy H (_snapshot_identity H) c target := by
  unfold joinedRecord
  rw [hp]
  exact canonical_eq c target

theorem joinedRecord_restored_unknown (h : Sound H c) {target : Item}
    (hp : c.fingerprints.get? (_evidence_fingerprint H target) = none) :
    joinedRecord H (restored c) target =
      (canonicalBy H (keptIdentity H) c target).map EvidenceRecord.persisted := by
  have hp' : (restored c).fingerprints.get? (_evidence_fingerprint H target) = none := hp
  unfold joinedRecord
  rw [hp']
  exact canonical_restored h target

theorem sameOutcome_joined (h : Sound H c) {item : Item} (hc : ¬ Carried H (sanitized item))
    {record other : EvidenceRecord} (hj : joinedRecord H c (sanitized item) = some record)
    (hj' : joinedRecord H (restored c) (sanitized item) = some other.persisted)
    (ho : c.evidence.get? other.evidence_id = some other) :
    SameOutcome H item c (restored c) ↔ record = other := by
  have hsan : sanitized (sanitized item) = sanitized item := sanitized_idem item
  have hr := joinedRecord_get h hj
  unfold SameOutcome
  rw [add_evidence_joined h hc hj, add_evidence_joined h.restored hc hj']
  dsimp only
  rw [get_project record hsan, get_project _ hsan, get_project record hsan, get_project _ hsan,
    if_neg (by decide), if_pos rfl, if_neg (by decide), if_pos rfl, if_pos rfl, if_pos rfl]
  constructor
  · rintro ⟨hid, -⟩
    have he : record.evidence_id = other.evidence_id := Value.str.inj hid
    rw [he, ho] at hr
    exact (Option.some.inj hr).symm
  · rintro rfl
    exact ⟨rfl, rfl, Iff.rfl⟩

theorem canonicalBy_mem {identity : Item → Dict String String} {target : Item}
    {record : EvidenceRecord} (hr : canonicalBy H identity c target = some record) :
    record ∈ c.evidence.vals := by
  unfold canonicalBy firstAgreeing at hr
  split at hr
  · cases hr
  · split at hr
    · exact List.mem_of_mem_filter (List.mem_of_find?_eq_some hr)
    · split at hr
      · exact List.mem_of_mem_filter (List.mem_of_head? hr)
      · cases hr

/-- A restored catalog answers to an item as the original does exactly when the item's record
is not told by a lost discriminator. -/
theorem restored_sameOutcome_iff {task_id : String} {c₀ : TaskReferenceCatalog}
    (h₀ : TaskReferenceCatalog.new task_id = .ok c₀) (ops : List Operation)
    {c' : TaskReferenceCatalog}
    (hc' : from_snapshot H (final H c₀ ops).task_id (snapshot (final H c₀ ops)) = .ok c')
    (item : Item) :
    SameOutcome H item (final H c₀ ops) c' ↔
      KeepsDiscriminators H (final H c₀ ops) item := by
  have h : Sound H (final H c₀ ops) := ((new_sound h₀).run ops).1
  generalize final H c₀ ops = c at h hc' ⊢
  rw [h.from_snapshot] at hc'
  cases hc'
  have hsan : sanitized (sanitized item) = sanitized item := sanitized_idem item
  by_cases hc : Carried H (sanitized item)
  · refine ⟨fun _ => .inl hc, fun _ => ?_⟩
    unfold SameOutcome
    rw [add_evidence_carried hc, add_evidence_carried hc, resolve_supplied_restored h]
    cases _resolve_supplied_identity H c (sanitized item)
        (text H (get (sanitized item) "evidence_id"))
        (text H (get (sanitized item) "reference_id")) with
    | error e => trivial
    | ok projected => exact ⟨rfl, rfl, iff_of_true rfl rfl⟩
  · cases hp : c.fingerprints.get? (_evidence_fingerprint H (sanitized item)) with
    | some id =>
      refine ⟨fun _ => .inr (.inl (by rw [hp]; rfl)), fun _ => ?_⟩
      obtain ⟨hne, record, hr⟩ := fingerprint_get h hp
      obtain ⟨hj, hj'⟩ := joinedRecord_restored_known h hp
      rw [hr] at hj
      rw [hr, Option.map_some] at hj'
      have hiff := sameOutcome_joined h hc hj hj' (joinedRecord_get h hj)
      exact hiff.mpr rfl
    | none =>
      rw [keepsDiscriminators_iff item hc hp]
      have hj := joinedRecord_unknown (H := H) hp
      have hj' := joinedRecord_restored_unknown h hp
      cases hx : canonicalBy H (_snapshot_identity H) c (sanitized item) with
      | some record =>
        rw [hx] at hj
        cases hy : canonicalBy H (keptIdentity H) c (sanitized item) with
        | some other =>
          rw [hy, Option.map_some] at hj'
          rw [sameOutcome_joined h hc hj hj' (evidence_of_vals h (canonicalBy_mem hy))]
          exact ⟨fun he => congrArg some he, Option.some.inj⟩
        | none =>
          rw [hy, Option.map_none] at hj'
          refine ⟨fun hs => ?_, fun he => absurd he (Option.some_ne_none record)⟩
          unfold SameOutcome at hs
          rw [add_evidence_joined h hc hj, (add_evidence_added h.restored hc hj').2] at hs
          -- only the restored catalog draws numbers
          have hdrawn := hs.2.2.mp rfl
          change c.high_water + 2 = c.high_water at hdrawn
          omega
      | none =>
        rw [hx] at hj
        cases hy : canonicalBy H (keptIdentity H) c (sanitized item) with
        | some other =>
          rw [hy, Option.map_some] at hj'
          refine ⟨fun hs => ?_, fun he => absurd he.symm (Option.some_ne_none other)⟩
          unfold SameOutcome at hs
          rw [(add_evidence_added h hc hj).2, add_evidence_joined h.restored hc hj'] at hs
          have hdrawn := hs.2.2.mpr rfl
          change c.high_water + 2 = c.high_water at hdrawn
          omega
        | none =>
          rw [hy, Option.map_none] at hj'
          refine ⟨fun _ => rfl, fun _ => ?_⟩
          unfold SameOutcome
          rw [(add_evidence_added h hc hj).2, (add_evidence_added h.restored hc hj').2]
          dsimp only
          rw [get_project _ hsan, get_project _ hsan, get_project _ hsan, get_project _ hsan]
          exact ⟨rfl, rfl, Iff.rfl⟩

theorem SameOutcome.evidence_id {item a b : Item} {c' : TaskReferenceCatalog}
    (h : SameOutcome H item c c')
    (ha : (take H c (.add_evidence item)).answer = .ok (.item a))
    (hb : (take H c' (.add_evidence item)).answer = .ok (.item b)) :
    get a "evidence_id" = get b "evidence_id" := by
  unfold SameOutcome at h
  unfold take at ha hb
  rw [perform_add_evidence] at ha hb
  cases hx : add_evidence H item c with
  | error e d =>
    rw [hx] at ha
    cases ha
  | ok x d =>
    cases hy : add_evidence H item c' with
    | error e d' =>
      rw [hy] at hb
      cases hb
    | ok y d' =>
      rw [hx] at ha
      rw [hy] at hb
      rw [hx, hy] at h
      cases ha
      cases hb
      exact h.1

def fullBlock : Item := [("body", .str "full"), ("id", .str "a"), ("sha256", .str "x")]

def shortened : Item := [("body", .str "short"), ("id", .str "a"), ("sha256", .str "x")]

theorem shortened_allocates_after_restore :
    ∃ c', from_snapshot plainHost "task"
        (snapshot (final plainHost emptyCatalog [.add_evidence fullBlock])) = .ok c' ∧
      ¬ SameOutcome plainHost shortened (final plainHost emptyCatalog [.add_evidence fullBlock])
        c' := by
  refine ⟨restored (final plainHost emptyCatalog [.add_evidence fullBlock]), by decide +kernel, ?_⟩
  intro h
  have hids := h.evidence_id
    (a := Dict.set (Dict.set shortened "evidence_id" (.str "evd_1")) "reference_id" (.str "ref_2"))
    (b := Dict.set (Dict.set shortened "evidence_id" (.str "evd_3")) "reference_id" (.str "ref_4"))
    (by decide +kernel) (by decide +kernel)
  exact absurd hids (by decide +kernel)

theorem restored_sameOutcome_iff_shortened :
    SameOutcome plainHost shortened (final plainHost emptyCatalog [.add_evidence fullBlock])
        (restored (final plainHost emptyCatalog [.add_evidence fullBlock])) ↔
      KeepsDiscriminators plainHost (final plainHost emptyCatalog [.add_evidence fullBlock])
        shortened :=
  @restored_sameOutcome_iff plainHost "task" emptyCatalog (by decide +kernel)
    [.add_evidence fullBlock] _ (by decide +kernel) shortened

end Agently.AgentTask
