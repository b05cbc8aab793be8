import Mathlib.Data.List.Find
import Agently.AgentTask.TaskReferences
import Agently.Storage.Identity.Encoding

/-! # Identities of a reference catalog

`Sound` is what the catalog keeps in every run: every record lies under its own id, ids are
numbered without repetition up to the high water, and evidence and references name each
other. It is what `from_snapshot` checks. -/

namespace Agently.AgentTask

open Agently.Utils Agently.Lib
open Agently.Storage.Identity (encode_base62 encodeDigits encodeDigits_mem encodeDigits_head
  decodeDigits decodeDigits_encodeDigits encode_base62_toList takeWhile_append_cons
  strip_of_no_space alphabet_no_space BASE62_ALPHABET)
open Agently.TaskDAGValidation (strip strOf orElse get isSpace)

def tagged (tag : String) (n : Nat) : String := tag ++ "_" ++ encode_base62 n

def tags : List String := ["evd", "ref", "bnd"]

@[irreducible]
def idNumber (id : String) : Nat :=
  match decodeDigits (fun s => s) 0 ((id.toList.dropWhile (· ≠ '_')).drop 1) with
  | .ok n => n
  | .error _ => 0

variable {tag : String}

theorem tag_chars (h : tag ∈ tags) :
    ∀ c ∈ tag.toList, isSpace c = false ∧ decide (c ≠ '_') = true := by
  have hall : tag.toList.all (fun c => !isSpace c && decide (c ≠ '_')) = true := by
    simp only [tags, List.mem_cons, List.not_mem_nil, or_false] at h
    rcases h with rfl | rfl | rfl <;> decide +kernel
  intro c hc
  have hchar := List.all_eq_true.mp hall c hc
  rwa [Bool.and_eq_true, Bool.not_eq_true'] at hchar

theorem tagged_chars (ht : tag ∈ tags) {n : Nat} (h : 0 < n) :
    (tagged tag n).toList = tag.toList ++ '_' :: encodeDigits n n ∧
      (tagged tag n).toList.takeWhile (· ≠ '_') = tag.toList ∧
      (tagged tag n).toList.dropWhile (· ≠ '_') = '_' :: encodeDigits n n := by
  have hlist : (tagged tag n).toList = tag.toList ++ '_' :: encodeDigits n n := by
    rw [tagged, String.toList_append, String.toList_append, (encode_base62_toList h).1]
    simp
  obtain ⟨htake, hdrop⟩ := @takeWhile_append_cons (fun c => decide (c ≠ '_'))
    tag.toList (encodeDigits n n) '_'
    (fun c hc => (tag_chars ht c hc).2) (by decide)
  exact ⟨hlist, by rw [hlist]; exact htake, by rw [hlist]; exact hdrop⟩

theorem decode_tagged (reprOf : String → String) (ht : tag ∈ tags) {n : Nat} (h : 0 < n) :
    decodeDigits reprOf 0 (((tagged tag n).toList.dropWhile (· ≠ '_')).drop 1) = .ok n := by
  rw [(tagged_chars ht h).2.2, List.drop_succ_cons, List.drop_zero]
  exact decodeDigits_encodeDigits reprOf n n (Nat.le_refl n)

theorem idNumber_tagged (ht : tag ∈ tags) {n : Nat} (h : 0 < n) :
    idNumber (tagged tag n) = n := by
  rw [idNumber, decode_tagged _ ht h]

theorem strip_tagged (ht : tag ∈ tags) {n : Nat} (h : 0 < n) :
    strip (tagged tag n) = tagged tag n := by
  have hspace : ∀ c ∈ (tagged tag n).toList, isSpace c = false := by
    intro c hc
    rw [(tagged_chars ht h).1] at hc
    rcases List.mem_append.mp hc with hc | hc
    · exact (tag_chars ht c hc).1
    · rcases List.mem_cons.mp hc with rfl | hc
      · decide
      · exact alphabet_no_space c (encodeDigits_mem n n c hc)
  have hs := strip_of_no_space hspace
  rwa [String.ofList_toList] at hs

theorem tagged_ne (tag : String) (n : Nat) : tagged tag n ≠ "" := by
  intro h
  have hl := congrArg (fun s => s.toList.length) h
  simp [tagged] at hl

theorem toDigits_head (n : Nat) (h : 0 < n) :
    ∃ c rest, Nat.toDigits 10 n = c :: rest ∧ c ≠ '0' := by
  induction n using Nat.strongRecOn with
  | ind n ih =>
    by_cases hlt : n < 10
    · rw [Nat.toDigits_of_lt_base hlt]
      have hall : ∀ i < 10, 0 < i → Nat.digitChar i ≠ '0' := by decide
      exact ⟨_, [], rfl, hall n hlt h⟩
    · obtain ⟨c, rest, he, hc⟩ := ih (n / 10) (by omega) (by omega)
      have hsplit := Nat.toDigits_append_toDigits (b := 10) (n := n / 10) (d := n % 10)
        (by decide) (by omega) (Nat.mod_lt n (by decide))
      have hn : 10 * (n / 10) + n % 10 = n := by omega
      rw [hn, he] at hsplit
      exact ⟨c, rest ++ Nat.toDigits 10 (n % 10), hsplit.symm, hc⟩

theorem decimal_counter_text (n : Nat) (label : String) :
    _decimal_counter (decimalText n) label = .ok n := by
  have hlist : (decimalText n).toList = Nat.toDigits 10 n := by
    rw [decimalText, String.toList_ofList]
  have hdigits : (decimalText n).toList.all Char.isDigit = true := by
    rw [hlist, List.all_eq_true]
    intro c hc
    exact Nat.isDigit_of_mem_toDigits (by decide) (by decide) hc
  by_cases h0 : n = 0
  · subst h0
    rfl
  · obtain ⟨c, rest, he, hc⟩ := toDigits_head n (by omega)
    unfold _decimal_counter
    rw [if_neg]
    · rw [hlist, Nat.ofDigitChars_ten_toDigits]
    · rintro (hempty | hall | ⟨-, hzero⟩)
      · have hnil : (decimalText n).toList = [] := by rw [hempty]; rfl
        rw [hlist, he] at hnil
        cases hnil
      · rw [hdigits] at hall
        cases hall
      · rw [hlist, he] at hzero
        exact hc (Option.some.inj hzero)

structure SoundEvidence (H : Host) (c : TaskReferenceCatalog) (id : String)
    (record : EvidenceRecord) : Prop where
  own : record.evidence_id = id
  task : record.task_id = c.task_id
  fingerprint : record.fingerprint ≠ ""
  indexed : c.fingerprints.get? record.fingerprint = some id
  joined : ∃ reference, c.references.get? record.reference_id = some reference ∧
    reference.evidence_id = id
  target : sanitized record.target = record.target

structure SoundReference (c : TaskReferenceCatalog) (id : String) (reference : ReferenceRecord) :
    Prop where
  own : reference.reference_id = id
  task : reference.task_id = c.task_id
  joined : ∃ record, c.evidence.get? reference.evidence_id = some record ∧
    record.reference_id = id

structure SoundBinding (c : TaskReferenceCatalog) (id : String) (record : BindingRecord) :
    Prop where
  own : record.binding_id = id
  task : record.task_id = c.task_id
  offered : ∀ r ∈ record.reference_ids, r ∈ c.references.keys

def idsOf (c : TaskReferenceCatalog) : List String :=
  c.evidence.keys ++ c.references.keys ++ c.bindings.keys

def Numbered (c : TaskReferenceCatalog) (tag : String) (ids : List String) : Prop :=
  ∀ id ∈ ids, ∃ n, 0 < n ∧ n ≤ c.high_water ∧ id = tagged tag n

structure Sound (H : Host) (c : TaskReferenceCatalog) : Prop where
  task : strip c.task_id = c.task_id ∧ c.task_id ≠ ""
  evidence : ∀ id record, c.evidence.get? id = some record → SoundEvidence H c id record
  reference : ∀ id record, c.references.get? id = some record → SoundReference c id record
  binding : ∀ id record, c.bindings.get? id = some record → SoundBinding c id record
  fingerprint : ∀ print id, c.fingerprints.get? print = some id → id ∈ c.evidence.keys
  evidenceNumbers : Numbered c "evd" c.evidence.keys
  referenceNumbers : Numbered c "ref" c.references.keys
  bindingNumbers : Numbered c "bnd" c.bindings.keys
  distinct : ((idsOf c).map idNumber).Nodup

section

variable {H : Host} {c : TaskReferenceCatalog}

theorem Sound.ids_nodup (h : Sound H c) : (idsOf c).Nodup := List.Nodup.of_map _ h.distinct

theorem Sound.evidence_nodup (h : Sound H c) : c.evidence.keys.Nodup :=
  (List.nodup_append.mp (List.nodup_append.mp h.ids_nodup).1).1

theorem Sound.references_nodup (h : Sound H c) : c.references.keys.Nodup :=
  (List.nodup_append.mp (List.nodup_append.mp h.ids_nodup).1).2.1

theorem Sound.bindings_nodup (h : Sound H c) : c.bindings.keys.Nodup :=
  (List.nodup_append.mp h.ids_nodup).2.1

theorem Sound.fresh_number (h : Sound H c) {n : Nat} (hn : c.high_water < n) :
    n ∉ (idsOf c).map idNumber := by
  intro hm
  obtain ⟨id, hid, rfl⟩ := List.mem_map.mp hm
  have hcases : ∃ tag ∈ tags, ∃ k, 0 < k ∧ k ≤ c.high_water ∧ id = tagged tag k := by
    simp only [idsOf, List.mem_append] at hid
    rcases hid with (hid | hid) | hid
    · exact ⟨"evd", by simp [tags], h.evidenceNumbers id hid⟩
    · exact ⟨"ref", by simp [tags], h.referenceNumbers id hid⟩
    · exact ⟨"bnd", by simp [tags], h.bindingNumbers id hid⟩
  obtain ⟨tag, htag, k, h0, hk, rfl⟩ := hcases
  rw [idNumber_tagged htag h0] at hn
  omega

theorem Sound.fresh_id (h : Sound H c) {tag : String} (ht : tag ∈ tags) {n : Nat}
    (hn : c.high_water < n) : tagged tag n ∉ idsOf c := by
  intro hm
  have hnum := h.fresh_number hn
  apply hnum
  have hi := List.mem_map_of_mem (f := idNumber) hm
  rwa [idNumber_tagged ht (by omega)] at hi

theorem evidence_get {id : String} (hid : id ∈ c.evidence.keys) :
    ∃ record, c.evidence.get? id = some record := by
  cases hg : c.evidence.get? id with
  | some record => exact ⟨record, rfl⟩
  | none => exact absurd hid (Dict.get?_eq_none_iff.mp hg)

theorem checkIdentity_tagged {tag : String} (ht : tag ∈ tags) {n : Nat} (h0 : 0 < n)
    (hle : n ≤ c.high_water) {seen : List Nat} (hs : n ∉ seen) :
    checkIdentity H c tag (tagged tag n) (tagged tag n) c.task_id seen = .ok (n :: seen) := by
  obtain ⟨hlist, htake, -⟩ := tagged_chars ht h0
  have hmem : '_' ∈ (tagged tag n).toList := by
    rw [hlist]
    simp
  unfold checkIdentity
  rw [if_neg (by simp)]
  dsimp only
  rw [if_neg, decode_tagged H.reprOf ht h0]
  · dsimp only
    rw [if_neg]
    rintro (h | h | h)
    · omega
    · omega
    · exact hs h
  · rintro (h | h)
    · exact h hmem
    · rw [htake, String.ofList_toList] at h
      exact h rfl

theorem checkIdentities_ok (xs : List (String × String × String × String)) (seen : List Nat)
    (hx : ∀ x ∈ xs, x.1 ∈ tags ∧ x.2.2.1 = x.2.1 ∧ x.2.2.2 = c.task_id ∧
      ∃ n, 0 < n ∧ n ≤ c.high_water ∧ x.2.1 = tagged x.1 n)
    (hn : (xs.map (fun x => idNumber x.2.1)).Nodup)
    (hs : ∀ x ∈ xs, idNumber x.2.1 ∉ seen) : checkIdentities H c xs seen = .ok () := by
  induction xs generalizing seen with
  | nil => rfl
  | cons x xs ih =>
    obtain ⟨tag, id, expected, task_id⟩ := x
    obtain ⟨htag, hown, htask, n, h0, hle, hid⟩ :=
      hx (tag, id, expected, task_id) List.mem_cons_self
    have hnum : idNumber id = n := by
      change id = tagged tag n at hid
      rw [hid, idNumber_tagged htag h0]
    change expected = id at hown
    change task_id = c.task_id at htask
    change id = tagged tag n at hid
    have hnot : n ∉ seen := by
      rw [← hnum]
      exact hs (tag, id, expected, task_id) List.mem_cons_self
    have hone : checkIdentity H c tag id expected task_id seen = .ok (n :: seen) := by
      rw [hown, htask, hid]
      exact checkIdentity_tagged htag h0 hle hnot
    rw [List.map_cons, List.nodup_cons] at hn
    rw [checkIdentities, hone]
    refine ih (n :: seen) (List.forall_mem_cons.mp hx).2 hn.2 ?_
    intro x hm hmem
    rcases List.mem_cons.mp hmem with he | hmem
    · have hin : idNumber x.2.1 ∈ xs.map fun x => idNumber x.2.1 :=
        List.mem_map_of_mem (f := fun x => idNumber x.2.1) hm
      rw [he, ← hnum] at hin
      exact hn.1 hin
    · exact hs x (List.mem_cons_of_mem _ hm) hmem

theorem checkEvidence_ok (xs : List (String × EvidenceRecord))
    (hx : ∀ p ∈ xs, SoundEvidence H c p.1 p.2) : checkEvidence c xs = .ok () := by
  induction xs with
  | nil => rfl
  | cons p xs ih =>
    obtain ⟨id, record⟩ := p
    have hp := hx _ List.mem_cons_self
    obtain ⟨reference, hr, hid⟩ := hp.joined
    rw [checkEvidence, if_neg, if_neg]
    · exact ih (List.forall_mem_cons.mp hx).2
    · simp [hp.fingerprint, hp.indexed]
    · simp [hr, hid]

theorem Sound.mem_evidence (h : Sound H c) {p : String × EvidenceRecord} (hp : p ∈ c.evidence) :
    SoundEvidence H c p.1 p.2 :=
  h.evidence p.1 p.2 (Dict.get?_of_mem h.evidence_nodup hp)

theorem Sound.validates (h : Sound H c) : _validate_snapshot_graph H c = .ok () := by
  have hids : (identities c).map (fun x => idNumber x.2.1) = (idsOf c).map idNumber := by
    simp [identities, idsOf, Dict.keys, Function.comp_def]
  have hcheck : checkIdentities H c (identities c) [] = .ok () := by
    refine checkIdentities_ok _ [] ?_ (hids ▸ h.distinct) (by simp)
    intro x hx
    simp only [identities, List.mem_append, List.mem_map] at hx
    rcases hx with (⟨p, hp, rfl⟩ | ⟨p, hp, rfl⟩) | ⟨p, hp, rfl⟩
    · have he := h.mem_evidence hp
      exact ⟨by simp [tags], he.own, he.task, h.evidenceNumbers _ (List.mem_map_of_mem hp)⟩
    · have hr := h.reference p.1 p.2 (Dict.get?_of_mem h.references_nodup hp)
      exact ⟨by simp [tags], hr.own, hr.task, h.referenceNumbers _ (List.mem_map_of_mem hp)⟩
    · have hb := h.binding p.1 p.2 (Dict.get?_of_mem h.bindings_nodup hp)
      exact ⟨by simp [tags], hb.own, hb.task, h.bindingNumbers _ (List.mem_map_of_mem hp)⟩
  have hevid : checkEvidence c c.evidence = .ok () :=
    checkEvidence_ok c.evidence fun p hp => h.mem_evidence hp
  have hbind : checkBindings c = .ok () := by
    unfold checkBindings
    rw [if_neg]
    simp only [List.any_eq_true, not_exists, not_and, decide_eq_true_eq, not_not]
    intro p hp r hr
    exact (h.binding p.1 p.2 (Dict.get?_of_mem h.bindings_nodup hp)).offered r hr
  unfold _validate_snapshot_graph
  rw [hcheck]
  dsimp only
  rw [hevid]
  exact hbind

def EvidenceRecord.persisted (record : EvidenceRecord) : EvidenceRecord :=
  { record with target := sanitized (sanitized (_persistent_target record.target)) }

def restored (c : TaskReferenceCatalog) : TaskReferenceCatalog :=
  { c with evidence := c.evidence.map fun p => (p.1, p.2.persisted) }

theorem get_restored (id : String) :
    (restored c).evidence.get? id = (c.evidence.get? id).map EvidenceRecord.persisted :=
  Dict.get?_mapVals EvidenceRecord.persisted c.evidence id

theorem keys_restored : (restored c).evidence.keys = c.evidence.keys := by
  simp [restored, Dict.keys, Function.comp_def]

theorem sanitized_idem (item : Item) : sanitized (sanitized item) = sanitized item :=
  Value.sanitizeEntries_idem item

theorem Sound.restored (h : Sound H c) : Sound H (restored c) := by
  refine ⟨h.task, ?_, ?_, ?_, ?_, ?_, h.referenceNumbers, h.bindingNumbers, ?_⟩
  · intro id record hr
    rw [get_restored, Option.map_eq_some_iff] at hr
    obtain ⟨r, hr, rfl⟩ := hr
    have he := h.evidence id r hr
    exact ⟨he.own, he.task, he.fingerprint, he.indexed, he.joined,
      sanitized_idem (sanitized (_persistent_target r.target))⟩
  · intro id reference hr
    have he := h.reference id reference hr
    obtain ⟨record, hrec, hid⟩ := he.joined
    refine ⟨he.own, he.task, record.persisted, ?_, hid⟩
    rw [get_restored, hrec, Option.map_some]
  · intro id record hr
    have he := h.binding id record hr
    exact ⟨he.own, he.task, he.offered⟩
  · intro print id hp
    rw [keys_restored]
    exact h.fingerprint print id hp
  · rw [keys_restored]
    exact h.evidenceNumbers
  · have hids : idsOf (AgentTask.restored c) = idsOf c := by
      unfold idsOf
      rw [keys_restored]
      rfl
    rw [hids]
    exact h.distinct

theorem Sound.from_snapshot (h : Sound H c) :
    from_snapshot H c.task_id (snapshot c) = .ok (AgentTask.restored c) := by
  unfold AgentTask.from_snapshot
  rw [if_neg (by simp [snapshot]), if_neg (by simp [snapshot])]
  have hw : _decimal_counter (snapshot c).high_water "high water" = .ok c.high_water :=
    decimal_counter_text _ _
  have hl : _decimal_counter (snapshot c).leased_capacity "leased capacity" =
      .ok c.leased_capacity := decimal_counter_text _ _
  rw [hw, hl]
  dsimp only
  rw [if_neg (by rw [h.task.1]; exact h.task.2)]
  have hcat : (snapshot c).catalog (strip c.task_id) c.high_water c.leased_capacity =
      AgentTask.restored c := by
    rw [h.task.1]
    simp [Snapshot.catalog, snapshot, AgentTask.restored, EvidenceRecord.persisted,
      Function.comp_def]
  rw [hcat, h.restored.validates]

theorem get_sanitized (item : Item) (field : String) :
    get (sanitized item) field = (get item field).sanitize := by
  unfold TaskDAGValidation.get sanitized
  rw [Value.sanitizeEntries_eq_map, Dict.get?_mapVals]
  cases Dict.get? item field <;> rfl

theorem get_set (item : Item) (key field : String) (v : Value) :
    get (Dict.set item key v) field = if key = field then v else get item field := by
  unfold TaskDAGValidation.get
  rw [Dict.get?_set]
  split <;> rfl

theorem get_project (record : EvidenceRecord) {target : Item} (ht : sanitized target = target)
    (field : String) :
    get (_project_canonical_item record target) field =
      if field = "reference_id" then .str record.reference_id
      else if field = "evidence_id" then .str record.evidence_id
      else get target field := by
  unfold _project_canonical_item
  rw [get_sanitized, get_set, get_set]
  by_cases h1 : field = "reference_id"
  · rw [if_pos h1.symm, if_pos h1]
    rfl
  · rw [if_neg (Ne.symm h1), if_neg h1]
    by_cases h2 : field = "evidence_id"
    · rw [if_pos h2.symm, if_pos h2]
      rfl
    · rw [if_neg (Ne.symm h2), if_neg h2, ← get_sanitized, ht]

theorem text_str (s : String) : text H (.str s) = strip s := by
  unfold text orElse
  by_cases h : s = ""
  · subst h
    rfl
  · rw [if_pos (by simp [Value.truthy, h])]
    rfl

theorem text_of_blank {v : Value} (h : blank v = true) : text H v = "" := by
  have hcases : v = .none ∨ v = .str "" ∨ v = .list [] ∨ v = .dict [] := by
    simpa [blank, or_assoc] using h
  rcases hcases with rfl | rfl | rfl | rfl <;> rfl

theorem get?_filterMap_keys (f : String → Option Value) (fields : List String) (field : String) :
    Dict.get? (fields.filterMap fun k => (f k).map fun v => (k, v)) field =
      if field ∈ fields then f field else none := by
  induction fields with
  | nil => rfl
  | cons k ks ih =>
    by_cases hk : k = field
    · subst hk
      cases hf : f k with
      | none =>
        rw [List.filterMap_cons_none (by rw [hf]; rfl), ih]
        simp [hf]
      | some v =>
        rw [List.filterMap_cons_some (by rw [hf]; rfl), Dict.get?_cons_self]
        simp
    · have hmem : field ∈ k :: ks ↔ field ∈ ks := by simp [Ne.symm hk]
      simp only [hmem]
      cases hf : f k with
      | none => rw [List.filterMap_cons_none (by rw [hf]; rfl), ih]
      | some v =>
        rw [List.filterMap_cons_some (by rw [hf]; rfl), Dict.get?_cons, if_neg hk, ih]

variable {record : EvidenceRecord}

theorem persistent_target_eq (target : Item) :
    _persistent_target target = persistentFields.filterMap fun k =>
      (if blank (get target k) then none else some (get target k).sanitize).map fun v => (k, v) := by
  unfold _persistent_target
  congr 1
  funext k
  split <;> rfl

theorem get_persisted (ht : sanitized record.target = record.target)
    {field : String} (hf : field ∈ persistentFields) :
    get record.persisted.target field =
      if blank (get record.target field) then .none else get record.target field := by
  have hs : (get record.target field).sanitize = get record.target field := by
    rw [← get_sanitized, ht]
  change get (sanitized (sanitized (_persistent_target record.target))) field = _
  rw [get_sanitized, get_sanitized, persistent_target_eq]
  unfold TaskDAGValidation.get at hs ⊢
  rw [get?_filterMap_keys, if_pos hf]
  split
  · rfl
  · simp only [Option.getD_some]
    rw [hs, hs, hs]

theorem blank_persisted (ht : sanitized record.target = record.target)
    {field : String} (hf : field ∈ persistentFields) :
    blank (get record.persisted.target field) = blank (get record.target field) := by
  rw [get_persisted ht hf]
  by_cases hb : blank (get record.target field) = true
  · rw [if_pos hb, hb]
    rfl
  · rw [if_neg hb]

theorem text_persisted (ht : sanitized record.target = record.target)
    (field : String) (hf : field ∈ persistentFields) :
    text H (get record.persisted.target field) = text H (get record.target field) := by
  rw [get_persisted ht hf]
  by_cases hb : blank (get record.target field) = true
  · rw [if_pos hb, text_of_blank hb]
    rfl
  · rw [if_neg hb]

theorem retarget_persisted (ht : sanitized record.target = record.target) (target : Item) :
    retarget H target record.persisted.target = retarget H target record.target := by
  have hfind : (retargetFields.find? fun field =>
      !blank (get target field) && !blank (get record.persisted.target field) &&
        !same (get target field) (get record.persisted.target field)) =
      retargetFields.find? fun field =>
        !blank (get target field) && !blank (get record.target field) &&
          !same (get target field) (get record.target field) := by
    apply List.find?_congr
    intro field hfield
    have hf : field ∈ persistentFields := by
      have hall : ∀ f ∈ retargetFields, f ∈ persistentFields := by decide +kernel
      exact hall field hfield
    rw [blank_persisted ht hf]
    by_cases hb : blank (get record.target field) = true
    · simp [hb]
    · rw [get_persisted ht hf, if_neg hb]
  have hstatus := text_persisted (H := H) ht "status" (by decide +kernel)
  have hbody := text_persisted (H := H) ht "body_state" (by decide +kernel)
  unfold retarget
  rw [hfind, hstatus, hbody]

theorem retarget_project (record : EvidenceRecord) {target : Item}
    (ht : sanitized target = target) (original : Item) :
    retarget H (_project_canonical_item record target) original = retarget H target original := by
  have hget : ∀ field, field ≠ "reference_id" → field ≠ "evidence_id" →
      get (_project_canonical_item record target) field = get target field := by
    intro field h1 h2
    rw [get_project record ht, if_neg h1, if_neg h2]
  have hfind : (retargetFields.find? fun field =>
      !blank (get (_project_canonical_item record target) field) && !blank (get original field) &&
        !same (get (_project_canonical_item record target) field) (get original field)) =
      retargetFields.find? fun field =>
        !blank (get target field) && !blank (get original field) &&
          !same (get target field) (get original field) := by
    apply List.find?_congr
    intro field hfield
    have hne : field ≠ "reference_id" ∧ field ≠ "evidence_id" := by
      have hall : ∀ f ∈ retargetFields, f ≠ "reference_id" ∧ f ≠ "evidence_id" := by
        decide +kernel
      exact hall field hfield
    rw [hget field hne.1 hne.2]
  have hlossy : _is_lossy_projection H (_project_canonical_item record target) =
      _is_lossy_projection H target := by
    unfold _is_lossy_projection
    rw [hget "cite_as" (by decide) (by decide), hget "body_truncated_for_view" (by decide) (by decide),
      hget "body_not_rendered" (by decide) (by decide)]
    simp only [List.any_cons, List.any_nil]
    rw [hget "body" (by decide) (by decide), hget "content" (by decide) (by decide),
      hget "text" (by decide) (by decide), hget "snippet" (by decide) (by decide),
      hget "preview" (by decide) (by decide)]
  unfold retarget
  rw [hfind, hlossy, hget "status" (by decide) (by decide), hget "body_state" (by decide) (by decide)]

theorem same_self (v : Value) : same v v = true := by simp [same]

theorem retarget_self (target : Item) : retarget H target target = .ok () := by
  have hfind : (retargetFields.find? fun field =>
      !blank (get target field) && !blank (get target field) &&
        !same (get target field) (get target field)) = none := by
    rw [List.find?_eq_none]
    intro field _
    simp [same_self]
  unfold retarget
  rw [hfind]
  simp

end

end Agently.AgentTask
