import Agently.AgentTask.StableReferences

/-! # Stable task references

In every run of a catalog the ids given out are distinct, evidence and references correspond,
every snapshot is accepted and a call that raises changes nothing. That an item once returned
is taken again holds while no item is joined to a record it contradicts: carried ids are
checked against the stored target, the other ways to a record are not. -/

namespace Agently.AgentTask

open Agently.Utils Agently.Lib
open Agently.TaskDAGValidation (strip strip_strip strOf get)

variable (H : Host)

def final (c : TaskReferenceCatalog) : List Operation → TaskReferenceCatalog
  | [] => c
  | operation :: rest => final (take H c operation).after rest

/-- The ids a step has given out: those it answers with when it has drawn numbers. -/
def allocated (t : Transition) : List String :=
  if t.after.high_water = t.before.high_water then []
  else
    match t.answer with
    | .ok (.item item) => [text H (get item "evidence_id"), text H (get item "reference_id")]
    | .ok (.binding record) => [record.binding_id]
    | _ => []

def OneToOne (c : TaskReferenceCatalog) : Prop :=
  (∀ id record, c.evidence.get? id = some record →
    (c.references.get? record.reference_id).map ReferenceRecord.evidence_id = some id) ∧
  ∀ id reference, c.references.get? id = some reference →
    (c.evidence.get? reference.evidence_id).map EvidenceRecord.reference_id = some id

def TakenAgain (c : TaskReferenceCatalog) (item : Item) : Prop :=
  ∃ again, add_evidence H item c = .ok again c ∧
    get again "evidence_id" = get item "evidence_id" ∧
    get again "reference_id" = get item "reference_id"

structure StableIdentities (c₀ : TaskReferenceCatalog) (ops : List Operation) : Prop where
  distinct : ((history H c₀ ops).flatMap (allocated H)).Nodup
  correspond : ∀ done, done <+: ops → OneToOne (final H c₀ done)
  accepted : ∀ done, done <+: ops →
    ∃ c', from_snapshot H (final H c₀ done).task_id (snapshot (final H c₀ done)) = .ok c'
  unchanged : ∀ t ∈ history H c₀ ops, ∀ e, t.answer = .error e → t.after = t.before
  taken : ∀ done item later, done ++ .add_evidence item :: later <+: ops →
    ∀ returned, (take H (final H c₀ done) (.add_evidence item)).answer = .ok (.item returned) →
      TakenAgain H (final H c₀ (done ++ .add_evidence item :: later)) returned

def JoinsFaithfully (c : TaskReferenceCatalog) (item : Item) : Prop :=
  ¬ Carried H (sanitized item) →
    ∀ record, joinedRecord H c (sanitized item) = some record →
      retarget H (sanitized item) record.target = .ok ()

def Kept (c c' : TaskReferenceCatalog) : Prop :=
  ∀ id record, c.evidence.get? id = some record →
    ∃ record', c'.evidence.get? id = some record' ∧
      record'.reference_id = record.reference_id ∧
      ∀ target, retarget H target record'.target = retarget H target record.target

def Drawn (low high : Nat) (ids : List String) : Prop :=
  ∀ id ∈ ids, ∃ tag ∈ tags, ∃ n, low < n ∧ n ≤ high ∧ id = tagged tag n

variable {H} {c c' c'' : TaskReferenceCatalog}

theorem Kept.refl (c : TaskReferenceCatalog) : Kept H c c :=
  fun _ record h => ⟨record, h, rfl, fun _ => rfl⟩

theorem Kept.trans (h : Kept H c c') (h' : Kept H c' c'') : Kept H c c'' := by
  intro id record hr
  obtain ⟨r1, hr1, href1, hret1⟩ := h id record hr
  obtain ⟨r2, hr2, href2, hret2⟩ := h' id r1 hr1
  exact ⟨r2, hr2, href2.trans href1, fun target => (hret2 target).trans (hret1 target)⟩

theorem kept_added (h : Sound H c) (target : Item) : Kept H c (added H c target) := by
  intro id record hr
  refine ⟨record, ?_, rfl, fun _ => rfl⟩
  change (Dict.set c.evidence _ _).get? id = some record
  rw [Dict.get?_set_of_ne, hr]
  intro he
  subst he
  rw [Dict.get?_eq_none_iff.mpr (fresh_evidence h)] at hr
  cases hr

theorem kept_restored (h : Sound H c) : Kept H c (restored c) := by
  intro id record hr
  refine ⟨record.persisted, by rw [get_restored, hr, Option.map_some], rfl, fun target => ?_⟩
  exact retarget_persisted (h.evidence id record hr).target target

theorem Drawn.mono {low high low' high' : Nat} {ids : List String} (h : Drawn low high ids)
    (hl : low' ≤ low) (hh : high ≤ high') : Drawn low' high' ids := by
  intro id hid
  obtain ⟨tag, htag, n, h1, h2, he⟩ := h id hid
  exact ⟨tag, htag, n, by omega, by omega, he⟩

theorem Drawn.disjoint {low mid high : Nat} {xs ys : List String} (hx : Drawn low mid xs)
    (hy : Drawn mid high ys) : List.Disjoint xs ys := by
  intro id h1 h2
  obtain ⟨tag, htag, n, hl, hm, rfl⟩ := hx id h1
  obtain ⟨tag', htag', n', hl', -, he⟩ := hy _ h2
  have hnum := congrArg idNumber he
  rw [idNumber_tagged htag (by omega), idNumber_tagged htag' (by omega)] at hnum
  omega

theorem perform_add_evidence (c : TaskReferenceCatalog) (item : Item) :
    perform H c (.add_evidence item) = mapOutcome .item (add_evidence H item c) := rfl

theorem perform_cases (h : Sound H c) (operation : Operation) :
    (∃ e, perform H c operation = .error e c) ∨
    (∃ a, perform H c operation = .ok a c) ∨
    (∃ item, operation = .add_evidence item ∧ ¬ Carried H (sanitized item) ∧
      joinedRecord H c (sanitized item) = none ∧
      c.fingerprints.get? (_evidence_fingerprint H (sanitized item)) = none ∧
      perform H c operation = .ok
        (.item (_project_canonical_item (newEvidence H c (sanitized item)) (sanitized item)))
        (added H c (sanitized item))) ∨
    (∃ subject ids role, operation = .bind subject ids role ∧
      (∀ id ∈ ids.map strip, id ∈ c.references.keys) ∧
      perform H c operation = .ok
        (.binding ⟨tagged "bnd" (c.high_water + 1), c.task_id, strip subject, ids.map strip,
          role.getD ""⟩) (bound c subject (ids.map strip) role)) ∨
    (operation = .reload ∧ perform H c operation = .ok .reloaded (restored c)) := by
  cases operation with
  | add_evidence item =>
    rcases add_evidence_cases h item with ⟨-, e, he⟩ | ⟨record, -, he, -⟩ | ⟨hc, hj, hp, he⟩
    · exact .inl ⟨e, by rw [perform_add_evidence, he, mapOutcome]⟩
    · exact .inr (.inl ⟨_, by rw [perform_add_evidence, he, mapOutcome]⟩)
    · exact .inr (.inr (.inl ⟨item, rfl, hc, hj, hp, by rw [perform_add_evidence, he, mapOutcome]⟩))
  | bind subject ids role =>
    rcases bind_cases c subject ids role with ⟨e, he⟩ | ⟨hids, he⟩
    · exact .inl ⟨e, congrArg (mapOutcome Answer.binding) he⟩
    · exact .inr (.inr (.inr (.inl ⟨subject, ids, role, rfl, hids, congrArg (mapOutcome Answer.binding) he⟩)))
  | offer_reference id role =>
    have hsame : ∃ r : Except Fault ReferenceRecord, offer_reference id role c =
        match r with
        | .error e => .error e c
        | .ok reference => .ok reference c := by
      unfold offer_reference
      split
      · exact ⟨.error _, rfl⟩
      · split
        · exact ⟨.error _, rfl⟩
        · rename_i reference _
          split
          · exact ⟨.error _, rfl⟩
          · cases hr : _require_role reference role with
            | error e => exact ⟨.error e, rfl⟩
            | ok u => exact ⟨.ok reference, rfl⟩
    obtain ⟨r | r, hr⟩ := hsame
    · exact .inl ⟨r, congrArg (mapOutcome Answer.offered) hr⟩
    · exact .inr (.inl ⟨.offered r, congrArg (mapOutcome Answer.offered) hr⟩)
  | resolve id task_id =>
    let resolvedAs : ReferenceRecord × Item → Answer := fun p => .resolved p.1 p.2
    have hsame : ∃ r : Except Fault (ReferenceRecord × Item), resolve id task_id c =
        match r with
        | .error e => .error e c
        | .ok found => .ok found c := by
      unfold resolve
      split
      · exact ⟨.error _, rfl⟩
      · split
        · exact ⟨.error _, rfl⟩
        · split
          · exact ⟨.error _, rfl⟩
          · split
            · exact ⟨.error _, rfl⟩
            · exact ⟨.ok (_, _), rfl⟩
    obtain ⟨r | r, hr⟩ := hsame
    · exact .inl ⟨r, congrArg (mapOutcome resolvedAs) hr⟩
    · exact .inr (.inl ⟨.resolved r.1 r.2, congrArg (mapOutcome resolvedAs) hr⟩)
  | reload =>
    refine .inr (.inr (.inr (.inr ⟨rfl, ?_⟩)))
    rw [perform, h.from_snapshot]

structure Steady (t : Transition) : Prop where
  sound : Sound H t.after
  kept : Kept H t.before t.after
  rising : t.before.high_water ≤ t.after.high_water
  drawn : Drawn t.before.high_water t.after.high_water (allocated H t)
  distinct : (allocated H t).Nodup
  unchanged : ∀ e, t.answer = .error e → t.after = t.before

theorem allocated_still {t : Transition} (ht : t.after = t.before) : allocated H t = [] := by
  unfold allocated
  rw [if_pos (by rw [ht])]

theorem steady_still (h : Sound H c) {t : Transition} (hb : t.before = c) (ha : t.after = c) :
    Steady (H := H) t := by
  have hsame : t.after = t.before := ha.trans hb.symm
  refine ⟨ha ▸ h, ?_, ?_, ?_, ?_, fun _ _ => hsame⟩
  · rw [hsame]
    exact Kept.refl _
  · rw [hsame]
  · rw [allocated_still hsame]
    exact fun id hid => absurd hid List.not_mem_nil
  · rw [allocated_still hsame]
    exact List.nodup_nil

theorem text_project (record : EvidenceRecord) {target : Item} (ht : sanitized target = target) :
    text H (get (_project_canonical_item record target) "evidence_id") =
        strip record.evidence_id ∧
      text H (get (_project_canonical_item record target) "reference_id") =
        strip record.reference_id := by
  constructor
  · rw [get_project record ht, if_neg (by decide), if_pos rfl, text_str]
  · rw [get_project record ht, if_pos rfl, text_str]

theorem take_steady (h : Sound H c) (operation : Operation) :
    Steady (H := H) (take H c operation) := by
  have htag : "evd" ∈ tags ∧ "ref" ∈ tags ∧ "bnd" ∈ tags := by simp [tags]
  unfold take
  rcases perform_cases h operation with ⟨e, he⟩ | ⟨a, he⟩ | ⟨item, -, hc, hj, hp, he⟩ |
    ⟨subject, ids, role, -, hids, he⟩ | ⟨-, he⟩
  · rw [he]
    exact steady_still h rfl rfl
  · rw [he]
    exact steady_still h rfl rfl
  · rw [he]
    have hsan : sanitized (sanitized item) = sanitized item := sanitized_idem item
    obtain ⟨htext, htext'⟩ := text_project (H := H) (newEvidence H c (sanitized item)) hsan
    have hw : (added H c (sanitized item)).high_water = c.high_water + 2 := rfl
    have hids : allocated H ⟨c, operation,
        .ok (.item (_project_canonical_item (newEvidence H c (sanitized item)) (sanitized item))),
        added H c (sanitized item)⟩ =
        [tagged "evd" (c.high_water + 1), tagged "ref" (c.high_water + 2)] := by
      unfold allocated
      dsimp only
      rw [if_neg (by omega), htext, htext']
      change [strip (tagged "evd" (c.high_water + 1)), strip (tagged "ref" (c.high_water + 2))] = _
      rw [strip_tagged htag.1 (Nat.succ_pos _), strip_tagged htag.2.1 (Nat.succ_pos _)]
    refine ⟨h.added hsan hp, kept_added h _, Nat.le_add_right _ 2, ?_, ?_,
      by intro e he; cases he⟩
    · rw [hids]
      intro id hid
      rcases List.mem_cons.mp hid with rfl | hid
      · exact ⟨"evd", htag.1, _, Nat.lt_succ_self _, by dsimp only; omega, rfl⟩
      · rw [List.mem_singleton] at hid
        exact ⟨"ref", htag.2.1, c.high_water + 2, by dsimp only; omega, Nat.le_refl _, hid⟩
    · rw [hids]
      refine List.nodup_cons.mpr ⟨?_, List.nodup_singleton _⟩
      rw [List.mem_singleton]
      intro heq
      have hnum := congrArg idNumber heq
      rw [idNumber_tagged htag.1 (Nat.succ_pos _), idNumber_tagged htag.2.1 (Nat.succ_pos _)] at hnum
      omega
  · rw [he]
    have hw : (bound c subject (ids.map strip) role).high_water = c.high_water + 1 := rfl
    have hids' : allocated H ⟨c, operation,
        .ok (.binding ⟨tagged "bnd" (c.high_water + 1), c.task_id, strip subject, ids.map strip,
          role.getD ""⟩), bound c subject (ids.map strip) role⟩ =
        [tagged "bnd" (c.high_water + 1)] := by
      unfold allocated
      dsimp only
      rw [if_neg (by omega)]
    refine ⟨h.bound subject role hids, Kept.refl _, Nat.le_succ _, ?_, ?_, by intro e he; cases he⟩
    · rw [hids']
      intro id hid
      rw [List.mem_singleton] at hid
      exact ⟨"bnd", htag.2.2, c.high_water + 1, Nat.lt_succ_self _, Nat.le_refl _, hid⟩
    · rw [hids']
      exact List.nodup_singleton _
  · rw [he]
    have hids : allocated H ⟨c, operation, .ok .reloaded, restored c⟩ = [] := by
      unfold allocated
      exact if_pos rfl
    refine ⟨h.restored, kept_restored h, Nat.le_refl _, ?_, ?_, by intro e he; cases he⟩
    · rw [hids]
      exact fun id hid => absurd hid List.not_mem_nil
    · rw [hids]
      exact List.nodup_nil

theorem take_before (operation : Operation) : (take H c operation).before = c := by
  unfold take
  split <;> rfl

theorem final_append (c : TaskReferenceCatalog) (xs ys : List Operation) :
    final H c (xs ++ ys) = final H (final H c xs) ys := by
  induction xs generalizing c with
  | nil => rfl
  | cons x xs ih => exact ih _

theorem Sound.run (h : Sound H c) (ops : List Operation) :
    Sound H (final H c ops) ∧ Kept H c (final H c ops) ∧
      c.high_water ≤ (final H c ops).high_water := by
  induction ops generalizing c with
  | nil => exact ⟨h, Kept.refl c, Nat.le_refl _⟩
  | cons operation rest ih =>
    have hs := take_steady h operation
    have hb := take_before (H := H) (c := c) operation
    obtain ⟨h1, h2, h3⟩ := ih hs.sound
    refine ⟨h1, (hb ▸ hs.kept).trans h2, Nat.le_trans ?_ h3⟩
    have hr := hs.rising
    rwa [hb] at hr

theorem Sound.history_steady (h : Sound H c) (ops : List Operation) :
    ∀ t ∈ history H c ops, Steady (H := H) t := by
  induction ops generalizing c with
  | nil => exact fun t ht => absurd ht List.not_mem_nil
  | cons operation rest ih =>
    intro t ht
    rcases List.mem_cons.mp ht with rfl | ht
    · exact take_steady h operation
    · exact ih (take_steady h operation).sound t ht

theorem Sound.history_drawn (h : Sound H c) (ops : List Operation) :
    Drawn c.high_water (final H c ops).high_water ((history H c ops).flatMap (allocated H)) := by
  induction ops generalizing c with
  | nil => exact fun id hid => absurd hid List.not_mem_nil
  | cons operation rest ih =>
    have hs := take_steady h operation
    have hb := take_before (H := H) (c := c) operation
    have hfirst := hs.drawn
    have hrise := hs.rising
    rw [hb] at hfirst hrise
    have hlast := (hs.sound.run rest).2.2
    intro id hid
    rw [history, List.flatMap_cons] at hid
    rcases List.mem_append.mp hid with hid | hid
    · exact hfirst.mono (Nat.le_refl _) hlast id hid
    · exact (ih hs.sound).mono hrise (Nat.le_refl _) id hid

theorem Sound.history_nodup (h : Sound H c) (ops : List Operation) :
    ((history H c ops).flatMap (allocated H)).Nodup := by
  induction ops generalizing c with
  | nil => exact List.nodup_nil
  | cons operation rest ih =>
    have hs := take_steady h operation
    rw [history, List.flatMap_cons, List.nodup_append']
    exact ⟨hs.distinct, ih hs.sound, hs.drawn.disjoint (hs.sound.history_drawn rest)⟩

theorem Sound.oneToOne (h : Sound H c) : OneToOne c := by
  constructor
  · intro id record hr
    obtain ⟨reference, href, hid⟩ := (h.evidence id record hr).joined
    rw [href, Option.map_some, hid]
  · intro id reference hr
    obtain ⟨record, hrec, hid⟩ := (h.reference id reference hr).joined
    rw [hrec, Option.map_some, hid]

theorem takenAgain_iff (h : Sound H c) {record stored : EvidenceRecord} {target : Item}
    (ht : sanitized target = target) (hr : c.evidence.get? record.evidence_id = some stored)
    (href : stored.reference_id = record.reference_id) :
    TakenAgain H c (_project_canonical_item record target) ↔
      retarget H target stored.target = .ok () := by
  have hs := h.evidence _ _ hr
  obtain ⟨reference, hreference, hback⟩ := hs.joined
  have hmem : record.evidence_id ∈ c.evidence.keys := by
    by_contra hn
    rw [Dict.get?_eq_none_iff.mpr hn] at hr
    cases hr
  have hrmem : stored.reference_id ∈ c.references.keys := by
    by_contra hn
    rw [Dict.get?_eq_none_iff.mpr hn] at hreference
    cases hreference
  obtain ⟨n, hn, -, hid⟩ := h.evidenceNumbers _ hmem
  obtain ⟨m, hm, -, hrid⟩ := h.referenceNumbers _ hrmem
  obtain ⟨htext, htext'⟩ := text_project (H := H) record ht
  have hstrip : strip record.evidence_id = record.evidence_id := by
    rw [hid]
    exact strip_tagged (by simp [tags]) hn
  have hstrip' : strip record.reference_id = record.reference_id := by
    rw [← href, hrid]
    exact strip_tagged (by simp [tags]) hm
  have hne : record.evidence_id ≠ "" := by
    rw [hid]
    exact tagged_ne _ _
  have hne' : record.reference_id ≠ "" := by
    rw [← href, hrid]
    exact tagged_ne _ _
  have hsan : sanitized (_project_canonical_item record target) =
      _project_canonical_item record target := sanitized_idem _
  have hcarried : Carried H (sanitized (_project_canonical_item record target)) := by
    left
    rw [hsan, htext, hstrip]
    exact hne
  have hadd : (∀ e, retarget H target stored.target = .error e →
        add_evidence H (_project_canonical_item record target) c = .error e c) ∧
      (retarget H target stored.target = .ok () →
        add_evidence H (_project_canonical_item record target) c =
          .ok (_project_canonical_item stored (_project_canonical_item record target)) c) := by
    rw [add_evidence_carried hcarried, hsan, htext, htext', hstrip, hstrip']
    unfold _resolve_supplied_identity
    rw [if_neg (by simp [hne, hne']), hr, ← href, hreference]
    dsimp only
    rw [if_neg (by simp [hback]), retarget_project record ht]
    exact ⟨fun e he => by rw [he], fun he => by rw [he]⟩
  unfold TakenAgain
  cases hret : retarget H target stored.target with
  | error e =>
    rw [hadd.1 e hret]
    constructor
    · rintro ⟨again, he, -⟩
      cases he
    · intro he
      cases he
  | ok u =>
    rw [hadd.2 hret]
    refine ⟨fun _ => rfl, fun _ => ⟨_, rfl, ?_, ?_⟩⟩
    · rw [get_project stored hsan, get_project record ht, if_neg (by decide), if_pos rfl,
        if_neg (by decide), if_pos rfl, hs.own]
    · rw [get_project stored hsan, get_project record ht, if_pos rfl, if_pos rfl, href]

theorem returned_cases (h : Sound H c) {item returned : Item}
    (ha : (take H c (.add_evidence item)).answer = .ok (.item returned)) :
    ∃ record stored, returned = _project_canonical_item record (sanitized item) ∧
      (take H c (.add_evidence item)).after.evidence.get? record.evidence_id = some stored ∧
      stored.reference_id = record.reference_id ∧
      (retarget H (sanitized item) stored.target = .ok () ↔ JoinsFaithfully H c item) := by
  have hsan : sanitized (sanitized item) = sanitized item := sanitized_idem item
  unfold take at ha ⊢
  rw [perform_add_evidence] at ha ⊢
  rcases add_evidence_cases h item with ⟨-, e, he⟩ | ⟨record, hget, he, hway⟩ | ⟨hc, hj, hp, he⟩
  · rw [he] at ha
    cases ha
  · rw [he] at ha ⊢
    have hret := Answer.item.inj (Except.ok.inj ha)
    refine ⟨record, record, hret.symm, hget, rfl, ?_⟩
    rcases hway with ⟨hc, hok⟩ | ⟨hc, hj⟩
    · exact ⟨fun _ hn => absurd hc hn, fun _ => hok⟩
    · constructor
      · intro hok _ r hr
        rw [hj] at hr
        cases hr
        exact hok
      · intro hf
        exact hf hc record hj
  · rw [he] at ha ⊢
    have hret := Answer.item.inj (Except.ok.inj ha)
    refine ⟨newEvidence H c (sanitized item), newEvidence H c (sanitized item), hret.symm,
      Dict.get?_set_self _ _ _, rfl, ?_⟩
    constructor
    · intro _ _ r hr
      rw [hj] at hr
      cases hr
    · intro _
      exact retarget_self (sanitized item)

theorem new_sound {task_id : String} (h : TaskReferenceCatalog.new task_id = .ok c) :
    Sound H c := by
  unfold TaskReferenceCatalog.new at h
  split at h
  · cases h
  · rename_i hne
    cases h
    refine ⟨⟨?_, hne⟩, ?_, ?_, ?_, ?_, ?_, ?_, ?_, List.nodup_nil⟩
    · exact strip_strip task_id
    · intro id r hr
      cases hr
    · intro id r hr
      cases hr
    · intro id r hr
      cases hr
    · intro id r hr
      cases hr
    · exact fun id hid => absurd hid List.not_mem_nil
    · exact fun id hid => absurd hid List.not_mem_nil
    · exact fun id hid => absurd hid List.not_mem_nil

/-- Identities are stable in a run exactly when no item without ids is joined in it to a
record that contradicts the item. -/
theorem stableIdentities_iff {task_id : String} (h : TaskReferenceCatalog.new task_id = .ok c)
    (ops : List Operation) :
    StableIdentities H c ops ↔
      ∀ done item, done ++ [.add_evidence item] <+: ops →
        JoinsFaithfully H (final H c done) item := by
  have hsound : Sound H c := new_sound h
  have hstep : ∀ done item later,
      final H c (done ++ .add_evidence item :: later) =
        final H (take H (final H c done) (.add_evidence item)).after later := by
    intro done item later
    rw [final_append, final]
  constructor
  · intro hs done item hprefix
    have hd := (hsound.run done).1
    cases ha : (take H (final H c done) (.add_evidence item)).answer with
    | error e =>
      -- only carried ids are refused
      intro hc
      rcases add_evidence_cases hd item with ⟨hc', -⟩ | ⟨record, -, he, -⟩ | ⟨-, -, -, he⟩
      · exact absurd hc' hc
      · unfold take at ha
        rw [perform_add_evidence, he] at ha
        cases ha
      · unfold take at ha
        rw [perform_add_evidence, he] at ha
        cases ha
    | ok answer =>
      have hitem : ∃ returned, answer = .item returned := by
        unfold take at ha
        rw [perform_add_evidence] at ha
        cases hadd : add_evidence H item (final H c done) with
        | error e c' =>
          rw [hadd] at ha
          cases ha
        | ok returned c' =>
          rw [hadd] at ha
          exact ⟨returned, (Except.ok.inj ha).symm⟩
      obtain ⟨returned, rfl⟩ := hitem
      obtain ⟨record, stored, rfl, hget, href, hiff⟩ := returned_cases hd ha
      have htaken := hs.taken done item [] hprefix _ ha
      rw [hstep] at htaken
      have hafter := (take_steady hd (.add_evidence item)).sound
      exact hiff.mp ((takenAgain_iff hafter (sanitized_idem item) hget href).mp htaken)
  · intro hfaithful
    refine ⟨hsound.history_nodup ops, fun done _ => (hsound.run done).1.oneToOne,
      fun done _ => ⟨_, (hsound.run done).1.from_snapshot⟩,
      fun t ht => (hsound.history_steady ops t ht).unchanged, ?_⟩
    intro done item later hprefix returned ha
    have hd := (hsound.run done).1
    obtain ⟨record, stored, rfl, hget, href, hiff⟩ := returned_cases hd ha
    have hjoin : JoinsFaithfully H (final H c done) item := by
      refine hfaithful done item (List.IsPrefix.trans ⟨later, ?_⟩ hprefix)
      rw [List.append_assoc]
      rfl
    have hafter := (take_steady hd (.add_evidence item)).sound
    obtain ⟨hlast, hkept, -⟩ := hafter.run later
    obtain ⟨stored', hget', href', hret⟩ := hkept _ stored hget
    rw [hstep]
    refine (takenAgain_iff hlast (sanitized_idem item) hget' (href'.trans href)).mpr ?_
    rw [hret]
    exact hiff.mpr hjoin

def plainHost : Host where
  strOf _ := ""
  reprOf s := s
  lower s := s
  dumps item := "\x7b" ++ String.intercalate "," (item.map fun p =>
    "\"" ++ p.1 ++ "\":\"" ++ strOf (fun _ => "") p.2 ++ "\"") ++ "\x7d"
  sha256 content :=
    if content = "\x7b\"id\":\"a\"\x7d" then
      "8489a5deb454a360345c7868bca8672de92b446caf3d3b014af6a56e3d549d30"
    else if content = "\x7b\"body\":\"full\",\"id\":\"a\",\"sha256\":\"x\"\x7d" then
      "697a34162d5c25de0d53b4f35b1b078076ab24d34a859fb2ef840dcc2781b3bc"
    else
      "0be8e340942a2cd34caccd7f2a54a43c33747a446a6d880c1cdeb49fe37cdff1"
  sha256_ne content := by
    split
    · decide
    · split <;> decide

def rebound : List Operation :=
  [.add_evidence [("id", .str "a"), ("binding_id", .str "b1")],
    .add_evidence [("id", .str "a"), ("binding_id", .str "b2")]]

def reboundItem : Item :=
  [("id", .str "a"), ("binding_id", .str "b2"), ("evidence_id", .str "evd_1"),
    ("reference_id", .str "ref_2")]

def emptyCatalog : TaskReferenceCatalog := { task_id := "task" }

theorem rebound_item_refused : ¬ StableIdentities plainHost emptyCatalog rebound := by
  intro h
  have htaken := h.taken [.add_evidence [("id", .str "a"), ("binding_id", .str "b1")]]
    [("id", .str "a"), ("binding_id", .str "b2")] [] (List.prefix_refl _) reboundItem
    (by decide +kernel)
  obtain ⟨again, hadd, -⟩ := htaken
  change add_evidence plainHost reboundItem (final plainHost emptyCatalog rebound) = _ at hadd
  have hanswer : (take plainHost (final plainHost emptyCatalog rebound)
      (.add_evidence reboundItem)).answer = .ok (.item again) := by
    unfold take
    rw [perform_add_evidence, hadd]
    rfl
  have herror : (take plainHost (final plainHost emptyCatalog rebound)
      (.add_evidence reboundItem)).answer = .error (retargeted "binding_id") := by
    decide +kernel
  rw [herror] at hanswer
  cases hanswer

theorem stableIdentities_iff_rebound :
    StableIdentities plainHost emptyCatalog rebound ↔
      ∀ done item, done ++ [.add_evidence item] <+: rebound →
        JoinsFaithfully plainHost (final plainHost emptyCatalog done) item :=
  @stableIdentities_iff plainHost emptyCatalog "task" (by decide +kernel) rebound

end Agently.AgentTask
