import Agently.TriggerFlow.InterventionLedger

/-! # What a history of interventions says

The log of an execution names every append, every point that was reached and every expiry. -/

namespace Agently.TriggerFlow.Intervention

open Agently.Lib Agently.Utils

def appendedOf (log : List Event) : List (String × Nat × Option String) :=
  log.filterMap fun e => match e with
    | .appended id version target => some (id, version, target)
    | _ => none

/-- What an event makes of the record `id`. -/
def Event.changes (id : String) : Event → List RecordStatus
  | .appended _ _ _ => []
  | .reached _ ids => List.replicate (ids.count id) .inserted
  | .answered ids => List.replicate (ids.count id) .inserted
  | .expired ids => List.replicate (ids.count id) .expired

def changesOf (log : List Event) (id : String) : List RecordStatus := log.flatMap (Event.changes id)

def RecordStatus.changes : RecordStatus → List RecordStatus
  | .pending => []
  | .inserted => [.inserted]
  | .expired => [.expired]

def recordedChanges : Option Record → List RecordStatus
  | none => []
  | some r => r.status.changes

/-- `id` was appended with a target the point selects and has not changed since. -/
def Awaits (log : List Event) (point : Point) (id : String) : Prop :=
  ∃ version target, (id, version, target) ∈ appendedOf log ∧ point.selects target = true ∧
    changesOf log id = []

def infoOf (e : String × Record) : String × String × Nat × Option String :=
  (e.1, e.2.id, e.2.version, e.2.target)

structure History (l : Ledger) (log : List Event) : Prop where
  appended : l.records.map infoOf = ((appendedOf log).map fun a => (a.1, a.1, a.2)).reverse
  ids : ((appendedOf log).map fun a => a.1).Nodup
  increasing : ((appendedOf log).map fun a => a.2.1).Pairwise fun newer older => older < newer
  bounded : ∀ a ∈ appendedOf log, a.2.1 ≤ l.version
  changes : ∀ id, changesOf log id = recordedChanges (l.records.get? id)
  points : ∀ later point ids earlier, log = later ++ .reached point ids :: earlier →
    ∀ id, id ∈ ids ↔ Awaits earlier point id

@[simp] theorem changesOf_cons (e : Event) (log : List Event) (id : String) :
    changesOf (e :: log) id = e.changes id ++ changesOf log id :=
  List.flatMap_cons

theorem appendedOf_cons (e : Event) (log : List Event) :
    appendedOf (e :: log) = appendedOf [e] ++ appendedOf log := by
  unfold appendedOf
  rw [← List.filterMap_append]
  rfl

theorem keys_of_info (records : Records) : records.keys = (records.map infoOf).map Prod.fst := by
  rw [Dict.keys, List.map_map]
  rfl

variable {l : Ledger} {log : List Event}

theorem History.nodup_keys (h : History l log) :
    l.records.keys.Nodup := by
  rw [keys_of_info, h.appended, List.map_reverse, List.nodup_reverse, List.map_map]
  exact h.ids

variable {id : String} {r : Record}

theorem History.mem_appended (h : History l log) (hr : l.records.get? id = some r) :
    r.id = id ∧ (id, r.version, r.target) ∈ appendedOf log := by
  have hmem : infoOf (id, r) ∈ l.records.map infoOf := List.mem_map_of_mem (Dict.mem_of_get? hr)
  rw [h.appended, List.mem_reverse] at hmem
  obtain ⟨a, ha, heq⟩ := List.mem_map.mp hmem
  have hid : a.1 = id := congrArg Prod.fst heq
  have hrid : a.1 = r.id := congrArg (fun x => x.2.1) heq
  have hrest : a.2 = (r.version, r.target) := congrArg (fun x => x.2.2) heq
  refine ⟨hrid.symm.trans hid, ?_⟩
  rw [← hid, ← hrest]
  exact ha

theorem History.stored (h : History l log)
    {version : Nat} {target : Option String} (ha : (id, version, target) ∈ appendedOf log) :
    ∃ r, l.records.get? id = some r ∧ r.version = version ∧ r.target = target := by
  have hmem : (id, id, version, target) ∈ l.records.map infoOf := by
    rw [h.appended, List.mem_reverse]
    exact List.mem_map_of_mem ha
  obtain ⟨e, he, heq⟩ := List.mem_map.mp hmem
  have hid : e.1 = id := congrArg Prod.fst heq
  refine ⟨e.2, ?_, congrArg (fun x => x.2.2.1) heq, congrArg (fun x => x.2.2.2) heq⟩
  rw [← hid]
  exact Dict.get?_of_mem h.nodup_keys he

theorem changes_eq_nil {s : RecordStatus} : s.changes = [] ↔ s = .pending := by
  cases s <;> simp [RecordStatus.changes]

theorem History.awaits_iff (h : History l log) {point : Point} :
    Awaits log point id ↔
      ∃ r, l.records.get? id = some r ∧ r.status = .pending ∧ point.selects r.target = true := by
  constructor
  · rintro ⟨version, target, ha, hsel, hch⟩
    obtain ⟨r, hr, -, rfl⟩ := h.stored ha
    refine ⟨r, hr, ?_, hsel⟩
    rw [h.changes, hr] at hch
    exact changes_eq_nil.mp hch
  · rintro ⟨r, hr, hp, hsel⟩
    refine ⟨r.version, r.target, (h.mem_appended hr).2, hsel, ?_⟩
    rw [h.changes, hr]
    exact changes_eq_nil.mpr hp

variable {records : Records}

theorem mem_getPending :
    r ∈ getPendingInterventions records ↔ r ∈ records.vals ∧ r.status = .pending := by
  unfold getPendingInterventions sortedInterventionRecords
  rw [List.mem_filter, decide_eq_true_eq, (List.perm_insertionSort _ _).mem_iff]

theorem History.mem_selectedIds (h : History l log) {point : Point}
    : id ∈ selectedIds l.records point ↔ Awaits log point id := by
  rw [h.awaits_iff]
  unfold selectedIds
  constructor
  · intro hid
    obtain ⟨r, hr, rfl⟩ := List.mem_map.mp hid
    obtain ⟨hr, hsel⟩ := List.mem_filter.mp hr
    obtain ⟨hval, hp⟩ := mem_getPending.mp hr
    obtain ⟨e, he, rfl⟩ := List.mem_map.mp hval
    have hget := Dict.get?_of_mem h.nodup_keys he
    refine ⟨e.2, ?_, hp, hsel⟩
    rw [(h.mem_appended hget).1]
    exact hget
  · rintro ⟨r, hr, hp, hsel⟩
    refine List.mem_map.mpr ⟨r, List.mem_filter.mpr ⟨mem_getPending.mpr ⟨?_, hp⟩, hsel⟩,
      (h.mem_appended hr).1⟩
    exact List.mem_map_of_mem (Dict.mem_of_get? hr)

theorem map_infoOf_set {new : Record}
    (hr : records.get? id = some r) (hnew : infoOf (id, new) = infoOf (id, r)) :
    (records.set id new).map infoOf = records.map infoOf := by
  induction records with
  | nil => cases hr
  | cons e rest ih =>
    obtain ⟨k, v⟩ := e
    rw [Dict.get?_cons] at hr
    rw [Dict.set]
    by_cases hk : k = id
    · rw [if_pos hk] at hr ⊢
      cases hr
      subst hk
      rw [List.map_cons, List.map_cons, hnew]
    · rw [if_neg hk] at hr ⊢
      rw [List.map_cons, List.map_cons, ih hr]

theorem History.write (h : History l log)
    {event : Event} (hinfo : records.map infoOf = l.records.map infoOf)
    (hnone : appendedOf [event] = [])
    (hchanges : ∀ id, recordedChanges (records.get? id) =
      event.changes id ++ recordedChanges (l.records.get? id))
    (hpoints : ∀ point ids, event = .reached point ids → ∀ id, id ∈ ids ↔ Awaits log point id) :
    History { l with records := records } (event :: log) := by
  have happ : appendedOf (event :: log) = appendedOf log := by
    rw [appendedOf_cons, hnone, List.nil_append]
  constructor
  · rw [happ]
    exact hinfo.trans h.appended
  · rw [happ]
    exact h.ids
  · rw [happ]
    exact h.increasing
  · rw [happ]
    exact h.bounded
  · intro id
    rw [changesOf_cons, h.changes, hchanges]
  · intro later point ids earlier hlog
    cases later with
    | nil =>
      obtain ⟨he, rfl⟩ := List.cons.inj hlog
      exact hpoints point ids he
    | cons e later =>
      obtain ⟨-, hlog⟩ := List.cons.inj hlog
      exact h.points later point ids earlier hlog

section InsertEach

variable (insertion : Insertion)

theorem insertEach_info (ids : List String) (records : Records) :
    (insertEach insertion ids records).1.map infoOf = records.map infoOf := by
  induction ids generalizing records with
  | nil => rfl
  | cons id rest ih =>
    unfold insertEach
    split
    next r hr =>
      split
      · exact (ih _).trans (map_infoOf_set hr rfl)
      · exact ih records
    next => exact ih records

theorem insertEach_mem (ids : List String) (records : Records) (k : String) :
    k ∈ (insertEach insertion ids records).2 ↔
      k ∈ ids ∧ ∃ r, records.get? k = some r ∧ r.status = .pending := by
  induction ids generalizing records with
  | nil => simp [insertEach]
  | cons id rest ih =>
    unfold insertEach
    split
    next r hr =>
      split
      next hp =>
        rw [List.mem_cons, List.mem_cons, ih]
        by_cases hk : k = id
        · subst hk
          exact iff_of_true (.inl rfl) ⟨.inl rfl, r, hr, hp⟩
        · rw [Dict.get?_set_of_ne _ _ (Ne.symm hk)]
          simp only [hk, false_or]
      next hp =>
        rw [List.mem_cons, ih]
        by_cases hk : k = id
        · subst hk
          simp [hr, hp]
        · simp only [hk, false_or]
    next hr =>
      rw [List.mem_cons, ih]
      by_cases hk : k = id
      · subst hk
        simp [hr]
      · simp only [hk, false_or]

theorem not_mem_insertEach_set (ids : List String) (records : Records) (k : String) (r : Record) :
    k ∉ (insertEach insertion ids (records.set k (r.insert insertion))).2 := by
  rw [insertEach_mem, Dict.get?_set_self]
  rintro ⟨-, r', hr', hp⟩
  cases hr'
  cases hp

theorem insertEach_changes (ids : List String) (records : Records) (k : String) :
    recordedChanges ((insertEach insertion ids records).1.get? k) =
      List.replicate ((insertEach insertion ids records).2.count k) .inserted ++
        recordedChanges (records.get? k) := by
  induction ids generalizing records with
  | nil => rfl
  | cons id rest ih =>
    unfold insertEach
    split
    next r hr =>
      split
      next hp =>
        by_cases hk : id = k
        · subst hk
          have hzero := List.count_eq_zero.mpr (not_mem_insertEach_set insertion rest records id r)
          rw [ih, List.count_cons_self, hzero, Dict.get?_set_self, hr]
          simp [recordedChanges, RecordStatus.changes, Record.insert, hp]
        · rw [ih, Dict.get?_set_of_ne _ _ hk, List.count_cons_of_ne hk]
      · exact ih records
    next => exact ih records

end InsertEach

theorem History.insert (h : History l log) (insertion : Insertion)
    {ids : List String} {event : List String → Event} (hnone : ∀ ids, appendedOf [event ids] = [])
    (hevent : ∀ ids id, (event ids).changes id = List.replicate (ids.count id) .inserted)
    (hpoints : ∀ point inserted inserted', event inserted = .reached point inserted' →
      inserted = inserted' ∧ ∀ id, id ∈ ids ↔ Awaits log point id) :
    History { l with records := (insertEach insertion ids l.records).1 }
      (event (insertEach insertion ids l.records).2 :: log) := by
  refine h.write (insertEach_info insertion ids l.records) (hnone _) ?_ ?_
  · intro id
    rw [hevent]
    exact insertEach_changes insertion ids l.records id
  · intro point inserted he id
    obtain ⟨rfl, hids⟩ := hpoints point _ _ he
    rw [insertEach_mem, hids id]
    constructor
    · exact fun hid => hid.1
    · intro hawaits
      obtain ⟨r, hr, hp, -⟩ := h.awaits_iff.mp hawaits
      exact ⟨hawaits, r, hr, hp⟩

theorem History.append (h : History l log) (record : Record)
    (hnew : record.id ∉ l.records.keys) (hversion : record.version = l.version + 1)
    (hpending : record.status = .pending) :
    History { l with version := l.version + 1, records := l.records.set record.id record }
      (.appended record.id record.version record.target :: log) := by
  have happ : appendedOf (.appended record.id record.version record.target :: log) =
      (record.id, record.version, record.target) :: appendedOf log := rfl
  have hkeys : ∀ a ∈ appendedOf log, a.1 ∈ l.records.keys := by
    intro a ha
    obtain ⟨r, hr, -⟩ := h.stored ha
    exact List.mem_map_of_mem (Dict.mem_of_get? hr)
  constructor
  · rw [happ, List.map_cons, List.reverse_cons, ← h.appended]
    show (l.records.set record.id record).map infoOf = _
    rw [Dict.set_of_not_mem hnew, List.map_append]
    rfl
  · rw [happ, List.map_cons, List.nodup_cons]
    refine ⟨?_, h.ids⟩
    intro hmem
    obtain ⟨a, ha, heq⟩ := List.mem_map.mp hmem
    have hid : a.1 = record.id := heq
    exact hnew (hid ▸ hkeys a ha)
  · rw [happ, List.map_cons, List.pairwise_cons]
    refine ⟨?_, h.increasing⟩
    intro v hv
    obtain ⟨a, ha, rfl⟩ := List.mem_map.mp hv
    have hle := h.bounded a ha
    show a.2.1 < record.version
    omega
  · intro a ha
    show a.2.1 ≤ l.version + 1
    rw [happ] at ha
    rcases List.mem_cons.mp ha with rfl | ha
    · exact hversion.le
    · have hle := h.bounded a ha
      omega
  · intro id
    rw [changesOf_cons, h.changes]
    show recordedChanges (l.records.get? id) = recordedChanges ((l.records.set record.id record).get? id)
    rw [Dict.get?_set]
    split
    next hid =>
      subst hid
      rw [Dict.get?_eq_none_iff.mpr hnew]
      simp [recordedChanges, RecordStatus.changes, hpending]
    next => rfl
  · intro later point ids earlier hlog
    cases later with
    | nil =>
      obtain ⟨he, -⟩ := List.cons.inj hlog
      cases he
    | cons e later =>
      obtain ⟨-, hlog⟩ := List.cons.inj hlog
      exact h.points later point ids earlier hlog

theorem History.consume (h : History l log) {consumer : String}
    {consumption : Consumption} (hr : l.records.get? id = some r) :
    History { l with records := l.records.set id (r.consume consumer consumption) } log := by
  have hinfo : infoOf (id, r.consume consumer consumption) = infoOf (id, r) := rfl
  refine ⟨(map_infoOf_set hr hinfo).trans h.appended, h.ids, h.increasing, h.bounded, ?_, h.points⟩
  intro k
  show changesOf log k = recordedChanges ((l.records.set id (r.consume consumer consumption)).get? k)
  rw [h.changes, Dict.get?_set]
  split
  next hk =>
    subst hk
    rw [hr]
    rfl
  next => rfl

theorem mem_pendingIds (hn : records.keys.Nodup) :
    id ∈ pendingIds records ↔ ∃ r, records.get? id = some r ∧ r.status = .pending := by
  unfold pendingIds
  constructor
  · intro hid
    obtain ⟨e, he, rfl⟩ := List.mem_map.mp hid
    obtain ⟨he, hp⟩ := List.mem_filter.mp he
    exact ⟨e.2, Dict.get?_of_mem hn he, of_decide_eq_true hp⟩
  · rintro ⟨r, hr, hp⟩
    exact List.mem_map.mpr ⟨(id, r),
      List.mem_filter.mpr ⟨Dict.mem_of_get? hr, decide_eq_true hp⟩, rfl⟩

theorem History.expire (h : History l log) (now : Nat) :
    History { l with records := expirePending l.records now }
      (.expired (pendingIds l.records) :: log) := by
  have hinfo : (expirePending l.records now).map infoOf = l.records.map infoOf := by
    unfold expirePending
    rw [List.map_map]
    refine List.map_congr_left ?_
    intro e _
    show infoOf (e.1, e.2.expire now) = infoOf e
    unfold Record.expire
    split <;> rfl
  refine h.write hinfo rfl ?_ ?_
  · intro id
    unfold expirePending
    rw [Dict.get?_mapVals]
    show recordedChanges _ = List.replicate ((pendingIds l.records).count id) .expired ++ _
    cases hr : l.records.get? id with
    | none =>
      have hzero : (pendingIds l.records).count id = 0 := by
        rw [List.count_eq_zero, mem_pendingIds h.nodup_keys]
        rintro ⟨r, hr', -⟩
        rw [hr] at hr'
        cases hr'
      rw [hzero]
      rfl
    | some r =>
      by_cases hp : r.status = .pending
      · have hone : (pendingIds l.records).count id = 1 :=
          List.count_eq_one_of_mem (h.nodup_keys.sublist (List.filter_sublist.map _))
            ((mem_pendingIds h.nodup_keys).mpr ⟨r, hr, hp⟩)
        rw [hone]
        simp [recordedChanges, RecordStatus.changes, Record.expire, hp]
      · have hzero : (pendingIds l.records).count id = 0 := by
          rw [List.count_eq_zero, mem_pendingIds h.nodup_keys]
          rintro ⟨r', hr', hp'⟩
          rw [hr] at hr'
          cases hr'
          exact hp hp'
        rw [hzero]
        simp [recordedChanges, Record.expire, hp]
  · intro point ids he
    cases he

theorem le_restoredVersion (saved : Ledger) : saved.version ≤ restoredVersion saved := by
  unfold restoredVersion
  generalize saved.records.vals = rs
  generalize saved.version = v
  induction rs generalizing v with
  | nil => exact le_rfl
  | cons r rest ih => exact (le_max_left v r.version).trans (ih _)

theorem History.restore (h : History l log)
    (policy : Option String) : History (restore l policy) log where
  appended := h.appended
  ids := h.ids
  increasing := h.increasing
  bounded := fun a ha => (h.bounded a ha).trans (le_restoredVersion l)
  changes := h.changes
  points := h.points

structure StateHistory (s : State) : Prop where
  current : History s.ledger s.log
  saved : ∀ e ∈ s.saved, History e.1 e.2

theorem stateHistory_start (mode : Option Mode) (policy : Option String) :
    StateHistory (start mode policy) where
  current :=
    { appended := rfl
      ids := List.nodup_nil
      increasing := List.Pairwise.nil
      bounded := List.forall_mem_nil _
      changes := fun _ => rfl
      points := by
        intro later point ids earlier hlog
        cases later <;> cases hlog }
  saved := List.forall_mem_nil _

variable {s : State}

theorem StateHistory.insertInterventions (h : StateHistory s) {ids : List String}
    (insertion : Insertion) {event : List String → Event}
    (hnone : ∀ ids, appendedOf [event ids] = [])
    (hevent : ∀ ids id, (event ids).changes id = List.replicate (ids.count id) .inserted)
    (hpoints : ∀ point inserted inserted', event inserted = .reached point inserted' →
      inserted = inserted' ∧ ∀ id, id ∈ ids ↔ Awaits s.log point id) :
    StateHistory (insertInterventions s ids insertion event) :=
  ⟨h.current.insert insertion hnone hevent hpoints, h.saved⟩

theorem StateHistory.reach (h : StateHistory s) (point : Point) (insertion : Insertion) :
    StateHistory (Intervention.insertInterventions s (selectedIds s.ledger.records point) insertion
      (.reached point)) := by
  refine h.insertInterventions insertion (fun _ => rfl) (fun _ _ => rfl) ?_
  intro point' inserted inserted' he
  cases he
  exact ⟨rfl, fun id => h.current.mem_selectedIds⟩

theorem stateHistory_step {t : State} {a : Action} (h : StateHistory s) (ht : step s a = some t) :
    StateHistory t := by
  cases a with
  | intervene args freshId now =>
    change (if freshId ∈ s.ledger.records.keys then none else some _) = some t at ht
    split at ht
    · cases ht
    next hnew =>
      cases ht
      unfold intervene
      split
      · exact h
      · split
        · exact h
        · exact ⟨h.current.append (pendingRecord s.ledger args freshId now) hnew rfl rfl, h.saved⟩
  | reachPoint target operator signal now =>
    cases ht
    unfold reachPoint
    split
    · exact h.reach _ _
    · exact h
  | dispatch operator signal now =>
    cases operator with
    | none =>
      cases ht
      exact h
    | some operator =>
      cases ht
      unfold applyAuto
      split
      · split
        · split
          · exact h
          · exact ⟨h.current, h.saved⟩
        · exact h.reach _ _
      · exact h
  | answer index ids now =>
    have ht' : answerPolicy s index ids now = some t := ht
    unfold answerPolicy at ht'
    split at ht'
    · cases ht'
    next asked _ =>
      have hrest : StateHistory { s with asked := s.asked.eraseIdx index } :=
        ⟨h.current, h.saved⟩
      cases ids with
      | none =>
        cases ht'
        exact hrest
      | some ids =>
        cases ht'
        refine hrest.insertInterventions _ (fun _ => rfl) (fun _ _ => rfl) ?_
        intro point inserted inserted' he
        cases he
  | consume interventionId consumer consumption =>
    cases ht
    unfold markInterventionConsumed
    split
    · exact h
    · split
      · exact h
      next r hr => exact ⟨h.current.consume hr, h.saved⟩
  | expire now =>
    cases ht
    exact ⟨h.current.expire now, h.saved⟩
  | setLifecycle isOpen =>
    cases ht
    exact ⟨⟨h.current.appended, h.current.ids, h.current.increasing, h.current.bounded,
      h.current.changes, h.current.points⟩, h.saved⟩
  | save =>
    cases ht
    refine ⟨h.current, ?_⟩
    intro e he
    rcases List.mem_append.mp he with he | he
    · exact h.saved e he
    · rw [List.mem_singleton.mp he]
      exact h.current
  | load index policy =>
    obtain ⟨e, he, rfl⟩ := Option.map_eq_some_iff.mp ht
    exact ⟨(h.saved e (List.mem_of_getElem? he)).restore policy, h.saved⟩

theorem step_log {t : State} {a : Action} (ha : ∀ index policy, a ≠ .load index policy)
    (ht : step s a = some t) : ∃ more, t.log = more ++ s.log := by
  cases a with
  | intervene args freshId now =>
    change (if freshId ∈ s.ledger.records.keys then none else some _) = some t at ht
    split at ht
    · cases ht
    · cases ht
      unfold State.after
      split
      · exact ⟨_, rfl⟩
      · exact ⟨[], rfl⟩
  | reachPoint target operator signal now =>
    cases ht
    unfold reachPoint
    split
    · exact ⟨[_], rfl⟩
    · exact ⟨[], rfl⟩
  | dispatch operator signal now =>
    cases operator with
    | none =>
      cases ht
      exact ⟨[], rfl⟩
    | some operator =>
      cases ht
      unfold applyAuto
      split
      · split
        · split
          · exact ⟨[], rfl⟩
          · exact ⟨[], rfl⟩
        · exact ⟨[_], rfl⟩
      · exact ⟨[], rfl⟩
  | answer index ids now =>
    have ht' : answerPolicy s index ids now = some t := ht
    unfold answerPolicy at ht'
    split at ht'
    · cases ht'
    · cases ids with
      | none =>
        cases ht'
        exact ⟨[], rfl⟩
      | some ids =>
        cases ht'
        exact ⟨[_], rfl⟩
  | consume interventionId consumer consumption =>
    cases ht
    unfold State.after
    split
    · exact ⟨[], rfl⟩
    · exact ⟨[], rfl⟩
  | expire now =>
    cases ht
    exact ⟨[_], rfl⟩
  | setLifecycle isOpen =>
    cases ht
    exact ⟨[], rfl⟩
  | save =>
    cases ht
    exact ⟨[], rfl⟩
  | load index policy => exact absurd rfl (ha index policy)

theorem appendedOf_append (more log : List Event) :
    appendedOf (more ++ log) = appendedOf more ++ appendedOf log :=
  List.filterMap_append

theorem changesOf_append (more log : List Event) (id : String) :
    changesOf (more ++ log) id = changesOf more id ++ changesOf log id :=
  List.flatMap_append

theorem length_recordedChanges (r : Option Record) : (recordedChanges r).length ≤ 1 := by
  cases r with
  | none => exact Nat.zero_le 1
  | some r =>
    show r.status.changes.length ≤ 1
    cases r.status with
    | pending => exact Nat.zero_le 1
    | inserted => exact le_rfl
    | expired => exact le_rfl

theorem History.changes_once (h : History l log) (id : String) :
    (changesOf log id).length ≤ 1 := by
  rw [h.changes]
  exact length_recordedChanges _

theorem changes_injective {s t : RecordStatus} (h : s.changes = t.changes) : s = t := by
  cases s <;> cases t <;> simp_all [RecordStatus.changes]

theorem History.moves {m : Ledger} {more : List Event} (h : History l log)
    (h' : History m (more ++ log)) (hr : l.records.get? id = some r) :
    ∃ r', m.records.get? id = some r' ∧ r'.version = r.version ∧ r'.target = r.target ∧
      (r.status ≠ .pending → r'.status = r.status) := by
  have ha : (id, r.version, r.target) ∈ appendedOf (more ++ log) := by
    rw [appendedOf_append]
    exact List.mem_append_right _ (h.mem_appended hr).2
  obtain ⟨r', hr', hversion, htarget⟩ := h'.stored ha
  refine ⟨r', hr', hversion, htarget, ?_⟩
  intro hp
  have hbefore : changesOf log id = r.status.changes := by
    rw [h.changes, hr]
    rfl
  have hafter : changesOf more id ++ r.status.changes = r'.status.changes := by
    rw [← hbefore, ← changesOf_append, h'.changes, hr']
    rfl
  have hlen : (changesOf more id ++ r.status.changes).length ≤ 1 := by
    rw [hafter]
    exact length_recordedChanges (some r')
  have hone : r.status.changes ≠ [] := fun hnil => hp (changes_eq_nil.mp hnil)
  have hmore : changesOf more id = [] := by
    have hpos := List.length_pos_of_ne_nil hone
    rw [List.length_append] at hlen
    exact List.length_eq_zero_iff.mp (by omega)
  rw [hmore, List.nil_append] at hafter
  exact changes_injective hafter.symm

def reviewOperator : Operator := { id := "op-1", name := some "review", kind := "chunk" }

def toReview : InterveneArgs := { payload := .str "check it", target := some "review" }

def insertedOnce : List Action :=
  [.intervene toReview "i-1" 0, .reachPoint (some "review") none .none 1,
    .reachPoint (some "review") none .none 2]

def insertedState : State :=
  (machine.run (start (some .planned) none) insertedOnce).getD (start none none)

end Agently.TriggerFlow.Intervention
