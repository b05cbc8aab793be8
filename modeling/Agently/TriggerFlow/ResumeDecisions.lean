import Agently.TriggerFlow.SnapshotProjection

/-! # Resume decisions across a projected snapshot

Source: `TriggerFlow/SnapshotProjection.py`, `TriggerFlow/ExecutionInterrupts.py`. A request whose
value was replaced by its digest is told from another by its JSON text where the value itself was
compared with `==`. -/

namespace Agently.TriggerFlow.SnapshotProjection

open Agently.Lib Agently.Utils Agently.Utils.Json

section Projection

variable (floatValue : FloatText → ℚ) (sha256 : String → Sha256Hex)
  (reprOf : Json → {s : String // s ≠ ""})

theorem isValueDigestProjection_digestProjection (v : Json) :
    isValueDigestProjection (digestProjection sha256 v) = true := by
  simp [isValueDigestProjection, digestProjection, Json.get?, isStr]

theorem validate_digestProjection (v : Json) :
    validateValueDigestProjection (digestProjection sha256 v) =
      .ok ((sha256 v.canonicalText).val, (canonicalBytes v : Int)) := by
  have hp := isValueDigestProjection_digestProjection sha256 v
  have hn : ¬ ((canonicalBytes v : Int) < 0) := by omega
  unfold validateValueDigestProjection
  rw [hp]
  simp [digestProjection, Json.get?, Dict.get?, isStr, triggerFlowValueProjectionKey,
    (sha256 v.canonicalText).property, hn]

theorem projectValue_idempotent (policy : ProjectionPolicy) :
    (projectValue sha256 policy).Idempotent := by
  intro v w m h
  by_cases hp : isValueDigestProjection v = true
  · have hv := h
    unfold projectValue at h
    rw [if_pos hp] at h
    cases hd : validateValueDigestProjection v with
    | error e =>
      rw [hd] at h
      cases h
    | ok p =>
      obtain ⟨digest, n⟩ := p
      rw [hd] at h
      obtain ⟨rfl, -⟩ := Prod.mk.inj (Except.ok.inj h)
      exact hv
  · have hv := h
    unfold projectValue at h
    rw [if_neg hp] at h
    by_cases hm : policy.terminalValueMode ≠ "digest"
    · rw [if_pos hm] at h
      obtain ⟨rfl, -⟩ := Prod.mk.inj (Except.ok.inj h)
      exact hv
    · rw [if_neg hm] at h
      by_cases hb : (canonicalBytes v : Int) < policy.minValueBytes
      · rw [if_pos hb] at h
        obtain ⟨rfl, -⟩ := Prod.mk.inj (Except.ok.inj h)
        exact hv
      · rw [if_neg hb] at h
        obtain ⟨rfl, rfl⟩ := Prod.mk.inj (Except.ok.inj h)
        unfold projectValue
        rw [if_pos (isValueDigestProjection_digestProjection sha256 v),
          validate_digestProjection sha256 v]

variable {policy : ProjectionPolicy} {v w : Json} {m : Counts}

theorem isNull_projectValue
    (hv : isNull v = false) (h : projectValue sha256 policy v = .ok (w, m)) :
    isNull w = false := by
  unfold projectValue at h
  split at h
  · cases hd : validateValueDigestProjection v with
    | error e =>
      rw [hd] at h
      cases h
    | ok p =>
      rw [hd] at h
      obtain ⟨rfl, -⟩ := Prod.mk.inj (Except.ok.inj h)
      exact hv
  · split at h
    · obtain ⟨rfl, -⟩ := Prod.mk.inj (Except.ok.inj h)
      exact hv
    · split at h
      · obtain ⟨rfl, -⟩ := Prod.mk.inj (Except.ok.inj h)
        exact hv
      · obtain ⟨rfl, -⟩ := Prod.mk.inj (Except.ok.inj h)
        rfl

theorem projectHeld_idempotent (policy : ProjectionPolicy) :
    (projectHeld sha256 policy).Idempotent := by
  apply Edit.guarded_idempotent (projectValue_idempotent sha256 policy)
  intro v w m hv h
  have hn : isNull v = false := by simpa using hv
  simp [isNull_projectValue sha256 hn h]

theorem projectRequest_idempotent (policy : ProjectionPolicy) :
    (projectRequest sha256 policy).Idempotent := by
  apply Edit.guarded_idempotent (atKey_idempotent (projectHeld_idempotent sha256 policy))
  intro r r' m hr h
  have hs := get?_atKey_of_ne (l := "status") h (by decide)
  rw [isCompletedRequest, hs]
  exact hr

theorem terminalInterruptEdits_nodup (policy : ProjectionPolicy) :
    ((terminalInterruptEdits sha256 policy).map Prod.fst).Nodup := by
  simp [terminalInterruptEdits]

theorem projectTerminalInterrupt_idempotent (policy : ProjectionPolicy) :
    (projectTerminalInterrupt sha256 policy).Idempotent := by
  apply atKeys_idempotent (terminalInterruptEdits_nodup sha256 policy)
  have hheld := projectHeld_idempotent sha256 policy
  intro e he
  simp only [terminalInterruptEdits, List.mem_cons, List.not_mem_nil, or_false] at he
  rcases he with rfl | rfl | rfl | rfl | rfl
  · exact hheld
  · exact hheld
  · exact hheld
  · exact atKey_idempotent (atKey_idempotent hheld)
  · exact atValues_idempotent (projectRequest_idempotent sha256 policy)

variable {i j : Json}

theorem isTerminal_projectTerminalInterrupt
    (h : projectTerminalInterrupt sha256 policy i = .ok (j, m)) :
    isTerminalInterrupt j = isTerminalInterrupt i := by
  have hs := get?_atKeys_of_not_mem (l := "status") h (by simp [terminalInterruptEdits])
  rw [isTerminalInterrupt, isTerminalInterrupt, hs]

theorem projectInterrupts_idempotent (policy : ProjectionPolicy) :
    (projectInterrupts sha256 policy).Idempotent := by
  apply atValues_idempotent
  apply Edit.guarded_idempotent (projectTerminalInterrupt_idempotent sha256 policy)
  intro i j m hi h
  exact (isTerminal_projectTerminalInterrupt sha256 h).trans hi

theorem isTerminal_guarded
    (h : Edit.guarded isTerminalInterrupt (projectTerminalInterrupt sha256 policy) i = .ok (j, m)) :
    isTerminalInterrupt j = isTerminalInterrupt i := by
  unfold Edit.guarded at h
  split at h
  · exact isTerminal_projectTerminalInterrupt sha256 h
  · obtain ⟨rfl, -⟩ := Prod.mk.inj (Except.ok.inj h)
    rfl

theorem terminalEntries_each {kvs lvs : List (String × Json)}
    (h : Edit.each (atEntry (Edit.guarded isTerminalInterrupt
      (projectTerminalInterrupt sha256 policy))) kvs = .ok (lvs, m)) :
    (lvs.filter fun p => isTerminalInterrupt p.2).map Prod.fst =
      (kvs.filter fun p => isTerminalInterrupt p.2).map Prod.fst := by
  induction kvs generalizing lvs m with
  | nil =>
    obtain ⟨rfl, -⟩ := Prod.mk.inj (Except.ok.inj h)
    rfl
  | cons p rest ih =>
    obtain ⟨q, zs, m₁, m₂, h₁, h₂, rfl, -⟩ := Edit.each_cons_eq_ok.mp h
    obtain ⟨hk, hq⟩ := atEntry_eq_ok.mp h₁
    have ht := isTerminal_guarded sha256 hq
    have hrest := ih h₂
    rw [List.filter_cons, List.filter_cons, ht]
    split
    · rw [List.map_cons, List.map_cons, hk, hrest]
    · exact hrest

theorem terminalInterruptIds_projectInterrupts
    (h : projectInterrupts sha256 policy i = .ok (j, m)) :
    terminalInterruptIds j = terminalInterruptIds i := by
  cases i with
  | obj kvs =>
    obtain ⟨lvs, he, rfl⟩ := atValues_eq_ok.mp h
    exact terminalEntries_each sha256 he
  | _ =>
    obtain ⟨rfl, -⟩ := Prod.mk.inj (Except.ok.inj h)
    rfl

theorem get?_filterMap {ks : List String} (hn : ks.Nodup) (g : String → Option Json) (k : String) :
    Dict.get? (ks.filterMap fun l => (g l).map fun v => (l, v)) k =
      if k ∈ ks then g k else none := by
  induction ks with
  | nil => rfl
  | cons l ks ih =>
    have hn' : l ∉ ks ∧ ks.Nodup := List.nodup_cons.mp hn
    have hrest := ih hn'.2
    by_cases hk : k = l
    · subst hk
      rw [if_neg hn'.1] at hrest
      cases hg : g k with
      | none => simp [hg, hrest]
      | some v => simp [hg]
    · have hlk : ¬ l = k := fun e => hk e.symm
      have hm : (k ∈ l :: ks) = (k ∈ ks) := by simp [hk]
      cases hg : g l with
      | none => simpa [hg, hk] using hrest
      | some v => simpa [hg, Dict.get?_cons, hlk, hk] using hrest

theorem interruptSummary_idem (i : Json) : interruptSummary (interruptSummary i) = interruptSummary i := by
  have hk : ∀ k ∈ summaryKeys, kept (interruptSummary i) k = kept i k := by
    intro k hk
    have hg : (interruptSummary i).get? k = kept i k := by
      have hn : summaryKeys.Nodup := by decide
      have h := get?_filterMap hn (kept i) k
      rw [if_pos hk] at h
      exact h
    rw [kept, hg, kept, Option.filter_filter]
    simp
  have hf : (summaryKeys.filterMap fun k => (kept (interruptSummary i) k).map fun v => (k, v)) =
      summaryKeys.filterMap fun k => (kept i k).map fun v => (k, v) := by
    apply List.filterMap_congr
    intro k hkm
    rw [hk k hkm]
  exact congrArg Json.obj hf

theorem truthy_str (s : String) : truthy floatValue (.str s) = decide (s ≠ "") := rfl

theorem pyStr_ne_empty (h : truthy floatValue v = true) : pyStr reprOf v ≠ "" := by
  cases v with
  | str s => simpa [truthy, pyStr] using h
  | _ => exact (reprOf _).property

theorem textOr_cons_of_empty {a : Option Json} {rest : List (Option Json)}
    (h : textOr floatValue reprOf (a :: rest) = "") :
    textOr floatValue reprOf rest = textOr floatValue reprOf (a :: rest) := by
  cases a with
  | none => rfl
  | some v =>
    by_cases hv : truthy floatValue v = true
    · rw [textOr, if_pos hv] at h
      exact absurd h (pyStr_ne_empty floatValue reprOf hv)
    · rw [textOr, if_neg hv]

theorem textOr_written (a : Option Json) (rest : List (Option Json)) :
    textOr floatValue reprOf (some (.str (textOr floatValue reprOf (a :: rest))) :: rest) =
      textOr floatValue reprOf (a :: rest) := by
  by_cases he : textOr floatValue reprOf (a :: rest) = ""
  · have hr := textOr_cons_of_empty floatValue reprOf he
    rw [he] at hr ⊢
    simpa [textOr, truthy_str] using hr
  · rw [textOr, truthy_str, if_pos (by simpa using he)]
    rfl

theorem projectResumeMeta_eq_ok {ids : List String}
    (h : projectResumeMeta floatValue sha256 reprOf policy ids j = .ok (i, m)) :
    (i = j ∧ m = 0) ∨
      ∃ resume value, j.get? "resume" = some (.obj resume) ∧
        resumedInterruptId floatValue reprOf j resume ∈ ids ∧
        projectValue sha256 policy ((Dict.get? resume "value").getD .null) = .ok (value, m) ∧
        i = setKey j "resume" (.obj (projectedResume floatValue reprOf j resume value)) := by
  unfold projectResumeMeta at h
  split at h
  · next resume hr =>
    split at h
    · next hm =>
      cases hv : projectValue sha256 policy ((Dict.get? resume "value").getD .null) with
      | error e =>
        rw [hv] at h
        cases h
      | ok p =>
        obtain ⟨value, n⟩ := p
        rw [hv] at h
        obtain ⟨rfl, rfl⟩ := Prod.mk.inj (Except.ok.inj h)
        exact .inr ⟨resume, value, hr, hm, hv, rfl⟩
    · obtain ⟨rfl, rfl⟩ := Prod.mk.inj (Except.ok.inj h)
      exact .inl ⟨rfl, rfl⟩
  · obtain ⟨rfl, rfl⟩ := Prod.mk.inj (Except.ok.inj h)
    exact .inl ⟨rfl, rfl⟩

theorem projectResumeMeta_of_mem {ids : List String} {value : Json}
    {resume : List (String × Json)} (hr : j.get? "resume" = some (.obj resume))
    (hm : resumedInterruptId floatValue reprOf j resume ∈ ids)
    (hv : projectValue sha256 policy ((Dict.get? resume "value").getD .null) = .ok (value, m)) :
    projectResumeMeta floatValue sha256 reprOf policy ids j =
      .ok (setKey j "resume" (.obj (projectedResume floatValue reprOf j resume value)), m) := by
  unfold projectResumeMeta
  simp only [hr, if_pos hm, hv]

theorem projectedResume_again (j : Json) (resume : List (String × Json)) (value w : Json) :
    let i := setKey j "resume" w
    let written := projectedResume floatValue reprOf j resume value
    resumedInterruptId floatValue reprOf i written = resumedInterruptId floatValue reprOf j resume ∧
      projectedResume floatValue reprOf i written value = written := by
  intro i written
  have hi : i.get? "interrupt_id" = j.get? "interrupt_id" :=
    get?_setKey_of_ne j w (by decide)
  have hrr : i.get? "resume_request_id" = j.get? "resume_request_id" :=
    get?_setKey_of_ne j w (by decide)
  have ha : i.get? "actor_id" = j.get? "actor_id" := get?_setKey_of_ne j w (by decide)
  have hw : Dict.get? written "interrupt_id" =
      some (.str (resumedInterruptId floatValue reprOf j resume)) := rfl
  have hs : Dict.get? written "interrupt" =
      some (interruptSummary ((Dict.get? resume "interrupt").getD .null)) := rfl
  have hid : resumedInterruptId floatValue reprOf i written =
      resumedInterruptId floatValue reprOf j resume := by
    rw [resumedInterruptId, hw, hi]
    exact textOr_written floatValue reprOf _ _
  refine ⟨hid, ?_⟩
  rw [projectedResume, hid, hrr, ha, hs, Option.getD_some, interruptSummary_idem]
  rfl

theorem projectResumeMeta_idempotent (policy : ProjectionPolicy) (ids : List String) :
    (projectResumeMeta floatValue sha256 reprOf policy ids).Idempotent := by
  intro j i m h
  rcases projectResumeMeta_eq_ok floatValue sha256 reprOf h with ⟨rfl, rfl⟩ | hw
  · exact h
  · obtain ⟨resume, value, hr, hid, hv, rfl⟩ := hw
    have hself := get?_setKey_self (j := j) (k := "resume")
      (.obj (projectedResume floatValue reprOf j resume value)) hr
    obtain ⟨hsid, hsr⟩ := projectedResume_again floatValue reprOf j resume value
      (.obj (projectedResume floatValue reprOf j resume value))
    have hvv := projectValue_idempotent sha256 policy _ _ _ hv
    have hid' : resumedInterruptId floatValue reprOf (setKey j "resume"
        (.obj (projectedResume floatValue reprOf j resume value)))
          (projectedResume floatValue reprOf j resume value) ∈ ids := hsid.symm ▸ hid
    have hval : projectValue sha256 policy
        ((Dict.get? (projectedResume floatValue reprOf j resume value) "value").getD .null) =
          .ok (value, m) := hvv
    have hagain := projectResumeMeta_of_mem floatValue sha256 reprOf hself hid' hval
    rw [hagain, hsr, setKey_same hself]

theorem projectTerminalSignalAttempts_idempotent (policy : ProjectionPolicy) (ids : List String) :
    (projectTerminalSignalAttempts floatValue sha256 reprOf policy ids).Idempotent := by
  apply atKey_idempotent
  apply atItems_idempotent
  apply Edit.guarded_idempotent
  · exact atKey_idempotent (projectResumeMeta_idempotent floatValue sha256 reprOf policy ids)
  · intro a b m ha hb
    have hs := get?_atKey_of_ne (l := "status") hb (by decide)
    rw [isTerminalAttempt, hs]
    exact ha

theorem projectNet_idempotent (policy : ProjectionPolicy) (ids : List String) :
    (Edit.guarded (fun _ => policy.projectTerminalSignalAttempts)
      (projectTerminalSignalAttempts floatValue sha256 reprOf policy ids)).Idempotent :=
  Edit.guarded_idempotent (projectTerminalSignalAttempts_idempotent floatValue sha256 reprOf
    policy ids) fun _ _ _ hx _ => by simpa using hx

variable {interrupts : Json}

theorem project_idempotent {signalNet projected net : Json}
    {executionIdle : Bool} {state : ProjectionState}
    (h : project floatValue sha256 reprOf policy interrupts signalNet executionIdle =
      .ok (projected, net, state)) :
    project floatValue sha256 reprOf policy projected net executionIdle =
      .ok (projected, net, state) := by
  have h' := h
  unfold project at h
  by_cases he : policy.enabled = false
  · rw [if_pos he] at h
    obtain ⟨rfl, hrest⟩ := Prod.mk.inj (Except.ok.inj h)
    obtain ⟨rfl, -⟩ := Prod.mk.inj hrest
    exact h'
  · rw [if_neg he] at h
    by_cases hi : executionIdle = false
    · rw [if_pos hi] at h
      obtain ⟨rfl, hrest⟩ := Prod.mk.inj (Except.ok.inj h)
      obtain ⟨rfl, -⟩ := Prod.mk.inj hrest
      exact h'
    · rw [if_neg hi] at h
      cases hp : projectInterrupts sha256 policy interrupts with
      | error e =>
        simp only [hp] at h
        cases h
      | ok p =>
        obtain ⟨i, m⟩ := p
        simp only [hp] at h
        cases hn : Edit.guarded (fun _ => policy.projectTerminalSignalAttempts)
            (projectTerminalSignalAttempts floatValue sha256 reprOf policy
              (terminalInterruptIds interrupts)) signalNet with
        | error e =>
          simp only [hn] at h
          cases h
        | ok q =>
          obtain ⟨n, k⟩ := q
          simp only [hn] at h
          obtain ⟨rfl, hrest⟩ := Prod.mk.inj (Except.ok.inj h)
          obtain ⟨rfl, rfl⟩ := Prod.mk.inj hrest
          have hids := terminalInterruptIds_projectInterrupts sha256 hp
          have hpp := projectInterrupts_idempotent sha256 policy _ _ _ hp
          have hnn := projectNet_idempotent floatValue sha256 reprOf policy _ _ _ _ hn
          unfold project
          rw [if_neg he, if_neg hi]
          simp only [hpp, hids, hnn]

def requestRecord (interrupts : Json) (id rid : String) : Option Json :=
  ((interrupts.get? id).bind fun interrupt => interrupt.get? "resume_requests").bind
    fun requests => requests.get? rid

def keepsDigest (policy : ProjectionPolicy) (v : Json) : Bool :=
  !isNull v && !isValueDigestProjection v && policy.terminalValueMode == "digest" &&
    decide (policy.minValueBytes ≤ (canonicalBytes v : Int))

def requestKeepsDigest (policy : ProjectionPolicy) (record : Json) : Bool :=
  isCompletedRequest record && keepsDigest policy ((record.get? "value").getD .null)

/-- The request `rid` of `id` is one whose value a snapshot of an idle execution replaces. -/
def isDigested (policy : ProjectionPolicy) (interrupts : Json) (executionIdle : Bool)
    (id : String) (record : Json) : Bool :=
  policy.enabled && executionIdle && (interrupts.get? id).any isTerminalInterrupt &&
    requestKeepsDigest policy record

theorem projectHeld_eq (h : projectHeld sha256 policy v = .ok (w, m)) :
    w = if keepsDigest policy v then digestProjection sha256 v else v := by
  unfold projectHeld Edit.guarded at h
  by_cases hn : isNull v = true
  · simp only [hn, Bool.not_true, Bool.false_eq_true, if_false] at h
    obtain ⟨rfl, -⟩ := Prod.mk.inj (Except.ok.inj h)
    simp [keepsDigest, hn]
  · have hn' : isNull v = false := by simpa using hn
    simp only [hn', Bool.not_false, if_true] at h
    unfold projectValue at h
    by_cases hp : isValueDigestProjection v = true
    · rw [if_pos hp] at h
      cases hd : validateValueDigestProjection v with
      | error e =>
        rw [hd] at h
        cases h
      | ok p =>
        rw [hd] at h
        obtain ⟨rfl, -⟩ := Prod.mk.inj (Except.ok.inj h)
        simp [keepsDigest, hp]
    · rw [if_neg hp] at h
      have hp' : isValueDigestProjection v = false := by simpa using hp
      by_cases hm : policy.terminalValueMode ≠ "digest"
      · rw [if_pos hm] at h
        obtain ⟨rfl, -⟩ := Prod.mk.inj (Except.ok.inj h)
        simp [keepsDigest, hm]
      · rw [if_neg hm] at h
        have hm' : policy.terminalValueMode = "digest" := by simpa using hm
        by_cases hb : (canonicalBytes v : Int) < policy.minValueBytes
        · rw [if_pos hb] at h
          obtain ⟨rfl, -⟩ := Prod.mk.inj (Except.ok.inj h)
          simp [keepsDigest, hb]
        · rw [if_neg hb] at h
          obtain ⟨rfl, -⟩ := Prod.mk.inj (Except.ok.inj h)
          have hb' : policy.minValueBytes ≤ (canonicalBytes v : Int) := by omega
          simp [keepsDigest, hn', hp', hm', hb']

variable {record : Json}

theorem projectRequest_eq {record' : Json}
    (h : projectRequest sha256 policy record = .ok (record', m)) :
    record' = if requestKeepsDigest policy record then
      setKey record "value" (digestProjection sha256 ((record.get? "value").getD .null))
    else record := by
  unfold projectRequest Edit.guarded at h
  by_cases hc : isCompletedRequest record = true
  · rw [if_pos hc] at h
    rcases atKey_eq_ok.mp h with ⟨hv, rfl, -⟩ | ⟨v, w, hv, hw, rfl⟩
    · simp [requestKeepsDigest, hv, keepsDigest, isNull]
    · rw [projectHeld_eq sha256 hw, requestKeepsDigest, hc, hv]
      simp only [Bool.true_and, Option.getD_some]
      split
      · rfl
      · exact setKey_same hv
  · rw [if_neg hc] at h
    obtain ⟨rfl, -⟩ := Prod.mk.inj (Except.ok.inj h)
    simp [requestKeepsDigest, hc]

theorem requestRecord_eq_some {id rid : String} :
    requestRecord interrupts id rid = some record ↔
      ∃ interrupt requests, interrupts.get? id = some interrupt ∧
        interrupt.get? "resume_requests" = some requests ∧ requests.get? rid = some record := by
  unfold requestRecord
  cases interrupts.get? id with
  | none => simp
  | some interrupt =>
    cases hr : interrupt.get? "resume_requests" with
    | none => simp [hr]
    | some requests => simp [hr]

theorem get?_projectInterrupts {projected : Json}
    {id rid : String} (h : projectInterrupts sha256 policy interrupts = .ok (projected, m))
    (hr : requestRecord interrupts id rid = some record) :
    requestRecord projected id rid = some
      (if (interrupts.get? id).any isTerminalInterrupt && requestKeepsDigest policy record then
        setKey record "value" (digestProjection sha256 ((record.get? "value").getD .null))
      else record) := by
  obtain ⟨interrupt, requests, hi, hq, hrec⟩ := requestRecord_eq_some.mp hr
  obtain ⟨interrupt', n, hg, hi'⟩ := get?_atValues h hi
  rw [hi, Option.any_some]
  unfold Edit.guarded at hg
  by_cases ht : isTerminalInterrupt interrupt = true
  · rw [if_pos ht] at hg
    obtain ⟨requests', n', hq', hg'⟩ := get?_atKeys_of_mem (k := "resume_requests")
      (f := atValues (projectRequest sha256 policy))
      (terminalInterruptEdits_nodup sha256 policy) (by simp [terminalInterruptEdits]) hg hq
    obtain ⟨record', n'', hrec', hg''⟩ := get?_atValues hq' hrec
    rw [ht, Bool.true_and, ← projectRequest_eq sha256 hrec']
    exact requestRecord_eq_some.mpr ⟨interrupt', requests', hi', hg', hg''⟩
  · rw [if_neg ht] at hg
    obtain ⟨rfl, -⟩ := Prod.mk.inj (Except.ok.inj hg)
    simp only [ht, Bool.false_and, Bool.false_eq_true, if_false]
    exact requestRecord_eq_some.mpr ⟨interrupt, requests, hi', hq, hrec⟩

theorem requestRecord_project {signalNet projected net : Json} {executionIdle : Bool}
    {state : ProjectionState} {id rid : String}
    (h : project floatValue sha256 reprOf policy interrupts signalNet executionIdle =
      .ok (projected, net, state))
    (hr : requestRecord interrupts id rid = some record) :
    requestRecord projected id rid = some
      (if isDigested policy interrupts executionIdle id record then
        setKey record "value" (digestProjection sha256 ((record.get? "value").getD .null))
      else record) := by
  unfold project at h
  by_cases he : policy.enabled = false
  · rw [if_pos he] at h
    obtain ⟨rfl, -⟩ := Prod.mk.inj (Except.ok.inj h)
    simpa [isDigested, he] using hr
  · rw [if_neg he] at h
    by_cases hi : executionIdle = false
    · rw [if_pos hi] at h
      obtain ⟨rfl, -⟩ := Prod.mk.inj (Except.ok.inj h)
      simpa [isDigested, hi] using hr
    · rw [if_neg hi] at h
      have he' : policy.enabled = true := by simpa using he
      have hi' : executionIdle = true := by simpa using hi
      cases hp : projectInterrupts sha256 policy interrupts with
      | error e =>
        simp only [hp] at h
        cases h
      | ok p =>
        obtain ⟨i, m⟩ := p
        simp only [hp] at h
        cases hn : Edit.guarded (fun _ => policy.projectTerminalSignalAttempts)
            (projectTerminalSignalAttempts floatValue sha256 reprOf policy
              (terminalInterruptIds interrupts)) signalNet with
        | error e =>
          simp only [hn] at h
          cases h
        | ok q =>
          simp only [hn] at h
          obtain ⟨rfl, -⟩ := Prod.mk.inj (Except.ok.inj h)
          have hrec := get?_projectInterrupts sha256 hp hr
          simpa only [isDigested, he', hi', Bool.true_and] using hrec

theorem valueMatchesDigestProjection_eq (hsha : sha256 v.canonicalText = sha256 w.canonicalText →
      v.canonicalText = w.canonicalText) :
    valueMatchesDigestProjection sha256 w (digestProjection sha256 v) = .ok true ∧ Same v w ∨
      valueMatchesDigestProjection sha256 w (digestProjection sha256 v) = .ok false ∧
        ¬ Same v w := by
  unfold valueMatchesDigestProjection
  rw [validate_digestProjection]
  by_cases hs : Same v w
  · have ht := (canonicalText_eq_iff v w).mpr hs
    exact .inl ⟨by simp [canonicalBytes, ht], hs⟩
  · have ht : ¬ v.canonicalText = w.canonicalText := fun e => hs ((canonicalText_eq_iff v w).mp e)
    have hd : ¬ (sha256 w.canonicalText).val = (sha256 v.canonicalText).val :=
      fun e => ht (hsha (Subtype.ext e.symm))
    exact .inr ⟨by simp [hd], hs⟩

/-- A digest decides as the value did, unless the two values are equal for `==` only. -/
theorem sameResumeRequestValue_digest (hv : v.WellFormed)
    (hw : w.WellFormed) (hg : record.get? "value" = some v)
    (hp : isValueDigestProjection v = false)
    (hsha : sha256 v.canonicalText = sha256 w.canonicalText →
      v.canonicalText = w.canonicalText) :
    sameResumeRequestValue floatValue sha256 (setKey record "value" (digestProjection sha256 v)) w =
        sameResumeRequestValue floatValue sha256 record w ↔
      (v.pyEq floatValue w = true → Same v w) := by
  have hset := get?_setKey_self (digestProjection sha256 v) hg
  have hmem : sameResumeRequestValue floatValue sha256 record w = .ok (v.pyEq floatValue w) := by
    simp [sameResumeRequestValue, hg, hp]
  have hres : sameResumeRequestValue floatValue sha256
      (setKey record "value" (digestProjection sha256 v)) w =
        valueMatchesDigestProjection sha256 w (digestProjection sha256 v) := by
    simp [sameResumeRequestValue, hset, isValueDigestProjection_digestProjection]
  rw [hmem, hres]
  rcases valueMatchesDigestProjection_eq sha256 hsha with ⟨hm, hs⟩ | ⟨hm, hs⟩
  · have heq := pyEq_of_same floatValue v w hv hw hs
    rw [hm, heq]
    simp [hs]
  · rw [hm]
    cases hpy : v.pyEq floatValue w with
    | true => simp [hs]
    | false => simp

/-- Projecting twice is projecting once, and the record of a request decides on a later value
as it did before, exactly when its digest does not stand for a value that is `==` to the
later one without being the same JSON value. -/
theorem projection_keeps_decisions (policy : ProjectionPolicy)
    (interrupts signalNet projected net : Json) (executionIdle : Bool) (state : ProjectionState)
    (hwf : interrupts.WellFormed)
    (h : project floatValue sha256 reprOf policy interrupts signalNet executionIdle =
      .ok (projected, net, state)) :
    project floatValue sha256 reprOf policy projected net executionIdle =
        .ok (projected, net, state) ∧
      ∀ id rid record, requestRecord interrupts id rid = some record →
        ∃ restored, requestRecord projected id rid = some restored ∧
          ∀ v w, (record.get? "value").getD .null = v → w.WellFormed →
            (sha256 v.canonicalText = sha256 w.canonicalText →
              v.canonicalText = w.canonicalText) →
            (sameResumeRequestValue floatValue sha256 restored w =
                sameResumeRequestValue floatValue sha256 record w ↔
              (isDigested policy interrupts executionIdle id record = true →
                v.pyEq floatValue w = true → Same v w)) := by
  refine ⟨project_idempotent floatValue sha256 reprOf h, ?_⟩
  intro id rid record hr
  refine ⟨_, requestRecord_project floatValue sha256 reprOf h hr, ?_⟩
  rintro v w rfl hw hsha
  by_cases hd : isDigested policy interrupts executionIdle id record = true
  · obtain ⟨interrupt, requests, hi, hq, hrec⟩ := requestRecord_eq_some.mp hr
    have hrwf : record.WellFormed := ((hwf.get? hi).get? hq).get? hrec
    have hk : keepsDigest policy ((record.get? "value").getD .null) = true := by
      simp only [isDigested, requestKeepsDigest, Bool.and_eq_true] at hd
      exact hd.2.2
    cases hg : record.get? "value" with
    | none => simp [hg, keepsDigest, isNull] at hk
    | some v =>
      simp only [hg, Option.getD_some] at hk hsha ⊢
      have hp : isValueDigestProjection v = false := by
        simp only [keepsDigest, Bool.and_eq_true, Bool.not_eq_true'] at hk
        exact hk.1.1.2
      rw [if_pos hd, sameResumeRequestValue_digest floatValue sha256 (hrwf.get? hg) hw hg hp hsha]
      simp [hd]
  · rw [if_neg hd]
    simp [hd]

end Projection

def zeroFloat : FloatText → ℚ := fun _ => 0

theorem isHexDigit_eq : isHexDigit = ['0', '1', '2', '3', '4', '5', '6', '7', '8', '9', 'a', 'b',
    'c', 'd', 'e', 'f'].contains :=
  congrArg List.contains String.toList_ofList

theorem isSha256Hex_ofList {cs : List Char} (hl : cs.length = 64)
    (ha : cs.all isHexDigit = true) : isSha256Hex (String.ofList cs) = true := by
  simp [isSha256Hex, hl, ha]

def trueDigest : Sha256Hex :=
  ⟨"b5bea41b6c623f7c09f1bf24dcae58ebab3c0cdd90ad966bc43a45b44867e12b",
    isSha256Hex_ofList rfl (by rw [isHexDigit_eq]; decide +kernel)⟩

def oneDigest : Sha256Hex :=
  ⟨"6b86b273ff34fce19d6b804eff5a3f5747ada4eaa22f1d49c01e52ddb7875b4b",
    isSha256Hex_ofList rfl (by rw [isHexDigit_eq]; decide +kernel)⟩

def twoDigests (s : String) : Sha256Hex := if s = "1" then oneDigest else trueDigest

def someRepr : Json → {s : String // s ≠ ""} := fun _ => ⟨"True", by decide⟩

def digestAll : ProjectionPolicy := { enabled := true, minValueBytes := 0 }

def resumedWith (value : Json) : Json :=
  .obj [("approval-1", .obj [("status", .str "resumed"), ("resume_requests", .obj
    [("request-1", .obj [("status", .str "completed"), ("value", value)])])])]

def restoredFrom (value : Json) : Json := resumedWith (digestProjection twoDigests value)

def projectedOnce (value : Json) : ProjectionState :=
  { policy := digestAll, applied := true, deferredReason := none
    projectedTerminalInterruptIds := ["approval-1"]
    counts := (1, (canonicalBytes value : Int), canonicalBytes (digestProjection twoDigests value)) }

theorem projectValue_digestAll (v : Json) (hp : isValueDigestProjection v = false) :
    projectValue twoDigests digestAll v = .ok (digestProjection twoDigests v,
      (1, (canonicalBytes v : Int), canonicalBytes (digestProjection twoDigests v))) := by
  have hb : ¬ ((canonicalBytes v : Int) < digestAll.minValueBytes) := by
    simp [digestAll]
  unfold projectValue
  rw [if_neg (by simp [hp]), if_neg (by simp [digestAll]), if_neg hb]

theorem project_resumedWith (v : Json) (hn : isNull v = false)
    (hp : isValueDigestProjection v = false) :
    project zeroFloat twoDigests someRepr digestAll (resumedWith v) (.obj []) true =
      .ok (restoredFrom v, .obj [], projectedOnce v) := by
  have hv := projectValue_digestAll v hp
  simp only [digestAll] at hv
  simp [project, digestAll, resumedWith, projectInterrupts, atValues, Edit.each, atEntry,
    Edit.guarded, isTerminalInterrupt, Json.get?, Dict.get?, isStr, terminalInterruptIds]
  simp [projectTerminalInterrupt, terminalInterruptEdits, atKeys, Edit.seq, atKey, Json.get?,
    Dict.get?, Edit.skip, atValues, Edit.each, atEntry, projectRequest, projectHeld, Edit.guarded,
    isCompletedRequest, isStr, hn, hv, restoredFrom, resumedWith, projectedOnce,
    projectTerminalSignalAttempts, digestAll]
  rfl

theorem resumedWith_wellFormed {v : Json} (h : v.WellFormed) : (resumedWith v).WellFormed := by
  simp [resumedWith, WellFormed, WellFormedEntries, Dict.keys, h]

theorem requestRecord_resumedWith (v : Json) :
    requestRecord (resumedWith v) "approval-1" "request-1" =
      some (.obj [("status", .str "completed"), ("value", v)]) := by
  rfl

theorem twoDigests_true_one :
    twoDigests (Json.bool true).canonicalText = twoDigests (Json.int 1).canonicalText →
      (Json.bool true).canonicalText = (Json.int 1).canonicalText := by
  intro h
  exact absurd h (by decide +kernel)

theorem digest_decides_otherwise :
    ¬ ∀ (policy : ProjectionPolicy) (interrupts signalNet projected net : Json)
        (executionIdle : Bool) (state : ProjectionState), interrupts.WellFormed →
      project zeroFloat twoDigests someRepr policy interrupts signalNet executionIdle =
        .ok (projected, net, state) →
      ∀ id rid record restored, requestRecord interrupts id rid = some record →
        requestRecord projected id rid = some restored → ∀ v w : Json,
        record.get? "value" = some v → w.WellFormed →
        (twoDigests v.canonicalText = twoDigests w.canonicalText →
          v.canonicalText = w.canonicalText) →
        sameResumeRequestValue zeroFloat twoDigests restored w =
          sameResumeRequestValue zeroFloat twoDigests record w := by
  intro h
  have hd := h digestAll (resumedWith (.bool true)) (.obj []) _ _ true _
    (resumedWith_wellFormed trivial) (project_resumedWith (.bool true) rfl rfl)
    "approval-1" "request-1" _ _ (requestRecord_resumedWith _) (requestRecord_resumedWith _)
    (.bool true) (.int 1) rfl trivial twoDigests_true_one
  have hrecord : (Json.obj [("status", .str "completed"), ("value", .bool true)]).get? "value" =
      some (.bool true) := rfl
  have hv : (Json.bool true).WellFormed := trivial
  have hw : (Json.int 1).WellFormed := trivial
  have hsame := (sameResumeRequestValue_digest zeroFloat twoDigests hv hw hrecord rfl
    twoDigests_true_one).mp hd rfl
  cases hsame

theorem projection_keeps_decisions_true :
    (Json.WellFormed (resumedWith (.bool true)) ∧
      project zeroFloat twoDigests someRepr digestAll (resumedWith (.bool true)) (.obj []) true =
        .ok (restoredFrom (.bool true), .obj [], projectedOnce (.bool true))) ∧
    project zeroFloat twoDigests someRepr digestAll (restoredFrom (.bool true)) (.obj []) true =
      .ok (restoredFrom (.bool true), .obj [], projectedOnce (.bool true)) ∧
    ∃ restored, requestRecord (restoredFrom (.bool true)) "approval-1" "request-1" =
        some restored ∧
      sameResumeRequestValue zeroFloat twoDigests restored (.bool true) = .ok true := by
  have hw := resumedWith_wellFormed (v := .bool true) trivial
  have hp := project_resumedWith (.bool true) rfl rfl
  obtain ⟨hagain, hrec⟩ := projection_keeps_decisions zeroFloat twoDigests someRepr digestAll
    (resumedWith (.bool true)) (.obj []) (restoredFrom (.bool true)) (.obj []) true
    (projectedOnce (.bool true)) hw hp
  obtain ⟨restored, hr, hdec⟩ := hrec "approval-1" "request-1" _ (requestRecord_resumedWith _)
  have hsame := (hdec (.bool true) (.bool true) rfl trivial fun _ => rfl).mpr
    fun _ _ => rfl
  refine ⟨⟨hw, hp⟩, hagain, restored, hr, hsame.trans ?_⟩
  rfl

end Agently.TriggerFlow.SnapshotProjection
