import Agently.TaskBoard.PatchOperations
import Agently.TaskBoard.RereadRevisions

/-! # Results that are written and read back

Source: `TaskBoard/TaskBoardRuntime.py`, `to_dict` and `from_value` of `types/data/task_board.py`.
A tick keeps the results of its cards twice, as collected values and in its revision, written and
read back as values or through JSON. However often that happens, both come to the same result. -/

namespace Agently.TaskBoard

open Agently.Lib Agently.Utils
open Agently.TaskDAGValidation (Fault strip strip_strip orElse textOr bind_eq_ok)

mutual

theorem stable_of_reloaded : ∀ {v w : Value}, reloaded v = some w → JsonStable w
  | .none, _, h => by cases h; rfl
  | .bool _, _, h => by cases h; rfl
  | .int _, _, h => by cases h; rfl
  | .str _, _, h => by cases h; rfl
  | .list _, _, h => by
      obtain ⟨ys, hys, rfl⟩ := Option.map_eq_some_iff.mp h
      exact jsonStable_list.mpr (stable_of_reloadedList hys)
  | .tuple _, _, h => by
      obtain ⟨ys, hys, rfl⟩ := Option.map_eq_some_iff.mp h
      exact jsonStable_list.mpr (stable_of_reloadedList hys)
  | .dict _, _, h => by
      obtain ⟨kvs, hkvs, rfl⟩ := Option.map_eq_some_iff.mp h
      exact jsonStable_dict.mpr (stable_of_reloadedEntries hkvs)
  | .empty, _, h => by cases h
  | .object _ _, _, h => by cases h

theorem stable_of_reloadedList : ∀ {xs ys : List Value}, reloadedList xs = some ys →
    ∀ y ∈ ys, JsonStable y
  | [], _, h => by
      cases h
      intro y hy
      cases hy
  | x :: xs, _, h => by
      obtain ⟨y, hy, h⟩ := Option.bind_eq_some_iff.mp h
      obtain ⟨ys, hys, rfl⟩ := Option.map_eq_some_iff.mp h
      exact List.forall_mem_cons.mpr ⟨stable_of_reloaded hy, stable_of_reloadedList hys⟩

theorem stable_of_reloadedEntries : ∀ {kvs kvs' : List (String × Value)},
    reloadedEntries kvs = some kvs' → ∀ p ∈ kvs', JsonStable p.2
  | [], _, h => by
      cases h
      intro p hp
      cases hp
  | (k, v) :: kvs, _, h => by
      obtain ⟨w, hw, h⟩ := Option.bind_eq_some_iff.mp h
      obtain ⟨rest, hrest, rfl⟩ := Option.map_eq_some_iff.mp h
      exact List.forall_mem_cons.mpr ⟨stable_of_reloaded hw, stable_of_reloadedEntries hrest⟩

end

theorem reloaded_lookup {kvs kvs' : Dict String Value} (h : reloadedEntries kvs = some kvs')
    (k : String) : Option.Rel (fun v w => reloaded v = some w) (kvs.get? k) (kvs'.get? k) := by
  induction kvs generalizing kvs' with
  | nil =>
    cases h
    exact .none
  | cons p kvs ih =>
    obtain ⟨k', v⟩ := p
    obtain ⟨w, hw, h⟩ := Option.bind_eq_some_iff.mp h
    obtain ⟨rest, hrest, rfl⟩ := Option.map_eq_some_iff.mp h
    rw [Dict.get?_cons, Dict.get?_cons]
    split
    · exact .some hw
    · exact ih hrest

theorem reloaded_get {kvs kvs' : List (String × Value)} (h : reloadedEntries kvs = some kvs')
    (k : String) :
    reloaded (TaskDAGValidation.get kvs k) = some (TaskDAGValidation.get kvs' k) := by
  have hr := reloaded_lookup h k
  unfold TaskDAGValidation.get
  generalize Dict.get? kvs k = v, Dict.get? kvs' k = w at hr ⊢
  cases hr with
  | none => rfl
  | some hw => exact hw

theorem stable_get {kvs : List (String × Value)} (h : JsonStable (.dict kvs)) (k : String) :
    JsonStable (TaskDAGValidation.get kvs k) := by
  obtain ⟨kvs', hkvs, he⟩ := Option.map_eq_some_iff.mp h
  cases he
  exact reloaded_get hkvs k

theorem stable_mapping {v : Value} (h : JsonStable v) : JsonStable (.dict (mapping v)) := by
  cases v with
  | dict kvs => exact h
  | _ => rfl

theorem stable_mappingTuple {v : Value} (h : JsonStable v) :
    ∀ kvs ∈ mappingTuple v, JsonStable (.dict kvs) := by
  have hitem : ∀ {w : Value}, JsonStable w → JsonStable (.dict (mappingItem w)) := by
    intro w hw
    have hentry : JsonStable (.dict [("value", w)]) := by simpa using hw
    cases w with
    | dict kvs => exact hw
    | _ => exact hentry
  have hone : JsonStable (.dict [("value", v)]) := by simpa using h
  intro kvs hm
  cases v with
  | none => cases hm
  | dict entries =>
    rw [List.mem_singleton.mp hm]
    exact h
  | list xs =>
    obtain ⟨x, hx, rfl⟩ := List.mem_map.mp hm
    exact hitem (jsonStable_list.mp h x hx)
  | tuple xs =>
    obtain ⟨ys, -, he⟩ := Option.map_eq_some_iff.mp h
    cases he
  | _ =>
    rw [List.mem_singleton.mp hm]
    exact hone

section Results

variable {reprOf : Value → String}

theorem stable_result {kvs : List (String × Value)} {y : TaskBoardCardResult}
    (h : JsonStable (.dict kvs)) (hy : cardResultFromValue reprOf (.dict kvs) = .ok y) :
    JsonStable y.toDict := by
  have hget := stable_get h
  simp only [cardResultFromValue] at hy
  split at hy
  · cases hy
  · cases hy
    unfold TaskBoardCardResult.toDict
    rw [jsonStable_dict]
    simp only [List.forall_mem_cons, jsonStable_str, true_and, jsonStable_dictList]
    refine ⟨?_, hget "preview", stable_mappingTuple (hget "artifact_refs"),
      stable_mappingTuple (hget "file_refs"), stable_mappingTuple (hget "diagnostics"), ?_,
      stable_mapping (hget "metadata"), ?_⟩
    · cases cleanStr reprOf (TaskDAGValidation.get kvs "output_digest") with
      | none => rfl
      | some d => rfl
    · have hp := hget "patch_proposal"
      split
      · rename_i p hq
        split at hq
        · rename_i q hv
          cases hq
          rw [hv] at hp
          exact hp
        · cases hq
      · rfl
    · intro p hp
      cases hp

theorem cleaned_status (x : TaskBoardCardResult) :
    x.cleaned.status = if strip x.status = "" then "completed" else strip x.status := rfl

theorem cleaned_digest (x : TaskBoardCardResult) :
    x.cleaned.outputDigest =
      x.outputDigest.bind fun s => if strip s = "" then none else some (strip s) := rfl

theorem cleaned_version (x : TaskBoardCardResult) :
    x.cleaned.schemaVersion = textOr x.schemaVersion taskBoardSchemaVersion := rfl

theorem cleaned_iff (y : TaskBoardCardResult) :
    y.cleaned = y ↔ y.cleaned.status = y.status ∧ y.cleaned.outputDigest = y.outputDigest ∧
      y.cleaned.schemaVersion = y.schemaVersion := by
  constructor
  · intro h
    rw [h]
    exact ⟨rfl, rfl, rfl⟩
  · rintro ⟨hs, hd, hv⟩
    calc
      y.cleaned = { y with status := y.cleaned.status, outputDigest := y.cleaned.outputDigest,
                           schemaVersion := y.cleaned.schemaVersion } := rfl
      _ = y := by rw [hs, hd, hv]

theorem cleaned_of_texts {x y : TaskBoardCardResult} (hs : y.status = x.cleaned.status)
    (hd : y.outputDigest = x.cleaned.outputDigest) (hv : y.schemaVersion = x.cleaned.schemaVersion) :
    y.cleaned = y := by
  obtain ⟨hs', hd', hv'⟩ := (cleaned_iff x.cleaned).mp (cleaned_cleaned x)
  refine (cleaned_iff y).mpr ⟨?_, ?_, ?_⟩
  · rw [cleaned_status, hs, ← cleaned_status, hs']
  · rw [cleaned_digest, hd, ← cleaned_digest, hd']
  · rw [cleaned_version, hv, ← cleaned_version, hv']

theorem read_status (x : TaskBoardCardResult) :
    (cleanStr reprOf (.str x.status)).getD "completed" = x.cleaned.status := by
  rw [cleaned_status, cleanStr_str]
  split <;> rfl

theorem read_digest (x : TaskBoardCardResult) :
    cleanStr reprOf (textOrNone x.outputDigest) = x.cleaned.outputDigest := by
  rw [cleaned_digest]
  cases x.outputDigest with
  | none => rfl
  | some d => exact cleanStr_str d

theorem written_digest {digest : Option String} {w : Value} (h : Rewritten (textOrNone digest) w) :
    w = textOrNone digest := by
  cases digest with
  | none => exact h.none
  | some d => exact h.str

theorem written_texts {x y : TaskBoardCardResult} {w : Value} (hw : Rewritten x.toDict w)
    (hy : cardResultFromValue reprOf w = .ok y) : Clean y.cardId ∧ y.cleaned = y := by
  obtain ⟨kvs, rfl, hkvs⟩ := Rewritten.dict hw
  have hget := rewritten_get hkvs
  have hdigest : TaskDAGValidation.get kvs "output_digest" = textOrNone x.outputDigest :=
    written_digest (hget "output_digest")
  simp only [cardResultFromValue] at hy
  rw [(hget "card_id").str, (hget "status").str, (hget "schema_version").str, hdigest, cleanStr_str,
    read_status, read_digest] at hy
  by_cases hid : strip x.cardId = ""
  · rw [if_pos hid] at hy
    cases hy
  · rw [if_neg hid] at hy
    cases hy
    exact ⟨⟨strip_strip _, hid⟩, cleaned_of_texts (x := x) rfl rfl (strOr_str _ _)⟩

theorem normal_of_reloaded {x y : TaskBoardCardResult} {w : Value}
    (hw : reloaded x.toDict = some w) (hy : cardResultFromValue reprOf w = .ok y) :
    y.Normal reprOf := by
  obtain ⟨hid, hclean⟩ := written_texts (.inr hw) hy
  obtain ⟨kvs, -, rfl⟩ := Option.map_eq_some_iff.mp hw
  refine ⟨?_, stable_result (stable_of_reloaded hw) hy⟩
  rw [reads_cleaned hid, hclean]

theorem cleaned_get (x : TaskBoardCardResult) :
    ∀ k ∈ ["card_id", "preview", "artifact_refs", "file_refs", "diagnostics", "patch_proposal",
      "metadata"],
      TaskDAGValidation.get (mapping x.cleaned.toDict) k = TaskDAGValidation.get (mapping x.toDict) k := by
  simp only [List.forall_mem_cons, mapping, TaskBoardCardResult.toDict, get_cons, String.reduceEq,
    if_false, if_true, TaskBoardCardResult.cleaned, true_and]
  intro k hk
  cases hk

theorem reloaded_cleaned {x : TaskBoardCardResult} {w w' : Value}
    (hw : reloaded x.toDict = some w) (hw' : reloaded x.cleaned.toDict = some w') :
    cardResultFromValue reprOf w' = cardResultFromValue reprOf w := by
  obtain ⟨kvs, hkvs, rfl⟩ := Option.map_eq_some_iff.mp hw
  obtain ⟨kvs', hkvs', rfl⟩ := Option.map_eq_some_iff.mp hw'
  have hget := reloaded_get hkvs
  have hget' := reloaded_get hkvs'
  have hsame : ∀ k ∈ ["card_id", "preview", "artifact_refs", "file_refs", "diagnostics",
      "patch_proposal", "metadata"], TaskDAGValidation.get kvs' k = TaskDAGValidation.get kvs k := by
    intro k hk
    have hk := (congrArg reloaded (cleaned_get x k hk)).trans (hget k)
    exact Option.some.inj ((hget' k).symm.trans hk)
  have htexts : ∀ {y : TaskBoardCardResult} {entries : List (String × Value)},
      reloadedEntries (mapping y.toDict) = some entries →
      TaskDAGValidation.get entries "status" = .str y.status ∧
        TaskDAGValidation.get entries "output_digest" = textOrNone y.outputDigest ∧
        TaskDAGValidation.get entries "schema_version" = .str y.schemaVersion := by
    intro y entries h
    have hy := reloaded_get h
    exact ⟨(Option.some.inj (hy "status")).symm, written_digest (.inr (hy "output_digest")),
      (Option.some.inj (hy "schema_version")).symm⟩
  obtain ⟨hstatus, hdigest, hversion⟩ := htexts hkvs
  obtain ⟨hstatus', hdigest', hversion'⟩ := htexts hkvs'
  obtain ⟨hcleanStatus, hcleanDigest, hcleanVersion⟩ := (cleaned_iff x.cleaned).mp (cleaned_cleaned x)
  rw [cleaned_version, cleaned_version] at hcleanVersion
  simp only [List.forall_mem_cons] at hsame
  obtain ⟨h₁, h₂, h₃, h₄, h₅, h₆, h₇, -⟩ := hsame
  simp only [cardResultFromValue, h₁, h₂, h₃, h₄, h₅, h₆, h₇, hstatus, hstatus', hdigest, hdigest',
    hversion, hversion', strOr_str, read_status, read_digest, hcleanStatus, hcleanDigest,
    cleaned_version, hcleanVersion]

theorem reloaded_reads {x : TaskBoardCardResult} {w : Value} (hid : Clean x.cardId)
    (hw : reloaded x.toDict = some w) : ∃ y, cardResultFromValue reprOf w = .ok y ∧ y.cardId = x.cardId := by
  obtain ⟨kvs, hkvs, rfl⟩ := Option.map_eq_some_iff.mp hw
  have hget := (Option.some.inj (reloaded_get hkvs "card_id")).symm
  have hread : cleanStr reprOf (TaskDAGValidation.get kvs "card_id") = some x.cardId := by
    rw [hget]
    exact cleanStr_iff.mpr hid
  simp only [cardResultFromValue, hread]
  exact ⟨_, rfl, rfl⟩

theorem read_results {raw : Dict String Value} {d : Dict String TaskBoardCardResult}
    (hd : ∀ p ∈ raw, ∃ kvs, p.2 = .dict kvs) (h : resultsFromEntries reprOf raw = .ok d) (id : String) :
    Option.Rel (fun w y => cardResultFromValue reprOf w = .ok y) (raw.get? id) (d.get? id) := by
  induction raw generalizing d with
  | nil =>
    cases h
    exact .none
  | cons p raw ih =>
    obtain ⟨k, v⟩ := p
    obtain ⟨kvs, rfl⟩ := hd _ List.mem_cons_self
    rw [resultsFromEntries] at h
    cases hy : cardResultFromValue reprOf (.dict kvs) with
    | error e =>
      rw [hy] at h
      cases h
    | ok y =>
      cases hrest : resultsFromEntries reprOf raw with
      | error e =>
        rw [hy, hrest] at h
        cases h
      | ok rest =>
        rw [hy, hrest] at h
        cases h
        rw [Dict.get?_cons, Dict.get?_cons]
        split
        · exact .some hy
        · exact ih (List.forall_mem_cons.mp hd).2 hrest

def resultEntries (d : Dict String TaskBoardCardResult) : Dict String Value :=
  d.map fun p => (p.1, p.2.toDict)

theorem resultEntries_dict (d : Dict String TaskBoardCardResult) :
    ∀ p ∈ resultEntries d, ∃ kvs, p.2 = .dict kvs := by
  intro p hp
  obtain ⟨q, -, rfl⟩ := List.mem_map.mp hp
  exact ⟨_, rfl⟩

theorem rel_of_map {α β γ : Type} {f : α → β} {R : β → γ → Prop} {x : Option α} {y : Option γ}
    (h : Option.Rel R (x.map f) y) : Option.Rel (fun a c => R (f a) c) x y := by
  cases x with
  | none =>
    cases h
    exact .none
  | some a =>
    cases h with
    | some hac => exact .some hac

theorem rel_trans {α β γ : Type} {R : α → β → Prop} {S : β → γ → Prop} {x : Option α} {y : Option β}
    {z : Option γ} (h : Option.Rel R x y) (h' : Option.Rel S y z) :
    Option.Rel (fun a c => ∃ b, R a b ∧ S b c) x z := by
  cases h with
  | none =>
    cases h'
    exact .none
  | some hab =>
    cases h' with
    | some hbc => exact .some ⟨_, hab, hbc⟩

theorem results_of_dict {fresh : String} {r r' : TaskBoardRevision}
    (h : revisionFromValue reprOf fresh r.toDict = .ok r') (id : String) :
    Option.Rel (fun x y => cardResultFromValue reprOf x.toDict = .ok y) (r.cardResults.get? id)
      (r'.cardResults.get? id) := by
  obtain ⟨-, raw, hraw, hresults⟩ := revisionFromValue_ok h
  have hw : orElse (.dict (resultEntries r.cardResults)) (.dict []) = .dict raw := hraw
  rw [orElse_dict] at hw
  cases hw
  have hread := read_results (resultEntries_dict r.cardResults) hresults id
  rw [show (resultEntries r.cardResults).get? id = _ from Dict.get?_mapVals _ _ id] at hread
  exact rel_of_map hread

theorem reloadedEntries_dict {kvs kvs' : List (String × Value)} (h : reloadedEntries kvs = some kvs')
    (hd : ∀ p ∈ kvs, ∃ entries, p.2 = .dict entries) : ∀ p ∈ kvs', ∃ entries, p.2 = .dict entries := by
  induction kvs generalizing kvs' with
  | nil =>
    cases h
    intro p hp
    cases hp
  | cons p kvs ih =>
    obtain ⟨k, v⟩ := p
    obtain ⟨entries, rfl⟩ := hd _ List.mem_cons_self
    obtain ⟨w, hw, h⟩ := Option.bind_eq_some_iff.mp h
    obtain ⟨rest, hrest, rfl⟩ := Option.map_eq_some_iff.mp h
    obtain ⟨entries', -, rfl⟩ := Option.map_eq_some_iff.mp hw
    exact List.forall_mem_cons.mpr
      ⟨⟨entries', rfl⟩, ih hrest (List.forall_mem_cons.mp hd).2⟩

theorem results_of_json {fresh : String} {r r' : TaskBoardRevision} {v : Value}
    (hv : reloaded r.toDict = some v) (h : revisionFromValue reprOf fresh v = .ok r') (id : String) :
    Option.Rel (fun x y => ∃ w, reloaded x.toDict = some w ∧ cardResultFromValue reprOf w = .ok y)
      (r.cardResults.get? id) (r'.cardResults.get? id) := by
  obtain ⟨kvs, hkvs, rfl⟩ := Option.map_eq_some_iff.mp hv
  obtain ⟨-, raw, hraw, hresults⟩ := revisionFromValue_ok h
  have hw : (reloadedEntries (resultEntries r.cardResults)).map Value.dict = _ :=
    reloaded_get hkvs "card_results"
  obtain ⟨entries, he, hdict⟩ := Option.map_eq_some_iff.mp hw
  rw [← hdict, orElse_dict] at hraw
  cases hraw
  have hread := read_results (reloadedEntries_dict he (resultEntries_dict _)) hresults id
  have hlookup := reloaded_lookup he id
  rw [show (resultEntries r.cardResults).get? id = _ from Dict.get?_mapVals _ _ id] at hlookup
  exact rel_trans (rel_of_map hlookup) hread

theorem recorded_all {p q : Patching} {results : List TaskBoardCardResult}
    (hid : ∀ x ∈ results, Clean x.cardId)
    (h : Patching.applyAll reprOf p (results.map recordOperation) = .ok q) :
    q.cardResults = recordedResults (results.map TaskBoardCardResult.cleaned) p.cardResults := by
  induction results generalizing p with
  | nil =>
    cases h
    rfl
  | cons x results ih =>
    obtain ⟨m, hm, h⟩ := Patching.applyAll_cons h
    rw [apply_record, Patching.record, show orElse x.toDict (.dict []) = x.toDict from if_pos rfl,
      reads_cleaned (hid x List.mem_cons_self)] at hm
    obtain ⟨result, hresult, hm⟩ := bind_eq_ok.mp hm
    cases hresult
    obtain ⟨cards, -, hm⟩ := bind_eq_ok.mp hm
    cases hm
    exact ih (List.forall_mem_cons.mp hid).2 h

theorem applied_plain {r next : TaskBoardRevision} {fresh : Fresh} {results : List TaskBoardCardResult}
    (hv : ValidRevision r) (hid : ∀ x ∈ results, Clean x.cardId)
    (hp : ∀ x ∈ results, x.patchProposal = none)
    (h : applyCardResults reprOf fresh r results = .ok next) :
    ValidRevision next ∧
      next.cardResults = recordedResults (results.map TaskBoardCardResult.cleaned) r.cardResults := by
  unfold applyCardResults at h
  split at h
  · rename_i hnil
    cases h
    rw [hnil]
    exact ⟨hv, rfl⟩
  · rw [addResults_ok hp] at h
    obtain ⟨-, -, left, hleft, rfl, hnext⟩ := applyTaskBoardPatch_iff.mp h
    exact ⟨hnext, recorded_all hid hleft⟩

theorem applied_frontier {r next : TaskBoardRevision} {fresh : Fresh} {x : TaskBoardCardResult}
    (hv : ValidRevision r) (hid : Clean x.cardId) (hp : x.patchProposal = none)
    (h : applyFrontierCardResult reprOf fresh r x = .ok next) :
    ValidRevision next ∧ next.cardResults = r.cardResults.set x.cardId x.cleaned := by
  have happly : applyCardResults reprOf fresh r [x] = .ok next := by
    unfold applyFrontierCardResult at h
    split at h
    · rw [if_pos (.inl hp)] at h
      cases h
    · exact h
  exact applied_plain hv (List.forall_mem_singleton.mpr hid) (List.forall_mem_singleton.mpr hp) happly

end Results

end Agently.TaskBoard
