import Agently.TaskDAG.TaskDAGData
import Agently.Utils.DataFormatter

/-! # Normalised citations

Source: `AgentTask/EvidenceLedger.py`. How an id is resolved in a ledger is left out: the ids that a
use is left with are a function of the use. -/

namespace Agently.AgentTask.EvidenceUse

open Agently.Lib Agently.Utils Agently.Utils.Value
open Agently.TaskDAGValidation (get)

abbrev Use := List (String × Value)

def useOf? : Value → Option Use
  | .dict use => some use
  | _ => none

def usesIn : Value → List Use
  | .dict use => [sanitizeEntries use]
  | .list xs | .tuple xs => (xs.filterMap useOf?).map sanitizeEntries
  | _ => []

mutual

def collect_evidence_use : Value → List Use
  | .dict kvs => usesIn (get kvs "evidence_use") ++ collectEntries kvs
  | .list xs | .tuple xs => collectList xs
  | _ => []

def collectEntries : List (String × Value) → List Use
  | [] => []
  | (key, child) :: rest =>
    (if key = "evidence_use" then [] else collect_evidence_use child) ++ collectEntries rest

def collectList : List Value → List Use
  | [] => []
  | x :: xs => collect_evidence_use x ++ collectList xs

end

/-- `normalized_evidence_use`; `ids` are the normalised ids of a use. -/
def normalizedUse (ids : Use → List String) (use : Use) : Use :=
  sanitizeEntries (Dict.set use "evidence_ids" (.list ((ids use).map .str)))

def validate_evidence_use (ids : Use → List String) (uses : List Use) : List Use :=
  uses.map (normalizedUse ids)

def replaceEach : List Value → List Use → List Value × List Use
  | [], ns => ([], ns)
  | .dict _ :: xs, n :: ns =>
    let (ys, ns) := replaceEach xs ns
    (sanitize (.dict n) :: ys, ns)
  | x :: xs, ns =>
    let (ys, ns) := replaceEach xs ns
    (sanitize x :: ys, ns)

/-- The value that is put under `evidence_use`, and the normalised entries that are left. -/
def replaceUse : Value → List Use → Value × List Use
  | .dict _, n :: ns => (sanitize (.dict n), ns)
  | .list xs, ns | .tuple xs, ns =>
    let (ys, ns) := replaceEach xs ns
    (.list ys, ns)
  | v, ns => (v, ns)

mutual

/-- `visit`, with the normalised entries from `index` on. -/
def visit : Value → List Use → Value × List Use
  | .dict kvs, ns =>
    let (use, ns) := replaceUse (get kvs "evidence_use") ns
    let (cloned, ns) := visitEntries kvs ns
    let cloned := match Dict.get? kvs "evidence_use" with
      | Option.none => cloned
      | some _ => Dict.set cloned "evidence_use" use
    (sanitize (.dict cloned), ns)
  | .list xs, ns | .tuple xs, ns =>
    let (ys, ns) := visitList xs ns
    (.list ys, ns)
  | v, ns => (v, ns)

def visitEntries : List (String × Value) → List Use → List (String × Value) × List Use
  | [], ns => ([], ns)
  | (key, child) :: rest, ns =>
    let (child, ns) := if key = "evidence_use" then (child, ns) else visit child ns
    let (rest, ns) := visitEntries rest ns
    ((key, child) :: rest, ns)

def visitList : List Value → List Use → List Value × List Use
  | [], ns => ([], ns)
  | x :: xs, ns =>
    let (y, ns) := visit x ns
    let (ys, ns) := visitList xs ns
    (y :: ys, ns)

end

def value_with_normalized_evidence_use (value : Value) (normalized : List Use) : Value :=
  if normalized = [] then value else (visit value normalized).1

/-- What JSON keeps of the sanitised value: its tuples are lists. -/
def plain (v : Value) : Value := serializable (sanitize v)

section Placing

variable (f : Use → Value)

def placedEntry : Value → Value
  | .dict use => f (sanitizeEntries use)
  | v => plain v

def placedUse : Value → Value
  | .dict use => f (sanitizeEntries use)
  | .list xs | .tuple xs => .list (xs.map (placedEntry f))
  | v => plain v

mutual

/-- The plain value, with `f` of it in the place of each entry under `evidence_use`. -/
def placed : Value → Value
  | .dict kvs =>
    match Dict.get? kvs "evidence_use" with
    | Option.none => .dict (placedEntries kvs)
    | some uses => .dict (Dict.set (placedEntries kvs) "evidence_use" (placedUse f uses))
  | .list xs | .tuple xs => .list (placedList xs)
  | v => plain v

def placedEntries : List (String × Value) → List (String × Value)
  | [] => []
  | (key, child) :: rest =>
    (key, if key = "evidence_use" then plain child else placed child) :: placedEntries rest

def placedList : List Value → List Value
  | [] => []
  | x :: xs => placed x :: placedList xs

end

end Placing

theorem set_mapVals {μ ν : Type} (f : ν → μ) (d : Dict String ν) (k : String) (v : ν) :
    (Dict.set d k v).map (fun p => (p.1, f p.2)) = Dict.set (d.map fun p => (p.1, f p.2)) k (f v) := by
  induction d with
  | nil => rfl
  | cons p d ih =>
    obtain ⟨k', w⟩ := p
    by_cases hk : k' = k
    · simp [Dict.set, hk]
    · simpa [Dict.set, hk] using ih

theorem serializableList_eq_map (xs : List Value) : serializableList xs = xs.map serializable := by
  induction xs with
  | nil => rfl
  | cons x xs ih => rw [serializableList, ih, List.map_cons]

theorem plain_list (xs : List Value) : plain (.list xs) = .list (xs.map plain) := by
  have h : sanitizeList xs = xs.map sanitize := by
    induction xs with
    | nil => rfl
    | cons x xs ih => rw [sanitizeList, ih, List.map_cons]
  rw [plain, sanitize, serializable, serializableList_eq_map, h, List.map_map]
  rfl

theorem plain_dict (kvs : List (String × Value)) :
    plain (.dict kvs) = .dict (kvs.map fun p => (p.1, plain p.2)) := by
  have h : ∀ kvs : List (String × Value),
      serializableEntries kvs = kvs.map fun p => (p.1, serializable p.2) := by
    intro kvs
    induction kvs with
    | nil => rfl
    | cons p kvs ih => rw [serializableEntries, ih, List.map_cons]
  rw [plain, sanitize, serializable, h, sanitizeEntries_eq_map, List.map_map]
  rfl

theorem plain_sanitize (v : Value) : plain (sanitize v) = plain v := by
  rw [plain, sanitize_sanitize, plain]

theorem plain_sanitizeEntries (kvs : List (String × Value)) :
    plain (.dict (sanitizeEntries kvs)) = plain (.dict kvs) := plain_sanitize (.dict kvs)

variable {f : Use → Value} {N : Use → Use}

theorem placedEntry_of_plain {v : Value} (h : ∀ use, v = .dict use →
    f (sanitizeEntries use) = plain (.dict (sanitizeEntries use))) : placedEntry f v = plain v := by
  cases v with
  | dict use => rw [placedEntry, h use rfl, plain_sanitizeEntries]
  | _ => rfl

theorem placedUse_of_plain {v : Value} (h : ∀ use ∈ usesIn v, f use = plain (.dict use)) :
    placedUse f v = plain v := by
  have hlist : ∀ xs : List Value, (∀ use ∈ (xs.filterMap useOf?).map sanitizeEntries,
      f use = plain (.dict use)) → Value.list (xs.map (placedEntry f)) = plain (.list xs) := by
    intro xs hxs
    rw [plain_list]
    refine congrArg Value.list (List.map_congr_left fun x hx => placedEntry_of_plain ?_)
    rintro use rfl
    exact hxs _ (List.mem_map_of_mem (List.mem_filterMap.mpr ⟨_, hx, rfl⟩))
  cases v with
  | dict use => rw [placedUse, h _ (List.mem_singleton_self _), plain_sanitizeEntries]
  | list xs => exact hlist xs h
  | tuple xs => exact hlist xs h
  | _ => rfl

mutual

theorem placed_of_plain : (v : Value) →
    (∀ use ∈ collect_evidence_use v, f use = plain (.dict use)) → placed f v = plain v
  | .dict kvs, h => by
    have hentries := placedEntries_of_plain kvs fun use hu => h use (List.mem_append_right _ hu)
    have huse := placedUse_of_plain fun use hu => h use (List.mem_append_left _ hu)
    rw [placed, hentries, plain_dict]
    split
    · rfl
    · rename_i uses hget
      rw [TaskDAGValidation.get, hget, Option.getD_some] at huse
      rw [huse, Dict.set_of_get?]
      rw [Dict.get?_mapVals, hget]
      rfl
  | .list xs, h | .tuple xs, h => by
    rw [placed, placedList_of_plain xs h]
    exact (plain_list xs).symm
  | .none, _ | .bool _, _ | .int _, _ | .str _, _ | .empty, _ | .object _ _, _ => rfl

theorem placedEntries_of_plain : (kvs : List (String × Value)) →
    (∀ use ∈ collectEntries kvs, f use = plain (.dict use)) →
      placedEntries f kvs = kvs.map fun p => (p.1, plain p.2)
  | [], _ => rfl
  | (key, child) :: rest, h => by
    rw [placedEntries, placedEntries_of_plain rest fun use hu => h use (List.mem_append_right _ hu)]
    split
    · rfl
    · rename_i hkey
      rw [placed_of_plain child fun use hu =>
        h use (List.mem_append_left _ (by rw [if_neg hkey]; exact hu))]
      rfl

theorem placedList_of_plain : (xs : List Value) →
    (∀ use ∈ collectList xs, f use = plain (.dict use)) → placedList f xs = xs.map plain
  | [], _ => rfl
  | x :: xs, h => by
    rw [placedList, placed_of_plain x fun use hu => h use (List.mem_append_left _ hu),
      placedList_of_plain xs fun use hu => h use (List.mem_append_right _ hu), List.map_cons]

end

/-- What comes into the place of an entry that is normalised by `N`. -/
def normalForm (N : Use → Use) (use : Use) : Value := plain (.dict (N use))

theorem replaceEach_uses (xs : List Value) (rest : List Use) :
    (replaceEach xs ((((xs.filterMap useOf?).map sanitizeEntries).map N) ++ rest)).2 = rest ∧
      (replaceEach xs ((((xs.filterMap useOf?).map sanitizeEntries).map N) ++ rest)).1.map plain =
        xs.map (placedEntry (normalForm N)) := by
  induction xs with
  | nil => exact ⟨rfl, rfl⟩
  | cons x xs ih =>
    cases x with
    | _ => exact ⟨ih.1, congrArg₂ List.cons (plain_sanitize _) ih.2⟩

theorem replaceUse_uses (v : Value) (rest : List Use) :
    (replaceUse v ((usesIn v).map N ++ rest)).2 = rest ∧
      plain (replaceUse v ((usesIn v).map N ++ rest)).1 = placedUse (normalForm N) v := by
  have hlist : ∀ xs : List Value, plain (.list
      (replaceEach xs ((((xs.filterMap useOf?).map sanitizeEntries).map N) ++ rest)).1) =
        .list (xs.map (placedEntry (normalForm N))) := by
    intro xs
    rw [plain_list, (replaceEach_uses xs rest).2]
  cases v with
  | dict use => exact ⟨rfl, plain_sanitize _⟩
  | list xs => exact ⟨(replaceEach_uses xs rest).1, hlist xs⟩
  | tuple xs => exact ⟨(replaceEach_uses xs rest).1, hlist xs⟩
  | _ => exact ⟨rfl, rfl⟩

mutual

theorem visit_uses : (v : Value) → (rest : List Use) →
    (visit v ((collect_evidence_use v).map N ++ rest)).2 = rest ∧
      plain (visit v ((collect_evidence_use v).map N ++ rest)).1 = placed (normalForm N) v
  | .dict kvs, rest => by
    have huse := replaceUse_uses (N := N) (get kvs "evidence_use")
      ((collectEntries kvs).map N ++ rest)
    have hentries := visitEntries_uses kvs rest
    rw [collect_evidence_use, List.map_append, List.append_assoc, visit]
    dsimp only
    rw [huse.1]
    refine ⟨hentries.1, ?_⟩
    rw [plain_sanitize, placed, ← hentries.2]
    cases hget : Dict.get? kvs "evidence_use" with
    | none => exact plain_dict _
    | some uses =>
      dsimp only
      rw [plain_dict, set_mapVals, huse.2, TaskDAGValidation.get, hget]
      rfl
  | .list xs, rest | .tuple xs, rest => by
    have hxs := visitList_uses xs rest
    refine ⟨hxs.1, ?_⟩
    rw [placed, ← hxs.2]
    exact plain_list _
  | .none, _ | .bool _, _ | .int _, _ | .str _, _ | .empty, _ | .object _ _, _ => ⟨rfl, rfl⟩

theorem visitEntries_uses : (kvs : List (String × Value)) → (rest : List Use) →
    (visitEntries kvs ((collectEntries kvs).map N ++ rest)).2 = rest ∧
      (visitEntries kvs ((collectEntries kvs).map N ++ rest)).1.map (fun p => (p.1, plain p.2)) =
        placedEntries (normalForm N) kvs
  | [], _ => ⟨rfl, rfl⟩
  | (key, child) :: kvs, rest => by
    have hrest := visitEntries_uses kvs rest
    rw [collectEntries, visitEntries, placedEntries]
    by_cases hkey : key = "evidence_use"
    · simp only [hkey, if_true, List.nil_append, List.map_cons]
      exact ⟨hrest.1, by rw [hrest.2]⟩
    · have hchild := visit_uses child ((collectEntries kvs).map N ++ rest)
      simp only [hkey, if_false, List.map_append, List.append_assoc, List.map_cons]
      rw [hchild.1]
      exact ⟨hrest.1, by rw [hrest.2, hchild.2]⟩

theorem visitList_uses : (xs : List Value) → (rest : List Use) →
    (visitList xs ((collectList xs).map N ++ rest)).2 = rest ∧
      (visitList xs ((collectList xs).map N ++ rest)).1.map plain = placedList (normalForm N) xs
  | [], _ => ⟨rfl, rfl⟩
  | x :: xs, rest => by
    have hx := visit_uses x ((collectList xs).map N ++ rest)
    have hxs := visitList_uses xs rest
    rw [collectList, List.map_append, List.append_assoc, visitList, placedList]
    dsimp only
    rw [hx.1]
    exact ⟨hxs.1, by rw [List.map_cons, hxs.2, hx.2]⟩

end

/-- In the form JSON keeps of it, the value comes back with the normalised form of each entry in the
place of the entry, and is the sanitised value everywhere else. -/
theorem citations_return (ids : Use → List String) (value : Value) :
    plain (value_with_normalized_evidence_use value
        (validate_evidence_use ids (collect_evidence_use value))) =
      placed (normalForm (normalizedUse ids)) value ∧
    plain value = placed (fun use => plain (.dict use)) value := by
  have hunchanged := placed_of_plain (f := fun use => plain (.dict use)) value fun _ _ => rfl
  refine ⟨?_, hunchanged.symm⟩
  unfold value_with_normalized_evidence_use validate_evidence_use
  split
  · rename_i hnone
    rw [List.map_eq_nil_iff] at hnone
    refine (placed_of_plain value ?_).symm
    rw [hnone]
    exact List.forall_mem_nil _
  · have h := visit_uses (N := normalizedUse ids) value []
    rw [List.append_nil] at h
    exact h.2

/-- A tuple comes back as a list, which the sanitised value does not have. -/
theorem tuple_returns_as_list :
    let value := Value.dict [("a", .tuple [.int 1]), ("evidence_use", .dict [])]
    value_with_normalized_evidence_use value
        (validate_evidence_use (fun _ => []) (collect_evidence_use value)) =
      .dict [("a", .list [.int 1]), ("evidence_use", .dict [("evidence_ids", .list [])])] ∧
    sanitize value = .dict [("a", .tuple [.int 1]), ("evidence_use", .dict [])] := by
  decide +kernel

end Agently.AgentTask.EvidenceUse
