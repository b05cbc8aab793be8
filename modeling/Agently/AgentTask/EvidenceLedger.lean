import Agently.AgentTask.TaskReferences
import Agently.Utils.IntText
import Mathlib.Data.List.Perm.Subperm
import Mathlib.Data.List.Sort

/-! # The evidence a bounded ledger view shows

Source: `AgentTask/EvidenceLedger.py`. The envelope's items are mappings; what is rendered of an
item beside its `cite_as` is left out. -/

namespace Agently.AgentTask.EvidenceLedger

open Agently.Lib Agently.Utils
open Agently.TaskDAGValidation (strip strOf orElse get)
open Agently.Utils.IntText (natText natText_injective)

structure RawItem where
  object : Nat
  item : Item

def _BODY_KEYS : List String :=
  ["body", "content", "text", "snippet", "preview", "result", "output", "value"]

def Present (v : Value) : Prop := v ≠ .none ∧ v ≠ .str "" ∧ v ≠ .list [] ∧ v ≠ .dict []

instance (v : Value) : Decidable (Present v) := inferInstanceAs (Decidable (_ ∧ _))

def _first_body_value (item : Item) : Value :=
  ((_BODY_KEYS.map fun key => get item key).find? fun v => Present v).getD .none

section View

variable (H : Host)

def _ledger_item_selection_priority (raw : RawItem) : Nat :=
  let status := H.lower (strip (strOf H.strOf (orElse (get raw.item "status") (.str "ok"))))
  let body_state := H.lower (strip (strOf H.strOf (orElse (get raw.item "body_state") (.str ""))))
  if status ∈ ["failed", "empty"] then 1
  else if body_state ∈ ["full", "bounded", "truncated"] then 0
  else if Present (_first_body_value raw.item) then 0
  else 2

/-- The items in the order in which the passes over the priorities come to them, each with its
index. -/
def passes (items : List RawItem) : List (RawItem × Nat) :=
  [0, 1, 2].flatMap fun priority =>
    items.zipIdx.filter fun entry => _ledger_item_selection_priority H entry.1 = priority

/-- The passes stop once `max_items` are selected, and not before one is. -/
def _select_ledger_items_for_budget (items : List RawItem) (max_items : Nat)
    (content_first : Bool) : List RawItem :=
  if content_first = false ∨ items.length ≤ max_items then items
  else (((passes H items).take (max 1 max_items)).insertionSort fun a b => a.2 ≤ b.2).map Prod.fst

/-- The handles of the items from `first` on. -/
def cited (first : Nat) (items : List RawItem) : List (RawItem × List Char) :=
  (items.zipIdx first).map fun entry => (entry.1, 'e' :: natText entry.2)

structure View where
  items : List (RawItem × List Char)
  overflow_item_refs : List (RawItem × List Char)
  item_count : Nat
  items_omitted : Nat

def viewOf (raw_evidence_items : List RawItem) (max_items max_overflow_refs : Nat)
    (content_first : Bool) : View :=
  let selected_items := _select_ledger_items_for_budget H raw_evidence_items max_items content_first
  let selected_keys := (selected_items.take max_items).map RawItem.object
  let rendered := selected_items.take (max 1 max_items)
  let remainder := raw_evidence_items.filter fun raw => raw.object ∉ selected_keys
  let overflow :=
    if rendered.length < raw_evidence_items.length ∧ 0 < max_overflow_refs then
      (_select_ledger_items_for_budget H remainder max_overflow_refs true).take max_overflow_refs
    else []
  { items := cited 1 rendered
    overflow_item_refs := cited (rendered.length + 1) overflow
    item_count := raw_evidence_items.length
    items_omitted := raw_evidence_items.length - rendered.length }

/-- `add_evidence` of each item; each answer is an object of its own. -/
def catalogued : TaskReferenceCatalog → Nat → List RawItem → Except Fault (List RawItem)
  | _, _, [] => .ok []
  | catalog, object, raw :: rest =>
    match add_evidence H raw.item catalog with
    | .error e _ => .error e
    | .ok item catalog => (catalogued catalog (object + 1) rest).map (⟨object, item⟩ :: ·)

def evidence_ledger_view (evidence_items : List RawItem)
    (task_references : Option TaskReferenceCatalog) (max_items max_overflow_refs : Nat)
    (content_first : Bool) : Except Fault View :=
  match task_references with
  | none => .ok (viewOf H evidence_items max_items max_overflow_refs content_first)
  | some catalog => (catalogued H catalog 0 evidence_items).map fun items =>
    viewOf H items max_items max_overflow_refs content_first

end View

section Selections

variable {H : Host} {items : List RawItem} {max_items : Nat} {content_first : Bool} {raw : RawItem}

/-- The items of one priority after those of another. -/
def byPriority (H : Host) (items : List RawItem) : List RawItem :=
  [0, 1, 2].flatMap fun priority =>
    items.filter fun raw => _ledger_item_selection_priority H raw = priority

theorem passes_map_fst : (passes H items).map Prod.fst = byPriority H items := by
  have hpass : ∀ k : Nat, (items.zipIdx.filter fun e =>
      _ledger_item_selection_priority H e.1 = k).map Prod.fst =
      items.filter fun raw => _ledger_item_selection_priority H raw = k := by
    intro k
    rw [← List.zipIdx_map_fst 0 items, List.filter_map, List.zipIdx_map_fst]
    rfl
  simp only [passes, byPriority, List.flatMap_cons, List.flatMap_nil, List.append_nil,
    List.map_append, hpass]

theorem priority_le_two (raw : RawItem) : _ledger_item_selection_priority H raw ≤ 2 := by
  unfold _ledger_item_selection_priority
  dsimp only
  split_ifs <;> omega

theorem byPriority_perm : List.Perm (byPriority H items) items := by
  let p := _ledger_item_selection_priority H
  have hone : (items.filter fun raw => !decide (p raw = 0)).filter (fun raw => p raw = 1) =
      items.filter fun raw => p raw = 1 := by
    rw [List.filter_filter]
    refine List.filter_congr fun raw _ => ?_
    by_cases h : p raw = 1 <;> simp [h]
  have htwo : (items.filter fun raw => !decide (p raw = 0)).filter (fun raw => !decide (p raw = 1)) =
      items.filter fun raw => p raw = 2 := by
    rw [List.filter_filter]
    refine List.filter_congr fun raw _ => ?_
    have hle : p raw ≤ 2 := priority_le_two raw
    by_cases h : p raw = 2
    · simp [h]
    · have hor : p raw = 0 ∨ p raw = 1 := by omega
      rcases hor with h | h <;> simp [h]
  have hrest := List.filter_append_perm (fun raw => p raw = 1) (items.filter fun raw =>
    !decide (p raw = 0))
  rw [hone, htwo] at hrest
  have hall := (hrest.append_left (items.filter fun raw => p raw = 0)).trans
    (List.filter_append_perm (fun raw => p raw = 0) items)
  simpa [byPriority] using hall

theorem select_of_le (h : content_first = false ∨ items.length ≤ max_items) :
    _select_ledger_items_for_budget H items max_items content_first = items := if_pos h

theorem select_perm (h : max_items < items.length) (hm : 1 ≤ max_items) :
    List.Perm (_select_ledger_items_for_budget H items max_items true)
      ((byPriority H items).take max_items) := by
  have hno : ¬ (true = false ∨ items.length ≤ max_items) := by simp; omega
  rw [_select_ledger_items_for_budget, if_neg hno, Nat.max_eq_right hm, ← passes_map_fst,
    ← List.map_take]
  exact (List.perm_insertionSort _ _).map Prod.fst

structure Selects (items : List RawItem) (max_items : Nat) (shown : List RawItem) : Prop where
  subperm : shown.Subperm items
  length : shown.length = min items.length max_items

theorem take_select (hm : 1 ≤ max_items) :
    Selects items max_items
      ((_select_ledger_items_for_budget H items max_items content_first).take max_items) := by
  by_cases h : content_first = false ∨ items.length ≤ max_items
  · rw [select_of_le h]
    exact ⟨(List.take_sublist _ _).subperm, by rw [List.length_take, Nat.min_comm]⟩
  · obtain ⟨hcf, hlt⟩ := not_or.mp h
    rw [Bool.not_eq_false] at hcf
    subst hcf
    have hperm := select_perm (H := H) (Nat.not_le.mp hlt) hm
    have hlen := hperm.length_eq
    rw [List.length_take, byPriority_perm.length_eq] at hlen
    rw [List.take_of_length_le (by omega)]
    refine ⟨hperm.subperm.trans ((List.take_sublist _ _).subperm.trans byPriority_perm.subperm), ?_⟩
    omega

theorem content_of_left_out (hm : 1 ≤ max_items) (hraw : raw ∈ items)
    (hp : _ledger_item_selection_priority H raw = 0)
    (hout : raw ∉ (_select_ledger_items_for_budget H items max_items true).take max_items) :
    ∀ x ∈ (_select_ledger_items_for_budget H items max_items true).take max_items,
      _ledger_item_selection_priority H x = 0 := by
  by_cases h : items.length ≤ max_items
  · rw [select_of_le (.inr h), List.take_of_length_le h] at hout
    exact absurd hraw hout
  · have hperm := select_perm (H := H) (Nat.not_le.mp h) hm
    have hlen := hperm.length_eq
    rw [List.length_take, byPriority_perm.length_eq] at hlen
    rw [List.take_of_length_le (by omega)] at hout ⊢
    intro x hx
    have hx' := hperm.mem_iff.mp hx
    have hout' : raw ∉ (byPriority H items).take max_items := fun hin => hout (hperm.mem_iff.mpr hin)
    have hzero : raw ∈ items.filter fun raw => _ledger_item_selection_priority H raw = 0 :=
      List.mem_filter.mpr ⟨hraw, by simpa using hp⟩
    rw [byPriority, List.flatMap_cons, List.take_append] at hx' hout'
    have hshort : max_items ≤ (items.filter fun raw =>
        _ledger_item_selection_priority H raw = 0).length := by
      by_contra hlong
      rw [List.take_of_length_le (by omega)] at hout'
      exact hout' (List.mem_append_left _ hzero)
    rw [Nat.sub_eq_zero_of_le hshort, List.take_zero, List.append_nil] at hx'
    simpa using (List.mem_filter.mp (List.mem_of_mem_take hx')).2

theorem cited_fst (items : List RawItem) (first : Nat) : (cited first items).map Prod.fst = items := by
  rw [cited, List.map_map]
  exact List.zipIdx_map_fst first items

theorem cited_append (first : Nat) (more : List RawItem) :
    cited first items ++ cited (first + items.length) more = cited first (items ++ more) := by
  rw [cited, cited, cited, List.zipIdx_append, List.map_append]

theorem cited_nodup (first : Nat) : ((cited first items).map Prod.snd).Nodup := by
  rw [cited, List.map_map]
  have hmap : (fun entry : RawItem × Nat => 'e' :: natText entry.2) =
      (fun n => 'e' :: natText n) ∘ Prod.snd := rfl
  rw [Function.comp_def, hmap, ← List.map_map, List.zipIdx_map_snd]
  have hrange : (List.range' first items.length).Nodup := List.nodup_range'
  refine hrange.map ?_
  intro a b h
  exact natText_injective (List.cons.inj h).2

end Selections

def View.objects (v : View) : List Nat := v.items.map fun x => x.1.object

/-- `raw` is the list of the evidence items, each entry with the object it is. -/
structure Conserves (H : Host) (raw : List RawItem) (max_items max_overflow_refs : Nat)
    (content_first : Bool) (v : View) : Prop where
  shown : v.items.length = min raw.length max_items
  further : v.overflow_item_refs.length =
    min (raw.countP fun x => x.object ∉ v.objects) max_overflow_refs
  once : ((v.items ++ v.overflow_item_refs).map Prod.fst).Subperm raw
  apart : ∀ x ∈ v.overflow_item_refs, x.1.object ∉ v.objects
  handles : ((v.items ++ v.overflow_item_refs).map Prod.snd).Nodup
  content : content_first = true → ∀ x ∈ raw, _ledger_item_selection_priority H x = 0 →
    x ∉ v.items.map Prod.fst → ∀ y ∈ v.items, _ledger_item_selection_priority H y.1 = 0
  overflow : ∀ x ∈ raw, _ledger_item_selection_priority H x = 0 → x.object ∉ v.objects →
    x ∉ v.overflow_item_refs.map Prod.fst →
      ∀ y ∈ v.overflow_item_refs, _ledger_item_selection_priority H y.1 = 0
  distinct : (raw.map RawItem.object).Nodup → v.overflow_item_refs.length =
    min (raw.length - v.items.length) max_overflow_refs

section Views

variable {H : Host} {raw : List RawItem} {max_items max_overflow_refs : Nat} {content_first : Bool}

theorem length_cited (first : Nat) (items : List RawItem) :
    (cited first items).length = items.length := by
  have h := congrArg List.length (cited_fst items first)
  rwa [List.length_map] at h

theorem partition_subperm {shown rest : List RawItem} {keys : List Nat}
    (hs : shown.Subperm raw) (hk : ∀ x ∈ shown, x.object ∈ keys)
    (hr : rest.Subperm (raw.filter fun x => x.object ∉ keys)) : (shown ++ rest).Subperm raw := by
  have hin := hs.filter fun x => decide (x.object ∈ keys)
  rw [List.filter_eq_self.mpr fun x hx => decide_eq_true (hk x hx)] at hin
  have hperm := List.filter_append_perm (fun x : RawItem => decide (x.object ∈ keys)) raw
  simp only [← decide_not] at hperm
  exact (hin.append hr).trans hperm.subperm

theorem length_rest {shown : List RawItem} (hs : shown.Subperm raw)
    (hn : (raw.map RawItem.object).Nodup) :
    (raw.filter fun x => x.object ∉ shown.map RawItem.object).length =
      raw.length - shown.length := by
  let keys := shown.map RawItem.object
  have hperm := List.filter_append_perm (fun x : RawItem => decide (x.object ∈ keys)) raw
  simp only [← decide_not] at hperm
  have hlen := hperm.length_eq
  rw [List.length_append] at hlen
  have hin := hs.filter fun x => decide (x.object ∈ keys)
  rw [List.filter_eq_self.mpr fun x hx => decide_eq_true (List.mem_map_of_mem hx)] at hin
  have hsame : ((raw.filter fun x => x.object ∈ keys).map RawItem.object).Subperm keys := by
    refine List.subperm_of_subset (hn.sublist (List.filter_sublist.map _)) ?_
    intro k hk
    obtain ⟨x, hx, rfl⟩ := List.mem_map.mp hk
    simpa using (List.mem_filter.mp hx).2
  have hle := hsame.length_le
  have hge := hin.length_le
  simp only [keys, List.length_map] at hle hge hlen
  omega

theorem conserves_of_selects {shown rest : List RawItem} (hs : Selects raw max_items shown)
    (hr : Selects (raw.filter fun x => x.object ∉ shown.map RawItem.object) max_overflow_refs rest)
    (hc : content_first = true → ∀ x ∈ raw, _ledger_item_selection_priority H x = 0 →
      x ∉ shown → ∀ y ∈ shown, _ledger_item_selection_priority H y = 0)
    (ho : ∀ x ∈ raw.filter (fun x => x.object ∉ shown.map RawItem.object),
      _ledger_item_selection_priority H x = 0 → x ∉ rest →
        ∀ y ∈ rest, _ledger_item_selection_priority H y = 0) (count omitted : Nat) :
    Conserves H raw max_items max_overflow_refs content_first
      ⟨cited 1 shown, cited (shown.length + 1) rest, count, omitted⟩ := by
  have hobjects : (cited 1 shown).map (fun x => x.1.object) = shown.map RawItem.object := by
    rw [← congrArg (List.map RawItem.object) (cited_fst shown 1), List.map_map]
    rfl
  have hmem : ∀ (first : Nat) (items : List RawItem), ∀ x ∈ cited first items, x.1 ∈ items := by
    intro first items x hx
    rw [← cited_fst items first]
    exact List.mem_map_of_mem hx
  have hall : cited 1 shown ++ cited (shown.length + 1) rest = cited 1 (shown ++ rest) := by
    rw [Nat.add_comm, cited_append]
  constructor
  · rw [length_cited, hs.length]
  · rw [length_cited, hr.length, View.objects, hobjects, List.countP_eq_length_filter]
  · rw [hall, cited_fst]
    exact partition_subperm hs.subperm (fun x hx => List.mem_map_of_mem hx) hr.subperm
  · intro x hx
    rw [View.objects, hobjects]
    simpa using (List.mem_filter.mp (hr.subperm.subset (hmem _ _ x hx))).2
  · rw [hall]
    exact cited_nodup 1
  · rw [cited_fst]
    exact fun h x hx hp hout y hy => hc h x hx hp hout y.1 (hmem _ _ y hy)
  · rw [cited_fst, View.objects, hobjects]
    exact fun x hx hp hkey hout y hy =>
      ho x (List.mem_filter.mpr ⟨hx, decide_eq_true hkey⟩) hp hout y.1 (hmem _ _ y hy)
  · intro hn
    rw [length_cited, length_cited, hr.length, length_rest hs.subperm hn]

theorem conserves_viewOf (hm : 1 ≤ max_items) (ho : 1 ≤ max_overflow_refs) :
    Conserves H raw max_items max_overflow_refs content_first
      (viewOf H raw max_items max_overflow_refs content_first) := by
  have hs : Selects raw max_items
      ((_select_ledger_items_for_budget H raw max_items content_first).take max_items) :=
    take_select hm
  have hc : content_first = true → ∀ x ∈ raw, _ledger_item_selection_priority H x = 0 →
      x ∉ (_select_ledger_items_for_budget H raw max_items content_first).take max_items →
      ∀ y ∈ (_select_ledger_items_for_budget H raw max_items content_first).take max_items,
        _ledger_item_selection_priority H y = 0 := by
    intro h
    subst h
    exact fun x => content_of_left_out hm
  simp only [viewOf, Nat.max_eq_right hm]
  split
  · exact conserves_of_selects hs (take_select ho) hc (fun x => content_of_left_out ho) _ _
  · next hall =>
    have hperm : List.Perm ((_select_ledger_items_for_budget H raw max_items content_first).take
        max_items) raw := hs.subperm.perm_of_length_le (by omega)
    have hnone : (raw.filter fun x => x.object ∉ ((_select_ledger_items_for_budget H raw max_items
        content_first).take max_items).map RawItem.object) = [] := by
      refine List.filter_eq_nil_iff.mpr fun x hx => ?_
      rw [decide_eq_true_iff, not_not]
      exact List.mem_map_of_mem (hperm.mem_iff.mpr hx)
    refine conserves_of_selects hs ?_ hc (hnone ▸ nofun) _ _
    rw [hnone]
    exact ⟨List.Subperm.refl [], (Nat.zero_min _).symm⟩

theorem catalogued_spec {catalog : TaskReferenceCatalog} {object : Nat} {items : List RawItem}
    (h : catalogued H catalog object items = .ok raw) :
    raw.length = items.length ∧ raw.map RawItem.object = List.range' object items.length := by
  induction items generalizing catalog object raw with
  | nil =>
    cases h
    exact ⟨rfl, rfl⟩
  | cons item rest ih =>
    unfold catalogued at h
    split at h
    · cases h
    · next catalog _ =>
      cases hrest : catalogued H catalog (object + 1) rest with
      | error e =>
        rw [hrest] at h
        cases h
      | ok others =>
        obtain ⟨hlen, hobjects⟩ := ih hrest
        rw [hrest] at h
        cases h
        exact ⟨congrArg (· + 1) hlen, congrArg (object :: ·) hobjects⟩

end Views

def asciiHost : Host where
  strOf _ := ""
  reprOf s := s
  lower s := s
  dumps _ := "\x7b\x7d"
  sha256 _ := "44136fa355b3678a1146ad16f7e8649e94fb4fc21fe77e8310c060f61caaff8a"
  sha256_ne _ := by decide

def quoted : RawItem := { object := 0, item := [("id", .str "q"), ("body", .str "text")] }
def pointed : RawItem := { object := 1, item := [("id", .str "p")] }

end Agently.AgentTask.EvidenceLedger
