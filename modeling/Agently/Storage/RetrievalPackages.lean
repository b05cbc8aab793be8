import Mathlib
import Agently.TaskDAG.TaskDAGData

/-! # Packages of retrieved records

Source: `storage/Retrieval.py` (`_char_budget`, `_item_char_budget`, `_excerpt`,
`_project_record_value`, `_record_item`, `_apply_rerank_decisions`, `_rerank_with_degrade`,
`_package_candidates`). -/

namespace Agently.Storage.Retrieval

open Agently.TaskDAGValidation (isSpace)

abbrev Text := List Char

/-- The integers a caller gives; what is none of them counts as not given. -/
structure Budget where
  chars : Option Int := none
  tokens : Option Int := none
  item_chars : Option Int := none
  top_n : Option Int := none
  rerank_candidates : Option Int := none

def char_budget (b : Budget) : Nat :=
  match b.chars, b.tokens with
  | some chars, _ => (max 1 chars).toNat
  | none, some tokens => (max 1 (tokens * 4)).toNat
  | none, none => 12000

def item_char_budget (b : Budget) (char_budget : Nat) : Nat :=
  (max 1 (min (char_budget : Int) (b.item_chars.getD 2400))).toNat

def marker : Text := ['\n', '[', 't', 'r', 'u', 'n', 'c', 'a', 't', 'e', 'd', ']']

def rstrip (t : Text) : Text := (t.reverse.dropWhile isSpace).reverse

def excerpt (content : Text) (max_chars : Nat) : Text :=
  if max_chars = 0 then []
  else if content.length ≤ max_chars then content
  else rstrip (content.take (max_chars - 15)) ++ marker

inductive Mode where
  | auto
  | raw
  | projected
deriving DecidableEq

/-- The texts that a record's value is written as; `structured` says that the value is a mapping
or a sequence other than a text. The compact text is cut to the room there is. -/
structure RecordTexts where
  structured : Bool
  raw_text : Text
  projected_text : Text
  compact_structured_text : Nat → Text

structure Projection where
  content : Text
  chosen_representation : String
  content_state : String
  truncated : Bool

def auto_compact_structured_limit (max_chars : Nat) : Nat := max 400 (min max_chars 1400)

def projection (text : Text) (max_chars : Nat) (chosen content_state : String) : Projection :=
  { content := excerpt text max_chars
    chosen_representation := chosen
    content_state := content_state
    truncated := marker.isSuffixOf (excerpt text max_chars) }

def project_record_value (v : RecordTexts) (max_chars : Nat) (mode : Mode) : Projection :=
  let compact := v.compact_structured_text max_chars
  if mode = .raw ∨ v.structured = false then
    projection v.raw_text max_chars "raw" "bounded_readback_available"
  else if mode = .auto ∧ compact ≠ [] ∧
      compact.length ≤ auto_compact_structured_limit max_chars then
    projection compact max_chars "compact_structured" "compact_structured_record"
  else if v.projected_text = [] then
    projection v.raw_text max_chars "raw" "bounded_readback_available"
  else if mode = .auto ∧ v.raw_text.length ≤ v.projected_text.length then
    projection v.raw_text max_chars "raw" "bounded_readback_available"
  else projection v.projected_text max_chars "projected" "projected_from_raw_record"

structure Candidate (Score : Type) where
  candidate_id : String
  summary : Text
  value : RecordTexts
  score : Option Score

structure Item where
  summary : Text
  content : Text
  chars : Nat
  projection : Projection

variable {Score : Type}

def record_item (c : Candidate Score) (item_char_budget : Nat) (mode : Mode) : Item :=
  let projection := project_record_value c.value item_char_budget mode
  { summary := c.summary
    content := projection.content
    chars := c.summary.length + projection.content.length
    projection := projection }

structure Decision (Score : Type) where
  useful : Bool
  score : Option Score

/-- The sort key of `a` is no less than that of `b`. -/
def rankedBefore [LinearOrder Score] (a b : Candidate Score) : Bool :=
  match a.score, b.score with
  | some x, some y => decide (y ≤ x)
  | none, some _ => false
  | _, none => true

def keep (decisions : String → Option (Decision Score)) (c : Candidate Score) :
    Option (Candidate Score) :=
  match decisions c.candidate_id with
  | none => some c
  | some d => if d.useful then some { c with score := d.score } else none

def apply_rerank_decisions [LinearOrder Score] (decisions : String → Option (Decision Score))
    (candidates : List (Candidate Score)) : List (Candidate Score) × Nat :=
  let kept := candidates.filterMap (keep decisions)
  (kept.mergeSort rankedBefore, candidates.length - kept.length)

def rerank_limit (b : Budget) (count : Nat) : Nat :=
  match b.rerank_candidates, b.top_n with
  | some n, _ => (max 1 (min (count : Int) n)).toNat
  | none, some n => (max 1 (min (min (count : Int) 30) (max (max (n * 3) (n + 10)) 20))).toNat
  | none, none => max 1 (min count 20)

/-- `attempts` are the handler's answers, `none` where it raises or decides nothing. -/
def rerank_with_degrade [LinearOrder Score] (b : Budget)
    (attempts : List (Option (String → Option (Decision Score))))
    (candidates : List (Candidate Score)) : List (Candidate Score) × Nat :=
  let limit := rerank_limit b candidates.length
  match attempts.findSome? id with
  | none => (candidates, 0)
  | some decisions =>
    let ranked := apply_rerank_decisions decisions (candidates.take limit)
    (ranked.1 ++ candidates.drop limit, ranked.2)

inductive Selection where
  | length
  | top_n
deriving DecidableEq

structure Request where
  budget : Budget
  mode : Mode
  selection : Selection
  top_n : Option Int

def Request.chars (q : Request) : Nat := char_budget q.budget

def Request.item_chars (q : Request) : Nat := item_char_budget q.budget q.chars

def Request.asked (q : Request) : Option Int := q.top_n.or q.budget.top_n

def Request.limit (q : Request) : Option Nat := q.asked.map fun n => (max 1 n).toNat

structure Package where
  items : List Item
  used_chars : Nat
  omitted_budget : Nat

def cut (char_budget : Nat) (item : Item) : Item :=
  let content := excerpt item.content (char_budget - item.summary.length)
  { item with content := content, chars := item.summary.length + content.length }

def Request.add (q : Request) (p : Package) (c : Candidate Score) : Package :=
  if q.selection = .top_n ∧ (q.limit.any fun n => n ≤ p.items.length) = true then
    { p with omitted_budget := p.omitted_budget + 1 }
  else
    let item := record_item c q.item_chars q.mode
    if q.selection = .length ∧ p.items ≠ [] ∧ q.chars < p.used_chars + item.chars then
      { p with omitted_budget := p.omitted_budget + 1 }
    else
      let item :=
        if q.selection = .length ∧ p.items = [] ∧ q.chars < item.chars then cut q.chars item
        else item
      { p with items := p.items ++ [item], used_chars := p.used_chars + item.chars }

def package_candidates (q : Request) (candidates : List (Candidate Score)) : Package :=
  candidates.foldl q.add { items := [], used_chars := 0, omitted_budget := 0 }

theorem length_rstrip (t : Text) : (rstrip t).length ≤ t.length := by
  unfold rstrip
  rw [List.length_reverse]
  exact Nat.le_trans (List.length_dropWhile_le _ _) (Nat.le_of_eq List.length_reverse)

theorem length_excerpt_of_lt {t : Text} {n : Nat} (h0 : 0 < n) (h : n < t.length) :
    12 ≤ (excerpt t n).length ∧ (excerpt t n).length ≤ max 12 n := by
  have hm : marker.length = 12 := rfl
  have hs := length_rstrip (t.take (n - 15))
  rw [List.length_take] at hs
  unfold excerpt
  rw [if_neg (by omega), if_neg (by omega), List.length_append, hm]
  omega

theorem length_excerpt_le_iff {t : Text} {n : Nat} (h0 : 0 < n) :
    (excerpt t n).length ≤ n ↔ t.length ≤ n ∨ 12 ≤ n := by
  rcases Nat.lt_or_ge n t.length with h | h
  · have := length_excerpt_of_lt h0 h
    omega
  · rw [excerpt, if_neg (by omega), if_pos h]
    omega

def chosenText (v : RecordTexts) (max_chars : Nat) (mode : Mode) : Text :=
  let compact := v.compact_structured_text max_chars
  if mode = .raw ∨ v.structured = false then v.raw_text
  else if mode = .auto ∧ compact ≠ [] ∧
      compact.length ≤ auto_compact_structured_limit max_chars then compact
  else if v.projected_text = [] then v.raw_text
  else if mode = .auto ∧ v.raw_text.length ≤ v.projected_text.length then v.raw_text
  else v.projected_text

theorem content_project (v : RecordTexts) (n : Nat) (mode : Mode) :
    (project_record_value v n mode).content = excerpt (chosenText v n mode) n := by
  unfold project_record_value chosenText projection
  simp only
  split_ifs <;> rfl

def Fits (q : Request) (c : Candidate Score) : Prop :=
  (chosenText c.value q.item_chars q.mode).length ≤ q.item_chars ∨ 12 ≤ q.item_chars

theorem content_le_iff (q : Request) (c : Candidate Score) :
    (record_item c q.item_chars q.mode).content.length ≤ q.item_chars ↔ Fits q c := by
  have h0 : 0 < q.item_chars := by
    unfold Request.item_chars item_char_budget
    omega
  simp only [record_item, content_project]
  exact length_excerpt_le_iff h0

def shown (q : Request) (c : Candidate Score) : Nat := (record_item c q.item_chars q.mode).chars

/-- The candidates after the first for which there is room, `used` characters being taken. -/
def admitted (q : Request) : Nat → List (Candidate Score) → List (Candidate Score)
  | _, [] => []
  | used, c :: cs =>
    if used + shown q c ≤ q.chars then c :: admitted q (used + shown q c) cs
    else admitted q used cs

def firstItem (q : Request) (c : Candidate Score) : Item :=
  if q.chars < shown q c then cut q.chars (record_item c q.item_chars q.mode)
  else record_item c q.item_chars q.mode

theorem add_length (q : Request) (hq : q.selection = .length) (cs : List (Candidate Score))
    (p : Package) (hp : p.items ≠ []) (hused : p.used_chars ≤ q.chars) :
    (cs.foldl q.add p).items = p.items ++
        (admitted q p.used_chars cs).map (fun c => record_item c q.item_chars q.mode) ∧
      (cs.foldl q.add p).used_chars ≤ q.chars := by
  induction cs generalizing p with
  | nil => exact ⟨(List.append_nil _).symm, hused⟩
  | cons c cs ih =>
    have hadd : q.add p c = if p.used_chars + shown q c ≤ q.chars then
        { p with
          items := p.items ++ [record_item c q.item_chars q.mode]
          used_chars := p.used_chars + shown q c }
        else { p with omitted_budget := p.omitted_budget + 1 } := by
      simp only [Request.add, hq, reduceCtorEq, false_and, if_false, true_and, hp, ne_eq,
        not_false_eq_true]
      rw [show (record_item c q.item_chars q.mode).chars = shown q c from rfl]
      by_cases h : q.chars < p.used_chars + shown q c
      · rw [if_pos h, if_neg (by omega)]
      · rw [if_neg h, if_pos (by omega)]
    rw [List.foldl_cons, hadd, admitted]
    by_cases hroom : p.used_chars + shown q c ≤ q.chars
    · rw [if_pos hroom, if_pos hroom]
      obtain ⟨hitems, hle⟩ := ih { p with
          items := p.items ++ [record_item c q.item_chars q.mode]
          used_chars := p.used_chars + shown q c } (by simp) hroom
      refine ⟨?_, hle⟩
      rw [hitems, List.append_assoc]
      rfl
    · rw [if_neg hroom, if_neg hroom]
      exact ih _ hp hused

theorem add_top_n (q : Request) (hq : q.selection = .top_n) (cs : List (Candidate Score))
    (p : Package) :
    (cs.foldl q.add p).items = p.items ++
      ((q.limit.elim cs fun n => cs.take (n - p.items.length)).map
        fun c => record_item c q.item_chars q.mode) := by
  induction cs generalizing p with
  | nil => cases q.limit <;> simp
  | cons c cs ih =>
    rw [List.foldl_cons, ih]
    simp only [Request.add, hq, reduceCtorEq, false_and, if_false, true_and]
    cases hl : q.limit with
    | none => simp
    | some n =>
      by_cases hfull : n ≤ p.items.length
      · simp [hfull, Nat.sub_eq_zero_of_le hfull]
      · have hsucc : n - p.items.length = n - (p.items.length + 1) + 1 := by omega
        simp [hfull, hsucc]

theorem add_cases (q : Request) (p : Package) (c : Candidate Score) :
    q.add p c = { p with omitted_budget := p.omitted_budget + 1 } ∨
      ∃ item, q.add p c =
        { p with items := p.items ++ [item], used_chars := p.used_chars + item.chars } := by
  unfold Request.add
  dsimp only
  split_ifs
  · exact Or.inl rfl
  · exact Or.inl rfl
  all_goals exact Or.inr ⟨_, rfl⟩

theorem add_accounts (q : Request) (cs : List (Candidate Score)) (p : Package)
    (hp : (p.items.map Item.chars).sum = p.used_chars) :
    ((cs.foldl q.add p).items.map Item.chars).sum = (cs.foldl q.add p).used_chars ∧
      (cs.foldl q.add p).items.length + (cs.foldl q.add p).omitted_budget =
        p.items.length + p.omitted_budget + cs.length ∧
      p.used_chars ≤ (cs.foldl q.add p).used_chars := by
  induction cs generalizing p with
  | nil => exact ⟨hp, rfl, Nat.le_refl _⟩
  | cons c cs ih =>
    rw [List.foldl_cons, List.length_cons]
    rcases add_cases q p c with h | ⟨item, h⟩ <;> rw [h]
    · obtain ⟨hsum, hcount, hused⟩ := ih { p with omitted_budget := p.omitted_budget + 1 } hp
      exact ⟨hsum, by rw [hcount]; simp only; omega, hused⟩
    · obtain ⟨hsum, hcount, hused⟩ := ih
        { p with items := p.items ++ [item], used_chars := p.used_chars + item.chars }
        (by simp [hp])
      simp only [List.length_append, List.length_singleton] at hcount hused
      exact ⟨hsum, by omega, by omega⟩

/-- The package of the ranked candidates, with what the reranking has dropped. -/
structure Within (q : Request) (p : Package) (dropped count : Nat) : Prop where
  chars : q.selection = .length → (p.items.map Item.chars).sum ≤ q.chars
  top_n : q.selection = .top_n → ∀ n, q.asked = some n → (p.items.length : Int) ≤ n
  contents : ∀ item ∈ p.items, item.content.length ≤ q.item_chars
  accounts : p.items.length + p.omitted_budget + dropped = count

def LengthFits (q : Request) : List (Candidate Score) → Prop
  | [] => True
  | c :: cs =>
    (if shown q c ≤ q.chars then Fits q c
      else c.summary.length = q.chars ∨ c.summary.length + 12 ≤ q.chars) ∧
    ∀ d ∈ admitted q (firstItem q c).chars cs, Fits q d

def TopFits (q : Request) (cs : List (Candidate Score)) : Prop :=
  (∀ n, q.asked = some n → 1 ≤ n ∨ cs = [] ∧ n = 0) ∧ ∀ c ∈ q.limit.elim cs cs.take, Fits q c

theorem package_cons (q : Request) (hq : q.selection = .length) (c : Candidate Score)
    (cs : List (Candidate Score)) :
    package_candidates q (c :: cs) =
      cs.foldl q.add ⟨[firstItem q c], (firstItem q c).chars, 0⟩ := by
  have hadd : q.add ⟨[], 0, 0⟩ c = ⟨[firstItem q c], (firstItem q c).chars, 0⟩ := by
    simp only [Request.add, hq, reduceCtorEq, false_and, if_false, true_and, ne_eq,
      not_true_eq_false, List.nil_append, Nat.zero_add, firstItem, shown]
    rfl
  rw [package_candidates, List.foldl_cons, hadd]

theorem firstItem_within (q : Request) (c : Candidate Score) :
    ((firstItem q c).chars ≤ q.chars ∧ (firstItem q c).content.length ≤ q.item_chars) ↔
      if shown q c ≤ q.chars then Fits q c
      else c.summary.length = q.chars ∨ c.summary.length + 12 ≤ q.chars := by
  have hfit := content_le_iff q c
  have hlong : q.item_chars < (record_item c q.item_chars q.mode).content.length →
      (record_item c q.item_chars q.mode).content.length ≤ 12 := by
    intro h
    have h0 : 0 < q.item_chars := by
      unfold Request.item_chars item_char_budget
      omega
    simp only [record_item, content_project] at h ⊢
    rcases Nat.lt_or_ge q.item_chars (chosenText c.value q.item_chars q.mode).length with hl | hl
    · have := length_excerpt_of_lt h0 hl
      omega
    · rw [excerpt, if_neg (by omega), if_pos hl] at h
      omega
  have hshown : shown q c =
      c.summary.length + (record_item c q.item_chars q.mode).content.length := rfl
  unfold firstItem
  by_cases hle : shown q c ≤ q.chars
  · rw [if_neg (by omega), if_pos hle, hfit]
    exact ⟨fun h => h.2, fun h => ⟨hle, h⟩⟩
  · rw [if_pos (by omega), if_neg hle]
    have hsummary : (record_item c q.item_chars q.mode).summary = c.summary := rfl
    simp only [cut, hsummary]
    generalize (record_item c q.item_chars q.mode).content = t at hlong hshown
    rcases Nat.eq_zero_or_pos (q.chars - c.summary.length) with h0 | hpos
    · rw [h0, excerpt, if_pos rfl, List.length_nil]
      omega
    · have hcut := length_excerpt_of_lt (t := t) hpos (by omega)
      omega

theorem package_within_length (q : Request) (hq : q.selection = .length)
    (cs : List (Candidate Score)) :
    ((package_candidates q cs).used_chars ≤ q.chars ∧
      ∀ item ∈ (package_candidates q cs).items, item.content.length ≤ q.item_chars) ↔
        LengthFits q cs := by
  cases cs with
  | nil => simp [package_candidates, LengthFits]
  | cons c cs =>
    rw [package_cons q hq, LengthFits, ← firstItem_within]
    have hmono : (firstItem q c).chars ≤
        (cs.foldl q.add ⟨[firstItem q c], (firstItem q c).chars, 0⟩).used_chars := by
      exact (add_accounts q cs ⟨[firstItem q c], (firstItem q c).chars, 0⟩ (by simp)).2.2
    constructor
    · rintro ⟨hchars, hcontents⟩
      obtain ⟨hitems, -⟩ := add_length q hq cs
        ⟨[firstItem q c], (firstItem q c).chars, 0⟩ (by simp) (by simp only; omega)
      rw [hitems] at hcontents
      refine ⟨⟨by omega, hcontents _ (by simp)⟩, ?_⟩
      intro d hd
      exact (content_le_iff q d).mp
        (hcontents _ (List.mem_append_right _ (List.mem_map_of_mem hd)))
    · rintro ⟨⟨hfirst, hcontent⟩, hrest⟩
      obtain ⟨hitems, hle⟩ := add_length q hq cs
        ⟨[firstItem q c], (firstItem q c).chars, 0⟩ (by simp) hfirst
      refine ⟨hle, ?_⟩
      rw [hitems]
      intro item hitem
      rcases List.mem_append.mp hitem with hm | hm
      · rw [List.mem_singleton.mp hm]
        exact hcontent
      · obtain ⟨d, hd, rfl⟩ := List.mem_map.mp hm
        exact (content_le_iff q d).mpr (hrest d hd)

theorem package_within_top (q : Request) (hq : q.selection = .top_n)
    (cs : List (Candidate Score)) :
    ((∀ n, q.asked = some n → ((package_candidates q cs).items.length : Int) ≤ n) ∧
      ∀ item ∈ (package_candidates q cs).items, item.content.length ≤ q.item_chars) ↔
        TopFits q cs := by
  have hitems : (package_candidates q cs).items =
      (q.limit.elim cs cs.take).map fun c => record_item c q.item_chars q.mode := by
    rw [package_candidates, add_top_n q hq]
    cases q.limit <;> rfl
  rw [hitems, TopFits]
  apply and_congr
  · unfold Request.limit
    cases q.asked with
    | none => simp
    | some n =>
      simp only [Option.some.injEq, forall_eq', Option.map_some, Option.elim, List.length_map,
        List.length_take, ← List.length_eq_zero_iff]
      omega
  · simp only [List.forall_mem_map, content_le_iff]

theorem rerank_accounts [LinearOrder Score] (b : Budget)
    (attempts : List (Option (String → Option (Decision Score)))) (cs : List (Candidate Score)) :
    (rerank_with_degrade b attempts cs).1.length + (rerank_with_degrade b attempts cs).2 =
      cs.length := by
  unfold rerank_with_degrade
  cases attempts.findSome? id with
  | none => rfl
  | some decisions =>
    have hle := List.length_filterMap_le (keep decisions)
      (cs.take (rerank_limit b cs.length))
    simp only [apply_rerank_decisions, List.length_append, List.length_mergeSort,
      List.length_drop]
    rw [List.length_take] at hle ⊢
    omega

/-- Exactly when the candidates that come in leave room for the mark, the package is within its
budgets; nothing is ever left unaccounted for. -/
theorem package_within_iff [LinearOrder Score] (q : Request)
    (attempts : List (Option (String → Option (Decision Score)))) (cs : List (Candidate Score)) :
    let ranked := rerank_with_degrade q.budget attempts cs
    Within q (package_candidates q ranked.1) ranked.2 cs.length ↔
      (q.selection = .length → LengthFits q ranked.1) ∧
        (q.selection = .top_n → TopFits q ranked.1) := by
  have hranked := rerank_accounts q.budget attempts cs
  generalize rerank_with_degrade q.budget attempts cs = ranked at hranked ⊢
  obtain ⟨hsum, hcount, -⟩ := add_accounts q ranked.1 ⟨[], 0, 0⟩ rfl
  have haccounts : (package_candidates q ranked.1).items.length +
      (package_candidates q ranked.1).omitted_budget + ranked.2 = cs.length := by
    rw [package_candidates, hcount, ← hranked]
    simp only [List.length_nil]
    omega
  cases hq : q.selection with
  | length =>
    have hiff := package_within_length q hq ranked.1
    simp only [reduceCtorEq, false_imp_iff, and_true, true_imp_iff]
    rw [← hiff]
    constructor
    · exact fun h => ⟨hsum ▸ h.chars hq, h.contents⟩
    · intro h
      have hne : q.selection ≠ .top_n := by simp [hq]
      exact ⟨fun _ => hsum ▸ h.1, fun ht => absurd ht hne, h.2, haccounts⟩
  | top_n =>
    have hiff := package_within_top q hq ranked.1
    simp only [reduceCtorEq, false_imp_iff, true_and, true_imp_iff]
    rw [← hiff]
    constructor
    · exact fun h => ⟨h.top_n hq, h.contents⟩
    · intro h
      have hne : q.selection ≠ .length := by simp [hq]
      exact ⟨fun hl => absurd hl hne, fun _ => h.1, h.2, haccounts⟩

theorem long_summary_exceeds :
    let q : Request := ⟨{ chars := some 1 }, .auto, .length, none⟩
    let c : Candidate Nat := ⟨"record:a", ['a', 'b'], ⟨false, [], [], fun _ => []⟩, none⟩
    ¬ Within q (package_candidates q [c]) 0 1 := by
  intro q c h
  exact absurd (h.chars rfl) (by decide)

end Agently.Storage.Retrieval
