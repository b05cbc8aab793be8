import Agently.Utils.ObservedBoundaries

/-! # The reports of a document

What is reported is a value of the document at its path, and of the whole document all values
below the root are reported, unless an integer has more digits than `int()` takes or the root
is a mapping with an empty key. -/

namespace Agently.Utils.ObservedValues

open Agently.Lib Agently.Lib.JsonText Agently.Lib.CutReader
open Agently.DataPathBuilder (bracketed)
open Agently.TaskDAGValidation (isSpace)
open Agently.Utils.IntText

def Value.get : List Part → Value → Option Value
  | [], v => some v
  | .key k :: parts, .dict kvs => (Dict.get? kvs k).bind (Value.get parts)
  | .index i :: parts, .list xs => xs[i]?.bind (Value.get parts)
  | _ :: _, _ => none

def memberKeys : Members → List Points
  | .nil => []
  | .cons _ key _ _ _ _ rest => decoded key :: memberKeys rest

def PlainKey (k : Points) : Prop := ∀ c ∈ ['.', '[', ']'], c.toNat ∉ k

mutual

def Tidy : Tree → Prop
  | .word _ | .string _ => True
  | .array _ items => ItemsTidy items
  | .object _ members => (memberKeys members).Nodup ∧ (∀ k ∈ memberKeys members, PlainKey k) ∧
      MembersTidy members

def ItemsTidy : Items → Prop
  | .nil => True
  | .cons _ value _ rest => Tidy value ∧ ItemsTidy rest

def MembersTidy : Members → Prop
  | .nil => True
  | .cons _ _ _ _ value _ rest => Tidy value ∧ MembersTidy rest

end

def pairs : Members → List (Points × Value)
  | .nil => []
  | .cons _ key _ _ value _ rest => (decoded key, valueOf value) :: pairs rest

theorem keys_pairs : ∀ members : Members, Dict.keys (pairs members) = memberKeys members
  | .nil => rfl
  | .cons _ key _ _ _ _ rest => congrArg (decoded key :: ·) (keys_pairs rest)

theorem entries_append : ∀ (members : Members) {set : Dict Points Value},
    (Dict.keys set ++ memberKeys members).Nodup → entries set members = set ++ pairs members
  | .nil, _, _ => (List.append_nil _).symm
  | .cons _ key _ _ value _ rest, set, hn => by
      rw [memberKeys] at hn
      have hnot : decoded key ∉ Dict.keys set := by
        intro hmem
        exact (List.nodup_append.mp hn).2.2 _ hmem _ List.mem_cons_self rfl
      have hnext : (Dict.keys (Dict.set set (decoded key) (valueOf value)) ++
          memberKeys rest).Nodup := by
        rw [Dict.keys_set_of_not_mem hnot, List.append_assoc]
        exact hn
      rw [entries, entries_append rest hnext, Dict.set_of_not_mem hnot, pairs, List.append_assoc]
      rfl

theorem entries_eq {members : Members} (hn : (memberKeys members).Nodup) :
    entries [] members = pairs members :=
  entries_append members hn

variable {k : Points} {v : Value}

theorem get_pairs {members : Members} (hn : (memberKeys members).Nodup)
    : Dict.get? (entries [] members) k = some v ↔ (k, v) ∈ pairs members := by
  rw [entries_eq hn]
  refine ⟨Dict.mem_of_get?, Dict.get?_of_mem ?_⟩
  rw [keys_pairs]
  exact hn

variable {part : Part} {q : List Part}

theorem get_list {xs : List Value} :
    (Value.list xs).get (part :: q) = some v ↔
      ∃ i x, part = .index i ∧ xs[i]? = some x ∧ x.get q = some v := by
  cases part with
  | key k => simp [Value.get]
  | index i => simp [Value.get, Option.bind_eq_some_iff]

theorem get_dict {kvs : List (Points × Value)} :
    (Value.dict kvs).get (part :: q) = some v ↔
      ∃ k x, part = .key k ∧ Dict.get? kvs k = some x ∧ x.get q = some v := by
  cases part with
  | key k => simp [Value.get, Option.bind_eq_some_iff]
  | index i => simp [Value.get]

theorem get_word {w : Text} :
    (Value.word w).get (part :: q) = none := by
  cases part <;> rfl

variable {s : Points}

theorem get_string :
    (Value.string s).get (part :: q) = none := by
  cases part <;> rfl

def Short (v : Value) : Prop := ∀ w, v = .word w → longInteger w = false

/-- A value below the one at `parts`, with its path. -/
def Below (parts : List Part) (v₀ : Value) (r : Report) : Prop :=
  ∃ q, v₀.get q = some r.2 ∧ r.1 = build_dot_path (parts ++ q) ∧ r.1 ≠ [] ∧ Short r.2

variable {parts : List Part} {r : Report}

theorem mem_report :
    r ∈ report parts v ↔ r.1 = build_dot_path parts ∧ r.1 ≠ [] ∧ r.2 = v := by
  obtain ⟨path, value⟩ := r
  rw [report]
  split_ifs with h
  · simp only [List.not_mem_nil, false_iff, h]
    exact fun hr => hr.2.1 hr.1
  · simp only [List.mem_singleton, Prod.mk.injEq]
    constructor
    · rintro ⟨rfl, rfl⟩
      exact ⟨rfl, h, rfl⟩
    · rintro ⟨rfl, -, rfl⟩
      exact ⟨rfl, rfl⟩

theorem below_cases {v₀ : Value} :
    Below parts v₀ r ↔ (Short v₀ ∧ r ∈ report parts v₀) ∨ ∃ part q,
      v₀.get (part :: q) = some r.2 ∧ r.1 = build_dot_path (parts ++ part :: q) ∧ r.1 ≠ [] ∧
        Short r.2 := by
  rw [mem_report]
  constructor
  · rintro ⟨q, hget, hpath, hne, hshort⟩
    cases q with
    | nil =>
      have hv : r.2 = v₀ := (Option.some.inj hget).symm
      rw [List.append_nil] at hpath
      exact .inl ⟨hv ▸ hshort, hpath, hne, hv⟩
    | cons part q => exact .inr ⟨part, q, hget, hpath, hne, hshort⟩
  · rintro (⟨hshort, hpath, hne, hv⟩ | ⟨part, q, hget, hrest⟩)
    · refine ⟨[], by rw [hv]; rfl, by rw [List.append_nil]; exact hpath, hne, ?_⟩
      rw [hv]
      exact hshort
    · exact ⟨part :: q, hget, hrest⟩

theorem below_word {w : Text} :
    Below parts (.word w) r ↔ longInteger w = false ∧ r ∈ report parts (.word w) := by
  have hshort : Short (.word w) ↔ longInteger w = false := by simp [Short]
  simp [below_cases, get_word, hshort]

theorem below_string :
    Below parts (.string s) r ↔ r ∈ report parts (.string s) := by
  have hshort : Short (.string s) := fun w hw => (nomatch hw)
  simp [below_cases, get_string, hshort]

theorem below_child {part : Part} {x : Value} :
    Below (parts ++ [part]) x r ↔ ∃ q, x.get q = some r.2 ∧
      r.1 = build_dot_path (parts ++ part :: q) ∧ r.1 ≠ [] ∧ Short r.2 := by
  simp only [Below, List.append_assoc, List.singleton_append]

theorem below_list {xs : List Value} :
    Below parts (.list xs) r ↔ r ∈ report parts (.list xs) ∨
      ∃ i x, xs[i]? = some x ∧ Below (parts ++ [.index i]) x r := by
  have hshort : Short (.list xs) := fun w hw => (nomatch hw)
  rw [below_cases]
  simp only [hshort, true_and, get_list, below_child]
  apply or_congr_right
  constructor
  · rintro ⟨_, q, ⟨i, x, rfl, hx, hq⟩, hrest⟩
    exact ⟨i, x, hx, q, hq, hrest⟩
  · rintro ⟨i, x, hx, q, hq, hrest⟩
    exact ⟨_, q, ⟨i, x, rfl, hx, hq⟩, hrest⟩

theorem below_dict {kvs : List (Points × Value)} :
    Below parts (.dict kvs) r ↔ r ∈ report parts (.dict kvs) ∨
      ∃ k x, Dict.get? kvs k = some x ∧ Below (parts ++ [.key k]) x r := by
  have hshort : Short (.dict kvs) := fun w hw => (nomatch hw)
  rw [below_cases]
  simp only [hshort, true_and, get_dict, below_child]
  apply or_congr_right
  constructor
  · rintro ⟨_, q, ⟨k, x, rfl, hx, hq⟩, hrest⟩
    exact ⟨k, x, hx, q, hq, hrest⟩
  · rintro ⟨k, x, hx, q, hq, hrest⟩
    exact ⟨_, q, ⟨k, x, rfl, hx, hq⟩, hrest⟩

theorem emits_wordMoves (parts : List Part) (w : Text) (r : Report) :
    r ∈ emits (wordMoves parts w) ↔ longInteger w = false ∧ r ∈ report parts (.word w) := by
  have hliteral : w ∈ literals → longInteger w = false := by
    have hall : ∀ w ∈ literals, longInteger w = false :=
      List.forall_iff_forall_mem.mp (by decide)
    exact hall w
  simp only [wordMoves, List.contains_iff_mem]
  split_ifs with hw hlong
  · simp [emits, Move.reports, hliteral hw]
  · simp [emits, Move.reports, hlong]
  · simp [emits, Move.reports, hlong]

theorem emits_separator (first : Bool) : emits (separator first) = [] := by
  cases first <;> rfl

mutual

theorem emits_tree : ∀ (τ : Tree), Tidy τ → ∀ (parts : List Part) (r : Report),
    r ∈ emits (moves parts τ) ↔ Below parts (valueOf τ) r
  | .word w, _, parts, r => by
      rw [moves, emits_wordMoves, valueOf, below_word]
  | .string body, _, parts, r => by
      rw [valueOf, below_string]
      simp [moves, emits, Move.reports]
  | .array _ items, ht, parts, r => by
      have hitems := emits_items items ht parts true 0 r
      simp only [Nat.zero_add] at hitems
      rw [valueOf, below_list, ← hitems, or_comm]
      simp [moves, emits, Move.reports]
  | .object _ members, ht, parts, r => by
      have hmembers := emits_members members ht.2.2 parts true r
      simp only [← get_pairs ht.1] at hmembers
      rw [valueOf, below_dict, ← hmembers, or_comm]
      simp [moves, emits, Move.reports]

theorem emits_items : ∀ (items : Items), ItemsTidy items →
    ∀ (parts : List Part) (first : Bool) (i : Nat) (r : Report),
    r ∈ emits (itemMoves parts first i items) ↔
      ∃ j x, (itemValues items)[j]? = some x ∧ Below (parts ++ [.index (i + j)]) x r
  | .nil, _, parts, first, i, r => by simp [itemMoves, itemValues, emits]
  | .cons _ value _ rest, ht, parts, first, i, r => by
      have hvalue := emits_tree value ht.1 (parts ++ [.index i]) r
      have hrest := emits_items rest ht.2 parts false (i + 1) r
      rw [itemMoves, emits_append, emits_separator, emits_append, emits_cons, List.mem_append,
        List.mem_append, List.mem_append, hvalue, hrest, itemValues]
      constructor
      · rintro (h | h | h | ⟨j, x, hx, hb⟩)
        · cases h
        · exact ⟨0, _, rfl, h⟩
        · cases h
        · refine ⟨j + 1, x, hx, ?_⟩
          rw [← Nat.add_assoc, Nat.add_right_comm]
          exact hb
      · rintro ⟨j, x, hx, hb⟩
        cases j with
        | zero =>
          cases hx
          exact .inr (.inl hb)
        | succ j =>
          refine .inr (.inr (.inr ⟨j, x, hx, ?_⟩))
          rw [Nat.add_right_comm, Nat.add_assoc]
          exact hb

theorem emits_members : ∀ (members : Members), MembersTidy members →
    ∀ (parts : List Part) (first : Bool) (r : Report),
    r ∈ emits (memberMoves parts first members) ↔
      ∃ k x, (k, x) ∈ pairs members ∧ Below (parts ++ [.key k]) x r
  | .nil, _, parts, first, r => by simp [memberMoves, pairs, emits]
  | .cons _ key _ _ value _ rest, ht, parts, first, r => by
      have hvalue := emits_tree value ht.1 (parts ++ [.key (decoded key)]) r
      have hrest := emits_members rest ht.2 parts false r
      rw [memberMoves, emits_append, emits_separator, List.nil_append]
      simp only [emits_cons, emits_append, Move.reports, List.nil_append, List.mem_append, hvalue,
        hrest, pairs, List.mem_cons, Prod.mk.injEq]
      constructor
      · rintro (h | ⟨k, x, hx, hb⟩)
        · exact ⟨_, _, .inl ⟨rfl, rfl⟩, h⟩
        · exact ⟨k, x, .inr hx, hb⟩
      · rintro ⟨k, x, ⟨rfl, rfl⟩ | hx, hb⟩
        · exact .inl hb
        · exact .inr ⟨k, x, hx, hb⟩

end

mutual

theorem words_tree : ∀ (τ : Tree), Tidy τ → ∀ {w : Text},
    w ∈ words τ ↔ ∃ q, (valueOf τ).get q = some (.word w)
  | .word w', _, w => by
      rw [words, List.mem_singleton]
      constructor
      · rintro rfl
        exact ⟨[], rfl⟩
      · rintro ⟨q, hq⟩
        cases q with
        | nil =>
          cases hq
          rfl
        | cons part q =>
          rw [valueOf, get_word] at hq
          cases hq
  | .string body, _, w => by
      constructor
      · intro hw
        cases hw
      · rintro ⟨q, hq⟩
        cases q with
        | nil => cases hq
        | cons part q =>
          rw [valueOf, get_string] at hq
          cases hq
  | .array _ items, ht, w => by
      rw [words, words_items items ht]
      constructor
      · rintro ⟨i, x, hx, q, hq⟩
        exact ⟨.index i :: q, get_list.mpr ⟨i, x, rfl, hx, hq⟩⟩
      · rintro ⟨q, hq⟩
        cases q with
        | nil => cases hq
        | cons part q =>
          obtain ⟨i, x, -, hx, hq⟩ := get_list.mp hq
          exact ⟨i, x, hx, q, hq⟩
  | .object _ members, ht, w => by
      rw [words, words_members members ht.2.2]
      constructor
      · rintro ⟨k, x, hx, q, hq⟩
        exact ⟨.key k :: q, get_dict.mpr ⟨k, x, rfl, (get_pairs ht.1).mpr hx, hq⟩⟩
      · rintro ⟨q, hq⟩
        cases q with
        | nil => cases hq
        | cons part q =>
          obtain ⟨k, x, -, hx, hq⟩ := get_dict.mp hq
          exact ⟨k, x, (get_pairs ht.1).mp hx, q, hq⟩

theorem words_items : ∀ (items : Items), ItemsTidy items → ∀ {w : Text},
    w ∈ itemWords items ↔
      ∃ i : Nat, ∃ x : Value, (itemValues items)[i]? = some x ∧ ∃ q, x.get q = some (.word w)
  | .nil, _, w => by simp [itemWords, itemValues]
  | .cons _ value _ rest, ht, w => by
      rw [itemWords, List.mem_append, words_tree value ht.1, words_items rest ht.2, itemValues]
      constructor
      · rintro (h | ⟨i, x, hx, h⟩)
        · exact ⟨0, _, rfl, h⟩
        · exact ⟨i + 1, x, hx, h⟩
      · rintro ⟨i, x, hx, h⟩
        cases i with
        | zero =>
          cases hx
          exact .inl h
        | succ i => exact .inr ⟨i, x, hx, h⟩

theorem words_members : ∀ (members : Members), MembersTidy members → ∀ {w : Text},
    w ∈ memberWords members ↔
      ∃ k, ∃ x : Value, (k, x) ∈ pairs members ∧ ∃ q, x.get q = some (.word w)
  | .nil, _, w => by simp [memberWords, pairs]
  | .cons _ key _ _ value _ rest, ht, w => by
      rw [memberWords, List.mem_append, words_tree value ht.1, words_members rest ht.2, pairs]
      constructor
      · rintro (h | ⟨k, x, hx, h⟩)
        · exact ⟨_, _, List.mem_cons_self, h⟩
        · exact ⟨k, x, List.mem_cons_of_mem _ hx, h⟩
      · rintro ⟨k, x, hx, h⟩
        obtain he | hx := List.mem_cons.mp hx
        · cases he
          exact .inl h
        · exact .inr ⟨k, x, hx, h⟩

end

def PlainPart : Part → Prop
  | .key k => PlainKey k
  | .index _ => True

theorem keys_plain {members : Members} (h : ∀ k ∈ memberKeys members, PlainKey k)
    {x : Value} (hx : (k, x) ∈ pairs members) : PlainKey k := by
  apply h
  rw [← keys_pairs]
  exact List.mem_map_of_mem hx

mutual

theorem plain_tree : ∀ (τ : Tree), Tidy τ → ∀ {q : List Part} {v : Value},
    (valueOf τ).get q = some v → ∀ part ∈ q, PlainPart part
  | _, _, [], _, _ => fun part hp => (nomatch hp)
  | .word _, _, part :: q, v, hq => by
      rw [valueOf, get_word] at hq
      cases hq
  | .string _, _, part :: q, v, hq => by
      rw [valueOf, get_string] at hq
      cases hq
  | .array _ items, ht, part :: q, v, hq => by
      obtain ⟨i, x, rfl, hx, hq⟩ := get_list.mp hq
      exact List.forall_mem_cons.mpr ⟨trivial, plain_items items ht (List.mem_of_getElem? hx) hq⟩
  | .object _ members, ht, part :: q, v, hq => by
      obtain ⟨k, x, rfl, hx, hq⟩ := get_dict.mp hq
      have hmem := (get_pairs ht.1).mp hx
      exact List.forall_mem_cons.mpr ⟨keys_plain ht.2.1 hmem, plain_members members ht.2.2 hmem hq⟩

theorem plain_items : ∀ (items : Items), ItemsTidy items → ∀ {x : Value},
    x ∈ itemValues items → ∀ {q : List Part} {v : Value}, x.get q = some v →
    ∀ part ∈ q, PlainPart part
  | .cons _ value _ rest, ht, x, hx, q, v, hq => by
      obtain rfl | hx := List.mem_cons.mp hx
      · exact plain_tree value ht.1 hq
      · exact plain_items rest ht.2 hx hq

theorem plain_members : ∀ (members : Members), MembersTidy members → ∀ {k : Points} {x : Value},
    (k, x) ∈ pairs members → ∀ {q : List Part} {v : Value}, x.get q = some v →
    ∀ part ∈ q, PlainPart part
  | .cons _ _ _ _ value _ rest, ht, k, x, hx, q, v, hq => by
      obtain he | hx := List.mem_cons.mp hx
      · cases he
        exact plain_tree value ht.1 hq
      · exact plain_members rest ht.2 hx hq

end

variable {t : Points}

theorem cut_unique {p : Nat → Prop} {x y : Points} (hx : ∀ c ∈ x, p c) (hy : ∀ c ∈ y, p c)
    (hs : ∀ c, s.head? = some c → ¬ p c) (ht : ∀ c, t.head? = some c → ¬ p c)
    (h : x ++ s = y ++ t) : x = y ∧ s = t := by
  induction x generalizing y with
  | nil =>
    cases y with
    | nil => exact ⟨rfl, h⟩
    | cons d y =>
      rw [List.nil_append] at h
      subst h
      exact absurd (hy d List.mem_cons_self) (hs d rfl)
  | cons c x ih =>
    cases y with
    | nil =>
      rw [List.nil_append] at h
      subst h
      exact absurd (hx c List.mem_cons_self) (ht c rfl)
    | cons d y =>
      rw [List.cons_append, List.cons_append] at h
      injection h with hhead htail
      subst hhead
      obtain ⟨rfl, rfl⟩ := ih (List.forall_mem_cons.mp hx).2
        (List.forall_mem_cons.mp hy).2 htail
      exact ⟨rfl, rfl⟩

theorem points_injective {s t : Text} (h : points s = points t) : s = t :=
  List.map_injective_iff.mpr (fun _ _ => Char.toNat_inj.mp) h

def bracketBody : Part → Option Points
  | .index i => some (points (natText i))
  | .key k => if k = points ['*'] then some (points ['*']) else none

variable {b : Points}

theorem bracketBody_inj {part' : Part} (h : bracketBody part = some b)
    (h' : bracketBody part' = some b) : part = part' := by
  have hstar : ∀ i, points (natText i) ≠ points ['*'] := by
    intro i he
    have hmem : '*' ∈ natText i := by
      rw [points_injective he]
      exact List.mem_cons_self
    exact not_mem_natText (by decide) i hmem
  have hkey : ∀ {k : Points}, bracketBody (.key k) = some b → k = points ['*'] ∧ b = points ['*'] := by
    intro k hk
    rw [bracketBody] at hk
    split_ifs at hk with hk'
    exact ⟨hk', (Option.some.inj hk).symm⟩
  cases part with
  | index i =>
    cases part' with
    | index j =>
      rw [← h'] at h
      rw [natText_injective (points_injective (Option.some.inj h))]
    | key k =>
      obtain ⟨-, rfl⟩ := hkey h'
      exact absurd (Option.some.inj h) (hstar i)
  | key k =>
    obtain ⟨rfl, rfl⟩ := hkey h
    cases part' with
    | index j => exact absurd (Option.some.inj h') (hstar j)
    | key k' =>
      obtain ⟨rfl, -⟩ := hkey h'
      rfl

theorem not_mem_bracketBody (h : bracketBody part = some b) :
    ']'.toNat ∉ b := by
  cases part with
  | index i =>
    cases h
    rw [points, List.mem_map]
    rintro ⟨c, hc, he⟩
    rw [Char.toNat_inj] at he
    subst he
    exact not_mem_natText (by decide) i hc
  | key k =>
    rw [bracketBody] at h
    split_ifs at h
    cases h
    decide

theorem dotPart_bracket (h : bracketBody part = some b)
    (first : Bool) : dotPart first part = '['.toNat :: (b ++ [']'.toNat]) := by
  cases part with
  | index i =>
    cases h
    simp [dotPart, bracketed, points]
  | key k =>
    rw [bracketBody] at h
    split_ifs at h with hk
    cases h
    rw [dotPart, if_pos (.inl hk)]
    rfl

theorem dotPart_key (hp : PlainPart part) (h : bracketBody part = none) :
    ∃ k, part = .key k ∧ PlainKey k ∧ ∀ first, dotPart first part = if first then k else '.'.toNat :: k := by
  cases part with
  | index i => cases h
  | key k =>
    refine ⟨k, rfl, hp, fun first => ?_⟩
    have hbracket : ∀ s : Text, '[' ∈ s → k ≠ points s := by
      rintro s hs rfl
      exact hp '[' (by decide) (List.mem_map_of_mem hs)
    have hstar : k ≠ points ['*'] := by
      intro hk
      rw [bracketBody, if_pos hk] at h
      cases h
    rw [dotPart, if_neg]
    rintro (hk | hk | hk)
    · exact hstar hk
    · exact hbracket _ (by decide) hk
    · exact hbracket _ (by decide) hk

def InKey (c : Nat) : Prop := c ≠ '.'.toNat ∧ c ≠ '['.toNat

theorem inKey_of_plain (h : PlainKey k) : ∀ c ∈ k, InKey c := by
  intro c hc
  constructor
  · rintro rfl
    exact h '.' (by decide) hc
  · rintro rfl
    exact h '[' (by decide) hc

theorem later_head (hp : ∀ part ∈ parts, PlainPart part) {c : Nat}
    (hc : (parts.flatMap (dotPart false)).head? = some c) : ¬ InKey c := by
  cases parts with
  | nil => cases hc
  | cons part parts =>
    rw [List.flatMap_cons] at hc
    cases hb : bracketBody part with
    | some b =>
      rw [dotPart_bracket hb] at hc
      cases hc
      exact fun h => h.2 rfl
    | none =>
      obtain ⟨k, -, -, hk⟩ := dotPart_key (hp part List.mem_cons_self) hb
      rw [hk] at hc
      cases hc
      exact fun h => h.1 rfl

theorem brackets_unique {part' : Part} {b' : Points} (hb : bracketBody part = some b)
    (hb' : bracketBody part' = some b')
    (h : '['.toNat :: (b ++ [']'.toNat]) ++ s = '['.toNat :: (b' ++ [']'.toNat]) ++ t) :
    part = part' ∧ s = t := by
  rw [List.cons_append, List.cons_append, List.append_assoc, List.append_assoc] at h
  injection h with _ h
  have hin : ∀ {part : Part} {b : Points}, bracketBody part = some b → ∀ c ∈ b, c ≠ ']'.toNat := by
    rintro part b hb c hc rfl
    exact not_mem_bracketBody hb hc
  have hclose : ∀ {s : Points} (c : Nat), ([']'.toNat] ++ s).head? = some c → ¬ c ≠ ']'.toNat := by
    intro s c hc
    cases hc
    exact fun h => h rfl
  obtain ⟨rfl, hrest⟩ := cut_unique (hin hb) (hin hb') hclose hclose h
  exact ⟨bracketBody_inj hb hb', List.append_cancel_left hrest⟩

theorem key_not_bracket {first : Bool} (hk : PlainKey k) (hn : first = true → k ≠ []) :
    '['.toNat :: (b ++ [']'.toNat]) ++ s ≠ (if first then k else '.'.toNat :: k) ++ t := by
  cases first with
  | false =>
    intro h
    cases h
  | true =>
    obtain ⟨c, k, rfl⟩ := List.exists_cons_of_ne_nil (hn rfl)
    intro h
    injection h with hc _
    exact (inKey_of_plain hk c List.mem_cons_self).2 hc.symm

theorem part_unique {first : Bool} {part' : Part} (hp : PlainPart part)
    (hp' : PlainPart part') (hn : first = true → part ≠ .key [])
    (hn' : first = true → part' ≠ .key []) (hs : ∀ c, s.head? = some c → ¬ InKey c)
    (ht : ∀ c, t.head? = some c → ¬ InKey c)
    (h : dotPart first part ++ s = dotPart first part' ++ t) : part = part' ∧ s = t := by
  cases hb : bracketBody part with
  | some b =>
    cases hb' : bracketBody part' with
    | some b' =>
      rw [dotPart_bracket hb, dotPart_bracket hb'] at h
      exact brackets_unique hb hb' h
    | none =>
      obtain ⟨k, rfl, hplain, hk⟩ := dotPart_key hp' hb'
      rw [dotPart_bracket hb, hk] at h
      exact absurd h (key_not_bracket hplain fun hf he => hn' hf (by rw [he]))
  | none =>
    obtain ⟨k, rfl, hplain, hk⟩ := dotPart_key hp hb
    cases hb' : bracketBody part' with
    | some b' =>
      rw [dotPart_bracket hb', hk] at h
      exact absurd h.symm (key_not_bracket hplain fun hf he => hn hf (by rw [he]))
    | none =>
      obtain ⟨k', rfl, hplain', hk'⟩ := dotPart_key hp' hb'
      have hrest : k ++ s = k' ++ t := by
        rw [hk, hk'] at h
        cases first with
        | true => exact h
        | false => exact (List.cons.inj h).2
      obtain ⟨rfl, hst⟩ := cut_unique (inKey_of_plain hplain) (inKey_of_plain hplain') hs ht hrest
      exact ⟨rfl, hst⟩

theorem dotPart_ne_nil {first : Bool} (hp : PlainPart part)
    (hn : first = true → part ≠ .key []) : dotPart first part ≠ [] := by
  cases hb : bracketBody part with
  | some b => simp [dotPart_bracket hb]
  | none =>
    obtain ⟨k, rfl, -, hk⟩ := dotPart_key hp hb
    rw [hk]
    cases first with
    | true =>
      intro he
      exact hn rfl (congrArg Part.key he)
    | false => simp

theorem later_unique {parts' : List Part} (hp : ∀ part ∈ parts, PlainPart part)
    (hp' : ∀ part ∈ parts', PlainPart part)
    (h : parts.flatMap (dotPart false) = parts'.flatMap (dotPart false)) : parts = parts' := by
  have hlater : ∀ part : Part, false = true → part ≠ .key [] := fun _ hf => (nomatch hf)
  induction parts generalizing parts' with
  | nil =>
    cases parts' with
    | nil => rfl
    | cons part' parts' =>
      rw [List.flatMap_nil, List.flatMap_cons] at h
      exact absurd (List.append_eq_nil_iff.mp h.symm).1
        (dotPart_ne_nil (hp' part' List.mem_cons_self) (hlater part'))
  | cons part parts ih =>
    cases parts' with
    | nil =>
      rw [List.flatMap_nil, List.flatMap_cons] at h
      exact absurd (List.append_eq_nil_iff.mp h).1
        (dotPart_ne_nil (hp part List.mem_cons_self) (hlater part))
    | cons part' parts' =>
      obtain ⟨hpart, hparts⟩ := List.forall_mem_cons.mp hp
      obtain ⟨hpart', hparts'⟩ := List.forall_mem_cons.mp hp'
      rw [List.flatMap_cons, List.flatMap_cons] at h
      obtain ⟨rfl, hrest⟩ := part_unique hpart hpart' (hlater part) (hlater part')
        (fun _ => later_head hparts) (fun _ => later_head hparts') h
      rw [ih hparts hparts' hrest]

theorem build_dot_path_ne_nil (hp : ∀ part ∈ parts, PlainPart part)
    (hne : parts ≠ []) (hn : parts.head? ≠ some (.key [])) : build_dot_path parts ≠ [] := by
  obtain ⟨part, rest, rfl⟩ := List.exists_cons_of_ne_nil hne
  rw [build_dot_path]
  intro h
  refine dotPart_ne_nil (hp part List.mem_cons_self) (fun _ he => ?_) (List.append_eq_nil_iff.mp h).1
  exact hn (congrArg some he)

theorem build_dot_path_unique {parts' : List Part} (hp : ∀ part ∈ parts, PlainPart part)
    (hp' : ∀ part ∈ parts', PlainPart part) (hn : parts.head? ≠ some (.key []))
    (hn' : parts'.head? ≠ some (.key [])) (h : build_dot_path parts = build_dot_path parts') :
    parts = parts' := by
  cases parts with
  | nil =>
    cases parts' with
    | nil => rfl
    | cons part' parts' =>
      exact absurd h.symm (build_dot_path_ne_nil hp' (List.cons_ne_nil _ _) hn')
  | cons part parts =>
    cases parts' with
    | nil => exact absurd h (build_dot_path_ne_nil hp (List.cons_ne_nil _ _) hn)
    | cons part' parts' =>
      obtain ⟨hpart, hparts⟩ := List.forall_mem_cons.mp hp
      obtain ⟨hpart', hparts'⟩ := List.forall_mem_cons.mp hp'
      rw [build_dot_path, build_dot_path] at h
      obtain ⟨rfl, hrest⟩ := part_unique hpart hpart' (fun _ he => hn (congrArg some he))
        (fun _ he => hn' (congrArg some he)) (fun _ => later_head hparts)
        (fun _ => later_head hparts') h
      rw [later_unique hparts hparts' hrest]

def Part.ofKey : DataPathBuilder.Key → Part
  | .key k => .key (points k.toList)
  | .index i => .index i

def Container (τ : Tree) : Prop := ¬ Scalar τ

variable {d : Document}

theorem started_text (hd : d.Valid) (hc : Container d.root) :
    started d.text = d.root.text ++ d.trail := by
  have hlead : ∀ c ∈ d.lead, (c != '{' && c != '[') = true := by
    intro c hmem
    obtain rfl | rfl | rfl | rfl := hd.lead c hmem <;> decide
  rw [started, Document.text, List.dropWhile_append_of_pos hlead]
  cases hr : d.root with
  | word w =>
    rw [hr] at hc
    exact absurd trivial hc
  | string body =>
    rw [hr] at hc
    exact absurd trivial hc
  | array gap items => exact List.dropWhile_cons_of_neg (by decide)
  | object gap members => exact List.dropWhile_cons_of_neg (by decide)

theorem observed_run (hd : d.Valid) (hc : Container d.root) {t : Text} (ht : t <+: d.text) :
    observed_complete_values t = (run isSpace (moves [] d.root) (started t)).1 := by
  have hstart : started t <+: d.root.text ++ d.trail := by
    rw [← started_text hd hc]
    exact dropWhile_mono _ ht
  rw [observed_complete_values,
    reads_tree d.root hd.root (fun hs => absurd hs hc) hstart (Nat.le_refl _)]
  rfl

theorem observed_mono (hd : d.Valid) (hc : Container d.root) {s t : Text}
    (hst : s <+: t) (ht : t <+: d.text) :
    observed_complete_values s <+: observed_complete_values t := by
  rw [observed_run hd hc (hst.trans ht), observed_run hd hc ht]
  exact (run_mono _ (dropWhile_mono _ hst)).1

theorem observed_below (hd : d.Valid) (hc : Container d.root)
    (hn : Tidy d.root) {t : Text} (ht : t <+: d.text)
    (hr : r ∈ observed_complete_values t) : Below [] (valueOf d.root) r := by
  rw [observed_run hd hc ht] at hr
  exact (emits_tree d.root hn [] r).mp ((run_emits _ _).subset hr)

theorem observed_all (hd : d.Valid) (hc : Container d.root) (hn : Tidy d.root)
    (hw : ∀ w ∈ words d.root, longInteger w = false) :
    r ∈ observed_complete_values d.text ↔ Below [] (valueOf d.root) r := by
  have hfull := full_tree d.root hd.root hw [] d.trail fun hs => absurd hs hc
  rw [observed_run hd hc List.prefix_rfl, started_text hd hc, hfull]
  exact emits_tree d.root hn [] r

def ValueAt (τ : Tree) (path : Points) (value : Value) : Prop :=
  (∃ parts, build_dot_path parts = path ∧ (valueOf τ).get parts = some value) ∧
    ∀ parts v, build_dot_path parts = path → (valueOf τ).get parts = some v → v = value

structure Evidence (d : Document) : Prop where
  sound : ∀ t u, t ++ u = d.text → ∀ path value,
    (path, value) ∈ observed_complete_values t → ValueAt d.root path value
  kept : ∀ t u v, t ++ u ++ v = d.text → ∀ r ∈ observed_complete_values t,
    r ∈ observed_complete_values (t ++ u)
  exact : ∀ path value, (path, value) ∈ observed_complete_values d.text ↔
    ∃ parts, parts ≠ [] ∧ build_dot_path parts = path ∧ (valueOf d.root).get parts = some value

def rootKeys : Tree → List Points
  | .object _ members => memberKeys members
  | _ => []

theorem head_key {τ : Tree} (ht : Tidy τ) (hkey : [] ∉ rootKeys τ)
    (h : (valueOf τ).get parts = some v) : parts.head? ≠ some (.key []) := by
  intro hhead
  obtain ⟨q, rfl⟩ := List.head?_eq_some_iff.mp hhead
  cases τ with
  | word w =>
    rw [valueOf, get_word] at h
    cases h
  | string body =>
    rw [valueOf, get_string] at h
    cases h
  | array gap items =>
    obtain ⟨i, x, he, -⟩ := get_list.mp h
    cases he
  | object gap members =>
    obtain ⟨k, x, he, hx, -⟩ := get_dict.mp h
    cases he
    apply hkey
    rw [rootKeys, ← keys_pairs]
    exact List.mem_map_of_mem ((get_pairs ht.1).mp hx)

theorem get_of_rootKey {τ : Tree} (ht : Tidy τ) (hk : k ∈ rootKeys τ) :
    ∃ v, (valueOf τ).get [.key k] = some v := by
  cases τ with
  | word w => cases hk
  | string body => cases hk
  | array gap items => cases hk
  | object gap members =>
    rw [rootKeys, ← keys_pairs] at hk
    obtain ⟨p, hp, rfl⟩ := List.mem_map.mp hk
    exact ⟨p.2, get_dict.mpr ⟨p.1, p.2, rfl, (get_pairs ht.1).mpr hp, rfl⟩⟩

theorem evidence_of_keys (hd : d.Valid) (hc : Container d.root)
    (hn : Tidy d.root) (hkey : [] ∉ rootKeys d.root)
    (hw : ∀ w ∈ words d.root, longInteger w = false) : Evidence d := by
  refine ⟨fun t u htu path value hr => ?_, fun t u v htuv r hr => ?_, fun path value => ?_⟩
  · have ht : t <+: d.text := ⟨u, htu⟩
    obtain ⟨q, hget, hpath, hne, -⟩ := observed_below hd hc hn ht hr
    refine ⟨⟨q, hpath.symm, hget⟩, fun parts v hparts hv => ?_⟩
    have hsame : parts = q := by
      apply build_dot_path_unique (plain_tree d.root hn hv) (plain_tree d.root hn hget)
      · exact head_key hn hkey hv
      · exact head_key hn hkey hget
      · exact hparts.trans hpath
    subst hsame
    rw [hv] at hget
    exact Option.some.inj hget
  · exact (observed_mono hd hc (List.prefix_append t u) ⟨v, htuv⟩).subset hr
  · rw [observed_all hd hc hn hw]
    constructor
    · rintro ⟨q, hget, hpath, hne, -⟩
      refine ⟨q, ?_, hpath.symm, hget⟩
      rintro rfl
      exact hne hpath
    · rintro ⟨q, hq, rfl, hget⟩
      refine ⟨q, hget, rfl, ?_, fun w he => ?_⟩
      · exact build_dot_path_ne_nil (plain_tree d.root hn hget) hq (head_key hn hkey hget)
      · simp only at he
        subst he
        exact hw w ((words_tree d.root hn).mpr ⟨q, hget⟩)

/-- Observed boundaries are evidence exactly if the root has no empty key and no integer has more
digits than `int()` takes. -/
theorem evidence_iff {d : Document} (hd : d.Valid) (hc : Container d.root) (hn : Tidy d.root) :
    Evidence d ↔ [] ∉ rootKeys d.root ∧ ∀ w ∈ words d.root, longInteger w = false := by
  constructor
  · intro h
    constructor
    · intro hkey
      obtain ⟨v, hv⟩ := get_of_rootKey hn hkey
      have hr := (h.exact [] v).mpr ⟨[.key []], List.cons_ne_nil _ _, rfl, hv⟩
      obtain ⟨q, -, -, hne, -⟩ := observed_below hd hc hn List.prefix_rfl hr
      exact hne rfl
    · intro w hw
      obtain ⟨q, hq⟩ := (words_tree d.root hn).mp hw
      have hne : q ≠ [] := by
        rintro rfl
        cases hr : d.root with
        | word w' =>
          rw [hr] at hc
          exact hc trivial
        | string body =>
          rw [hr] at hq
          cases hq
        | array gap items =>
          rw [hr] at hq
          cases hq
        | object gap members =>
          rw [hr] at hq
          cases hq
      have hr := (h.exact _ _).mpr ⟨q, hne, rfl, hq⟩
      obtain ⟨-, -, -, -, hshort⟩ := observed_below hd hc hn List.prefix_rfl hr
      exact hshort w rfl
  · rintro ⟨hkey, hw⟩
    exact evidence_of_keys hd hc hn hkey hw

def numberAt (key digits : Text) : Document :=
  ⟨[], .object [] (.cons [] key [] [] (.word digits) [] .nil), []⟩

theorem blank_nil : Blank [] := fun _ hc => (nomatch hc)

theorem numberAt_valid {key digits : Text} (hk : Body key) (hw : Word digits) :
    (numberAt key digits).Valid :=
  ⟨blank_nil, ⟨blank_nil, blank_nil, hk, blank_nil, blank_nil, hw, blank_nil, trivial⟩, blank_nil⟩

theorem word_one : Word ['1'] :=
  @Word.number [] ['1'] [] [] ⟨.inl rfl, .inr ⟨⟨by decide,
    List.forall_iff_forall_mem.mp (by decide)⟩, by decide⟩, .inl rfl, .inl rfl⟩

theorem numberAt_tidy {key digits : Text} (hk : PlainKey (decoded key)) :
    Tidy (numberAt key digits).root :=
  ⟨List.nodup_singleton _, fun _ h => by rw [List.mem_singleton.mp h]; exact hk, trivial, trivial⟩

theorem evidence_iff_number : Evidence (numberAt ['n'] ['1']) := by
  have hbody : Body ['n'] := JsonRepair.body_of_plain (List.forall_iff_forall_mem.mp (by decide))
  have hplain : PlainKey (decoded ['n']) := List.forall_iff_forall_mem.mp (by decide)
  apply (evidence_iff (numberAt_valid hbody word_one) (fun h => h) (numberAt_tidy hplain)).mpr
  exact ⟨by decide, List.forall_iff_forall_mem.mp (by decide)⟩

theorem empty_key_lost : (numberAt [] ['1']).Valid ∧ Tidy (numberAt [] ['1']).root ∧
    (numberAt [] ['1']).text = "\x7b\"\":1\x7d".toList ∧
    observed_complete_values (numberAt [] ['1']).text = [] ∧ ¬ Evidence (numberAt [] ['1']) := by
  have hplain : PlainKey (decoded []) := fun _ _ h => (nomatch h)
  have hlost : observed_complete_values (numberAt [] ['1']).text = [] := rfl
  refine ⟨numberAt_valid .nil word_one, numberAt_tidy hplain, rfl, hlost, fun h => ?_⟩
  have hr := (h.exact [] (.word ['1'])).mpr ⟨[.key []], List.cons_ne_nil _ _, rfl, rfl⟩
  rw [hlost] at hr
  cases hr

end Agently.Utils.ObservedValues
