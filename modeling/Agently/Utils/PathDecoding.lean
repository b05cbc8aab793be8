import Agently.Utils.DataPathBuilder

/-! # Which paths are read back

A path that is built from keys and positions is decoded by six readers. Each is described on
every path to a node; they agree where the path is one of keys alone, none of which reads as a
number, or where the node is `None`. -/

namespace Agently.DataPathBuilder

open Agently.Lib Agently.Utils
open Agently.Utils.IntText

def nodeAt : List Key → Json → Option Json
  | [], v => some v
  | .key k :: rest, .obj kvs => (Dict.get? kvs k).bind (nodeAt rest)
  | .index i :: rest, .arr xs => xs[i]?.bind (nodeAt rest)
  | _ :: _, _ => none

def PlainKey : Key → Prop
  | .index _ => True
  | .key k => k ≠ "" ∧ ∀ c ∈ ['.', '/', '[', ']', '*'], c ∉ k.toList

def Key.isIndex : Key → Bool
  | .index _ => true
  | .key _ => false

def Key.looksLikeNumber : Key → Bool
  | .index _ => false
  | .key k => isdigit k.toList

/-- `int()` reads the key if it is all digits. -/
def Key.readable : Key → Bool
  | .index _ => true
  | .key k => !isdigit k.toList || (intOf k.toList).isSome

def dollarFirst : List Key → Bool
  | .key k :: _ => k.toList.head? = some '$'
  | _ => false

/-- Every reader of the built paths returns the node, and every decoder the keys. -/
structure RoundTrips (v : Json) (keys : List Key) (node : Json) : Prop where
  locate_dot : locate_path_in_dict v (build_dot_path keys) .dot = node
  locate_slash : locate_path_in_dict v (build_slash_path keys) .slash = node
  get_dot : get_value_by_path v (build_dot_path keys) .dot = some (.ok node)
  get_slash : get_value_by_path v (build_slash_path keys) .slash = some (.ok node)
  parsed : parse_path_keys (build_dot_path keys) = keys
  streamed : streaming_path_parts (build_dot_path keys) = .ok keys
  converted : (convert_dot_to_slash (build_dot_path keys)).map convert_slash_to_dot =
    some (build_dot_path keys)

/-- There is a path, it does not start with a dollar sign, and it has neither positions nor
keys that look like numbers, unless the node is `None` and those keys are numbers. -/
structure ReadBack (keys : List Key) (node : Json) : Prop where
  nonempty : keys ≠ []
  plain_start : dollarFirst keys = false
  keys_only : (∀ key ∈ keys, key.isIndex = false ∧ key.looksLikeNumber = false) ∨
    node = .null ∧ ∀ key ∈ keys, key.readable = true

variable {k : String}

theorem not_mem_of_plain (h : PlainKey (.key k)) {c : Char}
    (hc : c ∈ ['.', '/', '[', ']', '*']) : c ∉ k.toList := h.2 c hc

theorem toList_ne_nil (h : PlainKey (.key k)) : k.toList ≠ [] := by
  intro he
  apply h.1
  rw [← String.ofList_toList (s := k), he]

theorem dotPart_key (h : PlainKey (.key k)) (first : Bool) :
    dotPart first (.key k) = if first then k.toList else '.' :: k.toList := by
  have hstar : '*' ∉ k.toList := not_mem_of_plain h (by simp)
  have hopen : '[' ∉ k.toList := not_mem_of_plain h (by simp)
  have hk : ¬ (k = "*" ∨ k = "[]" ∨ k = "[*]") := by
    rintro (rfl | rfl | rfl)
    · exact hstar (by simp)
    · exact hopen (by simp)
    · exact hopen (by simp)
  rw [dotPart, if_neg hk]

variable {s : Text}

theorem segments_name (hdot : '.' ∉ s) (hopen : '[' ∉ s) (buffer rest : Text) :
    segments false buffer (s ++ rest) = segments false (buffer ++ s) rest := by
  induction s generalizing buffer with
  | nil => rw [List.nil_append, List.append_nil]
  | cons c s ih =>
    have hc : ¬ c = '.' := fun h => hdot (by rw [h]; exact List.mem_cons_self)
    have hc' : ¬ c = '[' := fun h => hopen (by rw [h]; exact List.mem_cons_self)
    rw [List.cons_append, segments, if_neg Bool.false_ne_true, if_neg hc', if_neg hc,
      ih (fun h => hdot (List.mem_cons_of_mem c h)) (fun h => hopen (List.mem_cons_of_mem c h)),
      List.append_assoc]
    rfl

theorem segments_bracket (h : ']' ∉ s) (buffer rest : Text) :
    segments true buffer (s ++ ']' :: rest) =
      .bracket (buffer ++ s) :: segments false [] rest := by
  induction s generalizing buffer with
  | nil =>
    rw [List.nil_append, List.append_nil, segments, if_pos rfl, if_pos rfl]
  | cons c s ih =>
    have hc : ¬ c = ']' := fun he => h (by rw [he]; exact List.mem_cons_self)
    rw [List.cons_append, segments, if_pos rfl, if_neg hc,
      ih (fun hm => h (List.mem_cons_of_mem c hm)), List.append_assoc]
    rfl

def Key.segment : Key → Segment
  | .key k => .name k.toList
  | .index i => .bracket (natText i)

theorem segments_index (buffer : Text) (i : Nat) (rest : Text) :
    segments false buffer (bracketed (natText i) ++ rest) =
      flush buffer ++ .bracket (natText i) :: segments false [] rest := by
  have hclose : ']' ∉ natText i := not_mem_natText (by decide) i
  rw [bracketed, List.cons_append, List.append_assoc, List.singleton_append, segments,
    if_neg Bool.false_ne_true, if_pos rfl, segments_bracket hclose]
  rfl

theorem segments_tail {keys : List Key} (h : ∀ key ∈ keys, PlainKey key) (buffer : Text) :
    segments false buffer (keys.flatMap (dotPart false)) =
      flush buffer ++ keys.map Key.segment := by
  induction keys generalizing buffer with
  | nil =>
    rw [List.flatMap_nil, List.map_nil, List.append_nil]
    rfl
  | cons key keys ih =>
    have hkeys := (List.forall_mem_cons.mp h).2
    rw [List.flatMap_cons, List.map_cons]
    cases key with
    | index i =>
      rw [dotPart, segments_index, ih hkeys]
      rfl
    | key k =>
      have hk := h (.key k) List.mem_cons_self
      have hname : flush k.toList = [.name k.toList] := if_neg (toList_ne_nil hk)
      rw [dotPart_key hk, if_neg Bool.false_ne_true, List.cons_append, segments,
        if_neg Bool.false_ne_true, if_neg (by decide), if_pos rfl,
        segments_name (not_mem_of_plain hk (by simp)) (not_mem_of_plain hk (by simp)),
        ih hkeys, List.nil_append, hname]
      rfl

theorem segments_build_dot_path {keys : List Key} (h : ∀ key ∈ keys, PlainKey key) :
    segments false [] (build_dot_path keys) = keys.map Key.segment := by
  cases keys with
  | nil => rfl
  | cons key keys =>
    have hkeys := (List.forall_mem_cons.mp h).2
    rw [build_dot_path, List.map_cons]
    cases key with
    | index i =>
      rw [dotPart, segments_index, segments_tail hkeys]
      rfl
    | key k =>
      have hk := h (.key k) List.mem_cons_self
      have hname : flush k.toList = [.name k.toList] := if_neg (toList_ne_nil hk)
      rw [dotPart_key hk, if_pos rfl,
        segments_name (not_mem_of_plain hk (by simp)) (not_mem_of_plain hk (by simp)),
        segments_tail hkeys, List.nil_append, hname]
      rfl

theorem dotPart_ne_nil {key : Key} (h : PlainKey key) (first : Bool) : dotPart first key ≠ [] := by
  cases key with
  | index i => exact List.cons_ne_nil _ _
  | key k =>
    rw [dotPart_key h]
    cases first with
    | true => exact toList_ne_nil h
    | false => exact List.cons_ne_nil _ _

theorem build_dot_path_ne_nil {keys : List Key} (h : ∀ key ∈ keys, PlainKey key)
    (hne : keys ≠ []) : build_dot_path keys ≠ [] := by
  cases keys with
  | nil => exact absurd rfl hne
  | cons key keys =>
    intro he
    rw [build_dot_path] at he
    exact dotPart_ne_nil (h key List.mem_cons_self) true (List.append_eq_nil_iff.mp he).1

theorem keyText_plain {key : Key} (h : PlainKey key) : '/' ∉ keyText key ∧ keyText key ≠ [] := by
  cases key with
  | index i => exact ⟨not_mem_natText (by decide) i, natText_ne_nil i⟩
  | key k => exact ⟨not_mem_of_plain h (by simp), toList_ne_nil h⟩

theorem intercalate_cons_cons (a b : Text) (parts : List Text) :
    ['/'].intercalate (a :: b :: parts) = a ++ '/' :: ['/'].intercalate (b :: parts) := by
  rw [List.intercalate_cons_of_ne_nil (List.cons_ne_nil b parts)]
  simp

variable {parts : List Text}

theorem head_intercalate (hne : parts ≠ []) (h : ∀ part ∈ parts, '/' ∉ part ∧ part ≠ []) :
    ∃ c s, ['/'].intercalate parts = c :: s ∧ c ≠ '/' := by
  obtain ⟨part, parts, rfl⟩ := List.exists_cons_of_ne_nil hne
  obtain ⟨hslash, hpart⟩ := h part List.mem_cons_self
  obtain ⟨c, s, rfl⟩ := List.exists_cons_of_ne_nil hpart
  have hc : c ≠ '/' := fun he => hslash (by rw [he]; exact List.mem_cons_self)
  cases parts with
  | nil => exact ⟨c, s, by simp, hc⟩
  | cons b parts => exact ⟨c, _, by rw [intercalate_cons_cons, List.cons_append], hc⟩

theorem last_intercalate (hne : parts ≠ []) (h : ∀ part ∈ parts, '/' ∉ part ∧ part ≠ []) :
    ∃ s c, ['/'].intercalate parts = s ++ [c] ∧ c ≠ '/' := by
  induction parts with
  | nil => exact absurd rfl hne
  | cons part parts ih =>
    cases parts with
    | nil =>
      obtain ⟨hslash, hpart⟩ := h part List.mem_cons_self
      refine ⟨part.dropLast, part.getLast hpart, ?_, ?_⟩
      · rw [List.dropLast_append_getLast hpart]
        simp
      · intro he
        exact hslash (he ▸ List.getLast_mem hpart)
    | cons b parts =>
      obtain ⟨s, c, hs, hc⟩ := ih (List.cons_ne_nil b parts)
        (List.forall_mem_cons.mp h).2
      refine ⟨part ++ '/' :: s, c, ?_, hc⟩
      rw [intercalate_cons_cons, hs, List.append_assoc]
      rfl

theorem slashParts_intercalate (hne : parts ≠ []) (h : ∀ part ∈ parts, '/' ∉ part ∧ part ≠ []) :
    slashParts ('/' :: ['/'].intercalate parts) = parts := by
  obtain ⟨c, s, hs, hc⟩ := head_intercalate hne h
  obtain ⟨t, d, ht, hd⟩ := last_intercalate hne h
  have hdrop : ('/' :: ['/'].intercalate parts).dropWhile (· == '/') =
      ['/'].intercalate parts := by
    rw [List.dropWhile_cons_of_pos (by decide), hs, List.dropWhile_cons_of_neg (by simpa using hc)]
  have hrdrop : (['/'].intercalate parts).rdropWhile (· == '/') = ['/'].intercalate parts := by
    rw [ht]
    exact List.rdropWhile_concat_neg _ _ _ (by simpa using hd)
  rw [slashParts, hdrop, hrdrop]
  exact List.splitOn_intercalate '/' (fun part hp => (h part hp).1) hne

theorem filter_splitOn_intercalate (hne : parts ≠ []) (h : ∀ part ∈ parts, '/' ∉ part ∧ part ≠ []) :
    (('/' :: ['/'].intercalate parts).splitOn '/').filter (· ≠ []) = parts := by
  have hsplit := List.splitOn_append_cons_self (a := '/') [] (['/'].intercalate parts)
  rw [List.nil_append] at hsplit
  rw [hsplit, List.splitOn_intercalate '/' (fun part hp => (h part hp).1) hne]
  have hall : parts.filter (· ≠ []) = parts :=
    List.filter_eq_self.mpr fun part hp => by simpa using (h part hp).2
  have hnil : ([] : Text).splitOn '/' = [[]] := by decide
  rw [hnil, List.filter_append, hall]
  rfl

theorem head_build_dot_path {keys : List Key} (h : ∀ key ∈ keys, PlainKey key) :
    (build_dot_path keys).head? = some '$' ↔ dollarFirst keys = true := by
  cases keys with
  | nil => simp [build_dot_path, dollarFirst]
  | cons key keys =>
    cases key with
    | index i => simp [build_dot_path, dotPart, bracketed, dollarFirst]
    | key k =>
      have hk := h (.key k) List.mem_cons_self
      obtain ⟨c, s, hs⟩ := List.exists_cons_of_ne_nil (toList_ne_nil hk)
      rw [build_dot_path, dotPart_key hk, if_pos rfl, dollarFirst, hs]
      simp

theorem streamingParts_segments (keys : List Key) :
    streamingParts (keys.map Key.segment) = .ok (some keys) := by
  induction keys with
  | nil => rfl
  | cons key keys ih =>
    rw [List.map_cons]
    cases key with
    | index i =>
      rw [Key.segment, streamingParts, if_pos (isdigit_natText i), intOf_natText]
      simp only [ih]
      rfl
    | key k =>
      rw [Key.segment, streamingParts, ih, String.ofList_toList]
      rfl

theorem streaming_path_parts_of_plain {keys : List Key} (h : ∀ key ∈ keys, PlainKey key) :
    streaming_path_parts (build_dot_path keys) =
      .ok (if dollarFirst keys then [] else keys) := by
  cases hkeys : keys with
  | nil => rfl
  | cons key rest =>
    rw [← hkeys, streaming_path_parts]
    have hne : build_dot_path keys ≠ [] :=
      build_dot_path_ne_nil h (by rw [hkeys]; exact List.cons_ne_nil _ _)
    by_cases hd : dollarFirst keys = true
    · rw [if_pos (.inr ((head_build_dot_path h).mpr hd)), if_pos hd]
    · have hhead : ¬ (build_dot_path keys).head? = some '$' :=
        fun hh => hd ((head_build_dot_path h).mp hh)
      rw [if_neg (not_or.mpr ⟨hne, hhead⟩), if_neg hd, segments_build_dot_path h,
        streamingParts_segments]
      rfl

def slashText : Key → Text
  | .key k => k.toList
  | .index i => bracketed (natText i)

theorem slashText_plain {key : Key} (h : PlainKey key) :
    '/' ∉ slashText key ∧ slashText key ≠ [] := by
  cases key with
  | index i =>
    refine ⟨?_, List.cons_ne_nil _ _⟩
    have hi : '/' ∉ natText i := not_mem_natText (by decide) i
    simp [slashText, bracketed, hi]
  | key k => exact keyText_plain h

theorem mapM_dotToSlash (keys : List Key) :
    (keys.map Key.segment).mapM Segment.dotToSlash = some (keys.map slashText) := by
  induction keys with
  | nil => rfl
  | cons key keys ih =>
    rw [List.map_cons, List.mapM_cons, ih]
    cases key <;> rfl

theorem dotParts_slashText {keys : List Key} (h : ∀ key ∈ keys, PlainKey key) (first : Bool) :
    dotParts first (keys.map slashText) =
      if first then build_dot_path keys else keys.flatMap (dotPart false) := by
  induction keys generalizing first with
  | nil => cases first <;> rfl
  | cons key keys ih =>
    have hkeys := (List.forall_mem_cons.mp h).2
    rw [List.map_cons, dotParts, ih hkeys, if_neg Bool.false_ne_true]
    have hpart : (if (slashText key).head? = some '[' ∧ (slashText key).getLast? = some ']'
        then slashText key else if first then slashText key else '.' :: slashText key) =
        dotPart first key := by
      cases key with
      | index i =>
        rw [if_pos]
        · rfl
        · have hlast : (('[' :: natText i) ++ [']']).getLast? = some ']' :=
            List.getLast?_concat
          exact ⟨rfl, hlast⟩
      | key k =>
        have hk := h (.key k) List.mem_cons_self
        have hopen : '[' ∉ k.toList := not_mem_of_plain hk (by simp)
        rw [dotPart_key hk, if_neg]
        · rfl
        · rintro ⟨hhead, -⟩
          exact hopen (List.mem_of_mem_head? hhead)
    rw [hpart]
    cases first <;> rfl

theorem convert_build_dot_path {keys : List Key} (h : ∀ key ∈ keys, PlainKey key) :
    (convert_dot_to_slash (build_dot_path keys)).map convert_slash_to_dot =
      some (build_dot_path keys) := by
  cases hkeys : keys with
  | nil => rfl
  | cons key rest =>
    have hne : keys ≠ [] := by
      rw [hkeys]
      exact List.cons_ne_nil _ _
    rw [← hkeys, convert_dot_to_slash, if_neg (build_dot_path_ne_nil h hne),
      segments_build_dot_path h, mapM_dotToSlash, Option.map_some, Option.map_some]
    congr 1
    have hmap : keys.map slashText ≠ [] := fun he => hne (List.map_eq_nil_iff.mp he)
    have hparts : ∀ part ∈ keys.map slashText, '/' ∉ part ∧ part ≠ [] := by
      intro part hp
      obtain ⟨k, hk, rfl⟩ := List.mem_map.mp hp
      exact slashText_plain (h k hk)
    obtain ⟨c, s, hs, -⟩ := head_intercalate hmap hparts
    rw [convert_slash_to_dot, if_neg, slashParts_intercalate hmap hparts, dotParts_slashText h,
      if_pos rfl]
    rw [hs]
    simp

abbrev Group := Text × List Nat

def Group.text (g : Group) : Text := g.1 ++ g.2.flatMap fun i => bracketed (natText i)

def Group.keys (g : Group) : List Key :=
  (if g.1 = [] then [] else [.key (String.ofList g.1)]) ++ g.2.map Key.index

def groups (base : Text) (indices : List Nat) : List Key → List Group
  | [] => [(base, indices)]
  | .index i :: keys => groups base (indices ++ [i]) keys
  | .key k :: keys => (base, indices) :: groups k.toList [] keys

structure Group.Plain (g : Group) : Prop where
  nonempty : g.1 ≠ [] ∨ g.2 ≠ []
  plain : ∀ c ∈ ['.', '[', ']', '*'], c ∉ g.1

theorem plain_of_key (h : PlainKey (.key k)) : Group.Plain (k.toList, []) where
  nonempty := .inl (toList_ne_nil h)
  plain := fun c hc => by
    apply not_mem_of_plain h
    simp only [List.mem_cons] at hc ⊢
    tauto

variable {base : Text}

theorem groups_plain {keys : List Key} (h : ∀ key ∈ keys, PlainKey key)
    {indices : List Nat} (hb : Group.Plain (base, indices)) :
    ∀ g ∈ groups base indices keys, g.Plain := by
  induction keys generalizing base indices with
  | nil =>
    intro g hg
    rw [List.mem_singleton.mp hg]
    exact hb
  | cons key keys ih =>
    have hkeys := (List.forall_mem_cons.mp h).2
    cases key with
    | index i =>
      have hi : indices ++ [i] ≠ [] := by simp
      exact ih hkeys ⟨.inr hi, hb.plain⟩
    | key k =>
      intro g hg
      obtain rfl | hg := List.mem_cons.mp hg
      · exact hb
      · exact ih hkeys (plain_of_key (h (.key k) List.mem_cons_self)) g hg

theorem keys_groups {keys : List Key} (h : ∀ key ∈ keys, PlainKey key) (base : Text)
    (indices : List Nat) :
    (groups base indices keys).flatMap Group.keys = Group.keys (base, indices) ++ keys := by
  induction keys generalizing base indices with
  | nil => rw [groups, List.flatMap_singleton, List.append_nil]
  | cons key keys ih =>
    have hkeys := (List.forall_mem_cons.mp h).2
    cases key with
    | index i =>
      rw [groups, ih hkeys]
      simp [Group.keys]
    | key k =>
      have hk := toList_ne_nil (h (.key k) List.mem_cons_self)
      rw [groups, List.flatMap_cons, ih hkeys]
      congr 1
      rw [Group.keys, if_neg hk, String.ofList_toList]
      rfl

theorem dot_not_mem_text {g : Group} (h : g.Plain) : '.' ∉ g.text := by
  have hbase : '.' ∉ g.1 := h.plain '.' (by simp)
  intro hm
  obtain hm | hm := List.mem_append.mp hm
  · exact hbase hm
  · obtain ⟨i, -, hi⟩ := List.mem_flatMap.mp hm
    have hn : '.' ∉ natText i := not_mem_natText (by decide) i
    simp [bracketed, hn] at hi

theorem splitOn_groups {keys : List Key} (h : ∀ key ∈ keys, PlainKey key)
    {indices : List Nat} (hb : Group.Plain (base, indices)) :
    (Group.text (base, indices) ++ keys.flatMap (dotPart false)).splitOn '.' =
      (groups base indices keys).map Group.text := by
  induction keys generalizing base indices with
  | nil =>
    rw [List.flatMap_nil, List.append_nil, List.splitOn_eq_singleton (dot_not_mem_text hb)]
    rfl
  | cons key keys ih =>
    have hkeys := (List.forall_mem_cons.mp h).2
    cases key with
    | index i =>
      have hi : indices ++ [i] ≠ [] := by simp
      rw [groups, ← ih hkeys ⟨.inr hi, hb.plain⟩]
      simp [Group.text, dotPart]
    | key k =>
      have hk := h (.key k) List.mem_cons_self
      rw [List.flatMap_cons, dotPart_key hk, if_neg Bool.false_ne_true, List.cons_append,
        List.splitOn_append_cons_self_of_not_mem (dot_not_mem_text hb), groups, List.map_cons,
        ← ih hkeys (plain_of_key hk)]
      simp [Group.text]

def pathGroups : List Key → List Group
  | [] => []
  | .index i :: keys => groups [] [i] keys
  | .key k :: keys => groups k.toList [] keys

theorem pathGroups_plain {keys : List Key} (h : ∀ key ∈ keys, PlainKey key) :
    ∀ g ∈ pathGroups keys, g.Plain := by
  cases keys with
  | nil => exact fun g hg => nomatch hg
  | cons key keys =>
    have hkeys := (List.forall_mem_cons.mp h).2
    cases key with
    | index i => exact groups_plain hkeys ⟨.inr (by simp), fun c _ => by simp⟩
    | key k => exact groups_plain hkeys (plain_of_key (h (.key k) List.mem_cons_self))

theorem keys_pathGroups {keys : List Key} (h : ∀ key ∈ keys, PlainKey key) :
    (pathGroups keys).flatMap Group.keys = keys := by
  cases keys with
  | nil => rfl
  | cons key keys =>
    have hkeys := (List.forall_mem_cons.mp h).2
    cases key with
    | index i =>
      rw [pathGroups, keys_groups hkeys]
      rfl
    | key k =>
      have hk := toList_ne_nil (h (.key k) List.mem_cons_self)
      rw [pathGroups, keys_groups hkeys, Group.keys, if_neg hk, String.ofList_toList]
      rfl

theorem splitOn_build_dot_path {keys : List Key} (h : ∀ key ∈ keys, PlainKey key)
    (hne : keys ≠ []) :
    (build_dot_path keys).splitOn '.' = (pathGroups keys).map Group.text := by
  cases keys with
  | nil => exact absurd rfl hne
  | cons key keys =>
    have hkeys := (List.forall_mem_cons.mp h).2
    cases key with
    | index i =>
      have hb : Group.Plain ([], [i]) := ⟨.inr (by simp), fun c _ => by simp⟩
      rw [pathGroups, ← splitOn_groups hkeys hb]
      simp [build_dot_path, dotPart, Group.text]
    | key k =>
      have hk := h (.key k) List.mem_cons_self
      rw [pathGroups, ← splitOn_groups hkeys (plain_of_key hk), build_dot_path,
        dotPart_key hk, if_pos rfl]
      simp [Group.text]

theorem indicesIn_skip (h : '[' ∉ s) (rest : Text) :
    indicesIn none (s ++ rest) = indicesIn none rest := by
  induction s with
  | nil => rfl
  | cons c s ih =>
    have hc : ¬ c = '[' := fun he => h (by rw [he]; exact List.mem_cons_self)
    rw [List.cons_append, indicesIn, if_neg hc]
    exact ih fun hm => h (List.mem_cons_of_mem c hm)

theorem indicesIn_digits (h : ∀ c ∈ s, c.isDigit = true) (ds rest : Text) :
    indicesIn (some ds) (s ++ rest) = indicesIn (some (ds ++ s)) rest := by
  induction s generalizing ds with
  | nil => rw [List.nil_append, List.append_nil]
  | cons c s ih =>
    have hc : (decimal? c).isSome = true := by
      rw [decimal?_of_isDigit (h c List.mem_cons_self)]
      rfl
    rw [List.cons_append, indicesIn, if_pos hc, ih fun d hd => h d (List.mem_cons_of_mem c hd),
      List.append_assoc]
    rfl

theorem indicesIn_brackets (indices : List Nat) :
    indicesIn none (indices.flatMap fun i => bracketed (natText i)) = indices := by
  induction indices with
  | nil => rfl
  | cons i indices ih =>
    have hclose : ¬ (decimal? ']').isSome = true := by decide
    rw [List.flatMap_cons, bracketed, List.cons_append, List.append_assoc,
      List.singleton_append, indicesIn, if_pos rfl,
      indicesIn_digits (fun c hc => isDigit_of_mem_natText hc), List.nil_append, indicesIn,
      if_neg hclose, if_pos ⟨rfl, natText_ne_nil i⟩, digitsFrom_natText, ih]
    rfl

theorem takeWhile_bracket (h : '[' ∉ s) (rest : Text) :
    (s ++ '[' :: rest).takeWhile (· != '[') = s ∧
      (s ++ '[' :: rest).dropWhile (· != '[') = '[' :: rest := by
  have hs : ∀ c ∈ s, (c != '[') = true := by
    intro c hc
    rw [bne_iff_ne]
    rintro rfl
    exact h hc
  constructor
  · rw [List.takeWhile_append_of_pos hs, List.takeWhile_cons_of_neg (by decide), List.append_nil]
  · rw [List.dropWhile_append_of_pos hs, List.dropWhile_cons_of_neg (by decide)]

theorem partKeys_text {g : Group} (h : g.Plain) : partKeys g.text = g.keys := by
  obtain ⟨base, indices⟩ := g
  have hopen : '[' ∉ base := h.plain '[' (by simp)
  have hskip := indicesIn_skip hopen (indices.flatMap fun i => bracketed (natText i))
  rw [indicesIn_brackets] at hskip
  rw [partKeys, Group.text, hskip, Group.keys]
  cases indices with
  | nil =>
    have hbase : base ≠ [] := h.nonempty.resolve_right fun hi => hi rfl
    rw [List.flatMap_nil, List.append_nil, if_neg (fun hm => hopen hm.1), if_neg hbase]
    rfl
  | cons i indices =>
    rw [List.flatMap_cons, bracketed, List.cons_append, (takeWhile_bracket hopen _).1, if_pos]
    simp

theorem parse_build_dot_path {keys : List Key} (h : ∀ key ∈ keys, PlainKey key) :
    parse_path_keys (build_dot_path keys) = keys := by
  cases hkeys : keys with
  | nil => rfl
  | cons key rest =>
    have hne : keys ≠ [] := by
      rw [hkeys]
      exact List.cons_ne_nil _ _
    rw [← hkeys, parse_path_keys, if_neg (build_dot_path_ne_nil h hne),
      splitOn_build_dot_path h hne, List.flatMap_map]
    have hparts : ∀ g ∈ pathGroups keys, partKeys g.text = g.keys :=
      fun g hg => partKeys_text (pathGroups_plain h g hg)
    rw [List.flatMap_congr hparts, keys_pathGroups h]

variable {v node : Json}

theorem nodeAt_key {rest : List Key} (h : nodeAt (.key k :: rest) v = some node) :
    ∃ kvs x, v = .obj kvs ∧ Dict.get? kvs k = some x ∧ nodeAt rest x = some node := by
  cases v with
  | obj kvs =>
    obtain ⟨x, hx, hrest⟩ := Option.bind_eq_some_iff.mp h
    exact ⟨kvs, x, rfl, hx, hrest⟩
  | null => cases h
  | bool b => cases h
  | int n => cases h
  | float f => cases h
  | str s => cases h
  | arr xs => cases h

theorem nodeAt_index {i : Nat} {rest : List Key} (h : nodeAt (.index i :: rest) v = some node) :
    ∃ xs x, v = .arr xs ∧ xs[i]? = some x ∧ nodeAt rest x = some node := by
  cases v with
  | arr xs =>
    obtain ⟨x, hx, hrest⟩ := Option.bind_eq_some_iff.mp h
    exact ⟨xs, x, rfl, hx, hrest⟩
  | null => cases h
  | bool b => cases h
  | int n => cases h
  | float f => cases h
  | str s => cases h
  | obj kvs => cases h

theorem lookup_eq {k : Text} {kvs : List (String × Json)} {x : Json}
    (h : Dict.get? kvs (String.ofList k) = some x) : lookup k (.obj kvs) = some x := by
  rw [lookup, h]
  rfl

theorem indexed_natText {i : Nat} {xs : List Json} {x : Json} (h : xs[i]? = some x)
    (below : Json → Json) : indexed (natText i) xs below = below x := by
  have hitem : itemAt xs (i : Int) = some x := by
    rw [itemAt, if_pos (Int.natCast_nonneg i), Int.toNat_natCast]
    exact h
  rw [indexed, intOf_natText, Option.bind_some, hitem]

theorem natText_no_wildcard (i : Nat) : ¬ (natText i = ['*'] ∨ natText i = []) := by
  have hstar : '*' ∉ natText i := not_mem_natText (by decide) i
  rintro (h | h)
  · rw [h] at hstar
    exact hstar List.mem_cons_self
  · exact natText_ne_nil i h

theorem locateDotParts_twice (hopen : '[' ∉ base) (i j : Nat) (indices : List Nat)
    (remaining : List Text) (v : Json) :
    locateDotParts (Group.text (base, i :: j :: indices) :: remaining) v = .null := by
  have htext : Group.text (base, i :: j :: indices) =
      base ++ '[' :: (natText i ++ ']' :: bracketed (natText j) ++
        indices.flatMap fun i => bracketed (natText i)) := by
    simp [Group.text, bracketed]
  obtain ⟨htake, hdrop⟩ := takeWhile_bracket hopen (natText i ++ ']' :: bracketed (natText j) ++
    indices.flatMap fun i => bracketed (natText i))
  have hsplit : splitBracket (Group.text (base, i :: j :: indices)) =
      some (base, (natText i ++ ']' :: bracketed (natText j) ++
        indices.flatMap fun i => bracketed (natText i)).dropLast) := by
    rw [htext, splitBracket, if_pos (by simp), htake, hdrop]
    rfl
  have hmem : ']' ∈ (natText i ++ ']' :: bracketed (natText j) ++
      indices.flatMap fun i => bracketed (natText i)).dropLast := by
    rw [List.append_assoc, List.cons_append, List.dropLast_append_cons, List.mem_append]
    right
    rw [bracketed, List.cons_append, List.dropLast_cons_cons]
    exact List.mem_cons_self
  rw [locateDotParts, hsplit]
  dsimp only
  split
  · rw [if_neg, indexed, intOf_bracket hmem]
    · rfl
    · rintro (h | h)
      · rw [h] at hmem
        simp at hmem
      · rw [h] at hmem
        cases hmem
  · rfl

theorem locateDotParts_once (hopen : '[' ∉ base) (i : Nat)
    (remaining : List Text) {rest : List Key} {v node : Json}
    (h : nodeAt (Group.keys (base, [i]) ++ rest) v = some node) :
    ∃ x, nodeAt rest x = some node ∧
      locateDotParts (Group.text (base, [i]) :: remaining) v = locateDotParts remaining x := by
  have htext : Group.text (base, [i]) = base ++ '[' :: (natText i ++ [']']) := by
    simp [Group.text, bracketed]
  obtain ⟨htake, hdrop⟩ := takeWhile_bracket hopen (natText i ++ [']'])
  have hsplit : splitBracket (Group.text (base, [i])) = some (base, natText i) := by
    rw [htext, splitBracket, if_pos (by simp), htake, hdrop, List.tail_cons,
      List.dropLast_concat]
  have hheld : ∃ xs x, heldBy base v = some (.arr xs) ∧ xs[i]? = some x ∧
      nodeAt rest x = some node := by
    rw [Group.keys, List.append_assoc] at h
    by_cases hb : base = []
    · rw [if_pos hb, List.nil_append] at h
      obtain ⟨xs, x, rfl, hx, hrest⟩ := nodeAt_index h
      exact ⟨xs, x, if_pos hb, hx, hrest⟩
    · rw [if_neg hb] at h
      obtain ⟨kvs, w, rfl, hw, hbelow⟩ := nodeAt_key h
      obtain ⟨xs, x, rfl, hx, hrest⟩ := nodeAt_index hbelow
      exact ⟨xs, x, by rw [heldBy, if_neg hb, lookup_eq hw], hx, hrest⟩
  obtain ⟨xs, x, hheld, hx, hrest⟩ := hheld
  refine ⟨x, hrest, ?_⟩
  rw [locateDotParts, hsplit]
  simp only [hheld, if_neg (natText_no_wildcard i)]
  exact indexed_natText hx _

theorem locateDotParts_name (hopen : '[' ∉ base) (hne : base ≠ [])
    (remaining : List Text) {rest : List Key} {v node : Json}
    (h : nodeAt (Group.keys (base, []) ++ rest) v = some node) :
    ∃ x, nodeAt rest x = some node ∧
      locateDotParts (Group.text (base, []) :: remaining) v = locateDotParts remaining x := by
  have htext : Group.text (base, []) = base := by simp [Group.text]
  have hsplit : splitBracket base = none := if_neg hopen
  rw [Group.keys, if_neg hne] at h
  obtain ⟨kvs, x, rfl, hx, hrest⟩ := nodeAt_key h
  refine ⟨x, hrest, ?_⟩
  rw [htext, locateDotParts, hsplit]
  simp only [lookup_eq hx]

theorem locateDotParts_groups {gs : List Group} (hg : ∀ g ∈ gs, g.Plain)
    (h : nodeAt (gs.flatMap Group.keys) v = some node) :
    locateDotParts (gs.map Group.text) v =
      if gs.all (fun g => g.2.length ≤ 1) then node else .null := by
  induction gs generalizing v with
  | nil => exact Option.some.inj h
  | cons g gs ih =>
    obtain ⟨base, indices⟩ := g
    have hplain := hg (base, indices) List.mem_cons_self
    have hopen : '[' ∉ base := hplain.plain '[' (by simp)
    have hgs : ∀ g ∈ gs, g.Plain := (List.forall_mem_cons.mp hg).2
    rw [List.flatMap_cons] at h
    rw [List.map_cons, List.all_cons]
    match indices, h with
    | [], h =>
      have hne : base ≠ [] := hplain.nonempty.resolve_right fun hi => hi rfl
      obtain ⟨x, hx, heq⟩ := locateDotParts_name hopen hne (gs.map Group.text) h
      rw [heq, ih hgs hx]
      rfl
    | [i], h =>
      obtain ⟨x, hx, heq⟩ := locateDotParts_once hopen i (gs.map Group.text) h
      rw [heq, ih hgs hx]
      rfl
    | i :: j :: indices, h =>
      rw [locateDotParts_twice hopen]
      simp

theorem locate_build_dot_path {keys : List Key} (h : ∀ key ∈ keys, PlainKey key)
    (hn : nodeAt keys v = some node) :
    locate_path_in_dict v (build_dot_path keys) .dot =
      if (pathGroups keys).all (fun g => g.2.length ≤ 1) then node else .null := by
  cases hkeys : keys with
  | nil =>
    rw [hkeys] at hn
    exact Option.some.inj hn
  | cons key rest =>
    have hne : keys ≠ [] := by
      rw [hkeys]
      exact List.cons_ne_nil _ _
    rw [← hkeys, locate_path_in_dict, if_neg (build_dot_path_ne_nil h hne)]
    rw [splitOn_build_dot_path h hne]
    exact locateDotParts_groups (pathGroups_plain h) (by rwa [keys_pathGroups h])

theorem groups_of_keys {keys : List Key} (h : ∀ key ∈ keys, PlainKey key)
    (hk : ∀ key ∈ keys, key.isIndex = false) :
    (pathGroups keys).all (fun g => g.2.length ≤ 1) = true := by
  rw [List.all_eq_true]
  intro g hg
  cases hi : g.2 with
  | nil => rfl
  | cons i indices =>
    have hm : Key.index i ∈ (pathGroups keys).flatMap Group.keys := by
      rw [List.mem_flatMap]
      exact ⟨g, hg, by simp [Group.keys, hi]⟩
    rw [keys_pathGroups h] at hm
    exact Bool.noConfusion (hk _ hm)

theorem unbracketed_of_open (h : '[' ∉ s) : unbracketed s = s :=
  if_neg fun hs => h (List.mem_of_mem_head? hs.1)

theorem locateSlashParts_keys {keys : List Key} (h : ∀ key ∈ keys, PlainKey key)
    (hn : nodeAt keys v = some node) :
    locateSlashParts (keys.map keyText) v = node := by
  induction keys generalizing v with
  | nil => exact Option.some.inj hn
  | cons key keys ih =>
    have hkeys := (List.forall_mem_cons.mp h).2
    rw [List.map_cons]
    cases key with
    | index i =>
      have hopen : '[' ∉ natText i := not_mem_natText (by decide) i
      obtain ⟨xs, x, rfl, hx, hrest⟩ := nodeAt_index hn
      rw [keyText, locateSlashParts, unbracketed_of_open hopen,
        if_neg (natText_no_wildcard i), indexed_natText hx]
      exact ih hkeys hrest
    | key k =>
      have hk := h (.key k) List.mem_cons_self
      have hopen : '[' ∉ k.toList := not_mem_of_plain hk (by simp)
      have hstar : '*' ∉ k.toList := not_mem_of_plain hk (by simp)
      have hwild : ¬ (k.toList = ['*'] ∨ k.toList = []) := by
        rintro (he | he)
        · rw [he] at hstar
          exact hstar List.mem_cons_self
        · exact toList_ne_nil hk he
      obtain ⟨kvs, x, rfl, hx, hrest⟩ := nodeAt_key hn
      have hlookup : lookup k.toList (.obj kvs) = some x :=
        lookup_eq (by rwa [String.ofList_toList])
      simp only [keyText, locateSlashParts, unbracketed_of_open hopen, if_neg hwild, hlookup]
      exact ih hkeys hrest

theorem keyTexts_plain {keys : List Key} (h : ∀ key ∈ keys, PlainKey key) :
    ∀ part ∈ keys.map keyText, '/' ∉ part ∧ part ≠ [] := by
  intro part hp
  obtain ⟨key, hkey, rfl⟩ := List.mem_map.mp hp
  exact keyText_plain (h key hkey)

theorem build_slash_path_of_ne {keys : List Key} (hne : keys ≠ []) :
    build_slash_path keys = '/' :: ['/'].intercalate (keys.map keyText) := by
  cases keys with
  | nil => exact absurd rfl hne
  | cons key keys => rfl

theorem locate_build_slash_path {keys : List Key} (h : ∀ key ∈ keys, PlainKey key)
    (hn : nodeAt keys v = some node) :
    locate_path_in_dict v (build_slash_path keys) .slash = node := by
  by_cases hne : keys = []
  · rw [hne] at hn ⊢
    exact Option.some.inj hn
  · have hmap : keys.map keyText ≠ [] := fun he => hne (List.map_eq_nil_iff.mp he)
    rw [build_slash_path_of_ne hne, locate_path_in_dict, if_neg (List.cons_ne_nil _ _)]
    rw [filter_splitOn_intercalate hmap (keyTexts_plain h)]
    exact locateSlashParts_keys h hn

theorem resolve_text_arr (h : '[' ∉ s) (remaining : List Step) (xs : List Json) :
    resolve (.text s :: remaining) (.arr xs) = .null := by
  have hs : s ≠ ['[', '*', ']'] := by
    rintro rfl
    exact h List.mem_cons_self
  simp [resolve, hs]

theorem resolve_text_obj (h : '[' ∉ s) (remaining : List Step)
    {kvs : List (String × Json)} {x : Json} (hx : Dict.get? kvs (String.ofList s) = some x) :
    resolve (.text s :: remaining) (.obj kvs) = resolve remaining x := by
  have hs : s ≠ ['[', '*', ']'] := by
    rintro rfl
    exact h List.mem_cons_self
  rw [resolve]
  simp only [if_neg hs, hx]

theorem resolve_number_arr {i : Nat} (remaining : List Step) {xs : List Json} {x : Json}
    (hx : xs[i]? = some x) :
    resolve (.number i :: remaining) (.arr xs) = resolve remaining x := by
  rw [resolve]
  simp only [if_pos (Int.natCast_nonneg i), Int.toNat_natCast, hx]

def textStep (key : Key) : Step := .text (keyText key)

theorem resolve_textSteps {keys : List Key} (h : ∀ key ∈ keys, PlainKey key)
    (hn : nodeAt keys v = some node) :
    resolve (keys.map textStep) v = if keys.any Key.isIndex then .null else node := by
  induction keys generalizing v with
  | nil => exact Option.some.inj hn
  | cons key keys ih =>
    have hkeys := (List.forall_mem_cons.mp h).2
    rw [List.map_cons, List.any_cons]
    cases key with
    | index i =>
      have hopen : '[' ∉ natText i := not_mem_natText (by decide) i
      obtain ⟨xs, x, rfl, -, -⟩ := nodeAt_index hn
      exact resolve_text_arr hopen _ xs
    | key k =>
      have hk := h (.key k) List.mem_cons_self
      obtain ⟨kvs, x, rfl, hx, hrest⟩ := nodeAt_key hn
      have hstep := resolve_text_obj (s := k.toList) (not_mem_of_plain hk (by simp))
        (keys.map textStep) (by rwa [String.ofList_toList])
      rw [textStep, keyText, hstep, ih hkeys hrest]
      rfl

def slashKeyStep : Key → Step
  | .index i => .number i
  | .key k => if isdigit k.toList then .number ((intOf k.toList).getD 0) else .text k.toList

theorem resolve_slashSteps {keys : List Key} (h : ∀ key ∈ keys, PlainKey key)
    (hn : nodeAt keys v = some node) :
    resolve (keys.map slashKeyStep) v =
      if keys.any Key.looksLikeNumber then .null else node := by
  induction keys generalizing v with
  | nil => exact Option.some.inj hn
  | cons key keys ih =>
    have hkeys := (List.forall_mem_cons.mp h).2
    rw [List.map_cons, List.any_cons]
    cases key with
    | index i =>
      obtain ⟨xs, x, rfl, hx, hrest⟩ := nodeAt_index hn
      rw [slashKeyStep, resolve_number_arr _ hx, ih hkeys hrest]
      rfl
    | key k =>
      have hk := h (.key k) List.mem_cons_self
      obtain ⟨kvs, x, rfl, hx, hrest⟩ := nodeAt_key hn
      rw [slashKeyStep, Key.looksLikeNumber]
      by_cases hd : isdigit k.toList = true
      · rw [if_pos hd, hd]
        rfl
      · have hstep := resolve_text_obj (s := k.toList) (not_mem_of_plain hk (by simp))
          (keys.map slashKeyStep) (by rwa [String.ofList_toList])
        rw [if_neg hd, hstep, ih hkeys hrest, Bool.eq_false_iff.mpr hd]
        rfl

theorem mapM_slashStep (keys : List Key) :
    (∀ key ∈ keys, key.readable = true) →
      (keys.map keyText).mapM slashStep = .ok (keys.map slashKeyStep) := by
  intro h
  induction keys with
  | nil => rfl
  | cons key keys ih =>
    have hstep : slashStep (keyText key) = .ok (slashKeyStep key) := by
      cases key with
      | index i =>
        rw [slashStep, keyText, if_pos (isdigit_natText i), intOf_natText]
        rfl
      | key k =>
        have hk := h (.key k) List.mem_cons_self
        rw [slashStep, keyText, slashKeyStep]
        by_cases hd : isdigit k.toList = true
        · rw [Key.readable, hd, Bool.not_true, Bool.false_or] at hk
          obtain ⟨i, hi⟩ := Option.isSome_iff_exists.mp hk
          rw [if_pos hd, if_pos hd, hi]
          rfl
        · rw [if_neg hd, if_neg hd]
    rw [List.map_cons, List.mapM_cons, hstep, ih (List.forall_mem_cons.mp h).2]
    rfl

theorem readable_of_mapM {keys : List Key} {steps : List Step}
    (h : (keys.map keyText).mapM slashStep = .ok steps) : ∀ key ∈ keys, key.readable = true := by
  induction keys generalizing steps with
  | nil => exact fun key hk => nomatch hk
  | cons key keys ih =>
    rw [List.map_cons, List.mapM_cons] at h
    cases hs : slashStep (keyText key) with
    | error e =>
      rw [hs] at h
      cases h
    | ok step =>
      rw [hs] at h
      cases hm : (keys.map keyText).mapM slashStep with
      | error e =>
        rw [hm] at h
        cases h
      | ok rest =>
        intro k hk
        obtain rfl | hk := List.mem_cons.mp hk
        · cases k with
          | index i => rfl
          | key k =>
            rw [slashStep, keyText] at hs
            rw [Key.readable]
            by_cases hd : isdigit k.toList = true
            · rw [if_pos hd] at hs
              cases hi : intOf k.toList with
              | none =>
                rw [hi] at hs
                cases hs
              | some i => simp
            · rw [Bool.eq_false_iff.mpr hd]
              rfl
        · exact ih hm k hk

theorem container_of_nodeAt {keys : List Key} (hne : keys ≠ [])
    (hn : nodeAt keys v = some node) : (∃ kvs, v = .obj kvs) ∨ ∃ xs, v = .arr xs := by
  cases keys with
  | nil => exact absurd rfl hne
  | cons key keys =>
    cases key with
    | index i =>
      obtain ⟨xs, x, rfl, -, -⟩ := nodeAt_index hn
      exact .inr ⟨xs, rfl⟩
    | key k =>
      obtain ⟨kvs, x, rfl, -, -⟩ := nodeAt_key hn
      exact .inl ⟨kvs, rfl⟩

theorem get_value_of_container (hv : (∃ kvs, v = .obj kvs) ∨ ∃ xs, v = .arr xs)
    {path : Text} (hp : path ≠ []) (style : Style) :
    get_value_by_path v path style =
      match style with
      | .dot => ((segments false [] path).mapM Segment.step).map fun keys => .ok (resolve keys v)
      | .slash => some (((slashParts path).mapM slashStep).map fun keys => resolve keys v) := by
  obtain ⟨kvs, rfl⟩ | ⟨xs, rfl⟩ := hv
  · exact if_neg hp
  · exact if_neg hp

theorem mapM_step (keys : List Key) :
    (keys.map Key.segment).mapM Segment.step = some (keys.map textStep) := by
  induction keys with
  | nil => rfl
  | cons key keys ih =>
    rw [List.map_cons, List.mapM_cons, ih]
    cases key <;> rfl

theorem get_build_dot_path {keys : List Key} (h : ∀ key ∈ keys, PlainKey key) (hne : keys ≠ [])
    (hn : nodeAt keys v = some node) :
    get_value_by_path v (build_dot_path keys) .dot =
      some (.ok (if keys.any Key.isIndex then .null else node)) := by
  rw [get_value_of_container (container_of_nodeAt hne hn) (build_dot_path_ne_nil h hne),
    segments_build_dot_path h, mapM_step, Option.map_some, resolve_textSteps h hn]

theorem get_build_slash_path {keys : List Key} (h : ∀ key ∈ keys, PlainKey key)
    (hne : keys ≠ []) (hn : nodeAt keys v = some node) :
    get_value_by_path v (build_slash_path keys) .slash =
      some (((keys.map keyText).mapM slashStep).map fun steps => resolve steps v) := by
  have hmap : keys.map keyText ≠ [] := fun he => hne (List.map_eq_nil_iff.mp he)
  rw [build_slash_path_of_ne hne,
    get_value_of_container (container_of_nodeAt hne hn) (List.cons_ne_nil _ _)]
  rw [slashParts_intercalate hmap (keyTexts_plain h)]

theorem get_empty_path (v : Json) (style : Style) : get_value_by_path v [] style ≠ some (.ok v) := by
  cases v with
  | obj kvs => exact fun h => nomatch h
  | arr xs => exact fun h => nomatch h
  | null => exact fun h => nomatch h
  | bool b => exact fun h => nomatch h
  | int n => exact fun h => nomatch h
  | float f => exact fun h => nomatch h
  | str s => exact fun h => nomatch h

/-- The paths to a node are read back exactly if they are paths of keys that do not look like
numbers, or the node is `None`, and the first key does not start with a dollar sign. -/
theorem roundTrips_iff {v node : Json} {keys : List Key} (h : ∀ key ∈ keys, PlainKey key)
    (hn : nodeAt keys v = some node) : RoundTrips v keys node ↔ ReadBack keys node := by
  constructor
  · intro hr
    have hne : keys ≠ [] := by
      intro he
      have hd := hr.get_dot
      rw [he] at hn hd
      cases hn
      exact get_empty_path v .dot hd
    have hdot := hr.get_dot
    rw [get_build_dot_path h hne hn] at hdot
    have hindex : (if keys.any Key.isIndex then Json.null else node) = node :=
      Except.ok.inj (Option.some.inj hdot)
    have hslash := hr.get_slash
    rw [get_build_slash_path h hne hn] at hslash
    have hok : ∃ steps, (keys.map keyText).mapM slashStep = .ok steps := by
      cases hm : (keys.map keyText).mapM slashStep with
      | ok steps => exact ⟨steps, rfl⟩
      | error e =>
        rw [hm] at hslash
        exact nomatch Option.some.inj hslash
    obtain ⟨steps, hsteps⟩ := hok
    have hread := readable_of_mapM hsteps
    rw [mapM_slashStep keys hread] at hslash
    have hnumber : resolve (keys.map slashKeyStep) v = node :=
      Except.ok.inj (Option.some.inj hslash)
    rw [resolve_slashSteps h hn] at hnumber
    refine ⟨hne, ?_, ?_⟩
    · have hs := hr.streamed
      rw [streaming_path_parts_of_plain h] at hs
      cases hd : dollarFirst keys with
      | false => rfl
      | true =>
        rw [hd] at hs
        exact absurd (Except.ok.inj hs).symm hne
    · by_cases hnode : node = .null
      · exact .inr ⟨hnode, hread⟩
      · left
        intro key hkey
        constructor
        · cases hi : key.isIndex with
          | false => rfl
          | true =>
            rw [if_pos (List.any_eq_true.mpr ⟨key, hkey, hi⟩)] at hindex
            exact absurd hindex.symm hnode
        · cases hl : key.looksLikeNumber with
          | false => rfl
          | true =>
            rw [if_pos (List.any_eq_true.mpr ⟨key, hkey, hl⟩)] at hnumber
            exact absurd hnumber.symm hnode
  · intro hb
    have hread : ∀ key ∈ keys, key.readable = true := by
      obtain hk | ⟨-, hk⟩ := hb.keys_only
      · intro key hkey
        have hl := (hk key hkey).2
        cases key with
        | index i => rfl
        | key k =>
          rw [Key.looksLikeNumber] at hl
          rw [Key.readable, hl]
          rfl
      · exact hk
    have hvalue : ∀ b : Bool, (b = true → node = .null) → (if b then Json.null else node) = node := by
      intro b hb
      cases b with
      | true => exact (hb rfl).symm
      | false => rfl
    -- where a reader loses the node, the node is `None`
    have hnull : ∀ p : Key → Bool, (∀ key, p key = true → key.isIndex = true ∨
        key.looksLikeNumber = true) → keys.any p = true → node = .null := by
      intro p hp hany
      obtain ⟨key, hkey, hpk⟩ := List.any_eq_true.mp hany
      obtain hk | ⟨hnode, -⟩ := hb.keys_only
      · obtain hi | hl := hp key hpk
        · rw [(hk key hkey).1] at hi
          cases hi
        · rw [(hk key hkey).2] at hl
          cases hl
      · exact hnode
    refine ⟨?_, locate_build_slash_path h hn, ?_, ?_, parse_build_dot_path h, ?_,
      convert_build_dot_path h⟩
    · rw [locate_build_dot_path h hn]
      obtain hk | ⟨hnode, -⟩ := hb.keys_only
      · rw [if_pos (groups_of_keys h fun key hkey => (hk key hkey).1)]
      · rw [hnode]
        split <;> rfl
    · rw [get_build_dot_path h hb.nonempty hn, hvalue _ (hnull _ fun key hi => .inl hi)]
    · rw [get_build_slash_path h hb.nonempty hn, mapM_slashStep keys hread]
      have hres := resolve_slashSteps h hn
      rw [hvalue _ (hnull _ fun key hl => .inr hl)] at hres
      exact congrArg (fun v => some (Except.ok v)) hres
    · rw [streaming_path_parts_of_plain h, hb.plain_start]
      rfl

theorem roundTrips_of_names :
    RoundTrips (.obj [("user", .obj [("name", .str "Ada")])]) [.key "user", .key "name"]
      (.str "Ada") := by
  have hplain : ∀ key ∈ [Key.key "user", Key.key "name"], PlainKey key := by
    intro key hkey
    simp only [List.mem_cons, List.not_mem_nil, or_false] at hkey
    obtain rfl | rfl := hkey
    · exact ⟨by decide, List.forall_iff_forall_mem.mp (by decide)⟩
    · exact ⟨by decide, List.forall_iff_forall_mem.mp (by decide)⟩
  rw [roundTrips_iff hplain rfl]
  exact ⟨by decide, by decide, .inl (by decide)⟩

theorem index_not_read_back :
    nodeAt [.key "tasks", .index 0] (.obj [("tasks", .arr [.int 1])]) = some (.int 1) ∧
      ¬ RoundTrips (.obj [("tasks", .arr [.int 1])]) [.key "tasks", .index 0] (.int 1) := by
  refine ⟨rfl, fun h => ?_⟩
  have hd := h.get_dot
  have hp : build_dot_path [.key "tasks", .index 0] = "tasks[0]".toList := by decide
  rw [hp] at hd
  have hg : get_value_by_path (.obj [("tasks", .arr [.int 1])]) "tasks[0]".toList .dot =
      some (.ok .null) := rfl
  rw [hg] at hd
  cases hd

end Agently.DataPathBuilder
