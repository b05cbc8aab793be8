import Agently.Utils.RepairedDocuments
import Agently.Utils.ScannedTokens

/-! # Boundaries of a document

`moves` reads a document by its structure: it reports a value at its closing token, and a number
when something follows it. The parser does the same on a document and on each text that the
document begins with. -/

namespace Agently.Utils.ObservedValues

open Agently.Lib Agently.Lib.JsonText Agently.Lib.CutReader
open Agently.TaskDAGValidation (isSpace)
open Agently.Utils.JsonRepair (isSpace_of_blank dropWhile_blank)

mutual

def valueOf : Tree → Value
  | .word text => .word text
  | .string body => .string (decoded body)
  | .array _ items => .list (itemValues items)
  | .object _ members => .dict (entries [] members)

def itemValues : Items → List Value
  | .nil => []
  | .cons _ value _ rest => valueOf value :: itemValues rest

def entries (set : Dict Points Value) : Members → Dict Points Value
  | .nil => set
  | .cons _ key _ _ value _ rest => entries (Dict.set set (decoded key) (valueOf value)) rest

end

mutual

def words : Tree → List Text
  | .word text => [text]
  | .string _ => []
  | .array _ items => itemWords items
  | .object _ members => memberWords members

def itemWords : Items → List Text
  | .nil => []
  | .cons _ value _ rest => words value ++ itemWords rest

def memberWords : Members → List Text
  | .nil => []
  | .cons _ _ _ _ value _ rest => words value ++ memberWords rest

end

def literals : List Text := ["null".toList, "true".toList, "false".toList]

def wordMoves (parts : List Part) (w : Text) : List (Move Char Report) :=
  if literals.contains w then [.eat w, .emit (report parts (.word w))]
  else if longInteger w then [.stuck]
  else [.eat w, .more, .emit (report parts (.word w))]

def separator : Bool → List (Move Char Report)
  | true => []
  | false => [.eat [','], .skip]

mutual

def moves (parts : List Part) : Tree → List (Move Char Report)
  | .word w => wordMoves parts w
  | .string body => [.eat (quoted body), .emit (report parts (.string (decoded body)))]
  | .array _ items => .eat ['['] :: .skip :: (itemMoves parts true 0 items ++
      [.eat [']'], .emit (report parts (.list (itemValues items)))])
  | .object _ members => .eat ['{'] :: .skip :: (memberMoves parts true members ++
      [.eat ['}'], .emit (report parts (.dict (entries [] members)))])

def itemMoves (parts : List Part) (first : Bool) (i : Nat) : Items → List (Move Char Report)
  | .nil => []
  | .cons _ value _ rest => separator first ++ (moves (parts ++ [.index i]) value ++
      .skip :: itemMoves parts false (i + 1) rest)

def memberMoves (parts : List Part) (first : Bool) : Members → List (Move Char Report)
  | .nil => []
  | .cons _ key _ _ value _ rest => separator first ++ (.eat (quoted key) :: .skip :: .eat [':'] ::
      .skip :: (moves (parts ++ [.key (decoded key)]) value ++
        .skip :: memberMoves parts false rest))

end

def finish (value : Value) (o : Outcome Char Report) : Parsed :=
  (o.1, o.2.map fun rest => (value, rest))

def Follow (k : Text) : Prop := ∃ c rest, k.dropWhile isSpace = c :: rest ∧ c ∈ [',', ']', '}']

variable {k s : Text}

theorem Follow.stops (h : Follow k) (hs : s <+: k) : Stops s := by
  intro c hc hn
  obtain ⟨d, rest, hd, hmem⟩ := h
  obtain ⟨s', rfl⟩ := List.head?_eq_some_iff.mp hc
  obtain ⟨t, rfl⟩ := hs
  obtain ⟨-, hspace, -, -, hno⟩ := numberChar_plain hn
  have hneg : ¬ isSpace c = true := by simp [hspace]
  rw [List.cons_append, List.dropWhile_cons_of_neg hneg] at hd
  cases hd
  exact hno hmem

theorem bounded_of_follow (h : Follow k) (hs : s <+: k) (number : Bool) :
    bounded number s = (!number || decide (s.dropWhile isSpace ≠ [])) := by
  obtain ⟨c, rest, hk, hmem⟩ := h
  have hd := dropWhile_mono isSpace hs
  rw [hk] at hd
  rw [bounded]
  obtain hnil | ⟨t, ht, -⟩ := List.prefix_cons_iff.mp hd
  · rw [hnil]
    simp
  · rw [ht]
    simp [hmem]

variable {w : Text}

theorem raw_decode_literal (hw : w ∈ literals) (rest : Text) :
    raw_decode (w ++ rest) = some (.word w, false, rest) := by
  simp only [literals, List.mem_cons, List.not_mem_nil, or_false] at hw
  obtain rfl | rfl | rfl := hw
  · simp [raw_decode, constants, List.isPrefixOf]
  · simp [raw_decode, constants, List.isPrefixOf]
  · simp [raw_decode, constants, List.isPrefixOf]

theorem parse_literal_cut (hw : w ∈ literals) (hs : s <+: w) (hne : s ≠ w)
    (parts : List Part) : parse_scalar parts s = ([], none) := by
  have hall : ∀ w ∈ literals, ∀ s ∈ w.inits, s ≠ w → (raw_decode s).isNone = true := by
    simp only [← List.forall_iff_forall_mem]
    decide
  have hnone := Option.isNone_iff_eq_none.mp (hall w hw s ((List.mem_inits s w).mpr hs) hne)
  rw [parse_scalar, hnone]

theorem literal_of_word (h : Word w) : w ∈ literals ∨
    ∃ sign whole fraction exponent, IsNumber sign whole fraction exponent ∧
      w = sign ++ (whole ++ (fraction ++ exponent)) := by
  cases h with
  | null => exact .inl (by decide)
  | true => exact .inl (by decide)
  | false => exact .inl (by decide)
  | @number sign whole fraction exponent h => exact .inr ⟨sign, whole, fraction, exponent, h, rfl⟩

theorem raw_decode_number {sign whole fraction exponent rest : Text}
    (h : IsNumber sign whole fraction exponent) (hr : Stops rest) :
    let w := sign ++ (whole ++ (fraction ++ exponent))
    raw_decode (w ++ rest) = if longInteger w then none else some (.word w, true, rest) := by
  intro w
  have hchars : ∃ c t, w = c :: t ∧ NumberChar c ∧ (c = '-' → (t ++ rest).head? ≠ some 'I') := by
    have hdigit : ∃ d ds, whole = d :: ds ∧ d.isDigit = true := by
      obtain hw | ⟨⟨hne, hd⟩, -⟩ := h.whole
      · exact ⟨'0', [], hw, rfl⟩
      · obtain ⟨d, ds, hw⟩ := List.exists_cons_of_ne_nil hne
        exact ⟨d, ds, hw, hd d (by rw [hw]; exact List.mem_cons_self)⟩
    obtain ⟨d, ds, hwhole, hd⟩ := hdigit
    obtain hs | hs := h.sign
    · refine ⟨d, ds ++ (fraction ++ exponent), by simp only [w, hs, hwhole]; rfl, .inl hd, ?_⟩
      rintro rfl
      cases hd
    · refine ⟨'-', whole ++ (fraction ++ exponent), by simp only [w, hs]; rfl, .inr (by decide), ?_⟩
      intro _ hi
      rw [hwhole] at hi
      cases hi
      cases hd
  obtain ⟨c, t, hw, hc, hhead⟩ := hchars
  obtain ⟨hq, -, hletter, -⟩ := numberChar_plain hc
  have hscan : scanNumber (w ++ rest) = if longInteger w then none else some (w, rest) :=
    scanNumber_append hr h
  rw [hw, List.cons_append] at hscan ⊢
  rw [raw_decode, if_neg hq, constants_none hletter hhead, hscan]
  cases longInteger (c :: t) <;> rfl

theorem numberChars {sign whole fraction exponent : Text}
    (h : IsNumber sign whole fraction exponent) :
    ∀ c ∈ sign ++ (whole ++ (fraction ++ exponent)), NumberChar c := by
  have hdigits : ∀ {ds : Text}, Digits ds → ∀ c ∈ ds, NumberChar c := fun hd c hc => .inl (hd.2 c hc)
  intro c hc
  simp only [List.mem_append] at hc
  obtain hc | hc | hc | hc := hc
  · obtain hs | hs := h.sign
    · rw [hs] at hc
      cases hc
    · rw [hs, List.mem_singleton] at hc
      exact .inr (by rw [hc]; decide)
  · obtain hw | ⟨hd, -⟩ := h.whole
    · rw [hw, List.mem_singleton] at hc
      exact .inl (by rw [hc]; rfl)
    · exact hdigits hd c hc
  · obtain hf | ⟨ds, hf, hd⟩ := h.fraction
    · rw [hf] at hc
      cases hc
    · rw [hf] at hc
      obtain rfl | hc := List.mem_cons.mp hc
      · exact .inr (by decide)
      · exact hdigits hd c hc
  · obtain he | ⟨e, s, ds, he, he', hs, hd⟩ := h.exponent
    · rw [he] at hc
      cases hc
    · rw [he] at hc
      obtain rfl | hc := List.mem_cons.mp hc
      · exact .inr (by obtain rfl | rfl := he' <;> decide)
      · obtain hc | hc := List.mem_append.mp hc
        · obtain rfl | rfl | rfl := hs
          · cases hc
          · exact .inr (by rw [List.mem_singleton.mp hc]; decide)
          · exact .inr (by rw [List.mem_singleton.mp hc]; decide)
        · exact hdigits hd c hc

theorem parse_word (h : Word w) (hk : Follow k) (hs : s <+: w ++ k) (parts : List Part) :
    parse_scalar parts s = finish (.word w) (run isSpace (wordMoves parts w) s) := by
  obtain ⟨hcut, hne, hno⟩ | ⟨s', rfl, hs'⟩ := cut_or_whole hs
  · have hrun : run isSpace (wordMoves parts w) s = ([], none) := by
      rw [wordMoves]
      split_ifs
      · exact run_eat_of_not hno _
      · rfl
      · exact run_eat_of_not hno _
    rw [hrun]
    obtain hw | ⟨sign, whole, fraction, exponent, hn, rfl⟩ := literal_of_word h
    · exact parse_literal_cut hw hcut hne parts
    · exact parse_scalar_cut (fun c hc => numberChars hn c (hcut.subset hc)) parts
  · simp only [wordMoves, List.contains_iff_mem]
    split_ifs with hw hlong
    · rw [parse_scalar, raw_decode_literal hw, run_eat_append]
      simp only [bounded_of_follow hk hs', Bool.not_false, Bool.true_or, if_true]
      simp [run, finish]
    · obtain hlit | ⟨sign, whole, fraction, exponent, hn, rfl⟩ := literal_of_word h
      · exact absurd hlit hw
      · rw [parse_scalar, raw_decode_number hn (hk.stops hs'), if_pos hlong]
        rfl
    · obtain hlit | ⟨sign, whole, fraction, exponent, hn, rfl⟩ := literal_of_word h
      · exact absurd hlit hw
      · rw [parse_scalar, raw_decode_number hn (hk.stops hs'), if_neg hlong, run_eat_append, run]
        simp only [bounded_of_follow hk hs', Bool.not_true, Bool.false_or, decide_eq_true_eq]
        by_cases hend : s'.dropWhile isSpace = []
        · simp [hend, finish]
        · simp [hend, finish, run]

theorem parse_string {body : Text} (h : Body body) (hk : Follow k)
    (hs : s <+: quoted body ++ k) (parts : List Part) :
    parse_scalar parts s =
      finish (.string (decoded body)) (run isSpace (moves parts (.string body)) s) := by
  rw [moves]
  obtain (rfl | ⟨s', rfl, hscan, hno⟩) | ⟨s', rfl, hs'⟩ := quoted_cases h hs
  · rfl
  · rw [run_eat_of_not hno, parse_scalar, raw_decode, if_pos rfl, hscan]
    rfl
  · have hdecode : raw_decode (quoted body ++ s') = some (.string (decoded body), false, s') := by
      rw [quoted, List.cons_append, raw_decode, if_pos rfl, List.append_assoc,
        List.singleton_append, scanstring_body h]
      rfl
    rw [parse_scalar, hdecode, run_eat_append]
    simp only [bounded_of_follow hk hs', Bool.not_false, Bool.true_or, if_true]
    simp [run, finish]

def Scalar : Tree → Prop
  | .word _ | .string _ => True
  | .array _ _ | .object _ _ => False

theorem text_head {τ : Tree} (h : τ.Valid) :
    ∃ c t, τ.text = c :: t ∧ isSpace c = false ∧ c ≠ ']' := by
  cases τ with
  | word w =>
    obtain ⟨hne, hchars⟩ := JsonRepair.word_chars h
    obtain ⟨c, t, rfl⟩ := List.exists_cons_of_ne_nil hne
    obtain ⟨hspace, -, -, hno⟩ := JsonRepair.wordChar_plain (hchars c List.mem_cons_self)
    refine ⟨c, t, rfl, hspace, ?_⟩
    rintro rfl
    exact hno (by decide)
  | string body => exact ⟨'"', _, rfl, by decide, by decide⟩
  | array gap items => exact ⟨'[', _, rfl, by decide, by decide⟩
  | object gap members => exact ⟨'{', _, rfl, by decide, by decide⟩

theorem dropWhile_solid {c : Char} (h : isSpace c = false) (t : Text) :
    (c :: t).dropWhile isSpace = c :: t :=
  List.dropWhile_cons_of_neg (by simp [h])

variable {before : Text}

theorem dropWhile_value {τ : Tree} (hv : τ.Valid) (hb : Blank before) (k : Text) :
    (before ++ (τ.text ++ k)).dropWhile isSpace = τ.text ++ k := by
  obtain ⟨c, t, hτ, hc, -⟩ := text_head hv
  rw [dropWhile_blank hb, hτ, List.cons_append, dropWhile_solid hc]

variable {after : Text}

theorem dropWhile_more {more : Text} {close : Char} (ha : Blank after)
    (hm : more = [] ∨ ∃ t, more = ',' :: t) (hc : isSpace close = false) :
    (after ++ (more ++ close :: k)).dropWhile isSpace = more ++ close :: k := by
  rw [dropWhile_blank ha]
  obtain rfl | ⟨t, rfl⟩ := hm
  · exact dropWhile_solid hc k
  · exact dropWhile_solid (by decide) _

theorem follow_more {more : Text} {close : Char} (ha : Blank after)
    (hm : more = [] ∨ ∃ t, more = ',' :: t) (hc : close = ']' ∨ close = '}') :
    Follow (after ++ (more ++ close :: k)) := by
  have hspace : isSpace close = false := by obtain rfl | rfl := hc <;> decide
  have hd := dropWhile_more (k := k) ha hm hspace
  obtain rfl | ⟨t, rfl⟩ := hm
  · exact ⟨close, k, hd, by obtain rfl | rfl := hc <;> simp⟩
  · exact ⟨',', _, hd, by simp⟩

theorem itemsMore_cases (items : Items) :
    items.more = [] ∨ ∃ t, items.more = ',' :: t := by
  cases items with
  | nil => exact .inl rfl
  | cons before value after rest => exact .inr ⟨_, rfl⟩

theorem membersMore_cases (members : Members) :
    members.more = [] ∨ ∃ t, members.more = ',' :: t := by
  cases members with
  | nil => exact .inl rfl
  | cons before key after lead value trail rest => exact .inr ⟨_, rfl⟩

def TreeFull (τ : Tree) : Prop := ∀ parts k, (Scalar τ → Follow k) →
  run isSpace (moves parts τ) (τ.text ++ k) = (emits (moves parts τ), some k)

def ItemsFull (items : Items) : Prop := ∀ parts i k,
  run isSpace (itemMoves parts true i items) ((items.text ++ ']' :: k).dropWhile isSpace) =
    (emits (itemMoves parts true i items), some (']' :: k))

def MembersFull (members : Members) : Prop := ∀ parts k,
  run isSpace (memberMoves parts true members) ((members.text ++ '}' :: k).dropWhile isSpace) =
    (emits (memberMoves parts true members), some ('}' :: k))

theorem itemMoves_false (parts : List Part) (i : Nat) (before : Text) (value : Tree)
    (after : Text) (rest : Items) :
    itemMoves parts false i (.cons before value after rest) =
      .eat [','] :: .skip :: itemMoves parts true i (.cons before value after rest) := rfl

theorem memberMoves_false (parts : List Part) (before key after lead : Text) (value : Tree)
    (trail : Text) (rest : Members) :
    memberMoves parts false (.cons before key after lead value trail rest) =
      .eat [','] :: .skip :: memberMoves parts true (.cons before key after lead value trail rest) :=
  rfl

theorem full_word (hn : longInteger w = false) : TreeFull (.word w) := by
  intro parts k hk
  obtain ⟨c, rest, hc, -⟩ := hk trivial
  rw [Tree.text, moves, wordMoves]
  split_ifs with hw hlong
  · rw [run_eat_append]
    simp [run, emits, Move.reports]
  · rw [hn] at hlong
    cases hlong
  · rw [run_eat_append, run, if_neg (by simp [hc])]
    simp [run, emits, Move.reports]

variable {value : Tree}

theorem full_item {rest : Items} (hb : Blank before)
    (hv : value.Valid) (ha : Blank after) (hvalue : TreeFull value) (hrest : ItemsFull rest) :
    ItemsFull (.cons before value after rest) := by
  intro parts i k
  have hmore := itemsMore_cases rest
  have hfollow : Follow (after ++ (rest.more ++ ']' :: k)) := follow_more ha hmore (.inl rfl)
  have htext : (Items.cons before value after rest).text ++ ']' :: k =
      before ++ (value.text ++ (after ++ (rest.more ++ ']' :: k))) := by
    simp only [Items.text, List.append_assoc]
  have hhere := hvalue (parts ++ [Part.index i]) _ fun _ => hfollow
  rw [htext, dropWhile_value hv hb, itemMoves, separator, List.nil_append,
    run_append_of_some hhere, run, dropWhile_more ha hmore (by decide), emits_append, emits_cons]
  cases rest with
  | nil => rfl
  | cons before' value' after' rest' =>
    have hnext := hrest parts (i + 1) k
    have hcomma : (Items.cons before' value' after' rest').more ++ ']' :: k =
        [','] ++ ((Items.cons before' value' after' rest').text ++ ']' :: k) := rfl
    rw [hcomma, itemMoves_false, run_eat_append, run, hnext, emits_cons, emits_cons]
    rfl

theorem full_member {key lead trail : Text} {rest : Members}
    (hb : Blank before) (ha : Blank after) (hl : Blank lead) (hv : value.Valid)
    (ht : Blank trail) (hvalue : TreeFull value) (hrest : MembersFull rest) :
    MembersFull (.cons before key after lead value trail rest) := by
  intro parts k
  have hmore := membersMore_cases rest
  have hfollow : Follow (trail ++ (rest.more ++ '}' :: k)) := follow_more ht hmore (.inr rfl)
  have htext : (Members.cons before key after lead value trail rest).text ++ '}' :: k =
      before ++ (quoted key ++ (after ++ ([':'] ++ (lead ++ (value.text ++ (trail ++
        (rest.more ++ '}' :: k))))))) := by
    simp only [Members.text, List.append_assoc, List.cons_append, List.nil_append]
  have hkey : ∀ t, (before ++ (quoted key ++ t)).dropWhile isSpace = quoted key ++ t := by
    intro t
    rw [dropWhile_blank hb, quoted, List.cons_append, dropWhile_solid (by decide)]
  have hcolon : ∀ t, (after ++ ([':'] ++ t)).dropWhile isSpace = [':'] ++ t := by
    intro t
    rw [dropWhile_blank ha, List.singleton_append, dropWhile_solid (by decide)]
  have hhere := hvalue (parts ++ [Part.key (decoded key)]) _ fun _ => hfollow
  rw [htext, hkey, memberMoves, separator, List.nil_append, run_eat_append, run, hcolon,
    run_eat_append, run, dropWhile_value hv hl, run_append_of_some hhere, run, dropWhile_more ht hmore (by decide), emits_cons, emits_cons, emits_cons, emits_cons,
    emits_append, emits_cons]
  cases rest with
  | nil => rfl
  | cons before' key' after' lead' value' trail' rest' =>
    have hnext := hrest parts k
    have hcomma : (Members.cons before' key' after' lead' value' trail' rest').more ++ '}' :: k =
        [','] ++ ((Members.cons before' key' after' lead' value' trail' rest').text ++ '}' :: k) :=
      rfl
    rw [hcomma, memberMoves_false, run_eat_append, run, hnext, emits_cons, emits_cons]
    rfl

variable {gap : Text}

theorem full_array {items : Items} (hg : Blank gap) (h : ItemsFull items) :
    TreeFull (.array gap items) := by
  intro parts k _
  have htext : (Tree.array gap items).text ++ k = ['['] ++ (gap ++ (items.text ++ ']' :: k)) := by
    simp [Tree.text]
  have hclose : ']' :: k = [']'] ++ k := rfl
  rw [htext, moves, run_eat_append, run, dropWhile_blank hg, run_append_of_some (h parts 0 k),
    hclose, run_eat_append, emits_cons, emits_cons, emits_append]
  simp [run, emits, Move.reports]

theorem full_object {members : Members} (hg : Blank gap) (h : MembersFull members) :
    TreeFull (.object gap members) := by
  intro parts k _
  have htext : (Tree.object gap members).text ++ k =
      ['{'] ++ (gap ++ (members.text ++ '}' :: k)) := by
    simp [Tree.text]
  have hclose : '}' :: k = ['}'] ++ k := rfl
  rw [htext, moves, run_eat_append, run, dropWhile_blank hg, run_append_of_some (h parts k),
    hclose, run_eat_append, emits_cons, emits_cons, emits_append]
  simp [run, emits, Move.reports]

mutual

theorem full_tree : ∀ τ : Tree, τ.Valid → (∀ w ∈ words τ, longInteger w = false) → TreeFull τ
  | .word w, _, hn => full_word (hn w List.mem_cons_self)
  | .string body, _, _ => by
      intro parts k _
      rw [Tree.text, moves, run_eat_append]
      simp [run, emits, Move.reports]
  | .array _ items, hv, hn => full_array hv.1 (full_items items hv.2 hn)
  | .object _ members, hv, hn => full_object hv.1 (full_members members hv.2 hn)

theorem full_items : ∀ items : Items, items.Valid →
    (∀ w ∈ itemWords items, longInteger w = false) → ItemsFull items
  | .nil, _, _ => fun _ _ _ => rfl
  | .cons _ value _ rest, hv, hn =>
    full_item hv.1 hv.2.1 hv.2.2.1
      (full_tree value hv.2.1 fun w hw => hn w (List.mem_append_left _ hw))
      (full_items rest hv.2.2.2 fun w hw => hn w (List.mem_append_right _ hw))

theorem full_members : ∀ members : Members, members.Valid →
    (∀ w ∈ memberWords members, longInteger w = false) → MembersFull members
  | .nil, _, _ => fun _ _ => rfl
  | .cons _ _ _ _ value _ rest, hv, hn =>
    full_member hv.1 hv.2.2.1 hv.2.2.2.1 hv.2.2.2.2.1 hv.2.2.2.2.2.1
      (full_tree value hv.2.2.2.2.1 fun w hw => hn w (List.mem_append_left _ hw))
      (full_members rest hv.2.2.2.2.2.2 fun w hw => hn w (List.mem_append_right _ hw))

end

mutual

theorem stuck_tree : ∀ (τ : Tree) (parts : List Part) {w : Text}, w ∈ words τ →
    longInteger w = true → .stuck ∈ moves parts τ
  | .word w, parts, w', hw, hlong => by
      rw [words, List.mem_singleton] at hw
      subst hw
      have hlit : w' ∉ literals := by
        intro hmem
        have hall : ∀ w ∈ literals, longInteger w = false :=
          List.forall_iff_forall_mem.mp (by decide)
        rw [hall w' hmem] at hlong
        cases hlong
      rw [moves, wordMoves, if_neg (by simpa using hlit), if_pos hlong]
      exact List.mem_cons_self
  | .array _ items, parts, _, hw, hlong => by
      have hin := stuck_items items parts true 0 hw hlong
      simp [moves, hin]
  | .object _ members, parts, _, hw, hlong => by
      have hin := stuck_members members parts true hw hlong
      simp [moves, hin]

theorem stuck_items : ∀ (items : Items) (parts : List Part) (first : Bool) (i : Nat) {w : Text},
    w ∈ itemWords items → longInteger w = true → .stuck ∈ itemMoves parts first i items
  | .cons _ value _ rest, parts, first, i, _, hw, hlong => by
      rw [itemMoves]
      obtain hw | hw := List.mem_append.mp hw
      · have hin := stuck_tree value (parts ++ [.index i]) hw hlong
        simp [hin]
      · have hin := stuck_items rest parts false (i + 1) hw hlong
        simp [hin]

theorem stuck_members : ∀ (members : Members) (parts : List Part) (first : Bool) {w : Text},
    w ∈ memberWords members → longInteger w = true → .stuck ∈ memberMoves parts first members
  | .cons _ key _ _ value _ rest, parts, first, _, hw, hlong => by
      rw [memberMoves]
      obtain hw | hw := List.mem_append.mp hw
      · have hin := stuck_tree value (parts ++ [.key (decoded key)]) hw hlong
        simp [hin]
      · have hin := stuck_members rest parts false hw hlong
        simp [hin]

end

theorem tree_ends {τ : Tree} (hv : τ.Valid) {parts : List Part} {s' : Text}
    {reports : List Report} (hk : Follow k) (hs : s <+: τ.text ++ k)
    (h : run isSpace (moves parts τ) s = (reports, some s')) : s' <+: k := by
  by_cases hn : ∀ w ∈ words τ, longInteger w = false
  · have hfull := full_tree τ hv hn parts k fun _ => hk
    obtain ⟨rest, hrest, hp⟩ := (run_mono (moves parts τ) hs).2 s' (by rw [h])
    rw [hfull] at hrest
    cases hrest
    exact hp
  · push Not at hn
    obtain ⟨w, hw, hlong⟩ := hn
    have hnone : (run isSpace (moves parts τ) s).2 = none :=
      run_stuck (stuck_tree τ parts hw (by simpa using hlong)) s
    rw [h] at hnone
    cases hnone

theorem parse_value_skip (fuel : Nat) (parts : List Part) (s : Text) :
    parse_value fuel parts s = parse_value fuel parts (s.dropWhile isSpace) := by
  cases fuel with
  | zero => rw [parse_value, parse_value]
  | succ fuel => rw [parse_value, parse_value, List.dropWhile_idempotent]

theorem parse_value_scalar
    (hs : ∀ c, s.head? = some c → isSpace c = false ∧ c ∉ ['{', '[']) (fuel : Nat)
    (parts : List Part) : parse_value (fuel + 1) parts s = parse_scalar parts s := by
  cases s with
  | nil => rfl
  | cons c s =>
    obtain ⟨hspace, hbracket⟩ := hs c rfl
    simp only [List.mem_cons, List.not_mem_nil, or_false, not_or] at hbracket
    rw [parse_value, dropWhile_solid hspace]
    simp only [if_neg hbracket.1, if_neg hbracket.2]

def TreeReads (τ : Tree) : Prop := ∀ {fuel parts k s}, (Scalar τ → Follow k) →
  s <+: τ.text ++ k → 2 * s.length + 1 ≤ fuel →
  parse_value fuel parts s = finish (valueOf τ) (run isSpace (moves parts τ) s)

def ItemsReads (items : Items) : Prop := ∀ {fuel parts i acc k cursor}, items ≠ .nil →
  cursor <+: (items.text ++ ']' :: k).dropWhile isSpace → 2 * cursor.length + 2 ≤ fuel →
  parse_items fuel parts i acc cursor =
    finish (.list (acc ++ itemValues items)) (run isSpace (itemMoves parts true i items ++
      [.eat [']'], .emit (report parts (.list (acc ++ itemValues items)))]) cursor)

def MembersReads (members : Members) : Prop := ∀ {fuel parts acc k cursor}, members ≠ .nil →
  cursor <+: (members.text ++ '}' :: k).dropWhile isSpace → 2 * cursor.length + 2 ≤ fuel →
  parse_members fuel parts acc cursor =
    finish (.dict (entries acc members)) (run isSpace (memberMoves parts true members ++
      [.eat ['}'], .emit (report parts (.dict (entries acc members)))]) cursor)

theorem head_of_cut {t : Text} (h : s <+: t) {c : Char} (hc : s.head? = some c) :
    t.head? = some c := by
  obtain ⟨s', rfl⟩ := List.head?_eq_some_iff.mp hc
  obtain ⟨u, rfl⟩ := h
  rfl

theorem reads_word (h : Word w) : TreeReads (.word w) := by
  intro fuel parts k s hk hs hf
  obtain ⟨fuel, rfl⟩ : ∃ n, fuel = n + 1 := ⟨fuel - 1, by omega⟩
  rw [parse_value_scalar, valueOf, moves, parse_word h (hk trivial) hs]
  intro c hc
  obtain ⟨hne, hchars⟩ := JsonRepair.word_chars h
  obtain ⟨d, t, rfl⟩ := List.exists_cons_of_ne_nil hne
  cases head_of_cut hs hc
  obtain ⟨hspace, -, -, hbracket⟩ := JsonRepair.wordChar_plain (hchars c List.mem_cons_self)
  exact ⟨hspace, fun hb => hbracket (List.mem_append_left ['}', ']', ':', ','] hb)⟩

theorem reads_string {body : Text} (h : Body body) : TreeReads (.string body) := by
  intro fuel parts k s hk hs hf
  obtain ⟨fuel, rfl⟩ : ∃ n, fuel = n + 1 := ⟨fuel - 1, by omega⟩
  rw [parse_value_scalar, valueOf, parse_string h (hk trivial) hs]
  intro c hc
  cases head_of_cut hs hc
  exact ⟨by decide, by decide⟩

theorem after_value {more : Text} {close : Char} (ha : Blank after)
    (hm : more = [] ∨ ∃ t, more = ',' :: t) (hc : isSpace close = false)
    (hs : s <+: after ++ (more ++ close :: k)) :
    s.dropWhile isSpace = [] ∨ (∃ t, more = [] ∧ s.dropWhile isSpace = close :: t) ∨
      ∃ t u, more = ',' :: u ∧ s.dropWhile isSpace = ',' :: t ∧ t <+: u ++ close :: k := by
  have hd := dropWhile_mono isSpace hs
  rw [dropWhile_more ha hm hc] at hd
  obtain rfl | ⟨u, rfl⟩ := hm
  · obtain hnil | ⟨t, ht, -⟩ := List.prefix_cons_iff.mp hd
    · exact .inl hnil
    · exact .inr (.inl ⟨t, rfl, ht⟩)
  · obtain hnil | ⟨t, ht, hp⟩ := List.prefix_cons_iff.mp hd
    · exact .inl hnil
    · exact .inr (.inr ⟨t, u, rfl, ht, hp⟩)

theorem reads_item {rest : Items} (hb : Blank before)
    (hv : value.Valid) (ha : Blank after) (hvalue : TreeReads value) (hrest : ItemsReads rest) :
    ItemsReads (.cons before value after rest) := by
  intro fuel parts i acc k cursor _ hcursor hf
  obtain ⟨fuel, rfl⟩ : ∃ n, fuel = n + 1 := ⟨fuel - 1, by omega⟩
  have hmore := itemsMore_cases rest
  have hfollow : Follow (after ++ (rest.more ++ ']' :: k)) := follow_more ha hmore (.inl rfl)
  have htext : (Items.cons before value after rest).text ++ ']' :: k =
      before ++ (value.text ++ (after ++ (rest.more ++ ']' :: k))) := by
    simp only [Items.text, List.append_assoc]
  rw [htext, dropWhile_value hv hb] at hcursor
  have hhere : parse_value fuel (parts ++ [.index i]) cursor = _ :=
    hvalue (fun _ => hfollow) hcursor (by omega)
  rw [parse_items, hhere, itemMoves, separator, List.nil_append, List.append_assoc]
  cases hr : run isSpace (moves (parts ++ [.index i]) value) cursor with
  | mk reports o =>
    cases o with
    | none =>
      rw [run_append_of_none hr]
      rfl
    | some s' =>
      have hends := tree_ends hv hfollow hcursor hr
      have hsuffix := (run_suffix (by rw [hr])).length_le
      have hle' := List.length_dropWhile_le isSpace s'
      rw [run_append_of_some hr, List.cons_append, run]
      simp only [finish, Option.map_some]
      obtain hnil | ⟨t, hm, ht⟩ | ⟨t, u, hm, ht, hp⟩ := after_value ha hmore (by decide) hends
      · simp only [hnil]
        cases rest with
        | nil => simp [itemMoves, run]
        | cons before' value' after' rest' => simp [itemMoves_false, run]
      · cases rest with
        | nil => simp [ht, itemMoves, itemValues, run]
        | cons before' value' after' rest' => cases hm
      · cases rest with
        | nil => cases hm
        | cons before' value' after' rest' =>
          have hu : u = (Items.cons before' value' after' rest').text := by
            cases hm
            rfl
          rw [hu] at hp
          have hlen : t.length + 1 ≤ s'.length := by
            rw [ht, List.length_cons] at hle'
            exact hle'
          have hshort := List.length_dropWhile_le isSpace t
          have hnext : parse_items fuel parts (i + 1) (acc ++ [valueOf value])
              (t.dropWhile isSpace) = _ :=
            hrest (fun h => nomatch h) (dropWhile_mono isSpace hp) (by omega)
          simp only [ht, hnext, itemMoves_false, itemValues, List.append_assoc]
          simp [run, Parsed.after, finish]

theorem reads_member {key lead trail : Text} {rest : Members}
    (hb : Blank before) (hk : Body key) (ha : Blank after) (hl : Blank lead) (hv : value.Valid)
    (ht : Blank trail) (hvalue : TreeReads value) (hrest : MembersReads rest) :
    MembersReads (.cons before key after lead value trail rest) := by
  intro fuel parts acc k cursor _ hcursor hf
  obtain ⟨fuel, rfl⟩ : ∃ n, fuel = n + 1 := ⟨fuel - 1, by omega⟩
  have hmore := membersMore_cases rest
  have hfollow : Follow (trail ++ (rest.more ++ '}' :: k)) := follow_more ht hmore (.inr rfl)
  have htext : (Members.cons before key after lead value trail rest).text ++ '}' :: k =
      before ++ (quoted key ++ (after ++ (':' :: (lead ++ (value.text ++ (trail ++
        (rest.more ++ '}' :: k))))))) := by
    simp only [Members.text, List.append_assoc, List.cons_append]
  have hkey : ∀ t, (before ++ (quoted key ++ t)).dropWhile isSpace = quoted key ++ t := by
    intro t
    rw [dropWhile_blank hb, quoted, List.cons_append, dropWhile_solid (by decide)]
  rw [htext, hkey] at hcursor
  rw [parse_members, memberMoves, separator, List.nil_append]
  obtain (rfl | ⟨s₁, rfl, hscan, hno⟩) | ⟨s₁, rfl, hs₁⟩ := quoted_cases hk hcursor
  · rfl
  · rw [List.cons_append, run_eat_of_not hno, decodeKey, if_pos rfl, hscan]
    rfl
  have hdecode : decodeKey (quoted key ++ s₁) = some (decoded key, s₁) := by
    rw [quoted, List.cons_append, decodeKey, if_pos rfl, List.append_assoc,
      List.singleton_append, scanstring_body hk]
  rw [List.length_append] at hf
  have hcolon := dropWhile_mono isSpace hs₁
  rw [dropWhile_blank ha, dropWhile_solid (by decide)] at hcolon
  have hle₁ := List.length_dropWhile_le isSpace s₁
  rw [hdecode, List.cons_append, run_eat_append]
  obtain hnil | ⟨s₂, hs₂, hp₂⟩ := List.prefix_cons_iff.mp hcolon
  · simp [hnil, run, finish]
  have hchild := dropWhile_mono isSpace hp₂
  rw [dropWhile_value hv hl] at hchild
  have hle₂ := List.length_dropWhile_le isSpace s₂
  rw [hs₂, List.length_cons] at hle₁
  simp only [hs₂, parse_value_skip fuel _ s₂]
  have hmoves : ∀ m : List (Move Char Report), run isSpace (.skip :: .eat [':'] :: .skip :: m) s₁ =
      run isSpace m (s₂.dropWhile isSpace) := by
    intro m
    simp [run, hs₂]
  rw [List.cons_append, List.cons_append, List.cons_append, hmoves, List.append_assoc]
  generalize s₂.dropWhile isSpace = cursor₂ at hchild hle₂
  have hhere : parse_value fuel (parts ++ [.key (decoded key)]) cursor₂ = _ :=
    hvalue (fun _ => hfollow) hchild (by omega)
  rw [hhere]
  cases hr : run isSpace (moves (parts ++ [.key (decoded key)]) value) cursor₂ with
  | mk reports o =>
    cases o with
    | none =>
      rw [run_append_of_none hr]
      rfl
    | some s' =>
      have hends := tree_ends hv hfollow hchild hr
      have hsuffix := (run_suffix (by rw [hr])).length_le
      have hle' := List.length_dropWhile_le isSpace s'
      rw [run_append_of_some hr, List.cons_append, run]
      simp only [finish, Option.map_some]
      obtain hnil | ⟨t, hm, ht⟩ | ⟨t, u, hm, ht, hp⟩ := after_value ht hmore (by decide) hends
      · simp only [hnil]
        cases rest with
        | nil => simp [memberMoves, run]
        | cons before' key' after' lead' value' trail' rest' => simp [memberMoves_false, run]
      · cases rest with
        | nil => simp [ht, memberMoves, entries, run]
        | cons before' key' after' lead' value' trail' rest' => cases hm
      · cases rest with
        | nil => cases hm
        | cons before' key' after' lead' value' trail' rest' =>
          have hu : u = (Members.cons before' key' after' lead' value' trail' rest').text := by
            cases hm
            rfl
          rw [hu] at hp
          have hlen : t.length + 1 ≤ s'.length := by
            rw [ht, List.length_cons] at hle'
            exact hle'
          have hshort := List.length_dropWhile_le isSpace t
          have hnext : parse_members fuel parts (Dict.set acc (decoded key) (valueOf value))
              (t.dropWhile isSpace) = _ :=
            hrest (fun h => by cases h) (dropWhile_mono isSpace hp) (by omega)
          simp only [ht, hnext, memberMoves_false, entries]
          simp [run, Parsed.after, finish]

theorem parse_items_nil (fuel : Nat) (parts : List Part) (i : Nat) (acc : List Value) :
    parse_items fuel parts i acc [] = ([], none) := by
  cases fuel with
  | zero => rfl
  | succ fuel => cases fuel <;> rfl

theorem parse_members_nil (fuel : Nat) (parts : List Part) (acc : Dict Points Value) :
    parse_members fuel parts acc [] = ([], none) := by
  cases fuel <;> rfl

theorem parse_value_list (fuel : Nat) (parts : List Part) (s : Text) :
    parse_value (fuel + 1) parts ('[' :: s) = match s.dropWhile isSpace with
      | ']' :: rest => (report parts (.list []), some (.list [], rest))
      | cursor => parse_items fuel parts 0 [] cursor := by
  rw [parse_value, dropWhile_solid (by decide)]
  all_goals rfl

theorem parse_value_mapping (fuel : Nat) (parts : List Part) (s : Text) :
    parse_value (fuel + 1) parts ('{' :: s) = match s.dropWhile isSpace with
      | '}' :: rest => (report parts (.dict []), some (.dict [], rest))
      | cursor => parse_members fuel parts [] cursor := by
  rw [parse_value, dropWhile_solid (by decide)]
  all_goals rfl

theorem reads_array {items : Items} (hg : Blank gap) (hv : items.Valid)
    (h : ItemsReads items) : TreeReads (.array gap items) := by
  intro fuel parts k s _ hs hf
  obtain ⟨fuel, rfl⟩ : ∃ n, fuel = n + 1 := ⟨fuel - 1, by omega⟩
  have htext : (Tree.array gap items).text ++ k = '[' :: (gap ++ (items.text ++ ']' :: k)) := by
    simp [Tree.text]
  rw [htext] at hs
  obtain rfl | ⟨s, rfl, hinner⟩ := List.prefix_cons_iff.mp hs
  · rfl
  have hcursor := dropWhile_mono isSpace hinner
  have hle := List.length_dropWhile_le isSpace s
  rw [dropWhile_blank hg] at hcursor
  have hmoves : run isSpace (moves parts (.array gap items)) ('[' :: s) =
      run isSpace (itemMoves parts true 0 items ++
        [.eat [']'], .emit (report parts (.list (itemValues items)))]) (s.dropWhile isSpace) := by
    simp [moves, run]
  rw [List.length_cons] at hf
  rw [parse_value_list, valueOf, hmoves]
  generalize s.dropWhile isSpace = cursor at hcursor hle
  cases items with
  | nil =>
    rw [Items.text, List.nil_append, dropWhile_solid (by decide)] at hcursor
    obtain rfl | ⟨t, rfl, -⟩ := List.prefix_cons_iff.mp hcursor
    · exact parse_items_nil fuel parts 0 []
    · simp [itemMoves, itemValues, run, finish]
  | cons before value after rest =>
    have hread : parse_items fuel parts 0 [] cursor = _ :=
      h (fun h => nomatch h) hcursor (by omega)
    rw [List.nil_append] at hread
    rw [← hread]
    have htext : (Items.cons before value after rest).text ++ ']' :: k =
        before ++ (value.text ++ (after ++ (rest.more ++ ']' :: k))) := by
      simp only [Items.text, List.append_assoc]
    rw [htext, dropWhile_value hv.2.1 hv.1] at hcursor
    obtain ⟨c, t, hc, -, hclose⟩ := text_head hv.2.1
    rw [hc, List.cons_append] at hcursor
    obtain rfl | ⟨u, rfl, -⟩ := List.prefix_cons_iff.mp hcursor
    · rfl
    · split
      · rename_i heq
        cases heq
        exact absurd rfl hclose
      · rfl

theorem reads_object {members : Members} (hg : Blank gap) (hv : members.Valid)
    (h : MembersReads members) : TreeReads (.object gap members) := by
  intro fuel parts k s _ hs hf
  obtain ⟨fuel, rfl⟩ : ∃ n, fuel = n + 1 := ⟨fuel - 1, by omega⟩
  have htext : (Tree.object gap members).text ++ k =
      '{' :: (gap ++ (members.text ++ '}' :: k)) := by
    simp [Tree.text]
  rw [htext] at hs
  obtain rfl | ⟨s, rfl, hinner⟩ := List.prefix_cons_iff.mp hs
  · rfl
  have hcursor := dropWhile_mono isSpace hinner
  have hle := List.length_dropWhile_le isSpace s
  rw [dropWhile_blank hg] at hcursor
  have hmoves : run isSpace (moves parts (.object gap members)) ('{' :: s) =
      run isSpace (memberMoves parts true members ++
        [.eat ['}'], .emit (report parts (.dict (entries [] members)))])
          (s.dropWhile isSpace) := by
    simp [moves, run]
  rw [List.length_cons] at hf
  rw [parse_value_mapping, valueOf, hmoves]
  generalize s.dropWhile isSpace = cursor at hcursor hle
  cases members with
  | nil =>
    rw [Members.text, List.nil_append, dropWhile_solid (by decide)] at hcursor
    obtain rfl | ⟨t, rfl, -⟩ := List.prefix_cons_iff.mp hcursor
    · exact parse_members_nil fuel parts []
    · simp [memberMoves, entries, run, finish]
  | cons before key after lead value trail rest =>
    have hread : parse_members fuel parts [] cursor = _ :=
      h (fun h => nomatch h) hcursor (by omega)
    rw [← hread]
    have hquote : ∃ t, ((Members.cons before key after lead value trail rest).text ++
        '}' :: k).dropWhile isSpace = '"' :: t := by
      rw [Members.text, List.append_assoc, dropWhile_blank hv.1, quoted, List.cons_append,
        List.cons_append, dropWhile_solid (by decide)]
      exact ⟨_, rfl⟩
    obtain ⟨t, ht⟩ := hquote
    rw [ht] at hcursor
    obtain rfl | ⟨u, rfl, -⟩ := List.prefix_cons_iff.mp hcursor
    · rfl
    · rfl

mutual

theorem reads_tree : ∀ τ : Tree, τ.Valid → TreeReads τ
  | .word _, hv => reads_word hv
  | .string _, hv => reads_string hv
  | .array _ items, hv => reads_array hv.1 hv.2 (reads_items items hv.2)
  | .object _ members, hv => reads_object hv.1 hv.2 (reads_members members hv.2)

theorem reads_items : ∀ items : Items, items.Valid → ItemsReads items
  | .nil, _ => fun hne => absurd rfl hne
  | .cons _ value _ rest, hv =>
    reads_item hv.1 hv.2.1 hv.2.2.1 (reads_tree value hv.2.1) (reads_items rest hv.2.2.2)

theorem reads_members : ∀ members : Members, members.Valid → MembersReads members
  | .nil, _ => fun hne => absurd rfl hne
  | .cons _ _ _ _ value _ rest, hv =>
    reads_member hv.1 hv.2.1 hv.2.2.1 hv.2.2.2.1 hv.2.2.2.2.1 hv.2.2.2.2.2.1
      (reads_tree value hv.2.2.2.2.1) (reads_members rest hv.2.2.2.2.2.2)

end

end Agently.Utils.ObservedValues
