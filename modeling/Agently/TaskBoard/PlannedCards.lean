import Mathlib
import Agently.TaskBoard.TaskBoardPlanning
import Agently.TaskBoard.ValidBoards

/-! # Planned cards are named and linked

Card ids are different, short and of the board's pattern. A dependency is bound by an item's
id, by a card's id or by a slug, in this order, and each of the three names one card or none. -/

namespace Agently.TaskBoard.Planning

open Agently.Lib Agently.Utils Agently.Utils.IntText
open Agently.TaskDAGValidation (Fault typeName get orElse strOf)

def Starts (t : Text) : Prop := ∃ c rest, t = c :: rest ∧ isSeparator c = false

def Ends (t : Text) : Prop := ∃ before c, t = before ++ [c] ∧ isSeparator c = false

variable {t : Text}

theorem Starts.take (h : Starts t) {n : Nat} (hn : 0 < n) (rest : Text) :
    Starts (t.take n ++ rest) := by
  obtain ⟨c, t, rfl, hc⟩ := h
  obtain ⟨n, rfl⟩ : ∃ m, n = m + 1 := ⟨n - 1, by omega⟩
  exact ⟨c, t.take n ++ rest, rfl, hc⟩

theorem stripSeparators_of_ends (hs : Starts t) (he : Ends t) :
    stripSeparators t = t := by
  obtain ⟨c, rest, hc, hcs⟩ := hs
  obtain ⟨before, e, hte, hes⟩ := he
  have hdrop : t.dropWhile isSeparator = t := by
    rw [hc, List.dropWhile_cons_of_neg (by simp [hcs])]
  unfold stripSeparators
  rw [hdrop, hte, List.rdropWhile_concat_neg _ _ _ (by simp [hes])]

variable {c : Char}

theorem mem_of_mem_stripSeparators (h : c ∈ stripSeparators t) : c ∈ t :=
  (List.dropWhile_sublist _).subset ((List.rdropWhile_prefix _ _).subset h)

theorem length_stripSeparators_le (t : Text) : (stripSeparators t).length ≤ t.length :=
  Nat.le_trans (List.rdropWhile_prefix _ _).length_le (List.dropWhile_sublist _).length_le

theorem starts_dropWhile (h : t.dropWhile isSeparator ≠ []) :
    Starts (t.dropWhile isSeparator) := by
  induction t with
  | nil => exact absurd rfl h
  | cons c t ih =>
    cases hc : isSeparator c with
    | true =>
      rw [List.dropWhile_cons_of_pos hc] at h ⊢
      exact ih h
    | false =>
      rw [List.dropWhile_cons_of_neg (by simp [hc])]
      exact ⟨c, t, rfl, hc⟩

theorem starts_stripSeparators (h : stripSeparators t ≠ []) :
    Starts (stripSeparators t) := by
  have hpre : stripSeparators t <+: t.dropWhile isSeparator := List.rdropWhile_prefix _ _
  have hne : t.dropWhile isSeparator ≠ [] := by
    intro he
    rw [he] at hpre
    exact h (List.prefix_nil.mp hpre)
  obtain ⟨c, rest, hc, hcs⟩ := starts_dropWhile hne
  generalize stripSeparators t = s at h hpre
  obtain ⟨more, hmore⟩ := hpre
  cases s with
  | nil => exact absurd rfl h
  | cons d s =>
    rw [hc] at hmore
    injection hmore with hd
    exact ⟨d, s, rfl, hd ▸ hcs⟩

theorem ends_stripSeparators (h : stripSeparators t ≠ []) :
    Ends (stripSeparators t) := by
  have hlast := List.rdropWhile_last_not isSeparator (t.dropWhile isSeparator) h
  rw [Bool.not_eq_true] at hlast
  exact ⟨(stripSeparators t).dropLast, (stripSeparators t).getLast h,
    (List.dropLast_append_getLast h).symm, hlast⟩

theorem isIdChar_of_isDigit (h : c.isDigit = true) : isIdChar c = true := by
  simp [isIdChar, Char.isAlphanum, h]

theorem not_separator_of_isDigit (h : c.isDigit = true) : isSeparator c = false := by
  unfold isSeparator
  by_contra hno
  rw [Bool.not_eq_false] at hno
  simp only [Bool.or_eq_true, beq_iff_eq] at hno
  rcases hno with (rfl | rfl) | rfl <;> exact absurd h (by decide)

theorem isIdChar_toLower (h : c.isAlphanum = true) : isIdChar c.toLower = true := by
  unfold Char.toLower
  split
  · next hu =>
    have hupper : 65 ≤ c.toNat ∧ c.toNat ≤ 90 := by
      simp only [ge_iff_le, UInt32.le_iff_toNat_le] at hu
      exact hu
    have hval : (c.val + ('a'.val - 'A'.val)).toNat = c.toNat + 32 := by
      have hshift : ('a'.val - 'A'.val).toNat = 32 := by decide
      have hc : c.val.toNat = c.toNat := rfl
      rw [UInt32.toNat_add, hshift, hc]
      omega
    simp only [isIdChar, Char.isAlphanum, Char.isAlpha, Char.isLower, UInt32.le_iff_toNat_le,
      hval, ge_iff_le]
    simp
    omega
  · simp [isIdChar, h]

theorem isIdChar_of_isSeparator (h : isSeparator c = true) : isIdChar c = true := by
  unfold isSeparator at h
  unfold isIdChar
  simp only [Bool.or_eq_true, beq_iff_eq] at h ⊢
  rcases h with (rfl | rfl) | rfl
  · exact Or.inl (Or.inr rfl)
  · exact Or.inl (Or.inl (Or.inr rfl))
  · exact Or.inr rfl

def IdText (t : Text) : Prop := ∀ c ∈ t, isIdChar c = true

variable {s : Text}

theorem IdText.append (hs : IdText s) (ht : IdText t) : IdText (s ++ t) := by
  intro c hc
  rcases List.mem_append.mp hc with hc | hc
  · exact hs c hc
  · exact ht c hc

theorem idText_natText (n : Nat) : IdText (natText n) :=
  fun _ hc => isIdChar_of_isDigit (isDigit_of_mem_natText hc)

theorem IdText.stripSeparators (h : IdText t) : IdText (stripSeparators t) :=
  fun c hc => h c (mem_of_mem_stripSeparators hc)

theorem idText_slug (t : Text) : IdText (slugify_taskboard_card_id t) := by
  have hfold : ∀ (cs : Text) (s : Text × Bool), IdText s.1 → IdText (cs.foldl slugStep s).1 := by
    intro cs
    induction cs with
    | nil => exact fun s hs => hs
    | cons c cs ih =>
      intro s hs
      apply ih
      unfold slugStep
      split
      · next hc =>
        refine hs.append ?_
        intro d hd
        rw [List.mem_singleton.mp hd]
        exact isIdChar_toLower hc
      · split
        · refine hs.append ?_
          intro d hd
          rw [List.mem_singleton.mp hd]
          split
          · next hsep => exact isIdChar_of_isSeparator hsep
          · decide
        · exact hs
  exact (hfold (strip t) ([], false) (fun c hc => absurd hc List.not_mem_nil)).stripSeparators

/-- A text that can be a card's id: it begins and ends with a letter or a digit. -/
structure CardId (t : Text) : Prop where
  chars : IdText t
  starts : Starts t
  ends : Ends t
  short : t.length ≤ 72

theorem CardId.ne_nil (h : CardId t) : t ≠ [] := by
  obtain ⟨c, rest, rfl, -⟩ := h.starts
  exact List.cons_ne_nil c rest

theorem length_natText {n : Nat} (h : n < 10 ^ 20) : (natText n).length ≤ 20 :=
  (Nat.length_toDigits_le_iff (by decide) (by decide)).mpr h

theorem ends_natText (t : Text) (n : Nat) : Ends (t ++ natText n) := by
  have hne := natText_ne_nil n
  refine ⟨t ++ (natText n).dropLast, (natText n).getLast hne, ?_, ?_⟩
  · rw [List.append_assoc, List.dropLast_append_getLast hne]
  · exact not_separator_of_isDigit (isDigit_of_mem_natText (List.getLast_mem hne))

theorem idText_card : IdText "card_".toList := by
  have hlist : "card_".toList = ['c', 'a', 'r', 'd', '_'] := by decide
  unfold IdText
  rw [hlist]
  exact List.forall_iff_forall_mem.mp (by decide)

theorem cardId_number {index : Nat} (h : index < 10 ^ 19) : CardId (cardNumber index) where
  chars := idText_card.append (idText_natText _)
  starts := ⟨'c', _, rfl, by decide⟩
  ends := ends_natText _ _
  short := by
    have hl := length_natText (n := index + 1) (by omega)
    have h5 : "card_".toList.length = 5 := by decide
    unfold cardNumber
    rw [List.length_append, h5]
    omega

theorem IdText.orText (hs : IdText s) (ht : IdText t) : IdText (orText s t) := by
  unfold Planning.orText
  split
  · exact ht
  · exact hs

theorem orText_of_ne (h : s ≠ []) : orText s t = s := if_neg h

theorem cardId_orText {other : Text} (ht : IdText t) (hl : t.length ≤ 72) (ho : CardId other) :
    CardId (orText (stripSeparators t) other) := by
  by_cases hne : stripSeparators t = []
  · have he : orText (stripSeparators t) other = other := if_pos hne
    rw [he]
    exact ho
  · rw [orText_of_ne hne]
    exact ⟨ht.stripSeparators, starts_stripSeparators hne, ends_stripSeparators hne,
      Nat.le_trans (length_stripSeparators_le t) hl⟩

theorem length_suffixText {k : Nat} (h : k < 10 ^ 20) : (suffixText k).length ≤ 21 := by
  have hl := length_natText h
  unfold suffixText
  rw [List.length_cons]
  omega

theorem numbered_eq {base : Text} (hb : CardId base) (index : Nat) {k : Nat} (hk : k < 10 ^ 20) :
    numbered base index k =
      base.take (72 - (suffixText k).length) ++ suffixText k := by
  have hl := length_suffixText hk
  have hslice : sliceTo (72 - ((suffixText k).length : Int)) base =
      base.take (72 - (suffixText k).length) := by
    unfold sliceTo
    rw [if_pos (by omega)]
    congr 1
    omega
  have hstarts : Starts (base.take (72 - (suffixText k).length) ++ suffixText k) :=
    hb.starts.take (by omega) _
  have hends : Ends (base.take (72 - (suffixText k).length) ++ suffixText k) := by
    have hsplit : base.take (72 - (suffixText k).length) ++ suffixText k =
        (base.take (72 - (suffixText k).length) ++ ['_']) ++ natText k := by
      rw [List.append_assoc]
      rfl
    rw [hsplit]
    exact ends_natText _ k
  unfold numbered
  rw [hslice, stripSeparators_of_ends hstarts hends, orText_of_ne]
  obtain ⟨c, rest, he, -⟩ := hstarts
  rw [he]
  exact List.cons_ne_nil c rest

theorem cardId_numbered {base : Text} (hb : CardId base) (index : Nat) {k : Nat}
    (hk : k < 10 ^ 20) : CardId (numbered base index k) := by
  have hl := length_suffixText hk
  rw [numbered_eq hb index hk]
  refine ⟨?_, hb.starts.take (by omega) _, ?_, ?_⟩
  · refine IdText.append (fun c hc => hb.chars c (List.mem_of_mem_take hc)) ?_
    intro c hc
    rcases List.mem_cons.mp hc with rfl | hc
    · decide
    · exact idText_natText k c hc
  · have hsplit : base.take (72 - (suffixText k).length) ++ suffixText k =
        (base.take (72 - (suffixText k).length) ++ ['_']) ++ natText k := by
      rw [List.append_assoc]
      rfl
    rw [hsplit]
    exact ends_natText _ k
  · rw [List.length_append, List.length_take]
    omega

theorem eq_of_before_mark {m : Char} {x y : Text} (hs : m ∉ s) (ht : m ∉ t)
    (h : s ++ m :: x = t ++ m :: y) : s = t := by
  induction s generalizing t with
  | nil =>
    cases t with
    | nil => rfl
    | cons c t =>
      injection h with hc
      exact absurd (hc ▸ List.mem_cons_self) ht
  | cons c s ih =>
    cases t with
    | nil =>
      injection h with hc
      exact absurd (hc ▸ List.mem_cons_self) hs
    | cons d t =>
      injection h with hc h
      rw [hc, ih (fun hm => hs (List.mem_cons_of_mem c hm))
        (fun hm => ht (List.mem_cons_of_mem d hm)) h]

theorem numbered_injective {base : Text} (hb : CardId base) (index : Nat) {i j : Nat}
    (hi : i < 10 ^ 20) (hj : j < 10 ^ 20) (h : numbered base index i = numbered base index j) :
    i = j := by
  rw [numbered_eq hb index hi, numbered_eq hb index hj] at h
  have hrev := congrArg List.reverse h
  simp only [suffixText, List.reverse_append, List.reverse_cons, List.append_assoc,
    List.singleton_append] at hrev
  have hno : ∀ k, '_' ∉ (natText k).reverse := fun k hm =>
    not_mem_natText (by decide) k (List.mem_reverse.mp hm)
  have hsame := eq_of_before_mark (hno i) (hno j) hrev
  exact natText_injective (List.reverse_injective hsame)

section Host

variable (reprOf : Value → String)

theorem cardId_base (item : List (String × Value)) {index : Nat} (h : index < 10 ^ 19) :
    CardId (baseOf reprOf item index) := by
  have hnumber := cardId_number h
  unfold baseOf
  simp only
  refine cardId_orText ?_ ?_ hnumber
  · intro c hc
    refine (IdText.orText ?_ hnumber.chars) c (List.mem_of_mem_take hc)
    split
    · exact idText_slug _
    · refine hnumber.chars.append ?_
      intro d hd
      rcases List.mem_cons.mp hd with rfl | hd
      · decide
      · refine (idText_slug _).orText ?_ d hd
        intro e he
        exact idText_card e (List.mem_append_left ['_'] he)
  · rw [List.length_take]
    exact Nat.min_le_left 72 _

theorem canonical_id_spec (item : List (String × Value)) {index : Nat} (used : List Text)
    (hi : index < 10 ^ 19) (hu : used.length < 10 ^ 19) :
    CardId (canonical_taskboard_card_id reprOf item index used) ∧
      canonical_taskboard_card_id reprOf item index used ∉ used := by
  have hb := cardId_base reprOf item hi
  unfold canonical_taskboard_card_id
  refine ⟨?_, ?_⟩
  · apply FreshNames.firstFree_property hb
    intro i hlt
    exact cardId_numbered hb index (by omega)
  · refine FreshNames.firstFree_not_mem ?_ (Nat.lt_succ_self _)
    intro i j hi hj h
    have hk := numbered_injective hb index (by omega) (by omega) h
    omega

theorem prepareFrom_spec (items : List (List (String × Value))) :
    ∀ (index : Nat) (used : List Text), index + items.length < 10 ^ 19 →
      used.length + items.length < 10 ^ 19 →
      (∀ t ∈ canonicalIds (prepareFrom reprOf index used items), CardId t ∧ t ∉ used) ∧
        (canonicalIds (prepareFrom reprOf index used items)).Nodup := by
  induction items with
  | nil =>
    intro index used _ _
    exact ⟨fun t ht => absurd ht List.not_mem_nil, List.nodup_nil⟩
  | cons item items ih =>
    intro index used hi hu
    rw [List.length_cons] at hi hu
    have hsmall : index < 10 ^ 19 := by omega
    obtain ⟨hid, hnew⟩ := canonical_id_spec reprOf item used hsmall (by omega)
    obtain ⟨hrest, hnodup⟩ := ih (index + 1)
      (canonical_taskboard_card_id reprOf item index used :: used) (by omega)
      (by rw [List.length_cons]; omega)
    refine ⟨?_, ?_⟩
    · intro t ht
      rcases List.mem_cons.mp ht with rfl | ht
      · exact ⟨hid, hnew⟩
      · exact ⟨(hrest t ht).1, fun hm => (hrest t ht).2 (List.mem_cons_of_mem _ hm)⟩
    · refine List.nodup_cons.mpr ⟨?_, hnodup⟩
      intro hm
      exact (hrest _ hm).2 List.mem_cons_self

end Host

theorem length_filter_eq_one {α : Type} {p : α → Bool} {xs : List α} (h : (xs.filter p).length = 1)
    {x y : α} (hx : x ∈ xs) (hy : y ∈ xs) (hpx : p x = true) (hpy : p y = true) : x = y := by
  have hx' := List.mem_filter.mpr ⟨hx, hpx⟩
  have hy' := List.mem_filter.mpr ⟨hy, hpy⟩
  obtain ⟨z, hz⟩ := List.length_eq_one_iff.mp h
  rw [hz, List.mem_singleton] at hx' hy'
  rw [hx', hy']

variable {prepared : List Prepared} {dependency : Text}

theorem uniqueRawIds_some {c : Text} (h : (uniqueRawIds prepared).get? dependency = some c) :
    ∃ p ∈ prepared, p.raw_id = dependency ∧ p.canonical_id = c ∧ dependency ≠ [] ∧
      rawCount prepared dependency = 1 := by
  have hm := Dict.mem_of_get? h
  unfold uniqueRawIds at hm
  obtain ⟨p, hp, he⟩ := List.mem_map.mp hm
  obtain ⟨hpm, hcond⟩ := List.mem_filter.mp hp
  rw [decide_eq_true_eq] at hcond
  injection he with hraw hcan
  subst hraw
  exact ⟨p, hpm, rfl, hcan, hcond.1, hcond.2⟩

theorem uniqueRawIds_of {p : Prepared} (hp : p ∈ prepared) (hraw : p.raw_id = dependency)
    (hne : dependency ≠ []) (hone : rawCount prepared dependency = 1) :
    (uniqueRawIds prepared).get? dependency = some p.canonical_id := by
  cases hg : (uniqueRawIds prepared).get? dependency with
  | none =>
    have hno := Dict.get?_eq_none_iff.mp hg
    refine absurd ?_ hno
    unfold uniqueRawIds Dict.keys
    rw [List.map_map]
    refine List.mem_map.mpr ⟨p, List.mem_filter.mpr ⟨hp, ?_⟩, hraw⟩
    rw [decide_eq_true_eq, hraw]
    exact ⟨hne, hone⟩
  | some c =>
    obtain ⟨q, hq, hqraw, hqcan, -, -⟩ := uniqueRawIds_some hg
    have hsame : p = q := length_filter_eq_one hone hp hq
      (by rw [decide_eq_true_eq, hraw]; exact ⟨hne, rfl⟩)
      (by rw [decide_eq_true_eq, hqraw]; exact ⟨hne, rfl⟩)
    rw [hsame, hqcan]

theorem mem_slugTargets {slug : Text} :
    t ∈ slugTargets prepared slug ↔ ∃ p ∈ prepared, hasSlug slug p = true ∧ p.canonical_id = t := by
  unfold slugTargets
  rw [List.mem_dedup, List.mem_map]
  constructor
  · rintro ⟨p, hp, rfl⟩
    obtain ⟨hpm, hs⟩ := List.mem_filter.mp hp
    exact ⟨p, hpm, hs, rfl⟩
  · rintro ⟨p, hpm, hs, rfl⟩
    exact ⟨p, List.mem_filter.mpr ⟨hpm, hs⟩, rfl⟩

theorem uniqueSlug_some {slug : Text} (h : uniqueSlug prepared slug = some t) :
    (∃ p ∈ prepared, hasSlug slug p = true ∧ p.canonical_id = t) ∧
      ∀ q ∈ prepared, hasSlug slug q = true → q.canonical_id = t := by
  unfold uniqueSlug at h
  split at h
  · next target htargets =>
    injection h with h
    subst h
    refine ⟨mem_slugTargets.mp (by rw [htargets]; exact List.mem_singleton_self _), ?_⟩
    intro q hq hs
    have hm := mem_slugTargets.mpr ⟨q, hq, hs, rfl⟩
    rw [htargets] at hm
    exact List.mem_singleton.mp hm
  · cases h

/-- The card a dependency means: by an item's id, else by a card's id, else by a slug. -/
def Means (prepared : List Prepared) (p : Prepared) (dependency : Text) : Prop :=
  (p.raw_id = dependency ∧ rawCount prepared dependency = 1) ∨
    (rawCount prepared dependency = 0 ∧ p.canonical_id = dependency) ∨
      (rawCount prepared dependency = 0 ∧ dependency ∉ canonicalIds prepared ∧
        hasSlug (slugify_taskboard_card_id dependency) p = true ∧
        ∀ q ∈ prepared, hasSlug (slugify_taskboard_card_id dependency) q = true →
          q.canonical_id = p.canonical_id)

def Ambiguous (prepared : List Prepared) (dependency : Text) : Prop :=
  1 < rawCount prepared dependency ∨
    (rawCount prepared dependency = 0 ∧ dependency ∉ canonicalIds prepared ∧
      ∃ p ∈ prepared, ∃ q ∈ prepared, p.canonical_id ≠ q.canonical_id ∧
        hasSlug (slugify_taskboard_card_id dependency) p = true ∧
        hasSlug (slugify_taskboard_card_id dependency) q = true)

theorem exists_of_rawCount (h : 0 < rawCount prepared dependency) :
    ∃ p ∈ prepared, p.raw_id = dependency ∧ dependency ≠ [] := by
  unfold rawCount at h
  obtain ⟨p, hp⟩ := List.exists_mem_of_length_pos h
  obtain ⟨hpm, hc⟩ := List.mem_filter.mp hp
  rw [decide_eq_true_eq] at hc
  exact ⟨p, hpm, hc.2, hc.2 ▸ hc.1⟩

theorem resolve_of_id {p : Prepared} (hp : p ∈ prepared) (hne : p.raw_id ≠ [])
    (hone : rawCount prepared p.raw_id = 1) :
    resolve prepared p.raw_id = .ok p.canonical_id := by
  unfold resolve
  rw [if_neg (by omega), uniqueRawIds_of hp rfl hne hone]

theorem resolve_ok (h : resolve prepared dependency = .ok t) :
    (∃ p ∈ prepared, p.canonical_id = t ∧ Means prepared p dependency) ∨
      (t = dependency ∧ t ∉ canonicalIds prepared) := by
  unfold resolve at h
  split at h
  · cases h
  · next hcount =>
    split at h
    · next canonical hg =>
      injection h with h
      subst h
      obtain ⟨p, hp, hraw, hcan, -, hone⟩ := uniqueRawIds_some hg
      exact Or.inl ⟨p, hp, hcan, Or.inl ⟨hraw, hone⟩⟩
    · next hg =>
      have hzero : rawCount prepared dependency = 0 := by
        by_contra hne
        obtain ⟨p, hp, hraw, hd⟩ := exists_of_rawCount (Nat.pos_of_ne_zero hne)
        rw [uniqueRawIds_of hp hraw hd (by omega)] at hg
        cases hg
      split at h
      · next hmem =>
        injection h with h
        subst h
        obtain ⟨p, hp, hcan⟩ := List.mem_map.mp hmem
        exact Or.inl ⟨p, hp, hcan, Or.inr (Or.inl ⟨hzero, hcan⟩)⟩
      · next hmem =>
        injection h with h
        cases hs : uniqueSlug prepared (slugify_taskboard_card_id dependency) with
        | none =>
          rw [hs, Option.getD_none] at h
          exact Or.inr ⟨h.symm, h ▸ hmem⟩
        | some target =>
          rw [hs, Option.getD_some] at h
          subst h
          obtain ⟨⟨p, hp, hps, hcan⟩, hall⟩ := uniqueSlug_some hs
          refine Or.inl ⟨p, hp, hcan, Or.inr (Or.inr ⟨hzero, hmem, hps, ?_⟩)⟩
          intro q hq hqs
          rw [hall q hq hqs, hcan]

theorem resolve_ambiguous (h : Ambiguous prepared dependency)
    (hr : resolve prepared dependency = .ok t) : t ∉ canonicalIds prepared := by
  rcases h with hmany | ⟨hzero, hmem, p, hp, q, hq, hne, hps, hqs⟩
  · unfold resolve at hr
    rw [if_pos hmany] at hr
    cases hr
  · rcases resolve_ok hr with ⟨r, hrm, rfl, hmeans⟩ | ⟨-, hno⟩
    · rcases hmeans with ⟨-, hone⟩ | ⟨-, hcan⟩ | ⟨-, -, -, hall⟩
      · omega
      · exact absurd (hcan ▸ List.mem_map_of_mem hrm) hmem
      · exact absurd ((hall p hp hps).trans (hall q hq hqs).symm) hne
    · exact hno

theorem mem_keepNew {result : List Text} {text : Text} :
    t ∈ keepNew result text ↔ t ∈ result ∨ (t = text ∧ text ≠ []) := by
  unfold keepNew
  split
  · next h =>
    rw [List.mem_append, List.mem_singleton]
    constructor
    · rintro (hr | rfl)
      · exact Or.inl hr
      · exact Or.inr ⟨rfl, h.1⟩
    · rintro (hr | ⟨rfl, -⟩)
      · exact Or.inl hr
      · exact Or.inr rfl
  · next h =>
    constructor
    · exact Or.inl
    · rintro (hr | ⟨rfl, hne⟩)
      · exact hr
      · by_contra hno
        exact h ⟨hne, hno⟩

theorem resolveAll_ok {dependencies : List Text} : ∀ {result ts : List Text},
    resolveAll prepared result dependencies = .ok ts →
      (∀ t ∈ result, t ∈ ts) ∧ ∀ d ∈ dependencies, ∃ t, resolve prepared d = .ok t ∧
        (t ≠ [] → t ∈ ts) := by
  induction dependencies with
  | nil =>
    intro result ts h
    injection h with h
    subst h
    exact ⟨fun t ht => ht, fun d hd => absurd hd List.not_mem_nil⟩
  | cons d rest ih =>
    intro result ts h
    unfold resolveAll at h
    split at h
    · cases h
    · next t ht =>
      obtain ⟨hkeep, hrest⟩ := ih h
      refine ⟨fun u hu => hkeep u (mem_keepNew.mpr (Or.inl hu)), ?_⟩
      intro e he
      rcases List.mem_cons.mp he with rfl | he
      · exact ⟨t, ht, fun hne => hkeep t (mem_keepNew.mpr (Or.inr ⟨rfl, hne⟩))⟩
      · exact hrest e he

section Cards

variable (reprOf : Value → String)

def Planned (prepared : List Prepared) (p : Prepared) (card : TaskBoardCard) : Prop :=
  card.id = String.ofList p.canonical_id ∧
    ∃ ts, canonical_taskboard_dependencies reprOf prepared (get p.item "depends_on") = .ok ts ∧
      card.dependsOn = texts ts

variable {p : Prepared}

theorem card_from_planning_item_ok {index : Nat} {card : TaskBoardCard}
    (h : card_from_planning_item reprOf prepared p.item p.canonical_id index = .ok card) :
    Planned reprOf prepared p card := by
  unfold card_from_planning_item at h
  simp only at h
  split at h
  · cases h
  · rw [TaskDAGValidation.bind_eq_ok] at h
    obtain ⟨commands, -, h⟩ := h
    rw [TaskDAGValidation.bind_eq_ok] at h
    obtain ⟨ts, hts, h⟩ := h
    injection h with h
    subst h
    exact ⟨rfl, ts, hts, rfl⟩

variable {ps : List Prepared}

theorem cardsFrom_ok : ∀ {index : Nat} {cards : List TaskBoardCard},
    cardsFrom reprOf prepared index ps = .ok cards →
      List.Forall₂ (Planned reprOf prepared) ps cards := by
  induction ps with
  | nil =>
    intro index cards h
    injection h with h
    subst h
    exact .nil
  | cons p ps ih =>
    intro index cards h
    unfold cardsFrom at h
    split at h
    · cases h
    · next card hcard =>
      split at h
      · cases h
      · next rest hrest =>
        injection h with h
        subst h
        exact .cons (card_from_planning_item_ok reprOf hcard) (ih hrest)

theorem length_mappings {raw_cards : List Value} : ∀ {items : List (List (String × Value))},
    mappings raw_cards = .ok items → items.length = raw_cards.length := by
  induction raw_cards with
  | nil =>
    intro items h
    injection h with h
    subst h
    rfl
  | cons v rest ih =>
    intro items h
    unfold mappings at h
    split at h
    · next hnil => cases hnil
    · next kvs rest' heq =>
      injection heq with _ hrest
      subst hrest
      split at h
      · cases h
      · next more hmore =>
        injection h with h
        subst h
        rw [List.length_cons, List.length_cons, ih hmore]
    · cases h

theorem ne_nil_of_mem_strList {v : Value} {t : Text} (h : t ∈ strList reprOf v) : t ≠ [] := by
  have hfold : ∀ (xs : List Value) (result : List Text), (∀ t ∈ result, t ≠ []) →
      ∀ t ∈ xs.foldl (fun result v => keepNew result (strip (strOf reprOf v).toList)) result,
        t ≠ [] := by
    intro xs
    induction xs with
    | nil => exact fun result hr => hr
    | cons x xs ih =>
      intro result hr
      apply ih
      intro t ht
      rcases mem_keepNew.mp ht with ht | ⟨rfl, hne⟩
      · exact hr t ht
      · exact hne
  have hone : ∀ text : Text, ∀ t ∈ keepNew [] text, t ≠ [] := by
    intro text t ht
    rcases mem_keepNew.mp ht with ht | ⟨rfl, hne⟩
    · exact absurd ht List.not_mem_nil
    · exact hne
  unfold strList at h
  split at h
  · exact absurd h List.not_mem_nil
  · exact hfold _ [] (fun t ht => absurd ht List.not_mem_nil) t h
  · exact hfold _ [] (fun t ht => absurd ht List.not_mem_nil) t h
  · exact hone _ t h

variable {cards : List TaskBoardCard}

theorem exists_planned (h : List.Forall₂ (Planned reprOf prepared) ps cards) (hp : p ∈ ps) :
    ∃ card ∈ cards, Planned reprOf prepared p card := by
  induction h with
  | nil => exact absurd hp List.not_mem_nil
  | cons hc hrest ih =>
    rcases List.mem_cons.mp hp with rfl | hp
    · exact ⟨_, List.mem_cons_self, hc⟩
    · obtain ⟨card, hmem, hplanned⟩ := ih hp
      exact ⟨card, List.mem_cons_of_mem _ hmem, hplanned⟩

theorem ids_of_planned (h : List.Forall₂ (Planned reprOf prepared) ps cards) :
    cards.map TaskBoardCard.id = (canonicalIds ps).map String.ofList := by
  induction h with
  | nil => rfl
  | cons hc hrest ih =>
    rw [List.map_cons, ih, hc.1]
    rfl

theorem ofList_injective {s t : Text} (h : String.ofList s = String.ofList t) : s = t := by
  have hl := congrArg String.toList h
  rwa [String.toList_ofList, String.toList_ofList] at hl

theorem refused_of_ambiguous
    (h : List.Forall₂ (Planned reprOf ps) ps cards) {revision : TaskBoardRevision}
    (hrev : revision.graph.cards = cards) (hp : p ∈ ps) {d : Text}
    (hd : d ∈ strList reprOf (get p.item "depends_on")) (ha : Ambiguous ps d) :
    ∃ e, validateTaskBoardRevision revision = .error e := by
  cases hv : validateTaskBoardRevision revision with
  | error e => exact ⟨e, rfl⟩
  | ok u =>
    have hvalid := (validate_iff revision).mp hv
    obtain ⟨card, hcard, hid, ts, hts, hdeps⟩ := exists_planned reprOf h hp
    obtain ⟨t, ht, hmem⟩ := (resolveAll_ok hts).2 d hd
    have hno := resolve_ambiguous ha ht
    have hne : t ≠ [] := by
      rcases resolve_ok ht with ⟨q, hq, rfl, -⟩ | ⟨rfl, -⟩
      · exact absurd (List.mem_map_of_mem hq) hno
      · exact ne_nil_of_mem_strList reprOf hd
    have hknown := hvalid.known card (hrev ▸ hcard) (String.ofList t)
      (by rw [hdeps]; exact List.mem_map_of_mem (hmem hne))
    unfold TaskBoardGraph.ids at hknown
    rw [hrev, ids_of_planned reprOf h] at hknown
    obtain ⟨c, hc, he⟩ := List.mem_map.mp hknown
    exact absurd (ofList_injective he ▸ hc) hno

theorem matchesCardId_of {t : Text} (h : CardId t) : matchesCardId (String.ofList t) = true := by
  unfold matchesCardId
  rw [String.toList_ofList, Bool.and_eq_true, Bool.not_eq_true', List.isEmpty_eq_false_iff,
    List.all_eq_true]
  exact ⟨h.ne_nil, h.chars⟩

end Cards

def noText (_ : Value) : String := ""

def sameSlugs : List (List (String × Value)) :=
  [[("id", .str "Foo"), ("objective", .str "a")], [("id", .str "FOO"), ("objective", .str "b")],
    [("id", .str "c"), ("objective", .str "c"), ("depends_on", .list [.str "foo"])]]

def sameSlugsPrepared : List Prepared :=
  [⟨[("id", .str "Foo"), ("objective", .str "a")], ['F', 'o', 'o'], ['f', 'o', 'o']⟩,
    ⟨[("id", .str "FOO"), ("objective", .str "b")], ['F', 'O', 'O'], ['f', 'o', 'o', '_', '2']⟩,
    ⟨[("id", .str "c"), ("objective", .str "c"), ("depends_on", .list [.str "foo"])], ['c'], ['c']⟩]

theorem prepare_sameSlugs : prepare noText sameSlugs = sameSlugsPrepared := by
  rfl

def CouldMean (p : Prepared) (dependency : Text) : Prop :=
  p.raw_id = dependency ∨ p.canonical_id = dependency ∨
    hasSlug (slugify_taskboard_card_id dependency) p = true

end Agently.TaskBoard.Planning
