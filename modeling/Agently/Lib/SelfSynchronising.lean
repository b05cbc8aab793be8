import Mathlib.Data.List.Basic

/-! # Texts read in pieces

A code writes each symbol as a list of units, of which all but the first can only trail
another. The decoder puts one mark for each unit that begins nothing and one for a symbol that
is cut short. Reading a stretch in pieces and joining what each piece decodes to gives what the
stretch decodes to exactly when no symbol that begins in the stretch is cut by a piece's end. -/

namespace Agently.Lib

universe u v

structure SelfSynchronising (α : Type u) (β : Type v) where
  encode : α → List β
  decode : List β → List α
  mark : α
  Trails : β → Prop
  encode_ne_nil : ∀ a, encode a ≠ []
  trails_of_mem_tail : ∀ a, ∀ b ∈ (encode a).tail, Trails b
  decode_nil : decode [] = []
  decode_encode : ∀ a rest, decode (encode a ++ rest) = a :: decode rest
  decode_trailing : ∀ b rest, Trails b → decode (b :: rest) = mark :: decode rest
  decode_cut : ∀ a n, 0 < n → n < (encode a).length → decode ((encode a).take n) = [mark]

namespace SelfSynchronising

variable {α : Type u} {β : Type v} (C : SelfSynchronising α β)

def text (as : List α) : List β := as.flatMap C.encode

def slice (as : List α) (o e : Nat) : List β := ((C.text as).take e).drop o

/-- A symbol that begins at `o` or later is cut at `p`. -/
def Splits (as : List α) (o p : Nat) : Prop :=
  ∃ before a after, as = before ++ a :: after ∧ o ≤ (C.text before).length ∧
    (C.text before).length < p ∧ p < (C.text before).length + (C.encode a).length

def joined (as : List α) (o : Nat) : List Nat → Nat → List α
  | [], e => C.decode (C.slice as o e)
  | p :: ps, e => C.decode (C.slice as o p) ++ joined as p ps e

theorem text_cons (a : α) (as : List α) : C.text (a :: as) = C.encode a ++ C.text as := by
  simp [text]

theorem decode_text (as : List α) : C.decode (C.text as) = as := by
  induction as with
  | nil => exact C.decode_nil
  | cons a as ih => rw [text_cons, C.decode_encode, ih]

theorem decode_trailing_append {bs : List β} (h : ∀ b ∈ bs, C.Trails b) (rest : List β) :
    C.decode (bs ++ rest) = List.replicate bs.length C.mark ++ C.decode rest := by
  induction bs with
  | nil => rfl
  | cons b bs ih =>
    have hb := h b List.mem_cons_self
    have hbs := ih fun c hc => h c (List.mem_cons_of_mem b hc)
    rw [List.cons_append, C.decode_trailing b _ hb, hbs]
    rfl

theorem trails_of_mem_drop {a : α} {n : Nat} (hn : 0 < n) {b : β}
    (hb : b ∈ (C.encode a).drop n) : C.Trails b := by
  apply C.trails_of_mem_tail a b
  rw [← List.drop_one]
  have hd : (C.encode a).drop n = ((C.encode a).drop 1).drop (n - 1) := by
    rw [List.drop_drop]
    congr 1
    omega
  rw [hd] at hb
  exact List.mem_of_mem_drop hb

theorem decode_drop {a : α} {n : Nat} (hn : 0 < n) (rest : List β) :
    C.decode ((C.encode a).drop n ++ rest) =
      List.replicate ((C.encode a).length - n) C.mark ++ C.decode rest := by
  rw [C.decode_trailing_append fun b hb => C.trails_of_mem_drop hn hb, List.length_drop]

theorem decode_drop_take {a : α} {o e : Nat} (ho : 0 < o) (he : e ≤ (C.encode a).length) :
    C.decode (((C.encode a).take e).drop o) = List.replicate (e - o) C.mark := by
  have ht : ∀ b ∈ ((C.encode a).take e).drop o, C.Trails b := by
    intro b hb
    rw [List.drop_take] at hb
    exact C.trails_of_mem_drop ho (List.mem_of_mem_take hb)
  have hd := C.decode_trailing_append ht []
  rw [List.append_nil, C.decode_nil, List.append_nil] at hd
  rw [hd, List.length_drop, List.length_take, Nat.min_eq_left he]

section Cons

variable (a : α) (as : List α) {o e : Nat}

theorem slice_of_le (ho : (C.encode a).length ≤ o) (he : o ≤ e) :
    C.slice (a :: as) o e =
      C.slice as (o - (C.encode a).length) (e - (C.encode a).length) := by
  unfold slice
  rw [text_cons, List.take_append, List.drop_append, List.length_take, Nat.min_eq_right (by omega)]
  rw [List.drop_eq_nil_of_le (by rw [List.length_take]; omega), List.nil_append]

theorem slice_of_lt (ho : o ≤ (C.encode a).length) (he : (C.encode a).length ≤ e) :
    C.slice (a :: as) o e =
      (C.encode a).drop o ++ C.slice as 0 (e - (C.encode a).length) := by
  unfold slice
  rw [text_cons, List.take_append, List.take_of_length_le he, List.drop_append]
  congr 1
  rw [Nat.sub_eq_zero_of_le ho]

theorem slice_within (he : e ≤ (C.encode a).length) :
    C.slice (a :: as) o e = ((C.encode a).take e).drop o := by
  unfold slice
  rw [text_cons, List.take_append_of_le_length he]

theorem slice_self (as : List α) (o : Nat) : C.slice as o o = [] := by
  unfold slice
  apply List.drop_eq_nil_of_le
  rw [List.length_take]
  omega

theorem splits_cons {p : Nat} : C.Splits (a :: as) o p ↔
    (o = 0 ∧ 0 < p ∧ p < (C.encode a).length) ∨
      C.Splits as (o - (C.encode a).length) (p - (C.encode a).length) := by
  constructor
  · rintro ⟨before, x, after, has, ho, hlt, hp⟩
    cases before with
    | nil =>
      injection has with hx has
      subst hx
      simp only [text, List.flatMap_nil, List.length_nil] at ho hlt hp
      exact Or.inl ⟨by omega, hlt, by omega⟩
    | cons y before =>
      injection has with hy has
      subst hy
      rw [text_cons, List.length_append] at ho hlt hp
      exact Or.inr ⟨before, x, after, has, by omega, by omega, by omega⟩
  · rintro (⟨ho, hlt, hp⟩ | ⟨before, x, after, has, ho, hlt, hp⟩)
    · refine ⟨[], a, as, rfl, ?_, ?_, ?_⟩ <;>
        simp only [text, List.flatMap_nil, List.length_nil] <;> omega
    · refine ⟨a :: before, x, after, by rw [has]; rfl, ?_, ?_, ?_⟩ <;>
        rw [text_cons, List.length_append] <;> omega

end Cons

theorem decode_slice_cons (a : α) (as : List α) {o e : Nat} (ho : o < (C.encode a).length)
    (he : (C.encode a).length ≤ e) :
    C.decode (C.slice (a :: as) o e) =
      (if o = 0 then [a] else List.replicate ((C.encode a).length - o) C.mark) ++
        C.decode (C.slice as 0 (e - (C.encode a).length)) := by
  rw [C.slice_of_lt a as (by omega) he]
  by_cases h0 : o = 0
  · subst h0
    rw [List.drop_zero, C.decode_encode, if_pos rfl]
    rfl
  · rw [if_neg h0, C.decode_drop (by omega)]

theorem cut_joins (as : List α) {o p e : Nat} (hop : o ≤ p) (hpe : p ≤ e)
    (h : ¬ C.Splits as o p) :
    C.decode (C.slice as o p) ++ C.decode (C.slice as p e) = C.decode (C.slice as o e) := by
  rcases Nat.eq_or_lt_of_le hop with rfl | hop
  · rw [slice_self, C.decode_nil, List.nil_append]
  rcases Nat.eq_or_lt_of_le hpe with rfl | hpe
  · rw [slice_self, C.decode_nil, List.append_nil]
  induction as generalizing o p e with
  | nil => simp [slice, text, C.decode_nil]
  | cons a as ih =>
    rw [splits_cons, not_or] at h
    obtain ⟨hfirst, hrest⟩ := h
    rcases Nat.lt_or_ge o (C.encode a).length with ho | ho
    · rcases Nat.lt_or_ge p (C.encode a).length with hp | hp
      · -- the cut is inside the first symbol, which began before the slice
        have ho0 : 0 < o := by omega
        rw [C.slice_within a as (Nat.le_of_lt hp), C.decode_drop_take ho0 (Nat.le_of_lt hp)]
        rcases Nat.lt_or_ge e (C.encode a).length with he | he
        · rw [C.slice_within a as (Nat.le_of_lt he), C.slice_within a as (Nat.le_of_lt he),
            C.decode_drop_take (by omega) (Nat.le_of_lt he),
            C.decode_drop_take ho0 (Nat.le_of_lt he), List.replicate_append_replicate]
          congr 1
          omega
        · rw [C.decode_slice_cons a as hp he, C.decode_slice_cons a as ho he,
            if_neg (by omega), if_neg (by omega), ← List.append_assoc,
            List.replicate_append_replicate]
          congr 2
          omega
      · -- the first symbol is decoded alike on both sides
        have hz : o - (C.encode a).length = 0 := by omega
        rw [hz] at hrest
        rw [C.decode_slice_cons a as ho hp, C.decode_slice_cons a as ho (by omega),
          C.slice_of_le a as hp (by omega), List.append_assoc]
        congr 1
        rcases Nat.eq_or_lt_of_le hp with heq | hlt
        · rw [← heq, Nat.sub_self, slice_self, C.decode_nil, List.nil_append]
        · exact ih (by omega) (by omega) hrest (by omega) (by omega)
    · rw [C.slice_of_le a as ho (by omega), C.slice_of_le a as (by omega) (by omega),
        C.slice_of_le a as ho (by omega)]
      exact ih (by omega) (by omega) hrest (by omega) (by omega)

theorem cut_longer (as : List α) {o p e : Nat} (hpe : p < e) (h : C.Splits as o p) :
    (C.decode (C.slice as o e)).length <
      (C.decode (C.slice as o p)).length + (C.decode (C.slice as p e)).length := by
  induction as generalizing o p e with
  | nil =>
    obtain ⟨before, a, after, has, -⟩ := h
    simp at has
  | cons a as ih =>
    rcases (C.splits_cons a as).mp h with ⟨rfl, hp0, hp⟩ | hrest
    · -- the first symbol becomes a mark for its beginning and one for each unit after the cut
      have hcut := C.decode_cut a p hp0 hp
      rw [C.slice_within a as (Nat.le_of_lt hp), List.drop_zero, hcut]
      rcases Nat.lt_or_ge e (C.encode a).length with he | he
      · rw [C.slice_within a as (Nat.le_of_lt he), C.slice_within a as (Nat.le_of_lt he),
          C.decode_drop_take hp0 (Nat.le_of_lt he), List.drop_zero,
          C.decode_cut a e (by omega) he, List.length_replicate, List.length_singleton]
        omega
      · rw [C.decode_slice_cons a as hp he, C.decode_slice_cons a as (by omega) he, if_pos rfl,
          if_neg (by omega)]
        simp only [List.length_append, List.length_replicate, List.length_singleton]
        omega
    · have hlt : (C.encode a).length < p := by
        obtain ⟨before, x, after, -, -, hlt, -⟩ := hrest
        omega
      rcases Nat.lt_or_ge o (C.encode a).length with ho | ho
      · have hz : o - (C.encode a).length = 0 := by omega
        rw [hz] at hrest
        have hl := ih (by omega : p - (C.encode a).length < e - (C.encode a).length) hrest
        rw [C.decode_slice_cons a as ho (by omega : (C.encode a).length ≤ e),
          C.decode_slice_cons a as ho (Nat.le_of_lt hlt),
          C.slice_of_le a as (Nat.le_of_lt hlt) (Nat.le_of_lt hpe)]
        simp only [List.length_append]
        omega
      · have hop : o ≤ p := by
          obtain ⟨before, x, after, -, hle, hl, -⟩ := hrest
          omega
        rw [C.slice_of_le a as ho hop, C.slice_of_le a as ho (by omega : o ≤ e),
          C.slice_of_le a as (Nat.le_of_lt hlt) (Nat.le_of_lt hpe)]
        exact ih (by omega) hrest

theorem cut_length (as : List α) {o p e : Nat} (hop : o ≤ p) (hpe : p ≤ e) :
    (C.decode (C.slice as o e)).length ≤
      (C.decode (C.slice as o p)).length + (C.decode (C.slice as p e)).length := by
  by_cases h : C.Splits as o p
  · rcases Nat.eq_or_lt_of_le hpe with rfl | hpe
    · omega
    · exact Nat.le_of_lt (C.cut_longer as hpe h)
  · have hl := congrArg List.length (C.cut_joins as hop hpe h)
    rw [List.length_append] at hl
    omega

/-- The ends of the pieces rise from `o` and stay below `e`. -/
def Rising : Nat → List Nat → Nat → Prop
  | o, [], e => o ≤ e
  | o, p :: ps, e => o ≤ p ∧ p < e ∧ Rising p ps e

theorem Rising.le_of_mem {o e : Nat} {ps : List Nat} (h : Rising o ps e) {q : Nat}
    (hq : q ∈ ps) : o ≤ q := by
  induction ps generalizing o with
  | nil => cases hq
  | cons p ps ih =>
    rcases List.mem_cons.mp hq with rfl | hq
    · exact h.1
    · exact Nat.le_trans h.1 (ih h.2.2 hq)

theorem length_joined (as : List α) {o : Nat} {ps : List Nat} {e : Nat} (h : Rising o ps e) :
    (C.decode (C.slice as o e)).length ≤ (C.joined as o ps e).length := by
  induction ps generalizing o with
  | nil => exact Nat.le_refl _
  | cons p ps ih =>
    have hc := C.cut_length as h.1 (Nat.le_of_lt h.2.1)
    have hr := ih h.2.2
    rw [joined, List.length_append]
    omega

theorem splits_of_later {as : List α} {o p q : Nat} (hop : o ≤ p) (h : C.Splits as p q) :
    C.Splits as o q := by
  obtain ⟨before, a, after, has, ho, hlt, hp⟩ := h
  exact ⟨before, a, after, has, Nat.le_trans hop ho, hlt, hp⟩

theorem splits_of_earlier {as : List α} {o p q : Nat} (hpq : p ≤ q) (hp : ¬ C.Splits as o p)
    (h : C.Splits as o q) : C.Splits as p q := by
  obtain ⟨before, a, after, has, ho, hlt, hq⟩ := h
  refine ⟨before, a, after, has, ?_, hlt, hq⟩
  by_contra hno
  exact hp ⟨before, a, after, has, ho, by omega, by omega⟩

theorem joined_eq_iff (as : List α) {o : Nat} {ps : List Nat} {e : Nat} (h : Rising o ps e) :
    C.joined as o ps e = C.decode (C.slice as o e) ↔ ∀ p ∈ ps, ¬ C.Splits as o p := by
  induction ps generalizing o with
  | nil => simp [joined]
  | cons p ps ih =>
    have hlen := C.length_joined as h.2.2
    constructor
    · intro heq
      have hno : ¬ C.Splits as o p := by
        intro hs
        have hl := C.cut_longer as h.2.1 hs
        have he := congrArg List.length heq
        rw [joined, List.length_append] at he
        omega
      rw [joined, ← C.cut_joins as h.1 (Nat.le_of_lt h.2.1) hno] at heq
      have hrest := (ih h.2.2).mp (List.append_cancel_left heq)
      intro q hq
      rcases List.mem_cons.mp hq with rfl | hq
      · exact hno
      · exact fun hs => hrest q hq (C.splits_of_earlier (h.2.2.le_of_mem hq) hno hs)
    · intro hall
      have hno := hall p List.mem_cons_self
      have hrest : ∀ q ∈ ps, ¬ C.Splits as p q := fun q hq hs =>
        hall q (List.mem_cons_of_mem p hq) (C.splits_of_later h.1 hs)
      rw [joined, (ih h.2.2).mpr hrest, C.cut_joins as h.1 (Nat.le_of_lt h.2.1) hno]

end SelfSynchronising

end Agently.Lib
