import Mathlib.Data.List.Basic
import Mathlib.Data.List.Infix

/-! # Readers of a text that may be cut

A reader is a list of moves: tokens to read, white space to pass over, reports to make. On a
text that is cut it stops where the text ends, so its reports are the first of those that it
makes on the whole text. -/

namespace Agently.Lib.CutReader

variable {α ρ : Type}

inductive Move (α ρ : Type) where
  | eat (token : List α)
  | skip
  /-- Goes on only if something stands after the white space. -/
  | more
  | emit (reports : List ρ)
  | stuck

abbrev Outcome (α ρ : Type) := List ρ × Option (List α)

def Outcome.andThen (o : Outcome α ρ) (next : List α → Outcome α ρ) : Outcome α ρ :=
  match o.2 with
  | none => o
  | some rest => (o.1 ++ (next rest).1, (next rest).2)

def run [DecidableEq α] (space : α → Bool) : List (Move α ρ) → List α → Outcome α ρ
  | [], text => ([], some text)
  | .eat token :: moves, text =>
    if token <+: text then run space moves (text.drop token.length) else ([], none)
  | .skip :: moves, text => run space moves (text.dropWhile space)
  | .more :: moves, text =>
    if text.dropWhile space = [] then ([], none) else run space moves text
  | .emit reports :: moves, text =>
    (reports ++ (run space moves text).1, (run space moves text).2)
  | .stuck :: _, _ => ([], none)

def Move.reports : Move α ρ → List ρ
  | .emit reports => reports
  | .eat _ | .skip | .more | .stuck => []

def emits (moves : List (Move α ρ)) : List ρ := moves.flatMap Move.reports

theorem emits_cons (move : Move α ρ) (moves : List (Move α ρ)) :
    emits (move :: moves) = move.reports ++ emits moves := List.flatMap_cons

theorem emits_append (a b : List (Move α ρ)) : emits (a ++ b) = emits a ++ emits b :=
  List.flatMap_append

theorem prefix_append_cases {s a b : List α} (h : s <+: a ++ b) :
    s <+: a ∨ ∃ s', s = a ++ s' ∧ s' <+: b := by
  obtain hle | hle := Nat.le_total s.length a.length
  · exact .inl (List.prefix_of_prefix_length_le h (List.prefix_append a b) hle)
  · obtain ⟨s', rfl⟩ := List.prefix_of_prefix_length_le (List.prefix_append a b) h hle
    exact .inr ⟨s', rfl, (List.prefix_append_right_inj a).mp h⟩

theorem cut_or_whole {s a b : List α} (h : s <+: a ++ b) :
    (s <+: a ∧ s ≠ a ∧ ¬ a <+: s) ∨ ∃ s', s = a ++ s' ∧ s' <+: b := by
  obtain hs | hs := prefix_append_cases h
  · by_cases he : s = a
    · exact .inr ⟨[], by rw [he, List.append_nil], List.nil_prefix⟩
    · exact .inl ⟨hs, he, fun ha => he (hs.eq_of_length_le ha.length_le)⟩
  · exact .inr hs

theorem dropWhile_mono (p : α → Bool) {s t : List α} (h : s <+: t) :
    s.dropWhile p <+: t.dropWhile p := by
  induction s generalizing t with
  | nil => exact List.nil_prefix
  | cons c s ih =>
    cases t with
    | nil => cases List.prefix_nil.mp h
    | cons d t =>
      obtain ⟨rfl, hst⟩ := List.cons_prefix_cons.mp h
      cases hc : p c with
      | true =>
        rw [List.dropWhile_cons_of_pos hc, List.dropWhile_cons_of_pos hc]
        exact ih hst
      | false =>
        have hno : ¬ p c = true := by simp [hc]
        rw [List.dropWhile_cons_of_neg hno, List.dropWhile_cons_of_neg hno]
        exact h

section

variable [DecidableEq α] {space : α → Bool}

theorem run_cons_eat (token text : List α) (moves : List (Move α ρ)) :
    run space (.eat token :: moves) text =
      if token <+: text then run space moves (text.drop token.length) else ([], none) :=
  rfl

theorem run_cons_skip (text : List α) (moves : List (Move α ρ)) :
    run space (.skip :: moves) text = run space moves (text.dropWhile space) :=
  rfl

theorem run_cons_more (text : List α) (moves : List (Move α ρ)) :
    run space (.more :: moves) text =
      if text.dropWhile space = [] then ([], none) else run space moves text :=
  rfl

theorem run_cons_emit (reports : List ρ) (text : List α) (moves : List (Move α ρ)) :
    run space (.emit reports :: moves) text =
      (reports ++ (run space moves text).1, (run space moves text).2) :=
  rfl

theorem run_eat {token text : List α} (h : token <+: text) (moves : List (Move α ρ)) :
    run space (.eat token :: moves) text = run space moves (text.drop token.length) := by
  rw [run_cons_eat, if_pos h]

theorem run_eat_append (token text : List α) (moves : List (Move α ρ)) :
    run space (.eat token :: moves) (token ++ text) = run space moves text := by
  rw [run_eat (List.prefix_append token text), List.drop_left]

theorem run_eat_of_not {token text : List α} (h : ¬ token <+: text) (moves : List (Move α ρ)) :
    run space (.eat token :: moves) text = ([], none) := by
  rw [run_cons_eat, if_neg h]

theorem run_append (a b : List (Move α ρ)) (text : List α) :
    run space (a ++ b) text = (run space a text).andThen (run space b) := by
  induction a generalizing text with
  | nil => rfl
  | cons move a ih =>
    cases move with
    | eat token =>
      rw [List.cons_append, run_cons_eat, run_cons_eat]
      split
      · exact ih _
      · rfl
    | skip =>
      rw [List.cons_append, run_cons_skip, run_cons_skip]
      exact ih _
    | more =>
      rw [List.cons_append, run_cons_more, run_cons_more]
      split
      · rfl
      · exact ih _
    | emit reports =>
      rw [List.cons_append, run_cons_emit, run_cons_emit, ih]
      cases run space a text with
      | mk rs rest =>
        cases rest with
        | none => rfl
        | some rest => simp [Outcome.andThen, List.append_assoc]
    | stuck => rfl

theorem run_append_of_some {a : List (Move α ρ)} {text rest : List α} {reports : List ρ}
    (h : run space a text = (reports, some rest)) (b : List (Move α ρ)) :
    run space (a ++ b) text = (reports ++ (run space b rest).1, (run space b rest).2) := by
  rw [run_append, h]
  rfl

theorem run_append_of_none {a : List (Move α ρ)} {text : List α} {reports : List ρ}
    (h : run space a text = (reports, none)) (b : List (Move α ρ)) :
    run space (a ++ b) text = (reports, none) := by
  rw [run_append, h]
  rfl

theorem run_mono (moves : List (Move α ρ)) {s t : List α} (h : s <+: t) :
    (run space moves s).1 <+: (run space moves t).1 ∧ ∀ rest, (run space moves s).2 = some rest →
      ∃ rest', (run space moves t).2 = some rest' ∧ rest <+: rest' := by
  induction moves generalizing s t with
  | nil =>
    refine ⟨List.nil_prefix, fun rest hr => ⟨t, rfl, ?_⟩⟩
    cases hr
    exact h
  | cons move moves ih =>
    cases move with
    | eat token =>
      by_cases he : token <+: s
      · rw [run_eat he, run_eat (he.trans h)]
        exact ih (h.drop token.length)
      · rw [run_eat_of_not he]
        exact ⟨List.nil_prefix, fun rest hr => (nomatch hr)⟩
    | skip =>
      rw [run_cons_skip, run_cons_skip]
      exact ih (dropWhile_mono space h)
    | more =>
      rw [run_cons_more, run_cons_more]
      by_cases he : s.dropWhile space = []
      · rw [if_pos he]
        exact ⟨List.nil_prefix, fun rest hr => (nomatch hr)⟩
      · have ht : t.dropWhile space ≠ [] := by
          intro hn
          have hd := dropWhile_mono space h
          rw [hn] at hd
          exact he (List.prefix_nil.mp hd)
        rw [if_neg he, if_neg ht]
        exact ih h
    | emit reports =>
      obtain ⟨hp, hrest⟩ := ih h
      rw [run_cons_emit, run_cons_emit]
      exact ⟨(List.prefix_append_right_inj reports).mpr hp, hrest⟩
    | stuck => exact ⟨List.nil_prefix, fun rest hr => (nomatch hr)⟩

theorem run_emits (moves : List (Move α ρ)) (text : List α) :
    (run space moves text).1 <+: emits moves := by
  induction moves generalizing text with
  | nil => exact List.nil_prefix
  | cons move moves ih =>
    rw [emits_cons]
    cases move with
    | eat token =>
      rw [run_cons_eat]
      split
      · exact ih _
      · exact List.nil_prefix
    | skip => exact ih _
    | more =>
      rw [run_cons_more]
      split
      · exact List.nil_prefix
      · exact ih _
    | emit reports => exact (List.prefix_append_right_inj reports).mpr (ih text)
    | stuck => exact List.nil_prefix

theorem run_suffix {moves : List (Move α ρ)} {text rest : List α}
    (h : (run space moves text).2 = some rest) : rest <:+ text := by
  induction moves generalizing text with
  | nil =>
    cases h
    exact List.suffix_rfl
  | cons move moves ih =>
    cases move with
    | eat token =>
      rw [run_cons_eat] at h
      split at h
      · exact (ih h).trans (List.drop_suffix _ _)
      · cases h
    | skip => exact (ih h).trans (List.dropWhile_suffix _)
    | more =>
      rw [run_cons_more] at h
      split at h
      · cases h
      · exact ih h
    | emit reports => exact ih h
    | stuck => cases h

theorem run_stuck {moves : List (Move α ρ)} (h : .stuck ∈ moves) (text : List α) :
    (run space moves text).2 = none := by
  induction moves generalizing text with
  | nil => cases h
  | cons move moves ih =>
    obtain rfl | hm := List.mem_cons.mp h
    · rfl
    · cases move with
      | eat token =>
        rw [run_cons_eat]
        split
        · exact ih hm _
        · rfl
      | skip => exact ih hm _
      | more =>
        rw [run_cons_more]
        split
        · rfl
        · exact ih hm _
      | emit reports => exact ih hm text
      | stuck => rfl

end

end Agently.Lib.CutReader
