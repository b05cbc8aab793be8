import Agently.ResponseParser.LeadingThink

/-! # Chunks of a think block

The opening tag may come in any pieces. The closing tag has to come in one: where a cut goes
through it the normalizer reads on, to a later closing tag or to the end. -/

namespace Agently.ResponseParser

open LeadingThinkEventNormalizer
open Agently.TaskDAGValidation (isSpace)
open Agently.TaskBoard (lowerChar)

variable {tag s rest : Text}

theorem matchTag_append (h : matchTag tag s = some rest) (t : Text) :
    matchTag tag (s ++ t) = some (rest ++ t) := by
  induction tag generalizing s with
  | nil =>
    have hs : s = rest := Option.some.inj h
    rw [hs]
    rfl
  | cons a tag ih =>
    cases s with
    | nil => cases h
    | cons c s =>
      rw [matchTag] at h
      split at h
      · rename_i hc
        rw [List.cons_append, matchTag, if_pos hc]
        exact ih h
      · cases h

theorem length_of_matchTag (h : matchTag tag s = some rest) :
    s.length = tag.length + rest.length := by
  induction tag generalizing s with
  | nil =>
    have hs : s = rest := Option.some.inj h
    simp [hs]
  | cons a tag ih =>
    cases s with
    | nil => cases h
    | cons c s =>
      rw [matchTag] at h
      split at h
      · have hs := ih h
        simp only [List.length_cons]
        omega
      · cases h

variable {q t : Text}

theorem matchTag_of_append (h : matchTag tag (q ++ t) = some rest)
    (ht : t.length ≤ rest.length) : ∃ y, matchTag tag q = some y ∧ rest = y ++ t := by
  induction tag generalizing q with
  | nil => exact ⟨q, rfl, (Option.some.inj h).symm⟩
  | cons a tag ih =>
    cases q with
    | nil =>
      have hl := length_of_matchTag h
      simp only [List.nil_append, List.length_cons] at hl
      omega
    | cons c q =>
      rw [List.cons_append, matchTag] at h
      split at h
      · rename_i hc
        obtain ⟨y, hy, hrest⟩ := ih h
        exact ⟨y, by rw [matchTag, if_pos hc, hy], hrest⟩
      · cases h

variable {c : Char}

theorem search_cons_of_match
    (h : matchTag closeTag (c :: s) = some rest) : search (c :: s) = some ([], rest) := by
  rw [search, h]

theorem search_cons_of_none (h : matchTag closeTag (c :: s) = none) :
    search (c :: s) = (search s).map fun p => (c :: p.1, p.2) := by
  rw [search, h]

variable {r : Text}

theorem search_cons (h : search (c :: s) = some (r, rest)) :
    (matchTag closeTag (c :: s) = some rest ∧ r = []) ∨
    (matchTag closeTag (c :: s) = none ∧ ∃ r', search s = some (r', rest) ∧ r = c :: r') := by
  cases hm : matchTag closeTag (c :: s) with
  | some rest' =>
    rw [search_cons_of_match hm] at h
    cases h
    exact .inl ⟨rfl, rfl⟩
  | none =>
    rw [search_cons_of_none hm] at h
    obtain ⟨p, hp, he⟩ := Option.map_eq_some_iff.mp h
    cases he
    exact .inr ⟨rfl, p.1, hp, rfl⟩

theorem length_of_search (h : search s = some (r, rest)) :
    s.length = r.length + closeTag.length + rest.length := by
  induction s generalizing r with
  | nil => cases h
  | cons c s ih =>
    obtain ⟨hm, rfl⟩ | ⟨-, r', hr, rfl⟩ := search_cons h
    · have hl := length_of_matchTag hm
      simp only [List.length_nil]
      omega
    · have hl := ih hr
      simp only [List.length_cons]
      omega

theorem prefix_of_search (h : search s = some (r, rest)) : r <+: s := by
  induction s generalizing r with
  | nil => cases h
  | cons c s ih =>
    obtain ⟨-, rfl⟩ | ⟨-, r', hr, rfl⟩ := search_cons h
    · exact List.nil_prefix
    · exact List.cons_prefix_cons.mpr ⟨rfl, ih hr⟩

variable {y : Text}

theorem search_append (h : search q = some (r, y)) (t : Text) :
    search (q ++ t) = some (r, y ++ t) := by
  induction q generalizing r with
  | nil => cases h
  | cons c q ih =>
    rw [List.cons_append]
    obtain ⟨hm, rfl⟩ | ⟨hm, r', hr, rfl⟩ := search_cons h
    · exact search_cons_of_match (matchTag_append hm t)
    · have hnone : matchTag closeTag (c :: (q ++ t)) = none := by
        cases hm' : matchTag closeTag (c :: (q ++ t)) with
        | none => rfl
        | some rest =>
          -- a match that needs `t` would end behind the one found in the rest
          have hl := length_of_matchTag hm'
          have hq := length_of_search hr
          simp only [List.length_cons, List.length_append] at hl
          obtain ⟨z, hz, -⟩ := matchTag_of_append (q := c :: q) hm' (by omega)
          rw [hm] at hz
          cases hz
      rw [search_cons_of_none hnone, ih hr]
      rfl

theorem search_of_append (h : search (q ++ t) = some (r, rest))
    (ht : t.length ≤ rest.length) : ∃ y, search q = some (r, y) ∧ rest = y ++ t := by
  induction q generalizing r with
  | nil =>
    have hl := length_of_search h
    have hc : closeTag.length = 8 := rfl
    simp only [List.nil_append] at hl
    omega
  | cons c q ih =>
    rw [List.cons_append] at h
    obtain ⟨hm, rfl⟩ | ⟨hm, r', hr, rfl⟩ := search_cons h
    · obtain ⟨y, hy, hrest⟩ := matchTag_of_append (q := c :: q) hm ht
      exact ⟨y, search_cons_of_match hy, hrest⟩
    · have hnone : matchTag closeTag (c :: q) = none := by
        cases hm' : matchTag closeTag (c :: q) with
        | none => rfl
        | some y =>
          have happ := matchTag_append hm' t
          rw [List.cons_append, hm] at happ
          cases happ
      obtain ⟨y, hy, hrest⟩ := ih hr
      refine ⟨y, ?_, hrest⟩
      rw [search_cons_of_none hnone, hy]
      rfl

theorem search_drop (h : search (q ++ t) = some (q ++ r, rest)) :
    search t = some (r, rest) := by
  induction q with
  | nil => exact h
  | cons c q ih =>
    obtain ⟨-, hnil⟩ | ⟨-, r', hr, he⟩ := search_cons h
    · cases hnil
    · cases he
      exact ih hr

def searchPieces : List Text → Option (Text × Text × List Text)
  | [] => none
  | q :: qs =>
    match search q with
    | some (r, y) => some (r, y, qs)
    | none => (searchPieces qs).map fun p => (q ++ p.1, p.2)

theorem searchPieces_of_some (h : search q = some (r, y)) (qs : List Text) :
    searchPieces (q :: qs) = some (r, y, qs) := by
  rw [searchPieces, h]

theorem searchPieces_of_none (h : search q = none) (qs : List Text) :
    searchPieces (q :: qs) = (searchPieces qs).map fun p => (q ++ p.1, p.2) := by
  rw [searchPieces, h]

def drained (pieces : List Text) : Text :=
  match searchPieces pieces with
  | some (r, _, _) => r
  | none => pieces.flatten

theorem isSome_search_append (q : Text) (h : (search t).isSome = true) :
    (search (q ++ t)).isSome = true := by
  induction q with
  | nil => exact h
  | cons c q ih =>
    cases hm : matchTag closeTag (c :: (q ++ t)) with
    | some rest =>
      rw [List.cons_append, search_cons_of_match hm]
      rfl
    | none =>
      rw [List.cons_append, search_cons_of_none hm, Option.isSome_map]
      exact ih

variable {pieces : List Text}

theorem searchPieces_of_search_none (h : search pieces.flatten = none) :
    searchPieces pieces = none := by
  induction pieces with
  | nil => rfl
  | cons q qs ih =>
    rw [List.flatten_cons] at h
    have hq : search q = none := by
      cases hq : search q with
      | none => rfl
      | some p =>
        rw [search_append (r := p.1) (y := p.2) hq qs.flatten] at h
        cases h
    have hqs : search qs.flatten = none := by
      cases hs : search qs.flatten with
      | none => rfl
      | some p =>
        have happ := isSome_search_append q (t := qs.flatten) (by rw [hs]; rfl)
        rw [h] at happ
        cases happ
    rw [searchPieces_of_none hq, ih hqs]
    rfl

theorem uncut_cons {c : Text} {cs : List Text}
    (h : rest.length + closeTag.length ≤ (c :: cs).flatten.length) :
    Uncut (c :: cs) rest ↔ Uncut cs rest := by
  constructor
  · intro hu before after hcs
    exact hu (c :: before) after (by rw [hcs, List.cons_append])
  · intro hu before after hcs
    cases before with
    | nil =>
      rw [List.nil_append] at hcs
      rw [← hcs]
      exact .inr h
    | cons b before =>
      injection hcs with _ hcs
      exact hu before after hcs

theorem length_flatten_of_search (h : search pieces.flatten = some (r, rest)) :
    rest.length + closeTag.length ≤ pieces.flatten.length := by
  have hl := length_of_search h
  omega

theorem searchPieces_of_uncut
    (h : search pieces.flatten = some (r, rest)) (hu : Uncut pieces rest) :
    ∃ y after, searchPieces pieces = some (r, y, after) ∧ rest = y ++ after.flatten := by
  induction pieces generalizing r with
  | nil => cases h
  | cons q qs ih =>
    have hqs := (uncut_cons (length_flatten_of_search h)).mp hu
    rw [List.flatten_cons] at h
    obtain hin | hout := hu [q] qs rfl
    · obtain ⟨y, hy, hrest⟩ := search_of_append h hin
      exact ⟨y, qs, searchPieces_of_some hy qs, hrest⟩
    · have hnone : search q = none := by
        cases hq : search q with
        | none => rfl
        | some p =>
          have happ := search_append (r := p.1) (y := p.2) hq qs.flatten
          have hc : closeTag.length = 8 := rfl
          rw [h] at happ
          cases happ
          simp only [List.length_append] at hout
          omega
      have hl := length_of_search h
      have hlen : q.length ≤ r.length := by
        simp only [List.length_append] at hl
        omega
      obtain ⟨r', rfl⟩ : q <+: r :=
        List.prefix_of_prefix_length_le (List.prefix_append q qs.flatten) (prefix_of_search h)
          hlen
      obtain ⟨y, after, hp, hrest⟩ := ih (search_drop h) hqs
      refine ⟨y, after, ?_, hrest⟩
      rw [searchPieces_of_none hnone, hp]
      rfl

theorem uncut_of_drained (h : search pieces.flatten = some (r, rest)) (hd : drained pieces = r) :
    Uncut pieces rest := by
  induction pieces generalizing r with
  | nil => cases h
  | cons q qs ih =>
    rw [uncut_cons (length_flatten_of_search h)]
    rw [List.flatten_cons] at h
    cases hq : search q with
    | some p =>
      have happ := search_append (r := p.1) (y := p.2) hq qs.flatten
      rw [h] at happ
      cases happ
      intro before after hqs
      left
      rw [hqs]
      simp only [List.flatten_append, List.length_append]
      omega
    | none =>
      have hcons : drained (q :: qs) = q ++ drained qs := by
        rw [drained, drained, searchPieces_of_none hq]
        cases searchPieces qs <;> rfl
      rw [hcons] at hd
      subst hd
      exact ih (search_drop h) rfl

@[simp] theorem deltaText_append (es fs : List Event) :
    deltaText (es ++ fs) = deltaText es ++ deltaText fs := List.flatMap_append

@[simp] theorem reasoningText_append (es fs : List Event) :
    reasoningText (es ++ fs) = reasoningText es ++ reasoningText fs := List.flatMap_append

@[simp] theorem reasoningDones_append (es fs : List Event) :
    reasoningDones (es ++ fs) = reasoningDones es ++ reasoningDones fs := List.filterMap_append

@[simp] theorem dones_append (es fs : List Event) : dones (es ++ fs) = dones es ++ dones fs :=
  List.filterMap_append

structure Says (es : List Event) (deltas reasoning : Text) (ends : List Text) : Prop where
  deltas : deltaText es = deltas
  reasoning : reasoningText es = reasoning
  ends : reasoningDones es = ends
  dones : dones es = []

theorem says_nil : Says [] [] [] [] := ⟨rfl, rfl, rfl, rfl⟩

theorem says_delta (s : Text) : Says (if s = [] then [] else [.delta s]) s [] [] := by
  split
  · rename_i hs
    rw [hs]
    exact says_nil
  · exact ⟨by simp [deltaText], rfl, rfl, rfl⟩

theorem says_reasoning_delta (s : Text) :
    Says (if s = [] then [] else [.reasoning_delta s]) [] s [] := by
  split
  · rename_i hs
    rw [hs]
    exact says_nil
  · exact ⟨rfl, by simp [reasoningText], rfl, rfl⟩

theorem says_reasoning_done (s : Text) : Says [.reasoning_done s] [] [] [s] :=
  ⟨rfl, rfl, rfl, rfl⟩

theorem Says.append {es fs : List Event} {d d' r' : Text} {x x' : List Text}
    (h : Says es d r x) (h' : Says fs d' r' x') : Says (es ++ fs) (d ++ d') (r ++ r') (x ++ x') where
  deltas := by rw [deltaText_append, h.deltas, h'.deltas]
  reasoning := by rw [reasoningText_append, h.reasoning, h'.reasoning]
  ends := by rw [reasoningDones_append, h.ends, h'.ends]
  dones := by rw [dones_append, h.dones, h'.dones]; rfl

theorem feed_deltas_cons (n : LeadingThinkEventNormalizer) (chunk : Text) (chunks : List Text) :
    feed_deltas n (chunk :: chunks) =
      ((feed_deltas (feed_delta n chunk).1 chunks).1,
        (feed_delta n chunk).2 ++ (feed_deltas (feed_delta n chunk).1 chunks).2) := rfl

variable {n : LeadingThinkEventNormalizer}

theorem feed_deltas_answer (hm : n.mode = .answer) (chunks : List Text) :
    (feed_deltas n chunks).1 = n ∧ Says (feed_deltas n chunks).2 chunks.flatten [] [] := by
  induction chunks with
  | nil => exact ⟨rfl, says_nil⟩
  | cons c cs ih =>
    have hc : feed_delta n c = (n, if c = [] then [] else [.delta c]) := by
      rw [feed_delta, hm]
    rw [feed_deltas_cons, hc, List.flatten_cons]
    exact ⟨ih.1, (says_delta c).append ih.2⟩

def reasoningFrom (buffer : Text) : LeadingThinkEventNormalizer where
  mode := .reasoning
  reasoning_buffer := buffer

def answerAfter (buffer : Text) : LeadingThinkEventNormalizer where
  mode := .answer
  reasoning_buffer := buffer
  reasoning_done_emitted := true

theorem feed_delta_reasoning_none (buffer : Text) (h : search q = none) :
    feed_delta (reasoningFrom buffer) q =
      (reasoningFrom (buffer ++ q), if q = [] then [] else [.reasoning_delta q]) := by
  have hf : feed_delta (reasoningFrom buffer) q =
      drain_reasoning_pending { reasoningFrom buffer with pending := q } := rfl
  rw [hf, drain_reasoning_pending]
  simp only [h]
  split
  · rename_i hq
    simp [hq, reasoningFrom]
  · rfl

theorem feed_delta_reasoning_some (buffer : Text) (h : search q = some (r, y)) :
    feed_delta (reasoningFrom buffer) q =
      (answerAfter (buffer ++ r),
        (if r = [] then [] else [.reasoning_delta r]) ++ [.reasoning_done (buffer ++ r)] ++
        (if lstrip y = [] then [] else [.delta (lstrip y)])) := by
  have hf : feed_delta (reasoningFrom buffer) q =
      drain_reasoning_pending { reasoningFrom buffer with pending := q } := rfl
  rw [hf, drain_reasoning_pending]
  simp only [h]
  rfl

theorem feed_deltas_unclosed (buffer : Text) (h : searchPieces pieces = none) :
    (feed_deltas (reasoningFrom buffer) pieces).1 = reasoningFrom (buffer ++ pieces.flatten) ∧
    Says (feed_deltas (reasoningFrom buffer) pieces).2 [] pieces.flatten [] := by
  induction pieces generalizing buffer with
  | nil =>
    rw [List.flatten_nil, List.append_nil]
    exact ⟨rfl, says_nil⟩
  | cons q qs ih =>
    cases hq : search q with
    | some p =>
      rw [searchPieces_of_some (r := p.1) (y := p.2) hq] at h
      cases h
    | none =>
      rw [searchPieces_of_none hq] at h
      obtain ⟨hstate, hsays⟩ := ih (buffer ++ q) (Option.map_eq_none_iff.mp h)
      rw [feed_deltas_cons, feed_delta_reasoning_none buffer hq, List.flatten_cons]
      refine ⟨?_, (says_reasoning_delta q).append hsays⟩
      rw [hstate, List.append_assoc]

theorem feed_deltas_closed (buffer : Text) {after : List Text}
    (h : searchPieces pieces = some (r, y, after)) :
    (feed_deltas (reasoningFrom buffer) pieces).1 = answerAfter (buffer ++ r) ∧
    Says (feed_deltas (reasoningFrom buffer) pieces).2 (lstrip y ++ after.flatten) r
      [buffer ++ r] := by
  induction pieces generalizing buffer r with
  | nil => cases h
  | cons q qs ih =>
    cases hq : search q with
    | some p =>
      rw [searchPieces_of_some (r := p.1) (y := p.2) hq] at h
      cases h
      obtain ⟨hstate, hsays⟩ :=
        feed_deltas_answer (n := answerAfter (buffer ++ p.1)) rfl after
      rw [feed_deltas_cons, feed_delta_reasoning_some buffer hq]
      refine ⟨hstate, ?_⟩
      have hpiece := ((says_reasoning_delta p.1).append
        (says_reasoning_done (buffer ++ p.1))).append (says_delta (lstrip p.2))
      have hall := hpiece.append hsays
      simpa using hall
    | none =>
      rw [searchPieces_of_none hq] at h
      obtain ⟨⟨r', y', after'⟩, hp, he⟩ := Option.map_eq_some_iff.mp h
      cases he
      obtain ⟨hstate, hsays⟩ := ih (buffer ++ q) hp
      rw [feed_deltas_cons, feed_delta_reasoning_none buffer hq]
      have hall := (says_reasoning_delta q).append hsays
      rw [List.append_assoc] at hstate hall
      exact ⟨hstate, hall⟩

theorem lstrip_append_of_ne (h : lstrip s ≠ []) (t : Text) :
    lstrip (s ++ t) = lstrip s ++ t := by
  unfold lstrip at h ⊢
  rw [List.dropWhile_append, if_neg]
  rw [List.isEmpty_iff]
  exact h

theorem lstrip_append_of_eq (h : lstrip s = []) (t : Text) :
    lstrip (s ++ t) = lstrip t := by
  unfold lstrip at h ⊢
  rw [List.dropWhile_append, h]
  rfl

theorem lstrip_lstrip (s : Text) : lstrip (lstrip s) = lstrip s :=
  List.dropWhile_idempotent isSpace s

theorem lower_append (s t : Text) : lower (s ++ t) = lower s ++ lower t := List.map_append

theorem length_lower (s : Text) : (lower s).length = s.length := List.length_map _

theorem unopened_of_blank (h : lstrip s = []) : Unopened s := by
  unfold Unopened
  rw [h]
  exact ⟨List.nil_prefix, by decide⟩

theorem thinkBody_of_unopened (h : Unopened s) : thinkBody s = none := by
  rw [thinkBody, if_neg]
  intro hp
  have hl := hp.length_le
  have hu := h.2
  omega

variable {body : Text}

theorem lstrip_ne_of_thinkBody (h : thinkBody s = some body) :
    lstrip s ≠ [] := by
  intro hs
  rw [thinkBody_of_unopened (unopened_of_blank hs)] at h
  cases h

theorem thinkBody_eq_some (h : thinkBody s = some body) :
    openTag <+: lower (lstrip s) ∧ body = (lstrip s).drop openTag.length := by
  rw [thinkBody] at h
  split at h
  · rename_i hp
    exact ⟨hp, (Option.some.inj h).symm⟩
  · cases h

theorem thinkBody_append (h : thinkBody s = some body) (t : Text) :
    thinkBody (s ++ t) = some (body ++ t) := by
  obtain ⟨hp, rfl⟩ := thinkBody_eq_some h
  have hlen : openTag.length ≤ (lstrip s).length := by
    have hl := hp.length_le
    rwa [length_lower] at hl
  rw [thinkBody, lstrip_append_of_ne (lstrip_ne_of_thinkBody h), if_pos,
    List.drop_append_of_le_length hlen]
  rw [lower_append]
  exact hp.trans (List.prefix_append _ _)

theorem length_thinkBody_append (hs : Unopened s)
    (h : thinkBody (s ++ t) = some body) : body.length ≤ t.length := by
  obtain ⟨-, rfl⟩ := thinkBody_eq_some h
  have hu := hs.2
  rw [length_lower] at hu
  by_cases he : lstrip s = []
  · rw [lstrip_append_of_eq he, List.length_drop]
    have hl : (lstrip t).length ≤ t.length := (List.dropWhile_suffix isSpace).length_le
    omega
  · rw [lstrip_append_of_ne he, List.length_drop, List.length_append]
    omega

theorem plain_append (hu : ¬ Unopened s) (hb : thinkBody s = none) (t : Text) :
    ¬ Unopened (s ++ t) ∧ thinkBody (s ++ t) = none := by
  have hne : lstrip s ≠ [] := fun hs => hu (unopened_of_blank hs)
  have hb' : ¬ openTag <+: lower (lstrip s) := by
    intro hp
    rw [thinkBody, if_pos hp] at hb
    cases hb
  have hpre : lower (lstrip s) <+: lower (lstrip (s ++ t)) := by
    rw [lstrip_append_of_ne hne, lower_append]
    exact List.prefix_append _ _
  -- the shorter of two prefixes of one text is a prefix of the other
  have hopen : ¬ lower (lstrip s) <+: openTag := by
    intro hp
    by_cases hl : (lower (lstrip s)).length < openTag.length
    · exact hu ⟨hp, hl⟩
    · have heq : lower (lstrip s) = openTag := hp.eq_of_length_le (Nat.le_of_not_lt hl)
      exact hb' (heq ▸ List.prefix_rfl)
  constructor
  · intro hs
    exact hopen (hpre.trans hs.1)
  · rw [thinkBody, if_neg]
    intro hp
    obtain h | h := List.prefix_or_prefix_of_prefix hpre hp
    · exact hopen h
    · exact hb' h

variable {p : Text}

theorem feed_delta_unopened {c : Text} (h : Unopened (p ++ c)) :
    feed_delta { pending := p } c = ({ pending := p ++ c }, []) := by
  unfold feed_delta
  dsimp only
  split
  · rfl
  · rw [if_pos]
    exact h

theorem feed_delta_opened {c : Text} (h : thinkBody (p ++ c) = some body) :
    feed_delta { pending := p } c = feed_delta (reasoningFrom []) body := by
  obtain ⟨hp, rfl⟩ := thinkBody_eq_some h
  have hl := hp.length_le
  unfold feed_delta
  dsimp only
  rw [if_neg (lstrip_ne_of_thinkBody h), if_neg (by omega), if_pos hp]
  rfl

theorem feed_delta_plain {c : Text} (hu : ¬ Unopened (p ++ c)) (hb : thinkBody (p ++ c) = none) :
    feed_delta { pending := p } c =
      ({ mode := .answer }, if p ++ c = [] then [] else [.delta (p ++ c)]) := by
  have hp : ¬ openTag <+: lower (lstrip (p ++ c)) := by
    intro hp
    rw [thinkBody, if_pos hp] at hb
    cases hb
  have hne : ¬ lstrip (p ++ c) = [] := fun hs => hu (unopened_of_blank hs)
  unfold Unopened at hu
  unfold feed_delta
  dsimp only
  rw [if_neg hne, if_neg hu, if_neg hp]

variable {chunks : List Text}

theorem feed_deltas_plain (hp : Unopened p)
    (hu : ¬ Unopened (p ++ chunks.flatten)) (hb : thinkBody (p ++ chunks.flatten) = none) :
    (feed_deltas { pending := p } chunks).1 = { mode := .answer } ∧
    Says (feed_deltas { pending := p } chunks).2 (p ++ chunks.flatten) [] [] := by
  induction chunks generalizing p with
  | nil =>
    rw [List.flatten_nil, List.append_nil] at hu
    exact absurd hp hu
  | cons c cs ih =>
    rw [List.flatten_cons, ← List.append_assoc] at hu hb ⊢
    rw [feed_deltas_cons]
    by_cases hc : Unopened (p ++ c)
    · rw [feed_delta_unopened hc]
      exact ih hc hu hb
    · have hbody : thinkBody (p ++ c) = none := by
        cases hbc : thinkBody (p ++ c) with
        | none => rfl
        | some body =>
          rw [thinkBody_append hbc] at hb
          cases hb
      rw [feed_delta_plain hc hbody]
      obtain ⟨hstate, hsays⟩ := feed_deltas_answer (n := { mode := .answer }) rfl cs
      exact ⟨hstate, (says_delta (p ++ c)).append hsays⟩

theorem feed_deltas_unopened (hu : Unopened (p ++ chunks.flatten)) :
    feed_deltas { pending := p } chunks = ({ pending := p ++ chunks.flatten }, []) := by
  induction chunks generalizing p with
  | nil =>
    rw [List.flatten_nil, List.append_nil]
    rfl
  | cons c cs ih =>
    rw [List.flatten_cons, ← List.append_assoc] at hu ⊢
    have hc : Unopened (p ++ c) := by
      by_contra hc
      cases hb : thinkBody (p ++ c) with
      | none => exact (plain_append hc hb cs.flatten).1 hu
      | some body =>
        have happ := thinkBody_append hb cs.flatten
        rw [thinkBody_of_unopened hu] at happ
        cases happ
    rw [feed_deltas_cons, feed_delta_unopened hc]
    dsimp only
    rw [ih hu]
    rfl

theorem feed_deltas_opened (hp : Unopened p) (hb : thinkBody (p ++ chunks.flatten) = some body) :
    ∃ pieces, pieces.flatten = body ∧
      feed_deltas { pending := p } chunks = feed_deltas (reasoningFrom []) pieces ∧
      ∀ rest, rest.length + closeTag.length ≤ body.length →
        (Uncut chunks rest ↔ Uncut pieces rest) := by
  induction chunks generalizing p with
  | nil =>
    rw [List.flatten_nil, List.append_nil, thinkBody_of_unopened hp] at hb
    cases hb
  | cons c cs ih =>
    have hlen := length_thinkBody_append hp hb
    rw [List.flatten_cons, ← List.append_assoc] at hb
    by_cases hc : Unopened (p ++ c)
    · obtain ⟨pieces, hflat, hfeed, hcut⟩ := ih hc hb
      refine ⟨pieces, hflat, ?_, ?_⟩
      · rw [feed_deltas_cons, feed_delta_unopened hc, ← hfeed]
        rfl
      · intro rest hrest
        rw [uncut_cons (hrest.trans hlen)]
        exact hcut rest hrest
    · cases hbc : thinkBody (p ++ c) with
      | none =>
        rw [(plain_append hc hbc cs.flatten).2] at hb
        cases hb
      | some b =>
        rw [thinkBody_append hbc] at hb
        have hbody : b ++ cs.flatten = body := Option.some.inj hb
        refine ⟨b :: cs, hbody, ?_, ?_⟩
        · rw [feed_deltas_cons, feed_delta_opened hbc, ← feed_deltas_cons]
        · intro rest hrest
          rw [uncut_cons (hrest.trans hlen), uncut_cons]
          rwa [List.flatten_cons, hbody]

def answerOf (content : Text) : Text := (strip_leading_think {} content).2

theorem strip_leading_think_answer (n : LeadingThinkEventNormalizer) (content : Text) :
    (strip_leading_think n content).2 = answerOf content := by
  unfold answerOf strip_leading_think
  dsimp only
  split
  · split <;> rfl
  · rfl

theorem search_cons_of_ne (h : lowerChar c ≠ '<') (s : Text) :
    search (c :: s) = (search s).map fun p => (c :: p.1, p.2) := by
  apply search_cons_of_none
  have hc : ignoreCase '<' c = false := by
    simp [ignoreCase, h]
  rw [closeTag, matchTag, hc]
  rfl

theorem search_of_lower (htag : '<' ∉ tag) (h : tag <+: lower s) :
    search s = (search (s.drop tag.length)).map fun p => (s.take tag.length ++ p.1, p.2) := by
  induction tag generalizing s with
  | nil =>
    cases hs : search s with
    | none => simp [hs]
    | some p => simp [hs]
  | cons t tag ih =>
    cases s with
    | nil =>
      have hl := h.length_le
      simp [lower] at hl
    | cons c s =>
      rw [lower, List.map_cons] at h
      obtain ⟨rfl, hs⟩ := List.cons_prefix_cons.mp h
      have hc : lowerChar c ≠ '<' := fun he => htag (by rw [he]; exact List.mem_cons_self)
      rw [search_cons_of_ne hc, ih (fun hm => htag (List.mem_cons_of_mem _ hm)) hs]
      rw [Option.map_map]
      rfl

theorem search_of_openTag (hp : openTag <+: lower s) :
    search s = (search (s.drop openTag.length)).map
      fun p => (s.take openTag.length ++ p.1, p.2) := by
  cases s with
  | nil =>
    have hl := hp.length_le
    simp [lower, openTag] at hl
  | cons c s =>
    rw [openTag, lower, List.map_cons] at hp
    obtain ⟨-, hs⟩ := List.cons_prefix_cons.mp hp
    have hnone : matchTag closeTag (c :: s) = none := by
      cases s with
      | nil =>
        have hl := hs.length_le
        simp at hl
      | cons d s =>
        rw [List.map_cons] at hs
        obtain ⟨hd, -⟩ := List.cons_prefix_cons.mp hs
        have hslash : ignoreCase '/' d = false := by
          simp [ignoreCase, ← hd]
        rw [closeTag, matchTag]
        split
        · rw [matchTag, hslash]
          rfl
        · rfl
    rw [search_cons_of_none hnone, search_of_lower (by decide) hs, Option.map_map]
    rfl

variable {content : Text}

theorem answerOf_plain (h : thinkBody content = none) :
    answerOf content = content := by
  rw [thinkBody] at h
  split at h
  · cases h
  · rename_i hp
    rw [answerOf, strip_leading_think, if_neg hp]

theorem answerOf_unclosed (h : thinkBody content = some body)
    (hs : search body = none) : answerOf content = content := by
  obtain ⟨hp, rfl⟩ := thinkBody_eq_some h
  have hsearch := search_of_openTag hp
  rw [hs, Option.map_none] at hsearch
  rw [answerOf, strip_leading_think, if_pos hp, hsearch]

theorem answerOf_closed (h : thinkBody content = some body) (hs : search body = some (r, rest)) :
    answerOf content = if lstrip rest = [] then content else lstrip rest := by
  obtain ⟨hp, rfl⟩ := thinkBody_eq_some h
  have hsearch := search_of_openTag hp
  rw [hs, Option.map_some] at hsearch
  rw [answerOf, strip_leading_think, if_pos hp, hsearch]

theorem feed_done_plain (hn : n.reasoning_buffer = []) (h : thinkBody content = none) :
    (feed_done n content).2 = [.done (answerOf content)] := by
  rw [answerOf_plain h]
  rw [thinkBody] at h
  split at h
  · cases h
  · rename_i hp
    rw [feed_done, strip_leading_think, if_neg hp]
    dsimp only
    rw [if_neg (fun hb => hb.1 hn)]

theorem feed_done_emitted (content : Text) (hn : n.reasoning_done_emitted = true) :
    (feed_done n content).2 = [.done (answerOf content)] := by
  have hstate : (strip_leading_think n content).1.reasoning_done_emitted = true := by
    unfold strip_leading_think
    dsimp only
    split
    · split
      · exact hn
      · split <;> exact hn
    · exact hn
  rw [← strip_leading_think_answer n content, feed_done]
  dsimp only
  rw [if_neg]
  rw [hstate]
  simp

theorem feed_done_silent (n : LeadingThinkEventNormalizer) (content : Text) :
    deltaText (feed_done n content).2 = [] ∧ reasoningText (feed_done n content).2 = [] ∧
      dones (feed_done n content).2 = [answerOf content] := by
  rw [← strip_leading_think_answer n content]
  unfold feed_done
  dsimp only
  split
  · exact ⟨rfl, rfl, rfl⟩
  · exact ⟨rfl, rfl, rfl⟩

theorem results_of_says {deltas reasoning : Text} {ends : List Text}
    (h : Says (feed_deltas {} chunks).2 deltas reasoning ends)
    (hd : (feed_done (feed_deltas {} chunks).1 chunks.flatten).2 =
      [.done (answerOf chunks.flatten)]) :
    results chunks = ⟨answerOf chunks.flatten, lstrip deltas, reasoning, ends⟩ ∧
      dones (events chunks) = [answerOf chunks.flatten] := by
  have hdones : dones (events chunks) = [answerOf chunks.flatten] := by
    rw [events, dones_append, h.dones, hd]
    rfl
  refine ⟨?_, hdones⟩
  rw [results, hdones, events, deltaText_append, reasoningText_append, reasoningDones_append,
    h.deltas, h.reasoning, h.ends, hd]
  simp [deltaText, reasoningText, reasoningDones]

theorem results_unopened (chunks : List Text) (h : Unopened chunks.flatten) :
    results chunks = ⟨chunks.flatten, [], [], []⟩ ∧
      dones (events chunks) = [chunks.flatten] := by
  have hbody := thinkBody_of_unopened h
  have hfeed : feed_deltas {} chunks = ({ pending := chunks.flatten }, []) :=
    feed_deltas_unopened (p := []) h
  have hsays : Says (feed_deltas {} chunks).2 [] [] [] := by
    rw [hfeed]
    exact says_nil
  have hres := results_of_says hsays (feed_done_plain (by rw [hfeed]) hbody)
  rw [answerOf_plain hbody] at hres
  exact hres

theorem results_plain (chunks : List Text) (hu : ¬ Unopened chunks.flatten)
    (hb : thinkBody chunks.flatten = none) :
    results chunks = ⟨chunks.flatten, lstrip chunks.flatten, [], []⟩ ∧
      dones (events chunks) = [chunks.flatten] := by
  obtain ⟨hstate, hsays⟩ := feed_deltas_plain (p := []) (unopened_of_blank rfl) hu hb
  have hres := results_of_says hsays
    (feed_done_plain (by rw [hstate]) hb)
  rw [answerOf_plain hb] at hres
  exact hres

theorem results_unclosed (hb : thinkBody chunks.flatten = some body) (hs : search body = none) :
    (results chunks).deltas = [] ∧ (results chunks).answer = chunks.flatten := by
  obtain ⟨pieces, hflat, hfeed, -⟩ := feed_deltas_opened (p := []) (unopened_of_blank rfl) hb
  rw [← hflat] at hs
  obtain ⟨-, hsays⟩ := feed_deltas_unclosed [] (searchPieces_of_search_none hs)
  have hfeed' : feed_deltas {} chunks = feed_deltas (reasoningFrom []) pieces := hfeed
  obtain ⟨hdelta, -, hdone⟩ := feed_done_silent (feed_deltas {} chunks).1 chunks.flatten
  rw [← hflat] at hb
  constructor
  · rw [results, events, deltaText_append, hdelta, hfeed', hsays.deltas]
    rfl
  · rw [results, events, dones_append, hdone, hfeed', hsays.dones, answerOf_unclosed hb hs]
    simp

theorem results_closed (chunks : List Text)
    (hb : thinkBody chunks.flatten = some body) (hs : search body = some (r, rest))
    (hu : Uncut chunks rest) :
    results chunks = ⟨answerOf chunks.flatten, lstrip rest, r, [r]⟩ ∧
      dones (events chunks) = [answerOf chunks.flatten] := by
  obtain ⟨pieces, rfl, hfeed, hcut⟩ :=
    feed_deltas_opened (p := []) (unopened_of_blank rfl) hb
  have hpieces := (hcut rest (length_flatten_of_search hs)).mp hu
  obtain ⟨y, after, hp, rfl⟩ := searchPieces_of_uncut hs hpieces
  obtain ⟨hstate, hsays⟩ := feed_deltas_closed [] hp
  have hfeed' : feed_deltas {} chunks = feed_deltas (reasoningFrom []) pieces := hfeed
  rw [← hfeed'] at hstate hsays
  have hres := results_of_says hsays (feed_done_emitted _ (by rw [hstate]; rfl))
  have hstrip : lstrip (lstrip y ++ after.flatten) = lstrip (y ++ after.flatten) := by
    by_cases hy : lstrip y = []
    · rw [lstrip_append_of_eq hy, hy, List.nil_append]
    · rw [lstrip_append_of_ne hy, lstrip_append_of_ne (by rwa [lstrip_lstrip]), lstrip_lstrip]
  rw [hstrip] at hres
  exact hres

theorem uncut_of_results
    (hb : thinkBody chunks.flatten = some body) (hs : search body = some (r, rest))
    (hr : (results chunks).reasoning = r) : Uncut chunks rest := by
  obtain ⟨pieces, rfl, hfeed, hcut⟩ :=
    feed_deltas_opened (p := []) (unopened_of_blank rfl) hb
  rw [hcut rest (length_flatten_of_search hs)]
  apply uncut_of_drained hs
  have hfeed' : feed_deltas {} chunks = feed_deltas (reasoningFrom []) pieces := hfeed
  obtain ⟨-, hdone, -⟩ := feed_done_silent (feed_deltas {} chunks).1 chunks.flatten
  rw [results, events, reasoningText_append, hdone, List.append_nil, hfeed'] at hr
  rw [← hr, drained]
  cases hp : searchPieces pieces with
  | none =>
    obtain ⟨-, hsays⟩ := feed_deltas_unclosed [] hp
    exact hsays.reasoning.symm
  | some p =>
    obtain ⟨r', y, after⟩ := p
    obtain ⟨-, hsays⟩ := feed_deltas_closed [] hp
    exact hsays.reasoning.symm

theorem reasoningOf_of_none (h : thinkBody content = none) :
    reasoningOf content = [] := by
  rw [reasoningOf, h]
  rfl

theorem reasoningOf_closed (h : thinkBody content = some body)
    (hs : search body = some (r, rest)) : reasoningOf content = r := by
  rw [reasoningOf, h, Option.bind_some, hs]

theorem flatten_singleton (content : Text) : [content].flatten = content := by simp

theorem uncut_singleton
    (h : rest.length + closeTag.length ≤ content.length) : Uncut [content] rest := by
  rw [uncut_cons (by rwa [flatten_singleton])]
  intro before after he
  obtain ⟨-, rfl⟩ := List.append_eq_nil_iff.mp he.symm
  exact .inl (Nat.zero_le _)

/-- A leading think block is separated from the answer exactly if the content does not end in
its opening tag, the block is closed and answered, and no cut goes through its closing tag. -/
theorem separated_iff (chunks : List Text) : Separated chunks ↔ Separable chunks := by
  have hone := flatten_singleton chunks.flatten
  by_cases hu : Unopened chunks.flatten
  · have hbody := thinkBody_of_unopened hu
    obtain ⟨hres, hdone⟩ := results_unopened chunks hu
    obtain ⟨hwhole, -⟩ := results_unopened [chunks.flatten] (by rwa [hone])
    rw [hone] at hwhole
    constructor
    · intro hsep
      have hd := hsep.deltas
      rw [hres] at hd
      exact ⟨fun _ => hd.symm, fun body hb => by rw [hbody] at hb; cases hb⟩
    · intro hsep
      exact ⟨by rw [hdone]; rfl, by rw [hres, hsep.opened hu],
        by rw [hres, reasoningOf_of_none hbody], by rw [hres]; exact .inl rfl,
        by rw [hres, hwhole]⟩
  cases hb : thinkBody chunks.flatten with
  | none =>
    obtain ⟨hres, hdone⟩ := results_plain chunks hu hb
    obtain ⟨hwhole, -⟩ := results_plain [chunks.flatten] (by rwa [hone])
      (by rwa [hone])
    rw [hone] at hwhole
    constructor
    · intro _
      exact ⟨fun h => absurd h hu, fun body hb' => by rw [hb] at hb'; cases hb'⟩
    · intro _
      exact ⟨by rw [hdone]; rfl, by rw [hres], by rw [hres, reasoningOf_of_none hb],
        by rw [hres]; exact .inl rfl, by rw [hres, hwhole]⟩
  | some body =>
    have hne := lstrip_ne_of_thinkBody hb
    cases hs : search body with
    | none =>
      obtain ⟨hdelta, hanswer⟩ := results_unclosed hb hs
      constructor
      · intro hsep
        have hd := hsep.deltas
        rw [hdelta, hanswer] at hd
        exact absurd hd.symm hne
      · intro hsep
        obtain ⟨r, rest, hs', -⟩ := hsep.closed body hb
        rw [hs] at hs'
        cases hs'
    | some p =>
      obtain ⟨r, rest⟩ := p
      have hreason := reasoningOf_closed hb hs
      have hanswer := answerOf_closed hb hs
      constructor
      · intro hsep
        have hcut := uncut_of_results hb hs (by rw [hsep.reasoning, hreason])
        obtain ⟨hres, -⟩ := results_closed chunks hb hs hcut
        have hd := hsep.deltas
        rw [hres] at hd
        refine ⟨fun h => absurd h hu, fun body' hb' => ?_⟩
        rw [hb] at hb'
        cases hb'
        refine ⟨r, rest, hs, ?_, hcut⟩
        intro hrest
        rw [hanswer, if_pos hrest, hrest] at hd
        exact hne hd.symm
      · intro hsep
        obtain ⟨r', rest', hs', hrest, hcut⟩ := hsep.closed body hb
        rw [hs] at hs'
        cases hs'
        obtain ⟨hres, hdone⟩ := results_closed chunks hb hs hcut
        have hlen : rest.length + closeTag.length ≤ chunks.flatten.length := by
          have hl := length_of_search hs
          have hbl := length_thinkBody_append (s := []) (t := chunks.flatten)
            (unopened_of_blank rfl) hb
          omega
        obtain ⟨hwhole, -⟩ := results_closed [chunks.flatten] (by rwa [hone]) hs
          (uncut_singleton hlen)
        rw [hone] at hwhole
        refine ⟨by rw [hdone]; rfl, ?_, by rw [hres, hreason], ?_, by rw [hres, hwhole]⟩
        · rw [hres, hanswer, if_neg hrest, lstrip_lstrip]
        · rw [hres, hreason]
          exact .inr rfl

theorem cut_closing_tag : ¬ Separated ["<think>plan</thi".toList, "nk>done".toList] := by
  intro h
  have hr := h.reasoning
  revert hr
  decide +kernel

end Agently.ResponseParser
