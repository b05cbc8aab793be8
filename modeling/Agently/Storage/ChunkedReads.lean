import Agently.Storage.RecordReads

/-! # A text read chunk by chunk

A chunk is decoded on its own, so a character that two chunks share is lost. The segments say
right where they lie and which is the last in any case. -/

namespace Agently.Storage.RecordReads

open Agently.Lib Agently.Utils Agently.Utils.Utf8 Agently.Storage.LocalRecordStore

def ends (o c stop : Nat) : List Nat :=
  if 0 < c ∧ o + c < stop then (o + c) :: ends (o + c) c stop else []
termination_by stop - o

theorem mem_ends {o c stop p : Nat} (hc : 0 < c) :
    p ∈ ends o c stop ↔ ∃ k, 0 < k ∧ p = o + k * c ∧ p < stop := by
  induction o using ends.induct c stop with
  | case1 o hmore ih =>
    rw [ends, if_pos hmore, List.mem_cons, ih]
    constructor
    · rintro (rfl | ⟨k, hk, rfl, hlt⟩)
      · exact ⟨1, Nat.one_pos, by omega, hmore.2⟩
      · refine ⟨k + 1, Nat.succ_pos k, ?_, hlt⟩
        rw [Nat.add_mul]
        omega
    · rintro ⟨k, hk, rfl, hlt⟩
      by_cases h1 : k = 1
      · subst h1
        exact Or.inl (by omega)
      · refine Or.inr ⟨k - 1, by omega, ?_, hlt⟩
        have hsplit : k * c = (k - 1) * c + c := by
          obtain ⟨j, rfl⟩ : ∃ j, k = j + 1 := ⟨k - 1, by omega⟩
          rw [Nat.add_sub_cancel, Nat.add_mul]
          omega
        omega
  | case2 o hno =>
    rw [ends, if_neg hno]
    constructor
    · intro h
      cases h
    · rintro ⟨k, hk, rfl, hlt⟩
      have hle : c ≤ k * c := Nat.le_mul_of_pos_left c hk
      omega

theorem ends_rising {o c stop : Nat} (h : o ≤ stop) :
    SelfSynchronising.Rising o (ends o c stop) stop := by
  induction o using ends.induct c stop with
  | case1 o hmore ih =>
    rw [ends, if_pos hmore]
    exact ⟨by omega, hmore.2, ih (Nat.le_of_lt hmore.2)⟩
  | case2 o hno =>
    rw [ends, if_neg hno]
    exact h

/-- No character that begins at `offset` or later is shared by two chunks. -/
def WholeCharacters (text : List Char) (offset stop chunk_size : Nat) : Prop :=
  ∀ k, 0 < k → offset + k * chunk_size < stop →
    ¬ utf8.Splits text offset (offset + k * chunk_size)

theorem joined_ends_iff (text : List Char) {o c stop : Nat} (hc : 0 < c) :
    utf8.joined text o (ends o c stop) stop = utf8.decode (utf8.slice text o stop) ↔
      WholeCharacters text o stop c := by
  rcases Nat.lt_or_ge stop o with h | h
  · rw [ends, if_neg (by omega)]
    constructor
    · intro _ k hk hlt
      omega
    · intro _
      rfl
  · rw [utf8.joined_eq_iff text (ends_rising h)]
    constructor
    · intro hall k hk hlt
      exact hall (o + k * c) ((mem_ends hc).mpr ⟨k, hk, rfl, hlt⟩)
    · intro hall p hp
      obtain ⟨k, hk, rfl, hlt⟩ := (mem_ends hc).mp hp
      exact hall k hk hlt

def contents (segments : List RecordContentSegment) : List Char :=
  segments.flatMap fun segment => segment.content.toList

def Contiguous : Int → List RecordContentSegment → Prop
  | _, [] => True
  | o, segment :: rest => segment.offset = o ∧ Contiguous (o + segment.size) rest

def OnlyLastEof (segments : List RecordContentSegment) : Prop :=
  ∃ before last, segments = before ++ [last] ∧ last.eof = true ∧
    ∀ segment ∈ before, segment.eof = false

theorem OnlyLastEof.cons {segment : RecordContentSegment} {rest : List RecordContentSegment}
    (hs : segment.eof = false) (h : OnlyLastEof rest) : OnlyLastEof (segment :: rest) := by
  obtain ⟨before, last, rfl, hl, hb⟩ := h
  refine ⟨segment :: before, last, rfl, hl, ?_⟩
  intro t ht
  rcases List.mem_cons.mp ht with rfl | ht
  · exact hs
  · exact hb t ht

variable (h : Host)

section Reading

variable {s : Store} {ref : RefOrId} {text : String} {env : RecordReference}

def segmentAt (text : String) (env : RecordReference) (o stop : Nat) : RecordContentSegment :=
  { ref := env
    content := String.ofList (utf8.decode (utf8.slice text.toList o stop))
    offset := o
    size := min stop (encode text.toList).length - o
    total_size := (encode text.toList).length
    eof := decide ((encode text.toList).length ≤ stop)
    digest := h.sha256 (encode text.toList)
    content_type := "text/plain" }

def stopOf (text : String) (offset : Nat) : Option Nat → Nat
  | none => (encode text.toList).length
  | some limit => min (encode text.toList).length (offset + limit)

def asLimit (limit : Option Nat) : Option Int := limit.map fun n : Nat => (n : Int)

theorem readEnd_toNat (total offset : Nat) (limit : Option Nat) :
    (readEnd total offset (asLimit limit)).toNat =
      limit.elim total fun n => min total (offset + n) := by
  cases limit with
  | none => rfl
  | some n =>
    simp only [asLimit, Option.map_some, readEnd, Option.elim]
    omega

theorem read_bounded_eq (ht : get h s ref = .ok text) (he : ref_envelope s ref = .ok env)
    (offset : Nat) (limit : Option Nat) :
    read_bounded h s ref offset (asLimit limit) =
      .ok (segmentAt h text env offset (stopOf text offset limit)) := by
  have hstop : (readEnd (encode text.toList).length offset (asLimit limit)).toNat =
      stopOf text offset limit := by
    rw [readEnd_toNat]
    cases limit <;> rfl
  have hnat : readEnd (encode text.toList).length offset (asLimit limit) =
      (stopOf text offset limit : Int) := by
    rw [← hstop]
    cases limit with
    | none => rfl
    | some n =>
      simp only [asLimit, Option.map_some, readEnd]
      omega
  have hlimit : ¬ ((offset : Int) < 0 ∨ ((asLimit limit).any fun n => decide (n < 0)) = true) := by
    cases limit with
    | none => simp [asLimit]
    | some n => simp [asLimit]
  unfold read_bounded
  rw [if_neg hlimit, ht]
  simp only [he]
  refine congrArg Except.ok ?_
  unfold segmentAt
  rw [RecordContentSegment.mk.injEq, hstop, hnat]
  refine ⟨rfl, rfl, rfl, ?_, rfl, ?_, rfl, rfl⟩
  · simp only [List.length_drop, List.length_take, Int.toNat_natCast]
  · simp only [Int.ofNat_le]

variable (offset : Nat) (limit : Option Nat) (chunk_size : Nat)

structure Streams (text : String) (o stop : Nat) (limit : Option Nat) (chunk_size : Nat)
    (result : List RecordContentSegment × Option StoreError) : Prop where
  ended : result.2 = none
  joined : contents result.1 = utf8.joined text.toList o (ends o chunk_size stop) stop
  contiguous : Contiguous o result.1
  last : limit = none → OnlyLastEof result.1

def currentLimit (limit : Option Nat) (chunk_size consumed : Nat) : Nat :=
  limit.elim chunk_size fun n => min chunk_size (n - consumed)

theorem generate_done {n consumed : Nat} (hn : n ≤ consumed) :
    generate h s ref offset (asLimit (some n)) chunk_size consumed = ([], none) := by
  rw [generate.eq_def, if_pos (by simp [asLimit, hn])]

theorem generate_next (ht : get h s ref = .ok text) (he : ref_envelope s ref = .ok env)
    {consumed : Nat} (hmore : ∀ n, limit = some n → consumed < n)
    {segment : RecordContentSegment}
    (hseg : segment = segmentAt h text env (offset + consumed)
      (stopOf text (offset + consumed) (some (currentLimit limit chunk_size consumed)))) :
    generate h s ref offset (asLimit limit) chunk_size consumed =
      if segment.eof = true ∨ segment.size = 0 then ([segment], none)
      else
        (segment :: (generate h s ref offset (asLimit limit) chunk_size
            (consumed + segment.size)).1,
          (generate h s ref offset (asLimit limit) chunk_size (consumed + segment.size)).2) := by
  have hnot : ¬ ((asLimit limit).any fun n => decide (n ≤ (consumed : Int))) = true := by
    cases hl : limit with
    | none => simp [asLimit]
    | some n =>
      have hlt := hmore n hl
      simp only [asLimit, Option.map_some, Option.any_some, decide_eq_true_eq]
      omega
  have hcur : current_limit (asLimit limit) chunk_size consumed =
      ((currentLimit limit chunk_size consumed : Nat) : Int) := by
    cases hl : limit with
    | none => rfl
    | some n =>
      have hlt := hmore n hl
      simp only [asLimit, Option.map_some, currentLimit, Option.elim, current_limit]
      omega
  have hat : ((offset : Int) + (consumed : Int)) = ((offset + consumed : Nat) : Int) := by omega
  have hread : read_bounded h s ref ((offset : Int) + (consumed : Int))
      (some (current_limit (asLimit limit) chunk_size consumed)) = .ok segment := by
    rw [hcur, hat, hseg]
    exact read_bounded_eq h ht he (offset + consumed)
      (some (currentLimit limit chunk_size consumed))
  rw [generate.eq_def, if_neg hnot]
  split
  · next e hr =>
    rw [hread] at hr
    cases hr
  · next found hr =>
    rw [hread] at hr
    injection hr with hr
    subst hr
    by_cases hend : segment.eof = true ∨ segment.size = 0
    · rw [dif_pos hend, if_pos hend]
    · rw [dif_neg hend, if_neg hend]

theorem contents_cons (segment : RecordContentSegment) (rest : List RecordContentSegment) :
    contents (segment :: rest) = segment.content.toList ++ contents rest := by
  simp [contents]

theorem stopOf_le (text : String) (offset : Nat) (limit : Option Nat) :
    stopOf text offset limit ≤ (encode text.toList).length := by
  cases limit with
  | none => exact Nat.le_refl _
  | some n => exact Nat.min_le_left _ _

theorem stopOf_currentLimit {consumed : Nat} (hmore : ∀ n, limit = some n → consumed < n) :
    stopOf text (offset + consumed) (some (currentLimit limit chunk_size consumed)) =
      min (offset + consumed + chunk_size) (stopOf text offset limit) := by
  cases hl : limit with
  | none =>
    simp only [stopOf, currentLimit, Option.elim]
    omega
  | some n =>
    have hlt := hmore n hl
    simp only [stopOf, currentLimit, Option.elim]
    omega

theorem joined_of_le {text : List Char} {o c stop : Nat} (h : stop ≤ o) :
    utf8.joined text o (ends o c stop) stop = [] := by
  rw [ends, if_neg (by omega)]
  have hempty : utf8.slice text o stop = [] := by
    unfold SelfSynchronising.slice
    apply List.drop_eq_nil_of_le
    rw [List.length_take]
    omega
  rw [SelfSynchronising.joined, hempty, utf8.decode_nil]

theorem contents_segmentAt (text : String) (env : RecordReference) (o stop : Nat) :
    (segmentAt h text env o stop).content.toList =
      utf8.decode (utf8.slice text.toList o stop) := by
  unfold segmentAt
  rw [String.toList_ofList]

theorem generate_streams (ht : get h s ref = .ok text) (he : ref_envelope s ref = .ok env)
    (hc : 0 < chunk_size) (m : Nat) : ∀ consumed,
    (encode text.toList).length - (offset + consumed) < m →
    (∀ n, limit = some n → consumed ≤ n) →
      Streams text (offset + consumed) (stopOf text offset limit) limit chunk_size
        (generate h s ref offset (asLimit limit) chunk_size consumed) := by
  induction m with
  | zero =>
    intro consumed hm
    omega
  | succ m ih =>
    intro consumed hm hle
    by_cases hdone : ∃ n, limit = some n ∧ n ≤ consumed
    · obtain ⟨n, rfl, hn⟩ := hdone
      have hcn := hle n rfl
      rw [generate_done h offset chunk_size hn]
      refine ⟨rfl, ?_, trivial, ?_⟩
      · rw [joined_of_le (by simp only [stopOf]; omega)]
        rfl
      · intro hnone
        cases hnone
    · have hmore : ∀ n, limit = some n → consumed < n := by
        intro n hn
        by_contra hno
        exact hdone ⟨n, hn, by omega⟩
      have hlen := stopOf_le text offset limit
      have hnext := generate_next h offset limit chunk_size ht he hmore rfl
      rw [stopOf_currentLimit offset limit chunk_size hmore] at hnext
      rw [hnext]
      by_cases hmid : offset + consumed + chunk_size < stopOf text offset limit
      · -- a whole chunk, and more to read
        rw [Nat.min_eq_left (Nat.le_of_lt hmid)]
        have hsize : (segmentAt h text env (offset + consumed)
            (offset + consumed + chunk_size)).size = chunk_size := by
          simp only [segmentAt]
          omega
        have heof : (segmentAt h text env (offset + consumed)
            (offset + consumed + chunk_size)).eof = false := by
          simp only [segmentAt, decide_eq_false_iff_not]
          omega
        have hlimit : ∀ n, limit = some n → consumed + chunk_size ≤ n := by
          intro n hn
          subst hn
          simp only [stopOf] at hmid
          omega
        have hrest := ih (consumed + chunk_size) (by omega) hlimit
        rw [← Nat.add_assoc] at hrest
        rw [if_neg (by rw [heof, hsize]; simp; omega), hsize]
        refine ⟨hrest.ended, ?_, ⟨rfl, ?_⟩, ?_⟩
        · rw [contents_cons, contents_segmentAt, hrest.joined]
          conv => rhs; rw [ends, if_pos ⟨hc, hmid⟩]
          rfl
        · rw [hsize]
          exact hrest.contiguous
        · intro hnone
          exact (hrest.last hnone).cons heof
      · -- the read ends with this chunk
        rw [Nat.min_eq_right (by omega)]
        have hjoined : contents [segmentAt h text env (offset + consumed)
            (stopOf text offset limit)] =
            utf8.joined text.toList (offset + consumed)
              (ends (offset + consumed) chunk_size (stopOf text offset limit))
              (stopOf text offset limit) := by
          rw [contents_cons, contents_segmentAt, ends, if_neg (by omega)]
          simp [contents, SelfSynchronising.joined]
        by_cases hend : (encode text.toList).length ≤ stopOf text offset limit
        · have heof : (segmentAt h text env (offset + consumed)
              (stopOf text offset limit)).eof = true := by
            simp only [segmentAt, decide_eq_true_eq]
            exact hend
          rw [if_pos (Or.inl heof)]
          exact ⟨rfl, hjoined, ⟨rfl, trivial⟩,
            fun _ => ⟨[], _, rfl, heof, fun t ht => absurd ht List.not_mem_nil⟩⟩
        · -- the limit is reached before the end of the text
          obtain ⟨n, hn⟩ : ∃ n, limit = some n := by
            cases hl : limit with
            | none =>
              rw [hl] at hend
              exact absurd (Nat.le_refl _) hend
            | some n => exact ⟨n, rfl⟩
          have hlt := hmore n hn
          subst hn
          have hstop : stopOf text offset (some n) = offset + n := by
            simp only [stopOf] at hend ⊢
            omega
          have hsize : (segmentAt h text env (offset + consumed)
              (stopOf text offset (some n))).size = n - consumed := by
            simp only [segmentAt]
            omega
          have heof : (segmentAt h text env (offset + consumed)
              (stopOf text offset (some n))).eof = false := by
            simp only [segmentAt, decide_eq_false_iff_not]
            omega
          rw [if_neg (by rw [heof, hsize]; simp; omega), hsize,
            generate_done h offset chunk_size (by omega)]
          refine ⟨rfl, hjoined, ⟨rfl, trivial⟩, ?_⟩
          intro hnone
          cases hnone

end Reading

/-- The stream joins to what one read gives, and to the record's text when all of it is read;
the segments follow each other, and the last of a full read, and no other, is marked so. -/
def Reassembles (s : Store) (ref : RefOrId) (offset : Int) (limit : Option Int)
    (chunk_size : Int) : Prop :=
  ∃ whole segments, read_bounded h s ref offset limit = .ok whole ∧
    stream_read h s ref offset limit chunk_size = .ok (segments, none) ∧
    contents segments = whole.content.toList ∧
    (offset = 0 → limit = none →
      ∃ text, get h s ref = .ok text ∧ contents segments = text.toList) ∧
    Contiguous offset segments ∧ (limit = none → OnlyLastEof segments)

section Claims

variable {s : Store} {ref : RefOrId} {text : String} {env : RecordReference}

theorem slice_all (text : List Char) : utf8.slice text 0 (encode text).length = encode text := by
  unfold SelfSynchronising.slice
  rw [List.drop_zero]
  exact List.take_length

theorem reassembles_iff (ht : get h s ref = .ok text) (he : ref_envelope s ref = .ok env)
    (offset : Nat) (limit : Option Nat) {chunk_size : Nat} (hc : 0 < chunk_size) :
    Reassembles h s ref offset (asLimit limit) chunk_size ↔
      WholeCharacters text.toList offset (stopOf text offset limit) chunk_size := by
  have hread := read_bounded_eq h ht he offset limit
  have hstreams := generate_streams h offset limit chunk_size ht he hc _ 0 (Nat.lt_succ_self _)
    (fun n _ => Nat.zero_le n)
  have hstream : stream_read h s ref offset (asLimit limit) chunk_size =
      .ok (generate h s ref offset (asLimit limit) chunk_size 0) := by
    unfold stream_read
    rw [if_neg (by omega)]
  rw [Nat.add_zero] at hstreams
  generalize generate h s ref offset (asLimit limit) chunk_size 0 = result at hstreams hstream
  obtain ⟨segments, ended⟩ := result
  have hended : ended = none := hstreams.ended
  subst hended
  rw [← joined_ends_iff text.toList hc, ← hstreams.joined]
  constructor
  · rintro ⟨whole, segments', hw, hs, hjoin, -⟩
    rw [hread] at hw
    injection hw with hw
    rw [hstream] at hs
    injection hs with hs
    injection hs with hs
    rw [← hs, ← hw, contents_segmentAt] at hjoin
    exact hjoin
  · intro hjoin
    refine ⟨_, segments, hread, hstream, ?_, ?_, hstreams.contiguous, ?_⟩
    · rw [contents_segmentAt]
      exact hjoin
    · intro h0 hnone
      have hoff : offset = 0 := by omega
      have hlim : limit = none := by
        cases limit with
        | none => rfl
        | some n => cases hnone
      subst hoff hlim
      refine ⟨text, ht, ?_⟩
      rw [hjoin, stopOf, slice_all]
      exact utf8.decode_text text.toList
    · intro hnone
      apply hstreams.last
      cases limit with
      | none => rfl
      | some n => cases hnone

/-- Whenever the slice can be read in one piece, the stream reassembles it exactly if no
character that begins in the slice is shared by two chunks. -/
theorem stream_reassembles {offset : Int} {limit : Option Int} {chunk_size : Int}
    {whole : RecordContentSegment} (hc : 0 < chunk_size)
    (hw : read_bounded h s ref offset limit = .ok whole) :
    ∃ text, get h s ref = .ok text ∧
      (Reassembles h s ref offset limit chunk_size ↔
        WholeCharacters text.toList offset.toNat
          (readEnd (encode text.toList).length offset limit).toNat chunk_size.toNat) := by
  have hwhole := hw
  unfold read_bounded at hw
  split at hw
  · cases hw
  · next hneg =>
    rw [not_or] at hneg
    cases ht : get h s ref with
    | error e =>
      rw [ht] at hw
      cases hw
    | ok text =>
      refine ⟨text, rfl, ?_⟩
      rw [ht] at hw
      cases he : ref_envelope s ref with
      | error e =>
        simp only [he] at hw
        cases hw
      | ok env =>
        obtain ⟨o, rfl⟩ := Int.eq_ofNat_of_zero_le (by omega : 0 ≤ offset)
        obtain ⟨c, rfl⟩ := Int.eq_ofNat_of_zero_le (Int.le_of_lt hc)
        obtain ⟨l, rfl⟩ : ∃ l : Option Nat, limit = asLimit l := by
          cases hl : limit with
          | none => exact ⟨none, rfl⟩
          | some n =>
            rw [hl] at hneg
            have hn : 0 ≤ n := by
              have hno := hneg.2
              simp only [Option.any_some, decide_eq_true_eq] at hno
              omega
            obtain ⟨m, rfl⟩ := Int.eq_ofNat_of_zero_le hn
            exact ⟨some m, rfl⟩
        have hstop : (readEnd (encode text.toList).length (o : Int) (asLimit l)).toNat =
            stopOf text o l := by
          rw [readEnd_toNat]
          cases l <;> rfl
        rw [hstop, Int.toNat_natCast, Int.toNat_natCast]
        exact reassembles_iff h ht he o l (by omega)

end Claims

def plainHost : Host :=
  { b64encode := fun _ => ""
    b64decode := fun _ => []
    json_loads := fun _ => none
    json_dumps := fun _ => ""
    json_compact := fun _ => ""
    sha256 := fun _ => "" }

def accented : RecordRow :=
  { id := "r", collection := "notes", kind := none, sha256 := none, size := 2, created_at := "",
    policy_labels := [], content := "é", content_format := "text" }

def oneRecord : Store := { record_store_id := "s", records := [accented] }

theorem get_accented : get plainHost oneRecord (.id "r") = .ok "é" := by
  rfl

theorem envelope_accented :
    ref_envelope oneRecord (.id "r") = .ok (envelope oneRecord accented.toRecordRef) := by
  rfl

theorem accented_not_reassembled : ¬ Reassembles plainHost oneRecord (.id "r") 0 none 1 := by
  intro hr
  have hwhole := (reassembles_iff plainHost get_accented envelope_accented 0 none Nat.one_pos).mp hr
  have htext : "é".toList = ['é'] := by decide
  have hlen : (encode ['é']).length = 2 := by decide
  unfold WholeCharacters stopOf at hwhole
  rw [htext, hlen] at hwhole
  refine hwhole 1 Nat.one_pos (by decide) ⟨[], 'é', [], rfl, ?_, ?_, ?_⟩
  · exact Nat.le_refl 0
  · exact Nat.one_pos
  · exact Nat.lt_of_lt_of_eq (by decide : 0 + 1 * 1 < 0 + 2) rfl

theorem stream_reassembles_accented : Reassembles plainHost oneRecord (.id "r") 0 none 2 := by
  obtain ⟨text, ht, hiff⟩ := stream_reassembles plainHost (by decide : (0 : Int) < 2)
    (read_bounded_eq plainHost get_accented envelope_accented 0 none)
  rw [get_accented] at ht
  injection ht with ht
  refine hiff.mpr ?_
  intro k hk hlt
  have htext : "é".toList = ['é'] := by decide
  have hlen : (encode ['é']).length = 2 := by decide
  rw [← ht, htext, hlen] at hlt
  change 0 + k * 2 < 2 at hlt
  omega

end Agently.Storage.RecordReads
