import Agently.Utils.Utf8

/-! # Windowed reads of a text file

Source: `TaskWorkspace/TaskWorkspace.py` (`read_file`) and `FileIO.py` (`_slice_text_bytes`,
`DefaultTextTaskWorkspaceFileIOHandler.read`). -/

namespace Agently.TaskWorkspace.FileIO

open Agently.Lib Agently.Utils Agently.Utils.Utf8

def bom : List Byte := [byte 0xEF, byte 0xBB, byte 0xBF]

inductive Encoding where
  | utf8
  | utf8_sig
deriving DecidableEq

/-- `str.encode`; the signature is written in front of every text. -/
def Encoding.encode : Encoding → List Char → List Byte
  | .utf8, text => Utf8.encode text
  | .utf8_sig, text => bom ++ Utf8.encode text

/-- `raw.decode("utf-8-sig")`, which fails on what is not the encoding of a text. -/
def decode_sig (raw : List Byte) : Option (List Char) :=
  let body := if bom.isPrefixOf raw then raw.drop 3 else raw
  if Utf8.encode (decode body) = body then some (decode body) else none

def slice_text_bytes (text : List Char) (max_bytes offset : Int) : List Char × Nat × Bool :=
  let raw := Utf8.encode text
  let safe_offset := (max 0 offset).toNat
  let stop := safe_offset + (max 0 max_bytes).toNat
  let segment := (raw.take stop).drop safe_offset
  (decodeIgnore segment, segment.length, decide (stop < raw.length))

structure TaskWorkspaceReadResult where
  readable : Bool
  content : List Char
  truncated : Bool
  bytes : Nat
  offset : Nat
  read_bytes : Nat
  encoding : Option Encoding

/-- `DefaultTextTaskWorkspaceFileIOHandler.read`; `total` is the size the file was inspected
with. -/
def handler_read (raw : List Byte) (max_bytes offset : Int) : TaskWorkspaceReadResult :=
  match decode_sig raw with
  | none =>
    { readable := false
      content := []
      truncated := false
      bytes := raw.length
      offset := 0
      read_bytes := 0
      encoding := none }
  | some text =>
    let window := slice_text_bytes text max_bytes offset
    { readable := true
      content := window.1
      truncated := window.2.2
      bytes := raw.length
      offset := (max 0 offset).toNat
      read_bytes := window.2.1
      encoding := some (if bom.isPrefixOf raw then .utf8_sig else .utf8) }

structure TaskWorkspaceFileRead where
  content : List Char
  data : List Byte
  total_bytes : Nat
  offset : Nat
  truncated : Bool
  readable : Bool
  encoding : Option Encoding

def TaskWorkspaceFileRead.read_bytes (r : TaskWorkspaceFileRead) : Nat := r.data.length

inductive FileError where
  | valueError (message : String)
  | fileNotFound (message : String)

def read_file (file : Option (List Byte)) (path : String) (max_bytes offset : Int) :
    Except FileError TaskWorkspaceFileRead :=
  if max_bytes ≤ 0 then .error (.valueError "max_bytes must be positive.")
  else if offset < 0 then .error (.valueError "offset cannot be negative.")
  else
    match file with
    | none => .error (.fileNotFound ("TaskWorkspace file not found: " ++ path))
    | some raw =>
      let result := handler_read raw max_bytes offset
      .ok
        { content := result.content
          data := (result.encoding.getD .utf8).encode result.content
          total_bytes := if result.bytes = 0 then raw.length else result.bytes
          offset := if result.offset = 0 then offset.toNat else result.offset
          truncated := result.truncated
          readable := result.readable
          encoding := result.encoding }

/-- The characters that lie in the first `n` bytes of a text as a whole. -/
def whole : List Char → Nat → List Char
  | [], _ => []
  | c :: cs, n =>
    if (encodeChar c).length ≤ n then c :: whole cs (n - (encodeChar c).length) else []

theorem encode_cons (c : Char) (cs : List Char) :
    Utf8.encode (c :: cs) = encodeChar c ++ Utf8.encode cs := rfl

theorem encode_append (cs ds : List Char) :
    Utf8.encode (cs ++ ds) = Utf8.encode cs ++ Utf8.encode ds := List.flatMap_append

theorem decodeIgnore_encodeChar (c : Char) (rest : List Byte) :
    decodeIgnore (encodeChar c ++ rest) = c :: decodeIgnore rest :=
  (decodeMarking_encodeChar c).1 rest

theorem decodeIgnore_trailing {bs : List Byte} (h : ∀ b ∈ bs, Trails b) (rest : List Byte) :
    decodeIgnore (bs ++ rest) = decodeIgnore rest := by
  induction bs with
  | nil => rfl
  | cons b bs ih =>
    have hb := h b List.mem_cons_self
    have hlead : lead b.val = none := by
      unfold Trails at hb
      unfold lead
      rw [if_neg (by omega), if_pos (by omega)]
    have hs : stepMarking [] none b = ([], none) := by simp only [stepMarking, hlead]
    rw [List.cons_append, decodeIgnore, decodeMarking, hs]
    exact ih fun c hc => h c (List.mem_cons_of_mem b hc)

theorem decodeIgnore_take (cs : List Char) (n : Nat) :
    decodeIgnore ((Utf8.encode cs).take n) = whole cs n := by
  induction cs generalizing n with
  | nil =>
    rw [show Utf8.encode [] = [] from rfl, List.take_nil]
    rfl
  | cons c cs ih =>
    rw [encode_cons, whole]
    by_cases hc : (encodeChar c).length ≤ n
    · rw [if_pos hc, List.take_append, List.take_of_length_le hc, decodeIgnore_encodeChar, ih]
    · rw [if_neg hc, List.take_append_of_le_length (by omega)]
      by_cases h0 : n = 0
      · rw [h0, List.take_zero]
        rfl
      · obtain ⟨q, hq⟩ := (decodeMarking_encodeChar c (m := [])).2 n (by omega) (by omega)
        exact hq

theorem decodeIgnore_slice (cs : List Char) (o n : Nat) : ∃ ds j,
    decodeIgnore (((Utf8.encode cs).drop o).take n) = whole ds (n - j) := by
  induction cs generalizing o with
  | nil => exact ⟨[], 0, by rw [show Utf8.encode [] = [] from rfl, List.drop_nil, List.take_nil]; rfl⟩
  | cons c cs ih =>
    rcases Nat.eq_zero_or_pos o with rfl | ho
    · exact ⟨c :: cs, 0, decodeIgnore_take _ n⟩
    · rw [encode_cons, List.drop_append]
      rcases Nat.lt_or_ge o (encodeChar c).length with hlt | hge
      · refine ⟨cs, (encodeChar c).length - o, ?_⟩
        have ht : ∀ b ∈ ((encodeChar c).drop o).take n, Trails b := fun b hb =>
          utf8.trails_of_mem_drop ho (List.mem_of_mem_take hb)
        rw [List.take_append, decodeIgnore_trailing ht, List.length_drop,
          Nat.sub_eq_zero_of_le (Nat.le_of_lt hlt), List.drop_zero]
        exact decodeIgnore_take cs _
      · rw [List.drop_eq_nil_of_le hge, List.nil_append]
        exact ih _

theorem length_encode_whole (cs : List Char) (n : Nat) :
    (Utf8.encode (whole cs n)).length ≤ n := by
  induction cs generalizing n with
  | nil => exact Nat.zero_le n
  | cons c cs ih =>
    rw [whole]
    split
    · have := ih (n - (encodeChar c).length)
      rw [encode_cons, List.length_append]
      omega
    · exact Nat.zero_le n

theorem whole_spec (cs : List Char) (n : Nat) : ∃ rest, cs = whole cs n ++ rest ∧
    ((Utf8.encode cs).length ≤ n → rest = []) ∧
      ∀ c, rest.head? = some c → n < (Utf8.encode (whole cs n)).length + (encodeChar c).length := by
  induction cs generalizing n with
  | nil => exact ⟨[], rfl, fun _ => rfl, fun c hc => by cases hc⟩
  | cons c cs ih =>
    rw [whole, encode_cons, List.length_append]
    by_cases hc : (encodeChar c).length ≤ n
    · rw [if_pos hc]
      obtain ⟨rest, hcs, hall, hnext⟩ := ih (n - (encodeChar c).length)
      refine ⟨rest, congrArg (c :: ·) hcs, fun hle => hall (by omega), ?_⟩
      intro d hd
      have := hnext d hd
      rw [encode_cons, List.length_append]
      omega
    · rw [if_neg hc]
      refine ⟨c :: cs, rfl, fun hle => by omega, ?_⟩
      intro d hd
      cases hd
      simpa [Utf8.encode] using hc

/-- The windows that are read from an offset on, each at the offset the last one has led to. -/
inductive Windows (file : Option (List Byte)) (path : String) (max_bytes : Int) :
    Nat → List TaskWorkspaceFileRead → Prop where
  | last (o : Nat) (w : TaskWorkspaceFileRead) (h : read_file file path max_bytes o = .ok w)
      (ht : w.truncated = false) : Windows file path max_bytes o [w]
  | more (o : Nat) (w : TaskWorkspaceFileRead) (ws : List TaskWorkspaceFileRead)
      (h : read_file file path max_bytes o = .ok w) (ht : w.truncated = true)
      (hs : Windows file path max_bytes (o + w.read_bytes) ws) :
      Windows file path max_bytes o (w :: ws)

def contents (ws : List TaskWorkspaceFileRead) : List Char := ws.flatMap fun w => w.content

section Reads

variable {raw : List Byte} {text : List Char} (path : String) {n : Nat}

theorem read_file_eq (ht : decode_sig raw = some text) (hn : 0 < n) (o : Nat) :
    ∃ w, read_file (some raw) path n o = .ok w ∧
      w.content = decodeIgnore (((Utf8.encode text).drop o).take n) ∧
      w.truncated = decide (o + n < (Utf8.encode text).length) ∧
      w.read_bytes = (Utf8.encode w.content).length + if bom.isPrefixOf raw then 3 else 0 := by
  have hnat : ∀ m : Nat, (max 0 (m : Int)).toNat = m := fun m => by omega
  unfold read_file
  rw [if_neg (by omega), if_neg (by omega)]
  refine ⟨_, rfl, ?_⟩
  simp only [handler_read, ht, slice_text_bytes, hnat, Option.getD_some,
    TaskWorkspaceFileRead.read_bytes]
  rw [List.drop_take, Nat.add_sub_cancel_left]
  refine ⟨rfl, trivial, ?_⟩
  cases bom.isPrefixOf raw
  · rfl
  · exact (List.length_append ..).trans (Nat.add_comm _ _)

theorem windows_last (ht : decode_sig raw = some text) (hn : 0 < n) {o : Nat}
    (hle : (Utf8.encode text).length ≤ o + n) : ∃ w, Windows (some raw) path n o [w] ∧
      w.content = decodeIgnore (((Utf8.encode text).drop o).take n) := by
  obtain ⟨w, hw, hc, htr, -⟩ := read_file_eq path ht hn o
  exact ⟨w, .last o w hw (by rw [htr]; simpa using hle), hc⟩

theorem contents_cons (w : TaskWorkspaceFileRead) (ws : List TaskWorkspaceFileRead) :
    contents (w :: ws) = w.content ++ contents ws := by
  simp [contents]

theorem windows_sig (ht : decode_sig raw = some text) (hb : bom.isPrefixOf raw = true)
    (hn : 0 < n) {o : Nat} {ws : List TaskWorkspaceFileRead} (h : Windows (some raw) path n o ws) :
    (Utf8.encode (contents ws)).length + o ≤ max (Utf8.encode text).length o ∧
      (o + n < (Utf8.encode text).length →
        (Utf8.encode (contents ws)).length + o < (Utf8.encode text).length) := by
  have hshort : ∀ o n, (Utf8.encode (decodeIgnore (((Utf8.encode text).drop o).take n))).length ≤
      min n ((Utf8.encode text).length - o) := by
    intro o n
    have hmin : ((Utf8.encode text).drop o).take n =
        ((Utf8.encode text).drop o).take (min n ((Utf8.encode text).length - o)) := by
      rw [← List.length_drop, ← List.take_eq_take_min]
    obtain ⟨ds, j, hd⟩ := decodeIgnore_slice text o (min n ((Utf8.encode text).length - o))
    rw [hmin, hd]
    have := length_encode_whole ds (min n ((Utf8.encode text).length - o) - j)
    omega
  induction h with
  | last o w hw htr =>
    obtain ⟨w', hw', hc, htr', -⟩ := read_file_eq path ht hn o
    rw [hw] at hw'
    cases hw'
    rw [htr, eq_comm, decide_eq_false_iff_not] at htr'
    have := hshort o n
    rw [contents_cons, hc, show contents [] = [] from rfl, List.append_nil]
    omega
  | more o w ws hw htr hs ih =>
    obtain ⟨w', hw', hc, htr', hread⟩ := read_file_eq path ht hn o
    rw [hw] at hw'
    cases hw'
    rw [htr, eq_comm, decide_eq_true_eq] at htr'
    rw [if_pos hb] at hread
    have := hshort o n
    rw [← hc] at this
    rw [contents_cons, encode_append, List.length_append]
    omega

theorem window_at (ht : decode_sig raw = some text) (hb : bom.isPrefixOf raw = false)
    (hn : 0 < n) {before after : List Char} (htext : text = before ++ after) :
    ∃ w, read_file (some raw) path n (Utf8.encode before).length = .ok w ∧
      w.content = whole after n ∧ w.truncated = decide (n < (Utf8.encode after).length) ∧
      (Utf8.encode before).length + w.read_bytes =
        (Utf8.encode (before ++ whole after n)).length := by
  obtain ⟨w, hw, hc, htr, hread⟩ := read_file_eq path ht hn (Utf8.encode before).length
  rw [htext, encode_append, List.drop_left, decodeIgnore_take] at hc
  rw [htext, encode_append, List.length_append] at htr
  refine ⟨w, hw, hc, ?_, ?_⟩
  · rw [htr]
    exact decide_eq_decide.mpr (by omega)
  · rw [hread, hb, hc, encode_append, List.length_append]
    rfl

theorem windows_of_fit (ht : decode_sig raw = some text) (hb : bom.isPrefixOf raw = false)
    (hn : 0 < n) (k : Nat) : ∀ before after, after.length < k → text = before ++ after →
      (∀ c ∈ after, (encodeChar c).length ≤ n) →
        ∃ ws, Windows (some raw) path n (Utf8.encode before).length ws ∧ contents ws = after := by
  induction k with
  | zero => exact fun before after hk => absurd hk (Nat.not_lt_zero _)
  | succ k ih =>
    intro before after hk htext hfit
    obtain ⟨w, hw, hc, htr, hread⟩ := window_at path ht hb hn htext
    obtain ⟨rest, hsplit, hall, hnext⟩ := whole_spec after n
    by_cases hmore : n < (Utf8.encode after).length
    · have hpos : rest.length < after.length := by
        cases hwhole : whole after n with
        | nil =>
          rw [hwhole, List.nil_append] at hsplit
          cases hafter : after with
          | nil =>
            rw [hafter] at hmore
            exact absurd hmore (Nat.not_lt_zero n)
          | cons c cs =>
            have hlong := hnext c (by rw [← hsplit, hafter]; rfl)
            have hle := hfit c (by rw [hafter]; exact List.mem_cons_self)
            rw [hwhole] at hlong
            simp only [Utf8.encode, List.flatMap_nil, List.length_nil, Nat.zero_add] at hlong
            omega
        | cons c cs =>
          have hl := congrArg List.length hsplit
          rw [hwhole, List.length_append, List.length_cons] at hl
          omega
      obtain ⟨ws, hws, hcontents⟩ := ih (before ++ whole after n) rest (by omega)
        (by rw [htext, List.append_assoc, ← hsplit])
        (fun c hmem => hfit c (by rw [hsplit]; exact List.mem_append_right _ hmem))
      rw [← hread] at hws
      refine ⟨w :: ws, .more _ w ws hw (by rw [htr]; exact decide_eq_true hmore) hws, ?_⟩
      rw [contents_cons, hc, hcontents, ← hsplit]
    · refine ⟨[w], .last _ w hw (by rw [htr]; exact decide_eq_false hmore), ?_⟩
      have hrest := hall (by omega)
      rw [hrest, List.append_nil] at hsplit
      rw [contents_cons, hc, ← hsplit]
      exact List.append_nil after

theorem fit_of_windows (ht : decode_sig raw = some text) (hb : bom.isPrefixOf raw = false)
    (hn : 0 < n) {o : Nat} {ws : List TaskWorkspaceFileRead} (h : Windows (some raw) path n o ws) :
    ∀ before after, text = before ++ after → o = (Utf8.encode before).length →
      ∀ c ∈ after, (encodeChar c).length ≤ n := by
  have hlength : ∀ (cs : List Char) (c : Char), c ∈ cs →
      (encodeChar c).length ≤ (Utf8.encode cs).length := by
    intro cs c hc
    obtain ⟨xs, ys, rfl⟩ := List.append_of_mem hc
    rw [encode_append, encode_cons, List.length_append, List.length_append]
    omega
  induction h with
  | last o w hw htr =>
    intro before after htext ho c hc
    obtain ⟨w', hw', -, htr', -⟩ := window_at path ht hb hn htext
    rw [← ho, hw] at hw'
    cases hw'
    rw [htr, eq_comm, decide_eq_false_iff_not] at htr'
    have := hlength after c hc
    omega
  | more o w ws hw htr hs ih =>
    intro before after htext ho c hc
    obtain ⟨w', hw', -, -, hread⟩ := window_at path ht hb hn htext
    rw [← ho, hw] at hw'
    cases hw'
    obtain ⟨rest, hsplit, -, -⟩ := whole_spec after n
    rw [hsplit] at hc
    rcases List.mem_append.mp hc with hc | hc
    · exact Nat.le_trans (hlength _ c hc) (length_encode_whole after n)
    · exact ih (before ++ whole after n) rest (by rw [htext, List.append_assoc, ← hsplit])
        (by rw [ho]; exact hread) c hc

end Reads

def Covered (raw : List Byte) (path : String) (max_bytes : Int) : Prop :=
  ∃ ws, Windows (some raw) path max_bytes 0 ws ∧ decode_sig raw = some (contents ws)

/-- A file with a signature has to fit in one window; without one, each character has to. -/
theorem windows_cover_iff {raw : List Byte} {text : List Char} (path : String) {max_bytes : Int}
    (ht : decode_sig raw = some text) (hm : 0 < max_bytes) :
    Covered raw path max_bytes ↔
      if bom.isPrefixOf raw then (Utf8.encode text).length ≤ max_bytes
      else ∀ c ∈ text, (encodeChar c).length ≤ max_bytes := by
  obtain ⟨n, rfl⟩ := Int.eq_ofNat_of_zero_le (Int.le_of_lt hm)
  have hn : 0 < n := by omega
  simp only [Covered, ht, Option.some.injEq, Int.ofNat_le]
  cases hb : bom.isPrefixOf raw with
  | true =>
    rw [if_pos rfl]
    constructor
    · rintro ⟨ws, hws, rfl⟩
      have := (windows_sig path ht hb hn hws).2
      omega
    · intro hle
      obtain ⟨w, hw, hc⟩ := windows_last path ht hn (o := 0) (by omega)
      obtain ⟨rest, hsplit, hall, -⟩ := whole_spec text n
      rw [hall hle, List.append_nil] at hsplit
      refine ⟨[w], hw, ?_⟩
      rw [contents_cons, hc, List.drop_zero, decodeIgnore_take, ← hsplit]
      exact (List.append_nil text).symm
  | false =>
    rw [if_neg Bool.false_ne_true]
    constructor
    · rintro ⟨ws, hws, -⟩
      exact fit_of_windows path ht hb hn hws [] text rfl rfl
    · intro hfit
      obtain ⟨ws, hws, hc⟩ := windows_of_fit path ht hb hn _ [] text (Nat.lt_succ_self _) rfl hfit
      exact ⟨ws, hws, hc.symm⟩

def signed : List Byte := bom ++ [byte 0x61, byte 0x62]

theorem decode_signed : decode_sig signed = some ['a', 'b'] := by decide

theorem windows_cover_signed : Covered signed "f" 2 :=
  (windows_cover_iff "f" decode_signed (by decide)).mpr (by decide)

theorem signed_not_covered : ¬ Covered signed "f" 1 := by
  rw [windows_cover_iff "f" decode_signed (by decide)]
  decide

end Agently.TaskWorkspace.FileIO
