import Agently.Storage.LocalRecordStore
import Agently.Utils.Conversions
import Agently.Utils.Utf8

/-! # Reading records

Source: `storage/LocalRecordStore.py` (`_serialize_content`, `_decode_content`, `_content_text`,
`get`, `get_data`, `ref_envelope`, `read_bounded`, `stream_read`). The table of records does not
change while a stream is read. -/

namespace Agently.Storage.RecordReads

open Agently.Utils Agently.Utils.Utf8 Agently.Storage.LocalRecordStore

/-- A record's reference as far as an envelope is made from it; `policy_labels` are those of
its `meta`. -/
structure RecordRef where
  id : String
  collection : String
  kind : Option String
  sha256 : Option String
  size : Int
  created_at : String
  policy_labels : List Json

structure RecordRow extends RecordRef where
  content : String
  content_format : String

/-- Without a file or a table there are no rows: a look-up raises the same error. -/
structure Store where
  record_store_id : String
  records : List RecordRow

inductive RefOrId where
  | ref (record : RecordRef)
  | id (record_id : String)

def RefOrId.record_id : RefOrId → String
  | .ref record => record.id
  | .id record_id => record_id

structure RecordReference where
  record_store_id : String
  kind : String
  collection : String
  record_id : String
  digest : Option String
  size : Int
  created_at : String
  policy_labels : List Json
  bounded_read : Bool := true
  stream_read : Bool := true

structure RecordContentSegment where
  ref : RecordReference
  content : String
  offset : Int
  size : Nat
  total_size : Nat
  eof : Bool
  digest : String
  content_type : String

/-- `base64`, `json` and `hashlib`; `json_dumps` sorts the keys and keeps other characters than
ASCII as they are. -/
structure Host where
  b64encode : List Byte → String
  b64decode : String → List Byte
  json_loads : String → Option Json
  json_dumps : Json → String
  json_compact : Json → String
  sha256 : List Byte → String

/-- What a caller stores, and what `get_data` gives back. -/
inductive Content where
  | text (s : String)
  | bytes (bs : List Byte)
  | json (v : Json)

variable (h : Host)

def serialize_content : Content → String × String × List Byte
  | .text s => (s, "text", encode s.toList)
  | .bytes bs => (h.b64encode bs, "bytes", bs)
  | .json v => (h.json_compact v, "json", encode (h.json_compact v).toList)

def decode_content (content content_format : String) : Content :=
  if content_format = "text" then .text content
  else if content_format = "bytes" then .bytes (h.b64decode content)
  else if content = "" then .text content
  else
    match h.json_loads content with
    | some v => .json v
    | none => .text content

def content_text : Content → String
  | .text s => s
  | .bytes bs => String.ofList (decode bs)
  | .json (.str s) => s
  | .json v => h.json_dumps v

def not_found (record_id : String) : StoreError :=
  .keyError ("RecordStore record not found: " ++ record_id)

def get_record (s : Store) (record_id : String) : Option RecordRow :=
  s.records.find? fun row => row.id = record_id

def get_data (s : Store) (ref : RefOrId) : Except StoreError Content :=
  match get_record s ref.record_id with
  | none => .error (not_found ref.record_id)
  | some row => .ok (decode_content h row.content row.content_format)

def get (s : Store) (ref : RefOrId) : Except StoreError String :=
  match get_data h s ref with
  | .error e => .error e
  | .ok data => .ok (content_text h data)

def orText (text : Option String) (default_ : String) : String :=
  match text with
  | none => default_
  | some t => if t = "" then default_ else t

def envelope (s : Store) (ref : RecordRef) : RecordReference :=
  { record_store_id := s.record_store_id
    kind := orText ref.kind "record"
    collection := ref.collection
    record_id := ref.id
    digest := ref.sha256
    size := ref.size
    created_at := ref.created_at
    policy_labels := ref.policy_labels }

def ref_envelope (s : Store) : RefOrId → Except StoreError RecordReference
  | .ref record => .ok (envelope s record)
  | .id record_id =>
    match get_record s record_id with
    | none => .error (not_found record_id)
    | some row => .ok (envelope s row.toRecordRef)

def readEnd (total : Nat) (offset : Int) : Option Int → Int
  | none => total
  | some limit => min (total : Int) (offset + limit)

def read_bounded (s : Store) (ref : RefOrId) (offset : Int) (limit : Option Int) :
    Except StoreError RecordContentSegment :=
  if offset < 0 ∨ (limit.any fun n => n < 0) = true then
    .error (.valueError "RecordStore read offset and limit must be non-negative.")
  else
    match get h s ref with
    | .error e => .error e
    | .ok text =>
      let raw := encode text.toList
      let stop := readEnd raw.length offset limit
      let segment := (raw.take stop.toNat).drop offset.toNat
      match ref_envelope s ref with
      | .error e => .error e
      | .ok envelope =>
        .ok
          { ref := envelope
            content := String.ofList (decode segment)
            offset := offset
            size := segment.length
            total_size := raw.length
            eof := decide ((raw.length : Int) ≤ stop)
            digest := h.sha256 raw
            content_type := "text/plain" }

def contentBytes (s : Store) (ref : RefOrId) : List Byte :=
  match get h s ref with
  | .error _ => []
  | .ok text => encode text.toList

theorem size_of_read {s : Store} {ref : RefOrId} {offset : Int} {limit : Option Int}
    {segment : RecordContentSegment} (hr : read_bounded h s ref offset limit = .ok segment) :
    0 ≤ offset ∧ segment.size ≤ (contentBytes h s ref).length - offset.toNat := by
  unfold read_bounded at hr
  split at hr
  · cases hr
  · next hno =>
    have h0 : 0 ≤ offset := by
      rw [not_or] at hno
      omega
    refine ⟨h0, ?_⟩
    cases htext : get h s ref with
    | error e =>
      rw [htext] at hr
      cases hr
    | ok text =>
      rw [htext] at hr
      have hbytes : contentBytes h s ref = encode text.toList := by
        unfold contentBytes
        rw [htext]
      rw [hbytes]
      simp only at hr
      split at hr
      · cases hr
      · injection hr with hr
        subst hr
        simp only [List.length_drop, List.length_take]
        omega

def current_limit (limit : Option Int) (chunk_size : Int) (consumed : Nat) : Int :=
  match limit with
  | none => chunk_size
  | some n => min chunk_size (n - (consumed : Int))

/-- The loop of `stream_read`, from the number of bytes read so far: the segments it yields, and
the error that ends it, if one does. -/
def generate (s : Store) (ref : RefOrId) (offset : Int) (limit : Option Int) (chunk_size : Int)
    (consumed : Nat) : List RecordContentSegment × Option StoreError :=
  if limit.any (fun n => n ≤ (consumed : Int)) then ([], none)
  else
    match _hr : read_bounded h s ref (offset + consumed)
        (some (current_limit limit chunk_size consumed)) with
    | .error e => ([], some e)
    | .ok segment =>
      if _hs : segment.eof = true ∨ segment.size = 0 then ([segment], none)
      else
        let rest := generate s ref offset limit chunk_size (consumed + segment.size)
        (segment :: rest.1, rest.2)
termination_by (contentBytes h s ref).length - (offset + consumed).toNat
decreasing_by
  obtain ⟨h0, hle⟩ := size_of_read h _hr
  rw [not_or] at _hs
  have hpos : 0 < segment.size := Nat.pos_of_ne_zero _hs.2
  omega

def stream_read (s : Store) (ref : RefOrId) (offset : Int) (limit : Option Int)
    (chunk_size : Int) : Except StoreError (List RecordContentSegment × Option StoreError) :=
  if chunk_size ≤ 0 then
    .error (.valueError "RecordStore stream chunk_size must be positive.")
  else
    .ok (generate h s ref offset limit chunk_size 0)

end Agently.Storage.RecordReads
