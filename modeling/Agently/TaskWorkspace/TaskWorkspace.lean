import Mathlib.Data.List.Infix
import Agently.TaskDAG.TaskDAGData

/-! # Task workspaces

Source: `TaskWorkspace/TaskWorkspace.py`. A resolved path is the list of its components. A call's
result says which files it has written, in order, and how it ended. -/

namespace Agently.TaskWorkspace

open Agently.TaskDAGValidation (strip isSpace)

abbrev Path := List String

/-- `pathlib.PurePath`: repeated slashes and `.` are dropped, `..` is kept. -/
structure PurePath where
  absolute : Bool
  parts : List String

def startswith (text start : String) : Bool := start.toList.isPrefixOf text.toList

def splitOn (sep : Char) : List Char → List (List Char)
  | [] => [[]]
  | c :: cs =>
    if c = sep then [] :: splitOn sep cs
    else
      match splitOn sep cs with
      | [] => [[c]]
      | part :: parts => (c :: part) :: parts

def PurePath.parse (text : String) : PurePath :=
  { absolute := text.toList.head? = some '/'
    parts := ((splitOn '/' text.toList).map String.ofList).filter fun part =>
      part ≠ "" ∧ part ≠ "." }

def PurePath.as_posix (p : PurePath) : String :=
  if p.absolute then "/" ++ String.intercalate "/" p.parts
  else if p.parts = [] then "."
  else String.intercalate "/" p.parts

structure CallerPath where
  text : String
  pure : PurePath

def CallerPath.ofText (text : String) : CallerPath := ⟨text, .parse text⟩

def CallerPath.as_posix (path : CallerPath) : String := path.pure.as_posix

def joinPath (base : List String) (raw : PurePath) : PurePath :=
  if raw.absolute then raw else ⟨true, base ++ raw.parts⟩

def CallerPath.ofPath (path : Path) : CallerPath :=
  ⟨PurePath.as_posix ⟨true, path⟩, ⟨true, path⟩⟩

def within (dir path : Path) : Bool := decide (dir <+: path)

def below (dir path : Path) : Bool := within dir path && decide (dir ≠ path)

abbrev Fault := String

/-- The file system and the operating system. `writable` says that the parent can be made and
the file opened, `replaceable` that `os.replace` puts a file there; what is resolved resolves to
itself, and so does every directory on the way. -/
structure FileSystem where
  expanduser : PurePath → PurePath
  resolve : PurePath → Path
  is_present : Path → Bool
  is_file : Path → Bool
  sha256 : Path → String
  text : Path → Option String
  writable : Path → Bool
  replaceable : Path → Bool
  resolve_resolved : ∀ raw dir, dir <+: resolve raw → resolve ⟨true, dir⟩ = dir

/-- What a call uses besides: `str.lower`, `git apply` in the root (if it is installed, what files a
patch names, if it applies), the handlers that export a file to a kind, and what recording a
promoted file's identity answers. -/
structure Environment where
  fs : FileSystem
  lower : String → String
  gitInstalled : Bool
  gitPaths : String → List Path
  gitApplies : String → Bool
  exports : Path → String → Bool
  identify : Path → Except Fault Unit

inductive Mode where
  | read_only
  | read_write
  deriving DecidableEq

structure TaskWorkspace where
  root : Path
  mode : Mode
  execution_id : String
  terminal_target_protections : List (List Path)

namespace TaskWorkspace

variable (E : Environment) (ws : TaskWorkspace)

def fallback_root : PurePath :=
  joinPath (ws.root ++ [".agently", "files"]) (PurePath.parse ws.execution_id)

def fallback : Path := E.fs.resolve ws.fallback_root

def privateTree : Path := ws.root ++ [".agently"]

def is_protected (path : Path) : Bool := ws.terminal_target_protections.any fun t => path ∈ t

def resolve_path (path : CallerPath) : Except Fault Path :=
  let target := E.fs.resolve (joinPath ws.root (E.fs.expanduser path.pure))
  if within ws.root target then .ok target
  else .error ("Path is outside TaskWorkspace root: " ++ path.text)

def namesPrivate (relative : String) : Bool :=
  startswith relative ".agently/" || decide (relative = ".agently")

def resolve_file_path (path : CallerPath) : Except Fault Path :=
  match ws.resolve_path E path with
  | .error e => .error e
  | .ok target =>
    if E.fs.is_present target then .ok target
    else if path.pure.absolute then .ok target
    else if namesPrivate path.as_posix then .ok target
    else
      let fallback := E.fs.resolve ⟨true, ws.fallback_root.parts ++ path.pure.parts⟩
      if below (ws.fallback E) fallback ∧ E.fs.is_present fallback then .ok fallback
      else .ok target

def _assert_terminal_target_writable (requested : Path) : Except Fault Unit :=
  if ws.is_protected requested then
    .error ("A protected terminal target can only change through digest-pinned " ++
      "TaskWorkspace promotion.")
  else .ok ()

/-- `_write_target`: where a write goes, and whether that is the fallback directory. -/
def _write_target (requested : Path) (requested_path : CallerPath) (allow_terminal_target : Bool) :
    Except Fault (Path × Bool) :=
  match if allow_terminal_target then .ok () else ws._assert_terminal_target_writable requested with
  | .error e => .error e
  | .ok () =>
    if within (ws.fallback E) requested then .ok (requested, true)
    else if namesPrivate requested_path.as_posix then
      .error "Caller paths cannot target TaskWorkspace private state."
    else
      match ws.mode with
      | .read_write => .ok (requested, false)
      | .read_only =>
        if E.fs.is_present requested then
          .error "External TaskWorkspace mutation requires explicit write permission."
        else
          let fallback := E.fs.resolve (joinPath (ws.fallback E) requested_path.pure)
          if below (ws.fallback E) fallback then .ok (fallback, true)
          else .error ("Path is outside TaskWorkspace root: " ++ requested_path.as_posix)

end TaskWorkspace

structure Result where
  written : List Path
  outcome : Except Fault Unit

def raised (e : Fault) : Result := ⟨[], .error e⟩

def relativeTo (ws : TaskWorkspace) (target : Path) : Except Fault Unit :=
  if within ws.root target then .ok () else .error "path is not in the subpath of the root"

variable (E : Environment) (ws : TaskWorkspace)

def writeTo (target : Path) : Result :=
  if E.fs.writable target then ⟨[target], relativeTo ws target⟩ else raised "OSError"

def _write_bytes (path : CallerPath) : Result :=
  match ws.resolve_path E path with
  | .error e => raised e
  | .ok requested =>
    match ws._write_target E requested path false with
    | .error e => raised e
    | .ok (target, _) => writeTo E ws target

def write_file (path : CallerPath) : Result := _write_bytes E ws path

def copy_from (source destination : CallerPath) : Result :=
  let source_path := E.fs.resolve (E.fs.expanduser source.pure)
  if E.fs.is_file source_path then _write_bytes E ws destination
  else raised (CallerPath.ofPath source_path).text

def materialize_file (path : CallerPath) (overwrite : Bool) : Result :=
  match ws.resolve_file_path E path with
  | .error e => raised e
  | .ok found =>
    if E.fs.is_present found ∧ overwrite = false then raised (CallerPath.ofPath found).text
    else _write_bytes E ws path

def countIn (part : List Char) : Nat → List Char → Nat
  | 0, _ => 0
  | fuel + 1, text =>
    if part <+: text then
      1 + countIn part fuel (text.drop (max 1 part.length))
    else
      match text with
      | [] => 0
      | _ :: rest => countIn part fuel rest

def count (text part : String) : Nat :=
  countIn part.toList (text.toList.length + 1) text.toList

def editable (path : CallerPath) (target : Path) (old_string : String) (replace_all : Bool)
    (expected_sha256 : Option String) : Except Fault Unit :=
  if E.fs.is_file target = false then .error ("TaskWorkspace file not found: " ++ path.text)
  else if expected_sha256.any fun digest => digest ≠ "" ∧ E.fs.sha256 target ≠ digest then
    .error "TaskWorkspace file has changed since the expected sha256."
  else
    match E.fs.text target with
    | none => .error "UnicodeDecodeError"
    | some text =>
      if count text old_string = 0 then
        .error "old_string was not found in the TaskWorkspace file."
      else if replace_all = false ∧ count text old_string ≠ 1 then
        .error "old_string is not unique; pass replace_all=True to replace every match."
      else .ok ()

def edit_file (path : CallerPath) (old_string : String) (replace_all : Bool)
    (expected_sha256 : Option String) : Result :=
  match ws.resolve_file_path E path with
  | .error e => raised e
  | .ok target =>
    match ws._assert_terminal_target_writable target with
    | .error e => raised e
    | .ok () =>
      if ws.mode ≠ .read_write ∧ within ws.fallback_root.parts target = false then
        raised "External TaskWorkspace editing requires explicit write permission."
      else
        match editable E path target old_string replace_all expected_sha256 with
        | .error e => raised e
        | .ok () => writeTo E ws target

def isLineBreak (c : Char) : Bool :=
  let n := c.toNat
  (10 ≤ n && n ≤ 13) || (28 ≤ n && n ≤ 30) || n == 133 || n == 8232 || n == 8233

def lineOf : List Char → List Char × List Char
  | [] => ([], [])
  | c :: cs =>
    if isLineBreak c then
      ([], if c = '\r' ∧ cs.head? = some '\n' then cs.drop 1 else cs)
    else
      let (line, rest) := lineOf cs
      (c :: line, rest)

def linesOf : Nat → List Char → List (List Char)
  | 0, _ => []
  | _ + 1, [] => []
  | fuel + 1, text => (lineOf text).1 :: linesOf fuel (lineOf text).2

def splitlines (text : String) : List String :=
  (linesOf text.toList.length text.toList).map String.ofList

def headerPath (line : String) : Option String :=
  if startswith line "+++ " ∨ startswith line "--- " then
    let raw_path := strip (String.ofList ((line.toList.drop 4).takeWhile (· ≠ '\t')))
    if raw_path = "" ∨ raw_path = "/dev/null" then none
    else if startswith raw_path "a/" ∨ startswith raw_path "b/" then
      some (String.ofList (raw_path.toList.drop 2))
    else some raw_path
  else none

/-- The loop over the header lines: each path is resolved and none is protected. -/
def declaredPaths : List String → List Path → Except Fault (List Path)
  | [], paths => .ok paths
  | raw_path :: rest, paths =>
    match ws.resolve_path E (.ofText raw_path) with
    | .error e => .error e
    | .ok resolved =>
      match ws._assert_terminal_target_writable resolved with
      | .error e => .error e
      | .ok () => declaredPaths rest (if resolved ∈ paths then paths else paths ++ [resolved])

def expectedPaths : List String → Except Fault (List Path)
  | [] => .ok []
  | item :: rest =>
    match ws.resolve_path E (.ofText item) with
    | .error e => .error e
    | .ok resolved =>
      match expectedPaths rest with
      | .error e => .error e
      | .ok paths => .ok (resolved :: paths)

def checkPatch (patch : String) (expected_files : Option (List String)) : Except Fault Unit :=
  match declaredPaths E ws ((splitlines patch).filterMap headerPath) [] with
  | .error e => .error e
  | .ok paths =>
    if paths = [] then .error "Patch did not declare any TaskWorkspace file paths."
    else
      match expected_files with
      | none => .ok ()
      | some items =>
        match expectedPaths E ws items with
        | .error e => .error e
        | .ok expected =>
          if paths.Perm expected.dedup then .ok ()
          else .error "Patch file set does not match expected_files."

def apply_patch (patch : String) (expected_files : Option (List String)) : Result :=
  if ws.mode ≠ .read_write then raised "TaskWorkspace patching requires read_write mode."
  else
    match checkPatch E ws patch expected_files with
    | .error e => raised e
    | .ok () =>
      if E.gitInstalled = false then raised "git executable is required for apply_patch."
      else if E.gitApplies patch then ⟨(E.gitPaths patch).map (ws.root ++ ·), .ok ()⟩
      else raised "git apply failed"

def exportTo (source : Path) (output_path : CallerPath) (export_kind : String) : Result :=
  match ws.resolve_path E output_path with
  | .error e => raised e
  | .ok requested =>
    match ws._write_target E requested output_path false with
    | .error e => raised e
    | .ok (target, _) =>
      if within ws.root source && within ws.root target then
        if E.exports source export_kind && E.fs.writable target then ⟨[target], .ok ()⟩
        else ⟨[], .ok ()⟩
      else raised "path is not in the subpath of the root"

def export_file (source_path output_path : CallerPath) (export_kind : String) : Result :=
  match ws.resolve_file_path E source_path with
  | .error e => raised e
  | .ok source =>
    if E.fs.is_file source = false then
      raised ("TaskWorkspace source file not found: " ++ source_path.text)
    else if export_kind = "copy" ∨ export_kind = "raw" then
      copy_from E ws (.ofPath source) output_path
    else exportTo E ws source output_path export_kind

def isDigest (digest : String) : Bool :=
  decide (digest.toList.length = 64) &&
    digest.toList.all fun c => c.isDigit || ('a' ≤ c && c ≤ 'f')

/-- `target.with_name(f".{target.name}.{hex}.tmp")`. -/
def temporary (hex : String) (target : Path) : Path :=
  target.dropLast ++ ["." ++ target.getLastD "" ++ "." ++ hex ++ ".tmp"]

def replaceWith (hex expected_digest : String) (source target : Path) : Result :=
  if target = [] then raised "ValueError"
  else if E.fs.writable (temporary hex target) = false then raised "OSError"
  else if E.fs.sha256 source ≠ expected_digest then
    ⟨[temporary hex target], .error "temporary promotion digest mismatch"⟩
  else if E.fs.replaceable target = false then ⟨[temporary hex target], .error "OSError"⟩
  else ⟨[temporary hex target, target], E.identify target⟩

def promoteTo (hex expected_digest : String) (source : Path) (target_path : CallerPath) :
    Result :=
  match ws.resolve_path E target_path with
  | .error e => raised e
  | .ok requested =>
    match ws._write_target E requested target_path true with
    | .error e => raised e
    | .ok (target, _) =>
      if source = target then ⟨[], E.identify target⟩
      else replaceWith E hex expected_digest source target

def atomic_promote_file (source_path target_path : CallerPath) (expected_sha256 hex : String) :
    Result :=
  let expected_digest := E.lower (strip expected_sha256)
  if isDigest expected_digest = false then
    raised "expected_sha256 must be a lowercase or uppercase SHA-256 digest."
  else
    match ws.resolve_file_path E source_path with
    | .error e => raised e
    | .ok source =>
      if E.fs.is_file source = false then
        raised ("Staged TaskWorkspace file not found: " ++ source_path.text)
      else if E.fs.sha256 source ≠ expected_digest then
        raised "staged TaskWorkspace file digest changed"
      else promoteTo E ws hex expected_digest source target_path

/-- A call. Paths are given as texts; `hex` is the random part of a temporary name. -/
inductive Operation where
  | write_file (path : String)
  | materialize_file (path : String) (overwrite : Bool)
  | copy_from (source destination : String)
  | edit_file (path old_string : String) (replace_all : Bool) (expected_sha256 : Option String)
  | apply_patch (patch : String) (expected_files : Option (List String))
  | export_file (source_path output_path export_kind : String)
  | atomic_promote_file (source_path target_path expected_sha256 hex : String)

def perform : Operation → Result
  | .write_file path => write_file E ws (.ofText path)
  | .materialize_file path overwrite => materialize_file E ws (.ofText path) overwrite
  | .copy_from source destination => copy_from E ws (.ofText source) (.ofText destination)
  | .edit_file path old_string replace_all expected_sha256 =>
    edit_file E ws (.ofText path) old_string replace_all expected_sha256
  | .apply_patch patch expected_files => apply_patch E ws patch expected_files
  | .export_file source_path output_path export_kind =>
    export_file E ws (.ofText source_path) (.ofText output_path) export_kind
  | .atomic_promote_file source_path target_path expected_sha256 hex =>
    atomic_promote_file E ws (.ofText source_path) (.ofText target_path) expected_sha256 hex

end Agently.TaskWorkspace
