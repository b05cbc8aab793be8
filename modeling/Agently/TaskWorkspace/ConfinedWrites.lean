import Mathlib
import Agently.TaskWorkspace.TaskWorkspace

/-! # Confined writes

Where a call may write is checked on the resolved path, except for the private tree, which is
checked on the text of the path by writes and not at all by edits and patches, and for the
protected targets, which are not checked where a write is redirected. -/

namespace Agently.TaskWorkspace

open Agently.TaskDAGValidation (strip)

variable (E : Environment) (ws : TaskWorkspace)

/-- A file that the call may write: inside the root, in read-only mode and in the private tree
only inside the execution's fallback directory, and no protected target but by promotion. -/
structure Confined (promotes : Bool) (path : Path) : Prop where
  inside : ws.root <+: path
  readOnly : ws.mode = .read_only → ws.fallback E <+: path
  privateTree : ws.privateTree <+: path → ws.fallback E <+: path
  terminal : promotes = false → ws.is_protected path = false

def Operation.promotes : Operation → Bool
  | .atomic_promote_file _ _ _ _ => true
  | _ => false

def ConfinesWrites (op : Operation) : Prop :=
  ∀ path ∈ (perform E ws op).written, Confined E ws op.promotes path

/-- What holds of the file that a write to the path goes to, if its checks pass: the requested
one in the fallback directory, the requested one in read-write mode, or its redirection. -/
def EachTarget (promotes : Bool) (path : CallerPath) (inFallback readWrite redirected : Path → Prop) :
    Prop :=
  ∀ requested, ws.resolve_path E path = .ok requested →
    (promotes = false → ws.is_protected requested = false) →
    (ws.fallback E <+: requested → inFallback requested) ∧
    (¬ ws.fallback E <+: requested → TaskWorkspace.namesPrivate path.as_posix = false →
      (ws.mode = .read_write → readWrite requested) ∧
      (ws.mode = .read_only → E.fs.is_present requested = false →
        ∀ target, target = E.fs.resolve (joinPath (ws.fallback E) path.pure) →
          below (ws.fallback E) target = true → redirected target))

/-- A write to the path does not reach the private tree by a path that names it otherwise, and
in read-only mode its redirection lies inside the root and is no protected target. `opens` says
that the call gets as far as opening the file. -/
def TargetKept (promotes : Bool) (path : CallerPath) (opens : Path → Prop) : Prop :=
  EachTarget E ws promotes path (fun _ => True)
    (fun target => opens target → ¬ ws.privateTree <+: target)
    (fun target => opens target →
      ws.root <+: target ∧ (promotes = false → ws.is_protected target = false))

def Writable (target : Path) : Prop := E.fs.writable target = true

def WriteKept (path : CallerPath) : Prop := TargetKept E ws false path (Writable E)

def CopyKept (source destination : CallerPath) : Prop :=
  E.fs.is_file (E.fs.resolve (E.fs.expanduser source.pure)) = true → WriteKept E ws destination

def MaterializeKept (path : CallerPath) (overwrite : Bool) : Prop :=
  ∀ found, ws.resolve_file_path E path = .ok found →
    ¬ (E.fs.is_present found = true ∧ overwrite = false) → WriteKept E ws path

/-- An edited file lies inside the root, and in read-write mode not in the private tree outside
the fallback directory. -/
def EditKept (path : CallerPath) (old_string : String) (replace_all : Bool)
    (expected_sha256 : Option String) : Prop :=
  ∀ target, ws.resolve_file_path E path = .ok target → ws.is_protected target = false →
    editable E path target old_string replace_all expected_sha256 = .ok () → Writable E target →
    (ws.mode = .read_write ∨ ws.fallback_root.parts <+: target) →
    ws.root <+: target ∧ (ws.mode = .read_write → ws.privateTree <+: target →
      ws.fallback E <+: target)

def PatchKept (patch : String) (expected_files : Option (List String)) : Prop :=
  ws.mode = .read_write → checkPatch E ws patch expected_files = .ok () → E.gitInstalled = true →
    E.gitApplies patch = true → ∀ path ∈ E.gitPaths patch,
      (ws.privateTree <+: ws.root ++ path → ws.fallback E <+: ws.root ++ path) ∧
        ws.is_protected (ws.root ++ path) = false

def Exports (source : Path) (export_kind : String) (target : Path) : Prop :=
  ws.root <+: source ∧ ws.root <+: target ∧ E.exports source export_kind = true ∧
    Writable E target

def ExportKept (source_path output_path : CallerPath) (export_kind : String) : Prop :=
  ∀ source, ws.resolve_file_path E source_path = .ok source → E.fs.is_file source = true →
    if export_kind = "copy" ∨ export_kind = "raw" then CopyKept E ws (.ofPath source) output_path
    else TargetKept E ws false output_path (Exports E ws source export_kind)

def Stages (hex : String) (source target : Path) : Prop :=
  source ≠ target ∧ target ≠ [] ∧ Writable E (temporary hex target)

def StagingKept (hex : String) (source : Path) (path : CallerPath) : Prop :=
  EachTarget E ws true path
    (fun target => Stages E hex source target → ws.root <+: temporary hex target ∧
      (ws.mode = .read_only ∨ ws.privateTree <+: temporary hex target →
        ws.fallback E <+: temporary hex target))
    (fun target => Stages E hex source target → ws.root <+: temporary hex target ∧
      (ws.privateTree <+: temporary hex target → ws.fallback E <+: temporary hex target))
    (fun target => Stages E hex source target → ws.root <+: temporary hex target)

def PromoteKept (source_path target_path : CallerPath) (expected_sha256 hex : String) : Prop :=
  isDigest (E.lower (strip expected_sha256)) = true →
    ∀ source, ws.resolve_file_path E source_path = .ok source → E.fs.is_file source = true →
      E.fs.sha256 source = E.lower (strip expected_sha256) →
      TargetKept E ws true target_path
        (fun target => Stages E hex source target ∧ E.fs.replaceable target = true) ∧
      StagingKept E ws hex source target_path

def Kept : Operation → Prop
  | .write_file path => WriteKept E ws (.ofText path)
  | .materialize_file path overwrite => MaterializeKept E ws (.ofText path) overwrite
  | .copy_from source destination => CopyKept E ws (.ofText source) (.ofText destination)
  | .edit_file path old_string replace_all expected_sha256 =>
    EditKept E ws (.ofText path) old_string replace_all expected_sha256
  | .apply_patch patch expected_files => PatchKept E ws patch expected_files
  | .export_file source_path output_path export_kind =>
    ExportKept E ws (.ofText source_path) (.ofText output_path) export_kind
  | .atomic_promote_file source_path target_path expected_sha256 hex =>
    PromoteKept E ws (.ofText source_path) (.ofText target_path) expected_sha256 hex

section

variable {E ws}

theorem within_iff {dir path : Path} : within dir path = true ↔ dir <+: path := by
  simp [within]

theorem resolve_path_inside {path : CallerPath} {target : Path}
    (h : ws.resolve_path E path = .ok target) : ws.root <+: target := by
  unfold TaskWorkspace.resolve_path at h
  dsimp only at h
  split at h
  · rename_i hw
    cases h
    exact within_iff.mp hw
  · cases h

theorem write_target_cases {promotes : Bool} {path : CallerPath} {requested : Path}
    {target : Path} {b : Bool}
    (h : ws._write_target E requested path promotes = .ok (target, b)) :
    (promotes = false → ws.is_protected requested = false) ∧
    ((ws.fallback E <+: requested ∧ target = requested) ∨
      (¬ ws.fallback E <+: requested ∧ TaskWorkspace.namesPrivate path.as_posix = false ∧
        ((ws.mode = .read_write ∧ target = requested) ∨
          (ws.mode = .read_only ∧ E.fs.is_present requested = false ∧
            target = E.fs.resolve (joinPath (ws.fallback E) path.pure) ∧
            below (ws.fallback E) target = true)))) := by
  unfold TaskWorkspace._write_target at h
  have hunprotected : promotes = false → ws.is_protected requested = false := by
    intro hp
    rw [hp] at h
    by_contra hne
    have hprot : ws.is_protected requested = true := by simpa using hne
    simp only [TaskWorkspace._assert_terminal_target_writable, hprot] at h
    cases h
  refine ⟨hunprotected, ?_⟩
  have hpass : (if promotes = true then (.ok () : Except Fault Unit)
      else ws._assert_terminal_target_writable requested) = .ok () := by
    cases promotes with
    | true => rfl
    | false =>
      unfold TaskWorkspace._assert_terminal_target_writable
      rw [hunprotected rfl]
      rfl
  rw [hpass] at h
  dsimp only at h
  split at h
  · rename_i hw
    cases h
    exact .inl ⟨within_iff.mp hw, rfl⟩
  · rename_i hw
    split at h
    · cases h
    · rename_i hn
      refine .inr ⟨fun hp => hw (within_iff.mpr hp), by simpa using hn, ?_⟩
      split at h
      · rename_i hm
        cases h
        exact .inl ⟨hm, rfl⟩
      · rename_i hm
        split at h
        · cases h
        · rename_i hpres
          split at h
          · rename_i hb
            cases h
            exact .inr ⟨hm, by simpa using hpres, rfl, hb⟩
          · cases h

theorem write_target_ok {promotes : Bool} {path : CallerPath} {requested : Path}
    (hp : promotes = false → ws.is_protected requested = false) :
    (ws.fallback E <+: requested →
      ws._write_target E requested path promotes = .ok (requested, true)) ∧
    (¬ ws.fallback E <+: requested → TaskWorkspace.namesPrivate path.as_posix = false →
      (ws.mode = .read_write →
        ws._write_target E requested path promotes = .ok (requested, false)) ∧
      (ws.mode = .read_only → E.fs.is_present requested = false →
        below (ws.fallback E) (E.fs.resolve (joinPath (ws.fallback E) path.pure)) = true →
        ws._write_target E requested path promotes =
          .ok (E.fs.resolve (joinPath (ws.fallback E) path.pure), true))) := by
  have hpass : (if promotes = true then (.ok () : Except Fault Unit)
      else ws._assert_terminal_target_writable requested) = .ok () := by
    cases promotes with
    | true => rfl
    | false =>
      unfold TaskWorkspace._assert_terminal_target_writable
      rw [hp rfl]
      rfl
  unfold TaskWorkspace._write_target
  rw [hpass]
  dsimp only
  constructor
  · intro hw
    rw [if_pos (within_iff.mpr hw)]
  · intro hw hn
    rw [if_neg (fun h => hw (within_iff.mp h)), hn]
    constructor
    · intro hm
      rw [hm]
      rfl
    · intro hm hpres hb
      rw [hm, hpres]
      dsimp only
      rw [if_neg (by simp), if_neg (by simp), if_pos hb]

theorem eachTarget_iff {promotes : Bool} {path : CallerPath} {P : Path → Prop} :
    EachTarget E ws promotes path P P P ↔
      ∀ requested, ws.resolve_path E path = .ok requested → ∀ target b,
        ws._write_target E requested path promotes = .ok (target, b) → P target := by
  constructor
  · intro hk requested hr target b hw
    obtain ⟨hp, ⟨hf, rfl⟩ | ⟨hf, hn, ⟨hm, rfl⟩ | ⟨hm, hpres, ht, hb⟩⟩⟩ := write_target_cases hw
    · exact (hk target hr hp).1 hf
    · exact ((hk target hr hp).2 hf hn).1 hm
    · exact ((hk requested hr hp).2 hf hn).2 hm hpres target ht hb
  · intro hall requested hr hp
    obtain ⟨hin, hout⟩ := @write_target_ok E ws promotes path requested hp
    refine ⟨fun hf => hall requested hr _ _ (hin hf), ?_⟩
    intro hf hn
    obtain ⟨hrw, hro⟩ := hout hf hn
    refine ⟨fun hm => hall requested hr _ _ (hrw hm), ?_⟩
    rintro hm hpres target rfl hb
    exact hall requested hr _ _ (hro hm hpres hb)

theorem below_iff {dir path : Path} : below dir path = true ↔ dir <+: path ∧ dir ≠ path := by
  simp [below, within]

theorem not_read_only (h : ws.mode = .read_write) : ws.mode ≠ .read_only := by
  rw [h]
  decide

theorem targetKept_iff {promotes : Bool} {path : CallerPath} {opens : Path → Prop} :
    TargetKept E ws promotes path opens ↔
      ∀ requested, ws.resolve_path E path = .ok requested → ∀ target b,
        ws._write_target E requested path promotes = .ok (target, b) → opens target →
          Confined E ws promotes target := by
  rw [← eachTarget_iff]
  unfold TargetKept
  constructor
  · intro hk requested hr hp
    have hin := resolve_path_inside hr
    refine ⟨fun hf _ => ⟨hin, fun _ => hf, fun _ => hf, hp⟩, ?_⟩
    intro hf hn
    obtain ⟨hrw, hro⟩ := (hk requested hr hp).2 hf hn
    refine ⟨fun hm ho => ⟨hin, fun h => absurd h (not_read_only hm),
      fun h => absurd h (hrw hm ho), hp⟩, ?_⟩
    intro hm hpres target ht hb ho
    obtain ⟨hroot, hprot⟩ := hro hm hpres target ht hb ho
    have hbelow := (below_iff.mp hb).1
    exact ⟨hroot, fun _ => hbelow, fun _ => hbelow, hprot⟩
  · intro hk requested hr hp
    refine ⟨fun _ => trivial, ?_⟩
    intro hf hn
    obtain ⟨hrw, hro⟩ := (hk requested hr hp).2 hf hn
    refine ⟨fun hm ho hpriv => hf ((hrw hm ho).privateTree hpriv), ?_⟩
    intro hm hpres target ht hb ho
    have hc := hro hm hpres target ht hb ho
    exact ⟨hc.inside, hc.terminal⟩

theorem temporary_below {hex : String} {dir target : Path} (h : below dir target = true) :
    dir <+: temporary hex target := by
  obtain ⟨⟨rest, rfl⟩, hne⟩ := below_iff.mp h
  have hrest : rest ≠ [] := by
    rintro rfl
    exact hne (List.append_nil dir).symm
  unfold temporary
  rw [List.dropLast_append_of_ne_nil hrest, List.append_assoc]
  exact List.prefix_append _ _

theorem stagingKept_iff {hex : String} {source : Path} {path : CallerPath} :
    StagingKept E ws hex source path ↔
      ∀ requested, ws.resolve_path E path = .ok requested → ∀ target b,
        ws._write_target E requested path true = .ok (target, b) → Stages E hex source target →
          Confined E ws true (temporary hex target) := by
  rw [← eachTarget_iff]
  unfold StagingKept
  constructor
  · intro hk requested hr hp
    obtain ⟨hin, hout⟩ := hk requested hr hp
    constructor
    · intro hf hs
      obtain ⟨hroot, hfall⟩ := hin hf hs
      exact ⟨hroot, fun hm => hfall (.inl hm), fun ht => hfall (.inr ht), nofun⟩
    · intro hf hn
      obtain ⟨hrw, hro⟩ := hout hf hn
      constructor
      · intro hm hs
        obtain ⟨hroot, hfall⟩ := hrw hm hs
        exact ⟨hroot, fun h => absurd h (not_read_only hm), hfall, nofun⟩
      · intro hm hpres target ht hb hs
        have hbelow := @temporary_below hex _ _ hb
        exact ⟨hro hm hpres target ht hb hs, fun _ => hbelow, fun _ => hbelow, nofun⟩
  · intro hk requested hr hp
    obtain ⟨hin, hout⟩ := hk requested hr hp
    constructor
    · intro hf hs
      have hc := hin hf hs
      exact ⟨hc.inside, fun h => h.elim hc.readOnly hc.privateTree⟩
    · intro hf hn
      obtain ⟨hrw, hro⟩ := hout hf hn
      refine ⟨fun hm hs => ⟨(hrw hm hs).inside, (hrw hm hs).privateTree⟩, ?_⟩
      intro hm hpres target ht hb hs
      exact (hro hm hpres target ht hb hs).inside

theorem written_writeTo (target path : Path) :
    path ∈ (writeTo E ws target).written ↔ path = target ∧ Writable E target := by
  unfold writeTo Writable
  split
  · rename_i hw
    simp [hw]
  · rename_i hw
    simp [raised, hw]

theorem write_kept_iff (path : CallerPath) :
    (∀ p ∈ (_write_bytes E ws path).written, Confined E ws false p) ↔ WriteKept E ws path := by
  unfold WriteKept
  rw [targetKept_iff]
  unfold _write_bytes
  cases hr : ws.resolve_path E path with
  | error e => simp [raised]
  | ok requested =>
    dsimp only
    constructor
    · rintro hall _ ⟨⟩ target b hw ho
      rw [hw] at hall
      exact hall target ((written_writeTo target target).mpr ⟨rfl, ho⟩)
    · intro hall p hp
      cases hw : ws._write_target E requested path false with
      | error e =>
        rw [hw] at hp
        cases hp
      | ok found =>
        rw [hw] at hp
        obtain ⟨rfl, ho⟩ := (written_writeTo found.1 p).mp hp
        exact hall requested rfl found.1 found.2 hw ho

theorem copy_kept_iff (source destination : CallerPath) :
    (∀ p ∈ (copy_from E ws source destination).written, Confined E ws false p) ↔
      CopyKept E ws source destination := by
  unfold copy_from CopyKept
  dsimp only
  split
  · rename_i hf
    rw [write_kept_iff]
    exact ⟨fun h _ => h, fun h => h hf⟩
  · rename_i hf
    exact ⟨fun _ h => absurd h hf, fun _ p hp => absurd hp List.not_mem_nil⟩

theorem materialize_kept_iff (path : CallerPath) (overwrite : Bool) :
    (∀ p ∈ (materialize_file E ws path overwrite).written, Confined E ws false p) ↔
      MaterializeKept E ws path overwrite := by
  unfold materialize_file MaterializeKept
  cases hr : ws.resolve_file_path E path with
  | error e => simp [raised]
  | ok found =>
    dsimp only
    split
    · rename_i hex
      constructor
      · rintro _ _ ⟨⟩ hnot
        exact absurd hex hnot
      · intro _ p hp
        cases hp
    · rename_i hnot
      rw [write_kept_iff]
      constructor
      · rintro h _ ⟨⟩ _
        exact h
      · intro h
        exact h found rfl hnot

theorem fallback_of_within {raw : PurePath} (h : ws.fallback_root.parts <+: E.fs.resolve raw)
    (ha : ws.fallback_root.absolute = true) : ws.fallback E = ws.fallback_root.parts := by
  have hdir := E.fs.resolve_resolved raw _ h
  unfold TaskWorkspace.fallback
  rw [← ha] at hdir
  exact hdir

theorem fallback_root_absolute : ws.fallback_root.absolute = true := by
  unfold TaskWorkspace.fallback_root joinPath
  split
  · assumption
  · rfl

theorem resolve_file_path_resolved {path : CallerPath} {target : Path}
    (h : ws.resolve_file_path E path = .ok target) : ∃ raw, target = E.fs.resolve raw := by
  unfold TaskWorkspace.resolve_file_path TaskWorkspace.resolve_path at h
  dsimp only at h
  by_cases hw : within ws.root (E.fs.resolve (joinPath ws.root (E.fs.expanduser path.pure))) = true
  · rw [if_pos hw] at h
    dsimp only at h
    split at h
    · cases h
      exact ⟨_, rfl⟩
    · split at h
      · cases h
        exact ⟨_, rfl⟩
      · split at h
        · cases h
          exact ⟨_, rfl⟩
        · split at h
          · cases h
            exact ⟨_, rfl⟩
          · cases h
            exact ⟨_, rfl⟩
  · rw [if_neg hw] at h
    cases h

theorem edit_kept_iff (path : CallerPath) (old_string : String) (replace_all : Bool)
    (expected_sha256 : Option String) :
    (∀ p ∈ (edit_file E ws path old_string replace_all expected_sha256).written,
      Confined E ws false p) ↔ EditKept E ws path old_string replace_all expected_sha256 := by
  unfold edit_file EditKept
  cases hr : ws.resolve_file_path E path with
  | error e => simp [raised]
  | ok target =>
    dsimp only
    unfold TaskWorkspace._assert_terminal_target_writable
    by_cases hp : ws.is_protected target = true
    · rw [if_pos hp]
      constructor
      · rintro _ _ ⟨⟩ hnot
        rw [hp] at hnot
        cases hnot
      · intro _ p hmem
        cases hmem
    · rw [if_neg hp]
      dsimp only
      by_cases hm : ws.mode ≠ .read_write ∧ within ws.fallback_root.parts target = false
      · rw [if_pos hm]
        constructor
        · rintro _ _ ⟨⟩ - - - (hrw | hin)
          · exact absurd hrw hm.1
          · rw [within_iff.mpr hin] at hm
            cases hm.2
        · intro _ p hmem
          cases hmem
      · rw [if_neg hm]
        have hgo : ws.mode = .read_write ∨ ws.fallback_root.parts <+: target := by
          by_cases hrw : ws.mode = .read_write
          · exact .inl hrw
          · right
            rw [← within_iff]
            by_contra hin
            exact hm ⟨hrw, by simpa using hin⟩
        cases he : editable E path target old_string replace_all expected_sha256 with
        | error e =>
          constructor
          · rintro _ _ ⟨⟩ - hok
            rw [he] at hok
            cases hok
          · intro _ p hmem
            cases hmem
        | ok u =>
          dsimp only
          have hunprot : ws.is_protected target = false := by simpa using hp
          constructor
          · rintro hall _ ⟨⟩ - - ho -
            have hc := hall target ((written_writeTo target target).mpr ⟨rfl, ho⟩)
            exact ⟨hc.inside, fun _ => hc.privateTree⟩
          · intro hk p hmem
            obtain ⟨rfl, ho⟩ := (written_writeTo target p).mp hmem
            obtain ⟨hin, hpriv⟩ := hk p rfl hunprot he ho hgo
            obtain ⟨raw, hraw⟩ := resolve_file_path_resolved hr
            have hfall : ws.mode = .read_only → ws.fallback E <+: p := by
              intro hro
              have hlex : ws.fallback_root.parts <+: p := by
                rcases hgo with hrw | hlex
                · rw [hrw] at hro
                  cases hro
                · exact hlex
              rw [fallback_of_within (hraw ▸ hlex) fallback_root_absolute]
              exact hlex
            refine ⟨hin, hfall, ?_, fun _ => hunprot⟩
            intro hpt
            cases hmode : ws.mode with
            | read_only => exact hfall hmode
            | read_write => exact hpriv hmode hpt

theorem patch_kept_iff (patch : String) (expected_files : Option (List String)) :
    (∀ p ∈ (apply_patch E ws patch expected_files).written, Confined E ws false p) ↔
      PatchKept E ws patch expected_files := by
  unfold apply_patch PatchKept
  by_cases hm : ws.mode ≠ .read_write
  · rw [if_pos hm]
    exact ⟨fun _ hrw => absurd hrw hm, fun _ p hmem => absurd hmem List.not_mem_nil⟩
  · rw [if_neg hm]
    rw [not_not] at hm
    cases hc : checkPatch E ws patch expected_files with
    | error e => exact ⟨fun _ _ hok => (nomatch hok), fun _ p hmem => absurd hmem List.not_mem_nil⟩
    | ok u =>
      dsimp only
      by_cases hg : E.gitInstalled = false
      · rw [if_pos hg]
        constructor
        · intro _ _ _ hinst
          rw [hg] at hinst
          cases hinst
        · intro _ p hmem
          cases hmem
      · rw [if_neg hg]
        by_cases ha : E.gitApplies patch = true
        · rw [if_pos ha]
          constructor
          · intro hall _ _ _ _ path hpath
            have hc := hall (ws.root ++ path) (List.mem_map_of_mem hpath)
            exact ⟨hc.privateTree, hc.terminal rfl⟩
          · intro hk p hmem
            obtain ⟨path, hpath, rfl⟩ := List.mem_map.mp hmem
            obtain ⟨hpriv, hprot⟩ := hk hm rfl (by simpa using hg) ha path hpath
            refine ⟨List.prefix_append _ _, ?_, hpriv, fun _ => hprot⟩
            intro hro
            rw [hm] at hro
            cases hro
        · rw [if_neg ha]
          exact ⟨fun _ _ _ _ h => absurd h ha, fun _ p hmem => absurd hmem List.not_mem_nil⟩

theorem exportTo_kept_iff (source : Path) (output_path : CallerPath) (export_kind : String) :
    (∀ p ∈ (exportTo E ws source output_path export_kind).written, Confined E ws false p) ↔
      TargetKept E ws false output_path (Exports E ws source export_kind) := by
  rw [targetKept_iff]
  unfold exportTo
  cases hreq : ws.resolve_path E output_path with
  | error e => simp [raised]
  | ok requested =>
    dsimp only
    cases hw : ws._write_target E requested output_path false with
    | error e =>
      constructor
      · rintro _ _ ⟨⟩ target b hok
        rw [hw] at hok
        cases hok
      · intro _ p hmem
        cases hmem
    | ok found =>
      obtain ⟨target, b⟩ := found
      dsimp only
      constructor
      · rintro hall _ ⟨⟩ target' b' hok ⟨hs, ht, hexp, hwr⟩
        rw [hw] at hok
        cases hok
        rw [within_iff.mpr hs, within_iff.mpr ht, hexp, hwr] at hall
        exact hall target List.mem_cons_self
      · intro hall p hmem
        split at hmem
        · rename_i hins
          rw [Bool.and_eq_true] at hins
          split at hmem
          · rename_i hgo
            rw [Bool.and_eq_true] at hgo
            obtain rfl : p = target := by simpa using hmem
            exact hall requested rfl p b hw
              ⟨within_iff.mp hins.1, within_iff.mp hins.2, hgo.1, hgo.2⟩
          · cases hmem
        · cases hmem

theorem export_kept_iff (source_path output_path : CallerPath) (export_kind : String) :
    (∀ p ∈ (export_file E ws source_path output_path export_kind).written,
      Confined E ws false p) ↔ ExportKept E ws source_path output_path export_kind := by
  unfold export_file ExportKept
  cases hr : ws.resolve_file_path E source_path with
  | error e => simp [raised]
  | ok source =>
    dsimp only
    by_cases hf : E.fs.is_file source = false
    · rw [if_pos hf]
      constructor
      · rintro _ _ ⟨⟩ hfile
        rw [hf] at hfile
        cases hfile
      · intro _ p hmem
        cases hmem
    · rw [if_neg hf]
      have hfile : E.fs.is_file source = true := by simpa using hf
      by_cases hkind : export_kind = "copy" ∨ export_kind = "raw"
      · rw [if_pos hkind]
        rw [copy_kept_iff]
        constructor
        · rintro hk _ ⟨⟩ _
          rw [if_pos hkind]
          exact hk
        · intro hk
          have hc := hk source rfl hfile
          rwa [if_pos hkind] at hc
      · rw [if_neg hkind]
        rw [exportTo_kept_iff]
        constructor
        · rintro hk _ ⟨⟩ _
          rw [if_neg hkind]
          exact hk
        · intro hk
          have hc := hk source rfl hfile
          rwa [if_neg hkind] at hc

theorem written_replaceWith {hex digest : String} {source target p : Path}
    (hne : source ≠ target) (hd : E.fs.sha256 source = digest) :
    p ∈ (replaceWith E hex digest source target).written ↔
      Stages E hex source target ∧
        (p = temporary hex target ∨ E.fs.replaceable target = true ∧ p = target) := by
  unfold replaceWith Stages Writable
  by_cases hnil : target = []
  · rw [if_pos hnil]
    simp [raised, hnil]
  · rw [if_neg hnil]
    cases hw : E.fs.writable (temporary hex target) with
    | false => simp [raised]
    | true =>
      rw [if_neg (by simp), if_neg (not_not.mpr hd)]
      cases hr : E.fs.replaceable target with
      | false => simp [hne, hnil]
      | true => simp [hne, hnil]

theorem promoteTo_kept_iff {hex digest : String} {source : Path} {target_path : CallerPath}
    (hd : E.fs.sha256 source = digest) :
    (∀ p ∈ (promoteTo E ws hex digest source target_path).written, Confined E ws true p) ↔
      TargetKept E ws true target_path
        (fun target => Stages E hex source target ∧ E.fs.replaceable target = true) ∧
      StagingKept E ws hex source target_path := by
  rw [targetKept_iff, stagingKept_iff]
  unfold promoteTo
  cases hreq : ws.resolve_path E target_path with
  | error e => simp [raised]
  | ok requested =>
    dsimp only
    cases hw : ws._write_target E requested target_path true with
    | error e =>
      constructor
      · intro _
        constructor
        · rintro _ ⟨⟩ target b hok
          rw [hw] at hok
          cases hok
        · rintro _ ⟨⟩ target b hok
          rw [hw] at hok
          cases hok
      · intro _ p hmem
        cases hmem
    | ok found =>
      obtain ⟨target, b⟩ := found
      dsimp only
      by_cases hsame : source = target
      · rw [if_pos hsame]
        refine ⟨fun _ => ⟨?_, ?_⟩, fun _ p hmem => absurd hmem List.not_mem_nil⟩
        · rintro _ ⟨⟩ target' b' hok ⟨⟨hne, -⟩, -⟩
          rw [hw] at hok
          cases hok
          exact absurd hsame hne
        · rintro _ ⟨⟩ target' b' hok ⟨hne, -⟩
          rw [hw] at hok
          cases hok
          exact absurd hsame hne
      · rw [if_neg hsame]
        constructor
        · intro hall
          constructor
          · rintro _ ⟨⟩ target' b' hok ⟨hst, hrep⟩
            rw [hw] at hok
            cases hok
            exact hall target ((written_replaceWith hsame hd).mpr ⟨hst, .inr ⟨hrep, rfl⟩⟩)
          · rintro _ ⟨⟩ target' b' hok hst
            rw [hw] at hok
            cases hok
            exact hall _ ((written_replaceWith hsame hd).mpr ⟨hst, .inl rfl⟩)
        · rintro ⟨htarget, hcopy⟩ p hmem
          obtain ⟨hst, rfl | ⟨hrep, rfl⟩⟩ := (written_replaceWith hsame hd).mp hmem
          · exact hcopy requested rfl target b hw hst
          · exact htarget requested rfl p b hw ⟨hst, hrep⟩

theorem promote_kept_iff (source_path target_path : CallerPath) (expected_sha256 hex : String) :
    (∀ p ∈ (atomic_promote_file E ws source_path target_path expected_sha256 hex).written,
      Confined E ws true p) ↔
      PromoteKept E ws source_path target_path expected_sha256 hex := by
  unfold atomic_promote_file PromoteKept
  dsimp only
  by_cases hd : isDigest (E.lower (strip expected_sha256)) = false
  · rw [if_pos hd]
    refine ⟨fun _ h => ?_, fun _ p hmem => absurd hmem List.not_mem_nil⟩
    rw [hd] at h
    cases h
  · rw [if_neg hd]
    cases hr : ws.resolve_file_path E source_path with
    | error e => simp [raised]
    | ok source =>
      dsimp only
      by_cases hf : E.fs.is_file source = false
      · rw [if_pos hf]
        refine ⟨?_, fun _ p hmem => absurd hmem List.not_mem_nil⟩
        rintro _ _ _ ⟨⟩ hfile
        rw [hf] at hfile
        cases hfile
      · rw [if_neg hf]
        by_cases hs : E.fs.sha256 source ≠ E.lower (strip expected_sha256)
        · rw [if_pos hs]
          refine ⟨?_, fun _ p hmem => absurd hmem List.not_mem_nil⟩
          rintro _ _ _ ⟨⟩ _ hsame
          exact absurd hsame hs
        · rw [if_neg hs, promoteTo_kept_iff (not_not.mp hs)]
          constructor
          · rintro hk _ _ ⟨⟩ _ _
            exact hk
          · intro hk
            exact hk (by simpa using hd) source rfl (by simpa using hf) (not_not.mp hs)

end

/-- A file system without links: `..` leaves a directory. -/
def lexically : Path → List String → Path
  | path, [] => path
  | path, part :: rest =>
    if part = ".." then lexically path.dropLast rest else lexically (path ++ [part]) rest

theorem lexically_noDots (path : Path) (parts : List String) (h : ".." ∉ path) :
    ".." ∉ lexically path parts := by
  induction parts generalizing path with
  | nil => exact h
  | cons part rest ih =>
    unfold lexically
    split
    · exact ih _ fun hm => h (List.mem_of_mem_dropLast hm)
    · rename_i hne
      apply ih
      intro hm
      rcases List.mem_append.mp hm with hm | hm
      · exact h hm
      · exact hne (List.mem_singleton.mp hm).symm

theorem lexically_of_noDots (path : Path) (parts : List String) (h : ".." ∉ parts) :
    lexically path parts = path ++ parts := by
  induction parts generalizing path with
  | nil => exact (List.append_nil path).symm
  | cons part rest ih =>
    rw [List.mem_cons, not_or] at h
    obtain ⟨hne, hrest⟩ := h
    unfold lexically
    rw [if_neg (Ne.symm hne), ih _ hrest, List.append_assoc]
    rfl

def linkless : FileSystem where
  expanduser path := path
  resolve raw := lexically [] raw.parts
  is_present path := [["w"], ["w", ".agently"], ["w", ".agently", "state.json"]].contains path
  is_file path := decide (path = ["w", ".agently", "state.json"])
  sha256 _ := "digest"
  text _ := some "state"
  writable _ := true
  replaceable _ := true
  resolve_resolved := by
    rintro raw dir ⟨rest, h⟩
    have hdots := lexically_noDots [] raw.parts List.not_mem_nil
    rw [← h] at hdots
    exact lexically_of_noDots [] dir fun hm => hdots (List.mem_append_left _ hm)

def plain : Environment where
  fs := linkless
  lower text := text
  gitInstalled := false
  gitPaths _ := []
  gitApplies _ := false
  exports _ _ := false
  identify _ := .ok ()

def opened : TaskWorkspace := ⟨["w"], .read_write, "t", []⟩

end Agently.TaskWorkspace
