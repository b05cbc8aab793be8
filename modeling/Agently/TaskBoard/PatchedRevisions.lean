import Agently.TaskBoard.HeldRevisions

/-! # What a patch leaves of the revision it is applied to

Source: `apply_task_board_patch`. The list under `applied_patches` is the only object of the
caller that the function writes to. -/

namespace Agently.TaskBoard.Held

open Agently.Lib Agently.Lib.ObjectHeap Agently.Utils
open Agently.TaskDAGValidation (Fault get orElse)

/-- The list under `applied_patches`; without one, no patch was applied. -/
def appliedPatches (cells : Heap Scalar) (metadata : Entries) : List Item :=
  match metadata.get? "applied_patches" with
  | some (.object a) =>
    match cells[a]? with
    | some (.list xs) => xs
    | _ => []
  | _ => []

section Notes

variable (reprOf : Value → String) (o : Objects)

def rebound (operation : Entries) : Option Item :=
  if operationName reprOf (readEntries o operation) = "update_metadata" then
    (updateMetadata [] (entriesOf o (field operation "metadata"))).get? "applied_patches"
  else none

/-- What is under `applied_patches` after the operations: the last of them that puts
something there decides, or else the revision. -/
def noteHolder (r : HeldRevision o) (p : HeldPatch) : Option Item :=
  p.operations.foldl (fun held operation => (rebound reprOf o operation).or held)
    (r.metadata.get? "applied_patches")

def metadataAfter (metadata : Entries) (operations : List Entries) : Entries :=
  operations.foldl (metadataStep reprOf o) metadata

variable {reprOf o}

theorem applyAll_eq (l : Locals) (operations : List Entries) :
    l.applyAll reprOf o operations =
      (Patching.applyAll reprOf l.contents (operations.map (readEntries o))).map fun left =>
        ⟨left, metadataAfter reprOf o l.metadata operations⟩ := by
  induction operations generalizing l with
  | nil => rfl
  | cons operation rest ih =>
    rw [Locals.applyAll, Locals.apply, List.map_cons, Patching.applyAll, metadataAfter,
      List.foldl_cons, ← metadataAfter]
    cases l.contents.apply reprOf (readEntries o operation) with
    | error e => rfl
    | ok left =>
      dsimp only
      rw [ih]

theorem get?_updateMetadata (m value : Entries) (k : String) :
    (updateMetadata m value).get? k = ((updateMetadata [] value).get? k).or (m.get? k) := by
  induction value generalizing m with
  | nil => rfl
  | cons q rest ih =>
    have hm : ∀ m : Entries, updateMetadata m (q :: rest) = updateMetadata (m.set q.1 q.2) rest :=
      fun _ => rfl
    rw [hm m, hm [], ih (m.set q.1 q.2), ih (Dict.set [] q.1 q.2), Option.or_assoc, Dict.get?_set,
      Dict.get?_set]
    by_cases hk : q.1 = k
    · rw [if_pos hk, if_pos hk]
      rfl
    · rw [if_neg hk, if_neg hk]
      rfl

theorem get?_metadataStep (m operation : Entries) :
    (metadataStep reprOf o m operation).get? "applied_patches" =
      (rebound reprOf o operation).or (m.get? "applied_patches") := by
  unfold metadataStep rebound
  by_cases hname : operationName reprOf (readEntries o operation) = "update_metadata"
  · rw [if_pos hname, if_pos hname, get?_updateMetadata]
  · rw [if_neg hname, if_neg hname, Option.none_or]

theorem get?_metadataAfter (m : Entries) (operations : List Entries) :
    (metadataAfter reprOf o m operations).get? "applied_patches" =
      operations.foldl (fun held operation => (rebound reprOf o operation).or held)
        (m.get? "applied_patches") := by
  induction operations generalizing m with
  | nil => rfl
  | cons operation rest ih =>
    rw [metadataAfter, List.foldl_cons, List.foldl_cons, ← metadataAfter, ih, get?_metadataStep]

theorem held_of_none {held : Option Item} {operations : List Entries}
    (h : operations.foldl (fun held operation => (rebound reprOf o operation).or held) held = none) :
    held = none := by
  induction operations generalizing held with
  | nil => exact h
  | cons operation rest ih => exact (Option.or_eq_none_iff.mp (ih h)).2

end Notes

section Reads

variable {reprOf : Value → String} {o : Objects}

end Reads

section Noted

variable {o : Objects} {metadata : Entries} {patchId : String}

theorem notePatch_cases (o : Objects) (metadata : Entries) (patchId : String) :
    (metadata.get? "applied_patches" = none ∧
      notePatch o metadata patchId = (o.cells ++ [.list [.atom (.str patchId)]],
        metadata ++ [("applied_patches", .object o.cells.length)])) ∨
    (∃ a xs, metadata.get? "applied_patches" = some (.object a) ∧ o.cells[a]? = some (.list xs) ∧
      notePatch o metadata patchId =
        (o.cells.set a (.list (xs ++ [.atom (.str patchId)])), metadata)) ∨
    (metadata.get? "applied_patches" ≠ none ∧
      (∀ a xs, metadata.get? "applied_patches" = some (.object a) →
        o.cells[a]? ≠ some (.list xs)) ∧
      notePatch o metadata patchId = (o.cells, metadata)) := by
  unfold notePatch
  cases hg : metadata.get? "applied_patches" with
  | none => exact .inl ⟨rfl, rfl⟩
  | some x =>
    cases x with
    | atom s => exact .inr (.inr ⟨by simp, by simp, rfl⟩)
    | object a =>
      by_cases hl : ∃ xs, o.cells[a]? = some (.list xs)
      · obtain ⟨xs, hc⟩ := hl
        exact .inr (.inl ⟨a, xs, rfl, hc, by simp only [hc]⟩)
      · refine .inr (.inr ⟨by simp, ?_, ?_⟩)
        · intro b xs hb hc
          cases hb
          exact hl ⟨xs, hc⟩
        · split
          · rename_i h
            cases h
          · rename_i h
            cases h
            split
            · exact absurd ⟨_, ‹_›⟩ hl
            · rfl
          · rfl

theorem notePatch_unchanged {roots : List Nat} (hr : ∀ root ∈ roots, root < o.cells.length) :
    Unchanged roots o.cells (notePatch o metadata patchId).1 ↔
      ∀ a xs, metadata.get? "applied_patches" = some (.object a) → o.cells[a]? = some (.list xs) →
        ¬ Reaches o.cells roots a := by
  rcases notePatch_cases o metadata patchId with ⟨hg, hn⟩ | ⟨a, xs, hg, hc, hn⟩ | ⟨-, hl, hn⟩
  · rw [hn, hg]
    constructor
    · intro _ a xs ha
      cases ha
    · intro _
      exact unchanged_alloc o.ordered hr _
  · rw [hn, hg]
    have hset : Unchanged roots o.cells (o.cells.set a (.list (xs ++ [.atom (.str patchId)]))) ↔
        ¬ Reaches o.cells roots a := unchanged_set hc (by simp)
    constructor
    · intro hu b ys hb _
      cases hb
      exact hset.mp hu
    · intro h
      exact hset.mpr (h a xs rfl hc)
  · rw [hn]
    constructor
    · intro _ a xs hg hc
      exact absurd hc (hl a xs hg)
    · intro _
      exact Unchanged.refl roots o.cells

theorem notePatch_applied {before : List Item}
    (hb : metadata.get? "applied_patches" = none → before = []) :
    appliedPatches (notePatch o metadata patchId).1 (notePatch o metadata patchId).2 =
        before ++ [.atom (.str patchId)] ↔
      metadata.get? "applied_patches" = none ∨
        ∃ a, metadata.get? "applied_patches" = some (.object a) ∧
          o.cells[a]? = some (.list before) := by
  rcases notePatch_cases o metadata patchId with ⟨hg, hn⟩ | ⟨a, xs, hg, hc, hn⟩ | ⟨hne, hl, hn⟩
  · have hk : "applied_patches" ∉ metadata.keys := Dict.get?_eq_none_iff.mp hg
    rw [hn, ← Dict.set_of_not_mem hk, hb hg]
    constructor
    · intro _
      exact .inl hg
    · intro _
      simp [appliedPatches]
  · have hlt : a < o.cells.length := (List.getElem?_eq_some_iff.mp hc).1
    have hlist : appliedPatches (o.cells.set a (.list (xs ++ [.atom (.str patchId)]))) metadata =
        xs ++ [.atom (.str patchId)] := by
      simp [appliedPatches, hg, hlt]
    rw [hn, hlist, List.append_cancel_right_eq]
    constructor
    · intro he
      exact .inr ⟨a, hg, he ▸ hc⟩
    · rintro (h | ⟨b, h, hcb⟩)
      · rw [hg] at h
        cases h
      · rw [hg] at h
        cases h
        rw [hc] at hcb
        cases hcb
        rfl
  · rw [hn]
    constructor
    · intro h
      have hlist : appliedPatches o.cells metadata = [] := by
        unfold appliedPatches
        split
        · split
          · exact absurd ‹_› (hl _ _ ‹_›)
          · rfl
        · rfl
      rw [hlist] at h
      simp at h
    · rintro (h | ⟨a, h, hc⟩)
      · exact absurd h hne
      · exact absurd hc (hl a _ h)

end Noted

theorem nextRevisionId_ne {fresh id next : String} (hf : "rev-" ++ fresh ≠ id)
    (h : nextRevisionId fresh id = .ok next) : next ≠ id := by
  unfold nextRevisionId at h
  split at h
  · rename_i suffix hid
    split at h
    · split at h
      · rename_i n hn
        cases h
        intro he
        have hs : suffix = IntText.natText (n.toNat + 1) := by
          rw [← he, String.toList_append, String.toList_ofList] at hid
          have hsuffix : "rev-".toList ++ (String.ofList (IntText.natText (n.toNat + 1))).toList =
              "rev-".toList ++ suffix := hid
          exact (List.append_cancel_left hsuffix).symm.trans String.toList_ofList
        rw [hs, IntText.intOf_natText] at hn
        have hm : ((n.toNat + 1 : Nat) : Int) = n := Option.some.inj hn
        omega
      · cases h
    · cases h
      exact hf
  · cases h
    exact hf

theorem valid_congr {r r' : TaskBoardRevision} (hg : r'.graph = r.graph)
    (hc : r'.cardResults = r.cardResults) : ValidRevision r' ↔ ValidRevision r := by
  rw [← validate_iff, ← validate_iff]
  unfold validateTaskBoardRevision
  rw [hg, hc]

section Claims

variable (reprOf : Value → String) (fresh : DrawnIds) (o : Objects)

/-- A patch is atomic on a revision: nothing the revision consists of changes, and what is
returned is a valid revision of another id that lists the patch after those before it. A patch
for another revision is refused. -/
structure AtomicPatch (argument : RevisionArgument o) (r : HeldRevision o) (patch : PatchArgument) :
    Prop where
  unchanged : Unchanged r.roots o.cells (applyTaskBoardPatch reprOf fresh o argument patch).1
  returned : ∀ n, (applyTaskBoardPatch reprOf fresh o argument patch).2 = .ok n →
    ValidRevision n.revision ∧ n.revision.revisionId ≠ r.revision.revisionId ∧
    ∃ p, patch.patch reprOf fresh.patch o = .ok p ∧
      appliedPatches (applyTaskBoardPatch reprOf fresh o argument patch).1 n.metadata =
        appliedPatches o.cells r.metadata ++ [.atom (.str p.patchId)]
  refused : ∀ p, patch.patch reprOf fresh.patch o = .ok p →
    p.baseRevision ≠ r.revision.revisionId →
    ∃ e, (applyTaskBoardPatch reprOf fresh o argument patch).2 = .error e

/-- Where the patch is for the revision and no operation is refused: the list under
`applied_patches` is none of the revision's own, and if the patched board is returned there is no
such list, or one with the patches of the revision. -/
structure ListApart (r : HeldRevision o) (p : HeldPatch) (left : Patching) : Prop where
  foreign : ∀ a xs, noteHolder reprOf o r p = some (.object a) → o.cells[a]? = some (.list xs) →
    ¬ Reaches o.cells r.roots a
  same : (∃ id, nextRevisionId fresh.nextRevision r.revision.revisionId = .ok id) →
    ValidRevision (r.revision.patched (p.read o) left fresh.nextRevision) →
    noteHolder reprOf o r p = none ∨ ∃ a, noteHolder reprOf o r p = some (.object a) ∧
      o.cells[a]? = some (.list (appliedPatches o.cells r.metadata))

/-- What the operations leave of the board, `none` where the patch is for another revision or
an operation is refused. -/
def leftOf (r : HeldRevision o) (p : HeldPatch) : Option Patching :=
  if p.baseRevision = r.revision.revisionId then
    match Patching.applyAll reprOf (Locals.start o r).contents (p.read o).operations with
    | .ok left => some left
    | .error _ => none
  else none

variable {reprOf fresh o}

variable {argument : RevisionArgument o} {r : HeldRevision o} {patch : PatchArgument}
  {p : HeldPatch}

theorem applyTaskBoardPatch_eq
    (hr : argument.revision reprOf fresh.boardRevision = .ok r) (hv : ValidRevision r.revision)
    (hp : patch.patch reprOf fresh.patch o = .ok p) :
    applyTaskBoardPatch reprOf fresh o argument patch = applyPatch reprOf fresh o r p := by
  unfold applyTaskBoardPatch
  rw [hr]
  simp only [(validate_iff r.revision).mpr hv, hp]

theorem applyPatch_refused (fresh : DrawnIds) (h : leftOf reprOf o r p = none) :
    ∃ e, applyPatch reprOf fresh o r p = (o.cells, .error e) := by
  unfold applyPatch
  by_cases hb : p.baseRevision = r.revision.revisionId
  · rw [if_neg (fun hn => hn hb), applyAll_eq]
    simp only [leftOf, if_pos hb, HeldPatch.read] at h
    cases ha : Patching.applyAll reprOf (Locals.start o r).contents
        (p.operations.map (readEntries o)) with
    | error e => exact ⟨e, rfl⟩
    | ok left =>
      rw [ha] at h
      cases h
  · rw [if_pos hb]
    exact ⟨_, rfl⟩

variable {left : Patching}

theorem applyPatch_left (fresh : DrawnIds) (h : leftOf reprOf o r p = some left) :
    p.baseRevision = r.revision.revisionId ∧ applyPatch reprOf fresh o r p =
      finish fresh o r p ⟨left, metadataAfter reprOf o r.metadata p.operations⟩ := by
  unfold leftOf at h
  split at h
  · rename_i hb
    refine ⟨hb, ?_⟩
    unfold applyPatch
    rw [if_neg (fun hn => hn hb), applyAll_eq]
    cases ha : Patching.applyAll reprOf (Locals.start o r).contents
        (p.operations.map (readEntries o)) with
    | error e =>
      simp only [HeldPatch.read, ha] at h
      cases h
    | ok left' =>
      simp only [HeldPatch.read, ha] at h
      cases h
      rfl
  · cases h

theorem nextOf_valid (fresh : DrawnIds) (r : HeldRevision o) (p : HeldPatch) (left : Patching) (id : String)
    (noted : Heap Scalar × Entries) :
    ValidRevision (nextOf fresh o r p left id noted) ↔
      ValidRevision (r.revision.patched (p.read o) left fresh.nextRevision) :=
  valid_congr rfl rfl

theorem finish_spec (fresh : DrawnIds) (r : HeldRevision o) (p : HeldPatch) (l : Locals) :
    (finish fresh o r p l).1 = (notePatch o l.metadata p.patchId).1 ∧
    ∀ n, (finish fresh o r p l).2 = .ok n ↔
      ∃ id, nextRevisionId fresh.nextRevision r.revision.revisionId = .ok id ∧
        ValidRevision (r.revision.patched (p.read o) l.contents fresh.nextRevision) ∧
        n = ⟨nextOf fresh o r p l.contents id (notePatch o l.metadata p.patchId),
          (notePatch o l.metadata p.patchId).2⟩ := by
  unfold finish
  cases hid : nextRevisionId fresh.nextRevision r.revision.revisionId with
  | error e => simp
  | ok id =>
    have hcongr := nextOf_valid fresh r p l.contents id (notePatch o l.metadata p.patchId)
    cases hval : validateTaskBoardRevision
        (nextOf fresh o r p l.contents id (notePatch o l.metadata p.patchId)) with
    | error e =>
      have hn := mt (validate_iff _).mpr (by rw [hval]; simp)
      simp [hval, ← hcongr, hn]
    | ok u =>
      have hy := (validate_iff _).mp hval
      simp [hval, ← hcongr, hy, eq_comm]

theorem holder_after (reprOf : Value → String) (r : HeldRevision o) (p : HeldPatch) :
    (metadataAfter reprOf o r.metadata p.operations).get? "applied_patches" = noteHolder reprOf o r p :=
  get?_metadataAfter r.metadata p.operations

theorem appliedPatches_of_none
    (h : noteHolder reprOf o r p = none) : appliedPatches o.cells r.metadata = [] := by
  have hr : r.metadata.get? "applied_patches" = none := held_of_none h
  simp [appliedPatches, hr]

theorem atomic_of_error
    {e : Fault} (h : applyTaskBoardPatch reprOf fresh o argument patch = (o.cells, .error e)) :
    AtomicPatch reprOf fresh o argument r patch where
  unchanged := by
    rw [h]
    exact Unchanged.refl _ _
  returned := by
    intro n hn
    rw [h] at hn
    cases hn
  refused := by
    intro p _ _
    rw [h]
    exact ⟨e, rfl⟩

theorem listApart_of_atomic (hp : patch.patch reprOf fresh.patch o = .ok p)
    (hout : applyTaskBoardPatch reprOf fresh o argument patch =
      finish fresh o r p ⟨left, metadataAfter reprOf o r.metadata p.operations⟩)
    (h : AtomicPatch reprOf fresh o argument r patch) : ListApart reprOf fresh o r p left := by
  obtain ⟨hcells, hok⟩ :=
    finish_spec fresh r p ⟨left, metadataAfter reprOf o r.metadata p.operations⟩
  constructor
  · have hu := h.unchanged
    rw [hout, hcells, notePatch_unchanged r.present, holder_after] at hu
    exact hu
  · rintro ⟨id, hid⟩ hv
    obtain ⟨-, -, p', hp', happ⟩ := h.returned _ (by rw [hout]; exact (hok _).mpr ⟨id, hid, hv, rfl⟩)
    rw [hp] at hp'
    cases hp'
    rw [hout, hcells] at happ
    rw [← holder_after]
    exact (notePatch_applied fun hn =>
      appliedPatches_of_none ((holder_after reprOf r p).symm.trans hn)).mp happ

theorem atomic_of_listApart
    (hp : patch.patch reprOf fresh.patch o = .ok p) (hb : p.baseRevision = r.revision.revisionId)
    (hf : "rev-" ++ fresh.nextRevision ≠ r.revision.revisionId)
    (hout : applyTaskBoardPatch reprOf fresh o argument patch =
      finish fresh o r p ⟨left, metadataAfter reprOf o r.metadata p.operations⟩)
    (h : ListApart reprOf fresh o r p left) : AtomicPatch reprOf fresh o argument r patch := by
  obtain ⟨hcells, hok⟩ :=
    finish_spec fresh r p ⟨left, metadataAfter reprOf o r.metadata p.operations⟩
  constructor
  · rw [hout, hcells, notePatch_unchanged r.present, holder_after]
    exact h.foreign
  · intro n hn
    rw [hout] at hn
    obtain ⟨id, hid, hv, rfl⟩ := (hok n).mp hn
    refine ⟨(nextOf_valid fresh r p left id _).mpr hv, nextRevisionId_ne hf hid, p, hp, ?_⟩
    have hsame := h.same ⟨id, hid⟩ hv
    rw [← holder_after] at hsame
    rw [hout, hcells]
    exact (notePatch_applied fun hn =>
      appliedPatches_of_none ((holder_after reprOf r p).symm.trans hn)).mpr hsame
  · intro p' hp' hne
    rw [hp] at hp'
    cases hp'
    exact absurd hb hne

/-- Patches are atomic exactly when the list they are noted in is not one of the revision's
own and lists what the revision lists. -/
theorem patches_atomic (reprOf : Value → String) (fresh : DrawnIds) (o : Objects)
    (argument : RevisionArgument o) (r : HeldRevision o)
    (hr : argument.revision reprOf fresh.boardRevision = .ok r) (hv : ValidRevision r.revision)
    (hf : "rev-" ++ fresh.nextRevision ≠ r.revision.revisionId) (patch : PatchArgument) :
    AtomicPatch reprOf fresh o argument r patch ↔
      ∀ p left, patch.patch reprOf fresh.patch o = .ok p → leftOf reprOf o r p = some left →
        ListApart reprOf fresh o r p left := by
  cases hp : patch.patch reprOf fresh.patch o with
  | error e =>
    have hout : applyTaskBoardPatch reprOf fresh o argument patch = (o.cells, .error e) := by
      unfold applyTaskBoardPatch
      rw [hr]
      simp only [(validate_iff r.revision).mpr hv, hp]
    constructor
    · intro _ p left h
      cases h
    · intro _
      exact atomic_of_error hout
  | ok p =>
    have heq := applyTaskBoardPatch_eq hr hv hp
    cases hl : leftOf reprOf o r p with
    | none =>
      obtain ⟨e, he⟩ := applyPatch_refused fresh hl
      constructor
      · intro _ p' left hp' hleft
        cases hp'
        rw [hl] at hleft
        cases hleft
      · intro _
        exact atomic_of_error (heq.trans he)
    | some left =>
      obtain ⟨hb, hfin⟩ := applyPatch_left fresh hl
      constructor
      · intro h p' left' hp' hleft
        cases hp'
        rw [hl] at hleft
        cases hleft
        exact listApart_of_atomic hp (heq.trans hfin) h
      · intro h
        exact atomic_of_listApart hp hb hf (heq.trans hfin) (h p left rfl hl)

end Claims

def singleCard : TaskBoardGraph where
  graphId := "graph"
  cards := [{ id := "a", objective := "work" }]

def unpatched : Objects where
  cells := [.dict []]
  ordered := by
    intro a c ha
    cases a with
    | zero =>
      cases ha
      intro b hb
      cases hb
    | succ a => cases ha

def unpatchedRevision : HeldRevision unpatched where
  revision := { boardId := "board", revisionId := "rev-0", graph := singleCard }
  roots := [0]
  metadata := []
  present := by
    intro root hroot
    rw [List.mem_singleton.mp hroot]
    exact Nat.one_pos
  inside := by
    intro q hq
    cases hq
  read := rfl

theorem unpatched_valid : ValidRevision unpatchedRevision.revision :=
  (validate_iff unpatchedRevision.revision).mp rfl

def plainRepr : Value → String := fun _ => ""

def drawnIds : DrawnIds := ⟨"aa", "bb", "cc"⟩

def firstPatch : HeldPatch where
  baseRevision := "rev-0"
  operations := []
  patchId := "patch-1"

theorem first_patch_atomic :
    AtomicPatch plainRepr drawnIds unpatched (.object unpatchedRevision) unpatchedRevision
      (.object firstPatch) := by
  apply (patches_atomic plainRepr drawnIds unpatched (.object unpatchedRevision) unpatchedRevision rfl
    unpatched_valid (by decide) (.object firstPatch)).mpr
  intro p left hp _
  cases hp
  constructor
  · intro a xs ha
    cases ha
  · intro _ _
    exact .inl rfl

def patchedOnce : Objects where
  cells := [.list [.atom (.str "patch-1")], .dict [("applied_patches", .object 0)]]
  ordered := by
    intro a c ha b hb
    cases a with
    | zero =>
      cases ha
      cases hb
    | succ a =>
      cases a with
      | zero =>
        cases ha
        have hz : b = 0 := List.mem_singleton.mp hb
        omega
      | succ a => cases ha

def patchedOnceRevision : HeldRevision patchedOnce where
  revision :=
    { boardId := "board", revisionId := "rev-1", graph := singleCard
      metadata := [("applied_patches", .list [.str "patch-1"])] }
  roots := [1]
  metadata := [("applied_patches", .object 0)]
  present := by
    intro root hroot
    rw [List.mem_singleton.mp hroot]
    exact Nat.one_lt_two
  inside := by
    intro q hq a ha
    rw [List.mem_singleton.mp hq] at ha
    cases ha
    exact ⟨1, List.mem_singleton_self 1, .single ⟨_, rfl, List.mem_singleton_self 0⟩⟩
  read := rfl

theorem patchedOnce_valid : ValidRevision patchedOnceRevision.revision :=
  (validate_iff patchedOnceRevision.revision).mp rfl

def secondPatch : HeldPatch where
  baseRevision := "rev-1"
  operations := []
  patchId := "patch-2"

theorem second_patch_writes_back :
    ¬ ∀ (reprOf : Value → String) (fresh : DrawnIds) (o : Objects) (argument : RevisionArgument o)
      (r : HeldRevision o), argument.revision reprOf fresh.boardRevision = .ok r →
      ValidRevision r.revision → "rev-" ++ fresh.nextRevision ≠ r.revision.revisionId →
      ∀ patch : PatchArgument, AtomicPatch reprOf fresh o argument r patch := by
  intro h
  have ha := h plainRepr drawnIds patchedOnce (.object patchedOnceRevision) patchedOnceRevision rfl
    patchedOnce_valid (by decide) (.object secondPatch)
  have hleft : leftOf plainRepr patchedOnce patchedOnceRevision secondPatch =
      some (Locals.start patchedOnce patchedOnceRevision).contents := rfl
  have hout : applyTaskBoardPatch plainRepr drawnIds patchedOnce (.object patchedOnceRevision)
      (.object secondPatch) = applyPatch plainRepr drawnIds patchedOnce patchedOnceRevision secondPatch :=
    applyTaskBoardPatch_eq rfl patchedOnce_valid rfl
  have hapart := listApart_of_atomic rfl (hout.trans (applyPatch_left drawnIds hleft).2) ha
  exact hapart.foreign 0 _ rfl rfl ⟨1, List.mem_singleton_self 1, .single ⟨_, rfl, List.mem_singleton_self 0⟩⟩

end Agently.TaskBoard.Held
