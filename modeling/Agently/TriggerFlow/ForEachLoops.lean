import Agently.TriggerFlow.BatchFanOuts
import Agently.TriggerFlow.GateFirings

/-! # The loops of `for_each`

Source: `TriggerFlow/process/ForEachProcess.py`, `TriggerFlow/BluePrint.py`,
`types/trigger_flow/trigger_flow.py`. A fan-out marks a layer for itself and one for each item,
and keeps the results of its items under its own mark. The last item that ends goes on in the
layer outside with the results in the order of the items. -/

namespace Agently.TriggerFlow

open Agently.Lib Agently.Utils

variable {V : Type}

def upperLayerMark (marks : List String) : Option String := marks.dropLast.getLast?

def layerMark (marks : List String) : Option String := marks.getLast?

def loopPath (inst : String) : List String := ["for_each_results", inst]

def resultPath (key : String) : List String := StateData.pathOf ("for_each_results" ++ "." ++ key)

def loopEntries (inst : String) (store : GateNode V) : GateState V :=
  match Node.get (loopPath inst) store with
  | some (.dict entries) => entries
  | _ => []

abbrev LoopEmission (V : Type) := List String × List (GateNode V)

def collectResults (marks : List String) (value : V) (store : GateNode V) :
    GateNode V × Except GateError (Option (LoopEmission V)) :=
  match upperLayerMark marks, layerMark marks with
  | some inst, some item =>
    match Node.get (loopPath inst) store with
    | none => (store, .ok none)
    | some (.leaf _) => (store, .error .typeError)
    | some (.dict entries) =>
      if (Dict.get? entries item).isSome then
        match Node.set (resultPath (inst ++ "." ++ item)) (.leaf (.value value)) store with
        | none => (store, .error .typeError)
        | some store =>
          let results := loopEntries inst store
          if results.any fun p => isEmptyCell p.2 then (store, .ok none)
          else (store, .ok (some (marks.dropLast.dropLast, results.map Prod.snd)))
      else (store, .ok none)
  | _, _ => (store, .error .attributeError)

def deleteResults (marks : List String) (store : GateNode V) : GateNode V :=
  match upperLayerMark marks with
  | some inst => Node.del (resultPath inst) store
  | none => store

/-- `prepare_item` for each item: its mark is entered as `EMPTY`. -/
def prepareItems (inst : String) : List String → GateNode V → Option (GateNode V)
  | [], store => some store
  | item :: rest, store =>
    (Node.set (resultPath (inst ++ "." ++ item)) (.leaf .empty) store).bind
      (prepareItems inst rest)

/-- A fan-out of the `for_each` with this id; `items` are the marks of its items in the order of
the list, `last` is the item whose handler has emitted. -/
structure Loop (V : Type) where
  forEachId : String
  outer : List String
  inst : String
  items : List (String × Phase V)
  outcomes : List (Except GateError (Option (LoopEmission V))) := []
  last : Option String := none
  deleted : Bool := false

namespace Loop

variable (l : Loop V)

def itemMarks (item : String) : List String := l.outer ++ [l.inst] ++ [item]

def continuations : List (LoopEmission V) := l.outcomes.filterMap fun o =>
  match o with
  | .ok emitted => emitted
  | .error _ => none

def setPhase (item : String) (phase : Phase V) : Loop V :=
  { l with items := Dict.set l.items item phase }

end Loop

structure LoopRun (V : Type) where
  store : GateNode V := .dict []
  loops : List (Loop V) := []

section Runs

variable (concurrency : String → Option Int)

/-- `send_items` up to its emissions; an empty list goes on at once. -/
def LoopRun.start (s : LoopRun V) (forEachId : String) (outer : List String) (inst : String)
    (items : List String) : LoopRun V :=
  let l : Loop V := {
    forEachId := forEachId
    outer := outer
    inst := inst
    items := items.map fun item => (item, .waiting) }
  match prepareItems inst items s.store with
  | none => { s with loops := s.loops ++ [{ l with outcomes := [.error .typeError] }] }
  | some store =>
    { store := store
      loops := s.loops ++ [{ l with
        outcomes := if items = [] then [.ok (some (outer, []))] else [] }] }

def LoopRun.begin (s : LoopRun V) (i : Nat) (l : Loop V) (item : String) : LoopRun V :=
  { s with loops := s.loops.set i (l.setPhase item .running) }

/-- The branch of an item brings a value to `end_for_each` with these marks. -/
def LoopRun.collect (s : LoopRun V) (i : Nat) (l : Loop V) (item : String) (marks : List String)
    (v : V) : LoopRun V :=
  let result := collectResults marks v s.store
  { store := result.1
    loops := s.loops.set i { l.setPhase item (.reached v) with
      outcomes := l.outcomes ++ [result.2]
      last := match result.2 with
        | .ok (some _) => some item
        | _ => l.last } }

/-- The emission of an item is over; `returned` tells whether it did not raise. -/
def LoopRun.leave (s : LoopRun V) (i : Nat) (l : Loop V) (item : String) (v : V)
    (returned : Bool) : LoopRun V :=
  if l.last = some item ∧ returned = true then
    { store := deleteResults (l.itemMarks item) s.store
      loops := s.loops.set i { l.setPhase item (.left v) with deleted := true } }
  else { s with loops := s.loops.set i (l.setPhase item (.left v)) }

def LoopRun.permitsHeld (s : LoopRun V) (forEachId : String) : Nat :=
  ((s.loops.filter fun l => l.forEachId = forEachId).flatMap Loop.items).countP
    fun p => p.2.holdsPermit

def LoopRun.HasPermit (s : LoopRun V) (forEachId : String) : Prop :=
  ∀ n, concurrency forEachId = some n → 0 < n → (s.permitsHeld forEachId : Int) < n

/-- The marks of `layer_in` have no dots and are new. -/
structure NewLoop (s : LoopRun V) (inst : String) (items : List String) : Prop where
  plain : '.' ∉ inst.toList ∧ ∀ item ∈ items, '.' ∉ item.toList
  distinct : items.Nodup
  unused : ∀ l ∈ s.loops, l.inst ≠ inst

def Returns (s : LoopRun V) (l : Loop V) (item : String) (marks : List String) : Prop :=
  marks = l.itemMarks item ∨ ∃ inner ∈ s.loops, inner.outer = l.itemMarks item ∧
    ∃ c ∈ inner.continuations, c.1 = marks

inductive LoopStep : LoopRun V → LoopRun V → Prop
  | start (s : LoopRun V) (forEachId : String) (outer : List String) (inst : String)
      (items : List String) (new : NewLoop s inst items) :
      LoopStep s (s.start forEachId outer inst items)
  | begin (s : LoopRun V) (i : Nat) (l : Loop V) (item : String) (at_i : s.loops[i]? = some l)
      (phase : Dict.get? l.items item = some .waiting)
      (permit : s.HasPermit concurrency l.forEachId) : LoopStep s (s.begin i l item)
  | collect (s : LoopRun V) (i : Nat) (l : Loop V) (item : String) (marks : List String) (v : V)
      (at_i : s.loops[i]? = some l) (phase : Dict.get? l.items item = some .running)
      (back : Returns s l item marks) : LoopStep s (s.collect i l item marks v)
  | leave (s : LoopRun V) (i : Nat) (l : Loop V) (item : String) (v : V) (returned : Bool)
      (at_i : s.loops[i]? = some l) (phase : Dict.get? l.items item = some (.reached v)) :
      LoopStep s (s.leave i l item v returned)

def LoopReaches (s : LoopRun V) : Prop := Relation.ReflTransGen (LoopStep concurrency) {} s

/-- The handlers of a fan-out raise nothing, and it goes on once, in the layer outside, with one
result for each item in the order of the items, when all have come back. -/
structure JoinsLoop (l : Loop V) : Prop where
  accepted : ∀ o ∈ l.outcomes, ∃ emitted, o = .ok emitted
  pending : (∃ p ∈ l.items, p.2.result = none) → l.continuations = []
  joined : (∀ p ∈ l.items, p.2.result.isSome = true) →
    ∃ results, l.continuations = [(l.outer, results)] ∧
      List.Forall₂ (fun p node => ∃ v, p.2.result = some v ∧ node = .leaf (.value v))
        l.items results

end Runs

def loopState (items : List (String × Phase V)) : GateState V :=
  items.map fun p => (p.1, .leaf (cellOf p.2.result))

variable {items : List (String × Phase V)} {item : String}

theorem set_items (hn : (items.map Prod.fst).Nodup)
    (hi : item ∈ items.map Prod.fst) (phase : Phase V) :
    Dict.set items item phase = items.map fun p => (p.1, if p.1 = item then phase else p.2) := by
  have hset := Dict.set_map Prod.fst Prod.snd hn hi phase
  simpa using hset

theorem set_loopState (hn : (items.map Prod.fst).Nodup) (hi : item ∈ items.map Prod.fst) (v : V) :
    Dict.set (loopState items) item (.leaf (.value v)) =
      loopState (Dict.set items item (.reached v)) := by
  rw [set_items hn hi, loopState, loopState, List.map_map]
  refine (Dict.set_map Prod.fst _ hn hi _).trans (List.map_congr_left fun p _ => Prod.ext rfl ?_)
  simp only [Function.comp_apply]
  by_cases hp : p.1 = item
  · rw [if_pos hp, if_pos hp]
    rfl
  · rw [if_neg hp, if_neg hp]

theorem any_loopState (items : List (String × Phase V)) :
    ((loopState items).any fun p => isEmptyCell p.2) =
      !(items.all fun p => p.2.result.isSome) := by
  rw [loopState, List.any_map, List.not_all_eq_any_not]
  refine congrArg (fun g => items.any g) (funext fun p => ?_)
  rw [Function.comp_apply, isEmptyCell_leaf, cellOf_filled]

variable {inst : String}

theorem apart_insts {inst' : String} (h : inst ≠ inst') (p q : List String) :
    Node.Apart (loopPath inst ++ p) (loopPath inst' ++ q) := by
  refine ⟨fun hp => ?_, fun hq => ?_⟩
  · obtain ⟨-, hp⟩ := List.cons_prefix_cons.mp hp
    exact h (List.cons_prefix_cons.mp hp).1
  · obtain ⟨-, hq⟩ := List.cons_prefix_cons.mp hq
    exact h (List.cons_prefix_cons.mp hq).1.symm

theorem resultPath_inst (h : '.' ∉ inst.toList) :
    resultPath inst = loopPath inst := by
  rw [resultPath, StateData.pathOf_append, StateData.pathOf_plain h,
    StateData.pathOf_plain (by decide)]
  rfl

theorem resultPath_item (h : '.' ∉ inst.toList) (hi : '.' ∉ item.toList) :
    resultPath (inst ++ "." ++ item) = loopPath inst ++ [item] := by
  rw [resultPath, StateData.pathOf_append, StateData.pathOf_append, StateData.pathOf_plain h,
    StateData.pathOf_plain hi, StateData.pathOf_plain (by decide)]
  rfl

structure SameLoop (inst : String) (store store' : GateNode V) : Prop where
  get : Node.get (loopPath inst) store' = Node.get (loopPath inst) store
  set : ∀ item m, (Node.set (loopPath inst ++ [item]) m store').isSome =
    (Node.set (loopPath inst ++ [item]) m store).isSome

variable {store store' : GateNode V}

theorem sameLoop_set {inst' : String} (h : inst ≠ inst')
    {n : GateNode V} (hs : Node.set (loopPath inst ++ [item]) n store = some store') :
    SameLoop inst' store store' := by
  have hget := apart_insts h [item] []
  rw [List.append_nil] at hget
  exact ⟨Node.get_set_of_apart hget hs,
    fun item' m => Node.isSome_set_of_apart (apart_insts h [item] [item']) hs m⟩

theorem sameLoop_del {inst' : String} (h : inst ≠ inst') (store : GateNode V) :
    SameLoop inst' store (Node.del (loopPath inst) store) := by
  have hget := apart_insts h [] []
  have hset := fun item' => apart_insts h [] [item']
  simp only [List.append_nil] at hget hset
  exact ⟨Node.get_del_of_apart hget store,
    fun item' m => Node.isSome_set_del_of_apart (hset item') store m⟩

theorem prepareItems_spec (hinst : '.' ∉ inst.toList) {items : List String}
    (hplain : ∀ item ∈ items, '.' ∉ item.toList) {entries : GateState V}
    (hn : (entries.map Prod.fst ++ items).Nodup)
    (hget : Node.get (loopPath inst) store = some (.dict entries)) :
    ∃ store', prepareItems inst items store = some store' ∧
      Node.get (loopPath inst) store' =
        some (.dict (entries ++ items.map fun item => (item, .leaf .empty))) ∧
      ∀ inst', inst ≠ inst' → SameLoop inst' store store' := by
  induction items generalizing entries store with
  | nil => exact ⟨store, rfl, by simpa using hget, fun _ _ => ⟨rfl, fun _ _ => rfl⟩⟩
  | cons item rest ih =>
    have hitem := hplain item List.mem_cons_self
    obtain ⟨store₁, hs⟩ := Option.isSome_iff_exists.mp
      (Node.isSome_set_entry hget item (.leaf .empty))
    have hnot : item ∉ entries.map Prod.fst := by
      intro hm
      exact (List.nodup_append.mp hn).2.2 item hm item List.mem_cons_self rfl
    have hget₁ := Node.get_set_entry hget hs
    rw [Dict.set_of_not_mem hnot] at hget₁
    have hn₁ : ((entries ++ [(item, (.leaf .empty : GateNode V))]).map Prod.fst ++ rest).Nodup := by
      simpa using hn
    obtain ⟨store', hp, hget', hsame⟩ :=
      ih (List.forall_mem_cons.mp hplain).2 hn₁ hget₁
    refine ⟨store', ?_, by simpa using hget', fun inst' hne => ?_⟩
    · rw [prepareItems, resultPath_item hinst hitem, hs]
      exact hp
    · have h₁ := sameLoop_set hne hs
      have h₂ := hsame inst' hne
      exact ⟨h₂.get.trans h₁.get, fun i m => (h₂.set i m).trans (h₁.set i m)⟩

theorem prepareItems_new (hinst : '.' ∉ inst.toList) {items : List String}
    (hplain : ∀ item ∈ items, '.' ∉ item.toList) (hn : items.Nodup) (hne : items ≠ [])
    (hget : Node.get (loopPath inst) store = none)
    (hset : ∀ item m, (Node.set (loopPath inst ++ [item]) m store).isSome = true) :
    ∃ store', prepareItems inst items store = some store' ∧
      Node.get (loopPath inst) store' =
        some (.dict (items.map fun item => (item, .leaf .empty))) ∧
      ∀ inst', inst ≠ inst' → SameLoop inst' store store' := by
  cases items with
  | nil => exact absurd rfl hne
  | cons item rest =>
    obtain ⟨store₁, hs⟩ := Option.isSome_iff_exists.mp (hset item (.leaf .empty))
    have hget₁ := Node.get_set_first hget hs
    have hn₁ : (([(item, (.leaf .empty : GateNode V))]).map Prod.fst ++ rest).Nodup := by
      simpa using hn
    obtain ⟨store', hp, hget', hsame⟩ :=
      prepareItems_spec hinst (List.forall_mem_cons.mp hplain).2 hn₁ hget₁
    refine ⟨store', ?_, hget', fun inst' hne => ?_⟩
    · rw [prepareItems, resultPath_item hinst (hplain item List.mem_cons_self), hs]
      exact hp
    · have h₁ := sameLoop_set hne hs
      have h₂ := hsame inst' hne
      exact ⟨h₂.get.trans h₁.get, fun i m => (h₂.set i m).trans (h₁.set i m)⟩

def AllBack (items : List (String × Phase V)) : Prop := ∀ p ∈ items, p.2.result.isSome = true

structure LoopInvariant (store : GateNode V) (l : Loop V) : Prop where
  items_nodup : (l.items.map Prod.fst).Nodup
  plain : '.' ∉ l.inst.toList ∧ ∀ item ∈ l.items.map Prod.fst, '.' ∉ item.toList
  accepted : ∀ o ∈ l.outcomes, ∃ emitted, o = .ok emitted
  joined : AllBack l.items → l.continuations = [(l.outer, (loopState l.items).map Prod.snd)]
  pending : ¬ AllBack l.items → l.continuations = [] ∧ l.last = none
  stored : l.deleted = false → l.items ≠ [] →
    Node.get (loopPath l.inst) store = some (.dict (loopState l.items))
  gone : l.deleted = true → ∃ item v, l.last = some item ∧ Dict.get? l.items item = some (.left v)

structure LoopsInvariant (s : LoopRun V) : Prop where
  each : ∀ l ∈ s.loops, LoopInvariant s.store l
  distinct : (s.loops.map Loop.inst).Nodup
  free : ∀ inst, inst ∉ s.loops.map Loop.inst →
    Node.get (loopPath inst) s.store = none ∧
      ∀ item m, (Node.set (loopPath inst ++ [item]) m s.store).isSome = true

theorem SameLoop.refl (inst : String) (store : GateNode V) : SameLoop inst store store :=
  ⟨rfl, fun _ _ => rfl⟩

variable {l : Loop V}

theorem LoopInvariant.of_same (h : LoopInvariant store l)
    (hsame : SameLoop l.inst store store') : LoopInvariant store' l := by
  refine ⟨h.items_nodup, h.plain, h.accepted, h.joined, h.pending, fun hd hne => ?_, h.gone⟩
  rw [hsame.get]
  exact h.stored hd hne

variable {s : LoopRun V}

theorem LoopsInvariant.update (h : LoopsInvariant s) {i : Nat} {l' : Loop V}
    (hl : s.loops[i]? = some l) (hinst : l'.inst = l.inst)
    (hnew : LoopInvariant store' l')
    (hframe : ∀ inst', l.inst ≠ inst' → SameLoop inst' s.store store') :
    LoopsInvariant { store := store', loops := s.loops.set i l' } := by
  have hil : i < s.loops.length := (List.getElem?_eq_some_iff.mp hl).1
  have hmap : (s.loops.set i l').map Loop.inst = s.loops.map Loop.inst := by
    rw [List.map_set, hinst, ← (List.getElem?_eq_some_iff.mp hl).2, ← List.getElem_map Loop.inst]
    exact List.set_getElem_self (by simpa using hil)
  have hmem : l.inst ∈ s.loops.map Loop.inst := List.mem_map_of_mem (List.mem_of_getElem? hl)
  refine ⟨?_, ?_, ?_⟩
  · intro g hg
    obtain ⟨j, hj⟩ := List.mem_iff_getElem?.mp hg
    rw [List.getElem?_set] at hj
    by_cases hij : i = j
    · subst hij
      rw [if_pos rfl, if_pos hil] at hj
      rw [← Option.some.inj hj]
      exact hnew
    · rw [if_neg hij] at hj
      refine (h.each g (List.mem_of_getElem? hj)).of_same (hframe g.inst fun he => hij ?_)
      refine (List.getElem?_inj (by simpa using hil) h.distinct).mp ?_
      rw [List.getElem?_map, List.getElem?_map, hl, hj]
      exact congrArg some he
  · rw [hmap]
    exact h.distinct
  · intro inst hfree
    rw [hmap] at hfree
    have hsame := hframe inst fun he => hfree (he ▸ hmem)
    obtain ⟨hnone, hset⟩ := h.free inst hfree
    refine ⟨hsame.get.trans hnone, fun item m => ?_⟩
    rw [hsame.set]
    exact hset item m

theorem allBack_iff (items : List (String × Phase V)) :
    AllBack items ↔ ((loopState items).any fun p => isEmptyCell p.2) = false := by
  rw [any_loopState, Bool.not_eq_false', List.all_eq_true]
  rfl

variable {phase phase' : Phase V}

theorem loopState_set_same (hn : (items.map Prod.fst).Nodup)
    (hp : Dict.get? items item = some phase)
    (hr : phase'.result = phase.result) :
    loopState (Dict.set items item phase') = loopState items := by
  have hi : item ∈ items.map Prod.fst := List.mem_map_of_mem (Dict.mem_of_get? hp)
  rw [set_items hn hi, loopState, loopState, List.map_map]
  refine List.map_congr_left fun p hpm => Prod.ext rfl ?_
  simp only [Function.comp_apply]
  by_cases he : p.1 = item
  · have hget := Dict.get?_of_mem hn hpm
    rw [he, hp] at hget
    rw [if_pos he, hr, Option.some.inj hget]
  · rw [if_neg he]

theorem keys_setPhase (hp : Dict.get? l.items item = some phase) :
    (l.setPhase item phase').items.map Prod.fst = l.items.map Prod.fst :=
  Dict.keys_set_of_mem (List.mem_map_of_mem (Dict.mem_of_get? hp)) phase'

theorem LoopInvariant.setPhase (h : LoopInvariant store l)
    (hp : Dict.get? l.items item = some phase)
    (hr : phase'.result = phase.result) (hleft : ∀ v, phase ≠ .left v) :
    LoopInvariant store (l.setPhase item phase') := by
  have hstate : loopState (l.setPhase item phase').items = loopState l.items :=
    loopState_set_same h.items_nodup hp hr
  have hback : AllBack (l.setPhase item phase').items ↔ AllBack l.items := by
    rw [allBack_iff, hstate, allBack_iff]
  have hkeys : (l.setPhase item phase').items.map Prod.fst = l.items.map Prod.fst := keys_setPhase hp
  refine ⟨?_, ?_, h.accepted, ?_, ?_, ?_, ?_⟩
  · rw [hkeys]
    exact h.items_nodup
  · rw [hkeys]
    exact h.plain
  · intro hall
    rw [hstate]
    exact h.joined (hback.mp hall)
  · intro hno
    exact h.pending fun hall => hno (hback.mpr hall)
  · intro hd hne
    rw [hstate]
    refine h.stored hd fun hnil => ?_
    rw [hnil] at hp
    cases hp
  · intro hd
    obtain ⟨e, v, hl, hv⟩ := h.gone hd
    have hne : ¬ item = e := by
      rintro rfl
      rw [hp] at hv
      exact hleft v (Option.some.inj hv)
    refine ⟨e, v, hl, ?_⟩
    rw [Loop.setPhase, Dict.get?_set_of_ne _ _ hne]
    exact hv

theorem LoopsInvariant.setPhase (h : LoopsInvariant s) {i : Nat} (hl : s.loops[i]? = some l)
    (hp : Dict.get? l.items item = some phase) (hr : phase'.result = phase.result)
    (hleft : ∀ v, phase ≠ .left v) :
    LoopsInvariant { s with loops := s.loops.set i (l.setPhase item phase') } := by
  refine h.update hl rfl ?_ fun inst' _ => SameLoop.refl inst' s.store
  exact (h.each l (List.mem_of_getElem? hl)).setPhase hp hr hleft

theorem loopState_waiting (items : List String) :
    loopState (items.map fun item => (item, (.waiting : Phase V))) =
      items.map fun item => (item, .leaf .empty) := by
  rw [loopState, List.map_map]
  rfl

theorem map_fst_waiting (items : List String) :
    (items.map fun item => (item, (.waiting : Phase V))).map Prod.fst = items := by
  rw [List.map_map]
  exact List.map_id items

theorem start_loops (h : LoopsInvariant s) {forEachId : String}
    {outer : List String} {items : List String} (new : NewLoop s inst items) :
    LoopsInvariant (s.start forEachId outer inst items) := by
  have hunused : inst ∉ s.loops.map Loop.inst := by
    intro hm
    obtain ⟨l, hl, he⟩ := List.mem_map.mp hm
    exact new.unused l hl he
  obtain ⟨hnone, hset⟩ := h.free inst hunused
  obtain ⟨store, hp, hstored, hsame⟩ : ∃ store, prepareItems inst items s.store = some store ∧
      (items ≠ [] → Node.get (loopPath inst) store =
        some (.dict (items.map fun item => (item, .leaf .empty)))) ∧
      ∀ inst', inst ≠ inst' → SameLoop inst' s.store store := by
    by_cases hne : items = []
    · subst hne
      exact ⟨s.store, rfl, fun hne => absurd rfl hne, fun i _ => SameLoop.refl i s.store⟩
    · obtain ⟨store, hp, hget, hsame⟩ :=
        prepareItems_new new.plain.1 new.plain.2 new.distinct hne hnone hset
      exact ⟨store, hp, fun _ => hget, hsame⟩
  unfold LoopRun.start
  simp only [hp]
  refine ⟨?_, ?_, ?_⟩
  · intro l hl
    rcases List.mem_append.mp hl with hl | hl
    · refine (h.each l hl).of_same (hsame l.inst fun he => ?_)
      exact new.unused l hl he.symm
    · rw [List.mem_singleton.mp hl]
      refine ⟨?_, ⟨new.plain.1, ?_⟩, ?_, ?_, ?_, fun _ hne => ?_, fun hd => by cases hd⟩
      · rw [map_fst_waiting]
        exact new.distinct
      · rw [map_fst_waiting]
        exact new.plain.2
      · intro o ho
        by_cases hne : items = []
        · rw [if_pos hne] at ho
          exact ⟨_, List.mem_singleton.mp ho⟩
        · rw [if_neg hne] at ho
          cases ho
      · intro hall
        cases items with
        | nil => rfl
        | cons item rest => cases hall _ (List.mem_map_of_mem List.mem_cons_self)
      · intro hno
        have hne : items ≠ [] := by
          rintro rfl
          exact hno (List.forall_mem_nil _)
        rw [Loop.continuations, if_neg hne]
        exact ⟨rfl, rfl⟩
      · rw [loopState_waiting]
        exact hstored fun hnil => hne (by rw [hnil]; rfl)
  · rw [List.map_append]
    refine List.nodup_append.mpr ⟨h.distinct, List.nodup_singleton _, ?_⟩
    intro a ha b hb hab
    rw [hab, List.mem_singleton.mp hb] at ha
    exact hunused ha
  · intro inst' hfree
    rw [List.map_append, List.mem_append, not_or] at hfree
    have hne : inst ≠ inst' := fun he => hfree.2 (by simp [he])
    obtain ⟨hnone', hset'⟩ := h.free inst' hfree.1
    refine ⟨(hsame inst' hne).get.trans hnone', fun item m => ?_⟩
    rw [(hsame inst' hne).set]
    exact hset' item m

theorem collectResults_item (h : LoopInvariant store l)
    (hi : item ∈ l.items.map Prod.fst) (v : V) (hd : l.deleted = false) :
    ∃ store', Node.set (loopPath l.inst ++ [item]) (.leaf (.value v)) store = some store' ∧
      Node.get (loopPath l.inst) store' =
        some (.dict (loopState (Dict.set l.items item (.reached v)))) ∧
      collectResults (l.itemMarks item) v store = (store', .ok
        (if (loopState (Dict.set l.items item (.reached v))).any fun p => isEmptyCell p.2 then none
        else some (l.outer, (loopState (Dict.set l.items item (.reached v))).map Prod.snd))) := by
  have hne : l.items ≠ [] := by
    rintro he
    rw [he] at hi
    cases hi
  have hget := h.stored hd hne
  obtain ⟨store', hs⟩ := Option.isSome_iff_exists.mp
    (Node.isSome_set_entry hget item (.leaf (.value v)))
  have hget' := Node.get_set_entry hget hs
  rw [set_loopState h.items_nodup hi] at hget'
  have hkey : (Dict.get? (loopState l.items) item).isSome = true := by
    cases hk : Dict.get? (loopState l.items) item with
    | some n => rfl
    | none =>
      refine absurd ?_ (Dict.get?_eq_none_iff.mp hk)
      rw [Dict.keys, loopState, List.map_map]
      exact hi
  have hupper : upperLayerMark (l.itemMarks item) = some l.inst := by
    simp [upperLayerMark, Loop.itemMarks]
  have hlayer : layerMark (l.itemMarks item) = some item := by
    simp [layerMark, Loop.itemMarks]
  have hdrop : (l.itemMarks item).dropLast.dropLast = l.outer := by
    simp [Loop.itemMarks]
  have hentries : loopEntries l.inst store' =
      loopState (Dict.set l.items item (.reached v)) := by
    rw [loopEntries, hget']
  refine ⟨store', hs, hget', ?_⟩
  unfold collectResults
  simp only [hupper, hlayer, hget, hkey, if_pos, hdrop,
    resultPath_item h.plain.1 (h.plain.2 item hi), hs, hentries]
  cases (loopState (Dict.set l.items item (.reached v))).any fun p => isEmptyCell p.2 <;> rfl

theorem LoopsInvariant.marks_of_returns (h : LoopsInvariant s)
    {marks : List String} (hb : Returns s l item marks) :
    marks = l.itemMarks item := by
  rcases hb with hb | ⟨inner, hin, hout, c, hc, rfl⟩
  · exact hb
  · have hinner := h.each inner hin
    by_cases hall : AllBack inner.items
    · rw [hinner.joined hall] at hc
      rw [List.mem_singleton.mp hc]
      exact hout
    · rw [(hinner.pending hall).1] at hc
      cases hc

theorem LoopInvariant.running (h : LoopInvariant store l)
    (hp : Dict.get? l.items item = some .running) :
    ¬ AllBack l.items ∧ l.deleted = false := by
  have hno : ¬ AllBack l.items := by
    intro hall
    cases hall _ (Dict.mem_of_get? hp)
  refine ⟨hno, ?_⟩
  cases hd : l.deleted with
  | false => rfl
  | true =>
    obtain ⟨e, v, hl, -⟩ := h.gone hd
    rw [(h.pending hno).2] at hl
    cases hl

theorem collect_loops (h : LoopsInvariant s) {i : Nat}
    {marks : List String} (hl : s.loops[i]? = some l)
    (hp : Dict.get? l.items item = some .running) (hb : Returns s l item marks) (v : V) :
    LoopsInvariant (s.collect i l item marks v) := by
  have hli := h.each l (List.mem_of_getElem? hl)
  obtain ⟨hno, hd⟩ := hli.running hp
  obtain ⟨hcont, hlast⟩ := hli.pending hno
  have hi : item ∈ l.items.map Prod.fst := List.mem_map_of_mem (Dict.mem_of_get? hp)
  obtain ⟨store', hs, hget, hres⟩ := collectResults_item hli hi v hd
  rw [h.marks_of_returns hb]
  unfold LoopRun.collect
  simp only [hres]
  have hkeys : (l.setPhase item (.reached v)).items.map Prod.fst = l.items.map Prod.fst :=
    keys_setPhase hp
  have hitems : (l.setPhase item (.reached v)).items = Dict.set l.items item (.reached v) := rfl
  rw [hitems] at hkeys
  have hall := allBack_iff (Dict.set l.items item (.reached v))
  refine h.update hl rfl ?_ fun inst' hne => sameLoop_set hne hs
  generalize Dict.set l.items item (.reached v) = items at hget hkeys hall hitems
  refine ⟨?_, ?_, ?_, ?_, ?_, fun _ _ => ?_, ?_⟩
  · rw [hitems, hkeys]
    exact hli.items_nodup
  · rw [hitems, hkeys]
    exact hli.plain
  · intro o ho
    rcases List.mem_append.mp ho with ho | ho
    · exact hli.accepted o ho
    · exact ⟨_, List.mem_singleton.mp ho⟩
  · intro hback
    rw [hitems] at hback ⊢
    rw [hall.mp hback, Loop.continuations, List.filterMap_append]
    exact congrArg (· ++ _) hcont
  · intro hnot
    rw [hitems] at hnot
    have hempty : ((loopState items).any fun p => isEmptyCell p.2) = true := by
      rw [← Bool.not_eq_false]
      exact fun he => hnot (hall.mpr he)
    rw [hempty, Loop.continuations, List.filterMap_append]
    exact ⟨congrArg (· ++ _) hcont, hlast⟩
  · rw [hitems]
    exact hget
  · intro hd'
    have hsame : l.deleted = true := hd'
    rw [hd] at hsame
    cases hsame

theorem leave_loops (h : LoopsInvariant s) {i : Nat}
    {v : V} (hl : s.loops[i]? = some l) (hp : Dict.get? l.items item = some (.reached v))
    (returned : Bool) : LoopsInvariant (s.leave i l item v returned) := by
  have hli := h.each l (List.mem_of_getElem? hl)
  have hphase : LoopInvariant s.store (l.setPhase item (.left v)) :=
    hli.setPhase hp rfl (by simp)
  unfold LoopRun.leave
  by_cases hlast : l.last = some item ∧ returned = true
  · rw [if_pos hlast]
    have hdel : deleteResults (l.itemMarks item) s.store = Node.del (loopPath l.inst) s.store := by
      have hupper : upperLayerMark (l.itemMarks item) = some l.inst := by
        simp [upperLayerMark, Loop.itemMarks]
      rw [deleteResults, hupper]
      simp only [resultPath_inst hli.plain.1]
    rw [hdel]
    refine h.update hl rfl ?_ fun inst' hne => sameLoop_del hne s.store
    refine ⟨hphase.items_nodup, hphase.plain, hphase.accepted, hphase.joined, hphase.pending, ?_, ?_⟩
    · intro hd
      cases hd
    · exact fun _ => ⟨item, v, hlast.1, Dict.get?_set_self _ _ _⟩
  · rw [if_neg hlast]
    exact h.setPhase hl hp rfl (by simp)

theorem loops_start : LoopsInvariant ({} : LoopRun V) := by
  refine ⟨by simp, by simp, fun inst _ => ⟨Node.get_empty (by simp [loopPath]), fun item m => ?_⟩⟩
  exact Node.set_empty _ m

theorem loopReaches_invariant {concurrency : String → Option Int}
    (h : LoopReaches concurrency s) : LoopsInvariant s := by
  induction h with
  | refl => exact loops_start
  | tail _ hstep ih =>
    cases hstep with
    | start forEachId outer inst items new => exact start_loops ih new
    | begin i l item hl hp permit => exact ih.setPhase hl hp rfl (by simp)
    | collect i l item marks v hl hp back => exact collect_loops ih hl hp back v
    | leave i l item v returned hl hp => exact leave_loops ih hl hp returned

/-- Every fan-out of a `for_each`, beside others and inside others, goes on once and with its
own results in the order of its items. -/
theorem for_each_joins {V : Type} (concurrency : String → Option Int) (s : LoopRun V)
    (h : LoopReaches concurrency s) : ∀ l ∈ s.loops, JoinsLoop l := by
  intro l hl
  have hli := (loopReaches_invariant h).each l hl
  refine ⟨hli.accepted, ?_, fun hall => ⟨_, hli.joined hall, ?_⟩⟩
  · rintro ⟨p, hp, hn⟩
    refine (hli.pending fun hall => ?_).1
    have hsome := hall p hp
    rw [hn] at hsome
    cases hsome
  · rw [loopState, List.map_map, List.forall₂_map_right_iff, List.forall₂_same]
    intro p hp
    obtain ⟨v, hv⟩ := Option.isSome_iff_exists.mp (hall p hp)
    refine ⟨v, hv, ?_⟩
    simp only [Function.comp_apply, hv, cellOf]

def pairLoop : Loop Nat where
  forEachId := "outer"
  outer := []
  inst := "m"
  items := [("a", .waiting), ("b", .waiting)]

def pairLater : Loop Nat :=
  { (pairLoop.setPhase "b" .running).setPhase "b" (.reached 2) with outcomes := [.ok none] }

def secondFirst : LoopRun Nat :=
  (((({} : LoopRun Nat).start "outer" [] "m" ["a", "b"]).begin 0 pairLoop "b").collect 0
    (pairLoop.setPhase "b" .running) "b" ["m", "b"] 2).begin 0 pairLater "a"

def loopInLoop : LoopRun Nat :=
  (secondFirst.start "inner" ["m", "a"] "n" []).collect 0 (pairLater.setPhase "a" .running) "a"
    ["m", "a"] 1

example : loopInLoop.loops.map Loop.outcomes =
    [[.ok none, .ok (some ([], [.leaf (.value 1), .leaf (.value 2)]))],
      [.ok (some (["m", "a"], []))]] := rfl

theorem for_each_joins_nested :
    loopInLoop.loops.length = 2 ∧ ∀ l ∈ loopInLoop.loops, JoinsLoop l := by
  refine ⟨rfl, for_each_joins (fun _ => none) loopInLoop ?_⟩
  have hlimit : ∀ (s : LoopRun Nat) (id : String), s.HasPermit (fun _ => none) id :=
    fun s id n hn => by cases hn
  have hstart : LoopStep (fun _ => none) ({} : LoopRun Nat) _ :=
    .start {} "outer" [] "m" ["a", "b"] ⟨by decide, by decide, by simp⟩
  have hbegin : LoopStep (fun _ => none) (({} : LoopRun Nat).start "outer" [] "m" ["a", "b"]) _ :=
    .begin _ 0 pairLoop "b" rfl rfl (hlimit _ _)
  have hcollect : LoopStep (fun _ => none) _ _ :=
    .collect ((({} : LoopRun Nat).start "outer" [] "m" ["a", "b"]).begin 0 pairLoop "b") 0
      (pairLoop.setPhase "b" .running) "b" ["m", "b"] 2 rfl rfl (.inl rfl)
  have hsecond : LoopStep (fun _ => none) _ secondFirst :=
    .begin _ 0 pairLater "a" rfl rfl (hlimit _ _)
  have hinner : LoopStep (fun _ => none) secondFirst _ :=
    .start secondFirst "inner" ["m", "a"] "n" [] ⟨by decide, by decide, by decide⟩
  have hback : LoopStep (fun _ => none) _ loopInLoop :=
    .collect (secondFirst.start "inner" ["m", "a"] "n" []) 0 (pairLater.setPhase "a" .running) "a"
      ["m", "a"] 1 rfl rfl (.inl rfl)
  exact (((((Relation.ReflTransGen.single hstart).tail hbegin).tail hcollect).tail hsecond).tail
    hinner).tail hback

end Agently.TriggerFlow
