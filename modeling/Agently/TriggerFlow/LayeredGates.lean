import Agently.TriggerFlow.JoinGates

/-! # Gate states of different layers

Source: `TriggerFlow/process/BaseProcess.py`, `utils/StateData.py`. The marks of a layer are
joined with dots into a key that is read as a path, so the state of a layer lies inside that of
every layer it goes on from. -/

namespace Agently.TriggerFlow

open Agently.Lib Agently.Utils

variable {V : Type}

inductive SourceGate : JoinGate V → HandlerData V → Prop
  | when (id : String) (values : List (String × List String)) (d : HandlerData V)
      (events : List String) (listed : Dict.get? values d.triggerType = some events)
      (mem : d.triggerEvent ∈ events) : SourceGate (whenGate id values) d
  | batch (id : String) (triggers : List (String × String)) (d : HandlerData V)
      (listed : (Dict.get? triggers d.triggerEvent).isSome = true) :
      SourceGate (batchGate id triggers) d
  | collect (id : String) (branchIds : List String) (thenEmpty : Bool) (d : HandlerData V)
      (mem : d.branchId ∈ branchIds) : SourceGate (collectGate id branchIds thenEmpty) d

/-- Feeding `d`, before and after its emission, changes neither what is stored for the layer
of `e` nor what feeding `e` does. -/
structure Undisturbed (g : JoinGate V) (d e : HandlerData V) : Prop where
  stored : ∀ store, Node.get (g.path e) (g.accept d store).1 = Node.get (g.path e) store
  outcome : ∀ store, (g.accept e (g.accept d store).1).2 = (g.accept e store).2
  storedAfter : ∀ store, Node.get (g.path e) (g.finish d store) = Node.get (g.path e) store
  outcomeAfter : ∀ store, (g.accept e (g.finish d store)).2 = (g.accept e store).2

namespace JoinGate

variable (g : JoinGate V)

theorem path_eq (d : HandlerData V) :
    g.path d = StateData.pathOf g.base ++ StateData.pathOf d.layerKey :=
  StateData.pathOf_append g.base d.layerKey

theorem path_ne_nil (d : HandlerData V) : g.path d ≠ [] := StateData.pathOf_ne_nil _

theorem apart_iff (d e : HandlerData V) :
    Node.Apart (g.path d) (g.path e) ↔
      Node.Apart (StateData.pathOf d.layerKey) (StateData.pathOf e.layerKey) := by
  rw [g.path_eq d, g.path_eq e]
  unfold Node.Apart
  rw [List.prefix_append_right_inj, List.prefix_append_right_inj]

variable {g}

theorem held_of_get {p : List String} {store store' : GateNode V}
    (h : Node.get p store' = Node.get p store) : g.held p store' = g.held p store := by
  unfold held
  rw [h]

theorem accept_outcome {e : HandlerData V} {store store' : GateNode V}
    (hget : Node.get (g.path e) store' = Node.get (g.path e) store)
    (hset : ∀ m, (Node.set (g.path e) m store').isSome = (Node.set (g.path e) m store).isSome) :
    (g.accept e store').2 = (g.accept e store).2 := by
  unfold accept
  cases g.listens e with
  | false => rfl
  | true =>
    simp only [if_true, held_of_get hget]
    cases g.put e (g.held (g.path e) store) with
    | error err => rfl
    | ok state =>
      have hs := hset (.dict state)
      simp only
      cases h₁ : Node.set (g.path e) (.dict state) store' with
      | none =>
        rw [h₁] at hs
        rw [Option.isSome_eq_false_iff.mp hs.symm |> Option.isNone_iff_eq_none.mp]
      | some s₁ =>
        rw [h₁] at hs
        obtain ⟨s₂, h₂⟩ := Option.isSome_iff_exists.mp hs.symm
        rw [h₂]
        simp only
        cases g.complete state with
        | error err => rfl
        | ok b => cases b <;> rfl

theorem accept_store (d : HandlerData V) (store : GateNode V) :
    (g.accept d store).1 = store ∨
      ∃ state, Node.set (g.path d) (.dict state) store = some (g.accept d store).1 := by
  unfold accept
  cases g.listens d with
  | false => exact .inl rfl
  | true =>
    simp only [if_true]
    cases g.put d (g.held (g.path d) store) with
    | error err => exact .inl rfl
    | ok state =>
      simp only
      cases hs : Node.set (g.path d) (.dict state) store with
      | none => exact .inl rfl
      | some s =>
        right
        refine ⟨state, ?_⟩
        rw [hs]
        simp only
        cases g.complete state with
        | error err => rfl
        | ok b => cases b <;> rfl

theorem undisturbed_of_apart {d e : HandlerData V} (h : Node.Apart (g.path d) (g.path e)) :
    Undisturbed g d e := by
  have hstored : ∀ store, Node.get (g.path e) (g.accept d store).1 = Node.get (g.path e) store := by
    intro store
    rcases g.accept_store d store with hs | ⟨state, hs⟩
    · rw [hs]
    · exact Node.get_set_of_apart h hs
  have hafter : ∀ store, Node.get (g.path e) (g.finish d store) = Node.get (g.path e) store := by
    intro store
    unfold finish
    cases g.emptied with
    | false => rfl
    | true => exact Node.get_del_of_apart h store
  refine ⟨hstored, fun store => accept_outcome (hstored store) fun m => ?_, hafter,
    fun store => accept_outcome (hafter store) fun m => ?_⟩
  · rcases g.accept_store d store with hs | ⟨state, hs⟩
    · rw [hs]
    · exact Node.isSome_set_of_apart h hs m
  · unfold finish
    cases g.emptied with
    | false => rfl
    | true => exact Node.isSome_set_del_of_apart h store m

end JoinGate

theorem SourceGate.takes {g : JoinGate V} {d : HandlerData V} (h : SourceGate g d) :
    g.listens d = true ∧ ∃ state, g.put d g.template = .ok state := by
  cases h with
  | when id values _ events listed mem =>
    refine ⟨rfl, ?_⟩
    have ht : Dict.get? (whenTemplate values : GateState V) d.triggerType =
        some (.dict (events.map fun event => (event, .leaf .empty))) := by
      have hmap := Dict.get?_mapVals (fun es : List String =>
        (.dict (es.map fun event => (event, .leaf .empty)) : GateNode V)) values d.triggerType
      rw [listed] at hmap
      exact hmap
    simp only [whenGate, whenPut, ht]
    split
    · exact ⟨_, rfl⟩
    · exact ⟨_, rfl⟩
  | batch id triggers _ listed => exact ⟨listed, _, rfl⟩
  | collect id branchIds thenEmpty _ mem => exact ⟨rfl, _, rfl⟩

theorem SourceGate.disturbs {g : JoinGate V} {d e : HandlerData V} (he : SourceGate g e)
    (hp : g.path d <+: g.path e) : ¬ Undisturbed g e d := by
  intro h
  obtain ⟨hl, state, hput⟩ := he.takes
  have hheld : g.held (g.path e) (.dict []) = g.template := by
    unfold JoinGate.held
    rw [Node.get_empty (g.path_ne_nil e)]
  obtain ⟨store, hset⟩ := Option.isSome_iff_exists.mp
    (Node.set_empty (g.path e) (.dict state : GateNode V))
  have hstore : (g.accept e (.dict [])).1 = store := by
    unfold JoinGate.accept
    simp only [hl, if_true, hheld, hput, hset]
    cases g.complete state with
    | error err => rfl
    | ok b => cases b <;> rfl
  have hsame := h.stored (.dict [])
  rw [hstore, Node.get_empty (g.path_ne_nil d)] at hsame
  have hsome := Node.get_set_of_prefix hp hset
  rw [hsame] at hsome
  cases hsome

/-- Two signals of a gate leave each other's states alone exactly when neither layer key, read
as a path, goes on from the other. -/
theorem undisturbed_iff_apart (g : JoinGate V) (d e : HandlerData V) (hd : SourceGate g d)
    (he : SourceGate g e) :
    (Undisturbed g d e ∧ Undisturbed g e d) ↔
      Node.Apart (StateData.pathOf d.layerKey) (StateData.pathOf e.layerKey) := by
  rw [← g.apart_iff]
  constructor
  · rintro ⟨hde, hed⟩
    exact ⟨fun hp => he.disturbs hp hed, fun hp => hd.disturbs hp hde⟩
  · intro h
    exact ⟨JoinGate.undisturbed_of_apart h, JoinGate.undisturbed_of_apart h.symm⟩

theorem pathOf_marks {marks : List String} (hne : marks ≠ [])
    (hplain : ∀ m ∈ marks, '.' ∉ m.toList) :
    StateData.pathOf (String.intercalate "." marks) = marks := by
  induction marks with
  | nil => exact absurd rfl hne
  | cons m rest ih =>
    have hm := hplain m List.mem_cons_self
    cases rest with
    | nil =>
      rw [String.intercalate_singleton]
      exact StateData.pathOf_plain hm
    | cons n rest =>
      rw [String.intercalate_cons_cons, StateData.pathOf_append, StateData.pathOf_plain hm,
        ih (by simp) fun x hx => hplain x (List.mem_cons_of_mem m hx)]
      rfl

def pairGate : JoinGate Nat := whenGate "pair" [("event", ["A", "B"])]

def outerSignal : HandlerData Nat := { triggerEvent := "A", value := 1, layerMarks := ["m"] }

def innerSignal : HandlerData Nat := { triggerEvent := "A", value := 2, layerMarks := ["m", "n"] }

theorem pairGate_outer : SourceGate pairGate outerSignal :=
  .when _ _ _ ["A", "B"] rfl (by decide)

theorem pairGate_inner : SourceGate pairGate innerSignal :=
  .when _ _ _ ["A", "B"] rfl (by decide)

theorem undisturbed_iff_apart_pair :
    (Undisturbed pairGate outerSignal innerSignal ∧ Undisturbed pairGate innerSignal outerSignal) ↔
      Node.Apart (StateData.pathOf outerSignal.layerKey)
        (StateData.pathOf innerSignal.layerKey) :=
  undisturbed_iff_apart pairGate outerSignal innerSignal pairGate_outer pairGate_inner

def fires (outcome : Except GateError (Option (GateState V))) : Option Bool :=
  outcome.toOption.map Option.isSome

theorem inner_layer_fires_outer :
    ¬ (∀ (g : JoinGate Nat) (d e : HandlerData Nat), SourceGate g d → SourceGate g e →
        d.layerMarks ≠ e.layerMarks → Undisturbed g d e ∧ Undisturbed g e d) ∧
      fires (pairGate.accept outerSignal (.dict [])).2 = some false ∧
      fires (pairGate.accept outerSignal (pairGate.accept innerSignal (.dict [])).1).2 =
        some true := by
  have hfirst : fires (pairGate.accept outerSignal (.dict [])).2 = some false := by
    decide +kernel
  have hafter : fires (pairGate.accept outerSignal (pairGate.accept innerSignal (.dict [])).1).2 =
      some true := by decide +kernel
  refine ⟨fun hall => ?_, hfirst, hafter⟩
  obtain ⟨-, hinner⟩ := hall pairGate outerSignal innerSignal pairGate_outer pairGate_inner
    (by decide)
  rw [hinner.outcome (.dict []), hfirst] at hafter
  cases hafter

end Agently.TriggerFlow
