import Agently.Lib.Joining
import Agently.TriggerFlow.JoinGates
import Mathlib.Logic.Relation

/-! # The firings of an and-gate

Source: `TriggerFlow/process/BaseProcess.py`, `TriggerFlow/BluePrint.py`. A run of one layer takes
signals, and ends or breaks off the emissions that are awaited. The complete state stays stored
until its emission has returned; what arrives meanwhile fires with values fired before. -/

namespace Agently.TriggerFlow

open Agently.Lib Agently.Utils

abbrev Slot := String × String

/-- The events a gate waits for, by trigger type; the keys of dictionaries do not repeat. -/
structure Listened where
  values : List (String × List String)
  types_nodup : (values.map Prod.fst).Nodup
  events_nodup : ∀ p ∈ values, p.2.Nodup

def Listened.slots (l : Listened) : List Slot :=
  l.values.flatMap fun p => p.2.map fun event => (p.1, event)

variable {V : Type}

def HandlerData.slot (d : HandlerData V) : Slot := (d.triggerType, d.triggerEvent)

def slotsOf (state : GateState V) : List Slot :=
  state.flatMap fun p => match p.2 with
    | .dict events => events.map fun q => (p.1, q.1)
    | .leaf _ => []

def cellAt (state : GateState V) (s : Slot) : Option (Cell V) :=
  match Dict.get? state s.1 with
  | some (.dict events) =>
    match Dict.get? events s.2 with
    | some (.leaf c) => some c
    | _ => none
  | _ => none

def stateOf (l : Listened) (cells : Slot → Cell V) : GateState V :=
  l.values.map fun p => (p.1, .dict (p.2.map fun event => (event, .leaf (cells (p.1, event)))))

def cellOf : Option V → Cell V
  | none => .empty
  | some v => .value v

variable {l : Listened}

theorem mem_slots {s : Slot} :
    s ∈ l.slots ↔ ∃ p ∈ l.values, p.1 = s.1 ∧ s.2 ∈ p.2 := by
  obtain ⟨type, event⟩ := s
  simp only [Listened.slots, List.mem_flatMap, List.mem_map, Prod.mk.injEq]
  constructor
  · rintro ⟨p, hp, e, he, rfl, rfl⟩
    exact ⟨p, hp, rfl, he⟩
  · rintro ⟨p, hp, rfl, he⟩
    exact ⟨p, hp, event, he, rfl, rfl⟩

theorem slotsOf_stateOf (l : Listened) (cells : Slot → Cell V) :
    slotsOf (stateOf l cells) = l.slots := by
  simp only [slotsOf, stateOf, Listened.slots, List.flatMap_map, List.map_map]
  rfl

theorem get?_stateOf (l : Listened) (cells : Slot → Cell V) {p : String × List String}
    (hp : p ∈ l.values) : Dict.get? (stateOf l cells) p.1 =
      some (.dict (p.2.map fun event => (event, .leaf (cells (p.1, event))))) :=
  Dict.get?_map Prod.fst _ l.types_nodup hp

theorem get?_events (l : Listened) (cells : Slot → Cell V) {p : String × List String}
    (hp : p ∈ l.values) {event : String} (he : event ∈ p.2) :
    Dict.get? (p.2.map fun event => (event, (.leaf (cells (p.1, event)) : GateNode V))) event =
      some (.leaf (cells (p.1, event))) := by
  have hn : (p.2.map fun event => event).Nodup := by
    rw [List.map_id']
    exact l.events_nodup p hp
  exact Dict.get?_map (fun event => event) _ hn he

theorem cellAt_stateOf (cells : Slot → Cell V) {s : Slot} (hs : s ∈ l.slots) :
    cellAt (stateOf l cells) s = some (cells s) := by
  obtain ⟨p, hp, hp₁, he⟩ := mem_slots.mp hs
  obtain ⟨type, event⟩ := s
  obtain rfl : p.1 = type := hp₁
  simp only [cellAt, get?_stateOf l cells hp, get?_events l cells hp he]

theorem whenPut_stateOf (cells : Slot → Cell V) {d : HandlerData V}
    (hd : d.slot ∈ l.slots) : whenPut d (stateOf l cells) =
      .ok (stateOf l fun s => if s = d.slot then .value d.value else cells s) := by
  obtain ⟨p, hp, hp₁, he⟩ := mem_slots.mp hd
  have hp₁' : p.1 = d.triggerType := hp₁
  have he' : d.triggerEvent ∈ p.2 := he
  have hn : (p.2.map fun event => event).Nodup := by
    rw [List.map_id']
    exact l.events_nodup p hp
  have hget := get?_stateOf l cells hp
  have hevent := get?_events l cells hp he'
  have hset := Dict.set_map (fun event : String => event)
    (fun event => (.leaf (cells (p.1, event)) : GateNode V)) hn
    (by simpa using he') (.leaf (.value d.value))
  rw [hp₁'] at hget hevent hset
  simp only [whenPut, hget, hevent, hset]
  refine congrArg Except.ok ?_
  refine (Dict.set_map Prod.fst _ l.types_nodup (List.mem_map.mpr ⟨p, hp, hp₁'⟩) _).trans ?_
  refine List.map_congr_left fun q hq => Prod.ext rfl ?_
  simp only
  by_cases hqt : q.1 = d.triggerType
  · have hqp : q = p := List.inj_on_of_nodup_map l.types_nodup hq hp (hqt.trans hp₁'.symm)
    rw [if_pos hqt, hqp]
    refine congrArg Node.dict (List.map_congr_left fun event _ => Prod.ext rfl ?_)
    by_cases hev : event = d.triggerEvent
    · simp [hev, hp₁', HandlerData.slot]
    · simp [hev, hp₁', HandlerData.slot]
  · rw [if_neg hqt]
    refine congrArg Node.dict (List.map_congr_left fun event _ => Prod.ext rfl ?_)
    simp [hqt, HandlerData.slot]

def Cell.filled : Cell V → Bool
  | .empty => false
  | _ => true

theorem isEmptyCell_leaf (c : Cell V) : isEmptyCell (.leaf c) = !c.filled := by
  cases c <;> rfl

theorem any_isEmptyCell (cells : Slot → Cell V) (type : String) (events : List String) :
    ((events.map fun event => (event, (.leaf (cells (type, event)) : GateNode V))).any
        fun p => isEmptyCell p.2) = !(events.all fun event => (cells (type, event)).filled) := by
  rw [List.any_map, List.not_all_eq_any_not]
  congr 1
  funext event
  exact isEmptyCell_leaf _

theorem whenComplete_stateOf (l : Listened) (cells : Slot → Cell V) :
    whenComplete (stateOf l cells) = .ok (l.slots.all fun s => (cells s).filled) := by
  have hvalues : ∀ values : List (String × List String),
      whenComplete (values.map fun p =>
        (p.1, (.dict (p.2.map fun event => (event, .leaf (cells (p.1, event)))) : GateNode V))) =
      .ok ((values.flatMap fun p => p.2.map fun event => (p.1, event)).all
        fun s => (cells s).filled) := by
    intro values
    induction values with
    | nil => rfl
    | cons p rest ih =>
      rw [List.map_cons, whenComplete, ih, any_isEmptyCell, List.flatMap_cons, List.all_append,
        List.all_map]
      cases hp : p.2.all fun event => (cells (p.1, event)).filled with
      | false => simp [Function.comp_def, hp]
      | true => simp [Function.comp_def, hp]
  exact hvalues l.values

/-- A signal the gate has taken, and what its handler did up to the emission. -/
structure Accepted (V : Type) where
  data : HandlerData V
  outcome : Except GateError (Option (GateState V))

def Accepted.fired (a : Accepted V) : Bool :=
  match a.outcome with
  | .ok (some _) => true
  | _ => false

def Accepted.entry (a : Accepted V) : Joining.Entry Slot V :=
  { slot := a.data.slot, value := a.data.value, fired := a.fired }

/-- `awaited` are the places in the log of the firings whose emission is awaited. -/
structure GateRun (V : Type) where
  store : GateNode V := .dict []
  log : List (Accepted V) := []
  awaited : List Nat := []

section Runs

variable (id : String) (l : Listened) (layer : String)

def layerPath : List String := StateData.pathOf ((whenGate (V := V) id l.values).base ++ "." ++ layer)

def HoldsComplete (store : GateNode V) : Prop :=
  ∃ state, Node.get (layerPath (V := V) id l layer) store = some (.dict state) ∧
    whenComplete state = .ok true

def GateRun.arrive (s : GateRun V) (d : HandlerData V) : GateRun V :=
  let result := (whenGate id l.values).accept d s.store
  let a : Accepted V := ⟨d, result.2⟩
  { store := result.1
    log := s.log ++ [a]
    awaited := if a.fired then s.awaited ++ [s.log.length] else s.awaited }

/-- A signal of the layer arrives where `admits` holds, or an awaited emission returns or raises. -/
inductive GateStep (admits : GateRun V → Prop) : GateRun V → GateRun V → Prop
  | arrive (s : GateRun V) (d : HandlerData V) (ok : admits s) (slot : d.slot ∈ l.slots)
      (inLayer : d.layerKey = layer) : GateStep admits s (s.arrive id l d)
  | returned (s : GateRun V) (i : Nat) (a : Accepted V) (awaited : i ∈ s.awaited)
      (entry : s.log[i]? = some a) : GateStep admits s
        { s with
          store := (whenGate id l.values).finish a.data s.store
          awaited := s.awaited.erase i }
  | raised (s : GateRun V) (i : Nat) (awaited : i ∈ s.awaited) : GateStep admits s
      { s with awaited := s.awaited.erase i }

/-- The runs in which signals arrive where `admits` holds. -/
def GateReaches (admits : GateRun V → Prop) (s : GateRun V) : Prop :=
  Relation.ReflTransGen (GateStep id l layer admits) {} s

/-- Each firing carries one value of each slot that no other firing carries, and values that
fill all slots fire. -/
structure ConsumesOnce (log : List (Accepted V)) : Prop where
  carries : ∀ (j : Nat) (a : Accepted V) (state : GateState V), log[j]? = some a →
    a.outcome = .ok (some state) → slotsOf state = l.slots ∧
      ∀ s ∈ l.slots, ∃ (i : Nat) (b : Accepted V), log[i]? = some b ∧
        cellAt state s = some (.value b.data.value) ∧
        Joining.Carried (log.map Accepted.entry) s i j
  once : (log.map fun a => a.data.value).Nodup →
    ∀ (j j' : Nat) (a a' : Accepted V) (state state' : GateState V) (s s' : Slot) (v : V),
      log[j]? = some a → log[j']? = some a' → a.outcome = .ok (some state) →
      a'.outcome = .ok (some state') → s ∈ l.slots → s' ∈ l.slots →
      cellAt state s = some (.value v) → cellAt state' s' = some (.value v) → j = j'
  completes : ∀ (j : Nat) (a : Accepted V), log[j]? = some a →
    (∀ s ∈ l.slots, ∃ i, Joining.Carried (log.map Accepted.entry) s i j) →
      ∃ state, a.outcome = .ok (some state)

variable {id l layer}

/-- What the join fires when `d` finds `held`. -/
def joined (l : Listened) (held : Slot → Option V) (d : HandlerData V) : Option (GateState V) :=
  if l.slots.all fun s => (Joining.offer held d.slot d.value s).isSome then
    some (stateOf l fun s => cellOf (Joining.offer held d.slot d.value s))
  else none

theorem cellOf_filled (o : Option V) : (cellOf o).filled = o.isSome := by
  cases o <;> rfl

theorem cellOf_offer (held : Slot → Option V) (d : HandlerData V) :
    (fun s => if s = d.slot then Cell.value d.value else cellOf (held s)) =
      fun s => cellOf (Joining.offer held d.slot d.value s) := by
  funext s
  unfold Joining.offer
  by_cases hs : s = d.slot
  · rw [if_pos hs, if_pos hs]
    rfl
  · rw [if_neg hs, if_neg hs]

variable {d : HandlerData V}

theorem accept_joined {held : Slot → Option V} {store : GateNode V}
    (hd : d.slot ∈ l.slots) (hlayer : d.layerKey = layer)
    (hheld : (whenGate id l.values).held (layerPath (V := V) id l layer) store =
      stateOf l fun s => cellOf (held s))
    (hset : ∀ m, (Node.set (layerPath (V := V) id l layer) m store).isSome = true) :
    ((whenGate id l.values).accept d store).2 = .ok (joined l held d) ∧
      Node.get (layerPath (V := V) id l layer) ((whenGate id l.values).accept d store).1 =
        some (.dict (stateOf l fun s => cellOf (Joining.offer held d.slot d.value s))) := by
  have hpath : (whenGate id l.values).path d = layerPath (V := V) id l layer := by
    rw [JoinGate.path, JoinGate.stateKey, hlayer]
    rfl
  obtain ⟨store', hs⟩ := Option.isSome_iff_exists.mp
    (hset (.dict (stateOf l fun s => cellOf (Joining.offer held d.slot d.value s))))
  have hput : (whenGate id l.values).put d (stateOf l fun s => cellOf (held s)) =
      .ok (stateOf l fun s => cellOf (Joining.offer held d.slot d.value s)) := by
    rw [← cellOf_offer]
    exact whenPut_stateOf _ hd
  have hcomplete : (whenGate id l.values).complete
      (stateOf l fun s => cellOf (Joining.offer held d.slot d.value s)) =
        .ok (l.slots.all fun s => (Joining.offer held d.slot d.value s).isSome) := by
    refine (whenComplete_stateOf l _).trans ?_
    simp only [cellOf_filled]
  have hlistens : (whenGate id l.values).listens d = true := rfl
  unfold JoinGate.accept joined
  rw [hpath, hlistens, if_pos rfl, hheld, hput]
  simp only [hs, hcomplete]
  cases l.slots.all fun s => (Joining.offer held d.slot d.value s).isSome with
  | false => exact ⟨rfl, Node.get_set_self hs⟩
  | true => exact ⟨rfl, Node.get_set_self hs⟩

def heldAfter (log : List (Accepted V)) : Slot → Option V := Joining.held (log.map Accepted.entry)

variable (id l layer)

structure Resting (s : GateRun V) : Prop where
  held : (whenGate id l.values).held (layerPath (V := V) id l layer) s.store =
    stateOf l fun t => cellOf (heldAfter s.log t)
  settable : ∀ m, (Node.set (layerPath (V := V) id l layer) m s.store).isSome = true
  idle : s.awaited = []

structure Firing (s : GateRun V) : Prop where
  complete : HoldsComplete id l layer s.store
  taken : heldAfter s.log = fun _ => none
  single : s.awaited.length ≤ 1

/-- What a run keeps whose signals arrive where no complete state is held. -/
structure GateInvariant (s : GateRun V) : Prop where
  slots : ∀ a ∈ s.log, a.data.slot ∈ l.slots ∧ a.data.layerKey = layer
  joins : ∀ (j : Nat) (a : Accepted V), s.log[j]? = some a →
    a.outcome = .ok (joined l (heldAfter (s.log.take j)) a.data)
  phase : Resting id l layer s ∨ Firing id l layer s

variable {id l layer}

theorem layerPath_ne_nil : layerPath (V := V) id l layer ≠ [] := StateData.pathOf_ne_nil _

theorem heldAfter_concat (log : List (Accepted V)) (a : Accepted V) :
    heldAfter (log ++ [a]) = Joining.after (heldAfter log) a.entry := by
  rw [heldAfter, List.map_append]
  exact Joining.held_concat _ _

theorem invariant_start : GateInvariant id l layer ({} : GateRun V) := by
  refine ⟨by simp, by simp, .inl ⟨?_, fun m => Node.set_empty _ m, rfl⟩⟩
  unfold JoinGate.held
  rw [Node.get_empty layerPath_ne_nil]
  rfl

theorem joined_eq_some {held : Slot → Option V} {state : GateState V}
    (h : joined l held d = some state) :
    (∀ s ∈ l.slots, (Joining.offer held d.slot d.value s).isSome = true) ∧
      state = stateOf l fun s => cellOf (Joining.offer held d.slot d.value s) := by
  unfold joined at h
  split at h
  · rename_i hall
    exact ⟨List.all_eq_true.mp hall, (Option.some.inj h).symm⟩
  · cases h

variable {s : GateRun V}

theorem arrive_invariant (h : GateInvariant id l layer s)
    (hclean : ¬ HoldsComplete id l layer s.store) (hd : d.slot ∈ l.slots)
    (hlayer : d.layerKey = layer) : GateInvariant id l layer (s.arrive id l d) := by
  have hrest : Resting id l layer s := h.phase.resolve_right fun hf => hclean hf.complete
  obtain ⟨hout, hget⟩ := accept_joined hd hlayer hrest.held hrest.settable
  unfold GateRun.arrive
  generalize (whenGate id l.values).accept d s.store = result at hout hget
  obtain ⟨store, outcome⟩ := result
  simp only at hout hget ⊢
  refine ⟨?_, ?_, ?_⟩
  · intro a ha
    rcases List.mem_append.mp ha with ha | ha
    · exact h.slots a ha
    · rw [List.mem_singleton.mp ha]
      exact ⟨hd, hlayer⟩
  · intro j a hj
    by_cases hlt : j < s.log.length
    · rw [List.getElem?_append_left hlt] at hj
      rw [List.take_append_of_le_length (Nat.le_of_lt hlt)]
      exact h.joins j a hj
    · rw [List.getElem?_append_right (by omega)] at hj
      obtain ⟨hlt', ha⟩ := List.getElem?_eq_some_iff.mp hj
      have hjl : j = s.log.length := by
        simp only [List.length_singleton] at hlt'
        omega
      subst hjl
      have ha' : a = ⟨d, outcome⟩ := by simpa using ha.symm
      rw [ha', List.take_left]
      exact hout
  · have hafter := heldAfter_concat s.log ⟨d, outcome⟩
    cases hj : joined l (heldAfter s.log) d with
    | none =>
      left
      have hf : (⟨d, outcome⟩ : Accepted V).fired = false := by rw [Accepted.fired, hout, hj]
      refine ⟨?_, fun m => Node.set_of_get hget m, ?_⟩
      · have hheld : heldAfter (s.log ++ [⟨d, outcome⟩]) =
            Joining.offer (heldAfter s.log) d.slot d.value := by
          refine hafter.trans ?_
          rw [Joining.after, Accepted.entry, if_neg (by simp [hf])]
        rw [hheld]
        unfold JoinGate.held
        rw [hget]
      · rw [hf, if_neg (by simp)]
        exact hrest.idle
    | some state =>
      right
      have hf : (⟨d, outcome⟩ : Accepted V).fired = true := by rw [Accepted.fired, hout, hj]
      obtain ⟨hall, -⟩ := joined_eq_some hj
      refine ⟨⟨_, hget, ?_⟩, ?_, ?_⟩
      · rw [whenComplete_stateOf]
        simp only [cellOf_filled]
        exact congrArg Except.ok (List.all_eq_true.mpr hall)
      · refine hafter.trans ?_
        rw [Joining.after, Accepted.entry, if_pos (by simpa using hf)]
      · rw [hf, if_pos rfl, hrest.idle]
        simp

variable {a : Accepted V}

theorem returned_invariant (h : GateInvariant id l layer s) {i : Nat}
    (hi : i ∈ s.awaited) (ha : s.log[i]? = some a) :
    GateInvariant id l layer { s with
      store := (whenGate id l.values).finish a.data s.store
      awaited := s.awaited.erase i } := by
  refine ⟨h.slots, h.joins, .inl ?_⟩
  rcases h.phase with hrest | hf
  · rw [hrest.idle] at hi
    cases hi
  · obtain ⟨-, hlayer⟩ := h.slots a (List.mem_of_getElem? ha)
    have hpath : (whenGate id l.values).path a.data = layerPath (V := V) id l layer := by
      rw [JoinGate.path, JoinGate.stateKey, hlayer]
      rfl
    have hfinish : (whenGate id l.values).finish a.data s.store =
        Node.del (layerPath (V := V) id l layer) s.store := by
      unfold JoinGate.finish
      rw [hpath]
      rfl
    obtain ⟨state, hget, -⟩ := hf.complete
    refine ⟨?_, fun m => ?_, ?_⟩
    · rw [hfinish, hf.taken]
      unfold JoinGate.held
      rw [Node.get_del_self layerPath_ne_nil]
      rfl
    · rw [hfinish]
      exact Node.isSome_set_del_of_prefix layerPath_ne_nil (List.prefix_refl _)
        (Node.set_of_get hget m) m
    · have hl := hf.single
      have he := List.length_erase_of_mem hi
      have hz : (s.awaited.erase i).length = 0 := by omega
      exact List.length_eq_zero_iff.mp hz

theorem raised_invariant (h : GateInvariant id l layer s) {i : Nat}
    (hi : i ∈ s.awaited) : GateInvariant id l layer { s with awaited := s.awaited.erase i } := by
  refine ⟨h.slots, h.joins, .inr ?_⟩
  rcases h.phase with hrest | hf
  · rw [hrest.idle] at hi
    cases hi
  · refine ⟨hf.complete, hf.taken, ?_⟩
    have hl := hf.single
    have he := List.length_erase_of_mem hi
    simp only
    omega

theorem reaches_invariant
    (h : GateReaches id l layer (fun s => ¬ HoldsComplete id l layer s.store) s) :
    GateInvariant id l layer s := by
  induction h with
  | refl => exact invariant_start
  | tail _ hstep ih =>
    cases hstep with
    | arrive d hclean hd hlayer => exact arrive_invariant ih hclean hd hlayer
    | returned i a hi ha => exact returned_invariant ih hi ha
    | raised i hi => exact raised_invariant ih hi

theorem carried_of_joined {log : List (Accepted V)} {j : Nat}
    (hj : log[j]? = some a) {s : Slot} {v : V} :
    Joining.offer (heldAfter (log.take j)) a.data.slot a.data.value s = some v ↔
      ∃ (i : Nat) (b : Accepted V), log[i]? = some b ∧ b.data.value = v ∧
        Joining.Carried (log.map Accepted.entry) s i j := by
  have he : (log.map Accepted.entry)[j]? = some a.entry := by rw [List.getElem?_map, hj]; rfl
  have hiff := Joining.offer_held_eq_some (s := s) (v := v) he
  rw [← List.map_take] at hiff
  refine hiff.trans ⟨?_, ?_⟩
  · rintro ⟨i, x, hi, hv, hc⟩
    rw [List.getElem?_map] at hi
    obtain ⟨b, hb, rfl⟩ := Option.map_eq_some_iff.mp hi
    exact ⟨i, b, hb, hv, hc⟩
  · rintro ⟨i, b, hb, hv, hc⟩
    exact ⟨i, b.entry, by rw [List.getElem?_map, hb]; rfl, hv, hc⟩

theorem GateInvariant.carries (h : GateInvariant id l layer s) {j : Nat}
    {state : GateState V} (hj : s.log[j]? = some a)
    (ho : a.outcome = .ok (some state)) {t : Slot} (ht : t ∈ l.slots) :
    ∃ (i : Nat) (b : Accepted V), s.log[i]? = some b ∧
      cellAt state t = some (.value b.data.value) ∧
      Joining.Carried (s.log.map Accepted.entry) t i j := by
  have hjoin := h.joins j a hj
  rw [ho] at hjoin
  obtain ⟨hall, rfl⟩ := joined_eq_some (Except.ok.inj hjoin).symm
  obtain ⟨v, hv⟩ := Option.isSome_iff_exists.mp (hall t ht)
  obtain ⟨i, b, hb, hbv, hc⟩ := (carried_of_joined hj).mp hv
  refine ⟨i, b, hb, ?_, hc⟩
  rw [cellAt_stateOf _ ht, hv, hbv]
  rfl

theorem GateInvariant.consumesOnce (h : GateInvariant id l layer s) :
    ConsumesOnce l s.log := by
  refine ⟨?_, ?_, ?_⟩
  · intro j a state hj ho
    refine ⟨?_, fun t ht => h.carries hj ho ht⟩
    have hjoin := h.joins j a hj
    rw [ho] at hjoin
    obtain ⟨-, rfl⟩ := joined_eq_some (Except.ok.inj hjoin).symm
    exact slotsOf_stateOf l _
  · intro hn j j' a a' state state' t t' v hj hj' ho ho' ht ht' hv hv'
    obtain ⟨i, b, hb, hbv, hc⟩ := h.carries hj ho ht
    obtain ⟨i', b', hb', hbv', hc'⟩ := h.carries hj' ho' ht'
    rw [hv] at hbv
    rw [hv'] at hbv'
    have hval : b.data.value = b'.data.value := by
      injection (Option.some.inj hbv).symm.trans (Option.some.inj hbv') with he
    have hii : i = i' := by
      refine (List.getElem?_inj ?_ hn).mp ?_
      · simpa using (List.getElem?_eq_some_iff.mp hb).1
      · rw [List.getElem?_map, List.getElem?_map, hb, hb']
        exact congrArg some hval
    subst hii
    have hfired : a.entry.fired = true := by simp [Accepted.entry, Accepted.fired, ho]
    have hfired' : a'.entry.fired = true := by simp [Accepted.entry, Accepted.fired, ho']
    exact hc.eq_of_fired hc' (by rw [List.getElem?_map, hj]; rfl)
      (by rw [List.getElem?_map, hj']; rfl) hfired hfired'
  · intro j a hj hall
    have hfull : (l.slots.all fun t =>
        (Joining.offer (heldAfter (s.log.take j)) a.data.slot a.data.value t).isSome) = true := by
      refine List.all_eq_true.mpr fun t ht => ?_
      obtain ⟨i, hc⟩ := hall t ht
      obtain ⟨e, he, -⟩ := hc.slot
      rw [List.getElem?_map] at he
      obtain ⟨b, hb, -⟩ := Option.map_eq_some_iff.mp he
      rw [(carried_of_joined hj).mpr ⟨i, b, hb, rfl, hc⟩]
      rfl
    have hjoin := h.joins j a hj
    rw [joined, if_pos hfull] at hjoin
    exact ⟨_, hjoin⟩

end Runs

/-- A gate consumes each value once as long as no signal arrives while a complete state is
still stored, that is while a firing is awaited or after it raised. -/
theorem gate_consumes_once {V : Type} (id : String) (l : Listened) (layer : String)
    (s : GateRun V)
    (h : GateReaches id l layer (fun s => ¬ HoldsComplete id l layer s.store) s) :
    ConsumesOnce l s.log :=
  (reaches_invariant h).consumesOnce

def pairListened : Listened where
  values := [("event", ["A", "B"])]
  types_nodup := by decide
  events_nodup := by decide

def signalA (v : Nat) : HandlerData Nat := { triggerEvent := "A", value := v }

def signalB (v : Nat) : HandlerData Nat := { triggerEvent := "B", value := v }

/-- `A` and `B` arrive and fire. -/
def firedRun : GateRun Nat :=
  (({} : GateRun Nat).arrive "pair" pairListened (signalA 1)).arrive "pair" pairListened (signalB 2)

/-- Another `A` arrives while the firing is awaited. -/
def staleRun : GateRun Nat := firedRun.arrive "pair" pairListened (signalA 3)

theorem firedRun_reached (admits : GateRun Nat → Prop) (h₀ : admits {})
    (h₁ : admits (({} : GateRun Nat).arrive "pair" pairListened (signalA 1))) :
    GateReaches "pair" pairListened "__root__" admits firedRun := by
  have hA : GateStep "pair" pairListened "__root__" admits {} _ :=
    .arrive {} (signalA 1) h₀ (by decide) (by decide)
  have hB : GateStep "pair" pairListened "__root__" admits _ firedRun :=
    .arrive _ (signalB 2) h₁ (by decide) (by decide)
  exact (Relation.ReflTransGen.single hA).tail hB

def holdsComplete (s : GateRun Nat) : Bool :=
  match Node.get (layerPath (V := Nat) "pair" pairListened "__root__") s.store with
  | some (.dict state) => (whenComplete state).toOption == some true
  | _ => false

theorem not_holdsComplete {s : GateRun Nat} (h : holdsComplete s = false) :
    ¬ HoldsComplete "pair" pairListened "__root__" s.store := by
  rintro ⟨state, hget, hcomplete⟩
  rw [holdsComplete, hget] at h
  simp only [hcomplete] at h
  cases h

theorem gate_consumes_once_pair :
    firedRun.awaited = [1] ∧ ConsumesOnce pairListened firedRun.log :=
  ⟨by decide +kernel, gate_consumes_once "pair" pairListened "__root__" firedRun
    (firedRun_reached _ (not_holdsComplete (by decide +kernel))
      (not_holdsComplete (by decide +kernel)))⟩

theorem stale_value_fires_twice :
    ¬ ∀ s : GateRun Nat, GateReaches "pair" pairListened "__root__" (fun _ => True) s →
      ConsumesOnce pairListened s.log := by
  intro hall
  have hstep : GateStep "pair" pairListened "__root__" (fun _ => True) firedRun staleRun :=
    .arrive _ (signalA 3) trivial (by decide) (by decide)
  have hlaw := hall staleRun ((firedRun_reached _ trivial trivial).tail hstep)
  have hcells : ∀ j, (j = 1 ∨ j = 2) → ∃ a state, staleRun.log[j]? = some a ∧
      a.outcome = .ok (some state) ∧ cellAt state ("event", "B") = some (.value 2) := by
    have hj : ∀ j, (j = 1 ∨ j = 2) → (staleRun.log[j]?.bind fun a => a.outcome.toOption.bind
        fun o => o.bind fun state => cellAt state ("event", "B")) = some (.value 2) := by
      rintro j (rfl | rfl) <;> decide +kernel
    intro j hjj
    obtain ⟨a, ha, h⟩ := Option.bind_eq_some_iff.mp (hj j hjj)
    obtain ⟨o, ho, h⟩ := Option.bind_eq_some_iff.mp h
    obtain ⟨state, rfl, h⟩ := Option.bind_eq_some_iff.mp h
    refine ⟨a, state, ha, ?_, h⟩
    cases hout : a.outcome with
    | error e =>
      rw [hout] at ho
      cases ho
    | ok o' =>
      rw [hout] at ho
      rw [Option.some.inj ho]
  obtain ⟨a, state, ha, ho, hc⟩ := hcells 1 (.inl rfl)
  obtain ⟨a', state', ha', ho', hc'⟩ := hcells 2 (.inr rfl)
  have hsame := hlaw.once (by decide +kernel) 1 2 a a' state state' ("event", "B") ("event", "B") 2
    ha ha' ho ho' (by decide) (by decide) hc hc'
  exact absurd hsame (by decide)

end Agently.TriggerFlow
