import Agently.TriggerFlow.LayeredGates
import Mathlib.Logic.Relation

/-! # The fan-outs of a batch

Source: `TriggerFlow/process/BaseProcess.py`, `TriggerFlow/BluePrint.py`. A fan-out marks a layer
of its own and sends its value to every branch; a branch holds a permit from the start to the end
of its emission, and the last one to reach the gate emits the results. A fan-out started inside a
branch of another is kept inside the state of that one. -/

namespace Agently.TriggerFlow

open Agently.Lib Agently.Utils

structure Branches where
  triggers : List (String × String)
  events_nodup : (triggers.map Prod.fst).Nodup
  names_nodup : (triggers.map Prod.snd).Nodup

/-- How far a branch is: it waits for a permit, runs, has reached the gate or has left it. -/
inductive Phase (V : Type) where
  | waiting
  | running
  | reached (v : V)
  | left (v : V)
  deriving DecidableEq

variable {V : Type}

def Phase.result : Phase V → Option V
  | .reached v => some v
  | .left v => some v
  | _ => none

def Phase.holdsPermit : Phase V → Bool
  | .running => true
  | .reached _ => true
  | _ => false

/-- `last` is the branch whose handler has emitted the results, `deleted` tells whether the
state is deleted. -/
structure FanOut (V : Type) where
  outer : List String
  mark : String
  branches : List (String × Phase V)
  outcomes : List (Except GateError (Option (GateState V))) := []
  last : Option String := none
  deleted : Bool := false

namespace FanOut

variable (f : FanOut V)

def marks : List String := f.outer ++ [f.mark]

def result (event : String) : Option V := (Dict.get? f.branches event).bind Phase.result

end FanOut

def emission (g : JoinGate V) (marks : List String) :
    Except GateError (Option (GateState V)) → Option (List String × GateState V)
  | .ok (some value) => some (g.marksAfter marks, value)
  | _ => none

structure BatchRun (V : Type) where
  store : GateNode V := .dict []
  fanOuts : List (FanOut V) := []

section Runs

variable (id : String) (b : Branches) (concurrency : Option Int)

def newFanOut (outer : List String) (mark : String) : FanOut V where
  outer := outer
  mark := mark
  branches := b.triggers.map fun p => (p.1, .waiting)

def BatchRun.start (s : BatchRun V) (outer : List String) (mark : String) : BatchRun V :=
  { s with fanOuts := s.fanOuts ++ [newFanOut b outer mark] }

def FanOut.setPhase (f : FanOut V) (event : String) (phase : Phase V) : FanOut V :=
  { f with branches := Dict.set f.branches event phase }

def BatchRun.begin (s : BatchRun V) (i : Nat) (f : FanOut V) (event : String) : BatchRun V :=
  { s with fanOuts := s.fanOuts.set i (f.setPhase event .running) }

def branchData (f : FanOut V) (event : String) (v : V) : HandlerData V :=
  { triggerEvent := event, value := v, layerMarks := f.marks }

def BatchRun.reach (s : BatchRun V) (i : Nat) (f : FanOut V) (event : String) (v : V) : BatchRun V :=
  let result := (batchGate id b.triggers).accept (branchData f event v) s.store
  { store := result.1
    fanOuts := s.fanOuts.set i { f.setPhase event (.reached v) with
      outcomes := f.outcomes ++ [result.2]
      last := match result.2 with
        | .ok (some _) => some event
        | _ => f.last } }

/-- The emission of a branch is over; `returned` tells whether it did not raise. -/
def BatchRun.leave (s : BatchRun V) (i : Nat) (f : FanOut V) (event : String) (v : V)
    (returned : Bool) : BatchRun V :=
  if f.last = some event ∧ returned = true then
    { store := (batchGate id b.triggers).finish (branchData f event v) s.store
      fanOuts := s.fanOuts.set i { f.setPhase event (.left v) with deleted := true } }
  else { s with fanOuts := s.fanOuts.set i (f.setPhase event (.left v)) }

def BatchRun.permitsHeld (s : BatchRun V) : Nat :=
  (s.fanOuts.flatMap FanOut.branches).countP fun p => p.2.holdsPermit

def BatchRun.HasPermit (s : BatchRun V) : Prop :=
  ∀ n, concurrency = some n → 0 < n → (s.permitsHeld : Int) < n

/-- A mark of `layer_in` has no dot and is new. -/
structure NewMark (s : BatchRun V) (outer : List String) (mark : String) : Prop where
  plain : ∀ m ∈ outer ++ [mark], '.' ∉ m.toList
  outside : mark ∉ outer
  unused : ∀ f ∈ s.fanOuts, mark ∉ f.marks

/-- The steps of a batch; fan-outs start where `admits` holds. -/
inductive BatchStep (admits : BatchRun V → List String → Prop) : BatchRun V → BatchRun V → Prop
  | start (s : BatchRun V) (outer : List String) (mark : String) (new : NewMark s outer mark)
      (ok : admits s (outer ++ [mark])) : BatchStep admits s (s.start b outer mark)
  | begin (s : BatchRun V) (i : Nat) (f : FanOut V) (event : String)
      (at_i : s.fanOuts[i]? = some f) (phase : Dict.get? f.branches event = some .waiting)
      (permit : s.HasPermit concurrency) : BatchStep admits s (s.begin i f event)
  | reach (s : BatchRun V) (i : Nat) (f : FanOut V) (event : String) (v : V)
      (at_i : s.fanOuts[i]? = some f) (phase : Dict.get? f.branches event = some .running) :
      BatchStep admits s (s.reach id b i f event v)
  | leave (s : BatchRun V) (i : Nat) (f : FanOut V) (event : String) (v : V) (returned : Bool)
      (at_i : s.fanOuts[i]? = some f) (phase : Dict.get? f.branches event = some (.reached v)) :
      BatchStep admits s (s.leave id b i f event v returned)

def BatchReaches (admits : BatchRun V → List String → Prop) (s : BatchRun V) : Prop :=
  Relation.ReflTransGen (BatchStep id b concurrency admits) {} s

def NotInside (s : BatchRun V) (marks : List String) : Prop :=
  ∀ f ∈ s.fanOuts, f.deleted = false → ¬ f.marks <+: marks

def FanOut.continuations (f : FanOut V) : List (List String × GateState V) :=
  f.outcomes.filterMap (emission (batchGate id b.triggers) f.marks)

/-- The gate of a fan-out raises nothing, and goes on once in the layer outside, with the
results of its branches by name, when all have reached it. -/
structure JoinsFanOut (f : FanOut V) : Prop where
  accepted : ∀ o ∈ f.outcomes, ∃ emitted, o = .ok emitted
  pending : (∃ p ∈ b.triggers, f.result p.1 = none) → f.continuations id b = []
  joined : (∀ p ∈ b.triggers, (f.result p.1).isSome = true) →
    ∃ value, f.continuations id b = [(f.outer, value)] ∧ value.map Prod.fst = b.triggers.map Prod.snd ∧
      ∀ p ∈ b.triggers, ∃ v, f.result p.1 = some v ∧
        Dict.get? value p.2 = some (.leaf (.value v))

end Runs

section States

variable (b : Branches)

def resultsOf (r : String → Option V) : GateState V :=
  b.triggers.map fun p => (p.2, .leaf (match r p.1 with
    | some v => .value v
    | none => .none))

def flagsOf (r : String → Option V) : GateState V :=
  b.triggers.map fun p => (p.1, .leaf (.flag (r p.1).isSome))

/-- The state of a fan-out whose branches have brought `r`. -/
def batchStateOf (r : String → Option V) : GateState V :=
  [("results", .dict (resultsOf b r)), ("triggers", .dict (flagsOf b r))]

def withResult (r : String → Option V) (event : String) (v : V) : String → Option V :=
  fun e => if e = event then some v else r e

variable {b}

variable {p : String × String}

theorem set_resultsOf (r : String → Option V) (hp : p ∈ b.triggers) (v : V) :
    Dict.set (resultsOf b r) p.2 (.leaf (.value v)) = resultsOf b (withResult r p.1 v) := by
  refine (Dict.set_map Prod.snd _ b.names_nodup (List.mem_map_of_mem hp) _).trans ?_
  refine List.map_congr_left fun q hq => Prod.ext rfl ?_
  simp only [withResult]
  by_cases hqp : q.2 = p.2
  · have he : q = p := List.inj_on_of_nodup_map b.names_nodup hq hp hqp
    rw [if_pos hqp, he, if_pos rfl]
  · have he : ¬ q.1 = p.1 := fun e =>
      hqp (congrArg Prod.snd (List.inj_on_of_nodup_map b.events_nodup hq hp e))
    rw [if_neg hqp, if_neg he]

theorem set_flagsOf (r : String → Option V) (hp : p ∈ b.triggers) (v : V) :
    Dict.set (flagsOf b r) p.1 (.leaf (.flag true)) = flagsOf b (withResult r p.1 v) := by
  refine (Dict.set_map Prod.fst _ b.events_nodup (List.mem_map_of_mem hp) _).trans ?_
  refine List.map_congr_left fun q _ => Prod.ext rfl ?_
  simp only [withResult]
  by_cases he : q.1 = p.1
  · rw [if_pos he, if_pos he]
    rfl
  · rw [if_neg he, if_neg he]

theorem get?_resultsOf (r : String → Option V) (hp : p ∈ b.triggers) {v : V}
    (hv : r p.1 = some v) : Dict.get? (resultsOf b r) p.2 = some (.leaf (.value v)) := by
  refine (Dict.get?_map Prod.snd _ b.names_nodup hp).trans ?_
  rw [hv]

theorem batchPut_stateOf (r : String → Option V) (hp : p ∈ b.triggers)
    (d : HandlerData V) (hd : d.triggerEvent = p.1) :
    batchPut b.triggers d (batchStateOf b r) =
      .ok (batchStateOf b (withResult r p.1 d.value)) := by
  have hname : (Dict.get? b.triggers p.1).getD "" = p.2 := by
    rw [Dict.get?_of_mem b.events_nodup hp]
    rfl
  have hresults : putIn "results" p.2 (.value d.value) (batchStateOf b r) =
      .ok [("results", .dict (resultsOf b (withResult r p.1 d.value))),
        ("triggers", .dict (flagsOf b r))] := by
    rw [← set_resultsOf r hp d.value]
    rfl
  have hflags : putIn "triggers" p.1 (.flag true)
      [("results", .dict (resultsOf b (withResult r p.1 d.value))),
        ("triggers", .dict (flagsOf b r))] =
      .ok (batchStateOf b (withResult r p.1 d.value)) := by
    rw [batchStateOf, ← set_flagsOf r hp d.value]
    rfl
  rw [batchPut, hd, hname, hresults]
  exact hflags

theorem batchComplete_stateOf (r : String → Option V) :
    batchComplete (batchStateOf b r) = .ok (b.triggers.all fun p => (r p.1).isSome) := by
  have hentries : entriesOf (batchStateOf b r) "triggers" = flagsOf b r := rfl
  rw [batchComplete, hentries, flagsOf, List.any_map, List.not_any_eq_all_not]
  refine congrArg Except.ok (congrArg (fun g => b.triggers.all g) ?_)
  funext p
  cases hr : r p.1 <;> simp [isUndone, hr]

end States

section Kept

variable (id : String) (b : Branches)

def statePath (marks : List String) : List String :=
  StateData.pathOf ("batch_states." ++ id) ++ marks

def AllReached (f : FanOut V) : Prop := ∀ p ∈ b.triggers, (f.result p.1).isSome = true

structure FanInvariant (store : GateNode V) (f : FanOut V) : Prop where
  events : f.branches.map Prod.fst = b.triggers.map Prod.fst
  plain : ∀ m ∈ f.marks, '.' ∉ m.toList
  accepted : ∀ o ∈ f.outcomes, ∃ emitted, o = .ok emitted
  joined : AllReached b f →
    f.continuations id b = [(f.outer, resultsOf b f.result)] ∧ ∃ event, f.last = some event
  pending : ¬ AllReached b f → f.continuations id b = [] ∧ f.last = none
  stored : f.deleted = false →
    (batchGate id b.triggers).held (statePath id f.marks) store = batchStateOf b f.result ∧
      ∀ m, (Node.set (statePath id f.marks) m store).isSome = true
  gone : f.deleted = true →
    ∃ event v, f.last = some event ∧ Dict.get? f.branches event = some (.left v)

structure BatchInvariant (s : BatchRun V) : Prop where
  each : ∀ (i : Nat) (f : FanOut V), s.fanOuts[i]? = some f → FanInvariant id b s.store f
  apart : ∀ (i j : Nat) (f g : FanOut V), s.fanOuts[i]? = some f → s.fanOuts[j]? = some g →
    i ≠ j → f.deleted = false → g.deleted = false → Node.Apart f.marks g.marks
  free : ∀ q : List String, (∃ m ∈ q, ∀ f ∈ s.fanOuts, m ∉ f.marks) → NotInside s q →
    Node.get (statePath id q) s.store = none ∧
      ∀ m, (Node.set (statePath id q) m s.store).isSome = true

structure SameAt (marks : List String) (store store' : GateNode V) : Prop where
  get : Node.get (statePath id marks) store' = Node.get (statePath id marks) store
  set : ∀ m, (Node.set (statePath id marks) m store').isSome =
    (Node.set (statePath id marks) m store).isSome

variable {id b}

theorem FanOut.marks_ne_nil (f : FanOut V) : f.marks ≠ [] := by
  simp [FanOut.marks]

theorem statePath_ne_nil (marks : List String) : statePath id marks ≠ [] :=
  List.append_ne_nil_of_left_ne_nil (StateData.pathOf_ne_nil _) _

variable {f : FanOut V}

theorem path_branchData (hplain : ∀ m ∈ f.marks, '.' ∉ m.toList) (event : String)
    (v : V) : (batchGate id b.triggers).path (branchData f event v) = statePath id f.marks := by
  have hkey : (branchData f event v).layerKey = String.intercalate "." f.marks := by
    rw [HandlerData.layerKey, layerKey]
    exact if_pos f.marks_ne_nil
  rw [JoinGate.path_eq, hkey, pathOf_marks f.marks_ne_nil hplain]
  rfl

theorem result_setPhase (f : FanOut V) (event : String) (phase : Phase V) (e : String) :
    (f.setPhase event phase).result e = if event = e then phase.result else f.result e := by
  simp only [FanOut.result, FanOut.setPhase, Dict.get?_set]
  by_cases he : event = e
  · rw [if_pos he, if_pos he]
    rfl
  · rw [if_neg he, if_neg he]

variable {event : String} {phase phase' : Phase V}

theorem result_setPhase_same
    (h : Dict.get? f.branches event = some phase) (he : phase'.result = phase.result) :
    (f.setPhase event phase').result = f.result := by
  funext e
  rw [result_setPhase]
  by_cases hev : event = e
  · rw [if_pos hev, he, ← hev, FanOut.result, h]
    rfl
  · rw [if_neg hev]

theorem events_setPhase (h : Dict.get? f.branches event = some phase) :
    (f.setPhase event phase').branches.map Prod.fst = f.branches.map Prod.fst :=
  Dict.keys_set_of_mem (List.mem_map.mpr ⟨(event, phase), Dict.mem_of_get? h, rfl⟩) phase'

variable {store : GateNode V}

theorem FanInvariant.trigger (h : FanInvariant id b store f)
    (hp : Dict.get? f.branches event = some phase) :
    ∃ p ∈ b.triggers, p.1 = event := by
  have hm : event ∈ f.branches.map Prod.fst :=
    List.mem_map.mpr ⟨(event, phase), Dict.mem_of_get? hp, rfl⟩
  rw [h.events] at hm
  exact List.mem_map.mp hm

theorem FanInvariant.not_deleted (h : FanInvariant id b store f)
    (hp : Dict.get? f.branches event = some phase) (hr : phase.result = none) :
    ¬ AllReached b f ∧ f.deleted = false := by
  obtain ⟨p, hpm, rfl⟩ := h.trigger hp
  have hno : ¬ AllReached b f := by
    intro hall
    have hsome := hall p hpm
    rw [FanOut.result, hp, Option.bind_some, hr] at hsome
    cases hsome
  refine ⟨hno, ?_⟩
  cases hd : f.deleted with
  | false => rfl
  | true =>
    obtain ⟨e, v, hl, -⟩ := h.gone hd
    rw [(h.pending hno).2] at hl
    cases hl

variable {store' : GateNode V}

theorem FanInvariant.of_same
    (h : FanInvariant id b store f) (hsame : f.deleted = false → SameAt id f.marks store store') :
    FanInvariant id b store' f := by
  refine ⟨h.events, h.plain, h.accepted, h.joined, h.pending, fun hd => ?_, h.gone⟩
  obtain ⟨hheld, hset⟩ := h.stored hd
  refine ⟨(JoinGate.held_of_get (hsame hd).get).trans hheld, fun m => ?_⟩
  rw [(hsame hd).set]
  exact hset m

theorem sameAt_of_apart_set {p q : List String} (h : Node.Apart p q) {n : GateNode V}
    (hs : Node.set (statePath id p) n store = some store') : SameAt id q store store' :=
  ⟨Node.get_set_of_apart (h.append_left _) hs, Node.isSome_set_of_apart (h.append_left _) hs⟩

theorem sameAt_of_apart_del {p q : List String} (h : Node.Apart p q) (store : GateNode V) :
    SameAt id q store (Node.del (statePath id p) store) :=
  ⟨Node.get_del_of_apart (h.append_left _) store,
    Node.isSome_set_del_of_apart (h.append_left _) store⟩

variable {s : BatchRun V}

theorem BatchInvariant.update (h : BatchInvariant id b s) {i : Nat}
    {f' : FanOut V} (hf : s.fanOuts[i]? = some f)
    (hmarks : f'.marks = f.marks) (hdel : f'.deleted = false → f.deleted = false)
    (hnew : FanInvariant id b store' f')
    (hframe : ∀ q, (f.deleted = false → Node.Apart f.marks q) → SameAt id q s.store store')
    (hbelow : f'.deleted = true → f.deleted = false → ∀ q, f.marks <+: q →
      Node.get (statePath id q) store' = none ∧
        ∀ m, (Node.set (statePath id q) m store').isSome = true) :
    BatchInvariant id b { store := store', fanOuts := s.fanOuts.set i f' } := by
  have hil : i < s.fanOuts.length := (List.getElem?_eq_some_iff.mp hf).1
  have hat : ∀ {j : Nat} {g : FanOut V}, (s.fanOuts.set i f')[j]? = some g →
      (j = i ∧ g = f') ∨ (j ≠ i ∧ s.fanOuts[j]? = some g) := by
    intro j g hg
    rw [List.getElem?_set] at hg
    by_cases hij : i = j
    · subst hij
      rw [if_pos rfl, if_pos hil] at hg
      exact .inl ⟨rfl, (Option.some.inj hg).symm⟩
    · rw [if_neg hij] at hg
      exact .inr ⟨Ne.symm hij, hg⟩
  refine ⟨?_, ?_, ?_⟩
  · intro j g hg
    rcases hat hg with ⟨-, rfl⟩ | ⟨hji, hg⟩
    · exact hnew
    · refine (h.each j g hg).of_same fun hgd => hframe g.marks fun hfd => ?_
      exact h.apart i j f g hf hg (Ne.symm hji) hfd hgd
  · intro j k g g' hg hg' hjk hgd hgd'
    rcases hat hg with ⟨hj, he⟩ | ⟨hji, hgj⟩
    · rcases hat hg' with ⟨hk, -⟩ | ⟨hki, hgk⟩
      · exact absurd (hj.trans hk.symm) hjk
      · rw [he, hmarks]
        rw [he] at hgd
        exact h.apart i k f g' hf hgk (Ne.symm hki) (hdel hgd) hgd'
    · rcases hat hg' with ⟨hk, he⟩ | ⟨hki, hgk⟩
      · rw [he, hmarks]
        rw [he] at hgd'
        exact h.apart j i g f hgj hf hji hgd (hdel hgd')
      · exact h.apart j k g g' hgj hgk hjk hgd hgd'
  · rintro q ⟨m, hmq, hm⟩ hq
    have hf' : f' ∈ s.fanOuts.set i f' := List.mem_of_getElem? (by
      rw [List.getElem?_set, if_pos rfl, if_pos hil])
    have hmf : m ∉ f.marks := by
      rw [← hmarks]
      exact hm f' hf'
    have hold : ∀ g ∈ s.fanOuts, g = f ∨ g ∈ s.fanOuts.set i f' := by
      intro g hg
      obtain ⟨j, hj⟩ := List.mem_iff_getElem?.mp hg
      by_cases hij : i = j
      · subst hij
        rw [hf] at hj
        exact .inl (Option.some.inj hj).symm
      · right
        refine List.mem_of_getElem? (i := j) ?_
        rw [List.getElem?_set, if_neg hij, hj]
    have hfresh : ∃ m ∈ q, ∀ g ∈ s.fanOuts, m ∉ g.marks := by
      refine ⟨m, hmq, fun g hg => ?_⟩
      rcases hold g hg with rfl | hg
      · exact hmf
      · exact hm g hg
    by_cases hp : f.deleted = false ∧ f.marks <+: q
    · obtain ⟨hfd, hpq⟩ := hp
      cases hd : f'.deleted with
      | false =>
        rw [← hmarks] at hpq
        exact absurd hpq (hq f' hf' hd)
      | true => exact hbelow hd hfd q hpq
    · have hin : NotInside s q := by
        intro g hg hgd hgq
        rcases hold g hg with rfl | hg
        · exact hp ⟨hgd, hgq⟩
        · exact hq g hg hgd hgq
      have hsame : SameAt id q s.store store' := by
        refine hframe q fun hfd => ⟨fun hpq => hp ⟨hfd, hpq⟩, fun hqp => ?_⟩
        exact hmf (hqp.subset hmq)
      obtain ⟨hnone, hset⟩ := h.free q hfresh hin
      refine ⟨hsame.get.trans hnone, fun m => ?_⟩
      rw [hsame.set]
      exact hset m

theorem allReached_congr {f' : FanOut V} (h : f'.result = f.result) :
    AllReached b f' ↔ AllReached b f := by
  unfold AllReached
  rw [h]

theorem FanInvariant.setPhase (h : FanInvariant id b store f)
    (hp : Dict.get? f.branches event = some phase)
    (hr : phase'.result = phase.result) (hleft : ∀ v, phase ≠ .left v) :
    FanInvariant id b store (f.setPhase event phase') := by
  have hres := result_setPhase_same hp hr
  refine ⟨(events_setPhase hp).trans h.events, h.plain, h.accepted, ?_, ?_, ?_, ?_⟩
  · intro hall
    rw [hres]
    exact h.joined ((allReached_congr hres).mp hall)
  · intro hno
    exact h.pending fun hall => hno ((allReached_congr hres).mpr hall)
  · intro hd
    rw [hres]
    exact h.stored hd
  · intro hd
    obtain ⟨e, v, hl, hv⟩ := h.gone hd
    have hne : ¬ event = e := by
      rintro rfl
      rw [hp] at hv
      exact hleft v (Option.some.inj hv)
    refine ⟨e, v, hl, ?_⟩
    rw [FanOut.setPhase, Dict.get?_set_of_ne _ _ hne]
    exact hv

theorem sameAt_refl (q : List String) (store : GateNode V) : SameAt id q store store :=
  ⟨rfl, fun _ => rfl⟩

theorem BatchInvariant.setPhase (h : BatchInvariant id b s) {i : Nat} (hf : s.fanOuts[i]? = some f)
    (hp : Dict.get? f.branches event = some phase) (hr : phase'.result = phase.result)
    (hleft : ∀ v, phase ≠ .left v) :
    BatchInvariant id b { s with fanOuts := s.fanOuts.set i (f.setPhase event phase') } := by
  refine h.update hf rfl (fun hd => hd) ((h.each i f hf).setPhase hp hr hleft)
    (fun q _ => sameAt_refl q s.store) ?_
  intro hd hfd
  have hsame : (f.setPhase event phase').deleted = f.deleted := rfl
  rw [hsame, hfd] at hd
  cases hd

theorem result_newFanOut (outer : List String) (mark : String) :
    (newFanOut b outer mark : FanOut V).result = fun _ => none := by
  funext e
  have hget := Dict.get?_mapVals (fun _ : String => (Phase.waiting : Phase V)) b.triggers e
  have hbranches : (newFanOut b outer mark : FanOut V).branches =
      b.triggers.map fun p => (p.1, .waiting) := rfl
  rw [FanOut.result, hbranches, hget]
  cases Dict.get? b.triggers e <;> rfl

theorem newFanOut_invariant (hb : b.triggers ≠ []) (h : BatchInvariant id b s)
    {outer : List String} {mark : String} (new : NewMark s outer mark)
    (ok : NotInside s (outer ++ [mark])) :
    FanInvariant id b s.store (newFanOut b outer mark) := by
  have hres := result_newFanOut (V := V) (b := b) outer mark
  have hno : ¬ AllReached b (newFanOut b outer mark : FanOut V) := by
    intro hall
    obtain ⟨p, hp⟩ := List.exists_mem_of_ne_nil _ hb
    have hsome := hall p hp
    rw [hres] at hsome
    cases hsome
  have hfree := h.free (outer ++ [mark])
    ⟨mark, by simp, fun f hf => new.unused f hf⟩ ok
  refine ⟨?_, new.plain, ?_, fun hall => absurd hall hno, fun _ => ⟨rfl, rfl⟩, fun _ => ?_, ?_⟩
  · simp [newFanOut]
  · intro o ho
    cases ho
  · refine ⟨?_, hfree.2⟩
    have hmarks : (newFanOut b outer mark : FanOut V).marks = outer ++ [mark] := rfl
    unfold JoinGate.held
    rw [hmarks, hfree.1, hres]
    rfl
  · intro hd
    cases hd

theorem start_invariant (hb : b.triggers ≠ []) (h : BatchInvariant id b s)
    {outer : List String} {mark : String} (new : NewMark s outer mark)
    (ok : NotInside s (outer ++ [mark])) : BatchInvariant id b (s.start b outer mark) := by
  have hmarks : (newFanOut b outer mark : FanOut V).marks = outer ++ [mark] := rfl
  have hat : ∀ {j : Nat} {g : FanOut V}, (s.fanOuts ++ [newFanOut b outer mark])[j]? = some g →
      (s.fanOuts[j]? = some g) ∨ (j = s.fanOuts.length ∧ g = newFanOut b outer mark) := by
    intro j g hg
    by_cases hj : j < s.fanOuts.length
    · rw [List.getElem?_append_left hj] at hg
      exact .inl hg
    · rw [List.getElem?_append_right (by omega)] at hg
      obtain ⟨hlt, he⟩ := List.getElem?_eq_some_iff.mp hg
      simp only [List.length_singleton] at hlt
      exact .inr ⟨by omega, by simpa using he.symm⟩
  have hnew : ∀ g ∈ s.fanOuts, g.deleted = false → Node.Apart g.marks (outer ++ [mark]) := by
    intro g hg hgd
    refine ⟨ok g hg hgd, fun hp => new.unused g hg (hp.subset (by simp))⟩
  refine ⟨?_, ?_, ?_⟩
  · intro j g hg
    rcases hat hg with hg | ⟨-, rfl⟩
    · exact h.each j g hg
    · exact newFanOut_invariant hb h new ok
  · intro j k g g' hg hg' hjk hgd hgd'
    rcases hat hg with hgj | ⟨hj, he⟩
    · rcases hat hg' with hgk | ⟨hk, he'⟩
      · exact h.apart j k g g' hgj hgk hjk hgd hgd'
      · rw [he', hmarks]
        exact hnew g (List.mem_of_getElem? hgj) hgd
    · rcases hat hg' with hgk | ⟨hk, he'⟩
      · rw [he, hmarks]
        exact (hnew g' (List.mem_of_getElem? hgk) hgd').symm
      · exact absurd (hj.trans hk.symm) hjk
  · rintro q ⟨m, hmq, hm⟩ hq
    refine h.free q ⟨m, hmq, fun f hf => hm f (List.mem_append_left _ hf)⟩ ?_
    intro f hf hfd
    exact hq f (List.mem_append_left _ hf) hfd

theorem accept_branch {r : String → Option V}
    (hplain : ∀ m ∈ f.marks, '.' ∉ m.toList) {p : String × String} (hp : p ∈ b.triggers) (v : V)
    (hheld : (batchGate id b.triggers).held (statePath id f.marks) store = batchStateOf b r)
    (hset : ∀ m, (Node.set (statePath id f.marks) m store).isSome = true) :
    ((batchGate id b.triggers).accept (branchData f p.1 v) store).2 =
        .ok (if b.triggers.all fun q => (withResult r p.1 v q.1).isSome then
          some (resultsOf b (withResult r p.1 v)) else none) ∧
      Node.set (statePath id f.marks) (.dict (batchStateOf b (withResult r p.1 v))) store =
        some ((batchGate id b.triggers).accept (branchData f p.1 v) store).1 := by
  obtain ⟨store', hs⟩ := Option.isSome_iff_exists.mp
    (hset (.dict (batchStateOf b (withResult r p.1 v))))
  have hlistens : (batchGate id b.triggers).listens (branchData f p.1 v) = true := by
    have hget := Dict.get?_of_mem b.events_nodup hp
    simp [batchGate, branchData, hget]
  have hput : (batchGate id b.triggers).put (branchData f p.1 v) (batchStateOf b r) =
      .ok (batchStateOf b (withResult r p.1 v)) :=
    batchPut_stateOf r hp (branchData f p.1 v) rfl
  have hcomplete : (batchGate id b.triggers).complete (batchStateOf b (withResult r p.1 v)) =
      .ok (b.triggers.all fun q => (withResult r p.1 v q.1).isSome) :=
    batchComplete_stateOf _
  have hfiring : (batchGate (V := V) id b.triggers).firing (batchStateOf b (withResult r p.1 v)) =
      resultsOf b (withResult r p.1 v) := rfl
  unfold JoinGate.accept
  rw [path_branchData hplain, hlistens, if_pos rfl, hheld, hput]
  simp only [hs, hcomplete, hfiring]
  cases b.triggers.all fun q => (withResult r p.1 v q.1).isSome with
  | false => exact ⟨rfl, rfl⟩
  | true => exact ⟨rfl, rfl⟩

theorem all_isSome_iff {r : String → Option V} (h : f.result = r) :
    (b.triggers.all fun q => (r q.1).isSome) = true ↔ AllReached b f := by
  rw [List.all_eq_true, AllReached, h]

theorem reach_invariant (h : BatchInvariant id b s) {i : Nat} (hf : s.fanOuts[i]? = some f)
    (hp : Dict.get? f.branches event = some .running) (v : V) :
    BatchInvariant id b (s.reach id b i f event v) := by
  have hfi := h.each i f hf
  obtain ⟨hno, hd⟩ := hfi.not_deleted hp rfl
  obtain ⟨p, hpm, rfl⟩ := hfi.trigger hp
  obtain ⟨hheld, hset⟩ := hfi.stored hd
  obtain ⟨hout, hstore⟩ := accept_branch hfi.plain hpm v hheld hset
  obtain ⟨hcont, hlast⟩ := hfi.pending hno
  unfold BatchRun.reach
  generalize (batchGate id b.triggers).accept (branchData f p.1 v) s.store = result at hout hstore
  obtain ⟨store, outcome⟩ := result
  simp only at hout hstore ⊢
  have hres : ∀ g : FanOut V, g.branches = Dict.set f.branches p.1 (.reached v) →
      g.result = withResult f.result p.1 v := by
    intro g hg
    funext e
    have he := result_setPhase f p.1 (.reached v) e
    rw [FanOut.result, hg]
    refine he.trans ?_
    simp only [withResult, Phase.result, eq_comm]
  refine h.update hf rfl (fun hd' => hd') ?_
    (fun q hq => sameAt_of_apart_set (hq hd) hstore) (fun hd' hfd => ?_)
  · refine ⟨(events_setPhase hp).trans hfi.events, hfi.plain, ?_, ?_, ?_, ?_, ?_⟩
    · intro o ho
      rcases List.mem_append.mp ho with ho | ho
      · exact hfi.accepted o ho
      · rw [List.mem_singleton.mp ho, hout]
        exact ⟨_, rfl⟩
    · intro hall
      rw [(all_isSome_iff (hres _ rfl)).mpr hall, if_pos rfl] at hout
      rw [hres _ rfl, hout]
      refine ⟨?_, p.1, rfl⟩
      rw [FanOut.continuations] at hcont ⊢
      rw [List.filterMap_append]
      have hm : (batchGate (V := V) id b.triggers).marksAfter f.marks = f.outer := by
        simp [batchGate, FanOut.marks]
      have hnow : [Except.ok (some (resultsOf b (withResult f.result p.1 v)))].filterMap
          (emission (batchGate id b.triggers) f.marks) =
            [(f.outer, resultsOf b (withResult f.result p.1 v))] := by
        rw [← hm]
        rfl
      refine Eq.trans (congrArg₂ (· ++ ·) hcont hnow) ?_
      rfl
    · intro hall
      have hfalse : (b.triggers.all fun q => (withResult f.result p.1 v q.1).isSome) = false := by
        cases hc : b.triggers.all fun q => (withResult f.result p.1 v q.1).isSome with
        | false => rfl
        | true => exact absurd ((all_isSome_iff (hres _ rfl)).mp hc) hall
      rw [hfalse, if_neg (by simp)] at hout
      rw [hout]
      refine ⟨?_, hlast⟩
      rw [FanOut.continuations] at hcont ⊢
      rw [List.filterMap_append]
      refine Eq.trans (congrArg (· ++ _) hcont) ?_
      rfl
    · intro _
      rw [hres _ rfl]
      have hget := Node.get_set_self hstore
      refine ⟨?_, fun m => Node.set_of_get hget m⟩
      unfold JoinGate.held
      have hmarks : ∀ o l, FanOut.marks { f.setPhase p.1 (.reached v) with outcomes := o, last := l } =
          f.marks := fun _ _ => rfl
      rw [hmarks, hget]
    · intro hd'
      have hsame : f.deleted = true := hd'
      rw [hd] at hsame
      cases hsame
  · have hsame : f.deleted = true := hd'
    rw [hfd] at hsame
    cases hsame

theorem leave_invariant (h : BatchInvariant id b s) {i : Nat} {v : V} (hf : s.fanOuts[i]? = some f)
    (hp : Dict.get? f.branches event = some (.reached v)) (returned : Bool) :
    BatchInvariant id b (s.leave id b i f event v returned) := by
  have hfi := h.each i f hf
  have hphase : FanInvariant id b s.store (f.setPhase event (.left v)) :=
    hfi.setPhase hp rfl (by simp)
  unfold BatchRun.leave
  by_cases hl : f.last = some event ∧ returned = true
  · rw [if_pos hl]
    have hd : f.deleted = false := by
      cases hd : f.deleted with
      | false => rfl
      | true =>
        obtain ⟨e, w, hle, hw⟩ := hfi.gone hd
        rw [hl.1] at hle
        rw [← Option.some.inj hle, hp] at hw
        cases hw
    have hfinish : (batchGate id b.triggers).finish (branchData f event v) s.store =
        Node.del (statePath id f.marks) s.store := by
      unfold JoinGate.finish
      rw [path_branchData hfi.plain]
      rfl
    rw [hfinish]
    refine h.update hf rfl (fun _ => hd) ?_ (fun q hq => sameAt_of_apart_del (hq hd) s.store) ?_
    · refine ⟨hphase.events, hphase.plain, hphase.accepted, hphase.joined, hphase.pending, ?_, ?_⟩
      · intro hd'
        cases hd'
      · exact fun _ => ⟨event, v, hl.1, Dict.get?_set_self _ _ _⟩
    · intro _ _ q hq
      have hpre : statePath id f.marks <+: statePath id q :=
        (List.prefix_append_right_inj _).mpr hq
      refine ⟨Node.get_of_prefix_none hpre (Node.get_del_self (statePath_ne_nil _) _), fun m => ?_⟩
      exact Node.isSome_set_del_of_prefix (statePath_ne_nil _) hpre ((hfi.stored hd).2 m) m
  · rw [if_neg hl]
    exact h.setPhase hf hp rfl (by simp)

theorem batch_invariant_start : BatchInvariant id b ({} : BatchRun V) := by
  refine ⟨by simp, by simp, fun q _ _ => ⟨?_, fun m => Node.set_empty _ m⟩⟩
  exact Node.get_empty (statePath_ne_nil q)

theorem batchReaches_invariant {concurrency : Option Int} (hb : b.triggers ≠ [])
    (h : BatchReaches id b concurrency NotInside s) : BatchInvariant id b s := by
  induction h with
  | refl => exact batch_invariant_start
  | tail _ hstep ih =>
    cases hstep with
    | start outer mark new ok => exact start_invariant hb ih new ok
    | begin i f event hf hp permit => exact ih.setPhase hf hp rfl (by simp)
    | reach i f event v hf hp => exact reach_invariant ih hf hp v
    | leave i f event v returned hf hp => exact leave_invariant ih hf hp returned

theorem FanInvariant.joinsFanOut (h : FanInvariant id b store f) : JoinsFanOut id b f := by
  refine ⟨h.accepted, ?_, ?_⟩
  · rintro ⟨p, hp, hn⟩
    refine (h.pending fun hall => ?_).1
    have hsome := hall p hp
    rw [hn] at hsome
    cases hsome
  · intro hall
    refine ⟨resultsOf b f.result, (h.joined hall).1, ?_, ?_⟩
    · rw [resultsOf, List.map_map]
      rfl
    · intro p hp
      obtain ⟨v, hv⟩ := Option.isSome_iff_exists.mp (hall p hp)
      exact ⟨v, hv, get?_resultsOf _ hp hv⟩

end Kept

def Unfinished (b : Branches) (s : BatchRun V) : Prop :=
  ∃ f ∈ s.fanOuts, ∃ p ∈ b.triggers, ∀ v, Dict.get? f.branches p.1 ≠ some (.left v)

theorem permitsHeld_eq_zero {s : BatchRun V}
    (h : ∀ f ∈ s.fanOuts, ∀ p ∈ f.branches, p.2.holdsPermit = false) : s.permitsHeld = 0 := by
  rw [BatchRun.permitsHeld, List.countP_eq_zero]
  intro p hp
  obtain ⟨f, hf, hpf⟩ := List.mem_flatMap.mp hp
  simp [h f hf p hpf]

theorem BatchInvariant.progress [Inhabited V] {id : String} {b : Branches} {s : BatchRun V}
    (h : BatchInvariant id b s) (concurrency : Option Int) (hu : Unfinished b s) :
    ∃ s', BatchStep id b concurrency (fun _ _ => False) s s' := by
  by_cases hheld : ∃ (i : Nat) (f : FanOut V) (event : String) (phase : Phase V),
      s.fanOuts[i]? = some f ∧ Dict.get? f.branches event = some phase ∧ phase.holdsPermit = true
  · obtain ⟨i, f, event, phase, hf, hp, hh⟩ := hheld
    cases phase with
    | waiting => cases hh
    | running => exact ⟨_, .reach s i f event default hf hp⟩
    | reached v => exact ⟨_, .leave s i f event v true hf hp⟩
    | left v => cases hh
  · obtain ⟨f, hfm, p, hp, hleft⟩ := hu
    obtain ⟨i, hf⟩ := List.mem_iff_getElem?.mp hfm
    have hnone : ∀ g ∈ s.fanOuts, ∀ q ∈ g.branches, q.2.holdsPermit = false := by
      intro g hg q hq
      obtain ⟨j, hj⟩ := List.mem_iff_getElem?.mp hg
      have hn : (g.branches.map Prod.fst).Nodup := by
        rw [(h.each j g hj).events]
        exact b.events_nodup
      cases hh : q.2.holdsPermit with
      | false => rfl
      | true => exact absurd ⟨j, g, q.1, q.2, hj, Dict.get?_of_mem hn hq, hh⟩ hheld
    have hmem : p.1 ∈ f.branches.map Prod.fst := by
      rw [(h.each i f hf).events]
      exact List.mem_map_of_mem hp
    obtain ⟨q, hq, hqp⟩ := List.mem_map.mp hmem
    have hn : (f.branches.map Prod.fst).Nodup := by
      rw [(h.each i f hf).events]
      exact b.events_nodup
    have hget := Dict.get?_of_mem hn hq
    rw [hqp] at hget
    have hpermit : s.HasPermit concurrency := by
      intro n _ hpos
      rw [permitsHeld_eq_zero hnone]
      exact hpos
    cases hphase : q.2 with
    | waiting =>
      rw [hphase] at hget
      exact ⟨_, .begin s i f p.1 hf hget hpermit⟩
    | running =>
      have hfree := hnone f hfm q hq
      rw [hphase] at hfree
      cases hfree
    | reached v =>
      have hfree := hnone f hfm q hq
      rw [hphase] at hfree
      cases hfree
    | left v =>
      rw [hphase] at hget
      exact absurd hget (hleft v)

/-- Where no fan-out starts inside an open branch of another, every fan-out of a batch with branches
goes on once, with its own results; while a branch has not left, a step is left that starts none. -/
theorem batch_joins_once {V : Type} [Inhabited V] (id : String) (b : Branches)
    (concurrency : Option Int) (hb : b.triggers ≠ []) (s : BatchRun V)
    (h : BatchReaches id b concurrency NotInside s) :
    (∀ f ∈ s.fanOuts, JoinsFanOut id b f) ∧
      (Unfinished b s → ∃ s', BatchStep id b concurrency (fun _ _ => False) s s') := by
  have hi := batchReaches_invariant hb h
  refine ⟨fun f hf => ?_, fun hu => hi.progress concurrency hu⟩
  obtain ⟨i, hat⟩ := List.mem_iff_getElem?.mp hf
  exact (hi.each i f hat).joinsFanOut

def twoBranches : Branches where
  triggers := [("A", "a"), ("B", "b")]
  events_nodup := by decide
  names_nodup := by decide

def outerFanOut : FanOut Nat := newFanOut twoBranches [] "m"

def innerFanOut : FanOut Nat := newFanOut twoBranches ["m"] "n"

def startedRun : BatchRun Nat :=
  (({} : BatchRun Nat).start twoBranches [] "m").begin 0 outerFanOut "A"

theorem startedRun_reached {admits : BatchRun Nat → List String → Prop} (ok : admits {} ["m"]) :
    BatchReaches "pair" twoBranches none admits startedRun := by
  have hstart : BatchStep "pair" twoBranches none admits {} _ :=
    .start {} [] "m" ⟨by decide, by decide, by simp⟩ ok
  have hbegin : BatchStep "pair" twoBranches none admits _ startedRun :=
    .begin _ 0 outerFanOut "A" rfl rfl fun n hn => by cases hn
  exact (Relation.ReflTransGen.single hstart).tail hbegin

theorem batch_joins_once_pair :
    (∀ f ∈ startedRun.fanOuts, JoinsFanOut "pair" twoBranches f) ∧
      (Unfinished twoBranches startedRun →
        ∃ s', BatchStep "pair" twoBranches none (fun _ _ => False) startedRun s') :=
  batch_joins_once "pair" twoBranches none (by decide) startedRun
    (startedRun_reached (fun _ hf => absurd hf List.not_mem_nil))

def innerFirst : BatchRun Nat :=
  ((startedRun.start twoBranches ["m"] "n").begin 1 innerFanOut "A").reach "pair" twoBranches 1
    (innerFanOut.setPhase "A" .running) "A" 1

def outerNext : BatchRun Nat :=
  innerFirst.reach "pair" twoBranches 0 (outerFanOut.setPhase "A" .running) "A" 2

def outerWaiting : FanOut Nat :=
  { outerFanOut.setPhase "A" (.reached 2) with outcomes := [.error .keyError] }

def nestedRun : BatchRun Nat :=
  (outerNext.begin 0 outerWaiting "B").reach "pair" twoBranches 0
    (outerWaiting.setPhase "B" .running) "B" 3

theorem outerNext_head : outerNext.fanOuts[0]? = some outerWaiting := rfl

/-- The gate raises for both branches outside, whose state it finds without results; nothing
goes on. -/
theorem nested_fan_out_never_goes_on :
    ¬ ∀ s : BatchRun Nat, BatchReaches "pair" twoBranches none (fun _ _ => True) s →
      ∀ f ∈ s.fanOuts, JoinsFanOut "pair" twoBranches f := by
  intro hall
  have hlimit : ∀ s : BatchRun Nat, s.HasPermit none := fun s n hn => by cases hn
  have hstart : BatchStep "pair" twoBranches none (fun _ _ => True) startedRun _ :=
    .start _ ["m"] "n" ⟨by decide, by decide, by decide⟩ trivial
  have hbegin : BatchStep "pair" twoBranches none (fun _ _ => True) _
      ((startedRun.start twoBranches ["m"] "n").begin 1 innerFanOut "A") :=
    .begin _ 1 innerFanOut "A" rfl rfl (hlimit _)
  have hinner : BatchStep "pair" twoBranches none (fun _ _ => True) _ innerFirst :=
    .reach _ 1 (innerFanOut.setPhase "A" .running) "A" 1 rfl rfl
  have houter : BatchStep "pair" twoBranches none (fun _ _ => True) _ outerNext :=
    .reach _ 0 (outerFanOut.setPhase "A" .running) "A" 2 rfl rfl
  have hwait : BatchStep "pair" twoBranches none (fun _ _ => True) _
      (outerNext.begin 0 outerWaiting "B") :=
    .begin _ 0 outerWaiting "B" outerNext_head (by decide +kernel) (hlimit _)
  have hlast : BatchStep "pair" twoBranches none (fun _ _ => True) _ nestedRun :=
    .reach _ 0 (outerWaiting.setPhase "B" .running) "B" 3 rfl (by decide +kernel)
  have hreached := (((((startedRun_reached trivial).tail hstart).tail hbegin).tail hinner).tail
    houter).tail hwait |>.tail hlast
  have hfinal : nestedRun.fanOuts.head?.map (fun f =>
      (twoBranches.triggers.all fun p => (f.result p.1).isSome,
        (f.continuations "pair" twoBranches).length)) = some (true, 0) := by decide +kernel
  obtain ⟨f, hf, hmap⟩ := Option.map_eq_some_iff.mp hfinal
  obtain ⟨hreach, hlen⟩ := Prod.mk.injEq .. ▸ hmap
  obtain ⟨value, hone, -⟩ := (hall nestedRun hreached f (List.mem_of_head? hf)).joined
    (List.all_eq_true.mp hreach)
  rw [hone] at hlen
  cases hlen

end Agently.TriggerFlow
