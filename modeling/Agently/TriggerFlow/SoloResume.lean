import Agently.TriggerFlow.DispatchOnce
import Agently.TriggerFlow.SelfResume

/-! # Executions in which every resume reaches one handler

Source: `TriggerFlow/ExecutionInterrupts.py`, `TriggerFlow/Execution.py`. Where every pause is a
'self' pause at the signal the handler was given, and nobody else listens on its event, every
resume dispatch re-enters the paused handler, at most once for each pause. -/

namespace Agently.TriggerFlow

open Agently.Lib Agently.Utils

variable {ε η : Type}

def Dispatch.source (d : Dispatch ε η) : DispatchCause × Signal ε := (d.cause, d.signal)

def sources (e : Execution ε η) : List (DispatchCause × Signal ε) :=
  e.dispatches.map Dispatch.source

def deliveries (e : Execution ε η) : List (Nat × η × Signal ε) :=
  e.invocations.map Invocation.delivery

def newSources (e : Execution ε η) : ExecutionAction ε η → List (DispatchCause × Signal ε)
  | .emit s => [(.emitted, s)]
  | .emitNowait s => if acceptsSignal e s false then [(.emitted, s)] else []
  | .advance index o freshId => (resumeDispatches e index freshId o).map Dispatch.source
  | _ => []

theorem source_set {e : Execution ε η} {index : Nat} {d d' : Dispatch ε η}
    (hd : e.dispatches[index]? = some d) (hs : d'.source = d.source) :
    (e.dispatches.set index d').map Dispatch.source = e.dispatches.map Dispatch.source := by
  rw [List.map_set, hs]
  exact set_of_getElem? (by rw [List.getElem?_map, hd]; rfl)

theorem getElem?_append_cases {α : Type} {l more : List α} {y : α} {n : Nat}
    (h : (l ++ more)[n]? = some y) :
    l[n]? = some y ∨ (l.length ≤ n ∧ more[n - l.length]? = some y) := by
  by_cases hn : n < l.length
  · left
    rwa [List.getElem?_append_left hn] at h
  · have hge : l.length ≤ n := Nat.le_of_not_lt hn
    right
    rw [List.getElem?_append_right hge] at h
    exact ⟨hge, h⟩

theorem getElem?_append_one {α : Type} {l more : List α} {x y : α} {n : Nat} (hm : more = [x])
    (h : (l ++ more)[n]? = some y) : l[n]? = some y ∨ n = l.length := by
  subst hm
  rcases getElem?_append_cases h with h | ⟨hn, h⟩
  · exact .inl h
  · have hlt := (List.getElem?_eq_some_iff.mp h).1
    simp only [List.length_singleton] at hlt
    right
    omega

theorem index_eq_of_nodup_filter {α : Type} {p : α → Bool} {l : List α} {x : α} {m n : Nat}
    (h : (l.filter p).Nodup) (hp : p x = true) (hm : l[m]? = some x) (hn : l[n]? = some x) :
    m = n := by
  induction l generalizing m n with
  | nil => simp at hm
  | cons a rest ih =>
    have hrest : (rest.filter p).Nodup := h.sublist ((List.sublist_cons_self a rest).filter p)
    have hhead : ∀ i : Nat, a = x → rest[i]? = some x → False := by
      intro i ha hi
      subst ha
      rw [List.filter_cons_of_pos hp] at h
      exact (List.nodup_cons.mp h).1 (List.mem_filter.mpr ⟨List.mem_of_getElem? hi, hp⟩)
    cases m with
    | zero =>
      cases n with
      | zero => rfl
      | succ n => exact (hhead n (by simpa using hm) (by simpa using hn)).elim
    | succ m =>
      cases n with
      | zero => exact (hhead m (by simpa using hn) (by simpa using hm)).elim
      | succ n =>
        have hi : m = n := ih hrest (by simpa using hm) (by simpa using hn)
        omega

theorem delivered_source {e : Execution ε η} (h : DispatchesHandOut e) {n : Nat}
    {x : Nat × η × Signal ε} (hx : (deliveries e)[n]? = some x) :
    ∃ d, e.dispatches[x.1]? = some d ∧ d.signal = x.2.2 ∧ x.2.1 ∈ d.handlers := by
  obtain ⟨inv, hinv, rfl⟩ : ∃ inv, e.invocations[n]? = some inv ∧ inv.delivery = x := by
    simpa [deliveries] using hx
  have hmem := List.mem_of_getElem? hinv
  obtain ⟨d, hd⟩ : ∃ d, e.dispatches[inv.dispatch]? = some d :=
    ⟨_, List.getElem?_eq_getElem (h.known inv hmem)⟩
  have hhanded := (h.handsOut inv.dispatch d hd).handed
  have hin : (inv.handler, inv.signal) ∈ handedTo e.invocations inv.dispatch := by
    simp only [handedTo, List.mem_map, List.mem_filter]
    exact ⟨inv.delivery, ⟨⟨inv, hmem, rfl⟩, decide_eq_true rfl⟩, rfl⟩
  have hin' : (inv.handler, inv.signal) ∈ d.handlers.map fun x => (x, d.signal) := by
    rw [← hhanded]
    exact List.mem_append_left _ hin
  obtain ⟨x, hx', he⟩ := List.mem_map.mp hin'
  obtain ⟨rfl, hs⟩ := Prod.mk.inj he
  exact ⟨d, hd, hs, hx'⟩

theorem delivered_once {e : Execution ε η} (h : DispatchesHandOut e) {m n : Nat}
    {x y : Nat × η × Signal ε} (hx : (deliveries e)[m]? = some x)
    (hy : (deliveries e)[n]? = some y) (hdispatch : x.1 = y.1) (hhandler : x.2.1 = y.2.1)
    (hnodup : ∀ d, e.dispatches[x.1]? = some d → d.handlers.Nodup) : m = n := by
  obtain ⟨d, hd, hsx, -⟩ := delivered_source h hx
  obtain ⟨d', hd', hsy, -⟩ := delivered_source h hy
  have hdd : d' = d := Option.some.inj (hd'.symm.trans (hdispatch ▸ hd))
  subst hdd
  have hxy : x = y := Prod.ext hdispatch (Prod.ext hhandler (hsx.symm.trans hsy))
  subst hxy
  have hall : (handedTo e.invocations x.1).Nodup := by
    have hh := (h.handsOut x.1 d' hd').handed
    have hmap : (d'.handlers.map fun z => (z, d'.signal)).Nodup :=
      (hnodup d' hd').map fun a b hab => (Prod.mk.inj hab).1
    rw [← hh] at hmap
    exact (List.nodup_append.mp hmap).1
  have hfilter : ((deliveries e).filter fun z => decide (z.1 = x.1)).Nodup := hall.of_map _
  exact index_eq_of_nodup_filter hfilter (decide_eq_true rfl) hx hy

theorem abandonDispatch_kept {e e' : Execution ε η} {index : Nat} {d : Dispatch ε η}
    (hd : e.dispatches[index]? = some d) (he : abandonDispatch e index d = some e') :
    sources e' = sources e ∧ deliveries e' = deliveries e ∧ e'.raises = e.raises ∧
      e'.bindings = e.bindings ∧
      e'.pool = { e.pool with state := { e.pool.state with status := .failed } } := by
  unfold abandonDispatch at he
  split at he
  · cases he
    refine ⟨source_set hd rfl, ?_, rfl, rfl, rfl⟩
    show (e.invocations.map (stopHandler index)).map Invocation.delivery = _
    rw [List.map_map]
    exact List.map_congr_left fun inv _ => stopHandler_delivery index inv
  · cases he

variable [DecidableEq ε]

theorem advanceDispatch_kept {flow : Flow ε η} {e e' : Execution ε η} {index : Nat}
    {d : Dispatch ε η} (hd : e.dispatches[index]? = some d)
    (he : advanceDispatch flow e index d = some e') :
    sources e' = sources e ∧ ∃ more, deliveries e' = deliveries e ++ more := by
  unfold advanceDispatch at he
  cases hp : d.phase with
  | entering pre =>
    simp only [hp] at he
    split at he
    · obtain ⟨pool, -, rfl⟩ := Option.map_eq_some_iff.mp he
      exact ⟨source_set hd rfl, [], (List.append_nil _).symm⟩
    · cases he
      exact ⟨source_set hd rfl, [], (List.append_nil _).symm⟩
  | resuming | remembered =>
    simp only [hp] at he
    cases he
    exact ⟨source_set hd rfl, [], (List.append_nil _).symm⟩
  | handing remaining =>
    cases remaining with
    | nil =>
      simp only [hp] at he
      split at he
      · cases he
      · cases he
        exact ⟨source_set hd rfl, [], (List.append_nil _).symm⟩
    | cons x rest =>
      simp only [hp] at he
      cases he
      exact ⟨source_set hd rfl, [(index, x, d.signal)], List.map_append⟩
  | finished | failed | rejected => simp only [hp] at he; cases he

variable [DecidableEq η]

theorem executionStep_log {flow : Flow ε η} {e e' : Execution ε η} {a : ExecutionAction ε η}
    (he : executionStep flow e a = some e') :
    sources e' = sources e ++ newSources e a ∧ ∃ more, deliveries e' = deliveries e ++ more := by
  have hnil : sources e = sources e ++ [] := (List.append_nil _).symm
  have hsame : ∀ x : Execution ε η, deliveries x = deliveries e →
      ∃ more, deliveries x = deliveries e ++ more := by
    intro x hx
    exact ⟨[], by rw [List.append_nil, hx]⟩
  cases a with
  | emit s =>
    cases he
    refine ⟨?_, hsame _ rfl⟩
    rw [sources, List.map_append]
    rfl
  | emitNowait s =>
    simp only [executionStep] at he
    split at he
    next hacc =>
      cases he
      refine ⟨?_, hsame _ rfl⟩
      rw [sources, List.map_append, newSources, if_pos hacc]
      rfl
    next hacc =>
      cases he
      refine ⟨?_, hsame _ rfl⟩
      rw [newSources, if_neg hacc]
      exact hnil
  | advanceDispatch index =>
    obtain ⟨d, hd, hadv⟩ := Option.bind_eq_some_iff.mp he
    obtain ⟨hs, hdel⟩ := advanceDispatch_kept hd hadv
    exact ⟨hs.trans hnil, hdel⟩
  | failDispatch index =>
    obtain ⟨d, hd, hfail⟩ := Option.bind_eq_some_iff.mp he
    obtain ⟨hs, hdel, -⟩ := abandonDispatch_kept hd hfail
    exact ⟨hs.trans hnil, hsame _ hdel⟩
  | pauseFor n args now freshId =>
    obtain ⟨inv, hinv, hpause⟩ := Option.bind_eq_some_iff.mp he
    split at hpause
    · obtain ⟨pool, -, rfl⟩ := Option.map_eq_some_iff.mp hpause
      exact ⟨hnil, hsame _ rfl⟩
    · cases hpause
  | endHandler n =>
    obtain ⟨inv, hinv, rfl⟩ := Option.map_eq_some_iff.mp he
    exact ⟨hnil, hsame _ (delivery_set hinv false)⟩
  | advance index o freshId =>
    simp only [executionStep] at he
    split at he
    · cases he
    · obtain ⟨pool, hpool, rfl⟩ := Option.map_eq_some_iff.mp he
      refine ⟨?_, hsame _ rfl⟩
      rw [sources, List.map_append]
      rfl
  | bind b | unbind id type event =>
    cases he
    exact ⟨hnil, hsame _ rfl⟩
  | continueWith args | cancel reason | sealExecution | close =>
    simp only [executionStep] at he
    obtain ⟨pool, hpool, rfl⟩ := Option.map_eq_some_iff.mp he
    exact ⟨hnil, hsame _ rfl⟩

inductive PoolMoves (p q : Pool ε) (a : ExecutionAction ε η) : Prop where
  | stays (h : q = p)
  | fails (h : q = { p with state := { p.state with status := .failed } })
  | steps (b : PoolAction ε) (hq : poolStep p b = some q) (hp : ∀ args c, b ≠ .pauseFor args c)
      (ha : ∀ index o, b = .advance index o → ∃ freshId, a = .advance index o freshId)

theorem executionStep_pool {flow : Flow ε η} {e e' : Execution ε η} {a : ExecutionAction ε η}
    (ha : ∀ n args now freshId, a ≠ .pauseFor n args now freshId)
    (he : executionStep flow e a = some e') : PoolMoves e.pool e'.pool a := by
  cases a with
  | emit s =>
    cases he
    exact .stays rfl
  | emitNowait s =>
    simp only [executionStep] at he
    split at he
    · cases he
      exact .stays rfl
    · cases he
      exact .stays rfl
  | advanceDispatch index =>
    obtain ⟨d, hd, hadv⟩ := Option.bind_eq_some_iff.mp he
    unfold advanceDispatch at hadv
    split at hadv
    · split at hadv
      · obtain ⟨pool, hpool, rfl⟩ := Option.map_eq_some_iff.mp hadv
        exact .steps (.signal d.signal) hpool (by intro args c hb; cases hb)
          (by intro index o hb; cases hb)
      · cases hadv
        exact .stays rfl
    · cases hadv
      exact .stays rfl
    · cases hadv
      exact .stays rfl
    · cases hadv
      exact .stays rfl
    · split at hadv
      · cases hadv
      · cases hadv
        exact .stays rfl
    all_goals cases hadv
  | failDispatch index =>
    obtain ⟨d, hd, hfail⟩ := Option.bind_eq_some_iff.mp he
    exact .fails (abandonDispatch_kept hd hfail).2.2.2.2
  | pauseFor n args now freshId => exact absurd rfl (ha n args now freshId)
  | endHandler n =>
    obtain ⟨inv, hinv, rfl⟩ := Option.map_eq_some_iff.mp he
    exact .stays rfl
  | advance index o freshId =>
    simp only [executionStep] at he
    split at he
    · cases he
    · obtain ⟨pool, hpool, rfl⟩ := Option.map_eq_some_iff.mp he
      exact .steps (.advance index o) hpool (by intro args c hb; cases hb)
        (by intro i o' hb; cases hb; exact ⟨freshId, rfl⟩)
  | bind b | unbind id type event =>
    cases he
    exact .stays rfl
  | continueWith args =>
    simp only [executionStep] at he
    obtain ⟨pool, hpool, rfl⟩ := Option.map_eq_some_iff.mp he
    exact .steps (.continueWith args) hpool (by intro a c hb; cases hb)
      (by intro index o hb; cases hb)
  | cancel reason =>
    simp only [executionStep] at he
    obtain ⟨pool, hpool, rfl⟩ := Option.map_eq_some_iff.mp he
    exact .steps (.cancel reason) hpool (by intro a c hb; cases hb)
      (by intro index o hb; cases hb)
  | sealExecution | close =>
    simp only [executionStep] at he
    obtain ⟨pool, hpool, rfl⟩ := Option.map_eq_some_iff.mp he
    exact .steps .sealExecution hpool (by intro a c hb; cases hb) (by intro index o hb; cases hb)

omit [DecidableEq η] in
theorem raised_of_step {p q : Pool ε} {a : PoolAction ε} (hq : poolStep p a = some q) {s : Nat}
    {x : Resumer} (hx : .raised s x ∈ q.log) :
    .raised s x ∈ p.log ∨ ∃ index error r, a = .advance index (.raised error) ∧
      p.tasks[index]? = some (PoolTask.continueWith (.resuming .dispatching r)) := by
  cases a with
  | continueWith args | cancel reason | sealExecution =>
    cases hq
    exact .inl hx
  | pauseFor args c =>
    rcases startPause_cases hq with rfl | ⟨i, hi, rfl⟩
    · exact .inl hx
    · exact .inl ((List.mem_cons.mp hx).resolve_left (by simp))
  | advance index o =>
    obtain ⟨y, hy, hadv⟩ := Option.bind_eq_some_iff.mp hq
    rcases advance_cases hadv with ⟨t, rfl, rfl⟩ | ⟨t, rfl, rfl⟩
    · rcases List.mem_append.mp hx with hx | hx
      · unfold continueEvents at hx
        split at hx
        · simp at hx
        · simp at hx
        next r error _ => exact .inr ⟨index, error, r, rfl, hy⟩
        · cases hx
      · exact .inl hx
    · exact .inl hx
  | signal s' =>
    cases hq
    rcases List.mem_append.mp hx with hx | hx
    · obtain ⟨i, -, -, he⟩ := mem_signalEvents hx
      cases he
    · exact .inl hx

omit [DecidableEq η] in
theorem log_of_step {p q : Pool ε} {a : PoolAction ε} (hq : poolStep p a = some q)
    (ha : ∀ args c, a ≠ .pauseFor args c) :
    (∀ x ∈ p.log, x ∈ q.log) ∧ ∀ k s c, .paused k s c ∈ q.log → .paused k s c ∈ p.log := by
  cases a with
  | continueWith args | cancel reason | sealExecution =>
    cases hq
    exact ⟨fun x hx => hx, fun k s c hx => hx⟩
  | pauseFor args c => exact absurd rfl (ha args c)
  | advance index o =>
    obtain ⟨y, hy, hadv⟩ := Option.bind_eq_some_iff.mp hq
    rcases advance_cases hadv with ⟨t, rfl, rfl⟩ | ⟨t, rfl, rfl⟩
    · exact ⟨fun x hx => List.mem_append_right _ hx,
        fun k s c hx => mem_append_unpaused (continueEvents_unpaused index t o) hx⟩
    · exact ⟨fun x hx => hx, fun k s c hx => hx⟩
  | signal s' =>
    cases hq
    refine ⟨fun x hx => List.mem_append_right _ hx, ?_⟩
    intro k s c hx
    rcases List.mem_append.mp hx with hx | hx
    · obtain ⟨i, -, -, he⟩ := mem_signalEvents hx
      cases he
    · exact hx

/-- A 'self' pause at the handler's own signal, whose event has no other listener. -/
structure SoloRaise (flow : Flow ε η) (raise : Raise ε η) : Prop where
  toSelf : raise.interrupt.resumeTo = .self
  own : raise.lastSignal = some raise.signal
  alone : flow.handlers raise.signal.triggerType raise.signal.triggerEvent = [raise.handler]

def AwaitsNeither (p : Pool ε) (index : Nat) : Prop :=
  p.tasks[index]?.all fun x => match x with
    | .pauseFor _ => false
    | .continueWith (.resuming .dispatching _) => false
    | _ => true

def PausesSolo (flow : Flow ε η) (e : Execution ε η) (inv : Invocation ε η) (args : PauseArgs ε)
    (now : Nat) (freshId : String) : Prop :=
  normalizedResumeTo args = .self ∧ e.lastSignal = some inv.signal ∧
    flow.handlers inv.signal.triggerType inv.signal.triggerEvent = [inv.handler] ∧
    ∀ serial, .paused (args.interruptId.getD freshId) serial now ∉ e.pool.log

def SoloStep (flow : Flow ε η) (e : Execution ε η) : ExecutionAction ε η → Prop
  | .emit s | .emitNowait s => s.isResume = false
  | .pauseFor n args now freshId =>
    ∀ inv, e.invocations[n]? = some inv → PausesSolo flow e inv args now freshId
  | .advance index (.raised _) _ => AwaitsNeither e.pool index
  | .bind _ => False
  | _ => True

structure SoloResume (flow : Flow ε η) (e : Execution ε η) : Prop where
  kept : RaisesKept e
  out : DispatchesHandOut e
  pool : DispatchInv e.pool
  static : e.bindings = []
  raises : ∀ raise ∈ e.raises, SoloRaise flow raise
  found : ∀ d ∈ e.dispatches,
    d.handlers = [] ∨ d.handlers = flow.handlers d.signal.triggerType d.signal.triggerEvent
  emitted : ∀ s, (DispatchCause.emitted, s) ∈ sources e → s.isResume = false
  unraised : ∀ serial resumer, .raised serial resumer ∉ e.pool.log
  started : ∀ call serial s, (DispatchCause.resumed call serial, s) ∈ sources e →
    ∃ args, .started serial (.call call args) ∈ e.pool.log
  single : ∀ (m n : Nat) c c' serial s s', (sources e)[m]? = some (.resumed c serial, s) →
    (sources e)[n]? = some (.resumed c' serial, s') → m = n
  named : ∀ k serial c, .paused k serial c ∈ e.pool.log →
    ∃ raise, e.raises[serial]? = some raise ∧ raise.interrupt.id = k

omit [DecidableEq ε] [DecidableEq η] in
theorem dispatchInv_failed {p : Pool ε} (h : DispatchInv p) :
    DispatchInv { p with state := { p.state with status := .failed } } where
  records :=
    { ledger := h.records.ledger
      calls := h.records.calls
      pausing := h.records.pausing
      accepted := h.records.accepted
      fresh := h.records.fresh
      stamps := h.records.stamps
      spent := h.records.spent }
  tokens := h.tokens
  started := h.started
  once := h.once

structure PoolKept (p q : Pool ε) : Prop where
  inv : DispatchInv q
  grows : ∀ x ∈ p.log, x ∈ q.log
  paused : ∀ k s c, .paused k s c ∈ q.log → .paused k s c ∈ p.log
  unraised : ∀ s x, .raised s x ∉ q.log

omit [DecidableEq η] in
theorem poolKept_of_moves {flow : Flow ε η} {e : Execution ε η} {a : ExecutionAction ε η}
    {q : Pool ε} (h : SoloResume flow e) (hc : SoloStep flow e a) (hq : PoolMoves e.pool q a) :
    PoolKept e.pool q := by
  cases hq with
  | stays hq =>
    subst hq
    exact ⟨h.pool, fun x hx => hx, fun k s c hx => hx, h.unraised⟩
  | fails hq =>
    subst hq
    exact ⟨dispatchInv_failed h.pool, fun x hx => hx, fun k s c hx => hx, h.unraised⟩
  | steps b hb hp ha =>
    have hclock : ClockAdvances e.pool b := by
      cases b with
      | pauseFor args c => exact absurd rfl (hp args c)
      | _ => trivial
    obtain ⟨hgrows, hpaused⟩ := log_of_step hb hp
    refine ⟨dispatchInv_step h.pool hclock hb, hgrows, hpaused, ?_⟩
    intro s x hx
    rcases raised_of_step hb hx with hx | ⟨index, error, r, rfl, htask⟩
    · exact h.unraised s x hx
    · obtain ⟨freshId, rfl⟩ := ha index _ rfl
      simp [SoloStep, AwaitsNeither, htask] at hc

omit [DecidableEq ε] [DecidableEq η] in
theorem found_set {flow : Flow ε η} {e : Execution ε η} (h : SoloResume flow e) {index : Nat}
    {d : Dispatch ε η} (hd : d.handlers = [] ∨
      d.handlers = flow.handlers d.signal.triggerType d.signal.triggerEvent) :
    ∀ x ∈ e.dispatches.set index d, x.handlers = [] ∨
      x.handlers = flow.handlers x.signal.triggerType x.signal.triggerEvent := by
  intro x hx
  rcases List.mem_or_eq_of_mem_set hx with hx | rfl
  · exact h.found x hx
  · exact hd

omit [DecidableEq η] in
theorem found_advanceDispatch {flow : Flow ε η} {e e' : Execution ε η} {index : Nat}
    {d : Dispatch ε η} (h : SoloResume flow e) (hd : e.dispatches[index]? = some d)
    (he : advanceDispatch flow e index d = some e') :
    (∀ x ∈ e'.dispatches, x.handlers = [] ∨
      x.handlers = flow.handlers x.signal.triggerType x.signal.triggerEvent) ∧
      e'.bindings = e.bindings ∧ e'.raises = e.raises := by
  have hold := h.found d (List.mem_of_getElem? hd)
  unfold advanceDispatch at he
  cases hp : d.phase with
  | entering pre =>
    simp only [hp] at he
    split at he
    · obtain ⟨pool, -, rfl⟩ := Option.map_eq_some_iff.mp he
      exact ⟨found_set h hold, rfl, rfl⟩
    · cases he
      exact ⟨found_set h hold, rfl, rfl⟩
  | resuming =>
    simp only [hp] at he
    cases he
    exact ⟨found_set h hold, rfl, rfl⟩
  | remembered =>
    simp only [hp] at he
    cases he
    refine ⟨found_set h (.inr ?_), rfl, rfl⟩
    simp [iterHandlers, h.static]
  | handing remaining =>
    cases remaining with
    | nil =>
      simp only [hp] at he
      split at he
      · cases he
      · cases he
        exact ⟨found_set h hold, rfl, rfl⟩
    | cons x rest =>
      simp only [hp] at he
      cases he
      exact ⟨found_set h hold, rfl, rfl⟩
  | finished | failed | rejected => simp only [hp] at he; cases he

omit [DecidableEq ε] [DecidableEq η] in
theorem mem_newSources_resumed {e : Execution ε η} {a : ExecutionAction ε η} {c serial : Nat}
    {s : Signal ε} (h : (DispatchCause.resumed c serial, s) ∈ newSources e a) :
    newSources e a = [(.resumed c serial, s)] ∧ ∃ freshId r, a = .advance c .ok freshId ∧
      e.pool.tasks[c]? = some (PoolTask.continueWith (.resuming .streamPut r)) ∧
      r.interrupt.serial = serial := by
  cases a with
  | emit s' =>
    have hm := List.mem_singleton.mp h
    cases hm
  | emitNowait s' =>
    simp only [newSources] at h
    split at h
    · have hm := List.mem_singleton.mp h
      cases hm
    · cases h
  | advance index o freshId =>
    simp only [newSources, resumeDispatches] at h ⊢
    split at h
    next r htask =>
      split at h
      next s' hs =>
        have hm := List.mem_singleton.mp h
        simp only [Dispatch.source, Prod.mk.injEq, DispatchCause.resumed.injEq] at hm
        obtain ⟨⟨rfl, rfl⟩, rfl⟩ := hm
        exact ⟨rfl, freshId, r, rfl, htask, rfl⟩
      next => cases h
    next => cases h
  | _ => cases h

theorem started_of_advance {flow : Flow ε η} {e e' : Execution ε η} {c : Nat} {freshId : String}
    {r : Resume ε} (htask : e.pool.tasks[c]? = some (PoolTask.continueWith (.resuming .streamPut r)))
    (he : executionStep flow e (.advance c .ok freshId) = some e') :
    e'.pool.log = .started r.interrupt.serial (.call c r.args) :: e.pool.log := by
  simp only [executionStep] at he
  split at he
  · cases he
  · obtain ⟨pool, hpool, rfl⟩ := Option.map_eq_some_iff.mp he
    simp only [poolStep, htask, Option.bind_some, advanceTask, waitsAtBoundary] at hpool
    cases hpool
    rfl

theorem first_resume {flow : Flow ε η} {e e' : Execution ε η} {c : Nat} {freshId : String}
    {r : Resume ε} (h : SoloResume flow e) (hpool : DispatchInv e'.pool)
    (htask : e.pool.tasks[c]? = some (PoolTask.continueWith (.resuming .streamPut r)))
    (he : executionStep flow e (.advance c .ok freshId) = some e') (c' : Nat) (s : Signal ε) :
    (DispatchCause.resumed c' r.interrupt.serial, s) ∉ sources e := by
  intro hs
  obtain ⟨args, hstarted⟩ := h.started c' r.interrupt.serial s hs
  have honce := hpool.once
  rw [started_of_advance htask he] at honce
  exact honce.2 _ _ rfl _ ⟨hstarted, h.unraised _ _⟩

theorem soloResume_of_moves {flow : Flow ε η} {e e' : Execution ε η} {a : ExecutionAction ε η}
    (h : SoloResume flow e) (hc : SoloStep flow e a) (he : executionStep flow e a = some e')
    (hp : ∀ n args now freshId, a ≠ .pauseFor n args now freshId)
    (hraises : e'.raises = e.raises) (hstatic : e'.bindings = e.bindings)
    (hfound : ∀ d ∈ e'.dispatches, d.handlers = [] ∨
      d.handlers = flow.handlers d.signal.triggerType d.signal.triggerEvent) :
    SoloResume flow e' := by
  have hpool := poolKept_of_moves h hc (executionStep_pool hp he)
  have hsources := (executionStep_log he).1
  refine ⟨raisesKept_step h.kept he, dispatchesHandOut_step h.out he, hpool.inv,
    hstatic.trans h.static, ?_, hfound, ?_, hpool.unraised, ?_, ?_, ?_⟩
  · rw [hraises]
    exact h.raises
  · intro s hs
    rw [hsources] at hs
    rcases List.mem_append.mp hs with hs | hs
    · exact h.emitted s hs
    · cases a with
      | emit s' =>
        have hm := List.mem_singleton.mp hs
        cases hm
        exact hc
      | emitNowait s' =>
        simp only [newSources] at hs
        split at hs
        · have hm := List.mem_singleton.mp hs
          cases hm
          exact hc
        · cases hs
      | advance index o freshId =>
        simp only [newSources, resumeDispatches] at hs
        split at hs
        · split at hs
          · have hm := List.mem_singleton.mp hs
            cases hm
          · cases hs
        · cases hs
      | _ => cases hs
  · intro call serial s hs
    rw [hsources] at hs
    rcases List.mem_append.mp hs with hs | hs
    · obtain ⟨args, hstarted⟩ := h.started call serial s hs
      exact ⟨args, hpool.grows _ hstarted⟩
    · obtain ⟨-, freshId, r, rfl, htask, rfl⟩ := mem_newSources_resumed hs
      exact ⟨r.args, by rw [started_of_advance htask he]; exact List.mem_cons_self⟩
  · intro m n c c' serial s s' hm hn
    rw [hsources] at hm hn
    by_cases hnew : ∃ c s, (DispatchCause.resumed c serial, s) ∈ newSources e a
    · obtain ⟨c₀, s₀, hs₀⟩ := hnew
      obtain ⟨hone, freshId, r, rfl, htask, rfl⟩ := mem_newSources_resumed hs₀
      have hfirst := first_resume h hpool.inv htask he
      rcases getElem?_append_one hone hm with hm | hm
      · exact absurd (List.mem_of_getElem? hm) (hfirst c s)
      · rcases getElem?_append_one hone hn with hn | hn
        · exact absurd (List.mem_of_getElem? hn) (hfirst c' s')
        · omega
    · have hold : ∀ (i : Nat) c s, (sources e ++ newSources e a)[i]? =
          some (DispatchCause.resumed c serial, s) → (sources e)[i]? = some (.resumed c serial, s) := by
        intro i c s hi
        rcases getElem?_append_cases hi with hi | ⟨-, hi⟩
        · exact hi
        · exact absurd ⟨c, s, List.mem_of_getElem? hi⟩ hnew
      exact h.single m n c c' serial s s' (hold m c s hm) (hold n c' s' hn)
  · intro k serial c hs
    rw [hraises]
    exact h.named k serial c (hpool.paused k serial c hs)

omit [DecidableEq η] in
theorem soloResume_pauseFrom {flow : Flow ε η} {e e' : Execution ε η} {inv : Invocation ε η}
    {args : PauseArgs ε} {now : Nat} {freshId : String} (h : SoloResume flow e)
    (hc : PausesSolo flow e inv args now freshId)
    (he : pauseFrom flow e inv args now freshId = some e') : SoloResume flow e' := by
  have hkept := raisesKept_pauseFrom h.kept he
  obtain ⟨pool, hpool, hpe⟩ := Option.map_eq_some_iff.mp he
  have hinv : DispatchInv e'.pool := by
    subst hpe
    exact dispatchInv_step (a := .pauseFor args (pauseContext flow e inv now freshId)) h.pool
      hc.2.2.2 hpool
  have hcount := h.kept.count
  rcases pauseFrom_cases he with rfl | ⟨i, hplan, rfl⟩
  · exact ⟨hkept, dispatchesHandOut_of_eq h.out rfl rfl, hinv, h.static, h.raises, h.found,
      h.emitted, h.unraised, h.started, h.single, h.named⟩
  · have hi := planInterrupt_eq_some hplan
    obtain ⟨hself, hlast, halone, -⟩ := hc
    have hserial : i.serial = e.raises.length := by
      rw [hcount, hi]
      rfl
    refine ⟨hkept, dispatchesHandOut_of_eq h.out rfl rfl, hinv, h.static, ?_, h.found,
      h.emitted, ?_, ?_, h.single, ?_⟩
    · intro raise hr
      rcases List.mem_append.mp hr with hr | hr
      · exact h.raises raise hr
      · rw [List.mem_singleton.mp hr]
        refine ⟨?_, hlast, halone⟩
        rw [raiseOf, hi]
        exact hself
    · intro s x hx
      exact h.unraised s x ((List.mem_cons.mp hx).resolve_left (by simp))
    · intro call s x hx
      obtain ⟨args', hstarted⟩ := h.started call s x hx
      exact ⟨args', List.mem_cons_of_mem _ hstarted⟩
    · intro k s c hs
      rcases List.mem_cons.mp hs with hs | hs
      · obtain ⟨rfl, rfl, rfl⟩ := PoolEvent.paused.inj hs
        exact ⟨raiseOf e inv i, by rw [hserial]; exact List.getElem?_concat_length, rfl⟩
      · obtain ⟨raise, hr, hid⟩ := h.named k s c hs
        obtain ⟨hlen, -⟩ := List.getElem?_eq_some_iff.mp hr
        exact ⟨raise, by rw [List.getElem?_append_left hlen]; exact hr, hid⟩

theorem soloResume_step {flow : Flow ε η} {e e' : Execution ε η} {a : ExecutionAction ε η}
    (h : SoloResume flow e) (hc : SoloStep flow e a) (he : executionStep flow e a = some e') :
    SoloResume flow e' := by
  cases a with
  | pauseFor n args now freshId =>
    obtain ⟨inv, hinv, hpause⟩ := Option.bind_eq_some_iff.mp he
    split at hpause
    · exact soloResume_pauseFrom h (hc inv hinv) hpause
    · cases hpause
  | emit s =>
    have hstep := he
    cases he
    refine soloResume_of_moves h hc hstep (by simp) rfl rfl ?_
    intro d hd
    rcases List.mem_append.mp hd with hd | hd
    · exact h.found d hd
    · rw [List.mem_singleton.mp hd]
      exact .inl rfl
  | emitNowait s =>
    have hstep := he
    simp only [executionStep] at he
    split at he
    · cases he
      refine soloResume_of_moves h hc hstep (by simp) rfl rfl ?_
      intro d hd
      rcases List.mem_append.mp hd with hd | hd
      · exact h.found d hd
      · rw [List.mem_singleton.mp hd]
        exact .inl rfl
    · cases he
      exact h
  | advanceDispatch index =>
    obtain ⟨d, hd, hadv⟩ := Option.bind_eq_some_iff.mp he
    obtain ⟨hfound, hstatic, hraises⟩ := found_advanceDispatch h hd hadv
    exact soloResume_of_moves h hc he (by simp) hraises hstatic
      hfound
  | failDispatch index =>
    obtain ⟨d, hd, hfail⟩ := Option.bind_eq_some_iff.mp he
    obtain ⟨-, -, hraises, hstatic, -⟩ := abandonDispatch_kept hd hfail
    refine soloResume_of_moves h hc he (by simp) hraises hstatic ?_
    unfold abandonDispatch at hfail
    split at hfail
    · cases hfail
      exact found_set h (h.found d (List.mem_of_getElem? hd))
    · cases hfail
  | endHandler n =>
    have hstep := he
    obtain ⟨inv, hinv, rfl⟩ := Option.map_eq_some_iff.mp he
    exact soloResume_of_moves h hc hstep (by simp) rfl rfl h.found
  | advance index o freshId =>
    have hstep := he
    simp only [executionStep] at he
    split at he
    · cases he
    · obtain ⟨pool, hpool, rfl⟩ := Option.map_eq_some_iff.mp he
      refine soloResume_of_moves h hc hstep (by simp) rfl rfl ?_
      intro d hd
      rcases List.mem_append.mp hd with hd | hd
      · exact h.found d hd
      · obtain ⟨pre, -, hnone⟩ := resumeDispatches_new hd
        exact .inl hnone
  | bind b => exact hc.elim
  | unbind id type event =>
    have hstep := he
    cases he
    refine soloResume_of_moves h hc hstep (by simp) rfl ?_ h.found
    simp [h.static]
  | continueWith args | cancel reason | sealExecution | close =>
    have hstep := he
    simp only [executionStep] at he
    obtain ⟨pool, hpool, rfl⟩ := Option.map_eq_some_iff.mp he
    exact soloResume_of_moves h hc hstep (by simp) rfl rfl h.found

def PauseTask.healthy : PauseTask ε → Bool
  | .finished raised => !raised
  | .pausing _ .exposureFailed _ => false
  | .pausing _ _ _ => true

omit [DecidableEq ε] [DecidableEq η] in
theorem healthy_goOnIfOwned (st : InterruptState ε) (explicit : Bool) {next : PausePhase ε}
    (i : Interrupt ε) (h : next ≠ .exposureFailed) :
    (goOnIfOwned st explicit next i).healthy = true := by
  unfold goOnIfOwned
  split
  · cases next <;> first | rfl | exact absurd rfl h
  · rfl

omit [DecidableEq ε] [DecidableEq η] in
theorem healthy_advancePause (st : InterruptState ε) {t : PauseTask ε} (h : t.healthy = true) :
    (advancePause st t .ok).2.healthy = true := by
  cases t with
  | finished raised => exact h
  | pausing explicit phase i =>
    cases phase with
    | persisting previous status => exact healthy_goOnIfOwned st explicit i (by simp)
    | persistedNotice => exact healthy_goOnIfOwned st explicit i (by simp)
    | exposureFailed => cases h
    | _ => rfl

omit [DecidableEq η] in
theorem healthy_poolStep {p q : Pool ε} {a : PoolAction ε} (hq : poolStep p a = some q) {i : Nat}
    {t : PauseTask ε} (ht : p.tasks[i]? = some (PoolTask.pauseFor t)) (hh : t.healthy = true)
    (ha : ∀ error, a ≠ .advance i (.raised error)) :
    ∃ t', q.tasks[i]? = some (PoolTask.pauseFor t') ∧ t'.healthy = true := by
  obtain ⟨hlen, -⟩ := List.getElem?_eq_some_iff.mp ht
  cases a with
  | continueWith args =>
    cases hq
    exact ⟨t, by rw [List.getElem?_append_left hlen]; exact ht, hh⟩
  | pauseFor args c =>
    rcases startPause_cases hq with rfl | ⟨j, hj, rfl⟩
    · exact ⟨t, by rw [List.getElem?_append_left hlen]; exact ht, hh⟩
    · exact ⟨t, by rw [List.getElem?_append_left hlen]; exact ht, hh⟩
  | advance index o =>
    obtain ⟨y, hy, hadv⟩ := Option.bind_eq_some_iff.mp hq
    by_cases hi : index = i
    · subst hi
      cases Option.some.inj (hy.symm.trans ht)
      cases hadv
      refine ⟨_, List.getElem?_set_self hlen, ?_⟩
      cases o with
      | ok => exact healthy_advancePause p.state hh
      | raised error => exact absurd rfl (ha error)
    · refine ⟨t, ?_, hh⟩
      rcases advance_cases hadv with ⟨u, rfl, rfl⟩ | ⟨u, rfl, rfl⟩
      · exact (List.getElem?_set_ne hi).trans ht
      · exact (List.getElem?_set_ne hi).trans ht
  | signal s | cancel reason | sealExecution =>
    cases hq
    exact ⟨t, ht, hh⟩

theorem healthy_step {flow : Flow ε η} {e e' : Execution ε η} {a : ExecutionAction ε η}
    (hc : SoloStep flow e a) (he : executionStep flow e a = some e') {i : Nat} {t : PauseTask ε}
    (ht : e.pool.tasks[i]? = some (PoolTask.pauseFor t)) (hh : t.healthy = true) :
    ∃ t', e'.pool.tasks[i]? = some (PoolTask.pauseFor t') ∧ t'.healthy = true := by
  by_cases hp : ∀ n args now freshId, a ≠ .pauseFor n args now freshId
  · cases executionStep_pool hp he with
    | stays hq | fails hq =>
      rw [hq]
      exact ⟨t, ht, hh⟩
    | steps b hq hb ha =>
      refine healthy_poolStep hq ht hh ?_
      intro error hraised
      obtain ⟨freshId, rfl⟩ := ha i _ hraised
      simp [SoloStep, AwaitsNeither, ht] at hc
  · push Not at hp
    obtain ⟨n, args, now, freshId, rfl⟩ := hp
    obtain ⟨inv, hinv, hpause⟩ := Option.bind_eq_some_iff.mp he
    split at hpause
    · obtain ⟨pool, hpool, rfl⟩ := Option.map_eq_some_iff.mp hpause
      exact healthy_poolStep (a := .pauseFor args (pauseContext flow e inv now freshId)) hpool ht hh
        (by intro error hb; cases hb)
    · cases hpause

omit [DecidableEq ε] [DecidableEq η] in
theorem soloResume_initial (flow : Flow ε η) :
    SoloResume flow (Execution.initial : Execution ε η) where
  kept := raisesKept_initial
  out := dispatchesHandOut_initial
  pool := dispatchInv_initial
  static := rfl
  raises := by intro raise hr; cases hr
  found := by intro d hd; cases hd
  emitted := by intro s hs; cases hs
  unraised := by intro s x hx; cases hx
  started := by intro c s x hx; cases hx
  single := by intro m n c c' s x y hm; simp [sources, Execution.initial] at hm
  named := by intro k s c hs; cases hs

omit [DecidableEq ε] [DecidableEq η] in
theorem isResume_selfResumeSignal (r : Resume ε) (freshId : String) (source : Signal ε) :
    (selfResumeSignal r freshId source).isResume = true := by
  have hlast : ∃ front v, selfResumeMeta r = front ++ [("resume", Value.dict v)] := by
    unfold selfResumeMeta
    split
    · exact ⟨_ :: _ :: _ :: _ :: [_], _, rfl⟩
    · exact ⟨_ :: _ :: _ :: [_], _, rfl⟩
  obtain ⟨front, v, hfront⟩ := hlast
  have hget : (mergeEntries source.signalMeta (selfResumeMeta r)).get? "resume" =
      some (Value.dict v) := by
    rw [hfront, mergeEntries, List.foldl_append]
    exact Dict.get?_set_self _ _ _
  simp [Signal.isResume, selfResumeSignal, hget]

section Deliveries

variable {flow : Flow ε η} {e : Execution ε η} (h : SoloResume flow e) {n : Nat}
  {x : Nat × η × Signal ε} (hx : (deliveries e)[n]? = some x)

include h hx

omit [DecidableEq ε] [DecidableEq η] in
theorem SoloResume.listens : x.2.1 ∈ flow.handlers x.2.2.triggerType x.2.2.triggerEvent := by
  obtain ⟨d, hd, hs, hmem⟩ := delivered_source h.out hx
  rcases h.found d (List.mem_of_getElem? hd) with hnone | hfound
  · rw [hnone] at hmem
    cases hmem
  · rw [hfound, hs] at hmem
    exact hmem

omit [DecidableEq ε] [DecidableEq η] in
theorem SoloResume.origin :
    ((sources e)[x.1]? = some (.emitted, x.2.2) ∧ x.2.2.isResume = false) ∨
      ∃ call serial raise, (sources e)[x.1]? = some (.resumed call serial, x.2.2) ∧
        x.2.2.isResume = true ∧ e.raises[serial]? = some raise ∧ x.2.1 = raise.handler := by
  obtain ⟨d, hd, hs, hmem⟩ := delivered_source h.out hx
  have hin := List.mem_of_getElem? hd
  have hsource : (sources e)[x.1]? = some (d.cause, x.2.2) := by
    rw [sources, List.getElem?_map, hd, ← hs]
    rfl
  cases hcause : d.cause with
  | emitted =>
    rw [hcause] at hsource
    exact .inl ⟨hsource, h.emitted _ (List.mem_of_getElem? hsource)⟩
  | resumed call serial =>
    rw [hcause] at hsource
    obtain ⟨raise, -, -, hraise, -, -⟩ := h.kept.resumed d hin call serial hcause
    have hsolo := h.raises raise (List.mem_of_getElem? hraise)
    obtain ⟨last, r, freshId, hlast, hsignal⟩ :=
      selfResume_signal h.kept hin hcause hraise hsolo.toSelf
    have hown : last = raise.signal := Option.some.inj (hlast.symm.trans hsolo.own)
    have hlistens := h.listens hx
    rw [← hs, hsignal, hown] at hlistens
    have halone : x.2.1 ∈ flow.handlers raise.signal.triggerType raise.signal.triggerEvent :=
      hlistens
    rw [hsolo.alone] at halone
    refine .inr ⟨call, serial, raise, hsource, ?_, hraise, List.mem_singleton.mp halone⟩
    rw [← hs, hsignal]
    exact isResume_selfResumeSignal r freshId _

omit [DecidableEq ε] [DecidableEq η] in
theorem SoloResume.run_eq (hflow : ∀ t event, (flow.handlers t event).Nodup) {m : Nat}
    {y : Nat × η × Signal ε} (hy : (deliveries e)[m]? = some y) (hd : x.1 = y.1)
    (hh : x.2.1 = y.2.1) : n = m := by
  refine delivered_once h.out hx hy hd hh ?_
  intro d hd
  rcases h.found d (List.mem_of_getElem? hd) with hnone | hfound
  · rw [hnone]
    exact List.nodup_nil
  · rw [hfound]
    exact hflow _ _

end Deliveries

end Agently.TriggerFlow
