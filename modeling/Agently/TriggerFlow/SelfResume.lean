import Agently.TriggerFlow.Execution

/-! # What a 'self' resume re-enters

Source: `TriggerFlow/ExecutionInterrupts.py`, `TriggerFlow/Execution.py`. The interrupt keeps the
last signal of the execution, and the resume hands it to every handler of its event; when that is
the paused handler with the signal it was given is settled here. -/

namespace Agently.TriggerFlow

open Agently.Lib Agently.Utils

variable {ε η : Type}

def selfResumeMetaKeys : List String :=
  [selfResumeCountMetaKey, selfResumeMaxMetaKey, "interrupt_id", "resume_request_id", "actor_id",
    "resume"]

/-- A handler given `s'` sees the value, layer marks and meta of `s`. -/
def SameDelivery (s' s : Signal ε) : Prop :=
  s'.value = s.value ∧ s'.layerMarks = s.layerMarks ∧
    ∀ k, k ∉ selfResumeMetaKeys → s'.signalMeta.get? k = s.signalMeta.get? k

def Invocation.delivery (inv : Invocation ε η) : Nat × η × Signal ε :=
  (inv.dispatch, inv.handler, inv.signal)

def handedTo (invocations : List (Invocation ε η)) (index : Nat) : List (η × Signal ε) :=
  ((invocations.map Invocation.delivery).filter fun x => decide (x.1 = index)).map Prod.snd

def ReentersExactly (e : Execution ε η) (index : Nat) (raise : Raise ε η) : Prop :=
  ∃ s', handedTo e.invocations index = [(raise.handler, s')] ∧ SameDelivery s' raise.signal

def ResumesItsSignal (raise : Raise ε η) (d : Dispatch ε η) : Prop :=
  d.phase ≠ .rejected ∧ d.handlers = [raise.handler] ∧
    ∃ last, raise.lastSignal = some last ∧ SameDelivery (serializeSignal last) raise.signal

theorem selfResumeMeta_keys (r : Resume ε) : ∀ k ∈ (selfResumeMeta r).keys, k ∈ selfResumeMetaKeys := by
  intro k hk
  cases hm : r.interrupt.maxResumes with
  | none =>
    simp only [selfResumeMeta, hm, resumeMeta, Dict.keys, List.map_cons, List.map_nil] at hk
    simp only [selfResumeMetaKeys, List.mem_cons] at hk ⊢
    tauto
  | some m =>
    simp only [selfResumeMeta, hm, resumeMeta, Dict.keys, List.map_cons, List.map_nil] at hk
    simpa only [selfResumeMetaKeys] using hk

theorem sameDelivery_selfResume (r : Resume ε) (freshId : String) (source s : Signal ε) :
    SameDelivery (selfResumeSignal r freshId source) s ↔ SameDelivery source s := by
  have hmeta : ∀ k, k ∉ selfResumeMetaKeys →
      (selfResumeSignal r freshId source).signalMeta.get? k = source.signalMeta.get? k := by
    intro k hk
    exact get?_mergeEntries_of_not_mem fun hm => hk (selfResumeMeta_keys r k hm)
  constructor
  · intro h
    refine ⟨h.1, h.2.1, ?_⟩
    intro k hk
    rw [← hmeta k hk]
    exact h.2.2 k hk
  · intro h
    refine ⟨h.1, h.2.1, ?_⟩
    intro k hk
    rw [hmeta k hk]
    exact h.2.2 k hk

def FromRaise (raises : List (Raise ε η)) (_ : String) (i : Interrupt ε) : Prop :=
  ∃ raise, raises[i.serial]? = some raise ∧ i.origin = raise.interrupt.origin

variable {raises : List (Raise ε η)}

theorem fromRaise_of_origin (k : String) (i j : Interrupt ε)
    (h : j.origin = i.origin) (_ : i.resumeCount ≤ j.resumeCount) (hi : FromRaise raises k i) :
    FromRaise raises k j := by
  obtain ⟨raise, hr, ho⟩ := hi
  have hserial : j.serial = i.serial := congrArg (fun k => k.serial) h
  exact ⟨raise, by rw [hserial]; exact hr, h.trans ho⟩

theorem fromRaise_append {more : List (Raise ε η)} {k : String} {i : Interrupt ε}
    (h : FromRaise raises k i) : FromRaise (raises ++ more) k i := by
  obtain ⟨raise, hr, ho⟩ := h
  obtain ⟨hlen, -⟩ := List.getElem?_eq_some_iff.mp hr
  exact ⟨raise, by rw [List.getElem?_append_left hlen]; exact hr, ho⟩

def ResumedFrom (raises : List (Raise ε η)) (d : Dispatch ε η) : Prop :=
  ∀ call serial, d.cause = .resumed call serial →
    ∃ raise r freshId, raises[serial]? = some raise ∧ r.interrupt.origin = raise.interrupt.origin ∧
      resumeDispatch r freshId = .signal d.signal

variable {d : Dispatch ε η}

theorem resumedFrom_append {more : List (Raise ε η)}
    (h : ResumedFrom raises d) : ResumedFrom (raises ++ more) d := by
  intro call serial hc
  obtain ⟨raise, r, freshId, hr, ho, hs⟩ := h call serial hc
  obtain ⟨hlen, -⟩ := List.getElem?_eq_some_iff.mp hr
  exact ⟨raise, r, freshId, by rw [List.getElem?_append_left hlen]; exact hr, ho, hs⟩

structure RaisesKept (e : Execution ε η) : Prop where
  count : e.raises.length = e.pool.pauses
  planned : ∀ raise ∈ e.raises, raise.interrupt.subFlowFrameId = none ∧
    raise.interrupt.sourceSignal = raise.lastSignal.map serializeSignal
  records : RecordsSatisfy (FromRaise e.raises) e.pool
  resumed : ∀ d ∈ e.dispatches, ResumedFrom e.raises d

theorem raisesKept_initial : RaisesKept (Execution.initial : Execution ε η) where
  count := rfl
  planned := by intro raise hr; cases hr
  records := recordsSatisfy_initial _
  resumed := by intro d hd; cases hd

def pauseContext (flow : Flow ε η) (e : Execution ε η) (inv : Invocation ε η) (now : Nat)
    (freshId : String) : PauseContext ε :=
  { lastSignal := e.lastSignal
    sourceOperatorId := flow.operatorId inv.handler
    continuationEvent := flow.continuationEvent inv.handler
    now := now
    freshId := freshId
    serial := e.pool.pauses }

variable {flow : Flow ε η} {e e' : Execution ε η} {inv : Invocation ε η} {freshId : String}

theorem pauseFrom_cases {args : PauseArgs ε} {now : Nat}
    (he : pauseFrom flow e inv args now freshId = some e') :
    e' = { e with pool := { e.pool with tasks := e.pool.tasks ++ [.pauseFor (.finished true)] } } ∨
      ∃ i, planInterrupt args (pauseContext flow e inv now freshId) = some i ∧
        e' = { e with
          pool := { e.pool with
            tasks := e.pool.tasks ++ [.pauseFor (.pausing args.interruptId.isSome .planned i)]
            log := .paused i.id i.serial i.createdAt :: e.pool.log
            pauses := e.pool.pauses + 1 }
          raises := e.raises ++ [raiseOf e inv i] } := by
  obtain ⟨pool, hpool, rfl⟩ := Option.map_eq_some_iff.mp he
  unfold startPause at hpool
  split at hpool
  · cases hpool
  · split at hpool
    next hplan =>
      cases hpool
      left
      simp [hplan]
    next i hplan =>
      cases hpool
      right
      exact ⟨i, hplan, by simp [hplan]⟩

theorem raisesKept_pauseFrom {args : PauseArgs ε} {now : Nat} (h : RaisesKept e)
    (he : pauseFrom flow e inv args now freshId = some e') : RaisesKept e' := by
  rcases pauseFrom_cases he with rfl | ⟨i, hplan, rfl⟩
  · exact ⟨h.count, h.planned, recordsSatisfy_append_task h.records (by intro c hc; cases hc)
      (by intro e phase i hi; cases hi) _ _, h.resumed⟩
  · have hi := planInterrupt_eq_some hplan
    have hserial : i.serial = e.raises.length := by
      rw [h.count, hi]
      rfl
    have hnew : FromRaise (e.raises ++ [raiseOf e inv i]) i.id i := by
      refine ⟨raiseOf e inv i, ?_, rfl⟩
      rw [hserial]
      exact List.getElem?_concat_length
    have hold : RecordsSatisfy (FromRaise (e.raises ++ [raiseOf e inv i])) e.pool :=
      recordsSatisfy_mono h.records fun k j hj => fromRaise_append hj
    refine ⟨?_, ?_, ?_, ?_⟩
    · show (e.raises ++ [raiseOf e inv i]).length = e.pool.pauses + 1
      rw [List.length_append, h.count]
      rfl
    · intro raise hr
      rcases List.mem_append.mp hr with hr | hr
      · exact h.planned raise hr
      · rw [List.mem_singleton.mp hr, hi]
        exact ⟨rfl, rfl⟩
    · exact recordsSatisfy_append_task hold (by intro c hc; cases hc)
        (by intro ex phase j hj; cases hj; exact ⟨rfl, hnew⟩) _ _
    · intro d hd
      exact resumedFrom_append (h.resumed d hd)

variable {index : Nat}

theorem resumeDispatches_resumedFrom (h : RaisesKept e) {o : AwaitResult}
    (hd : d ∈ resumeDispatches e index freshId o) : ResumedFrom e.raises d := by
  unfold resumeDispatches at hd
  split at hd
  next r htask =>
    split at hd
    next s hs =>
      have hd := List.mem_singleton.mp hd
      subst hd
      intro call serial hc
      cases hc
      obtain ⟨raise, hr, ho⟩ := h.records.calls index _ htask r rfl
      exact ⟨raise, r, freshId, hr, ho, hs⟩
    next => cases hd
  next => cases hd

def Dispatch.remaining (d : Dispatch ε η) : List η :=
  match d.phase with
  | .handing rest => rest
  | _ => []

def Dispatch.handedOut (d : Dispatch ε η) : Bool :=
  match d.phase with
  | .handing _ | .finished | .failed => true
  | _ => false

/-- Of the handlers found, the dispatch has invoked all but the remaining ones, in order
and with its own signal. -/
structure HandsOut (invocations : List (Invocation ε η)) (index : Nat) (d : Dispatch ε η) : Prop where
  before : d.handedOut = false → d.handlers = []
  handed : handedTo invocations index ++ d.remaining.map (fun h => (h, d.signal)) =
    d.handlers.map fun h => (h, d.signal)

structure DispatchesHandOut (e : Execution ε η) : Prop where
  known : ∀ inv ∈ e.invocations, inv.dispatch < e.dispatches.length
  handsOut : ∀ (n : Nat) d, e.dispatches[n]? = some d → HandsOut e.invocations n d

theorem handedTo_append (xs ys : List (Invocation ε η)) (n : Nat) :
    handedTo (xs ++ ys) n = handedTo xs n ++ handedTo ys n := by
  simp [handedTo]

variable {invocations : List (Invocation ε η)}

theorem handedTo_eq_nil {n : Nat}
    (h : ∀ inv ∈ invocations, inv.dispatch ≠ n) : handedTo invocations n = [] := by
  simp only [handedTo, List.map_eq_nil_iff, List.filter_eq_nil_iff]
  intro x hx hn
  obtain ⟨inv, hinv, rfl⟩ := List.mem_map.mp hx
  exact h inv hinv (of_decide_eq_true hn)

theorem delivery_set {n : Nat} (h : invocations[n]? = some inv) (running : Bool) :
    (invocations.set n { inv with running := running }).map Invocation.delivery =
      invocations.map Invocation.delivery := by
  rw [List.map_set]
  exact set_of_getElem? (by rw [List.getElem?_map, h]; rfl)

theorem handsOut_new {n : Nat}
    (h : ∀ inv ∈ invocations, inv.dispatch < n) {pre : Bool} (hp : d.phase = .entering pre)
    (hd : d.handlers = []) : HandsOut invocations n d where
  before := fun _ => hd
  handed := by
    rw [handedTo_eq_nil fun inv hinv => (h inv hinv).ne, Dispatch.remaining, hp, hd]
    rfl

theorem dispatchesHandOut_append (h : DispatchesHandOut e) {more : List (Dispatch ε η)}
    (hmore : ∀ d ∈ more, ∃ pre, d.phase = .entering pre ∧ d.handlers = []) :
    DispatchesHandOut { e with dispatches := e.dispatches ++ more } where
  known := by
    intro inv hinv
    have hlt := h.known inv hinv
    simp only [List.length_append]
    omega
  handsOut := by
    intro n d hn
    by_cases hlen : n < e.dispatches.length
    · rw [List.getElem?_append_left hlen] at hn
      exact h.handsOut n d hn
    · have hge : e.dispatches.length ≤ n := Nat.le_of_not_lt hlen
      rw [List.getElem?_append_right hge] at hn
      obtain ⟨pre, hp, hd⟩ := hmore d (List.mem_of_getElem? hn)
      refine handsOut_new ?_ hp hd
      intro inv hinv
      have hlt := h.known inv hinv
      omega

theorem dispatchesHandOut_set (h : DispatchesHandOut e) (hd : HandsOut e.invocations index d) :
    DispatchesHandOut { e with dispatches := e.dispatches.set index d } where
  known := by
    intro inv hinv
    have hlt := h.known inv hinv
    rw [List.length_set]
    exact hlt
  handsOut := by
    intro n d' hn
    rcases getElem?_set_cases hn with ⟨-, hn⟩ | ⟨rfl, rfl⟩
    · exact h.handsOut n d' hn
    · exact hd

theorem dispatchesHandOut_invoke (h : DispatchesHandOut e)
    {x : η} {rest : List η} (hd : e.dispatches[index]? = some d)
    (hp : d.phase = .handing (x :: rest)) :
    DispatchesHandOut { e with
      dispatches := e.dispatches.set index { d with phase := .handing rest }
      invocations := e.invocations ++
        [{ dispatch := index, handler := x, signal := d.signal, origin := d.origin }] } := by
  obtain ⟨hlen, -⟩ := List.getElem?_eq_some_iff.mp hd
  have hhanded := (h.handsOut index d hd).handed
  rw [Dispatch.remaining, hp] at hhanded
  have hone : ∀ n, handedTo
      [({ dispatch := index, handler := x, signal := d.signal, origin := d.origin } :
        Invocation ε η)] n = if index = n then [(x, d.signal)] else [] := by
    intro n
    by_cases hn : index = n <;> simp [handedTo, Invocation.delivery, hn]
  constructor
  · intro inv hinv
    show inv.dispatch < (e.dispatches.set index _).length
    rw [List.length_set]
    rcases List.mem_append.mp hinv with hinv | hinv
    · exact h.known inv hinv
    · rw [List.mem_singleton.mp hinv]
      exact hlen
  · intro n d' hn
    rcases getElem?_set_cases hn with ⟨hne, hn⟩ | ⟨rfl, rfl⟩
    · obtain ⟨hb, hh⟩ := h.handsOut n d' hn
      refine ⟨hb, ?_⟩
      rw [handedTo_append, hone, if_neg (Ne.symm hne), List.append_nil]
      exact hh
    · refine ⟨nofun, ?_⟩
      rw [handedTo_append, hone, if_pos rfl, List.append_assoc]
      exact hhanded

variable [DecidableEq ε]

theorem dispatchesHandOut_advance (h : DispatchesHandOut e) (hd : e.dispatches[index]? = some d)
    (he : advanceDispatch flow e index d = some e') : DispatchesHandOut e' := by
  obtain ⟨hbefore, hhanded⟩ := h.handsOut index d hd
  obtain ⟨hlen, -⟩ := List.getElem?_eq_some_iff.mp hd
  unfold advanceDispatch at he
  cases hp : d.phase with
  | entering pre =>
    have hnone : d.handlers = [] := hbefore (by rw [Dispatch.handedOut, hp])
    rw [Dispatch.remaining, hp, hnone] at hhanded
    simp only [hp] at he
    split at he
    · obtain ⟨pool, -, rfl⟩ := Option.map_eq_some_iff.mp he
      exact dispatchesHandOut_set (e := { e with pool := pool }) ⟨h.known, h.handsOut⟩
        ⟨fun _ => hnone, by rw [hnone]; exact hhanded⟩
    · cases he
      exact dispatchesHandOut_set h ⟨fun _ => hnone, by rw [hnone]; exact hhanded⟩
  | resuming =>
    have hnone : d.handlers = [] := hbefore (by rw [Dispatch.handedOut, hp])
    rw [Dispatch.remaining, hp, hnone] at hhanded
    simp only [hp] at he
    cases he
    exact dispatchesHandOut_set (e := { e with lastSignal := some d.signal })
      ⟨h.known, h.handsOut⟩ ⟨fun _ => hnone, by rw [hnone]; exact hhanded⟩
  | remembered =>
    have hnone : d.handlers = [] := hbefore (by rw [Dispatch.handedOut, hp])
    rw [Dispatch.remaining, hp, hnone] at hhanded
    have hempty : handedTo e.invocations index = [] := by simpa using hhanded
    simp only [hp] at he
    cases he
    refine dispatchesHandOut_set h ⟨nofun, ?_⟩
    rw [hempty]
    rfl
  | handing remaining =>
    rw [Dispatch.remaining, hp] at hhanded
    cases remaining with
    | nil =>
      simp only [hp] at he
      split at he
      · cases he
      · cases he
        exact dispatchesHandOut_set h ⟨nofun, hhanded⟩
    | cons x rest =>
      simp only [hp] at he
      cases he
      exact dispatchesHandOut_invoke h hd hp
  | finished | failed | rejected => simp only [hp] at he; cases he

omit [DecidableEq ε] in
theorem stopHandler_delivery (index : Nat) (inv : Invocation ε η) :
    (stopHandler index inv).delivery = inv.delivery := by
  unfold stopHandler
  split <;> rfl

def Dispatch.ComesFrom (e : Execution ε η) (d' : Dispatch ε η) : Prop :=
  (∃ d ∈ e.dispatches, d'.cause = d.cause ∧ d'.signal = d.signal) ∨ d'.cause = .emitted ∨
    ∃ index freshId o, d' ∈ resumeDispatches e index freshId o

structure StepWrites (e e' : Execution ε η) : Prop where
  raises : e'.raises = e.raises
  pool : (∃ status, e'.pool = { e.pool with state := { e.pool.state with status := status } }) ∨
    ∃ a, (∀ args c, a ≠ .pauseFor args c) ∧ poolStep e.pool a = some e'.pool
  dispatches : ∀ d ∈ e'.dispatches, d.ComesFrom e

omit [DecidableEq ε] in
theorem comesFrom_set {d' : Dispatch ε η}
    (hd : e.dispatches[index]? = some d) (hc : d'.cause = d.cause) (hs : d'.signal = d.signal) :
    ∀ x ∈ e.dispatches.set index d', x.ComesFrom e := by
  intro x hx
  rcases List.mem_or_eq_of_mem_set hx with hx | rfl
  · exact .inl ⟨x, hx, rfl, rfl⟩
  · exact .inl ⟨d, List.mem_of_getElem? hd, hc, hs⟩

omit [DecidableEq ε] in
theorem comesFrom_append {more : List (Dispatch ε η)}
    (h : ∀ d ∈ more, d.ComesFrom e) : ∀ x ∈ e.dispatches ++ more, x.ComesFrom e := by
  intro x hx
  rcases List.mem_append.mp hx with hx | hx
  · exact .inl ⟨x, hx, rfl, rfl⟩
  · exact h x hx

theorem stepWrites_pool {a : PoolAction ε} {pool : Pool ε}
    (ha : ∀ args c, a ≠ .pauseFor args c) (hq : poolStep e.pool a = some pool) :
    StepWrites e { e with pool := pool } where
  raises := rfl
  pool := .inr ⟨a, ha, hq⟩
  dispatches := fun d hd => .inl ⟨d, hd, rfl, rfl⟩

variable {s : Signal ε}

omit [DecidableEq ε] in
theorem comesFrom_emitted {pre : Bool} :
    ∀ d ∈ [emitted e s pre], d.ComesFrom e := by
  intro d hd
  rw [List.mem_singleton.mp hd]
  exact .inr (.inl rfl)

theorem advanceDispatch_writes (hd : e.dispatches[index]? = some d)
    (he : advanceDispatch flow e index d = some e') : StepWrites e e' := by
  have hset : ∀ d' : Dispatch ε η, d'.cause = d.cause → d'.signal = d.signal →
      ∀ x ∈ e.dispatches.set index d', x.ComesFrom e := fun d' hc hs => comesFrom_set hd hc hs
  unfold advanceDispatch at he
  cases hp : d.phase with
  | entering pre =>
    simp only [hp] at he
    split at he
    · obtain ⟨pool, hpool, rfl⟩ := Option.map_eq_some_iff.mp he
      exact ⟨rfl, .inr ⟨_, (by intro args c ha; cases ha), hpool⟩, hset _ rfl rfl⟩
    · cases he
      exact ⟨rfl, .inl ⟨_, rfl⟩, hset _ rfl rfl⟩
  | resuming =>
    simp only [hp] at he
    cases he
    exact ⟨rfl, .inl ⟨_, rfl⟩, hset _ rfl rfl⟩
  | remembered =>
    simp only [hp] at he
    cases he
    exact ⟨rfl, .inl ⟨_, rfl⟩, hset _ rfl rfl⟩
  | handing remaining =>
    cases remaining with
    | nil =>
      simp only [hp] at he
      split at he
      · cases he
      · cases he
        exact ⟨rfl, .inl ⟨_, rfl⟩, hset _ rfl rfl⟩
    | cons x rest =>
      simp only [hp] at he
      cases he
      exact ⟨rfl, .inl ⟨_, rfl⟩, hset _ rfl rfl⟩
  | finished | failed | rejected => simp only [hp] at he; cases he

variable [DecidableEq η]

variable {a : ExecutionAction ε η}

theorem executionStep_writes (ha : ∀ n args now freshId, a ≠ .pauseFor n args now freshId)
    (he : executionStep flow e a = some e') : StepWrites e e' := by
  cases a with
  | pauseFor n args now freshId => exact absurd rfl (ha n args now freshId)
  | emit s =>
    cases he
    exact ⟨rfl, .inl ⟨_, rfl⟩, comesFrom_append comesFrom_emitted⟩
  | emitNowait s =>
    simp only [executionStep] at he
    split at he
    · cases he
      exact ⟨rfl, .inl ⟨_, rfl⟩, comesFrom_append comesFrom_emitted⟩
    · cases he
      exact ⟨rfl, .inl ⟨_, rfl⟩, fun d hd => .inl ⟨d, hd, rfl, rfl⟩⟩
  | advanceDispatch index =>
    obtain ⟨d, hd, hadv⟩ := Option.bind_eq_some_iff.mp he
    exact advanceDispatch_writes hd hadv
  | failDispatch index =>
    obtain ⟨d, hd, hfail⟩ := Option.bind_eq_some_iff.mp he
    unfold abandonDispatch at hfail
    split at hfail
    · cases hfail
      exact ⟨rfl, .inl ⟨_, rfl⟩, comesFrom_set hd rfl rfl⟩
    · cases hfail
  | endHandler n =>
    obtain ⟨inv, hinv, rfl⟩ := Option.map_eq_some_iff.mp he
    exact ⟨rfl, .inl ⟨_, rfl⟩, fun d hd => .inl ⟨d, hd, rfl, rfl⟩⟩
  | advance index o freshId =>
    simp only [executionStep] at he
    split at he
    · cases he
    · obtain ⟨pool, hpool, rfl⟩ := Option.map_eq_some_iff.mp he
      refine ⟨rfl, .inr ⟨_, (by intro args c ha; cases ha), hpool⟩, comesFrom_append ?_⟩
      intro d hd
      exact .inr (.inr ⟨index, freshId, o, hd⟩)
  | bind b | unbind id type event =>
    cases he
    exact ⟨rfl, .inl ⟨_, rfl⟩, fun d hd => .inl ⟨d, hd, rfl, rfl⟩⟩
  | continueWith args | cancel reason | sealExecution | close =>
    simp only [executionStep] at he
    obtain ⟨pool, hpool, rfl⟩ := Option.map_eq_some_iff.mp he
    obtain ⟨hraises, hwrites, hdispatches⟩ :=
      stepWrites_pool (by intro args c ha; cases ha) hpool
    exact ⟨hraises, hwrites, hdispatches⟩

omit [DecidableEq η] in
theorem recordsSatisfy_writes {P : String → Interrupt ε → Prop}
    (hP : ∀ k i j, Interrupt.origin j = Interrupt.origin i → i.resumeCount ≤ j.resumeCount →
      P k i → P k j)
    (h : RecordsSatisfy P e.pool) (hw : StepWrites e e') :
    RecordsSatisfy P e'.pool ∧ e'.pool.pauses = e.pool.pauses := by
  rcases hw.pool with ⟨status, hpool⟩ | ⟨a, ha, hpool⟩
  · rw [hpool]
    exact ⟨⟨h.ledger, h.calls, h.pausing⟩, rfl⟩
  · exact recordsSatisfy_step hP h ha hpool

theorem raisesKept_step
    (h : RaisesKept e) (he : executionStep flow e a = some e') : RaisesKept e' := by
  by_cases ha : ∃ n args now freshId, a = .pauseFor n args now freshId
  · obtain ⟨n, args, now, freshId, rfl⟩ := ha
    obtain ⟨inv, hinv, hpause⟩ := Option.bind_eq_some_iff.mp he
    split at hpause
    · exact raisesKept_pauseFrom h hpause
    · cases hpause
  · have hw := executionStep_writes
      (fun n args now freshId hn => ha ⟨n, args, now, freshId, hn⟩) he
    obtain ⟨hrec, hpauses⟩ := recordsSatisfy_writes fromRaise_of_origin h.records hw
    refine ⟨?_, ?_, ?_, ?_⟩
    · rw [hw.raises, hpauses]
      exact h.count
    · rw [hw.raises]
      exact h.planned
    · rw [hw.raises]
      exact hrec
    · rw [hw.raises]
      intro d' hd' call serial hcause
      rcases hw.dispatches d' hd' with ⟨d, hd, hc, hs⟩ | hemitted | ⟨index, freshId, o, hd⟩
      · rw [hs]
        exact h.resumed d hd call serial (hc.symm.trans hcause)
      · rw [hemitted] at hcause
        cases hcause
      · exact resumeDispatches_resumedFrom h hd call serial hcause

omit [DecidableEq ε] [DecidableEq η] in
theorem resumeDispatches_new {o : AwaitResult} (hd : d ∈ resumeDispatches e index freshId o) :
    ∃ pre, d.phase = .entering pre ∧ d.handlers = [] := by
  unfold resumeDispatches at hd
  split at hd
  · split at hd
    · rw [List.mem_singleton.mp hd]
      exact ⟨false, rfl, rfl⟩
    · cases hd
  · cases hd

omit [DecidableEq ε] [DecidableEq η] in
theorem emitted_new {pre : Bool} :
    ∀ d ∈ [emitted e s pre], ∃ pre, d.phase = .entering pre ∧ d.handlers = [] := by
  intro d hd
  rw [List.mem_singleton.mp hd]
  exact ⟨pre, rfl, rfl⟩

omit [DecidableEq ε] [DecidableEq η] in
theorem dispatchesHandOut_of_eq (h : DispatchesHandOut e) (hd : e'.dispatches = e.dispatches)
    (hi : e'.invocations.map Invocation.delivery = e.invocations.map Invocation.delivery) :
    DispatchesHandOut e' := by
  have hto : ∀ n, handedTo e'.invocations n = handedTo e.invocations n := by
    intro n
    rw [handedTo, hi]
    rfl
  constructor
  · intro inv hinv
    have hm : inv.delivery ∈ e.invocations.map Invocation.delivery := by
      rw [← hi]
      exact List.mem_map_of_mem hinv
    obtain ⟨inv', hinv', heq⟩ := List.mem_map.mp hm
    have hdisp : inv'.dispatch = inv.dispatch := congrArg Prod.fst heq
    rw [hd, ← hdisp]
    exact h.known inv' hinv'
  · intro n d hn
    rw [hd] at hn
    obtain ⟨hb, hh⟩ := h.handsOut n d hn
    exact ⟨hb, by rw [hto]; exact hh⟩

omit [DecidableEq ε] [DecidableEq η] in
theorem dispatchesHandOut_abandonDispatch
    (h : DispatchesHandOut e) (hd : e.dispatches[index]? = some d)
    (he : abandonDispatch e index d = some e') : DispatchesHandOut e' := by
  have hhanded := (h.handsOut index d hd).handed
  unfold abandonDispatch at he
  split at he
  next hp =>
    cases he
    rw [Dispatch.remaining, hp] at hhanded
    have hset := dispatchesHandOut_set h (d := { d with phase := .failed })
      ⟨nofun, hhanded⟩
    refine dispatchesHandOut_of_eq hset rfl ?_
    show (e.invocations.map (stopHandler index)).map Invocation.delivery = _
    rw [List.map_map]
    exact List.map_congr_left fun inv _ => stopHandler_delivery index inv
  next => cases he

theorem dispatchesHandOut_step
    (h : DispatchesHandOut e) (he : executionStep flow e a = some e') : DispatchesHandOut e' := by
  cases a with
  | emit s =>
    cases he
    exact dispatchesHandOut_append h emitted_new
  | emitNowait s =>
    simp only [executionStep] at he
    split at he
    · cases he
      exact dispatchesHandOut_append h emitted_new
    · cases he
      exact h
  | advanceDispatch index =>
    obtain ⟨d, hd, hadv⟩ := Option.bind_eq_some_iff.mp he
    exact dispatchesHandOut_advance h hd hadv
  | failDispatch index =>
    obtain ⟨d, hd, hfail⟩ := Option.bind_eq_some_iff.mp he
    exact dispatchesHandOut_abandonDispatch h hd hfail
  | pauseFor n args now freshId =>
    obtain ⟨inv, hinv, hpause⟩ := Option.bind_eq_some_iff.mp he
    split at hpause
    · obtain ⟨pool, -, rfl⟩ := Option.map_eq_some_iff.mp hpause
      exact dispatchesHandOut_of_eq h rfl rfl
    · cases hpause
  | endHandler n =>
    obtain ⟨inv, hinv, rfl⟩ := Option.map_eq_some_iff.mp he
    exact dispatchesHandOut_of_eq h rfl (delivery_set hinv false)
  | advance index o freshId =>
    simp only [executionStep] at he
    split at he
    · cases he
    · obtain ⟨pool, hpool, rfl⟩ := Option.map_eq_some_iff.mp he
      exact dispatchesHandOut_append (e := { e with pool := pool })
        (dispatchesHandOut_of_eq h rfl rfl) fun d hd => resumeDispatches_new hd
  | bind b =>
    cases he
    exact dispatchesHandOut_of_eq h rfl rfl
  | unbind id type event =>
    cases he
    exact dispatchesHandOut_of_eq h rfl rfl
  | continueWith args | cancel reason | sealExecution | close =>
    simp only [executionStep] at he
    obtain ⟨pool, hpool, rfl⟩ := Option.map_eq_some_iff.mp he
    exact dispatchesHandOut_of_eq h rfl rfl

omit [DecidableEq ε] [DecidableEq η] in
theorem dispatchesHandOut_initial : DispatchesHandOut (Execution.initial : Execution ε η) where
  known := by intro inv hinv; cases hinv
  handsOut := by intro n d hn; simp [Execution.initial] at hn

theorem executionStep_raises_eq (ha : ∀ n args now freshId, a ≠ .pauseFor n args now freshId)
    (he : executionStep flow e a = some e') : e'.raises = e.raises :=
  (executionStep_writes ha he).raises

omit [DecidableEq ε] [DecidableEq η] in
theorem handedTo_of_done (h : DispatchesHandOut e) {n : Nat}
    (hd : e.dispatches[n]? = some d) (hdone : d.done = true) :
    handedTo e.invocations n = d.handlers.map (fun x => (x, d.signal)) ∧
      (d.phase = .rejected → d.handlers = []) := by
  obtain ⟨hbefore, hhanded⟩ := h.handsOut n d hd
  have hrest : d.remaining = [] := by
    cases hp : d.phase <;> simp_all [Dispatch.done, Dispatch.remaining]
  rw [hrest, List.map_nil, List.append_nil] at hhanded
  refine ⟨hhanded, ?_⟩
  intro hrej
  exact hbefore (by rw [Dispatch.handedOut, hrej])

omit [DecidableEq ε] [DecidableEq η] in
theorem resumeDispatch_self (h : RaisesKept e) {raise : Raise ε η}
    (hraise : raise ∈ e.raises) (hself : raise.interrupt.resumeTo = .self) {r : Resume ε}
    (ho : r.interrupt.origin = raise.interrupt.origin)
    (hs : resumeDispatch r freshId = .signal s) :
    ∃ last, raise.lastSignal = some last ∧ s = selfResumeSignal r freshId (serializeSignal last) := by
  obtain ⟨hframe, hsource⟩ := h.planned raise hraise
  have hto : r.interrupt.resumeTo = .self :=
    (congrArg (fun k => k.resumeTo) ho).trans hself
  have hf : r.interrupt.subFlowFrameId = none :=
    (congrArg (fun k => k.subFlowFrameId) ho).trans hframe
  have hsrc : r.interrupt.sourceSignal = raise.lastSignal.map serializeSignal :=
    (congrArg (fun k => k.sourceSignal) ho).trans hsource
  cases hlast : raise.lastSignal with
  | none =>
    rw [hlast] at hsrc
    simp [resumeDispatch, hf, hto, hsrc] at hs
  | some last =>
    rw [hlast] at hsrc
    simp only [resumeDispatch, hf, hto, hsrc, Option.map_some] at hs
    exact ⟨last, rfl, (ResumeDispatch.signal.inj hs).symm⟩

omit [DecidableEq ε] [DecidableEq η] in
theorem selfResume_signal (h : RaisesKept e)
    (hd : d ∈ e.dispatches) {call serial : Nat} {raise : Raise ε η}
    (hcause : d.cause = .resumed call serial) (hraise : e.raises[serial]? = some raise)
    (hself : raise.interrupt.resumeTo = .self) :
    ∃ last r freshId, raise.lastSignal = some last ∧
      d.signal = selfResumeSignal r freshId (serializeSignal last) := by
  obtain ⟨raise', r, freshId, hr, ho, hs⟩ := h.resumed d hd call serial hcause
  have he : raise' = raise := Option.some.inj (hr.symm.trans hraise)
  subst he
  obtain ⟨last, hlast, hsignal⟩ :=
    resumeDispatch_self h (List.mem_of_getElem? hraise) hself ho hs
  exact ⟨last, r, freshId, hlast, hsignal⟩

/-- In every run, the dispatch of a 'self' resume re-enters exactly the paused handler
with its signal if and only if it resumes that signal. -/
theorem self_resume_reenters_iff {flow : Flow ε η} {as : List (ExecutionAction ε η)}
    {e : Execution ε η} {n call serial : Nat} {d : Dispatch ε η} {raise : Raise ε η}
    (hrun : (execution flow).run Execution.initial as = some e)
    (hd : e.dispatches[n]? = some d) (hcause : d.cause = .resumed call serial)
    (hraise : e.raises[serial]? = some raise) (hself : raise.interrupt.resumeTo = .self)
    (hdone : d.done = true) :
    ReentersExactly e n raise ↔ ResumesItsSignal raise d := by
  have hkept := (execution flow).run_invariant (fun s a t hi hs => raisesKept_step hi hs)
    raisesKept_initial hrun
  have hout := (execution flow).run_invariant (fun s a t hi hs => dispatchesHandOut_step hi hs)
    dispatchesHandOut_initial hrun
  obtain ⟨hhanded, hrejected⟩ := handedTo_of_done hout hd hdone
  obtain ⟨last, r, freshId, hlast, hsignal⟩ :=
    selfResume_signal hkept (List.mem_of_getElem? hd) hcause hraise hself
  unfold ReentersExactly ResumesItsSignal
  rw [hhanded]
  constructor
  · intro h
    obtain ⟨s', hs', hsame⟩ := h
    have hone : d.handlers = [raise.handler] ∧ s' = d.signal := by
      cases hh : d.handlers with
      | nil => simp [hh] at hs'
      | cons x xs =>
        simp only [hh, List.map_cons, List.cons.injEq, List.map_eq_nil_iff, Prod.mk.injEq] at hs'
        rw [hs'.1.1, hs'.2]
        exact ⟨rfl, hs'.1.2.symm⟩
    refine ⟨?_, hone.1, last, hlast, ?_⟩
    · intro hrej
      rw [hrejected hrej] at hone
      cases hone.1
    · rw [hone.2, hsignal] at hsame
      exact (sameDelivery_selfResume r freshId _ _).mp hsame
  · intro h
    obtain ⟨-, hone, last', hlast', hsame⟩ := h
    have he : last = last' := Option.some.inj (hlast.symm.trans hlast')
    subst he
    refine ⟨d.signal, by rw [hone]; rfl, ?_⟩
    rw [hsignal]
    exact (sameDelivery_selfResume r freshId _ _).mpr hsame

/-- `review` listens on `Start`, `audit` on `Tick`. -/
def reviewFlow : Flow String String :=
  { handlers := fun type event =>
      if type = .event ∧ event = "Start" then ["review"]
      else if type = .event ∧ event = "Tick" then ["audit"]
      else []
    operatorId := some
    continuationEvent := fun _ => none }

def startSignal : Signal String := { id := "s0", triggerEvent := "Start", value := .str "order" }

def tickSignal : Signal String := { id := "s1", triggerEvent := "Tick", value := .int 1 }

/-- `review` is invoked for `Start`, pauses after `between` and is continued; `resume` is
the place of the resume dispatch, which is run to its end. -/
def reviewRun (between : List (ExecutionAction String String)) (resume : Nat) :
    List (ExecutionAction String String) :=
  .emit startSignal :: List.replicate 4 (.advanceDispatch 0) ++ between ++
    .pauseFor 0 { resumeTo := some .self } 1 "review-1" ::
    List.replicate 7 (.advance 0 .ok "") ++
    .continueWith { interruptId := "review-1", value := .bool true } ::
    List.replicate 3 (.advance 1 .ok "s2") ++
    List.replicate 4 (.advanceDispatch resume) ++
    [.endHandler 1, .advanceDispatch resume]

def tick : List (ExecutionAction String String) :=
  [.emit tickSignal, .advanceDispatch 1, .advanceDispatch 1]

theorem tick_redirects_self_resume :
    ¬ ∀ (flow : Flow String String) as e, (execution flow).run Execution.initial as = some e →
      ∀ (n call serial : Nat) d raise, e.dispatches[n]? = some d →
        d.cause = .resumed call serial → e.raises[serial]? = some raise →
          raise.interrupt.resumeTo = .self → d.done = true → ReentersExactly e n raise := by
  intro h
  obtain ⟨s', hs', -⟩ := h reviewFlow (reviewRun tick 2) _ rfl 2 1 0 _ _ rfl rfl rfl rfl rfl
  have hhandler : ["audit"] = ["review"] := congrArg (List.map Prod.fst) hs'
  exact absurd hhandler (by decide)

def reviewed : Execution String String :=
  ((execution reviewFlow).run Execution.initial (reviewRun [] 1)).get (by decide)

theorem review_resumes_itself :
    ReentersExactly reviewed 1 (reviewed.raises.head (by decide)) :=
  (@self_resume_reenters_iff String String _ _ reviewFlow (reviewRun [] 1) reviewed 1 1 0 _ _
    (Option.some_get (by decide)).symm rfl rfl rfl rfl rfl).mpr
      ⟨by decide, by decide, startSignal, rfl, rfl, rfl, fun k _ => rfl⟩

end Agently.TriggerFlow
