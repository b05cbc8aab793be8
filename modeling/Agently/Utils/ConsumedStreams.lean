import Agently.Utils.GeneratorConsumer

/-! # What every consumer of a stream sees

A consumer may join between any two steps of the task that broadcasts. What its queue
still holds is always the part of the stream it has not received, followed by whatever
ends the stream: nothing yet, the sentinel, or the exception of the source. -/

namespace Agently.Utils.GeneratorConsumer

open Agently.Lib

variable {V : Type} {P : Values V}

/-- The source yields no exception as an item and fails with an `Exception` that counts as
true, and `get_result()` is not what starts a source that was closed before. -/
def Regular (P : Values V) (s : State V) : Action V → Prop
  | .produce v => P.isException v = false
  | .fail e => P.isException e = true ∧ P.truthy e = true
  | .getResult => s.closed = false ∨ s.task ≠ .absent
  | _ => True

def outcome (s : State V) : Phase V :=
  match s.failure with
  | some e => .raised e
  | none => .ended

/-- Somebody is still to act: the consuming task, or a call of `close()`. -/
def Working (s : State V) : Prop :=
  s.task = .scheduled ∨ s.task = .running ∨ s.task = .closing ∨ s.closer ≠ .free

structure SeesStream (P : Values V) (s : State V) (i : Nat) (c : Consumer V) : Prop where
  gapless : ∃ rest, s.yielded = c.received ++ rest
  ended : (c.phase = .ended ∨ ∃ e, c.phase = .raised e) →
    c.received = s.yielded ∧ c.phase = outcome s
  waits : c.phase = .reading → c.queue = [] → s.done = false ∧ Working s
  concludes : c.phase = .reading → s.done = true →
    ∃ n t d, (machine P).run s (List.replicate n (.receive i)) = some t ∧
      t.consumers[i]? = some d ∧ d.received = s.yielded ∧ d.phase = outcome s

/-- What `get_result()` gave, or that it does not wait for nothing. -/
def ResultSeen (s : State V) : Waiter V → Prop
  | .waiting => s.done = true ∨ Working s
  | .returned items => items = s.yielded ∧ s.failure = none
  | .raised e => s.failure = some e

structure EveryConsumerSees (P : Values V) (s : State V) : Prop where
  consumers : ∀ i c, s.consumers[i]? = some c → SeesStream P s i c
  results : ∀ w ∈ s.waiters, ResultSeen s w

def Marker (s : State V) (marker : List (Message V)) : Prop :=
  match s.failure with
  | some e => ∃ rest, marker = .value e :: rest
  | none => marker = if s.done then [.sentinel] else []

def Holds (s : State V) (c : Consumer V) : Prop :=
  match c.phase with
  | .reading => ∃ pending marker, s.yielded = c.received ++ pending ∧
      c.queue = pending.map .value ++ marker ∧ Marker s marker
  | .ended => c.received = s.yielded ∧ s.failure = none ∧ s.done = true
  | .raised e => c.received = s.yielded ∧ s.failure = some e
  | .cancelled => ∃ pending, s.yielded = c.received ++ pending
  | .refused => c.received = []

def Waited (s : State V) : Waiter V → Prop
  | .waiting => s.task ≠ .absent
  | .returned items => items = s.yielded ∧ s.failure = none ∧ s.done = true
  | .raised e => s.failure = some e ∧ s.done = true

structure Inv (P : Values V) (s : State V) : Prop where
  history : s.history = s.yielded
  exception : s.exception = s.failure
  plain : ∀ v ∈ s.yielded, P.isException v = false
  failed : ∀ e, s.failure = some e → P.isException e = true ∧ P.truthy e = true ∧
    (s.task = .closing ∨ s.task = .finished)
  concluded : s.generatorClosed = s.done
  ended : s.done = true → s.task = .finished ∨ (s.task = .absent ∧ s.closed = true)
  absent : s.task = .absent → s.yielded = [] ∧ ∀ c ∈ s.consumers, c.phase = .refused
  dropped : s.task = .finished → s.done = true ∨ s.closer ≠ .free
  asked : s.cancelRequested = true → s.done = true ∨ s.closer ≠ .free
  leaving : s.closer = .closingSource → s.task = .finished ∨ s.task = .absent
  held : s.closer ≠ .free → s.closed = true
  called : 0 < s.waitingClosers → s.closed = true
  consumers : ∀ c ∈ s.consumers, Holds s c
  waiters : ∀ w ∈ s.waiters, Waited s w

theorem inv_init (P : Values V) : Inv P (init V) where
  history := rfl
  exception := rfl
  plain := by intro v hv; cases hv
  failed := by intro e he; cases he
  concluded := rfl
  ended := by intro h; cases h
  absent := fun _ => ⟨rfl, by intro c hc; cases hc⟩
  dropped := by intro h; cases h
  asked := by intro h; cases h
  leaving := by intro h; cases h
  held := fun h => (h rfl).elim
  called := by intro h; cases h
  consumers := by intro c hc; cases hc
  waiters := by intro w hw; cases hw

variable {c : Consumer V}

theorem listens_iff : c.listens = true ↔ c.phase = .reading := by
  unfold Consumer.listens
  cases c.phase <;> simp

variable {s t : State V}

theorem holds_congr (hy : t.yielded = s.yielded) (hf : t.failure = s.failure)
    (hd : t.done = s.done) (h : Holds s c) : Holds t c := by
  unfold Holds Marker at *
  rw [hy, hf, hd]
  exact h

variable {w : Waiter V}

theorem waited_congr (hy : t.yielded = s.yielded) (hf : t.failure = s.failure)
    (hd : s.done = true → t.done = true) (ht : s.task ≠ .absent → t.task ≠ .absent)
    (h : Waited s w) : Waited t w := by
  cases w with
  | waiting => exact ht h
  | returned items => exact ⟨hy ▸ h.1, hf ▸ h.2.1, hd h.2.2⟩
  | raised e => exact ⟨hf ▸ h.1, hd h.2⟩

theorem waited_task {task : ConsumeTask} (ht : task ≠ .absent)
    (h : Waited s w) : Waited { s with task := task } w :=
  waited_congr (s := s) (t := { s with task := task }) rfl rfl id (fun _ => ht) h

namespace Inv

variable {s : State V}

theorem working (h : Inv P s) (ht : s.task ≠ .absent) : s.done = true ∨ Working s := by
  unfold Working
  cases hk : s.task with
  | absent => exact absurd hk ht
  | scheduled => simp
  | running => simp
  | closing => simp
  | finished =>
    rcases h.dropped hk with hd | hc
    · exact .inl hd
    · exact .inr (.inr (.inr (.inr hc)))

theorem not_done (h : Inv P s) (ht : s.task ≠ .finished) (ha : s.task ≠ .absent) :
    s.done = false := by
  cases hd : s.done with
  | false => rfl
  | true =>
    rcases h.ended hd with hf | ⟨hf, -⟩
    · exact absurd hf ht
    · exact absurd hf ha

theorem not_failed (h : Inv P s) (hc : s.task ≠ .closing) (hf : s.task ≠ .finished) :
    s.failure = none := by
  cases he : s.failure with
  | none => rfl
  | some e =>
    rcases (h.failed e he).2.2 with ht | ht
    · exact absurd ht hc
    · exact absurd ht hf

theorem before_end (h : Inv P s) (ht : s.task = .scheduled ∨ s.task = .running) :
    s.done = false ∧ s.failure = none := by
  rcases ht with ht | ht
  all_goals exact ⟨h.not_done (by simp [ht]) (by simp [ht]), h.not_failed (by simp [ht]) (by simp [ht])⟩

theorem storedException_eq (h : Inv P s) : storedException P s = s.failure := by
  rw [storedException, h.exception]
  cases he : s.failure with
  | none => rfl
  | some e =>
    simp only [(h.failed e he).2.1, if_true]

theorem started (h : Inv P s) (hs : s.closed = false ∨ s.task ≠ .absent) :
    Inv P (_ensure_started s) ∧ (_ensure_started s).task ≠ .absent := by
  rw [_ensure_started]
  by_cases ht : s.task = .absent
  · rw [if_pos ht]
    have hopen : s.closed = false := hs.resolve_right (fun hn => hn ht)
    have hd : s.done = false := by
      cases hd : s.done with
      | false => rfl
      | true =>
        rcases h.ended hd with hf | ⟨-, hc⟩
        · rw [ht] at hf
          cases hf
        · rw [hopen] at hc
          cases hc
    have hfree : s.closer = .free := by
      by_contra hn
      have hc := h.held hn
      rw [hopen] at hc
      cases hc
    refine ⟨{ h with
      failed := ?_
      ended := ?_
      absent := nofun
      dropped := nofun
      leaving := ?_
      consumers := ?_
      waiters := ?_ }, by intro hn; cases hn⟩
    · intro e he
      have hn := h.not_failed (by rw [ht]; intro hn; cases hn) (by rw [ht]; intro hn; cases hn)
      exact absurd (hn.symm.trans he) (by simp)
    · intro hn
      exact absurd (hd.symm.trans hn) (by simp)
    · intro hn
      exact absurd (hfree.symm.trans hn) (by simp)
    · exact fun c hc => holds_congr rfl rfl rfl (h.consumers c hc)
    · exact fun w hw => waited_task (by simp) (h.waiters w hw)
  · rw [if_neg ht]
    exact ⟨h, ht⟩

theorem holds_replay (h : Inv P s) : Holds s ⟨[], replay P s, .reading⟩ := by
  have hq : replay P s = s.yielded.map .value ++
      match s.failure with
      | some e => [.value e]
      | none => if s.done then [.sentinel] else [] := by
    rw [replay, h.history, h.storedException_eq]
    all_goals rfl
  refine ⟨s.yielded, _, rfl, hq, ?_⟩
  rw [Marker]
  cases s.failure with
  | some e => exact ⟨[], rfl⟩
  | none => rfl

variable {c : Consumer V}

theorem add (h : Inv P s) (hc : Holds s c) (ha : s.task = .absent → c.phase = .refused) :
    Inv P { s with consumers := s.consumers ++ [c] } := by
  refine { h with absent := ?_, consumers := ?_, waiters := h.waiters }
  · intro ht
    refine ⟨(h.absent ht).1, ?_⟩
    intro d hd
    rcases List.mem_append.mp hd with hd | hd
    · exact (h.absent ht).2 d hd
    · exact List.mem_singleton.mp hd ▸ ha ht
  · intro d hd
    rcases List.mem_append.mp hd with hd | hd
    · exact h.consumers d hd
    · exact List.mem_singleton.mp hd ▸ hc

theorem subscribe (h : Inv P s) : Inv P (get_async_generator P s) := by
  rw [get_async_generator]
  by_cases hc : s.closed = true
  · rw [if_pos hc]
    exact h.add (c := ⟨[], [], .refused⟩) rfl (fun _ => rfl)
  · rw [if_neg hc]
    obtain ⟨hs, ht⟩ := h.started (.inl (Bool.eq_false_iff.mpr hc))
    exact hs.add hs.holds_replay (fun hn => absurd hn ht)

theorem replaced (h : Inv P s) {i : Nat} {d : Consumer V} (hi : s.consumers[i]? = some c)
    (hr : c.phase = .reading) (hd : Holds s d) :
    Inv P { s with consumers := s.consumers.set i d } := by
  have hm : c ∈ s.consumers := List.mem_of_getElem? hi
  refine { h with absent := ?_, consumers := ?_, waiters := h.waiters }
  · intro ht
    have hn := (h.absent ht).2 c hm
    rw [hr] at hn
    cases hn
  · intro e he
    rcases List.mem_or_eq_of_mem_set he with he | he
    · exact h.consumers e he
    · exact he ▸ hd

theorem take_holds (h : Inv P s) {d : Consumer V} (hc : Holds s c)
    (ht : c.take P = some d) : c.phase = .reading ∧ Holds s d := by
  obtain ⟨received, queue, phase⟩ := c
  cases phase with
  | reading =>
    refine ⟨rfl, ?_⟩
    obtain ⟨pending, marker, hy, hq, hmark⟩ := hc
    change queue = _ at hq
    subst hq
    cases pending with
    | nil =>
      rw [List.append_nil] at hy
      rw [Marker] at hmark
      cases hf : s.failure with
      | some e =>
        rw [hf] at hmark
        obtain ⟨rest, rfl⟩ := hmark
        simp only [Consumer.take, List.map_nil, List.nil_append, (h.failed e hf).1,
          if_true] at ht
        cases ht
        exact ⟨hy.symm, hf⟩
      | none =>
        rw [hf] at hmark
        cases hd : s.done with
        | false =>
          simp only [hd, Bool.false_eq_true, if_false] at hmark
          subst hmark
          cases ht
        | true =>
          simp only [hd, if_true] at hmark
          subst hmark
          cases ht
          exact ⟨hy.symm, hf, hd⟩
    | cons v pending =>
      have hp : P.isException v = false := h.plain v (by rw [hy]; simp)
      simp only [Consumer.take, List.map_cons, List.cons_append, hp, Bool.false_eq_true,
        if_false] at ht
      cases ht
      exact ⟨pending, marker, by rw [hy]; simp, rfl, hmark⟩
  | ended => cases ht
  | raised e => cases ht
  | cancelled => cases ht
  | refused => cases ht

theorem getResult (h : Inv P s) (hs : s.closed = false ∨ s.task ≠ .absent) :
    Inv P { _ensure_started s with waiters := s.waiters ++ [.waiting] } := by
  obtain ⟨hst, ht⟩ := h.started hs
  have hw : (_ensure_started s).waiters = s.waiters := by
    rw [_ensure_started]
    split <;> rfl
  refine { hst with consumers := hst.consumers, waiters := ?_ }
  intro w hm
  rcases List.mem_append.mp hm with hm | hm
  · exact hst.waiters w (hw ▸ hm)
  · rw [List.mem_singleton.mp hm]
    exact ht

theorem resume (h : Inv P s) (hd : s.done = true) (w : Nat) :
    Inv P { s with
      waiters := s.waiters.set w
        (match storedException P s with
        | some e => .raised e
        | none => .returned s.history) } := by
  refine { h with consumers := h.consumers, waiters := ?_ }
  intro x hx
  rcases List.mem_or_eq_of_mem_set hx with hx | hx
  · exact h.waiters x hx
  · rw [hx, h.storedException_eq, h.history]
    cases hf : s.failure with
    | some e => exact ⟨rfl, hd⟩
    | none => exact ⟨rfl, rfl, hd⟩

theorem startTask (h : Inv P s) (ht : s.task = .scheduled) :
    Inv P { s with task := .running } := by
  obtain ⟨hd, hf⟩ := h.before_end (.inl ht)
  refine { h with
    failed := fun e he => absurd (hf.symm.trans he) (by simp)
    ended := fun hn => absurd (hd.symm.trans hn) (by simp)
    absent := nofun
    dropped := nofun
    leaving := ?_
    consumers := h.consumers
    waiters := fun w hw => waited_task (by simp) (h.waiters w hw) }
  intro hc
  have hl := h.leaving hc
  simp [ht] at hl

theorem dropTask (h : Inv P s) (hc : s.cancelRequested = true) :
    Inv P { s with task := .finished } :=
  { h with
    failed := fun e he => ⟨(h.failed e he).1, (h.failed e he).2.1, .inr rfl⟩
    ended := fun _ => .inl rfl
    absent := nofun
    dropped := fun _ => h.asked hc
    leaving := fun _ => .inl rfl
    consumers := h.consumers
    waiters := fun w hw => waited_task (by simp) (h.waiters w hw) }

theorem finish (h : Inv P s) (ht : s.task = .running) : Inv P { s with task := .closing } := by
  have hd := (h.before_end (.inr ht)).1
  refine { h with
    failed := fun e he => ⟨(h.failed e he).1, (h.failed e he).2.1, .inl rfl⟩
    ended := fun hn => absurd (hd.symm.trans hn) (by simp)
    absent := nofun
    dropped := nofun
    leaving := ?_
    consumers := h.consumers
    waiters := fun w hw => waited_task (by simp) (h.waiters w hw) }
  intro hc
  have hl := h.leaving hc
  simp [ht] at hl

theorem put_holds (h : Inv P s) (ht : s.task = .running) {t : State V} {m : Message V}
    {more : List V} (hy : t.yielded = s.yielded ++ more)
    (hm : ∀ c : Consumer V, ∀ pending, s.yielded = c.received ++ pending →
      c.queue = pending.map .value → c.phase = .reading →
      Holds t { c with queue := c.queue ++ [m] })
    (hc : Holds s c) : Holds t (c.put m) := by
  obtain ⟨hd, hf⟩ := h.before_end (.inr ht)
  rw [Consumer.put]
  by_cases hr : c.phase = .reading
  · rw [if_pos (listens_iff.mpr hr)]
    unfold Holds at hc
    rw [hr] at hc
    obtain ⟨pending, marker, hp, hq, hmark⟩ := hc
    simp only [Marker, hf, hd, Bool.false_eq_true, if_false] at hmark
    rw [hmark, List.append_nil] at hq
    exact hm c pending hp hq hr
  · rw [if_neg (fun hl => hr (listens_iff.mp hl))]
    unfold Holds at hc ⊢
    cases hph : c.phase with
    | reading => exact absurd hph hr
    | ended =>
      rw [hph] at hc
      exact absurd (hd.symm.trans hc.2.2) (by simp)
    | raised e =>
      rw [hph] at hc
      exact absurd (hf.symm.trans hc.2) (by simp)
    | cancelled =>
      rw [hph] at hc
      obtain ⟨pending, hp⟩ := hc
      exact ⟨pending ++ more, by rw [hy, hp, List.append_assoc]⟩
    | refused =>
      rw [hph] at hc
      exact hc

theorem waited_running (h : Inv P s) (ht : s.task = .running) {w : Waiter V}
    (hw : w ∈ s.waiters) : w = .waiting := by
  have hd := (h.before_end (.inr ht)).1
  have hx := h.waiters w hw
  cases w with
  | waiting => rfl
  | returned items => exact absurd (hd.symm.trans hx.2.2) (by simp)
  | raised e => exact absurd (hd.symm.trans hx.2) (by simp)

theorem produce (h : Inv P s) (ht : s.task = .running) {v : V} (hv : P.isException v = false) :
    Inv P { _broadcast P (.value v) s with yielded := s.yielded ++ [v] } := by
  obtain ⟨hd, hf⟩ := h.before_end (.inr ht)
  refine { h with
    history := ?_
    plain := ?_
    absent := fun hn => absurd (ht.symm.trans hn) (by simp)
    consumers := ?_
    waiters := ?_ }
  · simp only [_broadcast, hv, Bool.false_eq_true, if_false, h.history]
  · intro x hx
    rcases List.mem_append.mp hx with hx | hx
    · exact h.plain x hx
    · exact List.mem_singleton.mp hx ▸ hv
  · intro d hd'
    obtain ⟨c, hc, rfl⟩ := List.mem_map.mp hd'
    refine h.put_holds ht rfl ?_ (h.consumers c hc)
    intro c pending hp hq hr
    unfold Holds
    rw [hr]
    refine ⟨pending ++ [v], [], ?_, ?_, ?_⟩
    · rw [hp, List.append_assoc]
    · simp [hq]
    · change Marker s _
      simp [Marker, hf, hd]
  · intro w hw
    rw [h.waited_running ht hw]
    intro hn
    exact absurd (ht.symm.trans hn) (by simp)

theorem fail (h : Inv P s) (ht : s.task = .running) {e : V} (he : P.isException e = true)
    (hb : P.truthy e = true) :
    Inv P { _broadcast P (.value e) { s with exception := some e } with
      task := .closing, failure := some e } := by
  have hd := (h.before_end (.inr ht)).1
  refine { h with
    history := ?_
    exception := rfl
    failed := ?_
    ended := fun hn => absurd (hd.symm.trans hn) (by simp)
    absent := nofun
    dropped := nofun
    leaving := ?_
    consumers := ?_
    waiters := ?_ }
  · simp only [_broadcast, he, if_true, h.history]
  · intro x hx
    cases hx
    exact ⟨he, hb, .inl rfl⟩
  · intro hc
    have hl := h.leaving hc
    simp [ht] at hl
  · intro d hd'
    obtain ⟨c, hc, rfl⟩ := List.mem_map.mp hd'
    have hy : ({ _broadcast P (.value e) { s with exception := some e } with
        task := .closing, failure := some e } : State V).yielded = s.yielded ++ [] :=
      (List.append_nil _).symm
    refine h.put_holds ht hy ?_ (h.consumers c hc)
    intro c pending hp hq hr
    unfold Holds
    rw [hr]
    exact ⟨pending, [.value e], hp, by rw [hq], [], rfl⟩
  · intro w hw
    rw [h.waited_running ht hw]
    intro hn
    cases hn

theorem holds_sentinel {t : State V} (hd : s.done = false) (hy : t.yielded = s.yielded)
    (hf : t.failure = s.failure) (ht : t.done = true) (hc : Holds s c) :
    Holds t (c.put .sentinel) := by
  by_cases hr : c.phase = .reading
  · rw [Consumer.put, if_pos (listens_iff.mpr hr)]
    unfold Holds at hc ⊢
    rw [hr] at hc ⊢
    obtain ⟨pending, marker, hp, hq, hmark⟩ := hc
    refine ⟨pending, marker ++ [.sentinel], hy ▸ hp, by simp [hq], ?_⟩
    unfold Marker at hmark ⊢
    rw [hf]
    cases he : s.failure with
    | some e =>
      rw [he] at hmark
      obtain ⟨rest, rfl⟩ := hmark
      exact ⟨rest ++ [.sentinel], rfl⟩
    | none =>
      rw [he] at hmark
      simp only [hd, Bool.false_eq_true, if_false] at hmark
      simp [hmark, ht]
  · rw [Consumer.put, if_neg (fun hl => hr (listens_iff.mp hl))]
    unfold Holds at hc ⊢
    cases hph : c.phase with
    | reading => exact absurd hph hr
    | ended =>
      rw [hph] at hc
      exact absurd (hd.symm.trans hc.2.2) (by simp)
    | raised e =>
      rw [hph] at hc
      exact ⟨hc.1.trans hy.symm, hf.trans hc.2⟩
    | cancelled =>
      rw [hph] at hc
      obtain ⟨pending, hp⟩ := hc
      exact ⟨pending, hy.trans hp⟩
    | refused =>
      rw [hph] at hc
      exact hc

theorem conclude_done (s : State V) : (conclude P s).done = true := by
  simp only [conclude]
  split <;> rfl

theorem conclude_kept (s : State V) : (conclude P s).yielded = s.yielded ∧
    (conclude P s).failure = s.failure ∧ (conclude P s).exception = s.exception ∧
    (conclude P s).history = s.history ∧ (conclude P s).closed = s.closed ∧
    (conclude P s).task = s.task ∧ (conclude P s).waiters = s.waiters ∧
    (conclude P s).waitingClosers = s.waitingClosers ∧ (conclude P s).closer = s.closer := by
  simp only [conclude]
  split <;> exact ⟨rfl, rfl, rfl, rfl, rfl, rfl, rfl, rfl, rfl⟩

theorem conclude_closed (s : State V) : (conclude P s).generatorClosed = true := by
  simp only [conclude]
  split
  · assumption
  · rfl

theorem conclude_again {s : State V} (hg : s.generatorClosed = true) :
    (conclude P s).consumers = s.consumers := by
  simp [conclude, hg]

theorem conclude_first {s : State V} (hg : s.generatorClosed = false) :
    (conclude P s).consumers = s.consumers.map (Consumer.put .sentinel) := by
  simp [conclude, hg, _broadcast]

theorem conclude_consumers (h : Inv P s) :
    ∀ d ∈ (conclude P s).consumers, Holds (conclude P s) d := by
  obtain ⟨hy, hf, -⟩ := conclude_kept (P := P) s
  intro d hd
  cases hg : s.generatorClosed with
  | true =>
    have hdone : s.done = true := h.concluded ▸ hg
    rw [conclude_again hg] at hd
    exact holds_congr hy hf ((conclude_done s).trans hdone.symm) (h.consumers d hd)
  | false =>
    have hdone : s.done = false := h.concluded ▸ hg
    rw [conclude_first hg] at hd
    obtain ⟨c, hm, rfl⟩ := List.mem_map.mp hd
    exact holds_sentinel hdone hy hf (conclude_done s) (h.consumers c hm)

theorem put_phase (m : Message V) (c : Consumer V) : (c.put m).phase = c.phase := by
  rw [Consumer.put]
  split <;> rfl

theorem conclude_phases {s : State V} (hr : ∀ c ∈ s.consumers, c.phase = .refused) :
    ∀ d ∈ (conclude P s).consumers, d.phase = .refused := by
  intro d hd
  cases hg : s.generatorClosed with
  | true =>
    rw [conclude_again hg] at hd
    exact hr d hd
  | false =>
    rw [conclude_first hg] at hd
    obtain ⟨c, hm, rfl⟩ := List.mem_map.mp hd
    rw [put_phase]
    exact hr c hm

theorem conclude_waiters (h : Inv P s) : ∀ w ∈ (conclude P s).waiters, Waited (conclude P s) w := by
  obtain ⟨hy, hf, -, -, -, htask, hw, -⟩ := conclude_kept (P := P) s
  intro w hm
  rw [hw] at hm
  exact waited_congr hy hf (fun _ => conclude_done s) (fun ht => htask ▸ ht) (h.waiters w hm)

theorem concluding (h : Inv P s)
    (ht : s.task = .finished ∨ s.task = .closing ∨ (s.task = .absent ∧ s.closed = true)) :
    Inv P { conclude P s with task := if s.task = .closing then .finished else s.task } := by
  obtain ⟨hy, hf, he, hh, hclosed, htask, hw, hcount, hcloser⟩ := conclude_kept (P := P) s
  have hnew : ∀ x, (if s.task = .closing then ConsumeTask.finished else s.task) = x →
      x = .finished ∨ (x = .absent ∧ s.task = .absent ∧ s.closed = true) := by
    intro x hx
    rcases ht with ht | ht | ⟨ht, hc⟩ <;> simp only [ht] at hx
    · exact .inl hx.symm
    · exact .inl hx.symm
    · exact .inr ⟨hx.symm, ht, hc⟩
  have hdone := conclude_done (P := P) s
  refine
    { history := by rw [hh, hy, h.history]
      exception := by rw [he, hf, h.exception]
      plain := fun v hv => h.plain v (hy ▸ hv)
      failed := ?_
      concluded := by rw [conclude_closed, hdone]
      ended := ?_
      absent := ?_
      dropped := fun _ => .inl hdone
      asked := fun _ => .inl hdone
      leaving := ?_
      held := fun hc => hclosed.trans (h.held (hcloser ▸ hc))
      called := fun hc => hclosed.trans (h.called (hcount ▸ hc))
      consumers := fun c hc => holds_congr rfl rfl rfl (h.conclude_consumers c hc)
      waiters := ?_ }
  · intro e hfail
    have hold := h.failed e (hf ▸ hfail)
    refine ⟨hold.1, hold.2.1, .inr ?_⟩
    rcases hnew _ rfl with hx | ⟨-, hx, -⟩
    · exact hx
    · rcases hold.2.2 with hc | hc
      · rw [hx] at hc
        cases hc
      · rw [hx] at hc
        cases hc
  · intro _
    rcases hnew _ rfl with hx | ⟨hx, -, hc⟩
    · exact .inl hx
    · exact .inr ⟨hx, hclosed.trans hc⟩
  · intro hx
    rcases hnew _ hx with hx | ⟨-, ha, -⟩
    · cases hx
    · have hold := h.absent ha
      exact ⟨hy.trans hold.1, conclude_phases hold.2⟩
  · intro _
    rcases hnew _ rfl with hx | ⟨hx, -⟩
    · exact .inl hx
    · exact .inr hx
  · intro w hm
    refine waited_congr (s := conclude P s) ?_ ?_ ?_ ?_ (h.conclude_waiters w hm)
    · rfl
    · rfl
    · exact id
    · intro hn hx
      rcases hnew _ hx with hx | ⟨-, ha, -⟩
      · cases hx
      · exact hn (htask.trans ha)

theorem settle (h : Inv P s) (ht : s.task = .closing) :
    Inv P { conclude P s with task := .finished } := by
  have hu := h.concluding (.inr (.inl ht))
  rw [if_pos ht] at hu
  exact hu

theorem leaveClose (h : Inv P s) (hc : s.closer = .closingSource) :
    Inv P { conclude P s with closer := .free, waitingClosers := s.waitingClosers - 1 } := by
  obtain ⟨-, -, -, -, -, htask, -, hcount, -⟩ := conclude_kept (P := P) s
  have hclosed := h.held (by rw [hc]; intro hn; cases hn)
  have hover : s.task = .finished ∨ (s.task = .absent ∧ s.closed = true) :=
    (h.leaving hc).imp_right fun ha => ⟨ha, hclosed⟩
  have hu := h.concluding (hover.imp_right .inr)
  have hn : s.task ≠ .closing := by
    rcases hover with ht | ⟨ht, -⟩
    · rw [ht]
      intro hn
      cases hn
    · rw [ht]
      intro hn
      cases hn
  rw [if_neg hn, ← htask] at hu
  have hdone := conclude_done (P := P) s
  refine { hu with
    dropped := fun _ => .inl hdone
    asked := fun _ => .inl hdone
    leaving := by intro hx; cases hx
    held := fun hx => absurd rfl hx
    called := ?_
    consumers := hu.consumers
    waiters := hu.waiters }
  intro hlt
  exact hu.called (Nat.lt_of_lt_of_le hlt (hcount ▸ Nat.sub_le _ _))

theorem callClose (h : Inv P s) :
    Inv P { s with closed := true, waitingClosers := s.waitingClosers + 1 } :=
  { h with
    ended := fun hd => (h.ended hd).imp_right fun ha => ⟨ha.1, rfl⟩
    held := fun _ => rfl
    called := fun _ => rfl
    consumers := h.consumers
    waiters := h.waiters }

theorem enterClose (h : Inv P s) (hw : 0 < s.waitingClosers) :
    Inv P (if s.task = .absent then { s with closer := .closingSource }
      else { s with
        closer := .awaitingTask
        cancelRequested := s.cancelRequested || decide (s.task ≠ .finished) }) := by
  have hclosed := h.called hw
  by_cases ht : s.task = .absent
  · rw [if_pos ht]
    exact { h with
      dropped := fun _ => .inr (by simp)
      asked := fun _ => .inr (by simp)
      leaving := fun _ => .inr ht
      held := fun _ => hclosed
      consumers := h.consumers
      waiters := h.waiters }
  · rw [if_neg ht]
    exact { h with
      dropped := fun _ => .inr (by simp)
      asked := fun _ => .inr (by simp)
      leaving := by intro hx; cases hx
      held := fun _ => hclosed
      consumers := h.consumers
      waiters := h.waiters }

theorem taskDone (h : Inv P s) (hc : s.closer = .awaitingTask) (ht : s.task = .finished) :
    Inv P { s with closer := .closingSource } :=
  { h with
    dropped := fun _ => .inr (by simp)
    asked := fun _ => .inr (by simp)
    leaving := fun _ => .inl ht
    held := fun _ => h.held (by rw [hc]; simp)
    consumers := h.consumers
    waiters := h.waiters }

end Inv

theorem inv_step {a : Action V} (h : Inv P s) (hr : Regular P s a)
    (ht : (machine P).step s a = some t) : Inv P t := by
  change step P s a = some t at ht
  cases a with
  | subscribe =>
    cases ht
    exact h.subscribe
  | receive c =>
    obtain ⟨consumer, hc, ht⟩ := Option.bind_eq_some_iff.mp ht
    obtain ⟨next, hn, rfl⟩ := Option.map_eq_some_iff.mp ht
    obtain ⟨hread, hold⟩ := h.take_holds (h.consumers _ (List.mem_of_getElem? hc)) hn
    exact h.replaced hc hread hold
  | cancel c =>
    obtain ⟨consumer, hc, ht⟩ := Option.bind_eq_some_iff.mp ht
    by_cases hl : consumer.listens = true
    · rw [if_pos hl] at ht
      cases ht
      have hread := listens_iff.mp hl
      have hold := h.consumers _ (List.mem_of_getElem? hc)
      unfold Holds at hold
      rw [hread] at hold
      obtain ⟨pending, -, hy, -⟩ := hold
      exact h.replaced hc hread ⟨pending, hy⟩
    · rw [if_neg hl] at ht
      cases ht
  | getResult =>
    cases ht
    exact h.getResult hr
  | resume w =>
    simp only [step] at ht
    split at ht
    · cases ht
      exact h.resume (by assumption) w
    · cases ht
  | startTask =>
    simp only [step] at ht
    split at ht
    · cases ht
      exact h.startTask (by tauto)
    · cases ht
  | dropTask =>
    simp only [step] at ht
    split at ht
    · cases ht
      exact h.dropTask (by tauto)
    · cases ht
  | produce v =>
    simp only [step] at ht
    split at ht
    · cases ht
      exact h.produce (by assumption) hr
    · cases ht
  | fail e =>
    simp only [step, hr.1, if_true] at ht
    split at ht
    · cases ht
      exact h.fail (by assumption) hr.1 hr.2
    · cases ht
  | finish =>
    simp only [step] at ht
    split at ht
    · cases ht
      exact h.finish (by assumption)
    · cases ht
  | settle =>
    simp only [step] at ht
    split at ht
    · cases ht
      exact h.settle (by assumption)
    · cases ht
  | callClose =>
    cases ht
    exact h.callClose
  | enterClose =>
    simp only [step] at ht
    split at ht
    · rename_i hg
      have he := h.enterClose hg.2
      split at ht
      · rename_i ha
        cases ht
        rw [if_pos ha] at he
        exact he
      · rename_i ha
        cases ht
        rw [if_neg ha] at he
        exact he
    · cases ht
  | taskDone =>
    simp only [step] at ht
    split at ht
    · rename_i hg
      cases ht
      exact h.taskDone hg.1 hg.2
    · cases ht
  | leaveClose =>
    simp only [step] at ht
    split at ht
    · cases ht
      exact h.leaveClose (by assumption)
    · cases ht

theorem inv_run {as : List (Action V)} (hm : (machine P).Meets (Regular P) (init V) as)
    (hr : (machine P).run (init V) as = some t) : Inv P t :=
  (machine P).run_invariant_meeting (I := Inv P) (fun _ _ _ h hc ht => inv_step h hc ht)
    (inv_init P) hm hr

def lastPhase : Message V → Phase V
  | .value e => .raised e
  | .sentinel => .ended

theorem drains {m : Message V} {rest : List (Message V)} {i : Nat}
    (hm : ∀ e, m = .value e → P.isException e = true) (pending : List V) (s : State V)
    (c : Consumer V) (hi : s.consumers[i]? = some c) (hr : c.phase = .reading)
    (hq : c.queue = pending.map .value ++ m :: rest)
    (hp : ∀ v ∈ pending, P.isException v = false) :
    ∃ t d, (machine P).run s (List.replicate (pending.length + 1) (.receive i)) = some t ∧
      t.consumers[i]? = some d ∧ d.received = c.received ++ pending ∧ d.phase = lastPhase m := by
  induction pending generalizing s c with
  | nil =>
    obtain ⟨received, queue, phase⟩ := c
    change phase = _ at hr
    change queue = _ at hq
    subst hr hq
    have hlt := (List.getElem?_eq_some_iff.mp hi).1
    cases m with
    | value e =>
      refine ⟨{ s with consumers := s.consumers.set i ⟨received, rest, .raised e⟩ }, _, ?_,
        List.getElem?_set_self hlt, by simp, rfl⟩
      simp [machine, Machine.run, step, hi, Consumer.take, hm e rfl]
    | sentinel =>
      refine ⟨{ s with consumers := s.consumers.set i ⟨received, rest, .ended⟩ }, _, ?_,
        List.getElem?_set_self hlt, by simp, rfl⟩
      simp [machine, Machine.run, step, hi, Consumer.take]
  | cons v pending ih =>
    obtain ⟨received, queue, phase⟩ := c
    change phase = _ at hr
    change queue = _ at hq
    subst hr hq
    have hlt := (List.getElem?_eq_some_iff.mp hi).1
    have hv := hp v List.mem_cons_self
    obtain ⟨t, d, hrun, hd, hrec, hph⟩ := ih
      { s with
        consumers := s.consumers.set i ⟨received ++ [v], pending.map .value ++ m :: rest, .reading⟩ }
      ⟨received ++ [v], pending.map .value ++ m :: rest, .reading⟩
      (List.getElem?_set_self hlt) rfl rfl (List.forall_mem_cons.mp hp).2
    refine ⟨t, d, ?_, hd, by simpa using hrec, hph⟩
    rw [List.length_cons, List.replicate_succ, Machine.run_cons_eq_some]
    refine ⟨_, ?_, hrun⟩
    simp [machine, step, hi, Consumer.take, hv]

theorem Inv.sees (h : Inv P s) {i : Nat} (hi : s.consumers[i]? = some c) : SeesStream P s i c := by
  have hc := h.consumers c (List.mem_of_getElem? hi)
  unfold Holds at hc
  cases hph : c.phase with
  | reading =>
    rw [hph] at hc
    obtain ⟨pending, marker, hy, hq, hmark⟩ := hc
    refine ⟨⟨pending, hy⟩, by simp [hph], ?_, ?_⟩
    · intro _ hempty
      rw [hempty] at hq
      obtain ⟨-, hnil⟩ := List.append_eq_nil_iff.mp hq.symm
      rw [hnil, Marker] at hmark
      cases hf : s.failure with
      | some e =>
        rw [hf] at hmark
        obtain ⟨rest, hrest⟩ := hmark
        cases hrest
      | none =>
        rw [hf] at hmark
        have hd : s.done = false := by
          cases hd : s.done with
          | false => rfl
          | true =>
            simp only [hd, if_true] at hmark
            cases hmark
        have ht : s.task ≠ .absent := by
          intro ht
          have hn := (h.absent ht).2 c (List.mem_of_getElem? hi)
          rw [hph] at hn
          cases hn
        rcases h.working ht with hw | hw
        · rw [hd] at hw
          cases hw
        · exact ⟨hd, hw⟩
    · intro _ hd
      have hplain : ∀ v ∈ pending, P.isException v = false :=
        fun v hv => h.plain v (by rw [hy]; exact List.mem_append_right _ hv)
      unfold Marker at hmark
      cases hf : s.failure with
      | some e =>
        rw [hf] at hmark
        obtain ⟨rest, rfl⟩ := hmark
        have he : ∀ x, Message.value e = .value x → P.isException x = true := by
          rintro _ ⟨⟩
          exact (h.failed e hf).1
        obtain ⟨t, d, hrun, hd, hrec, hlast⟩ := drains he pending s c hi hph hq hplain
        exact ⟨_, t, d, hrun, hd, hrec.trans hy.symm, by rw [hlast, outcome, hf]; rfl⟩
      | none =>
        rw [hf, hd] at hmark
        rw [show marker = [.sentinel] from hmark] at hq
        obtain ⟨t, d, hrun, hd, hrec, hlast⟩ := drains (m := .sentinel) (by rintro _ ⟨⟩)
          pending s c hi hph hq hplain
        exact ⟨_, t, d, hrun, hd, hrec.trans hy.symm, by rw [hlast, outcome, hf]; rfl⟩
  | ended =>
    rw [hph] at hc
    refine ⟨⟨[], by rw [hc.1, List.append_nil]⟩, ?_, by simp [hph], by simp [hph]⟩
    intro _
    exact ⟨hc.1, by rw [outcome, hc.2.1, hph]⟩
  | raised e =>
    rw [hph] at hc
    refine ⟨⟨[], by rw [hc.1, List.append_nil]⟩, ?_, by simp [hph], by simp [hph]⟩
    intro _
    exact ⟨hc.1, by rw [outcome, hc.2, hph]⟩
  | cancelled =>
    rw [hph] at hc
    exact ⟨hc, by simp [hph], by simp [hph], by simp [hph]⟩
  | refused =>
    rw [hph] at hc
    exact ⟨⟨s.yielded, by rw [hc, List.nil_append]⟩, by simp [hph], by simp [hph],
      by simp [hph]⟩

theorem Inv.result (h : Inv P s) (hw : w ∈ s.waiters) :
    ResultSeen s w := by
  have hx := h.waiters w hw
  cases w with
  | waiting => exact h.working hx
  | returned items => exact ⟨hx.1, hx.2.1⟩
  | raised e => exact hx.1

/-- In every run of regular steps every consumer sees the whole stream. -/
theorem every_consumer_sees (P : Values V) {as : List (Action V)} {t : State V}
    (hm : (machine P).Meets (Regular P) (init V) as)
    (hr : (machine P).run (init V) as = some t) : EveryConsumerSees P t :=
  have h := inv_run hm hr
  ⟨fun _ _ hi => h.sees hi, fun _ hw => h.result hw⟩

/-- Among the numbers, 9 stands for an `Exception`. -/
def numbers : Values Nat where
  isException := fun n => n = 9
  truthy := fun n => n ≠ 0

theorem every_consumer_sees_failure : ∃ t,
    (machine numbers).run (init Nat) [.subscribe, .startTask, .produce 1, .subscribe,
      .produce 2, .fail 9, .settle, .receive 0, .receive 0, .receive 0] = some t ∧
      EveryConsumerSees numbers t := by
  refine ⟨_, rfl, @every_consumer_sees Nat numbers [.subscribe, .startTask, .produce 1,
    .subscribe, .produce 2, .fail 9, .settle, .receive 0, .receive 0, .receive 0] _ ?_ rfl⟩
  refine ⟨trivial, fun _ _ => ⟨trivial, fun _ _ => ⟨rfl, fun _ _ => ⟨trivial, fun _ _ => ⟨rfl,
    fun _ _ => ⟨⟨rfl, rfl⟩, fun _ _ => ⟨trivial, fun _ _ => ⟨trivial, fun _ _ => ⟨trivial,
    fun _ _ => ⟨trivial, fun _ _ => trivial⟩⟩⟩⟩⟩⟩⟩⟩⟩⟩

theorem exception_item_raised :
    ¬ ∀ (V : Type) (P : Values V) (as : List (Action V)) (t : State V),
      (machine P).run (init V) as = some t → EveryConsumerSees P t := by
  intro h
  have hs := (h Nat numbers [.subscribe, .startTask, .produce 9, .receive 0] _ rfl).consumers 0 _ rfl
  have ho := (hs.ended (.inr ⟨9, rfl⟩)).1
  exact absurd ho (by decide)

end Agently.Utils.GeneratorConsumer
