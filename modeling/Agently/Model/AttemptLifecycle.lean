import Agently.Model.AttemptRunner

/-! # The lifecycle of attempts

A run is cut into rounds, one for each attempt, and each round is read off from the two
halves of the loop: what the attempt itself streams, and what the `except` block adds. -/

namespace Agently.Model.AttemptRunner

variable {E V D O : Type}

/-- One attempt: its number, and what happens from its start to the next one. -/
structure Round (E V D O : Type) where
  number : Nat
  events : List (Event E V D O)

def Round.trace (p : Round E V D O) : List (Event E V D O) := .attempt p.number :: p.events

def Plain : Event E V D O → Prop
  | .attempt _ => False
  | .status _ => False
  | _ => True

def Announced (events : List (Event E V D O)) : Prop :=
  ∃ body st after, events = body ++ .status st :: after ∧ (∀ e ∈ body, Plain e) ∧
    (∀ e ∈ after, ∃ o, e = .observed o) ∧ st.status = .failed ∧ st.retry = true

/-- The only status is a terminal one, and nothing follows `completed`. -/
def Closing (events : List (Event E V D O)) : Prop :=
  ∃ body st after, events = body ++ .status st :: after ∧ (∀ e ∈ body, Plain e) ∧
    (∀ e ∈ after, Plain e) ∧ st.retry = false ∧ (st.status = .completed → after = [])

section Statement

variable (errors : Errors E D) (handlers : AttemptHandlers E V D O)

def Starts (index : Int) (most : Option Int) (item : Item E V) : Prop :=
  isOutputStarted handlers item ⟨index, false, most⟩ = .ok true

def Produced (index : Int) (most : Option Int) (events : List (Event E V D O)) : Prop :=
  ∃ item, .item item ∈ events ∧ Starts handlers index most item

/-- The run leaves with `GeneratorExit` or `SystemExit`, or because the error handler itself
raises or answers with no decision. -/
def Unannounced : Ending E → Prop
  | .returned => False
  | .raised e =>
    errors.kind e = .generatorExit ∨ errors.kind e = .systemExit ∨
      ∃ k error state, handlers.handle_error k error state = .raised e ∨
        (handlers.handle_error k error state = .foreign ∧ e = errors.typeError notDecision)

/-- The rounds of a run that starts in `state` with the `k`-th attempt. -/
structure Orderly (k : Nat) (state : AttemptState) (rounds : List (Round E V D O))
    (ending : Option (Ending E)) : Prop where
  numbers : rounds.map Round.number = List.range' k rounds.length
  bounded : ∀ most, state.max_attempts = some most →
    rounds.length ≤ 1 ∨ state.attempt_index + rounds.length ≤ most + 1
  announced : ∀ j p, rounds[j]? = some p → j + 1 < rounds.length → Announced p.events
  allowed : ∀ j p, rounds[j]? = some p → j + 1 < rounds.length →
    ∃ d, .decided d ∈ p.events ∧ d.action = .retry ∧
      (Produced handlers (state.attempt_index + j) state.max_attempts p.events →
        d.allow_after_output_started = true)
  terminal : ∀ e, ending = some e → ∃ p, rounds.getLast? = some p ∧
    (Closing p.events ∨ (Unannounced errors handlers e ∧ ∀ x ∈ p.events, Plain x))
  unfinished : ending = none → ∀ p ∈ rounds, Announced p.events

def Quiet : Prop := ∀ trace o, handlers.on_observation trace o = none

end Statement

variable {errors : Errors E D} {valueText : V → Text} {handlers : AttemptHandlers E V D O}

theorem observe_eq (hq : Quiet handlers) (o : Observation E V D O) (r : Run E V D O) :
    _observe handlers o r = (none, r.emit (.observed o)) := by
  rw [_observe, hq]

theorem observe_all_eq (hq : Quiet handlers) (os : List O) (r : Run E V D O) :
    _observe_all handlers os r =
      (none, { r with trace := r.trace ++ os.map fun o => .observed (.reported o) }) := by
  induction os generalizing r with
  | nil => simp [_observe_all]
  | cons o os ih =>
    rw [_observe_all, observe_eq hq]
    simp only
    rw [ih]
    simp [Run.emit]

theorem markOutput_spec (hq : Quiet handlers) (item : Item E V) (r : Run E V D O) :
    ∃ body, (∀ e ∈ body, ∃ o, e = .observed o) ∧
      (markOutput handlers item r).2.trace = r.trace ++ body ∧
      (markOutput handlers item r).2.state.attempt_index = r.state.attempt_index ∧
      (markOutput handlers item r).2.state.max_attempts = r.state.max_attempts ∧
      (r.state.output_started = true →
        (markOutput handlers item r).2.state.output_started = true) ∧
      ((markOutput handlers item r).1 = none →
        Starts handlers r.state.attempt_index r.state.max_attempts item →
        (markOutput handlers item r).2.state.output_started = true) := by
  rw [markOutput]
  cases hs : r.state.output_started with
  | true =>
    rw [if_pos rfl]
    exact ⟨[], by simp, by simp, rfl, rfl, fun _ => hs, fun _ _ => hs⟩
  | false =>
    rw [if_neg (by simp)]
    have hstate : r.state = ⟨r.state.attempt_index, false, r.state.max_attempts⟩ := by
      rw [← hs]
    cases hi : isOutputStarted handlers item r.state with
    | error e =>
      exact ⟨[], by simp, by simp, rfl, rfl, by simp, fun hn => by cases hn⟩
    | ok started =>
      cases started with
      | false =>
        refine ⟨[], by simp, by simp, rfl, rfl, by simp, ?_⟩
        intro _ hst
        rw [Starts, ← hstate, hi] at hst
        cases hst
      | true =>
        simp only [observe_eq hq]
        refine ⟨[.observed (.output_started r.state.attempt_index)], ?_, rfl, rfl, rfl,
          fun _ => rfl, fun _ _ => rfl⟩
        intro e he
        exact ⟨_, List.mem_singleton.mp he⟩

theorem Closing.prepend {body events : List (Event E V D O)} (hb : ∀ e ∈ body, Plain e)
    (h : Closing events) : Closing (body ++ events) := by
  obtain ⟨more, st, after, rfl, hm, ha, hr, hc⟩ := h
  refine ⟨body ++ more, st, after, by simp, ?_, ha, hr, hc⟩
  intro e he
  rcases List.mem_append.mp he with he | he
  · exact hb e he
  · exact hm e he

theorem plain_of_observed {events : List (Event E V D O)}
    (h : ∀ e ∈ events, ∃ o, e = .observed o) : ∀ e ∈ events, Plain e := by
  intro e he
  obtain ⟨o, rfl⟩ := h e he
  trivial

theorem observed_singleton (o : Observation E V D O) :
    ∀ e ∈ [Event.observed o], ∃ o', e = Event.observed o' :=
  fun _ he => ⟨o, List.mem_singleton.mp he⟩

theorem plain_yielded (index : Int) (error : Payload E V) (e : E) :
    ∀ x ∈ ([.observed (.error_yielded index error), .error e] : List (Event E V D O)), Plain x := by
  simp [Plain]

structure Kept (handlers : AttemptHandlers E V D O) (r r' : Run E V D O)
    (body : List (Event E V D O)) : Prop where
  index : r'.state.attempt_index = r.state.attempt_index
  most : r'.state.max_attempts = r.state.max_attempts
  started : r.state.output_started = true → r'.state.output_started = true
  produced : Produced handlers r.state.attempt_index r.state.max_attempts body →
    r'.state.output_started = true

theorem Kept.refl (r : Run E V D O) : Kept handlers r r [] where
  index := rfl
  most := rfl
  started := id
  produced := by
    rintro ⟨item, hm, -⟩
    cases hm

variable (errors valueText) in
theorem stream_spec (hq : Quiet handlers) (raises : Option E) (items : List (Item E V))
    (r : Run E V D O) :
    ∃ body, (∀ e ∈ body, Plain e) ∧
      ((∃ error, (stream errors valueText handlers raises items r).1 = .raised error ∧
          (stream errors valueText handlers raises items r).2.trace = r.trace ++ body ∧
          Kept handlers r (stream errors valueText handlers raises items r).2 body) ∨
        ((stream errors valueText handlers raises items r).1 = .returned ∧ ∃ tail, Closing tail ∧
          (stream errors valueText handlers raises items r).2.trace = r.trace ++ body ++ tail)) := by
  induction items generalizing r with
  | nil =>
    refine ⟨[], by simp, ?_⟩
    cases raises with
    | some e => exact .inl ⟨e, rfl, by simp [stream], Kept.refl r⟩
    | none =>
      refine .inr ?_
      simp only [stream, observe_eq hq]
      exact ⟨trivial, _, ⟨[.observed (.status (_completed_status r.state))],
        _completed_status r.state, [], rfl, by simp [Plain], by simp, rfl, fun _ => rfl⟩,
        by simp [Run.emit]⟩
  | cons item items ih =>
    by_cases hev : item.event = "error"
    · refine ⟨[], by simp, .inr ?_⟩
      simp only [stream, hev, if_true, observe_eq hq]
      generalize hst : _failure_status errors r.state (errorOf errors valueText item.payload)
        false none = status
      have hretry : status.retry = false := hst ▸ rfl
      have hfailed : status.status = .failed := hst ▸ rfl
      refine ⟨trivial, _, ⟨[.observed (.status status)], status,
        [.observed (.error_yielded r.state.attempt_index item.payload), .item item], rfl,
        by simp [Plain], by simp [Plain], hretry, ?_⟩, by simp [Run.emit]⟩
      intro hc
      rw [hfailed] at hc
      cases hc
    · obtain ⟨seen, hobs, htrace, hindex, hmost, hstart, hmark⟩ := markOutput_spec hq item r
      simp only [stream, hev, if_false]
      cases hm : markOutput handlers item r with
      | mk raised s =>
        rw [hm] at htrace hindex hmost hstart hmark
        cases raised with
        | some e =>
          refine ⟨seen, plain_of_observed hobs, .inl ⟨e, rfl, htrace, hindex, hmost, hstart, ?_⟩⟩
          rintro ⟨x, hx, -⟩
          obtain ⟨o, ho⟩ := hobs _ hx
          cases ho
        | none =>
          obtain ⟨body, hbody, hcase⟩ := ih (s.emit (.item item))
          have hplain : ∀ e ∈ seen ++ .item item :: body, Plain e := by
            intro e he
            rcases List.mem_append.mp he with he | he
            · exact plain_of_observed hobs e he
            · rcases List.mem_cons.mp he with rfl | he
              · trivial
              · exact hbody e he
          refine ⟨seen ++ .item item :: body, hplain, ?_⟩
          have happ : (s.emit (.item item)).trace ++ body =
              r.trace ++ (seen ++ .item item :: body) := by
            change s.trace ++ [.item item] ++ body = _
            rw [show s.trace = r.trace ++ seen from htrace]
            simp
          rcases hcase with ⟨error, he, ht, hk⟩ | ⟨he, tail, hclose, ht⟩
          · refine .inl ⟨error, he, ht.trans happ, ?_⟩
            refine ⟨hk.index.trans hindex, hk.most.trans hmost,
              fun h => hk.started (hstart h), ?_⟩
            rintro ⟨x, hx, hst⟩
            rcases List.mem_append.mp hx with hx | hx
            · obtain ⟨o, ho⟩ := hobs _ hx
              cases ho
            · rcases List.mem_cons.mp hx with hx | hx
              · cases hx
                exact hk.started (hmark rfl hst)
              · refine hk.produced ⟨x, hx, ?_⟩
                change Starts handlers s.state.attempt_index s.state.max_attempts x
                rw [hindex, hmost]
                exact hst
          · exact .inr ⟨he, tail, hclose, by rw [ht, happ]⟩

theorem announce_eq (hq : Quiet handlers) (status : Status D) (r : Run E V D O)
    (after : Run E V D O → Option (Ending E) × Run E V D O) :
    announce handlers status r after =
      after ((r.emit (.observed (.status status))).emit (.status status)) := by
  rw [announce, observe_eq hq]

theorem closing_failed {status : Status D} {after : List (Event E V D O)}
    (hs : status.status = .failed) (hr : status.retry = false) (ha : ∀ e ∈ after, Plain e) :
    Closing (.observed (.status status) :: .status status :: after) := by
  refine ⟨[.observed (.status status)], status, after, rfl, by simp [Plain], ha, hr, ?_⟩
  intro hc
  rw [hs] at hc
  cases hc

variable (errors) in
theorem conclude_spec (hq : Quiet handlers) (d : AttemptDecision E O) (error : E)
    (r : Run E V D O) :
    (∃ ending tail, (conclude errors handlers d error r).1 = some ending ∧ Closing tail ∧
        (conclude errors handlers d error r).2.trace = r.trace ++ tail) ∨
      ((conclude errors handlers d error r).1 = none ∧ d.action = .retry ∧
        outputBlocks d r.state = false ∧ exhausted r.state = false ∧
        (conclude errors handlers d error r).2.state =
          { r.state with attempt_index := r.state.attempt_index + 1, output_started := false } ∧
        ∃ status after, status.status = .failed ∧ status.retry = true ∧
          (∀ e ∈ after, ∃ o, e = .observed o) ∧
          (conclude errors handlers d error r).2.trace =
            r.trace ++ .observed (.status status) :: .status status :: after) := by
  rw [conclude]
  cases ha : d.action with
  | retry =>
    simp only [announce_eq hq]
    generalize hst : _failure_status errors r.state error _ _ = status
    have hfailed : status.status = .failed := hst ▸ rfl
    have hretry : status.retry = (!outputBlocks d r.state && !exhausted r.state) := hst ▸ rfl
    have hstate : ((r.emit (.observed (.status status))).emit (.status status)).state =
        r.state := rfl
    rw [hstate]
    cases hb : outputBlocks d r.state with
    | true =>
      refine .inl ⟨.raised error, _, by simp [observe_eq hq], closing_failed hfailed
        (by simp [hretry, hb])
        (plain_of_observed (observed_singleton (.retry_blocked r.state.attempt_index d.reason))),
        ?_⟩
      simp [observe_eq hq, Run.emit]
    | false =>
      cases hx : exhausted r.state with
      | true =>
        refine .inl ⟨.raised error, _, by simp, closing_failed hfailed
          (by simp [hretry, hx]) (List.forall_mem_nil _), ?_⟩
        simp [Run.emit]
      | false =>
        refine .inr ⟨by simp [observe_eq hq], trivial, rfl, rfl,
          by simp [observe_eq hq, Run.emit], status,
          [.observed (.retry (r.state.attempt_index + 1) d.reason)], hfailed,
          by simp [hretry, hb, hx], observed_singleton _, ?_⟩
        simp [observe_eq hq, Run.emit]
  | yield_error =>
    simp only [announce_eq hq, observe_eq hq]
    generalize hst : _failure_status errors r.state (decisionError errors d error) false none =
      status
    have hfailed : status.status = .failed := hst ▸ rfl
    have hretry : status.retry = false := hst ▸ rfl
    exact .inl ⟨.returned, _, rfl, closing_failed hfailed hretry
      (plain_yielded r.state.attempt_index (.error (decisionError errors d error))
        (decisionError errors d error)), by simp [Run.emit]⟩
  | stop =>
    simp only [announce_eq hq]
    generalize hst : _failure_status errors r.state error false none = status
    have hfailed : status.status = .failed := hst ▸ rfl
    have hretry : status.retry = false := hst ▸ rfl
    exact .inl ⟨.returned, _, rfl, closing_failed hfailed hretry (List.forall_mem_nil _),
      by simp [Run.emit]⟩
  | raise =>
    simp only [announce_eq hq]
    generalize hst : _failure_status errors r.state (decisionError errors d error) false none =
      status
    have hfailed : status.status = .failed := hst ▸ rfl
    have hretry : status.retry = false := hst ▸ rfl
    exact .inl ⟨.raised _, _, rfl, closing_failed hfailed hretry (List.forall_mem_nil _),
      by simp [Run.emit]⟩

theorem closing_cancelled (state : AttemptState) (e : E) :
    Closing ([.status (_cancelled_status errors state e)] : List (Event E V D O)) :=
  ⟨[], _, [], rfl, by simp, by simp, rfl, fun _ => rfl⟩

variable (errors) in
/-- The `except` block ends the run, or decides on another attempt. -/
theorem recover_spec (hq : Quiet handlers) (k : Nat) (error : E) (r : Run E V D O) :
    (∃ ending tail, (recover errors handlers k error r).1 = some ending ∧
        (recover errors handlers k error r).2.trace = r.trace ++ tail ∧
        (Closing tail ∨ (Unannounced errors handlers ending ∧ ∀ e ∈ tail, Plain e))) ∨
      ((recover errors handlers k error r).1 = none ∧ exhausted r.state = false ∧
        (recover errors handlers k error r).2.state =
          { r.state with attempt_index := r.state.attempt_index + 1, output_started := false } ∧
        ∃ d body status after, d.action = .retry ∧ outputBlocks d r.state = false ∧
          .decided d ∈ body ∧ (∀ e ∈ body, Plain e) ∧ (∀ i, .item i ∉ body) ∧
          status.status = .failed ∧ status.retry = true ∧
          (∀ e ∈ after, ∃ o, e = .observed o) ∧
          (recover errors handlers k error r).2.trace =
            r.trace ++ (body ++ .status status :: after)) := by
  rw [recover]
  cases hk : errors.kind error with
  | generatorExit =>
    exact .inl ⟨_, [], rfl, by simp, .inr ⟨.inl hk, by simp⟩⟩
  | systemExit =>
    exact .inl ⟨_, [], rfl, by simp, .inr ⟨.inr (.inl hk), by simp⟩⟩
  | cancelled => exact .inl ⟨_, _, rfl, rfl, .inl (closing_cancelled r.state error)⟩
  | keyboardInterrupt => exact .inl ⟨_, _, rfl, rfl, .inl (closing_cancelled r.state error)⟩
  | other =>
    cases hh : handlers.handle_error k error r.state with
    | raised e =>
      exact .inl ⟨_, [], rfl, by simp, .inr ⟨.inr (.inr ⟨k, error, r.state, .inl hh⟩), by simp⟩⟩
    | foreign =>
      exact .inl ⟨_, [], rfl, by simp,
        .inr ⟨.inr (.inr ⟨k, error, r.state, .inr ⟨hh, rfl⟩⟩), by simp⟩⟩
    | decision d =>
      simp only [observe_all_eq hq]
      generalize hs : ({ r.emit (.decided d) with
        trace := (r.emit (.decided d)).trace ++
          d.observations.map fun o => Event.observed (.reported o) } : Run E V D O) = s
      have hstate : s.state = r.state := hs ▸ rfl
      have htrace : s.trace = r.trace ++ (.decided d ::
          d.observations.map fun o => Event.observed (.reported o)) := by
        rw [← hs]
        simp [Run.emit]
      have hseen : ∀ e ∈ (Event.decided d :: d.observations.map fun o =>
          Event.observed (Observation.reported o) : List (Event E V D O)), Plain e := by
        simp [Plain]
      rcases conclude_spec errors hq d error s with
        ⟨ending, tail, he, hc, ht⟩ | ⟨he, ha, hb, hx, hst, status, after, hf, hr, ho, ht⟩
      · exact .inl ⟨ending, _, he, by rw [ht, htrace, List.append_assoc],
          .inl (hc.prepend hseen)⟩
      · rw [hstate] at hb hx hst
        refine .inr ⟨he, hx, hst, d, (.decided d :: d.observations.map fun o =>
          Event.observed (.reported o)) ++ [.observed (.status status)], status, after, ha, hb,
          by simp, ?_, by simp, hf, hr, ho, ?_⟩
        · intro e hm
          rcases List.mem_append.mp hm with hm | hm
          · exact hseen e hm
          · rw [List.mem_singleton.mp hm]
            trivial
        · rw [ht, htrace]
          simp

theorem flatMap_trace_cons (p : Round E V D O) (rounds : List (Round E V D O)) :
    (p :: rounds).flatMap Round.trace = .attempt p.number :: (p.events ++ rounds.flatMap Round.trace) := by
  simp [Round.trace]

theorem Orderly.nil (k : Nat) (state : AttemptState) :
    Orderly errors handlers k state ([] : List (Round E V D O)) none where
  numbers := rfl
  bounded := fun _ _ => .inl (Nat.zero_le _)
  announced := by intro j p hp; cases hp
  allowed := by intro j p hp; cases hp
  terminal := by intro e he; cases he
  unfinished := by intro _ p hp; cases hp

theorem Orderly.last (k : Nat) (state : AttemptState) {events : List (Event E V D O)}
    {ending : Ending E}
    (hc : Closing events ∨ (Unannounced errors handlers ending ∧ ∀ x ∈ events, Plain x)) :
    Orderly errors handlers k state [⟨k, events⟩] (some ending) where
  numbers := rfl
  bounded := fun _ _ => .inl (Nat.le_refl _)
  announced := by
    intro j p hp hj
    simp at hj
  allowed := by
    intro j p hp hj
    simp at hj
  terminal := by
    rintro e ⟨⟩
    exact ⟨_, rfl, hc⟩
  unfinished := nofun

theorem Orderly.cons {k : Nat} {state : AttemptState} {events : List (Event E V D O)}
    {rounds : List (Round E V D O)} {ending : Option (Ending E)} {d : AttemptDecision E O}
    (h : Orderly errors handlers (k + 1)
      { state with attempt_index := state.attempt_index + 1, output_started := false } rounds ending)
    (hx : exhausted state = false) (ha : Announced events) (hd : .decided d ∈ events)
    (hr : d.action = .retry)
    (hp : Produced handlers state.attempt_index state.max_attempts events →
      d.allow_after_output_started = true)
    (hne : ending ≠ none → rounds ≠ []) :
    Orderly errors handlers k state (⟨k, events⟩ :: rounds) ending where
  numbers := by
    rw [List.map_cons, h.numbers, List.length_cons, List.range'_succ]
  bounded := by
    intro most hm
    rw [exhausted, hm] at hx
    have hlt : state.attempt_index < most := by simpa using hx
    have hb := h.bounded most hm
    simp only [List.length_cons] at hb ⊢
    omega
  announced := by
    intro j p hp hj
    cases j with
    | zero =>
      cases hp
      exact ha
    | succ j => exact h.announced j p hp (by simpa using hj)
  allowed := by
    intro j p hget hj
    cases j with
    | zero =>
      cases hget
      exact ⟨d, hd, hr, by simpa using hp⟩
    | succ j =>
      obtain ⟨d', hm, hr', hp'⟩ := h.allowed j p hget (by simpa using hj)
      refine ⟨d', hm, hr', ?_⟩
      have he : state.attempt_index + 1 + (j : Int) = state.attempt_index + ((j + 1 : Nat) : Int) := by
        push_cast
        omega
      rw [← he]
      exact hp'
  terminal := by
    intro e he
    obtain ⟨p, hl, hc⟩ := h.terminal e he
    refine ⟨p, ?_, hc⟩
    rw [List.getLast?_cons_of_ne_nil (hne (by rw [he]; simp)), hl]
  unfinished := by
    intro hn p hm
    rcases List.mem_cons.mp hm with rfl | hm
    · exact ha
    · exact h.unfinished hn p hm

theorem rounds_ne_nil {k : Nat} {state : AttemptState} {rounds : List (Round E V D O)}
    {ending : Option (Ending E)} (h : Orderly errors handlers k state rounds ending)
    (hn : ending ≠ none) : rounds ≠ [] := by
  rintro rfl
  obtain ⟨e, he⟩ := Option.ne_none_iff_exists'.mp hn
  obtain ⟨p, hp, -⟩ := h.terminal e he
  cases hp

variable (errors valueText) in
theorem run_from (hq : Quiet handlers) (fuel k : Nat) (r : Run E V D O) :
    ∃ rounds, (run_stream errors valueText handlers fuel k r).2.trace =
        r.trace ++ rounds.flatMap Round.trace ∧
      Orderly errors handlers k r.state rounds (run_stream errors valueText handlers fuel k r).1 := by
  induction fuel generalizing k r with
  | zero => exact ⟨[], by simp [run_stream], Orderly.nil k r.state⟩
  | succ fuel ih =>
    obtain ⟨body, hb, hcase⟩ := stream_spec errors valueText hq
      (handlers.execute k r.state).raises (handlers.execute k r.state).items (r.emit (.attempt k))
    rw [run_stream]
    cases hs : stream errors valueText handlers (handlers.execute k r.state).raises
        (handlers.execute k r.state).items (r.emit (.attempt k)) with
    | mk ending s =>
      rw [hs] at hcase
      rcases hcase with ⟨error, rfl, ht, hk⟩ | ⟨rfl, tail, hc, ht⟩
      · change s.trace = _ at ht
        have hindex : s.state.attempt_index = r.state.attempt_index := hk.index
        have hmost : s.state.max_attempts = r.state.max_attempts := hk.most
        have hproduced : Produced handlers r.state.attempt_index r.state.max_attempts body →
            s.state.output_started = true := hk.produced
        simp only
        rcases recover_spec errors hq k error s with
          ⟨ending, tail, he, htr, hcl⟩ |
          ⟨he, hx, hst, d, more, status, after, hd, hblock, hmem, hplain, hitems, hf, hr, ho, htr⟩
        · cases hrec : recover errors handlers k error s with
          | mk o u =>
            rw [hrec] at he htr
            change o = _ at he
            subst he
            refine ⟨[⟨k, body ++ tail⟩], ?_, Orderly.last k r.state ?_⟩
            · change u.trace = _
              rw [show u.trace = _ from htr, ht]
              simp [Run.emit, Round.trace]
            · rcases hcl with hcl | ⟨hun, hpl⟩
              · exact .inl (hcl.prepend hb)
              · refine .inr ⟨hun, ?_⟩
                intro x hm
                rcases List.mem_append.mp hm with hm | hm
                · exact hb x hm
                · exact hpl x hm
        · cases hrec : recover errors handlers k error s with
          | mk o u =>
            rw [hrec] at he htr hst
            change o = _ at he
            change u.state = _ at hst
            subst he
            obtain ⟨rounds, hrounds, horder⟩ := ih (k + 1) u
            have hu : u.state = { r.state with
                attempt_index := r.state.attempt_index + 1, output_started := false } :=
              hst.trans (congrArg₂ (fun i m => (⟨i, false, m⟩ : AttemptState))
                (by rw [hindex]) hmost)
            have hx' : exhausted r.state = false := by
              rw [exhausted, ← hindex, ← hmost]
              exact hx
            rw [hu] at horder
            refine ⟨⟨k, body ++ (more ++ .status status :: after)⟩ :: rounds, ?_,
              Orderly.cons (d := d) horder hx' ?_ ?_ hd ?_ ?_⟩
            · change (run_stream errors valueText handlers fuel (k + 1) u).2.trace = _
              rw [hrounds, show u.trace = _ from htr, ht, flatMap_trace_cons]
              simp [Run.emit]
            · refine ⟨body ++ more, status, after, by simp, ?_, ho, hf, hr⟩
              intro x hm
              rcases List.mem_append.mp hm with hm | hm
              · exact hb x hm
              · exact hplain x hm
            · exact List.mem_append_right _ (List.mem_append_left _ hmem)
            · rintro ⟨item, hm, hstart⟩
              have hbody : .item item ∈ body := by
                rcases List.mem_append.mp hm with hm | hm
                · exact hm
                · rcases List.mem_append.mp hm with hm | hm
                  · exact absurd hm (hitems item)
                  · rcases List.mem_cons.mp hm with hm | hm
                    · cases hm
                    · obtain ⟨o, hn⟩ := ho _ hm
                      cases hn
              have hout := hproduced ⟨item, hbody, hstart⟩
              rw [outputBlocks, hout] at hblock
              simpa using hblock
            · intro hn
              exact rounds_ne_nil horder hn
      · change s.trace = _ at ht
        refine ⟨[⟨k, body ++ tail⟩], ?_, Orderly.last k r.state (.inl (hc.prepend hb))⟩
        change s.trace = _
        rw [ht]
        simp [Run.emit, Round.trace]

theorem run_ends (hq : Quiet handlers) {most : Int} (fuel k : Nat) (r : Run E V D O)
    (hm : r.state.max_attempts = some most) (hpos : 0 < fuel)
    (hf : most < r.state.attempt_index + fuel) :
    (run_stream errors valueText handlers fuel k r).1 ≠ none := by
  induction fuel generalizing k r with
  | zero => omega
  | succ fuel ih =>
    obtain ⟨body, -, hcase⟩ := stream_spec errors valueText hq
      (handlers.execute k r.state).raises (handlers.execute k r.state).items (r.emit (.attempt k))
    rw [run_stream]
    cases hs : stream errors valueText handlers (handlers.execute k r.state).raises
        (handlers.execute k r.state).items (r.emit (.attempt k)) with
    | mk ending s =>
      rw [hs] at hcase
      rcases hcase with ⟨error, rfl, -, hk⟩ | ⟨rfl, -⟩
      · have hindex : s.state.attempt_index = r.state.attempt_index := hk.index
        have hmost : s.state.max_attempts = some most := hk.most.trans hm
        simp only
        cases hrec : recover errors handlers k error s with
        | mk o u =>
          cases o with
          | some ending => simp
          | none =>
            rcases recover_spec errors hq k error s with
              ⟨ending, -, he, -⟩ | ⟨-, hx, hst, -⟩
            · rw [hrec] at he
              cases he
            · rw [hrec] at hst
              change u.state = _ at hst
              rw [exhausted, hmost] at hx
              have hlt : s.state.attempt_index < most := by simpa using hx
              have hu : u.state.attempt_index = s.state.attempt_index + 1 := by rw [hst]
              exact ih (k + 1) u (by rw [hst]; exact hmost) (by omega)
                (by rw [hu]; omega)
      · simp

/-- The rounds of a run whose observations raise nothing are orderly, and a run with a bound on
its attempts comes to an end. -/
theorem attempts_orderly (errors : Errors E D) (valueText : V → Text)
    (handlers : AttemptHandlers E V D O) (hq : Quiet handlers) (fuel : Nat) (state : AttemptState) :
    (∃ rounds, (run_stream errors valueText handlers fuel 0 ⟨state, []⟩).2.trace =
        rounds.flatMap Round.trace ∧
      Orderly errors handlers 0 state rounds
        (run_stream errors valueText handlers fuel 0 ⟨state, []⟩).1) ∧
    ∀ most, state.max_attempts = some most → 0 < fuel → most < state.attempt_index + fuel →
      (run_stream errors valueText handlers fuel 0 ⟨state, []⟩).1 ≠ none := by
  refine ⟨?_, fun most hm hpos hf => run_ends hq fuel 0 ⟨state, []⟩ hm hpos hf⟩
  obtain ⟨rounds, ht, ho⟩ := run_from errors valueText hq fuel 0
    ⟨state, []⟩
  exact ⟨rounds, by simpa using ht, ho⟩

def kinds : Errors ErrorKind Unit where
  kind := id
  str := fun _ => []
  className := fun _ => ['E']
  diagnostic := fun _ => none
  truthy := fun _ => true
  runtimeError := fun _ => .other
  typeError := fun _ => .other

def retried : AttemptHandlers ErrorKind Unit Unit Unit where
  execute := fun k _ => ⟨[⟨"message", .value ()⟩], if k = 0 then some .other else none⟩
  handle_error := fun _ _ _ => .decision { action := .retry, allow_after_output_started := true }
  on_observation := fun _ _ => none

theorem attempts_orderly_retried :
    (∃ rounds, (run_stream kinds (fun _ => []) retried 3 0 ⟨{ max_attempts := some 2 }, []⟩).2.trace =
        rounds.flatMap Round.trace ∧
      Orderly kinds retried 0 { max_attempts := some 2 } rounds
        (run_stream kinds (fun _ => []) retried 3 0 ⟨{ max_attempts := some 2 }, []⟩).1) ∧
      (run_stream kinds (fun _ => []) retried 3 0 ⟨{ max_attempts := some 2 }, []⟩).1 ≠ none := by
  have h := attempts_orderly kinds (fun _ => []) retried (fun _ _ => rfl) 3 { max_attempts := some 2 }
  exact ⟨h.1, h.2 2 rfl (by decide) (by decide)⟩

def exiting : AttemptHandlers ErrorKind Unit Unit Unit where
  execute := fun _ _ => ⟨[], some .systemExit⟩
  handle_error := fun _ _ _ => .decision { action := .stop }
  on_observation := fun _ _ => none

/-- Not every run that ends has a terminal status, and a maximum of none still is one attempt. -/
theorem exit_unannounced :
    (¬ ∀ handlers : AttemptHandlers ErrorKind Unit Unit Unit, Quiet handlers →
      (run_stream kinds (fun _ => []) handlers 1 0 ⟨{}, []⟩).1 ≠ none →
      ∃ st, .status st ∈ (run_stream kinds (fun _ => []) handlers 1 0 ⟨{}, []⟩).2.trace) ∧
    (run_stream kinds (fun _ => []) exiting 1 0 ⟨{ max_attempts := some 0 }, []⟩).2.trace =
      [.attempt 0] := by
  refine ⟨?_, rfl⟩
  intro h
  obtain ⟨st, hm⟩ := h exiting (fun _ _ => rfl) (fun hn => by cases hn)
  cases List.mem_singleton.mp hm

end Agently.Model.AttemptRunner
