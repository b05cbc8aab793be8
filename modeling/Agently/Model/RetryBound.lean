import Agently.Model.ModelRequestResult

/-! # Retries and output contracts

Only a degradation of an auto-resolved format can make a call leave its retry bound or lose the
error of a nested attempt: what its nested attempts raise is dropped, and the attempt goes on to
its own constraints and retries. -/

namespace Agently.Model

variable (C : Call) (W : World)

structure Meets (request : Nat) (format : PromptFormat) (response : Response) : Prop where
  pydantic : C.pydantic = true →
    response.parsed_result ≠ none ∧ C.get_output_validation_feedback response = []
  strict : C.is_strict_output_enabled format = true →
    response.parsed_result ≠ none ∧ response.result_object ≠ none
  ensured : ∀ key ∈ C.activeKeys C.ensure_keys, C.ensured W response key = true
  validated : ∀ i name, C.validate_handlers[i]? = some name →
    (handlerOutcome W request i name).ok = true

def laterCalls (r : Run) : Nat → Run
  | 0 => r
  | k + 1 => laterCall C W (laterCalls r k)

structure Keeps : Prop where
  bounded : (firstCall C W).asked ≤ C.max_retries + 1
  satisfied : ∀ data, (firstCall C W).answer = .ok data → ∃ request format response,
    request < (firstCall C W).asked ∧ W.reply request format = .ok response ∧
      data = C.dataOf response ∧ Meets C W request format response
  refused : ∀ asked outcome, (asked, outcome) ∈ (firstCall C W).validated → outcome.ok = false →
    outcome.retryable = false →
      (∃ e, (firstCall C W).answer = .error e) ∧ (firstCall C W).asked = asked
  settled : ∀ data, (firstCall C W).answer = .ok data → ∀ k,
    (laterCalls C W (firstCall C W) k).answer = .ok data ∧
      (laterCalls C W (firstCall C W) k).asked = (firstCall C W).asked

section

variable {C W}

theorem mem_merge_ensure_keys {keys seen : List String} {key : String} :
    key ∈ merge_ensure_keys keys seen ↔ key ∈ keys ∨ key ∈ seen := by
  induction keys generalizing seen with
  | nil => simp [merge_ensure_keys]
  | cons k rest ih =>
    unfold merge_ensure_keys
    split
    · rename_i hk
      rw [ih, List.mem_cons]
      constructor
      · rintro (h | h)
        · exact .inl (.inr h)
        · exact .inr h
      · rintro ((rfl | h) | h)
        · exact .inr hk
        · exact .inl h
        · exact .inr h
    · rw [ih, List.mem_append, List.mem_singleton, List.mem_cons]
      tauto

theorem mem_activeKeys_again (keys : Option (List String)) (key : String) :
    key ∈ C.activeKeys (some (C.activeKeys keys)) ↔ key ∈ C.activeKeys keys := by
  have hmerged : ∀ ks : List String, (∀ k ∈ C.auto_ensure_keys, k ∈ ks ∨ ks = []) →
      (key ∈ C.activeKeys (some ks) ↔ key ∈ ks) := by
    intro ks hauto
    cases ks with
    | nil => rfl
    | cons k rest =>
      show key ∈ merge_ensure_keys (C.auto_ensure_keys ++ k :: rest) [] ↔ key ∈ k :: rest
      rw [mem_merge_ensure_keys, List.mem_append]
      constructor
      · rintro ((h | h) | h)
        · exact (hauto key h).resolve_right (List.cons_ne_nil _ _)
        · exact h
        · cases h
      · intro h
        exact .inl (.inr h)
  apply hmerged
  intro k hk
  match keys with
  | none => exact .inl hk
  | some [] => exact .inr rfl
  | some (k' :: rest) =>
    exact .inl (mem_merge_ensure_keys.mpr (.inl (List.mem_append_left _ hk)))

theorem nil_iff_of_mem {l l' : List String} (h : ∀ k, k ∈ l ↔ k ∈ l') : l = [] ↔ l' = [] := by
  rw [List.eq_nil_iff_forall_not_mem, List.eq_nil_iff_forall_not_mem]
  exact forall_congr' fun k => not_congr (h k)

theorem runHandlers_ok_iff {request : Nat} {names : List (Option String)} {index : Nat} :
    (runHandlers W request index names).ok = true ↔
      ∀ i name, names[i]? = some name → (handlerOutcome W request (index + i) name).ok = true := by
  induction names generalizing index with
  | nil => simp [runHandlers, passed]
  | cons name rest ih =>
    unfold runHandlers
    dsimp only
    by_cases ho : (handlerOutcome W request index name).ok = true
    · rw [if_pos ho, ih]
      constructor
      · intro h i name' hi
        cases i with
        | zero =>
          obtain rfl : name = name' := by simpa using hi
          exact ho
        | succ i =>
          have hrest := h i name' (by simpa using hi)
          rwa [Nat.add_right_comm, Nat.add_assoc] at hrest
      · intro h i name' hi
        have hrest := h (i + 1) name' (by simpa using hi)
        rwa [Nat.add_right_comm, Nat.add_assoc]
    · rw [if_neg ho]
      constructor
      · intro h
        exact absurd h ho
      · intro h
        exact absurd (h 0 name rfl) ho

theorem constraintError_isSome {strict : Bool} {active : List String} {response : Response} :
    (C.constraintError W strict active response).isSome = false ↔
      C.get_output_validation_feedback response = [] ∧
        (strict = true → response.parsed_result ≠ none ∧ response.result_object ≠ none) ∧
        ∀ key ∈ active, C.ensured W response key = true := by
  unfold Call.constraintError
  by_cases hf : C.get_output_validation_feedback response ≠ []
  · rw [if_pos hf]
    simp [hf]
  · rw [if_neg hf]
    rw [not_not] at hf
    by_cases hs : (strict && !Call.strictlyParsed response) = true
    · rw [if_pos hs]
      simp only [Bool.and_eq_true, Bool.not_eq_true', Call.strictlyParsed, Bool.and_eq_false_iff]
        at hs
      constructor
      · intro h
        cases h
      · rintro ⟨-, hstrict, -⟩
        obtain ⟨hp, ho⟩ := hstrict hs.1
        rcases hs.2 with hnone | hnone
        · exact absurd (Option.not_isSome_iff_eq_none.mp (by simp [hnone])) hp
        · exact absurd (Option.not_isSome_iff_eq_none.mp (by simp [hnone])) ho
    · rw [if_neg hs, Option.isSome_map]
      have hstrict : strict = true →
          response.parsed_result ≠ none ∧ response.result_object ≠ none := by
        intro h
        rw [h] at hs
        simpa [Call.strictlyParsed, Option.isSome_iff_ne_none] using hs
      constructor
      · intro h
        refine ⟨hf, hstrict, ?_⟩
        have hnone : (active.find? fun key => !C.ensured W response key) = none := by
          simpa using h
        intro key hk
        simpa using List.find?_eq_none.mp hnone key hk
      · rintro ⟨-, -, hkeys⟩
        have hnone : (active.find? fun key => !C.ensured W response key) = none := by
          rw [List.find?_eq_none]
          intro key hk
          simp [hkeys key hk]
        rw [hnone]
        rfl

end

def retryOf (left : Nat) (keys : Option (List String)) (format : PromptFormat) (asked : Nat) :
    Run :=
  async_get_data C W left (some (C.activeKeys keys)) (issue asked format) (asked + 1)

section

variable {C W} {left asked : Nat} {keys : Option (List String)} (result : ModelRequestResult)
  {response : Response}

theorem get_data_broken {e : Fault} (h : W.reply result.request result.issued = .error e) :
    async_get_data C W left keys result asked = ⟨.error e, asked, result, none, []⟩ := by
  cases left with
  | zero =>
    unfold async_get_data
    rw [h]
  | succ left =>
    unfold async_get_data
    rw [h]

theorem get_data_last (h : W.reply result.request result.issued = .ok response) :
    async_get_data C W 0 keys result asked =
      settle C W none (C.is_strict_output_enabled result.format) (C.activeKeys keys) result
        response asked none [] := by
  unfold async_get_data
  rw [h]

theorem not_degradable_json {p : Prop} : degradable .json = true → p := by
  intro h
  cases h

theorem get_data_degraded (h : W.reply result.request result.issued = .ok response)
    (hd : degradable result.format = true) (hnone : response.parsed_result = none) :
    async_get_data C W (left + 1) keys result asked =
      afterDegradation C W (retryOf C W left keys) (C.is_strict_output_enabled result.format)
        (C.activeKeys keys) { result with format := .json } response
        (retryOf C W left keys .json asked) := by
  unfold async_get_data
  rw [h]
  exact if_pos ⟨hd, by rw [hnone]; rfl⟩

theorem get_data_settled (h : W.reply result.request result.issued = .ok response)
    (hd : degradable result.format = true → response.parsed_result ≠ none) :
    async_get_data C W (left + 1) keys result asked =
      settle C W (some (retryOf C W left keys)) (C.is_strict_output_enabled result.format)
        (C.activeKeys keys) result response asked none [] := by
  unfold async_get_data
  rw [h]
  exact if_neg fun hdeg => hd hdeg.1 (Option.isNone_iff_eq_none.mp hdeg.2)

end

section

variable {C W}

theorem settle_cases {retry : Option (PromptFormat → Nat → Run)} {strict : Bool}
    {active : List String} (result : ModelRequestResult) {response : Response} {asked : Nat}
    {accepted : Option ModelRequestResult} {validated : List (Nat × Outcome)}
    (hnone : result.validate_outcome = none) :
    (∃ outcome events, C.constraintError W strict active response = none ∧
      (∀ i name, C.validate_handlers[i]? = some name →
        (handlerOutcome W result.request i name).ok = true) ∧
      (outcome = none ∧ C.validate_handlers = [] ∨ ∃ o, outcome = some o ∧ o.ok = true) ∧
      (∀ event ∈ events, event.2.ok = true) ∧
      settle C W retry strict active result response asked accepted validated =
        ⟨.ok (C.dataOf response), asked, { result with validate_outcome := outcome }, accepted,
          validated ++ events⟩) ∨
    (∃ again result' events, retry = some again ∧
      (∀ event ∈ events, event.2.retryable = true) ∧
      settle C W retry strict active result response asked accepted validated =
        (again result.format asked).adopt result' accepted (validated ++ events)) ∨
    (∃ e result' events, (∀ event ∈ events, event.1 = asked) ∧
      settle C W retry strict active result response asked accepted validated =
        ⟨.error e, asked, result', accepted, validated ++ events⟩) := by
  have hsame : { result with validate_outcome := none } = result := by rw [← hnone]
  unfold settle
  by_cases hfree : active = [] ∧ strict = false ∧ C.pydantic = false ∧
      C.validate_handlers = [] ∧ result.validate_outcome = none
  · rw [if_pos hfree]
    obtain ⟨hactive, hstrict, hpydantic, hhandlers, -⟩ := hfree
    left
    refine ⟨none, [], ?_, ?_, .inl ⟨rfl, hhandlers⟩, List.forall_mem_nil _, ?_⟩
    · simp [Call.constraintError, Call.get_output_validation_feedback, hactive, hstrict, hpydantic]
    · simp [hhandlers]
    · rw [List.append_nil, hsame]
  · rw [if_neg hfree]
    by_cases herr : (C.constraintError W strict active response).isSome = true
    · rw [if_pos herr]
      right
      cases retry with
      | some again => exact .inl ⟨again, result, [], rfl, List.forall_mem_nil _, by rw [List.append_nil]⟩
      | none => exact .inr ⟨_, result, [], List.forall_mem_nil _, by rw [List.append_nil]⟩
    · rw [if_neg herr]
      have herr' : C.constraintError W strict active response = none := by simpa using herr
      unfold run_validate_handlers_once
      rw [hnone]
      dsimp only
      by_cases hh : C.validate_handlers = []
      · rw [if_pos hh]
        left
        refine ⟨none, [], herr', by simp [hh], .inl ⟨rfl, hh⟩, List.forall_mem_nil _, ?_⟩
        rw [List.append_nil, hsame]
      · rw [if_neg hh]
        dsimp only
        rw [if_pos rfl]
        cases hok : (runHandlers W result.request 0 C.validate_handlers).ok with
        | true =>
          left
          refine ⟨some _, [(asked, _)], herr', ?_, .inr ⟨_, rfl, hok⟩, ?_, rfl⟩
          · intro i name hi
            have hi' := runHandlers_ok_iff.mp hok i name hi
            rwa [Nat.zero_add] at hi'
          · intro event hevent
            rw [List.mem_singleton.mp hevent]
            exact hok
        | false =>
          right
          rw [if_neg Bool.false_ne_true]
          cases retry with
          | none =>
            refine .inr ⟨_, _, [(asked, _)], ?_, rfl⟩
            intro event hevent
            rw [List.mem_singleton.mp hevent]
          | some again =>
            cases hretry : (runHandlers W result.request 0 C.validate_handlers).retryable with
            | true =>
              refine .inl ⟨again, _, [(asked, _)], rfl, ?_, rfl⟩
              intro event hevent
              rw [List.mem_singleton.mp hevent]
              exact hretry
            | false =>
              refine .inr ⟨_, _, [(asked, _)], ?_, rfl⟩
              intro event hevent
              rw [List.mem_singleton.mp hevent]

end

/-- A result whose answer is settled: its response meets the contract and nothing is left to
degrade or to validate. -/
structure Settled (result : ModelRequestResult) (asked : Nat) (data : Data) : Prop where
  asked : result.request < asked
  strict : C.is_strict_output_enabled result.format = C.is_strict_output_enabled result.issued
  response : ∃ response, W.reply result.request result.issued = .ok response ∧
    data = C.dataOf response ∧ Meets C W result.request result.issued response ∧
    (degradable result.format = true → C.max_retries ≠ 0 → response.parsed_result ≠ none)
  outcome : result.validate_outcome = none ∧ C.validate_handlers = [] ∨
    ∃ o, result.validate_outcome = some o ∧ o.ok = true

/-- A run that keeps the retry bound, is ended by a refusal, and whose answer is settled. -/
structure Good (r : Run) : Prop where
  bounded : r.asked ≤ C.max_retries + 1
  settled : ∀ data, r.answer = .ok data → Settled C W r.carrier r.asked data
  refused : ∀ asked outcome, (asked, outcome) ∈ r.validated → outcome.ok = false →
    outcome.retryable = false → (∃ e, r.answer = .error e) ∧ r.asked = asked

section

variable {C W}

theorem Meets.constraintError {request : Nat} {format : PromptFormat} {response : Response}
    (h : Meets C W request format response) :
    (C.constraintError W (C.is_strict_output_enabled format) (C.activeKeys C.ensure_keys)
      response).isSome = false := by
  rw [constraintError_isSome]
  refine ⟨?_, h.strict, h.ensured⟩
  cases hp : C.pydantic with
  | true => exact (h.pydantic hp).2
  | false => simp [Call.get_output_validation_feedback, hp]

variable {result : ModelRequestResult}

theorem settle_settled {retry : Option (PromptFormat → Nat → Run)}
    {response : Response} {asked : Nat}
    (hmeets : Meets C W result.request result.issued response)
    (hstrict : C.is_strict_output_enabled result.format =
      C.is_strict_output_enabled result.issued)
    (houtcome : result.validate_outcome = none ∧ C.validate_handlers = [] ∨
      ∃ o, result.validate_outcome = some o ∧ o.ok = true) :
    settle C W retry (C.is_strict_output_enabled result.format) (C.activeKeys C.ensure_keys)
      result response asked none [] = ⟨.ok (C.dataOf response), asked, result, none, []⟩ := by
  unfold settle
  split
  · rfl
  · rw [hstrict, hmeets.constraintError, if_neg Bool.false_ne_true]
    unfold run_validate_handlers_once
    obtain ⟨hnone, hh⟩ | ⟨o, ho, hok⟩ := houtcome
    · rw [hnone]
      dsimp only
      rw [if_pos hh]
    · rw [ho]
      dsimp only
      rw [if_neg (Option.some_ne_none o), if_pos hok, ← ho]

theorem later_settled {asked : Nat} {data : Data} (h : Settled C W result asked data) :
    async_get_data C W C.max_retries C.ensure_keys result asked =
      ⟨.ok data, asked, result, none, []⟩ := by
  obtain ⟨response, hreply, rfl, hmeets, hparsed⟩ := h.response
  cases hm : C.max_retries with
  | zero =>
    rw [get_data_last result hreply]
    exact settle_settled hmeets h.strict h.outcome
  | succ left =>
    rw [get_data_settled result hreply fun hd => hparsed hd (by omega)]
    exact settle_settled hmeets h.strict h.outcome

theorem laterCalls_settled {data : Data} (r : Run) (ha : r.answer = .ok data)
    (h : Settled C W r.carrier r.asked data) (k : Nat) :
    (laterCalls C W r k).answer = .ok data ∧ (laterCalls C W r k).asked = r.asked ∧
      (laterCalls C W r k).carrier = r.carrier := by
  induction k with
  | zero => exact ⟨ha, rfl, rfl⟩
  | succ k ih =>
    obtain ⟨-, hasked, hcarrier⟩ := ih
    unfold laterCalls laterCall
    rw [hasked, hcarrier, later_settled h]
    exact ⟨rfl, rfl, rfl⟩

theorem Good.keeps (h : Good C W (firstCall C W)) : Keeps C W := by
  refine ⟨h.bounded, ?_, h.refused, ?_⟩
  · intro data ha
    have hs := h.settled data ha
    obtain ⟨response, hreply, hdata, hmeets, -⟩ := hs.response
    exact ⟨_, _, response, hs.asked, hreply, hdata, hmeets⟩
  · intro data ha k
    obtain ⟨hans, hasked, -⟩ := laterCalls_settled _ ha (h.settled data ha) k
    exact ⟨hans, hasked⟩

theorem Good.adopt {r : Run} (h : Good C W r)
    {accepted : Option ModelRequestResult} {events : List (Nat × Outcome)}
    (hevents : ∀ event ∈ events, event.2.retryable = true) :
    Good C W (r.adopt result accepted events) := by
  have hlog : ∀ asked outcome, (asked, outcome) ∈ events ++ r.validated → outcome.ok = false →
      outcome.retryable = false → (∃ e, r.answer = .error e) ∧ r.asked = asked := by
    intro asked outcome hmem hok hretry
    rcases List.mem_append.mp hmem with hmem | hmem
    · have hr := hevents _ hmem
      rw [hretry] at hr
      cases hr
    · exact h.refused asked outcome hmem hok hretry
  unfold Run.adopt
  cases ha : r.answer with
  | ok data =>
    refine ⟨h.bounded, ?_, ?_⟩
    · intro data' hdata
      cases hdata
      exact h.settled data ha
    · intro asked outcome hmem hok hretry
      obtain ⟨⟨e, he⟩, -⟩ := hlog asked outcome hmem hok hretry
      rw [ha] at he
      cases he
  | error e =>
    refine ⟨h.bounded, nofun, ?_⟩
    intro asked outcome hmem hok hretry
    exact ⟨⟨e, rfl⟩, (hlog asked outcome hmem hok hretry).2⟩

theorem good_error {e : Fault} {asked : Nat}
    {accepted : Option ModelRequestResult} {events : List (Nat × Outcome)}
    (hasked : asked ≤ C.max_retries + 1) (hevents : ∀ event ∈ events, event.1 = asked) :
    Good C W ⟨.error e, asked, result, accepted, events⟩ := by
  refine ⟨hasked, nofun, ?_⟩
  intro a outcome hmem _ _
  exact ⟨⟨e, rfl⟩, (hevents _ hmem).symm⟩

end

/-- No attempt is degraded, nor would be on a later call, and where only a pydantic model is
declared every response is parsed. -/
structure Clean : Prop where
  parsed : degradable C.format = true → C.max_retries ≠ 0 → ∀ n ≤ C.max_retries, ∀ response,
    W.reply n C.format = .ok response → response.parsed_result ≠ none
  pydantic : C.pydantic = true → C.is_strict_output_enabled C.format = false →
    C.activeKeys C.ensure_keys = [] → ∀ n ≤ C.max_retries, ∀ response,
      W.reply n C.format = .ok response → response.parsed_result ≠ none

section

variable {C W}

theorem meets_of_settle {request : Nat} {format : PromptFormat} {response : Response}
    {active : List String} (hactive : ∀ k, k ∈ active ↔ k ∈ C.activeKeys C.ensure_keys)
    (herr : C.constraintError W (C.is_strict_output_enabled format) active response = none)
    (hok : ∀ i name, C.validate_handlers[i]? = some name →
      (handlerOutcome W request i name).ok = true)
    (hparsed : C.pydantic = true → C.is_strict_output_enabled format = false →
      C.activeKeys C.ensure_keys = [] → response.parsed_result ≠ none) :
    Meets C W request format response := by
  obtain ⟨hfeedback, hstrict, hensured⟩ := constraintError_isSome.mp (by rw [herr]; rfl)
  have hkeys : ∀ key ∈ C.activeKeys C.ensure_keys, C.ensured W response key = true := by
    intro key hk
    exact hensured key ((hactive key).mpr hk)
  refine ⟨?_, hstrict, hkeys, hok⟩
  intro hp
  refine ⟨?_, hfeedback⟩
  cases hs : C.is_strict_output_enabled format with
  | true => exact (hstrict hs).1
  | false =>
    cases hk : C.activeKeys C.ensure_keys with
    | nil => exact hparsed hp hs hk
    | cons key rest =>
      have hensure := hkeys key (by rw [hk]; exact List.mem_cons_self)
      intro hnone
      unfold Call.ensured at hensure
      rw [hnone] at hensure
      cases hensure

theorem settle_good {retry : Option (PromptFormat → Nat → Run)} {n : Nat} {response : Response}
    {active : List String} (hC : Clean C W) (hn : n ≤ C.max_retries)
    (hactive : ∀ k, k ∈ active ↔ k ∈ C.activeKeys C.ensure_keys)
    (hreply : W.reply n C.format = .ok response)
    (hretry : ∀ again, retry = some again → Good C W (again C.format (n + 1))) :
    Good C W (settle C W retry (C.is_strict_output_enabled C.format) active (issue n C.format)
      response (n + 1) none []) := by
  obtain ⟨outcome, events, herr, hok, houtcome, hevents, hs⟩ |
    ⟨again, result, events, hr, hevents, hs⟩ | ⟨e, result, events, hevents, hs⟩ :=
    settle_cases (issue n C.format) rfl
  · rw [hs, List.nil_append]
    refine ⟨Nat.succ_le_succ hn, ?_, ?_⟩
    · rintro data ⟨⟩
      have hmeets : Meets C W n C.format response :=
        meets_of_settle hactive herr hok fun hp hst hk => hC.pydantic hp hst hk n hn response hreply
      refine ⟨Nat.lt_succ_self n, rfl, ⟨response, hreply, rfl, hmeets, ?_⟩, ?_⟩
      · intro hd hm
        exact hC.parsed hd hm n hn response hreply
      · obtain ⟨rfl, hh⟩ | ⟨o, rfl, ho⟩ := houtcome
        · exact .inl ⟨rfl, hh⟩
        · exact .inr ⟨o, rfl, ho⟩
    · intro a o hmem hno
      rw [hevents _ hmem] at hno
      cases hno
  · rw [hs, List.nil_append]
    exact (hretry again hr).adopt hevents
  · rw [hs, List.nil_append]
    exact good_error (Nat.succ_le_succ hn) hevents

theorem clean_run (hC : Clean C W) (left n : Nat) (keys : Option (List String))
    (hkeys : ∀ k, k ∈ C.activeKeys keys ↔ k ∈ C.activeKeys C.ensure_keys)
    (hm : n + left = C.max_retries) :
    Good C W (async_get_data C W left keys (issue n C.format) (n + 1)) := by
  induction left generalizing n keys with
  | zero =>
    cases hreply : W.reply n C.format with
    | error e =>
      rw [get_data_broken (issue n C.format) hreply]
      exact good_error (by omega) (List.forall_mem_nil _)
    | ok response =>
      rw [get_data_last (issue n C.format) hreply]
      exact settle_good hC (by omega) hkeys hreply nofun
  | succ left ih =>
    cases hreply : W.reply n C.format with
    | error e =>
      rw [get_data_broken (issue n C.format) hreply]
      exact good_error (by omega) (List.forall_mem_nil _)
    | ok response =>
      rw [get_data_settled (issue n C.format) hreply fun hd =>
        hC.parsed hd (by omega) n (by omega) response hreply]
      apply settle_good hC (by omega) hkeys hreply
      rintro again ⟨⟩
      apply ih (n + 1)
      · intro k
        rw [mem_activeKeys_again, hkeys]
      · omega

theorem Clean.keeps (hC : Clean C W) : Keeps C W := by
  apply Good.keeps
  exact clean_run hC C.max_retries 0 C.ensure_keys (fun _ => Iff.rfl) (Nat.zero_add _)

end

structure Unconstrained : Prop where
  keys : C.activeKeys C.ensure_keys = []
  ensure_all_keys : C.ensure_all_keys = false
  pydantic : C.pydantic = false
  handlers : C.validate_handlers = []

section

variable {C W}

theorem not_strict (h : C.ensure_all_keys = false) (format : PromptFormat) :
    C.is_strict_output_enabled format = false := by
  unfold Call.is_strict_output_enabled
  rw [h]
  rfl

theorem activeKeys_nil {keys : Option (List String)} (h : C.activeKeys keys = []) :
    C.activeKeys (some (C.activeKeys keys)) = [] := by
  rw [h]
  rfl

variable {result : ModelRequestResult}

theorem Unconstrained.settle (hU : Unconstrained C) {retry : Option (PromptFormat → Nat → Run)}
    (hnone : result.validate_outcome = none) (response : Response)
    (asked : Nat) (accepted : Option ModelRequestResult) (validated : List (Nat × Outcome)) :
    settle C W retry false [] result response asked accepted validated =
      ⟨.ok (C.dataOf response), asked, result, accepted, validated⟩ :=
  if_pos ⟨rfl, rfl, hU.pydantic, hU.handlers, hnone⟩

theorem Unconstrained.settled (hU : Unconstrained C) {asked : Nat}
    {response : Response} (hasked : result.request < asked)
    (hnone : result.validate_outcome = none)
    (hreply : W.reply result.request result.issued = .ok response)
    (hparsed : degradable result.format = true → response.parsed_result ≠ none) :
    Settled C W result asked (C.dataOf response) := by
  refine ⟨hasked, ?_, ⟨response, hreply, rfl, ?_, fun hd _ => hparsed hd⟩, .inl ⟨hnone, hU.handlers⟩⟩
  · rw [not_strict hU.ensure_all_keys, not_strict hU.ensure_all_keys]
  · refine ⟨?_, ?_, ?_, ?_⟩
    · intro hp
      rw [hU.pydantic] at hp
      cases hp
    · intro hs
      rw [not_strict hU.ensure_all_keys] at hs
      cases hs
    · rw [hU.keys]
      nofun
    · rw [hU.handlers]
      nofun

theorem Unconstrained.json_run (hU : Unconstrained C) (left n : Nat) :
    async_get_data C W left (some []) (issue n .json) (n + 1) =
      match W.reply n .json with
      | .error e => ⟨.error e, n + 1, issue n .json, none, []⟩
      | .ok response => ⟨.ok (C.dataOf response), n + 1, issue n .json, none, []⟩ := by
  have hsettle : ∀ retry response,
      Agently.Model.settle C W retry (C.is_strict_output_enabled .json) []
        (issue n .json) response (n + 1) none [] =
      ⟨.ok (C.dataOf response), n + 1, issue n .json, none, []⟩ := by
    intro retry response
    rw [not_strict hU.ensure_all_keys]
    exact hU.settle rfl response (n + 1) none []
  cases hreply : W.reply n .json with
  | error e => exact get_data_broken (issue n .json) hreply
  | ok response =>
    cases left with
    | zero => exact (get_data_last (issue n .json) hreply).trans (hsettle none response)
    | succ left => exact (get_data_settled (issue n .json) hreply not_degradable_json).trans (hsettle _ response)

theorem good_settled {data : Data} {asked : Nat}
    {accepted : Option ModelRequestResult} (hasked : asked ≤ C.max_retries + 1)
    (h : Settled C W (accepted.getD result) asked data) :
    Good C W ⟨.ok data, asked, result, accepted, []⟩ := by
  refine ⟨hasked, ?_, fun _ _ hmem => absurd hmem List.not_mem_nil⟩
  rintro _ ⟨⟩
  exact h

theorem Unconstrained.degraded_good (hU : Unconstrained C) {response : Response}
    {retry : PromptFormat → Nat → Run} (hm : C.max_retries ≠ 0)
    (hreply : W.reply 0 C.format = .ok response) (hnone : response.parsed_result = none) :
    Good C W (afterDegradation C W retry false [] { issue 0 C.format with format := .json }
      response (match W.reply 1 .json with
        | .error e => ⟨.error e, 2, issue 1 .json, none, []⟩
        | .ok response => ⟨.ok (C.dataOf response), 2, issue 1 .json, none, []⟩)) := by
  have hown : Settled C W { issue 0 C.format with format := .json } 2 (C.dataOf response) :=
    hU.settled (by decide : 0 < 2) rfl hreply nofun
  unfold afterDegradation
  cases hnested : W.reply 1 .json with
  | error e =>
    dsimp only
    split
    · rw [hU.settle rfl]
      exact good_settled (by omega) hown
    · exact good_error (by omega) (List.forall_mem_nil _)
  | ok response' =>
    have hjson : Settled C W (issue 1 .json) 2 (C.dataOf response') :=
      hU.settled (by decide : 1 < 2) rfl hnested nofun
    dsimp only
    split
    · rename_i hdata
      rw [hU.settle rfl]
      -- neither response is parsed, so both give the same data
      have hsame : C.dataOf response = C.dataOf response' := by
        unfold Call.dataOf at hdata ⊢
        cases htype : C.type with
        | all =>
          rw [htype] at hdata
          cases hdata
        | parsed =>
          rw [htype] at hdata
          rw [hnone]
          cases hp : response'.parsed_result with
          | none => rfl
          | some value =>
            rw [hp] at hdata
            cases hdata
      rw [hsame]
      exact good_settled (by omega) hjson
    · exact good_settled (show 2 ≤ _ by omega) hjson

theorem Unconstrained.good (hU : Unconstrained C) : Good C W (firstCall C W) := by
  unfold firstCall
  cases hm : C.max_retries with
  | zero =>
    have hC : Clean C W := by
      refine ⟨fun _ hne => absurd hm hne, fun hp => ?_⟩
      rw [hU.pydantic] at hp
      cases hp
    have hrun := clean_run hC C.max_retries 0 C.ensure_keys (fun _ => Iff.rfl) (Nat.zero_add _)
    rw [hm] at hrun
    exact hrun
  | succ left =>
    cases hreply : W.reply 0 C.format with
    | error e =>
      rw [get_data_broken (issue 0 C.format) hreply]
      exact good_error (by omega) (List.forall_mem_nil _)
    | ok response =>
      by_cases hd : degradable C.format = true ∧ response.parsed_result = none
      · rw [get_data_degraded (issue 0 C.format) hreply hd.1 hd.2]
        unfold retryOf
        rw [hU.keys, hU.json_run, not_strict hU.ensure_all_keys]
        exact hU.degraded_good (by omega) hreply hd.2
      · rw [get_data_settled (issue 0 C.format) hreply fun hdeg hnone =>
          hd ⟨hdeg, hnone⟩]
        rw [hU.keys, not_strict hU.ensure_all_keys, hU.settle rfl]
        apply good_settled (by omega)
        apply hU.settled Nat.zero_lt_one rfl hreply
        intro hdeg hnone
        exact hd ⟨hdeg, hnone⟩

end

/-- A pydantic model comes with a constraint that an unparsed response fails, and an
auto-resolved format that may be degraded with nothing a response could fail. -/
structure Sound : Prop where
  pydantic : C.pydantic = true →
    C.is_strict_output_enabled C.format = true ∨ C.activeKeys C.ensure_keys ≠ []
  degradation : degradable C.format = true → C.max_retries ≠ 0 →
    C.is_strict_output_enabled C.format = false ∧ C.activeKeys C.ensure_keys = [] ∧
      C.validate_handlers = []

def blank : Response := ⟨"", none, none, []⟩

def blankWorld (ok : Bool) : World :=
  ⟨fun _ _ => .ok blank, fun _ _ => .ok (.bool ok), fun _ _ => none⟩

def Demands (strict : Bool) (active : List String) : Prop :=
  active ≠ [] ∨ strict = true ∨ C.validate_handlers ≠ []

section

variable {C}

theorem is_strict_of_degradable {format : PromptFormat} (h : degradable format = true) :
    C.is_strict_output_enabled format = C.ensure_all_keys ∧
      C.is_strict_output_enabled .json = C.ensure_all_keys := by
  unfold degradable at h
  rw [Bool.and_eq_true] at h
  unfold Call.is_strict_output_enabled PromptFormat.json
  cases hf : format.output_format with
  | other name =>
    rw [hf] at h
    cases h.2
  | _ => exact ⟨Bool.and_true _, Bool.and_true _⟩

theorem blank_feedback : C.get_output_validation_feedback blank = [] := by
  unfold Call.get_output_validation_feedback
  split
  · rfl
  · rfl

variable {result : ModelRequestResult}

theorem blank_reply {ok : Bool} :
    (blankWorld ok).reply result.request result.issued = .ok blank := rfl

theorem runHandlers_blank_true (request index : Nat) (names : List (Option String)) :
    (runHandlers (blankWorld true) request index names).ok = true := by
  rw [runHandlers_ok_iff]
  intro i name _
  rfl

theorem runHandlers_blank_false (request : Nat) {names : List (Option String)}
    (h : names ≠ []) :
    (runHandlers (blankWorld false) request 0 names).ok = false ∧
      (runHandlers (blankWorld false) request 0 names).retryable = true ∧
      (runHandlers (blankWorld false) request 0 names).raise_value = none := by
  cases names with
  | nil => exact absurd rfl h
  | cons name rest => exact ⟨rfl, rfl, rfl⟩

variable {strict : Bool} {active : List String}

theorem constraintError_blank {ok : Bool} :
    (C.constraintError (blankWorld ok) strict active blank).isSome = false ↔
      strict = false ∧ active = [] := by
  rw [constraintError_isSome]
  constructor
  · rintro ⟨-, hstrict, hkeys⟩
    constructor
    · rw [← Bool.not_eq_true]
      intro hs
      exact (hstrict hs).1 rfl
    · rw [List.eq_nil_iff_forall_not_mem]
      intro key hk
      exact Bool.false_ne_true (hkeys key hk)
  · rintro ⟨rfl, rfl⟩
    exact ⟨blank_feedback, fun h => absurd h Bool.false_ne_true, List.forall_mem_nil _⟩

theorem validation_fault_exception {outcome : Outcome} (h : outcome.raise_value = none) :
    (build_validation_failure_exception outcome).exception = true := by
  unfold build_validation_failure_exception
  rw [h]
  dsimp only
  split
  · split
    · rfl
    · rfl
  · rfl

theorem Demands.handlers (hd : Demands C strict active) (hs : strict = false) (ha : active = []) :
    C.validate_handlers ≠ [] := by
  rcases hd with h | h | h
  · exact absurd ha h
  · rw [hs] at h
    cases h
  · exact h

theorem settle_blank_again (again : PromptFormat → Nat → Run)
    (hd : Demands C strict active) (result : ModelRequestResult)
    (hnone : result.validate_outcome = none) (asked : Nat)
    (accepted : Option ModelRequestResult) (validated : List (Nat × Outcome)) :
    ∃ result' validated',
      settle C (blankWorld false) (some again) strict active result blank asked accepted validated =
        (again result.format asked).adopt result' accepted validated' := by
  unfold settle
  rw [if_neg]
  · by_cases herr : (C.constraintError (blankWorld false) strict active blank).isSome = true
    · rw [if_pos herr]
      exact ⟨_, _, rfl⟩
    · rw [if_neg herr]
      obtain ⟨hs, ha⟩ := constraintError_blank.mp (by simpa using herr)
      have hh := hd.handlers hs ha
      obtain ⟨hok, hretry, -⟩ := runHandlers_blank_false result.request hh
      unfold run_validate_handlers_once
      rw [hnone]
      dsimp only
      rw [if_neg hh]
      dsimp only
      rw [hok, hretry]
      exact ⟨_, _, rfl⟩
  · rintro ⟨ha, hs, -, hh, -⟩
    exact hd.handlers hs ha hh

theorem settle_blank_last (hd : Demands C strict active)
    (hnone : result.validate_outcome = none) (asked : Nat) :
    (settle C (blankWorld false) none strict active result blank asked none []).asked = asked ∧
      ∃ e, (settle C (blankWorld false) none strict active result blank asked none []).answer =
        .error e ∧ e.exception = true := by
  unfold settle
  rw [if_neg]
  · by_cases herr : (C.constraintError (blankWorld false) strict active blank).isSome = true
    · rw [if_pos herr]
      refine ⟨rfl, _, rfl, ?_⟩
      unfold Call.constraintFault
      rw [if_neg (not_not.mpr blank_feedback)]
      rfl
    · rw [if_neg herr]
      obtain ⟨hs, ha⟩ := constraintError_blank.mp (by simpa using herr)
      have hh := hd.handlers hs ha
      obtain ⟨hok, -, hraise⟩ := runHandlers_blank_false result.request hh
      unfold run_validate_handlers_once
      rw [hnone]
      dsimp only
      rw [if_neg hh]
      dsimp only
      rw [hok]
      exact ⟨rfl, _, rfl, validation_fault_exception hraise⟩
  · rintro ⟨ha, hs, -, hh, -⟩
    exact hd.handlers hs ha hh

theorem Demands.again {keys : Option (List String)} (h : Demands C strict (C.activeKeys keys)) :
    Demands C strict (C.activeKeys (some (C.activeKeys keys))) := by
  rcases h with h | h
  · exact .inl fun hnil => h ((nil_iff_of_mem (mem_activeKeys_again keys)).mp hnil)
  · exact .inr h

theorem asked_adopt (r : Run) (result : ModelRequestResult)
    (accepted : Option ModelRequestResult) (validated : List (Nat × Outcome)) :
    (r.adopt result accepted validated).asked = r.asked ∧
      ∀ e, r.answer = .error e → (r.adopt result accepted validated).answer = .error e := by
  unfold Run.adopt
  cases hr : r.answer with
  | ok data => exact ⟨rfl, fun e h => by cases h⟩
  | error e' => exact ⟨rfl, fun e h => h⟩

theorem refused_run (left n : Nat) (keys : Option (List String))
    (hd : Demands C (C.is_strict_output_enabled .json) (C.activeKeys keys)) :
    (async_get_data C (blankWorld false) left keys (issue n .json) (n + 1)).asked =
        n + 1 + left ∧
      ∃ e, (async_get_data C (blankWorld false) left keys (issue n .json) (n + 1)).answer =
        .error e ∧ e.exception = true := by
  induction left generalizing n keys with
  | zero => exact settle_blank_last hd rfl (n + 1)
  | succ left ih =>
    obtain ⟨hasked, e, he, hexc⟩ := ih (n + 1) (some (C.activeKeys keys)) hd.again
    rw [get_data_settled (issue n .json) blank_reply not_degradable_json]
    obtain ⟨result', validated', hs⟩ := settle_blank_again
      (retryOf C (blankWorld false) left keys) hd (issue n .json) rfl (n + 1) none []
    obtain ⟨hadopt, herror⟩ := asked_adopt
      (retryOf C (blankWorld false) left keys .json (n + 1)) result' none validated'
    have hagain : settle C (blankWorld false) (some (retryOf C (blankWorld false) left keys))
        (C.is_strict_output_enabled (issue n .json).format) (C.activeKeys keys) (issue n .json)
        blank (n + 1) none [] =
          (retryOf C (blankWorld false) left keys .json (n + 1)).adopt result' none validated' :=
      hs
    rw [hagain, hadopt]
    exact ⟨hasked.trans (by omega), e, herror e he, hexc⟩

theorem degraded_exceeds {left : Nat} (hm : C.max_retries = left + 1)
    (hdeg : degradable C.format = true)
    (hd : Demands C (C.is_strict_output_enabled C.format) (C.activeKeys C.ensure_keys)) :
    C.max_retries + 1 < (firstCall C (blankWorld false)).asked := by
  obtain ⟨hf, hj⟩ := is_strict_of_degradable (C := C) hdeg
  have hd' : Demands C (C.is_strict_output_enabled .json)
      (C.activeKeys (some (C.activeKeys C.ensure_keys))) := by
    rw [hj, ← hf]
    exact hd.again
  obtain ⟨hasked, e, he, hexc⟩ := refused_run left 1 _ hd'
  obtain ⟨hasked', -⟩ := refused_run left (1 + 1 + left) _ hd'
  obtain ⟨result', validated', hs⟩ := settle_blank_again
    (retryOf C (blankWorld false) left C.ensure_keys) hd
    { issue 0 C.format with format := .json } rfl (1 + 1 + left) none
    (retryOf C (blankWorld false) left C.ensure_keys .json 1).validated
  have hrun : (firstCall C (blankWorld false)).asked =
      (retryOf C (blankWorld false) left C.ensure_keys .json (1 + 1 + left)).asked := by
    have hnested : (retryOf C (blankWorld false) left C.ensure_keys .json 1).asked = 1 + 1 + left :=
      hasked
    have hanswer : (retryOf C (blankWorld false) left C.ensure_keys .json 1).answer = .error e := he
    unfold firstCall
    rw [hm, get_data_degraded (issue 0 C.format) blank_reply hdeg rfl]
    unfold afterDegradation
    rw [hanswer]
    dsimp only
    rw [if_pos hexc, hnested]
    exact (congrArg Run.asked hs).trans (asked_adopt _ _ _ _).1
  rw [hrun, hm]
  exact (show left + 1 + 1 < 1 + 1 + left + 1 + left by omega).trans_eq hasked'.symm

theorem hollow_settle {retry : Option (PromptFormat → Nat → Run)}
    (hnone : result.validate_outcome = none) (asked : Nat)
    (accepted : Option ModelRequestResult) (validated : List (Nat × Outcome)) :
    (settle C (blankWorld true) retry false [] result blank asked accepted validated).answer =
      .ok (C.dataOf blank) := by
  unfold settle
  split
  · rfl
  · rw [constraintError_blank.mpr ⟨rfl, rfl⟩, if_neg Bool.false_ne_true]
    unfold run_validate_handlers_once
    rw [hnone]
    dsimp only
    split
    · rfl
    · rename_i outcome houtcome
      have hok : outcome.ok = true := by
        split at houtcome
        · cases houtcome
        · cases houtcome
          exact runHandlers_blank_true _ _ _
      rw [if_pos hok]

theorem hollow_run (left n : Nat) (keys : Option (List String)) (format : PromptFormat)
    (hkeys : C.activeKeys keys = [])
    (hstrict : C.is_strict_output_enabled format = false) :
    (async_get_data C (blankWorld true) left keys (issue n format) (n + 1)).answer =
      .ok (C.dataOf blank) := by
  induction left generalizing n keys format with
  | zero =>
    rw [get_data_last (issue n format) blank_reply, hkeys]
    show (settle C (blankWorld true) _ (C.is_strict_output_enabled format) _ _ _ _ _ _).answer = _
    rw [hstrict]
    exact hollow_settle rfl _ _ _
  | succ left ih =>
    by_cases hdeg : degradable format = true
    · rw [get_data_degraded (issue n format) blank_reply hdeg rfl, hkeys]
      obtain ⟨hf, hj⟩ := is_strict_of_degradable (C := C) hdeg
      have hnested : (retryOf C (blankWorld true) left keys .json (n + 1)).answer =
          .ok (C.dataOf blank) := by
        apply ih (n + 1) _ .json (activeKeys_nil hkeys)
        rw [hj, ← hf]
        exact hstrict
      unfold afterDegradation
      rw [hnested]
      dsimp only
      split
      · show (settle C (blankWorld true) _ (C.is_strict_output_enabled format) _ _ _ _ _
          _).answer = _
        rw [hstrict]
        exact hollow_settle rfl _ _ _
      · unfold Run.adopt
        rw [hnested]
    · rw [get_data_settled (issue n format) blank_reply fun h => absurd h hdeg]
      show (settle C (blankWorld true) _ (C.is_strict_output_enabled format) _ _ _ _ _
        _).answer = _
      rw [hkeys, hstrict]
      exact hollow_settle rfl _ _ _

end

def autoCall : Call :=
  ⟨.parsed, ⟨.flat_markdown, true⟩, [], false, false, [], some ["title"], 1⟩

theorem autoCall_exceeds : ¬ Keeps autoCall (blankWorld false) := by
  intro h
  exact absurd h.bounded (by decide)

/-- A call keeps its retry bound and its contract for every sequence of responses exactly when
it is sound, and else at least where no attempt is degraded and what is declared is parsed. -/
theorem keeps_iff_sound :
    ((∀ W, Keeps C W) ↔ Sound C) ∧ ∀ W, Clean C W → Keeps C W := by
  refine ⟨⟨?_, ?_⟩, fun W hC => hC.keeps⟩
  · intro hall
    constructor
    · intro hp
      by_contra hno
      rw [not_or, Bool.not_eq_true, not_not] at hno
      have hanswer := hollow_run C.max_retries 0 C.ensure_keys C.format hno.2 hno.1
      obtain ⟨request, format, response, -, hreply, -, hmeets⟩ :=
        (hall (blankWorld true)).satisfied _ hanswer
      cases hreply
      exact (hmeets.pydantic hp).1 rfl
    · intro hdeg hm
      obtain ⟨left, hleft⟩ := Nat.exists_eq_succ_of_ne_zero hm
      by_contra hno
      have hd : Demands C (C.is_strict_output_enabled C.format) (C.activeKeys C.ensure_keys) := by
        by_contra hnone
        unfold Demands at hnone
        rw [not_or, not_or, not_not, Bool.not_eq_true, not_not] at hnone
        exact hno ⟨hnone.2.1, hnone.1, hnone.2.2⟩
      have hbound := (hall (blankWorld false)).bounded
      have hexceeds := degraded_exceeds hleft hdeg hd
      omega
  · intro hS W
    by_cases hdeg : degradable C.format = true ∧ C.max_retries ≠ 0
    · obtain ⟨hstrict, hkeys, hh⟩ := hS.degradation hdeg.1 hdeg.2
      have hp : C.pydantic = false := by
        rw [← Bool.not_eq_true]
        intro hp
        rcases hS.pydantic hp with h | h
        · rw [hstrict] at h
          cases h
        · exact h hkeys
      have hU : Unconstrained C :=
        ⟨hkeys, by rw [← (is_strict_of_degradable (C := C) hdeg.1).1]; exact hstrict, hp, hh⟩
      exact hU.good.keeps
    · apply Clean.keeps
      constructor
      · intro hd hm
        exact absurd ⟨hd, hm⟩ hdeg
      · intro hp hs hk
        rcases hS.pydantic hp with h | h
        · rw [hs] at h
          cases h
        · exact absurd hk h

end Agently.Model
