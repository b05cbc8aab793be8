import Agently.Storage.RuntimeEvents

/-! # The log of an execution

The table only grows, the events of an execution carry the numbers from one on in the order in
which they were appended, and a key is used once. -/

namespace Agently.Storage.RuntimeEvents

open Agently.Lib Agently.Utils Agently.Storage.LocalRecordStore

def ofExecution (execution_id : String) (rows : List EventRow) : List EventRow :=
  rows.filter fun row => row.execution_id = execution_id

def numbers (n : Nat) : List Int := (List.range n).map fun i : Nat => (i : Int) + 1

def Numbered (rows : List EventRow) : Prop :=
  ∀ execution_id, (ofExecution execution_id rows).map EventRow.sequence =
    numbers (ofExecution execution_id rows).length

def Under (execution_id key : String) (row : EventRow) : Prop :=
  row.execution_id = execution_id ∧ row.idempotency_key = some key

instance (execution_id key : String) (row : EventRow) : Decidable (Under execution_id key row) :=
  inferInstanceAs (Decidable (_ ∧ _))

def OncePerKey (rows : List EventRow) : Prop :=
  ∀ execution_id key, (rows.filter fun row => decide (Under execution_id key row)).length ≤ 1

inductive Served (call : Prepared) (before after : List EventRow) : Answer → Prop
  /-- the key was used before: the event stored under it -/
  | repeated (key : String) (row : EventRow) (hkey : call.idempotency_key = some key)
      (hrow : row ∈ before) (hunder : Under call.execution_id key row) (hsame : after = before) :
      Served call before after (.stored (row_to_runtime_event row))
  | rejected (e : StoreError)
      (hnew : ∀ key, call.idempotency_key = some key →
        ∀ row ∈ before, ¬ Under call.execution_id key row) (hsame : after = before) :
      Served call before after (.failed e)
  | appended (row : EventRow)
      (hnew : ∀ key, call.idempotency_key = some key →
        ∀ other ∈ before, ¬ Under call.execution_id key other)
      (hid : row.execution_id = call.execution_id) (hkey : row.idempotency_key = call.idempotency_key)
      (hnext : row.sequence = (ofExecution call.execution_id before).length + 1)
      (hadded : after = before ++ [row]) :
      Served call before after (.stored (row_to_runtime_event row))

theorem numbers_succ (n : Nat) : numbers (n + 1) = numbers n ++ [(n : Int) + 1] := by
  simp [numbers, List.range_succ]

theorem foldl_max_numbers (n : Nat) : (numbers n).foldl max 0 = n := by
  induction n with
  | zero => rfl
  | succ n ih =>
    rw [numbers_succ, List.foldl_append, ih]
    simp only [List.foldl_cons, List.foldl_nil]
    omega

theorem numbers_sorted (n : Nat) : (numbers n).Pairwise (· ≤ ·) := by
  rw [numbers, List.pairwise_map]
  refine List.pairwise_lt_range.imp ?_
  intro i j hij
  omega

variable {rows : List EventRow}

theorem Numbered.max_sequence (h : Numbered rows) (execution_id : String) :
    max_sequence rows execution_id = (ofExecution execution_id rows).length := by
  unfold RuntimeEvents.max_sequence
  have hn := h execution_id
  unfold ofExecution at hn ⊢
  rw [hn, foldl_max_numbers]

theorem Numbered.sorted (h : Numbered rows) (execution_id : String) :
    (ofExecution execution_id rows).Pairwise fun r t => r.sequence ≤ t.sequence := by
  have hs := numbers_sorted (ofExecution execution_id rows).length
  rw [← h execution_id, List.pairwise_map] at hs
  exact hs

theorem ofExecution_append (execution_id : String) (rows : List EventRow) (row : EventRow) :
    ofExecution execution_id (rows ++ [row]) =
      if row.execution_id = execution_id then ofExecution execution_id rows ++ [row]
      else ofExecution execution_id rows := by
  unfold ofExecution
  rw [List.filter_append]
  by_cases h : row.execution_id = execution_id <;> simp [h]

theorem Numbered.sequence_get (h : Numbered rows) {execution_id : String} {i : Nat} {row : EventRow}
    (hi : (ofExecution execution_id rows)[i]? = some row) : row.sequence = (i : Int) + 1 := by
  have hn := congrArg (fun xs : List Int => xs[i]?) (h execution_id)
  obtain ⟨hlen, -⟩ := List.getElem?_eq_some_iff.mp hi
  simp only [List.getElem?_map, hi, numbers, List.getElem?_range hlen, Option.map_some] at hn
  exact Option.some.inj hn

/-- From a number on, a list numbered from one is what follows that many rows. -/
theorem filter_from {rows : List EventRow} (k : Nat)
    (h : ∀ (i : Nat) row, rows[i]? = some row → row.sequence = (i : Int) + 1) :
    rows.filter (fun row => (k : Int) + 1 ≤ row.sequence) = rows.drop k := by
  conv_lhs => rw [← List.take_append_drop k rows]
  rw [List.filter_append, List.filter_eq_nil_iff.mpr, List.filter_eq_self.mpr, List.nil_append]
  · intro row hrow
    obtain ⟨i, hi⟩ := List.mem_iff_getElem?.mp hrow
    rw [List.getElem?_drop] at hi
    have := h _ row hi
    simp only [decide_eq_true_eq]
    omega
  · intro row hrow
    obtain ⟨i, hi⟩ := List.mem_iff_getElem?.mp hrow
    have hik : i < k := by
      by_contra hge
      simp [hge] at hi
    rw [List.getElem?_take_of_lt hik] at hi
    have := h i row hi
    simp only [decide_eq_true_eq]
    omega

theorem Numbered.append (h : Numbered rows) {row : EventRow}
    (hn : row.sequence = (ofExecution row.execution_id rows).length + 1) :
    Numbered (rows ++ [row]) := by
  intro execution_id
  rw [ofExecution_append]
  by_cases he : row.execution_id = execution_id
  · subst he
    rw [if_pos rfl, List.map_append, h row.execution_id, List.length_append, List.length_singleton,
      numbers_succ]
    simp [hn]
  · rw [if_neg he]
    exact h execution_id

theorem OncePerKey.append (h : OncePerKey rows) {row : EventRow}
    (hnew : ∀ key, row.idempotency_key = some key →
      ∀ other ∈ rows, ¬ Under row.execution_id key other) :
    OncePerKey (rows ++ [row]) := by
  intro execution_id key
  rw [List.filter_append, List.length_append]
  by_cases hu : Under execution_id key row
  · obtain ⟨rfl, hk⟩ := hu
    have hnone : (rows.filter fun other => decide (Under row.execution_id key other)) = [] := by
      apply List.filter_eq_nil_iff.mpr
      intro other ho
      simpa using hnew key hk other ho
    rw [hnone]
    have hlen := List.length_filter_le (fun other => decide (Under row.execution_id key other)) [row]
    simpa using hlen
  · have hone : ([row].filter fun other => decide (Under execution_id key other)) = [] := by
      simp [hu]
    rw [hone]
    simpa using h execution_id key

variable {call : Prepared} {before after : List EventRow}

theorem Served.keeps {answer : Answer}
    (h : Served call before after answer) (hn : Numbered before) (ho : OncePerKey before) :
    Numbered after ∧ OncePerKey after := by
  cases h with
  | repeated key row hkey hrow hunder hsame =>
    rw [hsame]
    exact ⟨hn, ho⟩
  | rejected e hnew hsame =>
    rw [hsame]
    exact ⟨hn, ho⟩
  | appended row hnew hid hkey hnext hadded =>
    rw [hadded]
    rw [← hid] at hnext
    refine ⟨hn.append hnext, ho.append ?_⟩
    intro key hk other hother
    rw [hid]
    exact hnew key (hkey ▸ hk) other hother

theorem Served.grows {answer : Answer}
    (h : Served call before after answer) : before <+: after := by
  cases h with
  | repeated key row hkey hrow hunder hsame => exact hsame ▸ List.prefix_rfl
  | rejected e hnew hsame => exact hsame ▸ List.prefix_rfl
  | appended row hnew hid hkey hnext hadded =>
    rw [hadded]
    exact List.prefix_append _ _

theorem Served.rejected_rows {e : StoreError}
    (h : Served call before after (.failed e)) : after = before := by
  cases h with
  | rejected e hnew hsame => exact hsame

section Host

variable (b : Builtins) (textOfFloat : FloatText → String)

theorem eq_of_bind_int {n m : Int} (h : bind_int n = .ok m) : m = n := by
  unfold bind_int at h
  split at h
  · injection h with h
    exact h.symm
  · cases h

theorem bind_row_ok {call : Prepared} {sequence : Int} {drawn : Drawn} {row : EventRow}
    (h : bind_row b textOfFloat call sequence drawn = .ok row) :
    row.execution_id = call.execution_id ∧ row.idempotency_key = call.idempotency_key ∧
      row.sequence = sequence := by
  unfold bind_row at h
  cases hs : bind_int sequence with
  | error e =>
    rw [hs] at h
    cases h
  | ok n =>
    have hn := eq_of_bind_int hs
    subst hn
    rw [hs] at h
    generalize bind_optional_int call.state_version = version at h
    cases version with
    | error e => cases h
    | ok version =>
      generalize bind_lineage textOfFloat
        (lineage_values b call.lineage (meta_of call.event_data)) = lineage at h
      cases lineage with
      | error e => cases h
      | ok lineage =>
        injection h with h
        subst h
        exact ⟨rfl, rfl, rfl⟩

theorem append_rows_served {rows : List EventRow} (hn : Numbered rows) (call : Prepared)
    (drawn : Drawn) :
    match append_rows b textOfFloat rows call drawn with
    | .error e => Served call rows rows (.failed e)
    | .ok (event, none) => Served call rows rows (.stored event)
    | .ok (event, some row) => Served call rows (rows ++ [row]) (.stored event) := by
  unfold append_rows
  cases hf : rows.find? fun row => call.idempotency_key.isSome &&
      row.execution_id = call.execution_id && row.idempotency_key = call.idempotency_key with
  | some duplicate =>
    have hp := List.find?_some hf
    simp only [Bool.and_eq_true, decide_eq_true_eq] at hp
    obtain ⟨⟨hsome, hid⟩, hkey⟩ := hp
    obtain ⟨key, hk⟩ := Option.isSome_iff_exists.mp hsome
    exact .repeated key duplicate hk (List.mem_of_find?_eq_some hf) ⟨hid, hkey.trans hk⟩ rfl
  | none =>
    have hnew : ∀ key, call.idempotency_key = some key →
        ∀ row ∈ rows, ¬ Under call.execution_id key row := by
      intro key hk row hrow hu
      have hno := List.find?_eq_none.mp hf row hrow
      rw [hk] at hno
      exact hno (by simp [hu.1, hu.2])
    simp only
    by_cases hexp : (call.expected_sequence.any fun n =>
        decide (n ≠ max_sequence rows call.execution_id + 1)) = true
    · rw [if_pos hexp]
      exact .rejected _ hnew rfl
    · rw [if_neg hexp]
      by_cases hseq : call.sequence.getD (max_sequence rows call.execution_id + 1) =
          max_sequence rows call.execution_id + 1
      · rw [if_neg (not_not.mpr hseq)]
        cases hb : bind_row b textOfFloat call
          (call.sequence.getD (max_sequence rows call.execution_id + 1)) drawn with
        | error e => exact .rejected _ hnew rfl
        | ok row =>
          simp only
          by_cases hc : rows.any (clashes row) = true
          · rw [if_pos hc]
            exact .rejected _ hnew rfl
          · rw [if_neg hc]
            obtain ⟨hid, hkey, hnum⟩ := bind_row_ok b textOfFloat hb
            rw [hseq, hn.max_sequence] at hnum
            exact .appended row hnew hid hkey hnum rfl
      · rw [if_pos hseq]
        exact .rejected _ hnew rfl

/-- The store of a reached state: a good table, in a database that can be written once the
table has a row. -/
structure LogInv (s : Store) : Prop where
  numbered : Numbered s.rows
  once : OncePerKey s.rows
  opened : s.rows ≠ [] → s.db_exists = true ∧ s.read_only = false

theorem check_write_of {d : Database} (h : d.db_exists = true ∧ d.read_only = false) :
    check_write d = .ok () := by
  unfold check_write
  simp [h.1, h.2]

theorem not_read_only {d : Database} (h : check_write d = .ok ()) : d.read_only = false := by
  unfold check_write at h
  split at h
  · cases h
  · next hr => simpa using hr

theorem LogInv.served {s : Store} (h : LogInv s) (call : Prepared) (drawn : Drawn) :
    Served call s.rows (append_runtime_event b textOfFloat s call drawn).1.rows
      (append_runtime_event b textOfFloat s call drawn).2 := by
  have hs := append_rows_served b textOfFloat h.numbered call drawn
  unfold append_runtime_event
  cases hc : check_write s.toDatabase with
  | error e =>
    refine .rejected e ?_ rfl
    intro key _ row hrow _
    -- a table with a row stands in a database that can be written
    rw [check_write_of (h.opened (List.ne_nil_of_mem hrow))] at hc
    cases hc
  | ok _ =>
    simp only
    cases hr : append_rows b textOfFloat s.rows call drawn with
    | error e =>
      rw [hr] at hs
      exact hs
    | ok done =>
      obtain ⟨event, added⟩ := done
      rw [hr] at hs
      cases added with
      | none => exact hs
      | some row => exact hs

theorem append_runtime_event_database (s : Store) (call : Prepared) (drawn : Drawn) :
    append_runtime_event b textOfFloat s call drawn =
        (s, (append_runtime_event b textOfFloat s call drawn).2) ∨
      (append_runtime_event b textOfFloat s call drawn).1.db_exists = true ∧
        (append_runtime_event b textOfFloat s call drawn).1.read_only = false := by
  unfold append_runtime_event
  cases hc : check_write s.toDatabase with
  | error e => exact Or.inl rfl
  | ok _ =>
    have hr := not_read_only hc
    refine Or.inr ?_
    simp only
    split
    · exact ⟨rfl, hr⟩
    · exact ⟨rfl, hr⟩
    · exact ⟨rfl, hr⟩

theorem LogInv.append {s : Store} (h : LogInv s) (call : Prepared) (drawn : Drawn) :
    LogInv (append_runtime_event b textOfFloat s call drawn).1 := by
  obtain ⟨hn, ho⟩ := (h.served b textOfFloat call drawn).keeps h.numbered h.once
  refine ⟨hn, ho, ?_⟩
  intro hne
  rcases append_runtime_event_database b textOfFloat s call drawn with he | hd
  · rw [he] at hne ⊢
    exact h.opened hne
  · exact hd

variable {Ref : Type}

variable {s t : State Ref} {a : Action Ref}

theorem step_store (hs : step b textOfFloat s a = some t) :
    t.store = s.store ∨ ∃ index drawn call, a = .serve index drawn ∧
      s.waiting[index]? = some call ∧
      t.store = (append_runtime_event b textOfFloat s.store call drawn).1 ∧
      t.answers = (append_runtime_event b textOfFloat s.store call drawn).2 :: s.answers := by
  cases a with
  | call call =>
    injection hs with hs
    subst hs
    exact Or.inl rfl
  | resolved index snapshot artifacts =>
    simp only [step] at hs
    split at hs
    · cases hs
    · injection hs with hs
      subst hs
      exact Or.inl rfl
  | unresolved index error =>
    injection hs with hs
    subst hs
    exact Or.inl rfl
  | serve index drawn =>
    simp only [step] at hs
    split at hs
    · cases hs
    · next call hcall =>
      injection hs with hs
      subst hs
      exact Or.inr ⟨index, drawn, call, rfl, hcall, rfl, rfl⟩
  | cancel index =>
    injection hs with hs
    subst hs
    exact Or.inl rfl

theorem logInv_step (h : LogInv s.store)
    (hs : step b textOfFloat s a = some t) : LogInv t.store := by
  rcases step_store b textOfFloat hs with he | ⟨index, drawn, call, -, -, he, -⟩
  · rw [he]
    exact h
  · rw [he]
    exact h.append b textOfFloat call drawn

theorem logInv_run {as : List (Action Ref)} (h : LogInv s.store)
    (hr : (eventRun b textOfFloat).run s as = some t) : LogInv t.store :=
  (eventRun b textOfFloat).run_invariant (I := fun s => LogInv s.store)
    (fun _ _ _ h hs => logInv_step b textOfFloat h hs) h hr

theorem rows_grow_step (h : LogInv s.store)
    (hs : step b textOfFloat s a = some t) : s.store.rows <+: t.store.rows := by
  rcases step_store b textOfFloat hs with he | ⟨index, drawn, call, -, -, he, -⟩
  · exact he ▸ List.prefix_rfl
  · rw [he]
    exact (h.served b textOfFloat call drawn).grows

theorem rows_grow {as : List (Action Ref)} (h : LogInv s.store)
    (hr : (eventRun b textOfFloat).run s as = some t) : s.store.rows <+: t.store.rows := by
  have hboth : LogInv t.store ∧ s.store.rows <+: t.store.rows :=
    (eventRun b textOfFloat).run_invariant
      (I := fun u => LogInv u.store ∧ s.store.rows <+: u.store.rows)
      (fun _ _ _ hu hs => ⟨logInv_step b textOfFloat hu.1 hs,
        hu.2.trans (rows_grow_step b textOfFloat hu.1 hs)⟩)
      ⟨h, List.prefix_rfl⟩ hr
  exact hboth.2

theorem rows_of_failed (h : LogInv s.store) (hs : step b textOfFloat s a = some t) {e : StoreError}
    (hf : t.answers = .failed e :: s.answers) : t.store.rows = s.store.rows := by
  rcases step_store b textOfFloat hs with he | ⟨index, drawn, call, -, -, he, ha⟩
  · rw [he]
  · have hserved := h.served b textOfFloat call drawn
    rw [hf] at ha
    injection ha with ha _
    rw [← ha] at hserved
    rw [he]
    exact hserved.rejected_rows

/-- SQLite can hold every number of the query, and its limit is not negative. -/
structure Query.Fits (q : Query) : Prop where
  limit : ∀ n, q.limit = some n → 0 ≤ n
  bounds : ∀ n, q.sequence_from = some n ∨ q.sequence_to = some n ∨ q.limit = some n →
    bind_int n = .ok n

theorem bind_optional_int_of {n : Option Int} (h : ∀ m, n = some m → bind_int m = .ok m) :
    bind_optional_int n = .ok n := by
  cases n with
  | none => rfl
  | some m =>
    simp only [bind_optional_int, h m rfl]
    rfl

theorem Numbered.query_sorted {rows : List EventRow} (h : Numbered rows) (q : Query) :
    (rows.filter q.selects).insertionSort (fun r t => r.sequence ≤ t.sequence) =
      rows.filter q.selects := by
  have hsub : rows.filter q.selects = (ofExecution q.execution_id rows).filter q.selects := by
    unfold ofExecution
    rw [List.filter_filter]
    apply List.filter_congr
    intro row _
    unfold Query.selects
    cases hid : decide (row.execution_id = q.execution_id) <;> simp
  rw [hsub]
  exact List.Pairwise.insertionSort_eq ((h.sorted q.execution_id).filter _)

theorem query_eq {s : Store} (h : LogInv s) {q : Query} (hq : q.Fits) :
    query_runtime_events s q =
      .ok ((limited q.limit (s.rows.filter q.selects)).map row_to_runtime_event) := by
  have hlimit : ¬ (q.limit.any fun n => decide (n < 0)) = true := by
    cases hl : q.limit with
    | none => simp
    | some n =>
      have h0 := hq.limit n hl
      simp only [Option.any_some, decide_eq_true_eq]
      omega
  have hnone : ∀ rows : List EventRow, rows = [] →
      (Except.ok [] : Except StoreError (List EventRow)) =
        .ok ((limited q.limit (rows.filter q.selects)).map row_to_runtime_event) := by
    intro rows hrows
    subst hrows
    unfold limited
    cases q.limit <;> simp
  unfold query_runtime_events
  rw [if_neg hlimit]
  by_cases hd : s.db_exists = true
  · rw [if_neg (by simp [hd])]
    cases he : s.runtime_events with
    | none =>
      apply hnone
      unfold Store.rows
      rw [he]
      rfl
    | some rows =>
      have hrows : s.rows = rows := by
        unfold Store.rows
        rw [he]
        rfl
      have hsort := h.numbered.query_sorted q
      rw [hrows] at hsort ⊢
      simp only [hsort, bind_optional_int_of fun m hm => hq.bounds m (Or.inl hm),
        bind_optional_int_of fun m hm => hq.bounds m (Or.inr (Or.inl hm)),
        bind_optional_int_of fun m hm => hq.bounds m (Or.inr (Or.inr hm))]
      rfl
  · rw [if_pos (by simp [hd])]
    apply hnone
    by_contra hne
    exact hd (h.opened hne).1

theorem start_logInv (database : Database) : LogInv (start database : State Ref).store where
  numbered := by
    intro execution_id
    rfl
  once := by
    intro execution_id key
    exact Nat.zero_le 1
  opened := by
    intro hne
    exact absurd rfl hne

theorem query_page {s : Store} (h : LogInv s) {q : Query} {page : List EventRow}
    (hp : query_runtime_events s q = .ok page) :
    page = (limited q.limit (s.rows.filter q.selects)).map row_to_runtime_event := by
  have hnone : s.rows = [] → [] = page →
      page = (limited q.limit (s.rows.filter q.selects)).map row_to_runtime_event := by
    intro hrows hpage
    rw [hrows, ← hpage]
    unfold limited
    cases q.limit <;> simp
  unfold query_runtime_events at hp
  split at hp
  · cases hp
  · split at hp
    · rename_i hd
      refine hnone ?_ (Except.ok.inj hp)
      by_contra hne
      simp [(h.opened hne).1] at hd
    · split at hp
      · rename_i he
        refine hnone ?_ (Except.ok.inj hp)
        unfold Store.rows
        rw [he]
        rfl
      · rename_i rows he
        have hrows : s.rows = rows := by
          unfold Store.rows
          rw [he]
          rfl
        have hsort := h.numbered.query_sorted q
        rw [hrows] at hsort ⊢
        simp only [bind, Except.bind, pure, Except.pure, hsort] at hp
        split at hp
        · cases hp
        · split at hp
          · cases hp
          · split at hp
            · cases hp
            · exact (Except.ok.inj hp).symm

def pageAfter (execution_id : String) (k n : Nat) : Query :=
  { execution_id := execution_id, sequence_from := some (k + 1), limit := some n }

/-- A reader that asks, between the steps of the log, for the events after those it has. -/
def follow (execution_id : String) (s : State Ref) (k : Nat) :
    List (List (Action Ref) × Nat) → Option (List EventRow × State Ref)
  | [] => some ([], s)
  | (as, n) :: polls => do
    let t ← (eventRun b textOfFloat).run s as
    let page ← (query_runtime_events t.store (pageAfter execution_id k n)).toOption
    let (pages, u) ← follow execution_id t (k + page.length) polls
    pure (page ++ pages, u)

theorem selects_pageAfter (execution_id : String) (k n : Nat) (rows : List EventRow) :
    rows.filter (pageAfter execution_id k n).selects =
      (ofExecution execution_id rows).filter fun row => (k : Int) + 1 ≤ row.sequence := by
  unfold ofExecution
  rw [List.filter_filter]
  apply List.filter_congr
  intro row _
  simp only [Query.selects, pageAfter, Option.all_some, Option.all_none, Bool.and_true]
  exact Bool.and_comm _ _

theorem follow_from {execution_id : String} {polls : List (List (Action Ref) × Nat)} :
    ∀ {s t : State Ref} {k : Nat} {events : List EventRow}, LogInv s.store →
      follow b textOfFloat execution_id s k polls = some (events, t) →
      s.store.rows <+: t.store.rows ∧
        events <+: ((ofExecution execution_id t.store.rows).drop k).map row_to_runtime_event := by
  induction polls with
  | nil =>
    intro s t k events _ hr
    simp only [follow, Option.some.injEq, Prod.mk.injEq] at hr
    rw [← hr.1, ← hr.2]
    exact ⟨List.prefix_rfl, List.nil_prefix⟩
  | cons poll polls ih =>
    intro s t k events h hr
    simp only [follow, Option.bind_eq_bind, Option.bind_eq_some_iff, Option.pure_def,
      Option.some.injEq, Prod.mk.injEq, Prod.exists] at hr
    obtain ⟨u, hu, page, hpage, pages, w, hrest, rfl, rfl⟩ := hr
    have hu' : LogInv u.store := logInv_run b textOfFloat h hu
    obtain ⟨hgrow, hpages⟩ := ih hu' hrest
    refine ⟨(rows_grow b textOfFloat h hu).trans hgrow, ?_⟩
    have hpre : page <+:
        ((ofExecution execution_id w.store.rows).drop k).map row_to_runtime_event := by
      cases hq : query_runtime_events u.store (pageAfter execution_id k poll.2) with
      | error e => simp [hq, Except.toOption] at hpage
      | ok found =>
        have hfound : found = page := by simpa [hq, Except.toOption] using hpage
        rw [← hfound, query_page hu' hq, selects_pageAfter,
          filter_from k fun i row hi => hu'.numbered.sequence_get hi]
        exact ((List.take_prefix _ _).trans (List.IsPrefix.drop (hgrow.filter _) k)).map _
    obtain ⟨rest, hrest⟩ := hpre
    rw [← List.drop_drop, List.map_drop, ← hrest, List.drop_left] at hpages
    rw [← hrest]
    exact (List.prefix_append_right_inj page).mpr hpages

end Host

def hostBuiltins : Builtins :=
  { floatValue := fun _ => 0
    intOfText := String.toInt?
    floatOfText := fun s => (String.toInt? s).map fun n => .finite n
    nearestFloat := fun n => n
    reprOf := fun _ => ⟨"{..}", by simp⟩ }

def noLineage : Lineage (Option String) :=
  ⟨none, none, none, none, none, none, none, none, none, none⟩

def keyed : Append Unit :=
  { execution_id := "e", event := [], idempotency_key := some "k", lineage := noLineage }

def keyedTwice : List (Action Unit) :=
  [.call keyed, .resolved 0 none [], .call keyed, .resolved 0 none [], .serve 0 ⟨"1", "2", "t", "t"⟩]

def firstEvent : EventRow :=
  { id := "evt_1", execution_id := "e", sequence := 1, event_id := "2",
    event_type := "runtime.event", state_version := none, idempotency_key := some "k",
    lineage := noLineage, snapshot_ref := none, exchange_id := none, artifact_refs := [],
    event := [], created_at := "t", persisted_at := some "t" }

def onceServed : State Unit :=
  { store := { db_exists := true, runtime_events := some [firstEvent] }
    resolving := []
    waiting := [prepare keyed none []]
    answers := [.stored firstEvent] }

theorem keyedTwice_run :
    (eventRun hostBuiltins fun _ => "").run (start {}) keyedTwice = some onceServed := by
  rfl

end Agently.Storage.RuntimeEvents
