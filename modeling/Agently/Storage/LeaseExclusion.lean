import Mathlib.Data.List.Nodup
import Mathlib.Order.Nat
import Agently.Storage.Leases

/-! # At most one owner holds a run

Who holds a run is told from what the callers were answered and not from the table: an owner
holds the lease it was given or renewed last until that lease's end or until its own release. -/

namespace Agently.Storage.Leases

open Agently.Lib Agently.Storage.LocalRecordStore

variable {Time : Type}

/-- The lease of the run the owner was given last, unless the owner has released it since. -/
def held (run_id owner_id : String) : List (Answer Time) → Option (ExecutionLease Time)
  | [] => none
  | .claimed l :: rest =>
    if l.run_id = run_id ∧ l.owner_id = owner_id then some l else held run_id owner_id rest
  | .renewed l :: rest =>
    if l.run_id = run_id ∧ l.owner_id = owner_id then some l else held run_id owner_id rest
  | .released l :: rest =>
    if l.run_id = run_id ∧ l.owner_id = owner_id then none else held run_id owner_id rest
  | .failed _ :: rest => held run_id owner_id rest

def tokens (run_id : String) : List (Answer Time) → List String
  | [] => []
  | .claimed l :: rest =>
    if l.run_id = run_id then l.lease_token :: tokens run_id rest else tokens run_id rest
  | .renewed _ :: rest => tokens run_id rest
  | .released _ :: rest => tokens run_id rest
  | .failed _ :: rest => tokens run_id rest

def Superseded (run_id token : String) (answers : List (Answer Time)) : Prop :=
  token ∈ (tokens run_id answers).tail

instance (run_id token : String) (answers : List (Answer Time)) :
    Decidable (Superseded run_id token answers) :=
  inferInstanceAs (Decidable (_ ∈ _))

def Request.shows (run_id token : String) : Request Time → Prop
  | .claim_lease _ _ _ _ => False
  | .heartbeat_lease r _ t => r = run_id ∧ t = token
  | .release_lease r _ t => r = run_id ∧ t = token

section Clock

variable [LinearOrder Time]

def Holds (s : State Time) (run_id owner_id : String) : Prop :=
  ∃ l, held run_id owner_id s.answers = some l ∧ s.clock < l.lease_until

end Clock

def drawn : List (Answer Time) → List String
  | [] => []
  | .claimed l :: rest => l.lease_token :: drawn rest
  | .renewed _ :: rest => drawn rest
  | .released _ :: rest => drawn rest
  | .failed _ :: rest => drawn rest

/-- `uuid4` draws no token it has drawn before. -/
def FreshToken (s : State Time) : Action Time → Prop
  | .serve _ token _ => token ∉ drawn s.answers
  | .tick _ => True
  | .call _ _ => True
  | .cancel _ => True

instance (s : State Time) : (a : Action Time) → Decidable (FreshToken s a)
  | .serve _ token _ => inferInstanceAs (Decidable (token ∉ drawn s.answers))
  | .tick _ => .isTrue trivial
  | .call _ _ => .isTrue trivial
  | .cancel _ => .isTrue trivial

@[simp] theorem select_upsert_self (rows : List (ExecutionLease Time)) (l : ExecutionLease Time) :
    select (upsert rows l) l.run_id = some l := by
  simp [select, upsert]

theorem select_upsert_of_ne (rows : List (ExecutionLease Time)) {l : ExecutionLease Time}
    {run_id : String} (h : l.run_id ≠ run_id) :
    select (upsert rows l) run_id = select rows run_id := by
  unfold select upsert
  rw [List.find?_cons_of_neg (by simpa using h)]
  induction rows with
  | nil => rfl
  | cons row rows ih =>
    by_cases hr : row.run_id = l.run_id
    · have hne : row.run_id ≠ run_id := by
        rw [hr]
        exact h
      rw [List.filter_cons_of_neg (by simpa using hr), ih,
        List.find?_cons_of_neg (by simpa using hne)]
    · rw [List.filter_cons_of_pos (by simpa using hr)]
      by_cases he : row.run_id = run_id
      · rw [List.find?_cons_of_pos (by simpa using he),
          List.find?_cons_of_pos (by simpa using he)]
      · rw [List.find?_cons_of_neg (by simpa using he),
          List.find?_cons_of_neg (by simpa using he), ih]

theorem run_id_of_select {rows : List (ExecutionLease Time)} {run_id : String}
    {row : ExecutionLease Time} (h : select rows run_id = some row) : row.run_id = run_id := by
  have hp := List.find?_some h
  simpa using hp

section Calls

variable [LinearOrder Time] [Zero Time] [Add Time]

/-- What a call can leave: it fails and no row changes, a claim nobody stands in the way of
sets the row, or the owner of an unreleased row shows its token. -/
inductive Served (s : Store Time) (call : Call Time) (token : String) :
    Store Time → Answer Time → Prop
  | failed (t : Store Time) (e : StoreError) (h : t.rows = s.rows) :
      Served s call token t (.failed e)
  | claimed (t : Store Time) (l : ExecutionLease Time)
      (ht : t.rows = upsert s.rows l) (hl : l.lease_token = token) (hn : l.released_at = none)
      (hw : ∀ row, select s.rows l.run_id = some row →
        ¬ conflicts row l.owner_id call.now_epoch) :
      Served s call token t (.claimed l)
  | renewed (t : Store Time) (row l : ExecutionLease Time)
      (ht : t.rows = upsert s.rows l) (hr : select s.rows l.run_id = some row)
      (ho : l.owner_id = row.owner_id) (hk : l.lease_token = row.lease_token)
      (hn : l.released_at = none) :
      Served s call token t (.renewed l)
  | released (t : Store Time) (row l : ExecutionLease Time)
      (ht : t.rows = upsert s.rows l) (hr : select s.rows l.run_id = some row)
      (ho : l.owner_id = row.owner_id) (hk : l.lease_token = row.lease_token) :
      Served s call token t (.released l)

omit [LinearOrder Time] [Zero Time] [Add Time] in
theorem eq_of_connect {s t : Store Time} (h : connect_for_write s = .ok t) :
    t = { s with db_exists := true } := by
  unfold connect_for_write at h
  split at h
  · cases h
  · injection h with h
    exact h.symm

omit [Zero Time] in
theorem claim_lease_served (s : Store Time) (run owner token : String) (ttl : Time)
    (version : Option Int) (call : Call Time) :
    Served s call token
      (claim_lease s run owner token ttl version call.now_epoch call.now_text).1
      (claim_lease s run owner token ttl version call.now_epoch call.now_text).2 := by
  unfold claim_lease
  simp only
  split
  · next existing he =>
    split
    · exact .failed _ _ rfl
    · next hc =>
      refine .claimed _ _ rfl rfl rfl ?_
      intro row hrow
      have hsame : existing = row := Option.some.inj (he.symm.trans hrow)
      rw [← hsame]
      exact hc
  · next he =>
    refine .claimed _ _ rfl rfl rfl ?_
    intro row hrow
    rw [he] at hrow
    cases hrow

omit [Zero Time] in
theorem heartbeat_lease_served (s : Store Time) (run owner lease_token token : String)
    (call : Call Time) :
    Served s call token
      (heartbeat_lease s run owner lease_token call.now_epoch call.now_text).1
      (heartbeat_lease s run owner lease_token call.now_epoch call.now_text).2 := by
  unfold heartbeat_lease
  split
  · exact .failed _ _ rfl
  · next rows hrows =>
    have hs : s.rows = rows := by
      unfold Store.rows
      rw [hrows]
      rfl
    split
    · exact .failed _ _ rfl
    · next row hrow =>
      have hid := run_id_of_select hrow
      split
      · next hc =>
        refine .renewed _ row _ ?_ ?_ rfl rfl hc.1
        · rw [hs]
          rfl
        · rw [hs]
          simpa [hid] using hrow
      · exact .failed _ _ rfl

omit [Zero Time] [Add Time] in
theorem release_lease_served (s : Store Time) (run owner lease_token text token : String)
    (call : Call Time) :
    Served s call token (release_lease s run owner lease_token text).1
      (release_lease s run owner lease_token text).2 := by
  unfold release_lease
  split
  · exact .failed _ _ rfl
  · next rows hrows =>
    have hs : s.rows = rows := by
      unfold Store.rows
      rw [hrows]
      rfl
    split
    · exact .failed _ _ rfl
    · next row hrow =>
      have hid := run_id_of_select hrow
      split
      · refine .released _ row _ ?_ ?_ rfl rfl
        · rw [hs]
          rfl
        · rw [hs]
          simpa [hid] using hrow
      · exact .failed _ _ rfl

omit [Zero Time] in
theorem under_lock_served (s : Store Time) (call : Call Time) (token text : String) :
    Served s call token (under_lock s call token text).1 (under_lock s call token text).2 := by
  unfold under_lock
  cases hc : connect_for_write s with
  | error e => exact .failed _ _ rfl
  | ok opened =>
    -- opening the database changes no row, so what was served there is served here
    have hrows : opened.rows = s.rows := by
      rw [eq_of_connect hc]
      rfl
    have lift : ∀ t a, Served opened call token t a → Served s call token t a := by
      intro t a h
      cases h with
      | failed e h => exact .failed t e (h.trans hrows)
      | claimed l ht hl hn hw => exact .claimed t l (hrows ▸ ht) hl hn (hrows ▸ hw)
      | renewed row l ht hr ho hk hn => exact .renewed t row l (hrows ▸ ht) (hrows ▸ hr) ho hk hn
      | released row l ht hr ho hk => exact .released t row l (hrows ▸ ht) (hrows ▸ hr) ho hk
    simp only
    cases hq : call.request with
    | claim_lease run owner ttl version =>
      exact lift _ _ (claim_lease_served opened run owner token ttl version call)
    | heartbeat_lease run owner lease_token =>
      exact lift _ _ (heartbeat_lease_served opened run owner lease_token token call)
    | release_lease run owner lease_token =>
      exact lift _ _ (release_lease_served opened run owner lease_token text token call)

omit [Zero Time] in
theorem under_lock_of_other_token {s : Store Time} {call : Call Time}
    {run lease_token : String} {row : ExecutionLease Time} (token text : String)
    (hs : s.db_exists = true) (hrow : select s.rows run = some row)
    (hq : call.request.shows run lease_token) (hne : row.lease_token ≠ lease_token) :
    (under_lock s call token text).1 = s ∧ ∃ e, (under_lock s call token text).2 = .failed e := by
  have hleases : s.leases = some s.rows := by
    unfold Store.rows at hrow ⊢
    cases hl : s.leases with
    | none =>
      rw [hl] at hrow
      cases hrow
    | some rows => rfl
  unfold under_lock
  cases hc : connect_for_write s with
  | error e => exact ⟨rfl, e, rfl⟩
  | ok opened =>
    have hsame : opened = s := by
      rw [eq_of_connect hc, ← hs]
    subst hsame
    simp only
    cases hr : call.request with
    | claim_lease run owner ttl version =>
      rw [hr] at hq
      exact hq.elim
    | heartbeat_lease r owner t =>
      rw [hr] at hq
      obtain ⟨rfl, rfl⟩ := hq
      have hno : ¬ (row.released_at = none ∧ owned row owner t ∧
          call.now_epoch < row.lease_until) := fun h => hne h.2.1.2
      simp only [heartbeat_lease, hleases, hrow, if_neg hno]
      exact ⟨trivial, _, rfl⟩
    | release_lease r owner t =>
      rw [hr] at hq
      obtain ⟨rfl, rfl⟩ := hq
      have hno : ¬ owned row owner t := fun h => hne h.2
      simp only [release_lease, hleases, hrow, if_neg hno]
      exact ⟨trivial, _, rfl⟩

omit [Zero Time] in
theorem under_lock_opened (s : Store Time) (call : Call Time) (token text : String) :
    (under_lock s call token text).1.db_exists = true ∨
      (under_lock s call token text).1 = s ∧ ∃ e, (under_lock s call token text).2 = .failed e := by
  unfold under_lock
  cases hc : connect_for_write s with
  | error e => exact Or.inr ⟨rfl, e, rfl⟩
  | ok opened =>
    have ho : opened.db_exists = true := by
      rw [eq_of_connect hc]
    simp only
    cases call.request with
    | claim_lease run owner ttl version =>
      refine Or.inl ?_
      simp only [claim_lease]
      split
      · split <;> exact ho
      · exact ho
    | heartbeat_lease run owner lease_token =>
      refine Or.inl ?_
      simp only [heartbeat_lease]
      split
      · exact ho
      · split
        · exact ho
        · split <;> exact ho
    | release_lease run owner lease_token =>
      refine Or.inl ?_
      simp only [release_lease]
      split
      · exact ho
      · split
        · exact ho
        · split <;> exact ho

end Calls

section Runs

variable [LinearOrder Time] [Zero Time] [Add Time]

/-- The callers' view and the table: an unexpired lease a caller holds is the row of its run,
and the row carries the newest token. -/
structure Inv (s : State Time) : Prop where
  view : ∀ run owner l, held run owner s.answers = some l → l.lease_until ≤ s.clock ∨
    ∃ row, select s.store.rows run = some row ∧ row.owner_id = owner ∧
      row.released_at = none ∧ row.lease_until = l.lease_until
  reading : ∀ call ∈ s.waiting, call.now_epoch ≤ s.clock
  newest : ∀ run token rest, tokens run s.answers = token :: rest →
    ∃ row, select s.store.rows run = some row ∧ row.lease_token = token

omit [Zero Time] [Add Time] in
theorem start_inv (store : Store Time) (now : Time) : Inv (start store now) where
  view := by
    intro run owner l h
    cases h
  reading := by
    intro call h
    cases h
  newest := by
    intro run token rest h
    cases h

variable {s : State Time}

omit [Zero Time] [Add Time] in
theorem Inv.exclusive (h : Inv s) {run o₁ o₂ : String}
    (h₁ : Holds s run o₁) (h₂ : Holds s run o₂) : o₁ = o₂ := by
  obtain ⟨l₁, hl₁, ht₁⟩ := h₁
  obtain ⟨l₂, hl₂, ht₂⟩ := h₂
  obtain he | ⟨row₁, hr₁, ho₁, -, -⟩ := h.view run o₁ l₁ hl₁
  · exact absurd ht₁ (not_lt.mpr he)
  · obtain he | ⟨row₂, hr₂, ho₂, -, -⟩ := h.view run o₂ l₂ hl₂
    · exact absurd ht₂ (not_lt.mpr he)
    · have hrow : row₁ = row₂ := Option.some.inj (hr₁.symm.trans hr₂)
      rw [← ho₁, ← ho₂, hrow]

variable {answers : List (Answer Time)}

omit [Zero Time] [Add Time] in
theorem view_of_set (h : Inv s) {rows : List (ExecutionLease Time)} {l : ExecutionLease Time}
    (hrows : rows = upsert s.store.rows l) (hn : l.released_at = none)
    (hself : held l.run_id l.owner_id answers = some l)
    (hother : ∀ run owner, ¬ (l.run_id = run ∧ l.owner_id = owner) →
      held run owner answers = held run owner s.answers)
    (hfree : ∀ row, select s.store.rows l.run_id = some row → row.released_at = none →
      row.owner_id ≠ l.owner_id → row.lease_until ≤ s.clock) :
    ∀ run owner k, held run owner answers = some k → k.lease_until ≤ s.clock ∨
      ∃ row, select rows run = some row ∧ row.owner_id = owner ∧
        row.released_at = none ∧ row.lease_until = k.lease_until := by
  intro run owner k hk
  subst hrows
  by_cases hown : l.run_id = run ∧ l.owner_id = owner
  · obtain ⟨rfl, rfl⟩ := hown
    have hsame : l = k := Option.some.inj (hself.symm.trans hk)
    subst hsame
    exact Or.inr ⟨l, select_upsert_self _ l, rfl, hn, rfl⟩
  · rw [hother run owner hown] at hk
    obtain he | ⟨row, hrow, ho, hr, hu⟩ := h.view run owner k hk
    · exact Or.inl he
    · by_cases hrun : l.run_id = run
      · subst hrun
        have hne : row.owner_id ≠ l.owner_id := by
          intro he
          exact hown ⟨rfl, he.symm.trans ho⟩
        rw [← hu]
        exact Or.inl (hfree row hrow hr hne)
      · rw [← select_upsert_of_ne s.store.rows hrun] at hrow
        exact Or.inr ⟨row, hrow, ho, hr, hu⟩

omit [Zero Time] [Add Time] in
theorem newest_of_set (h : Inv s) {rows : List (ExecutionLease Time)} {l : ExecutionLease Time}
    (hrows : rows = upsert s.store.rows l)
    (hself : ∀ token rest, tokens l.run_id answers = token :: rest → l.lease_token = token)
    (hother : ∀ run, l.run_id ≠ run → tokens run answers = tokens run s.answers) :
    ∀ run token rest, tokens run answers = token :: rest →
      ∃ row, select rows run = some row ∧ row.lease_token = token := by
  intro run token rest ht
  subst hrows
  by_cases hrun : l.run_id = run
  · subst hrun
    exact ⟨l, select_upsert_self _ l, hself token rest ht⟩
  · rw [hother run hrun] at ht
    obtain ⟨row, hrow, hk⟩ := h.newest run token rest ht
    rw [← select_upsert_of_ne s.store.rows hrun] at hrow
    exact ⟨row, hrow, hk⟩

omit [Zero Time] [Add Time] in
theorem inv_served (h : Inv s) {call : Call Time} {token : String}
    {store : Store Time} {answer : Answer Time} {waiting : List (Call Time)}
    (hcall : call.now_epoch ≤ s.clock) (hw : ∀ c ∈ waiting, c ∈ s.waiting)
    (hs : Served s.store call token store answer) :
    Inv { s with store := store, waiting := waiting, answers := answer :: s.answers } := by
  have hreading : ∀ c ∈ waiting, c.now_epoch ≤ s.clock := fun c hc => h.reading c (hw c hc)
  cases hs with
  | failed e hrows =>
    refine ⟨?_, hreading, ?_⟩
    · intro run owner l hl
      simp only [hrows]
      exact h.view run owner l hl
    · intro run t rest ht
      simp only [hrows]
      exact h.newest run t rest ht
  | claimed l hrows hk hn hfree =>
    refine ⟨view_of_set h hrows hn (by simp [held]) ?_ ?_, hreading,
      newest_of_set h hrows ?_ ?_⟩
    · intro run owner hne
      simp only [held, if_neg hne]
    · intro row hrow hr hne
      -- the claim read a time at which the other owner's lease was over
      have hc := hfree row hrow
      unfold conflicts at hc
      have hover : ¬ call.now_epoch < row.lease_until := fun hlt => hc ⟨hr, hlt, hne⟩
      exact le_trans (not_lt.mp hover) hcall
    · intro t rest ht
      simp only [tokens, if_true] at ht
      injection ht
    · intro run hne
      simp only [tokens, if_neg hne]
  | renewed row l hrows hrow ho hk hn =>
    refine ⟨view_of_set h hrows hn (by simp [held]) ?_ ?_, hreading,
      newest_of_set h hrows ?_ ?_⟩
    · intro run owner hne
      simp only [held, if_neg hne]
    · intro row' hrow' _ hne
      have hsame : row = row' := Option.some.inj (hrow.symm.trans hrow')
      rw [← hsame] at hne
      exact absurd ho.symm hne
    · intro t rest ht
      obtain ⟨row', hrow', hk'⟩ := h.newest l.run_id t rest ht
      have hsame : row = row' := Option.some.inj (hrow.symm.trans hrow')
      rw [hk, hsame, hk']
    · intro run hne
      rfl
  | released row l hrows hrow ho hk =>
    refine ⟨?_, hreading, newest_of_set h hrows ?_ ?_⟩
    · intro run owner k hheld
      by_cases hown : l.run_id = run ∧ l.owner_id = owner
      · simp only [held, if_pos hown] at hheld
        cases hheld
      · simp only [held, if_neg hown] at hheld
        obtain he | ⟨row', hrow', ho', hr', hu'⟩ := h.view run owner k hheld
        · exact Or.inl he
        · by_cases hrun : l.run_id = run
          · subst hrun
            have hsame : row = row' := Option.some.inj (hrow.symm.trans hrow')
            rw [← hsame] at ho'
            exact absurd ⟨rfl, ho.trans ho'⟩ hown
          · rw [← select_upsert_of_ne s.store.rows hrun, ← hrows] at hrow'
            exact Or.inr ⟨row', hrow', ho', hr', hu'⟩
    · intro t rest ht
      obtain ⟨row', hrow', hk'⟩ := h.newest l.run_id t rest ht
      have hsame : row = row' := Option.some.inj (hrow.symm.trans hrow')
      rw [hk, hsame, hk']
    · intro run hne
      rfl

variable {t : State Time}

theorem inv_step {a : Action Time} (h : Inv s) (hs : step s a = some t) :
    Inv t := by
  cases a with
  | tick now =>
    simp only [step] at hs
    split at hs
    · next hle =>
      injection hs with hs
      subst hs
      refine ⟨?_, fun call hc => le_trans (h.reading call hc) hle, h.newest⟩
      intro run owner l hl
      obtain he | hrow := h.view run owner l hl
      · exact Or.inl (le_trans he hle)
      · exact Or.inr hrow
    · cases hs
  | call request now_text =>
    simp only [step] at hs
    split at hs
    · injection hs with hs
      subst hs
      exact ⟨h.view, h.reading, h.newest⟩
    · injection hs with hs
      subst hs
      refine ⟨h.view, ?_, h.newest⟩
      intro call hc
      rcases List.mem_append.mp hc with hc | hc
      · exact h.reading call hc
      · rw [List.mem_singleton] at hc
        rw [hc]
  | serve index token text =>
    simp only [step] at hs
    split at hs
    · cases hs
    · next call hcall =>
      injection hs with hs
      subst hs
      exact inv_served h (h.reading call (List.mem_of_getElem? hcall))
        (fun c hc => List.mem_of_mem_eraseIdx hc)
        (under_lock_served s.store call token text)
  | cancel index =>
    simp only [step] at hs
    injection hs with hs
    subst hs
    exact ⟨h.view, fun c hc => h.reading c (List.mem_of_mem_eraseIdx hc), h.newest⟩

/-- A run's tokens are all different, and the database is there once one was handed out. -/
structure TokensInv (s : State Time) : Prop where
  distinct : ∀ run, (tokens run s.answers).Nodup
  opened : ∀ run, tokens run s.answers ≠ [] → s.store.db_exists = true

omit [LinearOrder Time] [Zero Time] [Add Time] in
theorem tokens_of_claimed (l : ExecutionLease Time) (run : String) (rest : List (Answer Time)) :
    tokens run (.claimed l :: rest) = tokens run rest ∨
      tokens run (.claimed l :: rest) = l.lease_token :: tokens run rest := by
  by_cases hrun : l.run_id = run
  · exact Or.inr (by simp only [tokens, if_pos hrun])
  · exact Or.inl (by simp only [tokens, if_neg hrun])

omit [LinearOrder Time] [Zero Time] [Add Time] in
theorem mem_drawn {run token : String}
    (h : token ∈ tokens run answers) : token ∈ drawn answers := by
  induction answers with
  | nil => cases h
  | cons a rest ih =>
    cases a with
    | claimed l =>
      rcases tokens_of_claimed l run rest with he | he
      · rw [he] at h
        exact List.mem_cons_of_mem _ (ih h)
      · rw [he] at h
        rcases List.mem_cons.mp h with h | h
        · rw [h]
          exact List.mem_cons_self
        · exact List.mem_cons_of_mem _ (ih h)
    | renewed l => exact ih h
    | released l => exact ih h
    | failed e => exact ih h

omit [LinearOrder Time] [Zero Time] [Add Time] in
theorem tokens_of_failed (run : String) {a : Answer Time} {rest : List (Answer Time)}
    (h : ∃ e, a = .failed e) : tokens run (a :: rest) = tokens run rest := by
  obtain ⟨e, rfl⟩ := h
  rfl

theorem tokensInv_step {a : Action Time} (h : TokensInv s)
    (hf : FreshToken s a) (hs : step s a = some t) : TokensInv t := by
  cases a with
  | tick now =>
    simp only [step] at hs
    split at hs
    · injection hs with hs
      subst hs
      exact ⟨h.distinct, h.opened⟩
    · cases hs
  | call request now_text =>
    simp only [step] at hs
    split at hs <;>
    · injection hs with hs
      subst hs
      exact ⟨h.distinct, h.opened⟩
  | serve index token text =>
    simp only [step] at hs
    split at hs
    · cases hs
    · next call hcall =>
      injection hs with hs
      subst hs
      have hserved := under_lock_served s.store call token text
      refine ⟨?_, ?_⟩
      · intro run
        generalize (under_lock s.store call token text).1 = store at hserved
        generalize (under_lock s.store call token text).2 = answer at hserved ⊢
        cases hserved with
        | failed e hrows => exact h.distinct run
        | claimed l hrows hk hn hw =>
          rcases tokens_of_claimed l run s.answers with he | he
          · simp only [he]
            exact h.distinct run
          · simp only [he, hk]
            exact List.nodup_cons.mpr ⟨fun hin => hf (mem_drawn hin), h.distinct run⟩
        | renewed row l hrows hr ho hk hn => exact h.distinct run
        | released row l hrows hr ho hk => exact h.distinct run
      · intro run hne
        rcases under_lock_opened s.store call token text with ho | ⟨hsame, hfail⟩
        · exact ho
        · simp only [tokens_of_failed run hfail] at hne
          simp only [hsame]
          exact h.opened run hne
  | cancel index =>
    simp only [step] at hs
    injection hs with hs
    subst hs
    exact ⟨h.distinct, h.opened⟩

omit [LinearOrder Time] [Zero Time] [Add Time] in
theorem start_tokensInv (store : Store Time) (now : Time) :
    TokensInv (start store now) where
  distinct := by
    intro run
    exact List.nodup_nil
  opened := by
    intro run hne
    exact absurd rfl hne

theorem serve_superseded (h : Inv s) (ht : TokensInv s) {index : Nat}
    {token text run shown : String} {call : Call Time} (hcall : s.waiting[index]? = some call)
    (hq : call.request.shows run shown) (hsup : Superseded run shown s.answers)
    (hs : step s (.serve index token text) = some t) :
    t.store = s.store ∧ ∃ e, t.answers = .failed e :: s.answers := by
  simp only [step, hcall] at hs
  injection hs with hs
  subst hs
  unfold Superseded at hsup
  cases htok : tokens run s.answers with
  | nil =>
    rw [htok] at hsup
    cases hsup
  | cons newest rest =>
    rw [htok] at hsup
    obtain ⟨row, hrow, hk⟩ := h.newest run newest rest htok
    have hd := ht.distinct run
    rw [htok] at hd
    have hne : row.lease_token ≠ shown := by
      intro he
      rw [hk] at he
      exact (List.nodup_cons.mp hd).1 (he ▸ hsup)
    have hopen := ht.opened run (by rw [htok]; exact List.cons_ne_nil _ _)
    obtain ⟨hstore, e, ha⟩ := under_lock_of_other_token token text hopen hrow hq hne
    refine ⟨hstore, e, ?_⟩
    simp only [ha]

/-- In every state of every run at most one owner holds a run; and while no token is drawn
twice, a heartbeat or a release with a token that a later claim replaced fails and changes
nothing. -/
theorem leases_exclude (store : Store Time) (now : Time) (as : List (Action Time))
    (s : State Time) (hr : leaseRun.run (start store now) as = some s) :
    (∀ run o₁ o₂, Holds s run o₁ → Holds s run o₂ → o₁ = o₂) ∧
      (leaseRun.Meets FreshToken (start store now) as →
        ∀ index call run shown token text t, s.waiting[index]? = some call →
          call.request.shows run shown → Superseded run shown s.answers →
          step s (.serve index token text) = some t →
          t.store = s.store ∧ ∃ e, t.answers = .failed e :: s.answers) := by
  have hinv : Inv s :=
    leaseRun.run_invariant (fun _ _ _ h hs => inv_step h hs) (start_inv store now) hr
  refine ⟨fun run o₁ o₂ => hinv.exclusive, ?_⟩
  intro hm index call run shown token text t hcall hq hsup hs
  have htok : TokensInv s :=
    leaseRun.run_invariant_meeting (fun _ _ _ h hf hs => tokensInv_step h hf hs)
      (start_tokensInv store now) hm hr
  exact serve_superseded hinv htok hcall hq hsup hs

end Runs

def takeover : List (Action Nat) :=
  [.call (.claim_lease "run" "first" 5 none) "0", .serve 0 "s" "0", .tick 7,
    .call (.claim_lease "run" "second" 5 none) "7", .serve 0 "t" "7",
    .call (.heartbeat_lease "run" "first" "s") "7"]

def secondLease : ExecutionLease Nat :=
  { run_id := "run", owner_id := "second", lease_token := "t", lease_ttl := 5, lease_until := 12,
    claimed_at := "7", heartbeat_at := "7", released_at := none, state_version := none }

def takenOver : State Nat :=
  { clock := 7
    store := { db_exists := true, leases := some [secondLease] }
    waiting := [⟨7, "7", .heartbeat_lease "run" "first" "s"⟩]
    answers := [.claimed secondLease,
      .claimed { secondLease with
        owner_id := "first", lease_token := "s", lease_until := 5, claimed_at := "0",
        heartbeat_at := "0" }] }

theorem takeover_run : leaseRun.run (start {} 0) takeover = some takenOver := by
  rfl

theorem leases_exclude_takeover :
    Holds takenOver "run" "second" ∧ (∀ owner, Holds takenOver "run" owner → owner = "second") ∧
      ∀ t, step takenOver (.serve 0 "u" "7") = some t →
        t.store = takenOver.store ∧ ∃ e, t.answers = .failed e :: takenOver.answers := by
  obtain ⟨hone, hold⟩ := leases_exclude {} 0 takeover takenOver takeover_run
  have hsecond : Holds takenOver "run" "second" := ⟨secondLease, rfl, by decide⟩
  refine ⟨hsecond, fun owner ho => hone "run" owner "second" ho hsecond, ?_⟩
  intro t ht
  exact hold (by decide) 0 _ "run" "s" "u" "7" t rfl ⟨rfl, rfl⟩ (by decide) ht

end Agently.Storage.Leases
