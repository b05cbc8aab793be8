import Agently.Lib.Machine

/-! # Live waits and responses

Source: `ExecutionExchange.py` (`register_live_wait`, `async_respond`, `async_abandon`,
`async_hot_wait`) over `async_continue_with`; a step ends where the source awaits. An interrupt id
names one pause, and a callback that the owner's loop was given counts as run. -/

namespace Agently.LiveWaits

open Agently.Lib

inductive Lifecycle where
  | opened
  | sealed
  | closed
deriving DecidableEq

/-- An interrupt; `claimed` is still waiting, with a `resume_claim`. -/
inductive Status where
  | absent
  | waiting
  | claimed (resume_request_id : String)
  | settled
deriving DecidableEq

def Status.waits : Status → Bool
  | .waiting => true
  | .claimed _ => true
  | .absent => false
  | .settled => false

inductive Wait where
  | none
  | listening
  | asking
  | answering
  | providing
  | returned (resolved : Bool)
  | raised
deriving DecidableEq

def Wait.running : Wait → Bool
  | .listening => true
  | .asking => true
  | .answering => true
  | .providing => true
  | .none => false
  | .returned _ => false
  | .raised => false

def wait_keys (execution_id interrupt_id exchange_id : String) : List String :=
  (execution_id ++ ":" ++ interrupt_id) :: if exchange_id = "" then [] else [exchange_id]

structure Entry where
  execution_id : String
  interrupt_id : String
  exchange_id : String
  signalled : Bool
  wait : Wait

def Entry.keys (x : Entry) : List String := wait_keys x.execution_id x.interrupt_id x.exchange_id

inductive Stage where
  | asking
  | claimed
  | continued
  | returned
  | raised
deriving DecidableEq

def Stage.running : Stage → Bool
  | .asking => true
  | .claimed => true
  | .continued => true
  | .returned => false
  | .raised => false

structure Respond where
  key : String
  entry : Nat
  resume_request_id : String
  stage : Stage

structure State where
  lifecycle : String → Lifecycle
  status : String → String → Status
  entries : List Entry
  live_waits : String → Option Nat
  responds : List Respond

def initial : State :=
  { lifecycle := fun _ => .opened, status := fun _ _ => .absent, entries := []
    live_waits := fun _ => none, responds := [] }

def State.of (s : State) (x : Entry) : Status := s.status x.execution_id x.interrupt_id

def State.put (s : State) (e i : String) (v : Status) : State :=
  { s with status := fun e' i' => if e' = e ∧ i' = i then v else s.status e' i' }

def State.setEntry (s : State) (a : Nat) (f : Entry → Entry) : State :=
  { s with entries := s.entries.modify a f }

def State.setStage (s : State) (r : Nat) (stage : Stage) : State :=
  { s with responds := s.responds.modify r fun q => { q with stage := stage } }

def State.unregister (s : State) (keys : List String) : State :=
  { s with live_waits := fun k => if k ∈ keys then none else s.live_waits k }

def State.close (s : State) (e : String) : State :=
  { s with
    lifecycle := fun e' => if e' = e then .closed else s.lifecycle e'
    status := fun e' i => if e' = e ∧ (s.status e' i).waits then .settled else s.status e' i }

def State.forget (s : State) (e : String) : State :=
  { s with live_waits := fun k => (s.live_waits k).filter fun a =>
      !(s.entries[a]?.any fun x => x.execution_id = e) }

def State.register (s : State) (e i x : String) (wait : Wait) : State :=
  { s with
    entries := s.entries ++ [⟨e, i, x, false, wait⟩]
    live_waits := fun k => if k ∈ wait_keys e i x then some s.entries.length else s.live_waits k }

inductive Begun where
  | claimed
  | returned
  | raised
deriving DecidableEq

/-- `async_continue_with` until it claims the interrupt; `accepted` says that the lease, the
number of resumes and the earlier request of the same id do not refuse it. -/
def State.begin (s : State) (e i id : String) (accepted : Bool) : Begun :=
  if s.lifecycle e ≠ .opened then .returned
  else if accepted = false then .raised
  else match s.status e i with
    | .absent => .raised
    | .waiting => .claimed
    | .claimed other => if other = id then .returned else .raised
    | .settled => .returned

def State.claim (s : State) (e i id : String) (accepted : Bool) : State :=
  if s.begin e i id accepted = .claimed then s.put e i (.claimed id) else s

def State.finish (s : State) (w : Nat) (x : Entry) (wait : Wait) : State :=
  (s.setEntry w fun x => { x with wait := wait }).unregister x.keys

inductive WaitMove where
  | time_out
  | wake
  | answer (response : Bool)
  | provide (accepted : Bool)
  | provided
  | cancel

inductive CallMove where
  | continuing (accepted : Bool)
  | continued
  | failed
  | responded

inductive Action where
  | interrupt (e i : String)
  | continue_with (e i id : String) (accepted : Bool)
  | resumed (e i : String)
  | closing (e : String)
  | close (e : String)
  | forget (e : String)
  | abandon (key : String)
  | register (e i x : String) (wait : Wait)
  | wait (w : Nat) (move : WaitMove)
  | respond (key id : String)
  | call (r : Nat) (move : CallMove)

def State.waitStep (s : State) (w : Nat) (x : Entry) : WaitMove → Option State
  | .time_out =>
    if x.wait = .listening ∨ x.wait = .asking then some (s.finish w x (.returned false)) else none
  | .wake =>
    if x.wait = .listening ∧ x.signalled = true then
      some (s.finish w x (.returned (s.of x = .settled)))
    else none
  | .answer response =>
    if x.wait ≠ .asking then none
    else if s.of x = .settled then some (s.finish w x (.returned true))
    else if response then some (s.setEntry w fun x => { x with wait := .answering })
    else some (s.finish w x (.returned false))
  | .provide accepted =>
    if x.wait ≠ .answering then none
    else
      let id := "exchange:" ++ (x.execution_id ++ ":" ++ x.interrupt_id) ++ ":provider"
      some ((s.claim x.execution_id x.interrupt_id id accepted).setEntry w fun x =>
        { x with wait := .providing })
  | .provided =>
    if x.wait = .providing then some (s.finish w x (.returned true)) else none
  | .cancel => if x.wait.running then some (s.finish w x .raised) else none

def State.respondStep (s : State) (r : Nat) (q : Respond) (x : Entry) : CallMove → Option State
  | .continuing accepted =>
    if q.stage ≠ .asking then none
    else some <| match s.begin x.execution_id x.interrupt_id q.resume_request_id accepted with
      | .claimed => (s.put x.execution_id x.interrupt_id (.claimed q.resume_request_id)).setStage
          r .claimed
      | .returned => s.setStage r .continued
      | .raised => s.setStage r .raised
  | .continued =>
    if q.stage = .claimed ∧ s.of x = .settled then some (s.setStage r .continued) else none
  | .failed =>
    if q.stage = .claimed ∨ q.stage = .continued then some (s.setStage r .raised) else none
  | .responded =>
    if q.stage ≠ .continued then none
    else some (((s.setEntry q.entry fun x => { x with signalled := true }).unregister
      x.keys).setStage r .returned)

def step (s : State) : Action → Option State
  | .interrupt e i => if s.status e i = .absent then some (s.put e i .waiting) else none
  | .continue_with e i id accepted => some (s.claim e i id accepted)
  | .resumed e i =>
    match s.status e i with
    | .claimed _ => some (s.put e i .settled)
    | _ => none
  | .closing e => some { s with
      lifecycle := fun e' => if e' = e ∧ s.lifecycle e = .opened then .sealed else s.lifecycle e' }
  | .close e => some (s.close e)
  | .forget e => if s.lifecycle e = .closed then some (s.forget e) else none
  | .abandon key =>
    (s.live_waits key).bind fun a => (s.entries[a]?).map fun x => s.close x.execution_id
  | .register e i x wait =>
    if s.status e i = .absent ∨ ¬ (wait = .none ∨ wait = .listening ∨ wait = .asking) then none
    else some (s.register e i x wait)
  | .respond key id => (s.live_waits key).map fun a =>
    { s with responds := s.responds ++
      [⟨key, a, if id = "" then "exchange:" ++ key ++ ":response" else id, .asking⟩] }
  | .wait w move => (s.entries[w]?).bind fun x => s.waitStep w x move
  | .call r move =>
    (s.responds[r]?).bind fun q => (s.entries[q.entry]?).bind fun x => s.respondStep r q x move

def machine : Machine State Action where
  step := step

/-- The entry is registered, a hot wait is on it, or a respond call holds it. -/
def State.InUse (s : State) (a : Nat) : Prop :=
  (∃ k, s.live_waits k = some a) ∨ (∃ x, s.entries[a]? = some x ∧ x.wait.running = true) ∨
    ∃ q ∈ s.responds, q.entry = a ∧ q.stage.running = true

structure Inv (s : State) : Prop where
  named : ∀ {k : String} {a : Nat}, s.live_waits k = some a → ∃ x, s.entries[a]? = some x ∧ k ∈ x.keys
  held : ∀ {q : Respond}, q ∈ s.responds → ∃ x, s.entries[q.entry]? = some x ∧ q.key ∈ x.keys ∧
    (q.stage = .continued → s.of x = .settled)
  apart : ∀ {a b : Nat} {x y : Entry} {k : String}, s.InUse a → s.InUse b → s.entries[a]? = some x → s.entries[b]? = some y →
    k ∈ x.keys → k ∈ y.keys → a = b
  there : ∀ {a : Nat} {x : Entry}, s.entries[a]? = some x → s.of x ≠ .absent

theorem inv_initial : Inv initial where
  named h := by cases h
  held h := by cases h
  apart := by
    intro a b x y k h
    rcases h with ⟨j, h⟩ | ⟨z, h, -⟩ | ⟨q, h, -⟩ <;> cases h
  there h := by cases h

variable {s : State}

theorem Inv.status (hi : Inv s) (lifecycle : String → Lifecycle) {status : String → String → Status}
    (hs : ∀ e i, (s.status e i ≠ .absent → status e i ≠ .absent) ∧
      (s.status e i = .settled → status e i = .settled)) :
    Inv { s with lifecycle := lifecycle, status := status } where
  named h := hi.named h
  held h := (hi.held h).imp fun _ hx => ⟨hx.1, hx.2.1, fun hc => (hs _ _).2 (hx.2.2 hc)⟩
  apart := hi.apart
  there h := (hs _ _).1 (hi.there h)

theorem Inv.put (hi : Inv s) {e i : String} {v : Status} (hv : v ≠ .absent)
    (hs : s.status e i = .settled → v = .settled) : Inv (s.put e i v) := by
  refine hi.status s.lifecycle fun e' i' => ?_
  by_cases he : e' = e ∧ i' = i
  · rw [if_pos he, he.1, he.2]
    exact ⟨fun _ => hv, hs⟩
  · rw [if_neg he]
    exact ⟨fun h => h, fun h => h⟩

theorem Inv.unlive (hi : Inv s) {live : String → Option Nat}
    (hl : ∀ k a, live k = some a → s.live_waits k = some a) :
    Inv { s with live_waits := live } where
  named h := hi.named (hl _ _ h)
  held h := hi.held h
  apart ha hb := hi.apart (ha.imp_left fun h => h.imp fun k h => hl k _ h)
    (hb.imp_left fun h => h.imp fun k h => hl k _ h)
  there h := hi.there h

theorem Inv.unregister (hi : Inv s) (keys : List String) : Inv (s.unregister keys) :=
  hi.unlive fun k a h => by
    split_ifs at h
    exact h

/-- The entry stays the one of its interrupt, and a hot wait that ended is not taken up again. -/
structure Moves (f : Entry → Entry) (x : Entry) : Prop where
  execution : (f x).execution_id = x.execution_id
  interrupt : (f x).interrupt_id = x.interrupt_id
  exchange : (f x).exchange_id = x.exchange_id
  running : (f x).wait.running = true → x.wait.running = true

variable {f : Entry → Entry} {x : Entry}

theorem Moves.keys (h : Moves f x) : (f x).keys = x.keys := by
  rw [Entry.keys, Entry.keys, h.execution, h.interrupt, h.exchange]

theorem Moves.of (h : Moves f x) (s : State) :
    s.of (f x) = s.of x := by
  rw [State.of, State.of, h.execution, h.interrupt]

theorem get_setEntry (s : State) (w : Nat) (f : Entry → Entry) (a : Nat) :
    (s.setEntry w f).entries[a]? = (s.entries[a]?).map fun x => if w = a then f x else x := by
  rw [State.setEntry, List.getElem?_modify]
  by_cases ha : w = a
  · simp [ha]
  · simp [ha]

theorem moved_entry {w : Nat} (hf : ∀ x, s.entries[w]? = some x → Moves f x) {a : Nat}
    (hx : s.entries[a]? = some x) : Moves (fun x => if w = a then f x else x) x := by
  by_cases ha : w = a
  · simp only [if_pos ha]
    exact hf x (ha ▸ hx)
  · simp only [if_neg ha]
    exact ⟨rfl, rfl, rfl, fun h => h⟩

theorem Inv.setEntry (hi : Inv s) {w : Nat}
    (hf : ∀ x, s.entries[w]? = some x → Moves f x) : Inv (s.setEntry w f) := by
  have hthere : ∀ {a : Nat} {x : Entry}, s.entries[a]? = some x →
      (s.setEntry w f).entries[a]? = some (if w = a then f x else x) := by
    intro a x hx
    rw [get_setEntry, hx]
    rfl
  have hback : ∀ {a : Nat} {y : Entry}, (s.setEntry w f).entries[a]? = some y →
      ∃ x, s.entries[a]? = some x ∧ y = if w = a then f x else x := by
    intro a y hy
    rw [get_setEntry] at hy
    obtain ⟨x, hx, he⟩ := Option.map_eq_some_iff.mp hy
    exact ⟨x, hx, he.symm⟩
  have huse : ∀ {a : Nat}, (s.setEntry w f).InUse a → s.InUse a := by
    intro a h
    rcases h with h | ⟨y, hy, hrun⟩ | h
    · exact Or.inl h
    · obtain ⟨x, hx, rfl⟩ := hback hy
      exact Or.inr (Or.inl ⟨x, hx, (moved_entry hf hx).running hrun⟩)
    · exact Or.inr (Or.inr h)
  refine ⟨?_, ?_, ?_, ?_⟩
  · intro k a h
    obtain ⟨x, hx, hk⟩ := hi.named h
    exact ⟨_, hthere hx, (moved_entry hf hx).keys ▸ hk⟩
  · intro q h
    obtain ⟨x, hx, hk, hc⟩ := hi.held h
    refine ⟨_, hthere hx, (moved_entry hf hx).keys ▸ hk, fun he => ?_⟩
    exact ((moved_entry hf hx).of s).trans (hc he)
  · intro a b x y k ha hb hx hy hkx hky
    obtain ⟨x', hx', rfl⟩ := hback hx
    obtain ⟨y', hy', rfl⟩ := hback hy
    exact hi.apart (huse ha) (huse hb) hx' hy' ((moved_entry hf hx').keys ▸ hkx)
      ((moved_entry hf hy').keys ▸ hky)
  · intro a y h
    obtain ⟨x, hx, rfl⟩ := hback h
    exact ((moved_entry hf hx).of s).trans_ne (hi.there hx)

theorem Inv.setStage (hi : Inv s) {r : Nat} {q : Respond} {stage : Stage}
    (hq : s.responds[r]? = some q) (hrun : q.stage.running = true)
    (hc : stage = .continued → ∀ x, s.entries[q.entry]? = some x → s.of x = .settled) :
    Inv (s.setStage r stage) := by
  have hback : ∀ {p : Respond}, p ∈ (s.setStage r stage).responds →
      p ∈ s.responds ∨ p = { q with stage := stage } := by
    intro p hp
    obtain ⟨j, hj⟩ := List.mem_iff_getElem?.mp hp
    rw [State.setStage, List.getElem?_modify] at hj
    obtain ⟨p', hp', rfl⟩ := Option.map_eq_some_iff.mp hj
    by_cases hr : r = j
    · subst hr
      cases hq.symm.trans hp'
      exact Or.inr (if_pos rfl)
    · exact Or.inl (List.mem_iff_getElem?.mpr ⟨j, by simpa [hr] using hp'⟩)
  have hqm : q ∈ s.responds := List.mem_of_getElem? hq
  have huse : ∀ {a : Nat}, (s.setStage r stage).InUse a → s.InUse a := by
    intro a h
    rcases h with h | h | ⟨p, hp, he, hs⟩
    · exact Or.inl h
    · exact Or.inr (Or.inl h)
    · rcases hback hp with hp | rfl
      · exact Or.inr (Or.inr ⟨p, hp, he, hs⟩)
      · exact Or.inr (Or.inr ⟨q, hqm, he, hrun⟩)
  refine ⟨hi.named, ?_, ?_, hi.there⟩
  · intro p hp
    rcases hback hp with hp | rfl
    · exact hi.held hp
    · obtain ⟨x, hx, hk, -⟩ := hi.held hqm
      exact ⟨x, hx, hk, fun he => hc he x hx⟩
  · intro a b x y k ha hb
    exact hi.apart (huse ha) (huse hb)

theorem State.register_old (s : State) {e i x : String} {wait : Wait} {a : Nat} {y : Entry}
    (h : s.entries[a]? = some y) : (s.register e i x wait).entries[a]? = some y := by
  rw [State.register, List.getElem?_append_left (List.getElem?_eq_some_iff.mp h).1]
  exact h

theorem Inv.register (hi : Inv s) {e i x : String} {wait : Wait} (hs : s.status e i ≠ .absent)
    (hfree : ∀ a y, s.InUse a → s.entries[a]? = some y → ∀ k ∈ wait_keys e i x, k ∉ y.keys) :
    Inv (s.register e i x wait) := by
  have hold : ∀ {a : Nat} {y : Entry}, (s.register e i x wait).entries[a]? = some y →
      (s.entries[a]? = some y) ∨ (a = s.entries.length ∧ y = ⟨e, i, x, false, wait⟩) := by
    intro a y h
    rw [State.register] at h
    rcases Nat.lt_or_ge a s.entries.length with hl | hg
    · rw [List.getElem?_append_left hl] at h
      exact Or.inl h
    · rw [List.getElem?_append_right hg] at h
      have hz : a - s.entries.length = 0 := by
        by_contra hne
        rw [List.getElem?_eq_none (by simp; omega)] at h
        cases h
      rw [hz] at h
      cases h
      exact Or.inr ⟨by omega, rfl⟩
  have huse : ∀ {a : Nat} {y : Entry}, (s.register e i x wait).InUse a → s.entries[a]? = some y →
      s.InUse a := by
    intro a y h hy
    have hlt := (List.getElem?_eq_some_iff.mp hy).1
    rcases h with ⟨k, h⟩ | ⟨z, hz, hrun⟩ | h
    · dsimp only [State.register] at h
      split_ifs at h
      · cases h
        omega
      · exact Or.inl ⟨k, h⟩
    · rcases hold hz with hz | ⟨rfl, -⟩
      · exact Or.inr (Or.inl ⟨z, hz, hrun⟩)
      · omega
    · exact Or.inr (Or.inr h)
  refine ⟨?_, ?_, ?_, ?_⟩
  · intro k a h
    dsimp only [State.register] at h
    split_ifs at h with hk
    · cases h
      exact ⟨⟨e, i, x, false, wait⟩, List.getElem?_concat_length, hk⟩
    · exact (hi.named h).imp fun _ hx => ⟨s.register_old hx.1, hx.2⟩
  · intro q h
    exact (hi.held h).imp fun _ hx => ⟨s.register_old hx.1, hx.2⟩
  · intro a b y z k ha hb hy hz hky hkz
    rcases hold hy with hy' | ⟨rfl, rfl⟩
    · rcases hold hz with hz' | ⟨rfl, rfl⟩
      · exact hi.apart (huse ha hy') (huse hb hz') hy' hz' hky hkz
      · exact absurd hky (hfree a y (huse ha hy') hy' k hkz)
    · rcases hold hz with hz' | ⟨rfl, rfl⟩
      · exact absurd hkz (hfree b z (huse hb hz') hz' k hky)
      · rfl
  · intro a y h
    rcases hold h with h | ⟨-, rfl⟩
    · exact hi.there h
    · exact hs

theorem Inv.respond (hi : Inv s) {key id : String} {a : Nat} (hk : s.live_waits key = some a) :
    Inv { s with responds := s.responds ++ [⟨key, a, id, .asking⟩] } := by
  have huse : ∀ {b : Nat},
      State.InUse { s with responds := s.responds ++ [⟨key, a, id, .asking⟩] } b → s.InUse b := by
    intro b h
    rcases h with h | h | ⟨q, hq, he, hs⟩
    · exact Or.inl h
    · exact Or.inr (Or.inl h)
    · rcases List.mem_append.mp hq with hq | hq
      · exact Or.inr (Or.inr ⟨q, hq, he, hs⟩)
      · cases List.mem_singleton.mp hq
        exact Or.inl ⟨key, he ▸ hk⟩
  refine ⟨hi.named, ?_, ?_, hi.there⟩
  · intro q hq
    rcases List.mem_append.mp hq with hq | hq
    · exact hi.held hq
    · cases List.mem_singleton.mp hq
      obtain ⟨x, hx, hkx⟩ := hi.named hk
      exact ⟨x, hx, hkx, fun h => by cases h⟩
  · intro b c x y k hb hc
    exact hi.apart (huse hb) (huse hc)


/-- A registration does not share a key with what is in use, a response meets an open execution
and no continuation of its own id under way, and a wait times out while the interrupt waits. -/
def Kept (s : State) (a : Action) : Prop :=
  match a with
  | .register e i x _ => ∀ b y, s.InUse b → s.entries[b]? = some y →
      ∀ k ∈ wait_keys e i x, k ∉ y.keys
  | .call r (.continuing _) => ∀ q x, s.responds[r]? = some q → s.entries[q.entry]? = some x →
      (s.of x).waits = true →
        s.lifecycle x.execution_id = .opened ∧ s.of x ≠ .claimed q.resume_request_id
  | .wait w .time_out => ∀ x, s.entries[w]? = some x → (s.of x).waits = true
  | _ => True

theorem Inv.claim (hi : Inv s) (e i id : String) (accepted : Bool) :
    Inv (s.claim e i id accepted) := by
  unfold State.claim
  split_ifs with h
  · refine hi.put (by simp) fun hs => ?_
    unfold State.begin at h
    split_ifs at h
    rw [hs] at h
    cases h
  · exact hi

theorem State.claim_entries (s : State) (e i id : String) (accepted : Bool) :
    (s.claim e i id accepted).entries = s.entries := by
  unfold State.claim
  split_ifs <;> rfl

theorem Inv.close (hi : Inv s) (e : String) : Inv (s.close e) := by
  refine hi.status _ fun e' i => ?_
  by_cases he : e' = e ∧ (s.status e' i).waits = true
  · rw [if_pos he]
    exact ⟨fun _ => by simp, fun _ => rfl⟩
  · rw [if_neg he]
    exact ⟨fun h => h, fun h => h⟩

theorem Inv.finish (hi : Inv s) (w : Nat) (x : Entry) {wait : Wait}
    (hw : wait.running = false) : Inv (s.finish w x wait) := by
  have hset : Inv (s.setEntry w fun x => { x with wait := wait }) :=
    hi.setEntry fun x _ => ⟨rfl, rfl, rfl, fun h => by rw [hw] at h; cases h⟩
  exact hset.unregister x.keys

/-- A hot wait of `s` ends in `t`, and is told that the interrupt still waits only if it does. -/
def Ends (s t : State) : Prop :=
  ∃ w x, s.entries[w]? = some x ∧ x.wait.running = true ∧ ∃ wait : Wait, wait.running = false ∧
    t = s.finish w x wait ∧ (wait = .returned false → (s.of x).waits = true)

def Goes (s t : State) : Prop :=
  ∀ (b : Nat) (x : Entry), s.entries[b]? = some x → ∃ y, t.entries[b]? = some y ∧
    (x.wait.running = true → y.wait.running = true)

variable {t : State}

theorem goes_of_entries (h : t.entries = s.entries) : Goes s t :=
  fun _ x hx => ⟨x, h ▸ hx, fun hr => hr⟩

theorem goes_setEntry {u : State} (h : u.entries = s.entries) (w : Nat)
    (hf : ∀ x, x.wait.running = true → (f x).wait.running = true) : Goes s (u.setEntry w f) := by
  intro b x hx
  refine ⟨_, (get_setEntry u w f b).trans (by rw [h, hx]; rfl), fun hr => ?_⟩
  dsimp only
  split_ifs
  · exact hf x hr
  · exact hr

theorem wait_cases {w : Nat} {move : WaitMove} (hi : Inv s)
    (hx : s.entries[w]? = some x) (hk : Kept s (.wait w move)) (h : s.waitStep w x move = some t) :
    (x.wait.running = true ∧ ∃ wait : Wait, wait.running = false ∧ t = s.finish w x wait ∧
        (wait = .returned false → (s.of x).waits = true)) ∨
      ∃ u f, Inv u ∧ u.entries = s.entries ∧ t = u.setEntry w f ∧
        (∀ x, x.wait.running = true → (f x).wait.running = true) ∧ Moves f x := by
  have hopen : s.of x ≠ .settled → (s.of x).waits = true := by
    intro hs
    have ht := hi.there hx
    generalize s.of x = v at hs ht
    cases v with
    | absent => exact absurd rfl ht
    | waiting => rfl
    | claimed id => rfl
    | settled => exact absurd rfl hs
  have hrun : ∀ {wait : Wait}, x.wait = wait → wait.running = true → x.wait.running = true :=
    fun he hw => he ▸ hw
  cases move with
  | time_out =>
    simp only [State.waitStep, Option.ite_none_right_eq_some, Option.some.injEq] at h
    exact Or.inl ⟨h.1.elim (hrun · rfl) (hrun · rfl), _, rfl, h.2.symm, fun _ => hk x hx⟩
  | wake =>
    simp only [State.waitStep, Option.ite_none_right_eq_some, Option.some.injEq] at h
    refine Or.inl ⟨hrun h.1.1 rfl, _, rfl, h.2.symm, fun hf => hopen ?_⟩
    simpa using hf
  | answer response =>
    simp only [State.waitStep] at h
    split_ifs at h with hask hset hres
    · cases h
      exact Or.inl ⟨hrun (not_not.mp hask) rfl, _, rfl, rfl, nofun⟩
    · cases h
      exact Or.inr ⟨s, _, hi, rfl, rfl, fun _ _ => rfl, rfl, rfl, rfl,
        fun _ => hrun (not_not.mp hask) rfl⟩
    · cases h
      exact Or.inl ⟨hrun (not_not.mp hask) rfl, _, rfl, rfl, fun _ => hopen hset⟩
  | provide accepted =>
    simp only [State.waitStep] at h
    split_ifs at h with hans
    cases h
    exact Or.inr ⟨_, _, hi.claim _ _ _ accepted, s.claim_entries _ _ _ accepted, rfl,
      fun _ _ => rfl, rfl, rfl, rfl, fun _ => hrun (not_not.mp hans) rfl⟩
  | provided =>
    simp only [State.waitStep, Option.ite_none_right_eq_some, Option.some.injEq] at h
    exact Or.inl ⟨hrun h.1 rfl, _, rfl, h.2.symm, nofun⟩
  | cancel =>
    simp only [State.waitStep, Option.ite_none_right_eq_some, Option.some.injEq] at h
    exact Or.inl ⟨h.1, _, rfl, h.2.symm, nofun⟩

/-- A continuation that returns at once has found the interrupt settled. -/
theorem settled_of_returned {id : String} {accepted : Bool}
    (ht : s.of x ≠ .absent) (hopen : (s.of x).waits = true →
      s.lifecycle x.execution_id = .opened ∧ s.of x ≠ .claimed id)
    (hb : s.begin x.execution_id x.interrupt_id id accepted = .returned) : s.of x = .settled := by
  unfold State.begin at hb
  have hof : s.of x = s.status x.execution_id x.interrupt_id := rfl
  rw [← hof] at hb
  generalize s.of x = v at hb ht hopen
  cases v with
  | absent => exact absurd rfl ht
  | waiting =>
    obtain ⟨hl, -⟩ := hopen rfl
    simp only [hl, ne_eq, not_true_eq_false, if_false] at hb
    split_ifs at hb
  | claimed other =>
    obtain ⟨hl, hne⟩ := hopen rfl
    have hid : other ≠ id := fun he => hne (by rw [he])
    simp only [hl, ne_eq, not_true_eq_false, if_false, if_neg hid] at hb
    split_ifs at hb
  | settled => rfl

/-- A step of a respond call changes no interrupt but the one of its entry. -/
theorem respond_spec {r : Nat} {q : Respond} {move : CallMove}
    (hi : Inv s) (hq : s.responds[r]? = some q) (hx : s.entries[q.entry]? = some x)
    (hk : Kept s (.call r move)) (h : s.respondStep r q x move = some t) :
    Inv t ∧ Goes s t ∧ ∀ e i, ¬ (e = x.execution_id ∧ i = x.interrupt_id) →
      t.status e i = s.status e i := by
  have hrun : ∀ {stage : Stage}, q.stage = stage → stage.running = true →
      q.stage.running = true := fun he hs => he ▸ hs
  have hsettled : s.of x = .settled →
      ∀ y, s.entries[q.entry]? = some y → s.of y = .settled := by
    intro hset y hy
    cases hx.symm.trans hy
    exact hset
  cases move with
  | continuing accepted =>
    simp only [State.respondStep] at h
    split_ifs at h with hask
    have hr := hrun (not_not.mp hask) rfl
    cases hb : s.begin x.execution_id x.interrupt_id q.resume_request_id accepted with
    | claimed =>
      rw [hb] at h
      cases h
      have hput := hi.claim x.execution_id x.interrupt_id q.resume_request_id accepted
      rw [State.claim, if_pos hb] at hput
      exact ⟨hput.setStage hq hr nofun, goes_of_entries rfl, fun _ _ hne => if_neg hne⟩
    | raised =>
      rw [hb] at h
      cases h
      exact ⟨hi.setStage hq hr nofun, goes_of_entries rfl, fun _ _ _ => rfl⟩
    | returned =>
      rw [hb] at h
      cases h
      have hset := settled_of_returned (hi.there hx) (hk q x hq hx) hb
      exact ⟨hi.setStage hq hr fun _ => hsettled hset, goes_of_entries rfl, fun _ _ _ => rfl⟩
  | continued =>
    simp only [State.respondStep, Option.ite_none_right_eq_some, Option.some.injEq] at h
    obtain ⟨⟨hs, hset⟩, rfl⟩ := h
    exact ⟨hi.setStage hq (hrun hs rfl) fun _ => hsettled hset, goes_of_entries rfl,
      fun _ _ _ => rfl⟩
  | failed =>
    simp only [State.respondStep, Option.ite_none_right_eq_some, Option.some.injEq] at h
    obtain ⟨hs, rfl⟩ := h
    exact ⟨hi.setStage hq (hs.elim (hrun · rfl) (hrun · rfl)) nofun, goes_of_entries rfl,
      fun _ _ _ => rfl⟩
  | responded =>
    simp only [State.respondStep] at h
    split_ifs at h with hs
    cases h
    have hset := hi.setEntry (w := q.entry) (f := fun x => { x with signalled := true })
      fun x _ => ⟨rfl, rfl, rfl, fun h => h⟩
    exact ⟨(hset.unregister x.keys).setStage hq (hrun (not_not.mp hs) rfl) nofun,
      goes_setEntry (u := s) rfl q.entry fun x hx => hx, fun _ _ _ => rfl⟩

theorem step_spec {a : Action} (hi : Inv s) (hk : Kept s a) (h : step s a = some t) :
    Inv t ∧ (Ends s t ∨ Goes s t) := by
  cases a with
  | interrupt e i =>
    simp only [step, Option.ite_none_right_eq_some, Option.some.injEq] at h
    obtain ⟨hs, rfl⟩ := h
    refine ⟨hi.put (by simp) fun hset => ?_, Or.inr (goes_of_entries rfl)⟩
    rw [hs] at hset
    cases hset
  | continue_with e i id accepted =>
    cases h
    exact ⟨hi.claim e i id accepted, Or.inr (goes_of_entries (s.claim_entries e i id accepted))⟩
  | resumed e i =>
    simp only [step] at h
    split at h
    · cases h
      exact ⟨hi.put (by simp) fun _ => rfl, Or.inr (goes_of_entries rfl)⟩
    · cases h
  | closing e =>
    cases h
    exact ⟨hi.status _ fun _ _ => ⟨fun h => h, fun h => h⟩, Or.inr (goes_of_entries rfl)⟩
  | close e =>
    cases h
    exact ⟨hi.close e, Or.inr (goes_of_entries rfl)⟩
  | forget e =>
    simp only [step, Option.ite_none_right_eq_some, Option.some.injEq] at h
    obtain ⟨-, rfl⟩ := h
    refine ⟨hi.unlive fun k a ha => ?_, Or.inr (goes_of_entries rfl)⟩
    exact (Option.filter_eq_some_iff.mp ha).1
  | abandon key =>
    obtain ⟨a, -, hrest⟩ := Option.bind_eq_some_iff.mp h
    obtain ⟨x, -, rfl⟩ := Option.map_eq_some_iff.mp hrest
    exact ⟨hi.close _, Or.inr (goes_of_entries rfl)⟩
  | register e i x wait =>
    simp only [step] at h
    split_ifs at h with hbad
    cases h
    refine ⟨hi.register (fun hs => hbad (Or.inl hs)) hk, Or.inr fun b y hy => ?_⟩
    exact ⟨y, s.register_old hy, fun hr => hr⟩
  | respond key id =>
    obtain ⟨a, ha, rfl⟩ := Option.map_eq_some_iff.mp h
    exact ⟨hi.respond ha, Or.inr (goes_of_entries rfl)⟩
  | wait w move =>
    obtain ⟨x, hx, hstep⟩ := Option.bind_eq_some_iff.mp h
    rcases wait_cases hi hx hk hstep with ⟨hrun, wait, hw, rfl, hf⟩ | ⟨u, f, hu, he, rfl, hf, hm⟩
    · exact ⟨hi.finish w x hw, Or.inl ⟨w, x, hx, hrun, wait, hw, rfl, hf⟩⟩
    · refine ⟨hu.setEntry fun y hy => ?_, Or.inr (goes_setEntry he w hf)⟩
      rw [he] at hy
      cases hx.symm.trans hy
      exact hm
  | call r move =>
    obtain ⟨q, hq, hrest⟩ := Option.bind_eq_some_iff.mp h
    obtain ⟨x, hx, hstep⟩ := Option.bind_eq_some_iff.mp hrest
    have hspec := respond_spec hi hq hx hk hstep
    exact ⟨hspec.1, Or.inr hspec.2.1⟩

/-- What a respond call does in a step, and where a hot wait that ends leaves the others. -/
structure Met (s : State) (a : Action) (t : State) : Prop where
  responded : ∀ r, a = .call r .responded → ∃ q x, s.responds[r]? = some q ∧
    t.entries[q.entry]? = some x ∧ q.key ∈ x.keys ∧ t.of x = .settled ∧
      ∀ (b : Nat) (y : Entry), t.entries[b]? = some y → y.wait.running = true →
        y.execution_id = x.execution_id → y.interrupt_id = x.interrupt_id → y.signalled = true
  only : ∀ r move, a = .call r move → ∃ q x, s.responds[r]? = some q ∧
    s.entries[q.entry]? = some x ∧ ∀ e i, ¬ (e = x.execution_id ∧ i = x.interrupt_id) →
      t.status e i = s.status e i
  ended : ∀ (w : Nat) (x y : Entry), s.entries[w]? = some x → t.entries[w]? = some y →
    x.wait.running = true → y.wait.running = false →
      (∀ k b, s.live_waits k = some b → b ≠ w → t.live_waits k = some b) ∧
        (y.wait = .returned false → (t.of y).waits = true)

theorem run_inv {as : List Action} (hm : machine.Meets Kept initial as)
    (hr : machine.run initial as = some s) : Inv s :=
  machine.run_invariant_meeting (fun _ _ _ hi hk hs => (step_spec hi hk hs).1) inv_initial hm hr

theorem met_responded {r : Nat} (hi : Inv s)
    (h : step s (.call r .responded) = some t) : ∃ q x, s.responds[r]? = some q ∧
      t.entries[q.entry]? = some x ∧ q.key ∈ x.keys ∧ t.of x = .settled ∧
        ∀ (b : Nat) (y : Entry), t.entries[b]? = some y → y.wait.running = true →
          y.execution_id = x.execution_id → y.interrupt_id = x.interrupt_id →
            y.signalled = true := by
  obtain ⟨q, hq, hrest⟩ := Option.bind_eq_some_iff.mp h
  obtain ⟨x, hx, hstep⟩ := Option.bind_eq_some_iff.mp hrest
  simp only [State.respondStep] at hstep
  split_ifs at hstep with hs
  cases hstep
  obtain ⟨x', hx', hkey, hc⟩ := hi.held (List.mem_of_getElem? hq)
  cases hx.symm.trans hx'
  have hget := fun b => get_setEntry s q.entry (fun x => { x with signalled := true }) b
  refine ⟨q, { x with signalled := true }, hq, ?_, hkey, hc (not_not.mp hs), ?_⟩
  · exact (hget q.entry).trans (by rw [hx, Option.map_some, if_pos rfl])
  · intro b y hy hrun he hint
    obtain ⟨z, hz, rfl⟩ := Option.map_eq_some_iff.mp ((hget b).symm.trans hy)
    by_cases hb : q.entry = b
    · rw [if_pos hb]
    · rw [if_neg hb] at hrun he hint
      -- the pair key is one of both entries, and the respond call holds the other one
      have hself : s.InUse q.entry :=
        Or.inr (Or.inr ⟨q, List.mem_of_getElem? hq, rfl, by rw [not_not.mp hs]; rfl⟩)
      have hpair : x.execution_id ++ ":" ++ x.interrupt_id ∈ z.keys := by
        rw [Entry.keys, wait_keys, he, hint]
        exact List.mem_cons_self
      exact absurd (hi.apart hself (Or.inr (Or.inl ⟨z, hz, hrun⟩)) hx hz List.mem_cons_self hpair)
        hb

theorem met_ended {w : Nat} {y : Entry} (hi : Inv s) (h : Ends s t ∨ Goes s t)
    (hx : s.entries[w]? = some x) (hy : t.entries[w]? = some y) (hrun : x.wait.running = true)
    (hend : y.wait.running = false) :
    (∀ k b, s.live_waits k = some b → b ≠ w → t.live_waits k = some b) ∧
      (y.wait = .returned false → (t.of y).waits = true) := by
  rcases h with ⟨v, x', hx', hrun', wait, hw, rfl, hf⟩ | h
  · have hget := (get_setEntry s v (fun x => { x with wait := wait }) w).symm.trans hy
    rw [hx, Option.map_some] at hget
    by_cases hv : v = w
    · subst hv
      cases hx.symm.trans hx'
      rw [if_pos rfl] at hget
      cases hget
      refine ⟨?_, fun hr => hf hr⟩
      intro k b hb hne
      have hnk : k ∉ x.keys := by
        intro hk
        obtain ⟨z, hz, hkz⟩ := hi.named hb
        exact hne (hi.apart (Or.inl ⟨k, hb⟩) (Or.inr (Or.inl ⟨x, hx, hrun⟩)) hz hx hkz hk)
      exact (if_neg hnk).trans hb
    · rw [if_neg hv] at hget
      cases hget
      rw [hrun] at hend
      cases hend
  · obtain ⟨z, hz, hgo⟩ := h w x hx
    cases hz.symm.trans hy
    rw [hgo hrun] at hend
    cases hend

def answered : List Action :=
  [.interrupt "e" "i", .register "e" "i" "" .listening, .respond "e:i" "",
    .call 0 (.continuing true), .resumed "e" "i", .call 0 .continued]

end Agently.LiveWaits
