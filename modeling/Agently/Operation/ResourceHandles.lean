import Mathlib.Data.List.Nodup
import Agently.Operation.ExecutionResource

/-! # Handles are live while held

A release that begins, or a health check that fails, changes a handle under the calls that are about
to return it or are releasing it already. -/

namespace Agently.ExecutionResource

open Agently.Lib

/-- The task's caller was given the handle, and since then has neither given it back nor has a
health check of it failed. -/
def holds (task id : Nat) : List Event → Bool
  | [] => false
  | .returned t i _ :: rest => (t == task && i == id) || holds task id rest
  | .letGo t i :: rest => !(t == task && i == id) && holds task id rest
  | .checkFailed i :: rest => i != id && holds task id rest
  | .releaseCalled _ _ :: rest => holds task id rest
  | .releaseFailed _ _ :: rest => holds task id rest

/-- The task has called the provider's release of the handle, and the call has not failed. -/
def closedBy (task id : Nat) : List Event → Bool
  | [] => false
  | .releaseCalled t i :: rest => (t == task && i == id) || closedBy task id rest
  | .releaseFailed t i :: rest => !(t == task && i == id) && closedBy task id rest
  | .returned _ _ _ :: rest => closedBy task id rest
  | .letGo _ _ :: rest => closedBy task id rest
  | .checkFailed _ :: rest => closedBy task id rest

/-- Every handle is returned ready; the provider's release is called on a handle nobody holds,
and never again while a call on it is in progress or after one has succeeded. -/
def LiveWhileHeld : List Event → Prop
  | [] => True
  | .returned _ _ status :: rest => status = .ready ∧ LiveWhileHeld rest
  | .releaseCalled _ id :: rest =>
    (∀ t, holds t id rest = false) ∧ (∀ t, closedBy t id rest = false) ∧ LiveWhileHeld rest
  | .letGo _ _ :: rest => LiveWhileHeld rest
  | .checkFailed _ :: rest => LiveWhileHeld rest
  | .releaseFailed _ _ :: rest => LiveWhileHeld rest

def Phase.expects (id : Nat) : Phase → Bool
  | .checking _ i => i == id
  | .announcing i => i == id
  | _ => false

def Phase.releases (id : Nat) : Phase → Bool
  | .releasing _ i => i == id
  | .releaseCalled _ i => i == id
  | _ => false

def Undisturbed (m : Manager) (task id : Nat) : Prop :=
  ∀ t, t ≠ task → (m.phase t).expects id = false ∧ (m.phase t).releases id = false

/-- A release begins, and a health check fails, only on a handle no other call is at. -/
def Apart (m : Manager) : Action → Prop
  | .ensure task key => ∀ id, m.handles_by_reuse_key.get? key = some id → id ∈ m.handles →
      (m.handleOf id).status ≠ .ready → Undisturbed m task id
  | .healthChecked task ready => ready = false →
      ∀ key id, m.phase task = .checking key id → Undisturbed m task id
  | .emitted task => ∀ key id, m.phase task = .unhealthy key id → id ∈ m.handles →
      Undisturbed m task id
  | .release task => ∀ id, m.phase task = .holding id → id ∈ m.handles →
      (m.handleOf id).ref_count ≤ 1 → Undisturbed m task id
  | .created _ _ => True
  | .providerReleased _ _ => True

def Phase.handle : Phase → Option Nat
  | .checking _ i => some i
  | .unhealthy _ i => some i
  | .releasing _ i => some i
  | .releaseCalled _ i => some i
  | .announcing i => some i
  | .holding i => some i
  | _ => none

def Phase.uses (id : Nat) : Phase → Bool
  | .announcing i => i == id
  | .holding i => i == id
  | _ => false

structure Sound (m : Manager) : Prop where
  fresh : ∀ t id, (m.phase t).handle = some id → id < m.made
  registered : ∀ id ∈ m.handles, id < m.made
  unborn : ∀ id, m.made ≤ id → ∀ t, holds t id m.log = false ∧ closedBy t id m.log = false
  expected : ∀ t id, (m.phase t).expects id = true → (m.handleOf id).status = .ready
  sick : ∀ t key id, m.phase t = .unhealthy key id → (m.handleOf id).status ≠ .ready
  kept : ∀ id, (m.handleOf id).status = .ready → id < m.made → id ∈ m.handles
  counted : ∀ id, (m.handleOf id).status = .ready → id < m.made → ∃ users : List Nat,
    users.Nodup ∧ (∀ t, t ∈ users ↔ (m.phase t).uses id = true) ∧
      users.length = (m.handleOf id).ref_count
  stale : ∀ id, (m.handleOf id).status ≠ .ready → ∀ t, holds t id m.log = false
  releasing : ∀ t id, (m.phase t).releases id = true →
    (m.handleOf id).status ≠ .ready ∧ id ∈ m.handles
  alone : ∀ t t' id, (m.phase t).releases id = true → (m.phase t').releases id = true → t = t'
  held : ∀ t id, holds t id m.log = true → m.phase t = .holding id
  closed : ∀ t id, closedBy t id m.log = true →
    (∃ key, m.phase t = .releaseCalled key id) ∨ id ∉ m.handles
  live : LiveWhileHeld m.log

section

variable {m : Manager}

@[simp] theorem phase_setPhase (m : Manager) (task t : Nat) (p : Phase) :
    (m.setPhase task p).phase t = if t = task then p else m.phase t := by
  unfold Manager.setPhase
  by_cases h : t = task
  · subst h
    rw [if_pos rfl]
    exact Function.update_self t p m.phase
  · rw [if_neg h]
    exact Function.update_of_ne h p m.phase

@[simp] theorem handleOf_setHandle (m : Manager) (id i : Nat) (h : Handle) :
    (m.setHandle id h).handleOf i = if i = id then h else m.handleOf i := by
  unfold Manager.setHandle
  by_cases hi : i = id
  · subst hi
    rw [if_pos rfl]
    exact Function.update_self i h m.handleOf
  · rw [if_neg hi]
    exact Function.update_of_ne hi h m.handleOf

theorem handleOf_setStatus (m : Manager) (id i : Nat) (status : Status) :
    (m.setStatus id status).handleOf i =
      if i = id then { m.handleOf id with status := status } else m.handleOf i :=
  handleOf_setHandle m id i _

theorem expects_uses {p : Phase} {id : Nat} (h : p.expects id = true) :
    p.handle = some id := by
  cases p <;> simp_all [Phase.expects, Phase.handle]

theorem releases_handle {p : Phase} {id : Nat} (h : p.releases id = true) :
    p.handle = some id := by
  cases p <;> simp_all [Phase.releases, Phase.handle]

theorem uses_handle {p : Phase} {id : Nat} (h : p.uses id = true) : p.handle = some id := by
  cases p <;> simp_all [Phase.uses, Phase.handle]

theorem Sound.change (h : Sound m) {task id n : Nat} {q : Phase}
    (hcount : (m.handleOf id).status = .ready → id < m.made → ∃ users : List Nat,
      users.Nodup ∧ (∀ t, t ∈ users ↔ (if t = task then q else m.phase t).uses id = true) ∧
        users.length = n)
    (huses : ∀ i, i ≠ id → (m.handleOf i).status = .ready → q.uses i = (m.phase task).uses i)
    (hheld : ∀ i, holds task i m.log = true → q = .holding i)
    (hcalled : ∀ i, closedBy task i m.log = true → (∃ key, q = .releaseCalled key i) ∨ i ∉ m.handles)
    (hfresh : ∀ i, q.handle = some i → i < m.made)
    (hexpects : ∀ i, q.expects i = true → (m.handleOf i).status = .ready)
    (hsick : ∀ key i, q = .unhealthy key i → (m.handleOf i).status ≠ .ready)
    (hreleases : ∀ i, q.releases i = true → (m.handleOf i).status ≠ .ready ∧ i ∈ m.handles ∧
      ∀ t, t ≠ task → (m.phase t).releases i = false) :
    Sound ((m.setHandle id { m.handleOf id with ref_count := n }).setPhase task q) := by
  let u := (m.setHandle id { m.handleOf id with ref_count := n }).setPhase task q
  have hphase : ∀ t, u.phase t = if t = task then q else m.phase t :=
    fun t => phase_setPhase (m.setHandle id _) task t q
  have hstatus : ∀ i, (u.handleOf i).status = (m.handleOf i).status := by
    intro i
    have hof : u.handleOf i =
        if i = id then { m.handleOf id with ref_count := n } else m.handleOf i :=
      handleOf_setHandle m id i _
    rw [hof]
    split
    · rename_i he
      rw [he]
    · rfl
  have hcountOf : ∀ i, (u.handleOf i).ref_count = if i = id then n else (m.handleOf i).ref_count := by
    intro i
    have hof : u.handleOf i =
        if i = id then { m.handleOf id with ref_count := n } else m.handleOf i :=
      handleOf_setHandle m id i _
    rw [hof]
    split <;> rfl
  refine ⟨?_, h.registered, h.unborn, ?_, ?_, ?_, ?_, ?_, ?_, ?_, ?_, ?_, h.live⟩
  · intro t i ht
    rw [hphase] at ht
    split at ht
    · exact hfresh i ht
    · exact h.fresh t i ht
  · intro t i ht
    rw [hstatus]
    rw [hphase] at ht
    split at ht
    · exact hexpects i ht
    · exact h.expected t i ht
  · intro t key i ht
    rw [hstatus]
    rw [hphase] at ht
    split at ht
    · exact hsick key i ht
    · exact h.sick t key i ht
  · intro i hi
    rw [hstatus] at hi
    exact h.kept i hi
  · intro i hi hlt
    rw [hstatus] at hi
    rw [hcountOf]
    by_cases he : i = id
    · subst he
      rw [if_pos rfl]
      obtain ⟨users, hnodup, hmem, hlen⟩ := hcount hi hlt
      exact ⟨users, hnodup, fun t => by rw [hphase]; exact hmem t, hlen⟩
    · rw [if_neg he]
      obtain ⟨users, hnodup, hmem, hlen⟩ := h.counted i hi hlt
      refine ⟨users, hnodup, ?_, hlen⟩
      intro t
      rw [hphase, hmem]
      split
      · rename_i ht
        rw [ht, huses i he hi]
      · rfl
  · intro i hi
    rw [hstatus] at hi
    exact h.stale i hi
  · intro t i ht
    rw [hstatus]
    rw [hphase] at ht
    split at ht
    · exact ⟨(hreleases i ht).1, (hreleases i ht).2.1⟩
    · exact h.releasing t i ht
  · intro t t' i ht ht'
    rw [hphase] at ht ht'
    by_cases he : t = task
    · by_cases he' : t' = task
      · rw [he, he']
      · rw [if_pos he] at ht
        rw [if_neg he', (hreleases i ht).2.2 t' he'] at ht'
        cases ht'
    · rw [if_neg he] at ht
      by_cases he' : t' = task
      · rw [if_pos he'] at ht'
        rw [(hreleases i ht').2.2 t he] at ht
        cases ht
      · rw [if_neg he'] at ht'
        exact h.alone t t' i ht ht'
  · intro t i ht
    rw [hphase]
    split
    · rename_i he
      rw [he] at ht
      exact hheld i ht
    · exact h.held t i ht
  · intro t i ht
    rw [hphase]
    split
    · rename_i he
      rw [he] at ht
      exact hcalled i ht
    · exact h.closed t i ht

theorem Sound.move (h : Sound m) {task : Nat} {q : Phase}
    (huses : ∀ i, (m.handleOf i).status = .ready → q.uses i = (m.phase task).uses i)
    (hheld : ∀ i, holds task i m.log = true → q = .holding i)
    (hcalled : ∀ i, closedBy task i m.log = true → (∃ key, q = .releaseCalled key i) ∨ i ∉ m.handles)
    (hfresh : ∀ i, q.handle = some i → i < m.made)
    (hexpects : ∀ i, q.expects i = true → (m.handleOf i).status = .ready)
    (hsick : ∀ key i, q = .unhealthy key i → (m.handleOf i).status ≠ .ready)
    (hreleases : ∀ i, q.releases i = true → (m.handleOf i).status ≠ .ready ∧ i ∈ m.handles ∧
      ∀ t, t ≠ task → (m.phase t).releases i = false) :
    Sound (m.setPhase task q) := by
  have hsame : m.setHandle 0 { m.handleOf 0 with ref_count := (m.handleOf 0).ref_count } = m := by
    unfold Manager.setHandle
    rw [Function.update_eq_self]
  have hcount : (m.handleOf 0).status = .ready → 0 < m.made → ∃ users : List Nat,
      users.Nodup ∧ (∀ t, t ∈ users ↔ (if t = task then q else m.phase t).uses 0 = true) ∧
        users.length = (m.handleOf 0).ref_count := by
    intro hready hlt
    obtain ⟨users, hnodup, hmem, hlen⟩ := h.counted 0 hready hlt
    refine ⟨users, hnodup, ?_, hlen⟩
    intro t
    rw [hmem]
    split
    · rename_i ht
      rw [ht, huses 0 hready]
    · rfl
  have hchanged := h.change hcount (fun i _ => huses i) hheld hcalled hfresh hexpects hsick
    hreleases
  rwa [hsame] at hchanged

theorem Sound.idle (h : Sound m) {task : Nat} {q : Phase} (hq : q.handle = none)
    (huses : ∀ i, (m.phase task).uses i = false)
    (hcalled : ∀ key i, m.phase task ≠ .releaseCalled key i) : Sound (m.setPhase task q) := by
  have hnot : ∀ i, q.expects i = false ∧ q.uses i = false ∧ q.releases i = false := by
    cases q <;> simp_all [Phase.handle, Phase.expects, Phase.uses, Phase.releases]
  refine h.move ?_ ?_ ?_ ?_ ?_ ?_ ?_
  · intro i _
    rw [(hnot i).2.1, huses]
  · intro i hi
    have hu := huses i
    rw [h.held task i hi] at hu
    simp [Phase.uses] at hu
  · intro i hi
    rcases h.closed task i hi with ⟨key, hk⟩ | hn
    · exact absurd hk (hcalled key i)
    · exact .inr hn
  · intro i hi
    rw [hq] at hi
    cases hi
  · intro i hi
    rw [(hnot i).1] at hi
    cases hi
  · rintro key i rfl
    cases hq
  · intro i hi
    rw [(hnot i).2.2] at hi
    cases hi

theorem Sound.spoil (h : Sound m) {id : Nat} {status : Status} (hs : status ≠ .ready)
    (hexpects : ∀ t, (m.phase t).expects id = false) (hstale : ∀ t, holds t id m.log = false) :
    Sound (m.setStatus id status) := by
  have hof := handleOf_setStatus m id
  refine ⟨h.fresh, h.registered, h.unborn, ?_, ?_, ?_, ?_, ?_, ?_, h.alone, h.held, h.closed,
    h.live⟩
  · intro t i ht
    by_cases he : i = id
    · rw [he] at ht
      rw [show (m.setStatus id status).phase t = m.phase t from rfl, hexpects] at ht
      cases ht
    · rw [hof, if_neg he]
      exact h.expected t i ht
  · intro t key i ht
    rw [hof]
    split
    · exact hs
    · exact h.sick t key i ht
  · intro i hi
    rw [hof] at hi
    split at hi
    · exact absurd hi hs
    · exact h.kept i hi
  · intro i hi hlt
    rw [hof] at hi ⊢
    split at hi
    · exact absurd hi hs
    · rename_i he
      rw [if_neg he]
      exact h.counted i hi hlt
  · intro i hi t
    by_cases he : i = id
    · rw [he]
      exact hstale t
    · rw [hof, if_neg he] at hi
      exact h.stale i hi t
  · intro t i ht
    obtain ⟨hn, hm⟩ := h.releasing t i ht
    refine ⟨?_, hm⟩
    rw [hof]
    split
    · exact hs
    · exact hn

theorem Sound.emit (h : Sound m) {event : Event}
    (hholds : ∀ t i, holds t i (event :: m.log) = true → holds t i m.log = true)
    (hclosed : ∀ t i, closedBy t i (event :: m.log) = true → closedBy t i m.log = true)
    (hlive : LiveWhileHeld (event :: m.log)) : Sound (m.emit event) := by
  have hfalse : ∀ {t i}, holds t i m.log = false → holds t i (event :: m.log) = false := by
    intro t i hf
    by_contra hne
    rw [hholds t i (by simpa using hne)] at hf
    cases hf
  refine ⟨h.fresh, h.registered, ?_, h.expected, h.sick, h.kept, h.counted, ?_, h.releasing,
    h.alone, ?_, ?_, hlive⟩
  · intro i hi t
    obtain ⟨h1, h2⟩ := h.unborn i hi t
    refine ⟨hfalse h1, ?_⟩
    change closedBy t i (event :: m.log) = false
    by_contra hne
    rw [hclosed t i (by simpa using hne)] at h2
    cases h2
  · intro i hi t
    exact hfalse (h.stale i hi t)
  · intro t i ht
    exact h.held t i (hholds t i ht)
  · intro t i ht
    exact h.closed t i (hclosed t i ht)

end

end Agently.ExecutionResource
