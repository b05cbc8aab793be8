import Mathlib.Data.List.Nodup
import Mathlib.Data.List.Perm.Subperm
import Mathlib.Tactic.Linarith
import Agently.Utils.RequestScheduler

/-! # The scheduler's limits

Configuring drops the primitives that other requests hold or wait for, and a token is taken before
the wait for a permit. -/

namespace Agently.RequestScheduler

open Agently.Lib
open Agently.TaskDAGValidation (strip)

def Phase.holds : Phase → Bool
  | .holding _ => true
  | _ => false

def Phase.sleeps : Phase → Bool
  | .sleeping _ _ _ => true
  | _ => false

/-- At most `N` requests hold the slot, and entries are apart by the interval of the rate. -/
structure LimitsHold (N : Nat) (r : ℚ) (s : State) : Prop where
  concurrency : ∀ l : List Nat, l.Nodup → (∀ i ∈ l, (s.phase i).holds = true) → l.length ≤ N
  rate : s.entries.Pairwise fun later earlier => earlier + 1 / r ≤ later

section

variable (provider : String)

def Unused (N : Nat) (s : State) : Prop :=
  (∀ id, s.semaphores.get? provider = some id →
    (s.semaphoreOf id).value = N ∧ (s.semaphoreOf id).waiters = []) ∧
  ∀ id, s.buckets.get? provider = some id →
    (s.bucketOf id).lock.isFree = true ∧ (s.bucketOf id).next_allowed_at ≤ s.now

def PermitFree (s : State) : Prop :=
  ∀ id, s.semaphores.get? provider = some id → (s.semaphoreOf id).isFree = true

def TakesToken (s : State) : Action → Prop
  | .enter _ => ∀ id, s.buckets.get? provider = some id →
      (s.bucketOf id).lock.isFree = true ∧ (s.bucketOf id).next_allowed_at ≤ s.now
  | .lockGranted i => ∀ id config, s.phase i = .queued id config →
      (s.bucketOf id).next_allowed_at ≤ s.now
  | .wake _ => True
  | _ => False

def Apart (N : Nat) (s : State) (a : Action) : Prop :=
  (∀ i, a = .configure i → Unused provider N s) ∧
    (TakesToken provider s a → PermitFree provider s)

instance decidableForallSome {α : Type} (o : Option α) (P : α → Prop) [DecidablePred P] :
    Decidable (∀ a, o = some a → P a) :=
  match o with
  | none => isTrue fun _ h => nomatch h
  | some a => decidable_of_iff (P a) ⟨fun h _ hb => Option.some.inj hb ▸ h, fun h => h a rfl⟩

instance (N : Nat) (s : State) : Decidable (Unused provider N s) :=
  inferInstanceAs (Decidable (_ ∧ _))

instance (s : State) : Decidable (PermitFree provider s) :=
  inferInstanceAs (Decidable (∀ _, _ → _))

instance decidableTakesToken (s : State) : (a : Action) → Decidable (TakesToken provider s a)
  | .enter _ => inferInstanceAs (Decidable (∀ _, _ → _))
  | .lockGranted i =>
    match h : s.phase i with
    | .queued id config =>
      decidable_of_iff ((s.bucketOf id).next_allowed_at ≤ s.now)
        ⟨fun hn id' config' hi => by
          rw [h] at hi
          cases hi
          exact hn, fun hn => hn id config h⟩
    | .idle | .configured | .failed | .sleeping _ _ _ | .waiting _ | .holding _ | .left =>
      isTrue fun id config hi => by
        rw [h] at hi
        cases hi
  | .wake _ => isTrue trivial
  | .advance _ | .configure _ | .permitGranted _ | .leave _ => isFalse fun h => h

instance (N : Nat) (s : State) (a : Action) : Decidable (Apart provider N s a) :=
  match a with
  | .configure i =>
    decidable_of_iff (Unused provider N s)
      ⟨fun h => ⟨fun _ _ => h, fun hf => hf.elim⟩, fun h => h.1 i rfl⟩
  | .advance _ | .enter _ | .lockGranted _ | .wake _ | .permitGranted _ | .leave _ =>
    decidable_of_iff (TakesToken provider s _ → PermitFree provider s)
      ⟨fun h => ⟨(fun _ hc => nomatch hc), h⟩, fun h => h.2⟩

end

section

variable (provider : String) (N : Nat) (r : ℚ)

/-- Every request under way uses the primitives that are cached, and every entry lies an
interval behind the bucket. -/
structure Orderly (s : State) : Prop where
  time : 0 ≤ s.now
  config : ∀ i, s.phase i = .configured → s.configs.get? provider = some ⟨some N, some r⟩
  queued : ∀ i id c, s.phase i = .queued id c → c = ⟨some N, some r⟩ ∧
    s.buckets.get? provider = some id ∧ ∃ d, (i, d) ∈ (s.bucketOf id).lock.waiters
  sleeping : ∀ i id w c, s.phase i = .sleeping id w c → c = ⟨some N, some r⟩ ∧
    s.buckets.get? provider = some id ∧ w = (s.bucketOf id).next_allowed_at ∧
    (s.bucketOf id).lock.locked = true ∧ ∀ x ∈ (s.bucketOf id).lock.waiters, x.2 = false
  alone : ∀ i j, (s.phase i).sleeps = true → (s.phase j).sleeps = true → i = j
  waiting : ∀ i id, s.phase i ≠ .waiting id
  holding : ∀ i o, s.phase i = .holding o →
    ∃ id, o = some id ∧ s.semaphores.get? provider = some id
  permits : ∀ id, s.semaphores.get? provider = some id → (s.semaphoreOf id).waiters = [] ∧
    ∃ holders : List Nat, holders.Nodup ∧ (∀ i, i ∈ holders ↔ (s.phase i).holds = true) ∧
      (s.semaphoreOf id).value + holders.length = N
  bucket : ∀ id, s.buckets.get? provider = some id → (s.bucketOf id).min_interval = 1 / r ∧
    (∀ x ∈ (s.bucketOf id).lock.waiters.tail, x.2 = false) ∧
    ∀ e ∈ s.entries, e + 1 / r ≤ (s.bucketOf id).next_allowed_at
  unlimited : s.buckets.get? provider = none → ∀ e ∈ s.entries, e + 1 / r ≤ s.now
  spaced : s.entries.Pairwise fun later earlier => earlier + 1 / r ≤ later

variable {provider N r} {s : State}

theorem Orderly.limitsHold (h : Orderly provider N r s) : LimitsHold N r s := by
  refine ⟨?_, h.spaced⟩
  intro l hl hall
  cases hs : s.semaphores.get? provider with
  | none =>
    cases l with
    | nil => exact Nat.zero_le N
    | cons i l =>
      have hi := hall i List.mem_cons_self
      cases hp : s.phase i with
      | holding o =>
        obtain ⟨id, -, hid⟩ := h.holding i o hp
        rw [hs] at hid
        cases hid
      | _ =>
        rw [hp] at hi
        cases hi
  | some id =>
    obtain ⟨-, holders, hnodup, hmem, hsum⟩ := h.permits id hs
    have hsub : l ⊆ holders := fun i hi => (hmem i).mpr (hall i hi)
    have hle := (hl.subperm hsub).length_le
    omega

theorem phase_setPhase (s : State) (i j : Nat) (p : Phase) :
    (s.setPhase i p).phase j = if j = i then p else s.phase j := by
  unfold State.setPhase
  by_cases h : j = i
  · subst h
    rw [if_pos rfl]
    exact Function.update_self j p s.phase
  · rw [if_neg h]
    exact Function.update_of_ne h p s.phase

theorem Orderly.forget (h : Orderly provider N r s) {i : Nat} {p : Phase}
    (hi : (s.phase i).holds = false) (hp : p = .left ∨ p = .failed) :
    Orderly provider N r (s.setPhase i p) := by
  have hother : ∀ {j q}, (s.setPhase i p).phase j = q → q ≠ p → s.phase j = q := by
    intro j q hq hne
    rw [phase_setPhase] at hq
    split at hq
    · exact absurd hq.symm hne
    · exact hq
  have hholds : ∀ j, ((s.setPhase i p).phase j).holds = (s.phase j).holds := by
    intro j
    rw [phase_setPhase]
    split
    · rename_i he
      subst he
      rw [hi]
      rcases hp with rfl | rfl <;> rfl
    · rfl
  have hsleeps : ∀ j, ((s.setPhase i p).phase j).sleeps = true → (s.phase j).sleeps = true := by
    intro j hj
    rw [phase_setPhase] at hj
    split at hj
    · rcases hp with rfl | rfl <;> cases hj
    · exact hj
  refine ⟨h.time, ?_, ?_, ?_, fun j k hj hk => h.alone j k (hsleeps j hj) (hsleeps k hk), ?_, ?_,
    ?_, h.bucket, h.unlimited, h.spaced⟩
  · intro j hj
    exact h.config j (hother hj (by rcases hp with rfl | rfl <;> simp))
  · intro j id c hj
    exact h.queued j id c (hother hj (by rcases hp with rfl | rfl <;> simp))
  · intro j id w c hj
    exact h.sleeping j id w c (hother hj (by rcases hp with rfl | rfl <;> simp))
  · intro j id hj
    exact h.waiting j id (hother hj (by rcases hp with rfl | rfl <;> simp))
  · intro j o hj
    exact h.holding j o (hother hj (by rcases hp with rfl | rfl <;> simp))
  · intro id hid
    obtain ⟨hw, holders, hn, hm, hsum⟩ := h.permits id hid
    exact ⟨hw, holders, hn, fun j => by rw [hholds]; exact hm j, hsum⟩

theorem wakeFirst_tail (ws : Waiters) : ws.wakeFirst.tail = ws.tail := by
  cases ws <;> rfl

theorem mem_wakeFirst {ws : Waiters} {i : Nat} {d : Bool} (h : (i, d) ∈ ws) :
    ∃ d, (i, d) ∈ ws.wakeFirst := by
  cases ws with
  | nil => cases h
  | cons w rest =>
    rcases List.mem_cons.mp h with rfl | h
    · exact ⟨true, List.mem_cons_self⟩
    · exact ⟨d, List.mem_cons_of_mem _ h⟩

theorem Orderly.take (h : Orderly provider N r s) {id : Nat}
    (hid : s.buckets.get? provider = some id) (hnone : ∀ j, (s.phase j).sleeps = false)
    (hr : 0 < r) (hnow : (s.bucketOf id).next_allowed_at ≤ s.now) :
    Orderly provider N r (s.setBucket id ((s.bucketOf id).take s.now)) ∧
      (∀ e ∈ s.entries, e + 1 / r ≤ s.now) ∧
      ((s.bucketOf id).take s.now).next_allowed_at = s.now + 1 / r := by
  obtain ⟨hint, htail, hbehind⟩ := h.bucket id hid
  have hself : (s.setBucket id ((s.bucketOf id).take s.now)).bucketOf id =
      (s.bucketOf id).take s.now := Function.update_self _ _ _
  have hnext : ((s.bucketOf id).take s.now).next_allowed_at = s.now + 1 / r := by
    unfold _TokenBucket.take
    dsimp only
    rw [max_eq_left hnow, hint]
  have hpos : 0 < 1 / r := one_div_pos.mpr hr
  refine ⟨⟨h.time, h.config, ?_, ?_, h.alone, h.waiting, h.holding, h.permits, ?_, h.unlimited,
    h.spaced⟩, fun e he => le_trans (hbehind e he) hnow, hnext⟩
  · intro j id' c hj
    obtain ⟨hc, hb, d, hd⟩ := h.queued j id' c hj
    have he : id' = id := Option.some.inj (hb.symm.trans hid)
    subst he
    refine ⟨hc, hb, ?_⟩
    rw [hself]
    exact mem_wakeFirst hd
  · intro j id' w c hj
    have hs := hnone j
    rw [show s.phase j = .sleeping id' w c from hj] at hs
    cases hs
  · intro id' hid'
    have he : id' = id := Option.some.inj (hid'.symm.trans hid)
    subst he
    rw [hself, hnext]
    refine ⟨hint, ?_, ?_⟩
    · change ∀ x ∈ (s.bucketOf id').lock.waiters.wakeFirst.tail, x.2 = false
      rw [wakeFirst_tail]
      exact htail
    · intro e he
      have hle := hbehind e he
      linarith

theorem acquireSemaphore_free {i id : Nat} (hfree : (s.semaphoreOf id).isFree = true) :
    acquireSemaphore i id s =
      (s.setSemaphore id ⟨(s.semaphoreOf id).value - 1, (s.semaphoreOf id).waiters⟩).hold i
        (some id) := by
  unfold acquireSemaphore
  exact if_pos hfree

theorem orderly_hold (h : Orderly provider N r s) {i id : Nat}
    (hi : (s.phase i).holds = false) (hid : s.semaphores.get? provider = some id)
    (hfree : (s.semaphoreOf id).isFree = true) (hr : 0 < r)
    (hbehind : ∀ e ∈ s.entries, e + 1 / r ≤ s.now)
    (hbucket : ∃ b, s.buckets.get? provider = some b ∧
      s.now + 1 / r ≤ (s.bucketOf b).next_allowed_at) :
    Orderly provider N r (acquireSemaphore i id s) := by
  rw [acquireSemaphore_free hfree]
  obtain ⟨hw, holders, hnodup, hmem, hsum⟩ := h.permits id hid
  have hvalue : 0 < (s.semaphoreOf id).value := by
    have := hfree
    simp only [Semaphore.isFree, Bool.and_eq_true, decide_eq_true_eq] at this
    exact this.1
  let t := s.setSemaphore id ⟨(s.semaphoreOf id).value - 1, (s.semaphoreOf id).waiters⟩
  have hphase : ∀ j, (t.hold i (some id)).phase j =
      if j = i then .holding (some id) else s.phase j := fun j => phase_setPhase s i j _
  have hother : ∀ {j q}, (t.hold i (some id)).phase j = q → q ≠ .holding (some id) →
      s.phase j = q := by
    intro j q hq hne
    rw [hphase] at hq
    split at hq
    · exact absurd hq.symm hne
    · exact hq
  have hsleeps : ∀ j, ((t.hold i (some id)).phase j).sleeps = true →
      (s.phase j).sleeps = true := by
    intro j hj
    rw [hphase] at hj
    split at hj
    · cases hj
    · exact hj
  obtain ⟨b, hb, hnext⟩ := hbucket
  have hpos : 0 < 1 / r := one_div_pos.mpr hr
  refine ⟨h.time, fun j hj => h.config j (hother hj (by simp)),
    fun j id' c hj => h.queued j id' c (hother hj (by simp)),
    fun j id' w c hj => h.sleeping j id' w c (hother hj (by simp)),
    fun j k hj hk => h.alone j k (hsleeps j hj) (hsleeps k hk),
    fun j id' hj => h.waiting j id' (hother hj (by simp)), ?_, ?_, ?_, ?_, ?_⟩
  · intro j o hj
    rw [hphase] at hj
    split at hj
    · cases hj
      exact ⟨id, rfl, hid⟩
    · exact h.holding j o hj
  · intro id' hid'
    have he : id' = id := Option.some.inj (hid'.symm.trans hid)
    subst he
    have hself : (t.hold i (some id')).semaphoreOf id' =
        ⟨(s.semaphoreOf id').value - 1, (s.semaphoreOf id').waiters⟩ := Function.update_self _ _ _
    have hnot : i ∉ holders := by
      intro hm
      rw [(hmem i).mp hm] at hi
      cases hi
    rw [hself]
    refine ⟨hw, i :: holders, List.nodup_cons.mpr ⟨hnot, hnodup⟩, ?_, ?_⟩
    · intro j
      rw [hphase, List.mem_cons]
      by_cases he : j = i
      · rw [if_pos he]
        exact ⟨fun _ => rfl, fun _ => .inl he⟩
      · rw [if_neg he, hmem j]
        exact ⟨fun hor => hor.resolve_left he, .inr⟩
    · rw [List.length_cons]
      dsimp only
      omega
  · intro id' hid'
    obtain ⟨hint, htail, hent⟩ := h.bucket id' hid'
    refine ⟨hint, htail, ?_⟩
    have he : id' = b := Option.some.inj (hid'.symm.trans hb)
    intro e hent'
    rcases List.mem_cons.mp hent' with rfl | hent'
    · rw [he]
      exact hnext
    · exact hent e hent'
  · intro hnone
    change s.buckets.get? provider = none at hnone
    rw [hb] at hnone
    cases hnone
  · exact List.pairwise_cons.mpr ⟨hbehind, h.spaced⟩

theorem Orderly.cacheSemaphore (h : Orderly provider N r s)
    (hnone : s.semaphores.get? provider = none) :
    Orderly provider N r (s.cacheSemaphore provider ⟨N, []⟩) := by
  have hget : (s.cacheSemaphore provider ⟨N, []⟩).semaphores.get? provider = some s.made :=
    Dict.get?_set_self _ _ _
  have hholds : ∀ i, (s.phase i).holds = false := by
    intro i
    cases hp : s.phase i with
    | holding o =>
      obtain ⟨id, -, hid⟩ := h.holding i o hp
      rw [hnone] at hid
      cases hid
    | _ => rfl
  refine ⟨h.time, h.config, h.queued, h.sleeping, h.alone, h.waiting, ?_, ?_, h.bucket,
    h.unlimited, h.spaced⟩
  · intro i o hi
    have hf := hholds i
    rw [show s.phase i = .holding o from hi] at hf
    cases hf
  · intro id hid
    rw [hget] at hid
    have he := Option.some.inj hid
    subst he
    have hself : (s.cacheSemaphore provider ⟨N, []⟩).semaphoreOf s.made = ⟨N, []⟩ :=
      Function.update_self _ _ _
    rw [hself]
    refine ⟨rfl, [], List.nodup_nil, ?_, rfl⟩
    intro i
    rw [show (s.cacheSemaphore provider ⟨N, []⟩).phase i = s.phase i from rfl, hholds i]
    simp

theorem Orderly.enterSemaphore (h : Orderly provider N r s) {i : Nat}
    (hi : (s.phase i).holds = false) (hfree : PermitFree provider s) (hN : 0 < N) (hr : 0 < r)
    (hbehind : ∀ e ∈ s.entries, e + 1 / r ≤ s.now)
    (hbucket : ∃ b, s.buckets.get? provider = some b ∧
      s.now + 1 / r ≤ (s.bucketOf b).next_allowed_at) :
    Orderly provider N r (enterSemaphore provider ⟨some N, some r⟩ i s) := by
  unfold RequestScheduler.enterSemaphore
  dsimp only
  cases hs : s.semaphores.get? provider with
  | some id => exact orderly_hold h hi hs (hfree id hs) hr hbehind hbucket
  | none =>
    refine orderly_hold (h.cacheSemaphore hs) hi (Dict.get?_set_self _ _ _) ?_ hr hbehind hbucket
    have hself : (s.cacheSemaphore provider ⟨N, []⟩).semaphoreOf s.made = ⟨N, []⟩ :=
      Function.update_self _ _ _
    rw [hself]
    simp [Semaphore.isFree, hN]

theorem enterSemaphore_setPhase (config : ProviderScheduleConfig) (i : Nat) (p : Phase) :
    enterSemaphore provider config i (s.setPhase i p) = enterSemaphore provider config i s := by
  have hhold : ∀ (t : State) (o : Option Nat), (t.setPhase i p).hold i o = t.hold i o := by
    intro t o
    unfold State.hold State.setPhase
    dsimp only
    rw [Function.update_idem]
  have hset : ∀ (t : State) (q : Phase), (t.setPhase i p).setPhase i q = t.setPhase i q := by
    intro t q
    unfold State.setPhase
    dsimp only
    rw [Function.update_idem]
  have hacquire : ∀ (t : State) (id : Nat),
      acquireSemaphore i id (t.setPhase i p) = acquireSemaphore i id t := by
    intro t id
    unfold acquireSemaphore
    dsimp only
    rw [show (t.setPhase i p).semaphoreOf id = t.semaphoreOf id from rfl]
    split
    · exact hhold (t.setSemaphore id _) _
    · exact hset (t.setSemaphore id _) _
  unfold enterSemaphore
  cases config.max_concurrency with
  | none => exact hhold s none
  | some n =>
    dsimp only
    rw [show (s.setPhase i p).semaphores = s.semaphores from rfl]
    cases s.semaphores.get? provider with
    | some id => exact hacquire s id
    | none => exact hacquire (s.cacheSemaphore provider ⟨n, []⟩) s.made

end

end Agently.RequestScheduler
