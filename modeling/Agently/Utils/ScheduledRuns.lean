import Agently.Utils.SchedulerLimits

/-! # Runs of the scheduler

What each step keeps of the order among requests, and the limits over whole runs. -/

namespace Agently.RequestScheduler

open Agently.Lib
open Agently.TaskDAGValidation (strip)

section

variable {provider : String} {N : Nat} {r : ℚ} {s : State}

theorem Orderly.no_sleeper_of_free (h : Orderly provider N r s)
    (hfree : ∀ id, s.buckets.get? provider = some id → (s.bucketOf id).lock.locked = false) :
    ∀ j, (s.phase j).sleeps = false := by
  intro j
  cases hp : s.phase j with
  | sleeping id w c =>
    obtain ⟨-, hid, -, hlocked, -⟩ := h.sleeping j id w c hp
    rw [hfree id hid] at hlocked
    cases hlocked
  | _ => rfl

theorem Orderly.relock (h : Orderly provider N r s) {id : Nat}
    (hid : s.buckets.get? provider = some id) (hnone : ∀ j, (s.phase j).sleeps = false)
    (lock : Lock) (hqueued : ∀ i c, s.phase i = .queued id c → ∃ d, (i, d) ∈ lock.waiters)
    (htail : ∀ x ∈ lock.waiters.tail, x.2 = false) :
    Orderly provider N r (s.setBucket id { s.bucketOf id with lock := lock }) := by
  have hself : (s.setBucket id { s.bucketOf id with lock := lock }).bucketOf id =
      { s.bucketOf id with lock := lock } := Function.update_self _ _ _
  refine ⟨h.time, h.config, ?_, ?_, h.alone, h.waiting, h.holding, h.permits, ?_, h.unlimited,
    h.spaced⟩
  · intro j id' c hj
    obtain ⟨hc, hb, -⟩ := h.queued j id' c hj
    have he : id' = id := Option.some.inj (hb.symm.trans hid)
    subst he
    refine ⟨hc, hb, ?_⟩
    rw [hself]
    exact hqueued j c hj
  · intro j id' w c hj
    have hs := hnone j
    rw [show s.phase j = .sleeping id' w c from hj] at hs
    cases hs
  · intro id' hid'
    have he : id' = id := Option.some.inj (hid'.symm.trans hid)
    subst he
    obtain ⟨hint, -, hent⟩ := h.bucket id' hid
    rw [hself]
    exact ⟨hint, htail, hent⟩

theorem Orderly.token (h : Orderly provider N r s) {i id : Nat}
    (hi : (s.phase i).holds = false) (hid : s.buckets.get? provider = some id)
    (hnone : ∀ j, j ≠ i → (s.phase j).sleeps = false) (hN : 0 < N) (hr : 0 < r)
    (hnow : (s.bucketOf id).next_allowed_at ≤ s.now) (hfree : PermitFree provider s) :
    Orderly provider N r
      (RequestScheduler.enterSemaphore provider ⟨some N, some r⟩ i
        (s.setBucket id ((s.bucketOf id).take s.now))) := by
  have hleft : Orderly provider N r (s.setPhase i .left) := h.forget hi (.inl rfl)
  have hawake : ∀ j, ((s.setPhase i .left).phase j).sleeps = false := by
    intro j
    rw [phase_setPhase]
    split
    · rfl
    · rename_i hj
      exact hnone j hj
  obtain ⟨htaken, hbehind, hnext⟩ := hleft.take hid hawake hr hnow
  have hself : ((s.setPhase i .left).setBucket id ((s.bucketOf id).take s.now)).bucketOf id =
      (s.bucketOf id).take s.now := Function.update_self _ _ _
  have hphase : (((s.setPhase i .left).setBucket id ((s.bucketOf id).take s.now)).phase i).holds =
      false := by
    change ((s.setPhase i .left).phase i).holds = false
    rw [phase_setPhase, if_pos rfl]
    rfl
  have hnext' : s.now + 1 / r ≤
      (((s.setPhase i .left).setBucket id ((s.bucketOf id).take s.now)).bucketOf
        id).next_allowed_at := by
    rw [hself]
    exact le_of_eq hnext.symm
  have hentered := htaken.enterSemaphore hphase hfree hN hr hbehind
    ⟨id, hid, hnext'⟩
  rw [← enterSemaphore_setPhase (s := s.setBucket id ((s.bucketOf id).take s.now))
    ⟨some N, some r⟩ i .left]
  exact hentered

theorem Orderly.underLock (h : Orderly provider N r s) {i id : Nat}
    (hi : (s.phase i).holds = false) (hid : s.buckets.get? provider = some id)
    (hnone : ∀ j, (s.phase j).sleeps = false)
    (hwaiters : ∀ x ∈ (s.bucketOf id).lock.waiters, x.2 = false) (hN : 0 < N) (hr : 0 < r)
    (hfree : (s.bucketOf id).next_allowed_at ≤ s.now → PermitFree provider s) :
    Orderly provider N r (underLock provider ⟨some N, some r⟩ i id s) := by
  unfold RequestScheduler.underLock
  dsimp only
  by_cases hwait : 0 < (s.bucketOf id).next_allowed_at - s.now
  · rw [if_pos hwait]
    -- the request sleeps with the lock held
    have hleft : Orderly provider N r (s.setPhase i .left) := h.forget hi (.inl rfl)
    have hawake : ∀ j, ((s.setPhase i .left).phase j).sleeps = false := by
      intro j
      rw [phase_setPhase]
      split
      · rfl
      · exact hnone j
    let lock : Lock := { (s.bucketOf id).lock with locked := true }
    have hlocked := hleft.relock hid hawake lock
      (fun j c hj => (hleft.queued j id c hj).2.2)
      (fun x hx => hwaiters x (List.mem_of_mem_tail hx))
    let u := (s.setPhase i .left).setBucket id { s.bucketOf id with lock := lock }
    have hself : u.bucketOf id = { s.bucketOf id with lock := lock } := Function.update_self _ _ _
    let p : Phase := .sleeping id (s.now + ((s.bucketOf id).next_allowed_at - s.now))
      ⟨some N, some r⟩
    have hu : ∀ j, u.phase j = if j = i then .left else s.phase j := fun j => phase_setPhase s i j _
    have hsame : (s.setBucket id { s.bucketOf id with lock := lock }).setPhase i p =
        u.setPhase i p := by
      unfold u State.setPhase State.setBucket
      dsimp only
      rw [Function.update_idem]
    change Orderly provider N r
      ((s.setBucket id { s.bucketOf id with lock := lock }).setPhase i p)
    rw [hsame]
    have hphase : ∀ j, (u.setPhase i p).phase j = if j = i then p else u.phase j :=
      fun j => phase_setPhase u i j p
    have hother : ∀ {j q}, (u.setPhase i p).phase j = q → q ≠ p → u.phase j = q := by
      intro j q hq hne
      rw [hphase] at hq
      split at hq
      · exact absurd hq.symm hne
      · exact hq
    have hholds : ∀ j, ((u.setPhase i p).phase j).holds = (u.phase j).holds := by
      intro j
      rw [hphase, hu]
      split <;> rfl
    have hsleeps : ∀ j, ((u.setPhase i p).phase j).sleeps = true → j = i := by
      intro j hj
      rw [hphase] at hj
      split at hj
      · assumption
      · have hf : (u.phase j).sleeps = false := hawake j
        rw [hf] at hj
        cases hj
    refine ⟨h.time, fun j hj => hlocked.config j (hother hj (by simp [p])),
      fun j id' c hj => hlocked.queued j id' c (hother hj (by simp [p])), ?_, ?_,
      fun j id' hj => hlocked.waiting j id' (hother hj (by simp [p])),
      fun j o hj => hlocked.holding j o (hother hj (by simp [p])), ?_, hlocked.bucket,
      hlocked.unlimited, h.spaced⟩
    · intro j id' w c hj
      rw [hphase] at hj
      split at hj
      · change Phase.sleeping id (s.now + ((s.bucketOf id).next_allowed_at - s.now)) _ = _ at hj
        cases hj
        refine ⟨rfl, hid, ?_, ?_, ?_⟩
        · change _ = (u.bucketOf id).next_allowed_at
          rw [hself]
          ring
        · change (u.bucketOf id).lock.locked = true
          rw [hself]
        · change ∀ x ∈ (u.bucketOf id).lock.waiters, x.2 = false
          rw [hself]
          exact hwaiters
      · exact hlocked.sleeping j id' w c hj
    · intro j k hj hk
      rw [hsleeps j hj, hsleeps k hk]
    · intro id' hid'
      obtain ⟨hw, holders, hn, hm, hsum⟩ := hlocked.permits id' hid'
      exact ⟨hw, holders, hn, fun j => by rw [hholds]; exact hm j, hsum⟩
  · rw [if_neg hwait]
    have hnow : (s.bucketOf id).next_allowed_at ≤ s.now := by linarith
    exact h.token hi hid (fun j _ => hnone j) hN hr hnow (hfree hnow)

theorem Orderly.acquireBucket (h : Orderly provider N r s) {i id : Nat}
    (hi : (s.phase i).holds = false) (hsleep : (s.phase i).sleeps = false)
    (hid : s.buckets.get? provider = some id) (hN : 0 < N) (hr : 0 < r)
    (hfree : (s.bucketOf id).lock.isFree = true →
      (s.bucketOf id).next_allowed_at ≤ s.now → PermitFree provider s) :
    Orderly provider N r (acquireBucket provider ⟨some N, some r⟩ i id s) := by
  obtain ⟨hint, htail, -⟩ := h.bucket id hid
  have hpos : 0 < (s.bucketOf id).min_interval := by
    rw [hint]
    exact one_div_pos.mpr hr
  unfold RequestScheduler.acquireBucket
  dsimp only
  rw [if_neg (not_le.mpr hpos)]
  by_cases hlock : (s.bucketOf id).lock.isFree = true
  · rw [if_pos hlock]
    have hlf := hlock
    simp only [Lock.isFree, Bool.and_eq_true, Bool.not_eq_true', List.isEmpty_iff] at hlf
    refine h.underLock hi hid (h.no_sleeper_of_free ?_) ?_ hN hr (hfree hlock)
    · intro id' hid'
      have he : id' = id := Option.some.inj (hid'.symm.trans hid)
      rw [he]
      exact hlf.1
    · rw [hlf.2]
      simp
  · rw [if_neg hlock]
    -- the request joins the queue of the lock
    let lock : Lock :=
      { (s.bucketOf id).lock with waiters := (s.bucketOf id).lock.waiters ++ [(i, false)] }
    let u := s.setBucket id { s.bucketOf id with lock := lock }
    have hself : u.bucketOf id = { s.bucketOf id with lock := lock } := Function.update_self _ _ _
    have hphase : ∀ j, (u.setPhase i (.queued id ⟨some N, some r⟩)).phase j =
        if j = i then .queued id ⟨some N, some r⟩ else s.phase j := fun j => phase_setPhase u i j _
    have hother : ∀ {j q}, (u.setPhase i (.queued id ⟨some N, some r⟩)).phase j = q →
        q ≠ .queued id ⟨some N, some r⟩ → s.phase j = q := by
      intro j q hq hne
      rw [hphase] at hq
      split at hq
      · exact absurd hq.symm hne
      · exact hq
    have hsleeps : ∀ j, ((u.setPhase i (.queued id ⟨some N, some r⟩)).phase j).sleeps =
        (s.phase j).sleeps := by
      intro j
      rw [hphase]
      split
      · rename_i he
        rw [he, hsleep]
        rfl
      · rfl
    have hholds : ∀ j, ((u.setPhase i (.queued id ⟨some N, some r⟩)).phase j).holds =
        (s.phase j).holds := by
      intro j
      rw [hphase]
      split
      · rename_i he
        rw [he, hi]
        rfl
      · rfl
    refine ⟨h.time, fun j hj => h.config j (hother hj (by simp)), ?_, ?_, ?_,
      fun j id' hj => h.waiting j id' (hother hj (by simp)),
      fun j o hj => h.holding j o (hother hj (by simp)), ?_, ?_, h.unlimited, h.spaced⟩
    · intro j id' c hj
      rw [hphase] at hj
      split at hj
      · rename_i he
        cases hj
        refine ⟨rfl, hid, false, ?_⟩
        change (j, false) ∈ (u.bucketOf id).lock.waiters
        rw [hself, he]
        exact List.mem_append_right _ List.mem_cons_self
      · obtain ⟨hc, hb, d, hd⟩ := h.queued j id' c hj
        have he : id' = id := Option.some.inj (hb.symm.trans hid)
        subst he
        refine ⟨hc, hb, d, ?_⟩
        change (j, d) ∈ (u.bucketOf id').lock.waiters
        rw [hself]
        exact List.mem_append_left _ hd
    · intro j id' w c hj
      obtain ⟨hc, hb, hw, hl, hd⟩ := h.sleeping j id' w c (hother hj (by simp))
      have he : id' = id := Option.some.inj (hb.symm.trans hid)
      subst he
      change _ ∧ _ ∧ w = (u.bucketOf id').next_allowed_at ∧
        (u.bucketOf id').lock.locked = true ∧ ∀ x ∈ (u.bucketOf id').lock.waiters, x.2 = false
      rw [hself]
      refine ⟨hc, hb, hw, hl, ?_⟩
      intro x hx
      rcases List.mem_append.mp hx with hx | hx
      · exact hd x hx
      · rw [List.mem_singleton] at hx
        rw [hx]
    · intro j k hj hk
      rw [hsleeps] at hj hk
      exact h.alone j k hj hk
    · intro id' hid'
      obtain ⟨hw, holders, hn, hm, hsum⟩ := h.permits id' hid'
      exact ⟨hw, holders, hn, fun j => by rw [hholds]; exact hm j, hsum⟩
    · intro id' hid'
      have he : id' = id := Option.some.inj (hid'.symm.trans hid)
      subst he
      obtain ⟨-, -, hent⟩ := h.bucket id' hid
      change (u.bucketOf id').min_interval = _ ∧
        (∀ x ∈ (u.bucketOf id').lock.waiters.tail, x.2 = false) ∧ _
      rw [hself]
      refine ⟨hint, ?_, ?_⟩
      · intro x hx
        change x ∈ ((s.bucketOf id').lock.waiters ++ [(i, false)]).tail at hx
        cases hws : (s.bucketOf id').lock.waiters with
        | nil =>
          rw [hws] at hx
          cases hx
        | cons w ws =>
          rw [hws] at hx htail
          rcases List.mem_append.mp hx with hx | hx
          · exact htail x hx
          · rw [List.mem_singleton] at hx
            rw [hx]
      · change ∀ e ∈ s.entries, e + 1 / r ≤ (u.bucketOf id').next_allowed_at
        rw [hself]
        exact hent

theorem Orderly.cacheBucket (h : Orderly provider N r s)
    (hnone : s.buckets.get? provider = none) :
    Orderly provider N r
      (s.cacheBucket provider { min_interval := 1 / r, next_allowed_at := s.now }) := by
  let b : _TokenBucket := { min_interval := 1 / r, next_allowed_at := s.now }
  have hget : (s.cacheBucket provider b).buckets.get? provider = some s.made :=
    Dict.get?_set_self _ _ _
  refine ⟨h.time, h.config, ?_, ?_, h.alone, h.waiting, h.holding, h.permits, ?_, ?_, h.spaced⟩
  · intro i id c hi
    have hid := (h.queued i id c hi).2.1
    rw [hnone] at hid
    cases hid
  · intro i id w c hi
    have hid := (h.sleeping i id w c hi).2.1
    rw [hnone] at hid
    cases hid
  · intro id hid
    have he : id = s.made := Option.some.inj (hid.symm.trans hget)
    subst he
    have hself : (s.cacheBucket provider b).bucketOf s.made = b := Function.update_self _ _ _
    change ((s.cacheBucket provider b).bucketOf s.made).min_interval = 1 / r ∧ _
    rw [hself]
    exact ⟨rfl, by simp [b], h.unlimited hnone⟩
  · intro hn
    rw [hget] at hn
    cases hn

theorem Orderly.enter (h : Orderly provider N r s) {i : Nat} (hi : s.phase i = .configured)
    (hN : 0 < N) (hr : 0 < r)
    (hfree : TakesToken provider s (.enter i) → PermitFree provider s) :
    Orderly provider N r (enter provider i s) := by
  have hholds : (s.phase i).holds = false := by rw [hi]; rfl
  unfold RequestScheduler.enter
  rw [h.config i hi]
  dsimp only
  rw [if_neg (by simp)]
  cases hb : s.buckets.get? provider with
  | some id =>
    refine h.acquireBucket hholds (by rw [hi]; rfl) hb hN hr ?_
    intro hlock hnow
    apply hfree
    intro id' hid'
    have he : id' = id := Option.some.inj (hid'.symm.trans hb)
    rw [he]
    exact ⟨hlock, hnow⟩
  | none =>
    dsimp only
    have hpermit : PermitFree provider s := by
      apply hfree
      intro id hid
      rw [hb] at hid
      cases hid
    let fresh : _TokenBucket := { min_interval := 1 / r, next_allowed_at := s.now }
    have hnew : _TokenBucket.new r = { min_interval := 1 / r } := by
      unfold _TokenBucket.new
      rw [if_pos hr]
    have hself : (s.cacheBucket provider (_TokenBucket.new r)).bucketOf s.made =
        { min_interval := 1 / r } := by
      rw [hnew]
      exact Function.update_self _ _ _
    have hfresh : (s.cacheBucket provider fresh).bucketOf s.made = fresh :=
      Function.update_self _ _ _
    have hpos : 0 < 1 / r := one_div_pos.mpr hr
    have htake : _TokenBucket.take { min_interval := 1 / r } s.now = fresh.take s.now := by
      unfold _TokenBucket.take fresh
      dsimp only
      rw [max_eq_left h.time, max_self]
    have hsame : (s.cacheBucket provider (_TokenBucket.new r)).setBucket s.made
        (fresh.take s.now) =
        (s.cacheBucket provider fresh).setBucket s.made (fresh.take s.now) := by
      unfold State.setBucket State.cacheBucket
      dsimp only
      rw [Function.update_idem, Function.update_idem]
    have hnowait : ¬ 0 < (0 : ℚ) - s.now := by
      have ht := h.time
      linarith
    unfold RequestScheduler.acquireBucket RequestScheduler.underLock
    rw [hself]
    dsimp only
    rw [if_neg (not_le.mpr hpos), if_pos (show Lock.isFree {} = true from rfl)]
    change Orderly provider N r (if 0 < (0 : ℚ) - s.now then _ else
      RequestScheduler.enterSemaphore provider ⟨some N, some r⟩ i
        ((s.cacheBucket provider (_TokenBucket.new r)).setBucket s.made
          (_TokenBucket.take { min_interval := 1 / r } s.now)))
    rw [if_neg hnowait, htake, hsame]
    have hcached := h.cacheBucket hb
    have hawake : ∀ j, (s.phase j).sleeps = false := by
      apply h.no_sleeper_of_free
      intro id hid
      rw [hb] at hid
      cases hid
    have htoken := hcached.token hholds (Dict.get?_set_self _ _ _) (fun j _ => hawake j) hN hr
      (by rw [hfresh]; exact le_refl _) hpermit
    rw [hfresh] at htoken
    exact htoken

theorem underLock_setPhase (config : ProviderScheduleConfig) (i id : Nat) (p : Phase) :
    RequestScheduler.underLock provider config i id (s.setPhase i p) =
      RequestScheduler.underLock provider config i id s := by
  unfold RequestScheduler.underLock
  dsimp only
  rw [show (s.setPhase i p).bucketOf = s.bucketOf from rfl,
    show (s.setPhase i p).now = s.now from rfl]
  split
  · unfold State.setBucket State.setPhase
    dsimp only
    rw [Function.update_idem]
  · exact enterSemaphore_setPhase (s := s.setBucket id _) config i p

theorem Orderly.lockGranted (h : Orderly provider N r s) {i id : Nat}
    {c : ProviderScheduleConfig} (hi : s.phase i = .queued id c)
    (hdone : (i, true) ∈ (s.bucketOf id).lock.waiters) (hN : 0 < N) (hr : 0 < r)
    (hfree : (s.bucketOf id).next_allowed_at ≤ s.now → PermitFree provider s) :
    Orderly provider N r (RequestScheduler.underLock provider c i id (s.setBucket id
      { s.bucketOf id with
        lock := { (s.bucketOf id).lock with
          waiters := (s.bucketOf id).lock.waiters.erase (i, true) } })) := by
  obtain ⟨rfl, hid, -⟩ := h.queued i id c hi
  obtain ⟨-, htail, -⟩ := h.bucket id hid
  have hawake : ∀ j, (s.phase j).sleeps = false := by
    intro j
    cases hp : s.phase j with
    | sleeping id' w c' =>
      obtain ⟨-, hid', -, -, hall⟩ := h.sleeping j id' w c' hp
      have he : id' = id := Option.some.inj (hid'.symm.trans hid)
      rw [he] at hall
      cases hall _ hdone
    | _ => rfl
  -- only the head's future can be done
  have hhead : ∃ rest, (s.bucketOf id).lock.waiters = (i, true) :: rest := by
    cases hws : (s.bucketOf id).lock.waiters with
    | nil =>
      rw [hws] at hdone
      cases hdone
    | cons w rest =>
      rw [hws] at hdone htail
      rcases List.mem_cons.mp hdone with rfl | hm
      · exact ⟨rest, rfl⟩
      · cases htail _ hm
  obtain ⟨rest, hws⟩ := hhead
  have hrest : ∀ x ∈ rest, x.2 = false := by
    rw [hws] at htail
    exact htail
  have hleft : Orderly provider N r (s.setPhase i .left) :=
    h.forget (by rw [hi]; rfl) (.inl rfl)
  have hawake' : ∀ j, ((s.setPhase i .left).phase j).sleeps = false := by
    intro j
    rw [phase_setPhase]
    split
    · rfl
    · exact hawake j
  let lock : Lock := { (s.bucketOf id).lock with waiters := rest }
  have hqueued : ∀ j c', (s.setPhase i .left).phase j = .queued id c' →
      ∃ d, (j, d) ∈ lock.waiters := by
    intro j c' hj
    rw [phase_setPhase] at hj
    split at hj
    · cases hj
    · rename_i hne
      obtain ⟨-, -, d, hd⟩ := h.queued j id c' hj
      rw [hws] at hd
      rcases List.mem_cons.mp hd with he | hd
      · cases he
        exact absurd rfl hne
      · exact ⟨d, hd⟩
  have hlocked := hleft.relock hid hawake' lock hqueued
    (fun x hx => hrest x (List.mem_of_mem_tail hx))
  let u := s.setBucket id { s.bucketOf id with lock := lock }
  have hself : (u.setPhase i .left).bucketOf id = { s.bucketOf id with lock := lock } :=
    Function.update_self _ _ _
  have herase : (s.bucketOf id).lock.waiters.erase (i, true) = rest := by
    rw [hws, List.erase_cons_head]
  rw [herase, ← underLock_setPhase ⟨some N, some r⟩ i id .left]
  change Orderly provider N r
    (RequestScheduler.underLock provider ⟨some N, some r⟩ i id (u.setPhase i .left))
  have hlocked' : Orderly provider N r (u.setPhase i .left) := hlocked
  refine hlocked'.underLock ?_ hid hawake' ?_ hN hr ?_
  · rw [phase_setPhase, if_pos rfl]
    rfl
  · rw [hself]
    exact hrest
  · rw [hself]
    exact hfree

theorem configure_ok {settings : Settings} (hN : 0 < N) (hr : 0 < r)
    (hstrip : strip provider = provider)
    (hlimits : settings.limits provider = (some (N : ℚ), some r)) {t : State}
    (ht : configure_from_settings provider settings s = .ok t) :
    t = { s with
      configs := s.configs.set provider ⟨some N, some r⟩
      semaphores := s.semaphores.del provider
      buckets := s.buckets.del provider } := by
  have hint : _positive_int_or_none (some (N : ℚ)) = some N := by
    unfold _positive_int_or_none
    dsimp only
    rw [Int.floor_natCast, if_pos (by exact_mod_cast hN)]
    rfl
  have hfloat : _positive_float_or_none (some r) = some r := by
    unfold _positive_float_or_none
    dsimp only
    rw [if_pos hr]
  unfold configure_from_settings at ht
  rw [hlimits] at ht
  dsimp only at ht
  rw [if_neg (by simp)] at ht
  unfold configure at ht
  dsimp only at ht
  rw [hstrip, hint, hfloat] at ht
  split at ht
  · cases ht
  · exact (Except.ok.inj ht).symm

theorem Orderly.configured (h : Orderly provider N r s) {i : Nat} (hi : s.phase i = .idle)
    (hunused : Unused provider N s) :
    Orderly provider N r (State.setPhase { s with
      configs := s.configs.set provider ⟨some N, some r⟩
      semaphores := s.semaphores.del provider
      buckets := s.buckets.del provider } i .configured) := by
  obtain ⟨hsem, hbucket⟩ := hunused
  have hholds : ∀ j, (s.phase j).holds = false := by
    intro j
    cases hp : s.phase j with
    | holding o =>
      obtain ⟨id, -, hid⟩ := h.holding j o hp
      obtain ⟨-, holders, -, hmem, hsum⟩ := h.permits id hid
      have hin : j ∈ holders := (hmem j).mpr (by rw [hp]; rfl)
      have hlen : 0 < holders.length := List.length_pos_of_mem hin
      have hv := (hsem id hid).1
      omega
    | _ => rfl
  have hqueued : ∀ j id c, s.phase j ≠ .queued id c := by
    intro j id c hj
    obtain ⟨-, hid, d, hd⟩ := h.queued j id c hj
    have hf := (hbucket id hid).1
    simp only [Lock.isFree, Bool.and_eq_true, List.isEmpty_iff] at hf
    rw [hf.2] at hd
    cases hd
  have hsleeping : ∀ j id w c, s.phase j ≠ .sleeping id w c := by
    intro j id w c hj
    obtain ⟨-, hid, -, hl, -⟩ := h.sleeping j id w c hj
    have hf := (hbucket id hid).1
    simp only [Lock.isFree, Bool.and_eq_true, Bool.not_eq_true'] at hf
    rw [hf.1] at hl
    cases hl
  let t : State := { s with
    configs := s.configs.set provider ⟨some N, some r⟩
    semaphores := s.semaphores.del provider
    buckets := s.buckets.del provider }
  have hphase : ∀ j, (t.setPhase i .configured).phase j =
      if j = i then .configured else s.phase j := fun j => phase_setPhase t i j _
  have hother : ∀ {j q}, (t.setPhase i .configured).phase j = q → q ≠ .configured →
      s.phase j = q := by
    intro j q hq hne
    rw [hphase] at hq
    split at hq
    · exact absurd hq.symm hne
    · exact hq
  refine ⟨h.time, fun _ _ => Dict.get?_set_self _ _ _, ?_, ?_, ?_, ?_, ?_, ?_, ?_, ?_, h.spaced⟩
  · intro j id c hj
    exact absurd (hother hj (by simp)) (hqueued j id c)
  · intro j id w c hj
    exact absurd (hother hj (by simp)) (hsleeping j id w c)
  · intro j k hj
    cases hp : (t.setPhase i .configured).phase j with
    | sleeping id w c => exact absurd (hother hp (by simp)) (hsleeping j id w c)
    | _ =>
      change ((t.setPhase i .configured).phase j).sleeps = true at hj
      rw [hp] at hj
      cases hj
  · intro j id hj
    exact h.waiting j id (hother hj (by simp))
  · intro j o hj
    have hf := hholds j
    rw [hother hj (by simp)] at hf
    cases hf
  · intro id hid
    change (s.semaphores.del provider).get? provider = some id at hid
    rw [Dict.get?_del_self] at hid
    cases hid
  · intro id hid
    change (s.buckets.del provider).get? provider = some id at hid
    rw [Dict.get?_del_self] at hid
    cases hid
  · intro _ e he
    cases hb : s.buckets.get? provider with
    | none => exact h.unlimited hb e he
    | some id => exact le_trans ((h.bucket id hb).2.2 e he) (hbucket id hb).2

theorem Orderly.leave (h : Orderly provider N r s) {i id : Nat}
    (hi : s.phase i = .holding (some id)) :
    Orderly provider N r
      ((s.setSemaphore id (s.semaphoreOf id).release).setPhase i .left) := by
  obtain ⟨id', he, hid⟩ := h.holding i _ hi
  cases he
  obtain ⟨hw, holders, hnodup, hmem, hsum⟩ := h.permits id hid
  have hrelease : (s.semaphoreOf id).release = ⟨(s.semaphoreOf id).value + 1, []⟩ := by
    unfold Semaphore.release Semaphore.wakeNext Semaphore.waits
    rw [hw]
    rfl
  let t := s.setSemaphore id (s.semaphoreOf id).release
  have hphase : ∀ j, (t.setPhase i .left).phase j = if j = i then .left else s.phase j :=
    fun j => phase_setPhase t i j _
  have hother : ∀ {j q}, (t.setPhase i .left).phase j = q → q ≠ .left → s.phase j = q := by
    intro j q hq hne
    rw [hphase] at hq
    split at hq
    · exact absurd hq.symm hne
    · exact hq
  have hsleeps : ∀ j, ((t.setPhase i .left).phase j).sleeps = true → (s.phase j).sleeps = true := by
    intro j hj
    rw [hphase] at hj
    split at hj
    · cases hj
    · exact hj
  refine ⟨h.time, fun j hj => h.config j (hother hj (by simp)),
    fun j id' c hj => h.queued j id' c (hother hj (by simp)),
    fun j id' w c hj => h.sleeping j id' w c (hother hj (by simp)),
    fun j k hj hk => h.alone j k (hsleeps j hj) (hsleeps k hk),
    fun j id' hj => h.waiting j id' (hother hj (by simp)),
    fun j o hj => h.holding j o (hother hj (by simp)), ?_, h.bucket, h.unlimited, h.spaced⟩
  intro id' hid'
  have he : id' = id := Option.some.inj (hid'.symm.trans hid)
  subst he
  have hself : (t.setPhase i .left).semaphoreOf id' = (s.semaphoreOf id').release :=
    Function.update_self _ _ _
  have hin : i ∈ holders := (hmem i).mpr (by rw [hi]; rfl)
  have hfree : ((t.setPhase i .left).semaphoreOf id').waiters = [] ∧
      ((t.setPhase i .left).semaphoreOf id').value = (s.semaphoreOf id').value + 1 := by
    rw [hself, hrelease]
    exact ⟨rfl, rfl⟩
  refine ⟨hfree.1, holders.erase i, hnodup.erase i, ?_, ?_⟩
  · intro j
    rw [hphase, hnodup.mem_erase_iff, hmem j]
    by_cases he : j = i
    · rw [if_pos he]
      constructor
      · exact fun hne => absurd he hne.1
      · intro hf
        cases hf
    · rw [if_neg he]
      exact ⟨fun hand => hand.2, fun hj => ⟨he, hj⟩⟩
  · have hlen := List.length_erase_of_mem hin
    have hpos := List.length_pos_of_mem hin
    change ((t.setPhase i .left).semaphoreOf id').value + (holders.erase i).length = N
    rw [hfree.2]
    omega

theorem orderly_start : Orderly provider N r {} := by
  refine ⟨le_refl _, ?_, ?_, ?_, ?_, ?_, ?_, ?_, ?_, ?_, List.Pairwise.nil⟩
  · exact fun i hi => nomatch hi
  · exact fun i id c hi => nomatch hi
  · exact fun i id w c hi => nomatch hi
  · exact fun i j hi => nomatch hi
  · exact fun i id hi => nomatch hi
  · exact fun i o hi => nomatch hi
  · exact fun id hid => nomatch hid
  · exact fun id hid => nomatch hid
  · exact fun _ e he => nomatch he

theorem orderly_step {settings : Nat → Settings} (hN : 0 < N) (hr : 0 < r)
    (hstrip : strip provider = provider)
    (hlimits : ∀ i, (settings i).limits provider = (some (N : ℚ), some r)) {a : Action} {t : State}
    (h : Orderly provider N r s) (hapart : Apart provider N s a)
    (ht : step provider settings s a = some t) : Orderly provider N r t := by
  obtain ⟨hunused, hfree⟩ := hapart
  cases a with
  | advance delay =>
    dsimp only [step] at ht
    split at ht
    · rename_i hd
      cases ht
      refine ⟨?_, h.config, h.queued, h.sleeping, h.alone, h.waiting, h.holding, h.permits,
        h.bucket, ?_, h.spaced⟩
      · have ht := h.time
        change 0 ≤ s.now + delay
        linarith
      · intro hb e he
        have hle := h.unlimited hb e he
        change e + 1 / r ≤ s.now + delay
        linarith
    · cases ht
  | configure i =>
    dsimp only [step] at ht
    split at ht
    · rename_i hi
      cases hc : configure_from_settings provider (settings i) s with
      | error e =>
        rw [hc] at ht
        cases ht
        exact h.forget (by rw [hi]; rfl) (.inr rfl)
      | ok u =>
        rw [hc] at ht
        cases ht
        rw [configure_ok hN hr hstrip (hlimits i) hc]
        exact h.configured hi (hunused i rfl)
    · cases ht
  | enter i =>
    dsimp only [step] at ht
    split at ht
    · rename_i hi
      cases ht
      exact h.enter hi hN hr hfree
    · cases ht
  | lockGranted i =>
    dsimp only [step] at ht
    split at ht
    · rename_i id c hi
      split at ht
      · rename_i hdone
        cases ht
        refine h.lockGranted hi hdone hN hr fun hnow => hfree ?_
        intro id' c' hi'
        rw [hi] at hi'
        cases hi'
        exact hnow
      · cases ht
    · cases ht
  | wake i =>
    dsimp only [step] at ht
    split at ht
    · rename_i id w c hi
      split at ht
      · rename_i hw
        cases ht
        obtain ⟨rfl, hid, rfl, -, -⟩ := h.sleeping i id w c hi
        refine h.token (by rw [hi]; rfl) hid ?_ hN hr hw (hfree trivial)
        intro j hj
        cases hs : (s.phase j).sleeps with
        | false => rfl
        | true => exact absurd (h.alone j i hs (by rw [hi]; rfl)) hj
      · cases ht
    · cases ht
  | permitGranted i =>
    dsimp only [step] at ht
    split at ht
    · rename_i id hi
      exact absurd hi (h.waiting i id)
    · cases ht
  | leave i =>
    dsimp only [step] at ht
    split at ht
    · rename_i hi
      obtain ⟨id, he, -⟩ := h.holding i none hi
      cases he
    · rename_i id hi
      cases ht
      exact h.leave hi
    · cases ht

end

def oneAtATime : Nat → Settings := fun _ =>
  { max_concurrency := some 1, rate_per_second := some 1 }

def reconfigured : List Action := [.configure 0, .enter 0, .configure 1, .enter 1]

def inTurn : List Action :=
  [.configure 0, .enter 0, .leave 0, .advance 1, .configure 1, .enter 1]

end Agently.RequestScheduler
