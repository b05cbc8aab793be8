import Mathlib.Data.List.Perm.Subperm
import Agently.Operation.ResourceHandles

/-! # Runs of the resource manager

What each step keeps, and live handles over whole runs. -/

namespace Agently.ExecutionResource

open Agently.Lib

section

variable {m : Manager}

variable {task : Nat}

theorem Sound.not_held (h : Sound m) (huses : ∀ i, (m.phase task).uses i = false)
    (i : Nat) : holds task i m.log = false := by
  by_contra hne
  have hu := huses i
  rw [h.held task i (by simpa using hne)] at hu
  simp [Phase.uses] at hu

theorem Sound.not_called (h : Sound m)
    (hcalled : ∀ key i, m.phase task ≠ .releaseCalled key i) {i : Nat}
    (hi : closedBy task i m.log = true) : i ∉ m.handles := by
  rcases h.closed task i hi with ⟨key, hk⟩ | hn
  · exact absurd hk (hcalled key i)
  · exact hn

variable {id : Nat} {key : Option String}

theorem Sound.releasing_ (h : Sound m) (hid : id ∈ m.handles) (hund : Undisturbed m task id)
    (hown : (m.phase task).expects id = false)
    (hstale : ∀ t, holds t id m.log = false)
    (huses : ∀ i, i ≠ id → (m.phase task).uses i = false)
    (hcalled : ∀ key i, m.phase task ≠ .releaseCalled key i) :
    Sound ((m.setStatus id .releasing).setPhase task (.releasing key id)) := by
  have hspoiled : Sound (m.setStatus id .releasing) := by
    refine h.spoil (by decide) ?_ hstale
    intro t
    by_cases he : t = task
    · rw [he]
      exact hown
    · exact (hund t he).1
  have hstatus : ((m.setStatus id .releasing).handleOf id).status = .releasing := by
    rw [handleOf_setStatus, if_pos rfl]
  refine hspoiled.move ?_ ?_ ?_ ?_ ?_ ?_ ?_
  · intro i hi
    have hne : i ≠ id := by
      rintro rfl
      rw [hstatus] at hi
      cases hi
    rw [show (m.setStatus id .releasing).phase task = m.phase task from rfl, huses i hne]
    rfl
  · intro i hi
    by_cases he : i = id
    · rw [he] at hi
      rw [show (m.setStatus id .releasing).log = m.log from rfl, hstale] at hi
      cases hi
    · have hp := h.held task i hi
      have hu := huses i he
      rw [hp] at hu
      simp [Phase.uses] at hu
  · intro i hi
    exact .inr (h.not_called hcalled hi)
  · intro i hi
    cases hi
    exact h.registered id hid
  · intro i hi
    cases hi
  · intro key' i hi
    cases hi
  · intro i hi
    have he : id = i := by simpa [Phase.releases] using hi
    subst he
    rw [hstatus]
    exact ⟨by decide, hid, fun t ht => (hund t ht).2⟩

theorem Sound.beginForced (h : Sound m) (key : String) (huses : ∀ i, (m.phase task).uses i = false)
    (hcalled : ∀ key i, m.phase task ≠ .releaseCalled key i)
    (hown : (m.phase task).expects id = false) (hstatus : (m.handleOf id).status ≠ .ready)
    (hund : id ∈ m.handles → Undisturbed m task id) :
    Sound (beginRelease task (some key) id true m) := by
  unfold beginRelease
  split
  · exact h.idle rfl huses hcalled
  · rename_i hid
    rw [not_not] at hid
    dsimp only
    rw [if_neg (by simp)]
    exact h.releasing_ hid (hund hid) hown (h.stale id hstatus) (fun i _ => huses i) hcalled

theorem Sound.letGo (h : Sound m) (hp : m.phase task = .holding id)
    (hund : id ∈ m.handles → (m.handleOf id).ref_count ≤ 1 → Undisturbed m task id) :
    Sound (beginRelease task none id false (m.emit (.letGo task id))) := by
  have hemit : Sound (m.emit (.letGo task id)) := by
    refine h.emit ?_ (fun t i hi => hi) h.live
    intro t i hi
    simp only [holds, Bool.and_eq_true] at hi
    exact hi.2
  have hgone : ∀ i, holds task i (m.emit (.letGo task id)).log = false := by
    intro i
    change holds task i (.letGo task id :: m.log) = false
    by_contra hne
    have hi : holds task i (.letGo task id :: m.log) = true := by simpa using hne
    simp only [holds, Bool.and_eq_true] at hi
    have hheld := h.held task i hi.2
    rw [hp] at hheld
    cases hheld
    simp at hi
  have hcalled : ∀ key i, (m.emit (.letGo task id)).phase task ≠ .releaseCalled key i := by
    intro key i hk
    rw [show (m.emit (.letGo task id)).phase task = m.phase task from rfl, hp] at hk
    cases hk
  have huses : ∀ i, i ≠ id → ((m.emit (.letGo task id)).phase task).uses i = false := by
    intro i hi
    rw [show (m.emit (.letGo task id)).phase task = m.phase task from rfl, hp]
    simpa [Phase.uses] using hi.symm
  have hself : ((m.emit (.letGo task id)).phase task).uses id = true := by
    rw [show (m.emit (.letGo task id)).phase task = m.phase task from rfl, hp]
    simp [Phase.uses]
  have hlt : id < m.made := h.fresh task id (by rw [hp]; rfl)
  let u := m.emit (.letGo task id)
  -- its reference goes, and with it the task's part in the handle
  have hdrop : ∀ n, ((u.handleOf id).status = .ready → n + 1 = (u.handleOf id).ref_count) →
      Sound ((u.setHandle id { u.handleOf id with ref_count := n }).setPhase task .ended) := by
    intro n hn
    refine hemit.change ?_ ?_ ?_ ?_ ?_ ?_ ?_ ?_
    · intro hready _
      obtain ⟨users, hnodup, hmem, hlen⟩ := hemit.counted id hready hlt
      have hin : task ∈ users := (hmem task).mpr hself
      refine ⟨users.erase task, hnodup.erase task, ?_, ?_⟩
      · intro t
        rw [hnodup.mem_erase_iff, hmem]
        by_cases he : t = task
        · rw [if_pos he]
          constructor
          · exact fun hne => absurd he hne.1
          · intro hf
            cases hf
        · rw [if_neg he]
          exact ⟨fun hand => hand.2, fun ht => ⟨he, ht⟩⟩
      · have hl := List.length_erase_of_mem hin
        have hc := hn hready
        have hpos := List.length_pos_of_mem hin
        change users.length = (u.handleOf id).ref_count at hlen
        omega
    · intro i hi _
      rw [huses i hi]
      rfl
    · intro i hi
      rw [hgone] at hi
      cases hi
    · intro i hi
      exact .inr (hemit.not_called hcalled hi)
    · intro i hi
      cases hi
    · intro i hi
      cases hi
    · intro key i hi
      cases hi
    · intro i hi
      cases hi
  unfold beginRelease
  split
  · rename_i hid
    have hnot : (u.handleOf id).status ≠ .ready := fun hr => hid (h.kept id hr hlt)
    have hended := hdrop (u.handleOf id).ref_count (fun hr => absurd hr hnot)
    have hsame : u.setHandle id
        { u.handleOf id with ref_count := (u.handleOf id).ref_count } = u := by
      unfold Manager.setHandle
      rw [Function.update_eq_self]
    rw [hsame] at hended
    exact hended
  · rename_i hid
    rw [not_not] at hid
    dsimp only
    split
    · rename_i hmore
      exact hdrop ((u.handleOf id).ref_count - 1) (fun _ => by
        have := hmore.1
        change 1 < (u.handleOf id).ref_count at this
        omega)
    · rename_i hlast
      have hle : (m.handleOf id).ref_count ≤ 1 := by
        by_contra hgt
        exact hlast ⟨Nat.lt_of_not_le hgt, rfl⟩
      refine hemit.releasing_ hid (hund hid hle) ?_ ?_ huses hcalled
      · rw [show (m.emit (.letGo task id)).phase task = m.phase task from rfl, hp]
        rfl
      · intro t
        by_cases hready : (m.handleOf id).status = .ready
        · -- the last reference was this task's
          by_contra hne
          have hholds : holds t id u.log = true := by simpa using hne
          obtain ⟨users, hnodup, hmem, hlen⟩ := hemit.counted id hready hlt
          have hin : task ∈ users := (hmem task).mpr hself
          have hin' : t ∈ users := by
            rw [hmem, hemit.held t id hholds]
            simp [Phase.uses]
          have hdiff : t ≠ task := by
            rintro rfl
            rw [show holds t id u.log = _ from hgone id] at hholds
            cases hholds
          have hsub : [t, task] ⊆ users := by
            intro x hx
            rcases List.mem_cons.mp hx with rfl | hx
            · exact hin'
            · rw [List.mem_singleton] at hx
              rw [hx]
              exact hin
          have hnd : [t, task].Nodup := by simpa using hdiff
          have htwo := (hnd.subperm hsub).length_le
          change users.length = (m.handleOf id).ref_count at hlen
          rw [hlen] at htwo
          simp only [List.length_cons, List.length_nil] at htwo
          omega
        · exact hemit.stale id hready t

theorem Sound.called (h : Sound m) (hp : m.phase task = .releasing key id) :
    Sound ((m.emit (.releaseCalled task id)).setPhase task (.releaseCalled key id)) := by
  have hrel : (m.phase task).releases id = true := by
    rw [hp]
    simp [Phase.releases]
  obtain ⟨hstatus, hid⟩ := h.releasing task id hrel
  have hnocall : ∀ key i, m.phase task ≠ .releaseCalled key i := by
    intro key' i hk
    rw [hp] at hk
    cases hk
  have huses : ∀ i, (m.phase task).uses i = false := fun i => by rw [hp]; rfl
  have hmoved : Sound (m.setPhase task (.releaseCalled key id)) := by
    refine h.move ?_ ?_ ?_ ?_ ?_ ?_ ?_
    · intro i _
      rw [huses]
      rfl
    · intro i hi
      rw [h.not_held huses] at hi
      cases hi
    · intro i hi
      exact .inr (h.not_called hnocall hi)
    · intro i hi
      cases hi
      exact h.registered id hid
    · intro i hi
      cases hi
    · intro key' i hi
      cases hi
    · intro i hi
      have he : id = i := by simpa [Phase.releases] using hi
      subst he
      refine ⟨hstatus, hid, ?_⟩
      intro t ht
      by_contra hne
      exact ht (h.alone t task id (by simpa using hne) hrel)
  have hopen : ∀ t, closedBy t id m.log = false := by
    intro t
    by_contra hne
    have hc : closedBy t id m.log = true := by simpa using hne
    rcases h.closed t id hc with ⟨key', hk⟩ | hn
    · have he := h.alone t task id (by rw [hk]; simp [Phase.releases]) hrel
      rw [he, hp] at hk
      cases hk
    · exact hn hid
  have hphase : (m.setPhase task (.releaseCalled key id)).phase task = .releaseCalled key id := by
    rw [phase_setPhase, if_pos rfl]
  change Sound ((m.setPhase task (.releaseCalled key id)).emit (.releaseCalled task id))
  refine ⟨hmoved.fresh, hmoved.registered, ?_, hmoved.expected, hmoved.sick, hmoved.kept,
    hmoved.counted, hmoved.stale, hmoved.releasing, hmoved.alone, hmoved.held, ?_, ?_⟩
  · intro i hi t
    obtain ⟨h1, h2⟩ := h.unborn i hi t
    refine ⟨h1, ?_⟩
    change (task == t && id == i || closedBy t i m.log) = false
    have hlt := h.registered id hid
    have hne : id ≠ i := fun he => absurd hi (he ▸ Nat.not_le.mpr hlt)
    simp [h2, hne]
  · intro t i ht
    change (task == t && id == i || closedBy t i m.log) = true at ht
    rw [Bool.or_eq_true, Bool.and_eq_true, beq_iff_eq, beq_iff_eq] at ht
    rcases ht with ⟨rfl, rfl⟩ | ht
    · exact .inl ⟨key, hphase⟩
    · exact hmoved.closed t i ht
  · exact ⟨h.stale id hstatus, hopen, h.live⟩

theorem Sound.finished (h : Sound m)
    (hp : m.phase task = .releaseCalled key id) : Sound (finishRelease task key id m) := by
  have hrel : (m.phase task).releases id = true := by
    rw [hp]
    simp [Phase.releases]
  obtain ⟨hstatus, hid⟩ := h.releasing task id hrel
  have hspoiled : Sound (m.setStatus id .released) := by
    refine h.spoil (by decide) ?_ (h.stale id hstatus)
    intro t
    by_contra hne
    exact hstatus (h.expected t id (by simpa using hne))
  unfold finishRelease
  extract_lets v reuse_key u
  have hu : u.handles = m.handles ∧ u.handleOf = v.handleOf ∧ u.made = m.made ∧
      u.phase = m.phase ∧ u.log = m.log := by
    unfold u
    split <;> exact ⟨rfl, rfl, rfl, rfl, rfl⟩
  obtain ⟨hh, hof, hmade, hph, hlog⟩ := hu
  rw [if_pos (by rw [hh]; exact hid)]
  let w : Manager := { u with handles := u.handles.filter (· ≠ id) }
  have hphase : ∀ t, (w.setPhase task (.released key id)).phase t =
      if t = task then .released key id else m.phase t := by
    intro t
    rw [phase_setPhase]
    change (if t = task then _ else u.phase t) = _
    rw [hph]
  have hmem : ∀ i, i ∈ w.handles ↔ i ∈ m.handles ∧ i ≠ id := by
    intro i
    change i ∈ u.handles.filter (· ≠ id) ↔ _
    rw [hh]
    simp
  have hwof : (w.setPhase task (.released key id)).handleOf = v.handleOf := hof
  have hstat : ∀ i, (v.handleOf i).status = .ready → i ≠ id := by
    rintro i hi rfl
    rw [show (v.handleOf i) = _ from handleOf_setStatus m i i .released, if_pos rfl] at hi
    cases hi
  have hwlog : (w.setPhase task (.released key id)).log = m.log := hlog
  have hwmade : (w.setPhase task (.released key id)).made = m.made := hmade
  have hold : ∀ {t p}, (w.setPhase task (.released key id)).phase t = p →
      p ≠ .released key id → m.phase t = p := by
    intro t p ht hne
    rw [hphase] at ht
    split at ht
    · exact absurd ht.symm hne
    · exact ht
  refine ⟨?_, ?_, ?_, ?_, ?_, ?_, ?_, ?_, ?_, ?_, ?_, ?_, ?_⟩
  · intro t i ht
    rw [hphase] at ht
    rw [hwmade]
    split at ht
    · cases ht
    · exact h.fresh t i ht
  · intro i hi
    rw [hwmade]
    exact h.registered i ((hmem i).mp hi).1
  · intro i hi t
    rw [hwlog]
    rw [hwmade] at hi
    exact h.unborn i hi t
  · intro t i ht
    rw [hwof]
    rw [hphase] at ht
    split at ht
    · cases ht
    · exact hspoiled.expected t i ht
  · intro t key' i ht
    rw [hwof]
    exact hspoiled.sick t key' i (hold ht (by simp))
  · intro i hi hlt
    rw [hwof] at hi
    exact (hmem i).mpr ⟨hspoiled.kept i hi (hwmade ▸ hlt), hstat i hi⟩
  · intro i hi hlt
    rw [hwof] at hi ⊢
    obtain ⟨users, hnodup, hm, hlen⟩ := hspoiled.counted i hi (hwmade ▸ hlt)
    refine ⟨users, hnodup, ?_, hlen⟩
    intro t
    rw [hphase, hm]
    split
    · rename_i ht
      rw [ht, show v.phase task = m.phase task from rfl, hp]
      rfl
    · rfl
  · intro i hi t
    rw [hwof] at hi
    rw [hwlog]
    exact hspoiled.stale i hi t
  · intro t i ht
    rw [hphase] at ht
    split at ht
    · cases ht
    · rename_i hne
      obtain ⟨hs, hm⟩ := hspoiled.releasing t i ht
      rw [hwof]
      refine ⟨hs, (hmem i).mpr ⟨hm, ?_⟩⟩
      rintro rfl
      exact hne (h.alone t task i ht hrel)
  · intro t t' i ht ht'
    rw [hphase] at ht ht'
    split at ht
    · cases ht
    · split at ht'
      · cases ht'
      · exact h.alone t t' i ht ht'
  · intro t i ht
    rw [hwlog] at ht
    have hpt := h.held t i ht
    rw [hphase]
    split
    · rename_i he
      rw [he, hp] at hpt
      cases hpt
    · exact hpt
  · intro t i ht
    rw [hwlog] at ht
    rcases h.closed t i ht with ⟨key', hk⟩ | hn
    · by_cases he : t = task
      · rw [he, hp] at hk
        cases hk
        exact .inr fun hin => ((hmem _).mp hin).2 rfl
      · refine .inl ⟨key', ?_⟩
        rw [hphase, if_neg he]
        exact hk
    · exact .inr fun hin => hn ((hmem i).mp hin).1
  · rw [hwlog]
    exact h.live

theorem Sound.quarantined (h : Sound m) (hp : m.phase task = .releaseCalled key id) :
    Sound (((m.setStatus id .failed).emit (.releaseFailed task id)).setPhase task
      (.releaseFailed id)) := by
  have hrel : (m.phase task).releases id = true := by
    rw [hp]
    simp [Phase.releases]
  obtain ⟨hstatus, hid⟩ := h.releasing task id hrel
  have hspoiled : Sound (m.setStatus id .failed) := by
    refine h.spoil (by decide) ?_ (h.stale id hstatus)
    intro t
    by_contra hne
    exact hstatus (h.expected t id (by simpa using hne))
  have hemit : Sound ((m.setStatus id .failed).emit (.releaseFailed task id)) := by
    refine hspoiled.emit (fun t i hi => hi) ?_ h.live
    intro t i hi
    simp only [closedBy, Bool.and_eq_true] at hi
    exact hi.2
  have huses : ∀ i, (m.phase task).uses i = false := fun i => by rw [hp]; rfl
  refine hemit.move ?_ ?_ ?_ ?_ ?_ ?_ ?_
  · intro i _
    exact (huses i).symm
  · intro i hi
    rw [hemit.not_held huses] at hi
    cases hi
  · intro i hi
    change (!(task == task && id == i) && closedBy task i m.log) = true at hi
    rw [Bool.and_eq_true] at hi
    rcases h.closed task i hi.2 with ⟨key', hk⟩ | hn
    · rw [hp] at hk
      cases hk
      simp at hi
    · exact .inr hn
  · intro i hi
    cases hi
  · intro i hi
    cases hi
  · intro key' i hi
    cases hi
  · intro i hi
    cases hi

theorem Sound.returned (h : Sound m) (hp : m.phase task = .announcing id) :
    Sound (m.return_ task id) := by
  have hstatus : (m.handleOf id).status = .ready := by
    apply h.expected task id
    rw [hp]
    simp [Phase.expects]
  have hlt : id < m.made := h.fresh task id (by rw [hp]; rfl)
  have hcalled : ∀ key i, m.phase task ≠ .releaseCalled key i := by
    intro key i hk
    rw [hp] at hk
    cases hk
  have hnone : ∀ i, holds task i m.log = false := by
    intro i
    by_contra hne
    have hh := h.held task i (by simpa using hne)
    rw [hp] at hh
    cases hh
  have hmoved : Sound (m.setPhase task (.holding id)) := by
    refine h.move ?_ ?_ ?_ ?_ ?_ ?_ ?_
    · intro i _
      rw [hp]
      rfl
    · intro i hi
      rw [hnone] at hi
      cases hi
    · intro i hi
      exact .inr (h.not_called hcalled hi)
    · intro i hi
      cases hi
      exact hlt
    · intro i hi
      cases hi
    · intro key i hi
      cases hi
    · intro i hi
      cases hi
  have hphase : (m.setPhase task (.holding id)).phase task = .holding id := by
    rw [phase_setPhase, if_pos rfl]
  refine ⟨hmoved.fresh, hmoved.registered, ?_, hmoved.expected, hmoved.sick, hmoved.kept,
    hmoved.counted, ?_, hmoved.releasing, hmoved.alone, ?_, hmoved.closed, ⟨hstatus, h.live⟩⟩
  · intro i hi t
    obtain ⟨h1, h2⟩ := h.unborn i hi t
    refine ⟨?_, h2⟩
    change (task == t && id == i || holds t i m.log) = false
    have hne : id ≠ i := fun he => absurd hi (he ▸ Nat.not_le.mpr hlt)
    simp [h1, hne]
  · intro i hi t
    change (task == t && id == i || holds t i m.log) = false
    have hne : id ≠ i := by
      rintro rfl
      exact hi hstatus
    have hold := h.stale i hi t
    simp [hold, hne]
  · intro t i ht
    change (task == t && id == i || holds t i m.log) = true at ht
    rw [Bool.or_eq_true, Bool.and_eq_true, beq_iff_eq, beq_iff_eq] at ht
    rcases ht with ⟨rfl, rfl⟩ | ht
    · exact hphase
    · exact hmoved.held t i ht

theorem Sound.shared (h : Sound m) {key : String} (hp : m.phase task = .checking key id) :
    Sound ((m.setHandle id { m.handleOf id with
      ref_count := (m.handleOf id).ref_count + 1 }).return_ task id) := by
  have hstatus : (m.handleOf id).status = .ready := by
    apply h.expected task id
    rw [hp]
    simp [Phase.expects]
  have hlt : id < m.made := h.fresh task id (by rw [hp]; rfl)
  have huses : ∀ i, (m.phase task).uses i = false := fun i => by rw [hp]; rfl
  have hcalled : ∀ key i, m.phase task ≠ .releaseCalled key i := by
    intro key i hk
    rw [hp] at hk
    cases hk
  let u := m.setHandle id { m.handleOf id with ref_count := (m.handleOf id).ref_count + 1 }
  have hcounted : Sound (u.setPhase task (.announcing id)) := by
    refine h.change ?_ ?_ ?_ ?_ ?_ ?_ ?_ ?_
    · intro hready _
      obtain ⟨users, hnodup, hmem, hlen⟩ := h.counted id hready hlt
      have hnot : task ∉ users := by
        rw [hmem, huses]
        simp
      refine ⟨task :: users, List.nodup_cons.mpr ⟨hnot, hnodup⟩, ?_, by rw [List.length_cons, hlen]⟩
      intro t
      rw [List.mem_cons, hmem]
      by_cases he : t = task
      · rw [if_pos he]
        exact ⟨fun _ => by simp [Phase.uses], fun _ => .inl he⟩
      · rw [if_neg he]
        exact ⟨fun hor => hor.resolve_left he, .inr⟩
    · intro i hi _
      rw [huses]
      simpa [Phase.uses] using hi.symm
    · intro i hi
      rw [h.not_held huses] at hi
      cases hi
    · intro i hi
      exact .inr (h.not_called hcalled hi)
    · intro i hi
      cases hi
      exact hlt
    · intro i hi
      have he : id = i := by simpa [Phase.expects] using hi
      exact he ▸ hstatus
    · intro key' i hi
      cases hi
    · intro i hi
      cases hi
  have hannounced : (u.setPhase task (.announcing id)).phase task = .announcing id := by
    rw [phase_setPhase, if_pos rfl]
  have hreturned := hcounted.returned hannounced
  have hsame : (u.setPhase task (.announcing id)).return_ task id = u.return_ task id := by
    unfold Manager.return_ Manager.setPhase
    dsimp only
    rw [Function.update_idem]
  rwa [hsame] at hreturned

theorem Sound.failed (h : Sound m) {key : String}
    (hp : m.phase task = .checking key id) (hund : Undisturbed m task id) :
    Sound (((m.setStatus id .unhealthy).emit (.checkFailed id)).setPhase task
      (.unhealthy key id)) := by
  have hlt : id < m.made := h.fresh task id (by rw [hp]; rfl)
  have huses : ∀ i, (m.phase task).uses i = false := fun i => by rw [hp]; rfl
  have hcalled : ∀ key i, m.phase task ≠ .releaseCalled key i := by
    intro key i hk
    rw [hp] at hk
    cases hk
  have hemit : Sound (m.emit (.checkFailed id)) := by
    refine h.emit ?_ (fun t i hi => hi) h.live
    intro t i hi
    simp only [holds, Bool.and_eq_true] at hi
    exact hi.2
  have hidle : Sound ((m.emit (.checkFailed id)).setPhase task .ended) :=
    hemit.idle rfl huses hcalled
  have hphase : ∀ t, ((m.emit (.checkFailed id)).setPhase task .ended).phase t =
      if t = task then .ended else m.phase t := fun t => phase_setPhase _ task t _
  have hspoiled : Sound (((m.emit (.checkFailed id)).setPhase task .ended).setStatus id
      .unhealthy) := by
    refine hidle.spoil (by decide) ?_ ?_
    · intro t
      rw [hphase]
      split
      · rfl
      · rename_i ht
        exact (hund t ht).1
    · intro t
      change (id != id && holds t id m.log) = false
      simp
  have hstatus : ((((m.emit (.checkFailed id)).setPhase task .ended).setStatus id
      .unhealthy).handleOf id).status = .unhealthy := by
    rw [handleOf_setStatus, if_pos rfl]
  have husesEnded : ∀ i, ((((m.emit (.checkFailed id)).setPhase task .ended).setStatus id
      .unhealthy).phase task).uses i = false := by
    intro i
    change (((m.emit (.checkFailed id)).setPhase task .ended).phase task).uses i = false
    rw [hphase, if_pos rfl]
    rfl
  have hcalledEnded : ∀ key i, (((m.emit (.checkFailed id)).setPhase task .ended).setStatus id
      .unhealthy).phase task ≠ .releaseCalled key i := by
    intro key' i
    change ((m.emit (.checkFailed id)).setPhase task .ended).phase task ≠ _
    rw [hphase, if_pos rfl]
    exact Phase.noConfusion
  have hmoved : Sound ((((m.emit (.checkFailed id)).setPhase task .ended).setStatus id
      .unhealthy).setPhase task (.unhealthy key id)) := by
    refine hspoiled.move ?_ ?_ ?_ ?_ ?_ ?_ ?_
    · intro i _
      rw [husesEnded]
      rfl
    · intro i hi
      rw [hspoiled.not_held husesEnded] at hi
      cases hi
    · intro i hi
      exact .inr (hspoiled.not_called hcalledEnded hi)
    · intro i hi
      cases hi
      exact hlt
    · intro i hi
      cases hi
    · intro key' i hi
      cases hi
      rw [hstatus]
      decide
    · intro i hi
      cases hi
  have hsame : (((m.emit (.checkFailed id)).setPhase task .ended).setStatus id
      .unhealthy).setPhase task (.unhealthy key id) =
      ((m.setStatus id .unhealthy).emit (.checkFailed id)).setPhase task (.unhealthy key id) := by
    unfold Manager.setPhase Manager.setStatus Manager.setHandle Manager.emit
    dsimp only
    rw [Function.update_idem]
  rwa [hsame] at hmoved

theorem Sound.register (h : Sound m) {key : String}
    (hp : m.phase task = .creating key) : Sound (register task key m) := by
  have huses : ∀ i, (m.phase task).uses i = false := fun i => by rw [hp]; rfl
  have hcalled : ∀ key i, m.phase task ≠ .releaseCalled key i := by
    intro key i hk
    rw [hp] at hk
    cases hk
  let u := ExecutionResource.register task key m
  have hphase : ∀ t, u.phase t = if t = task then .announcing m.made else m.phase t :=
    fun t => phase_setPhase _ task t _
  have hof : ∀ i, u.handleOf i = if i = m.made then ⟨.ready, 1, key⟩ else m.handleOf i := by
    intro i
    change Function.update m.handleOf m.made ⟨.ready, 1, key⟩ i = _
    by_cases he : i = m.made
    · subst he
      rw [if_pos rfl, Function.update_self]
    · rw [if_neg he, Function.update_of_ne he]
  have hmem : ∀ i, i ∈ u.handles ↔ i ∈ m.handles ∨ i = m.made := by
    intro i
    change i ∈ m.handles ++ [m.made] ↔ _
    simp
  have hold : ∀ {t p}, u.phase t = p → p ≠ .announcing m.made → m.phase t = p := by
    intro t p ht hne
    rw [hphase] at ht
    split at ht
    · exact absurd ht.symm hne
    · exact ht
  have hne : ∀ {t i}, (m.phase t).handle = some i → i ≠ m.made := by
    intro t i ht he
    have hlt := h.fresh t i ht
    omega
  have hlog : u.log = m.log := rfl
  have hmade : u.made = m.made + 1 := rfl
  change Sound u
  refine ⟨?_, ?_, ?_, ?_, ?_, ?_, ?_, ?_, ?_, ?_, ?_, ?_, h.live⟩
  · intro t i ht
    rw [hphase] at ht
    rw [hmade]
    split at ht
    · cases ht
      omega
    · have hlt := h.fresh t i ht
      omega
  · intro i hi
    rw [hmade]
    rcases (hmem i).mp hi with hi | hi
    · have hlt := h.registered i hi
      omega
    · omega
  · intro i hi t
    rw [hmade] at hi
    exact h.unborn i (by omega) t
  · intro t i ht
    rw [hof]
    rw [hphase] at ht
    split at ht
    · have he : m.made = i := by simpa [Phase.expects] using ht
      rw [if_pos he.symm]
    · rw [if_neg (hne (expects_uses ht))]
      exact h.expected t i ht
  · intro t key' i ht
    have hpt := hold ht (by simp)
    rw [hof, if_neg (hne (t := t) (by rw [hpt]; rfl))]
    exact h.sick t key' i hpt
  · intro i hi hlt
    rw [hof] at hi
    rw [hmem]
    split at hi
    · rename_i he
      exact .inr he
    · rename_i hnot
      rw [hmade] at hlt
      exact .inl (h.kept i hi (by omega))
  · intro i hi hlt
    rw [hof] at hi ⊢
    split at hi
    · rename_i he
      subst he
      rw [if_pos rfl]
      refine ⟨[task], List.nodup_singleton _, ?_, rfl⟩
      intro t
      rw [hphase, List.mem_singleton]
      split
      · rename_i he
        simp [he, Phase.uses]
      · rename_i he
        have hf : (m.phase t).uses m.made = false := by
          by_contra hu
          exact hne (uses_handle (by simpa using hu)) rfl
        simp [he, hf]
    · rename_i hnot
      rw [if_neg hnot]
      rw [hmade] at hlt
      obtain ⟨users, hnodup, hm, hlen⟩ := h.counted i hi (by omega)
      refine ⟨users, hnodup, ?_, hlen⟩
      intro t
      rw [hphase, hm]
      split
      · rename_i he
        rw [he, huses]
        simpa [Phase.uses] using Ne.symm hnot
      · rfl
  · intro i hi t
    rw [hof] at hi
    split at hi
    · exact absurd rfl hi
    · exact h.stale i hi t
  · intro t i ht
    rw [hphase] at ht
    split at ht
    · cases ht
    · obtain ⟨hs, hm⟩ := h.releasing t i ht
      rw [hof, if_neg (hne (releases_handle ht))]
      exact ⟨hs, (hmem i).mpr (.inl hm)⟩
  · intro t t' i ht ht'
    rw [hphase] at ht ht'
    split at ht
    · cases ht
    · split at ht'
      · cases ht'
      · exact h.alone t t' i ht ht'
  · intro t i ht
    have hpt := h.held t i ht
    rw [hphase]
    split
    · rename_i he
      rw [he, hp] at hpt
      cases hpt
    · exact hpt
  · intro t i ht
    rw [hphase]
    rcases h.closed t i ht with ⟨key', hk⟩ | hn
    · split
      · rename_i he
        rw [he] at hk
        exact absurd hk (hcalled key' i)
      · exact .inl ⟨key', hk⟩
    · refine .inr fun hin => ?_
      rcases (hmem i).mp hin with hin | he
      · exact hn hin
      · rw [he, hlog, (h.unborn m.made (Nat.le_refl _) t).2] at ht
        cases ht

theorem Sound.lookUp (h : Sound m) {key : String} (hp : m.phase task = .idle)
    (hund : ∀ id, m.handles_by_reuse_key.get? key = some id → id ∈ m.handles →
      (m.handleOf id).status ≠ .ready → Undisturbed m task id) :
    Sound (lookUp task key m) := by
  have huses : ∀ i, (m.phase task).uses i = false := fun i => by rw [hp]; rfl
  have hcalled : ∀ key i, m.phase task ≠ .releaseCalled key i := by
    intro key i hk
    rw [hp] at hk
    cases hk
  unfold ExecutionResource.lookUp
  cases hk : m.handles_by_reuse_key.get? key with
  | none => exact h.idle rfl huses hcalled
  | some id =>
    dsimp only
    split
    · rename_i hid
      split
      · rename_i hready
        refine h.move ?_ ?_ ?_ ?_ ?_ ?_ ?_
        · intro i _
          rw [huses]
          rfl
        · intro i hi
          rw [h.not_held huses] at hi
          cases hi
        · intro i hi
          exact .inr (h.not_called hcalled hi)
        · intro i hi
          cases hi
          exact h.registered id hid
        · intro i hi
          have he : id = i := by simpa [Phase.expects] using hi
          exact he ▸ hready
        · intro key' i hi
          cases hi
        · intro i hi
          cases hi
      · rename_i hnot
        exact h.beginForced key huses hcalled (by rw [hp]; rfl) hnot
          fun hin => hund id hk hin hnot
    · exact h.idle rfl huses hcalled

theorem Sound.afterRelease (h : Sound m) (huses : ∀ i, (m.phase task).uses i = false)
    (hcalled : ∀ key i, m.phase task ≠ .releaseCalled key i) :
    Sound (afterRelease task key m) := by
  cases key with
  | none => exact h.idle rfl huses hcalled
  | some key => exact h.idle rfl huses hcalled

theorem sound_step {a : Action} {m' : Manager} (h : Sound m) (hapart : Apart m a)
    (hm : step m a = some m') : Sound m' := by
  cases a with
  | ensure task key =>
    dsimp only [step] at hm
    split at hm
    · rename_i hp
      cases hm
      exact h.lookUp hp hapart
    · cases hm
  | healthChecked task ready =>
    dsimp only [step] at hm
    split at hm
    · rename_i key id hp
      cases ready with
      | true =>
        cases hm
        exact h.shared hp
      | false =>
        cases hm
        exact h.failed hp (hapart rfl key id hp)
    · cases hm
  | emitted task =>
    dsimp only [step] at hm
    split at hm
    · rename_i key id hp
      cases hm
      exact h.beginForced key (fun i => by rw [hp]; rfl) (fun _ _ hk => by rw [hp] at hk; cases hk)
        (by rw [hp]; rfl) (h.sick task key id hp) (hapart key id hp)
    · rename_i key id hp
      cases hm
      exact h.called hp
    · rename_i id hp
      cases hm
      exact h.idle rfl (fun i => by rw [hp]; rfl) (fun _ _ hk => by rw [hp] at hk; cases hk)
    · rename_i key id hp
      cases hm
      exact h.afterRelease (fun i => by rw [hp]; rfl)
        (fun _ _ hk => by rw [hp] at hk; cases hk)
    · rename_i key hp
      cases hm
      exact h.idle rfl (fun i => by rw [hp]; rfl) (fun _ _ hk => by rw [hp] at hk; cases hk)
    · rename_i hp
      cases hm
      exact h.idle rfl (fun i => by rw [hp]; rfl) (fun _ _ hk => by rw [hp] at hk; cases hk)
    · rename_i id hp
      cases hm
      exact h.returned hp
    · cases hm
  | created task ok =>
    dsimp only [step] at hm
    split at hm
    · rename_i key hp
      cases ok with
      | true =>
        cases hm
        exact h.register hp
      | false =>
        cases hm
        exact h.idle rfl (fun i => by rw [hp]; rfl) (fun _ _ hk => by rw [hp] at hk; cases hk)
    · cases hm
  | providerReleased task ok =>
    dsimp only [step] at hm
    split at hm
    · rename_i key id hp
      cases ok with
      | true =>
        cases hm
        exact h.finished hp
      | false =>
        cases hm
        exact h.quarantined hp
    · cases hm
  | release task =>
    dsimp only [step] at hm
    split at hm
    · rename_i id hp
      cases hm
      exact h.letGo hp (hapart id hp)
    · cases hm

theorem sound_start : Sound {} := by
  refine ⟨?_, ?_, ?_, ?_, ?_, ?_, ?_, ?_, ?_, ?_, ?_, ?_, trivial⟩
  · exact fun t id ht => nomatch ht
  · exact fun id hid => absurd hid List.not_mem_nil
  · exact fun id _ t => ⟨rfl, rfl⟩
  · exact fun t id ht => nomatch ht
  · exact fun t key id ht => nomatch ht
  · exact fun id hid => nomatch hid
  · exact fun id hid => nomatch hid
  · exact fun id _ t => rfl
  · exact fun t id ht => nomatch ht
  · exact fun t t' id ht => nomatch ht
  · exact fun t id ht => nomatch ht
  · exact fun t id ht => nomatch ht

end

def releasedWhileChecked : List Action :=
  [.ensure 0 "k", .emitted 0, .created 0 true, .emitted 0, .ensure 1 "k", .release 0, .emitted 0,
    .providerReleased 0 true, .healthChecked 1 true]

def Action.task : Action → Nat
  | .ensure task _ => task
  | .healthChecked task _ => task
  | .emitted task => task
  | .created task _ => task
  | .providerReleased task _ => task
  | .release task => task

section

variable {m m' : Manager}

variable {t task : Nat}

theorem phase_afterRelease (key : Option String) (ht : t ≠ task) :
    (afterRelease task key m).phase t = m.phase t := by
  cases key <;> exact (phase_setPhase m task t _).trans (if_neg ht)

theorem phase_beginRelease {id : Nat} (key : Option String) (force : Bool)
    (ht : t ≠ task) : (beginRelease task key id force m).phase t = m.phase t := by
  unfold beginRelease
  split
  · exact phase_afterRelease key ht
  · dsimp only
    split
    · exact phase_afterRelease (m := m.setHandle id _) key ht
    · exact (phase_setPhase (m.setStatus id .releasing) task t _).trans (if_neg ht)

theorem phase_lookUp (key : String) (ht : t ≠ task) :
    (lookUp task key m).phase t = m.phase t := by
  unfold lookUp
  split
  · split
    · split
      · exact (phase_setPhase m task t _).trans (if_neg ht)
      · exact phase_beginRelease (some key) true ht
    · exact (phase_setPhase m task t _).trans (if_neg ht)
  · exact (phase_setPhase m task t _).trans (if_neg ht)

theorem phase_finishRelease {id : Nat} (key : Option String) (ht : t ≠ task) :
    (finishRelease task key id m).phase t = m.phase t := by
  unfold finishRelease
  extract_lets v reuse_key u
  have hu : u.phase = m.phase := by
    unfold u
    split <;> rfl
  split
  · exact ((phase_setPhase _ task t _).trans (if_neg ht)).trans (congrFun hu t)
  · exact ((phase_setPhase _ task t _).trans (if_neg ht)).trans (congrFun hu t)

theorem phase_step {a : Action} (hm : step m a = some m') (ht : t ≠ a.task) :
    m'.phase t = m.phase t := by
  cases a with
  | ensure task key =>
    dsimp only [step] at hm
    split at hm
    · cases hm
      exact phase_lookUp key ht
    · cases hm
  | healthChecked task ready =>
    dsimp only [step] at hm
    split at hm
    · split at hm <;> cases hm <;> exact (phase_setPhase _ task t _).trans (if_neg ht)
    · cases hm
  | emitted task =>
    dsimp only [step] at hm
    split at hm
    · cases hm
      exact phase_beginRelease _ true ht
    · cases hm
      exact (phase_setPhase _ task t _).trans (if_neg ht)
    · cases hm
      exact (phase_setPhase _ task t _).trans (if_neg ht)
    · cases hm
      exact phase_afterRelease _ ht
    · cases hm
      exact (phase_setPhase _ task t _).trans (if_neg ht)
    · cases hm
      exact (phase_setPhase _ task t _).trans (if_neg ht)
    · cases hm
      exact (phase_setPhase _ task t _).trans (if_neg ht)
    · cases hm
  | created task ok =>
    dsimp only [step] at hm
    split at hm
    · split at hm <;> cases hm <;> exact (phase_setPhase _ task t _).trans (if_neg ht)
    · cases hm
  | providerReleased task ok =>
    dsimp only [step] at hm
    split at hm
    · split at hm
      · cases hm
        exact phase_finishRelease _ ht
      · cases hm
        exact (phase_setPhase _ task t _).trans (if_neg ht)
    · cases hm
  | release task =>
    dsimp only [step] at hm
    split at hm
    · cases hm
      exact phase_beginRelease (m := m.emit _) none false ht
    · cases hm

theorem meets_apart_of_task {as : List Action} (has : ∀ a ∈ as, a.task = task)
    (hidle : ∀ t, t ≠ task → m.phase t = .idle) : manager.Meets Apart m as := by
  induction as generalizing m with
  | nil => trivial
  | cons a as ih =>
    have ha := has a List.mem_cons_self
    have hund : ∀ id, Undisturbed m a.task id := by
      intro id t ht
      rw [hidle t (ha ▸ ht)]
      exact ⟨rfl, rfl⟩
    refine ⟨?_, ?_⟩
    · cases a with
      | ensure task key => exact fun id _ _ _ => hund id
      | healthChecked task ready => exact fun _ key id _ => hund id
      | emitted task => exact fun key id _ _ => hund id
      | created task ok => trivial
      | providerReleased task ok => trivial
      | release task => exact fun id _ _ _ => hund id
    · intro m' hm
      refine ih (List.forall_mem_cons.mp has).2 ?_
      intro t ht
      rw [phase_step hm (ha.symm ▸ ht)]
      exact hidle t ht

end

def releasedAfterUse : List Action :=
  [.ensure 0 "k", .emitted 0, .created 0 true, .emitted 0, .release 0, .emitted 0,
    .providerReleased 0 true, .emitted 0]

end Agently.ExecutionResource
