import Agently.TaskWorkspace.Identity

/-! # No two contents share an identity

The counter is written after the index that uses it. As long as no process stops between the two
writes of an allocation, all stored identities are below the counter and differ. -/

namespace Agently.TaskWorkspace.Identity

open Agently.Lib
open Agently.TaskDAGValidation (strip)

def Files.high (f : Files) : Nat := (f.state.map IdentityState.high_water).getD 0

theorem identity_inj {prefix_ : String} {m n : Nat} (hm : 0 < m) (hn : 0 < n)
    (h : identity prefix_ m = identity prefix_ n) : m = n := by
  have hl := congrArg String.toList h
  simp only [identity, String.toList_append, List.append_cancel_left_eq] at hl
  have hb : base62 m = base62 n := String.toList_inj.mp hl
  have hd := Storage.Identity.decode_encode id hm
  rw [show Storage.Identity.encode_base62 m = Storage.Identity.encode_base62 n from hb,
    Storage.Identity.decode_encode id hn] at hd
  exact (Except.ok.inj hd).symm

theorem identity_ne_empty (prefix_ : String) (n : Nat) : identity prefix_ n ≠ "" := by
  intro h
  have hl := congrArg String.toList h
  simp [identity] at hl

/-- The version stored under `hex` for a digest, with the index it is in. -/
def Holds (f : Files) (hex : String) (index : LocatorIndex) (version : Version) : Prop :=
  f.locators hex = some index ∧ version ∈ index.versions

variable (tw : String)

structure Sound (f : Files) : Prop where
  owner : ∀ state, f.state = some state → state.task_workspace_id = tw
  index_owner : ∀ hex index, f.locators hex = some index → index.task_workspace_id = tw
  path_contained : ∀ hex index, f.locators hex = some index →
    contained index.normalized_path = true
  digest_sha256 : ∀ hex index v, Holds f hex index v → is_sha256 v.sha256 = true
  locator_below : ∀ hex index, f.locators hex = some index →
    ∃ n, 0 < n ∧ n ≤ f.high ∧ index.locator_id = identity "loc" n
  version_below : ∀ hex index v, Holds f hex index v →
    ∃ n, 0 < n ∧ n ≤ f.high ∧ v.content_version_id = identity "cv" n
  locators_differ : ∀ hex hex' index index', f.locators hex = some index →
    f.locators hex' = some index' → index.locator_id = index'.locator_id → hex = hex'
  versions_differ : ∀ hex hex' index index' v v', Holds f hex index v → Holds f hex' index' v' →
    v.content_version_id = v'.content_version_id → hex = hex' ∧ v = v'
  one_per_digest : ∀ hex index v v', Holds f hex index v → Holds f hex index v' →
    v.sha256 = v'.sha256 → v = v'

theorem sound_initial : Sound tw initial.files := by
  refine ⟨?_, ?_, ?_, ?_, ?_, ?_, ?_, ?_, ?_⟩ <;> simp [initial, Holds]

def Kept (f g : Files) : Prop :=
  ∀ hex index, f.locators hex = some index → ∃ later, g.locators hex = some later ∧
    later.locator_id = index.locator_id ∧ later.normalized_path = index.normalized_path ∧
      ∀ v ∈ index.versions, v ∈ later.versions

theorem Kept.refl (f : Files) : Kept f f :=
  fun _ index h => ⟨index, h, rfl, rfl, fun _ hv => hv⟩

/-- The index that a path has, or is given, before a version is added, and the counter then. -/
inductive Opened (f : Files) (hex path : String) : LocatorIndex → Nat → Prop where
  | found (index : LocatorIndex) (h : f.locators hex = some index)
      (hp : index.normalized_path = path) : Opened f hex path index f.high
  | fresh (h : f.locators hex = none) :
      Opened f hex path ⟨tw, path, identity "loc" (f.high + 1), none, []⟩ (f.high + 1)

inductive Does (f : Files) (hex path digest : String) (size : Int) :
    List JsonWrite × Except CatalogError TaskWorkspaceContentObservation → Prop where
  | refuse (e : CatalogError) : Does f hex path digest size ([], .error e)
  | again (index : LocatorIndex) (v : Version) (h : Holds f hex index v)
      (hp : index.normalized_path = path) (hv : v.sha256 = digest) (ws : List JsonWrite)
      (hws : ws = [] ∨ ws =
        [.index hex { index with current_content_version_id := some v.content_version_id }]) :
      Does f hex path digest size
        (ws, .ok ⟨index.locator_id, v.content_version_id, digest, size.toNat, false⟩)
  | allocate (index : LocatorIndex) (high : Nat) (state : IdentityState)
      (ho : Opened tw f hex path index high) (hd : ∀ v ∈ index.versions, v.sha256 ≠ digest)
      (hc : contained path = true) (hs : is_sha256 digest = true) (h0 : 0 ≤ size)
      (hstate : state.task_workspace_id = tw ∧ state.high_water = high + 1) :
      Does f hex path digest size
        ([.index hex
            { index with
              current_content_version_id := some (identity "cv" (high + 1))
              versions := index.versions ++ [⟨identity "cv" (high + 1), digest, size.toNat⟩] },
          .state state],
          .ok ⟨index.locator_id, identity "cv" (high + 1), digest, size.toNat, true⟩)

variable (sha256 : String → String) {tw}

variable {index : LocatorIndex}

theorem observe_version_none {tw hex : String} {state : IdentityState}
    {digest : String} {size : Nat}
    (h : (index.versions.find? fun v => v.sha256 = digest) = none) :
    observe_version tw hex index state digest size =
      ([.index hex
          { index with
            current_content_version_id := some (identity "cv" (state.high_water + 1))
            versions := index.versions ++
              [⟨identity "cv" (state.high_water + 1), digest, size⟩] },
        .state ⟨tw, state.high_water + 1, state.revision + 1⟩],
        .ok ⟨index.locator_id, identity "cv" (state.high_water + 1), digest, size, true⟩) := by
  simp only [observe_version, h, allocate]

theorem observe_path_does (f : Files) (p d : String) (size : Int) :
    Does tw f (sha256 (strip p)) (strip p) (lower (strip d)) size
      (observe_path sha256 tw f p d size) := by
  unfold observe_path
  generalize strip p = path
  generalize lower (strip d) = digest
  simp only
  split
  · exact .refuse _
  · next hc =>
    split
    · exact .refuse _
    · next hs =>
      split
      · exact .refuse _
      · next h0 =>
        cases hr : read_state tw f with
        | error e => exact .refuse _
        | ok state =>
          have hhigh : state.high_water = f.high := by
            unfold read_state at hr
            cases hf : f.state with
            | none =>
              rw [hf] at hr
              cases hr
              simp [Files.high, hf]
            | some found =>
              rw [hf] at hr
              simp only at hr
              split at hr
              · cases hr
              · cases hr
                simp [Files.high, hf]
          simp only [read_index]
          cases hi : f.locators (sha256 path) with
          | none =>
            simp only [allocate, hhigh]
            rw [observe_version_none rfl]
            exact .allocate _ _ _ (.fresh hi) (by simp) (by simpa using hc) (by simpa using hs)
              (by omega) ⟨rfl, rfl⟩
          | some index =>
            simp only
            by_cases hown : index.task_workspace_id ≠ tw ∨ index.normalized_path ≠ path
            · rw [if_pos hown]
              exact .refuse _
            · rw [if_neg hown]
              simp only
              have hp : index.normalized_path = path := by
                by_contra hno
                exact hown (Or.inr hno)
              cases hv : index.versions.find? fun v => decide (v.sha256 = digest) with
              | none =>
                rw [observe_version_none hv, hhigh]
                refine .allocate _ _ _ (.found index hi hp) ?_ (by simpa using hc)
                  (by simpa using hs) (by omega) ⟨rfl, rfl⟩
                intro v hm
                simpa using List.find?_eq_none.mp hv v hm
              | some v =>
                have hmem := List.mem_of_find?_eq_some hv
                have hdig : v.sha256 = digest := by simpa using List.find?_some hv
                simp only [observe_version, hv]
                split
                · exact .refuse _
                · split
                  · exact .refuse _
                  · refine .again index v ⟨hi, hmem⟩ hp hdig _ ?_
                    split
                    · exact Or.inl rfl
                    · exact Or.inr rfl

/-- An index written in the place of the one there was: what it keeps, and the version that is
new in it, if one is. -/
structure Extends (tw : String) (f : Files) (hex : String) (index : LocatorIndex)
    (added : Option Version) (high : Nat) : Prop where
  above : f.high ≤ high
  owner : index.task_workspace_id = tw
  path : contained index.normalized_path = true
  locator : ∃ n, 0 < n ∧ n ≤ high ∧ index.locator_id = identity "loc" n ∧
    (f.locators hex = none → f.high < n)
  keeps : ∀ old, f.locators hex = some old → index.locator_id = old.locator_id ∧
    index.normalized_path = old.normalized_path ∧ ∀ v ∈ old.versions, v ∈ index.versions
  versions : ∀ v ∈ index.versions, (∃ old, Holds f hex old v) ∨ added = some v
  fresh : ∀ v, added = some v → is_sha256 v.sha256 = true ∧
    (∃ n, f.high < n ∧ n ≤ high ∧ v.content_version_id = identity "cv" n) ∧
      ∀ old w, Holds f hex old w → w.sha256 ≠ v.sha256

section Extend

variable {f g : Files} {hex : String} {index : LocatorIndex} {added : Option Version}

variable {h : String} {i : LocatorIndex}

theorem locators_cases (hg : g.locators = Function.update f.locators hex (some index))
    (hi : g.locators h = some i) :
    (h = hex ∧ i = index) ∨ (h ≠ hex ∧ f.locators h = some i) := by
  rw [hg] at hi
  by_cases he : h = hex
  · subst he
    rw [Function.update_self] at hi
    exact Or.inl ⟨rfl, (Option.some.inj hi).symm⟩
  · rw [Function.update_of_ne he] at hi
    exact Or.inr ⟨he, hi⟩

theorem kept_of_extends {high : Nat} (hx : Extends tw f hex index added high)
    (hg : g.locators = Function.update f.locators hex (some index)) : Kept f g := by
  intro h old hold
  by_cases he : h = hex
  · subst he
    obtain ⟨hl, hp, hv⟩ := hx.keeps old hold
    exact ⟨index, by rw [hg, Function.update_self], hl, hp, hv⟩
  · exact ⟨old, by rw [hg, Function.update_of_ne he, hold], rfl, rfl, fun _ hv => hv⟩

theorem holds_cases {high : Nat} (hx : Extends tw f hex index added high)
    (hg : g.locators = Function.update f.locators hex (some index))
    {v : Version} (hh : Holds g h i v) :
    (∃ old, Holds f h old v) ∨ (h = hex ∧ added = some v) := by
  rcases locators_cases hg hh.1 with ⟨rfl, rfl⟩ | ⟨-, hi⟩
  · exact (hx.versions v hh.2).imp_right fun ha => ⟨rfl, ha⟩
  · exact Or.inl ⟨i, hi, hh.2⟩

theorem locator_cases {high : Nat} (hx : Extends tw f hex index added high)
    (hg : g.locators = Function.update f.locators hex (some index))
    (hi : g.locators h = some i) :
    (∃ old, f.locators h = some old ∧ i.locator_id = old.locator_id) ∨
      (h = hex ∧ ∃ n, f.high < n ∧ i.locator_id = identity "loc" n) := by
  rcases locators_cases hg hi with ⟨rfl, rfl⟩ | ⟨-, hi⟩
  · cases hf : f.locators h with
    | some old => exact Or.inl ⟨old, rfl, (hx.keeps old hf).1⟩
    | none =>
      obtain ⟨n, -, -, hl, hn⟩ := hx.locator
      exact Or.inr ⟨rfl, n, hn hf, hl⟩
  · exact Or.inl ⟨i, hi, rfl⟩

theorem Sound.locator_unused (hs : Sound tw f)
    (hi : f.locators h = some i) {n : Nat} (hn : f.high < n) : i.locator_id ≠ identity "loc" n := by
  obtain ⟨m, h0, hm, hl⟩ := hs.locator_below h i hi
  intro he
  have := identity_inj h0 (by omega) (hl.symm.trans he)
  omega

theorem Sound.version_unused (hs : Sound tw f) {v : Version}
    (hv : Holds f h i v) {n : Nat} (hn : f.high < n) :
    v.content_version_id ≠ identity "cv" n := by
  obtain ⟨m, h0, hm, hl⟩ := hs.version_below h i v hv
  intro he
  have := identity_inj h0 (by omega) (hl.symm.trans he)
  omega

theorem Sound.extend (hs : Sound tw f) {high : Nat} (hx : Extends tw f hex index added high)
    (hg : g.locators = Function.update f.locators hex (some index)) (hhigh : g.high = high)
    (howner : ∀ state, g.state = some state → state.task_workspace_id = tw) : Sound tw g where
  owner := howner
  index_owner := by
    intro h i hi
    rcases locators_cases hg hi with ⟨rfl, rfl⟩ | ⟨-, hi⟩
    · exact hx.owner
    · exact hs.index_owner h i hi
  path_contained := by
    intro h i hi
    rcases locators_cases hg hi with ⟨rfl, rfl⟩ | ⟨-, hi⟩
    · exact hx.path
    · exact hs.path_contained h i hi
  digest_sha256 := by
    intro h i v hv
    rcases holds_cases hx hg hv with ⟨old, hold⟩ | ⟨-, ha⟩
    · exact hs.digest_sha256 h old v hold
    · exact (hx.fresh v ha).1
  locator_below := by
    intro h i hi
    rcases locators_cases hg hi with ⟨rfl, rfl⟩ | ⟨-, hi⟩
    · obtain ⟨n, h0, hn, hl, -⟩ := hx.locator
      exact ⟨n, h0, by omega, hl⟩
    · obtain ⟨n, h0, hn, hl⟩ := hs.locator_below h i hi
      have := hx.above
      exact ⟨n, h0, by omega, hl⟩
  version_below := by
    intro h i v hv
    have habove := hx.above
    rcases holds_cases hx hg hv with ⟨old, hold⟩ | ⟨-, ha⟩
    · obtain ⟨n, h0, hn, hl⟩ := hs.version_below h old v hold
      exact ⟨n, h0, by omega, hl⟩
    · obtain ⟨n, h0, hn, hl⟩ := (hx.fresh v ha).2.1
      exact ⟨n, by omega, by omega, hl⟩
  locators_differ := by
    intro h h' i i' hi hi' he
    rcases locator_cases hx hg hi with ⟨old, hold, ho⟩ | ⟨rfl, n, hn, hl⟩
    · rcases locator_cases hx hg hi' with ⟨old', hold', ho'⟩ | ⟨rfl, n, hn, hl⟩
      · exact hs.locators_differ h h' old old' hold hold' (ho.symm.trans (he.trans ho'))
      · exact absurd (ho.symm.trans (he.trans hl)) (hs.locator_unused hold hn)
    · rcases locator_cases hx hg hi' with ⟨old', hold', ho'⟩ | ⟨rfl, -⟩
      · exact absurd (ho'.symm.trans (he.symm.trans hl)) (hs.locator_unused hold' hn)
      · rfl
  versions_differ := by
    intro h h' i i' v v' hv hv' he
    rcases holds_cases hx hg hv with ⟨old, hold⟩ | ⟨rfl, ha⟩
    · rcases holds_cases hx hg hv' with ⟨old', hold'⟩ | ⟨rfl, ha'⟩
      · exact hs.versions_differ h h' old old' v v' hold hold' he
      · obtain ⟨n, hn, -, hl⟩ := (hx.fresh v' ha').2.1
        exact absurd (he.trans hl) (hs.version_unused hold hn)
    · rcases holds_cases hx hg hv' with ⟨old', hold'⟩ | ⟨rfl, ha'⟩
      · obtain ⟨n, hn, -, hl⟩ := (hx.fresh v ha).2.1
        exact absurd (he.symm.trans hl) (hs.version_unused hold' hn)
      · exact ⟨rfl, Option.some.inj (ha.symm.trans ha')⟩
  one_per_digest := by
    intro h i v v' hv hv' he
    rcases holds_cases hx hg hv with ⟨old, hold⟩ | ⟨rfl, ha⟩
    · rcases holds_cases hx hg hv' with ⟨old', hold'⟩ | ⟨rfl, ha'⟩
      · have hsame := Option.some.inj (hold.1.symm.trans hold'.1)
        subst hsame
        exact hs.one_per_digest h old v v' hold hold' he
      · exact absurd he ((hx.fresh v' ha').2.2 old v hold)
    · rcases holds_cases hx hg hv' with ⟨old', hold'⟩ | ⟨-, ha'⟩
      · exact absurd he.symm ((hx.fresh v ha).2.2 old' v' hold')
      · exact Option.some.inj (ha.symm.trans ha')

end Extend

def Observation.path (a : Observation) : String := strip a.normalized_path

def Observation.key (a : Observation) : String := lower (strip a.digest)

def stored (f : Files) (a : Observation) : Option Version :=
  match f.locators (sha256 a.path) with
  | none => none
  | some index =>
    if index.normalized_path = a.path then index.versions.find? fun v => v.sha256 = a.key
    else none

def Undisturbed (s : Catalog) (a : Observation) : Prop :=
  (a.stop = some 1 → contained a.path = true → is_sha256 a.key = true → 0 ≤ a.size →
    stored sha256 s.files a ≠ none) ∧
  ∀ v, stored sha256 s.files a = some v → (v.size : Int) = a.size

def Recorded (f : Files) (path : String) (answer : TaskWorkspaceContentObservation) : Prop :=
  ∃ index v, Holds f (sha256 path) index v ∧ index.normalized_path = path ∧
    index.locator_id = answer.locator_id ∧ v.sha256 = answer.digest ∧
      v.content_version_id = answer.content_version_id

/-- What is answered is stored, no identity is stored twice, and a stored pair keeps the one it
has. -/
structure Identified (tw : String) (s : Catalog) : Prop where
  answered : ∀ p o, (p, o) ∈ s.answers → Recorded sha256 s.files p o
  locators : ∀ hex hex' i i', s.files.locators hex = some i → s.files.locators hex' = some i' →
    i.locator_id = i'.locator_id → i.normalized_path = i'.normalized_path
  versions : ∀ hex hex' i i' v v', Holds s.files hex i v → Holds s.files hex' i' v' →
    v.content_version_id = v'.content_version_id →
      i.normalized_path = i'.normalized_path ∧ v.sha256 = v'.sha256
  repeated : ∀ a index v, Undisturbed sha256 s a → Holds s.files (sha256 a.path) index v →
    index.normalized_path = a.path → v.sha256 = a.key →
      ∃ o, (a.outcome sha256 tw s.files).2 = .ok o ∧ o.locator_id = index.locator_id ∧
        o.content_version_id = v.content_version_id

variable {sha256}

variable {f : Files}

theorem Recorded.kept {g : Files} {path : String} {o : TaskWorkspaceContentObservation}
    (hk : Kept f g) (h : Recorded sha256 f path o) : Recorded sha256 g path o := by
  obtain ⟨index, v, ⟨hi, hv⟩, hp, hl, hd, hc⟩ := h
  obtain ⟨later, hg, hl', hp', hv'⟩ := hk _ index hi
  exact ⟨later, v, ⟨hg, hv' v hv⟩, hp'.trans hp, hl'.trans hl, hd, hc⟩

theorem Does.keeps {path digest : String} {size : Int}
    {r : List JsonWrite × Except CatalogError TaskWorkspaceContentObservation}
    (hs : Sound tw f) (hd : Does tw f (sha256 path) path digest size r) :
    (Sound tw (applyAll f r.1) ∧ Kept f (applyAll f r.1)) ∧
      ∀ o, r.2 = .ok o → Recorded sha256 (applyAll f r.1) path o := by
  cases hd with
  | refuse e => exact ⟨⟨hs, Kept.refl f⟩, fun o ho => by cases ho⟩
  | again index v h hp hv ws hws =>
    have hr : Recorded sha256 f path
        ⟨index.locator_id, v.content_version_id, digest, size.toNat, false⟩ :=
      ⟨index, v, h, hp, rfl, hv, rfl⟩
    have hboth : Sound tw (applyAll f ws) ∧ Kept f (applyAll f ws) := by
      rcases hws with rfl | rfl
      · exact ⟨hs, Kept.refl f⟩
      · obtain ⟨n, h0, hn, hl⟩ := hs.locator_below _ _ h.1
        have hcontained := hs.path_contained _ _ h.1
        have howner := hs.index_owner _ _ h.1
        have hx : Extends tw f (sha256 path)
            { index with current_content_version_id := some v.content_version_id } none f.high :=
          { above := Nat.le_refl _
            owner := howner
            path := hcontained
            locator := ⟨n, h0, hn, hl, fun hno => by rw [h.1] at hno; cases hno⟩
            keeps := by
              intro old hold
              have he := Option.some.inj (h.1.symm.trans hold)
              subst he
              exact ⟨rfl, rfl, fun _ hw => hw⟩
            versions := fun w hw => Or.inl ⟨index, h.1, hw⟩
            fresh := fun w hw => by cases hw }
        exact ⟨hs.extend hx rfl rfl hs.owner, kept_of_extends hx rfl⟩
    refine ⟨hboth, ?_⟩
    intro o ho
    cases ho
    exact hr.kept hboth.2
  | allocate index high state ho hd hc hsha h0 hstate =>
    obtain ⟨hown, hwater⟩ := hstate
    have hfresh : ∀ v, some (⟨identity "cv" (high + 1), digest, size.toNat⟩ : Version) = some v →
        f.high ≤ high → (∀ old w, Holds f (sha256 path) old w → w.sha256 ≠ digest) →
        is_sha256 v.sha256 = true ∧
          (∃ n, f.high < n ∧ n ≤ high + 1 ∧ v.content_version_id = identity "cv" n) ∧
            ∀ old w, Holds f (sha256 path) old w → w.sha256 ≠ v.sha256 := by
      intro v hv hle hne
      cases hv
      exact ⟨hsha, ⟨high + 1, by omega, Nat.le_refl _, rfl⟩, hne⟩
    have hx : Extends tw f (sha256 path)
        { index with
          current_content_version_id := some (identity "cv" (high + 1))
          versions := index.versions ++ [⟨identity "cv" (high + 1), digest, size.toNat⟩] }
        (some ⟨identity "cv" (high + 1), digest, size.toNat⟩) (high + 1) := by
      cases ho with
      | found _ hi hp =>
        obtain ⟨n, hn0, hn, hl⟩ := hs.locator_below _ _ hi
        have hcontained := hs.path_contained _ _ hi
        have howner := hs.index_owner _ _ hi
        have hkeeps : ∀ old, f.locators (sha256 path) = some old → index = old :=
          fun old hold => Option.some.inj (hi.symm.trans hold)
        refine
          { above := Nat.le_succ _
            owner := howner
            path := hcontained
            locator := ⟨n, hn0, by omega, hl, fun hno => by rw [hi] at hno; cases hno⟩
            keeps := ?_
            versions := ?_
            fresh := fun v hv => hfresh v hv (Nat.le_refl _) ?_ }
        · intro old hold
          have he := hkeeps old hold
          subst he
          exact ⟨rfl, rfl, fun w hw => List.mem_append_left _ hw⟩
        · intro w hw
          rcases List.mem_append.mp hw with hw | hw
          · exact Or.inl ⟨index, hi, hw⟩
          · exact Or.inr (congrArg some (List.mem_singleton.mp hw).symm)
        · intro old w hw
          have he := hkeeps old hw.1
          subst he
          exact hd w hw.2
      | fresh hno =>
        refine
          { above := by omega
            owner := rfl
            path := hc
            locator := ⟨f.high + 1, by omega, by omega, rfl, fun _ => by omega⟩
            keeps := fun old hold => by rw [hno] at hold; cases hold
            versions := ?_
            fresh := fun v hv => hfresh v hv (Nat.le_succ _) ?_ }
        · intro w hw
          exact Or.inr (congrArg some (List.mem_singleton.mp hw).symm)
        · intro old w hw
          have hold := hw.1
          rw [hno] at hold
          cases hold
    have hpath : index.normalized_path = path := by
      cases ho with
      | found _ hi hp => exact hp
      | fresh hno => rfl
    have hk : Kept f (applyAll f [.index (sha256 path)
        { index with
          current_content_version_id := some (identity "cv" (high + 1))
          versions := index.versions ++ [⟨identity "cv" (high + 1), digest, size.toNat⟩] },
        .state state]) := kept_of_extends hx rfl
    refine ⟨⟨hs.extend hx rfl hwater ?_, hk⟩, ?_⟩
    · intro st hst
      cases hst
      exact hown
    · intro o ho
      cases ho
      exact ⟨_, _, ⟨Function.update_self .., List.mem_append_right _ (List.mem_singleton_self _)⟩,
        hpath, rfl, rfl, rfl⟩

def Invariant (sha256 : String → String) (tw : String) (s : Catalog) : Prop :=
  Sound tw s.files ∧ ∀ p o, (p, o) ∈ s.answers → Recorded sha256 s.files p o

variable {a : Observation}

theorem stored_of_holds {v : Version} (hs : Sound tw f) (h : Holds f (sha256 a.path) index v)
    (hp : index.normalized_path = a.path) (hv : v.sha256 = a.key) :
    index.versions.find? (fun v => v.sha256 = a.key) = some v ∧ stored sha256 f a = some v := by
  have hfind : index.versions.find? (fun v => v.sha256 = a.key) = some v := by
    cases hw : index.versions.find? fun v => decide (v.sha256 = a.key) with
    | none => simpa [hv] using List.find?_eq_none.mp hw v h.2
    | some w =>
      have hwk : w.sha256 = a.key := by simpa using List.find?_some hw
      exact congrArg some
        (hs.one_per_digest _ index w v ⟨h.1, List.mem_of_find?_eq_some hw⟩ h (hwk.trans hv.symm))
  refine ⟨hfind, ?_⟩
  simp only [stored, h.1, if_pos hp]
  exact hfind

theorem Does.cut {n : Nat}
    (hu : n = 1 → contained a.path = true → is_sha256 a.key = true → 0 ≤ a.size →
      stored sha256 f a ≠ none)
    {r : List JsonWrite × Except CatalogError TaskWorkspaceContentObservation}
    (hd : Does tw f (sha256 a.path) a.path a.key a.size r) :
    r.1.take n = [] ∨ r.1.take n = r.1 := by
  cases hd with
  | refuse e => exact Or.inl List.take_nil
  | again index v h hp hv ws hws =>
    rcases hws with rfl | rfl
    · exact Or.inl List.take_nil
    · cases n with
      | zero => exact Or.inl rfl
      | succ n => exact Or.inr (by simp)
  | allocate index high state ho hd hc hsha h0 hstate =>
    match n with
    | 0 => exact Or.inl rfl
    | n + 2 => exact Or.inr (by simp)
    | 1 =>
      refine absurd ?_ (hu rfl hc hsha h0)
      unfold stored
      cases ho with
      | found _ hi hp =>
        rw [hi]
        simp only [if_pos hp]
        exact List.find?_eq_none.mpr fun v hv => by simpa using hd v hv
      | fresh hno => rw [hno]

theorem observe_keeps {s : Catalog} (hi : Invariant sha256 tw s)
    (hu : Undisturbed sha256 s a) : Invariant sha256 tw (observe sha256 tw s a) := by
  obtain ⟨hs, hanswers⟩ := hi
  have hd : Does tw s.files (sha256 a.path) a.path a.key a.size (a.outcome sha256 tw s.files) :=
    observe_path_does sha256 s.files a.normalized_path a.digest a.size
  obtain ⟨⟨hsound, hkept⟩, hrecorded⟩ := hd.keeps hs
  unfold observe
  generalize a.outcome sha256 tw s.files = r at hd hsound hkept hrecorded ⊢
  cases hstop : a.stop with
  | some n =>
    simp only
    rcases hd.cut (fun h1 => hu.1 (h1 ▸ hstop)) with h | h
    · rw [h]
      exact ⟨hs, hanswers⟩
    · rw [h]
      exact ⟨hsound, fun p o hm => (hanswers p o hm).kept hkept⟩
  | none =>
    simp only
    refine ⟨hsound, ?_⟩
    intro p o hm
    cases hr : r.2 with
    | error e =>
      rw [hr] at hm
      exact (hanswers p o hm).kept hkept
    | ok answer =>
      rw [hr] at hm
      rcases List.mem_cons.mp hm with he | hm
      · cases he
        exact hrecorded o hr
      · exact (hanswers p o hm).kept hkept

theorem repeated_answer {v : Version}
    (hs : Sound tw f) (h : Holds f (sha256 a.path) index v) (hp : index.normalized_path = a.path)
    (hv : v.sha256 = a.key) (hsize : (v.size : Int) = a.size) :
    ∃ o, (a.outcome sha256 tw f).2 = .ok o ∧ o.locator_id = index.locator_id ∧
      o.content_version_id = v.content_version_id := by
  have hfind := (stored_of_holds hs h hp hv).1
  have hread : ∃ state, read_state tw f = .ok state := by
    unfold read_state
    cases hf : f.state with
    | none => exact ⟨_, rfl⟩
    | some state =>
      simp only
      rw [if_neg (by simp [hs.owner state hf])]
      exact ⟨state, rfl⟩
  obtain ⟨state, hread⟩ := hread
  have hc : contained a.path = true := hp ▸ hs.path_contained _ _ h.1
  have hsha : is_sha256 a.key = true := hv ▸ hs.digest_sha256 _ _ _ h
  obtain ⟨n, -, -, hid⟩ := hs.version_below _ _ _ h
  have hne : v.content_version_id ≠ "" := hid ▸ identity_ne_empty "cv" n
  have hindex : ¬ (index.task_workspace_id ≠ tw ∨ index.normalized_path ≠ a.path) := by
    simp [hp, hs.index_owner _ _ h.1]
  refine ⟨⟨index.locator_id, v.content_version_id, a.key, a.size.toNat, false⟩, ?_, rfl, rfl⟩
  have hsz : v.size = a.size.toNat := by omega
  unfold Observation.outcome observe_path
  change (if contained a.path = false then _ else if is_sha256 a.key = false then _ else _ :
    List JsonWrite × Except CatalogError TaskWorkspaceContentObservation).2 = _
  rw [if_neg (by simp [hc]), if_neg (by simp [hsha]), if_neg (by omega)]
  have hpath : strip a.normalized_path = a.path := rfl
  have hkey : lower (strip a.digest) = a.key := rfl
  simp only [hpath, hkey, hread, read_index, h.1, if_neg hindex, observe_version, hfind, hsz, ne_eq,
    not_true_eq_false, if_false, if_neg hne]

/-- In every run whose observations are undisturbed, identities are unique. -/
theorem contents_identified (sha256 : String → String) (tw : String) {as : List Observation}
    {s : Catalog} (hm : (machine sha256 tw).Meets (Undisturbed sha256) initial as)
    (hr : (machine sha256 tw).run initial as = some s) : Identified sha256 tw s := by
  have hinv : Invariant sha256 tw s := by
    refine (machine sha256 tw).run_invariant_meeting (I := Invariant sha256 tw) ?_
      ⟨sound_initial tw, ?_⟩ hm hr
    · intro s a t hi hc hstep
      have ht : observe sha256 tw s a = t := Option.some.inj hstep
      exact ht ▸ observe_keeps hi hc
    · intro p o ho
      cases ho
  obtain ⟨hs, hanswers⟩ := hinv
  refine ⟨hanswers, ?_, ?_, ?_⟩
  · intro hex hex' i i' hi hi' he
    have hhex := hs.locators_differ _ _ _ _ hi hi' he
    subst hhex
    rw [Option.some.inj (hi.symm.trans hi')]
  · intro hex hex' i i' v v' hv hv' he
    obtain ⟨hhex, hsame⟩ := hs.versions_differ _ _ _ _ _ _ hv hv' he
    subst hhex
    rw [Option.some.inj (hv.1.symm.trans hv'.1), hsame]
    exact ⟨rfl, rfl⟩
  · intro a index v hu h hp hv
    exact repeated_answer hs h hp hv (hu.2 v (stored_of_holds hs h hp hv).2)

def digest : String := String.ofList (List.replicate 64 'a')

theorem key_digest : lower (strip digest) = digest ∧ is_sha256 digest = true := by
  have hs : strip digest = digest := by
    refine Storage.Identity.strip_of_no_space fun c hc => ?_
    rw [(List.mem_replicate.mp hc).2]
    rfl
  have hl : Char.toLower 'a' = 'a' := by decide
  have hm : "0123456789abcdef".toList.contains 'a' = true := by decide +kernel
  rw [hs]
  unfold digest
  rw [lower, is_sha256, String.toList_ofList, List.map_replicate, hl]
  refine ⟨rfl, ?_⟩
  simp only [List.length_replicate, List.all_replicate, hm]
  rfl

def firstIndex (p : String) : LocatorIndex :=
  ⟨"w", p, identity "loc" 1, some (identity "cv" 2), [⟨identity "cv" 2, digest, 0⟩]⟩

theorem outcome_fresh {p : String} (stop : Option Nat) (hf : f.state = none)
    (hp : strip p = p) (hc : contained p = true) (hl : f.locators p = none) :
    (Observation.mk p digest 0 stop).outcome id "w" f =
      ([.index p (firstIndex p), .state ⟨"w", 2, 2⟩], .ok ⟨identity "loc" 1, identity "cv" 2, digest, 0, true⟩) := by
  simp only [Observation.outcome, observe_path, hp, hc, key_digest, read_state, hf, read_index,
    id_eq, hl, allocate, observe_version, List.find?_nil, Bool.true_eq_false, if_false,
    Int.lt_irrefl, Int.toNat_zero, List.nil_append, Nat.zero_add, Nat.reduceAdd, firstIndex]

theorem contents_identified_first :
    ∃ s, (machine id "w").run initial [⟨"a", digest, 0, none⟩] = some s ∧
      Identified id "w" s := by
  refine ⟨observe id "w" initial ⟨"a", digest, 0, none⟩, rfl,
    @contents_identified id "w" [⟨"a", digest, 0, none⟩] _ ?_ rfl⟩
  refine ⟨⟨?_, ?_⟩, fun _ _ => trivial⟩
  · intro h
    cases h
  · intro v h
    cases h

theorem cut_allocation_clashes :
    ∃ s, (machine id "w").run initial [⟨"a", digest, 0, some 1⟩, ⟨"b", digest, 0, none⟩] = some s ∧
      ∃ i i', s.files.locators "a" = some i ∧ s.files.locators "b" = some i' ∧
        i.normalized_path ≠ i'.normalized_path ∧ i.locator_id = i'.locator_id := by
  have ha : strip "a" = "a" ∧ contained "a" = true := by decide +kernel
  have hb : strip "b" = "b" ∧ contained "b" = true := by decide +kernel
  have hne : "b" ≠ "a" := by decide
  have hfirst : observe id "w" initial ⟨"a", digest, 0, some 1⟩ =
      ⟨⟨none, Function.update (fun _ => none) "a" (some (firstIndex "a"))⟩, []⟩ := by
    rw [observe, outcome_fresh (f := initial.files) (some 1) rfl ha.1 ha.2 rfl]
    rfl
  refine ⟨_, rfl, ?_⟩
  have hnone : Function.update (fun _ => none) "a" (some (firstIndex "a")) "b" = none :=
    Function.update_of_ne hne _ _
  rw [hfirst, observe, outcome_fresh none rfl hb.1 hb.2 hnone]
  exact ⟨_, _, rfl, rfl, hne.symm, rfl⟩

end Agently.TaskWorkspace.Identity
