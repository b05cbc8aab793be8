import Agently.TriggerFlow.SubFlowBindings

/-! # What a sub flow writes back

The patches of the runtime and flow data replace whole keys of the parent; the value is set in
place. -/

namespace Agently.TriggerFlow.SubFlowBindings

open Agently.Lib Agently.Utils

theorem map_eq_ok {α β : Type} {x : Except PyError α} {f : α → β} {b : β} (h : x.map f = .ok b) :
    ∃ a, x = .ok a ∧ f a = b := by
  cases x with
  | error e => cases h
  | ok a =>
    cases h
    exact ⟨a, rfl, rfl⟩

def Plain (path : List String) : Prop := ∀ s ∈ path, '.' ∉ s.toList

theorem plain_of_isSegment {s : String} (h : isSegment s = true) : '.' ∉ s.toList := by
  intro hdot
  unfold isSegment at h
  split at h
  · cases h
  · rename_i c rest hs
    rw [hs] at hdot
    rw [Bool.and_eq_true, List.all_eq_true] at h
    rcases List.mem_cons.mp hdot with rfl | hdot
    · exact absurd h.1 (by decide)
    · exact absurd (h.2 _ hdot) (by decide)

theorem parseRelativePath_spec {optionName path : String} {segments : List String}
    (h : parseRelativePath optionName path = .ok segments) : segments ≠ [] ∧ Plain segments := by
  unfold parseRelativePath at h
  split at h
  · cases h
  · split at h
    · cases h
    · rename_i hnone
      cases h
      refine ⟨StateData.pathOf_ne_nil path, fun s hs => ?_⟩
      have hvalid := List.find?_eq_none.mp hnone s hs
      exact plain_of_isSegment (by simpa using hvalid)

variable {mode : Mode} {scope : Scope} {bs : List CompiledSubFlowBinding}

theorem compilePaths_spec {paths : Dict String String}
    (h : compilePaths mode scope paths = .ok bs) :
    ∀ b ∈ bs, b.targetScope = scope ∧ b.targetPath ≠ [] ∧ Plain b.targetPath := by
  induction paths generalizing bs with
  | nil =>
    cases h
    exact List.forall_mem_nil _
  | cons p rest ih =>
    obtain ⟨target, source⟩ := p
    simp only [compilePaths] at h
    split at h
    · cases h
    · rename_i targetPath htarget
      split at h
      · cases h
      · obtain ⟨others, hothers, rfl⟩ := map_eq_ok h
        intro b hb
        rcases List.mem_cons.mp hb with rfl | hb
        · obtain ⟨hne, hplain⟩ := parseRelativePath_spec htarget
          exact ⟨rfl, hne, hplain⟩
        · exact ih hothers b hb

variable {path : List String}

theorem take_mem_properPrefixes {n : Nat} (hpos : 0 < n)
    (hlt : n < path.length) : path.take n ∈ properPrefixes path := by
  refine List.mem_map.mpr ⟨n, ?_, rfl⟩
  obtain ⟨m, rfl⟩ := Nat.exists_eq_add_of_lt hpos
  obtain ⟨l, hl⟩ := Nat.exists_eq_add_of_lt hlt
  rw [hl, List.range_succ_eq_map, List.tail_cons]
  exact List.mem_map.mpr ⟨0 + m, List.mem_range.mpr (by omega), rfl⟩

theorem checkConflicts_apart {seen paths : List (List String)}
    (hsorted : paths.Pairwise fun p q => p.length ≤ q.length)
    (hseen : ∀ s ∈ seen, s ≠ [] ∧ ∀ p ∈ paths, s.length ≤ p.length)
    (hne : ∀ p ∈ paths, p ≠ []) (h : checkConflicts mode scope seen paths = .ok ()) :
    paths.Pairwise Node.Apart ∧ ∀ s ∈ seen, ∀ p ∈ paths, Node.Apart s p := by
  induction paths generalizing seen with
  | nil => exact ⟨.nil, fun s _ p hp => by cases hp⟩
  | cons path rest ih =>
    simp only [checkConflicts, List.contains_iff_mem] at h
    split at h
    · cases h
    · rename_i hnew
      split at h
      · cases h
      · rename_i hprefixes
        obtain ⟨hlengths, hrest⟩ := List.pairwise_cons.mp hsorted
        have happart : ∀ s ∈ seen, Node.Apart s path := by
          intro s hs
          obtain ⟨hsne, hle⟩ := hseen s hs
          have hlen := hle path List.mem_cons_self
          constructor
          · intro hstarts
            have htake : path.take s.length = s := (List.prefix_iff_eq_take.mp hstarts).symm
            by_cases heq : s.length = path.length
            · exact hnew ((hstarts.eq_of_length heq) ▸ hs)
            · have hpos : 0 < s.length := List.length_pos_of_ne_nil hsne
              have hin := take_mem_properPrefixes hpos (by omega : s.length < path.length)
              rw [htake] at hin
              have hno := List.find?_eq_none.mp hprefixes s hin
              exact absurd hs (by simpa using hno)
          · intro hstarts
            have hle' := hstarts.length_le
            have heq : path = s := hstarts.eq_of_length (by omega)
            exact hnew (heq ▸ hs)
        have hseen' : ∀ s ∈ path :: seen, s ≠ [] ∧ ∀ p ∈ rest, s.length ≤ p.length := by
          intro s hs
          rcases List.mem_cons.mp hs with rfl | hs
          · exact ⟨hne _ List.mem_cons_self, hlengths⟩
          · exact ⟨(hseen s hs).1, fun p hp => (hseen s hs).2 p (List.mem_cons_of_mem _ hp)⟩
        obtain ⟨hpairs, hall⟩ := ih hrest hseen' (List.forall_mem_cons.mp hne).2 h
        refine ⟨List.pairwise_cons.mpr ⟨hall path List.mem_cons_self, hpairs⟩, ?_⟩
        intro s hs p hp
        rcases List.mem_cons.mp hp with rfl | hp
        · exact happart s hs
        · exact hall s (List.mem_cons_of_mem _ hs) p hp

theorem validateTargetConflicts_apart {paths : List (List String)}
    (hne : ∀ p ∈ paths, p ≠ []) (h : validateTargetConflicts mode scope paths = .ok ()) :
    paths.Pairwise Node.Apart := by
  have hperm := List.perm_insertionSort (fun p q : List String => p.length ≤ q.length) paths
  have hsorted : (paths.insertionSort fun p q => p.length ≤ q.length).Pairwise
      fun p q => p.length ≤ q.length :=
    List.pairwise_insertionSort (fun p q : List String => p.length ≤ q.length) paths
  have hpairs := (checkConflicts_apart hsorted (List.forall_mem_nil _)
    (fun p hp => hne p (hperm.mem_iff.mp hp)) h).1
  exact (hperm.pairwise_iff fun hpq => hpq.symm).mp hpairs

structure Accepted (bs : List CompiledSubFlowBinding) : Prop where
  scopes : ∀ b ∈ bs, b.targetScope ∈ targetScopes .writeBack
  plain : ∀ b ∈ bs, Plain b.targetPath
  rooted : ∀ b ∈ bs, b.targetPath = [] → b.targetScope = .value
  apart : bs.Pairwise fun a b => a.targetScope = b.targetScope →
    Node.Apart a.targetPath b.targetPath

variable {typeText : Value → String}

theorem normalizeScopeBinding_source {v : Value} {path : String}
    (h : normalizeScopeBinding typeText mode scope v = .ok (.source path)) :
    scope = .input ∨ scope = .value := by
  cases v with
  | str source =>
    simp only [normalizeScopeBinding] at h
    split at h
    · assumption
    · cases h
  | dict paths =>
    obtain ⟨found, -, hfound⟩ := map_eq_ok h
    cases hfound
  | _ => cases h

theorem normalizeScopes_spec {found scopes : Dict Scope ScopeBinding} {spec : List (String × Value)}
    (hn : found.keys.Nodup)
    (hf : ∀ p ∈ found, p.1 ∈ targetScopes mode ∧ ∀ path, p.2 = .source path →
      p.1 = .input ∨ p.1 = .value)
    (h : normalizeScopes typeText mode found spec = .ok scopes) :
    scopes.keys.Nodup ∧ ∀ p ∈ scopes, p.1 ∈ targetScopes mode ∧ ∀ path, p.2 = .source path →
      p.1 = .input ∨ p.1 = .value := by
  induction spec generalizing found with
  | nil =>
    cases h
    exact ⟨hn, hf⟩
  | cons entry rest ih =>
    obtain ⟨name, binding⟩ := entry
    simp only [normalizeScopes] at h
    split at h
    · cases h
    · rename_i scope hscope
      split at h
      · cases h
      · rename_i b hb
        refine ih (Dict.nodup_keys_set hn scope b) ?_ h
        intro p hp
        rcases Dict.mem_set hp with rfl | hp
        · refine ⟨List.mem_of_find?_eq_some hscope, fun path hpath => ?_⟩
          rw [show b = .source path from hpath] at hb
          exact normalizeScopeBinding_source hb
        · exact hf p hp

theorem compileScope_accepted {binding : ScopeBinding} (hscope : scope ∈ targetScopes .writeBack)
    (hsource : ∀ path, binding = .source path → scope = .input ∨ scope = .value)
    (h : compileScope .writeBack scope binding = .ok bs) :
    Accepted bs ∧ ∀ b ∈ bs, b.targetScope = scope := by
  cases binding with
  | source path =>
    obtain ⟨source, -, rfl⟩ := map_eq_ok h
    have hvalue : scope = .value := by
      rcases hsource path rfl with rfl | h
      · exact absurd hscope (by decide)
      · exact h
    have hall : ∀ b ∈ [(⟨scope, [], source.1, source.2⟩ : CompiledSubFlowBinding)],
        b.targetScope = scope ∧ b.targetPath = [] := by
      intro b hb
      cases List.mem_singleton.mp hb
      exact ⟨rfl, rfl⟩
    refine ⟨⟨fun b hb => ?_, fun b hb => ?_, fun b hb _ => ?_, List.pairwise_singleton _ _⟩,
      fun b hb => (hall b hb).1⟩
    · rw [(hall b hb).1]
      exact hscope
    · rw [(hall b hb).2]
      exact List.forall_mem_nil _
    · rw [(hall b hb).1]
      exact hvalue
  | mapping paths =>
    simp only [compileScope] at h
    split at h
    · cases h
    · rename_i compiled hcompiled
      obtain ⟨_, hvalid, rfl⟩ := map_eq_ok h
      have hspec := compilePaths_spec hcompiled
      have hpairs := validateTargetConflicts_apart (List.forall_mem_map.mpr fun b hb => (hspec b hb).2.1) hvalid
      refine ⟨⟨fun b hb => ?_, fun b hb => (hspec b hb).2.2,
        fun b hb hroot => absurd hroot (hspec b hb).2.1, ?_⟩, fun b hb => (hspec b hb).1⟩
      · rw [(hspec b hb).1]
        exact hscope
      · refine (List.pairwise_map.mp hpairs).imp ?_
        intro a b hab _
        exact hab

theorem compileScopes_accepted {scopes : Dict Scope ScopeBinding} (hn : scopes.keys.Nodup)
    (hs : ∀ p ∈ scopes, p.1 ∈ targetScopes .writeBack ∧ ∀ path, p.2 = .source path →
      p.1 = .input ∨ p.1 = .value)
    (h : compileScopes .writeBack scopes = .ok bs) :
    Accepted bs ∧ ∀ b ∈ bs, b.targetScope ∈ scopes.keys := by
  induction scopes generalizing bs with
  | nil =>
    cases h
    exact ⟨⟨List.forall_mem_nil _, List.forall_mem_nil _, List.forall_mem_nil _, .nil⟩,
      List.forall_mem_nil _⟩
  | cons entry rest ih =>
    obtain ⟨scope, binding⟩ := entry
    simp only [compileScopes] at h
    split at h
    · cases h
    · rename_i first hfirst
      obtain ⟨others, hothers, rfl⟩ := map_eq_ok h
      obtain ⟨hscope, hsource⟩ := hs _ List.mem_cons_self
      obtain ⟨hnot, hnrest⟩ := List.nodup_cons.mp hn
      obtain ⟨haccepted, hown⟩ := compileScope_accepted hscope hsource hfirst
      obtain ⟨hrest, hkeys⟩ := ih hnrest (List.forall_mem_cons.mp hs).2 hothers
      refine ⟨⟨?_, ?_, ?_, ?_⟩, ?_⟩
      · exact fun b hb => (List.mem_append.mp hb).elim (haccepted.scopes b) (hrest.scopes b)
      · exact fun b hb => (List.mem_append.mp hb).elim (haccepted.plain b) (hrest.plain b)
      · exact fun b hb => (List.mem_append.mp hb).elim (haccepted.rooted b) (hrest.rooted b)
      · refine List.pairwise_append.mpr ⟨haccepted.apart, hrest.apart, fun a ha b hb hab => ?_⟩
        rw [hown a ha] at hab
        exact absurd (hab ▸ hkeys b hb) hnot
      · intro b hb
        rcases List.mem_append.mp hb with hb | hb
        · rw [hown b hb]
          exact List.mem_cons_self
        · exact List.mem_cons_of_mem _ (hkeys b hb)

theorem compileBindings_accepted {spec : Value} {normalized : Option (Dict Scope ScopeBinding)}
    (h : compileBindings typeText .writeBack spec = .ok (normalized, bs)) :
    Accepted bs ∧ (normalized = none → bs = [⟨.value, [], .result, []⟩]) := by
  unfold compileBindings at h
  split at h
  · cases h
  · have hsource : parseSourcePath .writeBack .value "result" = .ok (.result, []) := by
      decide +kernel
    simp only [reduceCtorEq, if_false] at h
    rw [hsource] at h
    cases h
    refine ⟨⟨?_, ?_, fun b hb _ => ?_, List.pairwise_singleton _ _⟩, fun _ => rfl⟩
    · exact List.forall_mem_singleton.mpr (by decide)
    · exact List.forall_mem_singleton.mpr (List.forall_mem_nil _)
    · cases List.mem_singleton.mp hb
      rfl
  · rename_i scopes hscopes
    obtain ⟨bs', hbs, heq⟩ := map_eq_ok h
    cases heq
    cases spec with
    | dict entries =>
      obtain ⟨found, hfound, hsome⟩ := map_eq_ok hscopes
      cases hsome
      have hempty : (Dict.keys ([] : Dict Scope ScopeBinding)).Nodup := List.nodup_nil
      obtain ⟨hn, hs⟩ := normalizeScopes_spec hempty (List.forall_mem_nil _) hfound
      exact ⟨(compileScopes_accepted hn hs hbs).1, nofun⟩
    | _ => cases hscopes

variable {ν : Type}

theorem pathOf_joinDots (hne : path ≠ []) (hp : Plain path) :
    StateData.pathOf (joinDots path) = path := by
  induction path with
  | nil => exact absurd rfl hne
  | cons s rest ih =>
    have hs : '.' ∉ s.toList := hp s List.mem_cons_self
    cases rest with
    | nil => exact StateData.pathOf_plain hs
    | cons r rest =>
      have hrest : Plain (r :: rest) := fun x hx => hp x (List.mem_cons_of_mem s hx)
      rw [joinDots, StateData.pathOf_append, StateData.pathOf_plain hs, ih (by simp) hrest]
      · rfl
      · simp

theorem setData_joinDots (hne : path ≠ []) (hp : Plain path) (data : Entries ν) (value : Tree ν) :
    (setData data (joinDots path) value).map Node.dict = Node.set path value (.dict data) := by
  have hpath := pathOf_joinDots hne hp
  cases path with
  | nil => exact absurd rfl hne
  | cons s rest =>
    have hset : ∀ n, Node.set (s :: rest) value (.dict data) = some n → ∃ kvs, n = .dict kvs := by
      intro n hn
      obtain ⟨kvs, m, -, -, rfl⟩ := Node.set_cons_eq_some hn
      exact ⟨_, rfl⟩
    by_cases hdots : StateData.isPath (joinDots (s :: rest)) = true
    · rw [setData, if_pos hdots, hpath]
      cases hn : Node.set (s :: rest) value (.dict data) with
      | none => rfl
      | some n =>
        obtain ⟨kvs, rfl⟩ := hset n hn
        rfl
    · rw [setData, if_neg hdots]
      have hrest : rest = [] := by
        cases rest with
        | nil => rfl
        | cons r rest =>
          refine absurd ?_ hdots
          simp [StateData.isPath, joinDots]
      subst hrest
      rw [joinDots, Option.map_some, Node.set, Node.set, Option.map_some]

def assigned (result : Tree ν) (scope : Scope) (bs : List CompiledSubFlowBinding) :
    List (List String × Tree ν) :=
  bs.filterMap fun b =>
    if b.targetScope = scope then (readResult result b.sourcePath).map fun v => (b.targetPath, v)
    else none

def Bound (result : Tree ν) (bs : List CompiledSubFlowBinding) : Prop :=
  ∀ b ∈ bs, (readResult result b.sourcePath).isSome = true

variable {result : Tree ν} {b : CompiledSubFlowBinding}

theorem assigned_cons_self {v : Tree ν}
    (hv : readResult result b.sourcePath = some v) (rest : List CompiledSubFlowBinding) :
    assigned result b.targetScope (b :: rest) =
      (b.targetPath, v) :: assigned result b.targetScope rest := by
  simp [assigned, hv]

theorem assigned_cons_of_ne (h : b.targetScope ≠ scope) (rest : List CompiledSubFlowBinding) :
    assigned result scope (b :: rest) = assigned result scope rest := by
  simp [assigned, h]

theorem mem_assigned {p : List String × Tree ν} (h : p ∈ assigned result scope bs) :
    ∃ b ∈ bs, b.targetScope = scope ∧ b.targetPath = p.1 ∧
      readResult result b.sourcePath = some p.2 := by
  obtain ⟨b, hb, hp⟩ := List.mem_filterMap.mp h
  split at hp
  · rename_i hscope
    obtain ⟨v, hv, rfl⟩ := Option.map_eq_some_iff.mp hp
    exact ⟨b, hb, hscope, rfl, hv⟩
  · cases hp

theorem assigned_mem (hb : b ∈ bs) {v : Tree ν} (hv : readResult result b.sourcePath = some v) :
    (b.targetPath, v) ∈ assigned result b.targetScope bs :=
  List.mem_filterMap.mpr ⟨b, hb, by simp [hv]⟩

theorem assigned_apart (h : Accepted bs) (result : Tree ν)
    (scope : Scope) : Node.PathsApart (assigned result scope bs) := by
  refine List.Pairwise.filterMap _ ?_ h.apart
  intro a b hab p hp q hq
  split at hp
  · rename_i ha
    obtain ⟨v, -, rfl⟩ := Option.map_eq_some_iff.mp hp
    split at hq
    · rename_i hb
      obtain ⟨w, -, rfl⟩ := Option.map_eq_some_iff.mp hq
      exact hab (ha.trans hb.symm)
    · cases hq
  · cases hp

theorem assigned_perm {cs : List CompiledSubFlowBinding} (h : cs.Perm bs) (result : Tree ν)
    (scope : Scope) : (assigned result scope cs).Perm (assigned result scope bs) :=
  h.filterMap _

def ValueAfter (t t' : WriteBackTarget ν) (values : List (List String × Tree ν)) : Prop :=
  if values = [] then t'.currentValue = t.currentValue ∧ t'.hasValueBinding = t.hasValueBinding
  else t'.hasValueBinding = true ∧
    Node.setEach values (.dict t.openValue) = some t'.currentValue

variable {rest : List CompiledSubFlowBinding}

theorem Accepted.tail (h : Accepted (b :: rest)) : Accepted rest :=
  ⟨fun c hc => h.scopes c (List.mem_cons_of_mem b hc),
    fun c hc => h.plain c (List.mem_cons_of_mem b hc),
    fun c hc => h.rooted c (List.mem_cons_of_mem b hc), (List.pairwise_cons.mp h.apart).2⟩

theorem Accepted.path_ne_nil (h : Accepted (b :: rest)) (hscope : b.targetScope = scope)
    (hne : scope ≠ .value) : b.targetPath ≠ [] :=
  fun hroot => hne (hscope.symm.trans (h.rooted b List.mem_cons_self hroot))

variable {data : Entries ν}

theorem setData_map {α : Type} (hne : path ≠ []) (hp : Plain path)
    {v : Tree ν} {f : Entries ν → α} {u : α}
    (h : (setData data (joinDots path) v).map f = some u) :
    ∃ kvs, Node.set path v (.dict data) = some (.dict kvs) ∧ f kvs = u := by
  obtain ⟨kvs, hkvs, hu⟩ := Option.map_eq_some_iff.mp h
  refine ⟨kvs, ?_, hu⟩
  rw [← setData_joinDots hne hp, hkvs, Option.map_some]

theorem assigned_value_of_root
    (h : Accepted (b :: rest)) (hroot : b.targetPath = []) (result : Tree ν) :
    assigned result .value rest = [] := by
  have hvalue := h.rooted b List.mem_cons_self hroot
  refine List.filterMap_eq_nil_iff.mpr fun c hc => if_neg fun hscope => ?_
  have hab := (List.pairwise_cons.mp h.apart).1 c hc (hvalue.trans hscope.symm)
  rw [hroot] at hab
  exact hab.1 List.nil_prefix

theorem applyBindings_spec (h : Accepted bs) (hbound : Bound result bs) {t t' : WriteBackTarget ν}
    (happly : applyBindings result t bs = some t') :
    Node.setEach (assigned result .runtimeData bs) (.dict t.runtimeData) =
        some (.dict t'.runtimeData) ∧
      Node.setEach (assigned result .flowData bs) (.dict t.flowData) = some (.dict t'.flowData) ∧
      ValueAfter t t' (assigned result .value bs) := by
  induction bs generalizing t with
  | nil =>
    cases happly
    exact ⟨rfl, rfl, rfl, rfl⟩
  | cons b rest ih =>
    obtain ⟨v, hv, happly⟩ := Option.bind_eq_some_iff.mp happly
    obtain ⟨u, hu, happly⟩ := Option.bind_eq_some_iff.mp happly
    have hboundRest : Bound result rest := fun c hc => hbound c (List.mem_cons_of_mem b hc)
    obtain ⟨hruntime, hflow, hvalue⟩ := ih h.tail hboundRest happly
    have hplain := h.plain b List.mem_cons_self
    have hself := assigned_cons_self hv rest
    have hother : ∀ scope, b.targetScope ≠ scope →
        assigned result scope (b :: rest) = assigned result scope rest :=
      fun scope hne => assigned_cons_of_ne hne rest
    cases hscope : b.targetScope with
    | runtimeData =>
      have hne := h.path_ne_nil hscope (by decide)
      rw [hscope] at hu hself hother
      obtain ⟨kvs, hset, rfl⟩ := setData_map hne hplain hu
      rw [hself, hother _ (by decide), hother _ (by decide), Node.setEach, hset,
        Option.bind_some]
      exact ⟨hruntime, hflow, hvalue⟩
    | flowData =>
      have hne := h.path_ne_nil hscope (by decide)
      rw [hscope] at hu hself hother
      obtain ⟨kvs, hset, rfl⟩ := setData_map hne hplain hu
      rw [hself, hother _ (by decide), hother _ (by decide), Node.setEach, hset,
        Option.bind_some]
      exact ⟨hruntime, hflow, hvalue⟩
    | value =>
      rw [hscope] at hu hself hother
      rw [hself, hother _ (by decide), hother _ (by decide)]
      by_cases hroot : b.targetPath = []
      · rw [writePath, if_pos hroot] at hu
        cases hu
        rw [assigned_value_of_root h hroot] at hvalue ⊢
        rw [ValueAfter, if_pos rfl] at hvalue
        refine ⟨hruntime, hflow, ?_⟩
        rw [ValueAfter, if_neg (List.cons_ne_nil _ _), hroot, hvalue.1]
        exact ⟨hvalue.2, rfl⟩
      · rw [writePath, if_neg hroot] at hu
        obtain ⟨kvs, hset, rfl⟩ := setData_map hroot hplain hu
        refine ⟨hruntime, hflow, ?_⟩
        rw [ValueAfter, if_neg (List.cons_ne_nil _ _), Node.setEach, hset, Option.bind_some]
        by_cases hnone : assigned result .value rest = []
        · rw [ValueAfter, if_pos hnone] at hvalue
          rw [hnone, Node.setEach, hvalue.1]
          exact ⟨hvalue.2, rfl⟩
        · rw [ValueAfter, if_neg hnone] at hvalue
          exact hvalue
    | input | resources | result =>
      rw [hscope] at hu
      cases hu

theorem isSome_applyBindings (h : Accepted bs) (hbound : Bound result bs) (t : WriteBackTarget ν) :
    (applyBindings result t bs).isSome = true ↔
      (Node.setEach (assigned result .runtimeData bs) (.dict t.runtimeData)).isSome = true ∧
      (Node.setEach (assigned result .flowData bs) (.dict t.flowData)).isSome = true ∧
      (Node.setEach (assigned result .value bs) (.dict t.openValue)).isSome = true := by
  induction bs generalizing t with
  | nil => simp [applyBindings, assigned, Node.setEach]
  | cons b rest ih =>
    have hboundRest : Bound result rest := fun c hc => hbound c (List.mem_cons_of_mem b hc)
    obtain ⟨v, hv⟩ := Option.isSome_iff_exists.mp (hbound b List.mem_cons_self)
    have hplain := h.plain b List.mem_cons_self
    have hself := assigned_cons_self hv rest
    have hother : ∀ scope, b.targetScope ≠ scope →
        assigned result scope (b :: rest) = assigned result scope rest :=
      fun scope hne => assigned_cons_of_ne hne rest
    rw [applyBindings, hv, Option.bind_some]
    cases hscope : b.targetScope with
    | runtimeData =>
      have hne := h.path_ne_nil hscope (by decide)
      rw [hscope] at hself hother
      rw [hself, hother _ (by decide), hother _ (by decide), Node.setEach, writePath]
      cases hset : setData t.runtimeData (joinDots b.targetPath) v with
      | none =>
        have hnone := setData_joinDots hne hplain t.runtimeData v
        rw [hset] at hnone
        simp [← hnone]
      | some kvs =>
        have hsome := setData_joinDots hne hplain t.runtimeData v
        rw [hset] at hsome
        rw [← hsome]
        exact ih h.tail hboundRest { t with runtimeData := kvs }
    | flowData =>
      have hne := h.path_ne_nil hscope (by decide)
      rw [hscope] at hself hother
      rw [hself, hother _ (by decide), hother _ (by decide), Node.setEach, writePath]
      cases hset : setData t.flowData (joinDots b.targetPath) v with
      | none =>
        have hnone := setData_joinDots hne hplain t.flowData v
        rw [hset] at hnone
        simp [← hnone]
      | some kvs =>
        have hsome := setData_joinDots hne hplain t.flowData v
        rw [hset] at hsome
        rw [← hsome]
        exact ih h.tail hboundRest { t with flowData := kvs }
    | value =>
      rw [hscope] at hself hother
      rw [hself, hother _ (by decide), hother _ (by decide), Node.setEach, writePath]
      by_cases hroot : b.targetPath = []
      · have hrest := assigned_value_of_root h hroot result
        have hgo := ih h.tail hboundRest { t with hasValueBinding := true, currentValue := v }
        rw [hrest] at hgo ⊢
        rw [if_pos hroot, hroot, Option.bind_some, hgo]
        simp [Node.set, Node.setEach]
      · rw [if_neg hroot]
        cases hset : setData t.openValue (joinDots b.targetPath) v with
        | none =>
          have hnone := setData_joinDots hroot hplain t.openValue v
          rw [hset] at hnone
          simp [← hnone]
        | some kvs =>
          have hsome := setData_joinDots hroot hplain t.openValue v
          rw [hset] at hsome
          rw [← hsome]
          exact ih h.tail hboundRest
            { t with hasValueBinding := true, currentValue := .dict kvs, valueData := kvs }
    | input | resources | result =>
      have hin := h.scopes b List.mem_cons_self
      rw [hscope] at hin
      exact absurd hin (by decide)

variable {patch : Entries ν}

theorem setPatch_eq (hp : Plain (Dict.keys patch)) (data : Entries ν) :
    setPatch data patch = some (Dict.merge data patch) := by
  induction patch generalizing data with
  | nil => rfl
  | cons entry rest ih =>
    have hkey : '.' ∉ entry.1.toList := hp _ List.mem_cons_self
    have hno : StateData.isPath entry.1 = false := by
      simpa [StateData.isPath] using hkey
    rw [setPatch, setData, hno]
    exact ih (List.forall_mem_cons.mp hp).2 _

theorem get_merge_of_mem (hn : (Dict.keys patch).Nodup) {k : String}
    (hk : k ∈ Dict.keys patch) (rest : List String) :
    Node.get (k :: rest) (.dict (Dict.merge data patch)) = Node.get (k :: rest) (.dict patch) := by
  rw [Node.get, Node.get, Dict.get?_merge_of_mem hn hk]

theorem get_merge_of_not_mem {k : String} (hk : k ∉ Dict.keys patch) (rest : List String) :
    Node.get (k :: rest) (.dict (Dict.merge data patch)) = Node.get (k :: rest) (.dict data) := by
  rw [Node.get, Node.get, Dict.get?_merge_of_not_mem hk]

section Patch

variable {ps : List (List String × Tree ν)} {patch data : Entries ν}

variable {q : List String}

theorem get_patched_of_head (hne : ∀ p ∈ ps, p.1 ≠ [])
    (hset : Node.setEach ps (.dict []) = some (.dict patch)) {p : List String × Tree ν}
    (hp : p ∈ ps) (hq : q.head? = p.1.head?) :
    Node.get q (.dict (Dict.merge data patch)) = Node.get q (.dict patch) := by
  obtain ⟨patch', hpatch, hnodup, hkeys⟩ := Node.keys_setEach hne hset
  cases hpatch
  cases q with
  | nil => exact absurd (List.head?_eq_none_iff.mp hq.symm) (hne p hp)
  | cons k rest => exact get_merge_of_mem (hnodup List.nodup_nil) ((hkeys k).mpr (.inr ⟨p, hp, hq.symm⟩)) rest

theorem get_patched_of_no_head (hne : ∀ p ∈ ps, p.1 ≠ [])
    (hset : Node.setEach ps (.dict []) = some (.dict patch)) (hq : q ≠ [])
    (hno : ∀ p ∈ ps, q.head? ≠ p.1.head?) :
    Node.get q (.dict (Dict.merge data patch)) = Node.get q (.dict data) := by
  obtain ⟨patch', hpatch, -, hkeys⟩ := Node.keys_setEach hne hset
  cases hpatch
  cases q with
  | nil => exact absurd rfl hq
  | cons k rest =>
    refine get_merge_of_not_mem (fun hk => ?_) rest
    rcases (hkeys k).mp hk with hk | ⟨p, hp, hhead⟩
    · cases hk
    · exact hno p hp hhead.symm

theorem get_patched_self (hne : ∀ p ∈ ps, p.1 ≠ []) (hap : Node.PathsApart ps)
    (hset : Node.setEach ps (.dict []) = some (.dict patch)) :
    ∀ p ∈ ps, Node.get p.1 (.dict (Dict.merge data patch)) = some p.2 := by
  intro p hp
  rw [get_patched_of_head hne hset hp rfl]
  exact Node.get_setEach_self hap hset p hp

theorem get_patch_of_apart (hset : Node.setEach ps (.dict []) = some (.dict patch))
    (hq : q ≠ []) (hap : ∀ p ∈ ps, Node.Apart p.1 q) :
    Node.get q (.dict patch) = none := by
  rw [Node.get_setEach_of_apart hap hset]
  exact Node.get_empty hq

theorem patched_frame_iff (hne : ∀ p ∈ ps, p.1 ≠ [])
    (hset : Node.setEach ps (.dict []) = some (.dict patch)) :
    (∀ q, (∀ p ∈ ps, Node.Apart p.1 q) →
        Node.get q (.dict (Dict.merge data patch)) = Node.get q (.dict data)) ↔
      ∀ p ∈ ps, ∀ q, q.head? = p.1.head? → (∀ p ∈ ps, Node.Apart p.1 q) →
        Node.get q (.dict data) = none := by
  constructor
  · intro h p hp q hq hap
    have hqne : q ≠ [] := by
      rintro rfl
      exact (hap p hp).2 List.nil_prefix
    rw [← h q hap, get_patched_of_head hne hset hp hq]
    exact get_patch_of_apart hset hqne hap
  · intro h q hap
    by_cases hhead : ∃ p ∈ ps, q.head? = p.1.head?
    · obtain ⟨p, hp, hq⟩ := hhead
      have hqne : q ≠ [] := by
        rintro rfl
        exact (hap p hp).2 List.nil_prefix
      rw [h p hp q hq hap, get_patched_of_head hne hset hp hq]
      exact get_patch_of_apart hset hqne hap
    · push Not at hhead
      cases q with
      | nil =>
        cases ps with
        | nil =>
          cases hset
          rfl
        | cons p rest => exact absurd List.nil_prefix (hap p List.mem_cons_self).2
      | cons k rest => exact get_patched_of_no_head hne hset (List.cons_ne_nil _ _) hhead

theorem same_patched {qs : List (List String × Tree ν)} {patch' : Entries ν}
    (hne : ∀ p ∈ ps, p.1 ≠ []) (hap : Node.PathsApart ps) (hperm : qs.Perm ps)
    (hset : Node.setEach ps (.dict []) = some (.dict patch))
    (hset' : Node.setEach qs (.dict []) = some (.dict patch')) (data : Entries ν) :
    Node.Same (.dict (Dict.merge data patch')) (.dict (Dict.merge data patch)) := by
  have hsame := Node.same_setEach_of_perm hap hperm hset' hset
  have hne' : ∀ p ∈ qs, p.1 ≠ [] := fun p hp => hne p (hperm.mem_iff.mp hp)
  intro q
  cases q with
  | nil => simp [Node.value?]
  | cons k rest =>
    by_cases hhead : ∃ p ∈ ps, (k :: rest).head? = p.1.head?
    · obtain ⟨p, hp, hq⟩ := hhead
      rw [get_patched_of_head hne hset hp hq,
        get_patched_of_head hne' hset' (hperm.mem_iff.mpr hp) hq]
      exact hsame (k :: rest)
    · push Not at hhead
      rw [get_patched_of_no_head hne hset (List.cons_ne_nil _ _) hhead,
        get_patched_of_no_head hne' hset' (List.cons_ne_nil _ _)
          fun p hp => hhead p (hperm.mem_iff.mp hp)]

theorem isSome_patch (hap : Node.PathsApart ps) :
    (Node.setEach ps (.dict ([] : Entries ν))).isSome = true :=
  (Node.isSome_setEach hap).mpr fun p _ => Node.set_empty p.1 p.2

end Patch

def ParentData.at (parent : ParentData ν) : Scope → Tree ν
  | .value => parent.value
  | .runtimeData => .dict parent.runtimeData
  | .flowData => .dict parent.flowData
  | .input | .resources | .result => .dict []

def OffTargets (bs : List CompiledSubFlowBinding) (scope : Scope) (q : List String) : Prop :=
  ∀ b ∈ bs, b.targetScope = scope → Node.Apart b.targetPath q

def WritesBack {α : Type} (normalized : Option α) (bs : List CompiledSubFlowBinding)
    (result : Tree ν) (parent : ParentData ν) : Prop :=
  ∃ after, completeFrame normalized bs result parent = some after ∧
    (∀ b ∈ bs, Node.get b.targetPath (after.at b.targetScope) = readResult result b.sourcePath) ∧
    (∀ scope q, OffTargets bs scope q → Node.get q (after.at scope) = Node.get q (parent.at scope)) ∧
    ∀ cs : List CompiledSubFlowBinding, cs.Perm bs →
      ∃ other, completeFrame normalized cs result parent = some other ∧
        ∀ scope, Node.Same (other.at scope) (after.at scope)

/-- Under a key that is replaced the parent holds nothing but what the targets cover, and no value
stands in the way of a target. -/
structure Unobstructed (bs : List CompiledSubFlowBinding) (parent : ParentData ν) : Prop where
  beside : ∀ b ∈ bs, b.targetScope ≠ .value → ∀ q, q.head? = b.targetPath.head? →
    OffTargets bs b.targetScope q → Node.get q (parent.at b.targetScope) = none
  passable : ∀ b ∈ bs, b.targetScope = .value → ∀ p v, p ≠ [] → p <+: b.targetPath →
    p ≠ b.targetPath → Node.get p parent.value ≠ some (.leaf v)

section Complete

variable {bs : List CompiledSubFlowBinding} {result : Tree ν} {parent after : ParentData ν}

variable {scope : Scope}

theorem offTargets_iff (hbound : Bound result bs) {q : List String} :
    OffTargets bs scope q ↔ ∀ p ∈ assigned result scope bs, Node.Apart p.1 q := by
  constructor
  · intro h p hp
    obtain ⟨b, hb, hscope, hpath, -⟩ := mem_assigned hp
    rw [← hpath]
    exact h b hb hscope
  · rintro h b hb rfl
    obtain ⟨v, hv⟩ := Option.isSome_iff_exists.mp (hbound b hb)
    exact h _ (assigned_mem hb hv)

theorem assigned_ne_nil (h : Accepted bs) (hne : scope ≠ .value) :
    ∀ p ∈ assigned result scope bs, p.1 ≠ [] := by
  intro p hp hnil
  obtain ⟨b, hb, hscope, hpath, -⟩ := mem_assigned hp
  exact hne (hscope.symm.trans (h.rooted b hb (hpath.trans hnil)))

theorem plain_keys_patch (h : Accepted bs) (hne : scope ≠ .value) {patch : Entries ν}
    (hset : Node.setEach (assigned result scope bs) (.dict []) = some (.dict patch)) :
    Plain (Dict.keys patch) := by
  obtain ⟨patch', hpatch, -, hkeys⟩ := Node.keys_setEach (assigned_ne_nil h hne) hset
  cases hpatch
  intro k hk
  rcases (hkeys k).mp hk with hk | ⟨p, hp, hhead⟩
  · cases hk
  · obtain ⟨b, hb, -, hpath, -⟩ := mem_assigned hp
    refine h.plain b hb k ?_
    rw [hpath]
    exact List.mem_of_mem_head? hhead

def ValueWritten (result : Tree ν) (bs : List CompiledSubFlowBinding)
    (parent after : ParentData ν) : Prop :=
  if assigned result .value bs = [] then after.value = parent.value
  else Node.setEach (assigned result .value bs) (.dict (entriesOf parent.value)) = some after.value

theorem openValue_of (initial : Tree ν) :
    (WriteBackTarget.of initial).openValue = entriesOf initial := by
  cases initial <;> rfl

variable {α : Type}

theorem completeFrame_spec {normalized : α} (h : Accepted bs) (hbound : Bound result bs)
    (hafter : completeFrame (some normalized) bs result parent = some after) :
    (∃ patch, Node.setEach (assigned result .runtimeData bs) (.dict []) = some (.dict patch) ∧
      after.runtimeData = Dict.merge parent.runtimeData patch) ∧
    (∃ patch, Node.setEach (assigned result .flowData bs) (.dict []) = some (.dict patch) ∧
      after.flowData = Dict.merge parent.flowData patch) ∧ ValueWritten result bs parent after := by
  obtain ⟨t, ht, happly⟩ := Option.bind_eq_some_iff.mp hafter
  obtain ⟨hruntime, hflow, hvalue⟩ := applyBindings_spec h hbound ht
  rw [WriteBackTarget.apply, setPatch_eq (plain_keys_patch h (by decide) hruntime),
    setPatch_eq (plain_keys_patch h (by decide) hflow)] at happly
  cases happly
  refine ⟨⟨_, hruntime, rfl⟩, ⟨_, hflow, rfl⟩, ?_⟩
  rw [ValueAfter, openValue_of] at hvalue
  by_cases hnone : assigned result .value bs = []
  · rw [if_pos hnone] at hvalue
    rw [ValueWritten, if_pos hnone, hvalue.2]
    rfl
  · rw [if_neg hnone] at hvalue
    rw [ValueWritten, if_neg hnone, hvalue.1]
    exact hvalue.2

theorem isSome_completeFrame {normalized : α} (h : Accepted bs) (hbound : Bound result bs) :
    (completeFrame (some normalized) bs result parent).isSome = true ↔
      (Node.setEach (assigned result .value bs) (.dict (entriesOf parent.value))).isSome = true := by
  have happly := isSome_applyBindings h hbound (.of parent.value)
  rw [openValue_of] at happly
  constructor
  · intro hsome
    obtain ⟨after, hafter⟩ := Option.isSome_iff_exists.mp hsome
    obtain ⟨t, ht, -⟩ := Option.bind_eq_some_iff.mp hafter
    exact (happly.mp (by rw [ht]; rfl)).2.2
  · intro hsome
    obtain ⟨t, ht⟩ := Option.isSome_iff_exists.mp (happly.mpr
      ⟨isSome_patch (assigned_apart h result _), isSome_patch (assigned_apart h result _), hsome⟩)
    obtain ⟨hruntime, hflow, -⟩ := applyBindings_spec h hbound ht
    rw [completeFrame, ht, Option.bind_some, WriteBackTarget.apply,
      setPatch_eq (plain_keys_patch h (by decide) hruntime),
      setPatch_eq (plain_keys_patch h (by decide) hflow)]
    rfl

theorem get_entriesOf {p : List String} (hp : p ≠ []) {t : Tree ν} :
    Node.get p (.dict (entriesOf t)) = Node.get p t := by
  cases t with
  | dict kvs => rfl
  | leaf v =>
    cases p with
    | nil => exact absurd rfl hp
    | cons k rest => rfl

theorem isSome_value_iff (h : Accepted bs) (hbound : Bound result bs) :
    (Node.setEach (assigned result .value bs) (.dict (entriesOf parent.value))).isSome = true ↔
      ∀ b ∈ bs, b.targetScope = .value → ∀ p v, p ≠ [] → p <+: b.targetPath →
        p ≠ b.targetPath → Node.get p parent.value ≠ some (.leaf v) := by
  rw [Node.isSome_setEach (assigned_apart h result _)]
  constructor
  · intro hall b hb hscope p v hp hstarts hne
    obtain ⟨w, hw⟩ := Option.isSome_iff_exists.mp (hbound b hb)
    have hin := assigned_mem hb hw
    rw [hscope] at hin
    rw [← get_entriesOf hp]
    exact Node.isSome_set_iff.mp (hall _ hin) p v hstarts hne
  · intro hall q hq
    obtain ⟨b, hb, hscope, hpath, -⟩ := mem_assigned hq
    refine Node.isSome_set_iff.mpr fun p v hstarts hne => ?_
    by_cases hp : p = []
    · subst hp
      simp
    · rw [get_entriesOf hp]
      rw [← hpath] at hstarts hne
      exact hall b hb hscope p v hp hstarts hne

theorem data_after {normalized : α} (h : Accepted bs) (hbound : Bound result bs)
    (hafter : completeFrame (some normalized) bs result parent = some after)
    (hscope : scope ∈ targetScopes .writeBack) (hne : scope ≠ .value) :
    ∃ data patch, parent.at scope = .dict data ∧
      Node.setEach (assigned result scope bs) (.dict []) = some (.dict patch) ∧
      after.at scope = .dict (Dict.merge data patch) := by
  obtain ⟨⟨runtime, hruntime, hruntimeAfter⟩, ⟨flow, hflow, hflowAfter⟩, -⟩ :=
    completeFrame_spec h hbound hafter
  cases scope with
  | runtimeData => exact ⟨_, runtime, rfl, hruntime, congrArg Node.dict hruntimeAfter⟩
  | flowData => exact ⟨_, flow, rfl, hflow, congrArg Node.dict hflowAfter⟩
  | value => exact absurd rfl hne
  | input | resources | result => exact absurd hscope (by decide)

theorem targets_set {normalized : α} (h : Accepted bs) (hbound : Bound result bs)
    (hafter : completeFrame (some normalized) bs result parent = some after) :
    ∀ b ∈ bs, Node.get b.targetPath (after.at b.targetScope) = readResult result b.sourcePath := by
  intro b hb
  obtain ⟨v, hv⟩ := Option.isSome_iff_exists.mp (hbound b hb)
  have hin := assigned_mem hb hv
  have hap := assigned_apart h result b.targetScope
  rw [hv]
  by_cases hvalue : b.targetScope = .value
  · have hwritten := (completeFrame_spec h hbound hafter).2.2
    rw [hvalue] at hin hap ⊢
    rw [ValueWritten, if_neg (List.ne_nil_of_mem hin)] at hwritten
    exact Node.get_setEach_self hap hwritten _ hin
  · obtain ⟨data, patch, -, hset, hlaid⟩ := data_after h hbound hafter (h.scopes b hb) hvalue
    rw [hlaid]
    exact get_patched_self (assigned_ne_nil h hvalue) hap hset _ hin

theorem data_frame_iff {normalized : α} (h : Accepted bs) (hbound : Bound result bs)
    (hafter : completeFrame (some normalized) bs result parent = some after)
    (hscope : scope ∈ targetScopes .writeBack) (hne : scope ≠ .value) :
    (∀ q, OffTargets bs scope q → Node.get q (after.at scope) = Node.get q (parent.at scope)) ↔
      ∀ b ∈ bs, b.targetScope = scope → ∀ q, q.head? = b.targetPath.head? →
        OffTargets bs scope q → Node.get q (parent.at scope) = none := by
  obtain ⟨data, patch, hdata, hset, hlaid⟩ := data_after h hbound hafter hscope hne
  have hiff := @patched_frame_iff _ _ _ data (assigned_ne_nil h hne) hset
  simp only [← offTargets_iff hbound] at hiff
  rw [hdata, hlaid, hiff]
  constructor
  · intro hall b hb hb' q
    obtain ⟨v, hv⟩ := Option.isSome_iff_exists.mp (hbound b hb)
    have hin := assigned_mem hb hv
    rw [hb'] at hin
    exact hall _ hin q
  · intro hall p hp q
    obtain ⟨b, hb, hb', hpath, -⟩ := mem_assigned hp
    rw [← hpath]
    exact hall b hb hb' q

theorem value_frame {normalized : α} (h : Accepted bs) (hbound : Bound result bs)
    (hafter : completeFrame (some normalized) bs result parent = some after) {q : List String}
    (hq : OffTargets bs .value q) : Node.get q after.value = Node.get q parent.value := by
  have hwritten := (completeFrame_spec h hbound hafter).2.2
  rw [offTargets_iff hbound] at hq
  by_cases hnone : assigned result .value bs = []
  · rw [ValueWritten, if_pos hnone] at hwritten
    rw [hwritten]
  · rw [ValueWritten, if_neg hnone] at hwritten
    obtain ⟨p, hp⟩ := List.exists_mem_of_ne_nil _ hnone
    have hne : q ≠ [] := by
      rintro rfl
      exact (hq p hp).2 List.nil_prefix
    rw [Node.get_setEach_of_apart hq hwritten, get_entriesOf hne]

variable {cs : List CompiledSubFlowBinding}

theorem Accepted.perm (h : Accepted bs) (hperm : cs.Perm bs) :
    Accepted cs :=
  ⟨fun b hb => h.scopes b (hperm.mem_iff.mp hb), fun b hb => h.plain b (hperm.mem_iff.mp hb),
    fun b hb => h.rooted b (hperm.mem_iff.mp hb),
    (hperm.pairwise_iff fun hab heq => (hab heq.symm).symm).mpr h.apart⟩

theorem Bound.perm (hbound : Bound result bs) (hperm : cs.Perm bs) : Bound result cs :=
  fun b hb => hbound b (hperm.mem_iff.mp hb)

theorem order_free {normalized : α} (h : Accepted bs) (hbound : Bound result bs)
    (hafter : completeFrame (some normalized) bs result parent = some after)
    (hperm : cs.Perm bs) :
    ∃ other, completeFrame (some normalized) cs result parent = some other ∧
      ∀ scope, Node.Same (other.at scope) (after.at scope) := by
  have hcs := h.perm hperm
  have hboundCs := hbound.perm hperm
  have hsome : (completeFrame (some normalized) cs result parent).isSome = true := by
    have hwas := (@isSome_completeFrame _ _ _ parent _ normalized h hbound).mp
      (by rw [hafter]; rfl)
    rw [isSome_completeFrame hcs hboundCs, Node.isSome_setEach (assigned_apart hcs result _)]
    rw [Node.isSome_setEach (assigned_apart h result _)] at hwas
    exact fun p hp => hwas p ((assigned_perm hperm result _).mem_iff.mp hp)
  obtain ⟨other, hother⟩ := Option.isSome_iff_exists.mp hsome
  refine ⟨other, hother, fun scope => ?_⟩
  have hassigned := assigned_perm hperm result scope
  have hap := assigned_apart h result scope
  by_cases hvalue : scope = .value
  · subst hvalue
    have hwritten := (completeFrame_spec h hbound hafter).2.2
    have hwritten' := (completeFrame_spec hcs hboundCs hother).2.2
    by_cases hnone : assigned result .value bs = []
    · rw [ValueWritten, if_pos hnone] at hwritten
      rw [ValueWritten, if_pos (List.perm_nil.mp (hnone ▸ hassigned))] at hwritten'
      rw [ParentData.at, ParentData.at, hwritten, hwritten']
      exact Node.Same.refl _
    · rw [ValueWritten, if_neg hnone] at hwritten
      have hnone' : assigned result .value cs ≠ [] := by
        intro hnil
        rw [hnil] at hassigned
        exact hnone (List.nil_perm.mp hassigned)
      rw [ValueWritten, if_neg hnone'] at hwritten'
      exact Node.same_setEach_of_perm hap hassigned hwritten' hwritten
  · by_cases hscope : scope ∈ targetScopes .writeBack
    · obtain ⟨data, patch, hdata, hset, hlaid⟩ := data_after h hbound hafter hscope hvalue
      obtain ⟨data', patch', hdata', hset', hlaid'⟩ :=
        data_after hcs hboundCs hother hscope hvalue
      cases hdata.symm.trans hdata'
      rw [hlaid, hlaid']
      exact same_patched (assigned_ne_nil h hvalue) hap hassigned hset hset' data
    · cases scope with
      | input | resources | result => exact Node.Same.refl _
      | value | runtimeData | flowData => exact absurd (by decide) hscope

theorem writesBack_some_iff {normalized : α} (h : Accepted bs) (hbound : Bound result bs) :
    WritesBack (some normalized) bs result parent ↔ Unobstructed bs parent := by
  constructor
  · rintro ⟨after, hafter, -, hframe, -⟩
    refine ⟨fun b hb hne => ?_, ?_⟩
    · exact (data_frame_iff h hbound hafter (h.scopes b hb) hne).mp (hframe b.targetScope) b hb rfl
    · exact (isSome_value_iff h hbound).mp
        ((@isSome_completeFrame _ _ _ _ _ normalized h hbound).mp (by rw [hafter]; rfl))
  · intro hun
    obtain ⟨after, hafter⟩ := Option.isSome_iff_exists.mp
      ((@isSome_completeFrame _ _ _ _ _ normalized h hbound).mpr
        ((isSome_value_iff h hbound).mpr hun.passable))
    refine ⟨after, hafter, targets_set h hbound hafter, fun scope q hq => ?_,
      fun cs hperm => order_free h hbound hafter hperm⟩
    by_cases hvalue : scope = .value
    · subst hvalue
      exact value_frame h hbound hafter hq
    · by_cases hscope : scope ∈ targetScopes .writeBack
      · refine (data_frame_iff h hbound hafter hscope hvalue).mpr ?_ q hq
        rintro b hb rfl
        exact hun.beside b hb hvalue
      · cases scope with
        | input | resources | result => rfl
        | value | runtimeData | flowData => exact absurd (by decide) hscope

end Complete

theorem readResult_root (result : Tree ν) :
    readResult result [] = some ((Dict.get? (entriesOf result) "$final_result").getD result) := by
  cases result with
  | leaf v => rfl
  | dict kvs =>
    rw [readResult, entriesOf]
    cases hfinal : Dict.get? kvs "$final_result" with
    | none => simp
    | some final => simp

theorem writesBack_none {α : Type} (result : Tree ν) (parent : ParentData ν) :
    WritesBack (none : Option α) [⟨.value, [], .result, []⟩] result parent := by
  refine ⟨_, rfl, ?_, fun scope q hq => ?_, fun cs _ => ⟨_, rfl, fun scope => Node.Same.refl _⟩⟩
  · refine List.forall_mem_singleton.mpr ?_
    rw [readResult_root, Node.get_nil]
    rfl
  · cases scope with
    | value => exact absurd List.nil_prefix (hq _ List.mem_cons_self rfl).1
    | _ => rfl

theorem bound_of_applyBindings
    {t t' : WriteBackTarget ν} (h : applyBindings result t bs = some t') : Bound result bs := by
  induction bs generalizing t with
  | nil => exact List.forall_mem_nil _
  | cons b rest ih =>
    obtain ⟨v, hv, h⟩ := Option.bind_eq_some_iff.mp h
    obtain ⟨u, -, h⟩ := Option.bind_eq_some_iff.mp h
    intro c hc
    rcases List.mem_cons.mp hc with rfl | hc
    · rw [hv]
      rfl
    · exact ih h c hc

/-- For every spec a definition accepts. -/
theorem writesBack_iff {typeText : Value → String} {spec : Value}
    {normalized : Option (Dict Scope ScopeBinding)} {bs : List CompiledSubFlowBinding}
    (h : compileBindings typeText .writeBack spec = .ok (normalized, bs)) (result : Tree ν)
    (parent : ParentData ν) :
    WritesBack normalized bs result parent ↔ Bound result bs ∧ Unobstructed bs parent := by
  obtain ⟨haccepted, hdefault⟩ := compileBindings_accepted h
  cases normalized with
  | some scopes =>
    constructor
    · rintro ⟨after, hafter, hwritten⟩
      obtain ⟨t, ht, -⟩ := Option.bind_eq_some_iff.mp hafter
      have hbound := bound_of_applyBindings ht
      exact ⟨hbound, (writesBack_some_iff haccepted hbound).mp ⟨after, hafter, hwritten⟩⟩
    · rintro ⟨hbound, hun⟩
      exact (writesBack_some_iff haccepted hbound).mpr hun
  | none =>
    rw [hdefault rfl]
    refine iff_of_true (writesBack_none result parent) ⟨?_, ?_, ?_⟩
    · refine List.forall_mem_singleton.mpr ?_
      rw [readResult_root]
      rfl
    · exact List.forall_mem_singleton.mpr fun hne => absurd rfl hne
    · refine List.forall_mem_singleton.mpr fun _ p v hp hstarts => ?_
      exact absurd (List.prefix_nil.mp hstarts) hp

def nestedSpec : Value := .dict [("runtime_data", .dict [("a.b", .str "result.x")])]

def nestedBinding : CompiledSubFlowBinding := ⟨.runtimeData, ["a", "b"], .result, ["x"]⟩

def nestedScopes : Dict Scope ScopeBinding := [(.runtimeData, .mapping [("a.b", "result.x")])]

def nestedResult : Tree Nat := .dict [("x", .leaf 7)]

theorem compile_nestedSpec : compileBindings (fun _ => "") .writeBack nestedSpec =
    .ok (some nestedScopes, [nestedBinding]) := by
  rfl

theorem writesBack_iff_nested :
    WritesBack (some nestedScopes) [nestedBinding] nestedResult ⟨.leaf 0, [], []⟩ := by
  refine (writesBack_iff compile_nestedSpec nestedResult ⟨.leaf 0, [], []⟩).mpr ⟨?_, ?_, ?_⟩
  · exact List.forall_mem_singleton.mpr rfl
  · refine List.forall_mem_singleton.mpr fun _ q hq _ => Node.get_empty ?_
    rintro rfl
    cases hq
  · exact List.forall_mem_singleton.mpr nofun

def siblingParent : ParentData Nat := ⟨.leaf 0, [("a", .dict [("y", .leaf 1)])], []⟩

theorem sibling_lost : ¬ ∀ (spec : Value) (normalized : Option (Dict Scope ScopeBinding))
    (bs : List CompiledSubFlowBinding),
    compileBindings (fun _ => "") .writeBack spec = .ok (normalized, bs) →
    ∀ (result : Tree Nat) (parent : ParentData Nat), Bound result bs →
      WritesBack normalized bs result parent := by
  intro hall
  obtain ⟨after, hafter, -, hframe, -⟩ := hall nestedSpec _ _ compile_nestedSpec nestedResult
    siblingParent (List.forall_mem_singleton.mpr rfl)
  cases hafter
  have hoff : OffTargets [nestedBinding] .runtimeData ["a", "y"] :=
    List.forall_mem_singleton.mpr fun _ => ⟨by decide, by decide⟩
  cases hframe .runtimeData ["a", "y"] hoff

end Agently.TriggerFlow.SubFlowBindings
