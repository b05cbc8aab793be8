import Agently.Utils.Json

/-! # The choice of a provider

Source: `_capability_matches`, `_version_parts`, `_toolchains_match`, `_probe_is_eligible`,
`_probe_provider`, `_select_provider` of `core/operation/ExecutionResource/ExecutionResource.py`
and `types/data/code_execution.py`. `none` is the `TypeError` of an element of a set that cannot
be hashed. -/

namespace Agently.ProviderSelection

open Agently.Lib Agently.Utils

abbrev Capabilities := List (String × Json)

/-- What Python does with values outside this file: the number a float stands for, and `str`. -/
structure Host where
  floatValue : FloatText → ℚ
  str : Json → String

variable (h : Host)

def lookup (d : Capabilities) (key : String) : Option Json :=
  match Dict.get? d key with
  | some .null => none
  | found => found

def alias? (key : String) : Option String :=
  if key = "language" then some "languages"
  else if key = "workspace_access_mode" then some "workspace_access_modes"
  else if key = "toolchain" then some "toolchains"
  else none

def level? : Json → Option Nat
  | .str s =>
    if s = "none" then some 0 else if s = "preferred" then some 1
    else if s = "required" then some 2 else none
  | _ => none

/-- The runs of digits, separated by single points, that begin with `current`. -/
def runs (current : List Char) : List Char → List (List Char)
  | [] => [current]
  | c :: cs =>
    if c.isDigit then runs (current ++ [c]) cs
    else if c = '.' ∧ cs.head?.any Char.isDigit = true then current :: runs [] cs
    else [current]

def number (digits : List Char) : Nat :=
  digits.foldl (fun n c => n * 10 + (c.toNat - '0'.toNat)) 0

def parts (text : String) : Option (List Nat) :=
  match text.toList.dropWhile fun c => !c.isDigit with
  | [] => none
  | cs => some ((runs [] cs).map number)

def falsy : Json → Bool
  | .null => true
  | .bool b => !b
  | .int n => n == 0
  | .float f => h.floatValue f == 0
  | .str s => s == ""
  | .arr xs => xs.isEmpty
  | .obj kvs => kvs.isEmpty

def version_parts (value : Json) : Option (List Nat) :=
  parts (if falsy h value then "" else h.str value)

def padded (xs : List Nat) (width : Nat) : List Nat := xs ++ List.replicate (width - xs.length) 0

def compared (actual expected : Option (List Nat)) (p : List Nat → List Nat → Bool) : Bool :=
  match actual, expected with
  | some xs, some ys =>
    let width := max xs.length ys.length
    p (padded xs width) (padded ys width)
  | _, _ => false

def tool_matches (actual : Capabilities) (tool : String) (raw_constraint : Json) : Bool :=
  match Dict.get? actual tool with
  | some (.obj fact) =>
    let constraint : Capabilities := match raw_constraint with | .obj kvs => kvs | _ => []
    let version := (Dict.get? fact "version").getD .null
    let actual_parts := version_parts h
      (if falsy h version then (Dict.get? fact "raw_version").getD .null else version)
    (match (Dict.get? fact "available").getD (.bool true) with | .bool b => b | _ => false) &&
      ((lookup constraint "minimum_version").all fun minimum =>
        compared actual_parts (version_parts h minimum) fun xs ys => decide (¬ xs < ys)) &&
      ((lookup constraint "exact_version").all fun exact =>
        compared actual_parts (version_parts h exact) fun xs ys => decide (xs = ys))
  | _ => false

def toolchains_match : Json → Json → Bool
  | .obj expected, .obj actual => expected.all fun (tool, constraint) =>
    tool_matches h actual tool constraint
  | _, _ => false

def hashable : Json → Bool
  | .arr _ => false
  | .obj _ => false
  | _ => true

def mem (x : Json) (xs : List Json) : Bool := xs.any fun y => Json.pyEq h.floatValue x y

/-- What is left when the values are neither levels nor a mapping that is asked for. -/
def compare_values (expected actual : Json) : Option Bool :=
  match actual, expected with
  | .arr ys, .arr xs =>
    if xs.all hashable && ys.all hashable then some (xs.all fun x => mem h x ys) else none
  | .arr ys, x => some (mem h x ys)
  | y, .arr xs => some (mem h y xs)
  | y, x => some (Json.pyEq h.floatValue y x)

mutual

def value_matches (key : String) (actual : Json) : Json → Option Bool
  | .obj expected =>
    if key = "toolchains" then some (toolchains_match h (.obj expected) actual)
    else
      match actual with
      | .obj capabilities => all_match capabilities expected
      | _ => some false
  | expected =>
    if key = "toolchains" then some (toolchains_match h expected actual)
    else
      match if key = "isolation" then level? expected else none, level? actual with
      | some wanted, some given => some (decide (wanted ≤ given))
      | _, _ => compare_values h expected actual

def all_match (capabilities : Capabilities) : List (String × Json) → Option Bool
  | [] => some true
  | (key, expected) :: rest =>
    match (lookup capabilities key).or ((alias? key).bind (lookup capabilities)) with
    | none => some false
    | some actual =>
      match value_matches key actual expected with
      | none => none
      | some false => some false
      | some true => all_match capabilities rest

end

def capability_matches (key : String) (expected : Json) (capabilities : Capabilities) :
    Option Bool := all_match h capabilities [(key, expected)]

structure Probe where
  available : Bool
  supported_kinds : List String
  capabilities : Capabilities

/-- A registered provider; `unprobed` holds the capabilities of one that has no probe. -/
structure Provider where
  supported_kinds : List String
  unprobed : Option Capabilities

/-- What a provider's own probe gives, `none` if it raises. -/
abbrev RawProbe := Option (Bool × Capabilities)

def probe_provider (p : Provider) (raw : RawProbe) : Probe :=
  match p.unprobed, raw with
  | some capabilities, _ => ⟨true, p.supported_kinds, capabilities⟩
  | none, none => ⟨false, p.supported_kinds, []⟩
  | none, some (available, capabilities) => ⟨available, p.supported_kinds, capabilities⟩

def probe_is_eligible (probe : Probe) (kind : String) (required : Capabilities) : Option Bool :=
  if probe.available = false ∨ kind ∉ probe.supported_kinds then some false
  else all_match h probe.capabilities required

structure Requirement where
  kind : String
  provider_id : String
  provider_candidates : List String
  required_capabilities : Capabilities
  preferred_capabilities : Capabilities

inductive Outcome where
  | selected (index : Nat) (provider_id : String)
  | missing
  | unavailable
  | typeError

structure Eligible where
  index : Nat
  provider_id : String
  provider : Provider
  initially_preferred : Bool

def candidates (registered : List (String × Provider)) (r : Requirement) : List String :=
  if r.provider_id ≠ "" then [r.provider_id]
  else if r.provider_candidates ≠ [] then r.provider_candidates
  else (registered.filter fun p => r.kind ∈ p.2.supported_kinds).map Prod.fst

def preference (r : Requirement) (probe : Probe) : Option Bool :=
  if r.preferred_capabilities = [] then some true
  else probe_is_eligible h probe r.kind r.preferred_capabilities

def assess (registered : List (String × Provider)) (r : Requirement) (first : Nat → RawProbe)
    (index : Nat) (provider_id : String) : Option (Option Eligible) :=
  match Dict.get? registered provider_id with
  | none => some none
  | some provider =>
    if r.kind ∉ provider.supported_kinds then some none
    else
      let probe := probe_provider provider (first index)
      (probe_is_eligible h probe r.kind r.required_capabilities).bind fun ok =>
        if ok then
          (preference h r probe).map fun preferred => some ⟨index, provider_id, provider, preferred⟩
        else some none

def first_pass (registered : List (String × Provider)) (r : Requirement)
    (first : Nat → RawProbe) : Nat → List String → Option (List Eligible)
  | _, [] => some []
  | index, provider_id :: rest =>
    (assess h registered r first index provider_id).bind fun found =>
      (first_pass registered r first (index + 1) rest).map fun others => found.toList ++ others

/-- The candidate keeps its preference and has what is required when it is probed again. -/
def ensured (r : Requirement) (second : Nat → RawProbe) (e : Eligible) : Option Bool :=
  let probe := probe_provider e.provider (second e.index)
  (preference h r probe).bind fun preferred =>
    if e.initially_preferred = true ∧ preferred = false then some false
    else probe_is_eligible h probe r.kind r.required_capabilities

def second_pass (r : Requirement) (second : Nat → RawProbe) : List Eligible → Outcome
  | [] => .unavailable
  | e :: rest =>
    match ensured h r second e with
    | none => .typeError
    | some true => .selected e.index e.provider_id
    | some false => second_pass r second rest

def selection_order (r : Requirement) (eligible : List Eligible) : List Eligible :=
  if r.preferred_capabilities = [] then eligible
  else eligible.filter (·.initially_preferred) ++ eligible.filter fun e => !e.initially_preferred

def select_provider (registered : List (String × Provider)) (r : Requirement)
    (first second : Nat → RawProbe) : Outcome :=
  if candidates registered r = [] then .missing
  else
    match first_pass h registered r first 0 (candidates registered r) with
    | none => .typeError
    | some eligible => second_pass h r second (selection_order r eligible)

section Choice

variable (registered : List (String × Provider)) (r : Requirement) (first second : Nat → RawProbe)

def Passed (e : Eligible) : Prop :=
  ∃ id, (candidates registered r)[e.index]? = some id ∧
    assess h registered r first e.index id = some (some e)

def Has (e : Eligible) : Option Bool :=
  probe_is_eligible h (probe_provider e.provider (second e.index)) r.kind r.required_capabilities

def Prefers (e : Eligible) : Option Bool :=
  preference h r (probe_provider e.provider (second e.index))

variable {h registered r first second}

theorem first_pass_spec {ids : List String} {n : Nat} {es : List Eligible}
    (hp : first_pass h registered r first n ids = some es) :
    (∀ e, e ∈ es ↔ n ≤ e.index ∧ ∃ id, ids[e.index - n]? = some id ∧
      assess h registered r first e.index id = some (some e)) ∧
      es.Pairwise fun a b => a.index < b.index := by
  have hindex : ∀ {i : Nat} {id : String} {e : Eligible},
      assess h registered r first i id = some (some e) → e.index = i := by
    intro i id e he
    unfold assess at he
    split at he
    · cases he
    · split at he
      · cases he
      · obtain ⟨ok, -, he⟩ := Option.bind_eq_some_iff.mp he
        split at he
        · obtain ⟨preferred, -, he⟩ := Option.map_eq_some_iff.mp he
          cases he
          rfl
        · cases he
  induction ids generalizing n es with
  | nil =>
    cases hp
    exact ⟨fun e => by simp, .nil⟩
  | cons id ids ih =>
    obtain ⟨found, hfound, hp⟩ := Option.bind_eq_some_iff.mp hp
    obtain ⟨others, hothers, rfl⟩ := Option.map_eq_some_iff.mp hp
    obtain ⟨hmem, hsorted⟩ := ih hothers
    refine ⟨?_, ?_⟩
    · intro e
      rw [List.mem_append, Option.mem_toList, hmem]
      constructor
      · rintro (rfl | ⟨hle, id', hid, he⟩)
        · have hi := hindex hfound
          exact ⟨Nat.le_of_eq hi.symm, id, by simp [hi], by rw [hi]; exact hfound⟩
        · have hsucc : e.index - n = e.index - (n + 1) + 1 := by omega
          exact ⟨by omega, id', by rw [hsucc, List.getElem?_cons_succ]; exact hid, he⟩
      · rintro ⟨hle, id', hid, he⟩
        rcases Nat.eq_or_lt_of_le hle with heq | hlt
        · rw [← heq, Nat.sub_self, List.getElem?_cons_zero] at hid
          cases hid
          rw [← heq, hfound] at he
          exact Or.inl (Option.some.inj he)
        · have hsucc : e.index - n = e.index - (n + 1) + 1 := by omega
          rw [hsucc, List.getElem?_cons_succ] at hid
          exact Or.inr ⟨hlt, id', hid, he⟩
    · rw [List.pairwise_append]
      refine ⟨?_, hsorted, ?_⟩
      · cases found <;> simp
      · intro a ha b hb
        rw [Option.mem_toList] at ha
        cases ha
        have hi := hindex hfound
        have hle := ((hmem b).mp hb).1
        omega

/-- The order in which candidates are probed again: those preferred first, and else by index. -/
def Ahead (a b : Eligible) : Prop :=
  (a.initially_preferred = b.initially_preferred → a.index < b.index) ∧
    (a.initially_preferred = false → b.initially_preferred = false)

theorem order_ahead {es : List Eligible} (hs : es.Pairwise fun a b => a.index < b.index)
    (hp : r.preferred_capabilities = [] → ∀ e ∈ es, e.initially_preferred = true) :
    (∀ e, e ∈ selection_order r es ↔ e ∈ es) ∧ (selection_order r es).Pairwise Ahead := by
  unfold selection_order
  by_cases h0 : r.preferred_capabilities = []
  · rw [if_pos h0]
    refine ⟨fun e => Iff.rfl, hs.imp_of_mem ?_⟩
    intro a b ha _ hab
    exact ⟨fun _ => hab, fun hno => by rw [hp h0 a ha] at hno; cases hno⟩
  · rw [if_neg h0]
    refine ⟨?_, ?_⟩
    · intro e
      cases hb : e.initially_preferred <;> simp [hb]
    · rw [List.pairwise_append]
      refine ⟨?_, ?_, ?_⟩
      · refine (hs.filter _).imp_of_mem ?_
        intro a b ha _ hab
        have hpref := (List.mem_filter.mp ha).2
        exact ⟨fun _ => hab, fun hno => by rw [hpref] at hno; cases hno⟩
      · refine (hs.filter _).imp_of_mem ?_
        intro a b _ hb hab
        exact ⟨fun _ => hab, fun _ => by simpa using (List.mem_filter.mp hb).2⟩
      · intro a ha b hb
        have hpa := (List.mem_filter.mp ha).2
        have hpb := (List.mem_filter.mp hb).2
        refine ⟨fun he => ?_, fun hno => ?_⟩
        · rw [← he, hpa] at hpb
          cases hpb
        · rw [hpa] at hno
          cases hno

theorem second_pass_spec (es : List Eligible) :
    match second_pass h r second es with
    | .selected i id => ∃ before e after, es = before ++ e :: after ∧ e.index = i ∧
        e.provider_id = id ∧ ensured h r second e = some true ∧
        ∀ d ∈ before, ensured h r second d = some false
    | .unavailable => ∀ d ∈ es, ensured h r second d = some false
    | _ => True := by
  induction es with
  | nil => exact fun d hd => absurd hd List.not_mem_nil
  | cons e es ih =>
    rw [second_pass]
    cases he : ensured h r second e with
    | none => exact trivial
    | some ok =>
      cases ok with
      | true => exact ⟨[], e, es, rfl, rfl, rfl, he, fun d hd => absurd hd List.not_mem_nil⟩
      | false =>
        cases hr : second_pass h r second es with
        | missing => exact trivial
        | typeError => exact trivial
        | unavailable =>
          rw [hr] at ih
          intro d hd
          rcases List.mem_cons.mp hd with rfl | hd
          · exact he
          · exact ih d hd
        | selected i id =>
          rw [hr] at ih
          obtain ⟨before, d, after, hsplit, hi, hid, hd, hbefore⟩ := ih
          refine ⟨e :: before, d, after, by rw [hsplit]; rfl, hi, hid, hd, ?_⟩
          intro b hb
          rcases List.mem_cons.mp hb with rfl | hb
          · exact he
          · exact hbefore b hb

theorem ensured_cases (e : Eligible) {ok : Bool} (he : ensured h r second e = some ok) :
    if ok then Has h r second e = some true ∧
        (e.initially_preferred = true → Prefers h r second e = some true)
      else Has h r second e = some false ∨
        (e.initially_preferred = true ∧ Prefers h r second e = some false) := by
  obtain ⟨preferred, hpref, he⟩ := Option.bind_eq_some_iff.mp he
  by_cases hlost : e.initially_preferred = true ∧ preferred = false
  · rw [if_pos hlost] at he
    cases he
    exact Or.inr ⟨hlost.1, hlost.2 ▸ hpref⟩
  · rw [if_neg hlost] at he
    cases ok with
    | true =>
      refine ⟨he, fun hi => ?_⟩
      cases preferred with
      | true => exact hpref
      | false => exact absurd ⟨hi, rfl⟩ hlost
    | false => exact Or.inl he

end Choice

/-- The provider chosen has what is required; one preferred in both probes comes before all that are
not; ties follow the order of the candidates; and none is chosen only if each that passed the first
probe has lost what is required or preferred. -/
theorem provider_selected (registered : List (String × Provider)) (r : Requirement)
    (first second : Nat → RawProbe) :
    match select_provider h registered r first second with
    | .selected i id => ∃ e, Passed h registered r first e ∧ e.index = i ∧ e.provider_id = id ∧
        Has h r second e = some true ∧
        (∀ d, Passed h registered r first d → Has h r second d = some true →
          d.initially_preferred = true → Prefers h r second d = some true →
            (e.initially_preferred = true ∧ Prefers h r second e = some true) ∧
              e.index ≤ d.index) ∧
        ∀ d, Passed h registered r first d → d.initially_preferred = e.initially_preferred →
          d.index < e.index → Has h r second d = some false ∨
            (d.initially_preferred = true ∧ Prefers h r second d = some false)
    | .unavailable => ∀ d, Passed h registered r first d → Has h r second d = some false ∨
        (d.initially_preferred = true ∧ Prefers h r second d = some false)
    | _ => True := by
  unfold select_provider
  by_cases hnone : candidates registered r = []
  · rw [if_pos hnone]
    exact trivial
  · rw [if_neg hnone]
    cases hp : first_pass h registered r first 0 (candidates registered r) with
    | none => exact trivial
    | some es =>
      obtain ⟨hmem, hsorted⟩ := first_pass_spec hp
      have hpassed : ∀ e, e ∈ es ↔ Passed h registered r first e := fun e => by
        simpa [Passed] using hmem e
      have hpref : r.preferred_capabilities = [] → ∀ e ∈ es, e.initially_preferred = true := by
        intro h0 e he
        obtain ⟨id, -, ha⟩ := (hpassed e).mp he
        unfold assess at ha
        split at ha
        · cases ha
        · split at ha
          · cases ha
          · obtain ⟨ok, -, ha⟩ := Option.bind_eq_some_iff.mp ha
            split at ha
            · rw [preference, if_pos h0] at ha
              exact (congrArg Eligible.initially_preferred
                (Option.some.inj (Option.some.inj ha))).symm
            · cases ha
      obtain ⟨horder, hahead⟩ := order_ahead hsorted hpref
      have hspec := @second_pass_spec h r second (selection_order r es)
      dsimp only
      cases hs : second_pass h r second (selection_order r es) with
      | missing => exact trivial
      | typeError => exact trivial
      | unavailable =>
        rw [hs] at hspec
        intro d hd
        exact ensured_cases d (hspec d ((horder d).mpr ((hpassed d).mpr hd)))
      | selected i id =>
        rw [hs] at hspec
        obtain ⟨before, e, after, hsplit, hi, hid, he, hbefore⟩ := hspec
        rw [hsplit, List.pairwise_append] at hahead
        have hafter : ∀ d ∈ after, Ahead e d := (List.pairwise_cons.mp hahead.2.1).1
        have hcases : ∀ d, Passed h registered r first d → d ∈ before ∨ d = e ∨ d ∈ after := by
          intro d hd
          have hd := (horder d).mpr ((hpassed d).mpr hd)
          rwa [hsplit, List.mem_append, List.mem_cons] at hd
        obtain ⟨hhas, hkeeps⟩ := ensured_cases e he
        refine ⟨e, (hpassed e).mp ((horder e).mp (by rw [hsplit]; simp)), hi, hid, hhas, ?_, ?_⟩
        · intro d hd hdhas hdpref hdkeeps
          rcases hcases d hd with hb | rfl | ha
          · rcases ensured_cases d (hbefore d hb) with hno | ⟨-, hno⟩
            · rw [hdhas] at hno
              cases hno
            · rw [hdkeeps] at hno
              cases hno
          · exact ⟨⟨hdpref, hdkeeps⟩, Nat.le_refl _⟩
          · have hepref : e.initially_preferred = true := by
              by_contra hno
              have hdno := (hafter d ha).2 (by simpa using hno)
              rw [hdpref] at hdno
              cases hdno
            exact ⟨⟨hepref, hkeeps hepref⟩,
              Nat.le_of_lt ((hafter d ha).1 (hepref.trans hdpref.symm))⟩
        · intro d hd hsame hlt
          rcases hcases d hd with hb | rfl | ha
          · exact ensured_cases d (hbefore d hb)
          · exact absurd hlt (Nat.lt_irrefl _)
          · have := (hafter d ha).1 hsame.symm
            omega

theorem lost_preference_fails :
    let host : Host := ⟨fun _ => 0, fun _ => ""⟩
    let r : Requirement := ⟨"code", "", ["p"], [], [("isolated", .bool true)]⟩
    let registered : List (String × Provider) := [("p", ⟨["code"], none⟩)]
    let first : Nat → RawProbe := fun _ => some (true, [("isolated", .bool true)])
    let second : Nat → RawProbe := fun _ => some (true, [])
    let e : Eligible := ⟨0, "p", ⟨["code"], none⟩, true⟩
    select_provider host registered r first second = .unavailable ∧
      Passed host registered r first e ∧ Has host r second e = some true := by
  refine ⟨?_, ⟨"p", ?_, ?_⟩, ?_⟩ <;> rfl

end Agently.ProviderSelection
