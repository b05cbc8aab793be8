import Agently.TaskDAG.ValidGraphs
import Agently.Utils.DataLocator
import Agently.Utils.JsonText

/-! # Placeholders in the inputs of a task

Source: `TaskDAG/TaskDAGRuntime.py`. A task's inputs are read with the results of its dependencies
at hand; a placeholder that is a whole text is replaced by a value, one inside a longer text by its
text. -/

namespace Agently.TaskDAGValidation

open Agently.Lib Agently.Utils Agently.DataLocator

/-- The arguments of `_resolve_task_input_placeholders` besides the value. -/
structure PlaceholderData where
  triggerPayload : Value
  initialInput : Value
  executionState : Value
  dependencyResults : List (String × Value)
  taskId : String

def dependencyResults (taskResults : List (String × Value)) :
    List String → List (String × Value) → Option (List (String × Value))
  | [], deps => some deps
  | dependency :: rest, deps =>
    match Dict.get? taskResults dependency with
    | none => none
    | some result => dependencyResults taskResults rest (Dict.set deps dependency result)

mutual

def dumps : Value → Except Fault (List Char)
  | .none => .ok ['n', 'u', 'l', 'l']
  | .bool true => .ok ['t', 'r', 'u', 'e']
  | .bool false => .ok ['f', 'a', 'l', 's', 'e']
  | .int n => .ok (Json.intText n)
  | .str s => .ok (Json.strText s)
  | .list xs => dumpsArray xs
  | .tuple xs => dumpsArray xs
  | .dict [] => .ok [Json.openBrace, Json.closeBrace]
  | .dict ((k, x) :: rest) => do
      let head ← dumps x
      let tail ← dumpsEntries rest
      return Json.openBrace :: (Json.strText k ++ ':' :: ' ' :: (head ++ tail))
  | v => .error (.typeError ("Object of type " ++ typeName v ++ " is not JSON serializable"))

def dumpsArray : List Value → Except Fault (List Char)
  | [] => .ok ['[', ']']
  | x :: rest => do
      let head ← dumps x
      let tail ← dumpsTail rest
      return '[' :: (head ++ tail)

def dumpsTail : List Value → Except Fault (List Char)
  | [] => .ok [']']
  | x :: rest => do
      let head ← dumps x
      let tail ← dumpsTail rest
      return ',' :: ' ' :: (head ++ tail)

def dumpsEntries : List (String × Value) → Except Fault (List Char)
  | [] => .ok [Json.closeBrace]
  | (k, x) :: rest => do
      let head ← dumps x
      let tail ← dumpsEntries rest
      return ',' :: ' ' :: (Json.strText k ++ ':' :: ' ' :: (head ++ tail))

end

def stringifyPlaceholderValue : Value → Except Fault (List Char)
  | .none => .ok ['N', 'o', 'n', 'e']
  | .bool true => .ok ['T', 'r', 'u', 'e']
  | .bool false => .ok ['F', 'a', 'l', 's', 'e']
  | .int n => .ok (Json.intText n)
  | .str s => .ok s.toList
  | .list xs => dumps (.list xs)
  | .tuple xs => dumps (.tuple xs)
  | .dict kvs => dumps (.dict kvs)
  | .empty => .ok Value.emptyText.toList
  | .object text _ => .ok text.toList

inductive Piece where
  | char (c : Char)
  | placeholder (expression : String)

/-- The matches of `_RUNTIME_PLACEHOLDER_RE` from the left, and the characters between them. The
first argument is what has been read since an opening; a match is not empty and ends at the first
closing brace. -/
def scan : Option (List Char) → List Char → List Piece
  | none, [] => []
  | none, [c] => [.char c]
  | none, c :: d :: rest =>
    if c = '$' ∧ d = Json.openBrace then scan (some []) rest
    else .char c :: scan none (d :: rest)
  | some read, [] => ('$' :: Json.openBrace :: read).map .char
  | some read, c :: rest =>
    if c = Json.closeBrace then
      if read = [] then ['$', Json.openBrace, Json.closeBrace].map .char ++ scan none rest
      else .placeholder (String.ofList read) :: scan none rest
    else scan (some (read ++ [c])) rest

def pieces (s : String) : List Piece := scan none s.toList

def Piece.expression? : Piece → Option String
  | .char _ => none
  | .placeholder e => some e

def placeholders (s : String) : List String := (pieces s).filterMap Piece.expression?

/-- `str.upper`, as far as it can give a letter of the names below: besides the ASCII letters
these are the dotless i, the long s and two ligatures with it. -/
def upperChar (c : Char) : List Char :=
  if c.toNat = 0x131 then ['I']
  else if c.toNat = 0x17F then ['S']
  else if c.toNat = 0xFB05 ∨ c.toNat = 0xFB06 then ['S', 'T']
  else [c.toUpper]

def upper (s : String) : String := String.ofList (s.toList.flatMap upperChar)

def rootAndPath (expression : String) : String × String :=
  let text := (strip expression).toList
  (upper (strip (String.ofList (text.takeWhile fun c => c ≠ '.'))),
    strip (String.ofList (text.dropWhile fun c => c ≠ '.').tail))

namespace PlaceholderData

variable (d : PlaceholderData)

def root? (name : String) : Option Value :=
  if name = "INIT" then some d.initialInput
  else if name = "STATE" then some d.executionState
  else if name = "DEPS" then some (.dict d.dependencyResults)
  else if name = "TRIGGER" then some d.triggerPayload
  else none

def unsupported (expression : String) : Fault :=
  .valueError ("Dynamic task '" ++ d.taskId ++ "' has unsupported runtime placeholder '$\x7b" ++
    expression ++ "\x7d'. Use $\x7bINIT...\x7d, $\x7bDEPS...\x7d, $\x7bSTATE...\x7d, or " ++
    "$\x7bTRIGGER...\x7d.")

def unavailable (expression : String) : Fault :=
  .valueError ("Dynamic task '" ++ d.taskId ++ "' runtime placeholder '$\x7b" ++ expression ++
    "\x7d' does not match an available runtime path.")

end PlaceholderData

section Resolving

variable (intOf : String → Option Int) (d : PlaceholderData)

def resolveSingle (expression : String) : Except Fault Value :=
  match d.root? (rootAndPath expression).1 with
  | none => .error (d.unsupported expression)
  | some root =>
    match locatePath intOf (rootAndPath expression).2 root with
    | none => .error (d.unavailable expression)
    | some value => .ok value

def replaceMatch (expression : String) : Except Fault (List Char) := do
  let resolved ← resolveSingle intOf d expression
  stringifyPlaceholderValue resolved

def substitute : List Piece → Except Fault (List Char)
  | [] => .ok []
  | .char c :: rest => do
      let tail ← substitute rest
      return c :: tail
  | .placeholder e :: rest => do
      let head ← replaceMatch intOf d e
      let tail ← substitute rest
      return head ++ tail

def resolveText (s : String) : Except Fault Value :=
  if placeholders s = [] then .ok (.str s)
  else
    match pieces s with
    | [.placeholder e] => resolveSingle intOf d e
    | found => do
        let text ← substitute intOf d found
        return .str (String.ofList text)

mutual

def resolvePlaceholders : Value → Except Fault Value
  | .dict kvs => do
      let resolved ← resolveEntries kvs
      return .dict resolved
  | .list xs => do
      let resolved ← resolveItems xs
      return .list resolved
  | .tuple xs => do
      let resolved ← resolveItems xs
      return .tuple resolved
  | .str s => resolveText intOf d s
  | .none => .ok .none
  | .bool b => .ok (.bool b)
  | .int n => .ok (.int n)
  | .empty => .ok .empty
  | .object text attrs => .ok (.object text attrs)

def resolveItems : List Value → Except Fault (List Value)
  | [] => .ok []
  | x :: rest => do
      let head ← resolvePlaceholders x
      let tail ← resolveItems rest
      return head :: tail

def resolveEntries : List (String × Value) → Except Fault (List (String × Value))
  | [] => .ok []
  | (k, x) :: rest => do
      let head ← resolvePlaceholders x
      let tail ← resolveEntries rest
      return (k, head) :: tail

end

end Resolving

def Piece.render : Piece → List Char
  | .char c => [c]
  | .placeholder e => '$' :: Json.openBrace :: (e.toList ++ [Json.closeBrace])

def render (ps : List Piece) : List Char := ps.flatMap Piece.render

def placeholderText (expression : String) : String :=
  String.ofList (render [.placeholder expression])

def IsExpression (e : String) : Prop := e ≠ "" ∧ Json.closeBrace ∉ e.toList

def Clean : List Piece → Prop
  | [] => True
  | .char c :: rest =>
    (∀ d tail, rest = .char d :: tail → ¬ (c = '$' ∧ d = Json.openBrace)) ∧ Clean rest
  | .placeholder e :: rest => IsExpression e ∧ Clean rest

theorem scan_expression {e : List Char} (h : Json.closeBrace ∉ e) (read rest : List Char) :
    scan (some read) (e ++ Json.closeBrace :: rest) =
      scan (some (read ++ e)) (Json.closeBrace :: rest) := by
  induction e generalizing read with
  | nil => rw [List.append_nil, List.nil_append]
  | cons c e ih =>
    have hc : ¬ c = Json.closeBrace := fun he => h (he ▸ List.mem_cons_self)
    rw [List.cons_append, scan, if_neg hc, ih (fun hm => h (List.mem_cons_of_mem _ hm)),
      List.append_assoc, List.singleton_append]

theorem scan_placeholder {e : String} (h : IsExpression e) (rest : List Char) :
    scan none ('$' :: Json.openBrace :: (e.toList ++ Json.closeBrace :: rest)) =
      .placeholder e :: scan none rest := by
  have hne : e.toList ≠ [] := by
    intro hn
    exact h.1 (String.toList_eq_nil_iff.mp hn)
  rw [scan, if_pos ⟨rfl, rfl⟩, scan_expression h.2, List.nil_append, scan, if_pos rfl, if_neg hne,
    String.ofList_toList]

theorem scan_render {ps : List Piece} (h : Clean ps) : scan none (render ps) = ps := by
  induction ps with
  | nil => rfl
  | cons p rest ih =>
    cases p with
    | char c =>
      obtain ⟨hc, hrest⟩ := h
      have ih := ih hrest
      cases rest with
      | nil => rfl
      | cons q tail =>
        cases q with
        | char d =>
          have hno := hc d tail rfl
          have hr : render (.char c :: .char d :: tail) = c :: d :: render tail := rfl
          have hr' : render (.char d :: tail) = d :: render tail := rfl
          rw [hr'] at ih
          rw [hr, scan, if_neg hno, ih]
        | placeholder e =>
          have hno : ¬ (c = '$' ∧ '$' = Json.openBrace) := fun hd => absurd hd.2 (by decide)
          have hr : render (.char c :: .placeholder e :: tail) =
              c :: '$' :: (Json.openBrace :: (e.toList ++ [Json.closeBrace]) ++ render tail) := rfl
          have hr' : render (.placeholder e :: tail) =
              '$' :: (Json.openBrace :: (e.toList ++ [Json.closeBrace]) ++ render tail) := rfl
          rw [hr'] at ih
          rw [hr, scan, if_neg hno, ih]
    | placeholder e =>
      obtain ⟨he, hrest⟩ := h
      have hr : render (.placeholder e :: rest) =
          '$' :: Json.openBrace :: (e.toList ++ [Json.closeBrace] ++ render rest) := rfl
      rw [hr, List.append_assoc, List.singleton_append, scan_placeholder he, ih hrest]

theorem pieces_render {ps : List Piece} (h : Clean ps) : pieces (String.ofList (render ps)) = ps := by
  rw [pieces, String.toList_ofList, scan_render h]

theorem found_of_mem_scan {e : String} {state : Option (List Char)} {cs : List Char}
    (h : Piece.placeholder e ∈ scan state cs) :
    (IsExpression e ∧ '$' :: Json.openBrace :: (e.toList ++ [Json.closeBrace]) <:+: cs) ∨
      ∃ read x tail, state = some read ∧ cs = x ++ Json.closeBrace :: tail ∧
        Json.closeBrace ∉ x ∧ e.toList = read ++ x ∧ e.toList ≠ [] := by
  induction state, cs using scan.induct with
  | case1 => cases h
  | case2 c =>
    rw [scan] at h
    cases List.mem_singleton.mp h
  | case3 c d rest hopen ih =>
    rw [scan, if_pos hopen] at h
    obtain ⟨rfl, rfl⟩ := hopen
    rcases ih h with ⟨he, hin⟩ | ⟨read, x, tail, hread, rfl, hx, hex, hne⟩
    · exact .inl ⟨he, hin.trans (List.infix_cons (List.infix_cons List.infix_rfl))⟩
    · cases hread
      rw [List.nil_append] at hex
      refine .inl ⟨⟨?_, hex ▸ hx⟩, ?_⟩
      · rintro rfl
        exact hne rfl
      · rw [hex]
        exact ⟨[], tail, by simp⟩
  | case4 c d rest hopen ih =>
    rw [scan, if_neg hopen] at h
    rcases List.mem_cons.mp h with h | h
    · cases h
    · rcases ih h with ⟨he, hin⟩ | ⟨read, x, tail, hread, -⟩
      · exact .inl ⟨he, hin.trans (List.infix_cons List.infix_rfl)⟩
      · cases hread
  | case5 read =>
    rw [scan] at h
    obtain ⟨c, -, hc⟩ := List.mem_map.mp h
    cases hc
  | case6 rest ih =>
    rw [scan, if_pos rfl, if_pos rfl] at h
    rcases List.mem_append.mp h with h | h
    · obtain ⟨c, -, hc⟩ := List.mem_map.mp h
      cases hc
    · rcases ih h with ⟨he, hin⟩ | ⟨read, x, tail, hread, -⟩
      · exact .inl ⟨he, hin.trans (List.infix_cons List.infix_rfl)⟩
      · cases hread
  | case7 read rest hne ih =>
    rw [scan, if_pos rfl, if_neg hne] at h
    rcases List.mem_cons.mp h with h | h
    · cases h
      refine .inr ⟨read, [], rest, rfl, rfl, List.not_mem_nil, ?_, ?_⟩
      · rw [String.toList_ofList, List.append_nil]
      · rw [String.toList_ofList]
        exact hne
    · rcases ih h with ⟨he, hin⟩ | ⟨read, x, tail, hread, -⟩
      · exact .inl ⟨he, hin.trans (List.infix_cons List.infix_rfl)⟩
      · cases hread
  | case8 read c rest hc ih =>
    rw [scan, if_neg hc] at h
    rcases ih h with ⟨he, hin⟩ | ⟨read', x, tail, hread, rfl, hx, hex, hne⟩
    · exact .inl ⟨he, hin.trans (List.infix_cons List.infix_rfl)⟩
    · cases hread
      refine .inr ⟨read, c :: x, tail, rfl, rfl, ?_, ?_, hne⟩
      · intro hm
        rcases List.mem_cons.mp hm with hm | hm
        · exact hc hm.symm
        · exact hx hm
      · rw [hex, List.append_assoc, List.singleton_append]

def NoPlaceholder (s : String) : Prop :=
  ∀ e, IsExpression e → ¬ '$' :: Json.openBrace :: (e.toList ++ [Json.closeBrace]) <:+: s.toList

theorem isExpression_of_mem {s e : String} (h : e ∈ placeholders s) : IsExpression e ∧
    '$' :: Json.openBrace :: (e.toList ++ [Json.closeBrace]) <:+: s.toList := by
  obtain ⟨p, hp, he⟩ := List.mem_filterMap.mp h
  cases p with
  | char c => cases he
  | placeholder e' =>
    cases he
    rcases found_of_mem_scan hp with hin | ⟨read, x, tail, hread, -⟩
    · exact hin
    · cases hread

theorem placeholders_eq_nil {s : String} (h : NoPlaceholder s) : placeholders s = [] := by
  rw [List.eq_nil_iff_forall_not_mem]
  intro e he
  obtain ⟨hexpr, hin⟩ := isExpression_of_mem he
  exact h e hexpr hin

structure Trimmed (s : String) : Prop where
  head : ∀ c ∈ s.toList.head?, isSpace c = false
  last : ∀ c ∈ s.toList.getLast?, isSpace c = false

theorem dropWhile_eq_self {l : List Char} (h : ∀ c ∈ l.head?, isSpace c = false) :
    l.dropWhile isSpace = l := by
  cases l with
  | nil => rfl
  | cons c l => rw [List.dropWhile_cons, h c rfl, if_neg (by simp)]

theorem Trimmed.strip {s : String} (h : Trimmed s) : strip s = s := by
  unfold TaskDAGValidation.strip
  have hlast : s.toList.reverse.dropWhile isSpace = s.toList.reverse := by
    refine dropWhile_eq_self fun c hc => h.last c ?_
    rwa [List.head?_reverse] at hc
  rw [dropWhile_eq_self h.head, hlast, List.reverse_reverse, String.ofList_toList]

theorem Trimmed.dotted {a b : String} (ha : Trimmed a) (hb : Trimmed b) : Trimmed (a ++ "." ++ b) := by
  have hl : (a ++ "." ++ b).toList = a.toList ++ '.' :: b.toList := by simp
  refine ⟨fun c hc => ?_, fun c hc => ?_⟩
  · rw [hl] at hc
    cases hx : a.toList with
    | nil =>
      rw [hx] at hc
      cases hc
      decide
    | cons x xs =>
      rw [hx] at hc
      exact ha.head c (by rw [hx]; exact hc)
  · rw [hl, List.getLast?_append] at hc
    cases hx : b.toList with
    | nil =>
      rw [hx] at hc
      cases hc
      decide
    | cons x xs =>
      rw [hx, List.getLast?_cons_cons, Option.or_of_isSome (by simp)] at hc
      exact hb.last c (by rw [hx]; exact hc)

structure RootText (name : String) : Prop where
  plain : '.' ∉ name.toList ∧ Json.closeBrace ∉ name.toList
  trimmed : Trimmed name

theorem rootAndPath_name {name : String} (h : RootText name) :
    rootAndPath name = (upper name, "") := by
  have htake : name.toList.takeWhile (fun c => c ≠ '.') = name.toList := by
    rw [List.takeWhile_eq_self_iff]
    intro c hc
    exact decide_eq_true fun he => h.plain.1 (he ▸ hc)
  have hdrop : name.toList.dropWhile (fun c => c ≠ '.') = [] := by
    rw [List.dropWhile_eq_nil_iff]
    intro c hc
    exact decide_eq_true fun he => h.plain.1 (he ▸ hc)
  unfold rootAndPath
  simp only [h.trimmed.strip, htake, hdrop, String.ofList_toList]
  rfl

theorem rootAndPath_path {name path : String} (h : RootText name) (hp : Trimmed path) :
    rootAndPath (name ++ "." ++ path) = (upper name, path) := by
  have hl : (name ++ "." ++ path).toList = name.toList ++ '.' :: path.toList := by simp
  have hall : ∀ c ∈ name.toList, decide (c ≠ '.') = true :=
    fun c hc => decide_eq_true fun he => h.plain.1 (he ▸ hc)
  have htake : (name.toList ++ '.' :: path.toList).takeWhile (fun c => c ≠ '.') = name.toList := by
    rw [List.takeWhile_append_of_pos hall]
    simp
  have hdrop : (name.toList ++ '.' :: path.toList).dropWhile (fun c => c ≠ '.') =
      '.' :: path.toList := by
    rw [List.dropWhile_append_of_pos hall]
    simp
  unfold rootAndPath
  simp only [(h.trimmed.dotted hp).strip, hl, htake, hdrop, String.ofList_toList, List.tail_cons,
    h.trimmed.strip, hp.strip]

/-- An expression and what it leads to: a root or the result of a dependency, and the parts of
a path below it. -/
inductive Reads (d : PlaceholderData) : String → Value → List String → Prop
  | root {name : String} {value : Value} (written : RootText name)
      (known : d.root? (upper name) = some value) : Reads d name value []
  | rootPath {name path : String} {value : Value} (written : RootText name)
      (known : d.root? (upper name) = some value) (trimmed : Trimmed path)
      (plain : path ≠ "" ∧ Json.closeBrace ∉ path.toList) :
      Reads d (name ++ "." ++ path) value (StateData.pathOf path)
  | dependency {id : String} {result : Value} (valid : matchesTaskId id = true)
      (undotted : '.' ∉ id.toList) (recorded : Dict.get? d.dependencyResults id = some result) :
      Reads d ("DEPS." ++ id) result []
  | dependencyPath {id path : String} {result : Value} (valid : matchesTaskId id = true)
      (undotted : '.' ∉ id.toList) (recorded : Dict.get? d.dependencyResults id = some result)
      (trimmed : Trimmed path) (plain : Json.closeBrace ∉ path.toList) :
      Reads d ("DEPS." ++ id ++ "." ++ path) result (StateData.pathOf path)

theorem isIdChar_of_matches {id : String} (h : matchesTaskId id = true) :
    id.toList ≠ [] ∧ ∀ c ∈ id.toList, isIdChar c = true := by
  unfold matchesTaskId at h
  cases hl : id.toList with
  | nil =>
    rw [hl] at h
    cases h
  | cons c cs =>
    rw [hl] at h
    obtain ⟨hc, hcs⟩ := Bool.and_eq_true_iff.mp h
    refine ⟨by simp, fun x hx => ?_⟩
    rcases List.mem_cons.mp hx with rfl | hx
    · unfold isIdHead at hc
      unfold isIdChar
      simp only [Bool.or_eq_true] at hc ⊢
      rcases hc with hc | hc
      · simp [Char.isAlphanum, hc]
      · simp [hc]
    · exact List.all_eq_true.mp hcs x hx

theorem isIdChar_plain {c : Char} (h : isIdChar c = true) :
    isSpace c = false ∧ c ≠ '[' ∧ c ≠ Json.closeBrace := by
  unfold isIdChar at h
  simp only [Bool.or_eq_true, beq_iff_eq] at h
  rcases h with ((h | rfl) | rfl) | rfl
  · have hr := alphanum_range h
    refine ⟨isSpace_of_alphanum h, ?_, ?_⟩
    · rintro rfl
      revert hr
      decide
    · rintro rfl
      revert hr
      decide
  all_goals decide

theorem trimmed_of_matches {id : String} (h : matchesTaskId id = true) : Trimmed id := by
  have hall := (isIdChar_of_matches h).2
  exact ⟨fun c hc => (isIdChar_plain (hall c (List.mem_of_head? hc))).1,
    fun c hc => (isIdChar_plain (hall c (List.mem_of_getLast? hc))).1⟩

theorem splitBracket_plain {part : String} (h : '[' ∉ part.toList) : splitBracket part = none :=
  if_neg h

theorem splitBracket_of_matches {id : String} (h : matchesTaskId id = true) :
    splitBracket id = none :=
  splitBracket_plain fun hm => (isIdChar_plain ((isIdChar_of_matches h).2 _ hm)).2.1 rfl

theorem rootText_of_known {name : String} (h : name ∈ ["INIT", "STATE", "DEPS", "TRIGGER"]) :
    RootText name ∧ upper name = name := by
  simp only [List.mem_cons, List.not_mem_nil, or_false] at h
  rcases h with rfl | rfl | rfl | rfl
  all_goals exact ⟨⟨by decide +kernel, trimmed_of_matches (by decide +kernel)⟩, by decide +kernel⟩

theorem deps_dotted (path : String) : "DEPS." ++ path = "DEPS" ++ "." ++ path :=
  congrArg (· ++ path) (by decide +kernel : "DEPS." = "DEPS" ++ ".")

theorem root?_deps (d : PlaceholderData) : d.root? (upper "DEPS") = some (.dict d.dependencyResults) := by
  rw [(@rootText_of_known "DEPS" (by simp)).2]
  rfl

section Resolved

variable {intOf : String → Option Int} {d : PlaceholderData}

def located (intOf : String → Option Int) (d : PlaceholderData) (e : String) (value : Value)
    (parts : List String) : Except Fault Value :=
  match locateParts intOf parts value with
  | none => .error (d.unavailable e)
  | some found => .ok found

variable {e : String}

theorem resolveSingle_root {name path : String} {value : Value}
    (h : rootAndPath e = (upper name, path)) (known : d.root? (upper name) = some value)
    (hp : path ≠ "") :
    resolveSingle intOf d e = located intOf d e value (StateData.pathOf path) := by
  unfold resolveSingle
  simp only [h, known, locatePath, if_neg hp]
  rfl

variable {parts : List String}

theorem resolveSingle_deps {id rest : String} {result : Value} (hid : matchesTaskId id = true)
    (hrec : Dict.get? d.dependencyResults id = some result)
    {path : String} (htrim : Trimmed path)
    (hparts : StateData.pathOf path = id :: parts) (hne : path ≠ "") (he : rest = "DEPS." ++ path) :
    resolveSingle intOf d rest = located intOf d rest result parts := by
  have hr : rootAndPath rest = (upper "DEPS", path) := by
    rw [he, deps_dotted]
    exact rootAndPath_path (rootText_of_known (by simp)).1 htrim
  rw [resolveSingle_root hr (root?_deps d) hne, located, located, hparts, locateParts,
    splitBracket_of_matches hid]
  simp only [lookup?, hrec, Option.bind_some]

theorem resolveSingle_reads {value : Value}
    (h : Reads d e value parts) : resolveSingle intOf d e = located intOf d e value parts := by
  cases h with
  | @root name _ written known =>
    have hl : locatePath intOf "" value = some value := if_pos rfl
    unfold resolveSingle
    simp only [rootAndPath_name written, known, hl, located, locateParts]
  | rootPath written known trimmed plain =>
    exact resolveSingle_root (rootAndPath_path written trimmed) known plain.1
  | @dependency id _ valid undotted recorded =>
    refine resolveSingle_deps valid recorded (trimmed_of_matches valid)
      (StateData.pathOf_plain undotted) ?_ rfl
    rintro rfl
    exact (isIdChar_of_matches valid).1 rfl
  | @dependencyPath id path _ valid undotted recorded trimmed plain =>
    have hparts : StateData.pathOf (id ++ "." ++ path) = id :: StateData.pathOf path := by
      rw [StateData.pathOf_append, StateData.pathOf_plain undotted]
      rfl
    refine resolveSingle_deps valid recorded
      ((trimmed_of_matches valid).dotted trimmed) hparts ?_ ?_
    · intro hn
      have hlen := congrArg String.length hn
      simp at hlen
    · simp [String.append_assoc]

theorem isExpression_of_reads {value : Value} (h : Reads d e value parts) : IsExpression e := by
  have hname : ∀ {name : String} {v : Value}, d.root? (upper name) = some v → name ≠ "" := by
    rintro name v hk rfl
    have hu : upper "" = "" := by decide +kernel
    rw [hu] at hk
    cases hk
  have hdotted : ∀ {a b : String}, Json.closeBrace ∉ a.toList → Json.closeBrace ∉ b.toList →
      IsExpression (a ++ "." ++ b) := by
    intro a b ha hb
    refine ⟨fun hn => ?_, fun hm => ?_⟩
    · have hlen := congrArg String.length hn
      simp at hlen
    · simp only [String.toList_append, List.mem_append] at hm
      rcases hm with (hm | hm) | hm
      · exact ha hm
      · exact absurd hm (by decide)
      · exact hb hm
  have hplain : ∀ {id : String}, matchesTaskId id = true → Json.closeBrace ∉ id.toList :=
    fun hid hm => (isIdChar_plain ((isIdChar_of_matches hid).2 _ hm)).2.2 rfl
  have hdeps : Json.closeBrace ∉ "DEPS".toList := by decide
  cases h with
  | root written known => exact ⟨hname known, written.plain.2⟩
  | rootPath written known trimmed plain => exact hdotted written.plain.2 plain.2
  | dependency valid undotted recorded =>
    rw [deps_dotted]
    exact hdotted hdeps (hplain valid)
  | dependencyPath valid undotted recorded trimmed plain =>
    rw [deps_dotted]
    exact hdotted (hdotted hdeps (hplain valid)).2 plain

theorem clean_single (h : IsExpression e) : Clean [.placeholder e] := ⟨h, trivial⟩

theorem resolve_placeholder (h : IsExpression e) :
    resolvePlaceholders intOf d (.str (placeholderText e)) = resolveSingle intOf d e := by
  have hp : pieces (placeholderText e) = [.placeholder e] := pieces_render (clean_single h)
  rw [resolvePlaceholders, resolveText, placeholders, hp]
  exact if_neg (by simp [Piece.expression?])

inductive Filled (intOf : String → Option Int) (d : PlaceholderData) :
    List Piece → List Char → Prop
  | nil : Filled intOf d [] []
  | char (c : Char) {rest : List Piece} {text : List Char} (tail : Filled intOf d rest text) :
      Filled intOf d (.char c :: rest) (c :: text)
  | placeholder {e : String} {value : Value} {head text : List Char} {rest : List Piece}
      (found : resolveSingle intOf d e = .ok value)
      (written : stringifyPlaceholderValue value = .ok head) (tail : Filled intOf d rest text) :
      Filled intOf d (.placeholder e :: rest) (head ++ text)

variable {ps : List Piece}

theorem substitute_iff {text : List Char} :
    substitute intOf d ps = .ok text ↔ Filled intOf d ps text := by
  induction ps generalizing text with
  | nil =>
    constructor
    · intro h
      cases h
      exact .nil
    · intro h
      cases h
      rfl
  | cons p rest ih =>
    cases p with
    | char c =>
      rw [substitute, bind_eq_ok]
      constructor
      · rintro ⟨tail, ht, h⟩
        cases h
        exact .char c (ih.mp ht)
      · intro h
        cases h with
        | char _ tail => exact ⟨_, ih.mpr tail, rfl⟩
    | placeholder e =>
      rw [substitute, bind_eq_ok]
      constructor
      · rintro ⟨head, hh, h⟩
        obtain ⟨tail, ht, h⟩ := bind_eq_ok.mp h
        obtain ⟨value, hv, hw⟩ := bind_eq_ok.mp hh
        cases h
        exact .placeholder hv hw (ih.mp ht)
      · intro h
        cases h with
        | placeholder found written tail =>
          exact ⟨_, bind_eq_ok.mpr ⟨_, found, written⟩,
            bind_eq_ok.mpr ⟨_, ih.mpr tail, rfl⟩⟩

theorem filled_of_none (h : ps.filterMap Piece.expression? = []) (text : List Char) :
    Filled intOf d ps text ↔ text = render ps := by
  induction ps generalizing text with
  | nil =>
    constructor
    · intro hf
      cases hf
      rfl
    · rintro rfl
      exact .nil
  | cons p rest ih =>
    cases p with
    | placeholder e => cases h
    | char c =>
      have hr : render (.char c :: rest) = c :: render rest := rfl
      rw [hr]
      constructor
      · intro hf
        cases hf with
        | char _ tail => rw [(ih h _).mp tail]
      · rintro rfl
        exact .char c ((ih h _).mpr rfl)

theorem resolve_pieces (h : Clean ps) (hlong : ∀ e, ps ≠ [.placeholder e])
    (w : Value) : resolvePlaceholders intOf d (.str (String.ofList (render ps))) = .ok w ↔
      ∃ text, w = .str (String.ofList text) ∧ Filled intOf d ps text := by
  rw [resolvePlaceholders, resolveText, placeholders, pieces_render h]
  by_cases hnone : ps.filterMap Piece.expression? = []
  · rw [if_pos hnone]
    constructor
    · intro hw
      cases hw
      exact ⟨render ps, rfl, (filled_of_none hnone _).mpr rfl⟩
    · rintro ⟨text, rfl, hf⟩
      rw [(filled_of_none hnone _).mp hf]
  · rw [if_neg hnone]
    have hmatch : (match ps with
        | [.placeholder e] => resolveSingle intOf d e
        | found => do
            let text ← substitute intOf d found
            return Value.str (String.ofList text)) = (do
        let text ← substitute intOf d ps
        return Value.str (String.ofList text)) := by
      cases ps with
      | nil => rfl
      | cons p rest =>
        cases p with
        | char c => rfl
        | placeholder e =>
          cases rest with
          | nil => exact absurd rfl (hlong e)
          | cons q rest => rfl
    refine (Eq.congr_left hmatch).trans ?_
    rw [bind_eq_ok]
    constructor
    · rintro ⟨text, ht, hw⟩
      cases hw
      exact ⟨text, rfl, substitute_iff.mp ht⟩
    · rintro ⟨text, rfl, hf⟩
      exact ⟨text, substitute_iff.mpr hf, rfl⟩

theorem resolveItems_iff {xs ys : List Value} : resolveItems intOf d xs = .ok ys ↔
    List.Forall₂ (fun x y => resolvePlaceholders intOf d x = .ok y) xs ys := by
  induction xs generalizing ys with
  | nil =>
    rw [resolveItems, List.forall₂_nil_left_iff]
    constructor
    · intro h
      cases h
      rfl
    · rintro rfl
      rfl
  | cons x xs ih =>
    rw [resolveItems, bind_eq_ok]
    constructor
    · rintro ⟨y, hy, h⟩
      obtain ⟨zs, hz, h⟩ := bind_eq_ok.mp h
      cases h
      exact .cons hy (ih.mp hz)
    · intro h
      cases h with
      | cons hy hys => exact ⟨_, hy, bind_eq_ok.mpr ⟨_, ih.mpr hys, rfl⟩⟩

theorem resolveEntries_iff {xs ys : List (String × Value)} : resolveEntries intOf d xs = .ok ys ↔
    List.Forall₂ (fun p q => q.1 = p.1 ∧ resolvePlaceholders intOf d p.2 = .ok q.2) xs ys := by
  induction xs generalizing ys with
  | nil =>
    rw [resolveEntries, List.forall₂_nil_left_iff]
    constructor
    · intro h
      cases h
      rfl
    · rintro rfl
      rfl
  | cons p xs ih =>
    obtain ⟨k, x⟩ := p
    rw [resolveEntries, bind_eq_ok]
    constructor
    · rintro ⟨y, hy, h⟩
      obtain ⟨zs, hz, h⟩ := bind_eq_ok.mp h
      cases h
      exact .cons ⟨rfl, hy⟩ (ih.mp hz)
    · intro h
      cases h with
      | @cons _ q _ qs hq hqs =>
        obtain ⟨hk, hy⟩ := hq
        refine ⟨_, hy, bind_eq_ok.mpr ⟨_, ih.mpr hqs, ?_⟩⟩
        exact congrArg (fun e => Except.ok (e :: qs)) (Prod.ext hk.symm rfl)

theorem bind_eq_error {α β : Type} {x : Except Fault α} {f : α → Except Fault β} {e : Fault} :
    (x >>= f) = .error e ↔ x = .error e ∨ ∃ a, x = .ok a ∧ f a = .error e := by
  cases x with
  | error e' => simp [bind, Except.bind]
  | ok a => simp [bind, Except.bind]

mutual

def jsonLike : Value → Bool
  | .list xs => jsonLikeList xs
  | .tuple xs => jsonLikeList xs
  | .dict kvs => jsonLikeEntries kvs
  | .empty => false
  | .object _ _ => false
  | _ => true

def jsonLikeList : List Value → Bool
  | [] => true
  | x :: rest => jsonLike x && jsonLikeList rest

def jsonLikeEntries : List (String × Value) → Bool
  | [] => true
  | (_, x) :: rest => jsonLike x && jsonLikeEntries rest

end

mutual

theorem dumps_ok : (v : Value) → jsonLike v = true → ∃ text, dumps v = .ok text
  | .none, _ => ⟨_, by rw [dumps]⟩
  | .bool true, _ => ⟨_, by rw [dumps]⟩
  | .bool false, _ => ⟨_, by rw [dumps]⟩
  | .int n, _ => ⟨_, by rw [dumps]⟩
  | .str s, _ => ⟨_, by rw [dumps]⟩
  | .list xs, h => by
      rw [jsonLike] at h
      rw [dumps]
      exact dumpsArray_ok xs h
  | .tuple xs, h => by
      rw [jsonLike] at h
      rw [dumps]
      exact dumpsArray_ok xs h
  | .dict [], _ => ⟨_, by rw [dumps]⟩
  | .dict ((k, x) :: rest), h => by
      rw [jsonLike, jsonLikeEntries, Bool.and_eq_true] at h
      obtain ⟨head, hh⟩ := dumps_ok x h.1
      obtain ⟨tail, ht⟩ := dumpsEntries_ok rest h.2
      exact ⟨_, by rw [dumps]; exact bind_eq_ok.mpr ⟨head, hh, bind_eq_ok.mpr ⟨tail, ht, rfl⟩⟩⟩

theorem dumpsArray_ok : (xs : List Value) → jsonLikeList xs = true → ∃ text, dumpsArray xs = .ok text
  | [], _ => ⟨_, by rw [dumpsArray]⟩
  | x :: rest, h => by
      rw [jsonLikeList, Bool.and_eq_true] at h
      obtain ⟨head, hh⟩ := dumps_ok x h.1
      obtain ⟨tail, ht⟩ := dumpsTail_ok rest h.2
      exact ⟨_, by rw [dumpsArray]; exact bind_eq_ok.mpr ⟨head, hh, bind_eq_ok.mpr ⟨tail, ht, rfl⟩⟩⟩

theorem dumpsTail_ok : (xs : List Value) → jsonLikeList xs = true → ∃ text, dumpsTail xs = .ok text
  | [], _ => ⟨_, by rw [dumpsTail]⟩
  | x :: rest, h => by
      rw [jsonLikeList, Bool.and_eq_true] at h
      obtain ⟨head, hh⟩ := dumps_ok x h.1
      obtain ⟨tail, ht⟩ := dumpsTail_ok rest h.2
      exact ⟨_, by rw [dumpsTail]; exact bind_eq_ok.mpr ⟨head, hh, bind_eq_ok.mpr ⟨tail, ht, rfl⟩⟩⟩

theorem dumpsEntries_ok : (kvs : List (String × Value)) → jsonLikeEntries kvs = true →
    ∃ text, dumpsEntries kvs = .ok text
  | [], _ => ⟨_, by rw [dumpsEntries]⟩
  | (k, x) :: rest, h => by
      rw [jsonLikeEntries, Bool.and_eq_true] at h
      obtain ⟨head, hh⟩ := dumps_ok x h.1
      obtain ⟨tail, ht⟩ := dumpsEntries_ok rest h.2
      exact ⟨_, by rw [dumpsEntries]; exact bind_eq_ok.mpr ⟨head, hh, bind_eq_ok.mpr ⟨tail, ht, rfl⟩⟩⟩

end

variable {f : Fault}

theorem jsonLike_of_error {v : Value} (h : stringifyPlaceholderValue v = .error f) :
    jsonLike v = false := by
  have hno : dumps v = .error f → jsonLike v = false := by
    intro hd
    rw [← Bool.not_eq_true]
    intro hj
    obtain ⟨text, ht⟩ := dumps_ok v hj
    rw [hd] at ht
    cases ht
  cases v with
  | list xs => exact hno h
  | tuple xs => exact hno h
  | dict kvs => exact hno h
  | none => cases h
  | bool b => cases b <;> cases h
  | int n => cases h
  | str s => cases h
  | empty => cases h
  | object text attrs => cases h

/-- What resolving the placeholder `e` of the text `s` raises. -/
inductive Raises (intOf : String → Option Int) (d : PlaceholderData) (s e : String) : Fault → Prop
  | unsupported (unknown : d.root? (rootAndPath e).1 = none) :
      Raises intOf d s e (d.unsupported e)
  | unavailable {root : Value} (known : d.root? (rootAndPath e).1 = some root)
      (path : (rootAndPath e).2 ≠ "")
      (missing : ∀ w, ¬ SubValue intOf (StateData.pathOf (rootAndPath e).2) root w) :
      Raises intOf d s e (d.unavailable e)
  | unwritten {value : Value} {f : Fault} (inside : pieces s ≠ [.placeholder e])
      (found : resolveSingle intOf d e = .ok value)
      (fault : stringifyPlaceholderValue value = .error f) (other : jsonLike value = false) :
      Raises intOf d s e f

theorem raises_of_single {s : String} (h : resolveSingle intOf d e = .error f) :
    Raises intOf d s e f := by
  unfold resolveSingle at h
  cases hk : d.root? (rootAndPath e).1 with
  | none =>
    rw [hk] at h
    cases h
    exact .unsupported hk
  | some root =>
    rw [hk] at h
    simp only at h
    cases hl : locatePath intOf (rootAndPath e).2 root with
    | some value =>
      rw [hl] at h
      cases h
    | none =>
      rw [hl] at h
      cases h
      have hp : (rootAndPath e).2 ≠ "" := by
        intro hp
        rw [locatePath, if_pos hp] at hl
        cases hl
      rw [locatePath, if_neg hp] at hl
      exact .unavailable hk hp (locateParts_none hl)

theorem raises_of_substitute {s : String}
    (h : substitute intOf d ps = .error f) (hinside : ∀ e, pieces s ≠ [.placeholder e]) :
    ∃ e ∈ ps.filterMap Piece.expression?, Raises intOf d s e f := by
  induction ps with
  | nil => cases h
  | cons p rest ih =>
    cases p with
    | char c =>
      rw [substitute, bind_eq_error] at h
      rcases h with h | ⟨tail, -, h⟩
      · exact ih h
      · cases h
    | placeholder e =>
      rw [substitute, bind_eq_error] at h
      rcases h with h | ⟨head, -, h⟩
      · refine ⟨e, List.mem_cons_self, ?_⟩
        rw [replaceMatch, bind_eq_error] at h
        rcases h with h | ⟨value, hv, hw⟩
        · exact raises_of_single h
        · exact .unwritten (hinside e) hv hw (jsonLike_of_error hw)
      · rw [bind_eq_error] at h
        rcases h with h | ⟨tail, -, h⟩
        · obtain ⟨e', he', hr⟩ := ih h
          exact ⟨e', List.mem_cons_of_mem _ he', hr⟩
        · cases h

theorem raises_of_text {s : String} (h : resolveText intOf d s = .error f) :
    ∃ e ∈ placeholders s, Raises intOf d s e f := by
  unfold resolveText at h
  by_cases hnone : placeholders s = []
  · rw [if_pos hnone] at h
    cases h
  · rw [if_neg hnone] at h
    by_cases hone : ∃ e, pieces s = [.placeholder e]
    · obtain ⟨e, he⟩ := hone
      rw [he] at h
      refine ⟨e, ?_, raises_of_single h⟩
      rw [placeholders, he]
      exact List.mem_singleton_self e
    · split at h
      · rename_i e he
        exact absurd ⟨e, he⟩ hone
      · rw [bind_eq_error] at h
        rcases h with h | ⟨text, -, h⟩
        · exact raises_of_substitute h fun e he => hone ⟨e, he⟩
        · cases h

mutual

def texts : Value → List String
  | .str s => [s]
  | .list xs => textsOfItems xs
  | .tuple xs => textsOfItems xs
  | .dict kvs => textsOfEntries kvs
  | _ => []

def textsOfItems : List Value → List String
  | [] => []
  | x :: rest => texts x ++ textsOfItems rest

def textsOfEntries : List (String × Value) → List String
  | [] => []
  | (_, x) :: rest => texts x ++ textsOfEntries rest

end

def RaisedIn (intOf : String → Option Int) (d : PlaceholderData) (ts : List String) (f : Fault) :
    Prop := ∃ s ∈ ts, ∃ e ∈ placeholders s, Raises intOf d s e f

theorem RaisedIn.mono {ts us : List String} (h : RaisedIn intOf d ts f)
    (hsub : ∀ s ∈ ts, s ∈ us) : RaisedIn intOf d us f := by
  obtain ⟨s, hs, he⟩ := h
  exact ⟨s, hsub s hs, he⟩

mutual

theorem raised_in_value : (v : Value) → {f : Fault} → resolvePlaceholders intOf d v = .error f →
    RaisedIn intOf d (texts v) f
  | .str s, f, h => by
      rw [resolvePlaceholders] at h
      exact ⟨s, by rw [texts]; exact List.mem_singleton_self s, raises_of_text h⟩
  | .list xs, f, h => by
      rw [resolvePlaceholders, bind_eq_error] at h
      rw [texts]
      rcases h with h | ⟨ys, -, h⟩
      · exact raised_in_items xs h
      · cases h
  | .tuple xs, f, h => by
      rw [resolvePlaceholders, bind_eq_error] at h
      rw [texts]
      rcases h with h | ⟨ys, -, h⟩
      · exact raised_in_items xs h
      · cases h
  | .dict kvs, f, h => by
      rw [resolvePlaceholders, bind_eq_error] at h
      rw [texts]
      rcases h with h | ⟨ys, -, h⟩
      · exact raised_in_entries kvs h
      · cases h
  | .none, f, h => by cases h
  | .bool _, f, h => by cases h
  | .int _, f, h => by cases h
  | .empty, f, h => by cases h
  | .object _ _, f, h => by cases h

theorem raised_in_items : (xs : List Value) → {f : Fault} → resolveItems intOf d xs = .error f →
    RaisedIn intOf d (textsOfItems xs) f
  | [], f, h => by cases h
  | x :: rest, f, h => by
      rw [resolveItems, bind_eq_error] at h
      rw [textsOfItems]
      rcases h with h | ⟨y, -, h⟩
      · exact (raised_in_value x h).mono fun s hs => List.mem_append_left _ hs
      · rw [bind_eq_error] at h
        rcases h with h | ⟨ys, -, h⟩
        · exact (raised_in_items rest h).mono fun s hs => List.mem_append_right _ hs
        · cases h

theorem raised_in_entries : (kvs : List (String × Value)) → {f : Fault} →
    resolveEntries intOf d kvs = .error f → RaisedIn intOf d (textsOfEntries kvs) f
  | [], f, h => by cases h
  | (k, x) :: rest, f, h => by
      rw [resolveEntries, bind_eq_error] at h
      rw [textsOfEntries]
      rcases h with h | ⟨y, -, h⟩
      · exact (raised_in_value x h).mono fun s hs => List.mem_append_left _ hs
      · rw [bind_eq_error] at h
        rcases h with h | ⟨ys, -, h⟩
        · exact (raised_in_entries rest h).mono fun s hs => List.mem_append_right _ hs
        · cases h

end

structure ResolvesPlaceholders (intOf : String → Option Int) (d : PlaceholderData) : Prop where
  /-- A text that is a placeholder becomes the value at its path. -/
  replaced : ∀ e value parts, Reads d e value parts → ∀ w,
    resolvePlaceholders intOf d (.str (placeholderText e)) = .ok w ↔ SubValue intOf parts value w
  missing : ∀ e value parts, Reads d e value parts → (∀ w, ¬ SubValue intOf parts value w) →
    resolvePlaceholders intOf d (.str (placeholderText e)) = .error (d.unavailable e)
  /-- Placeholders in a longer text become the texts of their values. -/
  filled : ∀ ps, Clean ps → (∀ e, ps ≠ [.placeholder e]) → ∀ w,
    resolvePlaceholders intOf d (.str (String.ofList (render ps))) = .ok w ↔
      ∃ text, w = .str (String.ofList text) ∧ Filled intOf d ps text
  unchanged : ∀ s, NoPlaceholder s → resolvePlaceholders intOf d (.str s) = .ok (.str s)
  list : ∀ xs w, resolvePlaceholders intOf d (.list xs) = .ok w ↔ ∃ ys, w = .list ys ∧
    List.Forall₂ (fun x y => resolvePlaceholders intOf d x = .ok y) xs ys
  tuple : ∀ xs w, resolvePlaceholders intOf d (.tuple xs) = .ok w ↔ ∃ ys, w = .tuple ys ∧
    List.Forall₂ (fun x y => resolvePlaceholders intOf d x = .ok y) xs ys
  dict : ∀ kvs w, resolvePlaceholders intOf d (.dict kvs) = .ok w ↔ ∃ rvs, w = .dict rvs ∧
    List.Forall₂ (fun p q => q.1 = p.1 ∧ resolvePlaceholders intOf d p.2 = .ok q.2) kvs rvs
  /-- Nothing raises but a placeholder without a value or a text. -/
  raises : ∀ v f, resolvePlaceholders intOf d v = .error f → RaisedIn intOf d (texts v) f

theorem resolvesPlaceholders (intOf : String → Option Int) (d : PlaceholderData) :
    ResolvesPlaceholders intOf d := by
  refine ⟨?_, ?_, fun ps h hlong w => resolve_pieces h hlong w, ?_, ?_, ?_, ?_,
    fun v f h => raised_in_value v h⟩
  · intro e value parts h w
    rw [resolve_placeholder (isExpression_of_reads h), resolveSingle_reads h, located,
      ← locateParts_iff]
    cases locateParts intOf parts value with
    | none => simp
    | some found => simp
  · intro e value parts h hno
    rw [resolve_placeholder (isExpression_of_reads h), resolveSingle_reads h, located]
    cases hl : locateParts intOf parts value with
    | none => rfl
    | some found => exact absurd (locateParts_iff.mp hl) (hno found)
  · intro s h
    rw [resolvePlaceholders, resolveText, if_pos (placeholders_eq_nil h)]
  · intro xs w
    rw [resolvePlaceholders, bind_eq_ok]
    constructor
    · rintro ⟨ys, hy, h⟩
      cases h
      exact ⟨ys, rfl, resolveItems_iff.mp hy⟩
    · rintro ⟨ys, rfl, hy⟩
      exact ⟨ys, resolveItems_iff.mpr hy, rfl⟩
  · intro xs w
    rw [resolvePlaceholders, bind_eq_ok]
    constructor
    · rintro ⟨ys, hy, h⟩
      cases h
      exact ⟨ys, rfl, resolveItems_iff.mp hy⟩
    · rintro ⟨ys, rfl, hy⟩
      exact ⟨ys, resolveItems_iff.mpr hy, rfl⟩
  · intro kvs w
    rw [resolvePlaceholders, bind_eq_ok]
    constructor
    · rintro ⟨rvs, hr, h⟩
      cases h
      exact ⟨rvs, rfl, resolveEntries_iff.mp hr⟩
    · rintro ⟨rvs, rfl, hr⟩
      exact ⟨rvs, resolveEntries_iff.mpr hr, rfl⟩

end Resolved

theorem dependencyResults_spec {taskResults : List (String × Value)} {dependsOn : List String}
    (h : ∀ dep ∈ dependsOn, (Dict.get? taskResults dep).isSome = true)
    (deps : List (String × Value)) :
    ∃ found, dependencyResults taskResults dependsOn deps = some found ∧
      ∀ id, Dict.get? found id = if id ∈ dependsOn then Dict.get? taskResults id
        else Dict.get? deps id := by
  induction dependsOn generalizing deps with
  | nil => exact ⟨deps, rfl, fun id => by simp⟩
  | cons dep rest ih =>
    obtain ⟨result, hr⟩ := Option.isSome_iff_exists.mp (h dep List.mem_cons_self)
    obtain ⟨found, hf, hget⟩ := ih (List.forall_mem_cons.mp h).2
      (Dict.set deps dep result)
    refine ⟨found, ?_, fun id => ?_⟩
    · rw [dependencyResults, hr]
      exact hf
    · rw [hget id]
      by_cases hrest : id ∈ rest
      · rw [if_pos hrest, if_pos (List.mem_cons_of_mem _ hrest)]
      · rw [if_neg hrest, Dict.get?_set]
        by_cases he : dep = id
        · subst he
          rw [if_pos rfl, if_pos List.mem_cons_self, hr]
        · have hno : id ∉ dep :: rest := by
            rintro hm
            rcases List.mem_cons.mp hm with hm | hm
            · exact he hm.symm
            · exact hrest hm
          rw [if_neg he, if_neg hno]

/-- The runner of a validated task resolves its inputs with the results of its dependencies, and
of no other task: those written without a dot in the id are read by `Reads`. -/
theorem task_inputs_resolved (isCallable : Value → Bool) (call : Value → TaskDAGNode → Value)
    (reprOf : Value → String) (intOf : String → Option Int) (r : TaskDAGResolver) (graph : TaskDAG)
    (v : Validation) (h : validateGraph isCallable call reprOf r graph = .ok v)
    (task : TaskDAGNode) (ht : task ∈ v.graph.tasks) (taskResults : List (String × Value))
    (recorded : ∀ dep ∈ task.dependsOn, (Dict.get? taskResults dep).isSome = true)
    (trigger input state : Value) :
    ∃ deps, dependencyResults taskResults task.dependsOn [] = some deps ∧
      (∀ id, Dict.get? deps id = if id ∈ task.dependsOn then Dict.get? taskResults id else none) ∧
      let d : PlaceholderData := ⟨trigger, input, state, deps, task.id⟩
      (∀ dep ∈ task.dependsOn, '.' ∉ dep.toList → ∃ result, Dict.get? taskResults dep = some result ∧
        Reads d ("DEPS." ++ dep) result [] ∧
        ∀ path, Trimmed path → Json.closeBrace ∉ path.toList →
          Reads d ("DEPS." ++ dep ++ "." ++ path) result (StateData.pathOf path)) ∧
      (∀ root ∈ [("INIT", input), ("STATE", state), ("TRIGGER", trigger)], Reads d root.1 root.2 [] ∧
        ∀ path, Trimmed path → path ≠ "" → Json.closeBrace ∉ path.toList →
          Reads d (root.1 ++ "." ++ path) root.2 (StateData.pathOf path)) ∧
      ResolvesPlaceholders intOf d := by
  obtain ⟨deps, hd, hget⟩ := dependencyResults_spec recorded []
  have hvalid := (validated_valid h).1
  refine ⟨deps, hd, hget, ?_, ?_, resolvesPlaceholders intOf _⟩
  · intro dep hdep hdot
    obtain ⟨result, hr⟩ := Option.isSome_iff_exists.mp (recorded dep hdep)
    have hdeps : Dict.get? deps dep = some result := by
      rw [hget, if_pos hdep, hr]
    have hmatch : matchesTaskId dep = true := by
      obtain ⟨t, htm, rfl⟩ := mem_ids.mp (hvalid.known task ht dep hdep)
      exact hvalid.ids t htm
    exact ⟨result, hr, .dependency hmatch hdot hdeps,
      fun path htrim hplain => .dependencyPath hmatch hdot hdeps htrim hplain⟩
  · intro root hroot
    obtain ⟨hname, hknown⟩ : RootText root.1 ∧ PlaceholderData.root?
        ⟨trigger, input, state, deps, task.id⟩ (upper root.1) = some root.2 := by
      simp only [List.mem_cons, List.not_mem_nil, or_false] at hroot
      have hname : RootText root.1 ∧ upper root.1 = root.1 := by
        refine rootText_of_known ?_
        rcases hroot with rfl | rfl | rfl <;> simp
      rw [hname.2]
      rcases hroot with rfl | rfl | rfl <;> exact ⟨hname.1, rfl⟩
    exact ⟨.root hname hknown, fun path htrim hne hplain => .rootPath hname hknown htrim ⟨hne, hplain⟩⟩

def countedGraph : TaskDAG where
  graphId := "counted"
  tasks := [
    { id := "count", kind := "emit" },
    { id := "report", kind := "emit", dependsOn := ["count"],
      inputs := .dict [("total", .str (placeholderText "DEPS.count.total"))] }]

def reportTask : TaskDAGNode :=
  countedGraph.tasks.get ⟨1, by decide⟩

theorem task_inputs_resolved_report : ∃ deps,
    dependencyResults [("count", .dict [("total", .int 7)])] reportTask.dependsOn [] = some deps ∧
    resolvePlaceholders (fun _ => none) ⟨.none, .none, .none, deps, "report"⟩
      (.str (placeholderText "DEPS.count.total")) = .ok (.int 7) := by
  have htasks : (validateGraph noCallables answerNone noText defaultResolver countedGraph).toOption.map
      (fun v => v.graph.tasks) = some countedGraph.tasks := by decide +kernel
  cases hv : validateGraph noCallables answerNone noText defaultResolver countedGraph with
  | error e =>
    rw [hv] at htasks
    cases htasks
  | ok v =>
    rw [hv] at htasks
    have hkept : v.graph.tasks = countedGraph.tasks := Option.some.inj htasks
    have ht : reportTask ∈ v.graph.tasks := by
      rw [hkept]
      exact List.get_mem _ _
    obtain ⟨deps, hd, -, hreads, -, hres⟩ := task_inputs_resolved noCallables answerNone noText
      (fun _ => none) defaultResolver countedGraph v hv reportTask ht
      [("count", .dict [("total", .int 7)])] (by decide) .none .none .none
    obtain ⟨result, hr, -, hpath⟩ := hreads "count" (by decide) (by decide)
    cases hr
    refine ⟨deps, hd, ?_⟩
    have hread := hpath "total" (trimmed_of_matches (by decide +kernel)) (by decide)
    exact (hres.replaced _ _ _ hread (.int 7)).mpr
      (.key (by decide) rfl (.root _))

theorem state_placeholder_replaced :
    ¬ ∀ (d : PlaceholderData) (s : String),
      (∀ e ∈ placeholders s, (rootAndPath e).1 ≠ "DEPS" ∧ (rootAndPath e).1 ≠ "INIT") →
        resolvePlaceholders (fun _ => none) d (.str s) = .ok (.str s) := by
  intro hall
  have hsame := hall ⟨.none, .none, .dict [("graph_id", .str "counted")], [], "report"⟩
    (placeholderText "STATE.graph_id") (by decide +kernel)
  have hfound : (resolvePlaceholders (fun _ => none)
      ⟨.none, .none, .dict [("graph_id", .str "counted")], [], "report"⟩
      (.str (placeholderText "STATE.graph_id"))).toOption = some (.str "counted") := by decide +kernel
  rw [hsame] at hfound
  exact absurd hfound (by decide +kernel)

end Agently.TaskDAGValidation
