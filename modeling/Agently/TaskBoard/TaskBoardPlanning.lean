import Mathlib
import Agently.Lib.FreshNames
import Agently.TaskBoard.TaskBoardValidation
import Agently.Utils.IntText

/-! # Cards from planning items

Source: `TaskBoard/TaskBoardPlanning.py`. Ids are texts, lists of characters, until they are put
into a card. -/

namespace Agently.TaskBoard.Planning

open Agently.Lib Agently.Utils Agently.Utils.IntText
open Agently.TaskDAGValidation (Fault typeName get orElse strOf)

abbrev Text := List Char

def isSeparator (c : Char) : Bool := c == '.' || c == '_' || c == '-'

def stripSeparators (t : Text) : Text := (t.dropWhile isSeparator).rdropWhile isSeparator

/-- One character of `_slugify_taskboard_card_id`: the characters so far, and whether the last
one separates. -/
def slugStep (s : Text × Bool) (c : Char) : Text × Bool :=
  if c.isAlphanum then (s.1 ++ [c.toLower], false)
  else if !s.1.isEmpty && !s.2 then (s.1 ++ [if isSeparator c then c else '_'], true)
  else s

def slugify_taskboard_card_id (text : Text) : Text :=
  stripSeparators ((strip text).foldl slugStep ([], false)).1

def sliceTo (n : Int) (t : Text) : Text :=
  if 0 ≤ n then t.take n.toNat else t.take (t.length - (-n).toNat)

def cardNumber (index : Nat) : Text := "card_".toList ++ natText (index + 1)

def orText (t other : Text) : Text := if t = [] then other else t

def suffixText (suffix : Nat) : Text := '_' :: natText suffix

def numbered (base : Text) (index suffix : Nat) : Text :=
  orText
    (stripSeparators
      (sliceTo (72 - ((suffixText suffix).length : Int)) base ++ suffixText suffix))
    (cardNumber index ++ suffixText suffix)

section Host

variable (reprOf : Value → String)

def cleanText (value : Value) : Text := strip (strOf reprOf (orElse value (.str ""))).toList

def rawId (item : List (String × Value)) : Text :=
  cleanText reprOf (orElse (get item "id") (get item "card_id"))

def basisOf (item : List (String × Value)) : Text :=
  orText (cleanText reprOf (get item "objective"))
    (orText (cleanText reprOf (get item "action_block"))
      (orText (cleanText reprOf (get item "done_when")) "card".toList))

def baseOf (item : List (String × Value)) (index : Nat) : Text :=
  let raw_id := rawId reprOf item
  let base :=
    if raw_id ≠ [] then slugify_taskboard_card_id raw_id
    else cardNumber index ++
      '_' :: orText (slugify_taskboard_card_id (basisOf reprOf item)) "card".toList
  orText (stripSeparators ((orText base (cardNumber index)).take 72)) (cardNumber index)

def canonical_taskboard_card_id (item : List (String × Value)) (index : Nat)
    (used_ids : List Text) : Text :=
  let base := baseOf reprOf item index
  FreshNames.firstFree used_ids (numbered base index) (used_ids.length + 1) 2 base

structure Prepared where
  item : List (String × Value)
  raw_id : Text
  canonical_id : Text

def prepareFrom (index : Nat) (used_ids : List Text) :
    List (List (String × Value)) → List Prepared
  | [] => []
  | item :: rest =>
    let canonical_id := canonical_taskboard_card_id reprOf item index used_ids
    ⟨item, rawId reprOf item, canonical_id⟩ ::
      prepareFrom (index + 1) (canonical_id :: used_ids) rest

def prepare (items : List (List (String × Value))) : List Prepared := prepareFrom reprOf 0 [] items

def rawCount (prepared : List Prepared) (raw_id : Text) : Nat :=
  (prepared.filter fun p => p.raw_id ≠ [] ∧ p.raw_id = raw_id).length

def uniqueRawIds (prepared : List Prepared) : Dict Text Text :=
  (prepared.filter fun p => p.raw_id ≠ [] ∧ rawCount prepared p.raw_id = 1).map fun p =>
    (p.raw_id, p.canonical_id)

def canonicalIds (prepared : List Prepared) : List Text := prepared.map Prepared.canonical_id

def hasSlug (slug : Text) (p : Prepared) : Bool :=
  slug ≠ [] && (slugify_taskboard_card_id p.raw_id = slug ||
    slugify_taskboard_card_id p.canonical_id = slug)

def slugTargets (prepared : List Prepared) (slug : Text) : List Text :=
  ((prepared.filter (hasSlug slug)).map Prepared.canonical_id).dedup

def uniqueSlug (prepared : List Prepared) (slug : Text) : Option Text :=
  match slugTargets prepared slug with
  | [target] => some target
  | _ => none

def keepNew (result : List Text) (text : Text) : List Text :=
  if text ≠ [] ∧ text ∉ result then result ++ [text] else result

def strList : Value → List Text
  | .none => []
  | .list xs | .tuple xs => xs.foldl (fun result v => keepNew result (strip (strOf reprOf v).toList)) []
  | v => keepNew [] (strip (strOf reprOf v).toList)

def resolve (prepared : List Prepared) (dependency : Text) : Except Fault Text :=
  if 1 < rawCount prepared dependency then
    raise ("TaskBoard planning dependency '" ++ String.ofList dependency ++
      "' is ambiguous because multiple cards used that id hint.")
  else
    match (uniqueRawIds prepared).get? dependency with
    | some canonical => .ok canonical
    | none =>
      if dependency ∈ canonicalIds prepared then .ok dependency
      else .ok ((uniqueSlug prepared (slugify_taskboard_card_id dependency)).getD dependency)

def resolveAll (prepared : List Prepared) : List Text → List Text → Except Fault (List Text)
  | result, [] => .ok result
  | result, dependency :: rest =>
    match resolve prepared dependency with
    | .error e => .error e
    | .ok canonical => resolveAll prepared (keepNew result canonical) rest

def canonical_taskboard_dependencies (prepared : List Prepared) (value : Value) :
    Except Fault (List Text) :=
  resolveAll prepared [] (strList reprOf value)

def textValue (t : Text) : Value := .str (String.ofList t)

def texts (ts : List Text) : List String := ts.map String.ofList

def planning_action_command (card_id : String) (index : Nat) : Value → Except Fault Value
  | .dict raw =>
    let action_id := cleanText reprOf (get raw "action_id")
    if action_id = [] then
      raise ("TaskBoard planning card '" ++ card_id ++ "' action_commands[" ++ toString index ++
        "] requires action_id.")
    else
      match get raw "action_input" with
      | .dict input => .ok (.dict
          [("purpose", textValue (strip (strOf reprOf (orElse (get raw "purpose")
              (textValue ("Use ".toList ++ action_id)))).toList)),
            ("action_id", textValue action_id), ("action_input", .dict input)])
      | _ => .error (.typeError ("TaskBoard planning card '" ++ card_id ++ "' action_commands[" ++
          toString index ++ "] action_input must be a mapping."))
  | _ => .error (.typeError ("TaskBoard planning card '" ++ card_id ++ "' action_commands[" ++
      toString index ++ "] must be a mapping."))

def planning_action_commands_from (card_id : String) :
    Nat → List Value → Except Fault (List Value)
  | _, [] => .ok []
  | index, v :: rest => do
      let command ← planning_action_command reprOf card_id index v
      let commands ← planning_action_commands_from card_id (index + 1) rest
      pure (command :: commands)

def planning_action_commands (card_id : String) : Value → Except Fault (List Value)
  | .none => .ok []
  | .list xs | .tuple xs => planning_action_commands_from reprOf card_id 0 xs
  | _ => .error (.typeError ("TaskBoard planning card '" ++ card_id ++
      "' action_commands must be a sequence."))

def entryOf (key : String) (value : Value) : List (String × Value) :=
  if value.truthy then [(key, value)] else []

def scopedRetrieval : Value → List (String × Value)
  | .dict kvs => [("scoped_retrieval", .dict kvs)]
  | _ => []

def card_from_planning_item (prepared : List Prepared) (item : List (String × Value))
    (card_id : Text) (card_index : Nat) : Except Fault TaskBoardCard := do
  let id := String.ofList card_id
  let objective := cleanText reprOf (orElse (get item "objective") (get item "goal"))
  if objective = [] then
    raise ("TaskBoard planning card '" ++ id ++ "' requires non-empty objective.")
  else do
    let evidence_to_use := texts (strList reprOf (get item "evidence_to_use"))
    let action_block := textValue (cleanText reprOf (get item "action_block"))
    let done_when := cleanText reprOf (get item "done_when")
    let failure_policy := failurePolicyOf reprOf (get item "failure_policy")
    let action_commands ← planning_action_commands reprOf id (get item "action_commands")
    let shape := String.ofList (strip (strOf reprOf (orElse (get item "allowed_execution_shape")
      (.str "auto"))).toList)
    let overridden := !action_commands.isEmpty && dashed (lower shape) ≠ "actions"
    let raw_id := rawId reprOf item
    -- both mappings end with the same optional entries
    let commands := entryOf "action_commands" (.list action_commands)
    let before := entryOf "preflight_kind" (textValue (cleanText reprOf (get item "preflight_kind"))) ++
      entryOf "requires_capability_ids"
        (textList (texts (strList reprOf (get item "requires_capability_ids"))))
    let after := entryOf "requires_task_workspace_refs"
        (textList (texts (strList reprOf (get item "requires_task_workspace_refs")))) ++
      entryOf "final_task_workspace_deliverables"
        (textList (texts (strList reprOf (get item "final_task_workspace_deliverables")))) ++
      entryOf "focus_item_ids" (textList (texts (strList reprOf (get item "focus_item_ids")))) ++
      scopedRetrieval (get item "scoped_retrieval")
    let depends_on ← canonical_taskboard_dependencies reprOf prepared (get item "depends_on")
    pure
      { id := id
        objective := String.ofList objective
        dependsOn := texts depends_on
        inputRefs := evidence_to_use
        requiredOutputs := if done_when = [] then [] else [String.ofList done_when]
        allowedExecutionShape := if overridden then "actions" else shape
        evidenceContract :=
          [("action_block", action_block), ("evidence_to_use", textList evidence_to_use),
            ("done_when", textValue done_when), ("failure_policy", .str failure_policy)] ++
            before ++ commands ++ after
        failurePolicy := failure_policy
        metadata :=
          [("action_block", action_block), ("done_when", textValue done_when),
            ("failure_policy", .str failure_policy), ("planning_card_index", .int card_index)] ++
            (if raw_id ≠ [] ∧ raw_id ≠ card_id then [("planning_id_hint", textValue raw_id)] else []) ++
            before ++ commands ++
            (if overridden then
              [("declared_execution_shape", .str shape),
                ("execution_shape_normalization",
                  .str "exact_action_commands_override_generic_shape_hint")]
            else []) ++ after }

def cardsFrom (prepared : List Prepared) : Nat → List Prepared → Except Fault (List TaskBoardCard)
  | _, [] => .ok []
  | index, p :: rest =>
    match card_from_planning_item reprOf prepared p.item p.canonical_id index with
    | .error e => .error e
    | .ok card =>
      match cardsFrom prepared (index + 1) rest with
      | .error e => .error e
      | .ok cards => .ok (card :: cards)

def mappings : List Value → Except Fault (List (List (String × Value)))
  | [] => .ok []
  | .dict kvs :: rest =>
    match mappings rest with
    | .error e => .error e
    | .ok items => .ok (kvs :: items)
  | v :: _ => .error (.typeError ("TaskBoard planning card must be a mapping, got: <class '" ++
      typeName v ++ "'>."))

inductive Diagnostic where
  /-- `taskboard.planning_card_id_canonicalized` -/
  | canonicalized (card_index : Nat) (id_hint canonical_id : Text)
  /-- `taskboard.planning_card_id_hint_ambiguous`, with the ids in order -/
  | ambiguous (id_hints : List Text)

def duplicateRawIds (prepared : List Prepared) : List Text :=
  (((prepared.map Prepared.raw_id).filter fun raw_id => 1 < rawCount prepared raw_id).dedup).mergeSort
    fun a b => decide (a ≤ b)

def diagnosticsOf (prepared : List Prepared) : List Diagnostic :=
  (prepared.zipIdx.filterMap fun p =>
    if p.1.raw_id ≠ p.1.canonical_id then
      some (.canonicalized p.2 p.1.raw_id p.1.canonical_id)
    else none) ++
  (if duplicateRawIds prepared = [] then [] else [.ambiguous (duplicateRawIds prepared)])

def cards_from_planning_items (raw_cards : List Value) :
    Except Fault (List TaskBoardCard × List Diagnostic) :=
  match mappings raw_cards with
  | .error e => .error e
  | .ok items =>
    let prepared := prepare reprOf items
    match cardsFrom reprOf prepared 0 prepared with
    | .error e => .error e
    | .ok cards => .ok (cards, diagnosticsOf prepared)

end Host

end Agently.TaskBoard.Planning
