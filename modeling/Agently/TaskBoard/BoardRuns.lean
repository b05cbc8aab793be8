import Agently.TaskBoard.CardAccounts
import Agently.TaskBoard.TickBoards

/-! # Runs of a board

Source: `TaskBoardRevision.create`, `apply_task_board_patch` and the ticks of
`TaskBoard/TaskBoardRuntime.py`. A run takes a created board through patches and ticks. -/

namespace Agently.TaskBoard

open Agently.Lib Agently.Utils
open Agently.TaskDAGValidation (Fault strip orElse bind_eq_ok)

def createRevision (boardId : String) (graph : TaskBoardGraph) (revisionId : Option String)
    (metadata : List (String × Value)) : TaskBoardRevision where
  boardId := boardId
  revisionId := match revisionId with
    | some id => if id = "" then "rev-0" else id
    | none => "rev-0"
  graph := graph
  metadata := metadata

inductive BoardAction where
  | patch (fresh : String) (patch : TaskBoardPatch)
  | tick (scheduler : Scheduler) (moves : List TickMove) (report : CloseReport) (fresh : Fresh)

section Runs

variable (reprOf : Value → String)

def boardStep (r : TaskBoardRevision) : BoardAction → Option TaskBoardRevision
  | .patch fresh patch => (applyTaskBoardPatch reprOf fresh r patch).toOption
  | .tick scheduler moves report fresh =>
    ((reloadingTick reprOf ⟨r, scheduler⟩).run TickState.initial moves).bind fun s =>
      (finalizeTickSnapshot reprOf ⟨r, scheduler⟩ s.data report fresh).toOption

def boardMachine : Machine TaskBoardRevision BoardAction := ⟨boardStep reprOf⟩

def CarefulResults (fresh : Fresh) (r : TaskBoardRevision) (results : List TaskBoardCardResult) : Prop :=
  ∀ patch, addResults reprOf fresh r
      { baseRevision := r.revisionId, operations := [], patchId := fresh.patchId.text
        source := "task_board.tick" } results = .ok patch →
    CarefulOperations reprOf (Patching.start r) patch.operations

def CarefulMove (board : TaskBoard) (s : TickState) : TickMove → Prop
  | .act a =>
    match s.tasks[a.task]? with
    | some (.collecting result) => board.scheduler = .frontier →
        ∀ current, revisionFromState reprOf board s.data = .ok current →
          CarefulResults reprOf a.input.fresh current [result]
    | some (.applying values) => ∀ results, readResults reprOf values = .ok results →
        CarefulResults reprOf a.input.fresh board.revision results
    | _ => True
  | .reload => True

def CarefulClose (r : TaskBoardRevision) (d : TickData) : Prop :=
  d.revision = none → d.revisionJson = none →
    ∀ collected, readResults reprOf ((d.collected.getD (d.collectedJson.getD [])).map Prod.snd) =
      .ok collected →
      CarefulOperations reprOf (Patching.start r) (collected.map recordOperation)

def CarefulAction (r : TaskBoardRevision) : BoardAction → Prop
  | .patch _ patch => CarefulOperations reprOf (Patching.start r) patch.operations
  | .tick scheduler moves _ _ =>
    (reloadingTick reprOf ⟨r, scheduler⟩).Meets (CarefulMove reprOf ⟨r, scheduler⟩)
      TickState.initial moves ∧
    ∀ s, (reloadingTick reprOf ⟨r, scheduler⟩).run TickState.initial moves = some s →
      CarefulClose reprOf r s.data

def CarefulStart (graph : TaskBoardGraph) : Prop :=
  ∀ card ∈ graph.cards, card.failurePolicy ≠ "" ∧ card.status ∉ terminalCardStatuses

variable {reprOf}

theorem carefulOperations_append {p : Patching} {xs ys : List (List (String × Value))}
    (hx : CarefulOperations reprOf p xs)
    (hy : ∀ q, Patching.applyAll reprOf p xs = .ok q → CarefulOperations reprOf q ys) :
    CarefulOperations reprOf p (xs ++ ys) := by
  induction xs generalizing p with
  | nil => exact hy p rfl
  | cons x xs ih =>
    refine ⟨hx.1, ?_⟩
    intro q hq
    refine ih (hx.2 q hq) ?_
    intro q' hq'
    apply hy
    rw [Patching.applyAll, hq]
    exact hq'

theorem carefulOperations_all {operations : List (List (String × Value))}
    (h : ∀ operation ∈ operations, ∀ p, CarefulOperation reprOf p operation) (p : Patching) :
    CarefulOperations reprOf p operations := by
  induction operations generalizing p with
  | nil => trivial
  | cons operation rest ih =>
    exact ⟨h operation List.mem_cons_self p,
      fun q _ => ih (List.forall_mem_cons.mp h).2 q⟩

theorem operationName_str {s : String} (hs : Clean s) (rest : List (String × Value)) :
    operationName reprOf (("op", .str s) :: rest) = s := by
  have htruthy : (Value.str s).truthy = true := decide_eq_true hs.2
  unfold operationName
  rw [get_cons, if_pos rfl, orElse, if_pos htruthy]
  exact hs.1

theorem recordOperation_name (x : TaskBoardCardResult) :
    operationName reprOf (recordOperation x) = "record_card_result" :=
  operationName_str (by unfold Clean; decide) _

variable {x : TaskBoardCardResult}

theorem careful_record (hx : x.status ∈ ["completed", "failed", "blocked"])
    (p : Patching) : CarefulOperation reprOf p (recordOperation x) := by
  have hname : operationName reprOf (recordOperation x) = "record_card_result" :=
    recordOperation_name x
  constructor
  · intro h
    rw [hname] at h
    exact absurd h (by decide)
  · intro h
    rw [hname] at h
    exact absurd h (by decide)
  · intro _ y hy card _ _
    have hres : TaskDAGValidation.get (recordOperation x) "result" = x.toDict := by
      simp only [recordOperation, get_cons, String.reduceEq, if_false, if_true]
    have hor : orElse x.toDict (.dict []) = x.toDict := if_pos rfl
    rw [hres, hor] at hy
    have hterm : x.status ∈ terminalCardStatuses := by
      have hsub : ["completed", "failed", "blocked"] ⊆ terminalCardStatuses := by decide
      exact hsub hx
    have hstatus : y.status = x.status := by
      rw [(result_reread (.inl rfl) hy).status, strip_terminal hterm]
    rw [← hstatus] at hx hterm
    have hl := lower_terminal hterm
    refine ⟨fun _ => hterm, ?_, ?_⟩
    · intro _ he
      rw [hl] at he
      rw [he] at hx
      exact absurd hx (by decide)
    · intro _ he
      rw [hl] at he
      rw [he] at hx
      exact absurd hx (by decide)

theorem careful_aside {operation : List (String × Value)} (p : Patching)
    (h : operationName reprOf operation ∉
      ["add_card", "update_card", "set_card_status", "record_card_result"]) :
    CarefulOperation reprOf p operation := by
  simp only [List.mem_cons, List.not_mem_nil, or_false, not_or] at h
  obtain ⟨hadd, hupdate, hstatus, hrecord⟩ := h
  constructor
  · intro hm
    simp only [List.mem_cons, List.not_mem_nil, or_false] at hm
    rcases hm with hm | hm
    · exact absurd hm hadd
    · exact absurd hm hupdate
  · exact fun hm => absurd hm hstatus
  · exact fun hm => absurd hm hrecord

variable {r next : TaskBoardRevision} {fresh : Fresh}

theorem AccountedBoard.results {results : List TaskBoardCardResult} (h : AccountedBoard r)
    (hc : CarefulResults reprOf fresh r results)
    (happly : applyCardResults reprOf fresh r results = .ok next) : AccountedBoard next := by
  unfold applyCardResults at happly
  split at happly
  · cases happly
    exact h
  · obtain ⟨patch, hpatch, happly⟩ := bind_eq_ok.mp happly
    exact h.patch (hc patch hpatch) happly

theorem frontierResult_cases (h : applyFrontierCardResult reprOf fresh r x = .ok next) :
    applyCardResults reprOf fresh r [x] = .ok next ∨
      ∃ y : TaskBoardCardResult, y.status = "blocked" ∧ y.patchProposal = none ∧
        applyCardResults reprOf fresh r [y] = .ok next := by
  unfold applyFrontierCardResult at h
  split at h
  · split at h
    · cases h
    · exact .inr ⟨_, rfl, rfl, h⟩
  · exact .inl h

theorem AccountedBoard.frontier (h : AccountedBoard r) (hc : CarefulResults reprOf fresh r [x])
    (happly : applyFrontierCardResult reprOf fresh r x = .ok next) : AccountedBoard next := by
  rcases frontierResult_cases happly with happly | ⟨y, hs, hp, happly⟩
  · exact h.results hc happly
  · refine h.results ?_ happly
    intro patch hpatch
    have hops : patch.operations = [recordOperation y] := by
      simp only [addResults, addResult, hp] at hpatch
      cases hpatch
      rfl
    rw [hops]
    refine carefulOperations_all ?_ _
    intro operation hm q
    rw [List.mem_singleton.mp hm]
    exact careful_record (by rw [hs]; decide) q

theorem AccountedBoard.incomplete {board : TaskBoard} {d : TickData} {report : CloseReport}
    (h : AccountedBoard board.revision)
    (hc : ∀ collected, readResults reprOf ((d.collected.getD (d.collectedJson.getD [])).map Prod.snd) =
      .ok collected →
      CarefulOperations reprOf (Patching.start board.revision) (collected.map recordOperation))
    (hn : incompleteRevision reprOf board d report fresh = .ok next) : AccountedBoard next := by
  obtain ⟨schedule, -, hn⟩ := bind_eq_ok.mp hn
  obtain ⟨collected, hcollected, hn⟩ := bind_eq_ok.mp hn
  refine h.patch ?_ hn
  dsimp only
  rw [List.map_append, List.append_assoc]
  refine carefulOperations_append (hc collected hcollected) fun q _ => ?_
  refine carefulOperations_append (carefulOperations_all ?_ q) fun q' _ => ?_
  · intro operation hm p
    obtain ⟨x, hx, rfl⟩ := List.mem_map.mp hm
    obtain ⟨id, -, rfl⟩ := List.mem_map.mp hx
    exact careful_record (List.mem_cons_of_mem _ List.mem_cons_self) p
  · refine carefulOperations_all ?_ q'
    intro operation hm p
    rw [List.mem_singleton.mp hm]
    refine careful_aside p ?_
    rw [operationName_str (by unfold Clean; decide)]
    decide

theorem AccountedBoard.step {a : BoardAction} (h : AccountedBoard r)
    (hc : CarefulAction reprOf r a) (hs : (boardMachine reprOf).step r a = some next) :
    AccountedBoard next := by
  cases a with
  | patch fresh patch =>
    cases hp : applyTaskBoardPatch reprOf fresh r patch with
    | error e =>
      simp only [boardMachine, boardStep, hp] at hs
      cases hs
    | ok next' =>
      simp only [boardMachine, boardStep, hp] at hs
      cases hs
      exact h.patch hc hp
  | tick scheduler moves report fresh =>
    obtain ⟨hmoves, hclose⟩ := hc
    obtain ⟨s, hrun, hf⟩ := Option.bind_eq_some_iff.mp hs
    have hread : ∀ r r', AccountedBoard r → RereadBoard r r' → AccountedBoard r' :=
      fun _ _ hr hread => hr.reread hread
    have happly : (reloadingTick reprOf ⟨r, scheduler⟩).Meets
        (AppliesMove reprOf ⟨r, scheduler⟩ AccountedBoard) TickState.initial moves := by
      refine (reloadingTick reprOf ⟨r, scheduler⟩).meets_mono ?_ hmoves
      intro s m hm
      cases m with
      | reload => trivial
      | act a =>
        constructor
        · intro result current next ht hsched hcurrent hacc hn
          simp only [CarefulMove, ht] at hm
          exact hacc.frontier (hm hsched current hcurrent) hn
        · intro values results next ht hresults hn
          simp only [CarefulMove, ht] at hm
          exact h.results (hm results hresults) hn
    cases hfin : finalizeTickSnapshot reprOf ⟨r, scheduler⟩ s.data report fresh with
    | error e =>
      rw [hfin] at hf
      cases hf
    | ok next' =>
      rw [hfin] at hf
      cases hf
      refine finalize_stored (stored_run hread h happly hrun) hread ?_ hfin
      intro hnone hjson hcut
      exact AccountedBoard.incomplete h (hclose s hrun hnone hjson) hcut

theorem accounted_created {boardId : String} {graph : TaskBoardGraph} {revisionId : Option String}
    {metadata : List (String × Value)}
    (hv : ValidRevision (createRevision boardId graph revisionId metadata))
    (hc : CarefulStart graph) : AccountedBoard (createRevision boardId graph revisionId metadata) := by
  refine ⟨hv, ?_⟩
  intro card hm
  obtain ⟨hp, hs⟩ := hc card hm
  refine ⟨hp, fun ht => absurd ht hs, ?_⟩
  intro x hx
  cases hx

/-- In a run whose steps are careful no board is stuck without saying so. -/
theorem boards_never_stuck (reprOf : Value → String) (boardId : String) (graph : TaskBoardGraph)
    (revisionId : Option String) (metadata : List (String × Value))
    (hv : ValidRevision (createRevision boardId graph revisionId metadata))
    (hstart : CarefulStart graph) (actions : List BoardAction)
    (hcareful : (boardMachine reprOf).Meets (CarefulAction reprOf)
      (createRevision boardId graph revisionId metadata) actions)
    (r : TaskBoardRevision)
    (hr : (boardMachine reprOf).run (createRevision boardId graph revisionId metadata) actions =
      some r) : NeverStuck r := by
  have hacc : AccountedBoard r := (boardMachine reprOf).run_invariant_meeting
    (fun _ _ _ h hc hs => h.step hc hs) (accounted_created hv hstart) hcareful hr
  exact hacc.neverStuck

end Runs

def chain (status : String) : TaskBoardGraph where
  graphId := "graph"
  cards :=
    [{ id := "a", objective := "first", status := status },
     { id := "b", objective := "second", dependsOn := ["a"] }]

def markCompleted : TaskBoardPatch where
  baseRevision := "rev-0"
  operations := [[("op", .str "set_card_status"), ("card_id", .str "a"), ("status", .str "completed")]]
  patchId := "patch"

def markedLocals : Patching :=
  { Patching.start (createRevision "board" (chain "pending") none []) with
    cards := (chain "completed").cards }

theorem marked_left : Patching.applyAll plainText
    (Patching.start (createRevision "board" (chain "pending") none [])) markCompleted.operations =
    .ok markedLocals := by
  rfl

def startedBoard : TaskBoardRevision := createRevision "board" (chain "pending") none []

theorem startedBoard_valid : ValidRevision startedBoard := (validate_iff startedBoard).mp rfl

def markedBoard : TaskBoardRevision := startedBoard.patched markCompleted markedLocals "x"

theorem markedBoard_valid : ValidRevision markedBoard := (validate_iff markedBoard).mp rfl

theorem marked_run : (boardMachine plainText).run startedBoard [.patch "x" markCompleted] =
    some markedBoard := by
  have happly : applyTaskBoardPatch plainText "x" startedBoard markCompleted = .ok markedBoard :=
    applyTaskBoardPatch_iff.mpr
      ⟨startedBoard_valid, rfl, markedLocals, marked_left, rfl, markedBoard_valid⟩
  rw [Machine.run_cons]
  simp only [boardMachine, boardStep, happly]
  rfl

theorem marked_stuck : ¬ NeverStuck markedBoard := by
  intro h
  have hderived : deriveBoardStatus markedBoard.graph.cards markedBoard.cardResults
      markedBoard.status = "running" := by decide +kernel
  have hidle : markedBoard.runnable = [] := by decide +kernel
  obtain ⟨card, hc, -, dep, hdep, hd, -, -, hs⟩ := h.waits hderived (by
    intro plan hplan
    rw [(schedule_valid hplan).2, hidle])
  have hcards : ∀ dep ∈ markedBoard.graph.cards,
      statusIn markedBoard.cardResults dep ∉ ["failed", "blocked"] := by decide +kernel
  exact hcards dep hdep hs

theorem board_silently_stuck :
    ¬ ∀ (reprOf : Value → String) (boardId : String) (graph : TaskBoardGraph)
      (revisionId : Option String) (metadata : List (String × Value)),
      ValidRevision (createRevision boardId graph revisionId metadata) →
      ∀ (actions : List BoardAction) (r : TaskBoardRevision),
      (boardMachine reprOf).run (createRevision boardId graph revisionId metadata) actions = some r →
      NeverStuck r := by
  intro h
  exact marked_stuck (h plainText "board" (chain "pending") none [] startedBoard_valid
    [.patch "x" markCompleted] markedBoard marked_run)

def recordCompleted : TaskBoardPatch where
  baseRevision := "rev-0"
  operations := [recordOperation { cardId := "a", status := "completed" }]
  patchId := "patch"

def recordedLocals : Patching :=
  { Patching.start startedBoard with
    cards := (chain "completed").cards
    cardResults := [("a", { cardId := "a", status := "completed" })] }

theorem recorded_left : Patching.applyAll plainText (Patching.start startedBoard)
    recordCompleted.operations = .ok recordedLocals := by
  rfl

def recordedBoard : TaskBoardRevision := startedBoard.patched recordCompleted recordedLocals "x"

theorem recordedBoard_valid : ValidRevision recordedBoard := (validate_iff recordedBoard).mp rfl

theorem recorded_run : (boardMachine plainText).run startedBoard [.patch "x" recordCompleted] =
    some recordedBoard := by
  have happly : applyTaskBoardPatch plainText "x" startedBoard recordCompleted = .ok recordedBoard :=
    applyTaskBoardPatch_iff.mpr
      ⟨startedBoard_valid, rfl, recordedLocals, recorded_left, rfl, recordedBoard_valid⟩
  rw [Machine.run_cons]
  simp only [boardMachine, boardStep, happly]
  rfl

theorem recorded_never_stuck : NeverStuck recordedBoard := by
  refine boards_never_stuck plainText "board" (chain "pending") none [] startedBoard_valid ?_
    [.patch "x" recordCompleted] ?_ recordedBoard recorded_run
  · intro card hc
    simp only [chain, List.mem_cons, List.not_mem_nil, or_false] at hc
    rcases hc with rfl | rfl
    · decide
    · decide
  · refine ⟨carefulOperations_all ?_ _, fun _ _ => trivial⟩
    intro operation hm p
    rw [List.mem_singleton.mp hm]
    exact careful_record List.mem_cons_self p

end Agently.TaskBoard
