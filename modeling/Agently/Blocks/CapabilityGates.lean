import Agently.Blocks.BlockMoves

/-! # Capability gates of a block plan

A block that needs an approval waits for it when an approval block for the capability comes before
it and the blocks behind a denial have been cancelled; a denial by itself cancels nothing. -/

namespace Agently.Blocks

open Agently.Lib Agently.Utils Agently.TaskDAGValidation

theorem checkAll_eq_ok {α : Type} {check : α → Except CompileError Unit} {xs : List α}
    (h : checkAll check xs = .ok ()) : ∀ x ∈ xs, check x = .ok () := by
  induction xs with
  | nil => exact List.forall_mem_nil _
  | cons x xs ih =>
    simp only [checkAll] at h
    split at h
    · cases h
    · rename_i hx
      intro y hy
      rcases List.mem_cons.mp hy with rfl | hy
      · exact hx
      · exact ih h y hy

theorem compilePlanBlocks_eq_ok {registered : List String} {planBlocks : List PlanBlockInstance}
    {lowered : List Lowered} (h : compilePlanBlocks registered planBlocks = .ok lowered) :
    (∀ l ∈ lowered, ∃ b ∈ planBlocks, compilePlanBlock registered b = .ok l) ∧
      ∀ b ∈ planBlocks, ∃ l ∈ lowered, compilePlanBlock registered b = .ok l := by
  induction planBlocks generalizing lowered with
  | nil =>
    cases h
    exact ⟨List.forall_mem_nil _, List.forall_mem_nil _⟩
  | cons b rest ih =>
    simp only [compilePlanBlocks] at h
    split at h
    · cases h
    · rename_i l hl
      split at h
      · cases h
      · rename_i others hothers
        cases h
        obtain ⟨hfrom, hto⟩ := ih hothers
        constructor
        · intro x hx
          rcases List.mem_cons.mp hx with rfl | hx
          · exact ⟨b, List.mem_cons_self, hl⟩
          · obtain ⟨c, hc, hcx⟩ := hfrom x hx
            exact ⟨c, List.mem_cons_of_mem _ hc, hcx⟩
        · intro c hc
          rcases List.mem_cons.mp hc with rfl | hc
          · exact ⟨l, List.mem_cons_self, hl⟩
          · obtain ⟨x, hx, hcx⟩ := hto c hc
            exact ⟨x, List.mem_cons_of_mem _ hx, hcx⟩

theorem compilePlanBlock_requirements {registered : List String} {b : PlanBlockInstance}
    {l : Lowered} (h : compilePlanBlock registered b = .ok l) :
    ∀ x ∈ l.blocks, x.resourceRequirements = b.capabilityRequirements := by
  simp only [compilePlanBlock] at h
  split at h
  · cases h
  · split at h
    · unfold compileDagSegment at h
      split at h
      · cases h
      · cases h
        intro x hx
        obtain ⟨task, -, rfl⟩ := List.mem_map.mp hx
        rfl
    · cases h
      intro x hx
      cases List.mem_singleton.mp hx
      rfl

theorem compilePlanBlock_approval {registered : List String} {b : PlanBlockInstance} {l : Lowered}
    (h : compilePlanBlock registered b = .ok l) (hb : isApprovalWait b = true) : l.blocks ≠ [] := by
  have hkind : strip b.kindText = "approval_wait" := by
    rw [of_decide_eq_true hb]
    decide +kernel
  have hno : ("approval_wait" : String) ≠ "dag_segment" := by decide
  simp only [compilePlanBlock, hkind, if_neg hno] at h
  split at h
  · cases h
  · cases h
    exact List.cons_ne_nil _ _

section Requirements

variable (reprOf : Value → String)

def Requires (requirements : List (List (String × Value))) (c : String) : Prop :=
  ∃ requirement ∈ requirements, c ∈ capabilityNamesFromRequirement reprOf requirement

def NothingDenied (resolution : CapabilityResolution) (graph : ExecutionBlockGraph) : Prop :=
  ∀ b ∈ graph.executionBlocks, ∀ c ∈ resolution.deniedCapabilities,
    ¬ Requires reprOf b.resourceRequirements c

def ApprovalsRequireNothingDenied (resolution : CapabilityResolution)
    (planBlocks : List PlanBlockInstance) : Prop :=
  ∀ b ∈ planBlocks, isApprovalWait b = true → ∀ c ∈ resolution.deniedCapabilities,
    ¬ Requires reprOf b.capabilityRequirements c

variable {reprOf}

theorem enforceRequirement_denied {g : Gates} {b : PlanBlockInstance}
    {requirement : List (String × Value)} (h : enforceRequirement reprOf g b requirement = .ok ())
    {c : String} (hc : c ∈ g.denied) : c ∉ capabilityNamesFromRequirement reprOf requirement := by
  simp only [enforceRequirement] at h
  split at h
  · cases h
  · rename_i hnone
    intro hin
    refine hnone (List.ne_nil_of_mem (a := c) ?_)
    exact List.mem_filter.mpr ⟨hin, decide_eq_true hc⟩

theorem enforce_denied {resolution : CapabilityResolution} {planBlocks : List PlanBlockInstance}
    (h : enforceCapabilityResolution reprOf (some resolution) planBlocks = .ok ())
    {b : PlanBlockInstance} (hb : b ∈ planBlocks) (hno : isApprovalWait b = false) {c : String}
    (hc : c ∈ resolution.deniedCapabilities) : ¬ Requires reprOf b.capabilityRequirements c := by
  rintro ⟨requirement, hreq, hin⟩
  have hblock := checkAll_eq_ok h b hb
  rw [enforceBlock, hno] at hblock
  exact enforceRequirement_denied (checkAll_eq_ok hblock requirement hreq) hc hin

theorem mem_executionBlocks {request : BlockCompileRequest} {lowered : List Lowered}
    {b : ExecutionBlock} :
    b ∈ (assembleGraph request lowered).executionBlocks ↔ ∃ l ∈ lowered, b ∈ l.blocks :=
  List.mem_flatMap

theorem nothingDenied_iff {registered : List String} {request : BlockCompileRequest}
    {resolution : CapabilityResolution} (hr : request.capabilityResolution = some resolution)
    {graph : ExecutionBlockGraph} (hc : compile reprOf registered request = .ok graph) :
    NothingDenied reprOf resolution graph ↔
      ApprovalsRequireNothingDenied reprOf resolution request.planBlocks := by
  obtain ⟨henforced, lowered, hlowered, rfl⟩ := compile_eq_ok hc
  rw [hr] at henforced
  obtain ⟨hfrom, hto⟩ := compilePlanBlocks_eq_ok hlowered
  constructor
  · intro h b hb happroval c hdenied hrequires
    obtain ⟨l, hl, hbl⟩ := hto b hb
    obtain ⟨x, hx⟩ := List.exists_mem_of_ne_nil _ (compilePlanBlock_approval hbl happroval)
    refine h x (mem_executionBlocks.mpr ⟨l, hl, hx⟩) c hdenied ?_
    rw [compilePlanBlock_requirements hbl x hx]
    exact hrequires
  · intro h x hx c hdenied hrequires
    obtain ⟨l, hl, hxl⟩ := mem_executionBlocks.mp hx
    obtain ⟨b, hb, hbl⟩ := hfrom l hl
    rw [compilePlanBlock_requirements hbl x hxl] at hrequires
    cases happroval : isApprovalWait b with
    | false => exact enforce_denied henforced hb happroval hdenied hrequires
    | true => exact h b hb happroval c hdenied hrequires

end Requirements

section Approvals

variable (reprOf : Value → String) (graph : ExecutionBlockGraph) (resolution : CapabilityResolution)

def ApprovalWaitFor (b : ExecutionBlock) (c : String) : Prop :=
  b.kind = "approval_wait" ∧ c ∈ approvalWaitNames reprOf b.boundInputs

/-- The block requires a capability that is pending and not allowed otherwise. -/
structure Gated (b : ExecutionBlock) (c : String) : Prop where
  requires : Requires reprOf b.resourceRequirements c
  pending : c ∈ capabilityNames reprOf resolution.pendingApprovals
  notAllowed : c ∉ resolution.allowedCapabilities
  notInScope : c ∉ capabilityNames reprOf resolution.scopedActionCandidates
  noApproval : ¬ ApprovalWaitFor reprOf b c

def approvedOf : Value → Value
  | .dict kvs => get kvs "approved"
  | _ => .none

def Approves (output : Value) : Prop := approvedOf output = .bool true

instance (output : Value) : Decidable (Approves output) :=
  inferInstanceAs (Decidable (approvedOf output = .bool true))

def Approved (s : BlocksExecution) (c : String) : Prop :=
  ∃ r ∈ s.results, r.state = .completed ∧ Approves r.output ∧
    ∃ w, blockOf graph r.executionBlockId = some w ∧ ApprovalWaitFor reprOf w c

def ApprovedFirst (s : BlocksExecution) : Prop :=
  ∀ run ∈ s.blockRuns, run.Executes → ∀ b, blockOf graph run.block = some b →
    ∀ c, Gated reprOf resolution b c → Approved reprOf graph s c

/-- `approvalOf` names, for each block and capability, an approval block that comes before. -/
def ApprovalsComeFirst (approvalOf : String → String → String) : Prop :=
  ∀ id b, blockOf graph id = some b → ∀ c, Gated reprOf resolution b c →
    ∃ w, blockOf graph (approvalOf id c) = some w ∧ ApprovalWaitFor reprOf w c ∧
      Relation.TransGen (Precedes graph) (approvalOf id c) id

def refuses (s : BlocksExecution) (run : BlockRun) : Bool :=
  match run.phase with
  | .beginning => decide (run.block ∈ s.cancelled)
  | .checking output => !s.waiting && !decide (Approves output)
  | _ => false

def RefusalsFindCancelled (approvalOf : String → String → String) (s : BlocksExecution) :
    BlocksAction → Prop
  | .block n _ => ∀ run, s.blockRuns[n]? = some run → refuses s run = true →
      ∀ id b c, blockOf graph id = some b → Gated reprOf resolution b c →
        approvalOf id c = run.block → id ∈ s.cancelled
  | _ => True

def RefusedCancelled (approvalOf : String → String → String) (s : BlocksExecution) : Prop :=
  ∀ run ∈ s.blockRuns, ∀ r, run.result? = some r → r.state ≠ .waiting →
    ¬ (r.state = .completed ∧ Approves r.output) →
      ∀ id b c, blockOf graph id = some b → Gated reprOf resolution b c →
        approvalOf id c = run.block → id ∈ s.cancelled

variable {reprOf graph resolution} {recorder : Recorder} {approvalOf : String → String → String}
  {s t : BlocksExecution} {a : BlocksAction}

theorem result?_of_beginning {run : BlockRun} (h : run.phase = .beginning) : run.result? = none := by
  rw [BlockRun.result?, h, BlockRun.recorded?, h]

theorem Approved.mono {c : String} (h : Approved reprOf graph s c) (hg : Grows s t) :
    Approved reprOf graph t c := by
  obtain ⟨r, hr, hrest⟩ := h
  exact ⟨r, hg.results r hr, hrest⟩

theorem refusedCancelled_step (h : RefusedCancelled reprOf graph resolution approvalOf s)
    (hc : RefusalsFindCancelled reprOf graph resolution approvalOf s a)
    (ht : blocksStep graph recorder reprOf s a = some t) :
    RefusedCancelled reprOf graph resolution approvalOf t := by
  intro run hrun r hr hne hrefused id b c hb hgated hid
  refine (step_moves ht).1.cancelled id ?_
  rcases step_runs ht hrun with hold | hbegin | ⟨n, answer, old, rfl, hn, hmoves, -⟩
  · exact h run hold r hr hne hrefused id b c hb hgated hid
  · rw [result?_of_beginning hbegin] at hr
    cases hr
  · rw [hmoves.block] at hid
    rcases hmoves.result r hr with hold | ⟨hphase, hin, -⟩ | ⟨output, hphase, hout, hstate⟩
    · exact h old (List.mem_of_getElem? hn) r hold hne hrefused id b c hb hgated hid
    · refine hc old hn ?_ id b c hb hgated hid
      rw [refuses, hphase]
      exact decide_eq_true hin
    · refine hc old hn ?_ id b c hb hgated hid
      have hrunning : s.waiting = false := by
        cases hw : s.waiting with
        | false => rfl
        | true =>
          rw [hw] at hstate
          exact absurd hstate hne
      rw [hrunning] at hstate
      have hno : ¬ Approves output := by
        intro happroves
        rw [← hout] at happroves
        exact hrefused ⟨hstate, happroves⟩
      rw [refuses, hphase]
      simp [hrunning, hno]

theorem approved_of_begun (hfirst : ApprovalsComeFirst reprOf graph resolution approvalOf)
    (ho : Ordered graph s) (h : RefusedCancelled reprOf graph resolution approvalOf s)
    {run : BlockRun} (hrun : run ∈ s.blockRuns) (hnot : run.block ∉ s.cancelled)
    {b : ExecutionBlock} (hb : blockOf graph run.block = some b) {c : String}
    (hgated : Gated reprOf resolution b c) : Approved reprOf graph s c := by
  obtain ⟨w, hw, hwait, hpath⟩ := hfirst run.block b hb c hgated
  obtain ⟨wait, hmem, hblock, r, hr, hresult, hid, hne⟩ :=
    ho.result_of_done (ho.ancestors hpath run hrun rfl)
  by_cases happroves : r.state = .completed ∧ Approves r.output
  · refine ⟨r, hr, happroves.1, happroves.2, w, ?_, hwait⟩
    rw [hid]
    exact hw
  · exact absurd (h wait hmem r hresult hne happroves run.block b c hb hgated hblock.symm) hnot

theorem approvedFirst_step (hfirst : ApprovalsComeFirst reprOf graph resolution approvalOf)
    (ho : Ordered graph s) (hcancelled : RefusedCancelled reprOf graph resolution approvalOf s)
    (h : ApprovedFirst reprOf graph resolution s)
    (ht : blocksStep graph recorder reprOf s a = some t) :
    ApprovedFirst reprOf graph resolution t := by
  have hgrows := (step_moves ht).1
  intro run hrun hexecutes b hb c hgated
  rcases step_runs ht hrun with hold | hbegin | ⟨n, answer, old, rfl, hn, hmoves, -⟩
  · exact (h run hold hexecutes b hb c hgated).mono hgrows
  · exact absurd hbegin hexecutes.1
  · have hold := List.mem_of_getElem? hn
    rw [hmoves.block] at hb
    rcases hmoves.executes hexecutes with hbefore | ⟨-, hnot⟩
    · exact (h old hold hbefore b hb c hgated).mono hgrows
    · exact (approved_of_begun hfirst ho hcancelled hold hnot hb hgated).mono hgrows

end Approvals

/-- With approvals that come first, and refusals that find the blocks behind them cancelled, a
block that needs an approval executes after it; what is denied stays out unless it is asked for by
an approval block. -/
theorem capability_gates_hold {reprOf : Value → String} {registered : List String}
    {request : BlockCompileRequest} {resolution : CapabilityResolution}
    (hr : request.capabilityResolution = some resolution) {graph : ExecutionBlockGraph}
    (hc : compile reprOf registered request = .ok graph) :
    (NothingDenied reprOf resolution graph ↔
      ApprovalsRequireNothingDenied reprOf resolution request.planBlocks) ∧
    ∀ (approvalOf : String → String → String),
      ApprovalsComeFirst reprOf graph resolution approvalOf →
      ∀ (isAlnum : Char → Bool) (recorder : Recorder) (s₀ s : BlocksExecution)
        (acts : List BlocksAction), bindRuntime graph isAlnum = some s₀ →
        (blocksMachine graph recorder reprOf).run s₀ acts = some s →
        (blocksMachine graph recorder reprOf).Meets
          (RefusalsFindCancelled reprOf graph resolution approvalOf) s₀ acts →
        ApprovedFirst reprOf graph resolution s := by
  refine ⟨nothingDenied_iff hr hc, ?_⟩
  intro approvalOf hfirst isAlnum recorder s₀ s acts hs hrun hmeets
  have hroots := rootsStart_of_compile hc
  have hbegin : ∀ run ∈ s₀.blockRuns, run.phase = .beginning := by
    unfold bindRuntime at hs
    split at hs
    · cases hs
      obtain ⟨more, hmore, hphase⟩ := deliver_begins graph {} .flowStart
      intro run hrun
      rw [hmore] at hrun
      rcases List.mem_append.mp hrun with hrun | hrun
      · cases hrun
      · exact hphase run hrun
    · cases hs
  have hinv : Ordered graph s ∧ RefusedCancelled reprOf graph resolution approvalOf s ∧
      ApprovedFirst reprOf graph resolution s := by
    refine (blocksMachine graph recorder reprOf).run_invariant_meeting
      (I := fun s => Ordered graph s ∧ RefusedCancelled reprOf graph resolution approvalOf s ∧
        ApprovedFirst reprOf graph resolution s) ?_ ?_ hmeets hrun
    · rintro u a v ⟨ho, hrefused, hfirst'⟩ hmeet ht
      exact ⟨ordered_step hroots ho ht, refusedCancelled_step hrefused hmeet ht,
        approvedFirst_step hfirst ho hrefused hfirst' ht⟩
    · refine ⟨ordered_initial hroots hs, ?_, ?_⟩
      · intro run hrun r hr'
        rw [result?_of_beginning (hbegin run hrun)] at hr'
        cases hr'
      · intro run hrun hexecutes
        exact absurd (hbegin run hrun) hexecutes.1
  exact hinv.2.2

def deployResolution : CapabilityResolution :=
  { pendingApprovals := [[("capability", .str "deploy")]] }

def deployRequest : BlockCompileRequest :=
  { planBlocks := [
      { id := "w", planBlockId := "approval_wait", kind := some "approval_wait",
        boundInputs := .dict [("capability", .str "deploy")] },
      { id := "a", planBlockId := "action_call", kind := some "action_call",
        capabilityRequirements := [[("capability", .str "deploy")]] }]
    edges := [⟨"w", "a"⟩]
    capabilityResolution := some deployResolution }

def deployGraph : ExecutionBlockGraph :=
  { graphId := "blocks:plan"
    executionBlocks := [
      { id := "w:approval_wait", kind := "approval_wait", sourcePlanBlockId := "w",
        boundInputs := .dict [("capability", .str "deploy")] },
      { id := "a:action_call", kind := "action_call", sourcePlanBlockId := "a",
        boundInputs := .dict [], resourceRequirements := [[("capability", .str "deploy")]] }]
    edges := [⟨"w:approval_wait", "a:action_call"⟩]
    startBlocks := ["w:approval_wait"]
    terminalBlocks := ["a:action_call"] }

def noText : Value → String := fun _ => ""

def noItems : Recorder := ⟨fun _ _ => [], fun _ => []⟩

def deployActs (status : String) (steps : Nat) : List BlocksAction :=
  List.replicate steps (.block 0 (.decides (.dict [("status", .str status)]))) ++
    [.block 1 (.returns .none), .block 1 (.returns .none)]

theorem deploy_compiles : compile noText [] deployRequest = .ok deployGraph := by
  rfl

theorem deploy_gated : Gated noText deployResolution
    { id := "a:action_call", kind := "action_call", sourcePlanBlockId := "a",
      boundInputs := .dict [], resourceRequirements := [[("capability", .str "deploy")]] }
    "deploy" :=
  ⟨⟨_, List.mem_singleton_self _, by decide +kernel⟩, by decide +kernel, by decide, by decide,
    fun h => absurd h.1 (by decide)⟩

def deployShown (status : String) (steps : Nat) :
    Option (List (String × RunPhase) × List (ResultState × Value)) :=
  ((bindRuntime deployGraph Char.isAlphanum).bind fun s₀ =>
    (blocksMachine deployGraph noItems noText).run s₀ (deployActs status steps)).map fun s =>
      ((s.blockRuns.drop 1).map fun run => (run.block, run.phase),
        s.results.map fun r => (r.state, approvedOf r.output))

theorem deployShown_eq {status : String} {steps : Nat} {runs : List (String × RunPhase)}
    {results : List (ResultState × Value)} (h : deployShown status steps = some (runs, results)) :
    ∃ s₀ s, bindRuntime deployGraph Char.isAlphanum = some s₀ ∧
      (blocksMachine deployGraph noItems noText).run s₀ (deployActs status steps) = some s ∧
      (∀ x ∈ runs, ∃ run ∈ s.blockRuns, run.block = x.1 ∧ run.phase = x.2) ∧
      ∀ r ∈ s.results, (r.state, approvedOf r.output) ∈ results := by
  obtain ⟨s, hs, hshow⟩ := Option.map_eq_some_iff.mp h
  obtain ⟨s₀, hbind, hrun⟩ := Option.bind_eq_some_iff.mp hs
  obtain ⟨hruns, hresults⟩ := Prod.mk.inj hshow
  refine ⟨s₀, s, hbind, hrun, ?_, ?_⟩
  · intro x hx
    rw [← hruns] at hx
    obtain ⟨run, hmem, rfl⟩ := List.mem_map.mp hx
    exact ⟨run, List.mem_of_mem_drop hmem, rfl, rfl⟩
  · intro r hr
    rw [← hresults]
    exact List.mem_map_of_mem hr

theorem executes_of_executing {run : BlockRun} (h : run.phase = .executing) : run.Executes := by
  obtain ⟨block, paused, phase⟩ := run
  cases h
  exact ⟨nofun, nofun⟩

theorem denied_action_executes :
    compile noText [] deployRequest = .ok deployGraph ∧
      ∃ s₀ s, bindRuntime deployGraph Char.isAlphanum = some s₀ ∧
        (blocksMachine deployGraph noItems noText).run s₀ (deployActs "denied" 16) = some s ∧
        ¬ ApprovedFirst noText deployGraph deployResolution s := by
  have hshown : deployShown "denied" 16 =
      some ([("a:action_call", .executing)], [(.completed, .bool false)]) := by decide +kernel
  obtain ⟨s₀, s, hbind, hrun, hruns, hresults⟩ := deployShown_eq hshown
  refine ⟨deploy_compiles, s₀, s, hbind, hrun, fun hfirst => ?_⟩
  obtain ⟨run, hmem, hblock, hphase⟩ := hruns _ List.mem_cons_self
  obtain ⟨r, hr, -, happroves, -⟩ := hfirst run hmem (executes_of_executing hphase) _
    (by rw [hblock]; rfl) "deploy" deploy_gated
  have hno := (Prod.mk.inj (List.mem_singleton.mp (hresults r hr))).2
  rw [Approves, hno] at happroves
  cases happroves

theorem deploy_approvals_come_first :
    ApprovalsComeFirst noText deployGraph deployResolution fun _ _ => "w:approval_wait" := by
  intro id b hb c hgated
  have hmem : b ∈ deployGraph.executionBlocks := List.mem_reverse.mp (List.mem_of_find?_eq_some hb)
  have hid : b.id = id := by simpa using List.find?_some hb
  obtain ⟨requirement, hreq, hc⟩ := hgated.requires
  rcases List.mem_cons.mp hmem with rfl | hmem
  · cases hreq
  · cases List.mem_singleton.mp hmem
    cases List.mem_singleton.mp hreq
    have hnames : capabilityNamesFromRequirement noText [("capability", .str "deploy")] =
        ["deploy"] := by decide +kernel
    rw [hnames] at hc
    cases List.mem_singleton.mp hc
    subst hid
    exact ⟨_, rfl, ⟨rfl, by decide +kernel⟩, .single (mem_incoming.mpr List.mem_cons_self)⟩

def NoRefusal (s : BlocksExecution) : BlocksAction → Prop
  | .block n _ => ∀ run ∈ s.blockRuns[n]?, refuses s run = false
  | _ => True

instance (s : BlocksExecution) : (a : BlocksAction) → Decidable (NoRefusal s a)
  | .block n _ => inferInstanceAs (Decidable (∀ run ∈ s.blockRuns[n]?, refuses s run = false))
  | .gate _ | .finalize _ | .continueWith _ | .resuming _ => isTrue trivial

theorem capability_gates_hold_deploy :
    NothingDenied noText deployResolution deployGraph ∧
      ∃ s₀ s, bindRuntime deployGraph Char.isAlphanum = some s₀ ∧
        (blocksMachine deployGraph noItems noText).run s₀ (deployActs "approved" 14) = some s ∧
        (∃ run ∈ s.blockRuns, run.block = "a:action_call" ∧ run.phase = .executing) ∧
        ApprovedFirst noText deployGraph deployResolution s := by
  obtain ⟨hdenied, hruns⟩ := @capability_gates_hold noText [] deployRequest deployResolution rfl
    deployGraph deploy_compiles
  have hshown : deployShown "approved" 14 =
      some ([("a:action_call", .executing)], [(.completed, .bool true)]) := by decide +kernel
  obtain ⟨s₀, s, hbind, hrun, hshow, -⟩ := deployShown_eq hshown
  refine ⟨hdenied.mpr fun b _ _ c hc => absurd hc List.not_mem_nil, s₀, s, hbind, hrun,
    hshow _ List.mem_cons_self, ?_⟩
  refine hruns (fun _ _ => "w:approval_wait") deploy_approvals_come_first Char.isAlphanum noItems s₀ s
    (deployActs "approved" 14) hbind hrun ?_
  have hquiet : ∀ s ∈ bindRuntime deployGraph Char.isAlphanum,
      (blocksMachine deployGraph noItems noText).Meets NoRefusal s (deployActs "approved" 14) := by
    decide +kernel
  refine Machine.meets_mono _ ?_ (hquiet s₀ hbind)
  intro s a hno
  cases a with
  | block n answer =>
    intro run hrun hrefuses
    rw [hno run hrun] at hrefuses
    cases hrefuses
  | _ => trivial

end Agently.Blocks
