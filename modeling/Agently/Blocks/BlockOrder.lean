import Agently.Blocks.BlocksRuntime
import Mathlib.Logic.Relation

/-! # The order in which blocks begin

In every run, resumed or not, a block begins after the blocks its edges lead from have recorded
a result and emitted their completed event. -/

namespace Agently.Blocks

open Agently.Lib Agently.Utils Agently.TaskDAGValidation

def BlockRun.Done (run : BlockRun) : Prop :=
  match run.phase with
  | .delivering r | .returning r | .ended r => r.state ≠ .waiting
  | _ => False

def Done (runs : List BlockRun) (block : String) : Prop :=
  ∃ run ∈ runs, run.block = block ∧ run.Done

def Sound (runs : List BlockRun) : BlockEvent → Prop
  | .block p .completed => Done runs p
  | .joined g => ∀ p ∈ g, Done runs p
  | _ => True

def BlockRun.recorded? (run : BlockRun) : Option BlockResult :=
  match run.phase with
  | .ledger r _ | .announcing r _ | .completing r | .delivering r | .returning r | .ended r => some r
  | _ => none

def BlockRun.result? (run : BlockRun) : Option BlockResult :=
  match run.phase with
  | .recording r => some r
  | _ => run.recorded?

def BlocksExecution.remembered (s : BlocksExecution) : List BlockEvent :=
  s.lastEvent :: (s.interrupts.map Interrupt.source ++ s.resumeCalls.map ResumeCall.event)

structure Ordered (graph : ExecutionBlockGraph) (s : BlocksExecution) : Prop where
  begun : ∀ run ∈ s.blockRuns, ∀ p ∈ graph.incoming run.block, Done s.blockRuns p
  sources : ∀ g ∈ s.gateRuns, Done s.blockRuns g.source
  firing : ∀ g ∈ s.gateRuns, g.phase = .firing ∨ g.phase = .delivering →
    ∀ p ∈ g.gate, Done s.blockRuns p
  arrived : ∀ g filled, s.arrived.get? g = some filled → ∀ p ∈ filled, Done s.blockRuns p
  remembered : ∀ e ∈ s.remembered, Sound s.blockRuns e
  storing : ∀ run ∈ s.blockRuns, ∀ byGate signal e, run.phase = .storing byGate signal e →
    Sound s.blockRuns e
  finalizing : s.finalizeRuns ≠ [] → ∀ b ∈ graph.terminalBlocks, Done s.blockRuns b
  results : ∀ run ∈ s.blockRuns, ∀ r, run.recorded? = some r → r ∈ s.results
  own : ∀ run ∈ s.blockRuns, ∀ r, run.result? = some r → r.executionBlockId = run.block
  completing : ∀ run ∈ s.blockRuns, ∀ r, (run.phase = .completing r ∨ run.phase = .delivering r) →
    r.state ≠ .waiting
  quiet : ∀ run ∈ s.blockRuns, ∀ r rest, run.phase = .announcing r rest →
    ∀ b, .event b .completed ∉ rest

def RootsStart (graph : ExecutionBlockGraph) : Prop :=
  ∀ b ∈ graph.startBlocks, graph.incoming b = []

section Done

variable {runs : List BlockRun}

theorem Done.append {p : String} (h : Done runs p) (more : List BlockRun) :
    Done (runs ++ more) p := by
  obtain ⟨run, hm, hp⟩ := h
  exact ⟨run, List.mem_append_left _ hm, hp⟩

theorem Done.set {p : String} {n : Nat} {run next : BlockRun} (hn : runs[n]? = some run)
    (hb : next.block = run.block) (hd : run.Done → next.Done) (h : Done runs p) :
    Done (runs.set n next) p := by
  obtain ⟨r, hm, hp, hr⟩ := h
  obtain ⟨m, hm⟩ := List.mem_iff_getElem?.mp hm
  by_cases he : n = m
  · subst he
    rw [hn] at hm
    cases hm
    have hlt := (List.getElem?_eq_some_iff.mp hn).1
    exact ⟨next, List.mem_set hlt next, hb.trans hp, hd hr⟩
  · refine ⟨r, List.mem_iff_getElem?.mpr ⟨m, ?_⟩, hp, hr⟩
    rw [List.getElem?_set_ne he, hm]

theorem Sound.mono {runs' : List BlockRun} (h : ∀ p, Done runs p → Done runs' p) {e : BlockEvent}
    (hs : Sound runs e) : Sound runs' e := by
  cases e with
  | flowStart => trivial
  | returned handler => trivial
  | joined g => exact fun p hp => h p (hs p hp)
  | block id phase =>
    cases phase with
    | completed => exact h id hs
    | _ => trivial

end Done

theorem mem_gateOf {p : String} {ps : List String} : p ∈ gateOf ps ↔ p ∈ ps :=
  (List.perm_insertionSort _ ps).mem_iff

theorem sound_trigger {runs : List BlockRun} {e : BlockEvent} {ps : List String}
    (h : triggerOf ps = some e) (hs : Sound runs e) : ∀ p ∈ ps, Done runs p := by
  match ps, h with
  | [q], h =>
    cases h
    intro p hp
    cases List.mem_singleton.mp hp
    exact hs
  | a :: b :: rest, h =>
    cases h
    exact fun p hp => hs p (mem_gateOf.mpr hp)

section Steps

variable {graph : ExecutionBlockGraph} {recorder : Recorder} {reprOf : Value → String}
  {s : BlocksExecution}

variable {e : BlockEvent}

theorem startsOn_done (hroots : RootsStart graph) {runs : List BlockRun}
    (hs : Sound runs e) {b : String} (hb : b ∈ startsOn graph e) :
    ∀ p ∈ graph.incoming b, Done runs p := by
  have hother : triggerOf (graph.incoming b) = some e → ∀ p ∈ graph.incoming b, Done runs p :=
    fun ht => sound_trigger ht hs
  cases e with
  | flowStart =>
    have hnil := hroots b (List.mem_dedup.mp hb)
    rw [hnil]
    simp
  | block id phase => exact hother (by simpa using (List.mem_filter.mp hb).2)
  | joined g => exact hother (by simpa using (List.mem_filter.mp hb).2)
  | returned handler => exact hother (by simpa using (List.mem_filter.mp hb).2)

theorem gatesOn_source {g : GateRun} (hg : g ∈ gatesOn graph e) :
    e = .block g.source .completed ∧ g.phase = .arriving := by
  unfold gatesOn at hg
  split at hg
  · obtain ⟨gate, -, rfl⟩ := List.mem_map.mp hg
    exact ⟨rfl, rfl⟩
  · cases hg

theorem Ordered.deliver (hroots : RootsStart graph) (h : Ordered graph s)
    (he : Sound s.blockRuns e) : Ordered graph (deliver graph s e) := by
  have hmore : ∀ p, Done s.blockRuns p →
      Done (s.blockRuns ++ (startsOn graph e).map fun b => { block := b }) p :=
    fun p hp => hp.append _
  have hnew : ∀ run ∈ (startsOn graph e).map fun b => ({ block := b } : BlockRun),
      run.block ∈ startsOn graph e ∧ run.phase = .beginning := by
    intro run hrun
    obtain ⟨b, hb, rfl⟩ := List.mem_map.mp hrun
    exact ⟨hb, rfl⟩
  constructor
  · intro run hrun p hp
    rcases List.mem_append.mp hrun with hrun | hrun
    · exact hmore p (h.begun run hrun p hp)
    · exact hmore p (startsOn_done hroots he (hnew run hrun).1 p hp)
  · intro g hg
    rcases List.mem_append.mp hg with hg | hg
    · exact hmore _ (h.sources g hg)
    · have hsource := (gatesOn_source hg).1
      rw [hsource] at he
      exact hmore _ he
  · intro g hg hphase p hp
    rcases List.mem_append.mp hg with hg | hg
    · exact hmore p (h.firing g hg hphase p hp)
    · have harr := (gatesOn_source hg).2
      rw [harr] at hphase
      rcases hphase with hphase | hphase <;> cases hphase
  · exact fun g filled hf p hp => hmore p (h.arrived g filled hf p hp)
  · exact fun x hx => (h.remembered x hx).mono hmore
  · intro run hrun byGate signal x hx
    rcases List.mem_append.mp hrun with hrun | hrun
    · exact (h.storing run hrun byGate signal x hx).mono hmore
    · rw [(hnew run hrun).2] at hx
      cases hx
  · intro hne b hb
    by_cases hold : s.finalizeRuns = []
    · have hfin : triggerOf graph.terminalBlocks = some e := by
        by_contra hno
        refine hne ?_
        have hf : finalizesOn graph e = [] := if_neg hno
        show s.finalizeRuns ++ finalizesOn graph e = []
        rw [hold, hf]
        rfl
      exact hmore b (sound_trigger hfin he b hb)
    · exact hmore b (h.finalizing hold b hb)
  · intro run hrun r hr
    rcases List.mem_append.mp hrun with hrun | hrun
    · exact h.results run hrun r hr
    · rw [BlockRun.recorded?, (hnew run hrun).2] at hr
      cases hr
  · intro run hrun r hr
    rcases List.mem_append.mp hrun with hrun | hrun
    · exact h.own run hrun r hr
    · rw [BlockRun.result?, BlockRun.recorded?, (hnew run hrun).2] at hr
      cases hr
  · intro run hrun r hr
    rcases List.mem_append.mp hrun with hrun | hrun
    · exact h.completing run hrun r hr
    · rw [(hnew run hrun).2] at hr
      rcases hr with hr | hr <;> cases hr
  · intro run hrun r rest hr
    rcases List.mem_append.mp hrun with hrun | hrun
    · exact h.quiet run hrun r rest hr
    · rw [(hnew run hrun).2] at hr
      cases hr

variable {n : Nat} {run next : BlockRun} {t : BlocksExecution}

theorem Ordered.move (h : Ordered graph s) (hn : s.blockRuns[n]? = some run)
    (hruns : t.blockRuns = s.blockRuns.set n next) (hb : next.block = run.block)
    (hd : run.Done → next.Done)
    (hgates : t.gateRuns = s.gateRuns) (harr : t.arrived = s.arrived)
    (hfin : t.finalizeRuns = s.finalizeRuns) (hres : ∀ r ∈ s.results, r ∈ t.results)
    (hrem : ∀ e ∈ t.remembered, Sound s.blockRuns e ∨ Sound t.blockRuns e)
    (hstore : ∀ byGate signal e, next.phase = .storing byGate signal e → Sound s.blockRuns e)
    (hrec : ∀ r, next.recorded? = some r → r ∈ t.results)
    (hown : ∀ r, next.result? = some r → r.executionBlockId = next.block)
    (hcomp : ∀ r, (next.phase = .completing r ∨ next.phase = .delivering r) → r.state ≠ .waiting)
    (hquiet : ∀ r rest, next.phase = .announcing r rest → ∀ b, .event b .completed ∉ rest) :
    Ordered graph t := by
  have hdone : ∀ p, Done s.blockRuns p → Done t.blockRuns p := by
    intro p hp
    rw [hruns]
    exact hp.set hn hb hd
  have hcases : ∀ r ∈ t.blockRuns, r = next ∨ r ∈ s.blockRuns := by
    intro r hr
    rw [hruns] at hr
    exact (List.mem_or_eq_of_mem_set hr).symm
  have hmem := List.mem_of_getElem? hn
  constructor
  · intro r hr p hp
    rcases hcases r hr with rfl | hr
    · rw [hb] at hp
      exact hdone p (h.begun run hmem p hp)
    · exact hdone p (h.begun r hr p hp)
  · intro g hg
    rw [hgates] at hg
    exact hdone _ (h.sources g hg)
  · intro g hg hphase p hp
    rw [hgates] at hg
    exact hdone p (h.firing g hg hphase p hp)
  · intro g filled hf p hp
    rw [harr] at hf
    exact hdone p (h.arrived g filled hf p hp)
  · intro e he
    rcases hrem e he with he | he
    · exact he.mono hdone
    · exact he
  · intro r hr byGate signal e he
    rcases hcases r hr with rfl | hr
    · exact (hstore byGate signal e he).mono hdone
    · exact (h.storing r hr byGate signal e he).mono hdone
  · intro hne b hb'
    rw [hfin] at hne
    exact hdone b (h.finalizing hne b hb')
  · intro r hr x hx
    rcases hcases r hr with rfl | hr
    · exact hrec x hx
    · exact hres x (h.results r hr x hx)
  · intro r hr x hx
    rcases hcases r hr with rfl | hr
    · exact hown x hx
    · exact h.own r hr x hx
  · intro r hr x hx
    rcases hcases r hr with rfl | hr
    · exact hcomp x hx
    · exact h.completing r hr x hx
  · intro r hr x rest hx
    rcases hcases r hr with rfl | hr
    · exact hquiet x rest hx
    · exact h.quiet r hr x rest hx

theorem Ordered.goOn (h : Ordered graph s) (hn : s.blockRuns[n]? = some run)
    (hruns : t.blockRuns = s.blockRuns.set n next) (hb : next.block = run.block) (hrun : ¬ run.Done)
    (hsame : t.gateRuns = s.gateRuns ∧ t.arrived = s.arrived ∧ t.finalizeRuns = s.finalizeRuns ∧
      t.results = s.results)
    (hrem : ∀ e ∈ t.remembered, Sound s.blockRuns e)
    (hstore : ∀ byGate signal e, next.phase ≠ .storing byGate signal e)
    (hrec : ∀ r, next.recorded? = some r → run.recorded? = some r)
    (hown : ∀ r, next.result? = some r → r.executionBlockId = next.block)
    (hcomp : ∀ r, (next.phase = .completing r ∨ next.phase = .delivering r) → r.state ≠ .waiting)
    (hquiet : ∀ r rest, next.phase = .announcing r rest → ∀ b, .event b .completed ∉ rest) :
    Ordered graph t := by
  obtain ⟨hg, ha, hf, hr⟩ := hsame
  have hmem := List.mem_of_getElem? hn
  refine h.move hn hruns hb (fun hd => absurd hd hrun) hg ha hf ?_ ?_ ?_ ?_ hown hcomp hquiet
  · rw [hr]
    exact fun r hm => hm
  · exact fun e he => .inl (hrem e he)
  · exact fun byGate signal e he => absurd he (hstore byGate signal e)
  · intro r hx
    rw [hr]
    exact h.results run hmem r (hrec r hx)

theorem Ordered.pass (h : Ordered graph s) (hn : s.blockRuns[n]? = some run)
    (hruns : t.blockRuns = s.blockRuns.set n next) (hb : next.block = run.block) (hrun : ¬ run.Done)
    (hsame : t.gateRuns = s.gateRuns ∧ t.arrived = s.arrived ∧ t.finalizeRuns = s.finalizeRuns ∧
      t.results = s.results)
    (hrem : ∀ e ∈ t.remembered, Sound s.blockRuns e) (hnone : next.result? = none)
    (hstore : ∀ byGate signal e, next.phase ≠ .storing byGate signal e) : Ordered graph t := by
  have hrec : ∀ r, next.recorded? ≠ some r := by
    intro r hr
    unfold BlockRun.result? at hnone
    split at hnone
    · cases hnone
    · exact absurd (hnone.symm.trans hr) (Option.some_ne_none r).symm
  refine h.goOn hn hruns hb hrun hsame hrem hstore (fun r hr => absurd hr (hrec r)) ?_ ?_ ?_
  · intro r hr
    exact absurd (hnone.symm.trans hr) (Option.some_ne_none r).symm
  · rintro r (hc | hc)
    · exact absurd (by rw [BlockRun.recorded?, hc]) (hrec r)
    · exact absurd (by rw [BlockRun.recorded?, hc]) (hrec r)
  · intro r rest hc
    exact absurd (by rw [BlockRun.recorded?, hc]) (hrec r)

theorem remembered_event (h : Ordered graph s)
    (hlast : t.lastEvent = s.lastEvent ∨ t.lastEvent = e) (he : Sound s.blockRuns e)
    (hints : t.interrupts = s.interrupts) (hcalls : t.resumeCalls = s.resumeCalls) :
    ∀ x ∈ t.remembered, Sound s.blockRuns x := by
  intro x hx
  rw [BlocksExecution.remembered, hints, hcalls] at hx
  rcases List.mem_cons.mp hx with rfl | hx
  · rcases hlast with hlast | hlast
    · rw [hlast]
      exact h.remembered _ List.mem_cons_self
    · rw [hlast]
      exact he
  · exact h.remembered x (List.mem_cons_of_mem _ hx)

theorem answered_phase {block : String} {answer : HandlerAnswer} {phase : RunPhase}
    (h : answered graph block answer = some phase) :
    (∃ output, phase = .checking output) ∨ (∃ message, phase = .failing message) ∨
      (∃ byGate signal, phase = .pausing byGate signal) ∨ ∃ result, phase = .gated result := by
  cases answer with
  | returns output => exact .inl ⟨output, (Option.some.inj h).symm⟩
  | raises message => exact .inr (.inl ⟨message, (Option.some.inj h).symm⟩)
  | pauses byGate signal =>
    simp only [answered] at h
    split at h
    · cases h
    · exact .inr (.inr (.inl ⟨byGate, signal, (Option.some.inj h).symm⟩))
  | decides result =>
    simp only [answered] at h
    split at h
    · exact .inr (.inr (.inr ⟨result, (Option.some.inj h).symm⟩))
    · cases h

theorem announce_same (s : BlocksExecution) (x : Announcement) :
    (announce s x).gateRuns = s.gateRuns ∧ (announce s x).arrived = s.arrived ∧
      (announce s x).finalizeRuns = s.finalizeRuns ∧ (announce s x).results = s.results ∧
      (announce s x).blockRuns = s.blockRuns ∧ (announce s x).interrupts = s.interrupts ∧
      (announce s x).resumeCalls = s.resumeCalls := by
  cases x <;> exact ⟨rfl, rfl, rfl, rfl, rfl, rfl, rfl⟩

theorem appendItem_same (s : BlocksExecution) (item : LedgerItem) :
    (appendItem s item).gateRuns = s.gateRuns ∧ (appendItem s item).arrived = s.arrived ∧
      (appendItem s item).finalizeRuns = s.finalizeRuns ∧ (appendItem s item).results = s.results ∧
      (appendItem s item).blockRuns = s.blockRuns ∧ (appendItem s item).interrupts = s.interrupts ∧
      (appendItem s item).resumeCalls = s.resumeCalls := by
  cases item <;> exact ⟨rfl, rfl, rfl, rfl, rfl, rfl, rfl⟩

theorem announcements_quiet (r : BlockResult) (b : String) :
    Announcement.event b .completed ∉ announcements graph reprOf r := by
  unfold announcements
  cases r.state <;> simp

theorem following_quiet (s : BlocksExecution) (x : Announcement) (b : String) :
    Announcement.event b .completed ∉ following s x := by
  unfold following
  split <;> simp

theorem setBlockRun_of_eq {u : BlocksExecution} (hu : u.blockRuns = s.blockRuns)
    : (setBlockRun u n next).blockRuns = s.blockRuns.set n next :=
  congrArg (fun runs => List.set runs n next) hu

theorem ordered_stepBlock (h : Ordered graph s) (hroots : RootsStart graph)
    (hn : s.blockRuns[n]? = some run) {answer : HandlerAnswer}
    (ht : stepBlock graph recorder reprOf s n run answer = some t) : Ordered graph t := by
  have hmem := List.mem_of_getElem? hn
  have hkept : ∀ e ∈ s.remembered, Sound s.blockRuns e := h.remembered
  have hown := h.own run hmem
  have hcomp := h.completing run hmem
  have hstore := h.storing run hmem
  have hres := h.results run hmem
  have hquiet := h.quiet run hmem
  obtain ⟨block, paused, phase⟩ := run
  cases phase with
  | beginning =>
    simp only [stepBlock] at ht
    split at ht
    · cases ht
      exact h.goOn hn rfl rfl id ⟨rfl, rfl, rfl, rfl⟩ hkept (by simp) (fun _ hr => by cases hr)
        (fun r hr => by cases hr; rfl) (by simp) (by simp)
    · cases ht
      exact h.goOn hn rfl rfl id ⟨rfl, rfl, rfl, rfl⟩ hkept (by simp) (fun _ hr => by cases hr)
        (fun _ hr => by cases hr) (by simp) (by simp)
  | starting =>
    cases ht
    exact h.pass hn rfl rfl id ⟨rfl, rfl, rfl, rfl⟩
      (remembered_event h (e := .block block .started) (.inr rfl) trivial rfl rfl)
      rfl (by simp)
  | executing =>
    obtain ⟨next, hnext, ht⟩ := Option.bind_eq_some_iff.mp ht
    cases ht
    rcases answered_phase hnext with ⟨output, rfl⟩ | ⟨message, rfl⟩ | ⟨byGate, signal, rfl⟩ | ⟨result, rfl⟩ <;>
      exact h.pass hn rfl rfl id ⟨rfl, rfl, rfl, rfl⟩ hkept rfl (by simp)
  | pausing byGate signal =>
    cases ht
    refine h.move hn rfl rfl id rfl rfl rfl (fun r hr => hr) (fun e he => .inl (hkept e he)) ?_
      (fun _ hr => by cases hr) (fun _ hr => by cases hr) (by simp) (by simp)
    intro byGate' signal' e he
    cases he
    exact hkept _ List.mem_cons_self
  | storing byGate signal source =>
    cases ht
    have hsound := hstore byGate signal source rfl
    refine h.move hn rfl rfl False.elim rfl rfl rfl (fun r hr => hr) ?_ ?_ ?_ ?_ ?_ ?_
    · intro e he
      simp only [BlocksExecution.remembered, setBlockRun, List.map_append, List.mem_cons,
        List.mem_append] at he
      rcases he with rfl | (he | he) | he
      · exact .inl (hkept _ List.mem_cons_self)
      · exact .inl (hkept e (List.mem_cons_of_mem _ (List.mem_append_left _ he)))
      · simp only [List.map_cons, List.map_nil, List.mem_cons, List.not_mem_nil, or_false] at he
        rw [he]
        exact .inl hsound
      · exact .inl (hkept e (List.mem_cons_of_mem _ (List.mem_append_right _ he)))
    all_goals cases byGate <;> simp [BlockRun.recorded?, BlockRun.result?]
  | gated result =>
    cases ht
    exact h.pass hn rfl rfl id ⟨rfl, rfl, rfl, rfl⟩ hkept rfl (by simp)
  | checking output =>
    cases ht
    exact h.goOn hn rfl rfl id ⟨rfl, rfl, rfl, rfl⟩ hkept (by simp) (fun _ hr => by cases hr)
      (fun r hr => by cases hr; rfl) (by simp) (by simp)
  | recording r =>
    cases ht
    refine h.move hn rfl rfl id rfl rfl rfl (fun x hx => List.mem_append_left _ hx)
      (fun e he => .inl (hkept e he)) (by simp) ?_ ?_ (by simp) (by simp)
    · intro x hx
      cases hx
      exact List.mem_append_right _ List.mem_cons_self
    · intro x hx
      cases hx
      exact hown r rfl
  | ledger r items =>
    cases items with
    | nil =>
      cases ht
      refine h.goOn hn rfl rfl id ⟨rfl, rfl, rfl, rfl⟩ hkept (by simp) (fun x hx => hx)
        (fun x hx => hown x hx) (by simp) ?_
      intro x rest hx
      cases hx
      exact announcements_quiet r
    | cons item rest =>
      cases ht
      obtain ⟨hg, ha, hf, hr, hb, hi, hc⟩ := appendItem_same s item
      have hlast : (appendItem s item).lastEvent = s.lastEvent := by cases item <;> rfl
      refine h.goOn hn (setBlockRun_of_eq hb) rfl id ⟨hg, ha, hf, hr⟩ ?_ (by simp)
        (fun x hx => hx) (fun x hx => hown x hx) (by simp) (by simp)
      exact remembered_event h (e := .flowStart) (.inl hlast) trivial hi hc
  | announcing r rest =>
    cases rest with
    | nil =>
      cases ht
      by_cases hw : r.state = .waiting
      · simp only [if_pos hw]
        exact h.move hn rfl rfl False.elim rfl rfl rfl (fun x hx => hx)
          (fun e he => .inl (hkept e he)) (by simp) (fun x hx => hres x hx)
          (fun x hx => hown x hx) (by simp) (by simp)
      · simp only [if_neg hw]
        refine h.goOn hn rfl rfl id ⟨rfl, rfl, rfl, rfl⟩ hkept (by simp) (fun x hx => hx)
          (fun x hx => hown x hx) ?_ (by simp)
        rintro x (hx | hx)
        · cases hx
          exact hw
        · cases hx
    | cons x rest =>
      cases ht
      obtain ⟨hg, ha, hf, hr, hb, hi, hc⟩ := announce_same s x
      refine h.goOn hn (setBlockRun_of_eq hb) rfl id ⟨hg, ha, hf, hr⟩ ?_ (by simp)
        (fun x hx => hx) (fun x hx => hown x hx) (by simp) ?_
      · refine remembered_event h (e := (announce s x).lastEvent) (.inr rfl) ?_ hi hc
        cases x with
        | event b phase =>
          cases phase with
          | completed => exact absurd List.mem_cons_self (hquiet r _ rfl b)
          | _ => trivial
        | _ => exact hkept _ List.mem_cons_self
      · intro y rest' hy b hb
        cases hy
        rcases List.mem_append.mp hb with hb | hb
        · exact following_quiet s x b hb
        · exact hquiet r _ rfl b (List.mem_cons_of_mem x hb)
  | completing r =>
    cases ht
    have hne := hcomp r (.inl rfl)
    refine h.move hn rfl rfl (fun hd => by cases hd) rfl rfl rfl (fun x hx => hx) ?_ (by simp)
      (fun x hx => hres x hx) (fun x hx => hown x hx) ?_ (by simp)
    · intro e he
      rcases List.mem_cons.mp he with rfl | he
      · refine .inr ⟨⟨block, paused, .delivering r⟩, ?_, rfl, hne⟩
        exact List.mem_set (List.getElem?_eq_some_iff.mp hn).1 _
      · exact .inl (hkept e (List.mem_cons_of_mem _ he))
    · rintro x (hx | hx)
      · cases hx
      · cases hx
        exact hne
  | delivering r =>
    cases ht
    have hne := hcomp r (.inr rfl)
    have hmove : Ordered graph (setBlockRun s n ⟨block, paused, .returning r⟩) := by
      refine h.move hn rfl rfl (fun _ => hne) rfl rfl rfl (fun x hx => hx)
        (fun e he => .inl (hkept e he)) (by simp) (fun x hx => hres x hx) (fun x hx => hown x hx) (by simp)
        (by simp)
    refine hmove.deliver hroots ⟨⟨block, paused, .returning r⟩, ?_, rfl, hne⟩
    exact List.mem_set (List.getElem?_eq_some_iff.mp hn).1 _
  | returning r =>
    cases ht
    generalize hu : (if paused = true ∧ r.state = .waiting then s else returned s block) = u
    have hreturned : (u = s ∨ u = { s with lastEvent := .returned block }) := by
      rw [← hu]
      unfold returned
      split
      · exact .inl rfl
      · split
        · exact .inl rfl
        · exact .inr rfl
    rcases hreturned with rfl | rfl
    · exact h.move hn rfl rfl id rfl rfl rfl (fun x hx => hx) (fun e he => .inl (hkept e he))
        (by simp) (fun x hx => hres x hx) (fun x hx => hown x hx) (by simp) (by simp)
    · have hrem := remembered_event h (t := { s with lastEvent := .returned block })
        (e := .returned block) (.inr rfl) trivial rfl rfl
      exact h.move hn rfl rfl id rfl rfl rfl (fun x hx => hx) (fun e he => .inl (hrem e he))
        (by simp) (fun x hx => hres x hx) (fun x hx => hown x hx) (by simp) (by simp)
  | failing message =>
    cases ht
    exact h.goOn hn rfl rfl id ⟨rfl, rfl, rfl, rfl⟩ hkept (by simp) (fun _ hr => by cases hr)
      (fun _ hr => by cases hr) (by simp) (by simp)
  | raising message =>
    cases ht
    exact h.pass hn rfl rfl id ⟨rfl, rfl, rfl, rfl⟩
      (remembered_event h (e := .block block .failed) (.inr rfl) trivial rfl rfl)
      rfl (by simp)
  | ended r => cases ht
  | raised message => cases ht

theorem Ordered.keep (h : Ordered graph s) (hruns : t.blockRuns = s.blockRuns)
    (hres : t.results = s.results)
    (hgates : ∀ g ∈ t.gateRuns, Done s.blockRuns g.source ∧
      (g.phase = .firing ∨ g.phase = .delivering → ∀ p ∈ g.gate, Done s.blockRuns p))
    (harr : ∀ g filled, t.arrived.get? g = some filled → ∀ p ∈ filled, Done s.blockRuns p)
    (hrem : ∀ e ∈ t.remembered, Sound s.blockRuns e)
    (hfin : t.finalizeRuns ≠ [] → s.finalizeRuns ≠ []) : Ordered graph t := by
  constructor
  · rw [hruns]
    exact h.begun
  · rw [hruns]
    exact fun g hg => (hgates g hg).1
  · rw [hruns]
    exact fun g hg => (hgates g hg).2
  · rw [hruns]
    exact harr
  · rw [hruns]
    exact hrem
  · rw [hruns]
    exact h.storing
  · rw [hruns]
    exact fun hne => h.finalizing (hfin hne)
  · rw [hruns, hres]
    exact h.results
  · rw [hruns]
    exact h.own
  · rw [hruns]
    exact h.completing
  · rw [hruns]
    exact h.quiet

theorem gates_set (h : Ordered graph s) {run next : GateRun}
    (hn : s.gateRuns[n]? = some run) (hsource : next.source = run.source)
    (hfire : next.phase = .firing ∨ next.phase = .delivering → ∀ p ∈ next.gate, Done s.blockRuns p) :
    ∀ g ∈ s.gateRuns.set n next, Done s.blockRuns g.source ∧
      (g.phase = .firing ∨ g.phase = .delivering → ∀ p ∈ g.gate, Done s.blockRuns p) := by
  intro g hg
  rcases List.mem_or_eq_of_mem_set hg with hg | rfl
  · exact ⟨h.sources g hg, h.firing g hg⟩
  · rw [hsource]
    exact ⟨h.sources run (List.mem_of_getElem? hn), hfire⟩

theorem ordered_stepGate (h : Ordered graph s) (hroots : RootsStart graph) {run : GateRun}
    (hn : s.gateRuns[n]? = some run) (ht : stepGate graph s n run = some t) :
    Ordered graph t := by
  have hmem := List.mem_of_getElem? hn
  have hsource := h.sources run hmem
  have hfiring := h.firing run hmem
  obtain ⟨gate, source, phase⟩ := run
  cases phase with
  | arriving =>
    cases ht
    have hfilled : ∀ p ∈ source :: (s.arrived.get? gate).getD [], Done s.blockRuns p := by
      intro p hp
      rcases List.mem_cons.mp hp with rfl | hp
      · exact hsource
      · cases hold : s.arrived.get? gate with
        | none =>
          rw [hold] at hp
          cases hp
        | some old =>
          rw [hold] at hp
          exact h.arrived gate old hold p hp
    refine h.keep rfl rfl (gates_set h hn rfl ?_) ?_ h.remembered id
    · intro hphase p hp
      dsimp only at hphase
      split at hphase
      · rename_i hall
        exact hfilled p (hall p hp)
      · rcases hphase with hphase | hphase <;> cases hphase
    · intro g filled hg
      by_cases he : gate = g
      · subst he
        rw [setGateRun, Dict.get?_set_self] at hg
        cases hg
        exact hfilled
      · rw [setGateRun, Dict.get?_set_of_ne _ _ he] at hg
        exact h.arrived g filled hg
  | firing =>
    cases ht
    have hjoined : Sound s.blockRuns (.joined gate) := hfiring (.inl rfl)
    have hrem := remembered_event h (t := { s with lastEvent := .joined gate })
      (e := .joined gate) (.inr rfl) hjoined rfl rfl
    exact h.keep rfl rfl (gates_set h hn rfl fun _ => hjoined) h.arrived hrem id
  | delivering =>
    cases ht
    have hmove : Ordered graph (setGateRun s n ⟨gate, source, .clearing⟩) :=
      h.keep rfl rfl (gates_set h hn rfl (by simp)) h.arrived h.remembered id
    exact hmove.deliver hroots (hfiring (.inr rfl))
  | clearing =>
    cases ht
    refine h.keep rfl rfl (gates_set h hn rfl (by simp)) ?_ h.remembered id
    intro g filled hg
    by_cases he : gate = g
    · subst he
      rw [setGateRun, Dict.get?_del_self] at hg
      cases hg
    · rw [setGateRun, Dict.get?_del_of_ne _ he] at hg
      exact h.arrived g filled hg
  | ended => cases ht

theorem ordered_stepFinalize (h : Ordered graph s) {phase : FinalizePhase}
    (hn : s.finalizeRuns[n]? = some phase)
    (ht : stepFinalize s n phase = some t) : Ordered graph t := by
  have hne : s.finalizeRuns ≠ [] := List.ne_nil_of_mem (List.mem_of_getElem? hn)
  have hgates : ∀ g ∈ s.gateRuns, Done s.blockRuns g.source ∧
      (g.phase = .firing ∨ g.phase = .delivering → ∀ p ∈ g.gate, Done s.blockRuns p) :=
    fun g hg => ⟨h.sources g hg, h.firing g hg⟩
  cases phase with
  | reading =>
    cases ht
    exact h.keep rfl rfl hgates h.arrived h.remembered fun _ => hne
  | writing results =>
    cases ht
    exact h.keep rfl rfl hgates h.arrived h.remembered fun _ => hne
  | returning =>
    cases ht
    unfold returned
    split
    · exact h.keep rfl rfl hgates h.arrived h.remembered fun _ => hne
    · have hrem := remembered_event h (t := { s with lastEvent := .returned "__finalize__" })
        (e := .returned "__finalize__") (.inr rfl) trivial rfl rfl
      exact h.keep rfl rfl hgates h.arrived hrem fun _ => hne
  | ended => cases ht

theorem ordered_step (hroots : RootsStart graph) {a : BlocksAction}
    (h : Ordered graph s) (ht : blocksStep graph recorder reprOf s a = some t) : Ordered graph t := by
  have hgates : ∀ g ∈ s.gateRuns, Done s.blockRuns g.source ∧
      (g.phase = .firing ∨ g.phase = .delivering → ∀ p ∈ g.gate, Done s.blockRuns p) :=
    fun g hg => ⟨h.sources g hg, h.firing g hg⟩
  cases a with
  | block n answer =>
    obtain ⟨run, hn, ht⟩ := Option.bind_eq_some_iff.mp ht
    exact ordered_stepBlock h hroots hn ht
  | gate n =>
    obtain ⟨run, hn, ht⟩ := Option.bind_eq_some_iff.mp ht
    exact ordered_stepGate h hroots hn ht
  | finalize n =>
    obtain ⟨phase, hn, ht⟩ := Option.bind_eq_some_iff.mp ht
    exact ordered_stepFinalize h hn ht
  | continueWith k =>
    obtain ⟨i, hk, ht⟩ := Option.bind_eq_some_iff.mp ht
    split at ht
    · cases ht
      have hi : i.source ∈ s.remembered :=
        List.mem_cons_of_mem _ (List.mem_append_left _
          (List.mem_map_of_mem (List.mem_of_getElem? hk)))
      refine h.keep rfl rfl hgates h.arrived ?_ id
      intro e he
      simp only [BlocksExecution.remembered, List.map_append, List.mem_cons, List.mem_append] at he
      rcases he with rfl | he | he | he
      · exact h.remembered _ List.mem_cons_self
      · obtain ⟨j, hj, rfl⟩ := List.mem_map.mp he
        rcases List.mem_or_eq_of_mem_set hj with hj | rfl
        · exact h.remembered _ (List.mem_cons_of_mem _ (List.mem_append_left _
            (List.mem_map_of_mem hj)))
        · exact h.remembered _ hi
      · exact h.remembered e (List.mem_cons_of_mem _ (List.mem_append_right _ he))
      · simp only [List.map_cons, List.map_nil, List.mem_cons, List.not_mem_nil, or_false] at he
        rw [he]
        exact h.remembered _ hi
    · cases ht
  | resuming n =>
    obtain ⟨call, hn, ht⟩ := Option.bind_eq_some_iff.mp ht
    have hcall : call.event ∈ s.remembered :=
      List.mem_cons_of_mem _ (List.mem_append_right _
        (List.mem_map_of_mem (List.mem_of_getElem? hn)))
    have hcalls : ∀ phase, ∀ e ∈ (s.resumeCalls.set n { call with phase := phase }).map
        ResumeCall.event, Sound s.blockRuns e := by
      intro phase e he
      obtain ⟨c, hc, rfl⟩ := List.mem_map.mp he
      rcases List.mem_or_eq_of_mem_set hc with hc | rfl
      · exact h.remembered _ (List.mem_cons_of_mem _ (List.mem_append_right _
          (List.mem_map_of_mem hc)))
      · exact h.remembered _ hcall
    have hints : ∀ e ∈ s.interrupts.map Interrupt.source, Sound s.blockRuns e :=
      fun e he => h.remembered e (List.mem_cons_of_mem _ (List.mem_append_left _ he))
    obtain ⟨event, phase⟩ := call
    cases phase with
    | remembering =>
      cases ht
      refine h.keep rfl rfl hgates h.arrived ?_ id
      intro e he
      simp only [BlocksExecution.remembered, List.mem_cons, List.mem_append] at he
      rcases he with rfl | he | he
      · exact h.remembered _ hcall
      · exact hints e he
      · exact hcalls .delivering e he
    | delivering =>
      cases ht
      have hmove : Ordered graph
          { s with resumeCalls := s.resumeCalls.set n ⟨event, .ended⟩ } := by
        refine h.keep rfl rfl hgates h.arrived ?_ id
        intro e he
        simp only [BlocksExecution.remembered, List.mem_cons, List.mem_append] at he
        rcases he with rfl | he | he
        · exact h.remembered _ List.mem_cons_self
        · exact hints e he
        · exact hcalls .ended e he
      exact hmove.deliver hroots (h.remembered _ hcall)
    | ended => cases ht

end Steps

section Runs

variable {graph : ExecutionBlockGraph} {recorder : Recorder} {reprOf : Value → String}

variable {s : BlocksExecution}

theorem ordered_initial (hroots : RootsStart graph) {isAlnum : Char → Bool}
    (hs : bindRuntime graph isAlnum = some s) : Ordered graph s := by
  have hempty : Ordered graph {} :=
    { begun := fun _ hr => absurd hr List.not_mem_nil
      sources := fun _ hg => absurd hg List.not_mem_nil
      firing := fun _ hg => absurd hg List.not_mem_nil
      arrived := fun _ _ hf => absurd hf.symm (Option.some_ne_none _)
      remembered := by
        intro e he
        cases List.mem_singleton.mp he
        trivial
      storing := fun _ hr => absurd hr List.not_mem_nil
      finalizing := fun hne => absurd rfl hne
      results := fun _ hr => absurd hr List.not_mem_nil
      own := fun _ hr => absurd hr List.not_mem_nil
      completing := fun _ hr => absurd hr List.not_mem_nil
      quiet := fun _ hr => absurd hr List.not_mem_nil }
  unfold bindRuntime at hs
  split at hs
  · cases hs
    exact hempty.deliver hroots trivial
  · cases hs

/-- An edge leads from `a` to `b`. -/
def Precedes (graph : ExecutionBlockGraph) (a b : String) : Prop := a ∈ graph.incoming b

theorem Ordered.ancestors (h : Ordered graph s) {a b : String}
    (hab : Relation.TransGen (Precedes graph) a b) :
    ∀ run ∈ s.blockRuns, run.block = b → Done s.blockRuns a := by
  induction hab with
  | single hstep =>
    rintro run hrun rfl
    exact h.begun run hrun a hstep
  | tail _ hstep ih =>
    rintro run hrun rfl
    obtain ⟨before, hbefore, hblock, -⟩ := h.begun run hrun _ hstep
    exact ih before hbefore hblock

theorem Ordered.result_of_done (h : Ordered graph s) {b : String} (hb : Done s.blockRuns b) :
    ∃ run ∈ s.blockRuns, run.block = b ∧ ∃ r ∈ s.results, run.result? = some r ∧
      r.executionBlockId = b ∧ r.state ≠ .waiting := by
  obtain ⟨run, hrun, rfl, hdone⟩ := hb
  have hrec : ∃ r, run.recorded? = some r ∧ run.result? = some r ∧ r.state ≠ .waiting := by
    obtain ⟨block, paused, phase⟩ := run
    cases phase with
    | delivering r | returning r | ended r => exact ⟨r, rfl, rfl, hdone⟩
    | _ => exact hdone.elim
  obtain ⟨r, hr, hres, hne⟩ := hrec
  exact ⟨run, hrun, rfl, r, h.results run hrun r hr, hres, h.own run hrun r hres, hne⟩

end Runs

theorem mem_incoming {graph : ExecutionBlockGraph} {a b : String} :
    a ∈ graph.incoming b ↔ ⟨a, b⟩ ∈ graph.edges := by
  constructor
  · intro h
    obtain ⟨e, he, rfl⟩ := List.mem_map.mp h
    obtain ⟨he, hb⟩ := List.mem_filter.mp he
    have hto : e.toExecutionBlock = b := by simpa using hb
    rw [← hto]
    exact he
  · intro h
    exact List.mem_map.mpr ⟨_, List.mem_filter.mpr ⟨h, by simp⟩, rfl⟩

theorem rootsStart_of_compile {reprOf : Value → String} {registered : List String}
    {request : BlockCompileRequest} {graph : ExecutionBlockGraph}
    (hc : compile reprOf registered request = .ok graph) : RootsStart graph := by
  obtain ⟨-, lowered, -, hl⟩ := compile_eq_ok hc
  intro b hb
  refine List.eq_nil_iff_forall_not_mem.mpr fun a ha => ?_
  have hedge := mem_incoming.mp ha
  subst hl
  have hnot := (List.mem_filter.mp hb).2
  refine (of_decide_eq_true hnot) ?_
  exact List.mem_map.mpr ⟨_, (List.mem_filter.mp hedge).1, rfl⟩

end Agently.Blocks
