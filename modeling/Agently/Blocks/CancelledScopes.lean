import Agently.Blocks.CapabilityGates

/-! # What replan signals cancel

A block that completes has cancelled the blocks its signals affect, and no others. Handlers that
read the cancelled blocks before one of them has written its own record a block twice. -/

namespace Agently.Blocks

open Agently.Lib Agently.Utils Agently.TaskDAGValidation

section Scopes

variable {graph : ExecutionBlockGraph}

def LeadsTo (graph : ExecutionBlockGraph) : String → String → Prop :=
  Relation.TransGen (Precedes graph)

def EdgesInside (graph : ExecutionBlockGraph) : Prop :=
  ∀ a b, Precedes graph a b → a ∈ graph.blockIds ∧ b ∈ graph.blockIds

theorem edgesInside_of_compile {reprOf : Value → String} {registered : List String}
    {request : BlockCompileRequest} (hc : compile reprOf registered request = .ok graph) :
    EdgesInside graph := by
  obtain ⟨-, lowered, -, rfl⟩ := compile_eq_ok hc
  intro a b h
  exact of_decide_eq_true (List.mem_filter.mp (mem_incoming.mp h)).2

theorem mem_children {a b : String} : b ∈ graph.children a ↔ Precedes graph a b := by
  rw [Precedes, mem_incoming]
  constructor
  · intro h
    obtain ⟨e, he, rfl⟩ := List.mem_map.mp h
    obtain ⟨he, ha⟩ := List.mem_filter.mp he
    have hfrom : e.fromExecutionBlock = a := by simpa using ha
    rw [← hfrom]
    exact he
  · intro h
    exact List.mem_map.mpr ⟨_, List.mem_filter.mpr ⟨h, by simp⟩, rfl⟩

theorem LeadsTo.inside (hin : EdgesInside graph) {a b : String} (h : LeadsTo graph a b) :
    a ∈ graph.blockIds ∧ b ∈ graph.blockIds := by
  obtain ⟨c, hac, -⟩ := Relation.TransGen.head'_iff.mp h
  obtain ⟨d, -, hdb⟩ := Relation.TransGen.tail'_iff.mp h
  exact ⟨(hin a c hac).1, (hin d b hdb).2⟩

theorem mem_downstreamBlockIds (hin : EdgesInside graph) {a b : String} :
    b ∈ downstreamBlockIds graph.blockIds graph.children a ↔ LeadsTo graph a b := by
  have hclosed : ∀ x ∈ graph.blockIds, ∀ y ∈ graph.children x, y ∈ graph.blockIds :=
    fun x _ y hy => (hin x y (mem_children.mp hy)).2
  have hstart : Reachable.Invariant graph.children (graph.children a).dedup graph.blockIds
      { queue := (graph.children a).dedup, seen := (graph.children a).dedup } :=
    { nodup := List.nodup_dedup _
      inside := fun x hx => (hin a x (mem_children.mp (List.mem_dedup.mp hx))).2
      starts := fun _ hx => hx
      queued := fun _ hx => hx
      reached := fun x hx => ⟨x, hx, .refl⟩
      followed := fun _ hx hno => absurd hx hno }
  have hdone := Reachable.rounds_queue hclosed hstart rfl
  have hrounds := Reachable.rounds_invariant hclosed graph.blockIds.length hstart
  refine (hrounds.mem_iff hdone b).trans ?_
  have hnext : (fun x y => y ∈ graph.children x) = Precedes graph := by
    funext x y
    exact propext mem_children
  rw [LeadsTo, Relation.TransGen.head'_iff, Reachable.Reaches, hnext]
  simp only [List.mem_dedup, mem_children]

variable (graph) (reprOf : Value → String)

/-- What the signals of a result affect; `counts` tells which of the names in a signal count. -/
def Affects (counts : String → Prop) (r : BlockResult) (b : String) : Prop :=
  b ∈ graph.blockIds ∧ b ≠ r.executionBlockId ∧
    ∃ signal ∈ replanSignalsFromOutput reprOf r.output, signal.status ≠ "continue" ∧
      ((∃ named ∈ signal.affectedExecutionBlockIds, counts named ∧
          (named = b ∨ LeadsTo graph named b)) ∨
        (signal.affectedExecutionBlockIds = [] ∧ signal.status ≠ "repair" ∧
          LeadsTo graph r.executionBlockId b))

def Scope : BlockResult → String → Prop := Affects graph reprOf fun _ => True

/-- The name of the block itself affects nothing. -/
def OthersScope (r : BlockResult) : String → Prop :=
  Affects graph reprOf (fun named => named ≠ r.executionBlockId) r

/-- What is behind a block that a signal of its own names is affected in another way as well. -/
def OwnNameCovered (r : BlockResult) : Prop :=
  ∀ signal ∈ replanSignalsFromOutput reprOf r.output, signal.status ≠ "continue" →
    r.executionBlockId ∈ signal.affectedExecutionBlockIds →
      ∀ b, LeadsTo graph r.executionBlockId b → b ≠ r.executionBlockId → OthersScope graph reprOf r b

def cancelledIdsOf (r : BlockResult) : List String :=
  cancelledIdsForReplanSignals graph.blockIds graph.children r.executionBlockId
    (replanSignalsFromOutput reprOf r.output)

variable {graph reprOf}

theorem mem_affectedBy (hin : EdgesInside graph) {current b : String} {signal : ReplanSignal}
    (hb : b ∈ graph.blockIds) (hne : b ≠ current) :
    b ∈ affectedBy graph.blockIds graph.children current signal ↔ signal.status ≠ "continue" ∧
      ((∃ named ∈ signal.affectedExecutionBlockIds, named ≠ current ∧
          (named = b ∨ LeadsTo graph named b)) ∨
        (signal.affectedExecutionBlockIds = [] ∧ signal.status ≠ "repair" ∧
          LeadsTo graph current b)) := by
  unfold affectedBy
  split_ifs with hcontinue hnames hrepair
  · simp [hcontinue]
  · simp only [List.mem_flatMap, List.mem_filter, decide_eq_true_eq, List.mem_cons,
      mem_downstreamBlockIds hin, hnames, false_and, or_false]
    constructor
    · rintro ⟨named, ⟨hnamed, -, hother⟩, hto⟩
      exact ⟨hcontinue, named, hnamed, hother, hto.imp_left Eq.symm⟩
    · rintro ⟨-, named, hnamed, hother, hto⟩
      refine ⟨named, ⟨hnamed, ?_, hother⟩, hto.imp_left Eq.symm⟩
      rcases hto with rfl | hto
      · exact hb
      · exact (hto.inside hin).1
  · simp [not_not.mp hnames, hrepair]
  · simp [not_not.mp hnames, hrepair, hcontinue, mem_downstreamBlockIds hin]

theorem mem_cancelledIdsOf (hin : EdgesInside graph) {r : BlockResult} {b : String} :
    b ∈ cancelledIdsOf graph reprOf r ↔ OthersScope graph reprOf r b := by
  simp only [cancelledIdsOf, cancelledIdsForReplanSignals, List.mem_filter, decide_eq_true_eq,
    List.mem_flatMap]
  constructor
  · rintro ⟨hb, ⟨signal, hs, hmem⟩, hne⟩
    exact ⟨hb, hne, signal, hs, (mem_affectedBy hin hb hne).mp hmem⟩
  · rintro ⟨hb, hne, signal, hs, hmem⟩
    exact ⟨hb, ⟨signal, hs, (mem_affectedBy hin hb hne).mpr hmem⟩, hne⟩

theorem scope_of_othersScope {r : BlockResult} {b : String} (h : OthersScope graph reprOf r b) :
    Scope graph reprOf r b := by
  obtain ⟨hb, hne, signal, hs, hstatus, hway⟩ := h
  refine ⟨hb, hne, signal, hs, hstatus, hway.imp_left ?_⟩
  rintro ⟨named, hnamed, -, hto⟩
  exact ⟨named, hnamed, trivial, hto⟩

theorem othersScope_of_covered {r : BlockResult} {b : String} (hown : OwnNameCovered graph reprOf r)
    (h : Scope graph reprOf r b) : OthersScope graph reprOf r b := by
  obtain ⟨hb, hne, signal, hs, hstatus, ⟨named, hnamed, -, hto⟩ | hway⟩ := h
  · by_cases hself : named = r.executionBlockId
    · subst hself
      exact hown signal hs hstatus hnamed b (hto.resolve_left hne.symm) hne
    · exact ⟨hb, hne, signal, hs, hstatus, .inl ⟨named, hnamed, hself, hto⟩⟩
  · exact ⟨hb, hne, signal, hs, hstatus, .inr hway⟩

end Scopes

section Cancelling

variable {graph : ExecutionBlockGraph} {recorder : Recorder} {reprOf : Value → String}
  {s t : BlocksExecution} {r : BlockResult} {rest : List Announcement}

def Announcement.cancel? : Announcement → Option String
  | .cancel c => some c
  | _ => none

/-- It neither reads nor extends the cancelled blocks. -/
def Announcement.Quiet : Announcement → Prop
  | .event _ _ | .signal _ => True
  | _ => False

/-- What is still to be announced of a result, from before it is read what has been cancelled to
the last cancellation. -/
inductive Owes (graph : ExecutionBlockGraph) (reprOf : Value → String) (s : BlocksExecution)
    (r : BlockResult) : List Announcement → Prop
  | other {rest : List Announcement} (hstate : r.state ≠ .completed) (hrest : ∀ x ∈ rest, x.Quiet) :
      Owes graph reprOf s r rest
  | unread {said : List Announcement} (hstate : r.state = .completed)
      (hsaid : ∀ x ∈ said, x.Quiet) :
      Owes graph reprOf s r (said ++ [.readCancelled (cancelledIdsOf graph reprOf r)])
  | read {rest : List Announcement} (hstate : r.state = .completed)
      (hrest : ∀ x ∈ rest, x.Quiet ∨ ∃ c ∈ cancelledIdsOf graph reprOf r, x = .cancel c)
      (hall : ∀ c ∈ cancelledIdsOf graph reprOf r, c ∈ s.cancelled ∨ .cancel c ∈ rest) :
      Owes graph reprOf s r rest

theorem Owes.mono (h : Owes graph reprOf s r rest) (hg : ∀ c ∈ s.cancelled, c ∈ t.cancelled) :
    Owes graph reprOf t r rest := by
  cases h with
  | other hstate hrest => exact .other hstate hrest
  | unread hstate hsaid => exact .unread hstate hsaid
  | read hstate hrest hall => exact .read hstate hrest fun c hc => (hall c hc).imp_left (hg c)

theorem owes_announcements (r : BlockResult) :
    Owes graph reprOf s r (announcements graph reprOf r) := by
  unfold announcements
  cases hstate : r.state with
  | waiting | cancelled =>
    refine .other (by rw [hstate]; nofun) fun x hx => ?_
    cases List.mem_singleton.mp hx
    trivial
  | completed =>
    refine .unread hstate fun x hx => ?_
    simp only [List.cons_append, List.nil_append, List.mem_cons, List.mem_flatMap,
      List.not_mem_nil, or_false] at hx
    rcases hx with rfl | rfl | ⟨signal, -, rfl | rfl⟩ <;> trivial

theorem mem_readCancelled {ids : List String} {x : Announcement}
    (hx : x ∈ following s (.readCancelled ids)) : x.Quiet ∨ ∃ c ∈ ids, x = .cancel c := by
  obtain ⟨c, hc, hx⟩ := List.mem_flatMap.mp hx
  simp only [List.mem_reverse, List.mem_dedup, List.mem_filter] at hc
  simp only [List.mem_cons, List.not_mem_nil, or_false] at hx
  rcases hx with rfl | rfl
  · exact .inr ⟨c, hc.1, rfl⟩
  · exact .inl trivial

theorem Owes.head {x : Announcement} (h : Owes graph reprOf s r (x :: rest)) :
    (x.Quiet ∧ Owes graph reprOf s r rest) ∨ r.state = .completed ∧
      ((∃ c ∈ cancelledIdsOf graph reprOf r, x = .cancel c ∧
          Owes graph reprOf (announce s x) r rest) ∨
        (x = .readCancelled (cancelledIdsOf graph reprOf r) ∧ rest = [])) := by
  generalize hxs : x :: rest = xs at h
  cases h with
  | other hstate hrest =>
    subst hxs
    exact .inl ⟨hrest x List.mem_cons_self,
      .other hstate (List.forall_mem_cons.mp hrest).2⟩
  | @unread said hstate hsaid =>
    cases said with
    | nil =>
      obtain ⟨rfl, rfl⟩ := List.cons.inj hxs
      exact .inr ⟨hstate, .inr ⟨rfl, rfl⟩⟩
    | cons y said =>
      obtain ⟨rfl, rfl⟩ := List.cons.inj hxs
      exact .inl ⟨hsaid x List.mem_cons_self,
        .unread hstate (List.forall_mem_cons.mp hsaid).2⟩
  | read hstate hrest hall =>
    subst hxs
    have hkept : ∀ y ∈ rest, y.Quiet ∨ ∃ c ∈ cancelledIdsOf graph reprOf r, y = .cancel c :=
      (List.forall_mem_cons.mp hrest).2
    rcases hrest x List.mem_cons_self with hx | ⟨c, hc, rfl⟩
    · refine .inl ⟨hx, .read hstate hkept fun c hc => (hall c hc).imp_right fun hm => ?_⟩
      rcases List.mem_cons.mp hm with rfl | hm
      · exact hx.elim
      · exact hm
    · refine .inr ⟨hstate, .inl ⟨c, hc, rfl, .read hstate hkept fun d hd => ?_⟩⟩
      rcases hall d hd with hin | hm
      · exact .inl (List.mem_append_left _ hin)
      · rcases List.mem_cons.mp hm with he | hm
        · cases he
          exact .inl (List.mem_append_right _ (List.mem_singleton_self _))
        · exact .inr hm

theorem Announcement.Quiet.cancelled {x : Announcement} (hx : x.Quiet) :
    (announce s x).cancelled = s.cancelled := by
  cases x with
  | event | signal | readCancelled => rfl
  | cancel => exact hx.elim

theorem Owes.tells {x : Announcement} (h : Owes graph reprOf s r (x :: rest)) :
    Owes graph reprOf (announce s x) r (following s x ++ rest) := by
  rcases h.head with ⟨hx, howes⟩ | ⟨hstate, ⟨c, hc, rfl, howes⟩ | ⟨rfl, rfl⟩⟩
  · cases x with
    | event | signal => exact howes.mono fun _ h => h
    | readCancelled | cancel => exact hx.elim
  · exact howes
  · rw [List.append_nil]
    refine .read hstate (fun y hy => mem_readCancelled hy) fun c hc => ?_
    by_cases hin : c ∈ s.cancelled
    · exact .inl hin
    · refine .inr (List.mem_flatMap.mpr ⟨c, ?_, List.mem_cons_self⟩)
      simpa [hc] using hin

theorem Owes.done (h : Owes graph reprOf s r []) (hstate : r.state = .completed) :
    ∀ c ∈ cancelledIdsOf graph reprOf r, c ∈ s.cancelled := by
  generalize hxs : [] = xs at h
  cases h with
  | other hno => exact absurd hstate hno
  | unread => simp at hxs
  | read _ _ hall =>
    subst hxs
    exact fun c hc => (hall c hc).resolve_right List.not_mem_nil

/-- Results owe what their signals affect, and nothing else has been cancelled. -/
structure Cancelling (graph : ExecutionBlockGraph) (reprOf : Value → String)
    (s : BlocksExecution) : Prop where
  owes : ∀ run ∈ s.blockRuns, ∀ r rest, run.unsaid? = some (r, rest) → Owes graph reprOf s r rest
  affected : ∀ c ∈ s.cancelled, ∃ r ∈ s.results, r.state = .completed ∧
    c ∈ cancelledIdsOf graph reprOf r

theorem unsaid?_of_beginning {run : BlockRun} (h : run.phase = .beginning) : run.unsaid? = none := by
  rw [BlockRun.unsaid?, h]

theorem Tells.owes {run next : BlockRun} (h : Tells graph reprOf s run next t)
    (ho : ∀ r rest, run.unsaid? = some (r, rest) → Owes graph reprOf s r rest)
    (hg : ∀ c ∈ s.cancelled, c ∈ t.cancelled) (hn : next.unsaid? = some (r, rest)) :
    Owes graph reprOf t r rest := by
  cases h with
  | still hnext =>
    rw [hnext] at hn
    exact (ho r rest hn).mono hg
  | begins q _ hnext =>
    rw [hnext] at hn
    cases hn
    exact owes_announcements r
  | tells q x more hrun hnext hc =>
    rw [hnext] at hn
    cases hn
    refine (ho r (x :: more) (by rw [BlockRun.unsaid?, hrun])).tells.mono fun c hm => ?_
    rw [hc]
    exact hm

theorem cancelling_step (ho : Ordered graph s) (h : Cancelling graph reprOf s) {a : BlocksAction}
    (ht : blocksStep graph recorder reprOf s a = some t) : Cancelling graph reprOf t := by
  have hgrows := (step_moves ht).1
  constructor
  · intro run hrun r rest hu
    rcases step_runs ht hrun with hold | hbegin | ⟨n, answer, old, rfl, hn, -, htells⟩
    · exact (h.owes run hold r rest hu).mono hgrows.cancelled
    · rw [unsaid?_of_beginning hbegin] at hu
      cases hu
    · exact htells.owes (h.owes old (List.mem_of_getElem? hn)) hgrows.cancelled hu
  · have hkept : ∀ c ∈ s.cancelled, ∃ r ∈ t.results, r.state = .completed ∧
        c ∈ cancelledIdsOf graph reprOf r := by
      intro c hc
      obtain ⟨r, hr, hin⟩ := h.affected c hc
      exact ⟨r, hgrows.results r hr, hin⟩
    intro c hc
    obtain ⟨-, -, -, ⟨-, hsame⟩ | ⟨n, answer, old, next, rfl, hn, -, -, htells⟩⟩ := step_moves ht
    · rw [hsame] at hc
      exact hkept c hc
    · have hold := List.mem_of_getElem? hn
      cases htells with
      | still _ hsame | begins _ _ _ hsame =>
        rw [hsame] at hc
        exact hkept c hc
      | tells r x rest hphase _ hc' =>
        rw [hc'] at hc
        have hr := ho.results old hold r (by rw [BlockRun.recorded?, hphase])
        have howes := h.owes old hold r (x :: rest) (by rw [BlockRun.unsaid?, hphase])
        rcases howes.head with ⟨hx, -⟩ | ⟨hstate, ⟨d, hin, rfl, -⟩ | ⟨rfl, -⟩⟩
        · rw [hx.cancelled] at hc
          exact hkept c hc
        · rcases List.mem_append.mp hc with hc | hc
          · exact hkept c hc
          · cases List.mem_singleton.mp hc
            exact ⟨r, hgrows.results r hr, hstate, hin⟩
        · exact hkept c hc

/-- The blocks a handler has found and not yet recorded. -/
def BlockRun.pending (run : BlockRun) : List String :=
  match run.unsaid? with
  | some (_, rest) => rest.filterMap Announcement.cancel?
  | none => []

def BlockRun.reads (run : BlockRun) : List String :=
  match run.phase with
  | .announcing _ (.readCancelled ids :: _) => ids
  | _ => []

/-- Where a handler reads the cancelled blocks, no other one has still to record one of its own. -/
def ReadsApart (s : BlocksExecution) : BlocksAction → Prop
  | .block n _ => ∀ run ∈ s.blockRuns[n]?, ∀ c ∈ run.reads,
      c ∉ (s.blockRuns.eraseIdx n).flatMap BlockRun.pending
  | _ => True

instance (s : BlocksExecution) : (a : BlocksAction) → Decidable (ReadsApart s a)
  | .block n _ => inferInstanceAs (Decidable (∀ run ∈ s.blockRuns[n]?, ∀ c ∈ run.reads,
      c ∉ (s.blockRuns.eraseIdx n).flatMap BlockRun.pending))
  | .gate _ | .finalize _ | .continueWith _ | .resuming _ => isTrue trivial

/-- What is recorded and what is pending is cancelled once. -/
def CancelledOnce (s : BlocksExecution) : Prop :=
  (s.cancelled ++ s.blockRuns.flatMap BlockRun.pending).Nodup

theorem cancelledOnce_iff {xs more : List BlockRun} {run : BlockRun} {others : List BlockRun}
    (hperm : xs.Perm (run :: others)) (hmore : ∀ r ∈ more, r.phase = .beginning) (cs : List String) :
    (cs ++ (xs ++ more).flatMap BlockRun.pending).Nodup ↔
      (cs ++ (run.pending ++ others.flatMap BlockRun.pending)).Nodup := by
  have hnone : more.flatMap BlockRun.pending = [] := by
    refine List.flatMap_eq_nil_iff.mpr fun r hr => ?_
    rw [BlockRun.pending, unsaid?_of_beginning (hmore r hr)]
  rw [List.flatMap_append, hnone, List.append_nil]
  exact ((hperm.flatMap_right BlockRun.pending).append_left cs).nodup_iff

theorem pending_announcements :
    (announcements graph reprOf r).filterMap Announcement.cancel? = [] := by
  refine List.filterMap_eq_nil_iff.mpr fun x hx => ?_
  cases x with
  | cancel c =>
    unfold announcements at hx
    cases hs : r.state <;> simp [hs] at hx
  | _ => rfl

theorem pending_readCancelled (ids : List String) :
    (following s (.readCancelled ids)).filterMap Announcement.cancel? =
      (ids.filter fun c => c ∉ s.cancelled).reverse.dedup.reverse := by
  simp only [following]
  generalize (ids.filter fun c => c ∉ s.cancelled).reverse.dedup.reverse = cs
  induction cs with
  | nil => rfl
  | cons c cs ih => exact congrArg (c :: ·) ih

theorem cancelledOnce_tells {old next : BlockRun} {others : List String}
    (ho : Cancelling graph reprOf s) (hold : old ∈ s.blockRuns)
    (htells : Tells graph reprOf s old next t)
    (hapart : ∀ c ∈ old.reads, c ∉ others) (h : (s.cancelled ++ (old.pending ++ others)).Nodup) :
    (t.cancelled ++ (next.pending ++ others)).Nodup := by
  cases htells with
  | still hnext hc =>
    rw [hc, BlockRun.pending, hnext]
    exact h
  | begins q hrun hnext hc =>
    rw [BlockRun.pending, hrun] at h
    rw [hc, BlockRun.pending, hnext]
    dsimp only
    rw [pending_announcements]
    exact h
  | tells q x rest hrun hnext hc =>
    have hunsaid : old.unsaid? = some (q, x :: rest) := by rw [BlockRun.unsaid?, hrun]
    have howes := ho.owes old hold q (x :: rest) hunsaid
    rw [BlockRun.pending, hunsaid] at h
    rw [hc, BlockRun.pending, hnext]
    cases x with
    | event | signal => exact h
    | cancel c => simpa [announce, following, Announcement.cancel?] using h
    | readCancelled ids =>
      obtain rfl : rest = [] := by
        rcases howes.head with ⟨hx, -⟩ | ⟨-, ⟨c, -, he, -⟩ | ⟨-, hnil⟩⟩
        · exact hx.elim
        · cases he
        · exact hnil
      have hreads : old.reads = ids := by rw [BlockRun.reads, hrun]
      rw [hreads] at hapart
      dsimp only
      rw [List.append_nil, pending_readCancelled]
      obtain ⟨hc, ho, hdisjoint⟩ := List.nodup_append'.mp h
      have hnew : ∀ c ∈ (ids.filter fun c => c ∉ s.cancelled).reverse.dedup.reverse,
          c ∈ ids ∧ c ∉ s.cancelled := by
        intro c hc
        simpa only [List.mem_reverse, List.mem_dedup, List.mem_filter, decide_eq_true_eq] using hc
      refine List.nodup_append'.mpr ⟨hc, List.nodup_append'.mpr ⟨?_, ho, ?_⟩, ?_⟩
      · exact List.nodup_reverse.mpr (List.nodup_dedup _)
      · exact fun c hc hother => hapart c (hnew c hc).1 hother
      · intro c hc hin
        rcases List.mem_append.mp hin with hin | hin
        · exact (hnew c hin).2 hc
        · exact hdisjoint hc hin

theorem cancelledOnce_step (ho : Cancelling graph reprOf s) (h : CancelledOnce s) {a : BlocksAction}
    (hapart : ReadsApart s a) (ht : blocksStep graph recorder reprOf s a = some t) :
    CancelledOnce t := by
  obtain ⟨-, more, hmore, ⟨hruns, hsame⟩ | ⟨n, answer, old, next, rfl, hn, hruns, -, htells⟩⟩ :=
    step_moves ht
  · have hnone : more.flatMap BlockRun.pending = [] := by
      refine List.flatMap_eq_nil_iff.mpr fun r hr => ?_
      rw [BlockRun.pending, unsaid?_of_beginning (hmore r hr)]
    rw [CancelledOnce, hruns, hsame, List.flatMap_append, hnone, List.append_nil]
    exact h
  · obtain ⟨hlt, hget⟩ := List.getElem?_eq_some_iff.mp hn
    have hbefore : s.blockRuns.Perm (old :: s.blockRuns.eraseIdx n) := by
      rw [← hget]
      exact (List.getElem_cons_eraseIdx_perm hlt).symm
    have hafter := List.set_perm_cons_eraseIdx hlt next
    rw [CancelledOnce, hruns]
    refine (cancelledOnce_iff hafter hmore t.cancelled).mpr ?_
    refine cancelledOnce_tells ho (List.mem_of_getElem? hn) htells (hapart old hn) ?_
    refine (cancelledOnce_iff hbefore (List.forall_mem_nil _) s.cancelled).mp ?_
    rw [List.append_nil]
    exact h

/-- A cancelled block of which no handler executes. -/
structure Stopped (b : String) (s : BlocksExecution) : Prop where
  cancelled : b ∈ s.cancelled
  rests : ∀ run ∈ s.blockRuns, run.block = b → ¬ run.Executes

theorem stopped_step {b : String} (h : Stopped b s) {a : BlocksAction}
    (ht : blocksStep graph recorder reprOf s a = some t) : Stopped b t := by
  refine ⟨(step_moves ht).1.cancelled b h.cancelled, fun run hrun hblock hexecutes => ?_⟩
  rcases step_runs ht hrun with hold | hbegin | ⟨n, answer, old, rfl, hn, hmoves, -⟩
  · exact h.rests run hold hblock hexecutes
  · exact hexecutes.1 hbegin
  · rw [hmoves.block] at hblock
    rcases hmoves.executes hexecutes with hbefore | ⟨-, hnot⟩
    · exact h.rests old (List.mem_of_getElem? hn) hblock hbefore
    · rw [hblock] at hnot
      exact hnot h.cancelled

end Cancelling

section Runs

variable {graph : ExecutionBlockGraph} {recorder : Recorder} {reprOf : Value → String}
  {s₀ s t : BlocksExecution}

/-- The completed event of the run has been emitted. -/
def BlockRun.CompletedWith (run : BlockRun) (r : BlockResult) : Prop :=
  r.state = .completed ∧
    (run.phase = .delivering r ∨ run.phase = .returning r ∨ run.phase = .ended r)

/-- What the signals of the results recorded by `s` have done by `t`. -/
structure CancelsScopes (affects : BlockResult → String → Prop) (s t : BlocksExecution) : Prop where
  affected : ∀ c ∈ t.cancelled, ∃ r ∈ t.results, r.state = .completed ∧ affects r c
  kept : ∀ c ∈ s.cancelled, c ∈ t.cancelled
  stopped : ∀ run ∈ s.blockRuns, ∀ r, run.CompletedWith r → ∀ b, affects r b →
    (∀ x ∈ s.blockRuns, x.block = b → ¬ x.Executes) →
      t.cancelled.count b = 1 ∧ ∀ x ∈ t.blockRuns, x.block = b → ¬ x.Executes

theorem cancelling_initial {isAlnum : Char → Bool} (hs : bindRuntime graph isAlnum = some s) :
    Cancelling graph reprOf s ∧ CancelledOnce s := by
  unfold bindRuntime at hs
  split at hs
  · cases hs
    obtain ⟨more, hmore, hphase⟩ := deliver_begins graph {} .flowStart
    have hnone : ∀ run ∈ more, run.unsaid? = none :=
      fun run hrun => unsaid?_of_beginning (hphase run hrun)
    refine ⟨⟨fun run hrun r rest hu => ?_, List.forall_mem_nil _⟩, ?_⟩
    · rw [hmore] at hrun
      rw [hnone run hrun] at hu
      cases hu
    · have hpending : more.flatMap BlockRun.pending = [] :=
        List.flatMap_eq_nil_iff.mpr fun r hr => by rw [BlockRun.pending, hnone r hr]
      rw [CancelledOnce, hmore]
      show ([] ++ ([] ++ more).flatMap BlockRun.pending).Nodup
      rw [List.nil_append, List.nil_append, hpending]
      exact List.nodup_nil
  · cases hs

theorem BlockRun.CompletedWith.unsaid? {run : BlockRun} {r : BlockResult} (h : run.CompletedWith r) :
    run.unsaid? = some (r, []) := by
  rcases h.2 with hphase | hphase | hphase <;> rw [BlockRun.unsaid?, hphase]

/-- Signals cancel their scopes where handlers read the cancelled blocks apart. What a signal
affects by the name of its own block it has to affect in another way. -/
theorem signals_cancel_their_scopes {registered : List String} {request : BlockCompileRequest}
    (hc : compile reprOf registered request = .ok graph) {isAlnum : Char → Bool}
    (hs : bindRuntime graph isAlnum = some s₀) {before after : List BlocksAction}
    (hbefore : (blocksMachine graph recorder reprOf).run s₀ before = some s)
    (hafter : (blocksMachine graph recorder reprOf).run s after = some t)
    (hmeets : (blocksMachine graph recorder reprOf).Meets ReadsApart s₀ (before ++ after)) :
    CancelsScopes (OthersScope graph reprOf) s t ∧
      ((∀ run ∈ s.blockRuns, ∀ r, run.CompletedWith r → OwnNameCovered graph reprOf r) →
        CancelsScopes (Scope graph reprOf) s t) := by
  have hroots := rootsStart_of_compile hc
  have hin := edgesInside_of_compile hc
  have hwhole : (blocksMachine graph recorder reprOf).run s₀ (before ++ after) = some t := by
    rw [Machine.run_append, hbefore]
    exact hafter
  have hordered := ordered_initial hroots hs
  obtain ⟨hcancelling, honce⟩ := @cancelling_initial graph reprOf s₀ _ hs
  have hnow : Ordered graph s ∧ Cancelling graph reprOf s := by
    refine (blocksMachine graph recorder reprOf).run_invariant
      (I := fun s => Ordered graph s ∧ Cancelling graph reprOf s) ?_ ⟨hordered, hcancelling⟩ hbefore
    rintro u a v ⟨ho, hu⟩ hv
    exact ⟨ordered_step hroots ho hv, cancelling_step ho hu hv⟩
  have hlast : Ordered graph t ∧ Cancelling graph reprOf t ∧ CancelledOnce t := by
    refine (blocksMachine graph recorder reprOf).run_invariant_meeting
      (I := fun s => Ordered graph s ∧ Cancelling graph reprOf s ∧ CancelledOnce s) ?_
      ⟨hordered, hcancelling, honce⟩ hmeets hwhole
    rintro u a v ⟨ho, hu, hu'⟩ hapart hv
    exact ⟨ordered_step hroots ho hv, cancelling_step ho hu hv, cancelledOnce_step hu hu' hapart hv⟩
  have hothers : CancelsScopes (OthersScope graph reprOf) s t := by
    constructor
    · intro c hc
      obtain ⟨r, hr, hstate, hmem⟩ := hlast.2.1.affected c hc
      exact ⟨r, hr, hstate, (mem_cancelledIdsOf hin).mp hmem⟩
    · intro c hc
      exact (blocksMachine graph recorder reprOf).run_invariant (I := fun s => c ∈ s.cancelled)
        (fun u a v hu hv => (step_moves hv).1.cancelled c hu) hc hafter
    · intro run hrun r hcompleted b hb hrests
      have hcancelled := (hnow.2.owes run hrun r [] hcompleted.unsaid?).done hcompleted.1 b
        ((mem_cancelledIdsOf hin).mpr hb)
      have hstopped := (blocksMachine graph recorder reprOf).run_invariant (I := Stopped b)
        (fun u a v hu hv => stopped_step hu hv) ⟨hcancelled, hrests⟩ hafter
      have hnodup : t.cancelled.Nodup := (List.nodup_append'.mp hlast.2.2).1
      exact ⟨List.count_eq_one_of_mem hnodup hstopped.cancelled, hstopped.rests⟩
  refine ⟨hothers, fun hcovered => ⟨?_, hothers.kept, ?_⟩⟩
  · intro c hc
    obtain ⟨r, hr, hstate, hb⟩ := hothers.affected c hc
    exact ⟨r, hr, hstate, scope_of_othersScope hb⟩
  · intro run hrun r hcompleted b hb
    exact hothers.stopped run hrun r hcompleted b
      (othersScope_of_covered (hcovered run hrun r hcompleted) hb)

end Runs

def replanOutput : Value := .dict [("replan_signal", .dict [("status", .str "replan_goal")])]

/-- `x` comes after `a` and `b`, and `y` after `x`. -/
def replanRequest : BlockCompileRequest :=
  { planBlocks := ["a", "b", "x", "y"].map fun id =>
      { id := id, planBlockId := "action_call", kind := some "action_call" }
    edges := [⟨"a", "x"⟩, ⟨"b", "x"⟩, ⟨"x", "y"⟩] }

def replanGraph : ExecutionBlockGraph :=
  assembleGraph replanRequest
    ((compilePlanBlocks [] replanRequest.planBlocks).toOption.getD [])

theorem replan_compiles : compile noText [] replanRequest = .ok replanGraph := by
  rfl

def goesOn (run steps : Nat) : List BlocksAction :=
  List.replicate steps (.block run (.returns replanOutput))

def replanResult (id : String) : BlockResult :=
  { executionBlockId := id ++ ":action_call", sourcePlanBlockId := id, kind := "action_call",
    output := replanOutput, state := .completed }

def afterReplans (acts : List BlocksAction) : Option BlocksExecution :=
  (bindRuntime replanGraph Char.isAlphanum).bind fun s₀ =>
    (blocksMachine replanGraph noItems noText).run s₀ acts

theorem afterReplans_eq {acts : List BlocksAction} {p : BlocksExecution → Bool}
    (h : (afterReplans acts).any p = true) : ∃ s₀ s, bindRuntime replanGraph Char.isAlphanum = some s₀ ∧
      (blocksMachine replanGraph noItems noText).run s₀ acts = some s ∧ p s = true := by
  obtain ⟨s, hs, hp⟩ := (Option.any_eq_true ..).mp h
  obtain ⟨s₀, hbind, hrun⟩ := Option.bind_eq_some_iff.mp hs
  exact ⟨s₀, s, hbind, hrun, hp⟩

/-- `b` reads the cancelled blocks when `a` has recorded `x` and not yet `y`. -/
theorem scope_cancelled_twice :
    compile noText [] replanRequest = .ok replanGraph ∧
      ∃ s₀ s, bindRuntime replanGraph Char.isAlphanum = some s₀ ∧
        (blocksMachine replanGraph noItems noText).run s₀
          (goesOn 0 13 ++ goesOn 1 16 ++ goesOn 0 5) = some s ∧
        ¬ CancelsScopes (Scope replanGraph noText) s s := by
  obtain ⟨s₀, s, hbind, hrun, hshown⟩ := @afterReplans_eq (goesOn 0 13 ++ goesOn 1 16 ++ goesOn 0 5)
    (fun s => decide (s.blockRuns = [⟨"a:action_call", false, .delivering (replanResult "a")⟩,
        ⟨"b:action_call", false, .delivering (replanResult "b")⟩] ∧
      s.cancelled.count "y:action_call" = 2)) (by decide +kernel)
  obtain ⟨hruns, hcount⟩ := of_decide_eq_true hshown
  refine ⟨replan_compiles, s₀, s, hbind, hrun, fun h => ?_⟩
  have hscope : Scope replanGraph noText (replanResult "a") "y:action_call" :=
    scope_of_othersScope ((mem_cancelledIdsOf (edgesInside_of_compile replan_compiles)).mp
      (by decide +kernel))
  have hrun : (⟨"a:action_call", false, .delivering (replanResult "a")⟩ : BlockRun) ∈ s.blockRuns := by
    rw [hruns]
    exact List.mem_cons_self
  have honce := h.stopped _ hrun _ ⟨rfl, .inl rfl⟩ "y:action_call" hscope ?_
  · rw [hcount] at honce
    exact absurd honce.1 (by decide)
  · intro x hx hblock
    rw [hruns] at hx
    simp only [List.mem_cons, List.not_mem_nil, or_false] at hx
    rcases hx with rfl | rfl <;> exact absurd hblock (by decide)

/-- `b` completes after `a` has. -/
theorem signals_cancel_their_scopes_apart :
    ∃ s₀ s t, bindRuntime replanGraph Char.isAlphanum = some s₀ ∧
      (blocksMachine replanGraph noItems noText).run s₀ (goesOn 0 18) = some s ∧
      (blocksMachine replanGraph noItems noText).run s (goesOn 1 14) = some t ∧
      t.cancelled = ["x:action_call", "y:action_call"] ∧
      CancelsScopes (OthersScope replanGraph noText) s t := by
  obtain ⟨s₀, t, hbind, hrun, hshown⟩ := @afterReplans_eq (goesOn 0 18 ++ goesOn 1 14)
    (fun s => decide (s.cancelled = ["x:action_call", "y:action_call"])) (by decide +kernel)
  rw [Machine.run_append] at hrun
  obtain ⟨s, hbefore, hafter⟩ := Option.bind_eq_some_iff.mp hrun
  have hapart : ∀ s ∈ bindRuntime replanGraph Char.isAlphanum,
      (blocksMachine replanGraph noItems noText).Meets ReadsApart s (goesOn 0 18 ++ goesOn 1 14) := by
    decide +kernel
  exact ⟨s₀, s, t, hbind, hbefore, hafter, of_decide_eq_true hshown,
    (signals_cancel_their_scopes replan_compiles hbind hbefore hafter (hapart s₀ hbind)).1⟩

end Agently.Blocks
