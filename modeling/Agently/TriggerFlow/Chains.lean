import Agently.Lib.Machine
import Agently.TriggerFlow.Signal

/-! # Chains of chunks

Source: `TriggerFlow/process/BaseProcess.py`, `TriggerFlow/Chunk.py`, `TriggerFlow/BluePrint.py`,
`TriggerFlow/Execution.py`. Every emission starts the handlers that listen to it; what a chunk's
handler returns is emitted as the chunk's event. Other emissions of the flow come from outside. -/

namespace Agently.TriggerFlow.Chains

open Agently.Lib Agently.Utils

variable {ε : Type} [DecidableEq ε]

structure Chunk (ε : Type) where
  id : String
  trigger : ε

structure Process (ε : Type) where
  triggerEvent : ε
  triggerType : TriggerType

abbrev Handlers (ε : Type) := Dict (TriggerType × ε) (List (Chunk ε))

def handlersAt (handlers : Handlers ε) (key : TriggerType × ε) : List (Chunk ε) :=
  (Dict.get? handlers key).getD []

def addHandler (handlers : Handlers ε) (key : TriggerType × ε) (chunk : Chunk ε) : Handlers ε :=
  let stored := handlersAt handlers key
  Dict.set handlers key
    (if chunk.id ∈ stored.map Chunk.id then stored else stored ++ [chunk])

/-- `when`: one signal starts the process itself, more of them through a gate. -/
def when (gateTrigger : ε) : List (TriggerType × ε) → Process ε
  | [(triggerType, triggerEvent)] => ⟨triggerEvent, triggerType⟩
  | _ => ⟨gateTrigger, .event⟩

def Process.to (p : Process ε) (handlers : Handlers ε) (chunk : Chunk ε)
    (sideBranch : Bool := false) : Handlers ε × Process ε :=
  (addHandler handlers (p.triggerType, p.triggerEvent) chunk,
    { triggerEvent := if sideBranch then p.triggerEvent else chunk.trigger
      triggerType := p.triggerType })

def Process.toAll (p : Process ε) (handlers : Handlers ε) : List (Chunk ε) → Handlers ε
  | [] => handlers
  | chunk :: rest => (p.to handlers chunk).2.toAll (p.to handlers chunk).1 rest

structure Chain (ε : Type) where
  process : Process ε
  chunks : List (Chunk ε)
  ids : (chunks.map Chunk.id).Nodup
  triggers : (chunks.map Chunk.trigger).Nodup
  start : process.triggerEvent ∉ chunks.map Chunk.trigger

def Chain.handlers (c : Chain ε) : Handlers ε := c.process.toAll [] c.chunks

inductive Phase where
  | waiting
  | running
  | returned (v : Value)
  | stopped
  deriving DecidableEq

/-- A handler that an emission started; `origin` is the emission from outside it goes back to. -/
structure Activation (ε : Type) where
  origin : Nat
  chunk : Chunk ε
  input : Value
  phase : Phase

structure Firing (ε : Type) where
  triggerType : TriggerType
  triggerEvent : ε
  value : Value

structure Run (ε : Type) where
  firings : List (Firing ε)
  activations : List (Activation ε)

structure Moment where
  waiting : Bool
  lifecycleOpen : Bool
  closeStarted : Bool

def Moment.continues (m : Moment) : Bool := !m.waiting && (m.lifecycleOpen || m.closeStarted)

inductive Move (ε : Type) where
  | emit (f : Firing ε)
  | begin (i : Nat)
  | handlerReturns (i : Nat) (v : Value) (m : Moment)
  | stop (i : Nat)

def started (handlers : Handlers ε) (origin : Nat) (key : TriggerType × ε) (value : Value) :
    List (Activation ε) :=
  (handlersAt handlers key).map fun chunk => ⟨origin, chunk, value, .waiting⟩

def Run.setPhase (s : Run ε) (i : Nat) (a : Activation ε) (phase : Phase) : Run ε :=
  { s with activations := s.activations.set i { a with phase := phase } }

def step (handlers : Handlers ε) (s : Run ε) : Move ε → Option (Run ε)
  | .emit f => some
      { firings := s.firings ++ [f]
        activations := s.activations ++
          started handlers s.firings.length (f.triggerType, f.triggerEvent) f.value }
  | .begin i =>
    match s.activations[i]? with
    | some a => if a.phase = .waiting then some (s.setPhase i a .running) else none
    | none => none
  -- `async_call`
  | .handlerReturns i v m =>
    match s.activations[i]? with
    | some a =>
      if a.phase = .running then
        let next := if m.continues then started handlers a.origin (.event, a.chunk.trigger) v
          else []
        some { firings := s.firings
               activations := (s.setPhase i a (.returned v)).activations ++ next }
      else none
    | none => none
  -- the handler pauses, raises or is cancelled
  | .stop i =>
    match s.activations[i]? with
    | some a =>
      if a.phase = .waiting ∨ a.phase = .running then some (s.setPhase i a .stopped) else none
    | none => none

def machine (handlers : Handlers ε) : Machine (Run ε) (Move ε) := ⟨step handlers⟩

def initial : Run ε := ⟨[], []⟩

def Run.runsOf (s : Run ε) (origin : Nat) : List (Activation ε) :=
  s.activations.filter fun a => a.origin = origin

def Progress : List (Chunk ε) → Value → List (Activation ε) → Prop
  | [], _, runs => runs = []
  | chunk :: rest, v, runs => ∃ a more, runs = a :: more ∧ a.chunk = chunk ∧ a.input = v ∧
      match a.phase with
      | .returned r => Progress rest r more
      | _ => more = []

def Chain.RunsInOrder (c : Chain ε) (s : Run ε) : Prop :=
  ∀ (o : Nat) (f : Firing ε), s.firings[o]? = some f →
    (f.triggerType, f.triggerEvent) = (c.process.triggerType, c.process.triggerEvent) →
    Progress c.chunks f.value (s.runsOf o)

def Chain.GoesOn (c : Chain ε) (s : Run ε) : Move ε → Prop
  | .handlerReturns i _ m => m.continues = true ∨
      ∀ a, s.activations[i]? = some a → c.chunks.getLast? = some a.chunk
  | _ => True

theorem handlersAt_addHandler_self (handlers : Handlers ε) (key : TriggerType × ε) (chunk : Chunk ε)
    (h : handlersAt handlers key = []) : handlersAt (addHandler handlers key chunk) key = [chunk] := by
  unfold addHandler
  rw [h]
  simp [handlersAt]

theorem handlersAt_addHandler_of_ne (handlers : Handlers ε) {key other : TriggerType × ε}
    (hne : key ≠ other) (chunk : Chunk ε) :
    handlersAt (addHandler handlers key chunk) other = handlersAt handlers other := by
  unfold addHandler handlersAt
  rw [Dict.get?_set_of_ne handlers _ hne]

theorem handlersAt_toAll_of_not_mem (p : Process ε) (handlers : Handlers ε) (chunks : List (Chunk ε))
    {key : TriggerType × ε}
    (hkey : ∀ e ∈ p.triggerEvent :: chunks.map Chunk.trigger, (p.triggerType, e) ≠ key) :
    handlersAt (p.toAll handlers chunks) key = handlersAt handlers key := by
  induction chunks generalizing p handlers with
  | nil => rfl
  | cons chunk rest ih =>
    rw [Process.toAll, ih]
    · exact handlersAt_addHandler_of_ne handlers (hkey _ List.mem_cons_self) chunk
    · intro e he
      exact hkey e (List.mem_cons_of_mem _ he)

/-- The event the chunk after `before` listens to. -/
def eventAfter (start : ε) (before : List (Chunk ε)) : ε :=
  (before.getLast?.map Chunk.trigger).getD start

theorem eventAfter_cons (start : ε) (chunk : Chunk ε) (before : List (Chunk ε)) :
    eventAfter start (chunk :: before) = eventAfter chunk.trigger before := by
  unfold eventAfter
  rw [List.getLast?_cons]
  cases before.getLast? <;> rfl

theorem handlersAt_toAll (p : Process ε) (handlers : Handlers ε) (before after : List (Chunk ε))
    (hnodup : (p.triggerEvent :: (before ++ after).map Chunk.trigger).Nodup)
    (hempty : ∀ e, handlersAt handlers (p.triggerType, e) ≠ [] →
      e ∉ p.triggerEvent :: (before ++ after).map Chunk.trigger) :
    handlersAt (p.toAll handlers (before ++ after))
      (p.triggerType, eventAfter p.triggerEvent before) = after.head?.toList := by
  induction before generalizing p handlers with
  | nil =>
    have hstart : handlersAt handlers (p.triggerType, p.triggerEvent) = [] := by
      by_contra hne
      exact hempty _ hne List.mem_cons_self
    cases after with
    | nil => exact hstart
    | cons chunk rest =>
      rw [List.nil_append, Process.toAll, handlersAt_toAll_of_not_mem]
      · exact handlersAt_addHandler_self handlers _ chunk hstart
      · intro e he heq
        have hevent : e = p.triggerEvent := congrArg Prod.snd heq
        exact (List.nodup_cons.mp hnodup).1 (hevent ▸ he)
  | cons chunk before ih =>
    obtain ⟨hnot, hrest⟩ := List.nodup_cons.mp hnodup
    rw [List.cons_append, Process.toAll, eventAfter_cons]
    refine ih (p.to handlers chunk).2 (p.to handlers chunk).1 hrest ?_
    intro e hne hin
    have hother : (p.triggerType, p.triggerEvent) ≠ (p.triggerType, e) := by
      intro heq
      have hevent : p.triggerEvent = e := congrArg Prod.snd heq
      exact hnot (hevent ▸ hin)
    refine hempty e ?_ (List.mem_cons_of_mem _ hin)
    rw [← handlersAt_addHandler_of_ne handlers hother chunk]
    exact hne

theorem handlersAt_chain (c : Chain ε) {before after : List (Chunk ε)}
    (h : c.chunks = before ++ after) :
    handlersAt c.handlers (c.process.triggerType, eventAfter c.process.triggerEvent before) =
      after.head?.toList := by
  unfold Chain.handlers
  rw [h]
  refine handlersAt_toAll c.process [] before after ?_ fun e hne => absurd rfl hne
  rw [← h]
  exact List.nodup_cons.mpr ⟨c.start, c.triggers⟩

theorem handlersAt_chain_of_ne (c : Chain ε) {t : TriggerType} (h : t ≠ c.process.triggerType)
    (e : ε) : handlersAt c.handlers (t, e) = [] := by
  unfold Chain.handlers
  rw [handlersAt_toAll_of_not_mem]
  · rfl
  · intro e' _ heq
    exact h (congrArg Prod.fst heq).symm

def Activation.Unreturned (a : Activation ε) : Prop := ∀ r, a.phase ≠ .returned r

variable {rest : List (Chunk ε)} {v : Value} {a : Activation ε}

omit [DecidableEq ε] in
theorem progress_cons_unreturned {chunk : Chunk ε}
    (hc : a.chunk = chunk) (hv : a.input = v) (hun : a.Unreturned) :
    Progress (chunk :: rest) v [a] := by
  refine ⟨a, [], rfl, hc, hv, ?_⟩
  split
  · rename_i r hr
    exact absurd hr (hun r)
  · rfl

omit [DecidableEq ε] in
theorem progress_cons_returned {chunk : Chunk ε} {r : Value}
    {more : List (Activation ε)} (hc : a.chunk = chunk) (hv : a.input = v)
    (hr : a.phase = .returned r) (hmore : Progress rest r more) :
    Progress (chunk :: rest) v (a :: more) := by
  refine ⟨a, more, rfl, hc, hv, ?_⟩
  rw [hr]
  exact hmore

omit [DecidableEq ε] in
theorem progress_split {chunks : List (Chunk ε)} {xs ys : List (Activation ε)}
    (h : Progress chunks v (xs ++ a :: ys)) (hun : a.Unreturned) :
    ys = [] ∧ ∃ before rest, chunks = before ++ a.chunk :: rest ∧
      (∀ b : Activation ε, b.chunk = a.chunk → b.input = a.input → b.Unreturned →
        Progress chunks v (xs ++ [b])) ∧
      ∀ (b : Activation ε) r next, b.chunk = a.chunk → b.input = a.input →
        b.phase = .returned r → Progress rest r next → Progress chunks v (xs ++ b :: next) := by
  induction xs generalizing chunks v with
  | nil =>
    cases chunks with
    | nil => cases h
    | cons chunk rest =>
      obtain ⟨a', more, heq, hc, hv, hmore⟩ := h
      cases heq
      split at hmore
      · rename_i r hr
        exact absurd hr (hun r)
      · subst hc
        refine ⟨hmore, [], rest, rfl, fun b hb hi hb' => ?_, fun b r next hb hi hr hnext => ?_⟩
        · exact progress_cons_unreturned hb (hi.trans hv) hb'
        · exact progress_cons_returned hb (hi.trans hv) hr hnext
  | cons x xs ih =>
    cases chunks with
    | nil => cases h
    | cons chunk rest =>
      obtain ⟨a', more, heq, hc, hv, hmore⟩ := h
      cases heq
      split at hmore
      · rename_i r hr
        obtain ⟨hys, before, rest', hsplit, hkeep, hreturn⟩ := ih hmore
        refine ⟨hys, chunk :: before, rest', by rw [hsplit, List.cons_append],
          fun b hb hi hb' => ?_, fun b r' next hb hi hr' hnext => ?_⟩
        · exact progress_cons_returned hc hv hr (hkeep b hb hi hb')
        · exact progress_cons_returned hc hv hr (hreturn b r' next hb hi hr' hnext)
      · cases xs <;> cases hmore

theorem set_length_append {α : Type} (xs ys : List α) (a b : α) :
    (xs ++ a :: ys).set xs.length b = xs ++ b :: ys := by
  simp [List.set_append]

theorem exists_split {α : Type} {l : List α} {i : Nat} {a : α} (h : l[i]? = some a) :
    ∃ xs ys, l = xs ++ a :: ys ∧ xs.length = i := by
  obtain ⟨hlt, rfl⟩ := List.getElem?_eq_some_iff.mp h
  refine ⟨l.take i, l.drop (i + 1), ?_, ?_⟩
  · rw [List.getElem_cons_drop, List.take_append_drop]
  · rw [List.length_take]
    omega

def ofOrigin (origin : Nat) (as : List (Activation ε)) : List (Activation ε) :=
  as.filter fun a => a.origin = origin

omit [DecidableEq ε] in
theorem ofOrigin_append (origin : Nat) (xs ys : List (Activation ε)) :
    ofOrigin origin (xs ++ ys) = ofOrigin origin xs ++ ofOrigin origin ys :=
  List.filter_append ..

omit [DecidableEq ε] in
theorem ofOrigin_cons_of_ne {origin : Nat} (h : a.origin ≠ origin)
    (as : List (Activation ε)) : ofOrigin origin (a :: as) = ofOrigin origin as := by
  simp [ofOrigin, h]

omit [DecidableEq ε] in
theorem ofOrigin_cons_self {origin : Nat} (h : a.origin = origin)
    (as : List (Activation ε)) : ofOrigin origin (a :: as) = a :: ofOrigin origin as := by
  simp [ofOrigin, h]

theorem ofOrigin_started_self (handlers : Handlers ε) (origin : Nat) (key : TriggerType × ε)
    (v : Value) : ofOrigin origin (started handlers origin key v) = started handlers origin key v := by
  simp [ofOrigin, started]

theorem ofOrigin_started_of_ne (handlers : Handlers ε) {origin other : Nat} (h : origin ≠ other)
    (key : TriggerType × ε) (v : Value) : ofOrigin other (started handlers origin key v) = [] := by
  simp [ofOrigin, started, h]

structure Chain.Followed (c : Chain ε) (s : Run ε) : Prop where
  inOrder : c.RunsInOrder s
  origins : ∀ a ∈ s.activations, a.origin < s.firings.length

section Steps

variable {c : Chain ε} {s : Run ε}

theorem followed_setPhase (hs : c.Followed s) {i : Nat} {a : Activation ε}
    (ha : s.activations[i]? = some a) (hun : a.Unreturned) {phase : Phase}
    (hphase : ∀ r, phase ≠ .returned r) : c.Followed (s.setPhase i a phase) := by
  obtain ⟨xs, ys, hsplit, rfl⟩ := exists_split ha
  have hset : (s.setPhase xs.length a phase).activations = xs ++ { a with phase := phase } :: ys := by
    rw [Run.setPhase, hsplit, set_length_append]
  refine ⟨fun o f hf hkey => ?_, fun b hb => ?_⟩
  · have hprogress := hs.inOrder o f hf hkey
    unfold Run.runsOf at hprogress ⊢
    rw [hsplit] at hprogress
    rw [hset]
    change Progress c.chunks f.value (ofOrigin o _) at hprogress
    change Progress c.chunks f.value (ofOrigin o _)
    rw [ofOrigin_append] at hprogress ⊢
    by_cases ho : a.origin = o
    · rw [ofOrigin_cons_self ho] at hprogress
      obtain ⟨hys, before, rest, -, hkeep, -⟩ := progress_split hprogress hun
      rw [ofOrigin_cons_self (a := { a with phase := phase }) ho, hys]
      exact hkeep _ rfl rfl hphase
    · rw [ofOrigin_cons_of_ne ho] at hprogress
      rw [ofOrigin_cons_of_ne (a := { a with phase := phase }) ho]
      exact hprogress
  · rw [hset] at hb
    have hin : a ∈ s.activations := List.mem_of_getElem? ha
    rcases List.mem_append.mp hb with hb | hb
    · exact hs.origins b (hsplit ▸ List.mem_append_left _ hb)
    · rcases List.mem_cons.mp hb with rfl | hb
      · exact hs.origins a hin
      · exact hs.origins b (hsplit ▸ List.mem_append_right _ (List.mem_cons_of_mem _ hb))

theorem followed_emit (hs : c.Followed s) (f : Firing ε) :
    c.Followed
      { firings := s.firings ++ [f]
        activations := s.activations ++
          started c.handlers s.firings.length (f.triggerType, f.triggerEvent) f.value } := by
  refine ⟨fun o g hg hkey => ?_, fun b hb => ?_⟩
  · change Progress c.chunks g.value (ofOrigin o _)
    rw [ofOrigin_append]
    by_cases ho : o = s.firings.length
    · subst ho
      have hfg : f = g := by simpa using hg
      subst hfg
      have hnone : ofOrigin s.firings.length s.activations = [] := by
        refine List.filter_eq_nil_iff.mpr fun a ha => ?_
        have hlt := hs.origins a ha
        simp only [decide_eq_true_eq]
        omega
      rw [hnone, List.nil_append, ofOrigin_started_self, hkey]
      have hlisten := @handlersAt_chain _ _ c [] c.chunks rfl
      change handlersAt c.handlers (c.process.triggerType, c.process.triggerEvent) = _ at hlisten
      unfold started
      rw [hlisten]
      cases c.chunks with
      | nil => rfl
      | cons chunk rest => exact progress_cons_unreturned rfl rfl nofun
    · have hg' : s.firings[o]? = some g := by
        rw [← hg, List.getElem?_append_left]
        have hlt := (List.getElem?_eq_some_iff.mp hg).1
        simp only [List.length_append, List.length_singleton] at hlt
        omega
      rw [ofOrigin_started_of_ne c.handlers (Ne.symm ho), List.append_nil]
      exact hs.inOrder o g hg' hkey
  · simp only [List.length_append, List.length_singleton]
    rcases List.mem_append.mp hb with hb | hb
    · have hlt := hs.origins b hb
      omega
    · obtain ⟨chunk, -, rfl⟩ := List.mem_map.mp hb
      exact Nat.lt_succ_self _

omit [DecidableEq ε] in
theorem rest_nil_of_getLast {chunks before rest : List (Chunk ε)} {chunk : Chunk ε}
    (hn : (chunks.map Chunk.trigger).Nodup) (h : chunks = before ++ chunk :: rest)
    (hlast : chunks.getLast? = some chunk) : rest = [] := by
  subst h
  cases rest with
  | nil => rfl
  | cons d rest =>
    have hin : chunk ∈ d :: rest := by
      rw [List.getLast?_append_cons, List.getLast?_cons_cons] at hlast
      exact List.mem_of_getLast? hlast
    rw [List.map_append, List.map_cons] at hn
    have hnot := (List.nodup_cons.mp (List.nodup_append.mp hn).2.1).1
    exact absurd (List.mem_map_of_mem hin) hnot

theorem progress_started (hc : c.process.triggerType = .event ∨ c.chunks.length ≤ 1)
    {before rest : List (Chunk ε)} {chunk : Chunk ε} (h : c.chunks = before ++ chunk :: rest)
    (origin : Nat) (v : Value) :
    Progress rest v (started c.handlers origin (.event, chunk.trigger) v) := by
  have hlisten : handlersAt c.handlers (.event, chunk.trigger) = rest.head?.toList := by
    by_cases htype : c.process.triggerType = .event
    · have hat := @handlersAt_chain _ _ c (before ++ [chunk]) rest (by simp [h])
      rw [htype] at hat
      simpa [eventAfter] using hat
    · have hshort := hc.resolve_left htype
      rw [h] at hshort
      have hrest : rest = [] := by
        refine List.eq_nil_of_length_eq_zero ?_
        simp only [List.length_append, List.length_cons] at hshort
        omega
      rw [hrest]
      exact handlersAt_chain_of_ne c (Ne.symm htype) _
  unfold started
  rw [hlisten]
  cases rest with
  | nil => rfl
  | cons d rest => exact progress_cons_unreturned rfl rfl nofun

theorem followed_return (hc : c.process.triggerType = .event ∨ c.chunks.length ≤ 1)
    (hs : c.Followed s) {i : Nat} {a : Activation ε} (ha : s.activations[i]? = some a)
    (hrunning : a.phase = .running) {v : Value} {m : Moment}
    (hgo : m.continues = true ∨ c.chunks.getLast? = some a.chunk) :
    c.Followed
      { firings := s.firings
        activations := (s.setPhase i a (.returned v)).activations ++
          if m.continues then started c.handlers a.origin (.event, a.chunk.trigger) v else [] } := by
  have hun : a.Unreturned := by
    intro r hr
    rw [hrunning] at hr
    cases hr
  obtain ⟨xs, ys, hsplit, rfl⟩ := exists_split ha
  have hset : (s.setPhase xs.length a (.returned v)).activations =
      xs ++ { a with phase := .returned v } :: ys := by
    rw [Run.setPhase, hsplit, set_length_append]
  rw [hset]
  refine ⟨fun o f hf hkey => ?_, fun b hb => ?_⟩
  · have hprogress := hs.inOrder o f hf hkey
    unfold Run.runsOf at hprogress
    rw [hsplit] at hprogress
    change Progress c.chunks f.value (ofOrigin o _) at hprogress
    change Progress c.chunks f.value (ofOrigin o _)
    rw [ofOrigin_append] at hprogress
    rw [ofOrigin_append, ofOrigin_append]
    by_cases ho : a.origin = o
    · rw [ofOrigin_cons_self ho] at hprogress
      obtain ⟨hys, before, rest, hchunks, -, hreturn⟩ := progress_split hprogress hun
      rw [ofOrigin_cons_self (a := { a with phase := .returned v }) ho, hys, List.append_assoc,
        List.singleton_append]
      refine hreturn _ v _ rfl rfl rfl ?_
      by_cases hcontinues : m.continues = true
      · rw [if_pos hcontinues, ho, ofOrigin_started_self]
        exact progress_started hc hchunks o v
      · rw [if_neg hcontinues,
          rest_nil_of_getLast c.triggers hchunks (hgo.resolve_left hcontinues)]
        rfl
    · have hnext : ofOrigin o (if m.continues then started c.handlers a.origin
          (.event, a.chunk.trigger) v else []) = [] := by
        split
        · exact ofOrigin_started_of_ne c.handlers ho _ v
        · rfl
      rw [ofOrigin_cons_of_ne ho] at hprogress
      rw [ofOrigin_cons_of_ne (a := { a with phase := .returned v }) ho, hnext, List.append_nil]
      exact hprogress
  · have hin : a ∈ s.activations := List.mem_of_getElem? ha
    rcases List.mem_append.mp hb with hb | hb
    · rcases List.mem_append.mp hb with hb | hb
      · exact hs.origins b (hsplit ▸ List.mem_append_left _ hb)
      · rcases List.mem_cons.mp hb with rfl | hb
        · exact hs.origins a hin
        · exact hs.origins b (hsplit ▸ List.mem_append_right _ (List.mem_cons_of_mem _ hb))
    · split at hb
      · obtain ⟨chunk, -, rfl⟩ := List.mem_map.mp hb
        exact hs.origins a hin
      · cases hb

theorem followed_step (hc : c.process.triggerType = .event ∨ c.chunks.length ≤ 1)
    (hs : c.Followed s) {m : Move ε} {t : Run ε} (hgo : c.GoesOn s m)
    (h : (machine c.handlers).step s m = some t) : c.Followed t := by
  cases m with
  | emit f =>
    cases h
    exact followed_emit hs f
  | begin i =>
    simp only [machine, step] at h
    split at h
    · rename_i a ha
      obtain ⟨hphase, h⟩ := Option.ite_none_right_eq_some.mp h
      cases h
      refine followed_setPhase hs ha (fun r hr => ?_) nofun
      rw [hphase] at hr
      cases hr
    · cases h
  | handlerReturns i v m =>
    simp only [machine, step] at h
    split at h
    · rename_i a ha
      obtain ⟨hphase, h⟩ := Option.ite_none_right_eq_some.mp h
      cases h
      exact followed_return hc hs ha hphase (hgo.imp id fun hlast => hlast a ha)
    · cases h
  | stop i =>
    simp only [machine, step] at h
    split at h
    · rename_i a ha
      obtain ⟨hphase, h⟩ := Option.ite_none_right_eq_some.mp h
      cases h
      refine followed_setPhase hs ha (fun r hr => ?_) nofun
      rw [hr] at hphase
      rcases hphase with hphase | hphase <;> cases hphase
    · cases h

end Steps

theorem followed_initial (c : Chain ε) : c.Followed initial where
  inOrder := by
    intro o f hf
    cases hf
  origins := List.forall_mem_nil _

def firstReturns (c : Chain ε) (v : Value) : List (Move ε) :=
  [.emit ⟨c.process.triggerType, c.process.triggerEvent, v⟩, .begin 0,
    .handlerReturns 0 v ⟨false, true, false⟩]

theorem firstReturns_run (c : Chain ε) {chunk : Chunk ε}
    (h : c.chunks = chunk :: rest) (htype : c.process.triggerType ≠ .event) (v : Value) :
    (machine c.handlers).run initial (firstReturns c v) =
      some ⟨[⟨c.process.triggerType, c.process.triggerEvent, v⟩], [⟨0, chunk, v, .returned v⟩]⟩ := by
  have hfirst : handlersAt c.handlers (c.process.triggerType, c.process.triggerEvent) = [chunk] := by
    have hat := @handlersAt_chain _ _ c [] c.chunks rfl
    change handlersAt c.handlers (c.process.triggerType, c.process.triggerEvent) = _ at hat
    rw [hat, h]
    rfl
  have hnone := handlersAt_chain_of_ne c (Ne.symm htype) chunk.trigger
  simp [firstReturns, Machine.run, machine, step, initial, started, hfirst, hnone, Run.setPhase,
    Moment.continues]

/-- In all runs that go on the firings go through the chain, exactly when its links are events or
it has no link. -/
theorem runs_in_order_iff (c : Chain ε) :
    (∀ moves s, (machine c.handlers).Meets c.GoesOn initial moves →
      (machine c.handlers).run initial moves = some s → c.RunsInOrder s) ↔
      c.process.triggerType = .event ∨ c.chunks.length ≤ 1 := by
  constructor
  · intro hall
    by_contra hno
    push Not at hno
    obtain ⟨htype, hlong⟩ := hno
    match hchunks : c.chunks with
    | [] =>
      rw [hchunks] at hlong
      exact absurd hlong (by simp)
    | [_] =>
      rw [hchunks] at hlong
      exact absurd hlong (by simp)
    | first :: second :: rest =>
      have hrun := firstReturns_run c hchunks htype .none
      have hmeets : (machine c.handlers).Meets c.GoesOn initial (firstReturns c .none) :=
        ⟨trivial, fun _ _ => ⟨trivial, fun _ _ => ⟨.inl rfl, fun _ _ => trivial⟩⟩⟩
      have hprogress := hall _ _ hmeets hrun 0 _ rfl rfl
      rw [hchunks] at hprogress
      obtain ⟨a, more, heq, -, -, hmore⟩ := hprogress
      cases heq
      obtain ⟨b, more', heq', -⟩ := hmore
      cases heq'
  · intro hc moves s hm hr
    exact ((machine c.handlers).run_invariant_meeting (fun _ _ _ hs hgo h => followed_step hc hs hgo h)
      (followed_initial c) hm hr).inOrder

def dataChain : Chain String where
  process := when "When" [(.runtimeData, "k")]
  chunks := [⟨"1", "Chunk[first]-1"⟩, ⟨"2", "Chunk[second]-2"⟩]
  ids := by decide
  triggers := by decide
  start := by decide

theorem data_chain_stops : ¬ ∀ (c : Chain String) (moves : List (Move String)) (s : Run String),
    (machine c.handlers).Meets c.GoesOn initial moves →
    (machine c.handlers).run initial moves = some s → c.RunsInOrder s := by
  intro hall
  have hprogress := hall dataChain (firstReturns dataChain .none) _
    ⟨trivial, fun _ _ => ⟨trivial, fun _ _ => ⟨.inl rfl, fun _ _ => trivial⟩⟩⟩ rfl 0 _ rfl rfl
  obtain ⟨a, more, heq, -, -, hmore⟩ := hprogress
  cases heq
  obtain ⟨b, more', heq', -⟩ := hmore
  cases heq'

end Agently.TriggerFlow.Chains
