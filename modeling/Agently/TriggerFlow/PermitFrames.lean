import Agently.Lib.Count
import Agently.Lib.Machine

/-! # The permits of an execution

Source: `TriggerFlow/Execution.py`. A handler acquires a permit of the execution's semaphore, and
each emission it awaits gives the permit back while the signal is dispatched. Whether a permit is
held is a context variable, which the tasks a handler creates copy. A dispatch may start handlers
and end at any time, every `await` may be cancelled; without a limit there is no semaphore. -/

namespace Agently.TriggerFlow.Permits

open Agently.Lib

/-- Handler code runs, or an emission awaits its dispatch or, in the `finally`, its permit. -/
inductive Activity where
  | idle
  | dispatching (yielded : Bool)
  | reacquiring
  deriving DecidableEq

/-- The context of one task; `permitHeld` is `_concurrency_permit_held`. -/
structure Context where
  permitHeld : Bool
  activity : Activity
  deriving DecidableEq

def Context.away (c : Context) : Bool :=
  decide (c.activity = .dispatching true) || decide (c.activity = .reacquiring)

inductive Phase where
  | acquiring
  | executing
  | over
  deriving DecidableEq

/-- A `run_handler`: the first context is its own, the others are those of tasks made from it. -/
structure Frame where
  phase : Phase
  contexts : List Context
  deriving DecidableEq

def Frame.out (f : Frame) : Nat := f.contexts.countP fun c => !c.permitHeld

def Frame.holds (f : Frame) : Bool := decide (f.phase = .executing) && decide (f.out = 0)

inductive FrameMove where
  | acquire
  | cancelAcquire
  | spawn (c : Nat)
  | emit (c : Nat)
  | dispatched (c : Nat)
  | reacquire (c : Nat)
  | cancelReacquire (c : Nat)
  | finish

inductive Effect where
  | keep
  | take
  | give
  deriving DecidableEq

def Frame.setContext (f : Frame) (i : Nat) (c : Context) : Frame :=
  { f with contexts := f.contexts.set i c }

def Frame.move (f : Frame) : FrameMove → Option (Frame × Effect)
  | .acquire =>
    if f.phase = .acquiring then some (⟨.executing, [⟨true, .idle⟩]⟩, .take) else none
  | .cancelAcquire => if f.phase = .acquiring then some ({ f with phase := .over }, .keep) else none
  | .spawn i =>
    match f.contexts[i]? with
    | some ⟨held, .idle⟩ => some ({ f with contexts := f.contexts ++ [⟨held, .idle⟩] }, .keep)
    | _ => none
  -- `_async_dispatch_signal_yielding_current_permit`
  | .emit i =>
    match f.contexts[i]? with
    | some ⟨true, .idle⟩ => some (f.setContext i ⟨false, .dispatching true⟩, .give)
    | some ⟨false, .idle⟩ => some (f.setContext i ⟨false, .dispatching false⟩, .keep)
    | _ => none
  | .dispatched i =>
    match f.contexts[i]? with
    | some ⟨held, .dispatching true⟩ => some (f.setContext i ⟨held, .reacquiring⟩, .keep)
    | some ⟨held, .dispatching false⟩ => some (f.setContext i ⟨held, .idle⟩, .keep)
    | _ => none
  | .reacquire i =>
    match f.contexts[i]? with
    | some ⟨_, .reacquiring⟩ => some (f.setContext i ⟨true, .idle⟩, .take)
    | _ => none
  -- the token is not reset
  | .cancelReacquire i =>
    match f.contexts[i]? with
    | some ⟨held, .reacquiring⟩ => some (f.setContext i ⟨held, .idle⟩, .keep)
    | _ => none
  -- the outer `finally`
  | .finish =>
    match f.contexts with
    | ⟨_, .idle⟩ :: rest => if f.phase = .executing then some (⟨.over, rest⟩, .give) else none
    | _ => none

structure State where
  value : Nat
  frames : List Frame
  deriving DecidableEq

inductive Move where
  | start
  | frame (i : Nat) (m : FrameMove)

def setConcurrency (limit : Nat) : State := ⟨limit, []⟩

def State.setFrame (s : State) (i : Nat) (f : Frame) : Effect → Option State
  | .keep => some { s with frames := s.frames.set i f }
  | .give => some ⟨s.value + 1, s.frames.set i f⟩
  | .take => if 0 < s.value then some ⟨s.value - 1, s.frames.set i f⟩ else none

def permits : Machine State Move where
  step s
    | .start => some { s with frames := s.frames ++ [⟨.acquiring, []⟩] }
    | .frame i m =>
      (s.frames[i]?).bind fun f => (f.move m).bind fun next => s.setFrame i next.1 next.2

def State.holders (s : State) : Nat := s.frames.countP Frame.holds

def State.Conserves (limit : Nat) (s : State) : Prop :=
  s.holders ≤ limit ∧ ((∀ f ∈ s.frames, f.phase = .over) → s.value = limit)

def Frame.CarefulMove (f : Frame) : FrameMove → Prop
  | .emit c => (f.contexts[c]?).map Context.permitHeld = some true → f.holds = true
  | .finish => f.holds = true
  | .cancelReacquire _ => False
  | _ => True

def Careful (s : State) : Move → Prop
  | .frame i m => ∀ f ∈ s.frames[i]?, f.CarefulMove m
  | .start => True

instance (f : Frame) : (m : FrameMove) → Decidable (f.CarefulMove m)
  | .emit _ => inferInstanceAs (Decidable (_ → _))
  | .finish => inferInstanceAs (Decidable (_ = _))
  | .cancelReacquire _ => isFalse id
  | .acquire | .cancelAcquire | .spawn _ | .dispatched _ | .reacquire _ => isTrue trivial

instance (s : State) : (m : Move) → Decidable (Careful s m)
  | .frame _ _ => inferInstanceAs (Decidable (∀ _ ∈ _, _))
  | .start => isTrue trivial

/-- At most one context of an executing handler is without the permit, because it emits. -/
structure Frame.Sound (f : Frame) : Prop where
  given : ∀ c ∈ f.contexts, c.permitHeld = !c.away
  one : f.out ≤ 1
  executing : f.out ≠ 0 → f.phase = .executing

section Frames

variable {f : Frame}

theorem out_set {i : Nat} {c d : Context} (h : f.contexts[i]? = some c) :
    (f.setContext i d).out + (!c.permitHeld).toNat = f.out + (!d.permitHeld).toNat :=
  countP_set_add (fun c : Context => !c.permitHeld) h

theorem given_set (hf : f.Sound) {i : Nat} {d : Context} (hd : d.permitHeld = !d.away) :
    ∀ c ∈ (f.setContext i d).contexts, c.permitHeld = !c.away := by
  intro c hc
  rcases List.mem_or_eq_of_mem_set hc with hc | rfl
  · exact hf.given c hc
  · exact hd

theorem held_of_idle (hf : f.Sound) {i : Nat} {held : Bool}
    (h : f.contexts[i]? = some ⟨held, .idle⟩) : held = true :=
  hf.given _ (List.mem_of_getElem? h)

theorem holds_iff : f.holds = true ↔ f.phase = .executing ∧ f.out = 0 := by
  simp [Frame.holds]

theorem holds_congr {g : Frame} (hp : g.phase = f.phase) (ho : g.out = f.out) :
    g.holds = f.holds := by
  simp [Frame.holds, hp, ho]

def Effect.Fits (f g : Frame) : Effect → Prop
  | .keep => g.holds = f.holds
  | .take => f.holds = false ∧ g.holds = true
  | .give => f.holds = true ∧ g.holds = false

theorem move_keep {i : Nat} {c d : Context} (hf : f.Sound) (hc : f.contexts[i]? = some c)
    (hd : d.permitHeld = !d.away) (hcd : d.permitHeld = c.permitHeld) :
    (f.setContext i d).Sound ∧ (f.setContext i d).holds = f.holds := by
  have hout := out_set (d := d) hc
  rw [hcd] at hout
  have hsame : (f.setContext i d).out = f.out := by omega
  refine ⟨⟨given_set hf hd, ?_, ?_⟩, holds_congr rfl hsame⟩
  · rw [hsame]
    exact hf.one
  · rw [hsame]
    exact hf.executing

theorem move_sound (hf : f.Sound) {m : FrameMove} (hm : f.CarefulMove m) {g : Frame} {e : Effect}
    (h : f.move m = some (g, e)) : g.Sound ∧ e.Fits f g := by
  cases m with
  | acquire =>
    obtain ⟨hphase, h⟩ := Option.ite_none_right_eq_some.mp h
    cases h
    refine ⟨⟨List.forall_mem_singleton.mpr rfl, by decide, by decide⟩, ?_, by decide⟩
    rw [Frame.holds, hphase]
    rfl
  | cancelAcquire =>
    obtain ⟨hphase, h⟩ := Option.ite_none_right_eq_some.mp h
    cases h
    have hout : f.out = 0 := by
      by_contra hne
      rw [hf.executing hne] at hphase
      cases hphase
    refine ⟨⟨hf.given, hf.one, fun hne => absurd hout hne⟩, ?_⟩
    simp [Effect.Fits, Frame.holds, hphase]
  | spawn i =>
    simp only [Frame.move] at h
    split at h
    · rename_i held hc
      cases h
      have hheld := held_of_idle hf hc
      subst hheld
      have hout : Frame.out { f with contexts := f.contexts ++ [⟨true, .idle⟩] } = f.out := by
        simp [Frame.out]
      refine ⟨⟨fun c hc => ?_, hout ▸ hf.one, hout ▸ hf.executing⟩, holds_congr rfl hout⟩
      rcases List.mem_append.mp hc with hc | hc
      · exact hf.given c hc
      · cases List.mem_singleton.mp hc
        rfl
    · cases h
  | emit i =>
    simp only [Frame.move] at h
    split at h
    · rename_i hc
      cases h
      obtain ⟨hphase, hout⟩ := holds_iff.mp (hm (by rw [hc]; rfl))
      have hset := out_set (d := ⟨false, .dispatching true⟩) hc
      simp only [Bool.not_true, Bool.toNat_false, Bool.not_false, Bool.toNat_true] at hset
      have hone : (f.setContext i ⟨false, .dispatching true⟩).out = 1 := by omega
      refine ⟨⟨given_set hf rfl, by omega, fun _ => hphase⟩, holds_iff.mpr ⟨hphase, hout⟩, ?_⟩
      simp [Frame.holds, hone]
    · rename_i hc
      cases held_of_idle hf hc
    · cases h
  | dispatched i =>
    simp only [Frame.move] at h
    split at h
    · rename_i held hc
      cases h
      have hgiven : held = false := hf.given _ (List.mem_of_getElem? hc)
      exact move_keep hf hc hgiven rfl
    · rename_i held hc
      cases h
      have hgiven : held = true := hf.given _ (List.mem_of_getElem? hc)
      exact move_keep hf hc hgiven rfl
    · cases h
  | reacquire i =>
    simp only [Frame.move] at h
    split at h
    · rename_i held hc
      cases h
      have hgiven : held = false := hf.given _ (List.mem_of_getElem? hc)
      subst hgiven
      have hset := out_set (d := ⟨true, .idle⟩) hc
      have hone := hf.one
      simp only [Bool.not_true, Bool.toNat_false, Bool.not_false, Bool.toNat_true] at hset
      have hphase := hf.executing (by omega)
      have hnone : (f.setContext i ⟨true, .idle⟩).out = 0 := by omega
      refine ⟨⟨given_set hf rfl, by omega, fun hne => absurd hnone hne⟩, ?_,
        holds_iff.mpr ⟨hphase, hnone⟩⟩
      have hout : f.out ≠ 0 := by omega
      simp [Frame.holds, hout]
    · cases h
  | cancelReacquire i => exact absurd hm id
  | finish =>
    simp only [Frame.move] at h
    split at h
    · rename_i held rest hcontexts
      obtain ⟨hphase, h⟩ := Option.ite_none_right_eq_some.mp h
      cases h
      obtain ⟨-, hout⟩ := holds_iff.mp hm
      have hrest : Frame.out ⟨.over, rest⟩ = 0 := by
        rw [Frame.out, hcontexts, countP_cons_toNat] at hout
        exact Nat.eq_zero_of_add_eq_zero_right hout
      refine ⟨⟨fun c hc => hf.given c ?_, by omega, fun hne => absurd hrest hne⟩, hm, rfl⟩
      rw [hcontexts]
      exact List.mem_cons_of_mem _ hc
    · cases h

end Frames

structure Balanced (limit : Nat) (s : State) : Prop where
  frames : ∀ f ∈ s.frames, f.Sound
  total : s.value + s.holders = limit

theorem balanced_setFrame {limit : Nat} {s t : State} (hs : Balanced limit s) {i : Nat}
    {f g : Frame} (hf : s.frames[i]? = some f) (hg : g.Sound) {e : Effect} (he : e.Fits f g)
    (h : s.setFrame i g e = some t) : Balanced limit t := by
  have hcount := countP_set_add Frame.holds (b := g) hf
  have htotal := hs.total
  have hsound : ∀ f' ∈ s.frames.set i g, f'.Sound := by
    intro f' hf'
    rcases List.mem_or_eq_of_mem_set hf' with hf' | rfl
    · exact hs.frames f' hf'
    · exact hg
  unfold State.holders at htotal
  cases e with
  | keep =>
    cases h
    refine ⟨hsound, ?_⟩
    rw [show g.holds = f.holds from he] at hcount
    show s.value + (s.frames.set i g).countP Frame.holds = limit
    omega
  | give =>
    cases h
    refine ⟨hsound, ?_⟩
    rw [he.1, he.2] at hcount
    simp only [Bool.toNat_true, Bool.toNat_false] at hcount
    show s.value + 1 + (s.frames.set i g).countP Frame.holds = limit
    omega
  | take =>
    obtain ⟨hpos, h⟩ := Option.ite_none_right_eq_some.mp h
    cases h
    refine ⟨hsound, ?_⟩
    rw [he.1, he.2] at hcount
    simp only [Bool.toNat_true, Bool.toNat_false] at hcount
    show s.value - 1 + (s.frames.set i g).countP Frame.holds = limit
    omega

theorem balanced_step {limit : Nat} {s t : State} {m : Move} (hs : Balanced limit s)
    (hc : Careful s m) (h : permits.step s m = some t) : Balanced limit t := by
  cases m with
  | start =>
    cases h
    refine ⟨fun f hf => ?_, ?_⟩
    · rcases List.mem_append.mp hf with hf | hf
      · exact hs.frames f hf
      · cases List.mem_singleton.mp hf
        exact ⟨List.forall_mem_nil _, by decide, by decide⟩
    · have htotal := hs.total
      unfold State.holders at htotal ⊢
      rw [List.countP_append, List.countP_singleton]
      simpa [Frame.holds] using htotal
  | frame i m =>
    obtain ⟨f, hf, h⟩ := Option.bind_eq_some_iff.mp h
    obtain ⟨⟨g, e⟩, hmove, h⟩ := Option.bind_eq_some_iff.mp h
    obtain ⟨hg, he⟩ := move_sound (hs.frames f (List.mem_of_getElem? hf)) (hc f hf) hmove
    exact balanced_setFrame hs hf hg he h

theorem balanced_setConcurrency (limit : Nat) : Balanced limit (setConcurrency limit) :=
  ⟨List.forall_mem_nil _, rfl⟩

theorem conserves_of_balanced {limit : Nat} {s : State} (hs : Balanced limit s) :
    s.Conserves limit := by
  have htotal := hs.total
  refine ⟨by omega, fun hover => ?_⟩
  have hnone : s.holders = 0 := by
    refine List.countP_eq_zero.mpr fun f hf => ?_
    simp [Frame.holds, hover f hf]
  omega

/-- In every run of careful steps the permits are conserved. -/
theorem permits_conserved {limit : Nat} {moves : List Move} {s : State}
    (hc : permits.Meets Careful (setConcurrency limit) moves)
    (hr : permits.run (setConcurrency limit) moves = some s) : s.Conserves limit :=
  conserves_of_balanced (permits.run_invariant_meeting (fun _ _ _ hs hcs h => balanced_step hs hcs h)
    (balanced_setConcurrency limit) hc hr)

def nestedRun : List Move :=
  [.start, .frame 0 .acquire, .frame 0 (.emit 0), .start, .frame 1 .acquire, .frame 1 .finish,
    .frame 0 (.dispatched 0), .frame 0 (.reacquire 0), .frame 0 .finish]

theorem permits_conserved_nested : State.Conserves 1 ⟨1, [⟨.over, []⟩, ⟨.over, []⟩]⟩ :=
  @permits_conserved 1 nestedRun _ (by decide) (by decide)

def fanOutRun : List Move :=
  [.start, .frame 0 .acquire, .frame 0 (.spawn 0), .frame 0 (.spawn 0), .frame 0 (.emit 1),
    .frame 0 (.emit 2), .start, .start, .frame 1 .acquire, .frame 2 .acquire]

theorem fanOut_exceeds_limit :
    ¬ ∀ (limit : Nat) (moves : List Move) (s : State),
      permits.run (setConcurrency limit) moves = some s → s.Conserves limit := by
  intro hall
  have hs := hall 1 fanOutRun
    ⟨0, [⟨.executing, [⟨true, .idle⟩, ⟨false, .dispatching true⟩, ⟨false, .dispatching true⟩]⟩,
      ⟨.executing, [⟨true, .idle⟩]⟩, ⟨.executing, [⟨true, .idle⟩]⟩]⟩ (by decide)
  exact absurd hs.1 (by decide)

theorem holders_append_acquired (s : State) :
    ∃ t, permits.run ⟨s.value + 1, s.frames⟩ [.start, .frame s.frames.length .acquire] = some t ∧
      t.value = s.value ∧ t.holders = s.holders + 1 := by
  refine ⟨⟨s.value, s.frames ++ [⟨.executing, [⟨true, .idle⟩]⟩]⟩, ?_, rfl, ?_⟩
  · simp [Machine.run, permits, Frame.move, State.setFrame]
  · simp [State.holders, Frame.holds, Frame.out]

theorem all_permits_held (s : State) :
    ∃ moves t, permits.run s moves = some t ∧ t.holders = s.holders + s.value := by
  obtain ⟨value, frames⟩ := s
  induction value generalizing frames with
  | zero => exact ⟨[], _, rfl, rfl⟩
  | succ value ih =>
    obtain ⟨t, ht, hvalue, hholders⟩ := holders_append_acquired ⟨value, frames⟩
    obtain ⟨v, frames'⟩ := t
    cases hvalue
    obtain ⟨moves, u, hu, hcount⟩ := ih frames'
    refine ⟨[.start, .frame frames.length .acquire] ++ moves, u, ?_, ?_⟩
    · rw [permits.run_append, ht, Option.bind_some]
      exact hu
    · rw [hcount, hholders]
      show _ = State.holders ⟨value + 1, frames⟩ + (value + 1)
      show State.holders ⟨value, frames⟩ + 1 + value = State.holders ⟨value, frames⟩ + (value + 1)
      omega

theorem careless_emission_exceeds {limit : Nat} {s : State} (hs : Balanced limit s) {i c : Nat}
    {f : Frame} (hf : s.frames[i]? = some f) (hc : f.contexts[c]? = some ⟨true, .idle⟩)
    (hno : f.holds = false) :
    ∃ moves t, permits.run s (.frame i (.emit c) :: moves) = some t ∧ limit < t.holders := by
  let g := f.setContext c ⟨false, .dispatching true⟩
  let u : State := ⟨s.value + 1, s.frames.set i g⟩
  have hstep : permits.step s (.frame i (.emit c)) = some u := by
    simp [permits, hf, Frame.move, hc, State.setFrame, u, g]
  have hg : g.holds = false := by
    have hset := out_set (d := ⟨false, .dispatching true⟩) hc
    simp only [Bool.not_true, Bool.toNat_false, Bool.not_false, Bool.toNat_true] at hset
    have hout : (f.setContext c ⟨false, .dispatching true⟩).out ≠ 0 := by omega
    simp [g, Frame.holds, hout]
  have hcount := countP_set_add Frame.holds (b := g) hf
  rw [hg, hno] at hcount
  obtain ⟨moves, t, ht, hholders⟩ := all_permits_held u
  refine ⟨moves, t, permits.run_cons_eq_some.mpr ⟨u, hstep, ht⟩, ?_⟩
  have htotal := hs.total
  have huholders : u.holders = s.holders := by
    show (s.frames.set i g).countP Frame.holds = s.frames.countP Frame.holds
    omega
  rw [hholders, huholders]
  show limit < s.holders + (s.value + 1)
  omega

end Agently.TriggerFlow.Permits
