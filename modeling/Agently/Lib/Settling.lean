import Agently.Lib.TopologicalSort

/-! # Settling the nodes of a dependency relation

Each node may take a value once it is ready, and both its readiness and its value are read off
its dependencies. Where no node is ready before its dependencies have settled, every order in
which nodes take their values, one by one or in groups, ends in the same values. -/

namespace Agently.Lib

universe u v

/-- How nodes take values; `start` holds the values before any is taken. -/
structure Settling (ι : Type u) (ρ : Type v) where
  nodes : List ι
  deps : ι → List ι
  start : ι → Option ρ
  fixed : ι → Prop
  ready : (ι → Option ρ) → ι → Prop
  value : (ι → Option ρ) → ι → Option ρ
  known : ∀ i ∈ nodes, ∀ d ∈ deps i, d ∈ nodes
  acyclic : TopologicalSort.Acyclic nodes deps
  ready_local : ∀ i m m', (∀ d ∈ deps i, m d = m' d) → ready m i → ready m' i
  value_local : ∀ i m m', (∀ d ∈ deps i, m d = m' d) → value m i = value m' i
  /-- A dependency that may still take a value makes no node ready before it does. -/
  waits : ∀ i m, ready m i → ∀ d ∈ deps i, m d = start d → fixed d

namespace Settling

variable {ι : Type u} {ρ : Type v} (S : Settling ι ρ)

def Pending (i : ι) : Prop := i ∈ S.nodes ∧ ¬ S.fixed i

structure Settled (m : ι → Option ρ) : Prop where
  kept : ∀ i, ¬ (S.Pending i ∧ S.ready m i) → m i = S.start i
  taken : ∀ i, S.Pending i → S.ready m i → m i = S.value m i

/-- The nodes of `taken` have taken their values, and no other one has. -/
structure Taken (m : ι → Option ρ) (taken : List ι) : Prop where
  kept : ∀ i ∉ taken, m i = S.start i
  pending : ∀ i ∈ taken, S.Pending i
  ready : ∀ i ∈ taken, S.ready m i
  values : ∀ i ∈ taken, m i = S.value m i

variable {S} {m m' : ι → Option ρ} {taken new : List ι}

theorem settled_unique (h : S.Settled m) (h' : S.Settled m') : m = m' := by
  have hnodes : ∀ i ∈ S.nodes, m i = m' i := by
    refine S.acyclic.induction ?_
    intro i hi ih
    have hdeps : ∀ d ∈ S.deps i, m d = m' d := fun d hd => ih d (S.known i hi d hd) hd
    by_cases hr : S.Pending i ∧ S.ready m i
    · have hr' := S.ready_local i m m' hdeps hr.2
      rw [h.taken i hr.1 hr.2, h'.taken i hr.1 hr', S.value_local i m m' hdeps]
    · have hr' : ¬ (S.Pending i ∧ S.ready m' i) := by
        rintro ⟨hp, hr'⟩
        exact hr ⟨hp, S.ready_local i m' m (fun d hd => (hdeps d hd).symm) hr'⟩
      rw [h.kept i hr, h'.kept i hr']
  funext i
  by_cases hi : i ∈ S.nodes
  · exact hnodes i hi
  · rw [h.kept i (fun hp => hi hp.1.1), h'.kept i (fun hp => hi hp.1.1)]

theorem taken_start : S.Taken S.start [] where
  kept := fun _ _ => rfl
  pending := by simp
  ready := by simp
  values := by simp

theorem Taken.closed (h : S.Taken m taken) {i : ι} (hi : S.ready m i) :
    ∀ d ∈ S.deps i, S.fixed d ∨ d ∈ taken := by
  intro d hd
  by_cases hm : d ∈ taken
  · exact .inr hm
  · exact .inl (S.waits i m hi d hd (h.kept d hm))

theorem Taken.deps_kept (h : S.Taken m taken) (hp : ∀ j ∈ new, S.Pending j)
    (hn : ∀ j ∈ new, j ∉ taken) (hk : ∀ j ∉ new, m' j = m j) {i : ι} (hi : S.ready m i) :
    ∀ d ∈ S.deps i, m d = m' d := by
  intro d hd
  refine (hk d ?_).symm
  intro hnew
  rcases h.closed hi d hd with hf | ht
  · exact (hp d hnew).2 hf
  · exact hn d hnew ht

theorem Taken.take (h : S.Taken m taken) (hp : ∀ j ∈ new, S.Pending j)
    (hn : ∀ j ∈ new, j ∉ taken) (hk : ∀ j ∉ new, m' j = m j) (hr : ∀ j ∈ new, S.ready m j)
    (hv : ∀ j ∈ new, m' j = S.value m j) : S.Taken m' (taken ++ new) := by
  have hdeps : ∀ i, S.ready m i → ∀ d ∈ S.deps i, m d = m' d :=
    fun i hi => h.deps_kept hp hn hk hi
  have hready : ∀ i ∈ taken ++ new, S.ready m i := by
    intro i hi
    rcases List.mem_append.mp hi with hi | hi
    · exact h.ready i hi
    · exact hr i hi
  refine ⟨?_, ?_, ?_, ?_⟩
  · intro i hi
    have ht : i ∉ taken := fun hm => hi (List.mem_append_left _ hm)
    have hnew : i ∉ new := fun hm => hi (List.mem_append_right _ hm)
    rw [hk i hnew, h.kept i ht]
  · intro i hi
    rcases List.mem_append.mp hi with hi | hi
    · exact h.pending i hi
    · exact hp i hi
  · intro i hi
    exact S.ready_local i m m' (hdeps i (hready i hi)) (hready i hi)
  · intro i hi
    rw [← S.value_local i m m' (hdeps i (hready i hi))]
    rcases List.mem_append.mp hi with hi | hi
    · have hnew : i ∉ new := fun hm => hn i hm hi
      rw [hk i hnew, h.values i hi]
    · exact hv i hi

theorem Taken.settled (h : S.Taken m taken)
    (hall : ∀ i, S.Pending i → S.ready m i → i ∈ taken) : S.Settled m where
  kept := by
    intro i hi
    refine h.kept i ?_
    intro ht
    exact hi ⟨h.pending i ht, h.ready i ht⟩
  taken := fun i hp hr => h.values i (hall i hp hr)

theorem Taken.agree {taken' : List ι} (h : S.Taken m taken)
    (hall : ∀ i, S.Pending i → S.ready m i → i ∈ taken) (h' : S.Taken m' taken')
    (hall' : ∀ i, S.Pending i → S.ready m' i → i ∈ taken') : m = m' :=
  settled_unique (h.settled hall) (h'.settled hall')

end Settling

end Agently.Lib
