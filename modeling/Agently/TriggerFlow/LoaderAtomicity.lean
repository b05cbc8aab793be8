import Agently.TriggerFlow.FlowLoader

/-! # What a flow config that does not load leaves

The definition is assigned and the tables are cleared before the first operator is compiled. -/

namespace Agently.TriggerFlow.FlowConfig

open Agently.Lib Agently.Lib.Outcome Agently.Utils

structure Observed where
  handlers : Handlers
  chunks : Dict Value Chunk
  definition : Definition
  registries : Registries

def Blueprint.observed (bp : Blueprint) : Observed :=
  { handlers := bp.handlers
    chunks := bp.chunks
    definition := bp.definition
    registries := bp.registries }

def triggerTypes : List String := Dict.keys noHandlers

def Blueprint.handlerAt (bp : Blueprint) (triggerType target id : String) : Option Handler :=
  ((Dict.get? bp.handlers triggerType).bind fun targets => Dict.get? targets target).bind
    fun stored => Dict.get? stored id

def Blueprint.Holds (bp : Blueprint) : Prop :=
  (∃ triggerType target id handler, bp.handlerAt triggerType target id = some handler) ∨
    bp.chunks ≠ []

structure Blueprint.Made (bp : Blueprint) : Prop where
  handlers : ∀ triggerType target id handler, bp.handlerAt triggerType target id = some handler →
    handler.object < bp.nextObject
  chunks : ∀ c ∈ Dict.vals bp.chunks, c.object < bp.nextObject

section Errors

variable (b : Texts) (nested : Registries → Value → Option ConfigError) (registries : Registries)

def badSignal (signals : List SignalRef) : Option SignalRef :=
  signals.find? fun signal => signal.triggerType ∉ triggerTypes

def operatorError (o : Operator) : Option ConfigError :=
  match operatorReads b nested registries o with
  | .error e => some e
  | .ok _ => (badSignal o.listenSignals).map fun signal => .keyError signal.triggerType

def operatorsError : List Operator → Option ConfigError
  | [] => none
  | o :: rest => (operatorError b nested registries o).or (operatorsError rest)

def startsWell : List SignalRef → Bool
  | [] => false
  | signal :: _ => decide (signal.triggerType ∈ triggerTypes)

def touches (o : Operator) : Bool :=
  match operatorReads b nested registries o with
  | .error _ => false
  | .ok _ => decide (o.kind = "chunk") || startsWell o.listenSignals

def anyTouches : List Operator → Bool
  | [] => false
  | o :: rest =>
    touches b nested registries o ||
      ((operatorError b nested registries o).isNone && anyTouches rest)

end Errors

/-- What loading a nested config raises where the stack has room for `depth` nested loads. -/
def nestedError (b : Texts) : Nat → Registries → Value → Option ConfigError
  | 0, _, _ => some .recursionError
  | depth + 1, registries, config =>
    match fromDict b config with
    | .error e => some e
    | .ok d => operatorsError b (nestedError b depth) registries d.operators

/-- The tables while they are filled: nothing in them is older than `n`. -/
structure Filling (n : Nat) (bp : Blueprint) : Prop where
  typed : ∀ triggerType, (Dict.get? bp.handlers triggerType).isSome = true ↔
    triggerType ∈ triggerTypes
  handlers : ∀ triggerType target id handler, bp.handlerAt triggerType target id = some handler →
    n ≤ handler.object
  chunks : ∀ c ∈ Dict.vals bp.chunks, n ≤ c.object
  made : bp.Made
  next : n ≤ bp.nextObject

structure Grown (n : Nat) (touched : Bool) (s t : Blueprint) : Prop where
  filling : Filling n t
  registries : t.registries = s.registries
  definition : t.definition = s.definition
  kept : touched = false → t.handlers = s.handlers ∧ t.chunks = s.chunks
  held : touched = true → t.Holds
  holds : s.Holds → t.Holds
  next : s.nextObject ≤ t.nextObject

variable {n : Nat} {s : Blueprint}

theorem Grown.refl (h : Filling n s) : Grown n false s s :=
  ⟨h, rfl, rfl, fun _ => ⟨rfl, rfl⟩, nofun, id, le_rfl⟩

theorem Grown.trans {a c : Bool} {t u : Blueprint} (hst : Grown n a s t)
    (htu : Grown n c t u) : Grown n (a || c) s u where
  filling := htu.filling
  registries := htu.registries.trans hst.registries
  definition := htu.definition.trans hst.definition
  kept := by
    intro hno
    obtain ⟨ha, hc⟩ := Bool.or_eq_false_iff.mp hno
    obtain ⟨hh, hcs⟩ := hst.kept ha
    obtain ⟨hh', hcs'⟩ := htu.kept hc
    exact ⟨hh'.trans hh, hcs'.trans hcs⟩
  held := by
    intro hor
    rcases Bool.or_eq_true_iff.mp hor with ha | hc
    · exact htu.holds (hst.held ha)
    · exact htu.held hc
  holds := fun h => htu.holds (hst.holds h)
  next := hst.next.trans htu.next

/-- An action raises `error`, if any, and fills the tables as `touched` says. -/
def Fills (n : Nat) (m : Load Unit) (s : Blueprint) (error : Option ConfigError)
    (touched : Bool) : Prop :=
  ∃ t, Grown n touched s t ∧ match error with
    | none => m s = .ok () t
    | some e => m s = .error e t

theorem Fills.then_ok {m m' : Load Unit} {error : Option ConfigError}
    {a c : Bool} (h : Fills n m s none a)
    (h' : ∀ t, Grown n a s t → Fills n m' t error c) :
    Fills n (m >>= fun _ => m') s error (a || c) := by
  obtain ⟨t, hst, hrun⟩ := h
  obtain ⟨u, htu, hrun'⟩ := h' t hst
  refine ⟨u, hst.trans htu, ?_⟩
  rw [bind_ok hrun]
  exact hrun'

theorem Fills.then_error {m m' : Load Unit} {e : ConfigError} {a : Bool}
    (h : Fills n m s (some e) a) : Fills n (m >>= fun _ => m') s (some e) a := by
  obtain ⟨t, hst, hrun⟩ := h
  exact ⟨t, hst, bind_error hrun⟩

theorem get?_storeHandler {stored : Dict String Handler} {id : String} {handler : Handler}
    {j : String} {h : Handler} (hget : Dict.get? (storeHandler stored id handler) j = some h) :
    Dict.get? stored j = some h ∨ h = handler := by
  unfold storeHandler at hget
  split at hget
  · exact .inl hget
  · split at hget
    · exact .inl hget
    · by_cases hj : id = j
      · subst hj
        rw [Dict.get?_set_self] at hget
        exact .inr (Option.some.inj hget).symm
      · rw [Dict.get?_set_of_ne stored handler hj] at hget
        exact .inl hget

theorem storeHandler_ne_nil (stored : Dict String Handler) (id : String) (handler : Handler) :
    ∃ j h, Dict.get? (storeHandler stored id handler) j = some h := by
  unfold storeHandler
  split
  · rename_i hin
    cases hget : Dict.get? stored id with
    | none => exact absurd hin (Dict.get?_eq_none_iff.mp hget)
    | some h => exact ⟨id, h, hget⟩
  · split
    · rename_i hany
      obtain ⟨h, hh, -⟩ := List.any_eq_true.mp hany
      obtain ⟨p, hp, -⟩ := List.mem_map.mp hh
      cases hget : Dict.get? stored p.1 with
      | none => exact absurd (List.mem_map.mpr ⟨p, hp, rfl⟩) (Dict.get?_eq_none_iff.mp hget)
      | some h => exact ⟨p.1, h, hget⟩
    · exact ⟨id, handler, Dict.get?_set_self stored id handler⟩

theorem get?_storeHandler_of_get? {stored : Dict String Handler} {id : String}
    {handler : Handler} {j : String} {h : Handler} (hget : Dict.get? stored j = some h) :
    ∃ h', Dict.get? (storeHandler stored id handler) j = some h' := by
  unfold storeHandler
  split
  · exact ⟨h, hget⟩
  · split
    · exact ⟨h, hget⟩
    · by_cases hj : id = j
      · subst hj
        exact ⟨handler, Dict.get?_set_self stored id handler⟩
      · exact ⟨h, by rw [Dict.get?_set_of_ne stored handler hj, hget]⟩

def Blueprint.withStored (bp : Blueprint) (triggerType target : String)
    (targets : Dict String (Dict String Handler)) (stored : Dict String Handler) : Blueprint :=
  { bp with handlers := Dict.set bp.handlers triggerType (Dict.set targets target stored) }

section Stored

variable {bp : Blueprint} {triggerType target : String}
  {targets : Dict String (Dict String Handler)}

theorem handlerAt_withStored_self (stored : Dict String Handler) (id : String) :
    (bp.withStored triggerType target targets stored).handlerAt triggerType target id =
      Dict.get? stored id := by
  simp [Blueprint.handlerAt, Blueprint.withStored]

theorem handlerAt_withStored_of_ne (htargets : Dict.get? bp.handlers triggerType = some targets)
    (stored : Dict String Handler) {ty tg : String} (hne : ¬ (ty = triggerType ∧ tg = target))
    (id : String) :
    (bp.withStored triggerType target targets stored).handlerAt ty tg id = bp.handlerAt ty tg id := by
  unfold Blueprint.handlerAt Blueprint.withStored
  by_cases hty : triggerType = ty
  · subst hty
    have htg : target ≠ tg := fun h => hne ⟨rfl, h.symm⟩
    rw [Dict.get?_set_self, htargets, Option.bind_some, Option.bind_some,
      Dict.get?_set_of_ne targets stored htg]
  · rw [Dict.get?_set_of_ne bp.handlers _ hty]

theorem handlerAt_getD (htargets : Dict.get? bp.handlers triggerType = some targets) (id : String) :
    bp.handlerAt triggerType target id = Dict.get? ((Dict.get? targets target).getD []) id := by
  unfold Blueprint.handlerAt
  rw [htargets, Option.bind_some]
  cases Dict.get? targets target <;> rfl

theorem handlerAt_stored (htargets : Dict.get? bp.handlers triggerType = some targets)
    {handler : Handler} {id ty tg j : String} {h : Handler}
    (hj : (bp.withStored triggerType target targets
      (storeHandler ((Dict.get? targets target).getD []) id handler)).handlerAt ty tg j = some h) :
    bp.handlerAt ty tg j = some h ∨ h = handler := by
  by_cases hself : ty = triggerType ∧ tg = target
  · obtain ⟨rfl, rfl⟩ := hself
    rw [handlerAt_withStored_self] at hj
    rw [handlerAt_getD htargets]
    exact get?_storeHandler hj
  · rw [handlerAt_withStored_of_ne htargets _ hself] at hj
    exact .inl hj

theorem grown_withStored {n : Nat} (hs : Filling n bp)
    (htargets : Dict.get? bp.handlers triggerType = some targets) {handler : Handler}
    (hnew : n ≤ handler.object) (hmade : handler.object < bp.nextObject) (id : String) :
    Grown n true bp (bp.withStored triggerType target targets
      (storeHandler ((Dict.get? targets target).getD []) id handler)) where
  next := le_rfl
  registries := rfl
  definition := rfl
  kept := nofun
  held := by
    intro _
    obtain ⟨j, h, hj⟩ := storeHandler_ne_nil ((Dict.get? targets target).getD []) id handler
    refine .inl ⟨triggerType, target, j, h, ?_⟩
    rw [handlerAt_withStored_self, hj]
  holds := by
    rintro (⟨ty, tg, j, h, hj⟩ | hchunks)
    · by_cases hself : ty = triggerType ∧ tg = target
      · obtain ⟨rfl, rfl⟩ := hself
        rw [handlerAt_getD htargets] at hj
        obtain ⟨h', hj'⟩ := @get?_storeHandler_of_get? _ id handler _ _ hj
        refine .inl ⟨ty, tg, j, h', ?_⟩
        rw [handlerAt_withStored_self, hj']
      · refine .inl ⟨ty, tg, j, h, ?_⟩
        rw [handlerAt_withStored_of_ne htargets _ hself, hj]
    · exact .inr hchunks
  filling :=
    { typed := by
        intro ty
        show (Dict.get? (Dict.set bp.handlers triggerType _) ty).isSome = true ↔ _
        by_cases hty : triggerType = ty
        · subst hty
          rw [Dict.get?_set_self, ← hs.typed, htargets]
          simp
        · rw [Dict.get?_set_of_ne bp.handlers _ hty]
          exact hs.typed ty
      handlers := by
        intro ty tg j h hj
        rcases handlerAt_stored htargets hj with hold | rfl
        · exact hs.handlers ty tg j h hold
        · exact hnew
      made :=
        { handlers := by
            intro ty tg j h hj
            rcases handlerAt_stored htargets hj with hold | rfl
            · exact hs.made.handlers ty tg j h hold
            · exact hmade
          chunks := hs.made.chunks }
      chunks := hs.chunks
      next := hs.next }

end Stored

theorem addHandler_fills (hs : Filling n s) {handler : Handler}
    (hnew : n ≤ handler.object) (hmade : handler.object < s.nextObject) (triggerType target id : String) :
    Fills n (addHandler triggerType target handler id) s
      (if triggerType ∈ triggerTypes then none else some (.keyError triggerType))
      (decide (triggerType ∈ triggerTypes)) := by
  unfold addHandler
  cases htargets : Dict.get? s.handlers triggerType with
  | none =>
    have hout : triggerType ∉ triggerTypes := by
      rw [← hs.typed, htargets]
      simp
    refine ⟨s, ?_, ?_⟩
    · rw [decide_eq_false hout]
      exact .refl hs
    · rw [if_neg hout]
      simp only [bind_get, htargets]
      rfl
  | some targets =>
    have hin : triggerType ∈ triggerTypes := by
      rw [← hs.typed, htargets]
      rfl
    refine ⟨s.withStored triggerType target targets
      (storeHandler ((Dict.get? targets target).getD []) id handler), ?_, ?_⟩
    · rw [decide_eq_true hin]
      exact grown_withStored hs htargets hnew hmade id
    · rw [if_pos hin]
      simp only [bind_get, htargets]
      rfl

theorem listen_fills {handler : Handler} (hnew : n ≤ handler.object) (id : String)
    (signals : List SignalRef) (hs : Filling n s)
    (hmade : handler.object < s.nextObject) :
    Fills n (listen handler id signals) s
      ((badSignal signals).map fun signal => .keyError signal.triggerType)
      (startsWell signals) := by
  induction signals generalizing s with
  | nil => exact ⟨s, .refl hs, rfl⟩
  | cons signal rest ih =>
    have hadd := addHandler_fills hs hnew hmade signal.triggerType signal.triggerEvent id
    unfold listen badSignal
    by_cases hin : signal.triggerType ∈ triggerTypes
    · rw [if_pos hin, decide_eq_true hin] at hadd
      rw [List.find?_cons_of_neg (by simpa using hin),
        show startsWell (signal :: rest) = true from decide_eq_true hin]
      have hgo := hadd.then_ok fun t hst =>
        ih hst.filling (lt_of_lt_of_le hmade hst.next)
      rw [Bool.true_or] at hgo
      exact hgo
    · rw [if_neg hin, decide_eq_false hin] at hadd
      rw [List.find?_cons_of_pos (by simpa using hin),
        show startsWell (signal :: rest) = false from decide_eq_false hin]
      exact hadd.then_error

theorem mem_vals_set {κ ν : Type} [DecidableEq κ] {d : Dict κ ν} {k : κ} {v w : ν}
    (h : w ∈ Dict.vals (Dict.set d k v)) : w = v ∨ w ∈ Dict.vals d := by
  obtain ⟨p, hp, rfl⟩ := List.mem_map.mp h
  rcases Dict.mem_set hp with rfl | hp
  · exact .inl rfl
  · exact .inr (List.mem_map.mpr ⟨p, hp, rfl⟩)

theorem storeChunk_fills (hs : Filling n s) (o : Operator) {object : Nat}
    (hnew : n ≤ object) (hmade : object < s.nextObject) (callables : List Nat) :
    Fills n (storeChunk o object callables) s none true := by
  let key := dictKey (Chunk.nameOf o)
  let c := chunkOf o object (callables.headD 0)
  have hself := Dict.get?_set_self s.chunks key c
  have hne : Dict.set s.chunks key c ≠ [] := by
    intro hnil
    rw [hnil] at hself
    cases hself
  have hfilling : Filling n { s with chunks := Dict.set s.chunks key c } := by
    refine ⟨hs.typed, hs.handlers, fun d hd => ?_, ⟨hs.made.handlers, fun d hd => ?_⟩, hs.next⟩
    · rcases mem_vals_set hd with rfl | hd
      · exact hnew
      · exact hs.chunks d hd
    · rcases mem_vals_set hd with rfl | hd
      · exact hmade
      · exact hs.made.chunks d hd
  exact ⟨_, ⟨hfilling, rfl, rfl, nofun, fun _ => .inr hne, fun _ => .inr hne, le_rfl⟩, rfl⟩

theorem newObject_run (s : Blueprint) :
    newObject s = .ok s.nextObject { s with nextObject := s.nextObject + 1 } := rfl

theorem orRaise_ok {α : Type} (a : α) (s : Blueprint) : (orRaise (.ok a) : Load α) s = .ok a s :=
  rfl

theorem orRaise_error {α : Type} (e : ConfigError) (s : Blueprint) :
    (orRaise (.error e) : Load α) s = .error e s := rfl

section Compile

variable (b : Texts) (nested : Registries → Value → Option ConfigError)

variable {s : Blueprint}

theorem compileOperator_fills {n : Nat} (hs : Filling n s) (o : Operator) :
    Fills n (compileOperator b nested o) s (operatorError b nested s.registries o)
      (touches b nested s.registries o) := by
  unfold compileOperator operatorError touches
  cases hreads : operatorReads b nested s.registries o with
  | error e =>
    refine ⟨s, .refl hs, ?_⟩
    simp only [bind_get, hreads]
    exact bind_error (orRaise_error e s)
  | ok callables =>
    let u : Blueprint := { s with nextObject := s.nextObject + 1 }
    have hu : Filling n u :=
      { typed := hs.typed
        handlers := hs.handlers
        chunks := hs.chunks
        made :=
          { handlers := fun ty tg j h hj => Nat.lt_succ_of_lt (hs.made.handlers ty tg j h hj)
            chunks := fun c hc => Nat.lt_succ_of_lt (hs.made.chunks c hc) }
        next := Nat.le_succ_of_le hs.next }
    have hsu : Grown n false s u :=
      ⟨hu, rfl, rfl, fun _ => ⟨rfl, rfl⟩, nofun, id, Nat.le_succ _⟩
    have hlisten : ∀ t a, Grown n a u t → Fills n (listen ⟨s.nextObject, o, callables⟩ o.id
        o.listenSignals) t _ _ := fun t a hut =>
      listen_fills hs.next o.id o.listenSignals hut.filling
        (lt_of_lt_of_le (Nat.lt_succ_self _) hut.next)
    have hrest : Fills n ((if o.kind = "chunk" then storeChunk o s.nextObject callables
        else pure ()) >>= fun _ => listen ⟨s.nextObject, o, callables⟩ o.id o.listenSignals) u
        ((badSignal o.listenSignals).map fun signal => .keyError signal.triggerType)
        (decide (o.kind = "chunk") || startsWell o.listenSignals) := by
      by_cases hkind : o.kind = "chunk"
      · rw [if_pos hkind, decide_eq_true hkind]
        exact (storeChunk_fills hu o hs.next (Nat.lt_succ_self _) callables).then_ok
          fun t hut => hlisten t _ hut
      · rw [if_neg hkind, decide_eq_false hkind]
        have hpure : Fills n (pure () : Load Unit) u none false := ⟨u, .refl hu, rfl⟩
        exact hpure.then_ok fun t hut => hlisten t _ hut
    obtain ⟨t, hut, hrun⟩ := hrest
    have hst := hsu.trans hut
    rw [Bool.false_or] at hst
    refine ⟨t, hst, ?_⟩
    simp only [bind_get, hreads]
    rw [bind_ok (orRaise_ok callables s), bind_ok (newObject_run s)]
    by_cases hkind : o.kind = "chunk"
    · simp only [if_pos hkind] at hrun ⊢
      exact hrun
    · simp only [if_neg hkind] at hrun ⊢
      exact hrun

theorem compileOperators_fills {n : Nat} (os : List Operator) (hs : Filling n s) :
    Fills n (compileOperators b nested os) s (operatorsError b nested s.registries os)
      (anyTouches b nested s.registries os) := by
  induction os generalizing s with
  | nil => exact ⟨s, .refl hs, rfl⟩
  | cons o rest ih =>
    have hone := compileOperator_fills b nested hs o
    unfold compileOperators operatorsError anyTouches
    cases herror : operatorError b nested s.registries o with
    | none =>
      rw [herror] at hone
      exact hone.then_ok fun t ht => ht.registries ▸ ih ht.filling
    | some e =>
      rw [herror] at hone
      rw [Option.some_or, Option.isNone_some, Bool.false_and, Bool.or_false]
      exact hone.then_error

def Blueprint.cleared (bp : Blueprint) : Blueprint := { bp with handlers := noHandlers, chunks := [] }

theorem handlerAt_cleared (bp : Blueprint) (triggerType target id : String) :
    bp.cleared.handlerAt triggerType target id = none := by
  have hall : ∀ p ∈ noHandlers, p.2 = [] := by decide
  unfold Blueprint.handlerAt
  cases hget : Dict.get? bp.cleared.handlers triggerType with
  | none => rfl
  | some targets =>
    have hnil : targets = [] := hall _ (Dict.mem_of_get? hget)
    rw [hnil]
    rfl

theorem filling_cleared (bp : Blueprint) : Filling bp.nextObject bp.cleared where
  typed := by
    intro triggerType
    rw [Option.isSome_iff_ne_none, ne_eq, Dict.get?_eq_none_iff, not_not]
    rfl
  handlers := by
    intro ty tg id h hget
    rw [handlerAt_cleared] at hget
    cases hget
  chunks := List.forall_mem_nil _
  made :=
    { handlers := by
        intro ty tg id h hget
        rw [handlerAt_cleared] at hget
        cases hget
      chunks := List.forall_mem_nil _ }
  next := le_rfl

theorem loadWith_fills {config : Value} {replace : Bool} {d : Definition}
    (hd : loadedDefinition b s.definition config replace = .ok d) :
    ∃ t, Grown s.nextObject (anyTouches b nested s.registries d.operators)
        { s.cleared with definition := d, name := d.name } t ∧
      match operatorsError b nested s.registries d.operators with
      | none => loadWith b nested config replace s = .ok () t
      | some e => loadWith b nested config replace s = .error e t := by
  have hrun : loadWith b nested config replace s =
      compileOperators b nested d.operators { s.cleared with definition := d, name := d.name } := by
    unfold loadWith
    rw [bind_get, hd]
    rfl
  rw [hrun]
  exact compileOperators_fills b nested d.operators
    (filling_cleared { s with definition := d, name := d.name })

theorem loadWith_refused {config : Value} {replace : Bool} {e : ConfigError}
    (hd : loadedDefinition b s.definition config replace = .error e) :
    loadWith b nested config replace s = .error e s := by
  unfold loadWith
  rw [bind_get, hd]
  exact bind_error (orRaise_error e s)

end Compile

theorem raisedBy_loadWith (b : Texts) (nested : Registries → Value → Option ConfigError)
    (registries : Registries) (config : Value) :
    raisedBy (loadWith b nested config true) registries = match fromDict b config with
      | .error e => some e
      | .ok d => operatorsError b nested registries d.operators := by
  have hloaded : loadedDefinition b (Blueprint.fresh registries).definition config true =
      fromDict b config := by
    unfold loadedDefinition
    cases fromDict b config <;> rfl
  unfold raisedBy
  cases hd : fromDict b config with
  | error e => rw [loadWith_refused b nested (hloaded.trans hd)]
  | ok d =>
    obtain ⟨t, -, hrun⟩ := loadWith_fills b nested (hloaded.trans hd)
    simp only
    cases herror : operatorsError b nested registries d.operators with
    | none =>
      rw [show (Blueprint.fresh registries).registries = registries from rfl, herror] at hrun
      rw [hrun]
    | some e =>
      rw [show (Blueprint.fresh registries).registries = registries from rfl, herror] at hrun
      rw [hrun]

theorem loadFlowConfig_eq (b : Texts) (depth : Nat) :
    loadFlowConfig b depth = loadWith b (nestedError b depth) := by
  induction depth with
  | zero =>
    rw [loadFlowConfig]
    congr 1
  | succ depth ih =>
    rw [loadFlowConfig]
    congr 1
    funext registries config
    rw [ih, raisedBy_loadWith, nestedError]

def Unharmed (b : Texts) (depth : Nat) (bp : Blueprint) (config : Value) (replace : Bool) : Prop :=
  ∀ d, loadedDefinition b bp.definition config replace = .ok d →
    operatorsError b (nestedError b depth) bp.registries d.operators = none ∨
    d = bp.definition ∧ bp.handlers = noHandlers ∧ bp.chunks = [] ∧
      anyTouches b (nestedError b depth) bp.registries d.operators = false

abbrev Flow := { bp : Blueprint // bp.Made }

theorem not_held_of_made {t : Blueprint} (hs : s.Made) (ht : Filling s.nextObject t)
    (hh : t.handlers = s.handlers) (hc : t.chunks = s.chunks) : ¬ t.Holds := by
  rintro (⟨ty, tg, id, h, hget⟩ | hne)
  · have hold : s.handlerAt ty tg id = some h := by
      rw [← hget, Blueprint.handlerAt, Blueprint.handlerAt, hh]
    have hlt := hs.handlers ty tg id h hold
    have hle := ht.handlers ty tg id h hget
    omega
  · obtain ⟨p, hp⟩ := List.exists_mem_of_ne_nil _ hne
    have hle := ht.chunks p.2 (List.mem_map_of_mem hp)
    rw [hc] at hp
    have hlt := hs.chunks p.2 (List.mem_map_of_mem hp)
    omega

/-- A load that raises leaves the flow as it was exactly when it is harmless. -/
theorem load_atomic_iff (b : Texts) (depth : Nat) (flow : Flow) (config : Value) (replace : Bool) :
    KeepsOnError Blueprint.observed flow.1.observed (loadFlowConfig b depth config replace) flow.1 ↔
      Unharmed b depth flow.1 config replace := by
  obtain ⟨s, hs⟩ := flow
  rw [loadFlowConfig_eq]
  unfold Unharmed
  cases hd : loadedDefinition b s.definition config replace with
  | error e =>
    rw [keeps_error_iff (loadWith_refused b _ hd)]
    exact iff_of_true rfl nofun
  | ok d =>
    obtain ⟨t, hgrown, hrun⟩ := loadWith_fills b (nestedError b depth) hd
    cases herror : operatorsError b (nestedError b depth) s.registries d.operators with
    | none =>
      rw [herror] at hrun
      refine iff_of_true (keeps_of_ok hrun) ?_
      rintro _ ⟨⟩
      exact .inl herror
    | some e =>
      rw [herror] at hrun
      rw [keeps_error_iff hrun]
      constructor
      · intro hobserved
        have hh : t.handlers = s.handlers := congrArg Observed.handlers hobserved
        have hc : t.chunks = s.chunks := congrArg Observed.chunks hobserved
        have hdef : d = s.definition :=
          hgrown.definition.symm.trans (congrArg Observed.definition hobserved)
        have huntouched : anyTouches b (nestedError b depth) s.registries d.operators = false := by
          by_contra htouched
          exact not_held_of_made hs hgrown.filling hh hc
            (hgrown.held (Bool.not_eq_false _ ▸ htouched))
        obtain ⟨hh', hc'⟩ := hgrown.kept huntouched
        rintro _ ⟨⟩
        exact .inr ⟨hdef, hh.symm.trans hh', hc.symm.trans hc', huntouched⟩
      · intro hun
        rcases hun d rfl with hnone | ⟨hdef, hh, hc, huntouched⟩
        · rw [herror] at hnone
          cases hnone
        · obtain ⟨hh', hc'⟩ := hgrown.kept huntouched
          unfold Blueprint.observed
          rw [hh', hc', hgrown.definition, hgrown.registries, ← hdef, hh, hc]
          rfl

def unregisteredConfig : Value := .dict
  [("version", .str flowConfigVersion), ("name", .str "flow"),
    ("operators", .list [.dict [("id", .str "chunk-1"), ("kind", .str "chunk"),
      ("handler_ref", .dict [("kind", .str "registered"), ("name", .str "worker")])]])]

def emptyFlow : Flow := ⟨.fresh ⟨[], []⟩, (filling_cleared (.fresh ⟨[], []⟩)).made⟩

theorem failed_load_replaces_definition :
    ¬ ∀ (b : Texts) (depth : Nat) (flow : Flow) (config : Value) (replace : Bool),
      KeepsOnError Blueprint.observed flow.1.observed (loadFlowConfig b depth config replace)
        flow.1 := by
  intro hall
  have hkeeps := hall ⟨fun _ => "", fun _ => "", ""⟩ 0 emptyFlow unregisteredConfig true _ _ rfl
  have hname := congrArg (fun o => o.definition.name) hkeeps
  revert hname
  decide

end Agently.TriggerFlow.FlowConfig
