import Agently.Storage.Identity.Encoding
import Agently.Utils.DataFormatter

/-! # Terminal repairs that converge

Source: `AgentTask/TerminalConvergence.py`. A record is kept under its issue, whose JSON text is
the key of the source; what a snapshot holds has the types `snapshot` writes. -/

namespace Agently.AgentTask.TerminalConvergence

open Agently.Lib Agently.Utils
open Agently.TaskDAGValidation (isSpace strip strip_strip)

structure TerminalIssue where
  gate_kind : String
  issue_code : String
  contract_subject : String
  named : strip gate_kind ≠ "" ∧ strip issue_code ≠ "" ∧ strip contract_subject ≠ ""
  deriving DecidableEq

structure Record where
  issue : TerminalIssue
  occurrence : Nat
  repair_count : Nat
  last_state_digest : String
  repair_contract : List (String × Value)
  active : Bool
  resolved : Bool
  terminal : Bool
  unrecoverable : Bool
  last_verifier_called : Bool

structure TerminalConvergenceState where
  task_id : String
  normalized : strip task_id = task_id ∧ task_id ≠ ""
  records : Dict TerminalIssue Record := []

inductive Fault where
  | valueError (message : String)
  | runtimeError (message : String)

def init (task_id : String) : Except Fault TerminalConvergenceState :=
  if h : strip task_id ≠ "" then .ok { task_id := strip task_id, normalized := ⟨strip_strip _, h⟩ }
  else .error (.valueError "Terminal convergence state requires a task_id.")

def IsDigest (digest : String) : Prop :=
  digest.toList.length = 64 ∧ ∀ c ∈ digest.toList, c ∈ "0123456789abcdef".toList

instance (digest : String) : Decidable (IsDigest digest) :=
  inferInstanceAs (Decidable (_ ∧ _))

structure Decision where
  occurrence : Nat
  state_changed : Bool
  verifier_called : Bool
  should_repair : Bool
  terminal : Bool
  skip_verifier : Bool
  repair_count : Nat

/-- What a detection does with the record of an earlier one in the same state, if there is one. -/
def decision (unchanged : Option Record) (verifier_called unrecoverable : Bool) : Decision :=
  let occurrence := (unchanged.map Record.occurrence).getD 0 + 1
  let repair_count := (unchanged.map Record.repair_count).getD 0
  let terminal := unrecoverable || decide (3 ≤ occurrence)
  let should_repair := !terminal && decide (repair_count < 2)
  { occurrence := occurrence
    state_changed := unchanged.isNone
    verifier_called := verifier_called
    should_repair := should_repair
    terminal := terminal
    skip_verifier := !verifier_called && unchanged.isSome
    repair_count := if should_repair then repair_count + 1 else repair_count }

def recordOf (issue : TerminalIssue) (digest : String) (repair_contract : List (String × Value))
    (unrecoverable : Bool) (d : Decision) : Record where
  issue := issue
  occurrence := d.occurrence
  repair_count := d.repair_count
  last_state_digest := digest
  repair_contract := Value.sanitizeEntries repair_contract
  active := !d.terminal
  resolved := false
  terminal := d.terminal
  unrecoverable := unrecoverable
  last_verifier_called := d.verifier_called

structure Request where
  issue : TerminalIssue
  state_digest : String
  repair_contract : List (String × Value) := []
  verifier_called : Bool := true
  unrecoverable : Bool := false

def record_detection (s : TerminalConvergenceState) (q : Request) :
    Except Fault (TerminalConvergenceState × Decision) :=
  let digest := strip q.state_digest
  let previous := s.records.get? q.issue
  if ¬ IsDigest digest then
    .error (.valueError "Terminal convergence requires a SHA-256 relevant-state digest.")
  else if previous.any Record.terminal then
    .error (.runtimeError
      "Terminal convergence issue is already terminal; no further repair may be scheduled.")
  else
    let unchanged := previous.filter fun r => r.last_state_digest = digest
    let d := decision unchanged q.verifier_called q.unrecoverable
    let record := recordOf q.issue digest q.repair_contract q.unrecoverable d
    .ok ({ s with records := s.records.set q.issue record }, d)

def Record.resolve (r : Record) : Record := { r with active := false, resolved := true }

/-- Unlike `mark_all_resolved`, it does not look whether the record is terminal. -/
def mark_resolved (s : TerminalConvergenceState) (issue : TerminalIssue) :
    TerminalConvergenceState :=
  match s.records.get? issue with
  | none => s
  | some r => { s with records := s.records.set issue r.resolve }

def mark_all_resolved (s : TerminalConvergenceState) : TerminalConvergenceState :=
  { s with records := s.records.map fun p => (p.1, if p.2.terminal then p.2 else p.2.resolve) }

def active_records (s : TerminalConvergenceState) : List Record :=
  s.records.vals.filter fun r => r.active && !r.terminal

structure Snapshot where
  schema_version : String
  task_id : String
  records : Dict TerminalIssue Record

def schemaVersion : String := "agent_task_terminal_convergence/v1"

def Record.sanitize (r : Record) : Record :=
  { r with repair_contract := Value.sanitizeEntries r.repair_contract }

def snapshot (s : TerminalConvergenceState) : Snapshot where
  schema_version := schemaVersion
  task_id := s.task_id
  records := s.records.map fun p => (p.1, p.2.sanitize)

def Record.Counted (r : Record) : Prop :=
  1 ≤ r.occurrence ∧ r.occurrence ≤ 3 ∧ r.repair_count ≤ 2 ∧ IsDigest r.last_state_digest

instance (r : Record) : Decidable r.Counted := inferInstanceAs (Decidable (_ ∧ _))

def load (records : Dict TerminalIssue Record) :
    Dict TerminalIssue Record → Except Fault (Dict TerminalIssue Record)
  | [] => .ok records
  | (key, raw_record) :: rest =>
    if key ≠ raw_record.issue then
      .error (.valueError "Terminal convergence snapshot issue key is invalid.")
    else if ¬ raw_record.Counted then
      .error (.valueError "Terminal convergence snapshot counters or digest are invalid.")
    else load (records.set key raw_record.sanitize) rest

def from_snapshot (task_id : String) (value : Snapshot) :
    Except Fault TerminalConvergenceState :=
  if value.schema_version ≠ schemaVersion then
    .error (.valueError "Terminal convergence snapshot schema is unsupported.")
  else if value.task_id ≠ task_id then
    .error (.valueError "Terminal convergence snapshot belongs to a different task.")
  else (init task_id).bind fun s =>
    (load [] value.records).map fun records => { s with records := records }

inductive Operation where
  | detect (q : Request)
  | resolve (issue : TerminalIssue)
  | resolveAll
  | restore

/-- A detection that was not refused, with the digest it was made in. -/
structure Detection where
  issue : TerminalIssue
  digest : String
  made : Decision

/-- One operation; `log` has the newest detection first. `restore` goes on with what
`from_snapshot` makes of `snapshot()`. -/
def take (p : TerminalConvergenceState × List Detection) :
    Operation → TerminalConvergenceState × List Detection
  | .detect q =>
    match record_detection p.1 q with
    | .ok (s, d) => (s, ⟨q.issue, strip q.state_digest, d⟩ :: p.2)
    | .error _ => p
  | .resolve issue => (mark_resolved p.1 issue, p.2)
  | .resolveAll => (mark_all_resolved p.1, p.2)
  | .restore =>
    match from_snapshot p.1.task_id (snapshot p.1) with
    | .ok s => (s, p.2)
    | .error _ => p

def play (s : TerminalConvergenceState) (ops : List Operation) :
    TerminalConvergenceState × List Detection :=
  ops.foldl take (s, [])

def detectionsOf (issue : TerminalIssue) (log : List Detection) : List Detection :=
  log.filter fun x => x.issue = issue

def streak (digest : String) (log : List Detection) : Nat :=
  (log.takeWhile fun x => x.digest = digest).length

def Sound : List Detection → Prop
  | [] => True
  | x :: older => Sound older ∧ (∀ y ∈ older, y.made.terminal = false) ∧
      x.made.occurrence = streak x.digest older + 1 ∧
      x.made.should_repair = (!x.made.terminal) ∧ (3 ≤ x.made.occurrence → x.made.terminal = true)

section Histories

variable {log newer older same : List Detection} {x : Detection} {digest : String}

theorem streak_cons (h : x.digest = digest) :
    streak digest (x :: log) = streak digest log + 1 := by
  unfold streak
  rw [List.takeWhile_cons_of_pos (by simpa using h), List.length_cons]

theorem length_le_streak (h : ∀ y ∈ same, y.digest = digest) :
    same.length ≤ streak digest (same ++ older) := by
  induction same with
  | nil => exact Nat.zero_le _
  | cons x same ih =>
    have hrest := ih fun y hy => h y (List.mem_cons_of_mem x hy)
    rw [List.cons_append, streak_cons (h x List.mem_cons_self), List.length_cons]
    omega

theorem Sound.of_append (h : Sound (newer ++ older)) : Sound older := by
  induction newer with
  | nil => exact h
  | cons x newer ih => exact ih h.1

theorem Sound.repairs_le (h : Sound (same ++ older)) (hs : ∀ y ∈ same, y.digest = digest) :
    (same.filter fun y => y.made.should_repair).length ≤ 2 := by
  induction same with
  | nil => exact Nat.zero_le _
  | cons x same ih =>
    have hrest : ∀ y ∈ same, y.digest = digest := fun y hy => hs y (List.mem_cons_of_mem x hy)
    rw [List.cons_append] at h
    obtain ⟨hsound, -, hocc, hrepair, hthird⟩ := h
    have hlen : same.length ≤ streak digest (same ++ older) := length_le_streak hrest
    rw [hs x List.mem_cons_self] at hocc
    by_cases hshort : same.length < 2
    · have hle := List.length_filter_le (fun y => y.made.should_repair) (x :: same)
      rw [List.length_cons] at hle
      omega
    · have hx : ¬ x.made.should_repair = true := by
        rw [hrepair, hthird (by omega)]
        decide
      rw [List.filter_cons_of_neg (p := fun y : Detection => y.made.should_repair) hx]
      exact ih hsound hrest

theorem Sound.third_terminal {a b c : Detection} (h : Sound (c :: b :: a :: older))
    (hcb : c.digest = b.digest) (hba : b.digest = a.digest) : c.made.terminal = true := by
  obtain ⟨-, -, hocc, -, hthird⟩ := h
  rw [streak_cons hcb.symm, streak_cons (hba.symm.trans hcb.symm)] at hocc
  exact hthird (by omega)

theorem Sound.newest_of_terminal (h : Sound (newer ++ x :: older))
    (hx : x.made.terminal = true) : newer = [] := by
  cases newer with
  | nil => rfl
  | cons y newer =>
    have hno := h.2.1 x (List.mem_append_right newer List.mem_cons_self)
    rw [hx] at hno
    cases hno

end Histories

structure Record.Kept (key : TerminalIssue) (r : Record) : Prop where
  issue : r.issue = key
  digest : IsDigest r.last_state_digest
  sanitized : r.sanitize = r
  positive : 1 ≤ r.occurrence
  bounded : r.occurrence ≤ if r.terminal then 3 else 2
  repaired : r.repair_count = if r.terminal then r.occurrence - 1 else r.occurrence
  inactive : r.terminal = true → r.active = false

theorem Record.Kept.counted {key : TerminalIssue} {r : Record} (h : r.Kept key) : r.Counted := by
  have hb := h.bounded
  have hr := h.repaired
  have hp := h.positive
  refine ⟨hp, ?_, ?_, h.digest⟩
  · split at hb <;> omega
  · rw [hr]
    split at hb <;> simp_all

theorem Record.Kept.resolve {key : TerminalIssue} {r : Record} (h : r.Kept key) :
    r.resolve.Kept key :=
  { h with sanitized := by
             have hs := congrArg Record.repair_contract h.sanitized
             simp only [Record.sanitize] at hs
             simp [Record.sanitize, Record.resolve, hs]
           inactive := fun _ => rfl }

def Tells : Option Record → List Detection → Prop
  | none, log => log = []
  | some _, [] => False
  | some r, x :: _ => r.last_state_digest = x.digest ∧ r.occurrence = x.made.occurrence ∧
      r.terminal = x.made.terminal

structure Follows (s : TerminalConvergenceState) (log : List Detection) : Prop where
  kept : ∀ issue r, s.records.get? issue = some r → r.Kept issue
  tells : ∀ issue, Tells (s.records.get? issue) (detectionsOf issue log)
  sound : ∀ issue, Sound (detectionsOf issue log)
  nodup : s.records.keys.Nodup

section Steps

variable {s t : TerminalConvergenceState} {log : List Detection} {q : Request} {d : Decision}

theorem decision_spec {unchanged : Option Record} {verifier unrecoverable : Bool}
    (h : ∀ r, unchanged = some r → r.occurrence ≤ 2 ∧ r.repair_count = r.occurrence)
    (hd : d = decision unchanged verifier unrecoverable) :
    d.should_repair = (!d.terminal) ∧ (3 ≤ d.occurrence → d.terminal = true) ∧
      d.occurrence ≤ (if d.terminal then 3 else 2) ∧
      d.repair_count = if d.terminal then d.occurrence - 1 else d.occurrence := by
  obtain ⟨n, hn, hocc, hrep⟩ : ∃ n, n ≤ 2 ∧ (unchanged.map Record.occurrence).getD 0 = n ∧
      (unchanged.map Record.repair_count).getD 0 = n := by
    cases unchanged with
    | none => exact ⟨0, by omega, rfl, rfl⟩
    | some r => exact ⟨r.occurrence, (h r rfl).1, rfl, (h r rfl).2⟩
  subst hd
  simp only [decision, hocc, hrep]
  cases unrecoverable with
  | true => simp only [Bool.true_or, Bool.not_true, Bool.false_and, if_true]; grind
  | false => grind

theorem record_detection_cases (h : record_detection s q = .ok (t, d)) :
    IsDigest (strip q.state_digest) ∧
      (∀ r, s.records.get? q.issue = some r → r.terminal = false) ∧
      d = decision ((s.records.get? q.issue).filter fun r =>
        r.last_state_digest = strip q.state_digest) q.verifier_called q.unrecoverable ∧
      t = { s with
        records := s.records.set q.issue
          (recordOf q.issue (strip q.state_digest) q.repair_contract q.unrecoverable d) } := by
  unfold record_detection at h
  dsimp only at h
  split_ifs at h with hdigest hterminal
  · have hopen : ∀ r, s.records.get? q.issue = some r → r.terminal = false := by
      intro r hr
      rw [hr] at hterminal
      simpa using hterminal
    cases h
    exact ⟨hdigest, hopen, rfl, rfl⟩

theorem streak_of_tells {r : Option Record} {older : List Detection} (h : Tells r older)
    (hs : Sound older) (digest : String) :
    ((r.filter fun r => r.last_state_digest = digest).map Record.occurrence).getD 0 =
      streak digest older := by
  cases r with
  | none =>
    cases (h : older = [])
    rfl
  | some r =>
    cases older with
    | nil => cases h
    | cons y rest =>
      obtain ⟨hdigest, hocc, -⟩ := h
      by_cases hsame : y.digest = digest
      · rw [Option.filter_some_pos (by simpa [hdigest] using hsame), Option.map_some,
          Option.getD_some, hocc, hs.2.2.1, streak_cons hsame, hsame]
      · rw [Option.filter_some_neg (by simpa [hdigest] using hsame), Option.map_none,
          Option.getD_none, streak, List.takeWhile_cons_of_neg (by simpa using hsame)]
        rfl

theorem open_of_tells {r : Option Record} {older : List Detection} (h : Tells r older)
    (hs : Sound older) (hopen : ∀ x, r = some x → x.terminal = false) :
    ∀ y ∈ older, y.made.terminal = false := by
  cases r with
  | none =>
    cases (h : older = [])
    simp
  | some r =>
    cases older with
    | nil => cases h
    | cons x rest =>
      intro y hy
      rcases List.mem_cons.mp hy with rfl | hy
      · rw [← h.2.2]
        exact hopen r rfl
      · exact hs.2.1 y hy

theorem detectionsOf_cons_self {issue : TerminalIssue} {digest : String} :
    detectionsOf issue (⟨issue, digest, d⟩ :: log) =
      ⟨issue, digest, d⟩ :: detectionsOf issue log :=
  List.filter_cons_of_pos (by simp)

theorem detectionsOf_cons_of_ne {issue j : TerminalIssue} {digest : String} (h : issue ≠ j) :
    detectionsOf j (⟨issue, digest, d⟩ :: log) = detectionsOf j log :=
  List.filter_cons_of_neg (by simpa using h)

theorem follows_detect (h : Follows s log) (hd : record_detection s q = .ok (t, d)) :
    Follows t (⟨q.issue, strip q.state_digest, d⟩ :: log) := by
  obtain ⟨hdigest, hopen, hdec, rfl⟩ := record_detection_cases hd
  have htells := h.tells q.issue
  have hsound := h.sound q.issue
  have hprior : ∀ r, ((s.records.get? q.issue).filter fun r =>
      r.last_state_digest = strip q.state_digest) = some r →
      r.occurrence ≤ 2 ∧ r.repair_count = r.occurrence := by
    intro r hr
    obtain ⟨hr, -⟩ := Option.filter_eq_some_iff.mp hr
    have hb := (h.kept q.issue r hr).bounded
    have hrep := (h.kept q.issue r hr).repaired
    rw [hopen r hr] at hb hrep
    exact ⟨hb, hrep⟩
  obtain ⟨hshould, hthird, hbound, hrepaired⟩ := decision_spec hprior hdec
  have hocc : d.occurrence = streak (strip q.state_digest) (detectionsOf q.issue log) + 1 := by
    rw [← streak_of_tells htells hsound, hdec]
    rfl
  refine ⟨fun issue r hr => ?_, fun issue => ?_, fun issue => ?_,
    Dict.nodup_keys_set h.nodup _ _⟩
  · rw [Dict.get?_set] at hr
    split at hr
    · next he =>
      cases hr
      exact { issue := he, digest := hdigest
              sanitized := by simp [Record.sanitize, recordOf, Value.sanitizeEntries_idem]
              positive := by simp [recordOf, hocc]
              bounded := hbound, repaired := hrepaired
              inactive := fun ht => by simpa [recordOf] using ht }
    · exact h.kept issue r hr
  · by_cases he : q.issue = issue
    · subst he
      rw [Dict.get?_set_self, detectionsOf_cons_self]
      exact ⟨rfl, rfl, rfl⟩
    · rw [Dict.get?_set_of_ne _ _ he, detectionsOf_cons_of_ne he]
      exact h.tells issue
  · by_cases he : q.issue = issue
    · subst he
      rw [detectionsOf_cons_self]
      exact ⟨hsound, open_of_tells htells hsound hopen, hocc, hshould, hthird⟩
    · rw [detectionsOf_cons_of_ne he]
      exact h.sound issue

theorem follows_of_resolved (h : Follows s log) (hn : t.records.keys.Nodup)
    (ht : ∀ issue, t.records.get? issue = s.records.get? issue ∨
      t.records.get? issue = (s.records.get? issue).map Record.resolve) : Follows t log := by
  refine ⟨fun issue r hr => ?_, fun issue => ?_, h.sound, hn⟩
  · rcases ht issue with he | he
    · exact h.kept issue r (he ▸ hr)
    · obtain ⟨u, hu, rfl⟩ := Option.map_eq_some_iff.mp (he ▸ hr)
      exact (h.kept issue u hu).resolve
  · have htells := h.tells issue
    rcases ht issue with he | he
    · rw [he]
      exact htells
    · rw [he]
      cases hr : s.records.get? issue with
      | none =>
        rw [hr] at htells
        exact htells
      | some r =>
        rw [hr] at htells
        cases hlog : detectionsOf issue log with
        | nil =>
          rw [hlog] at htells
          cases htells
        | cons x rest =>
          rw [hlog] at htells
          exact htells

theorem follows_mark_resolved (h : Follows s log) (issue : TerminalIssue) :
    Follows (mark_resolved s issue) log := by
  unfold mark_resolved
  cases hr : s.records.get? issue with
  | none => exact h
  | some r =>
    refine follows_of_resolved h (Dict.nodup_keys_set h.nodup _ _) fun j => ?_
    rw [Dict.get?_set]
    split
    · next he =>
      subst he
      rw [hr]
      exact .inr rfl
    · exact .inl rfl

theorem follows_mark_all_resolved (h : Follows s log) : Follows (mark_all_resolved s) log := by
  refine follows_of_resolved h ?_ fun j => ?_
  · have hkeys : (mark_all_resolved s).records.keys = s.records.keys := by
      simp [mark_all_resolved, Dict.keys]
    rw [hkeys]
    exact h.nodup
  · have hget := Dict.get?_mapVals (fun r => if r.terminal then r else Record.resolve r) s.records j
    rw [mark_all_resolved, hget]
    cases s.records.get? j with
    | none => exact .inl rfl
    | some r =>
      rw [Option.map_some]
      split
      · exact .inl rfl
      · exact .inr rfl

theorem load_snapshot {acc rest : Dict TerminalIssue Record} (hn : (acc ++ rest).keys.Nodup)
    (hk : ∀ p ∈ rest, p.2.Kept p.1) :
    load acc (rest.map fun p => (p.1, p.2.sanitize)) = .ok (acc ++ rest) := by
  induction rest generalizing acc with
  | nil => rw [List.append_nil]; rfl
  | cons p rest ih =>
    obtain ⟨key, r⟩ := p
    have hr : r.Kept key := hk (key, r) List.mem_cons_self
    have hnew : key ∉ acc.keys := by
      intro hmem
      rw [Dict.keys, List.map_append] at hn
      exact List.disjoint_of_nodup_append hn hmem List.mem_cons_self
    have hshift : acc ++ (key, r) :: rest = (acc ++ [(key, r)]) ++ rest := by simp
    rw [List.map_cons, load, hr.sanitized, if_neg (not_not.mpr hr.issue.symm),
      if_neg (not_not.mpr hr.counted), hr.sanitized, Dict.set_of_not_mem hnew, hshift]
    exact ih (hshift ▸ hn) (List.forall_mem_cons.mp hk).2

theorem from_snapshot_snapshot (h : Follows s log) :
    from_snapshot s.task_id (snapshot s) = .ok s := by
  have hinit : init s.task_id = .ok { s with records := [] } := by
    simp [init, s.normalized.1, s.normalized.2]
  have hload : load [] (snapshot s).records = .ok s.records :=
    @load_snapshot [] s.records h.nodup fun p hp =>
      h.kept p.1 p.2 (Dict.get?_of_mem h.nodup hp)
  simp only [from_snapshot, hinit, hload, Except.bind, Except.map]
  exact (if_neg (not_not.mpr rfl)).trans (if_neg (not_not.mpr rfl))

theorem follows_take {p : TerminalConvergenceState × List Detection} (h : Follows p.1 p.2)
    (op : Operation) : Follows (take p op).1 (take p op).2 := by
  cases op with
  | detect q =>
    simp only [take]
    cases hd : record_detection p.1 q with
    | error e => exact h
    | ok done => exact follows_detect h hd
  | resolve issue => exact follows_mark_resolved h issue
  | resolveAll => exact follows_mark_all_resolved h
  | restore =>
    simp only [take, from_snapshot_snapshot h]
    exact h

theorem follows_foldl {p : TerminalConvergenceState × List Detection} (h : Follows p.1 p.2)
    (ops : List Operation) : Follows (ops.foldl take p).1 (ops.foldl take p).2 := by
  induction ops generalizing p with
  | nil => exact h
  | cons op ops ih => exact ih (follows_take h op)

theorem follows_init {task_id : String} (h : init task_id = .ok s) : Follows s [] := by
  unfold init at h
  split at h
  · cases h
    exact ⟨(by simp), fun _ => rfl, fun _ => trivial, List.nodup_nil⟩
  · cases h

end Steps

/-- What the detections of each issue, newest first, and the state after them keep. -/
structure Converges (s : TerminalConvergenceState) (log : List Detection) : Prop where
  bounded : ∀ issue digest newer same older,
    detectionsOf issue log = newer ++ same ++ older → (∀ x ∈ same, x.digest = digest) →
      (same.filter fun x => x.made.should_repair).length ≤ 2
  third : ∀ issue newer c b a older, detectionsOf issue log = newer ++ c :: b :: a :: older →
    c.digest = b.digest → b.digest = a.digest → c.made.terminal = true
  final : ∀ issue newer x older, detectionsOf issue log = newer ++ x :: older →
    x.made.terminal = true → newer = [] ∧ x.made.should_repair = false ∧
      ∀ r, s.records.get? issue = some r → r ∉ active_records s
  restored : from_snapshot s.task_id (snapshot s) = .ok s

theorem repairs_converge (task_id : String) (s : TerminalConvergenceState)
    (h : init task_id = .ok s) (ops : List Operation) :
    Converges (play s ops).1 (play s ops).2 := by
  have hf : Follows (play s ops).1 (play s ops).2 := follows_foldl (follows_init h) ops
  refine ⟨?_, ?_, ?_, from_snapshot_snapshot hf⟩
  · intro issue digest newer same older hlog hsame
    have hsound := hf.sound issue
    rw [hlog, List.append_assoc] at hsound
    exact hsound.of_append.repairs_le hsame
  · intro issue newer c b a older hlog hcb hba
    have hsound := hf.sound issue
    rw [hlog] at hsound
    exact hsound.of_append.third_terminal hcb hba
  · intro issue newer x older hlog hx
    have hsound := hf.sound issue
    have htells := hf.tells issue
    rw [hlog] at hsound htells
    have hnewer := hsound.newest_of_terminal hx
    subst hnewer
    refine ⟨rfl, ?_, ?_⟩
    · rw [hsound.2.2.2.1, hx]
      rfl
    · intro r hr hactive
      rw [hr] at htells
      have hterminal : r.terminal = true := htells.2.2.trans hx
      have hmem := List.mem_filter.mp hactive
      simp [hterminal] at hmem

theorem take_changed {p : TerminalConvergenceState × List Detection} {q : Request}
    (hdigest : IsDigest (strip q.state_digest)) (hu : q.unrecoverable = false)
    (hopen : ∀ r, p.1.records.get? q.issue = some r →
      r.terminal = false ∧ r.last_state_digest ≠ strip q.state_digest) :
    ∃ t, take p (.detect q) =
        (t, ⟨q.issue, strip q.state_digest, decision none q.verifier_called false⟩ :: p.2) ∧
      ∀ r, t.records.get? q.issue = some r →
        r.terminal = false ∧ r.last_state_digest = strip q.state_digest := by
  have hterminal : ¬ (p.1.records.get? q.issue).any Record.terminal = true := by
    cases hr : p.1.records.get? q.issue with
    | none => simp
    | some r =>
      rw [Option.any_some, (hopen r hr).1]
      simp
  have hchanged : ((p.1.records.get? q.issue).filter fun r =>
      r.last_state_digest = strip q.state_digest) = none := by
    rw [Option.filter_eq_none_iff]
    intro r hr
    simpa using (hopen r hr).2
  simp only [take, record_detection, if_neg (not_not.mpr hdigest), if_neg hterminal, hchanged, hu]
  refine ⟨_, rfl, fun r hr => ?_⟩
  rw [Dict.get?_set_self] at hr
  cases hr
  exact ⟨rfl, rfl⟩

def stateText (c : Char) : String := String.ofList (List.replicate 64 c)

theorem stateText_digest {c : Char} (hc : c ∈ "0123456789abcdef".toList) (hs : isSpace c = false) :
    strip (stateText c) = stateText c ∧ IsDigest (stateText c) := by
  have htext : (stateText c).toList = List.replicate 64 c := String.toList_ofList
  refine ⟨Storage.Identity.strip_of_no_space fun x hx => ?_, ?_, fun x hx => ?_⟩
  · rw [List.eq_of_mem_replicate hx]
    exact hs
  · rw [htext, List.length_replicate]
  · rw [htext] at hx
    rw [List.eq_of_mem_replicate hx]
    exact hc

def styleIssue : TerminalIssue :=
  { gate_kind := "g", issue_code := "c", contract_subject := "s", named := by decide +kernel }

def detectIn (c : Char) : Request := { issue := styleIssue, state_digest := stateText c }

def taskState : TerminalConvergenceState :=
  { task_id := "t", normalized := by decide +kernel }

theorem init_taskState : init taskState.task_id = .ok taskState := by
  have hs := taskState.normalized
  simp only [taskState] at hs
  simp [init, hs.1, taskState]

theorem repairs_converge_alternating :
    Converges (play taskState [.detect (detectIn 'a'), .restore, .detect (detectIn 'b')]).1
      (play taskState [.detect (detectIn 'a'), .restore, .detect (detectIn 'b')]).2 :=
  repairs_converge _ taskState init_taskState _

/-- A state that comes back starts a new count, so one state has three repairs. -/
theorem returning_state_repaired_again :
    ¬ ∀ (s : TerminalConvergenceState) (ops : List Operation) (issue : TerminalIssue)
      (digest : String), init s.task_id = .ok s →
        ((detectionsOf issue (play s ops).2).filter fun x =>
          x.digest = digest ∧ x.made.should_repair = true).length ≤ 2 := by
  intro h
  obtain ⟨ha, hda⟩ := stateText_digest (c := 'a') (by decide +kernel) (by decide)
  obtain ⟨hb, hdb⟩ := stateText_digest (c := 'b') (by decide +kernel) (by decide)
  have hne : stateText 'a' ≠ stateText 'b' := by
    intro he
    have htext : List.replicate 64 'a' = List.replicate 64 'b' := by
      have h := congrArg String.toList he
      rwa [stateText, stateText, String.toList_ofList, String.toList_ofList] at h
    exact absurd (List.cons.inj htext).1 (by decide)
  have hsa : strip (detectIn 'a').state_digest = stateText 'a' := ha
  have hsb : strip (detectIn 'b').state_digest = stateText 'b' := hb
  have hia : IsDigest (strip (detectIn 'a').state_digest) := hsa.symm ▸ hda
  have hib : IsDigest (strip (detectIn 'b').state_digest) := hsb.symm ▸ hdb
  have hab : strip (detectIn 'a').state_digest ≠ strip (detectIn 'b').state_digest := by
    rw [hsa, hsb]
    exact hne
  obtain ⟨t₁, h₁, o₁⟩ := take_changed (p := (taskState, [])) hia rfl fun _ hr => nomatch hr
  obtain ⟨t₂, h₂, o₂⟩ := take_changed (p := (t₁, _)) hib rfl
    fun r hr => ⟨(o₁ r hr).1, (o₁ r hr).2.trans_ne hab⟩
  obtain ⟨t₃, h₃, o₃⟩ := take_changed (p := (t₂, _)) hia rfl
    fun r hr => ⟨(o₂ r hr).1, (o₂ r hr).2.trans_ne hab.symm⟩
  obtain ⟨t₄, h₄, o₄⟩ := take_changed (p := (t₃, _)) hib rfl
    fun r hr => ⟨(o₃ r hr).1, (o₃ r hr).2.trans_ne hab⟩
  obtain ⟨t₅, h₅, -⟩ := take_changed (p := (t₄, _)) hia rfl
    fun r hr => ⟨(o₄ r hr).1, (o₄ r hr).2.trans_ne hab.symm⟩
  have hle := h taskState [.detect (detectIn 'a'), .detect (detectIn 'b'), .detect (detectIn 'a'),
    .detect (detectIn 'b'), .detect (detectIn 'a')] styleIssue (stateText 'a') init_taskState
  rw [play, List.foldl_cons, h₁, List.foldl_cons, h₂, List.foldl_cons, h₃, List.foldl_cons, h₄,
    List.foldl_cons, h₅, List.foldl_nil, hsa, hsb] at hle
  simp [detectionsOf, decision, detectIn, hne.symm] at hle

end Agently.AgentTask.TerminalConvergence
