import IronDefer.Infrastructure.Update
import IronDefer.RowStore.Database
import IronDefer.RowStore.UniqueIndex
import Mathlib.Data.List.Forall2

/-!
# The statements and what the database does with them

The statements the adapter sends, executed on the rows a transaction sees. A new row version is
checked against the claim-fields check and the idempotency index, a new row against the primary
key as well, an audit row against its foreign key. An insert waits while another transaction has
an uncommitted row of the same index value, or is changing the row it would conflict with.

## Main definitions

* `AuditRow`: a row of the audit log
* `Stmt`: the statements, and `Stmt.Res` their results
* `idempotencyIndex`: the value of a row in the idempotency index
* `postgres`: the meaning of the statements
* `Caused`, `Refused`: the row changes a statement can make, and what it can be refused for

## Main results

* `refused_of_exec`: what a statement is refused for
* `caused_of_exec`, `written_of_exec`: every change a statement makes is caused by it
* `fits_of_exec`: every statement writes versions that fit the idempotency index
-/

namespace IronDefer

open RowStore

/-- A row of the audit log, its id aside. -/
structure AuditRow where
  taskId : TaskId
  fromStatus : Option String
  toStatus : String
  timestamp : Timestamp
  workerId : Option WorkerId
  traceId : Option String
  metadata : Option Json
  region : Option String
  deriving DecidableEq

/-- The statements of the adapter. -/
inductive Stmt where
  | insertTask (task : TaskRecord) (lastError : Option String) (onConflictDoNothing : Bool)
  | update (u : Update)
  | selectById (id : TaskId)
  | selectActive (queue : String) (idempotencyKey : Option String)
  | insertAudit (taskId : TaskId) (fromStatus : Option String) (toStatus : String)
      (workerId : Option WorkerId) (traceId : Option String) (metadata : Option Json)
      (region : Option String)

/-- The rows a statement returns. -/
abbrev Stmt.Res : Stmt → Type
  | .insertTask .. => Option TaskRow
  | .update _ => List TaskRow
  | .selectById _ => Option TaskRow
  | .selectActive .. => Option TaskRow
  | .insertAudit .. => PUnit

/-- The value of a row in the idempotency index: none when it has no key or is terminal. -/
def idempotencyIndex (r : TaskRow) : Option (String × String) :=
  if r.status.isTerminal then none else r.idempotencyKey.map fun k => (r.queue, k)

/-- Two rows share a value of the idempotency index. -/
def clashes (r w : TaskRow) : Bool :=
  idempotencyIndex r = idempotencyIndex w && (idempotencyIndex r).isSome

theorem clashes_iff {r w : TaskRow} : clashes r w = true ↔ Clash idempotencyIndex r w := by
  simp [clashes, Clash, Option.isSome_iff_ne_none]

/-! ## Inserting and updating -/

/-- The row an insert writes; `created_at` and `updated_at` take their default `now()`. -/
def insertedRow (b : Began) (task : TaskRecord) (lastError : Option String) : TaskRow where
  id := task.id
  queue := task.queue.asStr
  kind := task.kind.asStr
  payload := task.payload
  status := task.status
  priority := task.priority.get
  attempts := task.attempts.get
  maxAttempts := task.maxAttempts.get
  lastError
  scheduledAt := DateTime.toTimestamp task.scheduledAt
  claimedBy := task.claimedBy
  claimedUntil := task.claimedUntil.map DateTime.toTimestamp
  createdAt := b.now
  updatedAt := b.now
  idempotencyKey := task.idempotencyKey
  idempotencyExpiresAt := task.idempotencyExpiresAt.map DateTime.toTimestamp
  traceId := task.traceId
  checkpoint := task.checkpoint
  suspendedAt := task.suspendedAt.map DateTime.toTimestamp
  signalPayload := task.signalPayload
  region := task.region

/-- The parameters of an insert the database accepts. -/
def checkInsert (r : TaskRow) : Except SqlError Unit := do
  require (storableText r.kind)
  require ([r.lastError, r.idempotencyKey, r.traceId, r.region].all fun s => s.all storableText)
  require (storableJson r.payload && [r.checkpoint, r.signalPayload].all fun j => j.all storableJson)
  let _ ← timestamp r.scheduledAt
  [r.claimedUntil, r.idempotencyExpiresAt, r.suspendedAt].forM fun t =>
    t.forM fun t => do let _ ← timestamp t

/-- `tasks_claim_fields_check`. -/
def checkClaimFields (r : TaskRow) : Except SqlError Unit :=
  if r.claimedBy.isSome = r.claimedUntil.isSome then .ok () else .error .claimFieldsCheck

/-- `idx_tasks_idempotency`. -/
def checkIndex (rows : List TaskRow) (r : TaskRow) : Except SqlError Unit :=
  if rows.any fun w => decide (w.id ≠ r.id) && clashes r w then .error .idempotencyIndex else .ok ()

/-- `INSERT INTO tasks`, with or without `ON CONFLICT .. DO NOTHING` on the idempotency index. -/
def execInsert (b : Began) (task : TaskRecord) (lastError : Option String)
    (onConflictDoNothing : Bool) (rows : List TaskRow) : Except SqlError (Option TaskRow) := do
  let r := insertedRow b task lastError
  checkInsert r
  checkClaimFields r
  if onConflictDoNothing && rows.any (clashes r) then
    return none
  else if rows.any fun w => decide (w.id = r.id) then
    throw .primaryKey
  else
    checkIndex rows r
    return some r

/-- `ORDER BY priority DESC, scheduled_at ASC`: `r` comes before `w`. -/
def precedes (r w : TaskRow) : Bool :=
  decide (w.priority < r.priority) ||
    (decide (r.priority = w.priority) && decide (r.scheduledAt < w.scheduledAt))

/-- The first row in the order of the claim. -/
def pickNext : List TaskRow → Option TaskRow
  | [] => none
  | r :: rs =>
    match pickNext rs with
    | none => some r
    | some w => if precedes w r then some w else some r

/-- The rows an update is executed on. A statement that scans finds only rows of its snapshot; the
claim skips the rows others hold and takes the first of the rest. -/
def targets (b : Began) (e : Env) (rows : List TaskRow) (free : TaskId → Bool) (u : Update) :
    List TaskRow :=
  match u with
  | .claimNext .. =>
    (pickNext (rows.filter fun r => u.selects b r && e.seen r.id && free r.id)).toList
  | _ => rows.filter fun r => u.selects b r && (!u.scans || e.seen r.id)

/-- The version an update writes for one row, checked against the constraints. -/
def rewrite (b : Began) (e : Env) (rows : List TaskRow) (u : Update) (r : TaskRow) :
    Except SqlError TaskRow := do
  let r' ← u.set b e r
  checkClaimFields r'
  checkIndex rows r'
  return r'

/-- `UPDATE tasks .. RETURNING *`. -/
def execUpdate (b : Began) (e : Env) (rows : List TaskRow) (free : TaskId → Bool) (u : Update) :
    Except SqlError (List TaskRow) := do
  u.checkParams b
  (targets b e rows free u).mapM (rewrite b e rows u)

/-! ## The semantics -/

/-- Execute one statement on the rows a transaction sees. -/
def execStmt (b : Began) (e : Env) (rows : List TaskRow) (free : TaskId → Bool) :
    (q : Stmt) → Except SqlError (Effect TaskRow AuditRow q.Res)
  | .insertTask task lastError onConflictDoNothing => do
    let r ← execInsert b task lastError onConflictDoNothing rows
    return ⟨r.toList, [], r⟩
  | .update u => do
    let rs ← execUpdate b e rows free u
    return ⟨rs, [], rs⟩
  | .selectById id => return ⟨[], [], rows.find? fun r => decide (r.id = id)⟩
  | .selectActive queue idempotencyKey =>
    return ⟨[], [], rows.find? fun r =>
      decide (r.queue = queue) && decide (r.idempotencyKey = idempotencyKey) &&
        idempotencyKey.isSome && !r.status.isTerminal⟩
  | .insertAudit taskId fromStatus toStatus workerId traceId metadata region =>
    if rows.any fun r => decide (r.id = taskId) then
      .ok ⟨[], [⟨taskId, fromStatus, toStatus, b.now, workerId, traceId, metadata, region⟩], ⟨⟩⟩
    else .error .foreignKey

/-- The statements that wait for another transaction to end: an insert whose index value another
transaction holds uncommitted, or whose conflicting row another transaction is changing, and an
update whose new version would share an index value with an uncommitted one. -/
def waitsStmt (b : Began) (e : Env) (rows : List TaskRow) (free : TaskId → Bool)
    (held : List TaskRow) : Stmt → Bool
  | .insertTask task lastError _ =>
    let r := insertedRow b task lastError
    held.any (clashes r) || rows.any fun w => clashes r w && !free w.id
  | .update u =>
    match execUpdate b e rows free u with
    | .ok rs => rs.any fun r => held.any (clashes r)
    | .error _ => false
  | _ => false

/-- **The database**: tasks keyed by their id, an append-only audit log, and the statements of the
adapter. -/
def postgres : Semantics TaskRow.id AuditRow Stmt Stmt.Res Began Env SqlError where
  exec q b e rows free := execStmt b e rows free q
  waits q b e rows free held := waitsStmt b e rows free held q

/-! ## What a statement does -/

/-- The row changes a statement can make: a new row, or a row it selects rewritten. -/
inductive Caused (b : Began) : Stmt → Change TaskRow → Prop
  | insert {task lastError onConflictDoNothing} :
      Caused b (.insertTask task lastError onConflictDoNothing) ⟨none, insertedRow b task lastError⟩
  | update {u r r'} : Update.Rewrites b u r r' → Caused b (.update u) ⟨some r, r'⟩

theorem mem_of_pickNext {rs : List TaskRow} {r : TaskRow} (h : pickNext rs = some r) : r ∈ rs := by
  induction rs generalizing r with
  | nil => cases h
  | cons w rs ih =>
    simp only [pickNext] at h
    split at h
    · cases h; exact List.mem_cons_self
    next v hv =>
      split at h
      · cases h; exact List.mem_cons_of_mem _ (ih hv)
      · cases h; exact List.mem_cons_self

theorem precedes_iff {r w : TaskRow} : precedes r w = true ↔
    w.priority < r.priority ∨ r.priority = w.priority ∧ r.scheduledAt < w.scheduledAt := by
  simp [precedes]

/-- The claim takes a row no candidate precedes, where there is a candidate. -/
theorem pickNext_of_mem {rs : List TaskRow} {r : TaskRow} (h : r ∈ rs) :
    ∃ w, pickNext rs = some w ∧ precedes r w = false := by
  -- the pick of the rest is compared with the head, and the order is transitive
  induction rs generalizing r with
  | nil => cases h
  | cons v rs ih =>
    have hself : precedes v v = false := Bool.eq_false_iff.mpr fun hp => by
      have hbefore := precedes_iff.mp hp
      grind
    cases hrs : pickNext rs with
    | none =>
      rcases List.mem_cons.mp h with rfl | h
      · exact ⟨r, by simp [pickNext, hrs], hself⟩
      · obtain ⟨w, hw, -⟩ := ih h
        simp [hrs] at hw
    | some w =>
      simp only [pickNext, hrs]
      split
      next hp =>
        refine ⟨w, rfl, ?_⟩
        rcases List.mem_cons.mp h with rfl | h
        · apply Bool.eq_false_iff.mpr
          intro hq
          have hp := precedes_iff.mp hp
          have hq := precedes_iff.mp hq
          grind
        · obtain ⟨w', hw', hle⟩ := ih h
          cases hrs.symm.trans hw'
          exact hle
      next hp =>
        refine ⟨v, rfl, ?_⟩
        rcases List.mem_cons.mp h with rfl | h
        · exact hself
        · obtain ⟨w', hw', hle⟩ := ih h
          cases hrs.symm.trans hw'
          apply Bool.eq_false_iff.mpr
          intro hq
          have hp := mt precedes_iff.mpr hp
          have hle := mt precedes_iff.mpr (Bool.eq_false_iff.mp hle)
          have hq := precedes_iff.mp hq
          grind

theorem targets_sublist (b : Began) (e : Env) (rows : List TaskRow) (free : TaskId → Bool)
    (u : Update) : (targets b e rows free u).Sublist rows := by
  unfold targets
  split
  · cases h : pickNext _ with
    | none => exact List.nil_sublist _
    | some r => exact List.singleton_sublist.mpr (List.mem_of_mem_filter (mem_of_pickNext h))
  · exact List.filter_sublist

theorem selects_of_mem_targets {b : Began} {e : Env} {rows : List TaskRow} {free : TaskId → Bool}
    {u : Update} {r : TaskRow} (h : r ∈ targets b e rows free u) : u.selects b r = true := by
  unfold targets at h
  split at h
  · have hcand := (List.mem_filter.mp (mem_of_pickNext (Option.mem_toList.mp h))).2
    simp only [Bool.and_eq_true] at hcand
    exact hcand.1.1
  · have hcand := (List.mem_filter.mp h).2
    simp only [Bool.and_eq_true] at hcand
    exact hcand.1

theorem failsOnValues_checkInsert (r : TaskRow) : FailsOnValues (checkInsert r) := by
  have htime : ∀ t : Timestamp, FailsOnValues (do let _ ← timestamp t : Except SqlError PUnit) :=
    fun t => (failsOnValues_timestamp t).bind fun _ => failsOnValues_ok _
  have hopt : ∀ t : Option Timestamp,
      FailsOnValues (t.forM fun t => (do let _ ← timestamp t : Except SqlError PUnit)) := by
    intro t
    cases t with
    | none => exact failsOnValues_ok _
    | some t => exact htime t
  refine (failsOnValues_require _).bind fun _ => (failsOnValues_require _).bind fun _ =>
    (failsOnValues_require _).bind fun _ => (failsOnValues_timestamp _).bind fun _ => ?_
  exact (hopt _).bind fun _ => (hopt _).bind fun _ => (hopt _).bind fun _ => failsOnValues_ok _

theorem exists_of_mapM_eq_error {α β ε : Type} {f : α → Except ε β} {as : List α} {err : ε}
    (h : as.mapM f = .error err) : ∃ a ∈ as, f a = .error err := by
  induction as with
  | nil => cases h
  | cons a as ih =>
    rw [List.mapM_cons] at h
    cases ha : f a with
    | error e =>
      rw [ha] at h
      cases h
      exact ⟨a, List.mem_cons_self, ha⟩
    | ok b =>
      rw [ha] at h
      cases has : as.mapM f with
      | error e =>
        have he : e = err := by simpa [has, bind, Except.bind] using h
        obtain ⟨a', ha', hf⟩ := ih (he ▸ has)
        exact ⟨a', List.mem_cons_of_mem _ ha', hf⟩
      | ok bs => simp [has, bind, Except.bind, pure, Except.pure] at h

/-- What the database refuses a statement for: its values, or a constraint a new version
violates. -/
inductive Refused (b : Began) (rows : List TaskRow) : Stmt → SqlError → Prop
  | value {q err} : err.ofValue = true → Refused b rows q err
  | primaryKey {task lastError d} : Refused b rows (.insertTask task lastError d) .primaryKey
  | foreignKey {id fs ts w tr m r} : Refused b rows (.insertAudit id fs ts w tr m r) .foreignKey
  | insertClaim {task lastError d} :
      (insertedRow b task lastError).claimedBy.isSome ≠
        (insertedRow b task lastError).claimedUntil.isSome →
      Refused b rows (.insertTask task lastError d) .claimFieldsCheck
  | insertIndex {task lastError w} : w ∈ rows →
      Clash idempotencyIndex (insertedRow b task lastError) w →
      Refused b rows (.insertTask task lastError false) .idempotencyIndex
  | updateClaim {u r r'} : r ∈ rows → Update.Rewrites b u r r' →
      r'.claimedBy.isSome ≠ r'.claimedUntil.isSome → Refused b rows (.update u) .claimFieldsCheck
  | updateIndex {u r r' w} : r ∈ rows → Update.Rewrites b u r r' → w ∈ rows → w.id ≠ r'.id →
      Clash idempotencyIndex r' w → Refused b rows (.update u) .idempotencyIndex

theorem checkClaimFields_eq_error {r : TaskRow} {err : SqlError}
    (h : checkClaimFields r = .error err) :
    err = .claimFieldsCheck ∧ r.claimedBy.isSome ≠ r.claimedUntil.isSome := by
  unfold checkClaimFields at h
  split at h
  · cases h
  next hne => cases h; exact ⟨rfl, hne⟩

theorem checkIndex_eq_error {rows : List TaskRow} {r : TaskRow} {err : SqlError}
    (h : checkIndex rows r = .error err) :
    err = .idempotencyIndex ∧ ∃ w ∈ rows, w.id ≠ r.id ∧ Clash idempotencyIndex r w := by
  unfold checkIndex at h
  split at h
  next hany =>
    cases h
    obtain ⟨w, hw, hc⟩ := List.any_eq_true.mp hany
    simp only [Bool.and_eq_true, decide_eq_true_eq] at hc
    exact ⟨rfl, w, hw, hc.1, clashes_iff.mp hc.2⟩
  · cases h

theorem refused_of_execInsert {b : Began} {task : TaskRecord} {lastError : Option String} {d : Bool}
    {rows : List TaskRow} {err : SqlError} (h : execInsert b task lastError d rows = .error err) :
    Refused b rows (.insertTask task lastError d) err := by
  simp only [execInsert] at h
  cases hp : checkInsert (insertedRow b task lastError) with
  | error e' =>
    rw [hp] at h
    cases h
    exact .value (failsOnValues_checkInsert _ _ hp)
  | ok _ =>
    rw [hp] at h
    cases hf : checkClaimFields (insertedRow b task lastError) with
    | error e' =>
      rw [hf] at h
      cases h
      obtain ⟨rfl, hne⟩ := checkClaimFields_eq_error hf
      exact .insertClaim hne
    | ok _ =>
      rw [hf] at h
      simp only [bind, Except.bind] at h
      split at h
      · cases h
      next hconflict =>
        split at h
        · cases h
          exact .primaryKey
        · cases hi : checkIndex rows (insertedRow b task lastError) with
          | error e' =>
            rw [hi] at h
            cases h
            obtain ⟨rfl, w, hw, -, hc⟩ := checkIndex_eq_error hi
            cases d with
            | false => exact .insertIndex hw hc
            | true =>
              -- the conflict would have been found before
              have hany := List.any_eq_true.mpr ⟨w, hw, clashes_iff.mpr hc⟩
              exact absurd (by simp [hany]) hconflict
          | ok _ => rw [hi] at h; cases h

theorem refused_of_execUpdate {b : Began} {e : Env} {rows : List TaskRow} {free : TaskId → Bool}
    {u : Update} {err : SqlError} (h : execUpdate b e rows free u = .error err) :
    Refused b rows (.update u) err := by
  -- an update fails on its parameters, on the arithmetic of a row, or on one of the checks
  unfold execUpdate at h
  cases hp : u.checkParams b with
  | error e' =>
    rw [hp] at h
    cases h
    exact .value (Update.failsOnValues_checkParams b u _ hp)
  | ok _ =>
    rw [hp] at h
    obtain ⟨r, hr, h⟩ := exists_of_mapM_eq_error h
    have hmem := (targets_sublist b e rows free u).subset hr
    unfold rewrite at h
    cases hset : u.set b e r with
    | error e' =>
      rw [hset] at h
      cases h
      exact .value (Update.failsOnValues_set b e r u _ hset)
    | ok r' =>
      rw [hset] at h
      have hrw := Update.rewrites_of_set (selects_of_mem_targets hr) hset
      cases hf : checkClaimFields r' with
      | error e' =>
        obtain rfl : e' = err := by simpa [hf, bind, Except.bind] using h
        obtain ⟨rfl, hne⟩ := checkClaimFields_eq_error hf
        exact .updateClaim hmem hrw hne
      | ok _ =>
        cases hi : checkIndex rows r' with
        | error e' =>
          obtain rfl : e' = err := by simpa [hf, hi, bind, Except.bind] using h
          obtain ⟨rfl, w, hw, hne, hc⟩ := checkIndex_eq_error hi
          exact .updateIndex hmem hrw hw hne hc
        | ok _ => simp [hf, hi, bind, Except.bind, pure, Except.pure] at h

/-- **What a statement is refused for.** -/
theorem refused_of_exec {q : Stmt} {b : Began} {e : Env} {rows : List TaskRow}
    {free : TaskId → Bool} {err : SqlError} (h : postgres.exec q b e rows free = .error err) :
    Refused b rows q err := by
  cases q with
  | insertTask task lastError d =>
    refine refused_of_execInsert (?_ : execInsert b task lastError d rows = .error err)
    cases hr : execInsert b task lastError d rows with
    | error e' => simpa [postgres, execStmt, hr, bind, Except.bind] using h
    | ok r => simp [postgres, execStmt, hr, bind, Except.bind, pure, Except.pure] at h
  | update u =>
    refine refused_of_execUpdate (?_ : execUpdate b e rows free u = .error err)
    cases hr : execUpdate b e rows free u with
    | error e' => simpa [postgres, execStmt, hr, bind, Except.bind] using h
    | ok r => simp [postgres, execStmt, hr, bind, Except.bind, pure, Except.pure] at h
  | selectById => cases h
  | selectActive => cases h
  | insertAudit id =>
    simp only [postgres, execStmt] at h
    split at h
    · cases h
    · cases h
      exact .foreignKey

theorem forall₂_of_mapM {α β ε : Type} {f : α → Except ε β} {as : List α} {bs : List β}
    (h : as.mapM f = .ok bs) : List.Forall₂ (fun a b => f a = .ok b) as bs := by
  induction as generalizing bs with
  | nil => cases h; exact .nil
  | cons a as ih =>
    rw [List.mapM_cons] at h
    obtain ⟨b, hb, h⟩ := exists_of_bind_ok h
    obtain ⟨cs, hcs, h⟩ := exists_of_bind_ok h
    cases h
    exact .cons hb (ih hcs)

theorem mapM_of_forall₂ {α β ε : Type} {f : α → Except ε β} {as : List α} {bs : List β}
    (h : List.Forall₂ (fun a b => f a = .ok b) as bs) : as.mapM f = .ok bs := by
  induction h with
  | nil => rfl
  | cons hab _ ih =>
    rw [List.mapM_cons, hab, ih]
    rfl

theorem forall₂_zipWith {α β γ : Type} {R : α → β → Prop} {P : α → γ → Prop} {f : α → β → γ}
    {as : List α} {bs : List β} (h : List.Forall₂ R as bs) (hP : ∀ a b, R a b → P a (f a b)) :
    List.Forall₂ P as (List.zipWith f as bs) := by
  induction h with
  | nil => exact .nil
  | cons hab _ ih => exact .cons (hP _ _ hab) ih

theorem exists_of_mem_zipWith {α β γ : Type} {R : α → β → Prop} {f : α → β → γ} {as : List α}
    {bs : List β} (h : List.Forall₂ R as bs) {c : γ} (hc : c ∈ List.zipWith f as bs) :
    ∃ a b, R a b ∧ f a b = c := by
  induction h with
  | nil => cases hc
  | cons hab _ ih =>
    rcases List.mem_cons.mp hc with rfl | hc
    · exact ⟨_, _, hab, rfl⟩
    · exact ih hc

theorem exists_of_mem_right {α β : Type} {R : α → β → Prop} {as : List α} {bs : List β}
    (h : List.Forall₂ R as bs) {b : β} (hb : b ∈ bs) : ∃ a ∈ as, R a b := by
  induction h with
  | nil => cases hb
  | cons hab _ ih =>
    rcases List.mem_cons.mp hb with rfl | hb
    · exact ⟨_, List.mem_cons_self, hab⟩
    · obtain ⟨a, ha, hr⟩ := ih hb
      exact ⟨a, List.mem_cons_of_mem _ ha, hr⟩

/-- A list is mapped where each of its elements is. -/
theorem exists_mapM_ok_iff {α β ε : Type} {f : α → Except ε β} {as : List α} :
    (∃ bs, as.mapM f = .ok bs) ↔ ∀ a ∈ as, ∃ b, f a = .ok b := by
  constructor
  · rintro ⟨bs, h⟩ a ha
    obtain ⟨b, -, hb⟩ := exists_of_mem_right (forall₂_of_mapM h).flip ha
    exact ⟨b, hb⟩
  · intro hall
    cases h : as.mapM f with
    | ok bs => exact ⟨bs, rfl⟩
    | error err =>
      obtain ⟨a, ha, herr⟩ := exists_of_mapM_eq_error h
      obtain ⟨b, hb⟩ := hall a ha
      rw [hb] at herr
      cases herr

/-- An update rewrites its targets, one version each. -/
theorem rewrites_of_execUpdate {b : Began} {e : Env} {rows rs : List TaskRow}
    {free : TaskId → Bool} {u : Update} (h : execUpdate b e rows free u = .ok rs) :
    List.Forall₂ (fun r r' => Update.Rewrites b u r r' ∧ checkIndex rows r' = .ok ())
      (targets b e rows free u) rs := by
  obtain ⟨-, -, h⟩ := exists_of_bind_ok h
  have hall := forall₂_of_mapM h
  have hsel : ∀ r ∈ targets b e rows free u, u.selects b r = true :=
    fun r hr => selects_of_mem_targets hr
  apply ((List.forall₂_and_left _ _).mpr ⟨hsel, hall⟩).imp
  rintro r r' ⟨hs, hr⟩
  obtain ⟨r'', hset, hr⟩ := exists_of_bind_ok hr
  obtain ⟨-, -, hr⟩ := exists_of_bind_ok hr
  obtain ⟨⟨⟩, hidx, hr⟩ := exists_of_bind_ok hr
  cases hr
  exact ⟨Update.rewrites_of_set hs hset, hidx⟩

/-- An insert that writes a row writes it where there was none. -/
theorem execInsert_eq_some {b : Began} {task : TaskRecord} {lastError : Option String} {d : Bool}
    {rows : List TaskRow} {r : TaskRow} (h : execInsert b task lastError d rows = .ok (some r)) :
    r = insertedRow b task lastError ∧ (∀ w ∈ rows, w.id ≠ r.id) ∧ checkIndex rows r = .ok () := by
  obtain ⟨-, -, h⟩ := exists_of_bind_ok h
  obtain ⟨-, -, h⟩ := exists_of_bind_ok h
  split at h
  · cases h
  · split at h
    · cases h
    next hid =>
      obtain ⟨⟨⟩, hidx, h⟩ := exists_of_bind_ok h
      cases h
      exact ⟨rfl, by simpa using hid, hidx⟩

/-- An inserted row has passed the claim-fields check. -/
theorem claim_of_execInsert {b : Began} {task : TaskRecord} {lastError : Option String} {d : Bool}
    {rows : List TaskRow} {r : TaskRow} (h : execInsert b task lastError d rows = .ok (some r)) :
    r.claimedBy.isSome = r.claimedUntil.isSome := by
  obtain ⟨rfl, -, -⟩ := execInsert_eq_some h
  obtain ⟨-, -, h⟩ := exists_of_bind_ok h
  obtain ⟨⟨⟩, hclaim, -⟩ := exists_of_bind_ok h
  unfold checkClaimFields at hclaim
  split at hclaim
  next heq => exact heq
  · cases hclaim

/-- The version a statement writes is an insert's row, or rewrites a row it sees. -/
theorem written_of_exec {q : Stmt} {b : Began} {e : Env} {rows : List TaskRow}
    {free : TaskId → Bool} {eff : Effect TaskRow AuditRow q.Res}
    (h : postgres.exec q b e rows free = .ok eff) :
    ∀ v ∈ eff.news, ∃ o, Caused b q ⟨o, v⟩ ∧ ∀ r, o = some r → r ∈ rows := by
  intro v hv
  cases q with
  | insertTask task lastError d =>
    obtain ⟨r, hr, h⟩ := exists_of_bind_ok h
    cases h
    cases r with
    | none => cases hv
    | some r =>
      obtain ⟨rfl, -, -⟩ := execInsert_eq_some hr
      obtain rfl := List.mem_singleton.mp hv
      exact ⟨none, .insert, by simp⟩
  | update u =>
    obtain ⟨rs, hrs, h⟩ := exists_of_bind_ok h
    cases h
    obtain ⟨r, hr, hr', -⟩ := exists_of_mem_right (rewrites_of_execUpdate hrs) hv
    refine ⟨some r, .update hr', ?_⟩
    rintro _ ⟨⟩
    exact (targets_sublist b e rows free u).subset hr
  | selectById id => cases h; cases hv
  | selectActive queue key => cases h; cases hv
  | insertAudit taskId =>
    simp only [postgres, execStmt] at h
    split at h
    · cases h; cases hv
    · cases h

/-- **Every change a statement makes is caused by it.** -/
theorem caused_of_exec {q : Stmt} {b : Began} {e : Env} {t : Table TaskRow.id}
    {free : TaskId → Bool} {eff : Effect TaskRow AuditRow q.Res}
    (h : postgres.exec q b e t.rows free = .ok eff) : ∀ c ∈ t.record eff.news, Caused b q c := by
  intro c hc
  -- an insert replaces nothing, and an update writes each of its targets once
  cases q with
  | insertTask task lastError d =>
    obtain ⟨r, hr, h⟩ := exists_of_bind_ok h
    cases h
    cases r with
    | none => cases hc
    | some r =>
      obtain ⟨rfl, hid, -⟩ := execInsert_eq_some hr
      obtain rfl : c = ⟨t.get (insertedRow b task lastError).id, insertedRow b task lastError⟩ := by
        simpa using hc
      rw [Table.get_eq_none_iff.mpr hid]
      exact .insert
  | update u =>
    obtain ⟨rs, hrs, h⟩ := exists_of_bind_ok h
    cases h
    have hall := rewrites_of_execUpdate hrs
    rw [t.record_of_sublist (targets_sublist b e t.rows free u)
      (hall.imp fun r r' hr => hr.1.sameTask.id)] at hc
    obtain ⟨r, r', hr, rfl⟩ := exists_of_mem_zipWith hall hc
    exact .update hr.1
  | selectById id => cases h; cases hc
  | selectActive queue key => cases h; cases hc
  | insertAudit taskId =>
    simp only [postgres, execStmt] at h
    split at h
    · cases h; cases hc
    · cases h

/-- A rewritten row keeps its value in the idempotency index, or gives it up: a row that leaves
the non-terminal statuses never comes back. -/
theorem Update.Rewrites.index {b : Began} {u : Update} {r r' : TaskRow} (h : Rewrites b u r r') :
    idempotencyIndex r' = none ∨ idempotencyIndex r' = idempotencyIndex r := by
  cases h with
  | complete | exhaust | recoverExhausted | cancel | expireSuspendedTasks => exact .inl rfl
  | cleanupExpiredIdempotencyKeys => exact .inl (by simp [idempotencyIndex])
  | claimNext hs | retry hs | recoverRetryable hs | releaseLeasesForWorker hs
  | releaseLeaseForTask hs | suspend hs | signal hs | writeCheckpoint hs =>
    exact .inr (by simp [idempotencyIndex, hs, TaskStatus.isTerminal])

theorem not_clash_of_checkIndex {rows : List TaskRow} {r : TaskRow}
    (h : checkIndex rows r = .ok ()) :
    ∀ w ∈ rows, Clash idempotencyIndex r w → r.id = w.id := by
  intro w hw hc
  by_contra hne
  unfold checkIndex at h
  rw [if_pos] at h
  · cases h
  · exact List.any_eq_true.mpr ⟨w, hw, by simp [clashes_iff.mpr hc, Ne.symm hne]⟩

/-- **Every statement writes versions that fit the idempotency index.** -/
theorem fits_of_exec {q : Stmt} {b : Began} {e : Env} {rows : List TaskRow} {free : TaskId → Bool}
    {held : List TaskRow} {eff : Effect TaskRow AuditRow q.Res}
    (hw : postgres.waits q b e rows free held = false)
    (h : postgres.exec q b e rows free = .ok eff) :
    Fits TaskRow.id idempotencyIndex rows held eff.news := by
  -- an insert has waited for the uncommitted rows, and an update keeps the index value or drops it
  cases q with
  | insertTask task lastError d =>
    obtain ⟨r, hr, h⟩ := exists_of_bind_ok h
    cases h
    cases r with
    | none => exact .replace fun v hv => by cases hv
    | some r =>
      obtain ⟨rfl, -, hidx⟩ := execInsert_eq_some hr
      refine .insert rfl (not_clash_of_checkIndex hidx) fun w hmem hc => ?_
      have hnone := List.any_eq_false.mp (Bool.or_eq_false_iff.mp hw).1 w hmem
      exact hnone (clashes_iff.mpr hc)
  | update u =>
    obtain ⟨rs, hrs, h⟩ := exists_of_bind_ok h
    cases h
    have hall := rewrites_of_execUpdate hrs
    refine .replace fun v hv => ?_
    obtain ⟨r, hr, hr', -⟩ := exists_of_mem_right hall hv
    refine hr'.index.imp_right fun hi => ⟨r, ?_, hr'.sameTask.id.symm, hi.symm⟩
    exact (targets_sublist b e rows free u).subset hr
  | selectById id => cases h; exact .replace fun v hv => by cases hv
  | selectActive queue key => cases h; exact .replace fun v hv => by cases hv
  | insertAudit taskId =>
    simp only [postgres, execStmt] at h
    split at h
    · cases h; exact .replace fun v hv => by cases hv
    · cases h

end IronDefer
