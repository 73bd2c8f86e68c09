import IronDefer.Infrastructure.Postgres
import IronDefer.RowStore.Program

/-!
# The task repository

Every operation of the adapter, as the statements it sends within one transaction and the reply
it makes of their results. An operation that returns before its commit rolls back; a panic unwinds
and rolls back as well. An operation that is a single statement outside a transaction commits with
it.

## Main definitions

* `insertAuditRow`: the audit write all operations share
* `save`, `saveIdempotent`, `claimNext`, `complete`, `fail`, `recoverZombieTasks`, `cancel`,
  `releaseLeasesForWorker`, `releaseLeaseForTask`, `suspend`, `signal`, `expireSuspendedTasks`,
  `cleanupExpiredIdempotencyKeys`, `writeCheckpoint`, `findById`: the operations
* `saveInTx`, `saveIdempotentInTx`, `inTx`: the operations inside a transaction of the caller
* `Op`, `Op.program`: the operations as values, and their transactions
-/

namespace IronDefer

open RowStore

/-- What an operation returns where it succeeds. -/
inductive Response where
  | task (record : TaskRecord)
  | saved (record : TaskRecord) (created : Bool)
  | claimed (record : Option TaskRecord)
  | recovered (tasks : List (TaskId × QueueName × TaskKind × Option String × RecoveryOutcome))
  | cancel (result : CancelResult)
  | released (tasks : List (TaskId × Option String))
  | releasedTask (traceId : Option String)
  | expired (tasks : List (TaskId × QueueName))
  | cleaned (count : ℕ)
  | written
  | found (record : Option TaskRecord)
  | batch (replies : List (Except RepoError Response))

abbrev Reply := Except RepoError Response

/-- The statements of one transaction. -/
abbrev Tx := Program Stmt Stmt.Res

def exec (q : Stmt) : Tx q.Res := Program.exec q

/-! ## The audit write -/

/-- `&s[..n]`: none where `n` is not a character boundary of `s`, and the slice panics. -/
def sliceTo (s : String) (n : ℕ) : Option String :=
  let front := String.ofList (takeBytes n s.toList)
  if front.utf8ByteSize = n then some front else none

/-- The cap on trace ids, to match the column's length. -/
def capTraceId (t : String) : Option String :=
  if 255 < t.utf8ByteSize then sliceTo t 255 else some t

/-- The cap on metadata: a value over 10 KiB is replaced by a warning. -/
def capMetadata (m : Json) : Json :=
  if 10240 < m.text.utf8ByteSize then
    ⟨"\x7b\"original_size\":" ++ toString m.text.utf8ByteSize ++
      ",\"warning\":\"metadata truncated: exceeded 10KB limit\"\x7d"⟩
  else m

/-- Append a row to the audit log, where it is enabled. -/
def insertAuditRow (auditLog : Bool) (taskId : TaskId) (fromStatus : Option String)
    (toStatus : String) (workerId : Option WorkerId) (traceId : Option String)
    (metadata : Option Json) (region : Option String) : Tx PUnit :=
  if auditLog then
    match traceId.map capTraceId with
    | some none => .unwind
    | some (some t) =>
      exec (.insertAudit taskId fromStatus toStatus workerId (some t) (metadata.map capMetadata)
        region)
    | none =>
      exec (.insertAudit taskId fromStatus toStatus workerId none (metadata.map capMetadata) region)
  else .pure ⟨⟩

/-! ## Submitting -/

/-- The audit row of a submission. -/
def auditCreated (auditLog : Bool) (row : TaskRow) : Tx PUnit :=
  insertAuditRow auditLog row.id none "pending" none row.traceId none row.region

/-- `fetch_one` on a statement that returned no row. -/
def rowNotFound : RepoError :=
  .storage (.message
    "database query failed: no rows returned by a query that expected to return at least one row")

def save (auditLog : Bool) (task : TaskRecord) : Tx (Finish Reply) := do
  match ← exec (.insertTask task (task.lastError.map truncateLastError) false) with
  | none => return .rollback (.error rowNotFound)
  | some row =>
    auditCreated auditLog row
    return .commit ((TaskRecord.tryFrom row).map .task)

def saveIdempotent (auditLog : Bool) (task : TaskRecord) : Tx (Finish Reply) := do
  match ← exec (.insertTask task (task.lastError.map truncateLastError) true) with
  | some row =>
    auditCreated auditLog row
    return .commit ((TaskRecord.tryFrom row).map (.saved · true))
  | none =>
    -- conflict: fetch the existing task
    match ← exec (.selectActive task.queue.asStr task.idempotencyKey) with
    | some row => return .commit ((TaskRecord.tryFrom row).map (.saved · false))
    | none => return .commit (.error (.notInExpectedState task.id "non-terminal"))

/-- An operation inside a transaction of the caller. -/
inductive TxCall where
  | saveInTx (task : TaskRecord)
  | saveIdempotentInTx (task : TaskRecord)
  deriving DecidableEq

def saveInTx (auditLog : Bool) (task : TaskRecord) : Tx Reply := do
  match ← exec (.insertTask task (task.lastError.map truncateLastError) false) with
  | none => return .error rowNotFound
  | some row =>
    auditCreated auditLog row
    return (TaskRecord.tryFrom row).map .task

def saveIdempotentInTx (auditLog : Bool) (task : TaskRecord) : Tx Reply := do
  match ← exec (.insertTask task (task.lastError.map truncateLastError) true) with
  | some row =>
    auditCreated auditLog row
    return (TaskRecord.tryFrom row).map (.saved · true)
  | none =>
    match ← exec (.selectActive task.queue.asStr task.idempotencyKey) with
    | some row => return (TaskRecord.tryFrom row).map (.saved · false)
    | none =>
      return .error (.storage (.message ("idempotency conflict detected for queue=" ++
        task.queue.asStr ++ " key=" ++ task.idempotencyKey.getD "none" ++
        ", but no non-terminal task found (likely transitioned to terminal state during race)")))

def TxCall.program (auditLog : Bool) : TxCall → Tx Reply
  | .saveInTx task => IronDefer.saveInTx auditLog task
  | .saveIdempotentInTx task => IronDefer.saveIdempotentInTx auditLog task

/-- The calls a caller makes inside its transaction, one after the other. -/
def runCalls (auditLog : Bool) : List TxCall → Tx (List Reply)
  | [] => return []
  | call :: calls => do
    let reply ← call.program auditLog
    let replies ← runCalls auditLog calls
    return reply :: replies

/-- A transaction of the caller, which it commits or rolls back. -/
def inTx (auditLog : Bool) (calls : List TxCall) (commit : Bool) : Tx (Finish Reply) := do
  let replies ← runCalls auditLog calls
  return if commit then .commit (.ok (.batch replies)) else .rollback (.ok (.batch replies))

def cleanupExpiredIdempotencyKeys (now : DateTime) : Tx (Finish Reply) := do
  let rows ← exec (.update (.cleanupExpiredIdempotencyKeys (DateTime.toTimestamp now)))
  return .commit (.ok (.cleaned rows.length))

def findById (id : TaskId) : Tx (Finish Reply) := do
  match ← exec (.selectById id) with
  | none => return .commit (.ok (.found none))
  | some row => return .commit ((TaskRecord.tryFrom row).map fun record => .found (some record))

/-! ## Claiming and outcomes -/

def claimNext (auditLog : Bool) (queue : QueueName) (workerId : WorkerId) (leaseDuration : Duration)
    (region : Option String) : Tx (Finish Reply) := do
  let rows ← exec (.update (.claimNext queue workerId leaseDuration region))
  match rows.head? with
  | some row =>
    insertAuditRow auditLog row.id (some "pending") "running" (some workerId) row.traceId none
      row.region
    return .commit ((TaskRecord.tryFrom row).map fun record => .claimed (some record))
  | none => return .commit (.ok (.claimed none))

/-- The shape of `complete`, `fail`, `suspend` and `signal`: one guarded update, its audit row, the
commit, and then the decoding of the row; `otherwise` where no row passed the guard. -/
def transition (auditLog : Bool) (u : Update) (fromStatus : String) (toStatus : TaskRow → String)
    (workerId : TaskRow → Option WorkerId) (metadata : Option Json)
    (otherwise : Tx (Finish Reply)) : Tx (Finish Reply) := do
  let rows ← exec (.update u)
  match rows.head? with
  | some r =>
    insertAuditRow auditLog r.id (some fromStatus) (toStatus r) (workerId r) r.traceId metadata
      r.region
    return .commit ((TaskRecord.tryFrom r).map .task)
  | none => otherwise

/-- Return an error before the commit. -/
def notInExpectedState (taskId : TaskId) (expected : String) : Tx (Finish Reply) :=
  .pure (.rollback (.error (.notInExpectedState taskId expected)))

def complete (auditLog : Bool) (taskId : TaskId) : Tx (Finish Reply) :=
  transition auditLog (.complete taskId) "running" (fun _ => "completed") TaskRow.claimedBy none
    (notInExpectedState taskId "Running")

def fail (auditLog : Bool) (taskId : TaskId) (errorMessage : String)
    (baseDelaySecs maxDelaySecs : ℚ) : Tx (Finish Reply) :=
  let truncatedError := truncateLastError errorMessage
  transition auditLog (.fail taskId truncatedError baseDelaySecs maxDelaySecs) "running"
    (fun r => statusToStr r.status) TaskRow.claimedBy (some (Json.object "error" truncatedError))
    (notInExpectedState taskId "Running")

def suspend (auditLog : Bool) (taskId : TaskId) : Tx (Finish Reply) :=
  transition auditLog (.suspend taskId) "running" (fun _ => "suspended") TaskRow.claimedBy none
    (notInExpectedState taskId "Running")

/-- Refuse a signal payload over the limit. -/
def checkSignalPayload (payload : Option Json) : Except RepoError Unit :=
  match payload with
  | none => .ok ()
  | some p =>
    if signalPayloadMaxBytes < p.text.utf8ByteSize then
      .error (.invalidPayload (.validation ("signal payload size " ++
        toString p.text.utf8ByteSize ++ " exceeds maximum " ++ toString signalPayloadMaxBytes ++
        " bytes")))
    else .ok ()

def signal (auditLog : Bool) (taskId : TaskId) (payload : Option Json) : Tx (Finish Reply) :=
  match checkSignalPayload payload with
  | .error e => .pure (.rollback (.error e))
  | .ok () =>
    transition auditLog (.signal taskId payload) "suspended" (fun _ => "pending") (fun _ => none)
      none (do
        match ← exec (.selectById taskId) with
        | none => return .rollback (.error (.notFound taskId))
        | some _ => return .rollback (.error (.notInExpectedState taskId "Suspended")))

/-- The metadata of a released lease. -/
def releaseMetadata : Json := Json.object "reason" "lease released: graceful shutdown"

def releaseLeaseForTask (auditLog : Bool) (taskId : TaskId) : Tx (Finish Reply) := do
  let rows ← exec (.update (.releaseLeaseForTask taskId))
  match rows.head? with
  | some r =>
    insertAuditRow auditLog taskId (some "running") "pending" none r.traceId (some releaseMetadata)
      none
    return .commit (.ok (.releasedTask r.traceId))
  | none => notInExpectedState taskId "Running"

def releaseLeasesForWorker (auditLog : Bool) (workerId : WorkerId) : Tx (Finish Reply) := do
  let rows ← exec (.update (.releaseLeasesForWorker workerId))
  rows.forM fun row =>
    insertAuditRow auditLog row.id (some "running") "pending" (some workerId) row.traceId
      (some releaseMetadata) none
  return .commit (.ok (.released (rows.map fun r => (r.id, r.traceId))))

/-! ## Sweeping and cancelling -/

/-- A recovered row as the sweeper sees it; `what` names the step in the errors. -/
def recoveredTask (what : String) (outcome : RecoveryOutcome) (row : TaskRow) :
    Except RepoError (TaskId × QueueName × TaskKind × Option String × RecoveryOutcome) := do
  let queue ← (QueueName.tryFrom row.queue).mapError fun e =>
    mappingError (.valueOf ("invalid queue name in " ++ what ++ " task") row.id e)
  let kind ← (TaskKind.tryFrom row.kind).mapError fun e =>
    mappingError (.valueOf ("invalid kind in " ++ what ++ " task") row.id e)
  return (row.id, queue, kind, row.traceId, outcome)

theorem recoveredTask_of_valid {what : String} {outcome : RecoveryOutcome} {row : TaskRow}
    (hkind : row.kind.isEmpty = false) (hqueue : QueueName.validate row.queue = .ok ()) :
    recoveredTask what outcome row =
      .ok (row.id, ⟨row.queue, hqueue⟩, ⟨row.kind, hkind⟩, row.traceId, outcome) := by
  have hq := QueueName.tryFrom_asStr ⟨row.queue, hqueue⟩
  have hk : TaskKind.tryFrom row.kind = .ok ⟨row.kind, hkind⟩ := dif_pos hkind
  unfold recoveredTask
  rw [hq, hk]
  rfl

theorem recoveredTask_of_not_valid (what : String) (outcome : RecoveryOutcome) {row : TaskRow}
    (hqueue : QueueName.validate row.queue ≠ .ok ()) :
    ∃ e, recoveredTask what outcome row = .error e := by
  cases hv : QueueName.validate row.queue with
  | ok u => exact absurd hv hqueue
  | error e =>
    unfold recoveredTask
    rw [QueueName.tryFrom_eq_error hv]
    exact ⟨_, rfl⟩

/-- The name of a queue that is read from a text is the text. -/
theorem asStr_of_tryFrom {value : String} {f : ValidationError → RepoError} {queue : QueueName}
    (h : (QueueName.tryFrom value).mapError f = .ok queue) : queue.asStr = value := by
  cases hv : QueueName.validate value with
  | ok u =>
    have hname : QueueName.tryFrom value = .ok ⟨value, hv⟩ := QueueName.tryFrom_asStr ⟨value, hv⟩
    rw [hname] at h
    cases h
    rfl
  | error e =>
    rw [QueueName.tryFrom_eq_error hv] at h
    cases h

/-- The results of a recovery. All rows are decoded before the commit. -/
def recoveredTasks (retryable exhausted : List TaskRow) :
    Except RepoError (List (TaskId × QueueName × TaskKind × Option String × RecoveryOutcome)) := do
  let recovered ← retryable.mapM (recoveredTask "recovered" .recovered)
  let failed ← exhausted.mapM (recoveredTask "exhausted" .failed)
  return recovered ++ failed

def recoverZombieTasks (auditLog : Bool) : Tx (Finish Reply) := do
  let retryable ← exec (.update .recoverRetryable)
  let exhausted ← exec (.update .recoverExhausted)
  retryable.forM fun row =>
    insertAuditRow auditLog row.id (some "running") "pending" none row.traceId none row.region
  exhausted.forM fun row =>
    insertAuditRow auditLog row.id (some "running") "failed" none row.traceId
      (some (Json.object "error" "lease expired: max attempts exhausted")) row.region
  match recoveredTasks retryable exhausted with
  | .error e => return .rollback (.error e)
  | .ok results => return .commit (.ok (.recovered results))

/-- The `UPDATE` inside the cancel statement: it finds the row where the snapshot shows it as
cancellable, and tests it again on the version current when it gets the row lock. -/
def cancelAttempt (taskId : TaskId) (snapshot : Option TaskRow) : Tx (List TaskRow) :=
  if snapshot.any fun r => r.status = .pending || r.status = .suspended then
    exec (.update (.cancel taskId))
  else .pure []

/-- One statement, whose outer `SELECT` reads the snapshot taken when it starts. -/
def cancel (auditLog : Bool) (taskId : TaskId) : Tx (Finish Reply) := do
  let snapshot ← exec (.selectById taskId)
  let cancelled ← cancelAttempt taskId snapshot
  match cancelled.head? with
  | some row =>
    let fromStatus := if row.suspendedAt.isSome then "suspended" else "pending"
    insertAuditRow auditLog row.id (some fromStatus) "cancelled" none row.traceId none row.region
    return .commit ((TaskRecord.tryFrom row).map fun record => .cancel (.cancelled record))
  | none =>
    match snapshot with
    | some row =>
      return .commit ((parseStatus (statusToStr row.status)).map fun status =>
        .cancel (.notCancellable status))
    | none => return .commit (.ok (.cancel .notFound))

def expiredTask (row : TaskRow) : Except RepoError (TaskId × QueueName) := do
  let queue ← (QueueName.tryFrom row.queue).mapError fun e =>
    mappingError (.valueOf "invalid queue name in expired task" row.id e)
  return (row.id, queue)

theorem expiredTask_of_valid {row : TaskRow} (hqueue : QueueName.validate row.queue = .ok ()) :
    expiredTask row = .ok (row.id, ⟨row.queue, hqueue⟩) := by
  have hq := QueueName.tryFrom_asStr ⟨row.queue, hqueue⟩
  unfold expiredTask
  rw [hq]
  rfl

theorem expiredTask_of_not_valid {row : TaskRow} (hqueue : QueueName.validate row.queue ≠ .ok ()) :
    ∃ e, expiredTask row = .error e := by
  cases hv : QueueName.validate row.queue with
  | ok u => exact absurd hv hqueue
  | error e =>
    unfold expiredTask
    rw [QueueName.tryFrom_eq_error hv]
    exact ⟨_, rfl⟩

def expireSuspendedTasks (auditLog : Bool) (suspendTimeout : Duration) : Tx (Finish Reply) := do
  let timeoutSecs := suspendTimeout / 1000000000
  let rows ← exec (.update (.expireSuspendedTasks timeoutSecs))
  rows.forM fun row =>
    insertAuditRow auditLog row.id (some "suspended") "failed" none row.traceId
      (some (Json.object "error" "suspend timeout exceeded")) none
  return .commit ((rows.mapM expiredTask).map .expired)

/-! ## Checkpoints -/

def writeCheckpoint (taskId : TaskId) (workerId : WorkerId) (data : Json) : Tx (Finish Reply) := do
  let rows ← exec (.update (.writeCheckpoint taskId workerId data))
  if rows.isEmpty then
    return .commit (.error
      (.notInExpectedState taskId "Running and claimed by current worker"))
  else return .commit (.ok .written)

/-! ## The operations as values -/

/-- The operations of the repository and of the checkpoint writer. -/
inductive Op where
  | save (task : TaskRecord)
  | saveIdempotent (task : TaskRecord)
  | inTx (calls : List TxCall) (commit : Bool)
  | cleanupExpiredIdempotencyKeys (now : DateTime)
  | findById (id : TaskId)
  | claimNext (queue : QueueName) (workerId : WorkerId) (leaseDuration : Duration)
      (region : Option String)
  | complete (taskId : TaskId)
  | fail (taskId : TaskId) (errorMessage : String) (baseDelaySecs maxDelaySecs : ℚ)
  | suspend (taskId : TaskId)
  | signal (taskId : TaskId) (payload : Option Json)
  | releaseLeaseForTask (taskId : TaskId)
  | releaseLeasesForWorker (workerId : WorkerId)
  | recoverZombieTasks
  | cancel (taskId : TaskId)
  | expireSuspendedTasks (suspendTimeout : Duration)
  | writeCheckpoint (taskId : TaskId) (workerId : WorkerId) (data : Json)
  deriving DecidableEq

/-- The transaction of an operation of a repository with the given audit flag. -/
def Op.program (auditLog : Bool) : Op → Tx (Finish Reply)
  | save task => IronDefer.save auditLog task
  | saveIdempotent task => IronDefer.saveIdempotent auditLog task
  | inTx calls commit => IronDefer.inTx auditLog calls commit
  | cleanupExpiredIdempotencyKeys now => IronDefer.cleanupExpiredIdempotencyKeys now
  | findById id => IronDefer.findById id
  | claimNext queue workerId leaseDuration region =>
    IronDefer.claimNext auditLog queue workerId leaseDuration region
  | complete taskId => IronDefer.complete auditLog taskId
  | fail taskId errorMessage baseDelaySecs maxDelaySecs =>
    IronDefer.fail auditLog taskId errorMessage baseDelaySecs maxDelaySecs
  | suspend taskId => IronDefer.suspend auditLog taskId
  | signal taskId payload => IronDefer.signal auditLog taskId payload
  | releaseLeaseForTask taskId => IronDefer.releaseLeaseForTask auditLog taskId
  | releaseLeasesForWorker workerId => IronDefer.releaseLeasesForWorker auditLog workerId
  | recoverZombieTasks => IronDefer.recoverZombieTasks auditLog
  | cancel taskId => IronDefer.cancel auditLog taskId
  | expireSuspendedTasks suspendTimeout => IronDefer.expireSuspendedTasks auditLog suspendTimeout
  | writeCheckpoint taskId workerId data => IronDefer.writeCheckpoint taskId workerId data

/-- The execution that obtained an attempt of a task. -/
structure Execution where
  task : TaskId
  attempt : Int
  worker : WorkerId
  deriving DecidableEq, Repr

/-- A call of an operation on a repository. `onBehalf` names the execution a worker makes the call
for; it has no influence on what the call does. -/
structure Call where
  auditLog : Bool
  op : Op
  onBehalf : Option Execution
  deriving DecidableEq

def Call.program (c : Call) : Tx (Finish Reply) := c.op.program c.auditLog

end IronDefer
