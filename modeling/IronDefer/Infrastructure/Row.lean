import IronDefer.Domain.Task
import IronDefer.RowStore.Table
import Mathlib.Algebra.Ring.Nat

/-!
# Rows of the tasks table

The row type of the adapter, and its decoding into a task record. The table's status check admits
exactly the six status texts, so a row holds the status itself; decoding goes through its text,
as the source does. A row that no validation accepts, or whose attempts exceed their maximum,
cannot be decoded.

## Main definitions

* `TaskRow`: a row of the tasks table
* `StorageError`: what the adapter reports as a storage error
* `truncateLastError`: the cap on stored error messages
* `TaskRecord.tryFrom`: the decoding of a row
* `TaskRow.Decodes`, `TaskRow.record`: the rows that decode, and the record such a row stands for

## Main results

* `tryFrom_eq_ok_iff`: a row decodes exactly when its names are valid, its attempts are not
  negative, its maximum is at least one and its attempts do not exceed it
-/

namespace IronDefer

/-- A row of the tasks table. -/
structure TaskRow where
  id : TaskId
  queue : String
  kind : String
  payload : Json
  status : TaskStatus
  priority : Int
  attempts : I32
  maxAttempts : I32
  lastError : Option String
  scheduledAt : Timestamp
  claimedBy : Option WorkerId
  claimedUntil : Option Timestamp
  createdAt : Timestamp
  updatedAt : Timestamp
  idempotencyKey : Option String
  idempotencyExpiresAt : Option Timestamp
  traceId : Option String
  checkpoint : Option Json
  suspendedAt : Option Timestamp
  signalPayload : Option Json
  region : Option String
  deriving DecidableEq

/-- The reason of a row-mapping error: a column's value was refused, a value of a named task was
refused, the attempts exceed their maximum, or the status is unknown, in the row or in a column of
the audit log. -/
inductive MappingReason where
  | value (column : String) (error : ValidationError)
  | valueOf (column : String) (id : TaskId) (error : ValidationError)
  | attemptsExceed (attempts maxAttempts : Int) (id : TaskId)
  | unknownStatus (other : String)
  | auditStatus (column other : String)
  deriving DecidableEq, Repr

/-- The source of a `TaskError.storage` the adapter builds itself. -/
inductive StorageError where
  | mapping (reason : MappingReason)
  | message (text : String)
  deriving DecidableEq, Repr

/-- The errors of the repository's operations. -/
abbrev RepoError := TaskError StorageError

/-- A row-mapping error, as the operations report it. -/
def mappingError (reason : MappingReason) : RepoError := .storage (.mapping reason)

def RepoError.isMapping : RepoError → Bool
  | .storage (.mapping _) => true
  | _ => false

/-! ## Text -/

/-- Maximum byte length retained in `lastError`. -/
def lastErrorMaxBytes : ℕ := 4096

/-- The longest run of characters at the front that fits into `n` bytes. -/
def takeBytes : ℕ → List Char → List Char
  | _, [] => []
  | n, c :: cs => if c.utf8Size ≤ n then c :: takeBytes (n - c.utf8Size) cs else []

theorem utf8ByteSize_ofList (cs : List Char) :
    (String.ofList cs).utf8ByteSize = (cs.map Char.utf8Size).sum := by
  induction cs with
  | nil => rfl
  | cons c cs ih =>
    rw [← List.singleton_append, String.ofList_append, String.utf8ByteSize_append, ih]
    simp

/-- Cut a text at the last character boundary at or before `lastErrorMaxBytes`. -/
def truncateLastError (s : String) : String :=
  if s.utf8ByteSize ≤ lastErrorMaxBytes then s
  else String.ofList (takeBytes lastErrorMaxBytes s.toList)

/-! ## Decoding -/

def statusToStr : TaskStatus → String := TaskStatus.asStr

def asciiLowercase (s : String) : String := String.ofList (s.toList.map Char.toLower)

def parseStatus (s : String) : Except RepoError TaskStatus :=
  let lower := asciiLowercase s
  if lower = "pending" then .ok .pending
  else if lower = "running" then .ok .running
  else if lower = "completed" then .ok .completed
  else if lower = "failed" then .ok .failed
  else if lower = "cancelled" then .ok .cancelled
  else if lower = "suspended" then .ok .suspended
  else .error (mappingError (.unknownStatus lower))

@[simp] theorem parseStatus_statusToStr (s : TaskStatus) : parseStatus (statusToStr s) = .ok s := by
  cases s <;> rfl

/-- Decode a row. -/
def TaskRecord.tryFrom (row : TaskRow) : Except RepoError TaskRecord := do
  let kind ← (TaskKind.tryFrom row.kind).mapError fun e =>
    mappingError (.value "invalid task kind" e)
  let attempts ← (AttemptCount.new row.attempts).mapError fun e =>
    mappingError (.value "task.attempts" e)
  let maxAttempts ← (MaxAttempts.new row.maxAttempts).mapError fun e =>
    mappingError (.value "task.max_attempts" e)
  if maxAttempts.get.val < attempts.get.val then
    throw (mappingError (.attemptsExceed attempts.get.val maxAttempts.get.val row.id))
  let queue ← (QueueName.tryFrom row.queue).mapError fun e =>
    mappingError (.value "invalid queue name" e)
  let status ← parseStatus (statusToStr row.status)
  return {
    id := row.id
    queue, kind
    payload := row.payload
    status
    priority := ⟨row.priority⟩
    attempts, maxAttempts
    lastError := row.lastError.map truncateLastError
    scheduledAt := Timestamp.toDateTime row.scheduledAt
    claimedBy := row.claimedBy
    claimedUntil := row.claimedUntil.map Timestamp.toDateTime
    createdAt := Timestamp.toDateTime row.createdAt
    updatedAt := Timestamp.toDateTime row.updatedAt
    idempotencyKey := row.idempotencyKey
    idempotencyExpiresAt := row.idempotencyExpiresAt.map Timestamp.toDateTime
    traceId := row.traceId
    checkpoint := row.checkpoint
    suspendedAt := row.suspendedAt.map Timestamp.toDateTime
    signalPayload := row.signalPayload
    region := row.region }

/-- The rows that decode: valid names, and attempts between zero and a positive maximum. -/
structure TaskRow.Decodes (row : TaskRow) : Prop where
  kind : row.kind.isEmpty = false
  queue : QueueName.validate row.queue = .ok ()
  nonneg : 0 ≤ row.attempts.val
  pos : 1 ≤ row.maxAttempts.val
  le : row.attempts.val ≤ row.maxAttempts.val

theorem TaskRow.decodes_iff (row : TaskRow) : row.Decodes ↔
    row.kind.isEmpty = false ∧ QueueName.validate row.queue = .ok () ∧ 0 ≤ row.attempts.val ∧
      1 ≤ row.maxAttempts.val ∧ row.attempts.val ≤ row.maxAttempts.val :=
  ⟨fun h => ⟨h.kind, h.queue, h.nonneg, h.pos, h.le⟩,
    fun ⟨hk, hq, h0, h1, hle⟩ => ⟨hk, hq, h0, h1, hle⟩⟩

instance (row : TaskRow) : Decidable row.Decodes := decidable_of_iff' _ row.decodes_iff

/-- The record a row that decodes stands for. -/
def TaskRow.record (row : TaskRow) (h : row.Decodes) : TaskRecord where
  id := row.id
  queue := ⟨row.queue, h.queue⟩
  kind := ⟨row.kind, h.kind⟩
  payload := row.payload
  status := row.status
  priority := ⟨row.priority⟩
  attempts := ⟨row.attempts, h.nonneg⟩
  maxAttempts := ⟨row.maxAttempts, h.pos⟩
  lastError := row.lastError.map truncateLastError
  scheduledAt := Timestamp.toDateTime row.scheduledAt
  claimedBy := row.claimedBy
  claimedUntil := row.claimedUntil.map Timestamp.toDateTime
  createdAt := Timestamp.toDateTime row.createdAt
  updatedAt := Timestamp.toDateTime row.updatedAt
  idempotencyKey := row.idempotencyKey
  idempotencyExpiresAt := row.idempotencyExpiresAt.map Timestamp.toDateTime
  traceId := row.traceId
  checkpoint := row.checkpoint
  suspendedAt := row.suspendedAt.map Timestamp.toDateTime
  signalPayload := row.signalPayload
  region := row.region

theorem tryFrom_of_decodes {row : TaskRow} (h : row.Decodes) :
    TaskRecord.tryFrom row = .ok (row.record h) := by
  have hk : TaskKind.tryFrom row.kind = .ok ⟨row.kind, h.kind⟩ := dif_pos h.kind
  have ha : AttemptCount.new row.attempts = .ok ⟨row.attempts, h.nonneg⟩ :=
    dif_neg (Int.not_lt.mpr h.nonneg)
  have hm : MaxAttempts.new row.maxAttempts = .ok ⟨row.maxAttempts, h.pos⟩ :=
    dif_neg (Int.not_lt.mpr h.pos)
  have hq : QueueName.tryFrom row.queue = .ok ⟨row.queue, h.queue⟩ :=
    QueueName.tryFrom_asStr ⟨row.queue, h.queue⟩
  have hle : ¬ row.maxAttempts.val < row.attempts.val := Int.not_lt.mpr h.le
  simp [TaskRecord.tryFrom, TaskRow.record, hk, ha, hm, hq, hle, Except.mapError, bind, Except.bind,
    pure, Except.pure]

theorem tryFrom_of_not_decodes {row : TaskRow} (h : ¬ row.Decodes) :
    ∃ e, TaskRecord.tryFrom row = .error (mappingError e) := by
  by_cases hk : row.kind.isEmpty = false
  · by_cases ha : row.attempts.val < 0
    · simp [TaskRecord.tryFrom, TaskKind.tryFrom, AttemptCount.new, hk, ha, Except.mapError, bind,
        Except.bind]
    · by_cases hm : row.maxAttempts.val < 1
      · simp [TaskRecord.tryFrom, TaskKind.tryFrom, AttemptCount.new, MaxAttempts.new, hk, ha, hm,
          Except.mapError, bind, Except.bind]
      · by_cases hlt : row.maxAttempts.val < row.attempts.val
        · simp [TaskRecord.tryFrom, TaskKind.tryFrom, AttemptCount.new, MaxAttempts.new, hk, ha, hm,
            hlt, Except.mapError, bind, Except.bind, throw, throwThe, MonadExceptOf.throw]
        · have hq : QueueName.validate row.queue ≠ .ok () := fun hq =>
            h ⟨hk, hq, Int.not_lt.mp ha, Int.not_lt.mp hm, Int.not_lt.mp hlt⟩
          cases hv : QueueName.validate row.queue with
          | ok u => exact absurd hv hq
          | error e =>
            have hqueue := QueueName.tryFrom_eq_error hv
            simp [TaskRecord.tryFrom, TaskKind.tryFrom, AttemptCount.new, MaxAttempts.new, hk, ha,
              hm, hlt, hqueue, Except.mapError, bind, Except.bind]
  · simp [TaskRecord.tryFrom, TaskKind.tryFrom, hk, Except.mapError, bind, Except.bind]

/-- **A row decodes exactly when its columns are within the bounds of the record's types and its
attempts do not exceed their maximum**, and then to the record with its columns. -/
theorem tryFrom_eq_ok_iff {row : TaskRow} {record : TaskRecord} :
    TaskRecord.tryFrom row = .ok record ↔ ∃ h : row.Decodes, row.record h = record := by
  constructor
  · intro h
    by_cases hd : row.Decodes
    · rw [tryFrom_of_decodes hd] at h
      exact ⟨hd, Except.ok.inj h⟩
    · obtain ⟨e, he⟩ := tryFrom_of_not_decodes hd
      rw [he] at h
      cases h
  · rintro ⟨h, rfl⟩
    exact tryFrom_of_decodes h

end IronDefer
