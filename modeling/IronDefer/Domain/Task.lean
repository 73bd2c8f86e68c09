import IronDefer.Domain.Values

/-!
# Tasks

The persistence shape of a task, its lifecycle status, and the errors its operations raise. The
error `TaskError.storage` boxes whatever error the adapter raises; its type is a parameter here.

## Main definitions

* `TaskStatus`: the lifecycle status of a task
* `TaskRecord`: a task as the application sees it
* `CancelResult`, `RecoveryOutcome`: outcomes of a cancellation and of a lease recovery
* `TaskContext`: what a handler is given for one execution
* `TaskError`: errors of task lifecycle and persistence operations
-/

namespace IronDefer

/-- Lifecycle status of a task. -/
inductive TaskStatus where
  | pending
  | running
  | completed
  | failed
  | cancelled
  | suspended
  deriving DecidableEq, Repr

def TaskStatus.asStr : TaskStatus → String
  | .pending => "pending"
  | .running => "running"
  | .completed => "completed"
  | .failed => "failed"
  | .cancelled => "cancelled"
  | .suspended => "suspended"

/-- The statuses of finished tasks: those outside the idempotency index, which the cleanup of keys
looks for. -/
def TaskStatus.isTerminal : TaskStatus → Bool
  | .completed | .failed | .cancelled => true
  | .pending | .running | .suspended => false

/-- Persistence shape of a task. -/
structure TaskRecord where
  id : TaskId
  queue : QueueName
  kind : TaskKind
  payload : Json
  status : TaskStatus
  priority : Priority
  attempts : AttemptCount
  maxAttempts : MaxAttempts
  lastError : Option String
  scheduledAt : DateTime
  claimedBy : Option WorkerId
  claimedUntil : Option DateTime
  createdAt : DateTime
  updatedAt : DateTime
  idempotencyKey : Option String
  idempotencyExpiresAt : Option DateTime
  traceId : Option String
  checkpoint : Option Json
  suspendedAt : Option DateTime
  signalPayload : Option Json
  region : Option String
  deriving DecidableEq

/-- Outcome of a task cancellation attempt. -/
inductive CancelResult where
  | cancelled (record : TaskRecord)
  | notFound
  | notCancellable (currentStatus : TaskStatus)
  deriving DecidableEq

/-- What became of a task whose lease had expired. -/
inductive RecoveryOutcome where
  | recovered
  | failed
  deriving DecidableEq, Repr

/-- Structured source for `TaskError.invalidPayload`. -/
inductive PayloadErrorKind where
  | deserialization (message : String)
  | serialization (message : String)
  | validation (message : String)
  | alreadyStarted
  deriving DecidableEq, Repr

/-- Errors raised by task lifecycle and persistence operations, over the errors `σ` of the
storage adapter. -/
inductive TaskError (σ : Type) where
  | notFound (id : TaskId)
  | notInExpectedState (taskId : TaskId) (expected : String)
  | invalidPayload (kind : PayloadErrorKind)
  | storage (source : σ)
  deriving DecidableEq, Repr

/-- What a handler is given for one execution. The writer itself is a handle on the store; here it
is only known whether there is one. -/
structure TaskContext where
  taskId : TaskId
  workerId : WorkerId
  attempt : AttemptCount
  lastCheckpoint : Option Json
  hasCheckpointWriter : Bool
  signalPayload : Option Json
  deriving DecidableEq

namespace TaskContext

def new (taskId : TaskId) (workerId : WorkerId) (attempt : AttemptCount) : TaskContext where
  taskId
  workerId
  attempt
  lastCheckpoint := none
  hasCheckpointWriter := false
  signalPayload := none

def withCheckpoint (ctx : TaskContext) (lastCheckpoint : Option Json) : TaskContext :=
  { ctx with lastCheckpoint, hasCheckpointWriter := true }

def withSignalPayload (ctx : TaskContext) (payload : Option Json) : TaskContext :=
  { ctx with signalPayload := payload }

end TaskContext

/-- Maximum size of a signal payload in bytes. -/
def signalPayloadMaxBytes : ℕ := 1048576

end IronDefer
