import IronDefer.Domain.Task

/-!
# Lifecycle records

The log records in which a worker tells what became of a task it has dispatched. Each names the task
and carries what its event adds; the payload of the task goes into it only where the worker is
configured to log payloads.

## Main definitions

* `LifecycleEvent`: what a record tells
* `LifecycleLog`: a record
* `emitTaskCompleted`, `emitTaskSuspended`, `emitTaskFailed`, `emitTaskFailStorageError`,
  `emitTaskFailPanic`: the records of a worker
-/

namespace IronDefer

/-- What a record tells of a task, with the fields its event adds. -/
inductive LifecycleEvent where
  | taskCompleted (region : Option String) (durationMs : ℕ)
  | taskSuspended
  | taskFailedRetry (maxAttempts : MaxAttempts) (nextScheduledAt : DateTime) (error : String)
  | taskFailedTerminal (maxAttempts : MaxAttempts) (error : String)
  | taskFailUnexpectedStatus (maxAttempts : MaxAttempts) (status : TaskStatus) (error : String)
  | taskFailStorageError (maxAttempts : MaxAttempts) (error : String)
  | taskFailPanic (maxAttempts : MaxAttempts) (error : String)
  deriving DecidableEq

/-- A lifecycle record. -/
structure LifecycleLog where
  event : LifecycleEvent
  taskId : TaskId
  queue : QueueName
  workerId : WorkerId
  kind : TaskKind
  attempt : AttemptCount
  payload : Option Json
  deriving DecidableEq

/-- The record of an event of a task. -/
def lifecycleLog (task : TaskRecord) (workerId : WorkerId) (logPayload : Bool)
    (event : LifecycleEvent) : LifecycleLog where
  event
  taskId := task.id
  queue := task.queue
  workerId
  kind := task.kind
  attempt := task.attempts
  payload := if logPayload then some task.payload else none

def emitTaskCompleted (task : TaskRecord) (workerId : WorkerId) (durationMs : ℕ)
    (logPayload : Bool) : LifecycleLog :=
  lifecycleLog task workerId logPayload (.taskCompleted task.region durationMs)

def emitTaskSuspended (task : TaskRecord) (workerId : WorkerId) (logPayload : Bool) :
    LifecycleLog :=
  lifecycleLog task workerId logPayload .taskSuspended

/-- The record of a failure that `repo.fail` has answered with `record`. A status it never leaves a
task in is logged without the payload, whatever the flag. -/
def emitTaskFailed (task : TaskRecord) (workerId : WorkerId) (record : TaskRecord)
    (errorMessage : String) (logPayload : Bool) : LifecycleLog :=
  match record.status with
  | .pending =>
    lifecycleLog task workerId logPayload
      (.taskFailedRetry task.maxAttempts record.scheduledAt errorMessage)
  | .failed =>
    lifecycleLog task workerId logPayload (.taskFailedTerminal task.maxAttempts errorMessage)
  | other =>
    lifecycleLog task workerId false
      (.taskFailUnexpectedStatus task.maxAttempts other errorMessage)

def emitTaskFailStorageError (task : TaskRecord) (workerId : WorkerId) (errorMessage : String)
    (logPayload : Bool) : LifecycleLog :=
  lifecycleLog task workerId logPayload (.taskFailStorageError task.maxAttempts errorMessage)

def emitTaskFailPanic (task : TaskRecord) (workerId : WorkerId) (panicMessage : String)
    (logPayload : Bool) : LifecycleLog :=
  lifecycleLog task workerId logPayload (.taskFailPanic task.maxAttempts panicMessage)

end IronDefer
