import IronDefer.Application.Config
import IronDefer.Infrastructure.Repository

/-!
# Workers

What a worker makes of a claimed task: the context its handler is given, and the operation that
reports how the handler ended.

## Main definitions

* `taskContext`: the context its handler is given
* `HandlerResult`: how the execution of a handler ends
* `outcome`, `missingHandler`: the operation a worker sends for it
-/

namespace IronDefer

/-- The context `dispatchTask` builds for a claimed task; the engine's workers have a writer. -/
def taskContext (workerId : WorkerId) (hasCheckpointWriter : Bool) (task : TaskRecord) :
    TaskContext :=
  let ctx := TaskContext.new task.id workerId task.attempts
  let ctx := if hasCheckpointWriter then ctx.withCheckpoint task.checkpoint else ctx
  ctx.withSignalPayload task.signalPayload

/-- Structured source for the failure of an execution. -/
inductive ExecutionErrorKind where
  | handlerPanicked (message : String)
  | missingHandler (kind : String)
  deriving DecidableEq, Repr

/-- The text of a failed execution. -/
def ExecutionErrorKind.display : ExecutionErrorKind → String
  | handlerPanicked message => "task execution failed: handler panicked: " ++ message
  | missingHandler kind => "task execution failed: no handler registered for kind: " ++ kind

/-- How the execution of a handler ends: it returns, with the text of its error where it returns an
error other than a request to suspend, or it panics, with the message taken from the panic. -/
inductive HandlerResult where
  | ok
  | suspendRequested
  | err (text : String)
  | panicked (message : String)
  deriving DecidableEq, Repr

/-- The failure a worker reports for a task. -/
def failWith (config : WorkerConfig) (task : TaskRecord) (text : String) : Op :=
  .fail task.id text (Duration.asSecsF64 config.baseDelay) (Duration.asSecsF64 config.maxDelay)

/-- The operation that reports how the handler of a task has ended. -/
def outcome (config : WorkerConfig) (task : TaskRecord) : HandlerResult → Op
  | .ok => .complete task.id
  | .suspendRequested => .suspend task.id
  | .err text => failWith config task text
  | .panicked message => failWith config task (ExecutionErrorKind.handlerPanicked message).display

/-- The operation that reports that there is no handler for the kind of a task. -/
def missingHandler (config : WorkerConfig) (task : TaskRecord) : Op :=
  failWith config task (ExecutionErrorKind.missingHandler task.kind.asStr).display

end IronDefer
