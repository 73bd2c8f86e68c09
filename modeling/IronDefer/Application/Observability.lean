import IronDefer.Domain.Task

/-!
# Transition events

The event the application emits for a transition outside an execution span. It hangs on the trace of
its task: without a trace id, or with one that does not parse, nothing is emitted.

## Main definitions

* `StateTransitionEvent`: the event, as its builder leaves it
* `StateTransitionEvent.emit`: the event that reaches the collector, if one does
* `cancelledEvent`: the event of a cancellation
-/

namespace IronDefer

/-- An event that describes a task state transition. -/
structure StateTransitionEvent where
  taskId : TaskId
  fromStatus : TaskStatus
  toStatus : TaskStatus
  queue : Option QueueName
  kind : Option TaskKind
  traceIdHex : Option String
  workerId : Option WorkerId
  attempt : Int
  deriving DecidableEq

/-- The event is emitted where its trace id parses; `fromHex` is the parser's verdict. -/
def StateTransitionEvent.emit (fromHex : String → Bool) (event : StateTransitionEvent) :
    List StateTransitionEvent :=
  match event.traceIdHex with
  | none => []
  | some traceIdHex => if fromHex traceIdHex then [event] else []

/-- The event for a task that has been cancelled. It always starts from pending. -/
def cancelledEvent (record : TaskRecord) : StateTransitionEvent where
  taskId := record.id
  fromStatus := .pending
  toStatus := .cancelled
  queue := some record.queue
  kind := some record.kind
  traceIdHex := record.traceId
  workerId := none
  attempt := record.attempts.get.val

end IronDefer
