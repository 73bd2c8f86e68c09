import IronDefer.Application.Scheduler

/-!
# The engine's submissions

The functions with which a caller submits a task to the engine: what each of them checks, in which
order, and the record it then has the scheduler build. The fresh identifier `id` and the program's
clock `now` are the scheduler's.

## Main definitions

* `ProducerConfig`, `Engine`: the configuration a submission reads
* `validateRegion`, `validateIdempotencyKey`, `validateScheduledAt`: the checks of arguments
* `Engine.validateRegionAuthorization`: the check of a region against the list of allowed ones
* `Engine.enqueue`, …, `Engine.enqueueRawIdempotent`: the entry points
* `Submission`, `Engine.submit`: the entry points as values

## Main results

* `Engine.submit_enqueued`: what an entry point submits, the scheduler has built
-/

namespace IronDefer

/-- Producer configuration for task submission safety; any valid region is accepted where
`allowedRegions` is empty. -/
structure ProducerConfig where
  allowedRegions : List String

/-- What the engine's submissions read: the registered kinds and the configuration. -/
structure Engine where
  registry : List String
  producerConfig : ProducerConfig
  idempotencyKeyRetention : Duration

/-- A value of a task type: the type's kind and name, and the outcome of serializing the value. -/
structure TypedTask where
  kind : String
  typeName : String
  payload : Except String Json

/-! ## Checks -/

/-- Maximum length of a region label in bytes. -/
def regionMaxLen : ℕ := 63

/-- Maximum length of an idempotency key in bytes. -/
def idempotencyKeyMaxLen : ℕ := 250

/-- The characters of a region label. -/
def isRegionChar (c : Char) : Bool := c.isLower || c.isDigit || c == '-'

def validateRegion (region : String) : Except RepoError Unit :=
  if region.isEmpty then .error (invalidPayload "region label must not be empty")
  else if regionMaxLen < region.utf8ByteSize then
    .error (invalidPayload ("region label length " ++ toString region.utf8ByteSize ++
      " exceeds maximum of " ++ toString regionMaxLen ++ " characters"))
  else if region.toList.all isRegionChar then .ok ()
  else .error (invalidPayload ("region label '" ++ region ++
    "' must contain only lowercase ASCII letters, digits, and hyphens"))

def validateIdempotencyKey (idempotencyKey : String) : Except RepoError Unit :=
  if idempotencyKey.isEmpty then .error (invalidPayload "idempotency key must not be empty")
  else if idempotencyKeyMaxLen < idempotencyKey.utf8ByteSize then
    .error (invalidPayload ("idempotency key length " ++ toString idempotencyKey.utf8ByteSize ++
      " exceeds maximum of " ++ toString idempotencyKeyMaxLen ++ " characters"))
  else .ok ()

/-- The years a `timestamptz` can hold. -/
def validateScheduledAt (dt : DateTime) : Except RepoError Unit :=
  let year := DateTime.year dt
  if -4712 ≤ year ∧ year ≤ 294276 then .ok ()
  else .error (invalidPayload ("scheduled_at year " ++ toString year ++
    " is outside Postgres timestamptz range (-4712..294276)"))

/-- Check an optional argument. -/
def checkSome {α : Type} (check : α → Except RepoError Unit) : Option α → Except RepoError Unit
  | none => .ok ()
  | some a => check a

def requestedQueue (queue : String) : Except RepoError QueueName :=
  (QueueName.tryFrom queue).mapError fun e =>
    invalidPayload ("invalid queue name: " ++ e.display)

def TypedTask.serialize (task : TypedTask) : Except RepoError Json :=
  task.payload.mapError fun e =>
    .invalidPayload (.serialization ("task payload serialization failed: " ++ e))

/-- The advice of a typed submission without a handler. -/
def TypedTask.registerHint (task : TypedTask) : String :=
  " — call .register::<" ++ task.typeName ++ ">() before .build()"

/-- `{:?}` of a list of texts. -/
def debugList (ss : List String) : String := "[" ++ ", ".intercalate (ss.map debugText) ++ "]"

namespace Engine

variable (e : Engine)

/-- Fail where no handler is registered for the kind. -/
def requireHandler (kind hint : String) : Except RepoError Unit :=
  if kind ∈ e.registry then .ok ()
  else .error (invalidPayload ("no handler registered for kind " ++ debugText kind ++ hint))

def validateRegionAuthorization : Option String → Except RepoError Unit
  | none => .ok ()
  | some r => do
    validateRegion r
    if e.producerConfig.allowedRegions ≠ [] ∧ r ∉ e.producerConfig.allowedRegions then
      .error (invalidPayload ("unauthorized region '" ++ r ++ "'; allowed regions: " ++
        debugList e.producerConfig.allowedRegions))
    else .ok ()

/-- What both raw submissions check of the kind, the attempts and the schedule. -/
def checkRaw (kind : String) (scheduledAt : Option DateTime) (maxAttempts : Option I32) :
    Except RepoError Unit := do
  if kind.isEmpty then .error (invalidPayload "task kind must not be empty")
  e.requireHandler kind ""
  checkSome (fun ma : I32 =>
    if ma.val < 1 then .error (invalidPayload ("max_attempts must be >= 1, got " ++ toString ma.val))
    else .ok ()) maxAttempts
  checkSome validateScheduledAt scheduledAt

/-! ## Entry points -/

variable (id : TaskId) (now : DateTime)

def enqueueInner (queue : String) (task : TypedTask) (scheduledAt : Option DateTime) :
    Except RepoError TaskRecord := do
  e.requireHandler task.kind task.registerHint
  let queueName ← requestedQueue queue
  checkSome validateScheduledAt scheduledAt
  let payload ← task.serialize
  IronDefer.enqueueRaw id now queueName task.kind payload scheduledAt none none none none

def enqueue (queue : String) (task : TypedTask) : Except RepoError TaskRecord :=
  e.enqueueInner id now queue task none

def enqueueAt (queue : String) (task : TypedTask) (scheduledAt : DateTime) :
    Except RepoError TaskRecord :=
  e.enqueueInner id now queue task (some scheduledAt)

def enqueueRaw (queue kind : String) (payload : Json) (scheduledAt : Option DateTime)
    (priority : Option Int) (maxAttempts : Option I32) (traceId region : Option String) :
    Except RepoError TaskRecord := do
  e.validateRegionAuthorization region
  e.checkRaw kind scheduledAt maxAttempts
  let queueName ← requestedQueue queue
  IronDefer.enqueueRaw id now queueName kind payload scheduledAt priority maxAttempts traceId region

def enqueueRawIdempotent (queue kind : String) (payload : Json) (scheduledAt : Option DateTime)
    (priority : Option Int) (maxAttempts : Option I32) (idempotencyKey : String)
    (traceId region : Option String) : Except RepoError TaskRecord := do
  e.validateRegionAuthorization region
  validateIdempotencyKey idempotencyKey
  e.checkRaw kind scheduledAt maxAttempts
  let queueName ← requestedQueue queue
  IronDefer.enqueueRawIdempotent id now queueName kind payload scheduledAt priority maxAttempts
    idempotencyKey e.idempotencyKeyRetention traceId region

def enqueueWithRegion (queue : String) (task : TypedTask) (region : String) :
    Except RepoError TaskRecord := do
  e.validateRegionAuthorization (some region)
  e.requireHandler task.kind task.registerHint
  let payload ← task.serialize
  e.enqueueRaw id now queue task.kind payload none none none none (some region)

def enqueueIdempotent (queue : String) (task : TypedTask) (idempotencyKey : String) :
    Except RepoError TaskRecord := do
  validateIdempotencyKey idempotencyKey
  e.requireHandler task.kind task.registerHint
  let queueName ← requestedQueue queue
  let payload ← task.serialize
  IronDefer.enqueueRawIdempotent id now queueName task.kind payload none none none idempotencyKey
    e.idempotencyKeyRetention none none

/-- Here the region is checked for its form, and not against the list of allowed ones. -/
def enqueueIdempotentWithRegion (queue : String) (task : TypedTask)
    (idempotencyKey region : String) : Except RepoError TaskRecord := do
  validateRegion region
  validateIdempotencyKey idempotencyKey
  e.requireHandler task.kind ""
  let queueName ← requestedQueue queue
  let payload ← task.serialize
  IronDefer.enqueueRawIdempotent id now queueName task.kind payload none none none idempotencyKey
    e.idempotencyKeyRetention none (some region)

/-- Here the region must not be empty, and nothing else is checked of it. -/
def enqueueInTx (queue : String) (task : TypedTask) (region : Option String) :
    Except RepoError TaskRecord := do
  rejectEmptyRegion region
  e.requireHandler task.kind task.registerHint
  let queueName ← requestedQueue queue
  let payload ← task.serialize
  IronDefer.enqueueInTx id now queueName task.kind payload none region

/-- Here the region must not be empty, and nothing else is checked of it. -/
def enqueueInTxIdempotent (queue : String) (task : TypedTask) (idempotencyKey : String)
    (region : Option String) : Except RepoError TaskRecord := do
  validateIdempotencyKey idempotencyKey
  rejectEmptyRegion region
  e.requireHandler task.kind task.registerHint
  let queueName ← requestedQueue queue
  let payload ← task.serialize
  IronDefer.enqueueInTxIdempotent id now queueName task.kind payload none idempotencyKey
    e.idempotencyKeyRetention region

end Engine

/-! ## The entry points as values -/

/-- The submissions to an engine. -/
inductive Submission where
  | enqueue (queue : String) (task : TypedTask)
  | enqueueAt (queue : String) (task : TypedTask) (scheduledAt : DateTime)
  | enqueueWithRegion (queue : String) (task : TypedTask) (region : String)
  | enqueueIdempotent (queue : String) (task : TypedTask) (idempotencyKey : String)
  | enqueueIdempotentWithRegion (queue : String) (task : TypedTask)
      (idempotencyKey region : String)
  | enqueueInTx (queue : String) (task : TypedTask) (region : Option String)
  | enqueueInTxIdempotent (queue : String) (task : TypedTask) (idempotencyKey : String)
      (region : Option String)
  | enqueueRaw (queue kind : String) (payload : Json) (scheduledAt : Option DateTime)
      (priority : Option Int) (maxAttempts : Option I32) (traceId region : Option String)
  | enqueueRawIdempotent (queue kind : String) (payload : Json) (scheduledAt : Option DateTime)
      (priority : Option Int) (maxAttempts : Option I32) (idempotencyKey : String)
      (traceId region : Option String)

/-- The record a submission hands to the repository. -/
def Engine.submit (e : Engine) (id : TaskId) (now : DateTime) :
    Submission → Except RepoError TaskRecord
  | .enqueue queue task => e.enqueue id now queue task
  | .enqueueAt queue task scheduledAt => e.enqueueAt id now queue task scheduledAt
  | .enqueueWithRegion queue task region => e.enqueueWithRegion id now queue task region
  | .enqueueIdempotent queue task idempotencyKey =>
    e.enqueueIdempotent id now queue task idempotencyKey
  | .enqueueIdempotentWithRegion queue task idempotencyKey region =>
    e.enqueueIdempotentWithRegion id now queue task idempotencyKey region
  | .enqueueInTx queue task region => e.enqueueInTx id now queue task region
  | .enqueueInTxIdempotent queue task idempotencyKey region =>
    e.enqueueInTxIdempotent id now queue task idempotencyKey region
  | .enqueueRaw queue kind payload scheduledAt priority maxAttempts traceId region =>
    e.enqueueRaw id now queue kind payload scheduledAt priority maxAttempts traceId region
  | .enqueueRawIdempotent queue kind payload scheduledAt priority maxAttempts idempotencyKey traceId
      region =>
    e.enqueueRawIdempotent id now queue kind payload scheduledAt priority maxAttempts idempotencyKey
      traceId region

/-- The operation on the repository a submission makes of its record; the two inside a transaction
of the caller are calls of one that the caller commits or rolls back. -/
inductive Submission.Saves : Submission → TaskRecord → Op → Prop
  | enqueue {queue task record} : Saves (.enqueue queue task) record (.save record)
  | enqueueAt {queue task scheduledAt record} :
      Saves (.enqueueAt queue task scheduledAt) record (.save record)
  | enqueueWithRegion {queue task region record} :
      Saves (.enqueueWithRegion queue task region) record (.save record)
  | enqueueIdempotent {queue task key record} :
      Saves (.enqueueIdempotent queue task key) record (.saveIdempotent record)
  | enqueueIdempotentWithRegion {queue task key region record} :
      Saves (.enqueueIdempotentWithRegion queue task key region) record (.saveIdempotent record)
  | enqueueInTx {queue task region record calls commit} : .saveInTx record ∈ calls →
      Saves (.enqueueInTx queue task region) record (.inTx calls commit)
  | enqueueInTxIdempotent {queue task key region record calls commit} :
      .saveIdempotentInTx record ∈ calls →
      Saves (.enqueueInTxIdempotent queue task key region) record (.inTx calls commit)
  | enqueueRaw {queue kind payload scheduledAt priority maxAttempts traceId region record} :
      Saves (.enqueueRaw queue kind payload scheduledAt priority maxAttempts traceId region) record
        (.save record)
  | enqueueRawIdempotent {queue kind payload scheduledAt priority maxAttempts key traceId region
      record} :
      Saves (.enqueueRawIdempotent queue kind payload scheduledAt priority maxAttempts key traceId
        region) record (.saveIdempotent record)

/-! ## What has been checked -/

/-- A submission has passed its checks: the region as far as its entry point authorizes it, and then
the scheduler's function it ends in. -/
inductive Engine.Submitted (e : Engine) (id : TaskId) (now : DateTime) (record : TaskRecord) :
    Submission → Prop
  | enqueue {queue task name payload} :
      IronDefer.enqueueRaw id now name task.kind payload none none none none none = .ok record →
      Submitted e id now record (.enqueue queue task)
  | enqueueAt {queue task scheduledAt name payload} :
      IronDefer.enqueueRaw id now name task.kind payload (some scheduledAt) none none none none =
        .ok record → Submitted e id now record (.enqueueAt queue task scheduledAt)
  | enqueueWithRegion {queue task region name payload} :
      e.validateRegionAuthorization (some region) = .ok () →
      IronDefer.enqueueRaw id now name task.kind payload none none none none (some region) =
        .ok record → Submitted e id now record (.enqueueWithRegion queue task region)
  | enqueueIdempotent {queue task key name payload} :
      IronDefer.enqueueRawIdempotent id now name task.kind payload none none none key
        e.idempotencyKeyRetention none none = .ok record →
      Submitted e id now record (.enqueueIdempotent queue task key)
  | enqueueIdempotentWithRegion {queue task key region name payload} :
      IronDefer.enqueueRawIdempotent id now name task.kind payload none none none key
        e.idempotencyKeyRetention none (some region) = .ok record →
      Submitted e id now record (.enqueueIdempotentWithRegion queue task key region)
  | enqueueInTx {queue task region name payload} :
      IronDefer.enqueueInTx id now name task.kind payload none region = .ok record →
      Submitted e id now record (.enqueueInTx queue task region)
  | enqueueInTxIdempotent {queue task key region name payload} :
      IronDefer.enqueueInTxIdempotent id now name task.kind payload none key
        e.idempotencyKeyRetention region = .ok record →
      Submitted e id now record (.enqueueInTxIdempotent queue task key region)
  | enqueueRaw {queue kind payload scheduledAt priority maxAttempts traceId region name} :
      e.validateRegionAuthorization region = .ok () →
      IronDefer.enqueueRaw id now name kind payload scheduledAt priority maxAttempts traceId region =
        .ok record →
      Submitted e id now record
        (.enqueueRaw queue kind payload scheduledAt priority maxAttempts traceId region)
  | enqueueRawIdempotent {queue kind payload scheduledAt priority maxAttempts key traceId region
      name} :
      e.validateRegionAuthorization region = .ok () →
      IronDefer.enqueueRawIdempotent id now name kind payload scheduledAt priority maxAttempts key
        e.idempotencyKeyRetention traceId region = .ok record →
      Submitted e id now record
        (.enqueueRawIdempotent queue kind payload scheduledAt priority maxAttempts key traceId region)

theorem Engine.submitted_of_raw {e : Engine} {id : TaskId} {now : DateTime} {queue kind : String}
    {payload : Json} {scheduledAt : Option DateTime} {priority : Option Int}
    {maxAttempts : Option I32} {traceId region : Option String} {record : TaskRecord}
    (h : e.enqueueRaw id now queue kind payload scheduledAt priority maxAttempts traceId region =
      .ok record) :
    e.validateRegionAuthorization region = .ok () ∧ ∃ name, IronDefer.enqueueRaw id now name kind
      payload scheduledAt priority maxAttempts traceId region = .ok record := by
  obtain ⟨_, hauth, h⟩ := exists_of_bind_ok h
  obtain ⟨_, -, h⟩ := exists_of_bind_ok h
  obtain ⟨name, -, h⟩ := exists_of_bind_ok h
  exact ⟨hauth, name, h⟩

/-- What most entry points end with: they look for a handler, check the queue's name, and serialize
the payload. -/
theorem Engine.exists_of_prepared {e : Engine} {queue hint : String} {task : TypedTask}
    {submit : QueueName → Json → Except RepoError TaskRecord} {record : TaskRecord}
    (h : (do
      e.requireHandler task.kind hint
      let queueName ← requestedQueue queue
      let payload ← task.serialize
      submit queueName payload) = .ok record) :
    ∃ name payload, submit name payload = .ok record := by
  obtain ⟨_, -, h⟩ := exists_of_bind_ok h
  obtain ⟨name, -, h⟩ := exists_of_bind_ok h
  obtain ⟨payload, -, h⟩ := exists_of_bind_ok h
  exact ⟨name, payload, h⟩

theorem Engine.submitted_of_inner {e : Engine} {id : TaskId} {now : DateTime} {queue : String}
    {task : TypedTask} {scheduledAt : Option DateTime} {record : TaskRecord}
    (h : e.enqueueInner id now queue task scheduledAt = .ok record) :
    ∃ name payload, IronDefer.enqueueRaw id now name task.kind payload scheduledAt none none none none =
      .ok record := by
  obtain ⟨_, -, h⟩ := exists_of_bind_ok h
  obtain ⟨name, -, h⟩ := exists_of_bind_ok h
  obtain ⟨_, -, h⟩ := exists_of_bind_ok h
  obtain ⟨payload, -, h⟩ := exists_of_bind_ok h
  exact ⟨name, payload, h⟩

theorem Engine.submitted_of_submit {e : Engine} {id : TaskId} {now : DateTime} {s : Submission}
    {record : TaskRecord} (h : e.submit id now s = .ok record) : e.Submitted id now record s := by
  -- every entry point has checked its arguments before it calls the scheduler
  cases s with
  | enqueue =>
    obtain ⟨_, _, h⟩ := submitted_of_inner h
    exact .enqueue h
  | enqueueAt =>
    obtain ⟨_, _, h⟩ := submitted_of_inner h
    exact .enqueueAt h
  | enqueueWithRegion =>
    obtain ⟨_, -, h⟩ := exists_of_bind_ok h
    obtain ⟨_, -, h⟩ := exists_of_bind_ok h
    obtain ⟨_, -, h⟩ := exists_of_bind_ok h
    obtain ⟨hauth, _, h⟩ := submitted_of_raw h
    exact .enqueueWithRegion hauth h
  | enqueueIdempotent =>
    obtain ⟨_, -, h⟩ := exists_of_bind_ok h
    obtain ⟨_, _, h⟩ := exists_of_prepared h
    exact .enqueueIdempotent h
  | enqueueIdempotentWithRegion =>
    obtain ⟨_, -, h⟩ := exists_of_bind_ok h
    obtain ⟨_, -, h⟩ := exists_of_bind_ok h
    obtain ⟨_, _, h⟩ := exists_of_prepared h
    exact .enqueueIdempotentWithRegion h
  | enqueueInTx =>
    obtain ⟨_, -, h⟩ := exists_of_bind_ok h
    obtain ⟨_, _, h⟩ := exists_of_prepared h
    exact .enqueueInTx h
  | enqueueInTxIdempotent =>
    obtain ⟨_, -, h⟩ := exists_of_bind_ok h
    obtain ⟨_, -, h⟩ := exists_of_bind_ok h
    obtain ⟨_, _, h⟩ := exists_of_prepared h
    exact .enqueueInTxIdempotent h
  | enqueueRaw =>
    obtain ⟨hauth, _, h⟩ := submitted_of_raw h
    exact .enqueueRaw hauth h
  | enqueueRawIdempotent =>
    obtain ⟨_, hauth, h⟩ := exists_of_bind_ok h
    obtain ⟨_, -, h⟩ := exists_of_bind_ok h
    obtain ⟨_, -, h⟩ := exists_of_bind_ok h
    obtain ⟨_, -, h⟩ := exists_of_bind_ok h
    exact .enqueueRawIdempotent hauth h

/-- **What an entry point submits, the scheduler has built.** -/
theorem Engine.submit_enqueued {e : Engine} {id : TaskId} {now : DateTime} {s : Submission}
    {record : TaskRecord} (h : e.submit id now s = .ok record) : Enqueued record := by
  cases submitted_of_submit h with
  | enqueue hraw | enqueueAt hraw | enqueueWithRegion _ hraw | enqueueRaw _ hraw =>
    exact ⟨now, 0, .raw hraw⟩
  | enqueueIdempotent hraw | enqueueIdempotentWithRegion hraw | enqueueRawIdempotent _ hraw =>
    exact ⟨now, _, .rawIdempotent hraw⟩
  | enqueueInTx htx => exact ⟨now, 0, .inTx htx⟩
  | enqueueInTxIdempotent htx => exact ⟨now, _, .inTxIdempotent htx⟩

end IronDefer
