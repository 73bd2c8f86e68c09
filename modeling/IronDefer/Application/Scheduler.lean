import IronDefer.Infrastructure.Effects

/-!
# The scheduler

The records the scheduler builds for the engine's enqueue functions, before it hands them to the
repository. `id` is the fresh identifier and `now` the program's clock.

## Main definitions

* `idempotencyExpiresAt`: when the key of a submission may be cleaned up
* `enqueueRaw`, `enqueueRawIdempotent`, `enqueueInTx`, `enqueueInTxIdempotent`: the record of a
  submission
* `Enqueued`, `EnqueuedAt`: the records the scheduler builds
* `Op.Enqueues`: the operations that insert no other tasks

## Main results

* `Enqueued.fresh`: a record the scheduler builds is pending, unclaimed and has no attempts
* `EnqueuedAt.expires`: its key expires the retention after its creation
-/

namespace IronDefer

def invalidPayload (message : String) : RepoError := .invalidPayload (.validation message)

def rejectEmptyRegion (region : Option String) : Except RepoError Unit :=
  if region = some "" then .error (invalidPayload "region label must not be empty") else .ok ()

/-- `chrono::Duration::MAX`, in nanoseconds. -/
def maxDelta : ℕ := 9223372036854775807000000

/-- The instant at which the key of a submission expires: the retention after the submission. -/
def idempotencyExpiresAt (now : DateTime) (retention : Duration) : Except RepoError DateTime :=
  if maxDelta < retention then
    .error (invalidPayload ("invalid idempotency retention duration: " ++
      "Source duration value is out of range for the target type"))
  else if maxDateTime < now + retention then
    .error (invalidPayload "idempotency retention duration causes overflow")
  else .ok (now + retention)

/-- The record every submission builds: pending, without attempts, claim or suspension. -/
def newTask (id : TaskId) (now : DateTime) (queue : QueueName) (kind : TaskKind) (payload : Json)
    (priority : Priority) (maxAttempts : MaxAttempts) (scheduledAt : DateTime)
    (idempotency : Option (String × DateTime)) (traceId region : Option String) : TaskRecord where
  id
  queue
  kind
  payload
  status := .pending
  priority
  attempts := .zero
  maxAttempts
  lastError := none
  scheduledAt
  claimedBy := none
  claimedUntil := none
  createdAt := now
  updatedAt := now
  idempotencyKey := idempotency.map Prod.fst
  idempotencyExpiresAt := idempotency.map Prod.snd
  traceId
  checkpoint := none
  suspendedAt := none
  signalPayload := none
  region

def requestedMaxAttempts (maxAttempts : Option I32) : Except RepoError MaxAttempts :=
  match maxAttempts with
  | none => .ok .default
  | some v => (MaxAttempts.new v).mapError fun _ =>
      invalidPayload ("invalid max_attempts: max_attempts must be >= 1, got " ++ toString v.val)

def requestedKind (kind message : String) : Except RepoError TaskKind :=
  (TaskKind.tryFrom kind).mapError fun _ => invalidPayload message

def enqueueRaw (id : TaskId) (now : DateTime) (queue : QueueName) (kind : String) (payload : Json)
    (scheduledAt : Option DateTime) (priority : Option Int) (maxAttempts : Option I32)
    (traceId region : Option String) : Except RepoError TaskRecord := do
  rejectEmptyRegion region
  let max ← requestedMaxAttempts maxAttempts
  let kind ← requestedKind kind "task kind must not be empty"
  return newTask id now queue kind payload ⟨priority.getD Priority.default.get⟩ max
    (scheduledAt.getD now) none traceId region

def enqueueRawIdempotent (id : TaskId) (now : DateTime) (queue : QueueName) (kind : String)
    (payload : Json) (scheduledAt : Option DateTime) (priority : Option Int)
    (maxAttempts : Option I32) (idempotencyKey : String) (retention : Duration)
    (traceId region : Option String) : Except RepoError TaskRecord := do
  rejectEmptyRegion region
  let expiresAt ← idempotencyExpiresAt now retention
  let max ← requestedMaxAttempts maxAttempts
  let kind ← requestedKind kind "task kind must not be empty"
  return newTask id now queue kind payload ⟨priority.getD Priority.default.get⟩ max
    (scheduledAt.getD now) (some (idempotencyKey, expiresAt)) traceId region

def enqueueInTx (id : TaskId) (now : DateTime) (queue : QueueName) (kind : String) (payload : Json)
    (scheduledAt : Option DateTime) (region : Option String) : Except RepoError TaskRecord := do
  rejectEmptyRegion region
  let kind ← requestedKind kind "Task kind \"\" must be non-empty"
  return newTask id now queue kind payload .default .default (scheduledAt.getD now) none none region

def enqueueInTxIdempotent (id : TaskId) (now : DateTime) (queue : QueueName) (kind : String)
    (payload : Json) (scheduledAt : Option DateTime) (idempotencyKey : String)
    (retention : Duration) (region : Option String) : Except RepoError TaskRecord := do
  rejectEmptyRegion region
  let expiresAt ← idempotencyExpiresAt now retention
  let kind ← requestedKind kind "Task kind \"\" must be non-empty"
  return newTask id now queue kind payload .default .default (scheduledAt.getD now)
    (some (idempotencyKey, expiresAt)) none region

/-! ## The records -/

section Region

variable {id : TaskId} {now : DateTime} {queue : QueueName} {kind : String} {payload : Json}
  {scheduledAt : Option DateTime} {priority : Option Int} {maxAttempts : Option I32}
  {idempotencyKey : String} {retention : Duration} {traceId region : Option String}
  {task : TaskRecord}

theorem enqueueRaw_region (h : enqueueRaw id now queue kind payload scheduledAt priority maxAttempts
    traceId region = .ok task) : task.region = region := by
  obtain ⟨_, -, h⟩ := exists_of_bind_ok h
  obtain ⟨_, -, h⟩ := exists_of_bind_ok h
  obtain ⟨_, -, h⟩ := exists_of_bind_ok h
  cases h
  rfl

theorem enqueueRawIdempotent_region (h : enqueueRawIdempotent id now queue kind payload scheduledAt
    priority maxAttempts idempotencyKey retention traceId region = .ok task) :
    task.region = region := by
  obtain ⟨_, -, h⟩ := exists_of_bind_ok h
  obtain ⟨_, -, h⟩ := exists_of_bind_ok h
  obtain ⟨_, -, h⟩ := exists_of_bind_ok h
  obtain ⟨_, -, h⟩ := exists_of_bind_ok h
  cases h
  rfl

theorem enqueueInTx_region (h : enqueueInTx id now queue kind payload scheduledAt region =
    .ok task) : task.region = region := by
  obtain ⟨_, -, h⟩ := exists_of_bind_ok h
  obtain ⟨_, -, h⟩ := exists_of_bind_ok h
  cases h
  rfl

theorem enqueueInTxIdempotent_region (h : enqueueInTxIdempotent id now queue kind payload
    scheduledAt idempotencyKey retention region = .ok task) : task.region = region := by
  obtain ⟨_, -, h⟩ := exists_of_bind_ok h
  obtain ⟨_, -, h⟩ := exists_of_bind_ok h
  obtain ⟨_, -, h⟩ := exists_of_bind_ok h
  cases h
  rfl

end Region

/-- The records the scheduler builds, with the program's clock and the retention they are built
with. -/
inductive EnqueuedAt (now : DateTime) (retention : Duration) : TaskRecord → Prop
  | raw {id queue kind payload scheduledAt priority maxAttempts traceId region task} :
      enqueueRaw id now queue kind payload scheduledAt priority maxAttempts traceId region =
        .ok task → EnqueuedAt now retention task
  | rawIdempotent {id queue kind payload scheduledAt priority maxAttempts idempotencyKey traceId
      region task} :
      enqueueRawIdempotent id now queue kind payload scheduledAt priority maxAttempts
        idempotencyKey retention traceId region = .ok task → EnqueuedAt now retention task
  | inTx {id queue kind payload scheduledAt region task} :
      enqueueInTx id now queue kind payload scheduledAt region = .ok task →
        EnqueuedAt now retention task
  | inTxIdempotent {id queue kind payload scheduledAt idempotencyKey region task} :
      enqueueInTxIdempotent id now queue kind payload scheduledAt idempotencyKey retention region =
        .ok task → EnqueuedAt now retention task

/-- The records the scheduler builds. -/
def Enqueued (task : TaskRecord) : Prop := ∃ now retention, EnqueuedAt now retention task

/-- An operation inserts only records the scheduler has built. -/
def Op.Enqueues (op : Op) : Prop := ∀ task ∈ op.tasks, Enqueued task

/-- A task nobody has worked on. -/
structure Fresh (task : TaskRecord) : Prop where
  status : task.status = .pending
  attempts : task.attempts = .zero
  lastError : task.lastError = none
  claimedBy : task.claimedBy = none
  claimedUntil : task.claimedUntil = none
  checkpoint : task.checkpoint = none
  suspendedAt : task.suspendedAt = none
  signalPayload : task.signalPayload = none

theorem fresh_newTask
    (id now queue kind payload priority maxAttempts scheduledAt idempotency traceId
    region) : Fresh (newTask id now queue kind payload priority maxAttempts scheduledAt idempotency
      traceId region) :=
  ⟨rfl, rfl, rfl, rfl, rfl, rfl, rfl, rfl⟩

theorem idempotencyExpiresAt_eq {now : DateTime} {retention : Duration} {e : DateTime}
    (h : idempotencyExpiresAt now retention = .ok e) : e = now + retention := by
  unfold idempotencyExpiresAt at h
  split at h
  · cases h
  · split at h <;> cases h
    rfl

/-- Every submission builds its record the same way; its key, if it has one, expires the retention
after the submission. -/
theorem EnqueuedAt.eq_newTask {now : DateTime} {retention : Duration} {task : TaskRecord}
    (h : EnqueuedAt now retention task) :
    ∃ id queue kind payload priority maxAttempts scheduledAt idempotency traceId region,
      task = newTask id now queue kind payload priority maxAttempts scheduledAt idempotency traceId
        region ∧ ∀ k e, idempotency = some (k, e) → e = now + retention := by
  -- past the checks, the four functions end in the same record
  cases h with
  | raw h =>
    obtain ⟨-, -, h⟩ := exists_of_bind_ok h
    obtain ⟨max, -, h⟩ := exists_of_bind_ok h
    obtain ⟨kind, -, h⟩ := exists_of_bind_ok h
    cases h
    exact ⟨_, _, _, _, _, _, _, _, _, _, rfl, by simp⟩
  | rawIdempotent h =>
    obtain ⟨-, -, h⟩ := exists_of_bind_ok h
    obtain ⟨expiresAt, he, h⟩ := exists_of_bind_ok h
    obtain ⟨max, -, h⟩ := exists_of_bind_ok h
    obtain ⟨kind, -, h⟩ := exists_of_bind_ok h
    cases h
    refine ⟨_, _, _, _, _, _, _, _, _, _, rfl, ?_⟩
    rintro k e ⟨⟩
    exact idempotencyExpiresAt_eq he
  | inTx h =>
    obtain ⟨-, -, h⟩ := exists_of_bind_ok h
    obtain ⟨kind, -, h⟩ := exists_of_bind_ok h
    cases h
    exact ⟨_, _, _, _, _, _, _, _, _, _, rfl, by simp⟩
  | inTxIdempotent h =>
    obtain ⟨-, -, h⟩ := exists_of_bind_ok h
    obtain ⟨expiresAt, he, h⟩ := exists_of_bind_ok h
    obtain ⟨kind, -, h⟩ := exists_of_bind_ok h
    cases h
    refine ⟨_, _, _, _, _, _, _, _, _, _, rfl, ?_⟩
    rintro k e ⟨⟩
    exact idempotencyExpiresAt_eq he

/-- **A record the scheduler builds is fresh.** -/
theorem Enqueued.fresh {task : TaskRecord} (h : Enqueued task) : Fresh task := by
  obtain ⟨now, retention, h⟩ := h
  obtain ⟨_, _, _, _, _, _, _, _, _, _, rfl, -⟩ := h.eq_newTask
  exact fresh_newTask ..

/-- What a record the scheduler builds has for an expiry is the retention after the submission. -/
theorem EnqueuedAt.expires {now : DateTime} {retention : Duration} {task : TaskRecord}
    (h : EnqueuedAt now retention task) {e : DateTime} (he : task.idempotencyExpiresAt = some e) :
    e = now + retention := by
  obtain ⟨_, _, _, _, _, _, _, idempotency, _, _, rfl, hexp⟩ := h.eq_newTask
  obtain ⟨⟨k, e'⟩, hke, rfl⟩ := Option.map_eq_some_iff.mp he
  exact hexp k e' hke

/-! ## A sample -/

def sampleQueue : QueueName := ⟨"default", by decide⟩

def sampleKind : TaskKind := ⟨"email", by decide⟩

def sampleJson : Json := ⟨"null"⟩

/-- A single attempt. -/
def singleAttempt : MaxAttempts := ⟨⟨1, by decide, by decide⟩, by decide⟩

/-- A submission that may be attempted `maxAttempts` times. -/
def sampleTask (maxAttempts : MaxAttempts) : TaskRecord :=
  newTask ⟨1⟩ 0 sampleQueue sampleKind sampleJson .default maxAttempts 0 none none none

theorem enqueued_sampleTask (maxAttempts : MaxAttempts) : Enqueued (sampleTask maxAttempts) := by
  have hmax : requestedMaxAttempts (some maxAttempts.get) = .ok maxAttempts := by
    simp [requestedMaxAttempts, Except.mapError]
  have h : enqueueRaw ⟨1⟩ 0 sampleQueue "email" sampleJson none none (some maxAttempts.get) none
      none = .ok (sampleTask maxAttempts) := by
    simp only [enqueueRaw, hmax]
    rfl
  exact ⟨0, 0, .raw h⟩

/-- A submission with an idempotency key that is retained for one hour. -/
def sampleKeyed (uuid : ℕ) : TaskRecord :=
  newTask ⟨uuid⟩ 0 sampleQueue sampleKind sampleJson .default .default 0
    (some ("key", 3600000000000)) none none

theorem enqueuedAt_sampleKeyed (uuid : ℕ) : EnqueuedAt 0 3600000000000 (sampleKeyed uuid) :=
  have h : enqueueRawIdempotent ⟨uuid⟩ 0 sampleQueue "email" sampleJson none none none "key"
      3600000000000 none none = .ok (sampleKeyed uuid) := rfl
  .rawIdempotent h

def sampleWorker : WorkerId := ⟨7⟩

/-- A call on a repository without audit log. -/
def callOf (op : Op) : Call := ⟨false, op, none⟩

/-- The task is submitted and claimed, for one second. -/
def claimedMoves (maxAttempts : MaxAttempts) : List Move :=
  serve 1 (callOf (.save (sampleTask maxAttempts))) 0 [.all] ++
  serve 2 (callOf (.claimNext sampleQueue sampleWorker 1000000000 none)) 10 [.all]

end IronDefer
