import IronDefer.Infrastructure.Postgres

/-!
# Rows on the wire

How a task is spread over the columns of its table, and read from them again. An insert names its
columns and binds their values by position; a row that is fetched is read by the names of its
columns, into one of three row types. The row of a listing has the total as well, and in the row of
a cancellation every column may be `NULL`. All three are turned into the same row type, field by
field, and this one is decoded.

A column is fetched as it was stored: a `JSONB` value is the value, and an instant is in
microseconds.

## Main definitions

* `Column`, `Value`, `Stored`: the columns of the tasks table, and what it stores in them
* `insertColumns`, `insertBinds`, `insertInto`: the insert the saving operations share
* `select`, `selectWithCount`, `selectCancelled`: the rows queries return
* `TaskRow`, `TaskRowWithCount`, `CancelRow`: the rows they are read into
* `decode`, `decodeListed`, `decodeCancelled`: the three ways to a record

## Main results

* `fromRow_select`, `fromRow_selectWithCount`: what is stored is fetched as the row it has been
  stored for, and as no other
* `decoders_agree`: **the three ways lead to the same record, or all fail**
* `insertInto_eq`, `decode_stored`: the database model inserts and decodes the same
-/

namespace IronDefer.Wire

/-! ## Columns -/

/-- The columns of the tasks table. -/
inductive Column where
  | id
  | queue
  | kind
  | payload
  | status
  | priority
  | attempts
  | maxAttempts
  | lastError
  | scheduledAt
  | claimedBy
  | claimedUntil
  | createdAt
  | updatedAt
  | idempotencyKey
  | idempotencyExpiresAt
  | traceId
  | checkpoint
  | suspendedAt
  | signalPayload
  | region
  deriving DecidableEq, Repr

/-- The values of a column, by its type. -/
inductive Value where
  | uuid (value : ℕ)
  | text (value : String)
  | jsonb (value : Json)
  | smallint (value : Int)
  | integer (value : I32)
  | bigint (value : Int)
  | boolean (value : Bool)
  | timestamptz (value : Timestamp)
  deriving DecidableEq

/-- What the table stores of a row: the value in each column, or `NULL`. -/
abbrev Stored := Column → Option Value

/-- The columns in the order of the table. -/
def tableColumns : List Column :=
  [.id, .queue, .kind, .payload, .status, .priority, .attempts, .maxAttempts, .lastError,
    .scheduledAt, .claimedBy, .claimedUntil, .createdAt, .updatedAt, .idempotencyKey,
    .idempotencyExpiresAt, .traceId, .checkpoint, .suspendedAt, .signalPayload, .region]

/-! ## Inserting -/

/-- The columns the inserts name; the same in `save`, `save_idempotent` and their variants inside a
transaction. -/
def insertColumns : List Column :=
  [.id, .queue, .kind, .payload, .status, .priority,
    .attempts, .maxAttempts, .lastError,
    .scheduledAt, .claimedBy, .claimedUntil,
    .idempotencyKey, .idempotencyExpiresAt, .traceId,
    .checkpoint, .suspendedAt, .signalPayload,
    .region]

/-- The parameters the inserts bind, from `$1` to `$19`. -/
def insertBinds (task : TaskRecord) (lastErrorCapped : Option String) : List (Option Value) :=
  [some (.uuid task.id.uuid),
    some (.text task.queue.asStr),
    some (.text task.kind.asStr),
    some (.jsonb task.payload),
    some (.text (statusToStr task.status)),
    some (.smallint task.priority.get),
    some (.integer task.attempts.get),
    some (.integer task.maxAttempts.get),
    lastErrorCapped.map .text,
    some (.timestamptz (DateTime.toTimestamp task.scheduledAt)),
    (task.claimedBy.map WorkerId.uuid).map .uuid,
    (task.claimedUntil.map DateTime.toTimestamp).map .timestamptz,
    task.idempotencyKey.map .text,
    (task.idempotencyExpiresAt.map DateTime.toTimestamp).map .timestamptz,
    task.traceId.map .text,
    task.checkpoint.map .jsonb,
    (task.suspendedAt.map DateTime.toTimestamp).map .timestamptz,
    task.signalPayload.map .jsonb,
    task.region.map .text]

/-- The defaults of the columns an insert does not name. -/
def columnDefault (now : Timestamp) : Stored
  | .createdAt | .updatedAt => some (.timestamptz now)
  | _ => none

/-- `INSERT INTO tasks (..) VALUES (..)`: each named column has the value bound at its position. -/
def insertInto (now : Timestamp) (columns : List Column) (binds : List (Option Value)) : Stored :=
  fun c => ((columns.zip binds).lookup c).getD (columnDefault now c)

/-! ## Rows of a result -/

/-- The name of a column in the result of a query. -/
inductive Label where
  | column (c : Column)
  | totalCount
  | originalStatus
  | wasCancelled
  | taskExists
  deriving DecidableEq, Repr

/-- A row in the result of a query. -/
abbrev Result := List (Label × Option Value)

/-- `SELECT *`, and `RETURNING *`. -/
def select (r : Stored) : Result := tableColumns.map fun c => (.column c, r c)

/-- `SELECT *, COUNT(*) OVER() AS total_count`. -/
def selectWithCount (r : Stored) (count : ℕ) : Result :=
  select r ++ [(.totalCount, some (.bigint count))]

/-- The columns the cancel statement selects from the row its update has returned. -/
def cancelColumns : List Column :=
  [.id, .queue, .kind, .payload, .status, .priority,
    .attempts, .maxAttempts, .lastError,
    .scheduledAt, .claimedBy, .claimedUntil,
    .createdAt, .updatedAt,
    .idempotencyKey, .idempotencyExpiresAt,
    .traceId, .checkpoint,
    .suspendedAt, .signalPayload,
    .region]

/-- The `SELECT` of the cancel statement: `cancelled` is the row its update has returned, and `task`
the one that is joined where it has returned none. -/
def selectCancelled (cancelled task : Option Stored) : Result :=
  (cancelColumns.map fun c => (.column c, cancelled.bind (· c))) ++
    [(.originalStatus, task.bind (· .status)),
      (.wasCancelled, some (.boolean (cancelled.bind (· .id)).isSome)),
      (.taskExists, some (.boolean (task.bind (· .id)).isSome))]

/-! ## Reading a row -/

/-- A type that columns are read as: the values of one constructor. -/
structure SqlType (α : Type) where
  encode : α → Value
  decode : Value → Option α
  decode_eq_some : ∀ v x, decode v = some x ↔ v = encode x

namespace SqlType

def uuid : SqlType ℕ where
  encode := .uuid
  decode | .uuid value => some value | _ => none
  decode_eq_some v x := by cases v <;> simp

def text : SqlType String where
  encode := .text
  decode | .text value => some value | _ => none
  decode_eq_some v x := by cases v <;> simp

def jsonb : SqlType Json where
  encode := .jsonb
  decode | .jsonb value => some value | _ => none
  decode_eq_some v x := by cases v <;> simp

def smallint : SqlType Int where
  encode := .smallint
  decode | .smallint value => some value | _ => none
  decode_eq_some v x := by cases v <;> simp

def integer : SqlType I32 where
  encode := .integer
  decode | .integer value => some value | _ => none
  decode_eq_some v x := by cases v <;> simp

def bigint : SqlType Int where
  encode := .bigint
  decode | .bigint value => some value | _ => none
  decode_eq_some v x := by cases v <;> simp

def boolean : SqlType Bool where
  encode := .boolean
  decode | .boolean value => some value | _ => none
  decode_eq_some v x := by cases v <;> simp

def timestamptz : SqlType Timestamp where
  encode := .timestamptz
  decode | .timestamptz value => some value | _ => none
  decode_eq_some v x := by cases v <;> simp

end SqlType

section Reading

variable {α : Type} (type : SqlType α) (row : Result) (label : Label)

/-- Read a column by its name: none where there is no such column, it is `NULL`, or it has another
type. -/
def tryGet : Option α := do
  let value ← row.lookup label
  type.decode (← value)

/-- Read a column that may be `NULL`. -/
def tryGetOption : Option (Option α) := do
  match ← row.lookup label with
  | none => return none
  | some value => return some (← type.decode value)

variable {type row label}

theorem tryGet_eq_some {x : α} :
    tryGet type row label = some x ↔ row.lookup label = some (some (type.encode x)) := by
  unfold tryGet
  cases row.lookup label with
  | none => simp
  | some value =>
    cases value with
    | none => simp
    | some v => simp [type.decode_eq_some]

theorem tryGetOption_eq_some {x : Option α} :
    tryGetOption type row label = some x ↔ row.lookup label = some (x.map type.encode) := by
  unfold tryGetOption
  cases row.lookup label with
  | none => simp
  | some value =>
    cases value with
    | none => cases x <;> simp
    | some v => cases x <;> simp [Option.bind_eq_some_iff, type.decode_eq_some]

theorem bind_tryGet {β : Type} {x : α} {y : β} {f : α → Option β}
    (h : row.lookup label = some (some (type.encode x))) (hf : f x = some y) :
    (tryGet type row label >>= f) = some y :=
  Option.bind_eq_some_iff.mpr ⟨x, tryGet_eq_some.mpr h, hf⟩

theorem bind_tryGetOption {β : Type} {x : Option α} {y : β} {f : Option α → Option β}
    (h : row.lookup label = some (x.map type.encode)) (hf : f x = some y) :
    (tryGetOption type row label >>= f) = some y :=
  Option.bind_eq_some_iff.mpr ⟨x, tryGetOption_eq_some.mpr h, hf⟩

end Reading

/-- The row type the queries for tasks are read into. -/
structure TaskRow where
  id : ℕ
  queue : String
  kind : String
  payload : Json
  status : String
  priority : Int
  attempts : I32
  maxAttempts : I32
  lastError : Option String
  scheduledAt : Timestamp
  claimedBy : Option ℕ
  claimedUntil : Option Timestamp
  createdAt : Timestamp
  updatedAt : Timestamp
  idempotencyKey : Option String
  idempotencyExpiresAt : Option Timestamp
  traceId : Option String
  checkpoint : Option Json
  suspendedAt : Option Timestamp
  signalPayload : Option Json
  region : Option String

def TaskRow.fromRow (row : Result) : Option TaskRow := do
  let id ← tryGet SqlType.uuid row (.column .id)
  let queue ← tryGet SqlType.text row (.column .queue)
  let kind ← tryGet SqlType.text row (.column .kind)
  let payload ← tryGet SqlType.jsonb row (.column .payload)
  let status ← tryGet SqlType.text row (.column .status)
  let priority ← tryGet SqlType.smallint row (.column .priority)
  let attempts ← tryGet SqlType.integer row (.column .attempts)
  let maxAttempts ← tryGet SqlType.integer row (.column .maxAttempts)
  let lastError ← tryGetOption SqlType.text row (.column .lastError)
  let scheduledAt ← tryGet SqlType.timestamptz row (.column .scheduledAt)
  let claimedBy ← tryGetOption SqlType.uuid row (.column .claimedBy)
  let claimedUntil ← tryGetOption SqlType.timestamptz row (.column .claimedUntil)
  let createdAt ← tryGet SqlType.timestamptz row (.column .createdAt)
  let updatedAt ← tryGet SqlType.timestamptz row (.column .updatedAt)
  let idempotencyKey ← tryGetOption SqlType.text row (.column .idempotencyKey)
  let idempotencyExpiresAt ← tryGetOption SqlType.timestamptz row (.column .idempotencyExpiresAt)
  let traceId ← tryGetOption SqlType.text row (.column .traceId)
  let checkpoint ← tryGetOption SqlType.jsonb row (.column .checkpoint)
  let suspendedAt ← tryGetOption SqlType.timestamptz row (.column .suspendedAt)
  let signalPayload ← tryGetOption SqlType.jsonb row (.column .signalPayload)
  let region ← tryGetOption SqlType.text row (.column .region)
  return { id, queue, kind, payload, status, priority, attempts, maxAttempts, lastError, scheduledAt,
           claimedBy, claimedUntil, createdAt, updatedAt, idempotencyKey, idempotencyExpiresAt,
           traceId, checkpoint, suspendedAt, signalPayload, region }

/-- The row type of a listing, which has the total as well. -/
structure TaskRowWithCount where
  id : ℕ
  queue : String
  kind : String
  payload : Json
  status : String
  priority : Int
  attempts : I32
  maxAttempts : I32
  lastError : Option String
  scheduledAt : Timestamp
  claimedBy : Option ℕ
  claimedUntil : Option Timestamp
  createdAt : Timestamp
  updatedAt : Timestamp
  idempotencyKey : Option String
  idempotencyExpiresAt : Option Timestamp
  traceId : Option String
  checkpoint : Option Json
  suspendedAt : Option Timestamp
  signalPayload : Option Json
  region : Option String
  totalCount : Option Int

def TaskRowWithCount.fromRow (row : Result) : Option TaskRowWithCount := do
  let id ← tryGet SqlType.uuid row (.column .id)
  let queue ← tryGet SqlType.text row (.column .queue)
  let kind ← tryGet SqlType.text row (.column .kind)
  let payload ← tryGet SqlType.jsonb row (.column .payload)
  let status ← tryGet SqlType.text row (.column .status)
  let priority ← tryGet SqlType.smallint row (.column .priority)
  let attempts ← tryGet SqlType.integer row (.column .attempts)
  let maxAttempts ← tryGet SqlType.integer row (.column .maxAttempts)
  let lastError ← tryGetOption SqlType.text row (.column .lastError)
  let scheduledAt ← tryGet SqlType.timestamptz row (.column .scheduledAt)
  let claimedBy ← tryGetOption SqlType.uuid row (.column .claimedBy)
  let claimedUntil ← tryGetOption SqlType.timestamptz row (.column .claimedUntil)
  let createdAt ← tryGet SqlType.timestamptz row (.column .createdAt)
  let updatedAt ← tryGet SqlType.timestamptz row (.column .updatedAt)
  let idempotencyKey ← tryGetOption SqlType.text row (.column .idempotencyKey)
  let idempotencyExpiresAt ← tryGetOption SqlType.timestamptz row (.column .idempotencyExpiresAt)
  let traceId ← tryGetOption SqlType.text row (.column .traceId)
  let checkpoint ← tryGetOption SqlType.jsonb row (.column .checkpoint)
  let suspendedAt ← tryGetOption SqlType.timestamptz row (.column .suspendedAt)
  let signalPayload ← tryGetOption SqlType.jsonb row (.column .signalPayload)
  let region ← tryGetOption SqlType.text row (.column .region)
  let totalCount ← tryGetOption SqlType.bigint row .totalCount
  return { id, queue, kind, payload, status, priority, attempts, maxAttempts, lastError, scheduledAt,
           claimedBy, claimedUntil, createdAt, updatedAt, idempotencyKey, idempotencyExpiresAt,
           traceId, checkpoint, suspendedAt, signalPayload, region, totalCount }

/-- `From<TaskRowWithCount> for TaskRow`. -/
def TaskRowWithCount.toTaskRow (r : TaskRowWithCount) : TaskRow where
  id := r.id
  queue := r.queue
  kind := r.kind
  payload := r.payload
  status := r.status
  priority := r.priority
  attempts := r.attempts
  maxAttempts := r.maxAttempts
  lastError := r.lastError
  scheduledAt := r.scheduledAt
  claimedBy := r.claimedBy
  claimedUntil := r.claimedUntil
  createdAt := r.createdAt
  updatedAt := r.updatedAt
  idempotencyKey := r.idempotencyKey
  idempotencyExpiresAt := r.idempotencyExpiresAt
  traceId := r.traceId
  checkpoint := r.checkpoint
  suspendedAt := r.suspendedAt
  signalPayload := r.signalPayload
  region := r.region

/-- The row type of the cancel statement. -/
structure CancelRow where
  id : Option ℕ
  queue : Option String
  kind : Option String
  payload : Option Json
  status : Option String
  priority : Option Int
  attempts : Option I32
  maxAttempts : Option I32
  lastError : Option String
  scheduledAt : Option Timestamp
  claimedBy : Option ℕ
  claimedUntil : Option Timestamp
  createdAt : Option Timestamp
  updatedAt : Option Timestamp
  idempotencyKey : Option String
  idempotencyExpiresAt : Option Timestamp
  traceId : Option String
  checkpoint : Option Json
  suspendedAt : Option Timestamp
  signalPayload : Option Json
  region : Option String
  originalStatus : Option String
  wasCancelled : Option Bool
  taskExists : Option Bool

def CancelRow.fromRow (row : Result) : Option CancelRow := do
  let id ← tryGetOption SqlType.uuid row (.column .id)
  let queue ← tryGetOption SqlType.text row (.column .queue)
  let kind ← tryGetOption SqlType.text row (.column .kind)
  let payload ← tryGetOption SqlType.jsonb row (.column .payload)
  let status ← tryGetOption SqlType.text row (.column .status)
  let priority ← tryGetOption SqlType.smallint row (.column .priority)
  let attempts ← tryGetOption SqlType.integer row (.column .attempts)
  let maxAttempts ← tryGetOption SqlType.integer row (.column .maxAttempts)
  let lastError ← tryGetOption SqlType.text row (.column .lastError)
  let scheduledAt ← tryGetOption SqlType.timestamptz row (.column .scheduledAt)
  let claimedBy ← tryGetOption SqlType.uuid row (.column .claimedBy)
  let claimedUntil ← tryGetOption SqlType.timestamptz row (.column .claimedUntil)
  let createdAt ← tryGetOption SqlType.timestamptz row (.column .createdAt)
  let updatedAt ← tryGetOption SqlType.timestamptz row (.column .updatedAt)
  let idempotencyKey ← tryGetOption SqlType.text row (.column .idempotencyKey)
  let idempotencyExpiresAt ← tryGetOption SqlType.timestamptz row (.column .idempotencyExpiresAt)
  let traceId ← tryGetOption SqlType.text row (.column .traceId)
  let checkpoint ← tryGetOption SqlType.jsonb row (.column .checkpoint)
  let suspendedAt ← tryGetOption SqlType.timestamptz row (.column .suspendedAt)
  let signalPayload ← tryGetOption SqlType.jsonb row (.column .signalPayload)
  let region ← tryGetOption SqlType.text row (.column .region)
  let originalStatus ← tryGetOption SqlType.text row .originalStatus
  let wasCancelled ← tryGetOption SqlType.boolean row .wasCancelled
  let taskExists ← tryGetOption SqlType.boolean row .taskExists
  return { id, queue, kind, payload, status, priority, attempts, maxAttempts, lastError, scheduledAt,
           claimedBy, claimedUntil, createdAt, updatedAt, idempotencyKey, idempotencyExpiresAt,
           traceId, checkpoint, suspendedAt, signalPayload, region, originalStatus, wasCancelled,
           taskExists }

/-- The task row of a cancelled row. It is none where one of the columns that a cancelled row must
have is missing, and `expect` panics. -/
def CancelRow.toTaskRow (row : CancelRow) : Option TaskRow := do
  return {
    id := ← row.id
    queue := ← row.queue
    kind := ← row.kind
    payload := ← row.payload
    status := ← row.status
    priority := ← row.priority
    attempts := ← row.attempts
    maxAttempts := ← row.maxAttempts
    lastError := row.lastError
    scheduledAt := ← row.scheduledAt
    claimedBy := row.claimedBy
    claimedUntil := row.claimedUntil
    createdAt := ← row.createdAt
    updatedAt := ← row.updatedAt
    idempotencyKey := row.idempotencyKey
    idempotencyExpiresAt := row.idempotencyExpiresAt
    traceId := row.traceId
    checkpoint := row.checkpoint
    suspendedAt := row.suspendedAt
    signalPayload := row.signalPayload
    region := row.region }

/-! ## Decoding -/

/-- `TryFrom<TaskRow> for TaskRecord`. -/
def TaskRow.tryFrom (row : TaskRow) : Except RepoError TaskRecord := do
  let kind ← (TaskKind.tryFrom row.kind).mapError fun e =>
    mappingError (.value "invalid task kind" e)
  let attempts ← (AttemptCount.new row.attempts).mapError fun e =>
    mappingError (.value "task.attempts" e)
  let maxAttempts ← (MaxAttempts.new row.maxAttempts).mapError fun e =>
    mappingError (.value "task.max_attempts" e)
  if maxAttempts.get.val < attempts.get.val then
    throw (mappingError (.attemptsExceed attempts.get.val maxAttempts.get.val ⟨row.id⟩))
  let queue ← (QueueName.tryFrom row.queue).mapError fun e =>
    mappingError (.value "invalid queue name" e)
  let status ← parseStatus row.status
  return {
    id := ⟨row.id⟩
    queue, kind
    payload := row.payload
    status
    priority := ⟨row.priority⟩
    attempts, maxAttempts
    lastError := row.lastError.map truncateLastError
    scheduledAt := Timestamp.toDateTime row.scheduledAt
    claimedBy := row.claimedBy.map .mk
    claimedUntil := row.claimedUntil.map Timestamp.toDateTime
    createdAt := Timestamp.toDateTime row.createdAt
    updatedAt := Timestamp.toDateTime row.updatedAt
    idempotencyKey := row.idempotencyKey
    idempotencyExpiresAt := row.idempotencyExpiresAt.map Timestamp.toDateTime
    traceId := row.traceId
    checkpoint := row.checkpoint
    suspendedAt := row.suspendedAt.map Timestamp.toDateTime
    signalPayload := row.signalPayload
    region := row.region }

/-- A fetched row as a record; none where a column is not what the row type says. -/
def decode (row : Result) : Option (Except RepoError TaskRecord) :=
  (TaskRow.fromRow row).map TaskRow.tryFrom

/-- A row of `list_tasks` as a record. -/
def decodeListed (row : Result) : Option (Except RepoError TaskRecord) :=
  (TaskRowWithCount.fromRow row).map fun r => r.toTaskRow.tryFrom

/-- The row of `cancel` as the record of the cancelled task. -/
def decodeCancelled (row : Result) : Option (Except RepoError TaskRecord) := do
  let row ← CancelRow.fromRow row
  if row.wasCancelled = some true then
    return (← row.toTaskRow).tryFrom
  else none

/-! ## Reading what is stored -/

/-- The columns of a row. -/
def TaskRow.columns (row : TaskRow) : Stored
  | .id => some (.uuid row.id)
  | .queue => some (.text row.queue)
  | .kind => some (.text row.kind)
  | .payload => some (.jsonb row.payload)
  | .status => some (.text row.status)
  | .priority => some (.smallint row.priority)
  | .attempts => some (.integer row.attempts)
  | .maxAttempts => some (.integer row.maxAttempts)
  | .lastError => row.lastError.map .text
  | .scheduledAt => some (.timestamptz row.scheduledAt)
  | .claimedBy => row.claimedBy.map .uuid
  | .claimedUntil => row.claimedUntil.map .timestamptz
  | .createdAt => some (.timestamptz row.createdAt)
  | .updatedAt => some (.timestamptz row.updatedAt)
  | .idempotencyKey => row.idempotencyKey.map .text
  | .idempotencyExpiresAt => row.idempotencyExpiresAt.map .timestamptz
  | .traceId => row.traceId.map .text
  | .checkpoint => row.checkpoint.map .jsonb
  | .suspendedAt => row.suspendedAt.map .timestamptz
  | .signalPayload => row.signalPayload.map .jsonb
  | .region => row.region.map .text

/-- The columns of a row that may have none. -/
def CancelRow.columns (row : CancelRow) : Stored
  | .id => row.id.map .uuid
  | .queue => row.queue.map .text
  | .kind => row.kind.map .text
  | .payload => row.payload.map .jsonb
  | .status => row.status.map .text
  | .priority => row.priority.map .smallint
  | .attempts => row.attempts.map .integer
  | .maxAttempts => row.maxAttempts.map .integer
  | .lastError => row.lastError.map .text
  | .scheduledAt => row.scheduledAt.map .timestamptz
  | .claimedBy => row.claimedBy.map .uuid
  | .claimedUntil => row.claimedUntil.map .timestamptz
  | .createdAt => row.createdAt.map .timestamptz
  | .updatedAt => row.updatedAt.map .timestamptz
  | .idempotencyKey => row.idempotencyKey.map .text
  | .idempotencyExpiresAt => row.idempotencyExpiresAt.map .timestamptz
  | .traceId => row.traceId.map .text
  | .checkpoint => row.checkpoint.map .jsonb
  | .suspendedAt => row.suspendedAt.map .timestamptz
  | .signalPayload => row.signalPayload.map .jsonb
  | .region => row.region.map .text

section FromRow

variable {row : Result}

/-- **A row is read as `t` exactly where its columns are those of `t`.** -/
theorem TaskRow.fromRow_eq_some_iff {t : TaskRow} :
    TaskRow.fromRow row = some t ↔ ∀ c, row.lookup (.column c) = some (t.columns c) := by
  constructor
  · intro h c
    -- one column after the other has the value it has been read as
    iterate 21
      obtain ⟨_, hx, h⟩ := Option.bind_eq_some_iff.mp h
      simp only [tryGet_eq_some, tryGetOption_eq_some] at hx
    cases h
    cases c <;> assumption
  · intro h
    unfold TaskRow.fromRow
    iterate 21 first | refine bind_tryGet (h _) ?_ | refine bind_tryGetOption (h _) ?_
    rfl

/-- The same of a listing, where the total is read as well. -/
theorem TaskRowWithCount.fromRow_eq_some_iff {t : TaskRowWithCount} :
    TaskRowWithCount.fromRow row = some t ↔
      (∀ c, row.lookup (.column c) = some (t.toTaskRow.columns c)) ∧
        row.lookup .totalCount = some (t.totalCount.map .bigint) := by
  constructor
  · intro h
    iterate 22
      obtain ⟨_, hx, h⟩ := Option.bind_eq_some_iff.mp h
      simp only [tryGet_eq_some, tryGetOption_eq_some] at hx
    cases h
    exact ⟨fun c => by cases c <;> assumption, by assumption⟩
  · rintro ⟨h, hcount⟩
    unfold TaskRowWithCount.fromRow
    iterate 21 first | refine bind_tryGet (h _) ?_ | refine bind_tryGetOption (h _) ?_
    exact bind_tryGetOption hcount rfl

/-- The same of a cancellation, where a column may be missing from the row. -/
theorem CancelRow.fromRow_eq_some_iff {t : CancelRow} :
    CancelRow.fromRow row = some t ↔
      (∀ c, row.lookup (.column c) = some (t.columns c)) ∧
        row.lookup .originalStatus = some (t.originalStatus.map .text) ∧
        row.lookup .wasCancelled = some (t.wasCancelled.map .boolean) ∧
        row.lookup .taskExists = some (t.taskExists.map .boolean) := by
  constructor
  · intro h
    iterate 24
      obtain ⟨_, hx, h⟩ := Option.bind_eq_some_iff.mp h
      simp only [tryGetOption_eq_some] at hx
    cases h
    exact ⟨fun c => by cases c <;> assumption, by assumption, by assumption, by assumption⟩
  · rintro ⟨h, horiginal, hcancelled, hexists⟩
    unfold CancelRow.fromRow
    iterate 21 refine bind_tryGetOption (h _) ?_
    exact bind_tryGetOption horiginal (bind_tryGetOption hcancelled (bind_tryGetOption hexists rfl))

end FromRow

/-! ## The three ways -/

section Stored

variable {r : Stored}

theorem lookup_select (r : Stored) (c : Column) : (select r).lookup (.column c) = some (r c) := by
  cases c <;> rfl

theorem lookup_selectWithCount (r : Stored) (count : ℕ) (c : Column) :
    (selectWithCount r count).lookup (.column c) = some (r c) := by
  cases c <;> rfl

theorem lookup_selectCancelled (r : Stored) (task : Option Stored) (c : Column) :
    (selectCancelled (some r) task).lookup (.column c) = some (r c) := by
  cases c <;> rfl

/-- **What is stored is fetched as the row it has been stored for**, and as no other. -/
theorem fromRow_select {t : TaskRow} : TaskRow.fromRow (select r) = some t ↔ r = t.columns := by
  simp [TaskRow.fromRow_eq_some_iff, lookup_select, funext_iff]

theorem fromRow_selectWithCount {count : ℕ} {t : TaskRowWithCount} :
    TaskRowWithCount.fromRow (selectWithCount r count) = some t ↔
      r = t.toTaskRow.columns ∧ t.totalCount = some (count : Int) := by
  have htotal : (selectWithCount r count).lookup .totalCount = some (some (.bigint count)) := rfl
  simp [TaskRowWithCount.fromRow_eq_some_iff, lookup_selectWithCount, funext_iff, htotal]

/-- The row of a listing that has been read for `t`. -/
def TaskRow.listed (t : TaskRow) (count : ℕ) : TaskRowWithCount where
  id := t.id
  queue := t.queue
  kind := t.kind
  payload := t.payload
  status := t.status
  priority := t.priority
  attempts := t.attempts
  maxAttempts := t.maxAttempts
  lastError := t.lastError
  scheduledAt := t.scheduledAt
  claimedBy := t.claimedBy
  claimedUntil := t.claimedUntil
  createdAt := t.createdAt
  updatedAt := t.updatedAt
  idempotencyKey := t.idempotencyKey
  idempotencyExpiresAt := t.idempotencyExpiresAt
  traceId := t.traceId
  checkpoint := t.checkpoint
  suspendedAt := t.suspendedAt
  signalPayload := t.signalPayload
  region := t.region
  totalCount := some (count : Int)

@[simp] theorem TaskRow.toTaskRow_listed (t : TaskRow) (count : ℕ) :
    (t.listed count).toTaskRow = t := rfl

/-- The row of a cancellation that has been read for `t`. -/
def TaskRow.cancelled (t : TaskRow) : CancelRow where
  id := some t.id
  queue := some t.queue
  kind := some t.kind
  payload := some t.payload
  status := some t.status
  priority := some t.priority
  attempts := some t.attempts
  maxAttempts := some t.maxAttempts
  lastError := t.lastError
  scheduledAt := some t.scheduledAt
  claimedBy := t.claimedBy
  claimedUntil := t.claimedUntil
  createdAt := some t.createdAt
  updatedAt := some t.updatedAt
  idempotencyKey := t.idempotencyKey
  idempotencyExpiresAt := t.idempotencyExpiresAt
  traceId := t.traceId
  checkpoint := t.checkpoint
  suspendedAt := t.suspendedAt
  signalPayload := t.signalPayload
  region := t.region
  originalStatus := none
  wasCancelled := some true
  taskExists := some false

@[simp] theorem TaskRow.toTaskRow_cancelled (t : TaskRow) : t.cancelled.toTaskRow = some t := rfl

theorem TaskRow.columns_cancelled (t : TaskRow) (c : Column) :
    t.cancelled.columns c = t.columns c := by
  cases c <;> rfl

/-- A cancelled row with every column it must have has those of its task row. -/
theorem CancelRow.columns_of_toTaskRow {row : CancelRow} {t : TaskRow}
    (h : row.toTaskRow = some t) (c : Column) : row.columns c = t.columns c := by
  -- one `expect` after the other has found a value
  iterate 11 obtain ⟨_, hx, h⟩ := Option.bind_eq_some_iff.mp h
  cases h
  cases c <;> simp_all [columns, TaskRow.columns]

theorem decode_select_eq_some {x : Except RepoError TaskRecord} :
    decode (select r) = some x ↔ ∃ t : TaskRow, r = t.columns ∧ t.tryFrom = x := by
  simp [decode, fromRow_select]

theorem decodeListed_eq_some {count : ℕ} {x : Except RepoError TaskRecord} :
    decodeListed (selectWithCount r count) = some x ↔
      ∃ t : TaskRow, r = t.columns ∧ t.tryFrom = x := by
  simp only [decodeListed, Option.map_eq_some_iff, fromRow_selectWithCount]
  constructor
  · rintro ⟨t, ⟨hr, -⟩, hx⟩
    exact ⟨t.toTaskRow, hr, hx⟩
  · rintro ⟨t, hr, hx⟩
    exact ⟨t.listed count, ⟨hr, rfl⟩, hx⟩

theorem decodeCancelled_eq_some {x : Except RepoError TaskRecord} :
    decodeCancelled (selectCancelled (some r) none) = some x ↔
      ∃ t : TaskRow, r = t.columns ∧ t.tryFrom = x := by
  constructor
  · intro h
    obtain ⟨row, hrow, h⟩ := Option.bind_eq_some_iff.mp h
    obtain ⟨hcolumns, -⟩ := CancelRow.fromRow_eq_some_iff.mp hrow
    split at h
    · obtain ⟨t, ht, hx⟩ := Option.bind_eq_some_iff.mp h
      refine ⟨t, funext fun c => ?_, Option.some.inj hx⟩
      have hc := hcolumns c
      rw [lookup_selectCancelled, CancelRow.columns_of_toTaskRow ht c] at hc
      exact Option.some.inj hc
    · cases h
  · rintro ⟨t, rfl, rfl⟩
    have hrow : CancelRow.fromRow (selectCancelled (some t.columns) none) = some t.cancelled := by
      refine CancelRow.fromRow_eq_some_iff.mpr ⟨fun c => ?_, rfl, rfl, rfl⟩
      rw [lookup_selectCancelled, TaskRow.columns_cancelled]
    simp only [decodeCancelled, hrow]
    rfl

/-- **The three ways to a record agree**, on every row the table could store: they lead to the same
record, or all of them fail. -/
theorem decoders_agree (r : Stored) (count : ℕ) :
    decodeListed (selectWithCount r count) = decode (select r) ∧
      decodeCancelled (selectCancelled (some r) none) = decode (select r) := by
  constructor
  · ext x
    rw [decodeListed_eq_some, decode_select_eq_some]
  · ext x
    rw [decodeCancelled_eq_some, decode_select_eq_some]

end Stored

/-! ## The database model -/

/-- A row of the database model, as it is fetched. -/
def TaskRow.ofRow (r : IronDefer.TaskRow) : TaskRow where
  id := r.id.uuid
  queue := r.queue
  kind := r.kind
  payload := r.payload
  status := statusToStr r.status
  priority := r.priority
  attempts := r.attempts
  maxAttempts := r.maxAttempts
  lastError := r.lastError
  scheduledAt := r.scheduledAt
  claimedBy := r.claimedBy.map WorkerId.uuid
  claimedUntil := r.claimedUntil
  createdAt := r.createdAt
  updatedAt := r.updatedAt
  idempotencyKey := r.idempotencyKey
  idempotencyExpiresAt := r.idempotencyExpiresAt
  traceId := r.traceId
  checkpoint := r.checkpoint
  suspendedAt := r.suspendedAt
  signalPayload := r.signalPayload
  region := r.region

/-- What the table stores of a row of the database model. -/
def stored (r : IronDefer.TaskRow) : Stored := (TaskRow.ofRow r).columns

/-- **An insert stores the row the database model inserts.** -/
theorem insertInto_eq (b : Began) (task : TaskRecord) (lastError : Option String) :
    insertInto b.now insertColumns (insertBinds task lastError) =
      stored (insertedRow b task lastError) := by
  ext c
  cases c <;> rfl

/-- **The rows of the database model are decoded in each way as the model decodes them.** -/
theorem decode_stored (r : IronDefer.TaskRow) (count : ℕ) :
    decode (select (stored r)) = some (TaskRecord.tryFrom r) ∧
      decodeListed (selectWithCount (stored r) count) = some (TaskRecord.tryFrom r) ∧
      decodeCancelled (selectCancelled (some (stored r)) none) = some (TaskRecord.tryFrom r) := by
  have hselected : decode (select (stored r)) = some (TaskRecord.tryFrom r) := by
    refine decode_select_eq_some.mpr ⟨_, rfl, ?_⟩
    have hby : (r.claimedBy.map WorkerId.uuid).map WorkerId.mk = r.claimedBy := by
      cases r.claimedBy <;> rfl
    simp only [TaskRow.tryFrom, TaskRow.ofRow, hby]
    rfl
  obtain ⟨hlisted, hcancelled⟩ := decoders_agree (stored r) count
  exact ⟨hselected, hlisted.trans hselected, hcancelled.trans hselected⟩

end IronDefer.Wire
