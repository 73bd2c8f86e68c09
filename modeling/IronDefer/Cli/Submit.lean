import IronDefer.Api.Engine
import IronDefer.Infrastructure.History

/-!
# Submitting from the command line

`iron-defer submit` parses its arguments, has the scheduler build the record, and saves it with a
repository of its own, whose audit log is off. It asks no engine: neither the registered kinds nor
the length of an idempotency key is checked. The parsers of JSON and of RFC 3339 are parameters, and
so is the program's clock.

## Main definitions

* `Submit`, `Submit.parse`: the arguments, and what they ask for
* `Rfc3339`, `UtcNow`: the instants a text can denote and the clock can show
* `SubmitRequest.op`, `Submit.run`: the call on the repository
* `SubmitRequest.submission`: the same submission to an engine
* `StoredAsByEngine`: what is stored is what an engine accepts and stores

## Main results

* `cli_submission_iff`: **a task is stored as by an engine exactly where its key, if it has one, is
  one the engine accepts, and the deployment keeps no audit log**
-/

namespace IronDefer

open RowStore

/-! ## The command -/

/-- The arguments of `iron-defer submit`. -/
structure Submit where
  queue : String
  kind : String
  payload : String
  scheduledAt : Option String
  priority : Int
  maxAttempts : Option I32
  idempotencyKey : Option String

/-- An instant an RFC 3339 text denotes: its year has four digits, and its offset is less than a
day. -/
structure Rfc3339 where
  instant : DateTime
  lower : -730486 * 86400000000000 ≤ instant
  upper : instant ≤ 2921941 * 86400000000000

/-- An instant the program's clock shows, which has none before the Unix epoch. -/
structure UtcNow where
  instant : DateTime
  lower : -946684800000000000 ≤ instant
  upper : instant ≤ maxDateTime

/-- What the command can fail for. -/
inductive SubmitError where
  | invalidJson (e : String)
  | invalidQueue (e : ValidationError)
  | invalidScheduledAt (e : String)
  | maxAttempts
  | submitFailed (e : RepoError)
  deriving DecidableEq

/-- What the arguments ask for. -/
structure SubmitRequest where
  queue : QueueName
  kind : String
  payload : Json
  scheduledAt : Option Rfc3339
  priority : Int
  maxAttempts : Option I32
  idempotencyKey : Option String

def requestedAttempts (maxAttempts : Option I32) : Except SubmitError (Option I32) :=
  match maxAttempts with
  | some ma => if ma.val < 1 then .error .maxAttempts else .ok (some ma)
  | none => .ok none

section Parsers

variable (fromStr : String → Except String Json)
  (parseFromRfc3339 : String → Except String Rfc3339)

def Submit.parse (submit : Submit) : Except SubmitError SubmitRequest := do
  let payload ← (fromStr submit.payload).mapError .invalidJson
  let queue ← (QueueName.tryFrom submit.queue).mapError .invalidQueue
  let scheduledAt ← submit.scheduledAt.mapM fun s =>
    (parseFromRfc3339 s).mapError .invalidScheduledAt
  let maxAttempts ← requestedAttempts submit.maxAttempts
  return {
    queue
    kind := submit.kind
    payload, scheduledAt
    priority := submit.priority
    maxAttempts
    idempotencyKey := submit.idempotencyKey }

end Parsers

/-- How long the command retains a key: 24 hours. -/
def cliRetention : Duration := 86400000000000

/-- The operation on the repository; `id` is the fresh identifier. -/
def SubmitRequest.op (r : SubmitRequest) (id : TaskId) (now : UtcNow) : Except RepoError Op :=
  match r.idempotencyKey with
  | some key => do
    let task ← enqueueRawIdempotent id now.instant r.queue r.kind r.payload
      (r.scheduledAt.map Rfc3339.instant) (some r.priority) r.maxAttempts key cliRetention none none
    return .saveIdempotent task
  | none => do
    let task ← enqueueRaw id now.instant r.queue r.kind r.payload
      (r.scheduledAt.map Rfc3339.instant) (some r.priority) r.maxAttempts none none
    return .save task

/-- The call of the command, on a repository without audit log. -/
def SubmitRequest.call (r : SubmitRequest) (id : TaskId) (now : UtcNow) : Except SubmitError Call :=
  (r.op id now).map (fun op => ⟨false, op, none⟩) |>.mapError .submitFailed

/-- The command, up to its call. -/
def Submit.run (fromStr : String → Except String Json)
    (parseFromRfc3339 : String → Except String Rfc3339) (submit : Submit) (id : TaskId)
    (now : UtcNow) : Except SubmitError Call := do
  let request ← submit.parse fromStr parseFromRfc3339
  request.call id now

/-! ## The same submission to an engine -/

/-- What an engine is asked for instead. -/
def SubmitRequest.submission (r : SubmitRequest) : Submission :=
  match r.idempotencyKey with
  | some key =>
    .enqueueRawIdempotent r.queue.asStr r.kind r.payload (r.scheduledAt.map Rfc3339.instant)
      (some r.priority) r.maxAttempts key none none
  | none =>
    .enqueueRaw r.queue.asStr r.kind r.payload (r.scheduledAt.map Rfc3339.instant)
      (some r.priority) r.maxAttempts none none

/-- The year of a stored instant. -/
def Timestamp.year (t : Timestamp) : Int := DateTime.year (Timestamp.toDateTime t)

/-- The engine accepts the request as well, and the row and its audit rows are what it stores in a
deployment with the given audit flag. -/
structure StoredAsByEngine (e : Engine) (auditLog : Bool) (id : TaskId) (now : UtcNow)
    (r : SubmitRequest) (b : Began) (row : TaskRow) (ls : List AuditRow) : Prop where
  accepted : ∃ record, e.submit id now.instant r.submission = .ok record
  key : ∀ key, row.idempotencyKey = some key → 1 ≤ key.utf8ByteSize ∧ key.utf8ByteSize ≤ 250
  year : -4712 ≤ Timestamp.year row.scheduledAt ∧ Timestamp.year row.scheduledAt ≤ 294276
  audit : ls = logged auditLog b [createdEntry row]

/-- The key of a request has a length the engine accepts, and the engine's retention ends at an
instant. -/
def SubmitRequest.KeyAccepted (e : Engine) (now : UtcNow) (r : SubmitRequest) : Prop :=
  ∀ key, r.idempotencyKey = some key → 1 ≤ key.utf8ByteSize ∧ key.utf8ByteSize ≤ 250 ∧
    ∃ expiresAt, idempotencyExpiresAt now.instant e.idempotencyKeyRetention = .ok expiresAt

/-! ### Years -/

/-- An instant's year is one of the 401 that begin or end within its era. -/
theorem DateTime.year_of_era (d : Int) :
    (d / 86400000000000 + 730425) / 146097 * 400 ≤ DateTime.year d ∧
      DateTime.year d ≤ (d / 86400000000000 + 730425) / 146097 * 400 + 400 := by
  -- at `Int`, of which `DateTime` is an abbreviation
  have hyear : DateTime.year d =
      let day : Int := d / 86400000000000 + 730425
      let dayOfEra := day % 146097
      let yearOfEra := (dayOfEra - dayOfEra / 1460 + dayOfEra / 36524 - dayOfEra / 146096) / 365
      let dayOfYear := dayOfEra - (365 * yearOfEra + yearOfEra / 4 - yearOfEra / 100)
      yearOfEra + day / 146097 * 400 + if dayOfYear < 306 then 0 else 1 := rfl
  rw [hyear]
  dsimp only
  generalize d / 86400000000000 + 730425 = day
  split
  · omega
  · omega

/-- The instants from the year -400 to 262400, or somewhat more, are in the range of the
database. -/
theorem DateTime.year_in_range {d : Int} (hlo : -800000 * 86400000000000 ≤ d)
    (hhi : d ≤ 96000000 * 86400000000000) :
    -4712 ≤ DateTime.year d ∧ DateTime.year d ≤ 294276 := by
  have h := DateTime.year_of_era d
  have hday : -800000 ≤ d / 86400000000000 ∧ d / 86400000000000 ≤ 96000000 := by omega
  generalize d / 86400000000000 = day at h hday
  omega

theorem Rfc3339.year_in_range (t : Rfc3339) :
    -4712 ≤ DateTime.year t.instant ∧ DateTime.year t.instant ≤ 294276 :=
  DateTime.year_in_range (Int.le_trans (by decide) t.lower) (Int.le_trans t.upper (by decide))

/-- What the encoder cuts off an instant does not take it out of the range. -/
theorem Timestamp.year_in_range {d : Int} (hlo : -730486 * 86400000000000 ≤ d)
    (hhi : d ≤ 95016000 * 86400000000000) :
    -4712 ≤ Timestamp.year (DateTime.toTimestamp d) ∧
      Timestamp.year (DateTime.toTimestamp d) ≤ 294276 := by
  have hcut : d - 999 ≤ Int.tdiv d 1000 * 1000 ∧ Int.tdiv d 1000 * 1000 ≤ d + 999 := by
    rcases Int.le_total 0 d with h | h
    · rw [Int.tdiv_eq_ediv_of_nonneg h]
      omega
    · have hneg : Int.tdiv d 1000 = -((-d) / 1000) := by
        rw [← Int.tdiv_eq_ediv_of_nonneg (by omega), Int.neg_tdiv, Int.neg_neg]
      omega
  exact DateTime.year_in_range (d := Int.tdiv d 1000 * 1000) (by omega) (by omega)


/-- When the task of a request is due. -/
def SubmitRequest.dueAt (r : SubmitRequest) (now : UtcNow) : DateTime :=
  (r.scheduledAt.map Rfc3339.instant).getD now.instant

/-- A request is due at an instant a text denotes, or the clock shows. -/
theorem SubmitRequest.dueAt_year (r : SubmitRequest) (now : UtcNow) :
    -4712 ≤ Timestamp.year (DateTime.toTimestamp (r.dueAt now)) ∧
      Timestamp.year (DateTime.toTimestamp (r.dueAt now)) ≤ 294276 := by
  cases hs : r.scheduledAt with
  | none =>
    have hd : r.dueAt now = now.instant := by simp [dueAt, hs]
    rw [hd]
    exact Timestamp.year_in_range (Int.le_trans (by decide) now.lower)
      (Int.le_trans now.upper (by decide))
  | some t =>
    have hd : r.dueAt now = t.instant := by simp [dueAt, hs]
    rw [hd]
    exact Timestamp.year_in_range t.lower (Int.le_trans t.upper (by decide))

/-! ### What an engine accepts -/

theorem validateIdempotencyKey_iff {key : String} : validateIdempotencyKey key = .ok () ↔
    1 ≤ key.utf8ByteSize ∧ key.utf8ByteSize ≤ 250 := by
  have hempty : key.isEmpty = true ↔ key.utf8ByteSize = 0 := by simp [String.isEmpty]
  unfold validateIdempotencyKey idempotencyKeyMaxLen
  split
  next h => simp [hempty.mp h]
  next h =>
    have hpos : key.utf8ByteSize ≠ 0 := mt hempty.mpr h
    split
    · simp
      omega
    · simp
      omega

section Accepted

variable {e : Engine} {kind : String} {maxAttempts : Option I32} {max : MaxAttempts}
  {kind' : TaskKind} {message : String}

/-- The scheduler has found the kind and the attempts right, and so does the engine. -/
theorem Engine.checkRaw_eq_ok (hkind : kind ∈ e.registry)
    (hk : requestedKind kind message = .ok kind')
    (hmax : requestedMaxAttempts maxAttempts = .ok max) (scheduledAt : Option Rfc3339) :
    e.checkRaw kind (scheduledAt.map Rfc3339.instant) maxAttempts = .ok () := by
  have hne : kind.isEmpty = false := by
    by_contra hne
    simp [requestedKind, TaskKind.tryFrom, hne, Except.mapError] at hk
  have hattempts : ∀ ma, maxAttempts = some ma → ¬ ma.val < 1 := by
    rintro ma rfl hlt
    simp [requestedMaxAttempts, MaxAttempts.new, hlt, Except.mapError] at hmax
  have hyear : ∀ t : Rfc3339, validateScheduledAt t.instant = .ok () := fun t =>
    if_pos t.year_in_range
  have hschedule : checkSome validateScheduledAt (scheduledAt.map Rfc3339.instant) = .ok () := by
    cases scheduledAt with
    | none => rfl
    | some t => exact hyear t
  have hma : checkSome (fun ma : I32 =>
      if ma.val < 1 then
        .error (invalidPayload ("max_attempts must be >= 1, got " ++ toString ma.val))
      else .ok ()) maxAttempts = (.ok () : Except RepoError Unit) := by
    cases maxAttempts with
    | none => rfl
    | some ma => exact if_neg (hattempts ma rfl)
  -- no check of the engine is left to refuse
  simp only [checkRaw, requireHandler, hne, if_pos hkind, hma, hschedule, bind, Except.bind]
  rfl

end Accepted

@[simp] theorem requestedQueue_asStr (q : QueueName) : requestedQueue q.asStr = .ok q := by
  simp [requestedQueue, Except.mapError]

/-- A request the scheduler accepts, an engine accepts where it accepts the key. -/
theorem SubmitRequest.accepted_iff {r : SubmitRequest} {id : TaskId} {now : UtcNow} {op : Op}
    (hop : r.op id now = .ok op) {e : Engine} (hkind : r.kind ∈ e.registry) :
    (∃ record, e.submit id now.instant r.submission = .ok record) ↔ r.KeyAccepted e now := by
  cases hk : r.idempotencyKey with
  | none =>
    simp only [SubmitRequest.op, hk] at hop
    obtain ⟨task, htask, -⟩ := exists_of_bind_ok hop
    have hsched := htask
    obtain ⟨_, -, htask⟩ := exists_of_bind_ok htask
    obtain ⟨max, hmax, htask⟩ := exists_of_bind_ok htask
    obtain ⟨kind, hkind', -⟩ := exists_of_bind_ok htask
    -- what the command has checked, the engine checks again
    have hraw := Engine.checkRaw_eq_ok hkind hkind' hmax r.scheduledAt
    have haccept : e.submit id now.instant r.submission = .ok task := by
      simp only [submission, hk, Engine.submit, Engine.enqueueRaw, hraw, requestedQueue_asStr]
      exact hsched
    exact ⟨fun _ key hkey => (by simp [hk] at hkey), fun _ => ⟨task, haccept⟩⟩
  | some key =>
    simp only [SubmitRequest.op, hk] at hop
    obtain ⟨task, htask, -⟩ := exists_of_bind_ok hop
    obtain ⟨_, -, htask⟩ := exists_of_bind_ok htask
    obtain ⟨_, -, htask⟩ := exists_of_bind_ok htask
    obtain ⟨max, hmax, htask⟩ := exists_of_bind_ok htask
    obtain ⟨kind, hkind', -⟩ := exists_of_bind_ok htask
    -- of what the engine checks, only the key and its retention are left
    have hraw := Engine.checkRaw_eq_ok hkind hkind' hmax r.scheduledAt
    constructor
    · rintro ⟨record, hrecord⟩ key' hkey'
      obtain rfl : key = key' := by simpa [hk] using hkey'
      simp only [submission, hk, Engine.submit] at hrecord
      obtain ⟨_, -, hrecord⟩ := exists_of_bind_ok hrecord
      obtain ⟨⟨⟩, hvalid, hrecord⟩ := exists_of_bind_ok hrecord
      obtain ⟨_, -, hrecord⟩ := exists_of_bind_ok hrecord
      obtain ⟨_, -, hrecord⟩ := exists_of_bind_ok hrecord
      obtain ⟨_, -, hrecord⟩ := exists_of_bind_ok hrecord
      obtain ⟨expiresAt, hexpires, -⟩ := exists_of_bind_ok hrecord
      have hlength := validateIdempotencyKey_iff.mp hvalid
      exact ⟨hlength.1, hlength.2, expiresAt, hexpires⟩
    · intro h
      obtain ⟨hpos, hle, expiresAt, hexpires⟩ := h key hk
      have hvalid := validateIdempotencyKey_iff.mpr ⟨hpos, hle⟩
      simp only [submission, hk, Engine.submit, Engine.enqueueRawIdempotent, hvalid, hraw,
        requestedQueue_asStr, IronDefer.enqueueRawIdempotent, hexpires, hmax, hkind',
        Engine.validateRegionAuthorization, rejectEmptyRegion, bind, Except.bind]
      exact ⟨_, rfl⟩

/-! ## What is stored -/

/-- The record a request has built, and the operation that saves it. -/
theorem SubmitRequest.op_eq {r : SubmitRequest} {id : TaskId} {now : UtcNow} {op : Op}
    (hop : r.op id now = .ok op) :
    ∃ task : TaskRecord, (op = .save task ∨ op = .saveIdempotent task) ∧
      task.idempotencyKey = r.idempotencyKey ∧ task.scheduledAt = r.dueAt now := by
  cases hk : r.idempotencyKey with
  | none =>
    simp only [SubmitRequest.op, hk] at hop
    obtain ⟨task, htask, hop⟩ := exists_of_bind_ok hop
    obtain ⟨_, -, htask⟩ := exists_of_bind_ok htask
    obtain ⟨_, -, htask⟩ := exists_of_bind_ok htask
    obtain ⟨_, -, htask⟩ := exists_of_bind_ok htask
    cases htask
    cases hop
    exact ⟨_, .inl rfl, rfl, rfl⟩
  | some key =>
    simp only [SubmitRequest.op, hk] at hop
    obtain ⟨task, htask, hop⟩ := exists_of_bind_ok hop
    obtain ⟨_, -, htask⟩ := exists_of_bind_ok htask
    obtain ⟨_, -, htask⟩ := exists_of_bind_ok htask
    obtain ⟨_, -, htask⟩ := exists_of_bind_ok htask
    obtain ⟨_, -, htask⟩ := exists_of_bind_ok htask
    cases htask
    cases hop
    exact ⟨_, .inr rfl, rfl, rfl⟩

/-- A committed insert of the command has written the row of its record, and no audit row. -/
theorem stored_of_committed {ok : List Outcome → System → Move → Prop} {t : Table TaskRow.id}
    {log : List (ℕ × AuditRow)} {n : ℕ} {os : List Outcome} {db : System}
    (h : Runs ok (.idle t log n) os db) {task : TaskRecord} {op : Op}
    (hop : op = .save task ∨ op = .saveIdempotent task) {sid : ℕ} {b : Began}
    {cs : List (Change TaskRow)} {ls : List (ℕ × AuditRow)} {reply : Reply} {row : TaskRow}
    (ho : .committed sid ⟨false, op, none⟩ b cs ls reply ∈ os) (hrow : ⟨none, row⟩ ∈ cs) :
    (∃ lastError, row = insertedRow b task lastError) ∧ ls.map Prod.snd = [] := by
  have hspec : Op.Spec (fun _ _ _ => True) false b op cs (ls.map Prod.snd) (.commit reply) :=
    h.spec_committed ho
  -- a save that has inserted has inserted the row of its record
  have hsaved : ∀ {idempotent ds xs res},
      SavedBy (fun _ _ _ => True) b [] task idempotent ds xs res → ⟨none, row⟩ ∈ ds →
        ∃ lastError, row = insertedRow b task lastError := by
    intro idempotent ds xs res hs hmem
    cases hs with
    | new hins =>
      obtain ⟨-, rfl⟩ : True ∧ row = _ := by simpa using hmem
      obtain ⟨_, _, _, -, -, hexec⟩ := hins
      exact ⟨_, (execInsert_eq_some hexec).1⟩
    | old => cases hmem
    | gone => cases hmem
  rcases hop with rfl | rfl
  · generalize hls : ls.map Prod.snd = ls' at hspec
    cases hspec with
    | save hs => exact ⟨hsaved hs hrow, by simp [logged]⟩
    | transition htr => cases htr
  · generalize hls : ls.map Prod.snd = ls' at hspec
    cases hspec with
    | saveIdempotent hs => exact ⟨hsaved hs hrow, by simp [logged]⟩
    | transition htr => cases htr

theorem Submit.run_eq_ok {fromStr : String → Except String Json}
    {parseFromRfc3339 : String → Except String Rfc3339} {submit : Submit} {id : TaskId}
    {now : UtcNow} {call : Call} (h : submit.run fromStr parseFromRfc3339 id now = .ok call) :
    ∃ r op, submit.parse fromStr parseFromRfc3339 = .ok r ∧ r.kind = submit.kind ∧
      r.op id now = .ok op ∧ call = ⟨false, op, none⟩ := by
  obtain ⟨r, hparse, h⟩ := exists_of_bind_ok h
  have hkind : r.kind = submit.kind := by
    obtain ⟨_, -, hr⟩ := exists_of_bind_ok hparse
    obtain ⟨_, -, hr⟩ := exists_of_bind_ok hr
    obtain ⟨_, -, hr⟩ := exists_of_bind_ok hr
    obtain ⟨_, -, hr⟩ := exists_of_bind_ok hr
    cases hr
    rfl
  unfold SubmitRequest.call at h
  cases hop : r.op id now with
  | error e => simp [hop, Except.map, Except.mapError] at h
  | ok op =>
    have hcall : call = ⟨false, op, none⟩ := by
      simpa [hop, Except.map, Except.mapError, eq_comm] using h
    exact ⟨r, op, hparse, hkind, hop, hcall⟩

/-! ### Samples -/

/-- `iron-defer submit --queue default --kind email --payload null`, with a key. -/
def sampleSubmit (key : String) : Submit where
  queue := "default"
  kind := "email"
  payload := "null"
  scheduledAt := none
  priority := 0
  maxAttempts := none
  idempotencyKey := some key

/-- A parser of JSON that knows one text. -/
def parseNull (s : String) : Except String Json :=
  if s = "null" then .ok sampleJson else .error "expected value at line 1 column 1"

/-- A parser of instants that knows no text. -/
def parseNoInstant (_ : String) : Except String Rfc3339 :=
  .error "input contains invalid characters"

def sampleNow : UtcNow := ⟨0, by decide, by decide⟩

/-- An engine that runs e-mail tasks and retains keys for one hour. -/
def emailEngine : Engine := ⟨["email"], ⟨[]⟩, 3600000000000⟩

def submitCall (key : String) : Call :=
  ⟨false, .saveIdempotent (newTask ⟨1⟩ 0 sampleQueue sampleKind sampleJson ⟨0⟩ .default 0
    (some (key, 86400000000000)) none none), none⟩

def submitMoves (key : String) : List Move := serve 1 (submitCall key) 0 [.all]

/-- What the arguments of the sample ask for. -/
def sampleRequest (key : String) : SubmitRequest where
  queue := sampleQueue
  kind := "email"
  payload := sampleJson
  scheduledAt := none
  priority := 0
  maxAttempts := none
  idempotencyKey := some key

theorem sampleSubmit_parse (key : String) :
    (sampleSubmit key).parse parseNull parseNoInstant = .ok (sampleRequest key) := by
  have hqueue : QueueName.tryFrom "default" = .ok sampleQueue :=
    QueueName.tryFrom_asStr sampleQueue
  simp only [Submit.parse, sampleSubmit, hqueue]
  rfl

theorem sampleSubmit_run (key : String) :
    (sampleSubmit key).run parseNull parseNoInstant ⟨1⟩ sampleNow = .ok (submitCall key) := by
  simp only [Submit.run, sampleSubmit_parse]
  rfl

/-- The row a submission with the key stores. -/
def submittedRow (key : String) : TaskRow :=
  insertedRow ⟨0⟩ (newTask ⟨1⟩ 0 sampleQueue sampleKind sampleJson ⟨0⟩ .default 0
    (some (key, 86400000000000)) none none) none

/-- The command stores its task, whether the key has characters or not. -/
theorem submitMoves_committed {key : String} (h : key = "" ∨ key = "order-1") :
    ∃ reply, (.committed 1 (submitCall key) ⟨0⟩ [⟨none, submittedRow key⟩] [] reply : Outcome) ∈
      System.shown (submitMoves key) := by
  rcases h with rfl | rfl
  · exact ⟨_, .tail _ (.tail _ (.head _))⟩
  · exact ⟨_, .tail _ (.tail _ (.head _))⟩

theorem runs_submitMoves {key : String} (h : key = "" ∨ key = "order-1") :
    Runs (fun _ _ _ => True) .empty (System.shown (submitMoves key))
      (System.after (submitMoves key)) := by
  apply Runs.of_moves _ (Admitted.of_forall (fun _ _ _ => trivial) _ _ _)
  rcases h with rfl | rfl
  · decide +kernel
  · decide +kernel

/-! ### The main result -/

/-- **A task of the command is stored as an engine would exactly where the engine accepts its key,
and the deployment keeps no audit log.** -/
theorem cli_submission_iff {ok : List Outcome → System → Move → Prop} {t : Table TaskRow.id}
    {log : List (ℕ × AuditRow)} {n : ℕ} {os : List Outcome} {db : System}
    (h : Runs ok (.idle t log n) os db) {fromStr : String → Except String Json}
    {parseFromRfc3339 : String → Except String Rfc3339} {submit : Submit} {id : TaskId}
    {now : UtcNow} {call : Call} (hrun : submit.run fromStr parseFromRfc3339 id now = .ok call)
    {sid : ℕ} {b : Began} {cs : List (Change TaskRow)} {ls : List (ℕ × AuditRow)} {reply : Reply}
    {row : TaskRow} (ho : .committed sid call b cs ls reply ∈ os) (hrow : ⟨none, row⟩ ∈ cs)
    (e : Engine) (hkind : submit.kind ∈ e.registry) (auditLog : Bool) :
    ∃ r, submit.parse fromStr parseFromRfc3339 = .ok r ∧
      (StoredAsByEngine e auditLog id now r b row (ls.map Prod.snd) ↔
        r.KeyAccepted e now ∧ auditLog = false) := by
  obtain ⟨r, op, hparse, hk, hop, rfl⟩ := Submit.run_eq_ok hrun
  refine ⟨r, hparse, ?_⟩
  obtain ⟨task, hop', hkey, hdue⟩ := SubmitRequest.op_eq hop
  obtain ⟨⟨lastError, rfl⟩, hls⟩ := stored_of_committed h hop' ho hrow
  -- an engine with the kind registered has only the key left to refuse
  have haccepted := SubmitRequest.accepted_iff hop (hk ▸ hkind)
  rw [hls]
  constructor
  · intro hs
    refine ⟨haccepted.mp hs.accepted, ?_⟩
    cases auditLog with
    | false => rfl
    | true => exact absurd hs.audit (by simp)
  · rintro ⟨hka, rfl⟩
    refine ⟨haccepted.mpr hka, fun key hrowkey => ?_, ?_, by simp [logged]⟩
    · obtain ⟨hpos, hle, -⟩ := hka key (hkey ▸ hrowkey)
      exact ⟨hpos, hle⟩
    -- the due time of the command is one that an engine can be given
    · have hyear := r.dueAt_year now
      rw [← hdue] at hyear
      exact hyear

/-- A task that is stored as by an engine without audit log. -/
theorem order_stored :
    StoredAsByEngine emailEngine false ⟨1⟩ sampleNow (sampleRequest "order-1") ⟨0⟩
      (submittedRow "order-1") [] := by
  obtain ⟨reply, ho⟩ := submitMoves_committed (.inr rfl)
  obtain ⟨r, hparse, hiff⟩ := cli_submission_iff (runs_submitMoves (.inr rfl))
    (sampleSubmit_run "order-1") ho List.mem_cons_self emailEngine List.mem_cons_self false
  cases (sampleSubmit_parse "order-1").symm.trans hparse
  refine hiff.mpr ⟨fun key hkey => ?_, rfl⟩
  obtain rfl : "order-1" = key := Option.some.inj hkey
  exact ⟨by decide, by decide, _, rfl⟩

/-- The command stores a task whose key has no character. No engine accepts it, and one with an
audit log would have written an audit row. -/
theorem empty_key_stored :
    (sampleSubmit "").run parseNull parseNoInstant ⟨1⟩ sampleNow = .ok (submitCall "") ∧
    Runs (fun _ _ _ => True) .empty (System.shown (submitMoves ""))
      (System.after (submitMoves "")) ∧
    (∃ reply, (.committed 1 (submitCall "") ⟨0⟩ [⟨none, submittedRow ""⟩] [] reply : Outcome) ∈
      System.shown (submitMoves "")) ∧
    (submittedRow "").idempotencyKey = some "" ∧
    (∀ record, emailEngine.submit ⟨1⟩ 0 (sampleRequest "").submission ≠ .ok record) ∧
    logged true ⟨0⟩ [createdEntry (submittedRow "")] ≠ [] := by
  refine ⟨sampleSubmit_run "", runs_submitMoves (.inl rfl), submitMoves_committed (.inl rfl), rfl,
    fun record h => ?_, by simp⟩
  cases h

end IronDefer
