import IronDefer.Infrastructure.Arithmetic
import IronDefer.Infrastructure.Row

/-!
# The updates of the tasks table

Every `UPDATE` statement of the adapter, as the rows it selects and the version it writes for each.
A claim, an outcome, a signal and a cancellation return the whole row. Where it has a time that is
later than the instants of the client, the client fails to decode it, before it goes on to its
commit.

## Main definitions

* `Began`, `Env`: what a transaction and a statement take from the database's surroundings
* `returned`: a returned row whose times the client can decode
* `Update`: the `UPDATE` statements
* `Update.selects`: the `WHERE` clause
* `Update.set`: the `SET` clause
* `Update.Rewrites`: what an update does to a row it selects, one case for each way to go
* `SameTask`: the columns no update changes

## Main results

* `Update.rewrites_of_set`: a selected row is rewritten by one of the cases
* `Update.Rewrites.sameTask`: an update leaves the identity and the limits of a task alone
-/

namespace IronDefer

open Rounding

/-- What a transaction takes from the database when it begins: `now()`. -/
structure Began where
  now : Timestamp
  deriving DecidableEq, Repr

/-- What the database decides for one statement: the rows a scan has found in its snapshot, and
the bits of `random()`. -/
structure Env where
  seen : TaskId → Bool
  randomBits : Fin (2 ^ 52)

/-- A statement that finds every row, with `random()` at its least value. -/
def Env.all : Env := ⟨fun _ => true, 0⟩

/-- `random()`: a double from zero up to one, of 52 random bits. -/
def Env.random (e : Env) : ℚ := (e.randomBits.val : ℚ) / 2 ^ 52

theorem Env.random_nonneg (e : Env) : 0 ≤ e.random := by
  unfold Env.random
  positivity

/-- The greatest value of `random()`. -/
theorem Env.random_le (e : Env) : e.random ≤ 1 - 1 / 2 ^ 52 := by
  have hle : (e.randomBits.val : ℚ) ≤ 2 ^ 52 - 1 := by
    have hlt : (e.randomBits.val : ℚ) + 1 ≤ 2 ^ 52 := by exact_mod_cast e.randomBits.isLt
    linarith
  rw [Env.random, div_le_iff₀ (by positivity)]
  linarith

/-- The times of a row that neither a claim nor a failure writes. -/
def TaskRow.lasting (r : TaskRow) : List Timestamp :=
  r.createdAt :: (r.idempotencyExpiresAt.toList ++ r.suspendedAt.toList)

/-- The times of a row. -/
def TaskRow.times (r : TaskRow) : List Timestamp :=
  r.scheduledAt :: r.updatedAt :: (r.claimedUntil.toList ++ r.lasting)

/-- The client can decode the times that neither a claim nor a failure writes. -/
def TaskRow.Readable (r : TaskRow) : Prop := ∀ t ∈ r.lasting, t ≤ maxTimestamp

/-- A row the client has decoded. -/
def returned (r : TaskRow) : Except SqlError TaskRow :=
  if ∀ t ∈ r.times, t ≤ maxTimestamp then .ok r else .error .columnDecode

theorem failsOnValues_returned (r : TaskRow) : FailsOnValues (returned r) :=
  failsOnValues_ite (failsOnValues_ok _) (failsOnValues_error rfl)

theorem TaskRow.forall_times_iff {r : TaskRow} {p : Timestamp → Prop} :
    (∀ t ∈ r.times, p t) ↔ p r.scheduledAt ∧ p r.updatedAt ∧ (∀ t, r.claimedUntil = some t → p t) ∧
      ∀ t ∈ r.lasting, p t := by
  simp only [TaskRow.times, List.forall_mem_cons, List.forall_mem_append, Option.mem_toList]

theorem returned_eq_ok_iff {r r' : TaskRow} :
    returned r = .ok r' ↔ r' = r ∧ ∀ t ∈ r.times, t ≤ maxTimestamp := by
  unfold returned
  split
  next h => rw [and_iff_left h, Except.ok.injEq, eq_comm]
  next h => simp [h]

/-! ## The statements -/

/-- The `UPDATE` statements of the adapter, with their bound parameters. -/
inductive Update where
  | claimNext (queue : QueueName) (workerId : WorkerId) (leaseDuration : Duration)
      (region : Option String)
  | complete (taskId : TaskId)
  | fail (taskId : TaskId) (error : String) (baseDelaySecs maxDelaySecs : ℚ)
  | recoverRetryable
  | recoverExhausted
  | cancel (taskId : TaskId)
  | releaseLeasesForWorker (workerId : WorkerId)
  | releaseLeaseForTask (taskId : TaskId)
  | suspend (taskId : TaskId)
  | signal (taskId : TaskId) (payload : Option Json)
  | expireSuspendedTasks (timeoutSecs : ℕ)
  | cleanupExpiredIdempotencyKeys (now : Timestamp)
  | writeCheckpoint (taskId : TaskId) (workerId : WorkerId) (data : Json)
  deriving DecidableEq

namespace Update

/-- The region clause of the claim: a worker without a region takes only tasks without one. -/
def regionMatches (region : Option String) (r : TaskRow) : Bool :=
  match region with
  | some region => r.region = none || r.region = some region
  | none => r.region = none

/-- `c < now()` for a nullable column. -/
def before (column : Option Timestamp) (now : Timestamp) : Bool :=
  match column with
  | some c => decide (c < now)
  | none => false

/-- The `WHERE` clause, on the current version of a row; for the claim, the one of its inner
`SELECT`. -/
def selects (b : Began) (r : TaskRow) : Update → Bool
  | claimNext queue _ _ region =>
    r.queue = queue.asStr && r.status = .pending && decide (r.scheduledAt ≤ b.now) &&
      regionMatches region r
  | complete taskId => r.id = taskId && r.status = .running
  | fail taskId _ _ _ => r.id = taskId && r.status = .running
  | recoverRetryable =>
    r.status = .running && before r.claimedUntil b.now &&
      decide (r.attempts.val < r.maxAttempts.val)
  | recoverExhausted =>
    r.status = .running && before r.claimedUntil b.now &&
      decide (r.maxAttempts.val ≤ r.attempts.val)
  | cancel taskId => r.id = taskId && (r.status = .pending || r.status = .suspended)
  | releaseLeasesForWorker workerId => r.claimedBy = some workerId && r.status = .running
  | releaseLeaseForTask taskId => r.id = taskId && r.status = .running
  | suspend taskId => r.id = taskId && r.status = .running
  | signal taskId _ => r.id = taskId && r.status = .suspended
  | expireSuspendedTasks timeoutSecs =>
    r.status = .suspended &&
      decide (r.suspendedAt.getD r.updatedAt < b.now - micros (binary64.round timeoutSecs))
  | cleanupExpiredIdempotencyKeys now =>
    before r.idempotencyExpiresAt now && r.status.isTerminal && r.idempotencyKey.isSome
  | writeCheckpoint taskId workerId _ =>
    r.id = taskId && r.claimedBy = some workerId && r.status = .running

/-- The statements that look for rows in a snapshot of the whole table; the others name one row by
its primary key. -/
def scans : Update → Bool
  | claimNext .. | recoverRetryable | recoverExhausted | releaseLeasesForWorker .. => true
  | expireSuspendedTasks .. | cleanupExpiredIdempotencyKeys .. => true
  | complete .. | fail .. | cancel .. | releaseLeaseForTask .. | suspend .. => false
  | signal .. | writeCheckpoint .. => false

/-- The parameters the database accepts: texts it can store, and a cut-off in range. -/
def checkParams (b : Began) : Update → Except SqlError Unit
  | claimNext _ _ _ region => require (region.all storableText)
  | fail _ error _ _ => require (storableText error)
  | signal _ payload => require (payload.all storableJson)
  | writeCheckpoint _ _ data => require (storableJson data)
  | expireSuspendedTasks timeoutSecs => do
    let timeout ← makeInterval (binary64.round timeoutSecs)
    let _ ← timestamp (b.now - timeout)
    return ()
  | _ => .ok ()

/-- The delay before a retry: `LEAST($3 * power(2, attempts - 1), $4) * (0.75 + random() * 0.5)`. -/
def retryDelay (e : Env) (attempts : I32) (baseDelaySecs maxDelaySecs : ℚ) : Except SqlError ℚ := do
  let exponent ← int4Add attempts (-1)
  let factor ← power2 exponent.val
  let backoff ← float8 (baseDelaySecs * factor)
  let half ← float8 (e.random * (1 / 2))
  let spread ← float8 (3 / 4 + half)
  float8 (min backoff maxDelaySecs * spread)

/-- The `SET` clause: the version written for the row `r`. A statement that returns whole rows fails
where the client cannot decode one. -/
def set (b : Began) (e : Env) (r : TaskRow) : Update → Except SqlError TaskRow
  | claimNext _ workerId leaseDuration _ => do
    let lease ← makeInterval (Duration.asSecsF64 leaseDuration)
    let claimedUntil ← timestamp (b.now + lease)
    let attempts ← int4Add r.attempts 1
    returned { r with
      status := .running
      claimedBy := some workerId
      claimedUntil := some claimedUntil
      attempts
      updatedAt := b.now }
  | complete _ => returned { r with status := .completed, checkpoint := none, updatedAt := b.now }
  | fail _ error baseDelaySecs maxDelaySecs => do
    if r.attempts.val < r.maxAttempts.val then
      let delay ← retryDelay e r.attempts baseDelaySecs maxDelaySecs
      let interval ← makeInterval delay
      let scheduledAt ← timestamp (b.now + interval)
      returned { r with
        status := .pending
        claimedBy := none
        claimedUntil := none
        lastError := some error
        scheduledAt
        updatedAt := b.now }
    else
      returned { r with status := .failed, lastError := some error, updatedAt := b.now }
  | recoverRetryable =>
    return { r with
      status := .pending
      claimedBy := none
      claimedUntil := none
      scheduledAt := b.now
      updatedAt := b.now }
  | recoverExhausted =>
    return { r with
      status := .failed
      lastError := some "lease expired: max attempts exhausted"
      updatedAt := b.now }
  | cancel _ => returned { r with status := .cancelled, updatedAt := b.now }
  | releaseLeasesForWorker _ | releaseLeaseForTask _ => do
    let attempts ← int4Add r.attempts 1
    return { r with
      status := .pending
      claimedBy := none
      claimedUntil := none
      scheduledAt := b.now
      updatedAt := b.now
      attempts }
  | suspend _ =>
    returned { r with
      status := .suspended
      claimedBy := none
      claimedUntil := none
      suspendedAt := some b.now
      updatedAt := b.now }
  | signal _ payload =>
    returned { r with
      status := .pending
      signalPayload := payload
      suspendedAt := none
      updatedAt := b.now }
  | expireSuspendedTasks _ =>
    return { r with
      status := .failed
      lastError := some "suspend timeout exceeded"
      updatedAt := b.now }
  | cleanupExpiredIdempotencyKeys _ =>
    return { r with idempotencyKey := none, idempotencyExpiresAt := none, updatedAt := b.now }
  | writeCheckpoint _ _ data => return { r with checkpoint := some data, updatedAt := b.now }

theorem failsOnValues_retryDelay (e : Env) (attempts : I32) (base max : ℚ) :
    FailsOnValues (retryDelay e attempts base max) := by
  apply (failsOnValues_int4Add _ _).bind
  intro exponent
  refine FailsOnValues.bind ?_ fun factor => (failsOnValues_float8 _).bind fun backoff =>
    (failsOnValues_float8 _).bind fun half => (failsOnValues_float8 _).bind fun spread =>
      failsOnValues_float8 _
  exact failsOnValues_ite (failsOnValues_error rfl) (failsOnValues_ok _)

/-- The new version of a row is refused for its values only. -/
theorem failsOnValues_set (b : Began) (e : Env) (r : TaskRow) (u : Update) :
    FailsOnValues (set b e r u) := by
  cases u with
  | claimNext =>
    exact (failsOnValues_makeInterval _).bind fun _ => (failsOnValues_timestamp _).bind fun _ =>
      (failsOnValues_int4Add _ _).bind fun _ => failsOnValues_returned _
  | fail =>
    refine failsOnValues_ite ?_ (failsOnValues_returned _)
    exact (failsOnValues_retryDelay _ _ _ _).bind fun _ => (failsOnValues_makeInterval _).bind fun _ =>
      (failsOnValues_timestamp _).bind fun _ => failsOnValues_returned _
  | releaseLeasesForWorker | releaseLeaseForTask =>
    exact (failsOnValues_int4Add _ _).bind fun _ => failsOnValues_ok _
  | complete | cancel | suspend | signal => exact failsOnValues_returned _
  | _ => exact failsOnValues_ok _

theorem failsOnValues_checkParams (b : Began) (u : Update) : FailsOnValues (checkParams b u) := by
  cases u with
  | claimNext | fail | signal | writeCheckpoint => exact failsOnValues_require _
  | expireSuspendedTasks =>
    exact (failsOnValues_makeInterval _).bind fun _ => (failsOnValues_timestamp _).bind fun _ =>
      failsOnValues_ok _
  | _ => exact failsOnValues_ok _

/-! ## What an update does -/

/-- What an update does to a row it selects: the guard the row has passed, and the version written
for it. -/
inductive Rewrites (b : Began) : Update → TaskRow → TaskRow → Prop
  | claimNext {queue w lease region r claimedUntil attempts} : r.status = .pending →
      r.queue = queue.asStr → r.scheduledAt ≤ b.now → regionMatches region r = true →
      attempts.val = r.attempts.val + 1 →
      Rewrites b (claimNext queue w lease region) r
        { r with
          status := .running
          claimedBy := some w
          claimedUntil := some claimedUntil
          attempts
          updatedAt := b.now }
  | complete {r} : r.status = .running →
      Rewrites b (complete r.id) r
        { r with status := .completed, checkpoint := none, updatedAt := b.now }
  | retry {error base max r scheduledAt} : r.status = .running →
      r.attempts.val < r.maxAttempts.val →
      Rewrites b (fail r.id error base max) r
        { r with
          status := .pending
          claimedBy := none
          claimedUntil := none
          lastError := some error
          scheduledAt
          updatedAt := b.now }
  | exhaust {error base max r} : r.status = .running → r.maxAttempts.val ≤ r.attempts.val →
      Rewrites b (fail r.id error base max) r
        { r with status := .failed, lastError := some error, updatedAt := b.now }
  | recoverRetryable {r t} : r.status = .running → r.claimedUntil = some t → t < b.now →
      r.attempts.val < r.maxAttempts.val →
      Rewrites b recoverRetryable r
        { r with
          status := .pending
          claimedBy := none
          claimedUntil := none
          scheduledAt := b.now
          updatedAt := b.now }
  | recoverExhausted {r t} : r.status = .running → r.claimedUntil = some t → t < b.now →
      r.maxAttempts.val ≤ r.attempts.val →
      Rewrites b recoverExhausted r
        { r with
          status := .failed
          lastError := some "lease expired: max attempts exhausted"
          updatedAt := b.now }
  | cancel {r} : r.status = .pending ∨ r.status = .suspended →
      Rewrites b (cancel r.id) r { r with status := .cancelled, updatedAt := b.now }
  | releaseLeasesForWorker {w r attempts} : r.status = .running → r.claimedBy = some w →
      attempts.val = r.attempts.val + 1 →
      Rewrites b (releaseLeasesForWorker w) r
        { r with
          status := .pending
          claimedBy := none
          claimedUntil := none
          scheduledAt := b.now
          updatedAt := b.now
          attempts }
  | releaseLeaseForTask {r attempts} : r.status = .running → attempts.val = r.attempts.val + 1 →
      Rewrites b (releaseLeaseForTask r.id) r
        { r with
          status := .pending
          claimedBy := none
          claimedUntil := none
          scheduledAt := b.now
          updatedAt := b.now
          attempts }
  | suspend {r} : r.status = .running →
      Rewrites b (suspend r.id) r
        { r with
          status := .suspended
          claimedBy := none
          claimedUntil := none
          suspendedAt := some b.now
          updatedAt := b.now }
  | signal {payload r} : r.status = .suspended →
      Rewrites b (signal r.id payload) r
        { r with
          status := .pending
          signalPayload := payload
          suspendedAt := none
          updatedAt := b.now }
  | expireSuspendedTasks {timeoutSecs : ℕ} {r} : r.status = .suspended →
      r.suspendedAt.getD r.updatedAt < b.now - micros (binary64.round timeoutSecs) →
      Rewrites b (expireSuspendedTasks timeoutSecs) r
        { r with
          status := .failed
          lastError := some "suspend timeout exceeded"
          updatedAt := b.now }
  | cleanupExpiredIdempotencyKeys {now r t} : r.idempotencyExpiresAt = some t → t < now →
      r.status.isTerminal = true → r.idempotencyKey.isSome = true →
      Rewrites b (cleanupExpiredIdempotencyKeys now) r
        { r with idempotencyKey := none, idempotencyExpiresAt := none, updatedAt := b.now }
  | writeCheckpoint {w data r} : r.status = .running → r.claimedBy = some w →
      Rewrites b (writeCheckpoint r.id w data) r
        { r with checkpoint := some data, updatedAt := b.now }

theorem before_eq_true {column : Option Timestamp} {now : Timestamp}
    (h : before column now = true) : ∃ t, column = some t ∧ t < now := by
  cases column with
  | none => cases h
  | some t => exact ⟨t, rfl, of_decide_eq_true h⟩

/-- **What an update does to a row it selects**, case by case. -/
theorem rewrites_of_set {b : Began} {e : Env} {r r' : TaskRow} {u : Update}
    (hs : selects b r u = true) (h : set b e r u = .ok r') : Rewrites b u r r' := by
  -- what is computed comes from `set`, and what the row was like before from `selects`
  cases u with
  | claimNext queue w lease region =>
    obtain ⟨lease', -, h⟩ := exists_of_bind_ok h
    obtain ⟨claimedUntil, -, h⟩ := exists_of_bind_ok h
    obtain ⟨attempts, ha, h⟩ := exists_of_bind_ok h
    obtain ⟨rfl, -⟩ := returned_eq_ok_iff.mp h
    simp only [selects, Bool.and_eq_true, decide_eq_true_eq] at hs
    exact .claimNext hs.1.1.2 hs.1.1.1 hs.1.2 hs.2 (val_of_int4Add ha)
  | complete id =>
    obtain ⟨rfl, -⟩ := returned_eq_ok_iff.mp h
    simp only [selects, Bool.and_eq_true, decide_eq_true_eq] at hs
    obtain ⟨rfl, hs⟩ := hs
    exact .complete hs
  | fail id error base max =>
    simp only [selects, Bool.and_eq_true, decide_eq_true_eq] at hs
    obtain ⟨rfl, hs⟩ := hs
    simp only [set] at h
    split at h
    next hlt =>
      obtain ⟨delay, -, h⟩ := exists_of_bind_ok h
      obtain ⟨interval, -, h⟩ := exists_of_bind_ok h
      obtain ⟨scheduledAt, -, h⟩ := exists_of_bind_ok h
      obtain ⟨rfl, -⟩ := returned_eq_ok_iff.mp h
      exact .retry hs hlt
    next hge =>
      obtain ⟨rfl, -⟩ := returned_eq_ok_iff.mp h
      exact .exhaust hs (Int.not_lt.mp hge)
  | recoverRetryable =>
    cases h
    simp only [selects, Bool.and_eq_true, decide_eq_true_eq] at hs
    obtain ⟨t, ht, hlt⟩ := before_eq_true hs.1.2
    exact .recoverRetryable hs.1.1 ht hlt hs.2
  | recoverExhausted =>
    cases h
    simp only [selects, Bool.and_eq_true, decide_eq_true_eq] at hs
    obtain ⟨t, ht, hlt⟩ := before_eq_true hs.1.2
    exact .recoverExhausted hs.1.1 ht hlt hs.2
  | cancel id =>
    obtain ⟨rfl, -⟩ := returned_eq_ok_iff.mp h
    simp only [selects, Bool.and_eq_true, Bool.or_eq_true, decide_eq_true_eq] at hs
    obtain ⟨rfl, hs⟩ := hs
    exact .cancel hs
  | releaseLeasesForWorker w =>
    obtain ⟨attempts, ha, h⟩ := exists_of_bind_ok h
    cases h
    simp only [selects, Bool.and_eq_true, decide_eq_true_eq] at hs
    exact .releaseLeasesForWorker hs.2 hs.1 (val_of_int4Add ha)
  | releaseLeaseForTask id =>
    obtain ⟨attempts, ha, h⟩ := exists_of_bind_ok h
    cases h
    simp only [selects, Bool.and_eq_true, decide_eq_true_eq] at hs
    obtain ⟨rfl, hs⟩ := hs
    exact .releaseLeaseForTask hs (val_of_int4Add ha)
  | suspend id =>
    obtain ⟨rfl, -⟩ := returned_eq_ok_iff.mp h
    simp only [selects, Bool.and_eq_true, decide_eq_true_eq] at hs
    obtain ⟨rfl, hs⟩ := hs
    exact .suspend hs
  | signal id payload =>
    obtain ⟨rfl, -⟩ := returned_eq_ok_iff.mp h
    simp only [selects, Bool.and_eq_true, decide_eq_true_eq] at hs
    obtain ⟨rfl, hs⟩ := hs
    exact .signal hs
  | expireSuspendedTasks timeoutSecs =>
    cases h
    simp only [selects, Bool.and_eq_true, decide_eq_true_eq] at hs
    exact .expireSuspendedTasks hs.1 hs.2
  | cleanupExpiredIdempotencyKeys now =>
    cases h
    simp only [selects, Bool.and_eq_true] at hs
    obtain ⟨t, ht, hlt⟩ := before_eq_true hs.1.1
    exact .cleanupExpiredIdempotencyKeys ht hlt hs.1.2 hs.2
  | writeCheckpoint id w data =>
    cases h
    simp only [selects, Bool.and_eq_true, decide_eq_true_eq] at hs
    obtain ⟨⟨rfl, hw⟩, hs⟩ := hs
    exact .writeCheckpoint hs hw

end Update

/-- An update of a finished row leaves it finished. -/
theorem Update.Rewrites.not_isTerminal {b : Began} {u : Update} {r r' : TaskRow}
    (h : Rewrites b u r r') (hr' : r'.status.isTerminal = false) : r.status.isTerminal = false := by
  cases h with
  | cleanupExpiredIdempotencyKeys => exact hr'
  | cancel hs =>
    rcases hs with hs | hs
    · rw [hs]
      rfl
    · rw [hs]
      rfl
  | _ hs =>
    rw [hs]
    rfl

/-- Two versions of one task: the columns no statement changes after the insert agree. -/
structure SameTask (r r' : TaskRow) : Prop where
  id : r'.id = r.id
  queue : r'.queue = r.queue
  kind : r'.kind = r.kind
  payload : r'.payload = r.payload
  priority : r'.priority = r.priority
  maxAttempts : r'.maxAttempts = r.maxAttempts
  createdAt : r'.createdAt = r.createdAt
  traceId : r'.traceId = r.traceId
  region : r'.region = r.region

/-- An update leaves the identity and the limits of a task alone. -/
theorem Update.Rewrites.sameTask {b : Began} {u : Update} {r r' : TaskRow}
    (h : Rewrites b u r r') : SameTask r r' := by
  cases h <;> exact ⟨rfl, rfl, rfl, rfl, rfl, rfl, rfl, rfl, rfl⟩

end IronDefer
