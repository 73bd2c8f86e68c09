import IronDefer.Application.Scheduler
import IronDefer.Infrastructure.History

/-!
# The invariant of stored rows

How the columns of a row relate to its status, for the tasks the scheduler has submitted; and no
operation is refused for the check the table makes of it.

## Main definitions

* `TaskRow.WellFormed`: the relations between the status and the columns of a row
* `TaskRow.Valid`: the names and limits of a row are those of a record
* `Call.Submits`: a call inserts tasks of a set only as the scheduler builds them

## Main results

* `Runs.allRows`: the rule of row invariants, for the system
* `Runs.valid`: the rows of a run have the names and limits of records
* `Runs.wellFormed_submitted`: submitted rows are well formed
* `Runs.submits_of_claimFieldsCheck`: no operation violates the claim-fields check
-/

namespace IronDefer

open RowStore

/-- The columns of a row fit its status. -/
structure TaskRow.WellFormed (r : TaskRow) : Prop where
  claim : r.claimedBy.isSome = r.claimedUntil.isSome
  running : r.status = .running →
    r.claimedBy.isSome ∧ r.claimedUntil.isSome ∧ r.suspendedAt = none
  pending : r.status = .pending →
    r.claimedBy = none ∧ r.claimedUntil = none ∧ r.suspendedAt = none
  suspended : r.status = .suspended →
    r.claimedBy = none ∧ r.claimedUntil = none ∧ r.suspendedAt.isSome
  cancelled : r.status = .cancelled → r.claimedBy = none ∧ r.claimedUntil = none
  completed : r.status = .completed → r.checkpoint = none

/-- The names and limits of a row are those of a record. -/
structure TaskRow.Valid (r : TaskRow) : Prop where
  kind : r.kind.isEmpty = false
  queue : QueueName.validate r.queue = .ok ()
  nonneg : 0 ≤ r.attempts.val
  pos : 1 ≤ r.maxAttempts.val

/-! ## Every operation keeps it -/

theorem Fresh.wellFormed {task : TaskRecord} (h : Fresh task) (b : Began)
    (lastError : Option String) : (insertedRow b task lastError).WellFormed := by
  have hby : (insertedRow b task lastError).claimedBy = none := h.claimedBy
  have huntil : (insertedRow b task lastError).claimedUntil = none := by
    simp [insertedRow, h.claimedUntil]
  have hsusp : (insertedRow b task lastError).suspendedAt = none := by
    simp [insertedRow, h.suspendedAt]
  have hs : (insertedRow b task lastError).status = .pending := h.status
  constructor <;> simp [hby, huntil, hsusp, hs]

theorem insertedRow_valid (b : Began) (task : TaskRecord) (lastError : Option String) :
    (insertedRow b task lastError).Valid :=
  ⟨task.kind.nonempty, task.queue.valid, task.attempts.nonneg, task.maxAttempts.pos⟩

/-- What an update does to a row keeps the columns in line with the status. -/
theorem Update.Rewrites.wellFormed {b : Began} {u : Update} {r r' : TaskRow}
    (h : Rewrites b u r r') (hr : r.WellFormed) : r'.WellFormed := by
  cases h with
  | claimNext hs =>
    obtain ⟨-, -, hsusp⟩ := hr.pending hs
    constructor <;> simp [hsusp]
  | complete hs =>
    constructor <;> simp [hr.claim]
  | retry hs | recoverRetryable hs | releaseLeasesForWorker hs | releaseLeaseForTask hs =>
    obtain ⟨-, -, hsusp⟩ := hr.running hs
    constructor <;> simp [hsusp]
  | exhaust | recoverExhausted | expireSuspendedTasks =>
    constructor <;> simp [hr.claim]
  | cancel hs =>
    have hclaim : r.claimedBy = none ∧ r.claimedUntil = none := by
      rcases hs with hs | hs
      · exact ⟨(hr.pending hs).1, (hr.pending hs).2.1⟩
      · exact ⟨(hr.suspended hs).1, (hr.suspended hs).2.1⟩
    constructor <;> simp [hclaim]
  | suspend => constructor <;> simp
  | signal hs =>
    obtain ⟨hby, huntil, -⟩ := hr.suspended hs
    constructor <;> simp [hby, huntil]
  | cleanupExpiredIdempotencyKeys => exact ⟨hr.1, hr.2, hr.3, hr.4, hr.5, hr.6⟩
  | writeCheckpoint hs => 
    refine ⟨hr.1, hr.2, hr.3, hr.4, hr.5, fun h => ?_⟩
    rw [hs] at h
    cases h

theorem Update.Rewrites.valid {b : Began} {u : Update} {r r' : TaskRow} (h : Rewrites b u r r')
    (hr : r.Valid) : r'.Valid where
  kind := h.sameTask.kind ▸ hr.kind
  queue := h.sameTask.queue ▸ hr.queue
  nonneg := Int.le_trans hr.nonneg h.step.attempts_le
  pos := h.sameTask.maxAttempts ▸ hr.pos

/-- **The rule of row invariants**: what inserted rows satisfy and updates keep holds of every row
version of a run. -/
theorem Runs.allRows {I : TaskRow → Prop} {ok : List Outcome → System → Move → Prop}
    {t : Table TaskRow.id} {log : List (ℕ × AuditRow)} {n : ℕ} {os : List Outcome} {db : System}
    (h : Runs ok (.idle t log n) os db) (ht : ∀ r ∈ t.rows, I r)
    (insert : ∀ os db sid call b, ok os db (.start sid call b) → ∀ task ∈ call.op.tasks,
      ∀ b lastError, I (insertedRow b task lastError))
    (update : ∀ b u r r', Update.Rewrites b u r r' → I r → I r') :
    db.AllVersions I ∧ db.AllStatements fun call _ q => call.op.Sends q ∧
      ∀ task ∈ call.op.tasks, ∀ b lastError, I (insertedRow b task lastError) := by
  refine Reaches.allVersions ?_ ?_ ⟨ht, fun s hs => by simp [Db.idle] at hs⟩
    (fun s hs => by simp [Db.idle] at hs) h
  · intro call b q e rows free eff hq hrows he v hv
    obtain ⟨o, hc, hold⟩ := written_of_exec he v hv
    cases hc with
    | insert => exact hq.2 _ hq.1 _ _
    | update hrw => exact update _ _ _ _ hrw (hrows _ (hold _ rfl))
  · intro os db sid call b hok
    exact (call.op.program_all call.auditLog).mono fun q hq => ⟨hq, insert _ _ _ _ _ hok⟩

/-! ## Tasks submitted by the scheduler -/

/-- A call inserts tasks of `S` only as the scheduler builds them. -/
def Call.Submits (S : TaskId → Prop) (c : Call) : Prop :=
  ∀ task ∈ c.op.tasks, S task.id → Enqueued task

section Submitted

variable {S : TaskId → Prop} {os : List Outcome} {db : System}

/-- Stored rows are valid. -/
theorem Runs.valid {ok : List Outcome → System → Move → Prop} (h : Runs ok .empty os db) :
    db.AllVersions TaskRow.Valid :=
  (Runs.allRows h (by simp) (fun _ _ _ _ _ _ _ _ _ _ => insertedRow_valid ..)
    fun _ _ _ _ hrw hr => hrw.valid hr).1

/-- **Submitted rows are well formed**, in every version. -/
theorem Runs.wellFormed_submitted (h : Runs (Calls (Call.Submits S)) .empty os db) :
    db.AllVersions fun r => S r.id → r.WellFormed :=
  (Runs.allRows (I := fun r => S r.id → r.WellFormed) h (by simp)
    (fun _ _ _ _ _ hok task ht b' lastError hS => (hok task ht hS).fresh.wellFormed b' lastError)
    fun _ _ _ _ hrw hr hS => hrw.wellFormed (hr (hrw.sameTask.id ▸ hS))).1

/-- Where all inserted tasks are the scheduler's, every stored row is well formed. -/
theorem Runs.wellFormed_enqueued {P : Call → Prop} (hP : ∀ c, P c → c.op.Enqueues)
    (h : Runs (Calls P) .empty os db) : ∀ r ∈ db.table.rows, r.WellFormed := fun r hr =>
  (Runs.wellFormed_submitted (S := fun _ => True)
    (h.calls_mono fun c hc task ht _ => hP c hc task ht)).1 r hr trivial

end Submitted

theorem Update.Rewrites.claim {b : Began} {u : Update} {r r' : TaskRow} (h : Rewrites b u r r')
    (hr : r.claimedBy.isSome = r.claimedUntil.isSome) :
    r'.claimedBy.isSome = r'.claimedUntil.isSome := by
  cases h <;> first | rfl | exact hr

/-- Every row version of a run from the empty store passes the claim-fields check; the statements
to come are those of admitted calls. -/
theorem Runs.claim {P : Call → Prop} {os : List Outcome} {db : System}
    (h : Runs (Calls P) .empty os db) :
    db.AllVersions (fun r => r.claimedBy.isSome = r.claimedUntil.isSome) ∧
      db.AllStatements fun call _ q => call.op.Sends q ∧ P call := by
  refine Reaches.allVersions ?_ (fun _ _ _ call _ hok =>
      (call.op.program_all call.auditLog).mono fun q hq => ⟨hq, hok⟩)
    ⟨by simp [System.empty, Db.idle], fun s hs => by simp [System.empty, Db.idle] at hs⟩
    (fun s hs => by simp [System.empty, Db.idle] at hs) h
  intro call b q e rows free eff hq hrows he v hv
  obtain ⟨o, hc, hold⟩ := written_of_exec he v hv
  cases hc with
  | insert =>
    obtain ⟨r, hr, he⟩ := exists_of_bind_ok he
    cases he
    cases r with
    | none => cases hv
    | some r =>
      obtain rfl := List.mem_singleton.mp hv
      exact claim_of_execInsert hr
  | update hrw => exact hrw.claim (hrows _ (hold _ rfl))

/-- **No operation is refused for the claim-fields check**, unless it saves a task that is not in
`S`. -/
theorem Runs.submits_of_claimFieldsCheck {S : TaskId → Prop} {os : List Outcome} {db : System}
    (h : Runs (Calls (Call.Submits S)) .empty os db) {sid : ℕ} {call : Call}
    (ho : .failed sid call (some .claimFieldsCheck) ∈ os) :
    ∃ task ∈ call.op.tasks, ¬ S task.id := by
  obtain ⟨os', db', s, q, k, e, hr, hs, rfl, hrest, he⟩ := Reaches.of_failed h ho
  have hall := (Runs.claim hr).2 s hs
  rw [hrest, Program.all_stmt] at hall
  generalize hview : (db'.view s).rows = rows at he
  -- an update keeps the check, so that only an insert can break it
  cases refused_of_exec he with
  | value hv => cases hv
  | @insertClaim task lastError d hne =>
    obtain ⟨⟨htask, hsub⟩, -⟩ := hall
    refine ⟨task, htask, fun hS => hne ?_⟩
    exact ((hsub task htask hS).fresh.wellFormed s.began lastError).claim
  | updateClaim hmem hrw hne =>
    exact absurd (hrw.claim ((Runs.claim hr).1.view hs _ (hview ▸ hmem))) hne

end IronDefer
