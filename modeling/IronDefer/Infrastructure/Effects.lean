import IronDefer.Infrastructure.Repository
import IronDefer.RowStore.History

/-!
# What an operation does to single rows

An operation is known by the tasks it may insert and the updates it may send. In a run of any
operations, every change a transaction commits is caused by one of these, on the version of the
row that was committed before.

## Main definitions

* `Op.tasks`, `Op.updates`: what an operation may insert, and the updates it may send
* `Op.Causes`: the row changes an operation can make
* `System`, `Move`, `Outcome`: the database running the repository's calls
* `Runs`: the runs of the system

## Main results

* `Op.program_all`: an operation sends no other statements
* `Runs.causes`: every committed change of a run is caused by the operation that committed it
-/

namespace IronDefer

open RowStore

def TxCall.task : TxCall → TaskRecord
  | saveInTx task | saveIdempotentInTx task => task

/-- The tasks an operation may insert. -/
def Op.tasks : Op → List TaskRecord
  | save task | saveIdempotent task => [task]
  | inTx calls _ => calls.map TxCall.task
  | _ => []

/-- The updates an operation may send. -/
def Op.updates : Op → List Update
  | cleanupExpiredIdempotencyKeys now =>
    [.cleanupExpiredIdempotencyKeys (DateTime.toTimestamp now)]
  | claimNext queue workerId leaseDuration region => [.claimNext queue workerId leaseDuration region]
  | complete taskId => [.complete taskId]
  | fail taskId errorMessage baseDelaySecs maxDelaySecs =>
    [.fail taskId (truncateLastError errorMessage) baseDelaySecs maxDelaySecs]
  | suspend taskId => [.suspend taskId]
  | signal taskId payload => [.signal taskId payload]
  | releaseLeaseForTask taskId => [.releaseLeaseForTask taskId]
  | releaseLeasesForWorker workerId => [.releaseLeasesForWorker workerId]
  | recoverZombieTasks => [.recoverRetryable, .recoverExhausted]
  | cancel taskId => [.cancel taskId]
  | expireSuspendedTasks suspendTimeout => [.expireSuspendedTasks (suspendTimeout / 1000000000)]
  | writeCheckpoint taskId workerId data => [.writeCheckpoint taskId workerId data]
  | save _ | saveIdempotent _ | inTx _ _ | findById _ => []

/-! An update tells the operation that sends it, but for those of a recovery. -/

theorem Op.mem_updates_claimNext {op : Op} {queue : QueueName} {w : WorkerId} {lease : Duration}
    {region : Option String} :
    Update.claimNext queue w lease region ∈ op.updates ↔ op = .claimNext queue w lease region := by
  cases op <;> simp [updates, eq_comm]

theorem Op.mem_updates_signal {op : Op} {id : TaskId} {payload : Option Json} :
    Update.signal id payload ∈ op.updates ↔ op = .signal id payload := by
  cases op <;> simp [updates, eq_comm]

theorem Op.mem_updates_cancel {op : Op} {id : TaskId} :
    Update.cancel id ∈ op.updates ↔ op = .cancel id := by
  cases op <;> simp [updates, eq_comm]

theorem Op.mem_updates_expireSuspendedTasks {op : Op} {timeoutSecs : ℕ} :
    Update.expireSuspendedTasks timeoutSecs ∈ op.updates ↔
      ∃ timeout, op = .expireSuspendedTasks timeout ∧ timeoutSecs = timeout / 1000000000 := by
  cases op <;> simp [updates]

/-- The statements an operation may send. -/
def Op.Sends (op : Op) : Stmt → Prop
  | .insertTask task _ _ => task ∈ op.tasks
  | .update u => u ∈ op.updates
  | .selectById _ | .selectActive .. | .insertAudit .. => True

/-- The row changes an operation can make: a task inserted, or a row rewritten by an update. -/
inductive Op.Causes (op : Op) (b : Began) : Change TaskRow → Prop
  | insert {task lastError} : task ∈ op.tasks → Causes op b ⟨none, insertedRow b task lastError⟩
  | update {u r r'} : u ∈ op.updates → Update.Rewrites b u r r' → Causes op b ⟨some r, r'⟩

theorem Op.Causes.of_none {op : Op} {b : Began} {c : Change TaskRow} (h : op.Causes b c)
    (hold : c.old = none) :
    ∃ task ∈ op.tasks, ∃ lastError, c.new = insertedRow b task lastError := by
  cases h with
  | insert ht => exact ⟨_, ht, _, rfl⟩
  | update => cases hold

theorem Op.Causes.of_some {op : Op} {b : Began} {c : Change TaskRow} {r : TaskRow}
    (h : op.Causes b c) (hold : c.old = some r) :
    ∃ u ∈ op.updates, Update.Rewrites b u r c.new := by
  cases h with
  | insert => cases hold
  | update hu hrw =>
    cases hold
    exact ⟨_, hu, hrw⟩

theorem Op.Sends.causes {op : Op} {q : Stmt} {b : Began} {c : Change TaskRow} (hq : op.Sends q)
    (hc : Caused b q c) : op.Causes b c := by
  cases hc with
  | insert => exact .insert hq
  | update hr => exact .update hq hr

/-! ## The statements of an operation -/

section Statements

variable {P : Stmt → Prop} {α : Type}

theorem all_exec {q : Stmt} (h : P q) : (exec q).All P := ⟨h, fun _ => trivial⟩

theorem all_insertAuditRow
    (h : ∀ id fs ts w t m r, P (.insertAudit id fs ts w t m r)) (auditLog taskId fromStatus toStatus
      workerId traceId metadata region) :
    (insertAuditRow auditLog taskId fromStatus toStatus workerId traceId metadata region).All P := by
  unfold insertAuditRow
  split
  · split
    · trivial
    · exact all_exec (h ..)
    · exact all_exec (h ..)
  · trivial

theorem all_transition (h : ∀ id fs ts w t m r, P (.insertAudit id fs ts w t m r)) {u : Update}
    (hu : P (.update u)) {auditLog fromStatus toStatus workerId metadata} {otherwise}
    (ho : otherwise.All P) :
    (transition auditLog u fromStatus toStatus workerId metadata otherwise).All P := by
  apply (all_exec hu).bind
  intro rows
  split
  · exact (all_insertAuditRow h ..).bind fun _ => trivial
  · exact ho

end Statements

theorem saveInTx_all {op : Op} {task : TaskRecord} (h : task ∈ op.tasks) (auditLog : Bool) :
    (saveInTx auditLog task).All op.Sends := by
  apply (all_exec h).bind
  intro row
  split
  · trivial
  · exact (all_insertAuditRow (fun _ _ _ _ _ _ _ => trivial) ..).bind fun _ => trivial

theorem saveIdempotentInTx_all {op : Op} {task : TaskRecord} (h : task ∈ op.tasks)
    (auditLog : Bool) : (saveIdempotentInTx auditLog task).All op.Sends := by
  apply (all_exec h).bind
  intro row
  split
  · exact (all_insertAuditRow (fun _ _ _ _ _ _ _ => trivial) ..).bind fun _ => trivial
  · apply (all_exec trivial).bind
    intro row
    split <;> trivial

theorem runCalls_all {op : Op} (auditLog : Bool) {calls : List TxCall}
    (h : ∀ task, .saveInTx task ∈ calls ∨ .saveIdempotentInTx task ∈ calls → task ∈ op.tasks) :
    (runCalls auditLog calls).All op.Sends := by
  induction calls with
  | nil => trivial
  | cons call calls ih =>
    have hcall : (call.program auditLog).All op.Sends := by
      cases call with
      | saveInTx task => exact saveInTx_all (h task (.inl List.mem_cons_self)) auditLog
      | saveIdempotentInTx task =>
        exact saveIdempotentInTx_all (h task (.inr List.mem_cons_self)) auditLog
    apply hcall.bind
    intro reply
    refine (ih fun task ht => h task ?_).bind fun replies => trivial
    exact ht.imp (List.mem_cons_of_mem _) (List.mem_cons_of_mem _)

/-- **An operation sends only its own statements.** -/
theorem Op.program_all (op : Op) (auditLog : Bool) : (op.program auditLog).All op.Sends := by
  -- audit writes are always allowed; what matters are the inserts and updates
  have haudit : ∀ id fs ts w t m r, op.Sends (.insertAudit id fs ts w t m r) :=
    fun _ _ _ _ _ _ _ => trivial
  cases op with
  | save task =>
    apply (all_exec (P := Op.Sends (.save task)) List.mem_cons_self).bind
    intro row
    split
    · trivial
    · exact (all_insertAuditRow haudit ..).bind fun _ => trivial
  | saveIdempotent task =>
    apply (all_exec (P := Op.Sends (.saveIdempotent task)) List.mem_cons_self).bind
    intro row
    split
    · exact (all_insertAuditRow haudit ..).bind fun _ => trivial
    · apply (all_exec trivial).bind
      intro row
      split <;> trivial
  | inTx calls commit =>
    refine (runCalls_all auditLog fun task ht => ?_).bind fun _ => trivial
    rcases ht with ht | ht <;> exact List.mem_map.mpr ⟨_, ht, rfl⟩
  | cleanupExpiredIdempotencyKeys now =>
    exact (all_exec (P := Op.Sends (.cleanupExpiredIdempotencyKeys now)) List.mem_cons_self).bind
      fun _ => trivial
  | findById id =>
    apply (all_exec trivial).bind
    intro row
    split <;> trivial
  | claimNext queue workerId leaseDuration region =>
    refine (all_exec (P := Op.Sends (.claimNext queue workerId leaseDuration region))
      List.mem_cons_self).bind fun rows => ?_
    split
    · exact (all_insertAuditRow haudit ..).bind fun _ => trivial
    · trivial
  | complete taskId => exact all_transition haudit List.mem_cons_self trivial
  | fail taskId errorMessage baseDelaySecs maxDelaySecs =>
    exact all_transition haudit List.mem_cons_self trivial
  | suspend taskId => exact all_transition haudit List.mem_cons_self trivial
  | signal taskId payload =>
    simp only [Op.program, IronDefer.signal]
    split
    · trivial
    · apply all_transition haudit List.mem_cons_self
      apply (all_exec trivial).bind
      intro row
      split <;> trivial
  | releaseLeaseForTask taskId =>
    refine (all_exec (P := Op.Sends (.releaseLeaseForTask taskId)) List.mem_cons_self).bind
      fun rows => ?_
    split
    · exact (all_insertAuditRow haudit ..).bind fun _ => trivial
    · trivial
  | releaseLeasesForWorker workerId =>
    refine (all_exec (P := Op.Sends (.releaseLeasesForWorker workerId)) List.mem_cons_self).bind
      fun rows => ?_
    exact (Program.All.forM (fun _ => all_insertAuditRow haudit ..) rows).bind fun _ => trivial
  | recoverZombieTasks =>
    refine (all_exec (P := Op.Sends .recoverZombieTasks) List.mem_cons_self).bind
      fun retryable => ?_
    refine (all_exec (P := Op.Sends .recoverZombieTasks)
      (List.mem_cons_of_mem _ List.mem_cons_self)).bind fun exhausted => ?_
    apply (Program.All.forM (fun _ => all_insertAuditRow haudit ..) retryable).bind
    intro _
    apply (Program.All.forM (fun _ => all_insertAuditRow haudit ..) exhausted).bind
    intro _
    split <;> trivial
  | cancel taskId =>
    apply (all_exec trivial).bind
    intro snapshot
    refine Program.All.bind ?_ fun cancelled => ?_
    · unfold cancelAttempt
      split
      · exact all_exec (P := Op.Sends (.cancel taskId)) List.mem_cons_self
      · trivial
    · split
      · exact (all_insertAuditRow haudit ..).bind fun _ => trivial
      · split <;> trivial
  | expireSuspendedTasks suspendTimeout =>
    refine (all_exec (P := Op.Sends (.expireSuspendedTasks suspendTimeout))
      List.mem_cons_self).bind fun rows => ?_
    exact (Program.All.forM (fun _ => all_insertAuditRow haudit ..) rows).bind fun _ => trivial
  | writeCheckpoint taskId workerId data =>
    refine (all_exec (P := Op.Sends (.writeCheckpoint taskId workerId data))
      List.mem_cons_self).bind fun rows => ?_
    split <;> trivial

/-- Along every run of an operation, its changes are caused by it. -/
theorem Op.along_causes (op : Op) (auditLog : Bool) (b : Began)
    (rely : Table TaskRow.id → (TaskId → Bool) → Env → Prop) :
    (op.program auditLog).Along postgres b rely (fun cs _ => ∀ c ∈ cs, op.Causes b c)
      (fun cs _ _ => ∀ c ∈ cs, op.Causes b c) [] [] :=
  Program.All.along
    (fun _ hq _ _ _ _ he c hc => hq.causes (caused_of_exec he c hc))
    (op.program_all auditLog) (by simp)

/-! ## The system -/

/-- The database running the repository's calls. -/
abbrev System := Db TaskRow.id AuditRow Stmt Stmt.Res Call Began Reply

abbrev Move := Event Call Began Env

abbrev Outcome := Output Call Began TaskRow AuditRow Reply SqlError

namespace System

abbrev step : System → Move → Option (System × Outcome) := Db.step postgres Call.program

/-- The system with no tasks and an empty audit log. -/
def empty : System := .idle ∅ [] 1

end System

/-- The moves of a call that executes its statements one after the other, and then ends. -/
def serve (sid : ℕ) (call : Call) (now : Timestamp) (es : List Env) : List Move :=
  .start sid call ⟨now⟩ :: (es.map (.exec sid) ++ [.finish sid])

/-- The runs of the system from `db₀` whose moves `ok` admits. -/
abbrev Runs (ok : List Outcome → System → Move → Prop) (db₀ : System) :
    List Outcome → System → Prop :=
  Reaches (Db.step postgres Call.program) ok db₀

/-- Where a list of moves leads, and what it shows; nothing where it is stuck. -/
def System.resume (db₀ : System) (evs : List Move) : System × List Outcome :=
  (run System.step db₀ evs).getD (db₀, [])

/-- Where a list of moves leads from the empty system. -/
def System.after (evs : List Move) : System := (System.empty.resume evs).1

/-- What a list of moves shows from the empty system. -/
def System.shown (evs : List Move) : List Outcome := (System.empty.resume evs).2

theorem Runs.resume {ok : List Outcome → System → Move → Prop} {db₀ : System} (evs : List Move)
    (hok : Admitted System.step ok [] db₀ evs) (h : (run System.step db₀ evs).isSome) :
    Runs ok db₀ (db₀.resume evs).2 (db₀.resume evs).1 := by
  have hr := Reaches.of_isSome hok h
  obtain ⟨⟨db, os⟩, he⟩ := Option.isSome_iff_exists.mp h
  simpa [System.resume, he] using hr

theorem Runs.of_moves {ok : List Outcome → System → Move → Prop} (evs : List Move)
    (hok : Admitted System.step ok [] .empty evs) (h : (run System.step .empty evs).isSome) :
    Runs ok .empty (System.shown evs) (System.after evs) :=
  Runs.resume evs hok h

/-- What a commit has changed is caused by the operation that committed. -/
def Outcome.Caused : Outcome → Prop
  | .committed _ call b cs _ _ => ∀ c ∈ cs, call.op.Causes b c
  | _ => True

variable {ok : List Outcome → System → Move → Prop} {t : Table TaskRow.id}
  {log : List (ℕ × AuditRow)} {n : ℕ} {os : List Outcome} {db : System}

/-- **Every committed change of a run is caused by the operation that committed it.** -/
theorem Runs.causes (h : Runs ok (.idle t log n) os db) : ∀ o ∈ os, Outcome.Caused o := by
  have hp : Proved postgres Call.program ok (.idle t log n) (fun _ _ _ => True) (fun _ _ => True)
      (fun call b cs _ _ => ∀ c ∈ cs, call.op.Causes b c) fun _ => True :=
    { init := trivial
      programs := fun _ _ _ call b _ _ => 
        (call.op.along_causes call.auditLog b _).imp (fun _ _ _ => trivial) fun _ _ _ h => h
      within := fun _ _ _ _ _ _ _ => trivial
      exclusive := Db.exclusive_idle _ _ _
      sound := Db.sound_idle _ _ _ }
  intro o ho
  have hmeets := Reaches.meets hp h o ho
  cases o with
  | committed sid call b cs ls r => exact hmeets trivial
  | _ => trivial

end IronDefer
