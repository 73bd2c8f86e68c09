import IronDefer.Domain.Queue
import IronDefer.Infrastructure.StateMachine

/-!
# The database refines the queue

Transactions of many statements, that see what others have committed in between, skip what others
hold, fail and are rolled back, serve the queue one request at a time: a commit is one request
served, at the moment of the commit, and nothing else is. What it answers tells which jobs it has
moved.

## Main definitions

* `jobsOf`: the jobs of a committed table
* `Op.demand`: what an operation asks of the queue
* `Outcome.serving`: the request a commit has served
* `Response.Tells`: what an answer tells about the jobs moved

## Main results

* `Op.Causes.asks`: an operation makes the changes it asks for
* `refines_queue`: a commit serves its request
* `queue_refined`: **every run of the database is a path of the queue**, whose answers are true
-/

namespace IronDefer

open RowStore

/-! ## The abstraction -/

def TaskRow.job (r : TaskRow) : Job := ⟨r.queue, r.life⟩

def TaskRecord.job (record : TaskRecord) : Job where
  queue := record.queue.asStr
  life := {
    status := record.status
    attempts := record.attempts.get.val
    maxAttempts := record.maxAttempts.get.val
    holder := if record.status = .running then record.claimedBy else none }

/-- The jobs of a committed table. -/
def jobsOf (db : System) : Jobs := fun id => (db.table.get id).map TaskRow.job

/-- What an operation asks of the queue. -/
def Op.demand : Op → Demand
  | save _ | saveIdempotent _ | inTx .. => .submit
  | claimNext queue workerId _ _ => .claim queue.asStr workerId
  | complete taskId => .complete taskId
  | fail taskId _ _ _ => .fail taskId
  | suspend taskId => .suspend taskId
  | signal taskId _ => .signal taskId
  | releaseLeaseForTask taskId => .giveBack taskId
  | releaseLeasesForWorker workerId => .giveBackAll workerId
  | recoverZombieTasks => .recover
  | cancel taskId => .cancel taskId
  | expireSuspendedTasks _ => .expire
  | cleanupExpiredIdempotencyKeys _ | findById _ | writeCheckpoint .. => .note

/-- The jobs some changes have moved. -/
def movedJobs (cs : List (Change TaskRow)) : List (TaskId × Job) :=
  cs.map fun c => (c.new.id, c.new.job)

/-- The request that a commit has served. -/
def Outcome.serving : Outcome → Option Serving
  | .committed _ call _ cs _ _ => some ⟨call.op.demand, movedJobs cs⟩
  | .silent | .failed .. | .returned .. => none

/-- What a report says of a recovered task. -/
def recoveryOf (t : TaskId × QueueName × TaskKind × Option String × RecoveryOutcome) :
    TaskId × String × RecoveryOutcome :=
  (t.1, t.2.1.asStr, t.2.2.2.2)

/-- What a recovery has done with a job. -/
def recoveryOutcome (x : TaskId × Job) : TaskId × String × RecoveryOutcome :=
  (x.1, x.2.queue, if x.2.life.status = .pending then .recovered else .failed)

/-- What an answer tells about the jobs moved: which they are, where it names them, and what they are
like then, where it shows them. The answer of a caller's transaction tells nothing. -/
def Response.Tells (moved : List (TaskId × Job)) : Response → Prop
  | task record | saved record true | claimed (some record) | cancel (.cancelled record) =>
    moved = [(record.id, record.job)]
  | saved _ false | claimed none | cancel _ | found _ => moved = []
  | recovered tasks => tasks.map recoveryOf = moved.map recoveryOutcome
  | released tasks => tasks.map Prod.fst = moved.map Prod.fst
  | releasedTask _ | written => moved.length = 1
  | expired tasks => tasks.map (fun t => (t.1, t.2.asStr)) = moved.map fun x => (x.1, x.2.queue)
  | cleaned count => moved.length = count
  | batch _ => True

theorem job_of_tryFrom {r : TaskRow} {record : TaskRecord} (h : TaskRecord.tryFrom r = .ok record) :
    (r.id, r.job) = (record.id, record.job) := by
  obtain ⟨hd, rfl⟩ := tryFrom_eq_ok_iff.mp h
  rfl

/-! ## One operation -/

section Operation

variable {op : Op} {b : Began} {c : Change TaskRow}

/-- An update that is the only one of its operation is asked for. -/
theorem Op.asks_of_rewrites {u : Update} {r r' : TaskRow} (hu : u ∈ op.updates)
    (h : Update.Rewrites b u r r') : op.demand.Asks r'.id (some r.job) (op.action (some r)) := by
  rw [Op.action_of_mem hu]
  cases op with
  | save | saveIdempotent | inTx | findById => cases hu
  | recoverZombieTasks =>
    have hask : ∀ id, (Op.demand .recoverZombieTasks).Asks id (some r.job)
        (if r.attempts.val < r.maxAttempts.val then .retry else .exhaust) := fun id => by
      split
      · exact .recoverRetry
      · exact .recoverExhaust
    rcases List.mem_cons.mp hu with rfl | hu
    · exact hask _
    · obtain rfl := List.mem_singleton.mp hu
      exact hask _
  | fail id error base max =>
    obtain rfl := List.mem_singleton.mp hu
    obtain rfl : r'.id = id := by cases h <;> rfl
    change Demand.Asks _ _ _ (if r.attempts.val < r.maxAttempts.val then .retry else .exhaust)
    split
    · exact .retry
    · exact .exhaust
  | claimNext queue w lease region =>
    obtain rfl := List.mem_singleton.mp hu
    cases h with
    | claimNext _ hqueue =>
      have hask : Demand.Asks (.claim r.job.queue w) r.id (some r.job) (.claim w) := .claim
      rwa [show r.job.queue = queue.asStr from hqueue] at hask
  | releaseLeasesForWorker w =>
    obtain rfl := List.mem_singleton.mp hu
    cases h with
    | releaseLeasesForWorker hs hw => exact .giveBackAll ((if_pos hs).trans hw)
  | complete | suspend | signal | releaseLeaseForTask | cancel =>
    obtain rfl := List.mem_singleton.mp hu
    cases h
    constructor
  | expireSuspendedTasks | cleanupExpiredIdempotencyKeys | writeCheckpoint =>
    obtain rfl := List.mem_singleton.mp hu
    constructor

/-- **An operation makes the changes it asks for.** -/
theorem Op.Causes.asks (h : op.Causes b c) :
    op.demand.Asks c.new.id (c.old.map TaskRow.job) (op.action c.old) := by
  cases h with
  | insert ht =>
    cases op with
    | save | saveIdempotent | inTx => exact .submit
    | _ => cases ht
  | update hu hr => exact Op.asks_of_rewrites hu hr

theorem Op.Causes.queue (h : op.Causes b c) {r : TaskRow} (hold : c.old = some r) :
    c.new.job.queue = r.job.queue := by
  obtain ⟨u, -, hrw⟩ := h.of_some hold
  exact hrw.sameTask.queue

variable {rely : Table TaskRow.id → (TaskId → Bool) → Env → Prop} {a : Bool}
  {cs : List (Change TaskRow)} {ls : List AuditRow} {reply : Reply}

/-- Who asks for one job changes one row at most. -/
theorem Op.Spec.length_le (h : Op.Spec rely a b op cs ls (.commit reply))
    (hsingle : op.demand.isSingle = true) : cs.length ≤ 1 := by
  cases h with
  | save | saveIdempotent | inTxCommit | cleanup | released | recovered | expired => cases hsingle
  | _ => simp

theorem SavedBy.tells {task : TaskRecord} {idempotent : Bool} {xs : List AuditEntry}
    {res : Option (TaskRow × Bool)} {gone : RepoError} {x : Response}
    (h : SavedBy rely b [] task idempotent cs xs res) (hx : savedReply gone res = .ok x) :
    x.Tells (movedJobs cs) := by
  cases h with
  | new =>
    obtain ⟨record, hrecord, rfl⟩ := eq_of_map_eq_ok hx
    exact congrArg (· :: []) (job_of_tryFrom hrecord)
  | old =>
    obtain ⟨record, -, rfl⟩ := eq_of_map_eq_ok hx
    rfl
  | gone => cases hx

theorem recoveryOf_eq {what : String} {outcome : RecoveryOutcome} {r : TaskRow}
    {t : TaskId × QueueName × TaskKind × Option String × RecoveryOutcome}
    (h : recoveredTask what outcome r = .ok t) : recoveryOf t = (r.id, r.queue, outcome) := by
  obtain ⟨queue, hqueue, h⟩ := exists_of_bind_ok h
  obtain ⟨kind, -, h⟩ := exists_of_bind_ok h
  cases h
  rw [recoveryOf, asStr_of_tryFrom hqueue]

/-- The report of one of the two updates of a recovery. -/
theorem UpdatedBy.recoveryOf {u : Update} {what : String} {outcome : RecoveryOutcome}
    {ds : List (Change TaskRow)}
    {ts : List (TaskId × QueueName × TaskKind × Option String × RecoveryOutcome)}
    (hds : UpdatedBy rely b u cs ds)
    (hstatus : ∀ r r', Update.Rewrites b u r r' →
      (if r'.status = .pending then .recovered else .failed) = outcome)
    (hts : (news ds).mapM (recoveredTask what outcome) = .ok ts) :
    ts.map IronDefer.recoveryOf = (movedJobs ds).map recoveryOutcome := by
  have hrows := hds.rewrites
  have hall := forall₂_of_mapM hts
  clear hds hts
  induction ds generalizing ts with
  | nil =>
    cases hall
    rfl
  | cons c ds ih =>
    cases hall with
    | cons ht hts =>
      obtain ⟨r, -, hrw⟩ := hrows c List.mem_cons_self
      have hhead : recoveryOutcome (c.new.id, c.new.job) = (c.new.id, c.new.queue, outcome) :=
        congrArg (fun o => (c.new.id, c.new.queue, o)) (hstatus r c.new hrw)
      rw [List.map_cons, movedJobs, List.map_cons, List.map_cons, hhead, recoveryOf_eq ht]
      exact congrArg _ (ih (fun d hd => hrows d (List.mem_cons_of_mem _ hd)) hts)

theorem map_expiredTask {rows : List TaskRow} {ts : List (TaskId × QueueName)}
    (hts : rows.mapM expiredTask = .ok ts) :
    ts.map (fun t => (t.1, t.2.asStr)) = rows.map fun r => (r.id, r.queue) := by
  have hall := forall₂_of_mapM hts
  clear hts
  induction hall with
  | nil => rfl
  | cons ht _ ih =>
    obtain ⟨queue, hqueue, ht⟩ := exists_of_bind_ok ht
    cases ht
    rw [List.map_cons, List.map_cons, ih, asStr_of_tryFrom hqueue]

/-- **What an operation answers is true** of the jobs it has moved. -/
theorem Op.Spec.tells {x : Response} (h : Op.Spec rely a b op cs ls (.commit (.ok x))) :
    x.Tells (movedJobs cs) := by
  generalize hr : (Except.ok x : Reply) = r at h
  cases h with
  | save h =>
    obtain ⟨record, hrecord, rfl⟩ := eq_of_map_eq_ok hr.symm
    cases h with
    | new => exact congrArg (· :: []) (job_of_tryFrom hrecord)
  | saveIdempotent h => exact h.tells hr.symm
  | inTxCommit => cases hr; trivial
  | cleanup => cases hr; exact List.length_map _
  | notFound | unclaimed | notCancellable | cancelNotFound => cases hr; rfl
  | found =>
    obtain ⟨record, -, rfl⟩ := eq_of_map_eq_ok hr.symm
    rfl
  | claimed | transition | cancelled =>
    obtain ⟨record, hrecord, rfl⟩ := eq_of_map_eq_ok hr.symm
    exact congrArg (· :: []) (job_of_tryFrom hrecord)
  | releasedTask | written => cases hr; rfl
  | released =>
    cases hr
    simp [Response.Tells, movedJobs, news]
  | recovered hds hes hresults =>
    cases hr
    obtain ⟨ts, hts, hresults⟩ := exists_of_bind_ok hresults
    obtain ⟨us, hus, hresults⟩ := exists_of_bind_ok hresults
    cases hresults
    have hretried := hds.recoveryOf
      (fun r r' hrw => if_pos (pending_of_recoverRetryable hrw)) hts
    have hfailed := hes.recoveryOf (fun r r' hrw => by cases hrw; rfl) hus
    change (ts ++ us).map recoveryOf = (movedJobs _).map recoveryOutcome
    rw [List.map_append, hretried, hfailed, ← List.map_append, movedJobs, movedJobs,
      ← List.map_append, movedJobs]
  | expired =>
    obtain ⟨ts, hts, rfl⟩ := eq_of_map_eq_ok hr.symm
    refine (map_expiredTask hts).trans ?_
    simp [movedJobs, news, TaskRow.job]
  | notWritten => cases hr

end Operation

/-! ## Runs -/

section Runs

variable {os : List Outcome} {db db' : System} {ev : Move} {o : Outcome}

/-- A change that a step commits starts at the row before it, and ends at the row after it. -/
theorem Runs.get_of_committed (h : Runs (Calls Call.SavesPending) .empty os db)
    (hok : Calls Call.SavesPending os db ev) (hs : System.step db ev = some (db', o))
    {c : Change TaskRow} (hc : c ∈ o.changes) :
    c.old = db.table.get c.new.id ∧ db'.table.get c.new.id = some c.new := by
  have hmem : c ∈ (history c.new.id [o]).map Entry.change := by
    rw [map_change_history]
    exact List.mem_filter.mpr ⟨by simpa using hc, decide_eq_true rfl⟩
  rcases Runs.committed_step h hok hs c.new.id with ⟨hnil, -⟩ | ⟨x, hx, hold, hnew⟩
  · rw [hnil] at hmem
    cases hmem
  · rw [hx] at hmem
    obtain rfl : c = x.change := List.mem_singleton.mp hmem
    exact ⟨hold, hnew⟩

/-- A step that commits no change of a task leaves its job alone. -/
theorem Runs.jobsOf_of_quiet (h : Runs (Calls Call.SavesPending) .empty os db)
    (hok : Calls Call.SavesPending os db ev) (hs : System.step db ev = some (db', o)) {id : TaskId}
    (hquiet : ∀ c ∈ o.changes, c.new.id ≠ id) : jobsOf db' id = jobsOf db id := by
  rcases Runs.committed_step h hok hs id with ⟨-, hget⟩ | ⟨x, hx, -, hnew⟩
  · exact congrArg (Option.map TaskRow.job) hget
  · have hmem : x ∈ history id [o] := hx ▸ List.mem_cons_self
    obtain ⟨hx, hid⟩ := mem_history_singleton.mp hmem
    refine absurd hid (hquiet x.change ?_)
    rw [← map_change_entries]
    exact List.mem_map_of_mem hx

/-- **A commit serves its request**, and no other step moves a job. -/
theorem refines_queue : Refines System.step (Calls Call.SavesPending) System.empty Jobs.Serves jobsOf
    Outcome.serving := by
  intro os db ev db' o (h : Runs (Calls Call.SavesPending) .empty os db) hok hs
  have hquiet : ∀ id, (∀ c ∈ o.changes, c.new.id ≠ id) → jobsOf db' id = jobsOf db id :=
    fun _ => h.jobsOf_of_quiet hok hs
  cases o with
  | committed sid call b cs ls reply =>
    have hr : Runs (Calls Call.SavesPending) .empty
        (os ++ [.committed sid call b cs ls reply]) db' := .next h hok hs
    have hmem : (.committed sid call b cs ls reply : Outcome) ∈
        os ++ [.committed sid call b cs ls reply] := by simp
    have hcause : ∀ c ∈ cs, call.op.Causes b c := Runs.causes hr _ hmem
    have hsave : call.SavesPending :=
      hr.started (P := Call.SavesPending) (fun _ _ _ _ _ hc => hc) _ hmem trivial
    have hget := fun c hc => h.get_of_committed hok hs (c := c) hc
    have hjob : ∀ c ∈ cs, jobsOf db c.new.id = c.old.map TaskRow.job := fun c hc =>
      congrArg (Option.map TaskRow.job) (hget c hc).1.symm
    refine ⟨?_, ?_, ?_, ?_, fun hsingle => ?_⟩
    · rintro x hx
      obtain ⟨c, hc, rfl⟩ := List.mem_map.mp hx
      refine ⟨call.op.action c.old, (hjob c hc).symm ▸ (hcause c hc).asks, ?_⟩
      rw [hjob c hc, Option.map_map]
      exact (hcause c hc).step fun _ => hsave
    · rintro x hx job hold
      obtain ⟨c, hc, rfl⟩ := List.mem_map.mp hx
      rw [hjob c hc] at hold
      obtain ⟨r, hr, rfl⟩ := Option.map_eq_some_iff.mp hold
      exact (hcause c hc).queue hr
    · rintro x hx
      obtain ⟨c, hc, rfl⟩ := List.mem_map.mp hx
      exact congrArg (Option.map TaskRow.job) (hget c hc).2
    · exact fun id hothers => hquiet id fun c hc =>
        hothers (c.new.id, c.new.job) (List.mem_map.mpr ⟨c, hc, rfl⟩)
    · exact (List.length_map _).trans_le ((hr.spec_committed hmem).length_le hsingle)
  | silent | failed | returned => exact funext fun id => hquiet id fun c hc => by cases hc

end Runs

/-- **Every run of the database is a path of the queue.** In every run from the empty store whose
saves are of pending tasks, however its statements interleave, see and fail: the commits, in their
order, are requests served one at a time, each as its answer tells, and lead from no jobs to those
of the committed table. A running task is held by the worker whose claim was the last to move it. -/
theorem queue_refined {os : List Outcome} {db : System}
    (h : Runs (Calls Call.SavesPending) .empty os db) :
    Traced Jobs.Serves (fun _ => none) (os.filterMap Outcome.serving) (jobsOf db) ∧
      (∀ o ∈ os, ∀ s x, o.serving = some s → o.reply = some (.ok x) → x.Tells s.moved) ∧
      ∀ r ∈ db.table.rows, r.status = .running → ∃ w, r.claimedBy = some w ∧
        lastClaim r.id (os.filterMap Outcome.serving) = some w := by
  have htraced := refines_queue.traced h
  refine ⟨htraced, fun o ho s x hserving hreply => ?_, fun r hr hrunning => ?_⟩
  · cases o with
    | committed sid call b cs ls reply =>
      cases hserving
      cases hreply
      exact (h.spec_committed ho).tells
    | silent | failed | returned => cases hserving
  · have hjob : jobsOf db r.id = some r.job :=
      congrArg (Option.map TaskRow.job) (Table.get_key_of_mem hr)
    obtain ⟨w, hholder, hclaim⟩ := held_by_last_claim htraced hjob hrunning
    exact ⟨w, (if_pos hrunning).symm.trans hholder, hclaim⟩

/-- In the sample of a claim, the second request served is the claim. -/
theorem claimed_refined :
    Traced Jobs.Serves (fun _ => none)
      ((System.shown (claimedMoves .default)).filterMap Outcome.serving)
      (jobsOf (System.after (claimedMoves .default))) ∧
    lastClaim ⟨1⟩ ((System.shown (claimedMoves .default)).filterMap Outcome.serving) =
      some sampleWorker := by
  have h : Runs (Calls Call.SavesPending) .empty (System.shown (claimedMoves .default))
      (System.after (claimedMoves .default)) :=
    Runs.of_moves _ (by decide +kernel) (by decide +kernel)
  exact ⟨(queue_refined h).1, by decide +kernel⟩

end IronDefer
