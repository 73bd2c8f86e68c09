import IronDefer.Infrastructure.Effects

/-!
# What an operation does

Every way an operation can end: the rows it has changed, the audit rows it has appended, and
whether it commits and with which reply. The statements see what the environment lets them see
(`rely`); nothing else about it is used here.

## Main definitions

* `AuditEntry`, `logged`: the arguments of an audit write, and the row it appends
* `UpdatedBy`, `InsertedBy`: what one statement has changed
* `Transition`: the operations that are one guarded update
* `Op.Spec`: the ways an operation can end

## Main results

* `Op.along_spec`: every run of an operation ends in one of these ways
* `Runs.spec`: so does every transaction of a run of the system
-/

namespace IronDefer

open RowStore

/-! ## Audit writes -/

/-- The arguments of an audit write. -/
structure AuditEntry where
  taskId : TaskId
  fromStatus : Option String
  toStatus : String
  workerId : Option WorkerId
  traceId : Option String
  metadata : Option Json
  region : Option String

/-- The audit row an entry becomes. -/
def AuditEntry.row (b : Began) (x : AuditEntry) : AuditRow where
  taskId := x.taskId
  fromStatus := x.fromStatus
  toStatus := x.toStatus
  timestamp := b.now
  workerId := x.workerId
  traceId := x.traceId.bind capTraceId
  metadata := x.metadata.map capMetadata
  region := x.region

/-- The audit rows of some entries: none where the audit log is off. -/
def logged (auditLog : Bool) (b : Began) (xs : List AuditEntry) : List AuditRow :=
  if auditLog then xs.map (AuditEntry.row b) else []

@[simp] theorem logged_nil (a : Bool) (b : Began) : logged a b [] = [] := by
  unfold logged; split <;> rfl

@[simp] theorem logged_true (b : Began) (xs : List AuditEntry) :
    logged true b xs = xs.map (AuditEntry.row b) := rfl

theorem logged_append (a : Bool) (b : Began) (xs ys : List AuditEntry) :
    logged a b (xs ++ ys) = logged a b xs ++ logged a b ys := by
  unfold logged; split <;> simp

/-- Every audit row is about a row changed before. -/
abbrev Held : List (Change TaskRow) → List AuditRow → Prop := Db.LogsHeld AuditRow.taskId TaskRow.id

theorem Held.nil (cs : List (Change TaskRow)) : Held cs [] := by simp [Held, Db.LogsHeld]

/-- Who has changed nothing has logged nothing. -/
theorem Held.eq_nil {ls : List AuditRow} (h : Held [] ls) : ls = [] := by
  apply List.eq_nil_iff_forall_not_mem.mpr
  intro a ha
  obtain ⟨c, hc, -⟩ := h a ha
  cases hc

theorem Held.append {cs : List (Change TaskRow)} {ls : List AuditRow} (h : Held cs ls)
    (ds : List (Change TaskRow)) : Held (cs ++ ds) ls := by
  intro a ha
  obtain ⟨c, hc, hk⟩ := h a ha
  exact ⟨c, List.mem_append_left _ hc, hk⟩

theorem Held.logged {cs : List (Change TaskRow)} {ls : List AuditRow} (h : Held cs ls) {a : Bool}
    {b : Began} {xs : List AuditEntry} (hx : ∀ x ∈ xs, ∃ c ∈ cs, c.new.id = x.taskId) :
    Held cs (ls ++ logged a b xs) := by
  intro r hr
  rcases List.mem_append.mp hr with hr | hr
  · exact h r hr
  · unfold IronDefer.logged at hr
    split at hr
    · obtain ⟨x, hm, rfl⟩ := List.mem_map.mp hr
      exact hx x hm
    · cases hr

/-! ## One statement -/

section Statement

variable (rely : Table TaskRow.id → (TaskId → Bool) → Env → Prop) (b : Began)

/-- An update has changed `ds` after the changes `cs`: its targets among the rows seen, each
rewritten. -/
def UpdatedBy (u : Update) (cs ds : List (Change TaskRow)) : Prop :=
  ∃ t e free, rely t free e ∧ t.record (news cs) = cs ∧
    List.Forall₂ (fun r c => c.old = some r ∧ Update.Rewrites b u r c.new)
      (targets b e (t.putAll (news cs)).rows free u) ds

/-- An insert has returned `r` after the changes `cs`. -/
def InsertedBy (task : TaskRecord) (onConflictDoNothing : Bool) (cs : List (Change TaskRow))
    (r : Option TaskRow) : Prop :=
  ∃ t e free, rely t free e ∧ t.record (news cs) = cs ∧
    execInsert b task (task.lastError.map truncateLastError) onConflictDoNothing
      (t.putAll (news cs)).rows = .ok r

/-- The change of an insert that has returned `r`. -/
def insertChange (r : Option TaskRow) : List (Change TaskRow) := r.toList.map fun row => ⟨none, row⟩

/-- A select has returned `r`, found by `p` in a table, after the changes `cs`. -/
def SelectedBy (p : TaskRow → Bool) (cs : List (Change TaskRow)) (r : Option TaskRow) : Prop :=
  ∃ t e free, rely t free e ∧ t.record (news cs) = cs ∧ (t.putAll (news cs)).rows.find? p = r

/-- The predicate of the fallback select of an idempotent save. -/
def isActive (queue : String) (idempotencyKey : Option String) (r : TaskRow) : Bool :=
  decide (r.queue = queue) && decide (r.idempotencyKey = idempotencyKey) &&
    idempotencyKey.isSome && !r.status.isTerminal

variable {rely b} {α : Type} {Q : List (Change TaskRow) → List AuditRow → α → Prop}
  {cs : List (Change TaskRow)} {ls : List AuditRow}

theorem along_update {u : Update} {k : List TaskRow → Tx α} (hl : Held cs ls)
    (h : ∀ ds, UpdatedBy rely b u cs ds → (k (news ds)).Along postgres b rely Held Q (cs ++ ds) ls) :
    (exec (.update u) >>= k).Along postgres b rely Held Q cs ls := by
  intro t e free eff hrely ht he
  obtain ⟨rs, hrs, he⟩ := exists_of_bind_ok he
  cases he
  have hall := rewrites_of_execUpdate hrs
  have hrec := (t.putAll (news cs)).record_of_sublist (targets_sublist b e _ free u)
    (hall.imp fun r r' hr => hr.1.sameTask.id)
  have hds : UpdatedBy rely b u cs ((t.putAll (news cs)).record rs) := by
    refine ⟨t, e, free, hrely, ht, ?_⟩
    rw [hrec]
    exact forall₂_zipWith hall fun r r' hr => ⟨rfl, hr.1⟩
  have hrest := h _ hds
  rw [Table.news_record] at hrest
  simp only [List.append_nil]
  exact ⟨hl.append _, hrest⟩

theorem along_insert {task : TaskRecord} {d : Bool} {k : Option TaskRow → Tx α} (hl : Held cs ls)
    (h : ∀ r, InsertedBy rely b task d cs r →
      (k r).Along postgres b rely Held Q (cs ++ insertChange r) ls) :
    (exec (.insertTask task (task.lastError.map truncateLastError) d) >>= k).Along postgres b rely
      Held Q cs ls := by
  intro t e free eff hrely ht he
  obtain ⟨r, hr, he⟩ := exists_of_bind_ok he
  cases he
  have hrec : (t.putAll (news cs)).record r.toList = insertChange r := by
    cases r with
    | none => rfl
    | some row =>
      obtain ⟨-, hid, -⟩ := execInsert_eq_some hr
      simp [insertChange, Table.get_eq_none_iff.mpr hid]
  have hrest := h r ⟨t, e, free, hrely, ht, hr⟩
  simp only [List.append_nil]
  rw [hrec]
  exact ⟨hl.append _, hrest⟩

theorem along_select {id : TaskId} {k : Option TaskRow → Tx α} (hl : Held cs ls)
    (h : ∀ r, SelectedBy rely (fun r => decide (r.id = id)) cs r →
      (k r).Along postgres b rely Held Q cs ls) :
    (exec (.selectById id) >>= k).Along postgres b rely Held Q cs ls := by
  intro t e free eff hrely ht he
  cases he
  simpa using ⟨hl, h _ ⟨t, e, free, hrely, ht, rfl⟩⟩

theorem along_selectActive {queue : String} {key : Option String} {k : Option TaskRow → Tx α}
    (hl : Held cs ls)
    (h : ∀ r, SelectedBy rely (isActive queue key) cs r →
      (k r).Along postgres b rely Held Q cs ls) :
    (exec (.selectActive queue key) >>= k).Along postgres b rely Held Q cs ls := by
  intro t e free eff hrely ht he
  cases he
  simpa using ⟨hl, h _ ⟨t, e, free, hrely, ht, rfl⟩⟩

theorem along_insertAuditRow {a : Bool} {x : AuditEntry} {k : PUnit → Tx α} (hl : Held cs ls)
    (hx : ∃ c ∈ cs, c.new.id = x.taskId)
    (h : (k ⟨⟩).Along postgres b rely Held Q cs (ls ++ logged a b [x])) :
    (insertAuditRow a x.taskId x.fromStatus x.toStatus x.workerId x.traceId x.metadata x.region >>=
      k).Along postgres b rely Held Q cs ls := by
  -- the statement appends the row, or is refused by the foreign key
  have hone : ∀ t : Option String, t = x.traceId.bind capTraceId → a = true →
      (exec (.insertAudit x.taskId x.fromStatus x.toStatus x.workerId t (x.metadata.map capMetadata)
        x.region) >>= k).Along postgres b rely Held Q cs ls := by
    rintro _ rfl rfl t e free eff hrely ht he
    simp only [postgres, execStmt] at he
    split at he
    · cases he
      have hheld : Held cs (ls ++ logged true b [x]) := hl.logged (by simpa using hx)
      simpa using ⟨hheld, h⟩
    · cases he
  unfold insertAuditRow
  split
  next ha =>
    split
    -- cutting the trace id panics
    next => trivial
    next t ht =>
      refine hone _ ?_ ha
      obtain ⟨s, hs, hcap⟩ := Option.map_eq_some_iff.mp ht
      rw [hs]
      exact hcap.symm
    next ht =>
      refine hone _ ?_ ha
      rw [Option.map_eq_none_iff.mp ht]
      rfl
  next ha =>
    rw [logged, if_neg ha, List.append_nil] at h
    exact h

/-- A loop that writes one audit row for each of some changed rows. -/
theorem along_forM_insertAuditRow {a : Bool} {rows : List TaskRow} (x : TaskRow → AuditEntry)
    {k : PUnit → Tx α} (hl : Held cs ls) (hx : ∀ row ∈ rows, ∃ c ∈ cs, c.new.id = (x row).taskId)
    (h : (k ⟨⟩).Along postgres b rely Held Q cs (ls ++ logged a b (rows.map x))) :
    ((rows.forM fun row => insertAuditRow a (x row).taskId (x row).fromStatus (x row).toStatus
      (x row).workerId (x row).traceId (x row).metadata (x row).region) >>= k).Along postgres b rely
        Held Q cs ls := by
  induction rows generalizing ls with
  | nil => simpa using h
  | cons row rows ih =>
    rw [Program.along_bind]
    apply along_insertAuditRow (x := x row) hl (hx row List.mem_cons_self)
    rw [← Program.along_bind]
    refine ih (hl.logged (by simpa using hx row List.mem_cons_self))
      (fun r hr => hx r (List.mem_cons_of_mem _ hr)) ?_
    rw [List.append_assoc, ← logged_append]
    exact h

end Statement

/-! ## The operations -/

/-- The audit entry of a submission. -/
def createdEntry (row : TaskRow) : AuditEntry :=
  ⟨row.id, none, "pending", none, row.traceId, none, row.region⟩

/-- The ways a save can end after the changes `cs`: it inserts a row, finds an active one with the
same key, or finds none any more. -/
inductive SavedBy (rely : Table TaskRow.id → (TaskId → Bool) → Env → Prop) (b : Began)
    (cs : List (Change TaskRow)) (task : TaskRecord) :
    (idempotent : Bool) → List (Change TaskRow) → List AuditEntry → Option (TaskRow × Bool) → Prop
  | new {idempotent row} : InsertedBy rely b task idempotent cs (some row) →
      SavedBy rely b cs task idempotent [⟨none, row⟩] [createdEntry row] (some (row, true))
  | old {row} : InsertedBy rely b task true cs none →
      SelectedBy rely (isActive task.queue.asStr task.idempotencyKey) cs (some row) →
      SavedBy rely b cs task true [] [] (some (row, false))
  | gone : InsertedBy rely b task true cs none →
      SelectedBy rely (isActive task.queue.asStr task.idempotencyKey) cs none →
      SavedBy rely b cs task true [] [] none

theorem eq_of_map_eq_ok {α β ε : Type} {x : Except ε α} {f : α → β} {y : β}
    (h : x.map f = .ok y) : ∃ a, x = .ok a ∧ f a = y := by
  cases x with
  | error e => cases h
  | ok a => exact ⟨a, rfl, Except.ok.inj h⟩

theorem execInsert_ne_none {b : Began} {task : TaskRecord} {lastError : Option String}
    {rows : List TaskRow} : execInsert b task lastError false rows ≠ .ok none := by
  intro h
  obtain ⟨-, -, h⟩ := exists_of_bind_ok h
  obtain ⟨-, -, h⟩ := exists_of_bind_ok h
  split at h
  next hf => cases hf
  · split at h
    · cases h
    · obtain ⟨-, -, h⟩ := exists_of_bind_ok h
      cases h

theorem not_insertedBy_none {rely : Table TaskRow.id → (TaskId → Bool) → Env → Prop} {b : Began}
    {cs : List (Change TaskRow)} {task : TaskRecord} : ¬ InsertedBy rely b task false cs none :=
  fun ⟨_, _, _, _, _, h⟩ => execInsert_ne_none h

/-- The reply to a plain save. -/
def taskReply (row : TaskRow) : Reply := (TaskRecord.tryFrom row).map .task

/-- The reply to an idempotent save; `gone` where the conflicting task has become terminal. -/
def savedReply (gone : RepoError) : Option (TaskRow × Bool) → Reply
  | some (row, created) => (TaskRecord.tryFrom row).map (.saved · created)
  | none => .error gone

/-- `saveIdempotentInTx` finds no active task any more. -/
def conflictGone (task : TaskRecord) : RepoError :=
  .storage (.message ("idempotency conflict detected for queue=" ++ task.queue.asStr ++ " key=" ++
    task.idempotencyKey.getD "none" ++
    ", but no non-terminal task found (likely transitioned to terminal state during race)"))

/-- The ways a call inside a caller's transaction can end after the changes `cs`. -/
inductive CalledBy (rely : Table TaskRow.id → (TaskId → Bool) → Env → Prop) (b : Began)
    (cs : List (Change TaskRow)) :
    TxCall → List (Change TaskRow) → List AuditEntry → Reply → Prop
  | saveInTx {task ds xs row} : SavedBy rely b cs task false ds xs (some (row, true)) →
      CalledBy rely b cs (.saveInTx task) ds xs (taskReply row)
  | saveIdempotentInTx {task ds xs res} : SavedBy rely b cs task true ds xs res →
      CalledBy rely b cs (.saveIdempotentInTx task) ds xs (savedReply (conflictGone task) res)

/-- The ways a list of such calls can end. -/
inductive CalledAll (rely : Table TaskRow.id → (TaskId → Bool) → Env → Prop) (b : Began) :
    List (Change TaskRow) → List TxCall → List (Change TaskRow) → List AuditEntry → List Reply → Prop
  | nil {cs} : CalledAll rely b cs [] [] [] []
  | cons {cs call calls ds es xs ys reply replies} : CalledBy rely b cs call ds xs reply →
      CalledAll rely b (cs ++ ds) calls es ys replies →
      CalledAll rely b cs (call :: calls) (ds ++ es) (xs ++ ys) (reply :: replies)

/-- An operation that is one guarded update with its audit row. -/
structure Transition where
  update : Update
  fromStatus : String
  toStatus : TaskRow → String
  workerId : TaskRow → Option WorkerId
  metadata : Option Json

def Transition.entry (tr : Transition) (r : TaskRow) : AuditEntry :=
  ⟨r.id, some tr.fromStatus, tr.toStatus r, tr.workerId r, r.traceId, tr.metadata, r.region⟩

/-- `complete`, `fail`, `suspend` and `signal` are transitions. -/
def Op.transition : Op → Option Transition
  | complete taskId =>
    some ⟨.complete taskId, "running", fun _ => "completed", TaskRow.claimedBy, none⟩
  | fail taskId errorMessage baseDelaySecs maxDelaySecs =>
    some ⟨.fail taskId (truncateLastError errorMessage) baseDelaySecs maxDelaySecs, "running",
      fun r => statusToStr r.status, TaskRow.claimedBy,
      some (Json.object "error" (truncateLastError errorMessage))⟩
  | suspend taskId =>
    some ⟨.suspend taskId, "running", fun _ => "suspended", TaskRow.claimedBy, none⟩
  | signal taskId payload =>
    some ⟨.signal taskId payload, "suspended", fun _ => "pending", fun _ => none, none⟩
  | _ => none

def claimedEntry (workerId : WorkerId) (r : TaskRow) : AuditEntry :=
  ⟨r.id, some "pending", "running", some workerId, r.traceId, none, r.region⟩

def releasedEntry (workerId : Option WorkerId) (r : TaskRow) : AuditEntry :=
  ⟨r.id, some "running", "pending", workerId, r.traceId, some releaseMetadata, none⟩

def recoveredEntry (r : TaskRow) : AuditEntry :=
  ⟨r.id, some "running", "pending", none, r.traceId, none, r.region⟩

def exhaustedEntry (r : TaskRow) : AuditEntry :=
  ⟨r.id, some "running", "failed", none, r.traceId,
    some (Json.object "error" "lease expired: max attempts exhausted"), r.region⟩

def cancelledEntry (r : TaskRow) : AuditEntry :=
  ⟨r.id, some (if r.suspendedAt.isSome then "suspended" else "pending"), "cancelled", none,
    r.traceId, none, r.region⟩

def expiredEntry (r : TaskRow) : AuditEntry :=
  ⟨r.id, some "suspended", "failed", none, r.traceId,
    some (Json.object "error" "suspend timeout exceeded"), none⟩

/-- What a transition is refused with before its commit: its update has found no row, or its payload
is over the limit. -/
inductive Op.Refuses (rely : Table TaskRow.id → (TaskId → Bool) → Env → Prop) (b : Began) :
    Op → RepoError → Prop
  | complete {id} : UpdatedBy rely b (.complete id) [] [] →
      Refuses rely b (.complete id) (.notInExpectedState id "Running")
  | fail {id e base max} : UpdatedBy rely b (.fail id (truncateLastError e) base max) [] [] →
      Refuses rely b (.fail id e base max) (.notInExpectedState id "Running")
  | suspend {id} : UpdatedBy rely b (.suspend id) [] [] →
      Refuses rely b (.suspend id) (.notInExpectedState id "Running")
  | payload {id p e} : checkSignalPayload p = .error e → Refuses rely b (.signal id p) e
  | notFound {id p} : UpdatedBy rely b (.signal id p) [] [] →
      SelectedBy rely (fun r => decide (r.id = id)) [] none →
      Refuses rely b (.signal id p) (.notFound id)
  | notSuspended {id p row} : UpdatedBy rely b (.signal id p) [] [] →
      SelectedBy rely (fun r => decide (r.id = id)) [] (some row) →
      Refuses rely b (.signal id p) (.notInExpectedState id "Suspended")

/-- The ways an operation can end: the changes it has made, the audit rows it has appended, and
its reply with the commit or rollback. -/
inductive Op.Spec (rely : Table TaskRow.id → (TaskId → Bool) → Env → Prop) (a : Bool) (b : Began) :
    Op → List (Change TaskRow) → List AuditRow → Finish Reply → Prop
  | save {task ds xs row} : SavedBy rely b [] task false ds xs (some (row, true)) →
      Spec rely a b (.save task) ds (logged a b xs) (.commit (taskReply row))
  | saveIdempotent {task ds xs res} : SavedBy rely b [] task true ds xs res →
      Spec rely a b (.saveIdempotent task) ds (logged a b xs)
        (.commit (savedReply (.notInExpectedState task.id "non-terminal") res))
  | inTxCommit {calls ds xs replies} : CalledAll rely b [] calls ds xs replies →
      Spec rely a b (.inTx calls true) ds (logged a b xs) (.commit (.ok (.batch replies)))
  | inTxRollback {calls ds xs replies} : CalledAll rely b [] calls ds xs replies →
      Spec rely a b (.inTx calls false) ds (logged a b xs) (.rollback (.ok (.batch replies)))
  | cleanup {now ds} :
      UpdatedBy rely b (.cleanupExpiredIdempotencyKeys (DateTime.toTimestamp now)) [] ds →
      Spec rely a b (.cleanupExpiredIdempotencyKeys now) ds [] (.commit (.ok (.cleaned ds.length)))
  | notFound {id} : SelectedBy rely (fun r => decide (r.id = id)) [] none →
      Spec rely a b (.findById id) [] [] (.commit (.ok (.found none)))
  | found {id row} : SelectedBy rely (fun r => decide (r.id = id)) [] (some row) →
      Spec rely a b (.findById id) [] []
        (.commit ((TaskRecord.tryFrom row).map fun record => .found (some record)))
  | unclaimed {queue w lease region} : UpdatedBy rely b (.claimNext queue w lease region) [] [] →
      Spec rely a b (.claimNext queue w lease region) [] [] (.commit (.ok (.claimed none)))
  | claimed {queue w lease region c} : UpdatedBy rely b (.claimNext queue w lease region) [] [c] →
      Spec rely a b (.claimNext queue w lease region) [c] (logged a b [claimedEntry w c.new])
        (.commit ((TaskRecord.tryFrom c.new).map fun record => .claimed (some record)))
  | refused {op e} : op.Refuses rely b e →
      Spec rely a b op [] [] (.rollback (.error e))
  | transition {op tr c} : op.transition = some tr → UpdatedBy rely b tr.update [] [c] →
      Spec rely a b op [c] (logged a b [tr.entry c.new]) (.commit (taskReply c.new))
  | notReleased {taskId} : Spec rely a b (.releaseLeaseForTask taskId) [] []
      (.rollback (.error (.notInExpectedState taskId "Running")))
  | releasedTask {taskId c} : UpdatedBy rely b (.releaseLeaseForTask taskId) [] [c] →
      Spec rely a b (.releaseLeaseForTask taskId) [c] (logged a b [releasedEntry none c.new])
        (.commit (.ok (.releasedTask c.new.traceId)))
  | released {w ds} : UpdatedBy rely b (.releaseLeasesForWorker w) [] ds →
      Spec rely a b (.releaseLeasesForWorker w) ds
        (logged a b ((news ds).map (releasedEntry (some w))))
        (.commit (.ok (.released ((news ds).map fun r => (r.id, r.traceId)))))
  | recovered {ds es results} : UpdatedBy rely b .recoverRetryable [] ds →
      UpdatedBy rely b .recoverExhausted ds es →
      recoveredTasks (news ds) (news es) = .ok results →
      Spec rely a b .recoverZombieTasks (ds ++ es)
        (logged a b ((news ds).map recoveredEntry ++ (news es).map exhaustedEntry))
        (.commit (.ok (.recovered results)))
  | notRecovered {ds es e ls} : UpdatedBy rely b .recoverRetryable [] ds →
      UpdatedBy rely b .recoverExhausted ds es →
      recoveredTasks (news ds) (news es) = .error e →
      Spec rely a b .recoverZombieTasks (ds ++ es) ls (.rollback (.error e))
  | cancelled {taskId c} : UpdatedBy rely b (.cancel taskId) [] [c] →
      Spec rely a b (.cancel taskId) [c] (logged a b [cancelledEntry c.new])
        (.commit ((TaskRecord.tryFrom c.new).map fun record => .cancel (.cancelled record)))
  | notCancellable {taskId row} : SelectedBy rely (fun r => decide (r.id = taskId)) [] (some row) →
      (row.status = .pending ∨ row.status = .suspended → UpdatedBy rely b (.cancel taskId) [] []) →
      Spec rely a b (.cancel taskId) [] [] (.commit (.ok (.cancel (.notCancellable row.status))))
  | cancelNotFound {taskId} : SelectedBy rely (fun r => decide (r.id = taskId)) [] none →
      Spec rely a b (.cancel taskId) [] [] (.commit (.ok (.cancel .notFound)))
  | expired {timeout ds} : UpdatedBy rely b (.expireSuspendedTasks (timeout / 1000000000)) [] ds →
      Spec rely a b (.expireSuspendedTasks timeout) ds
        (logged a b ((news ds).map expiredEntry))
        (.commit (((news ds).mapM expiredTask).map .expired))
  | notWritten {taskId w data} : UpdatedBy rely b (.writeCheckpoint taskId w data) [] [] →
      Spec rely a b (.writeCheckpoint taskId w data) [] [] (.commit
        (.error (.notInExpectedState taskId "Running and claimed by current worker")))
  | written {taskId w data c} : UpdatedBy rely b (.writeCheckpoint taskId w data) [] [c] →
      Spec rely a b (.writeCheckpoint taskId w data) [c] [] (.commit (.ok .written))

/-! ## Proofs -/

/-- The updates that rewrite at most one row. -/
def Update.Single : Update → Prop
  | claimNext .. => True
  | u => ∃ id, ∀ b r, u.selects b r = true → r.id = id

section Proofs

variable {rely : Table TaskRow.id → (TaskId → Bool) → Env → Prop} {a : Bool} {b : Began}
  {cs : List (Change TaskRow)} {ls : List AuditRow}

theorem length_le_one_of_nodup {α : Type} {l : List α} {x : α} (hn : l.Nodup) (h : ∀ y ∈ l, y = x) :
    l.length ≤ 1 := by
  match l with
  | [] => simp
  | [y] => simp
  | y :: z :: l =>
    have hy := h y List.mem_cons_self
    have hz := h z (List.mem_cons_of_mem _ List.mem_cons_self)
    exact absurd (hy.trans hz.symm) (by simp_all)

theorem length_targets_le {e : Env} {t : Table TaskRow.id} {free : TaskId → Bool} {u : Update}
    (hu : u.Single) : (targets b e t.rows free u).length ≤ 1 := by
  by_cases hc : ∃ q w l r, u = .claimNext q w l r
  · obtain ⟨q, w, l, r, rfl⟩ := hc
    simp only [targets]
    cases pickNext _ <;> simp
  · have hid : ∃ id, ∀ b r, u.selects b r = true → r.id = id := by
      cases u with
      | claimNext q w l r => exact absurd ⟨q, w, l, r, rfl⟩ hc
      | _ => exact hu
    obtain ⟨id, hid⟩ := hid
    have hn : ((targets b e t.rows free u).map TaskRow.id).Nodup :=
      t.nodup.sublist ((targets_sublist b e t.rows free u).map _)
    have hall : ∀ i ∈ (targets b e t.rows free u).map TaskRow.id, i = id := by
      intro i hi
      obtain ⟨r, hr, rfl⟩ := List.mem_map.mp hi
      exact hid b r (selects_of_mem_targets hr)
    rw [← List.length_map (f := TaskRow.id)]
    exact length_le_one_of_nodup hn hall

theorem UpdatedBy.single {u : Update} {ds : List (Change TaskRow)} (h : UpdatedBy rely b u cs ds)
    (hu : u.Single) : ds = [] ∨ ∃ c, ds = [c] := by
  obtain ⟨t, e, free, -, -, hall⟩ := h
  have hlen : ds.length ≤ 1 := by
    rw [← hall.length_eq]
    exact length_targets_le hu
  rcases ds with _ | ⟨c, _ | ⟨d, ds⟩⟩
  · exact .inl rfl
  · exact .inr ⟨c, rfl⟩
  · simp at hlen

/-- An update rewrites rows it has found in a table it may see, or among those the transaction has
written. -/
theorem UpdatedBy.found {u : Update} {ds : List (Change TaskRow)} {I : TaskRow → Prop}
    (h : UpdatedBy rely b u cs ds) (hrely : ∀ t free e, rely t free e → ∀ r ∈ t.rows, I r)
    (hcs : ∀ r ∈ news cs, I r) :
    ∀ c ∈ ds, ∃ r, c.old = some r ∧ Update.Rewrites b u r c.new ∧ I r := by
  obtain ⟨t, e, free, ht, -, hall⟩ := h
  intro c hc
  obtain ⟨r, hr, hold, hrw⟩ := exists_of_mem_right hall hc
  refine ⟨r, hold, hrw, ?_⟩
  rcases Table.mem_putAll ((targets_sublist ..).subset hr) with hr | ⟨hr, -⟩
  · exact hcs r hr
  · exact hrely t free e ht r hr

theorem UpdatedBy.rewrites {u : Update} {ds : List (Change TaskRow)}
    (h : UpdatedBy rely b u cs ds) :
    ∀ c ∈ ds, ∃ r, c.old = some r ∧ Update.Rewrites b u r c.new := by
  intro c hc
  obtain ⟨r, hold, hrw, -⟩ := h.found (I := fun _ => True) (by simp) (by simp) c hc
  exact ⟨r, hold, hrw⟩

theorem mem_news_self {ds : List (Change TaskRow)} {x : TaskRow → AuditEntry}
    (hx : ∀ r, (x r).taskId = r.id) : ∀ row ∈ news ds, ∃ c ∈ ds, c.new.id = (x row).taskId := by
  intro row hr
  obtain ⟨c, hc, rfl⟩ := mem_news.mp hr
  exact ⟨c, hc, (hx c.new).symm⟩

theorem SavedBy.held {task : TaskRecord} {idempotent : Bool} {ds : List (Change TaskRow)}
    {xs : List AuditEntry} {res : Option (TaskRow × Bool)}
    (h : SavedBy rely b cs task idempotent ds xs res) (hl : Held cs ls) :
    Held (cs ++ ds) (ls ++ logged a b xs) := by
  cases h with
  | @new _ row => exact (hl.append _).logged (by simp [createdEntry])
  | old => simpa using hl
  | gone => simpa using hl

theorem CalledBy.held {call : TxCall} {ds : List (Change TaskRow)} {xs : List AuditEntry}
    {reply : Reply} (h : CalledBy rely b cs call ds xs reply) (hl : Held cs ls) :
    Held (cs ++ ds) (ls ++ logged a b xs) := by
  cases h with
  | saveInTx h => exact h.held hl
  | saveIdempotentInTx h => exact h.held hl

theorem along_saveInTx {task : TaskRecord} (hl : Held cs ls) :
    (saveInTx a task).Along postgres b rely Held (fun cs' ls' reply => ∃ ds xs,
      cs' = cs ++ ds ∧ ls' = ls ++ logged a b xs ∧
        CalledBy rely b cs (.saveInTx task) ds xs reply) cs ls := by
  apply along_insert hl
  intro r hr
  cases r with
  | none => exact absurd hr not_insertedBy_none
  | some row =>
    refine along_insertAuditRow (x := createdEntry row) (hl.append _) ⟨⟨none, row⟩, ?_, rfl⟩ ?_
    · simp [insertChange]
    · exact ⟨_, _, rfl, rfl, .saveInTx (.new hr)⟩

theorem along_saveIdempotentInTx {task : TaskRecord} (hl : Held cs ls) :
    (saveIdempotentInTx a task).Along postgres b rely Held (fun cs' ls' reply => ∃ ds xs,
      cs' = cs ++ ds ∧ ls' = ls ++ logged a b xs ∧
        CalledBy rely b cs (.saveIdempotentInTx task) ds xs reply) cs ls := by
  apply along_insert hl
  intro r hr
  cases r with
  | none =>
    simp only [insertChange, Option.toList_none, List.map_nil, List.append_nil]
    apply along_selectActive hl
    intro r hs
    cases r with
    | none => exact ⟨[], [], by simp, by simp, .saveIdempotentInTx (.gone hr hs)⟩
    | some row => exact ⟨[], [], by simp, by simp, .saveIdempotentInTx (.old hr hs)⟩
  | some row =>
    refine along_insertAuditRow (x := createdEntry row) (hl.append _) ⟨⟨none, row⟩, ?_, rfl⟩ ?_
    · simp [insertChange]
    · exact ⟨_, _, rfl, rfl, .saveIdempotentInTx (.new hr)⟩

theorem along_call {call : TxCall} (hl : Held cs ls) :
    (call.program a).Along postgres b rely Held (fun cs' ls' reply => ∃ ds xs,
      cs' = cs ++ ds ∧ ls' = ls ++ logged a b xs ∧ CalledBy rely b cs call ds xs reply) cs ls := by
  cases call with
  | saveInTx task => exact along_saveInTx hl
  | saveIdempotentInTx task => exact along_saveIdempotentInTx hl

theorem along_runCalls {calls : List TxCall} (hl : Held cs ls) :
    (runCalls a calls).Along postgres b rely Held (fun cs' ls' replies => ∃ ds xs,
      cs' = cs ++ ds ∧ ls' = ls ++ logged a b xs ∧ CalledAll rely b cs calls ds xs replies) cs
        ls := by
  induction calls generalizing cs ls with
  | nil => exact ⟨[], [], by simp, by simp, .nil⟩
  | cons call calls ih =>
    refine Program.along_bind.mpr ((along_call hl).mono ?_)
    rintro _ _ reply ⟨ds, xs, rfl, rfl, hcall⟩
    refine Program.along_bind.mpr ((ih (hcall.held hl)).mono ?_)
    rintro _ _ replies ⟨es, ys, rfl, rfl, hcalls⟩
    exact ⟨ds ++ es, xs ++ ys, by simp, by simp [logged_append], .cons hcall hcalls⟩

theorem Op.transition_single {op : Op} {tr : Transition} (h : op.transition = some tr) :
    tr.update.Single := by
  cases op with
  | complete id | suspend id | fail id _ _ _ | signal id _ =>
    cases h
    refine ⟨id, fun b r hs => ?_⟩
    simp only [Update.selects, Bool.and_eq_true, decide_eq_true_eq] at hs
    exact hs.1
  | _ => cases h

/-- A transition either finds no row and goes on otherwise, or changes one row and logs it. -/
theorem along_transition (op : Op) {tr : Transition} (htr : op.transition = some tr)
    {otherwise : Tx (Finish Reply)} (ho : UpdatedBy rely b tr.update [] [] →
      otherwise.Along postgres b rely Held (Op.Spec rely a b op) [] []) :
    (IronDefer.transition a tr.update tr.fromStatus tr.toStatus tr.workerId tr.metadata
      otherwise).Along postgres b rely Held (Op.Spec rely a b op) [] [] := by
  apply along_update (.nil [])
  intro ds hds
  rcases hds.single (Op.transition_single htr) with rfl | ⟨c, rfl⟩
  · exact ho hds
  · exact along_insertAuditRow (x := tr.entry c.new) (.nil _) ⟨c, by simp, rfl⟩ (.transition htr hds)

theorem isMapping_of_checkSignalPayload {payload : Option Json} {e : RepoError}
    (h : checkSignalPayload payload = .error e) : e.isMapping = false := by
  unfold checkSignalPayload at h
  split at h
  · cases h
  · split at h <;> cases h
    rfl

/-- Only transitions are refused, and not for a row that cannot be decoded. -/
theorem Op.Refuses.transition {op : Op} {e : RepoError} (h : op.Refuses rely b e) :
    op.transition.isSome ∧ e.isMapping = false := by
  cases h with
  | payload he => exact ⟨rfl, isMapping_of_checkSignalPayload he⟩
  | _ => exact ⟨rfl, rfl⟩

/-- **Every run of an operation ends in one of the ways its specification lists.** -/
theorem Op.along_spec (op : Op) (a : Bool) (b : Began)
    (rely : Table TaskRow.id → (TaskId → Bool) → Env → Prop) :
    (op.program a).Along postgres b rely Held (Op.Spec rely a b op) [] [] := by
  -- one case for each operation: its statements one after the other, then what it replies
  cases op with
  | save task =>
    apply along_insert (.nil [])
    intro r hr
    cases r with
    | none => exact absurd hr not_insertedBy_none
    | some row =>
      exact along_insertAuditRow (x := createdEntry row) (.nil _) ⟨⟨none, row⟩, by simp [insertChange],
        rfl⟩ (.save (.new hr))
  | saveIdempotent task =>
    apply along_insert (.nil [])
    intro r hr
    cases r with
    | none =>
      apply along_selectActive (.nil _)
      intro r hs
      cases r with
      | none =>
        have hspec := Spec.saveIdempotent (a := a) (.gone hr hs)
        rw [logged_nil] at hspec
        exact hspec
      | some row =>
        have hspec := Spec.saveIdempotent (a := a) (.old hr hs)
        rw [logged_nil] at hspec
        exact hspec
    | some row =>
      exact along_insertAuditRow (x := createdEntry row) (.nil _) ⟨⟨none, row⟩, by simp [insertChange],
        rfl⟩ (.saveIdempotent (.new hr))
  | inTx calls commit =>
    refine Program.along_bind.mpr ((along_runCalls (.nil [])).mono ?_)
    rintro _ _ replies ⟨ds, xs, rfl, rfl, h⟩
    cases commit with
    | false => exact .inTxRollback h
    | true => exact .inTxCommit h
  | cleanupExpiredIdempotencyKeys now =>
    apply along_update (.nil [])
    intro ds hds
    simpa [news] using Spec.cleanup hds
  | findById id =>
    apply along_select (.nil [])
    intro r hr
    cases r with
    | none => exact .notFound hr
    | some row => exact .found hr
  | claimNext queue w lease region =>
    apply along_update (.nil [])
    intro ds hds
    rcases hds.single trivial with rfl | ⟨c, rfl⟩
    · exact .unclaimed hds
    · exact along_insertAuditRow (x := claimedEntry w c.new) (.nil _) ⟨c, by simp, rfl⟩ (.claimed hds)
  | complete taskId =>
    exact along_transition (.complete taskId) rfl fun hds => .refused (.complete hds)
  | fail taskId errorMessage baseDelaySecs maxDelaySecs =>
    exact along_transition (.fail taskId errorMessage baseDelaySecs maxDelaySecs) rfl
      fun hds => .refused (.fail hds)
  | suspend taskId =>
    exact along_transition (.suspend taskId) rfl fun hds => .refused (.suspend hds)
  | signal taskId payload =>
    simp only [program, IronDefer.signal]
    split
    next e he => exact Spec.refused (.payload he)
    · refine along_transition (.signal taskId payload) rfl fun hds =>
        along_select (.nil _) fun r hr => ?_
      cases r with
      | none => exact .refused (.notFound hds hr)
      | some row => exact .refused (.notSuspended hds hr)
  | releaseLeaseForTask taskId =>
    apply along_update (.nil [])
    intro ds hds
    rcases hds.single ⟨taskId, fun b r h => by simp_all [Update.selects]⟩ with rfl | ⟨⟨o, r'⟩, rfl⟩
    · exact .notReleased
    · obtain ⟨r, -, hr⟩ := hds.rewrites _ (List.mem_singleton_self _)
      obtain rfl : r'.id = taskId := by cases hr; rfl
      exact along_insertAuditRow (x := releasedEntry none r') (.nil _) ⟨⟨o, r'⟩, by simp, rfl⟩
        (.releasedTask hds)
  | releaseLeasesForWorker w =>
    apply along_update (.nil [])
    intro ds hds
    exact along_forM_insertAuditRow (releasedEntry (some w)) (.nil _) (mem_news_self fun _ => rfl)
      (.released hds)
  | recoverZombieTasks =>
    apply along_update (.nil [])
    intro ds hds
    apply along_update (.nil _)
    intro es hes
    -- both loops write about rows that the two updates have changed
    have hretry : ∀ row ∈ news ds, ∃ c ∈ ds ++ es, c.new.id = (recoveredEntry row).taskId := by
      intro row hr
      obtain ⟨c, hc, h⟩ := mem_news_self (x := recoveredEntry) (fun _ => rfl) row hr
      exact ⟨c, List.mem_append_left _ hc, h⟩
    have hexhaust : ∀ row ∈ news es, ∃ c ∈ ds ++ es, c.new.id = (exhaustedEntry row).taskId := by
      intro row hr
      obtain ⟨c, hc, h⟩ := mem_news_self (x := exhaustedEntry) (fun _ => rfl) row hr
      exact ⟨c, List.mem_append_right _ hc, h⟩
    apply along_forM_insertAuditRow recoveredEntry (.nil _) hretry
    refine along_forM_insertAuditRow exhaustedEntry ((Held.nil _).logged ?_) hexhaust ?_
    · simpa using hretry
    · cases hr : recoveredTasks (news ds) (news es) with
      | error e => exact .notRecovered hds hes hr
      | ok results =>
        have hspec := Op.Spec.recovered (a := a) hds hes hr
        rw [logged_append] at hspec
        exact hspec
  | cancel taskId =>
    apply along_select (.nil [])
    intro snapshot hsnap
    cases snapshot with
    | none => exact .cancelNotFound hsnap
    | some row =>
      by_cases hc : (some row).any fun r => r.status = .pending || r.status = .suspended
      · rw [cancelAttempt, if_pos hc]
        apply along_update (.nil [])
        intro ds hds
        rcases hds.single ⟨taskId, fun b r h => by simp_all [Update.selects]⟩ with rfl | ⟨c, rfl⟩
        · simpa [Except.map] using Spec.notCancellable (a := a) hsnap fun _ => hds
        · exact along_insertAuditRow (x := cancelledEntry c.new) (.nil _) ⟨c, by simp, rfl⟩
            (.cancelled hds)
      · -- the update is not tried
        rw [cancelAttempt, if_neg hc]
        have hmiss := Spec.notCancellable (a := a) (b := b) hsnap fun hs =>
          absurd (by simpa using hs) hc
        simpa [Except.map] using hmiss
  | expireSuspendedTasks timeout =>
    apply along_update (.nil [])
    intro ds hds
    exact along_forM_insertAuditRow expiredEntry (.nil _) (mem_news_self fun _ => rfl)
      (.expired hds)
  | writeCheckpoint taskId w data =>
    apply along_update (.nil [])
    intro ds hds
    rcases hds.single ⟨taskId, fun b r h => by simp_all [Update.selects]⟩ with rfl | ⟨c, rfl⟩
    · exact .notWritten hds
    · exact .written hds

end Proofs

/-! ## Runs -/

/-- A transaction that has ended meets the specification of its operation. -/
def Outcome.Specified (rely : Table TaskRow.id → (TaskId → Bool) → Env → Prop) (ids : ℕ → Prop) :
    Outcome → Prop :=
  Output.Meets (fun call b => Op.Spec rely call.auditLog b call.op) ids

section Runs

variable {ok : List Outcome → System → Move → Prop} {db₀ db : System} {os : List Outcome}

/-- The operations are proved for the transactions `ids`, none of which is open at the start. -/
theorem proved_spec {rely : Table TaskRow.id → (TaskId → Bool) → Env → Prop} {ids : ℕ → Prop}
    (hx : db₀.Exclusive) (hopen : ∀ s ∈ db₀.sessions.rows, ¬ ids s.id)
    (hrely : ∀ os db sid e, Runs ok db₀ os db → ok os db (.exec sid e) → ids sid →
      rely db.table (db.free sid) e) :
    Proved postgres Call.program ok db₀ rely Held (fun call b => Op.Spec rely call.auditLog b call.op)
      ids where
  init := .nil []
  programs _ _ _ call b _ _ := call.op.along_spec call.auditLog b rely
  within _ _ _ _ h hok hid := hrely _ _ _ _ h hok hid
  exclusive := hx
  sound s hs hid := absurd hid (hopen s hs)

/-- **Every transaction of a run ends in one of the ways its operation's specification lists.** -/
theorem Runs.spec (rely : Table TaskRow.id → (TaskId → Bool) → Env → Prop) (ids : ℕ → Prop)
    (hx : db₀.Exclusive) (hopen : ∀ s ∈ db₀.sessions.rows, ¬ ids s.id)
    (hrely : ∀ os db sid e, Runs ok db₀ os db → ok os db (.exec sid e) → ids sid →
      rely db.table (db.free sid) e)
    (h : Runs ok db₀ os db) : ∀ o ∈ os, o.Specified rely ids :=
  Reaches.meets (proved_spec hx hopen hrely) h

end Runs

/-- A transaction that has ended meets the specification of its operation. -/
abbrev Outcome.Meets (o : Outcome) : Prop := o.Specified (fun _ _ _ => True) fun _ => True

/-- What is answered with a response has been committed, but for a batch its caller rolls back. -/
theorem Outcome.Meets.eq_committed {o : Outcome} (h : o.Meets) {x : Response}
    (hx : ∀ replies, x ≠ .batch replies) (hreply : o.reply = some (.ok x)) :
    ∃ sid call b cs ls, o = .committed sid call b cs ls (.ok x) ∧
      Op.Spec (fun _ _ _ => True) call.auditLog b call.op cs (ls.map Prod.snd) (.commit (.ok x)) := by
  cases o with
  | silent => cases hreply
  | failed => cases hreply
  | committed sid call b cs ls r =>
    cases hreply
    exact ⟨sid, call, b, cs, ls, rfl, h trivial⟩
  | returned sid call b r =>
    cases hreply
    obtain ⟨cs, ls, hspec⟩ := h trivial
    obtain ⟨a, op, onBehalf⟩ := call
    cases hspec with
    | inTxRollback => exact absurd rfl (hx _)

/-- A call of its own that is answered with a response has been committed. -/
theorem Outcome.Meets.committed {o : Outcome} (h : o.Meets) {call : Call} (hop : o.op = some call)
    {x : Response} (hx : ∀ replies, x ≠ .batch replies) (hreply : o.reply = some (.ok x)) :
    ∃ b ls, Op.Spec (fun _ _ _ => True) call.auditLog b call.op o.changes ls (.commit (.ok x)) := by
  obtain ⟨sid, call', b, cs, ls, rfl, hspec⟩ := h.eq_committed hx hreply
  cases hop
  exact ⟨b, _, hspec⟩

end IronDefer
