import IronDefer.Api.Regions
import IronDefer.Api.Start
import IronDefer.Infrastructure.Attempts
import IronDefer.Infrastructure.KeyRace
import IronDefer.RowStore.Calls
import IronDefer.RowStore.Reports

/-!
# Enqueued events and created tasks

Every entry point of the engine that submits a task tells of it by an event, once the store has
accepted the record. The store accepts a record as well where it has found an active task with the
same key and has created none, and a record it has accepted within a transaction of the caller may
still be rolled back. The callers of the entry points are clients of the store here, and any number
of them run on one database, among other callers.

A caller that is dropped within its own transaction is one that gets an error in place of the
answer.

## Main definitions

* `EnqueuedLog`, `emitTaskEnqueued`: the event
* `submitTask`, `enqueueInTransaction`: the callers
* `EnqueueSite`: a database and the callers
* `Orderly`: a step at which no event goes wrong
* `created`: the tasks a step of the database has created

## Main results

* `accepted_eq_created`: an answer accepts the tasks its transaction has created
* `enqueued_events_exact`: in a run of orderly steps, each created task has one event, and no other
  task has any
-/

namespace IronDefer

open RowStore

/-! ## The callers -/

/-- The record of a submission in the log. -/
structure EnqueuedLog where
  taskId : TaskId
  queue : QueueName
  kind : TaskKind
  priority : Priority
  attempt : ℕ
  maxAttempts : MaxAttempts
  scheduledAt : DateTime
  payload : Option Json

/-- `attempt` is 0, so that all lifecycle events have one schema. -/
def emitTaskEnqueued (record : TaskRecord) (logPayload : Bool) : EnqueuedLog where
  taskId := record.id
  queue := record.queue
  kind := record.kind
  priority := record.priority
  attempt := 0
  maxAttempts := record.maxAttempts
  scheduledAt := record.scheduledAt
  payload := if logPayload then some record.payload else none

/-- The effects of a caller that are not its calls. -/
inductive EnqueueEffect where
  | emit (log : EnqueuedLog)
  /-- What had been accepted in a transaction that has failed. -/
  | acceptedBefore

abbrev EnqueueEffect.Answer : EnqueueEffect → Type
  | .emit _ => Unit
  | .acceptedBefore => List TaskRecord

abbrev EnqueueProgram := ClientProgram Call EnqueueEffect.Answer Unit Reply Unit

/-- The record an answer to one submission accepts, whether its task is new or not. -/
def acceptedRecord : Reply → Option TaskRecord
  | .ok (.task record) | .ok (.saved record _) => some record
  | _ => none

/-- The records an answer accepts. -/
def accepted : Reply → List TaskRecord
  | .ok (.batch replies) => replies.filterMap acceptedRecord
  | reply => (acceptedRecord reply).toList

/-- An engine that submits. -/
structure Enqueuer where
  engine : Engine
  auditLog : Bool
  logPayload : Bool

namespace Enqueuer

variable (e : Enqueuer)

/-- Tell of the records that have been accepted. -/
def emitAll (records : List TaskRecord) : EnqueueProgram :=
  records.forM fun record => .stmt (.own (.emit (emitTaskEnqueued record e.logPayload))) .pure

/-- Call the store, and tell of what its answer accepts. -/
def save (op : Op) (otherwise : EnqueueProgram) : EnqueueProgram :=
  .stmt (.call ⟨e.auditLog, op, none⟩) fun x =>
    match x.2 with
    | some reply => e.emitAll (accepted reply)
    | none => otherwise

end Enqueuer

/-- The operation of a submission outside a transaction of the caller. -/
def Submission.saveOp (record : TaskRecord) : Submission → Option Op
  | .enqueue .. | .enqueueAt .. | .enqueueWithRegion .. | .enqueueRaw .. => some (.save record)
  | .enqueueIdempotent .. | .enqueueIdempotentWithRegion .. | .enqueueRawIdempotent .. =>
    some (.saveIdempotent record)
  | .enqueueInTx .. | .enqueueInTxIdempotent .. => none

/-- The call of a submission inside a transaction of the caller. -/
def Submission.txCall (record : TaskRecord) : Submission → Option TxCall
  | .enqueueInTx .. => some (.saveInTx record)
  | .enqueueInTxIdempotent .. => some (.saveIdempotentInTx record)
  | .enqueue .. | .enqueueAt .. | .enqueueWithRegion .. | .enqueueRaw .. | .enqueueIdempotent ..
  | .enqueueIdempotentWithRegion .. | .enqueueRawIdempotent .. => none

/-- A submission, with the identifier and the instant it is given. -/
structure Request where
  id : TaskId
  now : DateTime
  submission : Submission

/-- The record of a request, where the engine does not refuse it. -/
def Request.record? (e : Enqueuer) (r : Request) : Option TaskRecord :=
  match e.engine.submit r.id r.now r.submission with
  | .ok record => some record
  | .error _ => none

/-- A submission. -/
def submitTask (e : Enqueuer) (r : Request) : EnqueueProgram :=
  match (r.record? e).bind fun record => r.submission.saveOp record with
  | some op => e.save op (.pure ())
  | none => .pure ()

/-- The calls of some submissions inside a transaction. -/
def txCalls (e : Enqueuer) (requests : List Request) : List TxCall :=
  requests.filterMap fun r => (r.record? e).bind fun record => r.submission.txCall record

/-- A transaction of the caller in which it submits, and which it commits or rolls back. -/
def enqueueInTransaction (e : Enqueuer) (requests : List Request) (commit : Bool) :
    EnqueueProgram :=
  e.save (.inTx (txCalls e requests) commit) (.stmt (.own .acceptedBefore) e.emitAll)

/-- The callers of the entry points. -/
inductive EnqueueClient where
  | submit (e : Enqueuer) (r : Request)
  | transaction (e : Enqueuer) (requests : List Request) (commit : Bool)

def EnqueueClient.program : EnqueueClient → EnqueueProgram
  | .submit e r => submitTask e r
  | .transaction e requests commit => enqueueInTransaction e requests commit

/-- The database and the callers. -/
abbrev EnqueueSite :=
  Site TaskRow.id AuditRow Stmt Stmt.Res Call Began Reply SqlError EnqueueClient
    EnqueueEffect.Answer Unit

abbrev EnqueueSite.Event := Site.Event Call Began Env EnqueueClient EnqueueEffect.Answer Unit

abbrev EnqueueCaller := Client EnqueueClient Call EnqueueEffect.Answer Unit Reply Outcome

abbrev EnqueueTaken := Taken Call EnqueueEffect EnqueueEffect.Answer Outcome

/-- One step of a site. -/
abbrev EnqueueSite.step : EnqueueSite → EnqueueSite.Event → Option EnqueueSite :=
  Site.step postgres Call.program Env.seen SameLife EnqueueClient.program

/-! ## Events and tasks -/

/-- The task an effect tells of. -/
def EnqueueEffect.tells : EnqueueEffect → List TaskId
  | .emit log => [log.taskId]
  | .acceptedBefore => []

/-- The tasks some changes create. -/
def createdBy (cs : List (Change TaskRow)) : List TaskId :=
  (cs.filter fun c => c.old.isNone).map fun c => c.new.id

/-- The tasks a step of the database has created. -/
def created (o : Outcome) : List TaskId := createdBy o.changes

namespace EnqueueSite

variable (s : EnqueueSite)

/-- The tasks the events tell of, one entry for each event. -/
def told : List TaskId := s.clients.flatMap fun c => RowStore.told EnqueueEffect.tells c.past

/-- The tasks that have been created through the calls of the callers. -/
def createdTasks : List TaskId := (ended s.server.shown s.called).flatMap created

end EnqueueSite

/-- No call of a caller is under way: it has not made one yet, or it is over. -/
def AtRest (c : EnqueueCaller) : Bool :=
  match c.rest with
  | .pure _ | .unwind => true
  | .stmt .. => c.past.isEmpty && c.waits.isNone

/-! ## Orderly steps -/

/-- The insert a transaction is at finds an active task with its key. -/
def insertClashes (db : System) (x : Session Stmt Stmt.Res Call Began TaskRow AuditRow Reply) :
    Bool :=
  match x.rest with
  | .stmt (.insertTask task lastError true) _ =>
    (db.view x).rows.any (clashes (insertedRow x.began task lastError))
  | _ => false

/-- A transaction is about to commit rows. -/
def commitsRows (x : Session Stmt Stmt.Res Call Began TaskRow AuditRow Reply) : Bool :=
  match x.rest with
  | .pure (.commit _) => !x.news.isEmpty
  | _ => false

/-- What has been accepted in a transaction that was rolled back. -/
def acceptedInVain : Outcome → List TaskRecord
  | .returned _ _ _ reply => accepted reply
  | .silent | .failed .. | .committed .. => []

/-- What has ended under the number a caller waits for. -/
def EnqueueSite.endedFor (s : EnqueueSite) (c : EnqueueCaller) : List Outcome :=
  ended s.server.shown c.waits.toList

/-- Where a caller may be dropped: it is at its call, and not within a transaction of its own. -/
def mayLeave (c : EnqueueCaller) : Bool :=
  match c.rest, c.origin with
  | .stmt (.call _) _, .submit .. => true
  | .stmt (.call _) _, .transaction .. => c.waits.isNone
  | _, _ => false

/-- A caller whose transaction has failed. -/
def asksBefore (c : EnqueueCaller) : Bool :=
  match c.rest with
  | .stmt (.own .acceptedBefore) _ => true
  | _ => false

/-- **An orderly step.** The insert of a keyed submission finds no active task with its key; a
transaction in which a record was accepted is neither rolled back nor fails; and no task is created
by a call whose caller does not get the answer. -/
def Orderly (s : EnqueueSite) : EnqueueSite.Event → Prop
  | .database (.exec sid _) =>
    sid ∈ s.called → ∀ x ∈ s.server.db.sessions.rows, x.id = sid → insertClashes s.server.db x = false
  | .database (.finish sid) =>
    sid ∈ s.server.dropped → ∀ x ∈ s.server.db.sessions.rows, x.id = sid → commitsRows x = false
  | .hear i _ => ∀ c ∈ s.clients[i]?, (s.endedFor c).flatMap acceptedInVain = []
  | .lose i _ => ∀ c ∈ s.clients[i]?, (s.endedFor c).flatMap created = []
  | .leave i => ∀ c ∈ s.clients[i]?, (s.endedFor c).flatMap created = [] ∧ mayLeave c = true
  | .act i answer => ∀ c ∈ s.clients[i]?, asksBefore c = true → answer .acceptedBefore = []
  | .database (.start ..) | .database (.fault _) | .call .. | .enter _ | .send .. => True

/-! ## What an answer accepts -/

section Accepted

variable {rely : Table TaskRow.id → (TaskId → Bool) → Env → Prop} {b : Began}
  {cs ds : List (Change TaskRow)} {xs : List AuditEntry}

/-- A submission that has found a task. -/
def Repeats (reply : Reply) : Prop := ∃ record, reply = .ok (.saved record false)

theorem createdBy_append (cs ds : List (Change TaskRow)) :
    createdBy (cs ++ ds) = createdBy cs ++ createdBy ds := by
  rw [createdBy, List.filter_append, List.map_append]
  rfl

/-- An answer accepts a row that has been inserted. -/
theorem accepted_inserted {task : TaskRecord} {row : TaskRow} {d : Bool} (hf : Fresh task)
    (h : InsertedBy rely b task d cs (some row)) {f : TaskRecord → Response}
    (hreply : ∀ record, acceptedRecord (.ok (f record)) = some record) :
    ((acceptedRecord ((TaskRecord.tryFrom row).map f)).toList).map TaskRecord.id = [row.id] := by
  rw [tryFrom_of_decodes (h.decodes hf)]
  show (acceptedRecord (.ok (f _))).toList.map _ = _
  rw [hreply]
  rfl

theorem SavedBy.accepted {task : TaskRecord} (hf : Fresh task) {gone : RepoError}
    {res : Option (TaskRow × Bool)} (h : SavedBy rely b cs task true ds xs res)
    (hnew : ¬ Repeats (savedReply gone res)) :
    (acceptedRecord (savedReply gone res)).toList.map TaskRecord.id = createdBy ds := by
  cases h with
  | new h => exact accepted_inserted hf h fun _ => rfl
  | gone => rfl
  | @old row =>
    cases hrec : TaskRecord.tryFrom row with
    | error e => simp [savedReply, hrec, Except.map, acceptedRecord, createdBy]
    | ok record =>
      refine absurd ⟨record, ?_⟩ hnew
      simp [savedReply, hrec, Except.map]

theorem SavedBy.accepted_plain {task : TaskRecord} (hf : Fresh task) {row : TaskRow}
    (h : SavedBy rely b cs task false ds xs (some (row, true))) :
    (acceptedRecord (taskReply row)).toList.map TaskRecord.id = createdBy ds := by
  cases h with
  | new h => exact accepted_inserted hf h fun _ => rfl

/-- The answers to the calls inside a transaction accept the tasks the calls have created. -/
theorem CalledAll.accepted {calls : List TxCall} {replies : List Reply}
    (h : CalledAll rely b cs calls ds xs replies) (hf : ∀ call ∈ calls, Fresh call.task)
    (hnew : ∀ reply ∈ replies, ¬ Repeats reply) :
    (replies.filterMap acceptedRecord).map TaskRecord.id = createdBy ds := by
  induction h with
  | nil => rfl
  | @cons cs call calls ds es xs ys reply replies hcall _ ih =>
    have hrest := ih (fun call hc => hf call (List.mem_cons_of_mem _ hc))
      fun reply hr => hnew reply (List.mem_cons_of_mem _ hr)
    have hfirst : (acceptedRecord reply).toList.map TaskRecord.id = createdBy ds := by
      have hfresh := hf call List.mem_cons_self
      cases hcall with
      | saveInTx hsaved => exact hsaved.accepted_plain hfresh
      | saveIdempotentInTx hsaved => exact hsaved.accepted hfresh (hnew _ List.mem_cons_self)
    rw [createdBy_append, ← hfirst, ← hrest, ← List.map_append]
    cases hr : acceptedRecord reply with
    | none => rw [List.filterMap_cons_none hr]; rfl
    | some record => rw [List.filterMap_cons_some hr]; rfl

end Accepted

/-- An operation that submits new tasks. -/
inductive Op.SubmitsFresh : Op → Prop
  | save {task} : Fresh task → SubmitsFresh (.save task)
  | saveIdempotent {task} : Fresh task → SubmitsFresh (.saveIdempotent task)
  | inTx {calls commit} : (∀ call ∈ calls, Fresh call.task) → SubmitsFresh (.inTx calls commit)

/-- No keyed submission of an operation has found a task. -/
def Op.AllNew (op : Op) (fin : Finish Reply) : Prop :=
  (∀ task, op = .saveIdempotent task → ¬ Repeats fin.reply) ∧
  ∀ calls commit, op = .inTx calls commit → ∀ replies, fin.reply = .ok (.batch replies) →
    ∀ reply ∈ replies, ¬ Repeats reply

/-- The answer to a save is the answer to one submission. -/
theorem accepted_of_ne_batch {reply : Reply} (h : ∀ replies, reply ≠ .ok (.batch replies)) :
    accepted reply = (acceptedRecord reply).toList := by
  unfold accepted
  split
  next replies => exact absurd rfl (h replies)
  · rfl

theorem accepted_taskReply (row : TaskRow) :
    accepted (taskReply row) = (acceptedRecord (taskReply row)).toList := by
  apply accepted_of_ne_batch
  intro replies h
  obtain ⟨record, -, heq⟩ := eq_of_map_eq_ok h
  cases heq

theorem accepted_savedReply (gone : RepoError) (res : Option (TaskRow × Bool)) :
    accepted (savedReply gone res) = (acceptedRecord (savedReply gone res)).toList := by
  apply accepted_of_ne_batch
  intro replies h
  cases res with
  | none => cases h
  | some x =>
    obtain ⟨record, -, heq⟩ := eq_of_map_eq_ok h
    cases heq

/-- What a submission that has been committed is answered accepts the tasks it has created. -/
theorem Op.Spec.accepted {rely : Table TaskRow.id → (TaskId → Bool) → Env → Prop} {a : Bool}
    {b : Began} {op : Op} {cs : List (Change TaskRow)} {ls : List AuditRow} {reply : Reply}
    (h : Op.Spec rely a b op cs ls (.commit reply)) (hsub : op.SubmitsFresh)
    (hnew : op.AllNew (.commit reply)) :
    (accepted reply).map TaskRecord.id = createdBy cs := by
  generalize hfin : Finish.commit reply = fin at h
  -- a submission ends as one of its own kind, or in a rollback, which commits no reply
  cases hsub with
  | save hf =>
    cases h with
    | save hsaved =>
      cases hfin
      rw [accepted_taskReply]
      exact hsaved.accepted_plain hf
    | refused => cases hfin
    | transition htr => cases htr
  | saveIdempotent hf =>
    cases h with
    | saveIdempotent hsaved =>
      cases hfin
      rw [accepted_savedReply]
      exact hsaved.accepted hf (hnew.1 _ rfl)
    | refused => cases hfin
    | transition htr => cases htr
  | inTx hf =>
    cases h with
    | inTxCommit hcalled =>
      cases hfin
      exact hcalled.accepted hf (hnew.2 _ _ rfl _ rfl)
    | inTxRollback => cases hfin
    | refused => cases hfin
    | transition htr => cases htr

/-- **An answer accepts the tasks its transaction has created**, where none has been found, and none
has been accepted in vain. -/
theorem accepted_eq_created {o : Outcome} {c : Call} (h : o.Meets) (hop : o.op = some c)
    (hsub : c.op.SubmitsFresh) {ids : ℕ → Prop} (hid : ∀ sid, o.sid? = some sid → ids sid)
    (hnew : Output.Meets (fun call _ _ _ fin => call.op.AllNew fin) ids o)
    (hvain : acceptedInVain o = []) {reply : Reply} (hreply : o.reply = some reply) :
    (accepted reply).map TaskRecord.id = created o := by
  cases o with
  | silent => cases hreply
  | failed => cases hreply
  | returned sid call b r =>
    -- nothing is committed, and nothing was accepted
    cases hreply
    rw [show accepted reply = [] from hvain]
    rfl
  | committed sid call b cs ls r =>
    cases hop
    cases hreply
    exact Op.Spec.accepted (h trivial) hsub (hnew (hid sid rfl))

/-! ## New tasks -/

/-- A keyed insert has inserted its row. -/
def Stmt.Inserts : (q : Stmt) → q.Res → Prop
  | .insertTask _ _ onConflictDoNothing, r => onConflictDoNothing = true → r ≠ none
  | .update _, _ | .selectById _, _ | .selectActive .., _ | .insertAudit .., _ => True

theorem not_repeats_map {row : TaskRow} {f : TaskRecord → Response}
    (hf : ∀ record record', f record ≠ .saved record' false) :
    ¬ Repeats ((TaskRecord.tryFrom row).map f) := by
  rintro ⟨record', h⟩
  obtain ⟨record, -, heq⟩ := eq_of_map_eq_ok h
  exact hf record record' heq

theorem endsIn_call_new (a : Bool) (call : TxCall) :
    (call.program a).EndsIn Stmt.Inserts fun reply => ¬ Repeats reply := by
  cases call with
  | saveInTx task =>
    intro r _
    cases r with
    | none => exact fun ⟨_, h⟩ => by cases h
    | some row =>
      apply Program.endsIn_bind_of_forall (p := auditCreated a row)
      exact fun _ => not_repeats_map (by simp)
  | saveIdempotentInTx task =>
    intro r hr
    cases r with
    | none => exact absurd rfl (hr rfl)
    | some row =>
      apply Program.endsIn_bind_of_forall (p := auditCreated a row)
      exact fun _ => not_repeats_map (by simp)

/-- Where its keyed inserts insert their rows, an operation finds no task. -/
theorem Op.endsIn_new (op : Op) (a : Bool) : (op.program a).EndsIn Stmt.Inserts op.AllNew := by
  cases op with
  | saveIdempotent task =>
    intro r hr
    cases r with
    | none => exact absurd rfl (hr rfl)
    | some row =>
      apply Program.endsIn_bind_of_forall (p := auditCreated a row)
      exact fun _ => ⟨fun _ _ => not_repeats_map (by simp), by simp⟩
  | inTx calls commit =>
    refine Program.endsIn_bind.mpr
      ((endsIn_runCalls (endsIn_call_new a) calls).mono fun replies hnew => ?_)
    have hall : ∀ reply ∈ replies, ¬ Repeats reply := fun reply hr =>
      let ⟨_, _, h⟩ := exists_of_mem_right hnew hr
      h
    cases commit <;> exact ⟨by simp, by rintro _ _ ⟨⟩ _ ⟨⟩; exact hall⟩
  | _ => exact Program.endsIn_of_forall (fun _ => ⟨by simp, by simp⟩) _

/-- An insert that returns no row has found one with its key. -/
theorem clashes_of_execInsert {b : Began} {task : TaskRecord} {lastError : Option String}
    {rows : List TaskRow} (h : execInsert b task lastError true rows = .ok none) :
    rows.any (clashes (insertedRow b task lastError)) = true := by
  obtain ⟨-, -, h⟩ := exists_of_bind_ok h
  obtain ⟨-, -, h⟩ := exists_of_bind_ok h
  rw [Bool.true_and] at h
  by_cases hc : rows.any (clashes (insertedRow b task lastError)) = true
  · exact hc
  · rw [if_neg hc] at h
    split at h
    · cases h
    · obtain ⟨-, -, h⟩ := exists_of_bind_ok h
      cases h

/-- A keyed insert that finds no task with its key inserts its row. -/
theorem inserts_of_exec {db : System} {x : Session Stmt Stmt.Res Call Began TaskRow AuditRow Reply}
    {q : Stmt} {k : q.Res → Tx (Finish Reply)} {env : Env} {free : TaskId → Bool}
    {eff : Effect TaskRow AuditRow q.Res} (hrest : x.rest = .stmt q k)
    (hclash : insertClashes db x = false)
    (he : postgres.exec q x.began env (db.view x).rows free = .ok eff) :
    q.Inserts eff.result := by
  cases q with
  | insertTask task lastError d =>
    rintro rfl hnone
    obtain ⟨r, hr, he⟩ := exists_of_bind_ok he
    cases he
    obtain rfl : r = none := hnone
    rw [insertClashes, hrest] at hclash
    exact absurd (clashes_of_execInsert hr) (by simp [hclash])
  | _ => trivial

/-! ## What a caller takes -/

/-- A program that tells and returns. -/
def Telling : EnqueueProgram → Prop
  | .pure _ => True
  | .unwind => False
  | .stmt (.own _) k => ∀ r, Telling (k r)
  | .stmt (.call _) _ => False

theorem telling_emitAll (e : Enqueuer) (records : List TaskRecord) :
    Telling (e.emitAll records) := by
  induction records with
  | nil => trivial
  | cons record records ih => exact fun _ => ih

/-- A program that tells makes no call. -/
theorem Telling.follows {p q : EnqueueProgram} {es : List EnqueueTaken} (h : Telling p)
    (hf : p.Follows es q) : Telling q ∧ es.filterMap Site.callNumber = [] := by
  induction hf with
  | here => exact ⟨h, rfl⟩
  | own r _ ih => exact ih (h r)
  | heard => exact h.elim
  | lost => exact h.elim

theorem told_emitAll {e : Enqueuer} {records : List TaskRecord} {es : List EnqueueTaken} {a : Unit}
    (h : (e.emitAll records).Follows es (.pure a)) :
    told EnqueueEffect.tells es = records.map TaskRecord.id := by
  induction records generalizing es with
  | nil =>
    cases h
    rfl
  | cons record records ih =>
    cases h with
    | own r h =>
      rw [told_own, ih h]
      rfl

/-- What a caller does that gets no answer. -/
inductive Enqueuer.Otherwise (e : Enqueuer) : EnqueueProgram → Prop
  | done : Otherwise e (.pure ())
  | acceptedBefore : Otherwise e (.stmt (.own .acceptedBefore) e.emitAll)

theorem Enqueuer.Otherwise.telling {e : Enqueuer} {p : EnqueueProgram} (h : e.Otherwise p) :
    Telling p := by
  cases h with
  | done => trivial
  | acceptedBefore => exact telling_emitAll e

/-- A caller that gets no answer tells nothing where nothing was accepted before. -/
theorem Enqueuer.Otherwise.told {e : Enqueuer} {p : EnqueueProgram} (h : e.Otherwise p)
    {es : List EnqueueTaken} {a : Unit} (hf : p.Follows es (.pure a))
    (hbefore : ∀ records, .own .acceptedBefore records ∈ es → records = []) :
    told EnqueueEffect.tells es = [] := by
  cases h with
  | done =>
    cases hf
    rfl
  | acceptedBefore =>
    cases hf with
    | own records hf =>
      obtain rfl := hbefore records List.mem_cons_self
      exact told_emitAll hf

/-- A record the engine has checked is fresh. -/
theorem Request.fresh {e : Enqueuer} {r : Request} {record : TaskRecord}
    (h : r.record? e = some record) : Fresh record := by
  unfold Request.record? at h
  split at h
  next record' hsubmit =>
    cases h
    exact (Engine.submit_enqueued hsubmit).fresh
  · cases h

/-- A program makes no call, or one that submits, and tells of the answer. -/
inductive SubmitsOnce : EnqueueProgram → Prop
  | refused : SubmitsOnce (.pure ())
  | save {e : Enqueuer} {op : Op} {otherwise : EnqueueProgram} :
      op.SubmitsFresh → e.Otherwise otherwise → SubmitsOnce (e.save op otherwise)

/-- **What a caller does.** -/
theorem EnqueueClient.submitsOnce (client : EnqueueClient) : SubmitsOnce client.program := by
  cases client with
  | submit e r =>
    show SubmitsOnce (submitTask e r)
    unfold submitTask
    split
    next op hop =>
      obtain ⟨record, hrecord, hop⟩ := Option.bind_eq_some_iff.mp hop
      refine .save ?_ .done
      have hfresh := Request.fresh hrecord
      unfold Submission.saveOp at hop
      split at hop <;> cases hop
      all_goals first | exact .save hfresh | exact .saveIdempotent hfresh
    · exact .refused
  | transaction e requests commit =>
    refine .save (.inTx fun call hcall => ?_) .acceptedBefore
    obtain ⟨r, -, hr⟩ := List.mem_filterMap.mp hcall
    obtain ⟨record, hrecord, htx⟩ := Option.bind_eq_some_iff.mp hr
    have hfresh := Request.fresh hrecord
    unfold Submission.txCall at htx
    split at htx <;> cases htx
    all_goals exact hfresh

theorem telling_answered {e : Enqueuer} {otherwise : EnqueueProgram} (h : e.Otherwise otherwise)
    (x : Option Reply) : Telling (match x with
      | some reply => e.emitAll (accepted reply)
      | none => otherwise) := by
  cases x with
  | none => exact h.telling
  | some reply => exact telling_emitAll e _

/-- **What a caller has taken**: nothing, or its call, and then effects of its own. -/
theorem SubmitsOnce.taken {p q : EnqueueProgram} (hp : SubmitsOnce p) {es : List EnqueueTaken}
    (h : p.Follows es q) : es = [] ∧ q = p ∨
      ∃ x es', es = x :: es' ∧ Telling q ∧ es'.filterMap Site.callNumber = [] := by
  cases hp with
  | refused =>
    cases h
    exact .inl ⟨rfl, rfl⟩
  | save hop hother =>
    cases h with
    | here => exact .inl ⟨rfl, rfl⟩
    | heard o n _ h => exact .inr ⟨_, _, rfl, (telling_answered hother o.reply).follows h⟩
    | lost sid n h => exact .inr ⟨_, _, rfl, (telling_answered hother none).follows h⟩

/-! ## Orderly runs -/

/-- A caller has been dropped at its call only, and nothing was accepted in vain. -/
structure Undisturbed (c : EnqueueCaller) : Prop where
  dropped : c.rest = .unwind → c.past = []
  vain : ∀ o ∈ c.heard, acceptedInVain o = []
  before : ∀ records, .own .acceptedBefore records ∈ c.past → records = []

/-- What holds along orderly runs. -/
structure Reliable (db₀ : System) (s : EnqueueSite) : Prop where
  sound : s.Sound EnqueueClient.program postgres Call.program db₀
  ends : s.server.Ends Stmt.Inserts (fun call fin => call.op.AllNew fin) (· ∈ s.called)
  dropped : ∀ o ∈ s.server.shown, ∀ sid ∈ s.server.dropped, o.sid? = some sid → created o = []
  clients : ∀ c ∈ s.clients, Undisturbed c

section Orderly

variable {db₀ : System} {s s' : EnqueueSite} {e : EnqueueSite.Event}

/-- A transaction that commits no rows creates no task. -/
theorem created_of_step {db db' : System} {ev : Move} {o : Outcome}
    (hs : db.Step postgres Call.program ev db' o)
    (hfinish : ∀ x ∈ db.sessions.rows, ev = .finish x.id → o.sid? = some x.id →
      commitsRows x = false) : created o = [] := by
  cases hs with
  | @commit x r hm hrest =>
    have hnone := hfinish x hm rfl rfl
    rw [commitsRows, hrest] at hnone
    have hnews : x.news = [] := by simpa using hnone
    show createdBy (db.table.record x.news) = []
    rw [hnews]
    rfl
  | _ => rfl

/-- What has ended for a caller that gets no answer has created nothing. -/
theorem created_of_endedFor {c : EnqueueCaller} (h : (s.endedFor c).flatMap created = [])
    {o : Outcome}
    (ho : o ∈ s.server.shown) {sid : ℕ} (hwaits : c.waits = some sid) (hsid : o.sid? = some sid) :
    created o = [] := by
  refine List.flatMap_eq_nil_iff.mp h o (mem_ended.mpr ⟨ho, sid, ?_, hsid⟩)
  rw [hwaits]
  exact List.mem_singleton_self sid

theorem Reliable.dropped_call (h : Reliable db₀ s) {op : Call} {b : Began} {sv : TaskServer}
    (hc : s.server.call postgres Call.program op b = some sv) :
    ∀ o ∈ sv.shown, ∀ sid ∈ sv.dropped, o.sid? = some sid → created o = [] := by
  obtain ⟨p, hstep, hshown, -⟩ := Server.call_eq_some hc
  intro o ho sid hsid ho'
  rw [hshown] at ho
  rw [Server.dropped_of_call hc] at hsid
  rcases List.mem_append.mp ho with ho | ho
  · exact h.dropped o ho sid hsid ho'
  · rw [List.mem_singleton.mp ho, hstep.sid?_of_start] at ho'
    cases ho'

theorem Reliable.dropped_step (h : Reliable db₀ s) (horderly : Orderly s e)
    (hs : s.step e = some s') :
    ∀ o ∈ s'.server.shown, ∀ sid ∈ s'.server.dropped, o.sid? = some sid → created o = [] := by
  cases Site.step_of_step hs with
  | @call op b sv hc =>
    intro o ho sid hsid
    exact h.dropped_call hc o ho sid hsid
  | @database ev sv hp =>
    obtain ⟨hpermits, p, hstep, hshown, -⟩ := Server.proceed_eq_some hp
    intro o ho sid hsid ho'
    have hsid := (Server.dropped_of_proceed hp).mp hsid
    have ho : o ∈ sv.shown := ho
    rw [hshown] at ho
    rcases List.mem_append.mp ho with ho | ho
    · exact h.dropped o ho sid hsid ho'
    -- an abandoned transaction that ends in this step commits no rows
    · obtain rfl := List.mem_singleton.mp ho
      apply created_of_step hstep
      intro x hx hev hid
      obtain rfl := Option.some.inj (ho'.symm.trans hid)
      subst hev
      exact horderly hsid x hx rfl
  | enter => exact h.dropped
  | @client i c e sv c' hi hm =>
    cases hm with
    | send _ _ hc => exact h.dropped_call hc
    | hear | act => exact h.dropped
    | @lose op k sid n _ hwaits =>
      intro o ho sid' hsid' ho'
      rcases List.mem_cons.mp hsid' with rfl | hsid'
      -- what has ended for the client that loses its answer has created nothing
      · exact created_of_endedFor (horderly c hi) ho hwaits ho'
      · exact h.dropped o ho sid' hsid' ho'
    | leave =>
      intro o ho sid hsid ho'
      rcases List.mem_append.mp hsid with hsid | hsid
      · exact created_of_endedFor (horderly c hi).1 ho (Option.mem_toList.mp hsid) ho'
      · exact h.dropped o ho sid hsid ho'

/-- At its call, a caller has taken nothing. -/
theorem SubmitsOnce.at_call {p : EnqueueProgram} (hp : SubmitsOnce p) {es : List EnqueueTaken}
    {op : Call} {k : Unit × Option Reply → EnqueueProgram} (h : p.Follows es (.stmt (.call op) k)) :
    es = [] ∧ ∀ x, Telling (k x) := by
  rcases hp.taken h with ⟨rfl, heq⟩ | ⟨-, -, -, htells, -⟩
  · cases hp with
    | refused => cases heq
    | save hop hother =>
      cases heq
      exact ⟨rfl, fun x => telling_answered hother x.2⟩
  · exact htells.elim

theorem SubmitsOnce.at_own {p : EnqueueProgram} (hp : SubmitsOnce p) {es : List EnqueueTaken}
    {t : EnqueueEffect} {k : t.Answer → EnqueueProgram} (h : p.Follows es (.stmt (.own t) k)) :
    ∀ r, Telling (k r) := by
  rcases hp.taken h with ⟨rfl, heq⟩ | ⟨-, -, -, htells, -⟩
  · cases hp <;> cases heq
  · exact htells

theorem Telling.ne_unwind {q : EnqueueProgram} (h : Telling q) : q ≠ .unwind := by
  rintro rfl
  exact h

/-- **A caller stays undisturbed** at every orderly step. -/
theorem Undisturbed.moves {c c' : EnqueueCaller} {i : ℕ} {sv : TaskServer} (hc : Undisturbed c)
    (hf : Site.Follower EnqueueClient.program s.server c) (hi : s.clients[i]? = some c)
    (horderly : Orderly s e) (hm : Site.Moves postgres Call.program s.server i c e sv c') :
    Undisturbed c' := by
  -- what is taken, but for the question itself, adds no answer to it
  have hold : ∀ {x : EnqueueTaken} {records}, (∀ rs, x ≠ .own .acceptedBefore rs) →
      .own .acceptedBefore records ∈ c.past ++ [x] → records = [] := by
    intro x records hx hmem
    rcases List.mem_append.mp hmem with hmem | hmem
    · exact hc.before records hmem
    · exact absurd (List.mem_singleton.mp hmem).symm (hx records)
  cases hm with
  | send hrest => exact ⟨hc.dropped, hc.vain, hc.before⟩
  | @hear op k sid o n hrest hwaits ho =>
    obtain ⟨hshown, hsid⟩ := Site.outcome?_eq_some ho
    have htells := (c.origin.submitsOnce.at_call (hrest ▸ hf.follows_rest (by simp [hrest]))).2
    refine ⟨fun hdropped => absurd hdropped (htells _).ne_unwind, fun o' ho' => ?_,
      fun records => hold (by simp)⟩
    rw [Client.heard, List.filterMap_append, List.mem_append] at ho'
    rcases ho' with ho' | ho'
    · exact hc.vain o' ho'
    · -- the answer that is heard
      obtain rfl : o' = o := by simpa [Taken.output?] using ho'
      refine List.flatMap_eq_nil_iff.mp (horderly c hi) o' (mem_ended.mpr ⟨hshown, sid, ?_, hsid⟩)
      rw [hwaits]
      exact List.mem_singleton_self sid
  | @lose op k sid n hrest =>
    have htells := (c.origin.submitsOnce.at_call (hrest ▸ hf.follows_rest (by simp [hrest]))).2
    refine ⟨fun hdropped => absurd hdropped (htells _).ne_unwind, fun o' ho' => hc.vain o' ?_,
      fun records => hold (by simp)⟩
    simpa [Client.heard, Taken.output?] using ho'
  | @act t k answer hrest =>
    have htells := c.origin.submitsOnce.at_own (hrest ▸ hf.follows_rest (by simp [hrest]))
    refine ⟨fun hdropped => absurd hdropped (htells _).ne_unwind, fun o' ho' => hc.vain o' ?_,
      fun records hmem => ?_⟩
    · simpa [Client.heard, Taken.output?] using ho'
    · cases t with
      | emit log => exact hold (by simp) hmem
      | acceptedBefore =>
        rcases List.mem_append.mp hmem with hmem | hmem
        · exact hc.before records hmem
        · have hnone := horderly c hi
          cases List.mem_singleton.mp hmem
          exact hnone (by rw [asksBefore, hrest])
  | leave hne =>
    obtain ⟨-, hcall⟩ := horderly c hi
    have hf := hf.follows_rest hne
    refine ⟨fun _ => ?_, hc.vain, hc.before⟩
    cases hrest : c.rest with
    | stmt t k =>
      rw [hrest] at hf
      cases t with
      | call op => exact (c.origin.submitsOnce.at_call hf).1
      | own t => simp [mayLeave, hrest] at hcall
    | pure => simp [mayLeave, hrest] at hcall
    | unwind => exact absurd hrest hne

/-- **Every orderly step keeps what holds along orderly runs.** -/
theorem Reliable.step (h : Reliable db₀ s) (horderly : Orderly s e) (hs : s.step e = some s') :
    Reliable db₀ s' where
  sound := h.sound.step hs
  ends := by
    refine Site.ends_step h.ends h.sound (fun c => c.op.endsIn_new c.auditLog) ?_ hs
    rintro x hx env q k eff rfl hcalled hrest he
    exact inserts_of_exec hrest (horderly hcalled x hx rfl) he
  dropped := h.dropped_step horderly hs
  clients := by
    cases Site.step_of_step hs with
    | call | database => exact h.clients
    | enter =>
      intro c hc
      rcases List.mem_append.mp hc with hc | hc
      · exact h.clients c hc
      · obtain rfl := List.mem_singleton.mp hc
        exact ⟨fun _ => rfl, fun _ ho => (nomatch ho), fun _ hr => (nomatch hr)⟩
    | @client i c e sv c' hi hm =>
      intro x hx
      rcases List.mem_or_eq_of_mem_set hx with hx | rfl
      · exact h.clients x hx
      · have hc := List.mem_of_getElem? hi
        exact (h.clients c hc).moves (h.sound.clients c hc) hi horderly hm

/-- What has ended under the number of a caller that has been dropped has created nothing. -/
theorem Reliable.ended_dropped (h : Reliable db₀ s) {sids : List ℕ}
    (hsids : ∀ sid ∈ sids, sid ∈ s.server.dropped) :
    (ended s.server.shown sids).flatMap created = [] := by
  apply List.flatMap_eq_nil_iff.mpr
  intro o ho
  obtain ⟨ho, sid, hsid, ho'⟩ := mem_ended.mp ho
  exact h.dropped o ho sid (hsids sid hsid) ho'

theorem created_of_reply_none {o : Outcome} (h : o.reply = none) : created o = [] := by
  cases o with
  | silent => rfl
  | failed => rfl
  | returned => cases h
  | committed => cases h

/-- A caller whose call is over tells of what has ended under its number. -/
theorem Reliable.told_of_follows (h : Reliable db₀ s)
    (hspec : ∀ o ∈ s.server.shown, Outcome.Meets o) {p : EnqueueProgram} (hp : SubmitsOnce p)
    {es : List EnqueueTaken} {a : Unit} (hf : p.Follows es (.pure a))
    (hheard : ∀ o ∈ es.filterMap Taken.output?, o ∈ s.server.shown ∧ o.sid?.isSome)
    (hvain : ∀ o ∈ es.filterMap Taken.output?, acceptedInVain o = [])
    (hbefore : ∀ records, .own .acceptedBefore records ∈ es → records = [])
    (hleft : ∀ op sid, .lost op sid ∈ es → sid ∈ s.server.dropped)
    (hmine : ∀ sid ∈ es.filterMap Site.callNumber, sid ∈ s.called) :
    told EnqueueEffect.tells es =
      (ended s.server.shown (es.filterMap Site.callNumber)).flatMap created := by
  -- a refused submission tells nothing; another one has one call, whose answer is heard or lost
  cases hp with
  | refused =>
    cases hf
    simp
  | @save e op otherwise hop hother =>
    cases hf with
    | @heard _ _ o n es q ho hf =>
      obtain ⟨hshown, hsome⟩ := hheard o List.mem_cons_self
      obtain ⟨sid, hsid⟩ := Option.isSome_iff_exists.mp hsome
      have hnumber : Site.callNumber (.heard ⟨e.auditLog, op, none⟩ o : EnqueueTaken) = some sid :=
        hsid
      have hown := ((telling_answered hother o.reply).follows hf).2
      rw [List.filterMap_cons_some hnumber, hown] at hmine ⊢
      rw [ended_singleton h.sound.server.once hshown hsid, told_heard, List.flatMap_singleton]
      cases hreply : o.reply with
      | none =>
        rw [hreply] at hf
        rw [created_of_reply_none hreply]
        exact hother.told hf fun records hr => hbefore records (List.mem_cons_of_mem _ hr)
      | some reply =>
        rw [hreply] at hf
        have htold : told EnqueueEffect.tells es = (accepted reply).map TaskRecord.id :=
          told_emitAll hf
        refine htold.trans (accepted_eq_created (hspec o hshown) ho hop ?_ (h.ends.ended o hshown)
          (hvain o List.mem_cons_self) hreply)
        intro sid' hsid'
        obtain rfl := Option.some.inj (hsid.symm.trans hsid')
        exact hmine sid List.mem_cons_self
    | @lost _ _ sid n es q hf =>
      have hnumber : Site.callNumber (.lost ⟨e.auditLog, op, none⟩ sid : EnqueueTaken) = some sid :=
        rfl
      have hown := ((telling_answered hother none).follows hf).2
      rw [List.filterMap_cons_some hnumber, hown, told_lost, h.ended_dropped]
      · exact hother.told hf fun records hr => hbefore records (List.mem_cons_of_mem _ hr)
      · intro sid' hsid'
        obtain rfl := List.mem_singleton.mp hsid'
        exact hleft _ _ List.mem_cons_self

/-- **What a caller tells its calls have created**, once no call of it is under way. -/
theorem Reliable.told_eq_created (h : Reliable db₀ s)
    (hspec : ∀ o ∈ s.server.shown, Outcome.Meets o)
    {c : EnqueueCaller} (hc : c ∈ s.clients) (hrest : AtRest c = true) :
    told EnqueueEffect.tells c.past =
      (ended s.server.shown (Site.numbers c)).flatMap created := by
  have hf := h.sound.clients c hc
  have hu := h.clients c hc
  cases hr : c.rest with
  | stmt t k =>
    -- it has not made its call yet
    obtain ⟨hpast, hwaits⟩ : c.past = [] ∧ c.waits = none := by simpa [AtRest, hr] using hrest
    simp [Site.numbers, hpast, hwaits]
  | unwind =>
    rw [Site.numbers, hu.dropped hr, h.ended_dropped]
    · rfl
    · intro sid hsid
      exact hf.dropped hr sid (Option.mem_toList.mp hsid)
  | pure a =>
    have hwaits : c.waits = none := by
      apply Option.eq_none_iff_forall_ne_some.mpr
      intro sid hsid
      rcases hf.called sid hsid with hdropped | ⟨op, k, hcall, -⟩
      · cases hr.symm.trans hdropped
      · cases hr.symm.trans hcall
    have hfollows := hf.follows_rest (by simp [hr])
    rw [hr] at hfollows
    have hnumbers : Site.numbers c = c.past.filterMap Site.callNumber := by
      rw [Site.numbers, hwaits, Option.toList_none, List.append_nil]
    rw [hnumbers]
    apply h.told_of_follows hspec c.origin.submitsOnce hfollows hf.heard hu.vain hu.before hf.left
    exact fun sid hsid => List.mem_flatMap.mpr ⟨c, hc, hnumbers ▸ hsid⟩

end Orderly

section Runs

variable {t : Table TaskRow.id} {log : List (ℕ × AuditRow)} {n : ℕ}

/-- **No task is created twice.** -/
theorem created_nodup {ok : List Outcome → System → Move → Prop} {os : List Outcome} {db : System}
    (h : Runs ok (.idle t log n) os db) : (os.flatMap created).Nodup := by
  apply List.nodup_iff_count_le_one.mpr
  intro id
  have hcreated : os.flatMap created = createdBy (os.flatMap Output.changes) := by
    rw [createdBy, List.filter_flatMap, List.map_flatMap]
    rfl
  have hcount : (os.flatMap created).count id =
      ((changesAt TaskRow.id id os).filter fun c => c.old.isNone).length := by
    rw [hcreated, createdBy, changesAt, List.count_eq_countP, List.countP_map,
      List.countP_eq_length_filter, List.filter_filter, List.filter_filter]
    congr 1
    apply List.filter_congr
    intro c _
    rw [Bool.and_comm]
    congr 1
  rw [hcount]
  exact (Reaches.linked h id).inserts_le_one

/-- The site on a database that serves nobody yet. -/
def EnqueueSite.idle (t : Table TaskRow.id) (log : List (ℕ × AuditRow)) (n : ℕ) : EnqueueSite :=
  ⟨.idle (.idle t log n), []⟩

instance (s : EnqueueSite) : (e : EnqueueSite.Event) → Decidable (Orderly s e)
  | .database (.exec sid _) => inferInstanceAs (Decidable (sid ∈ s.called →
      ∀ x ∈ s.server.db.sessions.rows, x.id = sid → insertClashes s.server.db x = false))
  | .database (.finish sid) => inferInstanceAs (Decidable (sid ∈ s.server.dropped →
      ∀ x ∈ s.server.db.sessions.rows, x.id = sid → commitsRows x = false))
  | .hear i _ =>
    inferInstanceAs (Decidable (∀ c ∈ s.clients[i]?, (s.endedFor c).flatMap acceptedInVain = []))
  | .lose i _ =>
    inferInstanceAs (Decidable (∀ c ∈ s.clients[i]?, (s.endedFor c).flatMap created = []))
  | .leave i => inferInstanceAs (Decidable (∀ c ∈ s.clients[i]?,
      (s.endedFor c).flatMap created = [] ∧ mayLeave c = true))
  | .act i answer => inferInstanceAs (Decidable (∀ c ∈ s.clients[i]?,
      asksBefore c = true → answer .acceptedBefore = []))
  | .database (.start ..) | .database (.fault _) | .call .. | .enter _ | .send .. => .isTrue trivial

/-- One orderly step of a site. -/
def EnqueueSite.orderlyStep (s : EnqueueSite) (e : EnqueueSite.Event) : Option EnqueueSite :=
  if Orderly s e then s.step e else none

/-- **One event for each created task, and no other**, in every run of orderly steps, once no call
of a caller is under way. -/
theorem enqueued_events_exact {events : List EnqueueSite.Event} {s : EnqueueSite}
    (hrun : events.foldlM EnqueueSite.orderlyStep (.idle t log n) = some s)
    (hrest : ∀ c ∈ s.clients, AtRest c = true) (id : TaskId) :
    s.told.count id = if id ∈ s.createdTasks then 1 else 0 := by
  have h : Reliable (.idle t log n) s := by
    refine foldlM_induct (P := Reliable (.idle t log n)) ⟨Site.sound_idle rfl, .idle rfl, ?_, ?_⟩
      (fun s e s' hs hstep => ?_) hrun
    · exact fun _ ho => nomatch ho
    · exact fun _ hc => nomatch hc
    · unfold EnqueueSite.orderlyStep at hstep
      split at hstep
      next horderly => exact hs.step horderly hstep
      · cases hstep
  have hspec : ∀ o ∈ s.server.shown, Outcome.Meets o := Runs.spec_idle h.sound.server.served
  -- what is told is what has ended for the callers, and each call has one caller
  have htold : s.told.Perm s.createdTasks := by
    have hsame : s.told = s.clients.flatMap fun c =>
        (ended s.server.shown (Site.numbers c)).flatMap created :=
      List.flatMap_congr fun c hc => h.told_eq_created hspec hc (hrest c hc)
    rw [hsame, ← List.flatMap_assoc]
    exact (ended_flatMap h.sound.nodup s.server.shown).flatMap_right created
  -- no task is created twice
  have hnodup : s.createdTasks.Nodup := by
    refine (created_nodup h.sound.server.served).sublist ?_
    exact List.filter_sublist.flatMap created
  rw [htold.count_eq, hnodup.count]

end Runs

/-! ## Samples -/

def sampleEnqueuer : Enqueuer := ⟨sampleEngine, false, false⟩

/-- A submission with the key `"key"`. -/
def keyedClient (uuid : ℕ) : EnqueueClient :=
  .submit sampleEnqueuer ⟨⟨uuid⟩, 0, .enqueueIdempotent "default" sampleTyped "key"⟩

/-- Nothing was accepted before. -/
def noneBefore : (t : EnqueueEffect) → t.Answer
  | .emit _ => ()
  | .acceptedBefore => []

/-- A submission, and its event. -/
def submittedOnce : List EnqueueSite.Event :=
  [.enter (keyedClient 1), .send 0 ⟨0⟩, .database (.exec 0 .all), .database (.finish 0), .hear 0 (),
    .act 0 noneBefore]

/-- A second submission with the same key. -/
def submittedTwice : List EnqueueSite.Event :=
  submittedOnce ++ [.enter (keyedClient 2), .send 1 ⟨10⟩, .database (.exec 1 .all),
    .database (.exec 1 .all), .database (.finish 1), .hear 1 (), .act 1 noneBefore]

/-- In the sample, the task has its event. -/
theorem submitted_event : ∃ s : EnqueueSite,
    submittedOnce.foldlM EnqueueSite.orderlyStep (.idle ∅ [] 0) = some s ∧
      (⟨1⟩ : TaskId) ∈ s.createdTasks ∧ s.told.count ⟨1⟩ = 1 := by
  have hrun : (submittedOnce.foldlM EnqueueSite.orderlyStep (.idle ∅ [] 0)).map (fun s =>
      (decide (∀ c ∈ s.clients, AtRest c = true), s.createdTasks)) = some (true, [⟨1⟩]) := by
    decide +kernel
  obtain ⟨s, hs, heq⟩ := Option.map_eq_some_iff.mp hrun
  obtain ⟨hrest, hcreated⟩ := Prod.mk.inj heq
  have hmem : (⟨1⟩ : TaskId) ∈ s.createdTasks := hcreated ▸ List.mem_singleton_self _
  have hcount := enqueued_events_exact hs (of_decide_eq_true hrest) ⟨1⟩
  rw [if_pos hmem] at hcount
  exact ⟨s, hs, hmem, hcount⟩

/-- **A second event tells of a task that has been created once.** -/
theorem duplicate_event :
    ¬ ∀ (events : List EnqueueSite.Event) (s : EnqueueSite),
      events.foldlM EnqueueSite.step (.idle ∅ [] 0) = some s → (∀ c ∈ s.clients, AtRest c = true) →
        ∀ id, s.told.count id = if id ∈ s.createdTasks then 1 else 0 := by
  intro h
  have hrun : (submittedTwice.foldlM EnqueueSite.step (.idle ∅ [] 0)).map (fun s =>
      (decide (∀ c ∈ s.clients, AtRest c = true), s.told, s.createdTasks)) =
        some (true, [⟨1⟩, ⟨1⟩], [⟨1⟩]) := by
    decide +kernel
  obtain ⟨s, hs, heq⟩ := Option.map_eq_some_iff.mp hrun
  obtain ⟨hrest, heq⟩ := Prod.mk.inj heq
  obtain ⟨htold, hcreated⟩ := Prod.mk.inj heq
  have hcount := h submittedTwice s hs (of_decide_eq_true hrest) ⟨1⟩
  rw [htold, hcreated] at hcount
  exact absurd hcount (by decide)

end IronDefer
