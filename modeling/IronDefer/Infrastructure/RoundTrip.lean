import IronDefer.Infrastructure.Columns
import IronDefer.Infrastructure.TraceIds
import IronDefer.RowStore.Spans

/-!
# A saved task is found again

A task that has been saved is found by its id as it was given, as far as the database keeps it: its
instants are cut to microseconds and its error message to 4096 bytes, and the database assigns when
it was created and updated. The record that the saving operation returns is the same one.

## Main definitions

* `DateTime.cut`, `TaskRecord.saved`: what the database keeps of an instant, and of a task
* `Outcome.Created`: an operation has committed a task, and replies that it has created it
* `LooksUp`, `ReadsBack`: the task is looked up, and while nobody changes it

## Main results

* `tryFrom_insertedRow`: the row of a valid task is decoded as the task it keeps
* `Runs.created`: a task that is reported as created is in the table
* `saved_round_trips`: **a saved task is found again, by whichever decoder**
-/

namespace IronDefer

open RowStore

/-! ## What is kept of a task -/

/-- An instant cut to microseconds. -/
def DateTime.cut (d : DateTime) : DateTime := Timestamp.toDateTime (DateTime.toTimestamp d)

/-- The attempts of a task do not exceed their maximum. -/
def TaskRecord.Valid (task : TaskRecord) : Prop :=
  task.attempts.get.val ≤ task.maxAttempts.get.val

instance (task : TaskRecord) : Decidable task.Valid :=
  inferInstanceAs (Decidable (task.attempts.get.val ≤ task.maxAttempts.get.val))

/-- The task as it is kept by a transaction that has begun with `b`. -/
def TaskRecord.saved (b : Began) (task : TaskRecord) : TaskRecord :=
  { task with
    lastError := task.lastError.map truncateLastError
    scheduledAt := DateTime.cut task.scheduledAt
    claimedUntil := task.claimedUntil.map DateTime.cut
    createdAt := Timestamp.toDateTime b.now
    updatedAt := Timestamp.toDateTime b.now
    idempotencyExpiresAt := task.idempotencyExpiresAt.map DateTime.cut
    suspendedAt := task.suspendedAt.map DateTime.cut }

/-- What has been cut is not cut again. -/
theorem truncateLastError_truncateLastError (s : String) :
    truncateLastError (truncateLastError s) = truncateLastError s :=
  if_pos (longestPrefix_truncateLastError s).fits

/-- The row a save inserts. -/
abbrev savedRow (b : Began) (task : TaskRecord) : TaskRow :=
  insertedRow b task (task.lastError.map truncateLastError)

/-- **The row of a valid task is decoded as what the database keeps of it.** -/
theorem tryFrom_insertedRow {task : TaskRecord} (h : task.Valid) (b : Began) :
    TaskRecord.tryFrom (savedRow b task) = .ok (task.saved b) := by
  rw [tryFrom_of_decodes (insertedRow_decodes_iff.mpr h)]
  have herror : (task.lastError.map truncateLastError).map truncateLastError =
      task.lastError.map truncateLastError := by
    cases task.lastError with
    | none => rfl
    | some s => exact congrArg some (truncateLastError_truncateLastError s)
  simp only [TaskRow.record, insertedRow, herror, Option.map_map]
  rfl

theorem tryFrom_insertedRow_eq_ok {task record : TaskRecord} {b : Began}
    (h : TaskRecord.tryFrom (savedRow b task) = .ok record) : record = task.saved b := by
  obtain ⟨hd, -⟩ := tryFrom_eq_ok_iff.mp h
  rw [tryFrom_insertedRow (insertedRow_decodes_iff.mp hd)] at h
  exact (Except.ok.inj h).symm

/-! ## Saving -/

/-- A call inside a transaction of the caller replies that it has created `task` as `record`. -/
inductive TxCall.Creates (task record : TaskRecord) : TxCall → Reply → Prop
  | saveInTx : Creates task record (.saveInTx task) (.ok (.task record))
  | saveIdempotentInTx : Creates task record (.saveIdempotentInTx task) (.ok (.saved record true))

/-- A step commits the transaction of an operation that replies that it has created `task` as
`record`. -/
inductive Outcome.Created (b : Began) (task record : TaskRecord) : Outcome → Prop
  | save {sid a onBehalf cs ls} :
      Created b task record
        (.committed sid ⟨a, .save task, onBehalf⟩ b cs ls (.ok (.task record)))
  | saveIdempotent {sid a onBehalf cs ls} :
      Created b task record
        (.committed sid ⟨a, .saveIdempotent task, onBehalf⟩ b cs ls (.ok (.saved record true)))
  | inTx {sid a onBehalf cs ls calls replies call reply} : (call, reply) ∈ calls.zip replies →
      TxCall.Creates task record call reply →
      Created b task record
        (.committed sid ⟨a, .inTx calls true, onBehalf⟩ b cs ls (.ok (.batch replies)))

section Saving

variable {rely : Table TaskRow.id → (TaskId → Bool) → Env → Prop} {a : Bool} {b : Began}
  {cs ds : List (Change TaskRow)} {c : Change TaskRow} {task record : TaskRecord}
  {xs : List AuditEntry} {call : TxCall} {calls : List TxCall} {reply : Reply}
  {replies : List Reply}

theorem tryFrom_of_taskReply {row : TaskRow} (h : taskReply row = .ok (.task record)) :
    TaskRecord.tryFrom row = .ok record := by
  obtain ⟨_, hdecoded, heq⟩ := eq_of_map_eq_ok h
  cases heq
  exact hdecoded

/-- An idempotent save that reports a task as created has inserted a row. -/
theorem tryFrom_of_savedReply {gone : RepoError} {res : Option (TaskRow × Bool)}
    (h : savedReply gone res = .ok (.saved record true)) :
    ∃ row, res = some (row, true) ∧ TaskRecord.tryFrom row = .ok record := by
  cases res with
  | none => cases h
  | some r =>
    obtain ⟨row, created⟩ := r
    obtain ⟨_, hdecoded, heq⟩ := eq_of_map_eq_ok h
    cases heq
    exact ⟨row, rfl, hdecoded⟩

/-- A save that has created a task has inserted its row. -/
theorem SavedBy.created {idempotent : Bool} {row : TaskRow}
    (h : SavedBy rely b cs task idempotent ds xs (some (row, true)))
    (hdecoded : TaskRecord.tryFrom row = .ok record) :
    ds = [⟨none, savedRow b task⟩] ∧ TaskRecord.tryFrom (savedRow b task) = .ok record := by
  cases h with
  | new h =>
    obtain rfl := h.eq_insertedRow
    exact ⟨rfl, hdecoded⟩

/-- A row that a save has inserted is the row of its task, which is reported as created. -/
theorem SavedBy.reported {idempotent : Bool} {res : Option (TaskRow × Bool)}
    (h : SavedBy rely b cs task idempotent ds xs res) (hc : c ∈ ds) :
    c = ⟨none, savedRow b task⟩ ∧ res = some (savedRow b task, true) := by
  cases h with
  | new h =>
    obtain rfl := h.eq_insertedRow
    exact ⟨List.mem_singleton.mp hc, rfl⟩
  | old => cases hc
  | gone => cases hc

theorem CalledBy.created (h : CalledBy rely b cs call ds xs reply)
    (hc : call.Creates task record reply) :
    ds = [⟨none, savedRow b task⟩] ∧ TaskRecord.tryFrom (savedRow b task) = .ok record := by
  cases hc with
  | saveInTx =>
    generalize hreply : (.ok (.task record) : Reply) = reply at h
    cases h with
    | saveInTx h => exact h.created (tryFrom_of_taskReply hreply.symm)
  | saveIdempotentInTx =>
    generalize hreply : (.ok (.saved record true) : Reply) = reply at h
    cases h with
    | saveIdempotentInTx h =>
      obtain ⟨row, rfl, hdecoded⟩ := tryFrom_of_savedReply hreply.symm
      exact h.created hdecoded

theorem CalledBy.reported (h : CalledBy rely b cs call ds xs reply) (hc : c ∈ ds) :
    ∃ task, c = ⟨none, savedRow b task⟩ ∧
      (task.Valid → call.Creates task (task.saved b) reply) := by
  cases h with
  | @saveInTx task _ _ _ h =>
    obtain ⟨rfl, hres⟩ := h.reported hc
    cases hres
    refine ⟨task, rfl, fun hvalid => ?_⟩
    rw [taskReply, tryFrom_insertedRow hvalid]
    exact .saveInTx
  | @saveIdempotentInTx task _ _ _ h =>
    obtain ⟨rfl, rfl⟩ := h.reported hc
    refine ⟨task, rfl, fun hvalid => ?_⟩
    rw [savedReply, tryFrom_insertedRow hvalid]
    exact .saveIdempotentInTx

theorem CalledAll.created (h : CalledAll rely b cs calls ds xs replies)
    (hm : (call, reply) ∈ calls.zip replies) (hc : call.Creates task record reply) :
    ⟨none, savedRow b task⟩ ∈ ds ∧ TaskRecord.tryFrom (savedRow b task) = .ok record := by
  induction h with
  | nil => cases hm
  | cons hcall _ ih =>
    rcases List.mem_cons.mp hm with heq | hm
    · cases heq
      obtain ⟨rfl, hdecoded⟩ := hcall.created hc
      exact ⟨List.mem_cons_self, hdecoded⟩
    · obtain ⟨hmem, hdecoded⟩ := ih hm
      exact ⟨List.mem_append_right _ hmem, hdecoded⟩

theorem CalledAll.reported (h : CalledAll rely b cs calls ds xs replies) (hc : c ∈ ds) :
    ∃ task, c = ⟨none, savedRow b task⟩ ∧ (task.Valid →
      ∃ call reply, (call, reply) ∈ calls.zip replies ∧
        TxCall.Creates task (task.saved b) call reply) := by
  induction h with
  | nil => cases hc
  | @cons _ call _ _ _ _ _ reply _ hcall _ ih =>
    rcases List.mem_append.mp hc with hc | hc
    · obtain ⟨task, rfl, hcreates⟩ := hcall.reported hc
      exact ⟨task, rfl, fun hvalid => ⟨call, reply, List.mem_cons_self, hcreates hvalid⟩⟩
    · obtain ⟨task, rfl, hcreates⟩ := ih hc
      refine ⟨task, rfl, fun hvalid => ?_⟩
      obtain ⟨call', reply', hm, hcreates⟩ := hcreates hvalid
      exact ⟨call', reply', List.mem_cons_of_mem _ hm, hcreates⟩

theorem Op.Spec.of_save {ls : List AuditRow} (h : Op.Spec rely a b (.save task) ds ls (.commit reply)) :
    ∃ xs row, SavedBy rely b [] task false ds xs (some (row, true)) ∧ reply = taskReply row := by
  cases h with
  | save h => exact ⟨_, _, h, rfl⟩
  | transition htr => cases htr

theorem Op.Spec.of_saveIdempotent {ls : List AuditRow}
    (h : Op.Spec rely a b (.saveIdempotent task) ds ls (.commit reply)) :
    ∃ xs res, SavedBy rely b [] task true ds xs res ∧
      reply = savedReply (.notInExpectedState task.id "non-terminal") res := by
  cases h with
  | saveIdempotent h => exact ⟨_, _, h, rfl⟩
  | transition htr => cases htr

theorem Op.Spec.of_inTx {ls : List AuditRow} {commit : Bool}
    (h : Op.Spec rely a b (.inTx calls commit) ds ls (.commit reply)) :
    commit = true ∧ ∃ xs replies, CalledAll rely b [] calls ds xs replies ∧
      reply = .ok (.batch replies) := by
  cases h with
  | inTxCommit h => exact ⟨rfl, _, _, h, rfl⟩
  | transition htr => cases htr

/-- **A task that is reported as created has been inserted**, and the report is its row, decoded. -/
theorem Outcome.Meets.created {o : Outcome} (h : o.Meets) (hc : o.Created b task record) :
    ⟨none, savedRow b task⟩ ∈ o.changes ∧
      TaskRecord.tryFrom (savedRow b task) = .ok record := by
  cases hc with
  | save =>
    obtain ⟨xs, row, hsaved, hreply⟩ := Op.Spec.of_save (h trivial)
    obtain ⟨rfl, hdecoded⟩ := hsaved.created (tryFrom_of_taskReply hreply.symm)
    exact ⟨List.mem_cons_self, hdecoded⟩
  | saveIdempotent =>
    obtain ⟨xs, res, hsaved, hreply⟩ := Op.Spec.of_saveIdempotent (h trivial)
    obtain ⟨row, rfl, hdecoded⟩ := tryFrom_of_savedReply hreply.symm
    obtain ⟨rfl, hdecoded⟩ := hsaved.created hdecoded
    exact ⟨List.mem_cons_self, hdecoded⟩
  | inTx hm hcreates =>
    obtain ⟨-, xs, replies, hall, hreply⟩ := Op.Spec.of_inTx (h trivial)
    cases hreply
    exact hall.created hm hcreates

/-- **A valid task that has been inserted is reported as created.** -/
theorem Outcome.Meets.reported {o : Outcome} (h : o.Meets) (hcaused : o.Caused)
    (hc : c ∈ o.changes) (hold : c.old = none) :
    ∃ b task, c.new = savedRow b task ∧ (task.Valid → o.Created b task (task.saved b)) := by
  cases o with
  | committed sid call b cs ls reply =>
    have hspec := h trivial
    obtain ⟨task, htask, -⟩ := (hcaused c hc).of_none hold
    obtain ⟨a, op, onBehalf⟩ := call
    refine ⟨b, ?_⟩
    -- the three operations that insert reply with the row they have inserted
    cases op with
    | save task =>
      obtain ⟨xs, row, hsaved, rfl⟩ := hspec.of_save
      obtain ⟨rfl, hres⟩ := hsaved.reported hc
      cases hres
      refine ⟨task, rfl, fun hvalid => ?_⟩
      rw [taskReply, tryFrom_insertedRow hvalid]
      exact .save
    | saveIdempotent task =>
      obtain ⟨xs, res, hsaved, rfl⟩ := hspec.of_saveIdempotent
      obtain ⟨rfl, rfl⟩ := hsaved.reported hc
      refine ⟨task, rfl, fun hvalid => ?_⟩
      rw [savedReply, tryFrom_insertedRow hvalid]
      exact .saveIdempotent
    | inTx calls commit =>
      obtain ⟨rfl, xs, replies, hall, rfl⟩ := hspec.of_inTx
      obtain ⟨task, rfl, hcreates⟩ := hall.reported hc
      refine ⟨task, rfl, fun hvalid => ?_⟩
      obtain ⟨call, reply, hm, hcreates⟩ := hcreates hvalid
      exact .inTx hm hcreates
    | _ => cases htask
  | _ => cases hc

end Saving

/-! ## Reading back -/

/-- From `db` on, a transaction that looks the task up begins among the moves of others and ends
with `o`; no commit until then changes the task. -/
def ReadsBack (id : TaskId) (db : System) (o : Outcome) : Prop :=
  ∃ sid a onBehalf b pre evs d d' os,
    run System.step db (pre ++ .start sid ⟨a, .findById id, onBehalf⟩ b :: evs) = some (d, os) ∧
    (∀ ev ∈ evs, ev.sid = sid → ∃ e, ev = .exec sid e) ∧
    System.step d (.finish sid) = some (d', o) ∧
    ∀ p ∈ os, ∀ c ∈ p.changes, c.new.id ≠ id

/-- From `db` on, a transaction that looks the task up begins among the moves of others, which show
`os`, and ends with `o`. -/
def LooksUp (id : TaskId) (db : System) (os : List Outcome) (o : Outcome) : Prop :=
  ∃ sid a onBehalf b pre evs d d',
    run System.step db (pre ++ .start sid ⟨a, .findById id, onBehalf⟩ b :: evs) = some (d, os) ∧
    (∀ ev ∈ evs, ev.sid = sid → ∃ e, ev = .exec sid e) ∧
    System.step d (.finish sid) = some (d', o)

theorem readsBack_iff {id : TaskId} {db : System} {o : Outcome} :
    ReadsBack id db o ↔
      ∃ os, LooksUp id db os o ∧ ∀ p ∈ os, ∀ c ∈ p.changes, c.new.id ≠ id := by
  constructor
  · rintro ⟨sid, a, onBehalf, b, pre, evs, d, d', os, hrun, hown, hend, hquiet⟩
    exact ⟨os, ⟨sid, a, onBehalf, b, pre, evs, d, d', hrun, hown, hend⟩, hquiet⟩
  · rintro ⟨os, ⟨sid, a, onBehalf, b, pre, evs, d, d', hrun, hown, hend⟩, hquiet⟩
    exact ⟨sid, a, onBehalf, b, pre, evs, d, d', os, hrun, hown, hend, hquiet⟩

/-- The reply of a lookup that has found a row, or none. -/
def foundReply : Option TaskRow → Reply
  | none => .ok (.found none)
  | some row => (TaskRecord.tryFrom row).map fun record => .found (some record)

theorem findById_eq (id : TaskId) : IronDefer.findById id =
    .stmt (.selectById id) fun found => .pure (.commit (foundReply found)) := by
  refine congrArg (Program.stmt (Stmt.selectById id)) (funext fun found => ?_)
  cases found <;> rfl

section ReadsBack

variable {ok : List Outcome → System → Move → Prop} {t : Table TaskRow.id}
  {log : List (ℕ × AuditRow)} {n : ℕ} {os : List Outcome} {o o' : Outcome} {db d : System}
  {id : TaskId} {b : Began} {task record : TaskRecord}

theorem get_of_run {evs : List Move} (h : run System.step db evs = some (d, os))
    (hquiet : ∀ p ∈ os, ∀ c ∈ p.changes, c.new.id ≠ id) : d.table.get id = db.table.get id := by
  have hreach : Runs (fun _ _ _ => True) db ([] ++ os) d :=
    Reaches.of_run .init (Admitted.of_forall (fun _ _ _ => trivial) _ _ _) h
  exact hreach.get_of_quiet hquiet

/-- What the start of a run shows, the run shows. -/
theorem subset_of_run_append {evs fs : List Move} {d' : System} {ps : List Outcome}
    (h : run System.step db (evs ++ fs) = some (d, os))
    (hevs : run System.step db evs = some (d', ps)) : ps ⊆ os := by
  obtain ⟨d₁, qs, rs, hrun, -, rfl⟩ := run_of_append h
  rw [hevs] at hrun
  cases hrun
  exact List.subset_append_left ps rs

/-- **Who looks a task up finds the row it has at an instant of the lookup.** -/
theorem LooksUp.reply_eq (h : LooksUp id db os o') :
    ∃ evs d ps, run System.step db evs = some (d, ps) ∧ ps ⊆ os ∧
      o'.reply = some (foundReply (d.table.get id)) := by
  obtain ⟨sid, a, onBehalf, b, pre, evs, d, d', hrun, hown, hend⟩ := h
  obtain ⟨d₀, ps, qs, hpre, hrest, rfl⟩ := run_of_append hrun
  obtain ⟨⟨d₁, p⟩, hstart, hrest⟩ := Option.bind_eq_some_iff.mp hrest
  obtain ⟨⟨d₂, rs⟩, hevs, heq⟩ := Option.map_eq_some_iff.mp hrest
  obtain ⟨rfl, rfl⟩ : d₂ = d ∧ p :: rs = qs := by simpa using heq
  have hspan : Db.Spans postgres Call.program sid d₁ evs d₂ d' o' := ⟨hown, ⟨rs, hevs⟩, hend⟩
  -- the transaction has one statement, executed at an instant the moves of others have led to
  obtain ⟨xs, e, ys, d₃, us, eff, rfl, -, hxs, -, -, hexec, hsession, hspan⟩ :=
    hspan.of_stmt (Db.get_of_start hstart) (findById_eq id)
  have hresult : eff.result = d₃.table.get id := by
    cases hexec
    rfl
  have hreply := (hspan.of_pure hsession rfl).2
  rw [hresult] at hreply
  refine ⟨pre ++ .start sid ⟨a, .findById id, onBehalf⟩ b :: xs, d₃, ps ++ p :: us, ?_, ?_, hreply⟩
  · rw [run_append hpre]
    simp [run, hstart, hxs]
  · exact List.append_subset.mpr ⟨List.subset_append_left _ _,
      List.Subset.trans (List.cons_subset_cons p (subset_of_run_append hevs hxs))
        (List.subset_append_right _ _)⟩

/-- **Who looks a task up while nobody changes it finds the row it has had.** -/
theorem ReadsBack.reply_eq {row : TaskRow} (h : ReadsBack id db o')
    (hget : db.table.get id = some row) : o'.reply = some (foundReply (some row)) := by
  obtain ⟨os, hlook, hquiet⟩ := readsBack_iff.mp h
  obtain ⟨evs, d, ps, hrun, hps, hreply⟩ := hlook.reply_eq
  rw [hreply, get_of_run hrun fun q hq => hquiet q (hps hq), hget]

/-- **A task that is reported as created is in the table.** -/
theorem Runs.created (h : Runs ok (.idle t log n) (os ++ [o]) db) (hc : o.Created b task record) :
    db.table.get task.id = some (savedRow b task) ∧
      TaskRecord.tryFrom (savedRow b task) = .ok record := by
  obtain ⟨hmem, hdecoded⟩ := Outcome.Meets.created (h.spec_idle o (by simp)) hc
  exact ⟨h.get_of_last hmem, hdecoded⟩

/-- **A saved task is found again**, by its id, as what the database keeps of it, whatever other
transactions do meanwhile; and so it is reported by the operation that has saved it, as is every
valid task that has been inserted. What an insert stores in the columns of the table is decoded so,
and the rows of a listing and of a cancellation are decoded as the row that is looked up. -/
theorem saved_round_trips (h : Runs ok (.idle t log n) (os ++ [o]) db) (r : Wire.Stored)
    (count : ℕ) :
    (∀ b task record, o.Created b task record → record = task.saved b ∧
      ∀ o', ReadsBack task.id db o' → o'.reply = some (.ok (.found (some (task.saved b))))) ∧
    (∀ c ∈ o.changes, c.old = none → ∃ b task, c.new = savedRow b task ∧
      (task.Valid → o.Created b task (task.saved b))) ∧
    (∀ b task, task.Valid → Wire.decode (Wire.select (Wire.insertInto b.now Wire.insertColumns
      (Wire.insertBinds task (task.lastError.map truncateLastError)))) =
        some (.ok (task.saved b))) ∧
    Wire.decodeListed (Wire.selectWithCount r count) = Wire.decode (Wire.select r) ∧
    Wire.decodeCancelled (Wire.selectCancelled (some r) none) = Wire.decode (Wire.select r) := by
  refine ⟨fun b task record hc => ?_, fun c hc hold => ?_, fun b task hvalid => ?_,
    Wire.decoders_agree r count⟩
  · obtain ⟨hget, hdecoded⟩ := h.created hc
    obtain rfl := tryFrom_insertedRow_eq_ok hdecoded
    refine ⟨rfl, fun o' hread => ?_⟩
    rw [hread.reply_eq hget, foundReply, hdecoded]
    rfl
  · exact Outcome.Meets.reported (h.spec_idle o (by simp)) (h.causes o (by simp)) hc hold
  · rw [Wire.insertInto_eq, (Wire.decode_stored _ count).1, tryFrom_insertedRow hvalid]

end ReadsBack

/-! ## A sample -/

/-- A task that is scheduled between two microseconds. -/
def preciseTask : TaskRecord :=
  { sampleTask .default with scheduledAt := 1500, lastError := some "refused" }

def preciseMoves : List Move := serve 1 (callOf (.save preciseTask)) 0 [.all]

theorem preciseMoves_shown : System.shown preciseMoves = [.silent, .silent] ++
    [.committed 1 (callOf (.save preciseTask)) ⟨0⟩ [⟨none, savedRow ⟨0⟩ preciseTask⟩] []
      (.ok (.task (preciseTask.saved ⟨0⟩)))] := rfl

theorem preciseTask_readsBack : ∃ o, ReadsBack preciseTask.id (System.after preciseMoves) o := by
  refine ⟨_, 2, false, none, ⟨5⟩, [], [.exec 2 .all], _, _, _, rfl, ?_, rfl, ?_⟩
  · intro ev hev _
    exact ⟨.all, List.mem_singleton.mp hev⟩
  · decide +kernel

/-- The task is found again, scheduled at the microsecond before. -/
theorem preciseTask_found : ∃ o, ReadsBack preciseTask.id (System.after preciseMoves) o ∧
    o.reply = some (.ok (.found (some (preciseTask.saved ⟨0⟩)))) ∧
    (preciseTask.saved ⟨0⟩).scheduledAt = 1000 := by
  have hrun : Runs (fun _ _ _ => True) .empty (System.shown preciseMoves)
      (System.after preciseMoves) :=
    Runs.of_moves preciseMoves (Admitted.of_forall (fun _ _ _ => trivial) _ _ _)
      (by decide +kernel)
  rw [preciseMoves_shown] at hrun
  obtain ⟨o, hread⟩ := preciseTask_readsBack
  obtain ⟨hcreated, -⟩ := saved_round_trips hrun (Wire.stored (savedRow ⟨0⟩ preciseTask)) 1
  exact ⟨o, hread, (hcreated _ _ _ .save).2 o hread, by decide⟩

end IronDefer
