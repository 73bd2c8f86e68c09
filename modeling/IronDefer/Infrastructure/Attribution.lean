import IronDefer.Infrastructure.Audit
import IronDefer.Infrastructure.TraceIds

/-!
# What an audit row says about its task

An audit row is made from the version that the update has returned. What the update clears is not in
it any more: the worker of a failed attempt that is retried, and of a suspension. Three operations
do not read the region of the version at all. And a cancellation reads the status the task has left
off its time of suspension, which is right for the tasks an engine has submitted, and not for those
that a migration has given a time of suspension.

## Main definitions

* `Op.KeepsClaim`: the update leaves the worker in the version
* `Attributes`: the audit rows have the region and the trace id of their tasks
* `Marked`: the time of suspension tells whether the task is suspended

## Main results

* `audit_worker_iff`: **when the audit row has the worker that held the claim**
* `audit_region_iff`: **when the audit rows have the regions of their tasks**
* `cancel_from_status_iff`: **when the audit row of a cancellation has the status the task has
  left**
-/

namespace IronDefer

open RowStore

/-! ## The audit row of a task -/

/-- A commit with the audit log on has one audit row for each version, made from this version. -/
theorem Runs.audit_row {ok : List Outcome → System → Move → Prop} {t : Table TaskRow.id}
    {log : List (ℕ × AuditRow)} {n : ℕ} {os : List Outcome} {db : System}
    (h : Runs ok (.idle t log n) os db) {sid : ℕ} {call : Call} {b : Began}
    {cs : List (Change TaskRow)} {ls : List (ℕ × AuditRow)} {reply : Reply}
    (ho : .committed sid call b cs ls reply ∈ os) (ha : call.auditLog = true)
    {f : TaskRow → AuditEntry} (hf : call.op.entry? = some f) {c : Change TaskRow} (hc : c ∈ cs) :
    ∃ x, ls.filter (fun y => decide (y.2.taskId = c.new.id)) = [x] ∧ x.2 = (f c.new).row b := by
  have hls := Runs.logs_eq h ho
  have hspec := h.spec_committed ho
  have hmem : c.new ∈ news cs := mem_news.mpr ⟨c, hc, rfl⟩
  -- only one version of the task has been written
  have hone : (news cs).filter (fun v => decide (v.id = c.new.id)) = [c.new] :=
    Table.filter_eq_singleton hspec.nodup hmem (decide_eq_true rfl) fun w _ hw =>
      of_decide_eq_true hw
  rw [hf, ha] at hls
  have hls : ls.map Prod.snd = (news cs).map fun v => (f v).row b := by
    rw [hls]
    show (List.map f (news cs)).map (AuditEntry.row b) = _
    rw [List.map_map]
    rfl
  -- so the rows of the task are the entry of this version
  have hrows : (ls.filter fun y => decide (y.2.taskId = c.new.id)).map Prod.snd =
      [(f c.new).row b] := by
    have htask : (fun y : AuditRow => decide (y.taskId = c.new.id)) ∘ (fun v => (f v).row b) =
        fun v => decide (v.id = c.new.id) := by
      ext v
      show decide ((f v).taskId = c.new.id) = _
      rw [(Op.entry?_task hf v).1]
    have hfilter := List.filter_map (f := Prod.snd) (l := ls)
      (p := fun y : AuditRow => decide (y.taskId = c.new.id))
    rw [hls, List.filter_map, htask, hone] at hfilter
    exact hfilter.symm
  obtain ⟨x, hx, hrow⟩ := List.map_eq_singleton_iff.mp hrows
  exact ⟨x, hx, hrow⟩

/-! ## The worker -/

/-- The operations of a worker, and on its behalf, that end its claim of a task. -/
def Op.EndsClaim : Op → Bool
  | complete _ | fail .. | suspend _ | releaseLeasesForWorker _ => true
  | _ => false

/-- The worker that held the claim of the row is still known after the update: it is still in the
row, or it is a parameter. -/
def Op.KeepsClaim (r : TaskRow) : Op → Prop
  | complete _ | releaseLeasesForWorker _ => True
  | fail .. => r.maxAttempts.val ≤ r.attempts.val
  | _ => False

instance (r : TaskRow) : (op : Op) → Decidable (op.KeepsClaim r)
  | .complete _ | .releaseLeasesForWorker _ => .isTrue trivial
  | .fail .. => inferInstanceAs (Decidable (_ ≤ _))
  | .save _ | .saveIdempotent _ | .inTx .. | .cleanupExpiredIdempotencyKeys _ | .findById _
  | .claimNext .. | .suspend _ | .signal .. | .releaseLeaseForTask _ | .recoverZombieTasks
  | .cancel _ | .expireSuspendedTasks _ | .writeCheckpoint .. => .isFalse id

/-- The entry of an operation that ends a claim, by what its update has done. -/
theorem Op.EndsClaim.entry {op : Op} (hop : op.EndsClaim = true) {u : Update} (hu : u ∈ op.updates)
    {b : Began} {r r' : TaskRow} (hrw : Update.Rewrites b u r r')
    (hheld : r.status = .running → r.claimedBy.isSome) :
    r.status = .running ∧
      ∃ f, op.entry? = some f ∧ ((f r').workerId = r.claimedBy ↔ op.KeepsClaim r) := by
  -- a worker that has been cleared is not the one that held the claim
  have hnot : r.status = .running → none ≠ r.claimedBy := by
    intro hs hnone
    have hsome := hheld hs
    rw [← hnone] at hsome
    cases hsome
  cases op with
  | complete id =>
    obtain rfl := List.mem_singleton.mp hu
    cases hrw with
    | complete hs => exact ⟨hs, _, rfl, iff_of_true rfl trivial⟩
  | fail id error base max =>
    obtain rfl := List.mem_singleton.mp hu
    cases hrw with
    | retry hs hlt => exact ⟨hs, _, rfl, iff_of_false (hnot hs) (Int.not_le.mpr hlt)⟩
    | exhaust hs hle => exact ⟨hs, _, rfl, iff_of_true rfl hle⟩
  | suspend id =>
    obtain rfl := List.mem_singleton.mp hu
    cases hrw with
    | suspend hs => exact ⟨hs, _, rfl, iff_of_false (hnot hs) id⟩
  | releaseLeasesForWorker w =>
    obtain rfl := List.mem_singleton.mp hu
    cases hrw with
    | releaseLeasesForWorker hs hw => exact ⟨hs, _, rfl, iff_of_true hw.symm trivial⟩
  | _ => cases hop

/-- A version that has been replaced in a run of the engine was well formed. -/
theorem Runs.wellFormed_old {os : List Outcome} {db : System} (h : Runs Enqueuing .empty os db)
    {o : Outcome} (ho : o ∈ os) {x : Entry} (hx : x ∈ o.entries) {r : TaskRow}
    (hr : x.change.old = some r) : r.WellFormed := by
  have hmem : x ∈ history x.change.new.id os := mem_history.mpr ⟨⟨o, ho, hx⟩, rfl⟩
  have hcalled := h.called (P := fun c => c.op.Enqueues) (fun _ _ _ _ _ hok => hok) x.change.new.id
  -- what inserts and updates keep holds of every version of the history
  have hkeeps := h.keeps (I := TaskRow.WellFormed) x.change.new.id (by simp) fun y hy hold => by
    have hcause := h.caused _ y hy
    have hcall := hcalled y hy
    generalize y.change = c at hcause hold
    cases hcause with
    | insert ht => exact (hcall _ ht).fresh.wellFormed ..
    | update _ hrw => exact hrw.wellFormed (hold _ rfl)
  exact (hkeeps.2 x hmem).1 r hr

/-- **The audit row of a transition out of running has the worker that held the claim exactly where
the update keeps it**: in every run of the engine, a completion, failure, suspension or release that
has committed with the audit log on has one audit row for each of its tasks. -/
theorem audit_worker_iff {os : List Outcome} {db : System} (h : Runs Enqueuing .empty os db)
    {sid : ℕ} {call : Call} {b : Began} {cs : List (Change TaskRow)} {ls : List (ℕ × AuditRow)}
    {reply : Reply} (ho : .committed sid call b cs ls reply ∈ os) (ha : call.auditLog = true)
    (hop : call.op.EndsClaim = true) {r new : TaskRow} (hc : ⟨some r, new⟩ ∈ cs) :
    r.status = .running ∧
      ∃ x, ls.filter (fun y => decide (y.2.taskId = new.id)) = [x] ∧
        (x.2.workerId = r.claimedBy ↔ call.op.KeepsClaim r) := by
  have hentry : (⟨call, b, ⟨some r, new⟩⟩ : Entry) ∈
      Outcome.entries (.committed sid call b cs ls reply) := List.mem_map_of_mem hc
  have hwell := Runs.wellFormed_old h ho hentry rfl
  have hcause := h.caused new.id _ (mem_history.mpr ⟨⟨_, ho, hentry⟩, rfl⟩)
  obtain ⟨u, hu, hrw⟩ := hcause.of_some rfl
  obtain ⟨hs, f, hf, hiff⟩ := Op.EndsClaim.entry hop hu hrw fun hs => (hwell.running hs).1
  obtain ⟨x, hx, hrow⟩ := Runs.audit_row h ho ha hf hc
  refine ⟨hs, x, hx, ?_⟩
  rw [hrow]
  exact hiff

/-- What a commit shows but its reply. -/
def Outcome.commit? :
    Outcome → Option (ℕ × Call × Began × List (Change TaskRow) × List (ℕ × AuditRow))
  | .committed sid call b cs ls _ => some (sid, call, b, cs, ls)
  | _ => none

theorem exists_committed {os : List Outcome} {sid : ℕ} {call : Call} {b : Began}
    {cs : List (Change TaskRow)} {ls : List (ℕ × AuditRow)}
    (h : (sid, call, b, cs, ls) ∈ os.filterMap Outcome.commit?) :
    ∃ reply, .committed sid call b cs ls reply ∈ os := by
  obtain ⟨o, ho, hcommit⟩ := List.mem_filterMap.mp h
  cases o with
  | committed _ _ _ _ _ reply =>
    cases hcommit
    exact ⟨reply, ho⟩
  | _ => cases hcommit

/-- A task is submitted and claimed, and the worker ends its claim, with the audit log enabled. -/
def heldMoves (task : TaskRecord) (op : Op) : List Move :=
  serve 1 ⟨true, .save task, none⟩ 0 [.all, .all] ++
  serve 2 ⟨true, .claimNext sampleQueue sampleWorker 1000000000 task.region, none⟩ 10
    [.all, .all] ++
  serve 3 ⟨true, op, none⟩ 20 [.all, .all]

/-- The row of the task under the claim. -/
def heldRow (task : TaskRecord) : TaskRow :=
  { insertedRow ⟨0⟩ task none with
    status := .running
    attempts := singleAttempt.get
    claimedBy := some sampleWorker
    claimedUntil := some 1000010
    updatedAt := 10 }

/-- What the last call shows. -/
def heldOutcome (task : TaskRecord) (op : Op) (new : TaskRow) (x : ℕ × AuditRow) (reply : Reply) :
    Outcome :=
  .committed 3 ⟨true, op, none⟩ ⟨20⟩ [⟨some (heldRow task), new⟩] [x] reply

theorem runs_heldMoves (op : Op)
    (hok : Admitted System.step (Calls (Call.SavesOnly [sampleTask .default])) [] .empty
      (heldMoves (sampleTask .default) op))
    (h : (run System.step .empty (heldMoves (sampleTask .default) op)).isSome) :
    Runs Enqueuing .empty (System.shown (heldMoves (sampleTask .default) op))
      (System.after (heldMoves (sampleTask .default) op)) :=
  (Runs.of_moves _ hok h).enqueuing (by simpa using enqueued_sampleTask _)

/-- A completion has its worker in its audit row. -/
theorem completed_by_worker :
    ∃ new x reply, heldOutcome (sampleTask .default) (.complete ⟨1⟩) new x reply ∈
        System.shown (heldMoves (sampleTask .default) (.complete ⟨1⟩)) ∧
      x.2.workerId = some sampleWorker := by
  have h := runs_heldMoves (.complete ⟨1⟩) (by decide +kernel) (by decide +kernel)
  obtain ⟨reply, ho⟩ : ∃ reply, heldOutcome (sampleTask .default) (.complete ⟨1⟩)
      { heldRow (sampleTask .default) with status := .completed, updatedAt := 20 }
      (3, ⟨⟨1⟩, some "running", "completed", 20, some sampleWorker, none, none, none⟩) reply ∈
        System.shown (heldMoves (sampleTask .default) (.complete ⟨1⟩)) :=
    exists_committed (by decide +kernel)
  obtain ⟨-, x, hx, hworker⟩ := audit_worker_iff h ho rfl rfl (List.mem_singleton.mpr rfl)
  obtain rfl := List.mem_singleton.mp (List.mem_of_mem_filter (hx ▸ List.mem_singleton_self x))
  exact ⟨_, _, reply, ho, hworker.mpr trivial⟩

/-- A failure that is retried has none. -/
theorem retried_by_nobody :
    Runs Enqueuing .empty (System.shown (heldMoves (sampleTask .default) (.fail ⟨1⟩ "refused" 5 300)))
      (System.after (heldMoves (sampleTask .default) (.fail ⟨1⟩ "refused" 5 300))) ∧
    (heldRow (sampleTask .default)).claimedBy = some sampleWorker ∧
    ∃ new x reply, heldOutcome (sampleTask .default) (.fail ⟨1⟩ "refused" 5 300) new x reply ∈
        System.shown (heldMoves (sampleTask .default) (.fail ⟨1⟩ "refused" 5 300)) ∧
      x.2.taskId = new.id ∧ x.2.workerId = none := by
  refine ⟨runs_heldMoves _ (by decide +kernel) (by decide +kernel), rfl, ?_⟩
  obtain ⟨reply, ho⟩ : ∃ reply, heldOutcome (sampleTask .default) (.fail ⟨1⟩ "refused" 5 300)
      { heldRow (sampleTask .default) with
        status := .pending
        claimedBy := none
        claimedUntil := none
        lastError := some "refused"
        scheduledAt := 3750020
        updatedAt := 20 }
      (3, ⟨⟨1⟩, some "running", "pending", 20, none, none, some (Json.object "error" "refused"),
        none⟩) reply ∈
        System.shown (heldMoves (sampleTask .default) (.fail ⟨1⟩ "refused" 5 300)) :=
    exists_committed (by decide +kernel)
  exact ⟨_, _, reply, ho, rfl, rfl⟩

/-! ## The region and the trace id -/

/-- The operations whose updates do not return the region. -/
def Op.DropsRegion : Op → Bool
  | releaseLeaseForTask _ | releaseLeasesForWorker _ | expireSuspendedTasks _ => true
  | _ => false

/-- None of the operations that do not return the region has changed a task that has one. -/
def Outcome.KeepsRegions : Outcome → Prop
  | .committed _ call _ cs _ _ =>
    call.op.DropsRegion = true → ∀ c ∈ cs, ∀ r ∈ c.old, r.region = none
  | _ => True

instance : (o : Outcome) → Decidable o.KeepsRegions
  | .committed .. => inferInstanceAs (Decidable (_ → _))
  | .silent | .failed .. | .returned .. => .isTrue trivial

/-- The audit rows of a region. -/
def regionRows (db : System) (region : String) : List (ℕ × AuditRow) :=
  db.log.filter fun x => decide (x.2.region = some region)

/-- The audit rows tell the region and the trace id of their tasks, and those of a region tell every
change of status of its tasks. -/
structure Attributes (os : List Outcome) (db : System) : Prop where
  region : ∀ x ∈ db.log, ∃ r, db.table.get x.2.taskId = some r ∧ x.2.region = r.region
  traceId : ∀ x ∈ db.log, ∃ r, db.table.get x.2.taskId = some r ∧
    Option.Rel (LongestPrefix 255) x.2.traceId r.traceId
  query : ∀ id r region, db.table.get id = some r → r.region = some region →
    ((regionRows db region).filter fun x => decide (x.2.taskId = id)).map (fun x => x.2.move) =
      statusChanges id os

theorem Op.DropsRegion.entry {op : Op} {f : TaskRow → AuditEntry} (h : op.entry? = some f)
    (r : TaskRow) : (f r).region = if op.DropsRegion then none else r.region := by
  cases op with
  | recoverZombieTasks =>
    cases h
    show (if r.status = .pending then recoveredEntry r else exhaustedEntry r).region = r.region
    by_cases hp : r.status = .pending
    · rw [if_pos hp]
      rfl
    · rw [if_neg hp]
      rfl
  | cleanupExpiredIdempotencyKeys | findById | writeCheckpoint => cases h
  | _ =>
    cases h
    rfl

section Regions

variable {os : List Outcome} {db : System}

/-- What a commit has logged is in the audit log. -/
theorem Runs.logged_mem {ok : List Outcome → System → Move → Prop} (h : Runs ok .empty os db)
    {o : Outcome} (ho : o ∈ os) {x : ℕ × AuditRow} (hx : x ∈ o.logs) : x ∈ db.log := by
  have hlog : db.log = os.flatMap Output.logs := Reaches.log_eq h
  rw [hlog]
  exact List.mem_flatMap.mpr ⟨o, ho, hx⟩

/-- What an operation that does not return the region changes has been there, with its region. -/
theorem Runs.region_old {ok : List Outcome → System → Move → Prop} (h : Runs ok .empty os db)
    {sid : ℕ} {call : Call} {b : Began} {cs : List (Change TaskRow)} {ls : List (ℕ × AuditRow)}
    {reply : Reply} (ho : .committed sid call b cs ls reply ∈ os)
    (hdrop : call.op.DropsRegion = true) {c : Change TaskRow} (hc : c ∈ cs) :
    ∃ r, c.old = some r ∧ c.new.region = r.region := by
  have hcause : call.op.Causes b c := Runs.causes h _ ho c hc
  have htasks : call.op.tasks = [] := by
    cases hop : call.op with
    | releaseLeaseForTask | releaseLeasesForWorker | expireSuspendedTasks => rfl
    | _ =>
      rw [hop] at hdrop
      cases hdrop
  cases hold : c.old with
  | none =>
    obtain ⟨task, ht, -⟩ := hcause.of_none hold
    rw [htasks] at ht
    cases ht
  | some r =>
    obtain ⟨u, -, hrw⟩ := hcause.of_some hold
    exact ⟨r, rfl, hrw.sameTask.region⟩

/-- An operation that does not return the region has an audit row without region for each
version. -/
theorem Runs.row_without_region (h : Runs (Calls Call.Audited) .empty os db) {sid : ℕ} {call : Call}
    {b : Began} {cs : List (Change TaskRow)} {ls : List (ℕ × AuditRow)} {reply : Reply}
    (ho : .committed sid call b cs ls reply ∈ os) (hop : call.op.DropsRegion = true)
    {c : Change TaskRow} (hc : c ∈ cs) :
    ∃ x ∈ db.log, x.2.taskId = c.new.id ∧ x.2.region = none := by
  have haudited : call.Audited := h.started (fun _ _ _ _ _ hok => hok) _ ho trivial
  -- the three operations write audit rows
  obtain ⟨f, hf⟩ : ∃ f, call.op.entry? = some f := by
    cases hcall : call.op with
    | releaseLeaseForTask | releaseLeasesForWorker | expireSuspendedTasks => exact ⟨_, rfl⟩
    | _ =>
      rw [hcall] at hop
      cases hop
  obtain ⟨x, hx, hrow⟩ := Runs.audit_row h ho haudited.1 hf hc
  have hmem : x ∈ ls := List.mem_of_mem_filter (hx ▸ List.mem_singleton_self x)
  refine ⟨x, Runs.logged_mem h ho hmem, ?_, ?_⟩
  · rw [hrow]
    exact (Op.entry?_task hf c.new).1
  · rw [hrow]
    show (f c.new).region = none
    rw [Op.DropsRegion.entry hf, if_pos hop]

/-- Where no region is dropped, an audit row has the region of its task. -/
theorem Runs.region_eq {ok : List Outcome → System → Move → Prop} (h : Runs ok .empty os db)
    (hkeep : ∀ o ∈ os, Outcome.KeepsRegions o) {x : ℕ × AuditRow} (hx : x ∈ db.log) :
    ∃ r, db.table.get x.2.taskId = some r ∧ x.2.region = r.region := by
  obtain ⟨sid, call, b, cs, ls, reply, f, ho, hls, -, hf, c, hc, hrow⟩ := Runs.mem_log h hx
  obtain ⟨r, hget, hsame⟩ := Runs.sameTask h ho hc
  have htask : x.2.taskId = c.new.id := by
    rw [hrow]
    exact (Op.entry?_task hf c.new).1
  refine ⟨r, by rw [htask]; exact hget, ?_⟩
  have hregion : x.2.region = if call.op.DropsRegion then none else c.new.region := by
    rw [hrow]
    exact Op.DropsRegion.entry hf c.new
  rw [hregion, hsame.region]
  by_cases hdrop : call.op.DropsRegion = true
  · -- the row had no region to be left out
    obtain ⟨old, hold, hnew⟩ := Runs.region_old h ho hdrop hc
    rw [if_pos hdrop, hnew]
    exact (hkeep _ ho hdrop c hc old hold).symm
  · rw [if_neg hdrop]

/-- **The audit rows tell the regions of their tasks exactly where no release and no expiry of a
suspension has changed a task that has one**, in every run with the audit log on. -/
theorem audit_region_iff (h : Runs (Calls Call.Audited) .empty os db) :
    Attributes os db ↔ ∀ o ∈ os, Outcome.KeepsRegions o := by
  constructor
  · rintro ⟨hregion, -, -⟩ o ho
    cases o with
    | committed sid call b cs ls reply =>
      intro hdrop c hc r hold
      -- the audit row of such a change would have the region of its task, and has none
      obtain ⟨x, hx, htask, hnone⟩ := Runs.row_without_region h ho hdrop hc
      obtain ⟨r', hget, hrow⟩ := hregion x hx
      obtain ⟨r'', hget', hsame⟩ := Runs.sameTask h ho hc
      obtain ⟨old, hold', hnew⟩ := Runs.region_old h ho hdrop hc
      obtain rfl : old = r := Option.some.inj (hold'.symm.trans hold)
      obtain rfl : r' = r'' := by
        rw [htask] at hget
        exact Option.some.inj (hget.symm.trans hget')
      rw [← hnew, ← hsame.region, ← hrow, hnone]
    | _ => trivial
  · intro hkeep
    have hregion : ∀ x ∈ db.log, ∃ r, db.table.get x.2.taskId = some r ∧ x.2.region = r.region :=
      fun x hx => Runs.region_eq h hkeep hx
    refine ⟨hregion, fun x hx => Runs.cut h hx, fun id r region hget hr => ?_⟩
    rw [← h.auditRows_eq id, regionRows, List.filter_filter, auditRows]
    congr 1
    apply List.filter_congr
    intro x hx
    -- a row of the task has the region of the task
    obtain ⟨r', hget', hrow⟩ := hregion x hx
    by_cases htask : x.2.taskId = id
    · obtain rfl : r = r' := by
        rw [htask] at hget'
        exact Option.some.inj (hget.symm.trans hget')
      rw [decide_eq_true htask, decide_eq_true (hrow.trans hr)]
      rfl
    · rw [decide_eq_false htask]
      rfl

end Regions

/-- A task of a region, with a trace id. -/
def regionalTask : TaskRecord :=
  newTask ⟨1⟩ 0 sampleQueue sampleKind sampleJson .default .default 0 none (some "trace-1")
    (some "eu-west-1")

theorem runs_regional (op : Op)
    (hok : Admitted System.step (Calls fun c => c.auditLog = true ∧ c.SavesOnly [regionalTask]) []
      .empty (heldMoves regionalTask op))
    (h : (run System.step .empty (heldMoves regionalTask op)).isSome) :
    Runs (Calls Call.Audited) .empty (System.shown (heldMoves regionalTask op))
      (System.after (heldMoves regionalTask op)) := by
  refine (Runs.of_moves _ hok h).calls_mono fun c hc => ⟨hc.1, fun task ht => ?_⟩
  obtain rfl := List.mem_singleton.mp (hc.2 task ht)
  have henqueue : enqueueRaw ⟨1⟩ 0 sampleQueue "email" sampleJson none none none (some "trace-1")
      (some "eu-west-1") = .ok regionalTask := rfl
  exact ⟨0, 0, .raw henqueue⟩

/-- The three audit rows of a completion have the region of their task. -/
theorem completed_in_region :
    Attributes (System.shown (heldMoves regionalTask (.complete ⟨1⟩)))
      (System.after (heldMoves regionalTask (.complete ⟨1⟩))) ∧
    (regionRows (System.after (heldMoves regionalTask (.complete ⟨1⟩))) "eu-west-1").map
      (fun x => x.2.toStatus) = ["pending", "running", "completed"] :=
  ⟨(audit_region_iff (runs_regional _ (by decide +kernel) (by decide +kernel))).mpr
    (by decide +kernel), by decide +kernel⟩

/-- The release of a task is not among the audit rows of its region. -/
theorem released_from_region :
    Runs (Calls Call.Audited) .empty
      (System.shown (heldMoves regionalTask (.releaseLeaseForTask ⟨1⟩)))
      (System.after (heldMoves regionalTask (.releaseLeaseForTask ⟨1⟩))) ∧
    ¬ Attributes (System.shown (heldMoves regionalTask (.releaseLeaseForTask ⟨1⟩)))
      (System.after (heldMoves regionalTask (.releaseLeaseForTask ⟨1⟩))) ∧
    (statusChanges ⟨1⟩ (System.shown (heldMoves regionalTask (.releaseLeaseForTask ⟨1⟩)))).map
      Change.new = ["pending", "running", "pending"] ∧
    (regionRows (System.after (heldMoves regionalTask (.releaseLeaseForTask ⟨1⟩))) "eu-west-1").map
      (fun x => x.2.toStatus) = ["pending", "running"] := by
  have hrows : (regionRows (System.after (heldMoves regionalTask (.releaseLeaseForTask ⟨1⟩)))
      "eu-west-1").map (fun x => x.2.toStatus) = ["pending", "running"] := by decide +kernel
  have hchanges : (statusChanges ⟨1⟩ (System.shown
      (heldMoves regionalTask (.releaseLeaseForTask ⟨1⟩)))).map Change.new =
        ["pending", "running", "pending"] := by decide +kernel
  refine ⟨runs_regional _ (by decide +kernel) (by decide +kernel), fun h => ?_, hchanges, hrows⟩
  have hquery := h.query ⟨1⟩ _ "eu-west-1" (Option.some_get (by decide +kernel)).symm
    (by decide +kernel)
  -- the query has fewer rows than the task has changes
  have htold := congrArg List.length hrows
  have hmade := congrArg List.length hchanges
  have hfound := congrArg List.length hquery
  rw [List.length_map] at htold hmade hfound
  rw [hmade] at hfound
  have hle := List.length_filter_le (fun x : ℕ × AuditRow => decide (x.2.taskId = ⟨1⟩))
    (regionRows (System.after (heldMoves regionalTask (.releaseLeaseForTask ⟨1⟩))) "eu-west-1")
  rw [hfound, htold] at hle
  exact absurd hle (by decide)

/-! ## The status a cancelled task has left -/

/-- The row has a time of suspension exactly where it is suspended. -/
def Marked (r : TaskRow) : Prop := r.suspendedAt.isSome = true ↔ r.status = .suspended

instance : DecidablePred Marked := fun r =>
  inferInstanceAs (Decidable (r.suspendedAt.isSome = true ↔ r.status = .suspended))

/-- The entry sets the time of suspension or clears it. -/
def Entry.Marks (x : Entry) : Prop := x.action = .suspend ∨ x.action = .signal

instance : DecidablePred Entry.Marks := fun x =>
  inferInstanceAs (Decidable (x.action = .suspend ∨ x.action = .signal))

/-- The first version of a task: the one it starts with, or the one that has been inserted. -/
def firstVersion (o : Option TaskRow) (es : List Entry) : Option TaskRow :=
  o.or (es.head?.map fun x => x.change.new)

theorem marked_congr {r r' : TaskRow} (hs : r.status ≠ .suspended) (hs' : r'.status ≠ .suspended)
    (hat : r'.suspendedAt = r.suspendedAt) : Marked r' ↔ Marked r := by
  unfold Marked
  rw [hat, iff_false_intro hs, iff_false_intro hs']

/-- What is neither a suspension nor a signal keeps the time of suspension, and whether the task is
suspended. -/
theorem Update.Rewrites.unmarked {b : Began} {u : Update} {r r' : TaskRow} (h : Rewrites b u r r')
    (hlive : r'.status.isTerminal = false)
    (haction : ¬ (u.action r = .suspend ∨ u.action r = .signal)) :
    r.status.isTerminal = false ∧ (Marked r' ↔ Marked r) := by
  -- none of these rows is suspended
  have hleft : ∀ s, r.status = s → s.isTerminal = false → s ≠ .suspended →
      r'.status ≠ .suspended → r'.suspendedAt = r.suspendedAt →
      r.status.isTerminal = false ∧ (Marked r' ↔ Marked r) := by
    rintro s rfl hs hne hne' hat
    exact ⟨hs, marked_congr hne hne' hat⟩
  cases h with
  | claimNext hs => exact hleft _ hs rfl (by decide) nofun rfl
  | retry hs | recoverRetryable hs | releaseLeasesForWorker hs | releaseLeaseForTask hs =>
    exact hleft _ hs rfl (by decide) nofun rfl
  | writeCheckpoint hs =>
    have hne : r.status ≠ .suspended := by
      rw [hs]
      decide
    exact hleft _ hs rfl (by decide) hne rfl
  | cleanupExpiredIdempotencyKeys _ _ hterm => 
    have hnot : r.status.isTerminal = false := hlive
    rw [hterm] at hnot
    cases hnot
  | suspend => exact absurd (.inl rfl) haction
  | signal => exact absurd (.inr rfl) haction
  | complete | exhaust | recoverExhausted | cancel | expireSuspendedTasks => cases hlive

/-- An update of a row that is not done marks it, or leaves its mark as it was. -/
theorem Update.Rewrites.marked {b : Began} {u : Update} {r r' : TaskRow} (h : Rewrites b u r r')
    (hlive : r'.status.isTerminal = false) :
    r.status.isTerminal = false ∧
      (Marked r' ↔ (u.action r = .suspend ∨ u.action r = .signal) ∨ Marked r) := by
  have hother : ¬ (u.action r = .suspend ∨ u.action r = .signal) → r.status.isTerminal = false ∧
      (Marked r' ↔ (u.action r = .suspend ∨ u.action r = .signal) ∨ Marked r) := by
    intro haction
    obtain ⟨hr, hiff⟩ := h.unmarked hlive haction
    exact ⟨hr, by rw [hiff, or_iff_right haction]⟩
  cases h with
  | suspend hs => exact ⟨by rw [hs]; rfl, iff_of_true (iff_of_true rfl rfl) (.inl (.inl rfl))⟩
  | signal hs =>
    have hpending : TaskStatus.pending ≠ .suspended := by decide
    exact ⟨by rw [hs]; rfl,
      iff_of_true (iff_of_false Bool.false_ne_true hpending) (.inl (.inr rfl))⟩
  -- a failure and a recovery are one of two actions each, and neither marks the row
  | retry | exhaust | recoverRetryable | recoverExhausted =>
    apply hother
    simp only [Update.action]
    split
    · rintro (haction | haction) <;> cases haction
    · rintro (haction | haction) <;> cases haction
  | _ =>
    apply hother
    rintro (haction | haction) <;> cases haction

theorem firstVersion_concat {o : Option TaskRow} {es : List Entry} {x : Entry}
    (h : (firstVersion o es).isSome = true) : firstVersion o (es ++ [x]) = firstVersion o es := by
  unfold firstVersion at h ⊢
  cases o with
  | some r => rfl
  | none =>
    cases es with
    | nil => cases h
    | cons y es => rfl

/-- A task that has a last version has a first one. -/
theorem firstVersion_isSome {o : Option TaskRow} {es : List Entry} {r : TaskRow}
    (h : Linked o (es.map Entry.change) (some r)) : (firstVersion o es).isSome = true := by
  cases es with
  | nil =>
    obtain rfl := h
    rfl
  | cons x es =>
    cases o with
    | some r => rfl
    | none => rfl

/-- Only a task that has never been there has no last version. -/
theorem nil_of_linked_none {o : Option TaskRow} {es : List Entry}
    (h : Linked o (es.map Entry.change) none) : o = none ∧ es = [] := by
  cases es using List.reverseRecOn with
  | nil => exact ⟨h, rfl⟩
  | append_singleton es x =>
    rw [List.map_append] at h
    obtain ⟨m, -, hlast⟩ := linked_append.mp h
    cases hlast.2

/-- **The last version of a task is marked exactly where it has been suspended or resumed, or the
first one was**, by induction on its history from the end. -/
theorem marked_iff {o : Option TaskRow} {es : List Entry} {r : TaskRow}
    (hlink : Linked o (es.map Entry.change) (some r))
    (hcause : ∀ x ∈ es, x.call.op.Causes x.began x.change) (hlive : r.status.isTerminal = false) :
    Marked r ↔ (∃ x ∈ es, x.Marks) ∨ ∃ r₀, firstVersion o es = some r₀ ∧ Marked r₀ := by
  induction es using List.reverseRecOn generalizing r with
  | nil =>
    obtain rfl := hlink
    constructor
    · intro h
      exact .inr ⟨r, rfl, h⟩
    · rintro (⟨_, hx, -⟩ | ⟨_, h, hr⟩)
      · cases hx
      · cases h
        exact hr
  | append_singleton es x ih =>
    have hx := hcause x (by simp)
    rw [List.map_append] at hlink
    obtain ⟨m, hlink, hlast⟩ := linked_append.mp hlink
    obtain ⟨hold, hnew⟩ := hlast
    obtain rfl : x.change.new = r := Option.some.inj hnew
    cases m with
    | none =>
      -- the entry inserts the task
      obtain ⟨rfl, rfl⟩ := nil_of_linked_none hlink
      have hsubmit : x.action = .submit := by
        rw [Entry.action, hold]
        rfl
      have hnot : ¬ ∃ y ∈ [x], y.Marks := by
        rintro ⟨y, hy, hmarks⟩
        obtain rfl := List.mem_singleton.mp hy
        rw [Entry.Marks, hsubmit] at hmarks
        rcases hmarks with h | h <;> cases h
      show Marked x.change.new ↔
        (∃ y ∈ [x], y.Marks) ∨ ∃ r₀, some x.change.new = some r₀ ∧ Marked r₀
      rw [or_iff_right hnot]
      constructor
      · intro h
        exact ⟨_, rfl, h⟩
      · rintro ⟨_, h, hr⟩
        rw [Option.some.inj h]
        exact hr
    | some r' =>
      obtain ⟨u, hu, hrw⟩ := hx.of_some hold
      obtain ⟨hr', hiff⟩ := hrw.marked hlive
      have hact : x.action = u.action r' := by
        rw [Entry.action, hold, Op.action_of_mem hu]
      rw [hiff, ih hlink (fun y hy => hcause y (List.mem_append_left _ hy)) hr',
        firstVersion_concat (firstVersion_isSome hlink), ← hact]
      have hex : (∃ y ∈ es ++ [x], y.Marks) ↔ (∃ y ∈ es, y.Marks) ∨ x.Marks := by
        simp [or_and_right, exists_or]
      show (x.Marks ∨ _ ∨ _) ↔ _
      rw [hex, or_assoc, or_left_comm]

/-- The history of a task up to a commit leads to the version the commit has replaced. -/
theorem Runs.linked_before {ok : List Outcome → System → Move → Prop} {t : Table TaskRow.id}
    {log : List (ℕ × AuditRow)} {n : ℕ} {ps qs : List Outcome} {o : Outcome} {db : System}
    (h : Runs ok (.idle t log n) (ps ++ o :: qs) db) {x : Entry} (hx : x ∈ o.entries) :
    Linked (t.get x.change.new.id) ((history x.change.new.id ps).map Entry.change)
      x.change.old := by
  have hmem : x ∈ history x.change.new.id [o] :=
    mem_history_singleton.mpr ⟨hx, rfl⟩
  have hle := h.history_length_le (o := o) (by simp) x.change.new.id
  -- the commit has one entry of the task
  have hone : history x.change.new.id [o] = [x] := by
    obtain ⟨y, hy⟩ := List.length_eq_one_iff.mp (le_antisymm hle (List.length_pos_of_mem hmem))
    rw [hy] at hmem ⊢
    rw [List.mem_singleton.mp hmem]
  have hlink := h.history_linked x.change.new.id
  rw [history_append, history_cons, hone, List.map_append] at hlink
  obtain ⟨m, hbefore, hafter⟩ := linked_append.mp hlink
  obtain rfl : x.change.old = m := hafter.1
  exact hbefore

/-- The status a cancellation reads off the time of suspension is right where the row is marked. -/
theorem cancelledEntry_fromStatus {r new : TaskRow}
    (hs : r.status = .pending ∨ r.status = .suspended) (hat : new.suspendedAt = r.suspendedAt) :
    (cancelledEntry new).fromStatus = some r.statusText ↔ Marked r := by
  show some (if new.suspendedAt.isSome = true then "suspended" else "pending") =
    some (statusToStr r.status) ↔ (r.suspendedAt.isSome = true ↔ r.status = .suspended)
  rw [hat]
  -- the entry says suspended just if there is a time of suspension
  by_cases hsome : r.suspendedAt.isSome = true
  · rw [if_pos hsome, iff_true_left hsome]
    rcases hs with hs | hs
    · rw [hs]
      decide
    · rw [hs]
      decide
  · rw [if_neg hsome, iff_false_left hsome]
    rcases hs with hs | hs
    · rw [hs]
      decide
    · rw [hs]
      decide

/-- **The audit row of a cancellation has the status the task has left exactly where the task has
been suspended or resumed before, or its first version had a time of suspension just if it was
suspended**: whatever the table holds at first, and whatever has been called since. -/
theorem cancel_from_status_iff {ok : List Outcome → System → Move → Prop} {t : Table TaskRow.id}
    {log : List (ℕ × AuditRow)} {n : ℕ} {ps qs : List Outcome} {sid : ℕ} {call : Call} {b : Began}
    {cs : List (Change TaskRow)} {ls : List (ℕ × AuditRow)} {reply : Reply} {db : System}
    (h : Runs ok (.idle t log n) (ps ++ .committed sid call b cs ls reply :: qs) db)
    (ha : call.auditLog = true) {id : TaskId} (hop : call.op = .cancel id) {r new : TaskRow}
    (hc : ⟨some r, new⟩ ∈ cs) :
    ∃ x, ls.filter (fun y => decide (y.2.taskId = id)) = [x] ∧ x.2.toStatus = "cancelled" ∧
      (x.2.fromStatus = some r.statusText ↔
        (∃ y ∈ history id ps, y.Marks) ∨
          ∃ r₀, firstVersion (t.get id) (history id ps) = some r₀ ∧ Marked r₀) := by
  have ho : Output.committed sid call b cs ls reply ∈ ps ++ .committed sid call b cs ls reply :: qs :=
    List.mem_append_right _ List.mem_cons_self
  have hcause : call.op.Causes b ⟨some r, new⟩ := Runs.causes h _ ho _ hc
  have hentry : (⟨call, b, ⟨some r, new⟩⟩ : Entry) ∈
      Outcome.entries (.committed sid call b cs ls reply) := List.mem_map_of_mem hc
  -- the version cancelled is the last one of the history before
  have hlink := Runs.linked_before h hentry
  have hearlier : ∀ y ∈ history new.id ps, y.call.op.Causes y.began y.change := by
    intro y hy
    apply h.caused new.id y
    rw [history_append]
    exact List.mem_append_left _ hy
  have hf : call.op.entry? = some cancelledEntry := by rw [hop]; rfl
  obtain ⟨x, hx, hrow⟩ := Runs.audit_row h ho ha hf hc
  rw [hop] at hcause
  obtain ⟨u, hu, hrw⟩ := hcause.of_some rfl
  obtain rfl := List.mem_singleton.mp hu
  cases hrw with
  | cancel hs =>
    -- only a pending or suspended task is cancelled
    have hlive : r.status.isTerminal = false := by
      rcases hs with hs | hs
      · rw [hs]
        rfl
      · rw [hs]
        rfl
    refine ⟨x, hx, by rw [hrow]; rfl, ?_⟩
    rw [hrow]
    exact (cancelledEntry_fromStatus hs rfl).trans (marked_iff hlink hearlier hlive)

/-- A pending row, with the time of suspension it has been given. -/
def storedRow (suspendedAt : Option Timestamp) : TaskRow :=
  { insertedRow ⟨0⟩ (sampleTask .default) none with suspendedAt }

/-- The system that has only this row. -/
def storedSystem (suspendedAt : Option Timestamp) : System :=
  .idle ((∅ : Table TaskRow.id).put (storedRow suspendedAt)) [] 1

/-- The row is cancelled, with the audit log enabled. -/
def cancelMoves : List Move := serve 1 ⟨true, .cancel ⟨1⟩, none⟩ 30 [.all, .all, .all]

def cancelOutcome (suspendedAt : Option Timestamp) (x : ℕ × AuditRow) (reply : Reply) : Outcome :=
  .committed 1 ⟨true, .cancel ⟨1⟩, none⟩ ⟨30⟩
    [⟨some (storedRow suspendedAt),
      { storedRow suspendedAt with status := .cancelled, updatedAt := 30 }⟩] [x] reply

theorem runs_cancelMoves (suspendedAt : Option Timestamp)
    (hok : Admitted System.step (Calls fun _ => True) [] (storedSystem suspendedAt) cancelMoves)
    (h : (run System.step (storedSystem suspendedAt) cancelMoves).isSome) :
    Runs (Calls fun _ => True) (storedSystem suspendedAt)
      ((storedSystem suspendedAt).resume cancelMoves).2
      ((storedSystem suspendedAt).resume cancelMoves).1 :=
  Runs.resume cancelMoves hok h

/-- A pending row that has never been suspended is cancelled from pending. -/
theorem cancelled_from_pending :
    ∃ x reply, cancelOutcome none x reply ∈ ((storedSystem none).resume cancelMoves).2 ∧
      x.2.fromStatus = some "pending" := by
  have h := runs_cancelMoves none (by decide +kernel) (by decide +kernel)
  obtain ⟨reply, ho⟩ : ∃ reply, cancelOutcome none
      (1, ⟨⟨1⟩, some "pending", "cancelled", 30, none, none, none, none⟩) reply ∈
        ((storedSystem none).resume cancelMoves).2 :=
    exists_committed (by decide +kernel)
  obtain ⟨ps, qs, hos⟩ := List.append_of_mem ho
  rw [hos] at h
  obtain ⟨x, hx, -, hiff⟩ := cancel_from_status_iff h rfl rfl (List.mem_singleton.mpr rfl)
  obtain rfl := List.mem_singleton.mp (List.mem_of_mem_filter (hx ▸ List.mem_singleton_self x))
  exact ⟨_, reply, ho, hiff.mpr (.inr ⟨storedRow none, rfl, by decide⟩)⟩

/-- A pending row that was there when the column was added is cancelled from suspended. -/
theorem migrated_cancelled :
    Runs (Calls fun _ => True) (storedSystem (some 10))
      ((storedSystem (some 10)).resume cancelMoves).2
      ((storedSystem (some 10)).resume cancelMoves).1 ∧
    (storedRow (some 10)).status = .pending ∧
    ∃ x reply, cancelOutcome (some 10) x reply ∈
        ((storedSystem (some 10)).resume cancelMoves).2 ∧
      x.2.fromStatus = some "suspended" := by
  refine ⟨runs_cancelMoves _ (by decide +kernel) (by decide +kernel), rfl, ?_⟩
  obtain ⟨reply, ho⟩ : ∃ reply, cancelOutcome (some 10)
      (1, ⟨⟨1⟩, some "suspended", "cancelled", 30, none, none, none, none⟩) reply ∈
        ((storedSystem (some 10)).resume cancelMoves).2 :=
    exists_committed (by decide +kernel)
  exact ⟨_, reply, ho, rfl⟩

end IronDefer
