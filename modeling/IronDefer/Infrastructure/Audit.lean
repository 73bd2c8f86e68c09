import IronDefer.Infrastructure.RowInvariant

/-!
# The audit log

With the audit log enabled, the committed audit rows of a task are its committed status changes,
in the order of their ids: a chain from the submission to the current status. The operations write
the status a task has left as a constant, or guess it from `suspended_at` after the update; the
guards of the updates and the invariant of stored rows make it the right one.

## Main definitions

* `auditRows`: the audit rows of a task
* `statusChanges`: the committed status changes of a task, as texts
* `Records`, `Recorded`: an audit entry tells a change, the audit rows of a transaction its changes

## Main results

* `Op.Spec.recorded`: every operation that commits has recorded what it has changed
* `audit_chain`: **the audit rows of a task are the chain of its status changes**
-/

namespace IronDefer

open RowStore

/-- The status of a row, as the audit log records it. -/
def TaskRow.statusText (r : TaskRow) : String := statusToStr r.status

/-- The status change an audit row tells. -/
def AuditRow.move (a : AuditRow) : Change String := ⟨a.fromStatus, a.toStatus⟩

/-- The committed audit rows of a task, with their ids. -/
def auditRows (db : System) (id : TaskId) : List (ℕ × AuditRow) :=
  db.log.filter fun x => decide (x.2.taskId = id)

/-- The committed status changes of a task. -/
def statusChanges (id : TaskId) (os : List Outcome) : List (Change String) :=
  movesOf TaskRow.statusText (changesAt TaskRow.id id os)

/-! ## Transactions -/

/-- An audit entry tells a change of status. -/
structure Records (c : Change TaskRow) (x : AuditEntry) : Prop where
  taskId : x.taskId = c.new.id
  fromStatus : x.fromStatus = c.old.map TaskRow.statusText
  toStatus : x.toStatus = c.new.statusText
  moved : x.fromStatus ≠ some x.toStatus

/-- The audit rows of a transaction tell its changes of status, task by task. -/
def Recorded (cs : List (Change TaskRow)) (ls : List AuditRow) : Prop :=
  ∀ id, (ls.filter fun a => decide (a.taskId = id)).map AuditRow.move =
    movesOf TaskRow.statusText (cs.filter fun c => decide (c.new.id = id))

theorem TaskStatus.asStr_injective : Function.Injective TaskStatus.asStr := by
  intro s s' h
  cases s <;> cases s' <;> first | rfl | simp [TaskStatus.asStr] at h

/-- An entry with the texts of the statuses a row has left and reached tells the change. -/
theorem records_of_status {r r' : TaskRow} {x : AuditEntry} {s s' : TaskStatus} (hs : r.status = s)
    (hs' : r'.status = s') (hid : x.taskId = r'.id) (hfrom : x.fromStatus = some s.asStr)
    (hto : x.toStatus = s'.asStr) (hne : s ≠ s') : Records ⟨some r, r'⟩ x where
  taskId := hid
  fromStatus := by rw [hfrom, ← hs]; rfl
  toStatus := by rw [hto, ← hs']; rfl
  moved h := hne (TaskStatus.asStr_injective (by rw [hfrom, hto] at h; exact Option.some.inj h))

theorem Recorded.nil : Recorded [] [] := fun _ => rfl

theorem Recorded.append {cs ds : List (Change TaskRow)} {ls ms : List AuditRow}
    (h : Recorded cs ls) (h' : Recorded ds ms) : Recorded (cs ++ ds) (ls ++ ms) := by
  intro id
  rw [List.filter_append, List.map_append, List.filter_append, movesOf_append, h id, h' id]

/-- A change of status is recorded by its entry. -/
theorem Records.recorded {c : Change TaskRow} {x : AuditEntry} (h : Records c x) (b : Began) :
    Recorded [c] [x.row b] := by
  intro id
  have hmove : (x.row b).move = c.map TaskRow.statusText := by
    rw [AuditRow.move, Change.map, ← h.fromStatus, ← h.toStatus]
    rfl
  have hne : c.old.map TaskRow.statusText ≠ some c.new.statusText := by
    rw [← h.fromStatus, ← h.toStatus]
    exact h.moved
  have hid : (x.row b).taskId = c.new.id := h.taskId
  by_cases hk : c.new.id = id
  · simp [hid, hk, hmove, movesOf, Change.map, hne]
  · simp [hid, hk]

/-- A loop over the rows written records the changes it tells one by one. -/
theorem recorded_news {f : TaskRow → AuditEntry} {b : Began} {ds : List (Change TaskRow)}
    (h : ∀ d ∈ ds, Records d (f d.new)) : Recorded ds (logged true b ((news ds).map f)) := by
  induction ds with
  | nil => exact .nil
  | cons d ds ih =>
    have hd := (h d List.mem_cons_self).recorded b
    exact hd.append (ih fun d' hd' => h d' (List.mem_cons_of_mem _ hd'))

theorem recorded_single {f : TaskRow → AuditEntry} {b : Began} {c : Change TaskRow}
    (h : ∀ d ∈ [c], Records d (f d.new)) : Recorded [c] (logged true b [f c.new]) :=
  recorded_news h

/-- Changes that keep the status need no audit rows. -/
theorem recorded_of_kept {cs : List (Change TaskRow)}
    (h : ∀ c ∈ cs, c.old.map TaskRow.statusText = some c.new.statusText) : Recorded cs [] := by
  induction cs with
  | nil => exact .nil
  | cons c cs ih =>
    have hc : Recorded [c] [] := by
      intro id
      have hkept := h c List.mem_cons_self
      by_cases hk : c.new.id = id <;> simp [hk, movesOf, Change.map, hkept]
    exact hc.append (ih fun d hd => h d (List.mem_cons_of_mem _ hd))

section Recorded

variable {rely : Table TaskRow.id → (TaskId → Bool) → Env → Prop} {b : Began}
  {cs ds : List (Change TaskRow)}

/-- An update records its changes where it records every rewriting of a well-formed row. -/
theorem UpdatedBy.records {u : Update} {f : TaskRow → AuditEntry} {I : TaskRow → Prop}
    (h : UpdatedBy rely b u cs ds) (hrely : ∀ t free e, rely t free e → ∀ r ∈ t.rows, I r)
    (hcs : ∀ r ∈ news cs, I r)
    (hf : ∀ r r', I r → Update.Rewrites b u r r' → Records ⟨some r, r'⟩ (f r')) :
    ∀ d ∈ ds, Records d (f d.new) := by
  rintro ⟨old, new⟩ hd
  obtain ⟨r, hold, hrw, hr⟩ := h.found hrely hcs _ hd
  obtain rfl : old = some r := hold
  exact hf r new hr hrw

/-- An update that keeps the status needs no audit rows. -/
theorem UpdatedBy.recorded_nil {u : Update} (h : UpdatedBy rely b u cs ds)
    (hu : ∀ r r', Update.Rewrites b u r r' → r'.status = r.status) : Recorded ds [] := by
  apply recorded_of_kept
  intro d hd
  obtain ⟨r, hold, hrw⟩ := h.rewrites d hd
  rw [hold, TaskRow.statusText, hu r _ hrw]
  rfl

theorem SavedBy.recorded {task : TaskRecord} {idempotent : Bool} {xs : List AuditEntry}
    {res : Option (TaskRow × Bool)} (ht : task.status = .pending)
    (h : SavedBy rely b cs task idempotent ds xs res) : Recorded ds (logged true b xs) := by
  cases h with
  | @new _ row h =>
    obtain ⟨t, e, free, -, -, h⟩ := h
    obtain ⟨rfl, -, -⟩ := execInsert_eq_some h
    have hrec : Records ⟨none, insertedRow b task (task.lastError.map truncateLastError)⟩
        (createdEntry (insertedRow b task (task.lastError.map truncateLastError))) :=
      ⟨rfl, rfl, by rw [TaskRow.statusText, insertedRow, ht]; rfl, by simp [createdEntry]⟩
    exact hrec.recorded b
  | old => exact .nil
  | gone => exact .nil

theorem CalledBy.recorded {call : TxCall} {xs : List AuditEntry} {reply : Reply}
    (ht : call.task.status = .pending) (h : CalledBy rely b cs call ds xs reply) :
    Recorded ds (logged true b xs) := by
  cases h with
  | saveInTx h => exact h.recorded ht
  | saveIdempotentInTx h => exact h.recorded ht

theorem CalledAll.recorded {calls : List TxCall} {xs : List AuditEntry} {replies : List Reply}
    (ht : ∀ call ∈ calls, call.task.status = .pending)
    (h : CalledAll rely b cs calls ds xs replies) : Recorded ds (logged true b xs) := by
  induction h with
  | nil => exact .nil
  | cons hcall _ ih =>
    rw [logged_append]
    exact (hcall.recorded (ht _ List.mem_cons_self)).append
      (ih fun call hc => ht call (List.mem_cons_of_mem _ hc))

/-- The transitions tell where they come from and where they go. -/
theorem Transition.records {op : Op} {tr : Transition} (htr : op.transition = some tr)
    {r r' : TaskRow} (h : Update.Rewrites b tr.update r r') :
    Records ⟨some r, r'⟩ (tr.entry r') := by
  cases op with
  | complete id | suspend id | signal id payload =>
    cases htr
    cases h with
    | _ hs => exact records_of_status hs rfl rfl rfl rfl (by simp)
  | fail id error base max =>
    cases htr
    cases h with
    | _ hs => exact records_of_status hs rfl rfl rfl rfl (by simp)
  | _ => cases htr

/-- **Every operation that commits has recorded what it has changed**, where the rows it finds are
well formed and the tasks it inserts pending. -/
theorem Op.Spec.recorded {op : Op} {ls : List AuditRow} {r : Reply}
    (hrely : ∀ t free e, rely t free e → ∀ r ∈ t.rows, r.WellFormed)
    (hsave : ∀ task ∈ op.tasks, task.status = .pending)
    (h : Op.Spec rely true b op cs ls (.commit r)) : Recorded cs ls := by
  have htrue : ∀ t free e, rely t free e → ∀ r ∈ t.rows, True := fun _ _ _ _ _ _ => trivial
  cases h with
  | save h => exact h.recorded (hsave _ List.mem_cons_self)
  | saveIdempotent h => exact h.recorded (hsave _ List.mem_cons_self)
  | inTxCommit h => exact h.recorded fun call hc => hsave _ (List.mem_map_of_mem hc)
  | cleanup h => exact h.recorded_nil fun r r' hrw => by cases hrw; rfl
  | written h => exact h.recorded_nil fun r r' hrw => by cases hrw; rfl
  | @claimed _ w _ _ c h =>
    refine recorded_single (h.records htrue (by simp) fun r r' _ hrw => ?_)
    cases hrw with
    | claimNext hs => exact records_of_status hs rfl rfl rfl rfl (by simp)
  | @transition _ tr c htr h =>
    exact recorded_single (h.records htrue (by simp) fun r r' _ hrw => tr.records htr hrw)
  | @releasedTask _ c h =>
    refine recorded_single (h.records htrue (by simp) fun r r' _ hrw => ?_)
    cases hrw with
    | releaseLeaseForTask hs => exact records_of_status hs rfl rfl rfl rfl (by simp)
  | released h =>
    refine recorded_news (h.records htrue (by simp) fun r r' _ hrw => ?_)
    cases hrw with
    | releaseLeasesForWorker hs => exact records_of_status hs rfl rfl rfl rfl (by simp)
  | recovered hds hes =>
    rw [logged_append]
    refine (recorded_news (hds.records htrue (by simp) fun r r' _ hrw => ?_)).append
      (recorded_news (hes.records htrue (by simp) fun r r' _ hrw => ?_))
    · cases hrw with
      | recoverRetryable hs => exact records_of_status hs rfl rfl rfl rfl (by simp)
    · cases hrw with
      | recoverExhausted hs => exact records_of_status hs rfl rfl rfl rfl (by simp)
  | @cancelled _ c h =>
    refine recorded_single (h.records hrely (by simp) fun r r' hr hrw => ?_)
    -- the update has not touched `suspended_at`, which tells pending from suspended
    cases hrw with
    | cancel hs =>
      rcases hs with hs | hs
      · obtain ⟨-, -, hsusp⟩ := hr.pending hs
        exact records_of_status hs rfl rfl (by simp [cancelledEntry, hsusp]; rfl) rfl (by simp)
      · obtain ⟨-, -, hsusp⟩ := hr.suspended hs
        exact records_of_status hs rfl rfl (by simp [cancelledEntry, hsusp]; rfl) rfl (by simp)
  | expired h =>
    refine recorded_news (h.records htrue (by simp) fun r r' _ hrw => ?_)
    cases hrw with
    | expireSuspendedTasks hs => exact records_of_status hs rfl rfl rfl rfl (by simp)
  | _ => exact .nil

end Recorded

/-! ## Runs -/

/-- A call on a repository with the audit log enabled, inserting only what the scheduler builds. -/
def Call.Audited (c : Call) : Prop := c.auditLog = true ∧ c.op.Enqueues

section Runs

variable {os : List Outcome} {db : System}

/-- Every commit has recorded what it has changed. -/
theorem Runs.recorded (h : Runs (Calls Call.Audited) .empty os db) :
    ∀ o ∈ os, Recorded o.changes (o.logs.map Prod.snd) := by
  have hspec := h.spec (fun t _ _ => ∀ r ∈ t.rows, r.WellFormed) (fun _ => True)
    (Db.exclusive_idle _ _ _) (fun s hs => by simp [Db.idle] at hs) fun _ _ _ _ hr _ _ =>
      hr.wellFormed_enqueued fun _ hc => hc.2
  have hcalls := h.started (P := Call.Audited) fun _ _ _ _ _ hok => hok
  intro o ho
  have hspec := hspec o ho
  have hcall := hcalls o ho
  cases o with
  | committed sid call b cs ls r =>
    obtain ⟨haudit, henq⟩ := hcall trivial
    have hspec := hspec trivial
    change Op.Spec _ call.auditLog b call.op cs _ (.commit r) at hspec
    rw [haudit] at hspec
    exact hspec.recorded (fun _ _ _ ht => ht) fun task ht => (henq task ht).fresh.status
  | _ => exact .nil

theorem Runs.auditRows_eq (h : Runs (Calls Call.Audited) .empty os db) (id : TaskId) :
    (auditRows db id).map (fun x => x.2.move) = statusChanges id os := by
  have hlog : db.log = os.flatMap Output.logs := Reaches.log_eq h
  have hall := h.recorded
  rw [auditRows, hlog, statusChanges]
  clear h hlog
  induction os with
  | nil => rfl
  | cons o os ih =>
    have ho := hall o List.mem_cons_self id
    rw [List.filter_map, List.map_map] at ho
    have ih := ih fun p hp => hall p (List.mem_cons_of_mem _ hp)
    rw [List.flatMap_cons, List.filter_append, List.map_append, ih,
      show changesAt TaskRow.id id (o :: os) =
        changesAt TaskRow.id id [o] ++ changesAt TaskRow.id id os from changesAt_append id [o] os,
      movesOf_append]
    congr 1
    simpa [changesAt, Function.comp_def] using ho

/-- The audit rows of a task are in the order of their ids. -/
theorem Runs.auditRows_sorted {ok : List Outcome → System → Move → Prop} (h : Runs ok .empty os db)
    (id : TaskId) : (auditRows db id).Pairwise fun x y => x.1 < y.1 := by
  have hp : Proved postgres Call.program ok System.empty (fun _ _ _ => True) Held
      (fun call b => Op.Spec (fun _ _ _ => True) call.auditLog b call.op) fun _ => True :=
    proved_spec (Db.exclusive_idle _ _ _) (fun s hs => by simp [System.empty, Db.idle] at hs)
      fun _ _ _ _ _ _ _ => trivial
  have hempty : (System.empty).Ordered AuditRow.taskId := by
    constructor <;> simp [System.empty, Db.idle]
  have hord := (Reaches.ordered hp (fun _ _ hheld => hheld) hempty h).log
  refine (hord.filter _).imp_of_mem fun hx hy hxy => hxy ?_
  have hx := of_decide_eq_true (List.mem_filter.mp hx).2
  have hy := of_decide_eq_true (List.mem_filter.mp hy).2
  exact hx.trans hy.symm

/-- The first status of a task is pending. -/
theorem Runs.submitted (h : Runs (Calls Call.Audited) .empty os db) {id : TaskId}
    {m : Change String} (hm : m ∈ statusChanges id os) (hold : m.old = none) :
    m.new = "pending" := by
  obtain ⟨c, hc, rfl⟩ := List.mem_map.mp (List.mem_of_mem_filter hm)
  rw [← map_change_history] at hc
  obtain ⟨x, hx, rfl⟩ := List.mem_map.mp hc
  have hcause := h.caused id x hx
  have hcall := h.called (P := Call.Audited) (fun _ _ _ _ _ hok => hok) id x hx
  generalize x.change = c at hcause hold
  cases hcause with
  | @insert task lastError ht =>
    change statusToStr task.status = "pending"
    rw [(hcall.2 task ht).fresh.status]
    rfl
  | update => cases hold

end Runs

/-- **The audit rows of a task are the chain of its status changes.** In every run from the empty
store with the audit log enabled and the scheduler's submissions, the audit rows of a task are in
the order of their ids, one for each committed change of its status and no other; the first tells
its submission, each starts where the one before it has ended, and the last ends at its status. -/
theorem audit_chain {os : List Outcome} {db : System} (h : Runs (Calls Call.Audited) .empty os db)
    (id : TaskId) :
    (auditRows db id).Pairwise (fun x y => x.1 < y.1) ∧
    (auditRows db id).map (fun x => x.2.move) = statusChanges id os ∧
    (∀ x, (auditRows db id).head? = some x → x.2.move = ⟨none, "pending"⟩) ∧
    Linked none ((auditRows db id).map fun x => x.2.move)
      ((statusAt db id).map TaskStatus.asStr) := by
  have heq := h.auditRows_eq id
  have hlink : Linked none ((auditRows db id).map fun x => x.2.move)
      ((statusAt db id).map TaskStatus.asStr) := by
    rw [heq, statusAt, Option.map_map]
    exact (Reaches.linked h id).movesOf TaskRow.statusText
  refine ⟨h.auditRows_sorted id, heq, fun x hx => ?_, hlink⟩
  obtain ⟨xs, hxs⟩ := List.head?_eq_some_iff.mp hx
  rw [hxs] at hlink heq
  have hold : x.2.move.old = none := hlink.1
  have hmem : x.2.move ∈ statusChanges id os := heq ▸ List.mem_cons_self
  have hnew := h.submitted hmem hold
  rw [show x.2.move = ⟨x.2.move.old, x.2.move.new⟩ from rfl, hold, hnew]

/-- The task of the sample is claimed, suspended and cancelled, with the audit log enabled. -/
def auditedMoves : List Move :=
  serve 1 ⟨true, .save (sampleTask .default), none⟩ 0 [.all, .all] ++
  serve 2 ⟨true, .claimNext sampleQueue sampleWorker 1000000000 none, none⟩ 10 [.all, .all] ++
  serve 3 ⟨true, .suspend ⟨1⟩, none⟩ 20 [.all, .all] ++
  serve 4 ⟨true, .cancel ⟨1⟩, none⟩ 30 [.all, .all, .all]

/-- In the sample the chain has four links. -/
theorem audited_chain :
    (auditRows (System.after auditedMoves) ⟨1⟩).map (fun x => x.2.move) =
      [⟨none, "pending"⟩, ⟨some "pending", "running"⟩, ⟨some "running", "suspended"⟩,
        ⟨some "suspended", "cancelled"⟩] ∧
    Linked none ((auditRows (System.after auditedMoves) ⟨1⟩).map fun x => x.2.move)
      (some "cancelled") := by
  have hsaves : Runs (Calls fun c => c.auditLog = true ∧ c.SavesOnly [sampleTask .default]) .empty
      (System.shown auditedMoves) (System.after auditedMoves) :=
    Runs.of_moves auditedMoves (by decide +kernel) (by decide +kernel)
  have h : Runs (Calls Call.Audited) .empty _ _ := hsaves.calls_mono fun c hc =>
    ⟨hc.1, fun task ht => by
      obtain rfl := List.mem_singleton.mp (hc.2 task ht)
      exact enqueued_sampleTask _⟩
  obtain ⟨-, -, -, hlink⟩ := audit_chain h ⟨1⟩
  have hstatus : statusAt (System.after auditedMoves) ⟨1⟩ = some .cancelled := by decide +kernel
  rw [hstatus] at hlink
  exact ⟨by decide +kernel, hlink⟩

end IronDefer
