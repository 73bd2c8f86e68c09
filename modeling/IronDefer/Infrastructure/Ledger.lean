import IronDefer.Infrastructure.Audit
import IronDefer.Infrastructure.Listing
import IronDefer.Infrastructure.Statistics

/-!
# The audit log as a ledger

An audit row books a task out of the status it has left and into the one it has reached. Over any
set of tasks the books balance: a status has been entered as many times as it has been left and as
there are tasks in it now. The statistics of a queue and the total of a listing count rows of the
table, in queries that do not read the audit log; with the log enabled they are balances of it.

## Main definitions

* `entered`, `left`, `opened`: the audit rows that enter a status, leave it, or tell a submission
* `population`: the tasks in a status
* `ViewsBalance`: the statistics and the listings of a queue are balances of the audit log

## Main results

* `Runs.entered_eq`: every status balances
* `Runs.left_eq_zero`: a finished task is not booked out again
* `audit_balances`: **the audit log of a run is a ledger of its table**, and so are its views
-/

namespace IronDefer

open RowStore

/-! ## Counts -/

/-- Tasks chosen by their ids. -/
abbrev Chosen := TaskId → Bool

/-- The audit rows of the chosen tasks that enter a status. -/
def entered (db : System) (chosen : Chosen) (s : TaskStatus) : ℕ :=
  db.log.countP fun x => chosen x.2.taskId && decide (x.2.toStatus = statusToStr s)

/-- The audit rows of the chosen tasks that leave a status. -/
def left (db : System) (chosen : Chosen) (s : TaskStatus) : ℕ :=
  db.log.countP fun x => chosen x.2.taskId && decide (x.2.fromStatus = some (statusToStr s))

/-- The audit rows of the chosen tasks that tell a submission. -/
def opened (db : System) (chosen : Chosen) : ℕ :=
  db.log.countP fun x => chosen x.2.taskId && x.2.fromStatus.isNone

/-- The chosen tasks in a status. -/
def population (t : Table TaskRow.id) (chosen : Chosen) (s : TaskStatus) : ℕ :=
  t.rows.countP fun r => chosen r.id && decide (r.status = s)

/-- The stored tasks whose rows satisfy a condition. -/
def tasksWhere (t : Table TaskRow.id) (p : TaskRow → Bool) : Chosen := fun id => (t.get id).any p

/-- The audit rows of the chosen tasks leave `n` of them in a status. -/
def Balances (db : System) (chosen : Chosen) (s : TaskStatus) (n : ℕ) : Prop :=
  entered db chosen s = left db chosen s + n

/-- The tasks that a row of the statistics counts. -/
def QueueStatistics.tasks (x : QueueStatistics) (byRegion : Bool) (t : Table TaskRow.id) : Chosen :=
  tasksWhere t fun r => decide (statsKey byRegion r = (x.queue.asStr, x.region))

/-- The tasks of the queue that a listing is about. -/
def ListTasksFilter.tasks (filter : ListTasksFilter) (t : Table TaskRow.id) : Chosen :=
  tasksWhere t fun r => filter.queue.all fun queue => r.queue = queue.asStr

/-- What the statistics and the listings count is what the audit log leaves. -/
structure ViewsBalance (collate : String → String → Bool) (db : System) : Prop where
  statistics : ∀ byRegion, ∃ stats, queueStatistics collate db.table byRegion = .ok stats ∧
    ∀ x ∈ stats, Balances db (x.tasks byRegion db.table) .pending x.pending ∧
      Balances db (x.tasks byRegion db.table) .running x.running ∧
      Balances db (x.tasks byRegion db.table) .suspended x.suspended
  listing : ∀ filter res, 1 ≤ filter.limit → listTasks db.table filter = .ok res →
    match filter.status with
    | some s => Balances db (filter.tasks db.table) s res.total
    | none => opened db (filter.tasks db.table) = res.total

/-! ## The log of one task -/

section Task

variable {os : List Outcome} {db : System}

/-- The audit rows of a task lead from nothing to its status. -/
theorem Runs.linked_auditRows (h : Runs (Calls Call.Audited) .empty os db) (id : TaskId) :
    Linked none ((auditRows db id).map fun x => x.2.move)
      ((db.table.get id).map TaskRow.statusText) := by
  rw [h.auditRows_eq id]
  exact (Reaches.linked h id).movesOf TaskRow.statusText

/-- The audit log tells of stored tasks only. -/
theorem Runs.logged_stored (h : Runs (Calls Call.Audited) .empty os db) :
    ∀ x ∈ db.log, x.2.taskId ∈ db.table.rows.map TaskRow.id := by
  intro x hx
  have hlink := h.linked_auditRows x.2.taskId
  have hmem : x ∈ auditRows db x.2.taskId := List.mem_filter.mpr ⟨hx, decide_eq_true rfl⟩
  cases hget : db.table.get x.2.taskId with
  | some r =>
    obtain ⟨hr, hid⟩ := Table.get_eq_some hget
    exact List.mem_map.mpr ⟨r, hr, hid⟩
  | none =>
    -- a change leaves a row behind, and rows do not vanish
    rw [hget] at hlink
    cases hrows : auditRows db x.2.taskId with
    | nil => rw [hrows] at hmem; cases hmem
    | cons y ys =>
      rw [hrows] at hlink
      obtain ⟨hlast, -⟩ := hlink.2.keeps (P := fun o => o.isSome) rfl fun _ _ _ => rfl
      cases hlast

variable {id : TaskId} {r : TaskRow}

/-- The audit rows of a stored task balance at every status. -/
theorem Runs.balance_auditRows (h : Runs (Calls Call.Audited) .empty os db) (hr : r ∈ db.table.rows)
    (s : TaskStatus) :
    ((auditRows db r.id).countP fun x => decide (x.2.toStatus = statusToStr s)) =
      ((auditRows db r.id).countP fun x => decide (x.2.fromStatus = some (statusToStr s))) +
        if r.status = s then 1 else 0 := by
  have hbalance := (h.linked_auditRows r.id).balance (statusToStr s)
  rw [List.countP_map, List.countP_map, Table.get_key_of_mem hr] at hbalance
  simpa [TaskRow.statusText, statusToStr_eq_iff, AuditRow.move, Function.comp_def] using hbalance

/-- A stored task has been submitted once. -/
theorem Runs.opened_auditRows (h : Runs (Calls Call.Audited) .empty os db)
    (hr : r ∈ db.table.rows) :
    ((auditRows db r.id).countP fun x => x.2.fromStatus.isNone) = 1 := by
  have hinsert := (h.linked_auditRows r.id).countP_insert
  rw [List.countP_map, Table.get_key_of_mem hr] at hinsert
  exact hinsert

/-- A status change of a task starts at a status that is not terminal. -/
theorem Runs.not_isTerminal_of_move (h : Runs (Calls Call.Audited) .empty os db)
    {m : Change String} (hm : m ∈ statusChanges id os) {s : TaskStatus}
    (hold : m.old = some (statusToStr s)) : s.isTerminal = false := by
  obtain ⟨hm, hne⟩ := List.mem_filter.mp hm
  obtain ⟨c, hc, rfl⟩ := List.mem_map.mp hm
  rw [← map_change_history] at hc
  obtain ⟨x, hx, rfl⟩ := List.mem_map.mp hc
  cases hfound : x.change.old with
  | none =>
    rw [Change.map, hfound] at hold
    cases hold
  | some r =>
    obtain rfl : r.status = s := by
      rw [Change.map, hfound] at hold
      exact statusToStr_eq_iff.mp (Option.some.inj hold)
    have hstep := (h.caused id x hx).step fun hnone => by rw [hfound] at hnone; cases hnone
    rw [hfound] at hstep
    rcases hstep.moves with hkept | hmoves
    · -- an entry that keeps the status is not among the changes of it
      refine absurd ?_ (of_decide_eq_true hne)
      rw [Change.map, hfound]
      exact congrArg some (statusToStr_eq_iff.mpr (Option.some.inj hkept))
    · exact hmoves.not_isTerminal

end Task

/-! ## All tasks -/

section Ledger

variable {os : List Outcome} {db : System} {s : TaskStatus}

/-- The audit rows of a task are all chosen, or none of them is. -/
theorem countP_auditRows (chosen : Chosen) (id : TaskId) (p : ℕ × AuditRow → Bool) :
    ((auditRows db id).countP fun x => chosen x.2.taskId && p x) =
      if chosen id = true then (auditRows db id).countP p else 0 := by
  have hchosen : ∀ x ∈ auditRows db id, chosen x.2.taskId = chosen id := fun x hx =>
    congrArg chosen (of_decide_eq_true (List.mem_filter.mp hx).2)
  rw [List.countP_congr fun x hx => by rw [hchosen x hx]]
  cases chosen id with
  | true => simp
  | false => simp

/-- **Every status balances**: what has entered it has left it, or is there. -/
theorem Runs.entered_eq (h : Runs (Calls Call.Audited) .empty os db) (chosen : Chosen)
    (s : TaskStatus) : entered db chosen s = left db chosen s + population db.table chosen s := by
  refine countP_balance db.table.nodup h.logged_stored fun r hr => ?_
  have hbalance := h.balance_auditRows hr s
  refine (countP_auditRows chosen r.id _).trans ?_
  rw [show (db.log.filter fun x => decide (x.2.taskId = r.id)) = auditRows db r.id from rfl,
    countP_auditRows, hbalance]
  cases chosen r.id with
  | true => simp
  | false => simp

/-- There are as many tasks as submissions. -/
theorem Runs.opened_eq (h : Runs (Calls Call.Audited) .empty os db) (chosen : Chosen) :
    opened db chosen = db.table.rows.countP fun r => chosen r.id := by
  have hbalance : opened db chosen = (db.log.countP fun _ => false) +
      db.table.rows.countP fun r => chosen r.id := by
    refine countP_balance db.table.nodup h.logged_stored fun r hr => ?_
    refine (countP_auditRows chosen r.id _).trans ?_
    rw [h.opened_auditRows hr, List.countP_false]
    exact (Nat.zero_add _).symm
  rw [hbalance, List.countP_false]
  exact Nat.zero_add _

/-- **A finished task is not booked out again.** -/
theorem Runs.left_eq_zero (h : Runs (Calls Call.Audited) .empty os db) (chosen : Chosen)
    (hs : s.isTerminal = true) : left db chosen s = 0 := by
  refine List.countP_eq_zero.mpr fun x hx hleft => ?_
  obtain ⟨-, hfrom⟩ := Bool.and_eq_true_iff.mp hleft
  have hmem : x.2.move ∈ statusChanges x.2.taskId os := by
    rw [← h.auditRows_eq x.2.taskId]
    exact List.mem_map_of_mem (List.mem_filter.mpr ⟨hx, decide_eq_true rfl⟩)
  rw [h.not_isTerminal_of_move hmem (of_decide_eq_true hfrom)] at hs
  cases hs

/-! ## Views -/

theorem countP_tasksWhere (t : Table TaskRow.id) (p q : TaskRow → Bool) :
    (t.rows.countP fun r => tasksWhere t p r.id && q r) = t.rows.countP fun r => p r && q r := by
  refine List.countP_congr fun r hr => ?_
  rw [tasksWhere, Table.get_key_of_mem hr, Option.any_some]

theorem population_tasksWhere (t : Table TaskRow.id) (p : TaskRow → Bool) (s : TaskStatus) :
    population t (tasksWhere t p) s = countStatus s (t.rows.filter p) := by
  rw [population, countP_tasksWhere, countStatus, List.countP_filter]
  exact List.countP_congr fun r _ => by rw [Bool.and_comm]

/-- A row of the statistics counts the tasks of its group. -/
theorem row_of_stats {collate : String → String → Bool} {byRegion : Bool} {t : Table TaskRow.id}
    {stats : List QueueStatistics}
    (h : stats.map QueueStatistics.row = selectQueueStats collate byRegion t.rows)
    {x : QueueStatistics} (hx : x ∈ stats) :
    x.row = queueStatsRow x.queue.asStr x.region
      (t.rows.filter fun r => decide (statsKey byRegion r = (x.queue.asStr, x.region))) := by
  obtain ⟨g, hg, -, hrow⟩ := mem_selectQueueStats.mp (h ▸ List.mem_map_of_mem hx)
  have hqueue : g.1.1 = x.queue.asStr := congrArg QueueStatsRow.queue hrow
  have hregion : g.1.2 = x.region := congrArg QueueStatsRow.region hrow
  rw [← hrow, group_eq hg, ← hqueue, ← hregion]

/-- The statistics and the listings of a store whose every status balances. -/
theorem viewsBalance (collate : String → String → Bool) (hvalid : ∀ r ∈ db.table.rows, r.Valid)
    (hstatus : ∀ chosen s, Balances db chosen s (population db.table chosen s))
    (hopened : ∀ chosen, opened db chosen = db.table.rows.countP fun r => chosen r.id) :
    ViewsBalance collate db where
  statistics byRegion := by
    obtain ⟨stats, hstats, hrows⟩ := exists_queueStatistics hvalid collate byRegion
    refine ⟨stats, hstats, fun x hx => ?_⟩
    have hrow := row_of_stats hrows hx
    have hcount : ∀ s, Balances db (x.tasks byRegion db.table) s (countStatus s
        (db.table.rows.filter fun r =>
          decide (statsKey byRegion r = (x.queue.asStr, x.region)))) := fun s =>
      population_tasksWhere db.table _ s ▸ hstatus _ s
    have hpending : x.pending = _ := congrArg QueueStatsRow.pending hrow
    have hrunning : x.running = _ := congrArg QueueStatsRow.running hrow
    have hsuspended : x.suspended = _ := congrArg QueueStatsRow.suspended hrow
    rw [hpending, hrunning, hsuspended]
    exact ⟨hcount .pending, hcount .running, hcount .suspended⟩
  listing filter res hlimit hres := by
    have htotal : res.total = (db.table.rows.filter filter.admits).length := by
      rcases listTasks_cases filter db.table hlimit with ⟨tasks, hlist, -⟩ | ⟨⟨reason, hlist⟩, -⟩
      · rw [hres] at hlist
        exact congrArg ListTasksResult.total (Except.ok.inj hlist)
      · rw [hres] at hlist
        cases hlist
    rw [htotal, ← List.countP_eq_length_filter]
    cases hs : filter.status with
    | some s =>
      have hadmits : db.table.rows.countP filter.admits =
          population db.table (filter.tasks db.table) s := by
        rw [population, ListTasksFilter.tasks, countP_tasksWhere]
        exact List.countP_congr fun r _ => by rw [ListTasksFilter.admits, hs, Option.all_some]
      rw [hadmits]
      exact hstatus _ s
    | none =>
      have hadmits : db.table.rows.countP filter.admits =
          db.table.rows.countP fun r => filter.tasks db.table r.id := by
        have hall := countP_tasksWhere db.table
          (fun r => filter.queue.all fun queue => r.queue = queue.asStr) fun _ => true
        simp only [Bool.and_true] at hall
        rw [ListTasksFilter.tasks, hall]
        exact List.countP_congr fun r _ => by
          rw [ListTasksFilter.admits, hs, Option.all_none, Bool.and_true]
      rw [hadmits]
      exact hopened _

end Ledger

/-- **The audit log of a run is a ledger of its table.** In every run from the empty store with the
audit log enabled and the scheduler's submissions, whatever the operations and their interleaving,
and for any set of tasks: there are as many audit rows that enter a status as there are that leave
it and tasks in it; there are as many tasks as submissions; finished tasks are not booked out; and
the statistics, by region or not, and the totals of the listings are balances of the log. -/
theorem audit_balances (collate : String → String → Bool) {os : List Outcome} {db : System}
    (h : Runs (Calls Call.Audited) .empty os db) :
    (∀ chosen s, Balances db chosen s (population db.table chosen s)) ∧
      (∀ chosen, opened db chosen = db.table.rows.countP fun r => chosen r.id) ∧
      (∀ chosen s, s.isTerminal = true → entered db chosen s = population db.table chosen s) ∧
      ViewsBalance collate db := by
  have hvalid : db.AllVersions TaskRow.Valid := Runs.valid (h.calls_mono fun _ hc => hc.2)
  refine ⟨h.entered_eq, h.opened_eq, fun chosen s hs => ?_,
    viewsBalance collate hvalid.1 h.entered_eq h.opened_eq⟩
  rw [h.entered_eq, h.left_eq_zero chosen hs, Nat.zero_add]

/-- In the sample of the audit log, the task has been suspended and is no longer. -/
theorem audited_balances :
    (∀ s, Balances (System.after auditedMoves) (fun _ => true) s
      (population (System.after auditedMoves).table (fun _ => true) s)) ∧
    entered (System.after auditedMoves) (fun _ => true) .suspended = 1 ∧
    population (System.after auditedMoves).table (fun _ => true) .suspended = 0 ∧
    ViewsBalance (fun a b => decide (a ≤ b)) (System.after auditedMoves) := by
  have hsaves : Runs (Calls fun c => c.auditLog = true ∧ c.SavesOnly [sampleTask .default]) .empty
      (System.shown auditedMoves) (System.after auditedMoves) :=
    Runs.of_moves auditedMoves (by decide +kernel) (by decide +kernel)
  have h : Runs (Calls Call.Audited) .empty _ _ := hsaves.calls_mono fun c hc =>
    ⟨hc.1, fun task ht => by
      obtain rfl := List.mem_singleton.mp (hc.2 task ht)
      exact enqueued_sampleTask _⟩
  obtain ⟨hstatus, -, -, hviews⟩ := audit_balances (fun a b => decide (a ≤ b)) h
  exact ⟨hstatus _, by decide +kernel, by decide +kernel, hviews⟩

end IronDefer
