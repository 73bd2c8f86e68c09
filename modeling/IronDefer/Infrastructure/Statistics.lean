import IronDefer.Infrastructure.Attempts
import IronDefer.RowStore.Grouping
import Mathlib.Data.List.Sort
import Mathlib.Data.Set.List

/-!
# Statistics of queues and workers

Three queries count the tasks: by queue, by queue and region, and by worker and queue. They count
the same rows. A queue that has only finished tasks is left out, and so is a region of it. The tasks
a worker has in flight are counted by its claims, which every running row has.

## Main definitions

* `QueueStatistics`, `queueStatistics`: the statistics of the queues, by region or not
* `WorkerStatus`, `workerStatus`: the tasks in flight of the workers
* `StatisticsAgree`: the three views are consistent

## Main results

* `statistics_agree`: **the three views are consistent in every store**
-/

namespace IronDefer

open RowStore

/-! ## The queries -/

/-- The statistics of a queue, or of a region of it. -/
structure QueueStatistics where
  queue : QueueName
  region : Option String
  pending : ℕ
  running : ℕ
  suspended : ℕ
  activeWorkers : ℕ
  deriving DecidableEq

/-- The tasks of a queue that a worker has claimed. -/
structure WorkerStatus where
  workerId : WorkerId
  queue : QueueName
  tasksInFlight : ℕ
  deriving DecidableEq

/-- A row of the statistics. -/
structure QueueStatsRow where
  queue : String
  region : Option String
  pending : ℕ
  running : ℕ
  suspended : ℕ
  activeWorkers : ℕ
  deriving DecidableEq

/-- A row of the status of the workers. -/
structure WorkerRow where
  workerId : WorkerId
  queue : String
  tasksInFlight : ℕ
  deriving DecidableEq

/-- `status IN ('pending', 'running', 'suspended')`. -/
def TaskStatus.isUnfinished : TaskStatus → Bool
  | .pending | .running | .suspended => true
  | .completed | .failed | .cancelled => false

/-- `COUNT(*) FILTER (WHERE status = ..)`. -/
def countStatus (status : TaskStatus) (group : List TaskRow) : ℕ :=
  group.countP fun r => decide (r.status = status)

/-- The columns of a group. -/
def queueStatsRow (queue : String) (region : Option String) (group : List TaskRow) :
    QueueStatsRow where
  queue
  region
  pending := countStatus .pending group
  running := countStatus .running group
  suspended := countStatus .suspended group
  activeWorkers := distinct TaskRow.claimedBy (group.filter fun r => decide (r.status = .running))

/-- `GROUP BY queue, region`, or `GROUP BY queue` with no region. -/
def statsGroups (byRegion : Bool) (rows : List TaskRow) :
    List ((String × Option String) × List TaskRow) :=
  if byRegion then groupBy (fun r => (r.queue, r.region)) rows
  else (groupBy TaskRow.queue rows).map fun g => ((g.1, none), g.2)

/-- `HAVING COUNT(*) FILTER (WHERE status IN ('pending', 'running', 'suspended')) > 0`. -/
def havingUnfinished (group : List TaskRow) : Bool :=
  decide (0 < group.countP fun r => r.status.isUnfinished)

section Queries

-- how the database orders texts
variable (collate : String → String → Bool)

/-- `ORDER BY queue, region`: a row without region comes last. -/
def statsBefore (x y : QueueStatsRow) : Bool :=
  if x.queue = y.queue then
    match x.region, y.region with
    | _, none => true
    | none, some _ => false
    | some a, some b => collate a b
  else collate x.queue y.queue

/-- The statistics query. -/
def selectQueueStats (byRegion : Bool) (rows : List TaskRow) : List QueueStatsRow :=
  (((statsGroups byRegion rows).filter fun g => havingUnfinished g.2).map
    fun g => queueStatsRow g.1.1 g.1.2 g.2).insertionSort fun x y => statsBefore collate x y = true

/-- `WHERE status = 'running' AND claimed_by IS NOT NULL`: the worker and the queue of a row. -/
def TaskRow.held (r : TaskRow) : Option (WorkerId × String) :=
  if r.status = .running then r.claimedBy.map fun w => (w, r.queue) else none

/-- `ORDER BY queue, claimed_by`. -/
def workerBefore (x y : WorkerRow) : Bool :=
  if x.queue = y.queue then decide (x.workerId.uuid ≤ y.workerId.uuid) else collate x.queue y.queue

/-- The query for the workers. -/
def selectWorkers (rows : List TaskRow) : List WorkerRow :=
  ((groupBy id (rows.filterMap TaskRow.held)).map
    fun g => (⟨g.1.1, g.1.2, g.2.length⟩ : WorkerRow)).insertionSort
      fun x y => workerBefore collate x y = true

def QueueStatistics.tryFrom (row : QueueStatsRow) : Except RepoError QueueStatistics := do
  let queue ← (QueueName.tryFrom row.queue).mapError fun e =>
    mappingError (.value "invalid queue name in stats" e)
  return {
    queue
    region := row.region
    pending := row.pending
    running := row.running
    suspended := row.suspended
    activeWorkers := row.activeWorkers }

def WorkerStatus.tryFrom (row : WorkerRow) : Except RepoError WorkerStatus := do
  let queue ← (QueueName.tryFrom row.queue).mapError fun e =>
    mappingError (.value "invalid queue name in worker status" e)
  return { workerId := row.workerId, queue, tasksInFlight := row.tasksInFlight }

def queueStatistics (t : Table TaskRow.id) (byRegion : Bool) :
    Except RepoError (List QueueStatistics) :=
  (selectQueueStats collate byRegion t.rows).mapM QueueStatistics.tryFrom

def workerStatus (t : Table TaskRow.id) : Except RepoError (List WorkerStatus) :=
  (selectWorkers collate t.rows).mapM WorkerStatus.tryFrom

end Queries

/-! ## Views -/

/-- A column of the statistics of a queue, summed up over its regions. -/
def sumOf (column : QueueStatistics → ℕ) (queue : QueueName) (stats : List QueueStatistics) : ℕ :=
  ((stats.filter fun s => decide (s.queue = queue)).map column).sum

/-- The queue has a task that is not finished. -/
def IsListed (t : Table TaskRow.id) (queue : QueueName) : Prop :=
  ∃ r ∈ t.rows, r.queue = queue.asStr ∧ r.status.isUnfinished = true

/-- The views by queue, by region and by worker are consistent. -/
structure StatisticsAgree (t : Table TaskRow.id) (stats regional : List QueueStatistics)
    (workers : List WorkerStatus) : Prop where
  listed : ∀ q, (∃ s ∈ stats, s.queue = q) ↔ IsListed t q
  regionalListed : ∀ q, (∃ s ∈ regional, s.queue = q) ↔ IsListed t q
  once : (stats.map QueueStatistics.queue).Nodup
  regionalOnce : (regional.map fun s => (s.queue, s.region)).Nodup
  counts : ∀ s ∈ stats, s.pending = sumOf QueueStatistics.pending s.queue regional ∧
    s.running = sumOf QueueStatistics.running s.queue regional ∧
    s.suspended = sumOf QueueStatistics.suspended s.queue regional
  atLeast : ∀ s ∈ stats, ∀ x ∈ regional, x.queue = s.queue → x.activeWorkers ≤ s.activeWorkers
  atMost : ∀ s ∈ stats, s.activeWorkers ≤ sumOf QueueStatistics.activeWorkers s.queue regional
  workerRows : ∀ s ∈ stats,
    (workers.filter fun w => decide (w.queue = s.queue)).length = s.activeWorkers
  inFlight : ∀ s ∈ stats,
    ((workers.filter fun w => decide (w.queue = s.queue)).map WorkerStatus.tasksInFlight).sum =
      s.running

/-! ## Groups of rows -/

/-- The key of a row in the statistics. -/
def statsKey (byRegion : Bool) (r : TaskRow) : String × Option String :=
  (r.queue, if byRegion then r.region else none)

theorem statsGroups_eq (byRegion : Bool) (rows : List TaskRow) :
    statsGroups byRegion rows = groupBy (statsKey byRegion) rows := by
  cases byRegion with
  | true => rfl
  | false => exact (groupBy_comp (fun _ _ h => (Prod.mk.inj h).1) TaskRow.queue rows).symm

section Rows

variable {collate : String → String → Bool} {byRegion : Bool} {rows : List TaskRow} {q : String}

/-- The rows of the statistics are those of the groups with an unfinished task. -/
theorem perm_selectQueueStats (collate : String → String → Bool) (byRegion : Bool)
    (rows : List TaskRow) : (selectQueueStats collate byRegion rows).Perm
      (((groupBy (statsKey byRegion) rows).filter fun g => havingUnfinished g.2).map
        fun g => queueStatsRow g.1.1 g.1.2 g.2) := by
  unfold selectQueueStats
  rw [statsGroups_eq]
  exact List.perm_insertionSort _ _

theorem mem_selectQueueStats {x : QueueStatsRow} : x ∈ selectQueueStats collate byRegion rows ↔
    ∃ g ∈ groupBy (statsKey byRegion) rows, havingUnfinished g.2 = true ∧
      queueStatsRow g.1.1 g.1.2 g.2 = x := by
  rw [(perm_selectQueueStats collate byRegion rows).mem_iff, List.mem_map]
  simp only [List.mem_filter, and_assoc]

/-- A group has an unfinished task. -/
theorem havingUnfinished_iff {group : List TaskRow} :
    havingUnfinished group = true ↔ ∃ r ∈ group, r.status.isUnfinished = true := by
  rw [havingUnfinished, decide_eq_true_eq, List.countP_pos_iff]

/-- An unfinished row is in a group that is not left out. -/
theorem having_groupOf (byRegion : Bool) {r : TaskRow} (hr : r ∈ rows)
    (h : r.status.isUnfinished = true) :
    havingUnfinished (groupOf (statsKey byRegion) rows r).2 = true :=
  havingUnfinished_iff.mpr ⟨r, List.mem_filter.mpr ⟨hr, decide_eq_true rfl⟩, h⟩

/-- **The listed queues are those with an unfinished task**, by region or not. -/
theorem exists_row_iff (collate : String → String → Bool) (byRegion : Bool) :
    (∃ x ∈ selectQueueStats collate byRegion rows, x.queue = q) ↔
      ∃ r ∈ rows, r.queue = q ∧ r.status.isUnfinished = true := by
  constructor
  · rintro ⟨x, hx, rfl⟩
    obtain ⟨g, hg, hhaving, rfl⟩ := mem_selectQueueStats.mp hx
    obtain ⟨r, hr, hs⟩ := havingUnfinished_iff.mp hhaving
    rw [group_eq hg] at hr
    obtain ⟨hr, hkey⟩ := List.mem_filter.mp hr
    exact ⟨r, hr, congrArg Prod.fst (of_decide_eq_true hkey), hs⟩
  · rintro ⟨r, hr, rfl, hs⟩
    exact ⟨_, mem_selectQueueStats.mpr ⟨groupOf (statsKey byRegion) rows r, groupOf_mem hr,
      having_groupOf byRegion hr hs, rfl⟩, rfl⟩

/-- No queue, or region of a queue, is listed twice. -/
theorem nodup_selectQueueStats (collate : String → String → Bool) (byRegion : Bool)
    (rows : List TaskRow) :
    ((selectQueueStats collate byRegion rows).map fun x => (x.queue, x.region)).Nodup := by
  apply (((perm_selectQueueStats collate byRegion rows).map _).nodup_iff).mpr
  rw [List.map_map]
  exact nodup_keys_filter fun g => havingUnfinished g.2

/-- The groups of a queue that are not left out. -/
def ofQueue (q : String) (g : (String × Option String) × List TaskRow) : Bool :=
  havingUnfinished g.2 && decide (g.1.1 = q)

/-- A column of the statistics of a queue, summed up over its rows, by their groups. -/
theorem sum_selectQueueStats (collate : String → String → Bool) (column : QueueStatsRow → ℕ) :
    (((selectQueueStats collate byRegion rows).filter fun x =>
        decide (x.queue = q)).map column).sum =
      (((groupBy (statsKey byRegion) rows).filter (ofQueue q)).map
        fun g => column (queueStatsRow g.1.1 g.1.2 g.2)).sum := by
  rw [(((perm_selectQueueStats collate byRegion rows).filter _).map column).sum_eq, List.filter_map,
    List.map_map, List.filter_filter]
  congr 3
  ext g
  exact Bool.and_comm _ _

/-- The tasks of a queue. -/
def queueRows (rows : List TaskRow) (q : String) : List TaskRow :=
  rows.filter fun r => decide (r.queue = q)

/-- **The counts of unfinished tasks sum up to the count of the queue.** -/
theorem sum_countStatus {status : TaskStatus} (hs : status.isUnfinished = true) :
    (((groupBy (statsKey byRegion) rows).filter (ofQueue q)).map
      fun g => countStatus status g.2).sum = countStatus status (queueRows rows q) := by
  unfold countStatus queueRows
  rw [sum_countP_filter, List.countP_filter]
  apply List.countP_congr
  intro r hr
  by_cases hstatus : r.status = status
  · -- its group is not left out
    have hhaving := having_groupOf byRegion hr (hstatus ▸ hs)
    rw [decide_eq_true hstatus, Bool.true_and, Bool.true_and, ofQueue, hhaving, Bool.true_and]
    exact Iff.rfl
  · rw [decide_eq_false hstatus, Bool.false_and, Bool.false_and]

/-- A group has rows of its queue. -/
theorem group_subset {g : (String × Option String) × List TaskRow}
    (hg : g ∈ groupBy (statsKey byRegion) rows) : g.2 ⊆ queueRows rows g.1.1 := by
  intro r hr
  rw [group_eq hg] at hr
  obtain ⟨hr, hkey⟩ := List.mem_filter.mp hr
  exact List.mem_filter.mpr ⟨hr, decide_eq_true (congrArg Prod.fst (of_decide_eq_true hkey))⟩

/-- The rows of a queue are its group, where there are no regions. -/
theorem group_of_queue {g : (String × Option String) × List TaskRow}
    (hg : g ∈ groupBy (statsKey false) rows) : g.2 = queueRows rows g.1.1 := by
  obtain ⟨⟨r, -, hkey⟩, hgroup⟩ := mem_groupBy.mp hg
  rw [hgroup]
  apply List.filter_congr
  intro w _
  rw [decide_eq_decide, ← hkey]
  constructor
  · exact congrArg Prod.fst
  · intro h
    exact Prod.ext h rfl

/-- The worker that a row counts for. -/
def TaskRow.worker (r : TaskRow) : Option WorkerId :=
  if r.status = .running then r.claimedBy else none

theorem activeWorkers_eq (queue : String) (region : Option String) (group : List TaskRow) :
    (queueStatsRow queue region group).activeWorkers = distinct TaskRow.worker group := by
  show distinct TaskRow.claimedBy (group.filter fun r => decide (r.status = .running)) = _
  unfold distinct
  rw [List.filterMap_filter]
  simp only [decide_eq_true_eq]
  rfl

theorem running_of_worker {r : TaskRow} (h : r.worker.isSome = true) : r.status = .running := by
  by_contra hs
  rw [TaskRow.worker, if_neg hs] at h
  cases h

/-- The active workers of a group are among those of its queue. -/
theorem distinct_group_le {g : (String × Option String) × List TaskRow}
    (hg : g ∈ groupBy (statsKey byRegion) rows) :
    distinct TaskRow.worker g.2 ≤ distinct TaskRow.worker (queueRows rows g.1.1) :=
  distinct_mono fun _ hr _ => group_subset hg hr

/-- **The active workers of a queue are at most those of its groups together.** -/
theorem distinct_queue_le :
    distinct TaskRow.worker (queueRows rows q) ≤
      (((groupBy (statsKey byRegion) rows).filter (ofQueue q)).map
        fun g => distinct TaskRow.worker g.2).sum := by
  refine le_trans (distinct_mono fun r hr hworker => ?_) (distinct_le_sum_filter (ofQueue q))
  obtain ⟨hr, hqueue⟩ := List.mem_filter.mp hr
  have hs : r.status.isUnfinished = true := by
    rw [running_of_worker hworker]
    rfl
  refine List.mem_filter.mpr ⟨hr, ?_⟩
  rw [ofQueue, having_groupOf byRegion hr hs, Bool.true_and]
  exact hqueue

/-! ## Workers -/

theorem perm_selectWorkers (collate : String → String → Bool) (rows : List TaskRow) :
    (selectWorkers collate rows).Perm ((groupBy id (rows.filterMap TaskRow.held)).map
      fun g => ⟨g.1.1, g.1.2, g.2.length⟩) :=
  List.perm_insertionSort _ _

theorem held_eq_some_iff {r : TaskRow} {w : WorkerId} :
    r.held = some (w, q) ↔ r.worker = some w ∧ r.queue = q := by
  unfold TaskRow.held TaskRow.worker
  by_cases hs : r.status = .running
  · rw [if_pos hs, if_pos hs, Option.map_eq_some_iff]
    constructor
    · rintro ⟨w', hw, heq⟩
      cases heq
      exact ⟨hw, rfl⟩
    · rintro ⟨hw, rfl⟩
      exact ⟨w, hw, rfl⟩
  · rw [if_neg hs, if_neg hs]
    exact iff_of_false nofun fun h => nomatch h.1

/-- The claims of a queue are those of its workers. -/
theorem mem_held_iff {w : WorkerId} :
    (w, q) ∈ rows.filterMap TaskRow.held ↔ w ∈ (queueRows rows q).filterMap TaskRow.worker := by
  rw [List.mem_filterMap, List.mem_filterMap]
  constructor
  · rintro ⟨r, hr, hheld⟩
    obtain ⟨hw, hq⟩ := held_eq_some_iff.mp hheld
    exact ⟨r, List.mem_filter.mpr ⟨hr, decide_eq_true hq⟩, hw⟩
  · rintro ⟨r, hr, hw⟩
    obtain ⟨hr, hq⟩ := List.mem_filter.mp hr
    exact ⟨r, hr, held_eq_some_iff.mpr ⟨hw, of_decide_eq_true hq⟩⟩

/-- **A queue has a row for each of its active workers.** -/
theorem length_selectWorkers (collate : String → String → Bool) (rows : List TaskRow) (q : String) :
    ((selectWorkers collate rows).filter fun x => decide (x.queue = q)).length =
      distinct TaskRow.worker (queueRows rows q) := by
  let claims := rows.filterMap TaskRow.held
  have hkeys : ((selectWorkers collate rows).filter fun x => decide (x.queue = q)).length =
      (claims.dedup.filter fun k => decide (k.2 = q)).length := by
    have hfst : (groupBy id claims).map Prod.fst = claims.dedup := by
      rw [keys_groupBy, List.map_id]
    rw [((perm_selectWorkers collate rows).filter _).length_eq, List.filter_map, List.length_map,
      ← hfst, List.filter_map, List.length_map]
    rfl
  have hworkers : distinct TaskRow.worker (queueRows rows q) =
      (((queueRows rows q).filterMap TaskRow.worker).dedup.map fun w => (w, q)).length :=
    (List.length_map _).symm
  rw [hkeys, hworkers]
  -- the keys of the queue are its workers
  refine List.Perm.length_eq ((List.perm_ext_iff_of_nodup ?_ ?_).mpr ?_)
  · exact (List.nodup_dedup _).filter _
  · exact (List.nodup_dedup _).map fun _ _ h => (Prod.mk.inj h).1
  · rintro ⟨w, q'⟩
    rw [List.mem_filter, List.mem_dedup, List.mem_map, decide_eq_true_eq]
    constructor
    · rintro ⟨hmem, rfl⟩
      exact ⟨w, List.mem_dedup.mpr (mem_held_iff.mp hmem), rfl⟩
    · rintro ⟨w', hmem, heq⟩
      cases heq
      exact ⟨mem_held_iff.mpr (List.mem_dedup.mp hmem), rfl⟩

/-- **The tasks in flight are the running tasks of the queue**, each of which is claimed. -/
theorem sum_selectWorkers (collate : String → String → Bool) (q : String)
    (hclaimed : ∀ r ∈ rows, r.status = .running → r.claimedBy.isSome = true) :
    (((selectWorkers collate rows).filter fun x => decide (x.queue = q)).map
      WorkerRow.tasksInFlight).sum = countStatus .running (queueRows rows q) := by
  have hlength : ∀ group : List (WorkerId × String), group.countP (fun _ => true) = group.length :=
    fun group => congrFun List.countP_true group
  have hsum : (((groupBy id (rows.filterMap TaskRow.held)).filter fun g => decide (g.1.2 = q)).map
      fun g => g.2.countP fun _ => true).sum =
        (rows.filterMap TaskRow.held).countP fun k => true && decide (k.2 = q) :=
    sum_countP_filter _ _
  simp only [hlength] at hsum
  rw [(((perm_selectWorkers collate rows).filter _).map WorkerRow.tasksInFlight).sum_eq,
    List.filter_map, List.map_map]
  apply Eq.trans hsum
  rw [List.countP_filterMap, countStatus, queueRows, List.countP_filter]
  apply List.countP_congr
  intro r hr
  by_cases hs : r.status = .running
  · -- the claim of the row counts for its queue
    obtain ⟨w, hw⟩ := Option.isSome_iff_exists.mp (hclaimed r hr hs)
    have hheld : r.held = some (w, r.queue) := by
      rw [TaskRow.held, if_pos hs, hw]
      rfl
    rw [hheld, decide_eq_true hs]
    exact Iff.rfl
  · have hheld : r.held = none := if_neg hs
    rw [hheld, decide_eq_false hs]
    exact Iff.rfl

/-- Without regions, a row of the statistics counts all rows of its queue. -/
theorem eq_queueStatsRow {x : QueueStatsRow} (hx : x ∈ selectQueueStats collate false rows) :
    x = queueStatsRow x.queue none (queueRows rows x.queue) := by
  obtain ⟨g, hg, -, rfl⟩ := mem_selectQueueStats.mp hx
  obtain ⟨⟨r, -, hkey⟩, -⟩ := mem_groupBy.mp hg
  have hregion : g.1.2 = none := congrArg Prod.snd hkey.symm
  show queueStatsRow g.1.1 g.1.2 g.2 = queueStatsRow g.1.1 none (queueRows rows g.1.1)
  rw [← group_of_queue hg, hregion]

end Rows

/-! ## Decoding -/

/-- The row that the statistics are decoded from. -/
def QueueStatistics.row (s : QueueStatistics) : QueueStatsRow where
  queue := s.queue.asStr
  region := s.region
  pending := s.pending
  running := s.running
  suspended := s.suspended
  activeWorkers := s.activeWorkers

/-- The row that the status of a worker is decoded from. -/
def WorkerStatus.row (s : WorkerStatus) : WorkerRow where
  workerId := s.workerId
  queue := s.queue.asStr
  tasksInFlight := s.tasksInFlight

theorem QueueStatistics.tryFrom_row (s : QueueStatistics) : tryFrom s.row = .ok s := by
  unfold tryFrom QueueStatistics.row
  rw [QueueName.tryFrom_asStr]
  rfl

theorem WorkerStatus.tryFrom_row (s : WorkerStatus) : tryFrom s.row = .ok s := by
  unfold tryFrom WorkerStatus.row
  rw [QueueName.tryFrom_asStr]
  rfl

/-- Rows that can be decoded are decoded, one by one. -/
theorem exists_mapM_of_range {α β ε : Type} {f : α → Except ε β} {row : β → α}
    (hrow : ∀ b, f (row b) = .ok b) {as : List α} (h : ∀ a ∈ as, a ∈ Set.range row) :
    ∃ bs, as.mapM f = .ok bs ∧ bs.map row = as := by
  obtain ⟨bs, rfl⟩ : as ∈ Set.range (List.map row) := by
    rw [Set.range_list_map]
    exact h
  refine ⟨bs, mapM_of_forall₂ ?_, rfl⟩
  rw [List.forall₂_map_left_iff, List.forall₂_same]
  exact fun b _ => hrow b

section Decoding

variable {collate : String → String → Bool} {byRegion : Bool} {t : Table TaskRow.id}

theorem exists_queueStatistics (hvalid : ∀ r ∈ t.rows, r.Valid) (collate : String → String → Bool)
    (byRegion : Bool) : ∃ stats, queueStatistics collate t byRegion = .ok stats ∧
      stats.map QueueStatistics.row = selectQueueStats collate byRegion t.rows := by
  apply exists_mapM_of_range QueueStatistics.tryFrom_row
  intro x hx
  obtain ⟨r, hr, hqueue, -⟩ := (exists_row_iff collate byRegion).mp ⟨x, hx, rfl⟩
  have hname : QueueName.validate x.queue = .ok () := hqueue ▸ (hvalid r hr).queue
  exact ⟨⟨⟨x.queue, hname⟩, x.region, x.pending, x.running, x.suspended, x.activeWorkers⟩, rfl⟩

theorem exists_workerStatus (hvalid : ∀ r ∈ t.rows, r.Valid) (collate : String → String → Bool) :
    ∃ workers, workerStatus collate t = .ok workers ∧
      workers.map WorkerStatus.row = selectWorkers collate t.rows := by
  apply exists_mapM_of_range WorkerStatus.tryFrom_row
  intro x hx
  obtain ⟨g, hg, rfl⟩ := List.mem_map.mp ((perm_selectWorkers collate t.rows).mem_iff.mp hx)
  -- the group has a row, whose queue is its own
  obtain ⟨⟨k, hk, hkey⟩, -⟩ := mem_groupBy.mp hg
  obtain ⟨r, hr, hheld⟩ := List.mem_filterMap.mp hk
  obtain ⟨-, hqueue⟩ := held_eq_some_iff.mp hheld
  have hname : QueueName.validate g.1.2 = .ok () := by
    rw [← hkey, id, ← hqueue]
    exact (hvalid r hr).queue
  exact ⟨⟨g.1.1, ⟨g.1.2, hname⟩, g.2.length⟩, rfl⟩

theorem asStr_eq_iff {p q : QueueName} : p.asStr = q.asStr ↔ p = q := by
  cases p
  cases q
  simp only [QueueName.mk.injEq]

/-- The rows of a queue are decoded to its statistics. -/
theorem filter_eq_map_row {α β : Type} (queue : α → String) (name : β → QueueName)
    {row : β → α} (hname : ∀ b, queue (row b) = (name b).asStr) {as : List α} {bs : List β}
    (h : bs.map row = as) (q : QueueName) :
    (as.filter fun a => decide (queue a = q.asStr)) =
      (bs.filter fun b => decide (name b = q)).map row := by
  rw [← h, List.filter_map]
  refine congrArg (List.map row) (List.filter_congr fun b _ => ?_)
  rw [Function.comp_apply, decide_eq_decide, hname, asStr_eq_iff]

variable {stats : List QueueStatistics} {workers : List WorkerStatus} {q : QueueName}

theorem sumOf_eq (h : stats.map QueueStatistics.row = selectQueueStats collate byRegion t.rows)
    (column : QueueStatsRow → ℕ) : sumOf (fun s => column s.row) q stats =
      (((groupBy (statsKey byRegion) t.rows).filter (ofQueue q.asStr)).map
        fun g => column (queueStatsRow g.1.1 g.1.2 g.2)).sum := by
  have hq : ((selectQueueStats collate byRegion t.rows).filter fun x =>
      decide (x.queue = q.asStr)) =
        (stats.filter fun s => decide (s.queue = q)).map QueueStatistics.row :=
    filter_eq_map_row QueueStatsRow.queue QueueStatistics.queue (fun _ => rfl) h q
  rw [← sum_selectQueueStats collate column, hq, List.map_map]
  rfl

theorem listed_iff (h : stats.map QueueStatistics.row = selectQueueStats collate byRegion t.rows) :
    (∃ s ∈ stats, s.queue = q) ↔ IsListed t q := by
  unfold IsListed
  rw [← exists_row_iff collate byRegion, ← h]
  constructor
  · rintro ⟨s, hs, rfl⟩
    exact ⟨s.row, List.mem_map_of_mem hs, rfl⟩
  · rintro ⟨x, hx, hqueue⟩
    obtain ⟨s, hs, rfl⟩ := List.mem_map.mp hx
    exact ⟨s, hs, asStr_eq_iff.mp hqueue⟩

theorem nodup_queueStatistics
    (h : stats.map QueueStatistics.row = selectQueueStats collate byRegion t.rows) :
    (stats.map fun s => (s.queue, s.region)).Nodup := by
  have hrows := nodup_selectQueueStats collate byRegion t.rows
  rw [← h, List.map_map] at hrows
  apply List.Nodup.of_map (fun k : QueueName × Option String => (k.1.asStr, k.2))
  rw [List.map_map]
  exact hrows

/-- Statistics by queue count all rows of the queue. -/
theorem row_eq (h : stats.map QueueStatistics.row = selectQueueStats collate false t.rows)
    {s : QueueStatistics} (hs : s ∈ stats) :
    s.row = queueStatsRow s.queue.asStr none (queueRows t.rows s.queue.asStr) :=
  eq_queueStatsRow (h ▸ List.mem_map_of_mem hs : s.row ∈ selectQueueStats collate false t.rows)

theorem activeWorkers_of_row {s : QueueStatistics} {queue : String} {region : Option String}
    {group : List TaskRow} (h : s.row = queueStatsRow queue region group) :
    s.activeWorkers = distinct TaskRow.worker group :=
  (congrArg QueueStatsRow.activeWorkers h).trans (activeWorkers_eq ..)

theorem workers_of_queue (h : workers.map WorkerStatus.row = selectWorkers collate t.rows) :
    ((selectWorkers collate t.rows).filter fun x => decide (x.queue = q.asStr)) =
      (workers.filter fun w => decide (w.queue = q)).map WorkerStatus.row :=
  filter_eq_map_row WorkerRow.queue WorkerStatus.queue (fun _ => rfl) h q

/-- The rules of the three views hold where the running rows are claimed. -/
theorem statisticsAgree {regional : List QueueStatistics}
    (hclaimed : ∀ r ∈ t.rows, r.status = .running → r.claimedBy.isSome = true)
    (hstats : stats.map QueueStatistics.row = selectQueueStats collate false t.rows)
    (hregional : regional.map QueueStatistics.row = selectQueueStats collate true t.rows)
    (hworkers : workers.map WorkerStatus.row = selectWorkers collate t.rows) :
    StatisticsAgree t stats regional workers where
  listed _ := listed_iff hstats
  regionalListed _ := listed_iff hregional
  once := by
    -- there is no region to tell two rows apart
    have hregion : (stats.map fun s => (s.queue, s.region)) =
        (stats.map QueueStatistics.queue).map fun q => (q, none) := by
      rw [List.map_map]
      apply List.map_congr_left
      intro s hs
      exact Prod.ext rfl (congrArg QueueStatsRow.region (row_eq hstats hs))
    have hnodup := nodup_queueStatistics hstats
    rw [hregion] at hnodup
    exact hnodup.of_map _
  regionalOnce := nodup_queueStatistics hregional
  counts s hs := by
    have hrow := row_eq hstats hs
    refine ⟨?_, ?_, ?_⟩
    · exact (congrArg QueueStatsRow.pending hrow).trans
        ((sumOf_eq hregional QueueStatsRow.pending).trans (sum_countStatus rfl)).symm
    · exact (congrArg QueueStatsRow.running hrow).trans
        ((sumOf_eq hregional QueueStatsRow.running).trans (sum_countStatus rfl)).symm
    · exact (congrArg QueueStatsRow.suspended hrow).trans
        ((sumOf_eq hregional QueueStatsRow.suspended).trans (sum_countStatus rfl)).symm
  atLeast s hs x hx hqueue := by
    obtain ⟨g, hg, -, hgroup⟩ := mem_selectQueueStats.mp (hregional ▸ List.mem_map_of_mem hx)
    have hkey : g.1.1 = s.queue.asStr := by
      rw [← hqueue]
      exact congrArg QueueStatsRow.queue hgroup
    calc x.activeWorkers
        = distinct TaskRow.worker g.2 := activeWorkers_of_row hgroup.symm
      _ ≤ distinct TaskRow.worker (queueRows t.rows s.queue.asStr) :=
          hkey ▸ distinct_group_le hg
      _ = s.activeWorkers := (activeWorkers_of_row (row_eq hstats hs)).symm
  atMost s hs := by
    have hsum := sumOf_eq (q := s.queue) hregional QueueStatsRow.activeWorkers
    simp only [activeWorkers_eq] at hsum
    rw [activeWorkers_of_row (row_eq hstats hs)]
    exact distinct_queue_le.trans (Nat.le_of_eq hsum.symm)
  workerRows s hs := by
    have hlength := length_selectWorkers collate t.rows s.queue.asStr
    rw [workers_of_queue hworkers, List.length_map] at hlength
    exact hlength.trans (activeWorkers_of_row (row_eq hstats hs)).symm
  inFlight s hs := by
    have hsum := sum_selectWorkers collate s.queue.asStr hclaimed
    rw [workers_of_queue hworkers, List.map_map] at hsum
    exact hsum.trans (congrArg QueueStatsRow.running (row_eq hstats hs)).symm

end Decoding

/-- **The three views of the statistics are consistent in every store** that a run of the scheduler
reaches. -/
theorem statistics_agree (collate : String → String → Bool) {os : List Outcome} {db : System}
    (h : Runs Enqueuing .empty os db) : ∃ stats regional workers,
      queueStatistics collate db.table false = .ok stats ∧
      queueStatistics collate db.table true = .ok regional ∧
      workerStatus collate db.table = .ok workers ∧
      StatisticsAgree db.table stats regional workers := by
  have hvalid : ∀ r ∈ db.table.rows, r.Valid := h.valid.1
  have hformed := h.wellFormed_enqueued fun _ hc => hc
  obtain ⟨stats, hstats, hrows⟩ := exists_queueStatistics hvalid collate false
  obtain ⟨regional, hregional, hregionalRows⟩ := exists_queueStatistics hvalid collate true
  obtain ⟨workers, hworkers, hworkerRows⟩ := exists_workerStatus hvalid collate
  refine ⟨stats, regional, workers, hstats, hregional, hworkers, ?_⟩
  exact statisticsAgree (fun r hr hs => ((hformed r hr).running hs).1) hrows hregionalRows
    hworkerRows

/-- A claimed task is counted by its queue, its region and its worker. -/
theorem claimed_counted : ∃ stats regional workers,
    queueStatistics (fun a b => decide (a ≤ b)) (System.after (claimedMoves .default)).table false =
      .ok stats ∧
    queueStatistics (fun a b => decide (a ≤ b)) (System.after (claimedMoves .default)).table true =
      .ok regional ∧
    workerStatus (fun a b => decide (a ≤ b)) (System.after (claimedMoves .default)).table =
      .ok workers ∧
    StatisticsAgree (System.after (claimedMoves .default)).table stats regional workers := by
  have hsaves : Runs (Calls (Call.SavesOnly [sampleTask .default])) .empty
      (System.shown (claimedMoves .default)) (System.after (claimedMoves .default)) :=
    Runs.of_moves (claimedMoves .default) (by decide +kernel) (by decide +kernel)
  exact statistics_agree _ (hsaves.enqueuing (by simpa using enqueued_sampleTask _))

end IronDefer
