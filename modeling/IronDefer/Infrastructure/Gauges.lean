import IronDefer.Infrastructure.Statistics
import IronDefer.Infrastructure.Listing
import IronDefer.RowStore.Cached

/-!
# The gauges of pending and running tasks

The gauges show how many tasks of each queue are pending and running. A background task counts them
from time to time, in one query, and replaces a snapshot; the gauges are read from the snapshot
whenever metrics are collected, each by itself. Where a query fails, the snapshot stays as it is.

## Main definitions

* `selectTaskCounts`: the query for the counts
* `TaskCountSnapshot`, `refreshOnce`: the snapshot, and what is made of the answer of the query
* `TaskCountSnapshot.Shows`: the series of the gauges are the counts of the rows
* `Gauges`: a database with the snapshot, and the loop that refreshes it
* `arrivals`, `departures`: the tasks that have come into a status, and have left it

## Main results

* `shows_refreshOnce`: every answer of the query makes a snapshot that shows the table
* `TaskCountSnapshot.Shows.agrees`: the gauges agree with the statistics of the queues
* `gauges_lag`: **the gauges show one instant after the other**, and lag behind by what has been
  committed since
-/

namespace IronDefer

open RowStore

/-! ## The query -/

/-- A row of the counts, with the text of the status. -/
structure TaskCountRow where
  queue : String
  status : String
  count : Int
  deriving DecidableEq

/-- `status IN ('pending', 'running')`. -/
def TaskStatus.isGauged : TaskStatus → Bool
  | .pending | .running => true
  | .suspended | .completed | .failed | .cancelled => false

/-- `SELECT queue, status, count(*) .. GROUP BY queue, status`, in some order. -/
def selectTaskCounts (rows : List TaskRow) : List TaskCountRow :=
  (groupBy (fun r => (r.queue, statusToStr r.status)) (rows.filter fun r => r.status.isGauged)).map
    fun g => ⟨g.1.1, g.1.2, g.2.length⟩

/-- The answers of the query: the order of the groups is not specified. -/
def answersTaskCounts (db : System) (answer : List TaskCountRow) : Bool :=
  decide (answer.Perm (selectTaskCounts db.table.rows))

/-! ## The snapshot -/

/-- The series of the two gauges: a count for each queue. -/
structure TaskCountSnapshot where
  pending : List (String × ℕ)
  running : List (String × ℕ)
  deriving DecidableEq

namespace TaskCountSnapshot

/-- The snapshot before the first refresh. -/
def default : TaskCountSnapshot := ⟨[], []⟩

/-- A row is added to the gauge of its status. A count that is negative is taken as zero. -/
def push (x : TaskCountSnapshot) (row : TaskCountRow) : TaskCountSnapshot :=
  if row.status = "pending" then { x with pending := x.pending ++ [(row.queue, row.count.toNat)] }
  else if row.status = "running" then
    { x with running := x.running ++ [(row.queue, row.count.toNat)] }
  else x

/-- The series of the gauge of a status. -/
def series (x : TaskCountSnapshot) : TaskStatus → List (String × ℕ)
  | .pending => x.pending
  | .running => x.running
  | .suspended | .completed | .failed | .cancelled => []

/-- What the gauge of a status shows for a queue: nothing counts as zero. -/
def reading (x : TaskCountSnapshot) (s : TaskStatus) (queue : String) : ℕ :=
  (((x.series s).find? fun y => decide (y.1 = queue)).map Prod.snd).getD 0

/-- The gauges show the counts of the rows, each queue once, and no queue that has none. -/
structure Shows (x : TaskCountSnapshot) (rows : List TaskRow) : Prop where
  mem_series : ∀ s, s.isGauged = true → ∀ queue n, (queue, n) ∈ x.series s ↔
    0 < n ∧ n = countStatus s (queueRows rows queue)
  once : ∀ s, ((x.series s).map Prod.fst).Nodup

end TaskCountSnapshot

/-- `refresh_once`: what is made of the answer of the query. -/
def refreshOnce (rows : List TaskCountRow) : TaskCountSnapshot :=
  rows.foldl TaskCountSnapshot.push .default

/-! ## What the answers show -/

section Shows

variable {x : TaskCountSnapshot} {answer : List TaskCountRow} {rows : List TaskRow}
  {s : TaskStatus} {queue : String}

/-- A row is added to the series of its status, and to no other. -/
theorem series_push (hs : s.isGauged = true) (x : TaskCountSnapshot) (row : TaskCountRow) :
    (x.push row).series s = x.series s ++
      if row.status = statusToStr s then [(row.queue, row.count.toNat)] else [] := by
  unfold TaskCountSnapshot.push
  cases s with
  | pending | running =>
    by_cases hp : row.status = "pending"
    · simp [TaskCountSnapshot.series, statusToStr, TaskStatus.asStr, hp]
    · by_cases hr : row.status = "running"
      · simp [TaskCountSnapshot.series, statusToStr, TaskStatus.asStr, hr]
      · simp [TaskCountSnapshot.series, statusToStr, TaskStatus.asStr, hp, hr]
  | suspended | completed | failed | cancelled => cases hs

/-- The rows of a gauge among the answer. -/
def rowsOf (s : TaskStatus) (answer : List TaskCountRow) : List TaskCountRow :=
  answer.filter fun row => decide (row.status = statusToStr s)

theorem series_foldl_push (hs : s.isGauged = true) (x : TaskCountSnapshot)
    (answer : List TaskCountRow) : (answer.foldl TaskCountSnapshot.push x).series s =
      x.series s ++ (rowsOf s answer).map fun row => (row.queue, row.count.toNat) := by
  induction answer generalizing x with
  | nil => exact (List.append_nil _).symm
  | cons row answer ih =>
    rw [List.foldl_cons, ih, series_push hs, List.append_assoc, rowsOf, rowsOf, List.filter_cons]
    by_cases hrow : row.status = statusToStr s
    · simp [hrow]
    · simp [hrow]

/-- The series of a gauge are those of its rows. -/
theorem series_refreshOnce (hs : s.isGauged = true) (answer : List TaskCountRow) :
    (refreshOnce answer).series s =
      (rowsOf s answer).map fun row => (row.queue, row.count.toNat) := by
  rw [refreshOnce, series_foldl_push hs]
  cases s with
  | pending | running => rfl
  | suspended | completed | failed | cancelled => cases hs

/-- The group of a queue and a status has the tasks of the queue in that status. -/
theorem length_gaugedGroup (hs : s.isGauged = true) (rows : List TaskRow) (queue : String) :
    ((rows.filter fun r => r.status.isGauged).filter fun r =>
      decide ((r.queue, statusToStr r.status) = (queue, statusToStr s))).length =
        countStatus s (queueRows rows queue) := by
  unfold countStatus queueRows
  rw [List.filter_filter, ← List.countP_eq_length_filter, List.countP_filter]
  refine List.countP_congr fun r _ => ?_
  simp only [Bool.and_eq_true, decide_eq_true_eq, Prod.mk.injEq, statusToStr_eq_iff]
  constructor
  · rintro ⟨⟨hqueue, hstatus⟩, -⟩
    exact ⟨hstatus, hqueue⟩
  · rintro ⟨hstatus, hqueue⟩
    exact ⟨⟨hqueue, hstatus⟩, hstatus ▸ hs⟩

/-- A count of the query is that of a queue and a status. -/
theorem mem_selectTaskCounts (hs : s.isGauged = true) {n : ℕ} :
    (∃ row ∈ selectTaskCounts rows, row.status = statusToStr s ∧
        (row.queue, row.count.toNat) = (queue, n)) ↔
      0 < n ∧ n = countStatus s (queueRows rows queue) := by
  constructor
  · rintro ⟨row, hrow, hstatus, heq⟩
    obtain ⟨⟨⟨q, text⟩, g⟩, hg, rfl⟩ := List.mem_map.mp hrow
    obtain ⟨rfl, rfl⟩ := Prod.mk.inj heq
    obtain rfl : text = statusToStr s := hstatus
    obtain ⟨⟨r, hr, hkey⟩, hgroup⟩ := mem_groupBy.mp hg
    have hpos : 0 < g.length := by
      rw [hgroup]
      exact List.length_pos_of_mem (List.mem_filter.mpr ⟨hr, decide_eq_true hkey⟩)
    refine ⟨hpos, ?_⟩
    rw [← length_gaugedGroup hs, ← hgroup]
    rfl
  · rintro ⟨hpos, rfl⟩
    rw [← length_gaugedGroup hs] at hpos
    obtain ⟨r, hr⟩ := List.exists_mem_of_length_pos hpos
    obtain ⟨hr, hkey⟩ := List.mem_filter.mp hr
    refine ⟨_, List.mem_map.mpr ⟨_, mem_groupBy.mpr ⟨⟨r, hr, of_decide_eq_true hkey⟩, rfl⟩, rfl⟩,
      rfl, ?_⟩
    exact congrArg (Prod.mk queue) (length_gaugedGroup hs rows queue)

/-- No queue has two counts for a status. -/
theorem nodup_selectTaskCounts (rows : List TaskRow) :
    ((selectTaskCounts rows).map fun row => (row.queue, row.status)).Nodup := by
  unfold selectTaskCounts
  rw [List.map_map]
  exact nodup_keys_groupBy _ _

theorem nodup_rowsOf (h : answer.Perm (selectTaskCounts rows)) (s : TaskStatus) :
    ((rowsOf s answer).map TaskCountRow.queue).Nodup := by
  have hkeys : (answer.map fun row => (row.queue, row.status)).Nodup :=
    ((h.map _).nodup_iff).mpr (nodup_selectTaskCounts rows)
  -- the rows of a gauge have the same status
  have hstatus : ((rowsOf s answer).map fun row => (row.queue, row.status)) =
      ((rowsOf s answer).map TaskCountRow.queue).map fun queue => (queue, statusToStr s) := by
    rw [List.map_map]
    refine List.map_congr_left fun row hrow => ?_
    exact congrArg (Prod.mk row.queue) (of_decide_eq_true (List.mem_filter.mp hrow).2)
  have hsub : ((rowsOf s answer).map fun row => (row.queue, row.status)).Nodup :=
    hkeys.sublist (List.filter_sublist.map _)
  rw [hstatus] at hsub
  exact hsub.of_map _

/-- **Every answer of the query makes a snapshot that shows the table.** -/
theorem shows_refreshOnce (h : answer.Perm (selectTaskCounts rows)) :
    (refreshOnce answer).Shows rows where
  mem_series s hs queue n := by
    rw [series_refreshOnce hs, ← mem_selectTaskCounts hs, List.mem_map]
    simp only [rowsOf, List.mem_filter, decide_eq_true_eq, h.mem_iff, and_assoc]
  once s := by
    by_cases hs : s.isGauged = true
    · rw [series_refreshOnce hs, List.map_map]
      exact nodup_rowsOf h s
    · cases s with
      | pending | running => exact absurd rfl hs
      | suspended | completed | failed | cancelled => exact List.nodup_nil

/-- A gauge shows the number of tasks of the queue in its status. -/
theorem TaskCountSnapshot.Shows.reading_eq (h : x.Shows rows) (hs : s.isGauged = true)
    (queue : String) : x.reading s queue = countStatus s (queueRows rows queue) := by
  unfold TaskCountSnapshot.reading
  cases hfind : (x.series s).find? fun y => decide (y.1 = queue) with
  | some y =>
    obtain ⟨q, n⟩ := y
    have hkey := List.find?_some hfind
    obtain rfl : q = queue := of_decide_eq_true hkey
    exact ((h.mem_series s hs _ n).mp (List.mem_of_find?_eq_some hfind)).2
  | none =>
    -- a queue that has none is left out
    by_contra hne
    have hpos : 0 < countStatus s (queueRows rows queue) :=
      Nat.pos_of_ne_zero fun hzero => hne hzero.symm
    have hmem := (h.mem_series s hs queue _).mpr ⟨hpos, rfl⟩
    exact absurd (decide_eq_true rfl) (List.find?_eq_none.mp hfind _ hmem)

theorem QueueStatistics.row_of_tryFrom {row : QueueStatsRow} {y : QueueStatistics}
    (h : QueueStatistics.tryFrom row = .ok y) : y.row = row := by
  unfold QueueStatistics.tryFrom at h
  cases hqueue : (QueueName.tryFrom row.queue).mapError fun e =>
      mappingError (.value "invalid queue name in stats" e) with
  | error e =>
    rw [hqueue] at h
    cases h
  | ok queue =>
    rw [hqueue] at h
    cases h
    simp only [QueueStatistics.row, asStr_of_tryFrom hqueue]

/-- The statistics are decoded from the rows of their query. -/
theorem rows_of_queueStatistics {collate : String → String → Bool} {byRegion : Bool}
    {t : Table TaskRow.id} {stats : List QueueStatistics}
    (h : queueStatistics collate t byRegion = .ok stats) :
    stats.map QueueStatistics.row = selectQueueStats collate byRegion t.rows := by
  have hrows := (forall₂_of_mapM h).imp fun _ _ hrow =>
    (QueueStatistics.row_of_tryFrom hrow).symm
  exact (List.forall₂_eq_eq_eq.symm ▸ List.forall₂_map_right_iff.mpr hrows).symm

/-- **The gauges agree with the statistics of the queues**, of the same rows: they show the same
numbers, and no queue that the statistics leave out. -/
theorem TaskCountSnapshot.Shows.agrees {collate : String → String → Bool} {t : Table TaskRow.id}
    {stats : List QueueStatistics} (h : x.Shows t.rows)
    (hstats : queueStatistics collate t false = .ok stats) :
    (∀ y ∈ stats, x.reading .pending y.queue.asStr = y.pending ∧
      x.reading .running y.queue.asStr = y.running) ∧
      ∀ s queue n, (queue, n) ∈ x.series s → ∃ y ∈ stats, y.queue.asStr = queue := by
  have hrows := rows_of_queueStatistics hstats
  constructor
  · intro y hy
    have hrow := row_eq hrows hy
    rw [h.reading_eq rfl, h.reading_eq rfl]
    exact ⟨(congrArg QueueStatsRow.pending hrow).symm, (congrArg QueueStatsRow.running hrow).symm⟩
  · intro s queue n hmem
    have hs : s.isGauged = true := by
      cases s with
      | pending | running => rfl
      | suspended | completed | failed | cancelled => cases hmem
    obtain ⟨hpos, rfl⟩ := (h.mem_series s hs queue n).mp hmem
    obtain ⟨r, hr, hstatus⟩ := List.countP_pos_iff.mp hpos
    obtain ⟨hr, hqueue⟩ := List.mem_filter.mp hr
    have hunfinished : r.status.isUnfinished = true := by
      rw [of_decide_eq_true hstatus]
      cases s with
      | pending | running => rfl
      | suspended | completed | failed | cancelled => cases hs
    obtain ⟨row, hrow, hname⟩ := (exists_row_iff collate false).mpr
      ⟨r, hr, of_decide_eq_true hqueue, hunfinished⟩
    rw [← hrows] at hrow
    obtain ⟨y, hy, rfl⟩ := List.mem_map.mp hrow
    exact ⟨y, hy, hname⟩

end Shows

/-! ## The refreshing -/

/-- A database with the snapshot of the gauges, and the loop that refreshes it. -/
abbrev Gauges := Cached System (List TaskCountRow) TaskCountSnapshot

/-- `refresh_task_counts_loop`, beside the database. -/
abbrev Gauges.step :
    Gauges → CacheEvent Move (List TaskCountRow) → Option (Gauges × Option Outcome) :=
  Cached.step System.step answersTaskCounts refreshOnce

/-- The tasks of a queue in a status. -/
def inQueue (queue : String) (s : TaskStatus) (r : TaskRow) : Bool :=
  decide (r.status = s) && decide (r.queue = queue)

/-- The committed changes that have brought a task of the queue into the status. -/
def arrivals (os : List Outcome) (queue : String) (s : TaskStatus) : ℕ :=
  (os.flatMap Output.changes).countP (enters (inQueue queue s))

/-- The committed changes that have taken a task of the queue out of the status. -/
def departures (os : List Outcome) (queue : String) (s : TaskStatus) : ℕ :=
  (os.flatMap Output.changes).countP (leaves (inQueue queue s))

/-- What the gauges show is true of a table: of the rows, and of the statistics of the queues. -/
structure TaskCountSnapshot.TrueOf (collate : String → String → Bool) (x : TaskCountSnapshot)
    (t : Table TaskRow.id) : Prop where
  shows : x.Shows t.rows
  agrees : ∀ stats, queueStatistics collate t false = .ok stats →
    (∀ y ∈ stats, x.reading .pending y.queue.asStr = y.pending ∧
      x.reading .running y.queue.asStr = y.running) ∧
      ∀ s queue n, (queue, n) ∈ x.series s → ∃ y ∈ stats, y.queue.asStr = queue

section Lag

variable {collate : String → String → Bool} {db₀ d db : System} {os : List Outcome}
  {x : TaskCountSnapshot}

/-- An answer of the query makes a snapshot that is true of the committed table. -/
theorem trueOf_of_answers {answer : List TaskCountRow} (h : answersTaskCounts d answer = true) :
    (refreshOnce answer).TrueOf collate d.table where
  shows := shows_refreshOnce (of_decide_eq_true h)
  agrees _ hstats := (shows_refreshOnce (of_decide_eq_true h)).agrees hstats

/-- A snapshot is true of the instant it has been taken at, or has not been taken yet. -/
theorem trueOf_of_trueAt (collate : String → String → Bool)
    (h : Cached.TrueAt answersTaskCounts refreshOnce db₀ .default d x) :
    (d = db₀ ∧ x = .default) ∨ x.TrueOf collate d.table := by
  rcases h with hfirst | ⟨answer, hanswer, rfl⟩
  · exact .inl hfirst
  · exact .inr (trueOf_of_answers hanswer)

/-- The tasks of a queue in a status are counted by those that have come and gone. -/
theorem countStatus_balance (h : RunsTo System.step d os db) (queue : String) (s : TaskStatus) :
    countStatus s (queueRows db.table.rows queue) + departures os queue s =
      countStatus s (queueRows d.table.rows queue) + arrivals os queue s := by
  have hcount : ∀ rows : List TaskRow,
      countStatus s (queueRows rows queue) = rows.countP (inQueue queue s) :=
    fun rows => List.countP_filter
  rw [hcount, hcount]
  exact h.countP_eq (inQueue queue s)

end Lag

/-- **The gauges show one instant after the other.** Beside a database, whatever goes on in it, the
snapshot is refreshed, and read at two points of the run. There are two instants, the first not
after the second: what is read first is true of the first, of both statuses together, and what is
read later of the second, unless no refresh has come through by then. The statistics of the queues
tell the same at that instant. What the gauges show differs from what is there now by the tasks
that have come into the status and left it since. -/
theorem gauges_lag (collate : String → String → Bool) {db₀ : System}
    {es es' : List (Option Outcome)} {c c' : Gauges}
    (h : RunsTo Gauges.step (.start db₀ .default) es c) (h' : RunsTo Gauges.step c es' c') :
    ∃ d d' os ps qs, Cached.storeOutputs (es ++ es') = os ++ ps ++ qs ∧
      RunsTo System.step db₀ os d ∧ RunsTo System.step d ps d' ∧
      RunsTo System.step d' qs c'.store ∧
      ((d = db₀ ∧ c.shown = .default) ∨ c.shown.TrueOf collate d.table) ∧
      ((d' = db₀ ∧ c'.shown = .default) ∨ c'.shown.TrueOf collate d'.table ∧
        ∀ queue s, s.isGauged = true →
          countStatus s (queueRows c'.store.table.rows queue) + departures qs queue s =
            c'.shown.reading s queue + arrivals qs queue s) := by
  have hdated := (Cached.dated_start db₀ TaskCountSnapshot.default).run h
  obtain ⟨d, d', os, ps, qs, heq, hos, hps, hqs, htrue, htrue'⟩ := hdated.advances h'
  refine ⟨d, d', os, ps, qs, ?_, hos, hps, hqs, trueOf_of_trueAt collate htrue, ?_⟩
  · rw [← heq, List.nil_append, Cached.storeOutputs, List.flatMap_append]
    rfl
  · refine (trueOf_of_trueAt collate htrue').imp_right fun htrueOf => ⟨htrueOf, ?_⟩
    intro queue s hs
    rw [htrueOf.shows.reading_eq hs]
    exact countStatus_balance hqs queue s

/-- A task is counted as pending, and is claimed before the count is put in its place. -/
def overtakenCount : List (CacheEvent Move (List TaskCountRow)) :=
  (serve 1 (callOf (.save (sampleTask .default))) 0 [.all]).map .store ++
  .answered [⟨"default", "pending", 1⟩] ::
  (serve 2 (callOf (.claimNext sampleQueue sampleWorker 1000000000 none)) 10 [.all]).map .store ++
  [.kept]

/-- The tasks are counted again. -/
def nextCount : List (CacheEvent Move (List TaskCountRow)) :=
  [.ticked, .answered [⟨"default", "running", 1⟩], .kept]

/-- The gauges show a task as pending that is running by then, and as running after the next
refresh. -/
theorem overtaken_gauges : ∃ (c c' : Gauges) (d d' : System) (ps : List Outcome),
    c.shown = ⟨[("default", 1)], []⟩ ∧
      countStatus .pending (queueRows c.store.table.rows "default") = 0 ∧
      c'.shown = ⟨[], [("default", 1)]⟩ ∧ RunsTo System.step d ps d' ∧
      c.shown.TrueOf (fun a b => decide (a ≤ b)) d.table ∧
      c'.shown.TrueOf (fun a b => decide (a ≤ b)) d'.table := by
  have hrun : ((run Gauges.step (.start .empty .default) overtakenCount).bind fun r =>
      (run Gauges.step r.1 nextCount).map fun q =>
        (r.1.shown, countStatus .pending (queueRows r.1.store.table.rows "default"), q.1.shown)) =
      some (⟨[("default", 1)], []⟩, 0, ⟨[], [("default", 1)]⟩) := by decide +kernel
  obtain ⟨⟨c, es⟩, hc, hrest⟩ := Option.bind_eq_some_iff.mp hrun
  obtain ⟨⟨c', es'⟩, hc', heq⟩ := Option.map_eq_some_iff.mp hrest
  obtain ⟨hshown, hnone, hshown'⟩ : c.shown = ⟨[("default", 1)], []⟩ ∧
      countStatus .pending (queueRows c.store.table.rows "default") = 0 ∧
        c'.shown = ⟨[], [("default", 1)]⟩ := by
    obtain ⟨h₁, h₂⟩ := Prod.mk.inj heq
    exact ⟨h₁, Prod.mk.inj h₂⟩
  have h : RunsTo Gauges.step (.start .empty .default) es c :=
    Reaches.of_run .init (.of_forall (fun _ _ _ => trivial) ..) hc
  have h' : RunsTo Gauges.step c es' c' :=
    Reaches.of_run .init (.of_forall (fun _ _ _ => trivial) ..) hc'
  obtain ⟨d, d', os, ps, qs, -, -, hps, -, htrue, htrue'⟩ :=
    gauges_lag (fun a b => decide (a ≤ b)) h h'
  refine ⟨c, c', d, d', ps, hshown, hnone, hshown', hps, ?_, ?_⟩
  · refine htrue.resolve_left fun hfirst => ?_
    rw [hshown] at hfirst
    exact absurd hfirst.2 (by decide)
  · refine (htrue'.resolve_left fun hfirst => ?_).1
    rw [hshown'] at hfirst
    exact absurd hfirst.2 (by decide)

end IronDefer
