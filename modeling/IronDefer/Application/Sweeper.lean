import IronDefer.Application.Observability
import Mathlib.Algebra.BigOperators.Group.List.Basic
import Mathlib.Algebra.Ring.Nat

/-!
# The sweeper

What one cycle of the sweeper reports about the tasks a recovery has returned: a transition event
for each, and the additions to its counters, grouped in two maps.

## Main definitions

* `RecoveredTask`: what a recovery returns about a task
* `recoveredEvent`, `logRecoveredTasks`: the transition events
* `countEntry`: one more at the entry of a map
* `groupCounts`, `emitPerQueueMetrics`: the maps of one cycle, and the additions made from them
* `sweepRecovered`: what a cycle makes of the recovered tasks
* `CountsAgree`: the additions agree with the tasks returned

## Main results

* `countsAgree_sweepRecovered`: the additions sum up to the tasks returned
-/

namespace IronDefer

/-- What a recovery returns about one task. -/
abbrev RecoveredTask := TaskId × QueueName × TaskKind × Option String × RecoveryOutcome

/-! ## Transition events -/

def recoveredEvent : RecoveredTask → StateTransitionEvent
  | (id, queue, kind, traceId, outcome) =>
    { taskId := id
      fromStatus := .running
      toStatus := match outcome with
        | .recovered => .pending
        | .failed => .failed
      queue := some queue
      kind := some kind
      traceIdHex := traceId
      workerId := none
      attempt := 0 }

def logRecoveredTasks (fromHex : String → Bool) (results : List RecoveredTask) :
    List StateTransitionEvent :=
  results.flatMap fun x => (recoveredEvent x).emit fromHex

/-! ## Counters -/

section Entries

variable {κ : Type} [DecidableEq κ]

/-- `*counts.entry(key).or_default() += 1`. -/
def countEntry (key : κ) : List (κ × ℕ) → List (κ × ℕ)
  | [] => [(key, 1)]
  | (k, n) :: counts => if k = key then (k, n + 1) :: counts else (k, n) :: countEntry key counts

/-- The count of a key. -/
def entryOf (key : κ) (counts : List (κ × ℕ)) : ℕ :=
  ((counts.filter fun x => x.1 = key).map Prod.snd).sum

theorem sum_countEntry (key : κ) (counts : List (κ × ℕ)) :
    ((countEntry key counts).map Prod.snd).sum = (counts.map Prod.snd).sum + 1 := by
  induction counts with
  | nil => rfl
  | cons x counts ih =>
    rw [countEntry]
    split
    · simp only [List.map_cons, List.sum_cons]
      omega
    · simp only [List.map_cons, List.sum_cons, ih]
      omega

theorem entryOf_countEntry (key k : κ) (counts : List (κ × ℕ)) :
    entryOf k (countEntry key counts) = entryOf k counts + if key = k then 1 else 0 := by
  induction counts with
  | nil => by_cases hk : key = k <;> simp [countEntry, entryOf, hk]
  | cons x counts ih =>
    rw [countEntry]
    by_cases hx : x.1 = key
    · by_cases hk : key = k
      · simp only [hx, hk, entryOf, if_true, List.filter_cons, List.map_cons, List.sum_cons,
          decide_true]
        omega
      · simp [hx, hk, entryOf]
    · rw [if_neg hx]
      by_cases hxk : x.1 = k
      · have hk : key ≠ k := fun hk => hx (hxk.trans hk.symm)
        simp only [entryOf, List.filter_cons, hxk, decide_true, if_true, List.map_cons,
          List.sum_cons, if_neg hk] at ih ⊢
        omega
      · simpa [entryOf, hxk] using ih

end Entries

/-- The counters of a cycle. -/
inductive Counter where
  | zombieRecoveriesTotal
  | taskFailuresTotal
  deriving DecidableEq, Repr

/-- An addition to a counter, under its labels. -/
structure CounterAdd where
  counter : Counter
  count : ℕ
  labels : List (String × String)
  deriving DecidableEq, Repr

/-- What is added to a counter under some labels. -/
def addedUnder (counter : Counter) (labels : List (String × String)) (adds : List CounterAdd) : ℕ :=
  ((adds.filter fun x => x.counter = counter && x.labels = labels).map CounterAdd.count).sum

/-- What is added to a counter. -/
def added (counter : Counter) (adds : List CounterAdd) : ℕ :=
  ((adds.filter fun x => x.counter = counter).map CounterAdd.count).sum

/-- The two maps of one cycle: recoveries by queue, failures by queue and kind. -/
structure GroupedCounts where
  recoveryCounts : List (String × ℕ)
  failureCounts : List ((String × String) × ℕ)

/-- One turn of the grouping loop. -/
def GroupedCounts.count (counts : GroupedCounts) : RecoveredTask → GroupedCounts
  | (_, queue, kind, _, outcome) =>
    { recoveryCounts := countEntry queue.asStr counts.recoveryCounts
      failureCounts := match outcome with
        | .failed => countEntry (queue.asStr, kind.asStr) counts.failureCounts
        | .recovered => counts.failureCounts }

def groupCounts (results : List RecoveredTask) : GroupedCounts :=
  results.foldl GroupedCounts.count ⟨[], []⟩

/-- The additions made from the maps; nothing without metrics. -/
def emitPerQueueMetrics (results : List RecoveredTask) (metrics : Bool) : List CounterAdd :=
  if metrics then
    let counts := groupCounts results
    (counts.recoveryCounts.map fun x => ⟨.zombieRecoveriesTotal, x.2, [("queue", x.1)]⟩) ++
      counts.failureCounts.map fun x =>
        ⟨.taskFailuresTotal, x.2, [("queue", x.1.1), ("kind", x.1.2)]⟩
  else []

/-- What a cycle makes of the tasks a recovery has returned. -/
def sweepRecovered (fromHex : String → Bool) (metrics : Bool) (results : List RecoveredTask) :
    List StateTransitionEvent × List CounterAdd :=
  if results.isEmpty then ([], [])
  else (logRecoveredTasks fromHex results, emitPerQueueMetrics results metrics)

/-! ## What the additions sum up to -/

section Sums

variable (results : List RecoveredTask)

/-- A number that grows by one with every task of a kind counts these tasks. -/
theorem foldl_count (m : GroupedCounts → ℕ) (p : RecoveredTask → Bool)
    (hm : ∀ counts x, m (GroupedCounts.count counts x) = m counts + if p x then 1 else 0)
    (counts : GroupedCounts) :
    m (results.foldl GroupedCounts.count counts) = m counts + results.countP p := by
  induction results generalizing counts with
  | nil => rfl
  | cons x results ih =>
    rw [List.foldl_cons, ih, hm, List.countP_cons]
    omega

theorem entryOf_recoveryCounts (queue : String) (counts : GroupedCounts) :
    entryOf queue (results.foldl GroupedCounts.count counts).recoveryCounts =
      entryOf queue counts.recoveryCounts + results.countP fun x => x.2.1.asStr = queue := by
  apply foldl_count results fun counts => entryOf queue counts.recoveryCounts
  rintro counts ⟨id, q, kind, traceId, outcome⟩
  simp only [GroupedCounts.count, entryOf_countEntry, decide_eq_true_eq]

theorem entryOf_failureCounts (queue kind : String) (counts : GroupedCounts) :
    entryOf (queue, kind) (results.foldl GroupedCounts.count counts).failureCounts =
      entryOf (queue, kind) counts.failureCounts + results.countP fun x =>
        x.2.1.asStr = queue && x.2.2.1.asStr = kind && x.2.2.2.2 = .failed := by
  apply foldl_count results fun counts => entryOf (queue, kind) counts.failureCounts
  rintro counts ⟨id, q, k, traceId, outcome⟩
  cases outcome with
  | recovered => simp [GroupedCounts.count]
  | failed => simp [GroupedCounts.count, entryOf_countEntry, Prod.mk.injEq]

theorem sum_recoveryCounts (counts : GroupedCounts) :
    ((results.foldl GroupedCounts.count counts).recoveryCounts.map Prod.snd).sum =
      (counts.recoveryCounts.map Prod.snd).sum + results.length := by
  rw [← List.countP_true]
  apply foldl_count results fun counts => (counts.recoveryCounts.map Prod.snd).sum
  rintro counts ⟨id, q, k, traceId, outcome⟩
  exact sum_countEntry ..

theorem sum_failureCounts (counts : GroupedCounts) :
    ((results.foldl GroupedCounts.count counts).failureCounts.map Prod.snd).sum =
      (counts.failureCounts.map Prod.snd).sum + results.countP fun x => x.2.2.2.2 = .failed := by
  apply foldl_count results fun counts => (counts.failureCounts.map Prod.snd).sum
  rintro counts ⟨id, q, k, traceId, outcome⟩
  cases outcome with
  | recovered => simp [GroupedCounts.count]
  | failed => simp [GroupedCounts.count, sum_countEntry]

/-- The counters of a cycle agree with the tasks returned: under each queue, and under each queue
and kind, and altogether. -/
structure CountsAgree (adds : List CounterAdd) : Prop where
  recoveries : ∀ queue, addedUnder .zombieRecoveriesTotal [("queue", queue)] adds =
    results.countP fun x => x.2.1.asStr = queue
  failures : ∀ queue kind, addedUnder .taskFailuresTotal [("queue", queue), ("kind", kind)] adds =
    results.countP fun x => x.2.1.asStr = queue && x.2.2.1.asStr = kind && x.2.2.2.2 = .failed
  recovered : added .zombieRecoveriesTotal adds = results.length
  failed : added .taskFailuresTotal adds = results.countP fun x => x.2.2.2.2 = .failed

/-- **The counters of a cycle sum up to the tasks returned.** -/
theorem countsAgree_sweepRecovered (fromHex : String → Bool) :
    CountsAgree results (sweepRecovered fromHex true results).2 := by
  have hadds : (sweepRecovered fromHex true results).2 = emitPerQueueMetrics results true := by
    unfold sweepRecovered
    split
    next h =>
      rw [List.isEmpty_iff.mp h]
      rfl
    · rfl
  rw [hadds, emitPerQueueMetrics, if_pos rfl]
  -- the sums over the two maps, seen from the empty ones
  have hqueue := fun queue => entryOf_recoveryCounts results queue ⟨[], []⟩
  have hkind := fun queue kind => entryOf_failureCounts results queue kind ⟨[], []⟩
  have hall := sum_recoveryCounts results ⟨[], []⟩
  have hfailed := sum_failureCounts results ⟨[], []⟩
  simp only [entryOf, List.filter_nil, List.map_nil, List.sum_nil, Nat.zero_add, Prod.ext_iff,
    Bool.decide_and] at hqueue hkind hall hfailed
  refine ⟨fun queue => ?_, fun queue kind => ?_, ?_, ?_⟩
  · simpa [addedUnder, List.filter_map, Function.comp_def, groupCounts] using hqueue queue
  · simpa [addedUnder, List.filter_map, Function.comp_def, groupCounts] using hkind queue kind
  · simpa [added, List.filter_map, Function.comp_def, groupCounts] using hall
  · simpa [added, List.filter_map, Function.comp_def, groupCounts] using hfailed

end Sums

end IronDefer
