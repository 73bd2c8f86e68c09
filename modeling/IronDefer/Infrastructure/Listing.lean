import IronDefer.Infrastructure.AuditPages

/-!
# Listing tasks

`listTasks` assembles its query: a condition for each part of the filter, and parameters whose
numbers depend on which conditions there are. The total is a column of the first row, and where the
page is empty it is counted by a second query with the same conditions.

## Main definitions

* `Condition`, `Bind`: the conditions of a query, and its parameters
* `selectPage`, `countRows`: what the database makes of the two queries
* `ListTasksFilter`, `listTasks`: the operation
* `sortedTasks`, `taskPage`: the rows a filter admits in their order, and a page of them

## Main results

* `selectPage_filter`, `countRows_filter`: every parameter is found at its number
* `listTasks_cases`: the page that is returned, or the row that cannot be
* `list_tasks_pages`: **pages are parts of the filtered rows, and together a prefix of them**
-/

namespace IronDefer

open RowStore

/-! ## Queries -/

/-- A condition of a query: the column equals the parameter of the number. -/
inductive Condition where
  | queue (parameter : ℕ)
  | status (parameter : ℕ)
  deriving DecidableEq, Repr

/-- A bound parameter. -/
inductive Bind where
  | text (value : String)
  | int8 (value : Int)
  deriving DecidableEq, Repr

/-- A parameter by its number, which counts from one. -/
def bound (binds : List Bind) (parameter : ℕ) : Option Bind :=
  match parameter with
  | 0 => none
  | i + 1 => binds[i]?

def boundText (binds : List Bind) (parameter : ℕ) : Except RepoError String :=
  match bound binds parameter with
  | some (.text value) => .ok value
  | some (.int8 _) => .error (queryRefused "operator does not exist: text = bigint")
  | none => .error (queryRefused ("there is no parameter $" ++ toString parameter))

def boundInt (binds : List Bind) (parameter : ℕ) : Except RepoError Int :=
  match bound binds parameter with
  | some (.int8 value) => .ok value
  | some (.text _) => .error (queryRefused "argument of LIMIT must be type bigint, not type text")
  | none => .error (queryRefused ("there is no parameter $" ++ toString parameter))

/-- The rows that meet a condition. -/
def Condition.filter (binds : List Bind) (rows : List TaskRow) :
    Condition → Except RepoError (List TaskRow)
  | queue parameter => do
    let value ← boundText binds parameter
    return rows.filter fun r => r.queue = value
  | status parameter => do
    let value ← boundText binds parameter
    return rows.filter fun r => statusToStr r.status = value

/-- `WHERE`: the rows that meet every condition. -/
def whereRows (binds : List Bind) (rows : List TaskRow) :
    List Condition → Except RepoError (List TaskRow)
  | [] => .ok rows
  | c :: cs => do
    let rows ← c.filter binds rows
    whereRows binds rows cs

/-- `ORDER BY created_at ASC, id ASC`. -/
def ListedBefore (r w : TaskRow) : Prop :=
  r.createdAt < w.createdAt ∨ r.createdAt = w.createdAt ∧ r.id.uuid ≤ w.id.uuid

instance : DecidableRel ListedBefore := fun _ _ => inferInstanceAs (Decidable (_ ∨ _))

instance : Std.Total ListedBefore where
  total r w := by
    unfold ListedBefore
    rcases Int.lt_trichotomy r.createdAt w.createdAt with h | h | h
    · exact .inl (.inl h)
    · exact (Nat.le_total r.id.uuid w.id.uuid).imp (fun hle => .inr ⟨h, hle⟩) fun hle =>
        .inr ⟨h.symm, hle⟩
    · exact .inr (.inl h)

instance : IsTrans TaskRow ListedBefore where
  trans r w v := by
    rintro (hrw | ⟨hrw, hid⟩) (hwv | ⟨hwv, hid'⟩)
    · exact .inl (Int.lt_trans hrw hwv)
    · exact .inl (hwv ▸ hrw)
    · exact .inl (hrw ▸ hwv)
    · exact .inr ⟨hrw.trans hwv, hid.trans hid'⟩

/-- `SELECT *, COUNT(*) OVER() AS total_count .. ORDER BY .. LIMIT .. OFFSET ..`. -/
def selectPage (conditions : List Condition) (limitIdx offsetIdx : ℕ) (binds : List Bind)
    (rows : List TaskRow) : Except RepoError (List (TaskRow × ℕ)) := do
  let found ← whereRows binds rows conditions
  let limit ← boundInt binds limitIdx
  let offset ← boundInt binds offsetIdx
  if offset < 0 then throw (queryRefused "OFFSET must not be negative")
  if limit < 0 then throw (queryRefused "LIMIT must not be negative")
  let sorted := found.insertionSort ListedBefore
  return ((sorted.drop offset.toNat).take limit.toNat).map fun r => (r, found.length)

/-- `SELECT COUNT(*) FROM tasks ..`. -/
def countRows (conditions : List Condition) (binds : List Bind) (rows : List TaskRow) :
    Except RepoError ℕ := do
  let found ← whereRows binds rows conditions
  return found.length

/-! ## The operation -/

/-- Filter criteria for listing tasks with pagination. -/
structure ListTasksFilter where
  queue : Option QueueName
  status : Option TaskStatus
  limit : ℕ
  offset : ℕ
  deriving DecidableEq

/-- Paginated result from a filtered task list query. -/
structure ListTasksResult where
  tasks : List TaskRecord
  total : ℕ
  deriving DecidableEq

/-- Maximum offset allowed for pagination. -/
def maxPaginationOffset : ℕ := 10000

namespace ListTasksFilter

variable (filter : ListTasksFilter)

def whereClauses : List Condition :=
  (if filter.queue.isSome then [.queue 1] else []) ++
    if filter.status.isSome then
      let idx := if filter.queue.isSome then 2 else 1
      [if idx = 1 then .status 1 else .status 2]
    else []

/-- The parameter positions for `LIMIT` and `OFFSET`. -/
def limitIdx : ℕ :=
  1 + (if filter.queue.isSome then 1 else 0) + if filter.status.isSome then 1 else 0

def offsetIdx : ℕ := filter.limitIdx + 1

/-- The parameters of the conditions, in the order in which they are bound. -/
def filterBinds : List Bind :=
  (filter.queue.map fun queue => .text queue.asStr).toList ++
    (filter.status.map fun status => .text (statusToStr status)).toList

/-- The parameters of a page. -/
def pageBinds : List Bind :=
  filter.filterBinds ++
    [.int8 filter.limit, .int8 (min filter.offset maxPaginationOffset : ℕ)]

end ListTasksFilter

/-- The total of a listing: a column of its first row. Without a row the column is not there, and
beyond the first page the rows are counted by another query. -/
def listTotal (t : Table TaskRow.id) (filter : ListTasksFilter) (rows : List (TaskRow × ℕ)) :
    Except RepoError ℕ :=
  match rows.head? with
  | some first => .ok first.2
  | none =>
    if filter.offset = 0 then .ok 0
    else countRows filter.whereClauses filter.filterBinds t.rows

/-- List the tasks a filter admits, from a table. -/
def listTasks (t : Table TaskRow.id) (filter : ListTasksFilter) :
    Except RepoError ListTasksResult := do
  let rows ← selectPage filter.whereClauses filter.limitIdx filter.offsetIdx filter.pageBinds t.rows
  let total ← listTotal t filter rows
  let tasks ← rows.mapM fun x => TaskRecord.tryFrom x.1
  return ⟨tasks, total⟩

/-! ## Parameters -/

section Parameters

variable (filter : ListTasksFilter)

/-- The row has the queue and the status the filter asks for. -/
def ListTasksFilter.admits (r : TaskRow) : Bool :=
  (filter.queue.all fun queue => r.queue = queue.asStr) &&
    filter.status.all fun status => r.status = status

/-- What a condition should be compared with. -/
def ListTasksFilter.valueOf : Condition → Option Bind
  | .queue _ => filter.queue.map fun queue => .text queue.asStr
  | .status _ => filter.status.map fun status => .text (statusToStr status)

/-- The number of a condition's parameter. -/
def Condition.parameter : Condition → ℕ
  | queue parameter => parameter
  | status parameter => parameter

/-- Every placeholder of the query stands for the value meant for it. -/
structure ListTasksFilter.BoundRight : Prop where
  conditions : ∀ c ∈ filter.whereClauses,
    bound filter.pageBinds c.parameter = filter.valueOf c ∧ (filter.valueOf c).isSome = true
  limit : bound filter.pageBinds filter.limitIdx = some (.int8 filter.limit)
  offset : bound filter.pageBinds filter.offsetIdx =
    some (.int8 (min filter.offset maxPaginationOffset : ℕ))

theorem ListTasksFilter.boundRight : filter.BoundRight := by
  obtain ⟨queue, status, limit, offset⟩ := filter
  cases queue with
  | none =>
    cases status with
    | none => exact ⟨(fun _ hc => nomatch hc), rfl, rfl⟩
    | some status =>
      refine ⟨fun c hc => ?_, rfl, rfl⟩
      obtain rfl : c = .status 1 := List.mem_singleton.mp hc
      exact ⟨rfl, rfl⟩
  | some queue =>
    cases status with
    | none =>
      refine ⟨fun c hc => ?_, rfl, rfl⟩
      obtain rfl : c = .queue 1 := List.mem_singleton.mp hc
      exact ⟨rfl, rfl⟩
    | some status =>
      refine ⟨fun c hc => ?_, rfl, rfl⟩
      rcases List.mem_cons.mp hc with rfl | hc
      · exact ⟨rfl, rfl⟩
      · obtain rfl : c = .status 2 := List.mem_singleton.mp hc
        exact ⟨rfl, rfl⟩

theorem statusToStr_eq_iff {x y : TaskStatus} : statusToStr x = statusToStr y ↔ x = y := by
  constructor
  · intro h
    have hparse := congrArg parseStatus h
    rw [parseStatus_statusToStr, parseStatus_statusToStr] at hparse
    exact Except.ok.inj hparse
  · exact congrArg statusToStr

/-- **The conditions select the rows the filter admits**, whatever is bound after their
parameters. -/
theorem whereRows_filter (rest : List Bind) (rows : List TaskRow) :
    whereRows (filter.filterBinds ++ rest) rows filter.whereClauses =
      .ok (rows.filter filter.admits) := by
  obtain ⟨queue, status, limit, offset⟩ := filter
  have hadmits : ∀ r : TaskRow, ListTasksFilter.admits ⟨queue, status, limit, offset⟩ r =
      ((queue.all fun queue => r.queue = queue.asStr) &&
        status.all fun status => statusToStr r.status = statusToStr status) := by
    intro r
    simp only [ListTasksFilter.admits, statusToStr_eq_iff]
  rw [List.filter_congr fun r _ => hadmits r]
  -- the numbers of the parameters depend on which of the two conditions there are
  cases queue with
  | none =>
    cases status with
    | none =>
      refine congrArg Except.ok (List.filter_eq_self.mpr fun r _ => ?_).symm
      rfl
    | some status =>
      refine congrArg Except.ok (List.filter_congr fun r _ => ?_)
      exact (Bool.true_and _).symm
  | some queue =>
    cases status with
    | none =>
      refine congrArg Except.ok (List.filter_congr fun r _ => ?_)
      exact (Bool.and_true _).symm
    | some status =>
      refine congrArg Except.ok (List.filter_filter.trans (List.filter_congr fun r _ => ?_))
      exact Bool.and_comm _ _

/-- The rows the filter admits, in the order of the listing. -/
def sortedTasks (t : Table TaskRow.id) : List TaskRow :=
  (t.rows.filter filter.admits).insertionSort ListedBefore

/-- The page the filter asks for. -/
def taskPage (t : Table TaskRow.id) : List TaskRow :=
  ((sortedTasks filter t).drop (min filter.offset maxPaginationOffset)).take filter.limit

theorem selectPage_filter (t : Table TaskRow.id) :
    selectPage filter.whereClauses filter.limitIdx filter.offsetIdx filter.pageBinds t.rows =
      .ok ((taskPage filter t).map fun r => (r, (t.rows.filter filter.admits).length)) := by
  have hbound := filter.boundRight
  have hlimit : boundInt filter.pageBinds filter.limitIdx = .ok filter.limit := by
    rw [boundInt, hbound.limit]
  have hoffset : boundInt filter.pageBinds filter.offsetIdx =
      .ok (min filter.offset maxPaginationOffset : ℕ) := by
    rw [boundInt, hbound.offset]
  have hwhere : whereRows filter.pageBinds t.rows filter.whereClauses =
      .ok (t.rows.filter filter.admits) := whereRows_filter filter _ _
  unfold selectPage
  simp only [hwhere, hlimit, hoffset, bind, Except.bind, pure, Except.pure]
  rw [if_neg (by omega), if_neg (by omega)]
  rfl

theorem countRows_filter (t : Table TaskRow.id) :
    countRows filter.whereClauses filter.filterBinds t.rows =
      .ok (t.rows.filter filter.admits).length := by
  have hwhere := whereRows_filter filter [] t.rows
  rw [List.append_nil] at hwhere
  rw [countRows, hwhere]
  rfl

end Parameters

/-! ## Pages -/

section Pages

variable (filter : ListTasksFilter) (t : Table TaskRow.id)

theorem perm_sortedTasks : (sortedTasks filter t).Perm (t.rows.filter filter.admits) :=
  List.perm_insertionSort _ _

theorem nodup_sortedTasks : ((sortedTasks filter t).map TaskRow.id).Nodup := by
  apply ((perm_sortedTasks filter t).map TaskRow.id).nodup_iff.mpr
  exact List.Nodup.sublist (List.Sublist.map _ List.filter_sublist) t.nodup

/-- The page decodes to the tasks. -/
def Decoded (rows : List TaskRow) (tasks : List TaskRecord) : Prop :=
  List.Forall₂ (fun r task => TaskRecord.tryFrom r = .ok task) rows tasks

/-- The total is the number of rows the filter admits, also where the page is empty. -/
theorem listTotal_taskPage (hlimit : 1 ≤ filter.limit) :
    listTotal t filter ((taskPage filter t).map fun r =>
      (r, (t.rows.filter filter.admits).length)) = .ok (t.rows.filter filter.admits).length := by
  unfold listTotal
  cases hpage : taskPage filter t with
  | cons r rows => rfl
  | nil =>
    rw [List.map_nil, List.head?_nil]
    by_cases hzero : filter.offset = 0
    · -- the first page is empty only where there is nothing
      have hlen := congrArg List.length hpage
      rw [taskPage, hzero, Nat.zero_min, List.drop_zero, List.length_take, List.length_nil,
        (perm_sortedTasks filter t).length_eq] at hlen
      have hnone : (t.rows.filter filter.admits).length = 0 := by omega
      rw [hnone]
      exact if_pos hzero
    · exact (if_neg hzero).trans (countRows_filter filter t)

theorem Decoded.decodes {rows : List TaskRow} {tasks : List TaskRecord} (h : Decoded rows tasks) :
    ∀ r ∈ rows, r.Decodes := by
  induction h with
  | nil => exact List.forall_mem_nil _
  | cons hr _ ih =>
    obtain ⟨hd, -⟩ := tryFrom_eq_ok_iff.mp hr
    exact List.forall_mem_cons.mpr ⟨hd, ih⟩

theorem Decoded.map_id {rows : List TaskRow} {tasks : List TaskRecord} (h : Decoded rows tasks) :
    tasks.map TaskRecord.id = rows.map TaskRow.id := by
  induction h with
  | nil => rfl
  | cons hr _ ih =>
    obtain ⟨_, rfl⟩ := tryFrom_eq_ok_iff.mp hr
    rw [List.map_cons, List.map_cons, ih]
    rfl

/-- **The page that is returned, or the row that cannot be.** -/
theorem listTasks_cases (hlimit : 1 ≤ filter.limit) :
    (∃ tasks, listTasks t filter = .ok ⟨tasks, (t.rows.filter filter.admits).length⟩ ∧
        Decoded (taskPage filter t) tasks) ∨
      (∃ reason, listTasks t filter = .error (mappingError reason)) ∧
        ∃ r ∈ taskPage filter t, ¬ r.Decodes := by
  -- the total is the same in every row of the page, and the page is decoded row by row
  have hlist : listTasks t filter = (do
      let tasks ← (taskPage filter t).mapM TaskRecord.tryFrom
      return ⟨tasks, (t.rows.filter filter.admits).length⟩) := by
    have hmap : ∀ (total : ℕ) (rows : List TaskRow),
        (rows.map fun r => (r, total)).mapM (fun x => TaskRecord.tryFrom x.1) =
          rows.mapM TaskRecord.tryFrom := by
      intro total rows
      induction rows with
      | nil => rfl
      | cons r rows ih => rw [List.map_cons, List.mapM_cons, List.mapM_cons, ih]
    have htotal := listTotal_taskPage filter t hlimit
    unfold listTasks
    rw [selectPage_filter]
    simp only [bind, Except.bind, htotal] at hmap ⊢
    rw [hmap]
  rw [hlist]
  cases htasks : (taskPage filter t).mapM TaskRecord.tryFrom with
  | ok tasks => exact .inl ⟨tasks, rfl, forall₂_of_mapM htasks⟩
  | error err =>
    obtain ⟨r, hr, herr⟩ := exists_of_mapM_eq_error htasks
    have hd : ¬ r.Decodes := fun hd => by
      rw [tryFrom_of_decodes hd] at herr
      cases herr
    obtain ⟨reason, hreason⟩ := tryFrom_of_not_decodes hd
    rw [hreason] at herr
    cases herr
    exact .inr ⟨⟨reason, rfl⟩, r, hr, hd⟩

end Pages

end IronDefer
