import IronDefer.Application.Sweeper
import IronDefer.Infrastructure.Serving

/-!
# What a recovery does to the zombie rows

A recovery that is served while nobody else calls runs two updates, one for the rows with attempts
left and one for the others. Together they rewrite the zombie rows, each once and nothing else, and
the audit loops and the results follow them.

## Main definitions

* `TaskRow.Zombie`, `zombies`: the running rows whose lease has expired
* `recoverRow`: what a recovery makes of a row
* `Reports`: what it returns about a zombie
* `Reportable`: a recovery can return the zombie, and its audit write does not panic
* `PartitionsZombies`: what it returns and writes, by the zombie rows
* `RecoversOnce`: what a recovery does on a store

## Main results

* `served_recoverZombieTasks`: the ways a recovery can end
* `recovery_partition_iff`: **when a recovery partitions the zombie rows**
-/

namespace IronDefer

open RowStore

/-! ## Zombie rows -/

/-- The row is running and its lease has expired. -/
def TaskRow.Zombie (now : Timestamp) (r : TaskRow) : Prop :=
  r.status = .running ∧ ∃ t, r.claimedUntil = some t ∧ t < now

def isZombie (now : Timestamp) (r : TaskRow) : Bool :=
  r.status = .running && Update.before r.claimedUntil now

theorem isZombie_iff {now : Timestamp} {r : TaskRow} : isZombie now r = true ↔ r.Zombie now := by
  simp only [isZombie, TaskRow.Zombie, Bool.and_eq_true, decide_eq_true_eq]
  refine and_congr_right fun _ => ⟨Update.before_eq_true, ?_⟩
  rintro ⟨t, ht, hlt⟩
  rw [ht]
  exact decide_eq_true hlt

/-- The zombie rows of a table. -/
def zombies (now : Timestamp) (t : Table TaskRow.id) : List TaskRow := t.rows.filter (isZombie now)

theorem mem_zombies {now : Timestamp} {t : Table TaskRow.id} {r : TaskRow} :
    r ∈ zombies now t ↔ r ∈ t.rows ∧ r.Zombie now := by
  rw [zombies, List.mem_filter, isZombie_iff]

/-- The row has an attempt left. -/
def TaskRow.retryable (r : TaskRow) : Bool := decide (r.attempts.val < r.maxAttempts.val)

/-- A zombie with an attempt left becomes pending. -/
def recoveredVersion (b : Began) (r : TaskRow) : TaskRow :=
  { r with
    status := .pending
    claimedBy := none
    claimedUntil := none
    scheduledAt := b.now
    updatedAt := b.now }

/-- A zombie without an attempt left becomes failed. -/
def exhaustedVersion (b : Began) (r : TaskRow) : TaskRow :=
  { r with
    status := .failed
    lastError := some "lease expired: max attempts exhausted"
    updatedAt := b.now }

/-- What a recovery makes of a row. -/
def recoverRow (b : Began) (r : TaskRow) : TaskRow :=
  if isZombie b.now r then if r.retryable then recoveredVersion b r else exhaustedVersion b r else r

/-- The report is about the row: its names and trace id, and what became of it. -/
structure Reports (x : RecoveredTask) (r : TaskRow) : Prop where
  id : x.1 = r.id
  queue : x.2.1.asStr = r.queue
  kind : x.2.2.1.asStr = r.kind
  traceId : x.2.2.2.1 = r.traceId
  outcome : x.2.2.2.2 = if r.retryable then .recovered else .failed

/-- The audit row of a recovered zombie. -/
def recoveryAudit (b : Began) (r : TaskRow) : AuditRow :=
  (if r.retryable then recoveredEntry r else exhaustedEntry r).row b

/-- A recovery can return the zombie, and its audit write does not panic. -/
structure Reportable (a : Bool) (r : TaskRow) : Prop where
  queue : QueueName.validate r.queue = .ok ()
  loggable : Loggable a r.traceId

/-- The call of a recovery. -/
def recovery (a : Bool) : Call := ⟨a, .recoverZombieTasks, none⟩

/-! ## The two updates -/

section Updates

variable {b : Began} {t : Table TaskRow.id}

def selectsRetryable (now : Timestamp) (r : TaskRow) : Bool := isZombie now r && r.retryable

def selectsExhausted (now : Timestamp) (r : TaskRow) : Bool := isZombie now r && !r.retryable

theorem selects_recoverRetryable (r : TaskRow) :
    Update.recoverRetryable.selects b r = selectsRetryable b.now r := rfl

theorem selects_recoverExhausted (r : TaskRow) :
    Update.recoverExhausted.selects b r = selectsExhausted b.now r := by
  unfold Update.selects selectsExhausted isZombie TaskRow.retryable
  rw [← decide_not]
  simp

/-- What the first update writes. -/
def retriedRows (b : Began) (t : Table TaskRow.id) : List TaskRow :=
  (t.rows.filter (selectsRetryable b.now)).map (recoveredVersion b)

/-- What the second update writes. -/
def exhaustedRows (b : Began) (t : Table TaskRow.id) : List TaskRow :=
  (t.rows.filter (selectsExhausted b.now)).map (exhaustedVersion b)

/-- The table after the first update. -/
def retried (b : Began) (t : Table TaskRow.id) : Table TaskRow.id :=
  t.putAll (retriedRows b t)

theorem rows_retried : (retried b t).rows = t.rows.map fun r =>
    if selectsRetryable b.now r then recoveredVersion b r else r :=
  Table.rows_putAll_filter t fun _ => rfl

/-- The first update does not change what the second one selects. -/
theorem filter_retried :
    (retried b t).rows.filter (selectsExhausted b.now) = t.rows.filter (selectsExhausted b.now) := by
  rw [rows_retried, List.filter_map]
  have hsel : t.rows.filter (selectsExhausted b.now ∘ fun r =>
      if selectsRetryable b.now r then recoveredVersion b r else r) =
        t.rows.filter (selectsExhausted b.now) := by
    apply List.filter_congr
    intro r _
    by_cases hr : selectsRetryable b.now r = true
    · -- a recovered row is pending, and it was no exhausted one
      have hpending : selectsExhausted b.now (recoveredVersion b r) = false := rfl
      obtain ⟨-, hretry⟩ := Bool.and_eq_true_iff.mp hr
      rw [Function.comp_apply, if_pos hr, hpending, selectsExhausted, hretry, Bool.not_true,
        Bool.and_false]
    · rw [Function.comp_apply, if_neg hr]
  rw [hsel]
  refine (List.map_congr_left fun r hr => ?_).trans (List.map_id _)
  obtain ⟨-, hexhausted⟩ := Bool.and_eq_true_iff.mp (List.mem_filter.mp hr).2
  apply if_neg
  intro hretry
  rw [(Bool.and_eq_true_iff.mp hretry).2] at hexhausted
  cases hexhausted

/-- The table after both updates. -/
def recovered (b : Began) (t : Table TaskRow.id) : Table TaskRow.id :=
  (retried b t).putAll (exhaustedRows b t)

/-- **The two updates rewrite the zombies**, and nothing else. -/
theorem rows_recovered : (recovered b t).rows = t.rows.map (recoverRow b) := by
  have hexhausted := Table.rows_putAll_filter (retried b t) (p := selectsExhausted b.now)
    (f := exhaustedVersion b) fun _ => rfl
  rw [filter_retried] at hexhausted
  rw [recovered, exhaustedRows, hexhausted, rows_retried, List.map_map]
  apply List.map_congr_left
  intro r _
  unfold recoverRow
  by_cases hz : isZombie b.now r = true
  · by_cases hr : r.retryable = true
    · have hpending : selectsExhausted b.now (recoveredVersion b r) = false := rfl
      simp [selectsRetryable, hz, hr, hpending]
    · simp [selectsRetryable, selectsExhausted, hz, hr]
  · simp [selectsRetryable, selectsExhausted, hz]

theorem constrained_retried (ht : Constrained t) : Constrained (retried b t) := by
  refine ht.map (b := b) (fun r _ => ?_) rows_retried
  by_cases hr : selectsRetryable b.now r = true
  · rw [if_pos hr]
    exact .inr ⟨_, Update.rewrites_of_set (e := .all) ((selects_recoverRetryable r).trans hr) rfl⟩
  · rw [if_neg hr]
    exact .inl rfl

theorem constrained_recovered (ht : Constrained t) : Constrained (recovered b t) := by
  refine ht.map (b := b) (fun r _ => ?_) rows_recovered
  unfold recoverRow
  by_cases hz : isZombie b.now r = true
  · rw [if_pos hz]
    by_cases hr : r.retryable = true
    · rw [if_pos hr]
      have hsel : selectsRetryable b.now r = true := Bool.and_eq_true_iff.mpr ⟨hz, hr⟩
      exact .inr ⟨_, Update.rewrites_of_set (e := .all) ((selects_recoverRetryable r).trans hsel) rfl⟩
    · rw [if_neg hr]
      have hsel : selectsExhausted b.now r = true := by simp [selectsExhausted, hz, hr]
      exact .inr ⟨_, Update.rewrites_of_set (e := .all) ((selects_recoverExhausted r).trans hsel) rfl⟩
  · rw [if_neg hz]
    exact .inl rfl

/-- A recovered table has no zombies at the same instant. -/
theorem zombies_recovered : zombies b.now (recovered b t) = [] := by
  rw [zombies, rows_recovered, List.filter_map, List.map_eq_nil_iff, List.filter_eq_nil_iff]
  intro r _
  rw [Function.comp_apply, recoverRow]
  by_cases hz : isZombie b.now r = true
  · rw [if_pos hz]
    split <;> exact Bool.false_ne_true
  · rwa [if_neg hz]

/-- The zombies in the order of the results: those with an attempt left, and then the others. -/
def recoveryOrder (b : Began) (t : Table TaskRow.id) : List TaskRow :=
  t.rows.filter (selectsRetryable b.now) ++ t.rows.filter (selectsExhausted b.now)

theorem perm_recoveryOrder : (recoveryOrder b t).Perm (zombies b.now t) := by
  have hretry : t.rows.filter (selectsRetryable b.now) =
      (zombies b.now t).filter TaskRow.retryable := by
    rw [zombies, List.filter_filter]
    exact List.filter_congr fun r _ => Bool.and_comm _ _
  have hexhausted : t.rows.filter (selectsExhausted b.now) =
      (zombies b.now t).filter fun r => !r.retryable := by
    rw [zombies, List.filter_filter]
    exact List.filter_congr fun r _ => Bool.and_comm _ _
  rw [recoveryOrder, hretry, hexhausted]
  exact List.filter_append_perm _ _

end Updates

/-! ## The results -/

section Results

variable {b : Began} {t : Table TaskRow.id} {what : String} {outcome : RecoveryOutcome}
  {r : TaskRow}

/-- What is returned about a row is its report. -/
theorem reports_of_recoveredTask {r' : TaskRow} {x : RecoveredTask} (hsame : SameTask r r')
    (hkind : r.kind.isEmpty = false) (hout : outcome = if r.retryable then .recovered else .failed)
    (h : recoveredTask what outcome r' = .ok x) :
    Reports x r ∧ QueueName.validate r.queue = .ok () := by
  by_cases hqueue : QueueName.validate r'.queue = .ok ()
  · rw [recoveredTask_of_valid (hsame.kind ▸ hkind) hqueue] at h
    cases h
    exact ⟨⟨hsame.id, hsame.queue, hsame.kind, hsame.traceId, hout⟩, hsame.queue ▸ hqueue⟩
  · obtain ⟨e, he⟩ := recoveredTask_of_not_valid what outcome hqueue
    rw [he] at h
    cases h

/-- The results of some rows of one outcome are their reports, where all of them can be made. -/
theorem forall₂_reports {rs : List TaskRow} {f : TaskRow → TaskRow} (hf : ∀ r, SameTask r (f r))
    (hrs : ∀ r ∈ rs, r.kind.isEmpty = false ∧ outcome = if r.retryable then .recovered else .failed)
    {xs : List RecoveredTask} (h : (rs.map f).mapM (recoveredTask what outcome) = .ok xs) :
    List.Forall₂ Reports xs rs ∧ ∀ r ∈ rs, QueueName.validate r.queue = .ok () := by
  have hall := List.forall₂_map_left_iff.mp (forall₂_of_mapM h)
  clear h
  induction hall with
  | nil => exact ⟨.nil, List.forall_mem_nil _⟩
  | cons hx _ ih =>
    obtain ⟨⟨hkind, hout⟩, hrs⟩ := List.forall_mem_cons.mp hrs
    obtain ⟨hreports, hqueue⟩ := reports_of_recoveredTask (hf _) hkind hout hx
    obtain ⟨hall, hqueues⟩ := ih hrs
    exact ⟨.cons hreports hall, List.forall_mem_cons.mpr ⟨hqueue, hqueues⟩⟩

/-- Where a row cannot be returned, its queue name is not valid. -/
theorem exists_not_valid {rs : List TaskRow} {f : TaskRow → TaskRow} (hf : ∀ r, SameTask r (f r))
    (hkind : ∀ r ∈ rs, r.kind.isEmpty = false) {e : RepoError}
    (h : (rs.map f).mapM (recoveredTask what outcome) = .error e) :
    ∃ r ∈ rs, QueueName.validate r.queue ≠ .ok () := by
  obtain ⟨r', hr', he⟩ := exists_of_mapM_eq_error h
  obtain ⟨r, hr, rfl⟩ := List.mem_map.mp hr'
  refine ⟨r, hr, fun hqueue => ?_⟩
  rw [← (hf r).queue] at hqueue
  rw [recoveredTask_of_valid ((hf r).kind ▸ hkind r hr) hqueue] at he
  cases he

/-- What a recovery returns about the zombies of a table. -/
def zombieResults (b : Began) (t : Table TaskRow.id) : Except RepoError (List RecoveredTask) :=
  recoveredTasks (retriedRows b t) (exhaustedRows b t)

/-- The results of a recovery are the reports of the zombies, or one of these has a queue name that
is not valid. -/
theorem zombieResults_cases (ht : Constrained t) (b : Began) :
    (∃ xs, zombieResults b t = .ok xs ∧ List.Forall₂ Reports xs (recoveryOrder b t) ∧
        ∀ r ∈ zombies b.now t, QueueName.validate r.queue = .ok ()) ∨
      (∃ e, zombieResults b t = .error e) ∧
        ∃ r ∈ zombies b.now t, QueueName.validate r.queue ≠ .ok () := by
  have hmem : ∀ r ∈ recoveryOrder b t, r ∈ zombies b.now t :=
    fun r hr => perm_recoveryOrder.mem_iff.mp hr
  have hkind : ∀ r ∈ recoveryOrder b t, r.kind.isEmpty = false :=
    fun r hr => ht.kind r (mem_zombies.mp (hmem r hr)).1
  -- each update has rows of one outcome
  have hretry : ∀ r ∈ t.rows.filter (selectsRetryable b.now), r.kind.isEmpty = false ∧
      RecoveryOutcome.recovered = if r.retryable then .recovered else .failed := by
    intro r hr
    have hr' := (Bool.and_eq_true_iff.mp (List.mem_filter.mp hr).2).2
    exact ⟨hkind r (List.mem_append_left _ hr), by rw [if_pos hr']⟩
  have hexhausted : ∀ r ∈ t.rows.filter (selectsExhausted b.now), r.kind.isEmpty = false ∧
      RecoveryOutcome.failed = if r.retryable then .recovered else .failed := by
    intro r hr
    have hr' := (Bool.and_eq_true_iff.mp (List.mem_filter.mp hr).2).2
    refine ⟨hkind r (List.mem_append_right _ hr), ?_⟩
    rw [if_neg (by simpa using hr')]
  have hsame : ∀ r, SameTask r (recoveredVersion b r) :=
    fun r => ⟨rfl, rfl, rfl, rfl, rfl, rfl, rfl, rfl, rfl⟩
  have hsame' : ∀ r, SameTask r (exhaustedVersion b r) :=
    fun r => ⟨rfl, rfl, rfl, rfl, rfl, rfl, rfl, rfl, rfl⟩
  -- the rows with attempts left are decoded first
  unfold zombieResults recoveredTasks
  cases hrs : (retriedRows b t).mapM (recoveredTask "recovered" .recovered) with
  | error e =>
    obtain ⟨r, hr, hbad⟩ := exists_not_valid hsame (fun r hr => (hretry r hr).1) hrs
    exact .inr ⟨⟨e, rfl⟩, r, hmem r (List.mem_append_left _ hr), hbad⟩
  | ok xs =>
    obtain ⟨hxs, hqueue⟩ := forall₂_reports hsame hretry hrs
    cases hws : (exhaustedRows b t).mapM (recoveredTask "exhausted" .failed) with
    | error e =>
      obtain ⟨r, hr, hbad⟩ := exists_not_valid hsame' (fun r hr => (hexhausted r hr).1) hws
      exact .inr ⟨⟨e, rfl⟩, r, hmem r (List.mem_append_right _ hr), hbad⟩
    | ok ys =>
      obtain ⟨hys, hqueue'⟩ := forall₂_reports hsame' hexhausted hws
      refine .inl ⟨xs ++ ys, rfl, List.rel_append hxs hys, fun r hr => ?_⟩
      rcases List.mem_append.mp (perm_recoveryOrder.mem_iff.mpr hr) with hr | hr
      · exact hqueue r hr
      · exact hqueue' r hr

end Results

/-! ## One recovery -/

section Served

variable {a : Bool} {b : Began} {t : Table TaskRow.id} {log : List (ℕ × AuditRow)} {n sid : ℕ}
  {o : Outcome} {db : System}

/-- The audit rows of a recovery. -/
def recoveryLogs (a : Bool) (b : Began) (t : Table TaskRow.id) : List AuditRow :=
  if a then (recoveryOrder b t).map (recoveryAudit b) else []

/-- The ways a recovery can end. -/
inductive RecoveryEnds (a : Bool) (b : Began) (t : Table TaskRow.id) (log : List (ℕ × AuditRow))
    (n sid : ℕ) : Outcome → System → Prop
  /-- An audit write has panicked. -/
  | failed {n'} : (∃ r ∈ zombies b.now t, ¬ Loggable a r.traceId) →
      RecoveryEnds a b t log n sid (.failed sid (recovery a) none) (.idle t log n')
  /-- A zombie cannot be returned, and the transaction is rolled back. -/
  | refused {e n'} : (∃ r ∈ zombies b.now t, QueueName.validate r.queue ≠ .ok ()) →
      RecoveryEnds a b t log n sid (.returned sid (recovery a) b (.error e)) (.idle t log n')
  | recovered {changes results n'} : (∀ r ∈ zombies b.now t, Reportable a r) →
      List.Forall₂ Reports results (recoveryOrder b t) →
      RecoveryEnds a b t log n sid
        (.committed sid (recovery a) b changes (numbered n (recoveryLogs a b t))
          (.ok (.recovered results)))
        (.idle (recovered b t) (log ++ numbered n (recoveryLogs a b t)) n')

theorem execUpdate_recoverRetryable (ht : Constrained t) {e : Env} (he : ScansAll t e) :
    execUpdate b e t.rows allFree .recoverRetryable =
      .ok (retriedRows b t) :=
  execUpdate_of_scan ht he (fun _ _ _ _ => by simp) rfl fun _ => rfl

theorem execUpdate_recoverExhausted (ht : Constrained t) {e : Env} (he : ScansAll t e) :
    execUpdate b e (retried b t).rows allFree .recoverExhausted =
      .ok (exhaustedRows b t) := by
  have hscans : ScansAll (retried b t) e := by
    intro r hr
    rw [rows_retried] at hr
    obtain ⟨x, hx, rfl⟩ := List.mem_map.mp hr
    split
    · exact he x hx
    · exact he x hx
  have h := execUpdate_of_scan (constrained_retried ht) hscans (u := .recoverExhausted)
    (fun _ _ _ _ => by simp) rfl (f := exhaustedVersion b) fun _ => rfl
  simp only [selects_recoverExhausted] at h
  rw [h, filter_retried, exhaustedRows]

theorem mem_retriedRows {row : TaskRow} (h : row ∈ retriedRows b t) :
    ∃ r ∈ zombies b.now t, recoveredVersion b r = row := by
  obtain ⟨r, hr, heq⟩ := List.mem_map.mp h
  exact ⟨r, perm_recoveryOrder.mem_iff.mp (List.mem_append_left _ hr), heq⟩

theorem mem_exhaustedRows {row : TaskRow} (h : row ∈ exhaustedRows b t) :
    ∃ r ∈ zombies b.now t, exhaustedVersion b r = row := by
  obtain ⟨r, hr, heq⟩ := List.mem_map.mp h
  exact ⟨r, perm_recoveryOrder.mem_iff.mp (List.mem_append_right _ hr), heq⟩

/-- A zombie is stored after both updates. -/
theorem exists_recovered {r : TaskRow} (h : r ∈ zombies b.now t) :
    ∃ w ∈ (t.putAll (retriedRows b t ++ exhaustedRows b t)).rows, w.id = r.id := by
  have hrows : (t.putAll (retriedRows b t ++ exhaustedRows b t)).rows = t.rows.map (recoverRow b) := by
    rw [Table.putAll_append]
    exact rows_recovered
  rw [hrows]
  refine ⟨_, List.mem_map_of_mem (mem_zombies.mp h).1, ?_⟩
  unfold recoverRow
  split
  · split <;> rfl
  · rfl

theorem exists_retried (row : TaskRow) (h : row ∈ retriedRows b t) :
    ∃ w ∈ (t.putAll (retriedRows b t ++ exhaustedRows b t)).rows,
      w.id = (recoveredEntry row).taskId := by
  obtain ⟨r, hr, rfl⟩ := mem_retriedRows h
  obtain ⟨w, hw, hid⟩ := exists_recovered hr
  exact ⟨w, hw, hid⟩

theorem exists_exhausted (row : TaskRow) (h : row ∈ exhaustedRows b t) :
    ∃ w ∈ (t.putAll (retriedRows b t ++ exhaustedRows b t)).rows,
      w.id = (exhaustedEntry row).taskId := by
  obtain ⟨r, hr, rfl⟩ := mem_exhaustedRows h
  obtain ⟨w, hw, hid⟩ := exists_recovered hr
  exact ⟨w, hw, hid⟩

/-- The two loops append the audit rows of the zombies. -/
theorem logged_eq_recoveryLogs :
    logged a b ((retriedRows b t).map
        recoveredEntry) ++
      logged a b ((exhaustedRows b t).map
        exhaustedEntry) = recoveryLogs a b t := by
  cases a with
  | false => rfl
  | true =>
    rw [logged_true, logged_true, recoveryLogs, if_pos rfl, recoveryOrder, List.map_append,
      retriedRows, exhaustedRows, List.map_map, List.map_map, List.map_map, List.map_map]
    congr 1
    · apply List.map_congr_left
      intro r hr
      have hretry := (Bool.and_eq_true_iff.mp (List.mem_filter.mp hr).2).2
      rw [recoveryAudit, if_pos hretry]
      rfl
    · apply List.map_congr_left
      intro r hr
      have hretry := (Bool.and_eq_true_iff.mp (List.mem_filter.mp hr).2).2
      rw [recoveryAudit, if_neg (by simpa using hretry)]
      rfl

/-- **The ways a recovery can end** that is served undisturbed. -/
theorem served_recoverZombieTasks (ht : Constrained t)
    (h : Served t log n sid (recovery a) b o db) : RecoveryEnds a b t log n sid o db := by
  obtain ⟨vs, ls, fin, hx, rfl, rfl⟩ := served_iff.mp h
  obtain ⟨e, he, hx⟩ := executes_update.mp hx
  rw [Table.putAll_nil, execUpdate_recoverRetryable ht he] at hx
  obtain ⟨_, hx, -⟩ | ⟨rs, hrs, hx⟩ := hx
  · cases hx
  cases hrs
  obtain ⟨e', he', hx⟩ := executes_update.mp hx
  have hretried : t.putAll ([] ++ retriedRows b t) =
      retried b t := rfl
  rw [hretried, execUpdate_recoverExhausted ht he'] at hx
  obtain ⟨_, hx, -⟩ | ⟨ws, hws, hx⟩ := hx
  · cases hx
  cases hws
  -- both updates are done, and the audit loops follow
  rw [List.nil_append] at hx
  rcases executes_forM_insertAuditRow recoveredEntry exists_retried hx with
    ⟨hlog₁, hx⟩ | ⟨⟨row, hrow, hbad⟩, rfl, rfl⟩
  · rcases executes_forM_insertAuditRow exhaustedEntry exists_exhausted hx with
      ⟨hlog₂, hx⟩ | ⟨⟨row, hrow, hbad⟩, rfl, rfl⟩
    · have hloggable : ∀ r ∈ zombies b.now t, Loggable a r.traceId := by
        intro r hr
        rcases List.mem_append.mp (perm_recoveryOrder.mem_iff.mpr hr) with hr | hr
        · exact hlog₁ (recoveredVersion b r) (List.mem_map_of_mem hr)
        · exact hlog₂ (exhaustedVersion b r) (List.mem_map_of_mem hr)
      rw [List.nil_append, logged_eq_recoveryLogs] at hx
      rcases zombieResults_cases ht b with ⟨xs, hxs, hall, hqueue⟩ | ⟨⟨err, herr⟩, r, hr, hbad⟩
      · unfold zombieResults at hxs
        rw [hxs] at hx
        cases hx
        rw [Ending.leaves, Table.putAll_append]
        exact .recovered (fun r hr => ⟨hqueue r hr, hloggable r hr⟩) hall
      · unfold zombieResults at herr
        rw [herr] at hx
        cases hx
        exact .refused ⟨r, hr, hbad⟩
    · obtain ⟨r, hr, rfl⟩ := mem_exhaustedRows hrow
      exact .failed ⟨r, hr, hbad⟩
  · obtain ⟨r, hr, rfl⟩ := mem_retriedRows hrow
    exact .failed ⟨r, hr, hbad⟩

end Served

/-! ## The partition -/

section Partition

variable (a : Bool) (b : Began) (t t' : Table TaskRow.id)

/-- A recovery that has left the table `t'`, with results and audit rows: exactly the zombies are
rewritten, and each of them has one report and one audit row. -/
structure PartitionsZombies (results : List RecoveredTask) (rows : List AuditRow) : Prop where
  table : ∀ id, t'.get id = (t.get id).map (recoverRow b)
  reported : ∃ zs, zs.Perm (zombies b.now t) ∧ List.Forall₂ Reports results zs
  audited : rows.Perm ((zombies b.now t).map (recoveryAudit b))

/-- A recovery served on the store commits and partitions its zombies; the sweeper's counters agree
with the results; and a second recovery at the same instant finds nothing and changes nothing. -/
def RecoversOnce (fromHex : String → Bool) (s : Store) : Prop :=
  ∀ log n sid o db, Served s.table log n sid (recovery a) b o db →
    ∃ changes rows results,
      o = .committed sid (recovery a) b changes rows (.ok (.recovered results)) ∧
        PartitionsZombies b s.table db.table results (rows.map Prod.snd) ∧ db.log = log ++ rows ∧
        CountsAgree results (sweepRecovered fromHex true results).2 ∧
        ∀ log' n' sid' o' db', Served db.table log' n' sid' (recovery a) b o' db' →
          (∃ changes', o' = .committed sid' (recovery a) b changes' [] (.ok (.recovered []))) ∧
            (∀ id, db'.table.get id = db.table.get id) ∧ db'.log = log'

variable {a b t}

theorem get_recovered (id : TaskId) : (recovered b t).get id = (t.get id).map (recoverRow b) := by
  refine Table.get_of_rows_map (fun r => ?_) rows_recovered id
  unfold recoverRow
  split
  · split <;> rfl
  · rfl

/-- Without zombies a recovery does nothing. -/
theorem served_of_no_zombies (ht : Constrained t) (hz : zombies b.now t = [])
    {log : List (ℕ × AuditRow)} {n sid : ℕ} {o : Outcome} {db : System}
    (h : Served t log n sid (recovery a) b o db) :
    (∃ changes, o = .committed sid (recovery a) b changes [] (.ok (.recovered []))) ∧
      (∀ id, db.table.get id = t.get id) ∧ db.log = log := by
  have hnil : recoveryOrder b t = [] := by
    have hperm := perm_recoveryOrder (b := b) (t := t)
    rw [hz] at hperm
    exact hperm.eq_nil
  have hlogs : recoveryLogs a b t = [] := by
    rw [recoveryLogs, hnil, List.map_nil, ite_self]
  cases served_recoverZombieTasks ht h with
  | failed hbad =>
    obtain ⟨r, hr, -⟩ := hbad
    rw [hz] at hr
    cases hr
  | refused hbad =>
    obtain ⟨r, hr, -⟩ := hbad
    rw [hz] at hr
    cases hr
  | recovered _ hall =>
    rw [hnil] at hall
    cases hall
    rw [hlogs, numbered_nil, List.append_nil]
    refine ⟨⟨_, rfl⟩, fun id => ?_, rfl⟩
    -- no stored row is rewritten, since a rewritten row would be a zombie
    apply (get_recovered id).trans
    cases hget : t.get id with
    | none => rfl
    | some r =>
      refine congrArg some (if_neg fun hzombie => ?_)
      have hmem := mem_zombies.mpr ⟨(Table.get_eq_some hget).1, isZombie_iff.mp hzombie⟩
      rw [hz] at hmem
      cases hmem

/-- **When a recovery partitions the zombie rows.** -/
theorem recovery_partition_iff (a : Bool) (b : Began) (fromHex : String → Bool) (s : Store) :
    RecoversOnce a b fromHex s ↔
      (a = true ∨ zombies b.now s.table = []) ∧ ∀ r ∈ zombies b.now s.table, Reportable a r := by
  constructor
  -- a recovery can always be served, and what is true of all runs is true of this one
  · intro h
    obtain ⟨o, db, hs⟩ := exists_served s.table [] 0 0 (recovery a) b
    obtain ⟨changes, rows, results, rfl, hpart, -⟩ := h [] 0 0 o db hs
    cases served_recoverZombieTasks s.constrained hs with
    | recovered hreportable =>
      refine ⟨?_, hreportable⟩
      have haudited := hpart.audited
      rw [map_snd_numbered, recoveryLogs] at haudited
      cases a with
      | true => exact .inl rfl
      | false => exact .inr (List.map_eq_nil_iff.mp haudited.symm.eq_nil)
  · rintro ⟨haudit, hreportable⟩ log n sid o db hs
    cases served_recoverZombieTasks s.constrained hs with
    | failed hbad =>
      obtain ⟨r, hr, hbad⟩ := hbad
      exact absurd (hreportable r hr).loggable hbad
    | refused hbad =>
      obtain ⟨r, hr, hbad⟩ := hbad
      exact absurd (hreportable r hr).queue hbad
    | @recovered changes results n' _ hall =>
      refine ⟨_, _, _, rfl, ⟨get_recovered, ⟨_, perm_recoveryOrder, hall⟩, ?_⟩, rfl,
        countsAgree_sweepRecovered results fromHex, fun log' n' sid' o' db' hs' => ?_⟩
      · rw [map_snd_numbered, recoveryLogs]
        -- without an audit log there is nothing to record, so there must have been no zombie
        rcases haudit with rfl | hnil
        · exact perm_recoveryOrder.map _
        · have hperm := perm_recoveryOrder (b := b) (t := s.table)
          rw [hnil] at hperm
          rw [hnil, hperm.eq_nil]
          simp
      · exact served_of_no_zombies (constrained_recovered s.constrained) zombies_recovered hs'

end Partition

/-- A running row whose lease has expired at 1, with a trace id that cannot be cut. -/
def longTracedZombie : TaskRow :=
  { insertedRow ⟨0⟩ (sampleTask .default) none with
    status := .running
    claimedBy := some sampleWorker
    claimedUntil := some 1
    traceId := some longTraceId }

/-- With the audit log on, no recovery recovers the row: cutting its trace id panics. -/
theorem longTraced_not_recovered :
    ¬ RecoversOnce true ⟨2⟩ (fun _ => true) (.single longTracedZombie rfl rfl) := by
  intro h
  have hzombie : longTracedZombie ∈
      zombies 2 (Store.single longTracedZombie rfl rfl).table :=
    mem_zombies.mpr ⟨Store.mem_single.mpr rfl, rfl, 1, rfl, by decide⟩
  obtain ⟨o, db, hs⟩ := exists_served (Store.single longTracedZombie rfl rfl).table [] 0 0
    (recovery true) ⟨2⟩
  obtain ⟨_, _, _, rfl, -⟩ := h [] 0 0 o db hs
  cases served_recoverZombieTasks (Store.single longTracedZombie rfl rfl).constrained hs with
  | recovered hreportable =>
    exact not_loggable_longTraceId (hreportable longTracedZombie hzombie).loggable

end IronDefer
