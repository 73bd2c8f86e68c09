import IronDefer.Application.Config
import IronDefer.Infrastructure.Recovery

/-!
# What the suspend watchdog does to the suspended rows

The watchdog is one update and an audit loop. Its timeout is a duration in nanoseconds, of which the
update is given the whole seconds only, as a double: it fails the rows that have been suspended for
longer than the interval made of these, and some of them have not been suspended for as long as the
timeout itself. From `2 ^ 39` seconds on the interval is rounded, and a row may be left for longer.

## Main definitions

* `TaskRow.Overdue`, `overdue`: the rows that have been suspended for longer than the timeout
* `cutOff`: the interval the update subtracts from its clock
* `TaskRow.Early`: the rows the update selects, though they are not overdue
* `TaskRow.Late`: the overdue rows it does not select
* `FailsOverdue`: exactly the overdue rows have failed, and each has been reported once
* `Subtractable`: the database can subtract the timeout

## Main results

* `cutOff_eq`: the interval is the whole seconds of the timeout, up to `2 ^ 39` of them
* `served_expireSuspendedTasks`: the ways the watchdog can end
* `not_late`, `not_early_of_whole`: no row is late for a timeout of less than `2 ^ 39` seconds, or
  early for one of whole seconds
* `suspend_watchdog_iff`: **when the watchdog fails exactly the overdue rows**
-/

namespace IronDefer

open RowStore Rounding

/-! ## Overdue rows -/

/-- The whole seconds of a timeout, in microseconds. -/
def wholeSeconds (timeout : Duration) : Int := ((timeout / 1000000000 : ℕ) : Int) * 1000000

/-- The interval the database makes of the whole seconds, which are given to it as a double. -/
def cutOff (timeout : Duration) : Int := micros (binary64.round (timeout / 1000000000 : ℕ))

/-- The row is suspended, and has been so for more than the timeout. -/
def TaskRow.Overdue (now : Timestamp) (timeout : Duration) (r : TaskRow) : Prop :=
  r.status = .suspended ∧
    ∃ t : Int, r.suspendedAt = some t ∧ t * 1000 + (timeout : Int) < now * 1000

/-- The row is suspended. Its time of suspension, which is the one of its last update where none is
stored, is before the interval, and not before the timeout. -/
def TaskRow.Early (now : Timestamp) (timeout : Duration) (r : TaskRow) : Prop :=
  r.status = .suspended ∧ r.suspendedAt.getD r.updatedAt < now - cutOff timeout ∧
    ∀ t : Int, r.suspendedAt = some t → now * 1000 ≤ t * 1000 + (timeout : Int)

/-- The row is overdue, and not before the interval. -/
def TaskRow.Late (now : Timestamp) (timeout : Duration) (r : TaskRow) : Prop :=
  r.Overdue now timeout ∧ now - cutOff timeout ≤ r.suspendedAt.getD r.updatedAt

def isOverdue (now : Timestamp) (timeout : Duration) (r : TaskRow) : Bool :=
  r.status = .suspended &&
    r.suspendedAt.any fun t : Int => decide (t * 1000 + (timeout : Int) < now * 1000)

theorem isOverdue_iff {now : Timestamp} {timeout : Duration} {r : TaskRow} :
    isOverdue now timeout r = true ↔ r.Overdue now timeout := by
  simp only [isOverdue, TaskRow.Overdue, Bool.and_eq_true, decide_eq_true_eq, Option.any_eq_true]

/-- The overdue rows of a table. -/
def overdue (now : Timestamp) (timeout : Duration) (t : Table TaskRow.id) : List TaskRow :=
  t.rows.filter (isOverdue now timeout)

/-- A row that is failed by the watchdog. -/
def expiredVersion (b : Began) (r : TaskRow) : TaskRow :=
  { r with
    status := .failed
    lastError := some "suspend timeout exceeded"
    updatedAt := b.now }

/-- What the watchdog is to make of a row. -/
def expireRow (b : Began) (timeout : Duration) (r : TaskRow) : TaskRow :=
  if isOverdue b.now timeout r then expiredVersion b r else r

/-- What is reported of an expired row. -/
structure ReportsExpired (x : TaskId × QueueName) (r : TaskRow) : Prop where
  id : x.1 = r.id
  queue : x.2.asStr = r.queue

/-- The call of the watchdog. -/
def watchdog (a : Bool) (timeout : Duration) : Call := ⟨a, .expireSuspendedTasks timeout, none⟩

/-- The database can turn the seconds into an interval and subtract it from its clock. -/
structure Subtractable (now : Timestamp) (timeout : Duration) : Prop where
  interval : cutOff timeout ≤ 9223372036854775807
  lower : -211813488000000000 ≤ now - cutOff timeout
  upper : now - cutOff timeout < 9223371331200000000

/-! ## The update -/

section Update

variable {b : Began} {timeout : Duration} {t : Table TaskRow.id}

/-- What the update selects. -/
def selectsExpired (now : Timestamp) (timeout : Duration) (r : TaskRow) : Bool :=
  r.status = .suspended && decide (r.suspendedAt.getD r.updatedAt < now - cutOff timeout)

theorem wholeSeconds_le (timeout : Duration) : wholeSeconds timeout * 1000 ≤ (timeout : Int) := by
  have hdiv := Nat.div_mul_le_self timeout 1000000000
  unfold wholeSeconds
  omega

/-- **The interval is the whole seconds of the timeout**, up to `2 ^ 39` of them. -/
theorem cutOff_eq (h : timeout < 549755813888000000000) : cutOff timeout = wholeSeconds timeout := by
  have hsecs : timeout / 1000000000 < 549755813888 := Nat.div_lt_of_lt_mul h
  unfold cutOff wholeSeconds
  generalize timeout / 1000000000 = secs at hsecs
  -- a million is odd times a power of two, so that it takes 14 bits only
  have hrep : binary64.Represents ((secs : ℚ) * 1000000) := by
    refine ⟨15625 * secs, 6, ?_, by decide, ?_⟩
    · rw [abs_of_nonneg (by positivity)]
      have hlt : 15625 * secs < 2 ^ 53 :=
        (Nat.mul_lt_mul_of_pos_left hsecs (by norm_num)).trans (by norm_num)
      exact_mod_cast hlt
    · push_cast
      ring
  have hround : binary64.round (secs : ℚ) = secs :=
    Format.round_eq_self (Format.represents_natCast (hsecs.trans (by decide)) (by decide))
      (by positivity)
  have hcast : (secs : ℚ) * 1000000 = ((secs * 1000000 : Int) : ℚ) := by push_cast; rfl
  rw [micros, hround, Format.round_eq_self hrep (by positivity), hcast, rint_intCast]

theorem cutOff_nonneg : 0 ≤ cutOff timeout := micros_nonneg (Format.round_nonneg (by positivity))

/-- What is selected is overdue and not late, or early. -/
theorem selectsExpired_iff {r : TaskRow} : selectsExpired b.now timeout r = true ↔
    r.Overdue b.now timeout ∧ ¬ r.Late b.now timeout ∨ r.Early b.now timeout := by
  constructor
  · intro h
    obtain ⟨hs, hlt⟩ := Bool.and_eq_true_iff.mp h
    have hs := of_decide_eq_true hs
    have hlt := of_decide_eq_true hlt
    -- what is selected and not overdue is early, by definition
    by_cases hover : ∃ t : Int, r.suspendedAt = some t ∧
        t * 1000 + (timeout : Int) < (b.now : Int) * 1000
    · exact .inl ⟨⟨hs, hover⟩, fun hlate => absurd hlt (Int.not_lt.mpr hlate.2)⟩
    · refine .inr ⟨hs, hlt, fun t ht => ?_⟩
      exact Int.not_lt.mp fun hlt => hover ⟨t, ht, hlt⟩
  · rintro (⟨hover, hlate⟩ | ⟨hs, hlt, -⟩)
    · have hlt := Int.not_le.mp fun hle => hlate ⟨hover, hle⟩
      exact Bool.and_eq_true_iff.mpr ⟨decide_eq_true hover.1, decide_eq_true hlt⟩
    · exact Bool.and_eq_true_iff.mpr ⟨decide_eq_true hs, decide_eq_true hlt⟩

theorem not_early_of_overdue {r : TaskRow} (h : r.Overdue b.now timeout) :
    ¬ r.Early b.now timeout := by
  rintro ⟨-, -, hle⟩
  obtain ⟨-, t, ht, hlt⟩ := h
  exact absurd hlt (Int.not_lt.mpr (hle t ht))

/-- The parameters are accepted exactly where the timeout can be subtracted. -/
theorem checkParams_expireSuspendedTasks :
    (Update.expireSuspendedTasks (timeout / 1000000000)).checkParams b = .ok () ↔
      Subtractable b.now timeout := by
  have hsecs : (0 : ℚ) ≤ (timeout / 1000000000 : ℕ) := by positivity
  have hinterval : ∀ us, makeInterval (binary64.round (timeout / 1000000000 : ℕ)) = .ok us ↔
      us = cutOff timeout ∧ us ≤ 9223372036854775807 := fun us =>
    makeInterval_eq_ok_iff (Format.represents_round hsecs) (Format.round_nonneg hsecs)
  -- the interval is made first, and then subtracted from the clock
  constructor
  · intro h
    obtain ⟨_, hok, h⟩ := exists_of_bind_ok h
    obtain ⟨rfl, hlong⟩ := (hinterval _).mp hok
    obtain ⟨_, hok, -⟩ := exists_of_bind_ok h
    obtain ⟨rfl, hlower, hupper⟩ := timestamp_eq_ok_iff.mp hok
    exact ⟨hlong, hlower, hupper⟩
  · intro h
    simp only [Update.checkParams, (hinterval _).mpr ⟨rfl, h.interval⟩,
      timestamp_eq_ok_iff.mpr ⟨rfl, h.lower, h.upper⟩, bind, Except.bind, pure, Except.pure]

/-- What the update selects. -/
def expiredRows (b : Began) (timeout : Duration) (t : Table TaskRow.id) : List TaskRow :=
  t.rows.filter (selectsExpired b.now timeout)

/-- What the update writes. -/
def expiredVersions (b : Began) (timeout : Duration) (t : Table TaskRow.id) : List TaskRow :=
  (expiredRows b timeout t).map (expiredVersion b)

/-- A row is selected that has been suspended before the interval. -/
theorem mem_expiredRows {r : TaskRow} {since : Timestamp} (hr : r ∈ t.rows)
    (hs : r.status = .suspended) (hsince : r.suspendedAt = some since)
    (hlt : since < b.now - cutOff timeout) : r ∈ expiredRows b timeout t := by
  refine List.mem_filter.mpr ⟨hr, ?_⟩
  rw [selectsExpired, hs, hsince]
  exact Bool.and_eq_true_iff.mpr ⟨rfl, decide_eq_true hlt⟩

theorem execUpdate_expireSuspendedTasks (ht : Constrained t) {e : Env} (he : ScansAll t e)
    (h : Subtractable b.now timeout) :
    execUpdate b e t.rows allFree (.expireSuspendedTasks (timeout / 1000000000)) =
      .ok (expiredVersions b timeout t) :=
  execUpdate_of_scan ht he (fun _ _ _ _ => by simp) (checkParams_expireSuspendedTasks.mpr h)
    fun _ => rfl

theorem execUpdate_expireSuspendedTasks_refused {e : Env} (h : ¬ Subtractable b.now timeout) :
    ∃ err, execUpdate b e t.rows allFree (.expireSuspendedTasks (timeout / 1000000000)) =
      .error err := by
  cases hparams : (Update.expireSuspendedTasks (timeout / 1000000000)).checkParams b with
  | ok u => exact absurd (checkParams_expireSuspendedTasks.mp hparams) h
  | error err =>
    refine ⟨err, ?_⟩
    rw [execUpdate, hparams]
    rfl

theorem rows_expired : (t.putAll (expiredVersions b timeout t)).rows = t.rows.map fun r =>
    if selectsExpired b.now timeout r then expiredVersion b r else r :=
  Table.rows_putAll_filter t fun _ => rfl

/-- Every expired row is stored after the update. -/
theorem exists_expired (row : TaskRow) (h : row ∈ expiredVersions b timeout t) :
    ∃ w ∈ (t.putAll (expiredVersions b timeout t)).rows, w.id = (expiredEntry row).taskId := by
  obtain ⟨r, hr, rfl⟩ := List.mem_map.mp h
  rw [rows_expired]
  refine ⟨_, List.mem_map_of_mem (List.mem_filter.mp hr).1, ?_⟩
  split <;> rfl

/-- Where no row is early or late, the update selects the overdue rows. -/
theorem expiredRows_eq (h : ∀ r ∈ t.rows, ¬ r.Early b.now timeout ∧ ¬ r.Late b.now timeout) :
    expiredRows b timeout t = overdue b.now timeout t := by
  apply List.filter_congr
  intro r hr
  rw [Bool.eq_iff_iff, selectsExpired_iff, isOverdue_iff, or_iff_left (h r hr).1,
    and_iff_left (h r hr).2]

end Update

/-! ## The call -/

section Served

variable {a : Bool} {b : Began} {timeout : Duration} {t : Table TaskRow.id}
  {log : List (ℕ × AuditRow)} {n sid : ℕ} {o : Outcome} {db : System}

/-- The ways the watchdog can end. -/
inductive WatchdogEnds (a : Bool) (b : Began) (timeout : Duration) (t : Table TaskRow.id)
    (sid : ℕ) : Outcome → System → Prop
  /-- The timeout cannot be subtracted. -/
  | outOfRange {err left} : ¬ Subtractable b.now timeout →
      WatchdogEnds a b timeout t sid (.failed sid (watchdog a timeout) (some err)) left
  /-- An audit write has panicked. -/
  | failed {left} : (∃ r ∈ expiredRows b timeout t, ¬ Loggable a r.traceId) →
      WatchdogEnds a b timeout t sid (.failed sid (watchdog a timeout) none) left
  /-- The rows have failed, and one of them cannot be reported. -/
  | unread {changes logs e left} :
      (∃ r ∈ expiredRows b timeout t, QueueName.validate r.queue ≠ .ok ()) →
      WatchdogEnds a b timeout t sid
        (.committed sid (watchdog a timeout) b changes logs (.error e)) left
  | expired {changes logs results left} : Subtractable b.now timeout →
      (∀ r ∈ expiredRows b timeout t, Reportable a r) →
      List.Forall₂ ReportsExpired results (expiredRows b timeout t) →
      left.table = t.putAll (expiredVersions b timeout t) →
      WatchdogEnds a b timeout t sid
        (.committed sid (watchdog a timeout) b changes logs (.ok (.expired results))) left

theorem reportsExpired_of_expiredTask {r : TaskRow} {x : TaskId × QueueName}
    (h : expiredTask (expiredVersion b r) = .ok x) :
    ReportsExpired x r ∧ QueueName.validate r.queue = .ok () := by
  have hqueue : QueueName.validate (expiredVersion b r).queue = .ok () := by
    by_contra hbad
    obtain ⟨e, he⟩ := expiredTask_of_not_valid hbad
    rw [he] at h
    cases h
  rw [expiredTask_of_valid hqueue] at h
  cases h
  exact ⟨⟨rfl, rfl⟩, hqueue⟩

/-- The reports follow the rows that are expired. -/
theorem forall₂_reportsExpired {rs : List TaskRow} {xs : List (TaskId × QueueName)}
    (h : (rs.map (expiredVersion b)).mapM expiredTask = .ok xs) :
    List.Forall₂ ReportsExpired xs rs ∧ ∀ r ∈ rs, QueueName.validate r.queue = .ok () := by
  have hall := List.forall₂_map_left_iff.mp (forall₂_of_mapM h)
  constructor
  · exact (hall.imp fun r x hx => (reportsExpired_of_expiredTask hx).1).flip
  · intro r hr
    obtain ⟨x, -, hx⟩ := exists_of_mem_right hall.flip hr
    exact (reportsExpired_of_expiredTask hx).2

/-- **The ways the watchdog can end** that is served undisturbed. -/
theorem served_expireSuspendedTasks (ht : Constrained t)
    (h : Served t log n sid (watchdog a timeout) b o db) : WatchdogEnds a b timeout t sid o db := by
  obtain ⟨vs, ls, fin, hx, rfl, rfl⟩ := served_iff.mp h
  obtain ⟨e, he, hx⟩ := executes_update.mp hx
  rw [Table.putAll_nil] at hx
  -- the parameters are checked before any row is read
  by_cases hsub : Subtractable b.now timeout
  · rw [execUpdate_expireSuspendedTasks ht he hsub] at hx
    obtain ⟨_, herr, -⟩ | ⟨rs, hrs, hx⟩ := hx
    · cases herr
    cases hrs
    rw [List.nil_append] at hx
    -- the update is done, and the audit loop follows
    rcases executes_forM_insertAuditRow expiredEntry exists_expired hx with
      ⟨hlog, hx⟩ | ⟨⟨row, hrow, hbad⟩, rfl, rfl⟩
    · have hloggable : ∀ r ∈ expiredRows b timeout t, Loggable a r.traceId := fun r hr =>
        hlog (expiredVersion b r) (List.mem_map_of_mem hr)
      cases hreports : (expiredVersions b timeout t).mapM expiredTask with
      | ok xs =>
        rw [hreports] at hx
        cases hx
        obtain ⟨hall, hqueue⟩ := forall₂_reportsExpired hreports
        exact .expired hsub (fun r hr => ⟨hqueue r hr, hloggable r hr⟩) hall rfl
      | error err =>
        rw [hreports] at hx
        cases hx
        obtain ⟨row, hrow, herr⟩ := exists_of_mapM_eq_error hreports
        obtain ⟨r, hr, rfl⟩ := List.mem_map.mp hrow
        exact .unread ⟨r, hr, expiredTask_eq_error_iff.mp ⟨err, herr⟩⟩
    · obtain ⟨r, hr, rfl⟩ := List.mem_map.mp hrow
      exact .failed ⟨r, hr, hbad⟩
  · obtain ⟨err, herr⟩ := execUpdate_expireSuspendedTasks_refused (t := t) (e := e) hsub
    rw [herr] at hx
    obtain ⟨_, -, rfl, rfl, rfl⟩ | ⟨rs, hrs, -⟩ := hx
    · exact .outOfRange hsub
    · cases hrs

end Served

/-! ## Exactly the overdue rows -/

section Exact

variable (a : Bool) (b : Began) (timeout : Duration) (t t' : Table TaskRow.id)

/-- The watchdog has left the table `t'`: exactly the overdue rows have failed, and each has been
reported once. -/
structure FailsOverdue (results : List (TaskId × QueueName)) : Prop where
  table : ∀ id, t'.get id = (t.get id).map (expireRow b timeout)
  reported : ∃ rs, rs.Perm (overdue b.now timeout t) ∧ List.Forall₂ ReportsExpired results rs

/-- The watchdog, served on the store, commits, and it has failed exactly the overdue rows. -/
def ExpiresExactly (s : Store) : Prop :=
  ∀ log n sid o db, Served s.table log n sid (watchdog a timeout) b o db →
    ∃ changes rows results,
      o = .committed sid (watchdog a timeout) b changes rows (.ok (.expired results)) ∧
        FailsOverdue b timeout s.table db.table results

variable {a b timeout t}

/-- The update leaves every row as it is to be exactly where no row is early or late. -/
theorem get_expired_iff :
    (∀ id, (t.putAll (expiredVersions b timeout t)).get id =
        (t.get id).map (expireRow b timeout)) ↔
      ∀ r ∈ t.rows, ¬ r.Early b.now timeout ∧ ¬ r.Late b.now timeout := by
  have hget : ∀ id, (t.putAll (expiredVersions b timeout t)).get id = (t.get id).map fun r =>
      if selectsExpired b.now timeout r then expiredVersion b r else r := by
    refine Table.get_of_rows_map (fun r => ?_) rows_expired
    split <;> rfl
  constructor
  · intro h r hr
    have hrow := (hget r.id).symm.trans (h r.id)
    simp only [Table.get_key_of_mem hr, Option.map_some, Option.some.injEq, expireRow] at hrow
    -- a suspended row that has been failed, or is to be, is not as it was
    have hchanged : r.status = .suspended → expiredVersion b r ≠ r := by
      intro hs heq
      have hstatus : TaskStatus.failed = r.status := congrArg TaskRow.status heq
      rw [hs] at hstatus
      cases hstatus
    constructor
    · intro hearly
      have hsel : selectsExpired b.now timeout r = true := selectsExpired_iff.mpr (.inr hearly)
      have hover : ¬ isOverdue b.now timeout r = true := fun hover =>
        not_early_of_overdue (isOverdue_iff.mp hover) hearly
      rw [if_pos hsel, if_neg hover] at hrow
      exact hchanged hearly.1 hrow
    · intro hlate
      have hover : isOverdue b.now timeout r = true := isOverdue_iff.mpr hlate.1
      have hsel : ¬ selectsExpired b.now timeout r = true := fun hsel =>
        (selectsExpired_iff.mp hsel).elim (fun h => h.2 hlate) (not_early_of_overdue hlate.1)
      rw [if_neg hsel, if_pos hover] at hrow
      exact hchanged hlate.1.1 hrow.symm
  · intro h id
    rw [hget id]
    apply Option.map_congr
    intro r hr
    have hiff : selectsExpired b.now timeout r = true ↔ isOverdue b.now timeout r = true := by
      obtain ⟨hearly, hlate⟩ := h r (Table.get_eq_some hr).1
      rw [selectsExpired_iff, isOverdue_iff, or_iff_left hearly, and_iff_left hlate]
    by_cases hsel : selectsExpired b.now timeout r = true
    · rw [if_pos hsel, expireRow, if_pos (hiff.mp hsel)]
    · rw [if_neg hsel, expireRow, if_neg fun hover => hsel (hiff.mpr hover)]

/-- **When the watchdog fails exactly the overdue rows, and reports each of them once.** -/
theorem suspend_watchdog_iff (a : Bool) (b : Began) (timeout : Duration) (s : Store) :
    ExpiresExactly a b timeout s ↔
      Subtractable b.now timeout ∧
        (∀ r ∈ s.table.rows, ¬ r.Early b.now timeout ∧ ¬ r.Late b.now timeout) ∧
        ∀ r ∈ overdue b.now timeout s.table, Reportable a r := by
  constructor
  · intro h
    -- it is served in some way, and this way tells what the store is like
    obtain ⟨o, db, hs⟩ := exists_served s.table [] 0 0 (watchdog a timeout) b
    obtain ⟨changes, rows, results, rfl, hexact⟩ := h [] 0 0 o db hs
    cases served_expireSuspendedTasks s.constrained hs with
    | expired hsub hreportable hall htable =>
      have hget := hexact.table
      rw [htable] at hget
      have hjudged := get_expired_iff.mp hget
      refine ⟨hsub, hjudged, ?_⟩
      rwa [expiredRows_eq hjudged] at hreportable
  · rintro ⟨hsub, hjudged, hreportable⟩ log n sid o db hs
    -- no other way to end is left
    have hrows := expiredRows_eq hjudged
    cases served_expireSuspendedTasks s.constrained hs with
    | outOfRange hbad => exact absurd hsub hbad
    | failed hbad =>
      obtain ⟨r, hr, hbad⟩ := hbad
      rw [hrows] at hr
      exact absurd (hreportable r hr).loggable hbad
    | unread hbad =>
      obtain ⟨r, hr, hbad⟩ := hbad
      rw [hrows] at hr
      exact absurd (hreportable r hr).queue hbad
    | expired _ _ hall htable =>
      rw [hrows] at hall
      refine ⟨_, _, _, rfl, fun id => ?_, _, .refl _, hall⟩
      rw [htable]
      exact get_expired_iff.mpr hjudged id

/-- **No row is late** for a timeout of less than `2 ^ 39` seconds, since the whole seconds are no
more than the timeout. -/
theorem not_late {now : Timestamp} {r : TaskRow} (h : timeout < 549755813888000000000) :
    ¬ r.Late now timeout := by
  rintro ⟨⟨-, t, ht, hlt⟩, hle⟩
  have hwhole := wholeSeconds_le timeout
  rw [ht, Option.getD_some, cutOff_eq h] at hle
  linarith

/-- No row with a time of suspension is early for a timeout of whole seconds, up to `2 ^ 39`. -/
theorem not_early_of_whole {now : Timestamp} {r : TaskRow} (h : timeout < 549755813888000000000)
    (hwhole : timeout % 1000000000 = 0) (hsince : r.suspendedAt.isSome) :
    ¬ r.Early now timeout := by
  rintro ⟨-, hlt, hle⟩
  obtain ⟨since, hsince⟩ := Option.isSome_iff_exists.mp hsince
  have hfull : (timeout : Int) = wholeSeconds timeout * 1000 := by
    have hdiv : 1000000000 * (timeout / 1000000000) + timeout % 1000000000 = timeout :=
      Nat.div_add_mod timeout 1000000000
    rw [hwhole, Nat.add_zero] at hdiv
    have hcast : (timeout : Int) = 1000000000 * ((timeout / 1000000000 : ℕ) : Int) := by
      exact_mod_cast hdiv.symm
    rw [wholeSeconds, hcast]
    omega
  have hle := hle since hsince
  rw [hsince, cutOff_eq h] at hlt
  rw [hfull] at hle
  -- a whole number of seconds is a whole number of microseconds
  have hgap : ∀ x y w : Int, x < y - w → ¬ y * 1000 ≤ x * 1000 + w * 1000 := by
    intro x y w hx
    omega
  exact hgap since now _ hlt hle

end Exact

/-! ## A timeout of one and a half seconds -/

/-- A row that has been suspended since 0. -/
def suspendedRow : TaskRow :=
  { insertedRow ⟨0⟩ (sampleTask .default) none with
    status := .suspended
    suspendedAt := some 0 }

/-- The timeout is accepted by the configuration, and a row that has been suspended for 1.2 seconds
is failed. -/
theorem suspended_failed_early :
    ({ WorkerConfig.default with suspendTimeout := 1500000000 }).validate = .ok () ∧
      ¬ ExpiresExactly false ⟨1200000⟩ 1500000000 (.single suspendedRow rfl rfl) := by
  refine ⟨by decide, fun h => ?_⟩
  have hearly : suspendedRow.Early 1200000 1500000000 := by
    refine ⟨rfl, ?_, fun t ht => ?_⟩
    · rw [cutOff_eq (by norm_num)]
      decide
    · cases ht
      decide
  obtain ⟨o, db, hs⟩ := exists_served (Store.single suspendedRow rfl rfl).table [] 0 0
    (watchdog false 1500000000) ⟨1200000⟩
  obtain ⟨_, _, _, rfl, hexact⟩ := h [] 0 0 o db hs
  cases served_expireSuspendedTasks (Store.single suspendedRow rfl rfl).constrained hs with
  | expired _ _ _ htable =>
    have hget := hexact.table
    rw [htable] at hget
    exact (get_expired_iff.mp hget suspendedRow (Store.mem_single.mpr rfl)).1 hearly

end IronDefer
