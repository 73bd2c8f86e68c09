import IronDefer.Infrastructure.Attempts
import IronDefer.Infrastructure.AuditEntries
import IronDefer.Infrastructure.Idempotency
import IronDefer.Infrastructure.Stranding
import IronDefer.RowStore.Rounds

/-!
# Every task comes to its end

Workers poll, and the sweeper recovers and expires, each in its rounds. A handler may return
anything or nothing, outcomes may be lost, and workers may crash: a round that comes late enough
finds each unfinished task with the statement that moves it on, unless a task has been moved before
in the same round. So every round takes a status change of some task, of which there are only so
many left, and after as many rounds every task is finished.

## Main definitions

* `Op.opens`: the operation submits tasks, or opens one again
* `TaskRow.due`: the columns that say when a task is moved on, and by whom
* `TaskRow.Serviceable`: what is asked of a row so that the calls that move it on can commit
* `Helps`: a call that moves a task on
* `ServedAlone`, `GoesOn`: a call is served by itself, or anything else goes on
* `Workable`: what the tasks are to satisfy that are moved on

## Main results

* `Runs.nears`: while nothing is opened, every task comes nearer to its end, or is due as before
* `Helps.moves`: a call that helps moves a task
* `tasks_finish`: **after as many rounds as there are status changes left, every task is finished**
-/

namespace IronDefer

open RowStore

/-! ## Nearing the end -/

/-- The operation submits tasks, or opens one again: it signals a task, or releases one. -/
def Op.opens : Op → Bool
  | save _ | saveIdempotent _ | inTx .. => true
  | signal .. | releaseLeaseForTask _ | releaseLeasesForWorker _ => true
  | claimNext .. | complete _ | fail .. | suspend _ | recoverZombieTasks | cancel _ => false
  | expireSuspendedTasks _ | cleanupExpiredIdempotencyKeys _ | writeCheckpoint .. => false
  | findById _ => false

/-- Nobody submits a task, or opens one again. -/
abbrev Closing : List Outcome → System → Move → Prop := Calls fun c => c.op.opens = false

theorem Op.tasks_of_closing {op : Op} (h : op.opens = false) : op.tasks = [] := by
  cases op with
  | save | saveIdempotent | inTx => cases h
  | _ => rfl

theorem Op.chargeOf_of_closing {op : Op} (h : op.opens = false) {u : Update} (hu : u ∈ op.updates)
    (r : TaskRow) : Life.chargeOf 2 3 (u.action r) = 0 := by
  have hretry : ∀ p : Prop, [Decidable p] →
      Life.chargeOf 2 3 (if p then .retry else .exhaust) = 0 := fun p _ => by split <;> rfl
  cases op with
  | save | saveIdempotent | inTx => cases h
  | signal | releaseLeaseForTask | releaseLeasesForWorker => cases h
  | findById => cases hu
  | fail =>
    obtain rfl := List.mem_singleton.mp hu
    exact hretry _
  | recoverZombieTasks =>
    rcases List.mem_cons.mp hu with rfl | hu
    · exact hretry _
    · obtain rfl := List.mem_singleton.mp hu
      exact hretry _
  | _ =>
    obtain rfl := List.mem_singleton.mp hu
    rfl

/-- The columns of a task that say when it is moved on, and by whom. -/
structure Due where
  status : TaskStatus
  queue : String
  region : Option String
  scheduledAt : Timestamp
  claimedUntil : Option Timestamp
  suspendedAt : Option Timestamp
  deriving DecidableEq

def TaskRow.due (r : TaskRow) : Due :=
  ⟨r.status, r.queue, r.region, r.scheduledAt, r.claimedUntil, r.suspendedAt⟩

/-- What is asked of a row so that the calls that move it on can commit: its trace id can be logged,
its attempts counted on, if a claim comes next, and its times decoded. -/
structure TaskRow.Serviceable (a : Bool) (r : TaskRow) : Prop where
  loggable : Loggable a r.traceId
  countable : r.status = .pending → r.attempts.val < 2147483647
  created : r.createdAt ≤ maxTimestamp
  expires : ∀ t, r.idempotencyExpiresAt = some t → t ≤ maxTimestamp

theorem TaskRow.Serviceable.readable {a : Bool} {r : TaskRow} (h : r.Serviceable a)
    (hs : r.suspendedAt = none) : r.Readable := by
  rw [TaskRow.Readable, TaskRow.lasting, hs, Option.toList_none, List.append_nil,
    List.forall_mem_cons]
  exact ⟨h.created, fun t ht => h.expires t (Option.mem_toList.mp ht)⟩

/-- Such a row can be claimed where it is eligible. -/
theorem TaskRow.Serviceable.claimable {a : Bool} {r : TaskRow} {b : Began} {lease : Duration}
    (h : r.Serviceable a) (hwell : r.WellFormed) (hs : r.status = .pending)
    (hlease : LeaseFits b lease) : Claimable a b lease r := by
  obtain ⟨-, -, hsusp⟩ := hwell.pending hs
  exact ⟨hlease, h.countable hs, h.readable hsusp, h.loggable⟩

/-- **After an update that opens nothing, no more is asked of a row.** -/
theorem Update.Rewrites.serviceable {a : Bool} {b : Began} {u : Update} {r r' : TaskRow}
    (h : Rewrites b u r r') (hcharge : Life.chargeOf 2 3 (u.action r) = 0) (hr : r.Serviceable a) :
    r'.Serviceable a where
  loggable := h.sameTask.traceId ▸ hr.loggable
  countable hs := by
    cases h with
    | retry _ hlt | recoverRetryable _ _ _ hlt =>
      exact Int.lt_of_lt_of_le hlt r.maxAttempts.upper
    | releaseLeasesForWorker | releaseLeaseForTask | signal => cases hcharge
    | cleanupExpiredIdempotencyKeys | writeCheckpoint => exact hr.countable hs
    | _ => cases hs
  created := h.sameTask.createdAt ▸ hr.created
  expires t ht := by
    rcases h.key with ⟨-, hkept⟩ | ⟨-, hcleared, -⟩
    · exact hr.expires t (hkept ▸ ht)
    · rw [hcleared] at ht
      cases ht

/-- The version `r'` is as near to the end of its task as `r`, and due as before, or nearer. -/
structure TaskRow.Nears (r r' : TaskRow) : Prop where
  same : SameTask r r'
  descends : Descends (fun w : TaskRow => w.life.movesLeft) TaskRow.due r r'
  serviceable : ∀ a, r.Serviceable a → r'.Serviceable a

theorem TaskRow.Nears.refl (r : TaskRow) : r.Nears r := ⟨.refl r, .refl, fun _ h => h⟩

theorem TaskRow.Nears.trans {r r' r'' : TaskRow} (h : r.Nears r') (h' : r'.Nears r'') :
    r.Nears r'' :=
  ⟨h.same.trans h'.same, h.descends.trans h'.descends,
    fun a hr => h'.serviceable a (h.serviceable a hr)⟩

/-- What is not finished has not been finished before. -/
theorem TaskRow.Nears.unfinished {r r' : TaskRow} (h : r.Nears r')
    (hterm : r'.status.isTerminal = false) : r.status.isTerminal = false := by
  by_contra hend
  have hzero : r.life.movesLeft = 0 :=
    Life.movesLeft_eq_zero_iff.mpr (Bool.eq_true_of_not_eq_false hend)
  have hzero' : r'.life.movesLeft = 0 := Nat.le_zero.mp (hzero ▸ h.descends.le)
  have hend' : r'.status.isTerminal = true := Life.movesLeft_eq_zero_iff.mp hzero'
  rw [hterm] at hend'
  cases hend'

/-- **What an update does that opens nothing**: it takes a status change, or keeps the columns by
which the task is due. -/
theorem Update.Rewrites.nears {b : Began} {u : Update} {r r' : TaskRow} (h : Rewrites b u r r')
    (hcharge : Life.chargeOf 2 3 (u.action r) = 0) : r.Nears r' := by
  refine ⟨h.sameTask, ?_, fun a hr => h.serviceable hcharge hr⟩
  by_cases htouch : u.action r = .touch
  · refine .inr ?_
    cases h with
    | cleanupExpiredIdempotencyKeys | writeCheckpoint => exact ⟨rfl, rfl⟩
    | retry _ hlt | recoverRetryable _ _ _ hlt => simp [action, hlt] at htouch
    | exhaust _ hle | recoverExhausted _ _ _ hle =>
      simp [action, Int.not_lt.mpr hle] at htouch
    | _ => cases htouch
  · have hle := h.step.movesLeft_le
    rw [if_neg htouch, hcharge] at hle
    exact .inl hle

section Runs

variable {t : Table TaskRow.id} {log : List (ℕ × AuditRow)} {n : ℕ} {os : List Outcome}
  {db : System}

/-- **While nothing is opened, every task comes nearer to its end**, or it is due as before. -/
theorem Runs.nears (h : Runs Closing (.idle t log n) os db) (id : TaskId) :
    Option.Rel TaskRow.Nears (t.get id) (db.table.get id) := by
  have hcalled := h.called (P := fun c => c.op.opens = false) (fun _ _ _ _ _ hok => hok) id
  have hlink := h.history_linked id
  cases ht : t.get id with
  | none =>
    -- a first change would be an insert
    have hnil : history id os = [] := by
      cases hhist : history id os with
      | nil => rfl
      | cons x xs =>
        have hx : x ∈ history id os := hhist ▸ List.mem_cons_self
        rw [hhist, ht] at hlink
        obtain ⟨task, htask, -⟩ := (h.caused id x hx).of_none hlink.1
        rw [Op.tasks_of_closing (hcalled x hx)] at htask
        cases htask
    rw [hnil, ht] at hlink
    rw [← linked_nil.mp hlink]
    exact .none
  | some r =>
    rw [ht] at hlink
    obtain ⟨r', hr', hnears⟩ := hlink.relates TaskRow.Nears.refl TaskRow.Nears.trans
      fun c hc w hold => by
        obtain ⟨x, hx, rfl⟩ := List.mem_map.mp hc
        have hcause := h.caused id x hx
        have hclosing := hcalled x hx
        generalize x.change = change at hcause hold
        cases hcause with
        | insert => cases hold
        | update hu hrw =>
          cases hold
          exact hrw.nears (Op.chargeOf_of_closing hclosing hu _)
    rw [hr']
    exact .some hnears

/-- What is called while nothing is opened goes on with a run of submissions. -/
theorem Runs.enqueuing_append {os ps : List Outcome} {db db' : System}
    (h : Runs Enqueuing .empty os db) (h' : Runs Closing db ps db') :
    Runs Enqueuing .empty (os ++ ps) db' := by
  refine Reaches.trans h (h'.calls_mono fun c hc task htask => ?_)
  rw [Op.tasks_of_closing hc] at htask
  cases htask

end Runs

/-! ## Calls that help -/

/-- A call that moves a task on which it finds with the columns of `r`. -/
inductive Helps (a : Bool) (r : TaskRow) : Call × Began → Prop
  /-- The lease has expired, and the task is recovered. -/
  | recovers {b t} : r.status = .running → r.claimedUntil = some t → t < b.now →
      Helps a r (recovery a, b)
  /-- The task has been suspended for longer than the timeout, and is failed. -/
  | expires {b timeout t} : Subtractable b.now timeout → r.status = .suspended →
      r.suspendedAt = some t → t < b.now - cutOff timeout → Helps a r (watchdog a timeout, b)
  /-- The task is due, and a worker takes it, or another one that comes first. -/
  | claims {b queue w lease region} : LeaseFits b lease → region.all storableText = true →
      r.Eligible queue region b.now → Helps a r (claimOf a queue w lease region, b)

/-- What helps a task helps it later, if it is due as before. -/
theorem Helps.of_due {a : Bool} {r r' : TaskRow} {c : Call × Began} (h : Helps a r c)
    (hdue : r'.due = r.due) : Helps a r' c := by
  have hstatus : r'.status = r.status := congrArg Due.status hdue
  have huntil : r'.claimedUntil = r.claimedUntil := congrArg Due.claimedUntil hdue
  have hsince : r'.suspendedAt = r.suspendedAt := congrArg Due.suspendedAt hdue
  have hqueue : r'.queue = r.queue := congrArg Due.queue hdue
  have hregion : r'.region = r.region := congrArg Due.region hdue
  have hat : r'.scheduledAt = r.scheduledAt := congrArg Due.scheduledAt hdue
  cases h with
  | recovers hs ht hlt => exact .recovers (hstatus.trans hs) (huntil.trans ht) hlt
  | expires hsub hs ht hlt => exact .expires hsub (hstatus.trans hs) (hsince.trans ht) hlt
  | claims hlease hreg hel =>
    have hregion' : r'.region = none ∨ r'.region = _ := hregion.symm ▸ hel.region
    exact .claims hlease hreg
      ⟨hqueue.trans hel.queue, hstatus.trans hel.pending, hat ▸ hel.due, hregion'⟩

/-- A call that opens nothing is served by itself, on a database without open transactions. -/
def ServedAlone (c : Call × Began) (s s' : System) : Prop :=
  c.1.op.opens = false ∧ s.sessions.rows = [] ∧
    ∃ sid o, Served s.table s.log s.nextId sid c.1 c.2 o s'

/-- Anything else goes on that opens nothing, up to a moment without open transactions. -/
def GoesOn (s s' : System) : Prop :=
  s.sessions.rows = [] ∧ s'.sessions.rows = [] ∧ ∃ os, Runs Closing s os s'

/-- What the tasks are to satisfy that are moved on: they are those of a run, and the same as in the
table `t₀`, and the calls that move on the unfinished ones can commit. -/
structure Workable (a : Bool) (t₀ : Table TaskRow.id) (s : System) : Prop where
  reached : ∃ os, Runs Enqueuing .empty os s
  quiet : s.sessions.rows = []
  same : ∀ id, Option.Rel SameTask (t₀.get id) (s.table.get id)
  serviceable : ∀ r ∈ s.table.rows, r.status.isTerminal = false → r.Serviceable a

/-- The status changes that the tasks of the table `t₀` have left. -/
def System.movesLeft (t₀ : Table TaskRow.id) (s : System) : ℕ :=
  (t₀.rows.map fun r => (s.table.get r.id).elim 0 fun w => w.life.movesLeft).sum

/-- When they are moved on, and by whom. -/
def System.due (t₀ : Table TaskRow.id) (s : System) : List (Option Due) :=
  t₀.rows.map fun r => (s.table.get r.id).map TaskRow.due

theorem System.eq_idle {s : System} (h : s.sessions.rows = []) :
    s = .idle s.table s.log s.nextId := by
  obtain ⟨t, log, n, ⟨rows, hnodup⟩⟩ := s
  cases h
  rfl

section Moves

variable {a : Bool} {t₀ : Table TaskRow.id} {s s' : System} {c : Call × Began} {r : TaskRow}

/-- The tasks are those of `t₀`. -/
theorem Workable.exists_origin (h : Workable a t₀ s) (hr : r ∈ s.table.rows) :
    ∃ r₀ ∈ t₀.rows, r₀.id = r.id := by
  have hrel := h.same r.id
  rw [Table.get_key_of_mem hr] at hrel
  generalize hr₀ : t₀.get r.id = o at hrel
  cases hrel with
  | some => exact ⟨_, Table.get_eq_some hr₀⟩

theorem Workable.constrained (h : Workable a t₀ s) : Constrained s.table := by
  obtain ⟨os, hr⟩ := h.reached
  exact hr.constrained

theorem Workable.valid (h : Workable a t₀ s) : ∀ r ∈ s.table.rows, r.Valid := by
  obtain ⟨os, hr⟩ := h.reached
  exact hr.valid.1

theorem Workable.wellFormed (h : Workable a t₀ s) : ∀ r ∈ s.table.rows, r.WellFormed := by
  obtain ⟨os, hr⟩ := h.reached
  exact hr.wellFormed_enqueued fun _ hc => hc

/-- **A call that helps moves a task**: not always the one it helps, but one. -/
theorem Helps.moves (h : Helps a r c) (hs : Workable a t₀ s) (hr : r ∈ s.table.rows)
    (hserved : ServedAlone c s s') :
    ∃ v ∈ s.table.rows, ∃ w, s'.table.get v.id = some w ∧ w.status ≠ v.status := by
  obtain ⟨-, -, sid, o, hserved⟩ := hserved
  cases h with
  | @recovers b t hstatus huntil hlt =>
    have hzombie : r ∈ zombies b.now s.table := mem_zombies.mpr ⟨hr, hstatus, t, huntil, hlt⟩
    have hmoves := (moves_recovery_iff hs.constrained hs.valid hzombie).mpr fun z hz => by
      obtain ⟨hzmem, hzstatus, -⟩ := mem_zombies.mp hz
      exact (hs.serviceable z hzmem (by rw [hzstatus]; rfl)).loggable
    exact ⟨r, hr, (hmoves _ _ _ _ _ hserved).2⟩
  | @expires b timeout t hsub hstatus hsince hlt =>
    have hexpired := mem_expiredRows hr hstatus hsince hlt
    have hmoves := (moves_watchdog_iff hs.constrained hs.valid hsub hexpired).mpr fun z hz => by
      obtain ⟨hzmem, hzsel⟩ := List.mem_filter.mp hz
      have hzstatus := of_decide_eq_true (Bool.and_eq_true_iff.mp hzsel).1
      exact (hs.serviceable z hzmem (by rw [hzstatus]; rfl)).loggable
    exact ⟨r, hr, (hmoves _ _ _ _ _ hserved).2⟩
  -- a claim may take another task, but not none, since this one is eligible
  | @claims b queue w lease region hlease hreg hel =>
    have hmem : r ∈ eligibleRows queue region b.now s.table := mem_eligibleRows.mpr ⟨hr, hel⟩
    cases served_claimNext hs.constrained hserved with
    | failed hbad =>
      rcases hbad with hbad | ⟨v, hv, hbad⟩
      · rw [hreg] at hbad
        cases hbad
      · obtain ⟨hvmem, hvel⟩ := mem_eligibleRows.mp hv.mem
        have hv := hs.serviceable v hvmem (by rw [hvel.pending]; rfl)
        exact absurd (hv.claimable (hs.wellFormed v hvmem) hvel.pending hlease) hbad
    | unclaimed _ hnone =>
      rw [hnone] at hmem
      cases hmem
    | @claimed v v' ls _ hfirst _ hversion =>
      obtain ⟨hvmem, hvel⟩ := mem_eligibleRows.mp hfirst.mem
      obtain ⟨_, _, -, hclaimed⟩ := (hversion.takesRow hfirst).claimed
      refine ⟨v, hvmem, _, hclaimed, ?_⟩
      rw [hvel.pending]
      exact fun hsame => (by cases hsame)

end Moves

/-! ## Rounds -/

section Rounds

variable {a : Bool} {t₀ : Table TaskRow.id} {s s' : System}

/-- **What goes on keeps the tasks workable**, and brings them nearer to their end. -/
theorem Workable.kept (h : Workable a t₀ s) (hgo : GoesOn s s') :
    Workable a t₀ s' ∧ Descends (System.movesLeft t₀) (System.due t₀) s s' := by
  obtain ⟨hquiet, hquiet', ps, hrun⟩ := hgo
  obtain ⟨os, hreached⟩ := h.reached
  have hnears : ∀ id, Option.Rel TaskRow.Nears (s.table.get id) (s'.table.get id) := by
    have hidle := hrun
    rw [System.eq_idle hquiet] at hidle
    exact hidle.nears
  -- every row is a later version of one that has been there
  have hold : ∀ r' ∈ s'.table.rows, ∃ r ∈ s.table.rows, r.Nears r' := by
    intro r' hr'
    have hrel := hnears r'.id
    rw [Table.get_key_of_mem hr'] at hrel
    generalize hr : s.table.get r'.id = o at hrel
    cases hrel with
    | some hnear => exact ⟨_, (Table.get_eq_some hr).1, hnear⟩
  refine ⟨⟨⟨os ++ ps, hreached.enqueuing_append hrun⟩, hquiet', fun id => ?_,
    fun r' hr' hterm => ?_⟩, .sum fun r₀ _ => ?_⟩
  · have hsame := h.same id
    have hrel := hnears id
    generalize s.table.get id = o at hsame hrel
    generalize s'.table.get id = o' at hrel
    cases hrel with
    | none => exact hsame
    | some hnear =>
      generalize t₀.get id = o₀ at hsame
      cases hsame with
      | some hsame => exact .some (hsame.trans hnear.same)
  · obtain ⟨r, hr, hnear⟩ := hold r' hr'
    exact hnear.serviceable a (h.serviceable r hr (hnear.unfinished hterm))
  · have hrel := hnears r₀.id
    simp only [Descends]
    generalize s.table.get r₀.id = o at hrel
    generalize s'.table.get r₀.id = o' at hrel
    cases hrel with
    | none => exact .inr ⟨rfl, rfl⟩
    | some hnear =>
      rcases hnear.descends with hlt | ⟨heq, hdue⟩
      · exact .inl hlt
      · exact .inr ⟨heq, congrArg some hdue⟩

/-- A call served by itself is one of the ways to go on. -/
theorem ServedAlone.goesOn {c : Call × Began} (h : ServedAlone c s s') : GoesOn s s' := by
  obtain ⟨hclosing, hquiet, sid, o, hserved⟩ := h
  refine ⟨hquiet, ?_, ?_⟩
  · obtain ⟨vs, ls, fin, -, -, rfl⟩ := served_iff.mp hserved
    rcases fin with (_ | _) | _ | _
    · rfl
    · rfl
    · rfl
    · rfl
  · obtain ⟨-, ps, -, hreaches⟩ := hserved
    rw [System.eq_idle hquiet]
    refine ⟨_, hreaches.mono fun os db ev hok => ?_⟩
    cases ev with
    | start sid call b =>
      obtain ⟨-, -, rfl, -⟩ := hok.1
      exact hclosing
    | exec | fault | finish => trivial

/-- A round of calls: each unfinished task has one that helps it. -/
def Round (a : Bool) (s : System) (cs : List (Call × Began)) : Prop :=
  ∀ r ∈ s.table.rows, r.status.isTerminal = false → ∃ c ∈ cs, Helps a r c

theorem System.exists_unfinished (h : s.movesLeft t₀ ≠ 0) :
    ∃ r₀ ∈ t₀.rows, ∃ r, s.table.get r₀.id = some r ∧ r.status.isTerminal = false := by
  by_contra hnone
  refine h (List.sum_eq_zero fun n hn => ?_)
  obtain ⟨r₀, hr₀, rfl⟩ := List.mem_map.mp hn
  cases hget : s.table.get r₀.id with
  | none => rfl
  | some r =>
    refine Life.movesLeft_eq_zero_iff.mpr ?_
    change r.status.isTerminal = true
    by_contra hterm
    exact hnone ⟨r₀, hr₀, r, hget, Bool.eq_false_iff.mpr hterm⟩

/-- **A round has a call that takes a status change**, whatever goes on before it in the round. -/
theorem Round.exists_helps {cs : List (Call × Began)} (h : Round a s cs)
    (hleft : s.movesLeft t₀ ≠ 0) : ∃ c ∈ cs, ∀ s₁ s₂, Workable a t₀ s₁ →
      s₁.due t₀ = s.due t₀ → ServedAlone c s₁ s₂ → s₂.movesLeft t₀ < s₁.movesLeft t₀ := by
  obtain ⟨r₀, hr₀, r, hr, hterm⟩ := System.exists_unfinished hleft
  obtain ⟨c, hc, hhelps⟩ := h r (Table.get_eq_some hr).1 hterm
  refine ⟨c, hc, fun s₁ s₂ hs₁ hdue hserved => ?_⟩
  -- the task is due as at the beginning of the round
  have hsame := List.map_inj_left.mp hdue r₀ hr₀
  rw [hr, Option.map_some, Option.map_eq_some_iff] at hsame
  obtain ⟨r₁, hr₁, hrdue⟩ := hsame
  obtain ⟨v, hv, w, hw, hne⟩ :=
    (hhelps.of_due hrdue).moves hs₁ (Table.get_eq_some hr₁).1 hserved
  refine (hs₁.kept hserved.goesOn).2.lt_of_view_ne fun hview => hne ?_
  obtain ⟨v₀, hv₀, hid⟩ := hs₁.exists_origin hv
  have hsame := List.map_inj_left.mp hview v₀ hv₀
  rw [hid, hw, Table.get_key_of_mem hv] at hsame
  exact congrArg Due.status (Option.some.inj hsame)

end Rounds

/-- **Every task comes to its end.** From any state of any run without open transactions whose
unfinished rows keep no call from committing, while nobody submits, releases or signals tasks: after
as many rounds as the tasks have status changes left every task is finished, whatever else goes on
in the rounds, whatever handlers return, and whichever outcomes are lost with their workers. -/
theorem tasks_finish {os : List Outcome} {db db' : System} (h : Runs Enqueuing .empty os db)
    (hquiet : db.sessions.rows = []) {a : Bool}
    (hserviceable : ∀ r ∈ db.table.rows, r.status.isTerminal = false → r.Serviceable a) {k : ℕ}
    (hrounds : Rounds ServedAlone GoesOn (Round a) k db db')
    (hk : (db.table.rows.map fun r => r.life.movesLeft).sum ≤ k) :
    ∀ r ∈ db.table.rows, ∃ r', db'.table.get r.id = some r' ∧ SameTask r r' ∧
      r'.status.isTerminal = true := by
  have hsum : db.movesLeft db.table = (db.table.rows.map fun r => r.life.movesLeft).sum := by
    refine congrArg List.sum (List.map_congr_left fun r hr => ?_)
    rw [Table.get_key_of_mem hr]
    rfl
  have hsame : ∀ id, Option.Rel SameTask (db.table.get id) (db.table.get id) := fun id => by
    cases db.table.get id with
    | none => exact .none
    | some r => exact .some (.refl r)
  obtain ⟨hworkable, hle⟩ := hrounds.le_sub (fun c s s' hs hserved => hs.kept hserved.goesOn)
    (fun s s' hs hgo => hs.kept hgo) (fun s cs _ hround => hround.exists_helps)
    (⟨⟨os, h⟩, hquiet, hsame, hserviceable⟩ : Workable a db.table db)
  have hzero : db'.movesLeft db.table = 0 := by omega
  intro r hr
  have hrel := hworkable.same r.id
  rw [Table.get_key_of_mem hr] at hrel
  generalize hr' : db'.table.get r.id = o at hrel
  cases hrel with
  | @some _ r' hsame =>
    have hend := List.sum_eq_zero_iff_forall_eq_nat.mp hzero _ (List.mem_map_of_mem hr)
    rw [hr'] at hend
    have hend : r'.life.movesLeft = 0 := hend
    exact ⟨r', rfl, hsame, Life.movesLeft_eq_zero_iff.mp hend⟩

/-- The sample task, of one attempt, has been submitted and claimed. -/
def lastAttempted : System := System.after (claimedMoves singleAttempt)

/-- The worker of the sample says nothing more. Its lease expires and the task is recovered, as
failed, since it has no attempt left; in the second round there is nothing to do. -/
theorem lost_attempt_finished : ∃ db', Rounds ServedAlone GoesOn (Round false) 2 lastAttempted db' ∧
    ∃ r, db'.table.get ⟨1⟩ = some r ∧ r.status.isTerminal = true := by
  have hsaves : Runs (Calls (Call.SavesOnly [sampleTask singleAttempt])) .empty _ lastAttempted :=
    Runs.of_moves (claimedMoves _) (by decide +kernel) (by decide +kernel)
  have h : Runs Enqueuing .empty _ lastAttempted :=
    hsaves.enqueuing (by simpa using enqueued_sampleTask _)
  have hquiet : lastAttempted.sessions.rows = [] := List.isEmpty_iff.mp (by decide +kernel)
  have hrunning : ∀ r ∈ lastAttempted.table.rows,
      r.status = .running ∧ r.claimedUntil = some 1000010 := by decide +kernel
  have hdated : ∀ r ∈ lastAttempted.table.rows,
      r.createdAt ≤ maxTimestamp ∧ r.idempotencyExpiresAt = none := by decide +kernel
  have hloggable : ∀ r ∈ lastAttempted.table.rows, Loggable false r.traceId :=
    fun _ _ hfalse => absurd hfalse Bool.false_ne_true
  have hleft : (lastAttempted.table.rows.map fun r => r.life.movesLeft).sum = 2 := by decide +kernel
  obtain ⟨o, db', hserved⟩ := exists_served lastAttempted.table lastAttempted.log
    lastAttempted.nextId 3 (recovery false) ⟨2000000⟩
  have halone : ServedAlone (recovery false, ⟨2000000⟩) lastAttempted db' :=
    ⟨rfl, hquiet, 3, o, hserved⟩
  -- the recovery can only commit, and it leaves no row unfinished
  have hterminal : ∀ r ∈ db'.table.rows, r.status.isTerminal = true := by
    cases served_recoverZombieTasks h.constrained hserved with
    | failed hbad =>
      obtain ⟨r, hr, hbad⟩ := hbad
      exact absurd (hloggable r (mem_zombies.mp hr).1) hbad
    | refused hbad =>
      obtain ⟨r, hr, hbad⟩ := hbad
      exact absurd (h.valid.1 r (mem_zombies.mp hr).1).queue hbad
    | recovered =>
      have hall : ∀ r ∈ (recovered ⟨2000000⟩ lastAttempted.table).rows,
          r.status.isTerminal = true := by decide +kernel
      exact hall
  -- the first round has the recovery, and the second one is empty
  have hrounds : Rounds ServedAlone GoesOn (Round false) 2 lastAttempted db' := by
    refine .round (fun r hr _ => ?_) (.serve halone .done) <|
      .round (fun r hr hterm => ?_) .done .done
    · obtain ⟨hs, huntil⟩ := hrunning r hr
      exact ⟨_, List.mem_cons_self, .recovers hs huntil (by decide)⟩
    · rw [hterminal r hr] at hterm
      cases hterm
  obtain ⟨r, hr, hid⟩ : ∃ r ∈ lastAttempted.table.rows, r.id = ⟨1⟩ := by decide +kernel
  have hserviceable : ∀ r ∈ lastAttempted.table.rows, r.status.isTerminal = false →
      r.Serviceable false := fun r hr _ => by
    obtain ⟨hcreated, hexpires⟩ := hdated r hr
    refine ⟨hloggable r hr, fun hs => ?_, hcreated, fun t ht => ?_⟩
    · rw [(hrunning r hr).1] at hs
      cases hs
    · rw [hexpires] at ht
      cases ht
  obtain ⟨r', hr', -, hterm⟩ :=
    tasks_finish h hquiet hserviceable hrounds (Nat.le_of_eq hleft) r hr
  exact ⟨db', hrounds, r', hid ▸ hr', hterm⟩

end IronDefer
