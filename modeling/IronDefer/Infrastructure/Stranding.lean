import IronDefer.Infrastructure.Claiming
import IronDefer.Infrastructure.TraceIds
import IronDefer.Infrastructure.Watchdog

/-!
# No task is stranded

What it takes to move an unfinished task on. Claims take a pending row from its scheduled time on, a
recovery takes a running one from the end of its lease on, and a suspended one can be signalled,
cancelled or expired. Each of these calls writes an audit row before it commits, where the audit log
is enabled, and a claim counts the attempt; so a row whose trace id cannot be cut, whose attempts
cannot be counted, or whose times cannot be decoded keeps the call from committing, for itself and
for the rows it takes with it.

## Main definitions

* `MovesRow`: a call, served undisturbed, commits and moves a row
* `TaskRow.MovedOn`: the calls that are for an unfinished row move it on
* `TaskRow.Decodable`, `Reported`: what is read back of a row can be decoded, and logged
* `Movable`: nothing in the rows of a table keeps these calls from committing

## Main results

* `moves_recovery_iff`, `moves_watchdog_iff`, `moves_signal_iff`, `moves_cancel_iff`: when each of
  the calls moves a row
* `claimed_of_claimable`: claims served one after the other take every due row
* `never_stranded_iff`: **submitted rows are well formed, and never stranded where they are
  movable**
-/

namespace IronDefer

open RowStore

/-! ## Moving a row -/

/-- Served undisturbed on the rows `t`, the call commits, and the row has another status. -/
def MovesRow (t : Table TaskRow.id) (c : Call) (b : Began) (r : TaskRow) : Prop :=
  ∀ log n sid o db, Served t log n sid c b o db →
    (∃ changes rows reply, o = .committed sid c b changes rows reply) ∧
      ∃ r', db.table.get r.id = some r' ∧ r'.status ≠ r.status

/-- The call of a signal. -/
def signalling (a : Bool) (id : TaskId) (payload : Option Json) : Call :=
  ⟨a, .signal id payload, none⟩

/-- The call of a cancellation. -/
def cancellation (a : Bool) (id : TaskId) : Call := ⟨a, .cancel id, none⟩

/-- The client can decode the times that neither a signal nor a cancellation writes. -/
structure TaskRow.Decodable (r : TaskRow) : Prop where
  scheduled : r.scheduledAt ≤ maxTimestamp
  claimed : ∀ t, r.claimedUntil = some t → t ≤ maxTimestamp
  readable : r.Readable

/-- The payload of a signal that is not over the limit, and that the database can store. -/
structure Deliverable (payload : Option Json) : Prop where
  size : checkSignalPayload payload = .ok ()
  storable : payload.all storableJson = true

section MovesRow

variable {a : Bool} {b : Began} {t : Table TaskRow.id} {r : TaskRow}

/-- A call that moves a row is served with a commit. -/
theorem MovesRow.exists_committed {c : Call} (h : MovesRow t c b r) :
    ∃ changes rows reply db, Served t [] 0 0 c b (.committed 0 c b changes rows reply) db := by
  obtain ⟨o, db, hs⟩ := exists_served t [] 0 0 c b
  obtain ⟨⟨changes, rows, reply, rfl⟩, -⟩ := h [] 0 0 o db hs
  exact ⟨changes, rows, reply, db, hs⟩

/-- **When a recovery moves a zombie.** -/
theorem moves_recovery_iff (ht : Constrained t) (hvalid : ∀ z ∈ t.rows, z.Valid)
    (hr : r ∈ zombies b.now t) :
    MovesRow t (recovery a) b r ↔ ∀ z ∈ zombies b.now t, Loggable a z.traceId := by
  obtain ⟨hmem, hzombie⟩ := mem_zombies.mp hr
  constructor
  · intro h
    obtain ⟨_, _, _, _, hs⟩ := h.exists_committed
    cases served_recoverZombieTasks ht hs with
    | recovered hreportable => exact fun z hz => (hreportable z hz).loggable
  · intro hlog log n sid o db hs
    -- the other ways the recovery can end are excluded
    cases served_recoverZombieTasks ht hs with
    | failed hbad =>
      obtain ⟨z, hz, hbad⟩ := hbad
      exact absurd (hlog z hz) hbad
    | refused hbad =>
      obtain ⟨z, hz, hbad⟩ := hbad
      exact absurd (hvalid z (mem_zombies.mp hz).1).queue hbad
    | recovered =>
      refine ⟨⟨_, _, _, rfl⟩, recoverRow b r, ?_, ?_⟩
      · exact (get_recovered r.id).trans (congrArg _ (Table.get_key_of_mem hmem))
      · rw [recoverRow, if_pos (isZombie_iff.mpr hzombie), hzombie.1]
        split
        · exact fun hsame => by cases hsame
        · exact fun hsame => by cases hsame

/-- **When the watchdog moves a row it selects.** -/
theorem moves_watchdog_iff {timeout : Duration} (ht : Constrained t)
    (hvalid : ∀ z ∈ t.rows, z.Valid) (hsub : Subtractable b.now timeout)
    (hr : r ∈ expiredRows b timeout t) :
    MovesRow t (watchdog a timeout) b r ↔ ∀ z ∈ expiredRows b timeout t, Loggable a z.traceId := by
  obtain ⟨hmem, hsel⟩ := List.mem_filter.mp hr
  have hqueue : ∀ z ∈ expiredRows b timeout t, QueueName.validate z.queue = .ok () := fun z hz =>
    (hvalid z (List.mem_filter.mp hz).1).queue
  constructor
  · intro h
    obtain ⟨_, _, _, _, hs⟩ := h.exists_committed
    cases served_expireSuspendedTasks ht hs with
    | unread hbad =>
      obtain ⟨z, hz, hbad⟩ := hbad
      exact absurd (hqueue z hz) hbad
    | expired _ hreportable => exact fun z hz => (hreportable z hz).loggable
  · intro hlog log n sid o db hs
    -- the other ways the watchdog can end are excluded
    cases served_expireSuspendedTasks ht hs with
    | outOfRange hbad => exact absurd hsub hbad
    | failed hbad =>
      obtain ⟨z, hz, hbad⟩ := hbad
      exact absurd (hlog z hz) hbad
    | unread hbad =>
      obtain ⟨z, hz, hbad⟩ := hbad
      exact absurd (hqueue z hz) hbad
    | expired _ _ _ htable =>
      refine ⟨⟨_, _, _, rfl⟩, expiredVersion b r, ?_, ?_⟩
      · rw [htable, Table.get_of_rows_map (fun v => by split <;> rfl) rows_expired,
          Table.get_key_of_mem hmem]
        exact congrArg some (if_pos hsel)
      · rw [of_decide_eq_true (Bool.and_eq_true_iff.mp hsel).1]
        exact fun hsame => by cases hsame

/-- The client can decode the row, and its audit write does not panic. -/
structure Reported (a : Bool) (traceId : Option String) (r : TaskRow) : Prop where
  times : ∀ t ∈ r.times, t ≤ maxTimestamp
  loggable : Loggable a traceId

/-- A call moves a row that updates it, reads it back, writes an audit row of it and commits, if
what it has written is reported. -/
theorem moves_iff_reported {c : Call} {u : Update} {r' : TaskRow} {x : AuditEntry}
    (hstatus : r'.status ≠ r.status) (hid : r'.id = r.id) (htask : x.taskId = r'.id)
    (hexec : ∀ e, execUpdate b e t.rows allFree u = (returned r').map fun r' => [r'])
    (hprogram : ∀ vs ls fin, Tx.Executes b t c.program [] [] vs ls fin → ∃ k reply,
      Tx.Executes b t (exec (.update u) >>= k) [] [] vs ls fin ∧
        k [r'] = insertAuditRow a x.taskId x.fromStatus x.toStatus x.workerId x.traceId x.metadata
          x.region >>= fun _ => .pure (.commit reply)) :
    MovesRow t c b r ↔ Reported a x.traceId r' := by
  have hstored : ∃ w ∈ (t.putAll [r']).rows, w.id = x.taskId :=
    ⟨r', Table.mem_put.mpr (.inl rfl), htask.symm⟩
  -- the update writes the row, and what it returns and the audit write decide
  have hends : ∀ vs ls fin, Tx.Executes b t c.program [] [] vs ls fin →
      Reported a x.traceId r' ∧ vs = [r'] ∧ (∃ reply, fin = .returned (.commit reply)) ∨
        ¬ Reported a x.traceId r' ∧ (fin = .unwound ∨ ∃ err, fin = .refused err) := by
    intro vs ls fin hx
    obtain ⟨k, reply, hx, hk⟩ := hprogram vs ls fin hx
    obtain ⟨e, -, hx⟩ := executes_update.mp hx
    rw [Table.putAll_nil, hexec e] at hx
    by_cases htimes : ∀ t ∈ r'.times, t ≤ maxTimestamp
    · rw [returned_eq_ok_iff.mpr ⟨rfl, htimes⟩] at hx
      obtain ⟨_, ⟨⟩, -⟩ | ⟨_, ⟨⟩, hx⟩ := hx
      rw [hk] at hx
      rcases (executes_insertAuditRow hstored).mp hx with ⟨hlog, hx⟩ | ⟨hbad, -, -, hfin⟩
      · cases hx
        exact .inl ⟨⟨htimes, hlog⟩, rfl, reply, rfl⟩
      · exact .inr ⟨fun h => hbad h.loggable, .inl hfin⟩
    · rw [returned, if_neg htimes] at hx
      obtain ⟨err, -, -, -, hfin⟩ | ⟨_, ⟨⟩, -⟩ := hx
      exact .inr ⟨fun h => htimes h.times, .inr ⟨err, hfin⟩⟩
  constructor
  · intro hmoves
    obtain ⟨_, _, _, _, hs⟩ := hmoves.exists_committed
    obtain ⟨vs, ls, fin, hx, ho, -⟩ := served_iff.mp hs
    rcases hends vs ls fin hx with ⟨hreported, -⟩ | ⟨-, rfl | ⟨err, rfl⟩⟩
    · exact hreported
    · cases ho
    · cases ho
  · intro hreported log n sid o db hs
    obtain ⟨vs, ls, fin, hx, rfl, rfl⟩ := served_iff.mp hs
    rcases hends vs ls fin hx with ⟨-, rfl, reply, rfl⟩ | ⟨hbad, -⟩
    · refine ⟨⟨_, _, _, rfl⟩, r', ?_, hstatus⟩
      show (t.put r').get r.id = some r'
      rw [← hid, Table.get_put_self]
    · exact absurd hreported hbad

/-- **When a signal moves a suspended row.** -/
theorem moves_signal_iff {payload : Option Json} (ht : Constrained t) (hmem : r ∈ t.rows)
    (hs : r.status = .suspended) (hpayload : Deliverable payload) :
    MovesRow t (signalling a r.id payload) b r ↔ Reported a r.traceId { r with
      status := .pending
      signalPayload := payload
      suspendedAt := none
      updatedAt := b.now } := by
  have hsel : ∀ w, (Update.signal r.id payload).selects b w = true ↔
      w.id = r.id ∧ w.status = .suspended := fun w => by simp [Update.selects]
  have hparams : (Update.signal r.id payload).checkParams b = .ok () := by
    rw [Update.checkParams, hpayload.storable]
    rfl
  refine moves_iff_reported (u := .signal r.id payload)
    (x := ⟨r.id, some "suspended", "pending", none, r.traceId, none, r.region⟩)
    ?_ rfl rfl (fun e => ?_) fun vs ls fin hx => ?_
  · rw [hs]
    exact fun hsame => by cases hsame
  · rw [execUpdate_of_key ht e hmem rfl (fun w hw => ((hsel w).mp hw).1) ((hsel r).mpr ⟨rfl, hs⟩),
      hparams]
    rfl
  · change Tx.Executes b t (signal a r.id payload) [] [] vs ls fin at hx
    rw [signal, hpayload.size] at hx
    exact ⟨_, _, hx, rfl⟩

/-- **When a cancellation moves a pending or a suspended row.** -/
theorem moves_cancel_iff (ht : Constrained t) (hmem : r ∈ t.rows)
    (hs : r.status = .pending ∨ r.status = .suspended) :
    MovesRow t (cancellation a r.id) b r ↔
      Reported a r.traceId { r with status := .cancelled, updatedAt := b.now } := by
  have hsel : ∀ w, (Update.cancel r.id).selects b w = true ↔
      w.id = r.id ∧ (w.status = .pending ∨ w.status = .suspended) := fun w => by
    simp [Update.selects]
  -- the statement finds the row in its snapshot
  have hattempt : cancelAttempt r.id (some r) = exec (.update (.cancel r.id)) :=
    if_pos (by rw [Option.any_some]; rcases hs with hs | hs <;> rw [hs] <;> rfl)
  refine moves_iff_reported (u := .cancel r.id) (x := ⟨r.id,
      some (if r.suspendedAt.isSome then "suspended" else "pending"), "cancelled", none, r.traceId,
        none, r.region⟩) ?_ rfl rfl (fun e => ?_) fun vs ls fin hx => ?_
  · rcases hs with hs | hs
    · rw [hs]
      exact fun hsame => by cases hsame
    · rw [hs]
      exact fun hsame => by cases hsame
  · rw [execUpdate_of_key ht e hmem rfl (fun w hw => ((hsel w).mp hw).1) ((hsel r).mpr ⟨rfl, hs⟩)]
    rfl
  · have hx := executes_selectById.mp hx
    rw [Table.putAll_nil, Table.get_key_of_mem hmem, hattempt] at hx
    exact ⟨_, _, hx, rfl⟩

end MovesRow

/-! ## Taking a due row -/

section Claims

variable {a : Bool} {queue : QueueName} {w : WorkerId} {lease : Duration} {region : Option String}
  {b : Began} {t t' : Table TaskRow.id} {log : List (ℕ × AuditRow)} {n : ℕ} {os : List Outcome}
  {r : TaskRow}

/-- **Claims served one after the other take every due row**, where each of them can be claimed and
there are as many claims as due rows. -/
theorem claimed_of_claimable (ht : Constrained t) (hreg : region.all storableText = true)
    (hall : ∀ x ∈ t.rows, x.Eligible queue region b.now → Claimable a b lease x)
    (hr : r ∈ eligibleRows queue region b.now t)
    (h : ServedAgain (claimOf a queue w lease region) b t log n os t')
    (hlen : (eligibleRows queue region b.now t).length ≤ os.length) : r ∈ claimedRows os := by
  obtain ⟨left, hperm, -, hleft⟩ := h.drains ht hreg fun x hx =>
    hall x (mem_eligibleRows.mp hx).1 (mem_eligibleRows.mp hx).2
  have hnil : left = [] := by
    by_contra hne
    have hsum := hperm.length_eq
    rw [List.length_append, hleft hne] at hsum
    exact hne (List.length_eq_zero_iff.mp (by omega))
  rw [hnil, List.append_nil] at hperm
  exact hperm.mem_iff.mpr hr

end Claims

/-! ## Moving on -/

/-- The calls that are for an unfinished row move it on. -/
structure TaskRow.MovedOn (a : Bool) (t : Table TaskRow.id) (r : TaskRow) : Prop where
  /-- From its scheduled time on, workers of the row's queue and region that claim one task after
  the other claim the row, as soon as they have claimed as often as there are due rows. -/
  pending : r.status = .pending → ∃ queue : QueueName, queue.asStr = r.queue ∧
    ∀ (w : WorkerId) lease region b, LeaseFits b lease → region.all storableText = true →
      r.Eligible queue region b.now → ∀ log n os t',
        ServedAgain (claimOf a queue w lease region) b t log n os t' →
          (eligibleRows queue region b.now t).length ≤ os.length → r ∈ claimedRows os
  /-- From the end of its lease on, a recovery moves the row. -/
  running : r.status = .running → ∃ expiry, r.claimedUntil = some expiry ∧
    ∀ b, expiry < b.now → MovesRow t (recovery a) b r
  /-- A signal and a cancellation move the row, and so does the watchdog from the timeout on. -/
  suspended : r.status = .suspended → ∃ since, r.suspendedAt = some since ∧ ∀ b,
    (b.now ≤ maxTimestamp →
      (∀ payload, Deliverable payload → MovesRow t (signalling a r.id payload) b r) ∧
        MovesRow t (cancellation a r.id) b r) ∧
      ∀ timeout, Subtractable b.now timeout → since < b.now - cutOff timeout →
        MovesRow t (watchdog a timeout) b r

/-- Nothing in the rows of a table keeps the calls that move them on from committing: the audit
writes of running and suspended rows do not panic, suspended rows can be decoded, and due rows can
be claimed. -/
structure Movable (a : Bool) (t : Table TaskRow.id) : Prop where
  loggable : ∀ r ∈ t.rows, r.status = .running ∨ r.status = .suspended → Loggable a r.traceId
  decodable : ∀ r ∈ t.rows, r.status = .suspended → r.Decodable
  claimable : ∀ r ∈ t.rows, ∀ queue lease region b, LeaseFits b lease →
    region.all storableText = true → r.Eligible queue region b.now → Claimable a b lease r

section MovedOn

variable {a : Bool} {t : Table TaskRow.id} {r : TaskRow}

/-- What a signal writes of a decodable row is reported. -/
theorem TaskRow.Decodable.signalled {payload : Option Json} {b : Began} (h : r.Decodable)
    (hlog : Loggable a r.traceId) (hnow : b.now ≤ maxTimestamp) : Reported a r.traceId { r with
      status := .pending
      signalPayload := payload
      suspendedAt := none
      updatedAt := b.now } where
  times := by
    refine TaskRow.forall_times_iff.mpr ⟨h.scheduled, hnow, h.claimed, fun t ht => h.readable t ?_⟩
    rw [TaskRow.lasting, Option.toList_none, List.append_nil] at ht
    rw [TaskRow.lasting, ← List.cons_append]
    exact List.mem_append_left _ ht
  loggable := hlog

/-- When a cancelled row is reported. -/
theorem reported_cancelled_iff {b : Began} (hnow : b.now ≤ maxTimestamp) :
    Reported a r.traceId { r with status := .cancelled, updatedAt := b.now } ↔
      r.Decodable ∧ Loggable a r.traceId := by
  constructor
  · intro h
    obtain ⟨hsched, -, huntil, hreadable⟩ := TaskRow.forall_times_iff.mp h.times
    exact ⟨⟨hsched, huntil, hreadable⟩, h.loggable⟩
  · rintro ⟨h, hlog⟩
    exact ⟨TaskRow.forall_times_iff.mpr ⟨h.scheduled, hnow, h.claimed, h.readable⟩, hlog⟩

/-- **A well-formed row of a movable table is moved on.** -/
theorem Movable.movedOn (h : Movable a t) (ht : Constrained t) (hvalid : ∀ z ∈ t.rows, z.Valid)
    (hr : r ∈ t.rows) (hwell : r.WellFormed) : r.MovedOn a t where
  pending hs := by
    refine ⟨⟨r.queue, (hvalid r hr).queue⟩, rfl, fun w lease region b hlease hreg hel log n os t'
      hserved hlen => ?_⟩
    exact claimed_of_claimable ht hreg (fun x hx hxel => h.claimable x hx _ _ _ _ hlease hreg hxel)
      (mem_eligibleRows.mpr ⟨hr, hel⟩) hserved hlen
  running hs := by
    obtain ⟨-, huntil, -⟩ := hwell.running hs
    obtain ⟨expiry, huntil⟩ := Option.isSome_iff_exists.mp huntil
    refine ⟨expiry, huntil, fun b hlt => ?_⟩
    refine (moves_recovery_iff ht hvalid (mem_zombies.mpr ⟨hr, hs, expiry, huntil, hlt⟩)).mpr ?_
    intro z hz
    obtain ⟨hzmem, hzombie⟩ := mem_zombies.mp hz
    exact h.loggable z hzmem (.inl hzombie.1)
  suspended hs := by
    obtain ⟨-, -, hsince⟩ := hwell.suspended hs
    obtain ⟨since, hsince⟩ := Option.isSome_iff_exists.mp hsince
    have hlog := h.loggable r hr (.inr hs)
    have hdecodable := h.decodable r hr hs
    refine ⟨since, hsince, fun b => ⟨fun hnow => ⟨fun payload hp => ?_, ?_⟩, fun timeout hsub hlt =>
      ?_⟩⟩
    · exact (moves_signal_iff ht hr hs hp).mpr (hdecodable.signalled hlog hnow)
    · exact (moves_cancel_iff ht hr (.inr hs)).mpr ((reported_cancelled_iff hnow).mpr
        ⟨hdecodable, hlog⟩)
    · refine (moves_watchdog_iff ht hvalid hsub (mem_expiredRows hr hs hsince hlt)).mpr ?_
      intro z hz
      obtain ⟨hzmem, hzsel⟩ := List.mem_filter.mp hz
      exact h.loggable z hzmem (.inr (of_decide_eq_true (Bool.and_eq_true_iff.mp hzsel).1))

/-- A row that claims take in the end can be claimed. -/
theorem TaskRow.MovedOn.claimable (h : r.MovedOn a t) (ht : Constrained t)
    {queue : QueueName} {lease : Duration} {region : Option String} {b : Began}
    (hlease : LeaseFits b lease) (hreg : region.all storableText = true)
    (hel : r.Eligible queue region b.now) : Claimable a b lease r := by
  obtain ⟨queue', hqueue, hclaimed⟩ := h.pending hel.pending
  have hel' : r.Eligible queue' region b.now := ⟨hqueue.symm, hel.pending, hel.due, hel.region⟩
  obtain ⟨os, t', hlen, hserved⟩ := exists_servedAgain (claimOf a queue' ⟨0⟩ lease region) b
    (eligibleRows queue' region b.now t).length t [] 0
  have hmem := hclaimed ⟨0⟩ lease region b hlease hreg hel' [] 0 os t' hserved hlen.ge
  exact (hserved.claimed ht r hmem).2

/-- A suspended row that is cancelled when it is asked can be decoded, and logged. -/
theorem TaskRow.MovedOn.reported (h : r.MovedOn a t) (ht : Constrained t) (hr : r ∈ t.rows)
    (hs : r.status = .suspended) : r.Decodable ∧ Loggable a r.traceId := by
  obtain ⟨_, -, hmoves⟩ := h.suspended hs
  have hnow : (0 : Timestamp) ≤ maxTimestamp := by decide
  exact (reported_cancelled_iff hnow).mp <|
    (moves_cancel_iff ht hr (.inr hs)).mp ((hmoves ⟨0⟩).1 hnow).2

/-- **Rows that are moved on are movable.** -/
theorem movable_of_movedOn (ht : Constrained t) (hvalid : ∀ z ∈ t.rows, z.Valid)
    (h : ∀ r ∈ t.rows, r.MovedOn a t) : Movable a t where
  loggable r hr hs := by
    rcases hs with hs | hs
    -- a recovery is served when the lease has ended
    · obtain ⟨expiry, huntil, hmoves⟩ := (h r hr).running hs
      have hlt : expiry < expiry + 1 := Int.lt_succ expiry
      have hzombie : r ∈ zombies (expiry + 1) t := mem_zombies.mpr ⟨hr, hs, expiry, huntil, hlt⟩
      exact (moves_recovery_iff (b := ⟨expiry + 1⟩) ht hvalid hzombie).mp (hmoves _ hlt) r hzombie
    · exact ((h r hr).reported ht hr hs).2
  decodable r hr hs := ((h r hr).reported ht hr hs).1
  claimable r hr _ _ _ _ hlease hreg hel := (h r hr).claimable ht hlease hreg hel

end MovedOn

/-! ## Runs -/

/-- **Submitted rows are well formed, and never stranded where they are movable.** In every run
from the empty store whose saves of tasks of `S` are the scheduler's: every stored row of a task of
`S` has the columns its status asks for, and no operation is refused for the claim-fields check,
unless it saves a task that is not in `S`; and in every state reached whose rows are movable, the
calls that are for an unfinished row of a task of `S` move it on. Where all rows are of tasks of `S`,
they are moved on only if they are movable. -/
theorem never_stranded_iff {S : TaskId → Prop} {os : List Outcome} {db : System}
    (h : Runs (Calls (Call.Submits S)) .empty os db) :
    (∀ r ∈ db.table.rows, S r.id → r.WellFormed) ∧
    (∀ sid call, .failed sid call (some .claimFieldsCheck) ∈ os →
      ∃ task ∈ call.op.tasks, ¬ S task.id) ∧
    ∀ a, (Movable a db.table → ∀ r ∈ db.table.rows, S r.id → r.MovedOn a db.table) ∧
      ((∀ r ∈ db.table.rows, S r.id) → (∀ r ∈ db.table.rows, r.MovedOn a db.table) →
        Movable a db.table) := by
  have hwell := (Runs.wellFormed_submitted h).1
  have hvalid := (Runs.valid h).1
  have ht := Runs.constrained h
  refine ⟨hwell, fun sid call => Runs.submits_of_claimFieldsCheck h, fun a => ⟨?_, ?_⟩⟩
  · exact fun hmovable r hr hS => hmovable.movedOn ht hvalid hr (hwell r hr hS)
  · exact fun _ hmoved => movable_of_movedOn ht hvalid hmoved

/-- In the sample, the claimed row is well formed, and audited calls move it on. -/
theorem claimed_moved_on : ∃ r, (System.after (claimedMoves .default)).table.rows = [r] ∧
    r.status = .running ∧ r.WellFormed ∧
      r.MovedOn true (System.after (claimedMoves .default)).table := by
  have h : Runs (Calls (Call.Submits fun _ => True)) .empty (System.shown (claimedMoves .default))
      (System.after (claimedMoves .default)) := by
    have hsaves : Runs (Calls (Call.SavesOnly [sampleTask .default])) .empty _ _ :=
      Runs.of_moves (claimedMoves .default) (by decide +kernel) (by decide +kernel)
    apply hsaves.calls_mono
    intro c hc task ht _
    obtain rfl := List.mem_singleton.mp (hc task ht)
    exact enqueued_sampleTask _
  have hrows : ∀ r ∈ (System.after (claimedMoves .default)).table.rows,
      r.status = .running ∧ r.traceId = none := by decide +kernel
  have hone : (System.after (claimedMoves .default)).table.rows.length = 1 := by decide +kernel
  obtain ⟨r, hr⟩ := List.length_eq_one_iff.mp hone
  have hmem : r ∈ (System.after (claimedMoves .default)).table.rows := by
    rw [hr]
    exact List.mem_cons_self
  have hmovable : Movable true (System.after (claimedMoves .default)).table := by
    refine ⟨fun x hx _ => ?_, fun x hx hs => ?_, fun x hx _ _ _ _ _ _ hel => ?_⟩
    · rw [(hrows x hx).2]
      exact fun _ hnone => by cases hnone
    · rw [(hrows x hx).1] at hs
      cases hs
    · have hs := hel.pending
      rw [(hrows x hx).1] at hs
      cases hs
  obtain ⟨hwell, -, hmoves⟩ := never_stranded_iff h
  exact ⟨r, hr, (hrows r hmem).1, hwell r hmem trivial, (hmoves true).1 hmovable r hmem trivial⟩

/-- A task with a trace id that cannot be cut is submitted without audit log. -/
def unauditedMoves : List Move := serve 1 (callOf (.save (submittedWith longTraceId))) 0 [.all]

/-- No audited claim takes it, as often as workers claim. -/
theorem unaudited_stranded : ∃ os db, Runs (Calls (Call.Submits fun _ => True)) .empty os db ∧
    ∃ r ∈ db.table.rows, r.status = .pending ∧ r.WellFormed ∧ ¬ r.MovedOn true db.table := by
  have hsubmits : Call.Submits (fun _ => True) (callOf (.save (submittedWith longTraceId))) := by
    intro task ht _
    obtain rfl := List.mem_singleton.mp ht
    exact enqueued_submittedWith _
  -- the save has committed its row
  have hrun : (run System.step .empty unauditedMoves).any (fun end_ =>
      decide (∃ r ∈ end_.1.table.rows, (r.status = .pending ∧ r.queue = sampleQueue.asStr ∧
        r.scheduledAt = 0) ∧ r.region = none ∧ r.traceId = some longTraceId)) = true := by
    decide +kernel
  obtain ⟨⟨db, os⟩, hrun, hrow⟩ := (Option.any_eq_true _ _).mp hrun
  have h : Runs (Calls (Call.Submits fun _ => True)) .empty ([] ++ os) db :=
    Reaches.of_run .init (.of_forall_mem (Calls.serve hsubmits) _ _) hrun
  obtain ⟨r, hr, ⟨hs, hqueue, hsched⟩, hregion, htrace⟩ := of_decide_eq_true hrow
  refine ⟨_, _, h, r, hr, hs, (Runs.wellFormed_submitted h).1 r hr trivial, fun hmoved => ?_⟩
  have hlease : LeaseFits ⟨10⟩ 1000000000 :=
    ⟨1000000, 1000010, by decide +kernel, by decide, by decide⟩
  have hel : r.Eligible sampleQueue none 10 := ⟨hqueue, hs, hsched ▸ by decide, .inl hregion⟩
  have hlog := (hmoved.claimable (Runs.constrained h) hlease rfl hel).loggable
  rw [htrace] at hlog
  exact not_loggable_longTraceId hlog

end IronDefer
