import IronDefer.Infrastructure.KeyRace
import IronDefer.Infrastructure.Serving
import IronDefer.RowStore.Unwinding

/-!
# The audit row of a change

An operation that writes audit rows writes one for every row version it has stored, and makes it
from this version. It cuts the trace id of the version first, and that can panic: an operation that
ends has met only trace ids that can be cut, and one that panics has met another.

## Main definitions

* `Op.entry?`: the audit entry an operation makes of a row version
* `Stmt.Traced`: the trace ids of the rows a statement returns can be cut

## Main results

* `Op.Spec.logs_eq`: the audit rows of an operation are those of its changes
* `Op.checks`: an operation unwinds only at a trace id that cannot be cut
* `Runs.unwound`, `Runs.loggable`: **so does every transaction of a run, and who ends has met none**
* `Runs.mem_log`: every row of the audit log is the entry of a change
-/

namespace IronDefer

open RowStore

/-! ## Entries -/

/-- The audit entry of a row version, for the operations that write audit rows. -/
def Op.entry? : Op → Option (TaskRow → AuditEntry)
  | save _ | saveIdempotent _ | inTx .. => some createdEntry
  | claimNext _ workerId _ _ => some (claimedEntry workerId)
  | releaseLeaseForTask _ => some (releasedEntry none)
  | releaseLeasesForWorker workerId => some (releasedEntry (some workerId))
  | recoverZombieTasks => some fun r =>
    if r.status = .pending then recoveredEntry r else exhaustedEntry r
  | cancel _ => some cancelledEntry
  | expireSuspendedTasks _ => some expiredEntry
  | cleanupExpiredIdempotencyKeys _ | findById _ | writeCheckpoint .. => none
  | op => op.transition.map Transition.entry

/-- An entry is about the task of its version, with its trace id. -/
theorem Op.entry?_task {op : Op} {f : TaskRow → AuditEntry} (h : op.entry? = some f) (r : TaskRow) :
    (f r).taskId = r.id ∧ (f r).traceId = r.traceId := by
  cases op with
  | recoverZombieTasks =>
    cases h
    show (if r.status = .pending then recoveredEntry r else exhaustedEntry r).taskId = r.id ∧ _
    by_cases hp : r.status = .pending
    · simp only [if_pos hp]
      exact ⟨rfl, rfl⟩
    · simp only [if_neg hp]
      exact ⟨rfl, rfl⟩
  | cleanupExpiredIdempotencyKeys | findById | writeCheckpoint => cases h
  | _ =>
    cases h
    exact ⟨rfl, rfl⟩

theorem failed_of_recoverExhausted {b : Began} {r r' : TaskRow}
    (h : Update.Rewrites b .recoverExhausted r r') : r'.status = .failed := by
  cases h
  rfl

section Logs

variable {rely : Table TaskRow.id → (TaskId → Bool) → Env → Prop} {a : Bool} {b : Began}
  {cs ds : List (Change TaskRow)}

theorem SavedBy.entries_eq {task : TaskRecord} {idempotent : Bool} {xs : List AuditEntry}
    {res : Option (TaskRow × Bool)} (h : SavedBy rely b cs task idempotent ds xs res) :
    xs = (news ds).map createdEntry := by
  cases h with
  | new => rfl
  | old => rfl
  | gone => rfl

theorem CalledAll.entries_eq {calls : List TxCall} {xs : List AuditEntry} {replies : List Reply}
    (h : CalledAll rely b cs calls ds xs replies) : xs = (news ds).map createdEntry := by
  induction h with
  | nil => rfl
  | cons hcall _ ih =>
    rw [news_append, List.map_append, ← ih]
    cases hcall with
    | saveInTx h => rw [h.entries_eq]
    | saveIdempotentInTx h => rw [h.entries_eq]

/-- **The audit rows of an operation are those of its changes.** -/
theorem Op.Spec.logs_eq {op : Op} {ls : List AuditRow} {r : Reply}
    (h : Op.Spec rely a b op cs ls (.commit r)) :
    ls = op.entry?.elim [] fun f => logged a b ((news cs).map f) := by
  cases h with
  | save h => rw [h.entries_eq]; rfl
  | saveIdempotent h => rw [h.entries_eq]; rfl
  | inTxCommit h => rw [h.entries_eq]; rfl
  | recovered hds hes =>
    -- a version that is pending is one of the first update
    rw [news_append]
    show logged a b _ = logged a b _
    rw [List.map_append]
    congr 2
    · apply List.map_congr_left
      intro r hr
      obtain ⟨c, hc, rfl⟩ := mem_news.mp hr
      obtain ⟨w, -, hrw⟩ := hds.rewrites c hc
      exact (if_pos (pending_of_recoverRetryable hrw)).symm
    · apply List.map_congr_left
      intro r hr
      obtain ⟨c, hc, rfl⟩ := mem_news.mp hr
      obtain ⟨w, -, hrw⟩ := hes.rewrites c hc
      exact (if_neg (by simp [failed_of_recoverExhausted hrw])).symm
  | @transition _ tr c htr =>
    have hentry : op.entry? = some tr.entry := by
      cases op with
      | complete | fail | suspend | signal =>
        cases htr
        rfl
      | _ => cases htr
    rw [hentry]
    rfl
  | unclaimed | notCancellable | cancelNotFound => exact (logged_nil a b).symm
  | _ => rfl

end Logs

/-! ## Trace ids -/

/-- An update of at most one row has returned at most one. -/
def Stmt.Lone : (q : Stmt) → q.Res → Prop
  | .update u, rs => u.Single → rs.length ≤ 1
  | _, _ => True

/-- The trace ids of the rows a statement has written can be cut. -/
def Stmt.Traced (a : Bool) (q : Stmt) (r : q.Res) : Prop :=
  ∀ row ∈ q.written r, Loggable a row.traceId

/-- A program that panics only at a trace id that cannot be cut. -/
abbrev Tx.Checks (a : Bool) {α : Type} (Q : α → Prop → Prop) (p : Tx α) (g : Prop) : Prop :=
  Program.Checks Stmt.Lone (Stmt.Traced a) Q p g

section Checks

variable {a : Bool} {α : Type} {Q : α → Prop → Prop} {g : Prop}

/-- A statement that has written nothing is in order. -/
theorem and_traced_of_nil {q : Stmt} {r : q.Res} (h : q.written r = []) :
    (g ∧ Stmt.Traced a q r) = g := by
  rw [Stmt.Traced, h]
  exact propext (and_iff_left (List.forall_mem_nil _))

/-- One row that has been written is in order where its trace id can be cut. -/
theorem and_traced_of_single {q : Stmt} {r : q.Res} {row : TaskRow} (h : q.written r = [row]) :
    (g ∧ Stmt.Traced a q r) = (g ∧ Loggable a row.traceId) := by
  rw [Stmt.Traced, h, List.forall_mem_singleton]

theorem checks_insertAuditRow {id : TaskId} {fromStatus : Option String} {toStatus : String}
    {workerId : Option WorkerId} {traceId : Option String} {metadata : Option Json}
    {region : Option String} {k : PUnit → Tx α} (hg : g → Loggable a traceId)
    (h : Loggable a traceId → Tx.Checks a Q (k ⟨⟩) g) :
    Tx.Checks a Q
      (insertAuditRow a id fromStatus toStatus workerId traceId metadata region >>= k) g := by
  have hone : ∀ t, Loggable a traceId → Tx.Checks a Q
      (exec (.insertAudit id fromStatus toStatus workerId t (metadata.map capMetadata) region) >>=
        k) g := by
    intro t hlog r _
    rw [and_traced_of_nil rfl]
    exact h hlog
  unfold insertAuditRow
  split
  next ha =>
    split
    -- the cut panics: the trace id has not been in order
    next hcap => exact fun h => hg h ha hcap
    next t hcap => exact hone _ fun _ => by simp [hcap]
    next hcap => exact hone _ fun _ => by simp [hcap]
  next ha => exact h fun htrue => absurd htrue ha

/-- A loop over rows whose trace ids can all be cut, or have been found not to be in order. -/
theorem checks_forM_insertAuditRow {rows : List TaskRow} (x : TaskRow → AuditEntry)
    (hx : ∀ row, (x row).traceId = row.traceId) {k : PUnit → Tx α}
    (hg : g → ∀ row ∈ rows, Loggable a row.traceId)
    (h : (∀ row ∈ rows, Loggable a row.traceId) → Tx.Checks a Q (k ⟨⟩) g) :
    Tx.Checks a Q ((rows.forM fun row => insertAuditRow a (x row).taskId (x row).fromStatus
      (x row).toStatus (x row).workerId (x row).traceId (x row).metadata (x row).region) >>= k)
      g := by
  -- on the rows: each is audited before the next one is read
  induction rows with
  | nil => exact h fun row hrow => nomatch hrow
  | cons row rows ih =>
    refine Program.checks_bind.mpr (checks_insertAuditRow ?_ fun hlog => ?_)
    · rw [hx]
      exact fun hall => hg hall row List.mem_cons_self
    · rw [hx] at hlog
      refine Program.checks_bind.mp (ih (fun hall r hr => hg hall r (List.mem_cons_of_mem _ hr))
        fun hrest => h fun r hr => ?_)
      rcases List.mem_cons.mp hr with rfl | hr
      · exact hlog
      · exact hrest r hr

theorem checks_insert {task : TaskRecord} {lastError : Option String} {d : Bool}
    {k : Option TaskRow → Tx α} (hnone : Tx.Checks a Q (k none) g)
    (hsome : ∀ row, Tx.Checks a Q (k (some row)) (g ∧ Loggable a row.traceId)) :
    Tx.Checks a Q (exec (.insertTask task lastError d) >>= k) g := by
  intro r _
  cases r with
  | none =>
    rw [and_traced_of_nil rfl]
    exact hnone
  | some row =>
    rw [and_traced_of_single rfl]
    exact hsome row

theorem checks_selectById {id : TaskId} {k : Option TaskRow → Tx α}
    (h : ∀ r, Tx.Checks a Q (k r) g) : Tx.Checks a Q (exec (.selectById id) >>= k) g := by
  intro r _
  rw [and_traced_of_nil rfl]
  exact h r

theorem checks_selectActive {queue : String} {key : Option String} {k : Option TaskRow → Tx α}
    (h : ∀ r, Tx.Checks a Q (k r) g) :
    Tx.Checks a Q (exec (.selectActive queue key) >>= k) g := by
  intro r _
  rw [and_traced_of_nil rfl]
  exact h r

/-- An update of at most one row: none is found, or one that is then audited. -/
theorem checks_single {u : Update} (hu : u.Single) {k : List TaskRow → Tx α}
    (hnone : Tx.Checks a Q (k []) g)
    (hone : ∀ row, Tx.Checks a Q (k [row]) (g ∧ Loggable a row.traceId)) :
    Tx.Checks a Q (exec (.update u) >>= k) g := by
  intro rs hlone
  have hlen : rs.length ≤ 1 := hlone hu
  rcases rs with _ | ⟨row, _ | ⟨row', rest⟩⟩
  · rw [and_traced_of_nil rfl]
    exact hnone
  · rw [and_traced_of_single rfl]
    exact hone row
  · simp at hlen

/-- A row that has been written is audited. -/
theorem checks_audited {row : TaskRow} {id : TaskId} {fromStatus : Option String}
    {toStatus : String} {workerId : Option WorkerId} {metadata : Option Json} {region : Option String}
    {k : PUnit → Tx α}
    (h : Loggable a row.traceId → Tx.Checks a Q (k ⟨⟩) (g ∧ Loggable a row.traceId)) :
    Tx.Checks a Q
      (insertAuditRow a id fromStatus toStatus workerId row.traceId metadata region >>= k)
      (g ∧ Loggable a row.traceId) :=
  checks_insertAuditRow And.right h

/-- A call inside a caller's transaction keeps the order. -/
theorem checks_call (call : TxCall) :
    Tx.Checks a (fun _ g' => g → g') (call.program a) g := by
  cases call with
  | saveInTx task =>
    refine checks_insert id fun row => ?_
    exact checks_audited fun hlog hg => ⟨hg, hlog⟩
  | saveIdempotentInTx task =>
    refine checks_insert (checks_selectActive fun r => ?_) fun row => ?_
    · cases r with
      | none => exact id
      | some row => exact id
    · exact checks_audited fun hlog hg => ⟨hg, hlog⟩

theorem checks_runCalls (calls : List TxCall) :
    Tx.Checks a (fun _ g' => g → g') (runCalls a calls) g := by
  induction calls generalizing g with
  | nil => exact id
  | cons call calls ih =>
    refine Program.checks_bind.mpr ((checks_call call).mono fun reply g₁ hfirst => ?_)
    refine Program.checks_bind.mpr (ih.mono fun replies g₂ hrest => ?_)
    exact fun hg => hrest (hfirst hg)

/-- A transition that finds no row goes on otherwise, and else it audits the row. -/
theorem checks_transition {u : Update} (hu : u.Single) {fromStatus : String}
    {toStatus : TaskRow → String} {workerId : TaskRow → Option WorkerId} {metadata : Option Json}
    {otherwise : Tx (Finish Reply)} (ho : Tx.Checks a (fun _ g' => g') otherwise True) :
    Tx.Checks a (fun _ g' => g')
      (transition a u fromStatus toStatus workerId metadata otherwise) True :=
  checks_single hu ho fun _ => checks_audited fun hlog => ⟨trivial, hlog⟩

/-- **An operation unwinds only at a trace id that cannot be cut**, and an operation that writes
audit rows ends only where it has met none. -/
theorem Op.checks (op : Op) (a : Bool) :
    Tx.Checks a (fun _ g => op.entry?.isSome → g) (op.program a) True := by
  have hid : ∀ {p : Tx (Finish Reply)}, Tx.Checks a (fun _ g => g) p True →
      Tx.Checks a (fun _ g => op.entry?.isSome → g) p True := fun h => h.mono fun _ _ hg _ => hg
  cases op with
  | save task =>
    refine checks_insert (fun _ => trivial) fun row => ?_
    exact checks_audited fun hlog _ => ⟨trivial, hlog⟩
  | saveIdempotent task =>
    refine checks_insert (checks_selectActive fun r => ?_) fun row => ?_
    · cases r with
      | none => exact fun _ => trivial
      | some row => exact fun _ => trivial
    · exact checks_audited fun hlog _ => ⟨trivial, hlog⟩
  | inTx calls commit =>
    exact Program.checks_bind.mpr ((checks_runCalls calls).mono fun _ _ hg _ => hg trivial)
  | cleanupExpiredIdempotencyKeys now => exact fun _ _ h => by cases h
  | findById id =>
    apply checks_selectById
    intro r
    cases r with
    | none => exact fun h => by cases h
    | some row => exact fun h => by cases h
  | claimNext queue w lease region =>
    have hu : (Update.claimNext queue w lease region).Single := trivial
    refine checks_single hu (fun _ => trivial) fun row => ?_
    exact checks_audited fun hlog _ => ⟨trivial, hlog⟩
  | complete taskId =>
    exact hid (checks_transition (@Op.transition_single (.complete taskId) _ rfl) trivial)
  | fail taskId error base max =>
    have hu := @Op.transition_single (.fail taskId error base max) _ rfl
    exact hid (checks_transition hu trivial)
  | suspend taskId =>
    exact hid (checks_transition (@Op.transition_single (.suspend taskId) _ rfl) trivial)
  | signal taskId payload =>
    simp only [program, IronDefer.signal]
    split
    · exact fun _ => trivial
    · refine hid (checks_transition (@Op.transition_single (.signal taskId payload) _ rfl) ?_)
      apply checks_selectById
      intro r
      cases r with
      | none => trivial
      | some row => trivial
  | releaseLeaseForTask taskId =>
    have hu : (Update.releaseLeaseForTask taskId).Single :=
      ⟨taskId, fun b r h => by simp_all [Update.selects]⟩
    refine checks_single hu (fun _ => trivial) fun row => ?_
    exact checks_audited fun hlog _ => ⟨trivial, hlog⟩
  | releaseLeasesForWorker w =>
    intro rows _
    exact checks_forM_insertAuditRow (releasedEntry (some w)) (fun _ => rfl) And.right
      fun hall _ => ⟨trivial, hall⟩
  | recoverZombieTasks =>
    intro rows _ rows' _
    -- both loops check before the results are decoded
    refine checks_forM_insertAuditRow recoveredEntry (fun _ => rfl) (fun hg => hg.1.2)
      fun hall => ?_
    apply checks_forM_insertAuditRow exhaustedEntry (fun _ => rfl) And.right
    intro hall'
    cases recoveredTasks rows rows' with
    | error e => exact fun _ => ⟨⟨trivial, hall⟩, hall'⟩
    | ok results => exact fun _ => ⟨⟨trivial, hall⟩, hall'⟩
  | cancel taskId =>
    apply checks_selectById
    intro snapshot
    cases snapshot with
    | none => exact fun _ => trivial
    | some row =>
      -- the update is only tried where the snapshot can be cancelled
      by_cases hc : (some row).any fun r => r.status = .pending || r.status = .suspended
      · rw [cancelAttempt, if_pos hc]
        have hu : (Update.cancel taskId).Single :=
          ⟨taskId, fun b r h => by simp_all [Update.selects]⟩
        refine checks_single hu (fun _ => trivial) fun row => ?_
        exact checks_audited fun hlog _ => ⟨trivial, hlog⟩
      · rw [cancelAttempt, if_neg hc]
        exact fun _ => trivial
  | expireSuspendedTasks timeout =>
    intro rows _
    exact checks_forM_insertAuditRow expiredEntry (fun _ => rfl) And.right
      fun hall _ => ⟨trivial, hall⟩
  | writeCheckpoint taskId w data =>
    have hu : (Update.writeCheckpoint taskId w data).Single :=
      ⟨taskId, fun b r h => by simp_all [Update.selects]⟩
    exact checks_single hu (fun h => by cases h) fun row h => by cases h

end Checks

/-! ## Runs -/

theorem SameTask.refl (r : TaskRow) : SameTask r r := ⟨rfl, rfl, rfl, rfl, rfl, rfl, rfl, rfl, rfl⟩

theorem SameTask.trans {r r' r'' : TaskRow} (h : SameTask r r') (h' : SameTask r' r'') :
    SameTask r r'' where
  id := h'.id.trans h.id
  queue := h'.queue.trans h.queue
  kind := h'.kind.trans h.kind
  payload := h'.payload.trans h.payload
  priority := h'.priority.trans h.priority
  maxAttempts := h'.maxAttempts.trans h.maxAttempts
  createdAt := h'.createdAt.trans h.createdAt
  traceId := h'.traceId.trans h.traceId
  region := h'.region.trans h.region

/-- An update of at most one row returns at most one, and what a statement returns it has
written. -/
theorem lone_of_exec {q : Stmt} {b : Began} {e : Env} {t : Table TaskRow.id} {free : TaskId → Bool}
    {eff : Effect TaskRow AuditRow q.Res} (h : postgres.exec q b e t.rows free = .ok eff) :
    q.Lone eff.result := by
  cases q with
  | update u =>
    intro hu
    obtain ⟨rs, hrs, h⟩ := exists_of_bind_ok h
    cases h
    have hlen := (rewrites_of_execUpdate hrs).length_eq
    show rs.length ≤ 1
    rw [← hlen]
    exact length_targets_le hu
  | _ => trivial

section Runs

variable {ok : List Outcome → System → Move → Prop} {db₀ db : System} {os : List Outcome}

theorem Runs.checks (hopen : db₀.sessions.rows = []) (h : Runs ok db₀ os db) :
    (∀ s ∈ db.sessions.rows, s.rest = .unwind →
        ∃ v ∈ s.news, ¬ Loggable s.op.auditLog v.traceId) ∧
      ∀ o ∈ os, Output.Meets (fun call _ cs _ _ => call.op.entry?.isSome →
        ∀ v ∈ news cs, Loggable call.auditLog v.traceId) (fun _ => True) o := by
  have hstart : ∀ os' db' sid call b, ok os' db' (.start sid call b) →
      Program.Checks Stmt.Lone (Stmt.Traced call.auditLog)
        (fun _ g => call.op.entry?.isSome → g) (Call.program call) True :=
    fun _ _ _ call _ _ => call.op.checks call.auditLog
  have hexec : ∀ (call : Call) (q : Stmt) b e (t : Table TaskRow.id) free eff,
      postgres.exec q b e t.rows free = .ok eff → q.Lone eff.result ∧
        (q.Traced call.auditLog eff.result ↔ ∀ v ∈ eff.news, Loggable call.auditLog v.traceId) :=
    fun _ q _ _ _ _ _ he => ⟨lone_of_exec he, by rw [Stmt.Traced, news_of_exec he]⟩
  exact Reaches.checks hopen hstart hexec h

/-- **Who panics has met a trace id that cannot be cut.** -/
theorem Runs.unwound (hopen : db₀.sessions.rows = []) (h : Runs ok db₀ os db) :
    ∀ s ∈ db.sessions.rows, s.rest = .unwind →
      ∃ v ∈ s.news, ¬ Loggable s.op.auditLog v.traceId :=
  (Runs.checks hopen h).1

/-- **Who has committed audit rows has met none.** -/
theorem Runs.loggable (hopen : db₀.sessions.rows = []) (h : Runs ok db₀ os db) {sid : ℕ}
    {call : Call} {b : Began} {cs : List (Change TaskRow)} {ls : List (ℕ × AuditRow)} {r : Reply}
    (ho : .committed sid call b cs ls r ∈ os) (hentry : call.op.entry?.isSome) :
    ∀ v ∈ news cs, Loggable call.auditLog v.traceId :=
  (Runs.checks hopen h).2 _ ho trivial hentry

variable {t : Table TaskRow.id} {log : List (ℕ × AuditRow)} {n : ℕ}

/-- The audit rows of a commit. -/
theorem Runs.logs_eq (h : Runs ok (.idle t log n) os db) {sid : ℕ} {call : Call} {b : Began}
    {cs : List (Change TaskRow)} {ls : List (ℕ × AuditRow)} {r : Reply}
    (ho : .committed sid call b cs ls r ∈ os) :
    ls.map Prod.snd = call.op.entry?.elim [] fun f => logged call.auditLog b ((news cs).map f) := by
  exact (h.spec_committed ho).logs_eq

/-- **Every row of the audit log is the entry of a change.** -/
theorem Runs.mem_log (h : Runs ok .empty os db) {x : ℕ × AuditRow} (hx : x ∈ db.log) :
    ∃ sid call b cs ls r f, .committed sid call b cs ls r ∈ os ∧ x ∈ ls ∧ call.auditLog = true ∧
      call.op.entry? = some f ∧ ∃ c ∈ cs, x.2 = (f c.new).row b := by
  have hlog : db.log = os.flatMap Output.logs := Reaches.log_eq h
  rw [hlog] at hx
  obtain ⟨o, ho, hxo⟩ := List.mem_flatMap.mp hx
  cases o with
  | committed sid call b cs ls r =>
    -- the log is what the commits have appended, and each appends the entries of its versions
    have hls := Runs.logs_eq h ho
    have hmem : x.2 ∈ ls.map Prod.snd := List.mem_map_of_mem hxo
    rw [hls] at hmem
    cases hf : call.op.entry? with
    | none =>
      rw [hf] at hmem
      cases hmem
    | some f =>
      rw [hf] at hmem
      have hmem : x.2 ∈ logged call.auditLog b ((news cs).map f) := hmem
      unfold logged at hmem
      split at hmem
      next ha =>
        rw [List.map_map] at hmem
        obtain ⟨v, hv, hrow⟩ := List.mem_map.mp hmem
        obtain ⟨c, hc, rfl⟩ := mem_news.mp hv
        exact ⟨sid, call, b, cs, ls, r, f, ho, hxo, ha, hf, c, hc, hrow.symm⟩
      · cases hmem
  | _ => cases hxo

/-- A version that has been committed is one of the task that is stored. -/
theorem Runs.sameTask (h : Runs ok (.idle t log n) os db) {o : Outcome} (ho : o ∈ os)
    {c : Change TaskRow} (hc : c ∈ o.changes) :
    ∃ r, db.table.get c.new.id = some r ∧ SameTask c.new r := by
  rw [← map_change_entries] at hc
  obtain ⟨x, hx, rfl⟩ := List.mem_map.mp hc
  have hmem : x ∈ history x.change.new.id os := mem_history.mpr ⟨⟨o, ho, hx⟩, rfl⟩
  obtain ⟨pre, post, hsplit⟩ := List.append_of_mem hmem
  have hlink := Runs.history_linked h x.change.new.id
  rw [hsplit, List.map_append, linked_append] at hlink
  obtain ⟨_, -, hlink⟩ := hlink
  -- from its commit on the task is only updated
  have hkeeps := Linked.keeps (P := fun v => ∃ r, v = some r ∧ SameTask x.change.new r)
    (linked_cons.mp hlink).2 ⟨_, rfl, .refl _⟩ fun c hc hold => by
      obtain ⟨y, hy, rfl⟩ := List.mem_map.mp hc
      obtain ⟨r, hold, hsame⟩ := hold
      have hyos : y ∈ history x.change.new.id os := by
        rw [hsplit]
        exact List.mem_append_right _ (List.mem_cons_of_mem _ hy)
      obtain ⟨u, -, hrw⟩ := (Runs.caused h _ y hyos).of_some hold
      exact ⟨_, rfl, hsame.trans hrw.sameTask⟩
  exact hkeeps.1

end Runs

end IronDefer
