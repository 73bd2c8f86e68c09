import IronDefer.Infrastructure.RowInvariant

/-!
# Attempts and their maximum

Claims and releases raise the attempts of a task without comparing them with their maximum, and a
row whose attempts exceed it can no longer be decoded. In a run, the stored rows stay within their
maximum exactly if every claim and every release finds a row below it; then all rows decode, and
no reply reports a row that does not.

## Main definitions

* `Op.Counts`: the operations that raise the attempts
* `Entry.Budgeted`: an entry that raises the attempts finds them below their maximum
* `MappingFailure`: a reply reports a row that cannot be decoded

## Main results

* `attempts_bounded_iff`: **when the stored rows stay within their maximum**
* `attempts_exceed`: a run in which a row exceeds it
-/

namespace IronDefer

open RowStore

/-- The operations that raise the attempts. -/
def Op.Counts : Op → Prop
  | claimNext .. | releaseLeaseForTask _ | releaseLeasesForWorker _ => True
  | _ => False

instance : DecidablePred Op.Counts
  | .claimNext .. | .releaseLeaseForTask _ | .releaseLeasesForWorker _ => .isTrue trivial
  | .save _ | .saveIdempotent _ | .inTx .. | .cleanupExpiredIdempotencyKeys _ | .findById _
  | .complete _ | .fail .. | .suspend _ | .signal .. | .recoverZombieTasks | .cancel _
  | .expireSuspendedTasks _ | .writeCheckpoint .. => .isFalse id

/-- Where the entry raises the attempts, it finds them below their maximum. -/
def Entry.Budgeted (x : Entry) : Prop :=
  x.call.op.Counts → ∀ r, x.change.old = some r → r.attempts.val < r.maxAttempts.val

/-- Every claim and every release has found its task below the maximum. -/
def Budgeted (os : List Outcome) : Prop := ∀ id, ∀ x ∈ history id os, x.Budgeted

theorem Budgeted.of_append {os : List Outcome} {o : Outcome} (h : Budgeted (os ++ [o])) :
    Budgeted os := fun id x hx => h id x (by
  rw [history_append]
  exact List.mem_append_left _ hx)

theorem Op.counts_action {op : Op} {r : TaskRow} :
    (op.action (some r)).counts = if op.Counts then 1 else 0 := by
  cases op with
  | fail | recoverZombieTasks =>
    simp only [action, updates, Update.action, Counts]
    split <;> simp [Action.counts]
  | _ => simp [action, updates, Update.action, Action.counts, Counts]

/-! ## Rows within their maximum -/

/-- The attempts of a row do not exceed their maximum. -/
def TaskRow.Bounded (r : TaskRow) : Prop := r.attempts.val ≤ r.maxAttempts.val

theorem TaskRow.Valid.decodes {r : TaskRow} (h : r.Valid) (hb : r.Bounded) : r.Decodes :=
  ⟨h.kind, h.queue, h.nonneg, h.pos, hb⟩

section Bounded

variable {ok : List Outcome → System → Move → Prop} {os : List Outcome} {db : System}

/-- The runs that insert only tasks the scheduler has built. -/
abbrev Enqueuing : List Outcome → System → Move → Prop := Calls fun c => c.op.Enqueues

/-- A run that saves only some tasks the scheduler has built. -/
theorem Runs.enqueuing {tasks : List TaskRecord} (ht : ∀ task ∈ tasks, Enqueued task) {db₀ : System}
    (h : Runs (Calls (Call.SavesOnly tasks)) db₀ os db) : Runs Enqueuing db₀ os db :=
  h.calls_mono fun _ hc task htask => ht task (hc task htask)

theorem Runs.entry_counts {t : Table TaskRow.id} {log : List (ℕ × AuditRow)} {n : ℕ}
    (h : Runs ok (.idle t log n) os db) {id : TaskId} {x : Entry} (hx : x ∈ history id os)
    {r : TaskRow} (hr : x.change.old = some r) :
    x.change.new.attempts.val = r.attempts.val + (if x.call.op.Counts then 1 else 0) ∧
      x.change.new.maxAttempts.val = r.maxAttempts.val := by
  have hstep := (h.caused id x hx).step fun hn => by simp [hn] at hr
  rw [hr] at hstep
  rw [← Op.counts_action]
  exact hstep.attempts_eq

/-- A budgeted entry keeps its task within its maximum. -/
theorem Runs.bounded_entry (h : Runs Enqueuing .empty os db) {id : TaskId} {x : Entry}
    (hx : x ∈ history id os) (hb : x.Budgeted)
    (hold : ∀ r, x.change.old = some r → r.Bounded) : x.change.new.Bounded := by
  cases hr : x.change.old with
  | none =>
    have hcause := h.caused id x hx
    have henq := h.called (P := fun c => c.op.Enqueues) (fun _ _ _ _ _ hok => hok) id x hx
    generalize x.change = c at hcause hr
    cases hcause with
    | @insert task lastError ht =>
      change task.attempts.get.val ≤ task.maxAttempts.get.val
      rw [(henq task ht).fresh.attempts]
      exact Int.le_trans (by decide) task.maxAttempts.pos
    | update => cases hr
  | some r =>
    obtain ⟨hatt, hmax⟩ := h.entry_counts hx hr
    have hle : r.attempts.val ≤ r.maxAttempts.val := hold r hr
    rw [TaskRow.Bounded, hatt, hmax]
    split
    next hc => exact hb hc r hr
    next => simpa using hle

/-- The versions of a task stay within their maximum while its entries are budgeted. -/
theorem Runs.bounded (h : Runs Enqueuing .empty os db) {id : TaskId}
    (hb : ∀ x ∈ history id os, x.Budgeted) :
    (∀ r, db.table.get id = some r → r.Bounded) ∧ ∀ x ∈ history id os, x.change.new.Bounded := by
  obtain ⟨hlast, hall⟩ := h.keeps id (by simp) fun x hx hold => h.bounded_entry hx (hb x hx) hold
  exact ⟨hlast, fun x hx => (hall x hx).2⟩

/-- An entry that raises the attempts to more than their maximum leaves its task there. -/
theorem Runs.budgeted_of_bounded (h : Runs ok .empty os db) {id : TaskId} {x : Entry}
    (hx : x ∈ history id os) (hb : ∀ r, db.table.get id = some r → r.Bounded) : x.Budgeted := by
  intro hc r hr
  obtain ⟨hatt, hmax⟩ := h.entry_counts hx hr
  rw [if_pos hc] at hatt
  obtain ⟨pre, post, hsplit⟩ := List.append_of_mem hx
  obtain ⟨r', hr', hpath⟩ := h.path_after hsplit
  have hle : r'.attempts.val ≤ r'.maxAttempts.val := hb r' hr'
  have hle' : x.change.new.attempts.val ≤ r'.attempts.val := hpath.attempts_le
  have hmax' : r'.maxAttempts.val = x.change.new.maxAttempts.val := hpath.maxAttempts_eq
  omega

/-- A committed version is valid. -/
theorem Runs.valid_entry (h : Runs ok .empty os db) {id : TaskId} {x : Entry}
    (hx : x ∈ history id os) : x.change.new.Valid := by
  have hkeeps := h.keeps (I := TaskRow.Valid) id (by simp) fun x hx hold => by
    have hcause := h.caused id x hx
    generalize x.change = c at hcause hold
    cases hcause with
    | insert => exact insertedRow_valid ..
    | update _ hrw => exact hrw.valid (hold _ rfl)
  exact (hkeeps.2 x hx).2

/-- While all entries are budgeted, all stored rows decode. -/
theorem Runs.decodes (h : Runs Enqueuing .empty os db) (hb : Budgeted os) :
    ∀ r ∈ db.table.rows, r.Decodes := by
  intro r hr
  exact (h.valid.1 r hr).decodes ((h.bounded (hb r.id)).1 r (Table.get_key_of_mem hr))

end Bounded

/-! ## Replies -/

/-- A reply, or one inside it, reports a row that cannot be decoded. -/
inductive MappingFailure : Reply → Prop
  | error {reason} : MappingFailure (.error (mappingError reason))
  | batch {replies reply} : reply ∈ replies → MappingFailure reply →
      MappingFailure (.ok (.batch replies))

theorem not_mappingFailure_map {row : TaskRow} (h : row.Decodes) {f : TaskRecord → Response}
    (hf : ∀ record replies, f record ≠ .batch replies) :
    ¬ MappingFailure ((TaskRecord.tryFrom row).map f) := by
  rw [tryFrom_of_decodes h]
  intro hm
  generalize hr : (Except.ok (row.record h)).map f = reply at hm
  cases hm with
  | error => cases hr
  | batch hmem hm => exact hf _ _ (Except.ok.inj hr)

theorem not_mappingFailure_error {e : RepoError} (h : e.isMapping = false) :
    ¬ MappingFailure (.error e) := by
  rintro ⟨⟩
  cases h

section Replies

variable {rely : Table TaskRow.id → (TaskId → Bool) → Env → Prop} {a : Bool} {b : Began}
  {cs ds : List (Change TaskRow)}

/-- A select finds rows that decode where the table and the transaction's own rows do. -/
theorem SelectedBy.decodes {p : TaskRow → Bool} {row : TaskRow}
    (hrely : ∀ t free e, rely t free e → ∀ r ∈ t.rows, r.Decodes)
    (hcs : ∀ r ∈ news cs, r.Decodes) (h : SelectedBy rely p cs (some row)) : row.Decodes := by
  obtain ⟨t, e, free, ht, -, hfind⟩ := h
  rcases Table.mem_putAll (List.mem_of_find?_eq_some hfind) with hr | ⟨hr, -⟩
  · exact hcs row hr
  · exact hrely t free e ht row hr

theorem InsertedBy.decodes {task : TaskRecord} {d : Bool} {row : TaskRow}
    (hf : Fresh task) (h : InsertedBy rely b task d cs (some row)) : row.Decodes := by
  obtain ⟨t, e, free, -, -, h⟩ := h
  obtain ⟨rfl, -, -⟩ := execInsert_eq_some h
  apply (insertedRow_valid ..).decodes
  change task.attempts.get.val ≤ task.maxAttempts.get.val
  rw [hf.attempts]
  exact Int.le_trans (by decide) task.maxAttempts.pos

theorem SavedBy.decodes {task : TaskRecord} {idempotent : Bool} {xs : List AuditEntry}
    {res : Option (TaskRow × Bool)} (hf : Fresh task)
    (hrely : ∀ t free e, rely t free e → ∀ r ∈ t.rows, r.Decodes)
    (hcs : ∀ r ∈ news cs, r.Decodes) (h : SavedBy rely b cs task idempotent ds xs res) :
    (∀ r ∈ news ds, r.Decodes) ∧ ∀ row created, res = some (row, created) → row.Decodes := by
  cases h with
  | new h =>
    have hd := h.decodes hf
    refine ⟨by simpa using hd, ?_⟩
    rintro _ _ ⟨⟩
    exact hd
  | old _ h =>
    refine ⟨by simp, ?_⟩
    rintro _ _ ⟨⟩
    exact h.decodes hrely hcs
  | gone => simp

theorem not_mappingFailure_savedReply {gone : RepoError} (hgone : gone.isMapping = false)
    {res : Option (TaskRow × Bool)} (h : ∀ row created, res = some (row, created) → row.Decodes) :
    ¬ MappingFailure (savedReply gone res) := by
  cases res with
  | none => exact not_mappingFailure_error hgone
  | some rc => exact not_mappingFailure_map (h rc.1 rc.2 rfl) (by simp)

theorem CalledBy.decodes {call : TxCall} {xs : List AuditEntry} {reply : Reply}
    (hf : Fresh call.task) (hrely : ∀ t free e, rely t free e → ∀ r ∈ t.rows, r.Decodes)
    (hcs : ∀ r ∈ news cs, r.Decodes) (h : CalledBy rely b cs call ds xs reply) :
    (∀ r ∈ news ds, r.Decodes) ∧ ¬ MappingFailure reply := by
  cases h with
  | saveInTx h =>
    obtain ⟨hds, hrow⟩ := h.decodes hf hrely hcs
    exact ⟨hds, not_mappingFailure_map (hrow _ _ rfl) (by simp)⟩
  | saveIdempotentInTx h =>
    obtain ⟨hds, hrow⟩ := h.decodes hf hrely hcs
    exact ⟨hds, not_mappingFailure_savedReply rfl hrow⟩

theorem CalledAll.decodes {calls : List TxCall} {xs : List AuditEntry} {replies : List Reply}
    (hf : ∀ call ∈ calls, Fresh call.task)
    (hrely : ∀ t free e, rely t free e → ∀ r ∈ t.rows, r.Decodes)
    (hcs : ∀ r ∈ news cs, r.Decodes) (h : CalledAll rely b cs calls ds xs replies) :
    ∀ reply ∈ replies, ¬ MappingFailure reply := by
  induction h with
  | nil => simp
  | cons hcall _ ih =>
    obtain ⟨hds, hreply⟩ := hcall.decodes (hf _ List.mem_cons_self) hrely hcs
    refine List.forall_mem_cons.mpr ⟨hreply, ih (fun call hc => hf call (List.mem_cons_of_mem _ hc)) ?_⟩
    intro r hr
    rw [news_append] at hr
    exact (List.mem_append.mp hr).elim (hcs r) (hds r)

/-- The rows an update has written are valid where those it has found are. -/
theorem UpdatedBy.valid {u : Update} (hrely : ∀ t free e, rely t free e → ∀ r ∈ t.rows, r.Valid)
    (hcs : ∀ r ∈ news cs, r.Valid) (h : UpdatedBy rely b u cs ds) : ∀ r ∈ news ds, r.Valid := by
  intro r hr
  obtain ⟨d, hd, rfl⟩ := mem_news.mp hr
  obtain ⟨r, -, hrw, hr⟩ := h.found hrely hcs d hd
  exact hrw.valid hr

theorem recoveredTasks_ne_error {rs ws : List TaskRow} (hr : ∀ r ∈ rs, r.Valid)
    (hw : ∀ w ∈ ws, w.Valid) (e : RepoError) : recoveredTasks rs ws ≠ .error e := by
  intro h
  unfold recoveredTasks at h
  cases hrs : rs.mapM (recoveredTask "recovered" .recovered) with
  | error e =>
    obtain ⟨r, hm, hr'⟩ := exists_of_mapM_eq_error hrs
    rw [recoveredTask_of_valid (hr r hm).kind (hr r hm).queue] at hr'
    cases hr'
  | ok xs =>
    cases hws : ws.mapM (recoveredTask "exhausted" .failed) with
    | error e =>
      obtain ⟨w, hm, hw'⟩ := exists_of_mapM_eq_error hws
      rw [recoveredTask_of_valid (hw w hm).kind (hw w hm).queue] at hw'
      cases hw'
    | ok ys => simp [hrs, hws, bind, Except.bind, pure, Except.pure] at h

/-- **No reply reports a row that cannot be decoded**, where the rows the statements see and those
the operation commits can be. -/
theorem Op.Spec.not_mappingFailure {op : Op} {ls : List AuditRow} {fin : Finish Reply}
    (hrely : ∀ t free e, rely t free e → ∀ r ∈ t.rows, r.Decodes) (henq : op.Enqueues)
    (hcs : ∀ r, fin = .commit r → ∀ c ∈ cs, c.new.Decodes)
    (h : Op.Spec rely a b op cs ls fin) : ¬ MappingFailure fin.reply := by
  have hvalid : ∀ t free e, rely t free e → ∀ r ∈ t.rows, r.Valid := fun t free e ht r hr =>
    have hd := hrely t free e ht r hr
    ⟨hd.kind, hd.queue, hd.nonneg, hd.pos⟩
  have hfresh : ∀ task ∈ op.tasks, Fresh task := fun task ht => (henq task ht).fresh
  -- a reply is made of rows the operation has committed or has seen, or of none
  cases h with
  | save h =>
    obtain ⟨-, hrow⟩ := h.decodes (hfresh _ List.mem_cons_self) hrely (by simp)
    exact not_mappingFailure_map (hrow _ _ rfl) (by simp)
  | saveIdempotent h =>
    obtain ⟨-, hrow⟩ := h.decodes (hfresh _ List.mem_cons_self) hrely (by simp)
    exact not_mappingFailure_savedReply rfl hrow
  | inTxCommit h | inTxRollback h =>
    have hall := h.decodes (fun call hc => hfresh _ (List.mem_map_of_mem hc)) hrely (by simp)
    intro hm
    cases hm with
    | batch hmem hm => exact hall _ hmem hm
  | found h => exact not_mappingFailure_map (h.decodes hrely (by simp)) (by simp)
  | claimed | transition | cancelled =>
    exact not_mappingFailure_map (hcs _ rfl _ List.mem_cons_self) (by simp)
  | refused he => exact not_mappingFailure_error he.transition.2
  | notReleased | notWritten => exact not_mappingFailure_error rfl
  | notRecovered hds hes herr =>
    have hdv := hds.valid hvalid (by simp)
    exact absurd herr (recoveredTasks_ne_error hdv (hes.valid hvalid hdv) _)
  | expired h =>
    have hv := h.valid hvalid (by simp)
    cases hx : (news cs).mapM expiredTask with
    | error e =>
      obtain ⟨r, hm, he⟩ := exists_of_mapM_eq_error hx
      rw [expiredTask_of_valid (hv r hm).queue] at he
      cases he
    | ok xs => rintro ⟨⟩
  | _ => rintro ⟨⟩

end Replies

/-! ## Runs -/

/-- While all entries are budgeted, no reply reports a row that cannot be decoded. -/
theorem Runs.not_mappingFailure {os : List Outcome} {db : System} (h : Runs Enqueuing .empty os db)
    (hb : Budgeted os) : ∀ o ∈ os, ∀ reply, o.reply = some reply → ¬ MappingFailure reply := by
  -- the statements of the run meet only committed tables whose rows decode
  have hr : Runs (fun os db ev => Enqueuing os db ev ∧ Budgeted os) .empty os db :=
    Reaches.restrict (fun _ _ => Budgeted.of_append) h hb
  have hspec := hr.spec (fun t _ _ => ∀ r ∈ t.rows, r.Decodes) (fun _ => True)
    (Db.exclusive_idle _ _ _) (fun s hs => by simp [Db.idle] at hs)
    fun os db sid e hr hok _ =>
      Runs.decodes (Reaches.mono (fun _ _ _ hok => hok.1) hr : Runs Enqueuing _ _ _) hok.2
  have hstart := h.started (P := fun call => call.op.Enqueues) fun _ _ _ _ _ hok => hok
  intro o ho reply hreply
  have hspec := hspec o ho
  have henq := hstart o ho
  cases o with
  | committed sid call b cs ls r =>
    cases hreply
    apply (hspec trivial).not_mappingFailure (fun _ _ _ ht => ht) (henq trivial)
    intro _ _ c hc
    have hx : ⟨call, b, c⟩ ∈ history c.new.id os :=
      mem_history.mpr ⟨⟨_, ho, List.mem_map_of_mem hc⟩, rfl⟩
    exact (h.valid_entry hx).decodes ((h.bounded (hb _)).2 _ hx)
  | returned sid call b r =>
    cases hreply
    obtain ⟨cs, ls, hspec⟩ := hspec trivial
    obtain ⟨-, -, henq⟩ := henq trivial
    exact hspec.not_mappingFailure (fun _ _ _ ht => ht) henq (by simp)
  | _ => cases hreply

/-- **When the stored rows stay within their maximum.** In every run from the empty store whose
submissions are the scheduler's: every stored row has its attempts between zero and their maximum,
every stored row decodes and no reply reports a row that does not, exactly if every claim and
every release of the run has found its task with attempts below their maximum. -/
theorem attempts_bounded_iff {os : List Outcome} {db : System} (h : Runs Enqueuing .empty os db) :
    ((∀ r ∈ db.table.rows, 0 ≤ r.attempts.val ∧ r.attempts.val ≤ r.maxAttempts.val) ∧
      (∀ r ∈ db.table.rows, ∃ record, TaskRecord.tryFrom r = .ok record) ∧
      ∀ o ∈ os, ∀ reply, o.reply = some reply → ¬ MappingFailure reply) ↔ Budgeted os := by
  constructor
  · rintro ⟨hb, -, -⟩ id x hx
    exact h.budgeted_of_bounded hx fun r hr => (hb r (Table.get_eq_some hr).1).2
  · intro hb
    have hdec := h.decodes hb
    exact ⟨fun r hr => ⟨(hdec r hr).nonneg, (hdec r hr).le⟩,
      fun r hr => ⟨_, tryFrom_of_decodes (hdec r hr)⟩, h.not_mappingFailure hb⟩

/-- The task of the sample, with a single attempt, is released. -/
def releasedMoves : List Move :=
  claimedMoves singleAttempt ++
    serve 3 (callOf (.releaseLeaseForTask ⟨1⟩)) 20 [.all]

theorem enqueuing_releasedMoves :
    Runs Enqueuing .empty (System.shown releasedMoves) (System.after releasedMoves) := by
  have hsaves : Runs (Calls (Call.SavesOnly [sampleTask singleAttempt]))
      .empty _ _ := Runs.of_moves releasedMoves (by decide +kernel) (by decide +kernel)
  apply hsaves.calls_mono
  intro c hc task ht
  obtain rfl := List.mem_singleton.mp (hc task ht)
  exact enqueued_sampleTask _

/-- **A row beyond its maximum**: a task with a single attempt is claimed and released; its row has
two attempts, and cannot be decoded. -/
theorem attempts_exceed :
    Runs Enqueuing .empty (System.shown releasedMoves) (System.after releasedMoves) ∧
      ∃ r ∈ (System.after releasedMoves).table.rows, r.maxAttempts.val < r.attempts.val ∧
        ∀ record, TaskRecord.tryFrom r ≠ .ok record := by
  refine ⟨enqueuing_releasedMoves, ?_⟩
  have hrows : (System.after releasedMoves).table.rows.map
      (fun r => decide (r.maxAttempts.val < r.attempts.val)) = [true] := by decide +kernel
  obtain ⟨r, rs, hr, hlt, -⟩ := List.map_eq_cons_iff.mp hrows
  have hlt := of_decide_eq_true hlt
  refine ⟨r, by simp [hr], hlt, fun record hrec => ?_⟩
  obtain ⟨hd, -⟩ := tryFrom_eq_ok_iff.mp hrec
  exact Int.not_lt.mpr hd.le hlt

/-- In the sample the release, which finds the task at its maximum, is what lets it exceed it. -/
theorem released_not_budgeted : ¬ Budgeted (System.shown releasedMoves) := by
  intro hb
  obtain ⟨hbound, -, -⟩ := (attempts_bounded_iff enqueuing_releasedMoves).mpr hb
  have hrows : (System.after releasedMoves).table.rows.map
      (fun r => decide (r.maxAttempts.val < r.attempts.val)) = [true] := by decide +kernel
  obtain ⟨r, rs, hr, hlt, -⟩ := List.map_eq_cons_iff.mp hrows
  exact Int.not_lt.mpr (hbound r (by simp [hr])).2 (of_decide_eq_true hlt)

end IronDefer
