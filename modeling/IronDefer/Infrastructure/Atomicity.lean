import IronDefer.Application.Scheduler
import IronDefer.Infrastructure.History
import IronDefer.RowStore.Alone

/-!
# Errors and what they leave behind

An operation that returns an error before its commit leaves the tables as they were. The
operations that return the row they have written decode it after their commit, so a row that
cannot be decoded turns into an error of a call whose changes stay. The recovery of expired leases
decodes its rows before it commits.

## Main definitions

* `Outcome.isError`: a step replies with an error, or its transaction has failed
* `TaskRow.DecodesWith`: a row decodes once its attempts are raised
* `Op.Decodable`: the rows an operation takes decode as it writes them
* `Here`: the statements see the tables of one state

## Main results

* `error_atomic_iff`: **when an error leaves the tables as they were**
* `claimed_with_error`: a claim that takes the lease and returns an error
-/

namespace IronDefer

open RowStore

/-- The reply of the step is an error, or its transaction has failed. -/
def Outcome.isError : Outcome → Bool
  | .failed .. => true
  | .returned _ _ _ (.error _) => true
  | .committed _ _ _ _ _ (.error _) => true
  | _ => false

/-- A step that ends no transaction shows no error and no commit. -/
theorem Outcome.of_going {o : Outcome} (h : o.ends = false) :
    o.isError = false ∧ o.commits = false := by
  cases o with
  | silent => exact ⟨rfl, rfl⟩
  | _ => cases h

/-- The row decodes once its attempts are raised by `n`. -/
structure TaskRow.DecodesWith (n : Int) (r : TaskRow) : Prop where
  kind : r.kind.isEmpty = false
  queue : QueueName.validate r.queue = .ok ()
  nonneg : 0 ≤ r.attempts.val + n
  pos : 1 ≤ r.maxAttempts.val
  le : r.attempts.val + n ≤ r.maxAttempts.val

/-- An insert conflicts with one of the rows. -/
def Conflicts (b : Began) (task : TaskRecord) (rows : List TaskRow) : Prop :=
  ∃ w ∈ rows, Clash idempotencyIndex
    (insertedRow b task (task.lastError.map truncateLastError)) w

/-- The rows an operation takes from `rows`, or the task it inserts, decode as it writes them; for
the operations that decode rows after their commit. -/
def Op.Decodable (b : Began) (rows : List TaskRow) (free : TaskId → Bool) : Op → Prop
  | save task => task.attempts.get.val ≤ task.maxAttempts.get.val
  | saveIdempotent task =>
    Conflicts b task rows ∨ task.attempts.get.val ≤ task.maxAttempts.get.val
  | expireSuspendedTasks timeout =>
    ∀ r ∈ targets b .all rows free (.expireSuspendedTasks (timeout / 1000000000)),
      QueueName.validate r.queue = .ok ()
  | recoverZombieTasks | releaseLeaseForTask _ | releaseLeasesForWorker _ => True
  | inTx .. | findById _ | cleanupExpiredIdempotencyKeys _ | writeCheckpoint .. => True
  | op => ∀ u ∈ op.updates, ∀ r ∈ targets b .all rows free u, r.DecodesWith (u.action r).counts

/-! ## Rows -/

theorem Update.Rewrites.decodes_iff {b : Began} {u : Update} {r r' : TaskRow}
    (h : Rewrites b u r r') : r'.Decodes ↔ r.DecodesWith (u.action r).counts := by
  have hatt : r'.attempts.val = r.attempts.val + (u.action r).counts := h.step.attempts_eq.1
  have hsame := h.sameTask
  constructor
  · intro hd
    exact ⟨hsame.kind ▸ hd.kind, hsame.queue ▸ hd.queue, hatt ▸ hd.nonneg,
      hsame.maxAttempts ▸ hd.pos, by rw [← hatt, ← hsame.maxAttempts]; exact hd.le⟩
  · intro hd
    exact ⟨hsame.kind ▸ hd.kind, hsame.queue ▸ hd.queue, hatt ▸ hd.nonneg,
      hsame.maxAttempts ▸ hd.pos, by rw [hatt, hsame.maxAttempts]; exact hd.le⟩

theorem insertedRow_decodes_iff {b : Began} {task : TaskRecord} {lastError : Option String} :
    (insertedRow b task lastError).Decodes ↔ task.attempts.get.val ≤ task.maxAttempts.get.val := by
  constructor
  · intro h
    exact h.le
  · intro h
    exact ⟨task.kind.nonempty, task.queue.valid, task.attempts.nonneg, task.maxAttempts.pos, h⟩

/-- Decoding a row fails exactly if it does not decode, whatever is made of the record. -/
theorem map_tryFrom_eq_error_iff {α : Type} {row : TaskRow} {f : TaskRecord → α} :
    (∃ e, (TaskRecord.tryFrom row).map f = .error e) ↔ ¬ row.Decodes := by
  by_cases hd : row.Decodes
  · simp [tryFrom_of_decodes hd, hd, Except.map]
  · obtain ⟨e, he⟩ := tryFrom_of_not_decodes hd
    simp [he, hd, Except.map]

theorem expiredTask_eq_error_iff {row : TaskRow} :
    (∃ e, expiredTask row = .error e) ↔ QueueName.validate row.queue ≠ .ok () := by
  constructor
  · rintro ⟨e, he⟩ hqueue
    rw [expiredTask_of_valid hqueue] at he
    cases he
  · exact expiredTask_of_not_valid

/-- Decoding the expired rows fails exactly if one of their queue names is invalid. -/
theorem map_mapM_expiredTask_eq_error_iff {α : Type} {rows : List TaskRow}
    {f : List (TaskId × QueueName) → α} :
    (∃ e, (rows.mapM expiredTask).map f = .error e) ↔
      ∃ r ∈ rows, QueueName.validate r.queue ≠ .ok () := by
  cases h : rows.mapM expiredTask with
  | ok xs =>
    have hall := forall₂_of_mapM h
    simp only [Except.map, reduceCtorEq, exists_false, false_iff, not_exists, not_and]
    intro r hr hq
    obtain ⟨e, he⟩ := expiredTask_eq_error_iff.mpr hq
    obtain ⟨x, -, hx⟩ := exists_of_mem_right hall.flip hr
    rw [he] at hx
    cases hx
  | error e =>
    obtain ⟨r, hr, he⟩ := exists_of_mapM_eq_error h
    simp only [Except.map, Except.error.injEq, exists_eq', true_iff]
    exact ⟨r, hr, expiredTask_eq_error_iff.mp ⟨e, he⟩⟩

/-- A scan that finds every row is one that finds all there could be. -/
theorem targets_of_scan {b : Began} {e : Env} {rows : List TaskRow} {free : TaskId → Bool}
    (he : ∀ r ∈ rows, e.seen r.id = true) (u : Update) :
    targets b e rows free u = targets b .all rows free u := by
  have hall : ∀ r ∈ rows, e.seen r.id = Env.all.seen r.id := fun r hr => he r hr
  unfold targets
  split
  · rw [List.filter_congr fun r hr => by rw [hall r hr]]
  · exact List.filter_congr fun r hr => by rw [hall r hr]

/-! ## Transactions -/

/-- A scan finds every row of the table. -/
def ScansAll (t : Table TaskRow.id) (e : Env) : Prop := ∀ r ∈ t.rows, e.seen r.id = true

instance (t : Table TaskRow.id) (e : Env) : Decidable (ScansAll t e) :=
  inferInstanceAs (Decidable (∀ r ∈ t.rows, e.seen r.id = true))

/-- The statements see the committed table `t`, with the rows `free` free, and scans find every
row. -/
def Here (t : Table TaskRow.id) (free : TaskId → Bool) (t' : Table TaskRow.id)
    (free' : TaskId → Bool) (e : Env) : Prop :=
  t' = t ∧ free' = free ∧ ScansAll t' e

section Here

variable {t : Table TaskRow.id} {free : TaskId → Bool} {a : Bool} {b : Began} {op : Op}
  {cs : List (Change TaskRow)} {ls : List AuditRow} {reply : Reply}

/-- Here an update rewrites its targets. -/
theorem UpdatedBy.here {u : Update} (h : UpdatedBy (Here t free) b u [] cs) :
    List.Forall₂ (fun r c => c.old = some r ∧ Update.Rewrites b u r c.new)
      (targets b .all t.rows free u) cs := by
  obtain ⟨t', e, free', ⟨rfl, rfl, he⟩, -, hall⟩ := h
  rwa [news_nil, Table.putAll_nil, targets_of_scan he] at hall

/-- An update that has changed nothing has had no targets. -/
theorem UpdatedBy.targets_eq_nil {u : Update} (h : UpdatedBy (Here t free) b u [] []) :
    targets b .all t.rows free u = [] :=
  List.forall₂_nil_right_iff.mp h.here

/-- The row written by an update decodes exactly if the one it takes does with the new attempts. -/
theorem UpdatedBy.decodes_iff {u : Update} {c : Change TaskRow}
    (h : UpdatedBy (Here t free) b u [] [c]) :
    c.new.Decodes ↔ ∀ r ∈ targets b .all t.rows free u, r.DecodesWith (u.action r).counts := by
  obtain ⟨r, rs, ⟨-, hrw⟩, hnil, htargets⟩ := List.forall₂_cons_right_iff.mp h.here
  obtain rfl := List.forall₂_nil_right_iff.mp hnil
  rw [htargets, List.forall_mem_singleton]
  exact hrw.decodes_iff

/-- The queue names of the rows written are those of the rows taken. -/
theorem UpdatedBy.queue_iff {u : Update} (h : UpdatedBy (Here t free) b u [] cs) :
    (∀ r ∈ news cs, QueueName.validate r.queue = .ok ()) ↔
      ∀ r ∈ targets b .all t.rows free u, QueueName.validate r.queue = .ok () := by
  have hall := h.here
  generalize targets b .all t.rows free u = rs at hall
  clear h
  induction hall with
  | nil => simp
  | cons hr _ ih =>
    rw [news_cons, List.forall_mem_cons, List.forall_mem_cons, hr.2.sameTask.queue]
    exact and_congr_right' ih

/-- An insert that returns no row has met a conflict, one that returns a row has not. -/
theorem InsertedBy.conflicts_iff {task : TaskRecord} {r : Option TaskRow}
    (h : InsertedBy (Here t free) b task true [] r) : Conflicts b task t.rows ↔ r = none := by
  obtain ⟨t', e, free', ⟨rfl, rfl, -⟩, -, h⟩ := h
  obtain ⟨-, -, h⟩ := exists_of_bind_ok h
  obtain ⟨-, -, h⟩ := exists_of_bind_ok h
  have hany : Conflicts b task t'.rows ↔ t'.rows.any (clashes
      (insertedRow b task (task.lastError.map truncateLastError))) = true := by
    simp only [Conflicts, List.any_eq_true, clashes_iff]
  rw [hany]
  split at h
  next hc =>
    cases h
    simpa using hc
  next hc =>
    split at h
    · cases h
    · obtain ⟨-, -, h⟩ := exists_of_bind_ok h
      cases h
      simpa using hc

theorem InsertedBy.eq_insertedRow {rely : Table TaskRow.id → (TaskId → Bool) → Env → Prop}
    {task : TaskRecord} {d : Bool} {row : TaskRow} (h : InsertedBy rely b task d cs (some row)) :
    row = insertedRow b task (task.lastError.map truncateLastError) := by
  obtain ⟨t, e, free, -, -, h⟩ := h
  exact (execInsert_eq_some h).1

/-- Where a reply decodes the one row a transaction has written, it is an error of a transaction
that has changed something exactly if that row does not decode. -/
theorem unchanged_iff_decodes {α : Type} {row : TaskRow} {f : TaskRecord → α}
    {c : Change TaskRow} :
    ((∃ e, (TaskRecord.tryFrom row).map f = .error e) → [c] = []) ↔ row.Decodes := by
  rw [map_tryFrom_eq_error_iff]
  simp

/-- A cancellation whose snapshot has not shown the task as cancellable, or that has changed
nothing, has no targets. -/
theorem SelectedBy.cancel_targets_eq_nil {id : TaskId} {found : Option TaskRow}
    (hsel : SelectedBy (Here t free) (fun r => decide (r.id = id)) [] found)
    (hmiss : ∀ row, found = some row → row.status = .pending ∨ row.status = .suspended →
      UpdatedBy (Here t free) b (.cancel id) [] []) :
    targets b .all t.rows free (.cancel id) = [] := by
  obtain ⟨t', e, free', ⟨rfl, rfl, -⟩, -, hfind⟩ := hsel
  change t'.get id = found at hfind
  apply List.filter_eq_nil_iff.mpr
  intro r hr hs
  simp only [Update.selects, Bool.and_eq_true, Bool.or_eq_true, decide_eq_true_eq] at hs
  obtain ⟨⟨rfl, hs⟩, -⟩ := hs
  rw [Table.get_key_of_mem hr] at hfind
  have hnil := (hmiss r hfind.symm hs).targets_eq_nil
  have hmem : r ∈ targets b .all t'.rows free' (.cancel r.id) :=
    List.mem_filter.mpr ⟨hr, by simp [Update.selects, Update.scans, hs]⟩
  rw [hnil] at hmem
  cases hmem

/-- **Which commits leave an error behind.** A transaction that commits and replies with an error
has changed nothing exactly if the rows the operation takes decode as it writes them. -/
theorem Op.Spec.unchanged_iff (h : Op.Spec (Here t free) a b op cs ls (.commit reply)) :
    ((∃ e, reply = .error e) → cs = []) ↔ op.Decodable b t.rows free := by
  -- an error after the commit is a row that does not decode
  cases h with
  | save h =>
    cases h with
    | new h =>
      rw [taskReply, unchanged_iff_decodes, h.eq_insertedRow]
      exact insertedRow_decodes_iff
  | @saveIdempotent task _ _ _ h =>
    change _ ↔ Conflicts b task t.rows ∨ _
    cases h with
    | new h =>
      rw [savedReply, unchanged_iff_decodes, h.eq_insertedRow, insertedRow_decodes_iff,
        h.conflicts_iff]
      simp
    | old h => simp [h.conflicts_iff]
    | gone h => simp [h.conflicts_iff]
  | unclaimed h => simp [Decodable, updates, h.targets_eq_nil]
  | claimed h =>
    rw [unchanged_iff_decodes, h.decodes_iff]
    simp [Decodable, updates]
  | @transition _ tr c htr h =>
    rw [taskReply, unchanged_iff_decodes, h.decodes_iff]
    cases op with
    | complete | fail | suspend | signal =>
      cases htr
      simp [Decodable, updates]
    | _ => cases htr
  | cancelled h =>
    rw [unchanged_iff_decodes, h.decodes_iff]
    simp [Decodable, updates]
  | @notCancellable id row hsel hmiss =>
    have hnil := hsel.cancel_targets_eq_nil (b := b) (by rintro _ ⟨⟩ hs; exact hmiss hs)
    simp [Decodable, updates, hnil]
  | @cancelNotFound id hsel =>
    have hnil := hsel.cancel_targets_eq_nil (b := b) (by simp)
    simp [Decodable, updates, hnil]
  | @expired timeout _ h =>
    rw [map_mapM_expiredTask_eq_error_iff]
    change _ ↔ ∀ r ∈ targets b .all t.rows free _, _
    rw [← h.queue_iff]
    constructor
    · intro hnil r hr
      by_contra hq
      rw [hnil ⟨r, hr, hq⟩] at hr
      cases hr
    · rintro hall ⟨r, hr, hq⟩
      exact absurd (hall r hr) hq
  | _ => simp [Decodable]

/-- The changes of a commit that replies with an error are no rewritings of a row by itself. -/
theorem Op.Spec.moved {rely : Table TaskRow.id → (TaskId → Bool) → Env → Prop} {e : RepoError}
    (h : Op.Spec rely a b op cs ls (.commit (.error e))) : ∀ c ∈ cs, c.old ≠ some c.new := by
  -- an update that is no `touch` changes the status
  have hupd : ∀ {u ds}, UpdatedBy rely b u [] ds → (∀ r, u.action r ≠ .touch) →
      ∀ c ∈ ds, c.old ≠ some c.new := by
    intro u ds hu htouch c hc heq
    obtain ⟨r, hold, hrw⟩ := hu.rewrites c hc
    obtain rfl : r = c.new := Option.some.inj (hold.symm.trans heq)
    exact hrw.step.status_ne (htouch _) rfl
  generalize hfin : Finish.commit (Except.error e : Reply) = fin at h
  cases h with
  | save h =>
    cases h with
    | new => simp
  | saveIdempotent h => cases h <;> simp
  | claimed h => exact hupd h fun _ => by simp [Update.action]
  | @transition _ tr c htr h =>
    apply hupd h
    intro r
    cases op with
    | complete | suspend | signal =>
      cases htr
      simp [Update.action]
    | fail =>
      cases htr
      simp only [Update.action]
      split <;> simp
    | _ => cases htr
  | cancelled h => exact hupd h fun _ => by simp [Update.action]
  | expired h => exact hupd h fun _ => by simp [Update.action]
  | found | notWritten => simp
  | _ => cases hfin

end Here

/-! ## Calls -/

/-- The runs of one call from a state, while no other transaction moves. -/
abbrev CallRuns (sid : ℕ) (call : Call) (b : Began) (db₀ : System) (os : List Outcome)
    (db : System) : Prop :=
  Runs (Alone ScansAll sid call b) db₀ os db

/-- **When an error leaves the tables as they were.** Whatever run has led to a state, a call made
there that returns an error leaves the tasks and the audit log as they were, exactly if it does not
reach its commit or the rows it takes decode as it writes them. -/
theorem error_atomic_iff {ok : List Outcome → System → Move → Prop} {t : Table TaskRow.id}
    {log : List (ℕ × AuditRow)} {n sid : ℕ} {call : Call} {b : Began} {os₀ os : List Outcome}
    {db₀ db : System} (h₀ : Runs ok (.idle t log n) os₀ db₀)
    (hsid : ∀ s ∈ db₀.sessions.rows, s.id ≠ sid) (h : CallRuns sid call b db₀ os db) :
    ((∃ o ∈ os, o.isError = true) → db.table = db₀.table ∧ db.log = db₀.log) ↔
      ((∃ o ∈ os, o.commits = true) → call.op.Decodable b db₀.table.rows (db₀.free sid)) := by
  have hx := h₀.exclusive (Db.exclusive_idle _ _ _)
  have hspec := call.op.along_spec call.auditLog b (Here db₀.table (db₀.free sid))
  rcases Reaches.of_alone (.nil []) hspec hx hsid h with hgoing | ⟨ps, o, rfl, hgoing, hend⟩
  · have hno : ∀ o : Outcome, o ∈ os → o.isError = false ∧ o.commits = false :=
      fun o ho => o.of_going (hgoing o ho)
    constructor
    · rintro - ⟨o, ho, hc⟩
      rw [(hno o ho).2] at hc
      cases hc
    · rintro - ⟨o, ho, he⟩
      rw [(hno o ho).1] at he
      cases he
  · have hno : ∀ p : Outcome, p ∈ ps → p.isError = false ∧ p.commits = false :=
      fun p hp => p.of_going (hgoing p hp)
    -- only the last step can show an error or a commit
    have herr : (∃ p ∈ ps ++ [o], Outcome.isError p = true) ↔ Outcome.isError o = true := by
      simp only [List.mem_append, List.mem_singleton]
      grind
    have hcom : (∃ p ∈ ps ++ [o], p.commits = true) ↔ o.commits = true := by
      simp only [List.mem_append, List.mem_singleton]
      grind
    rw [herr, hcom]
    rcases hend with ⟨hnot, hsame⟩ | ⟨cs, ls, r, rfl, hrec, htable, hlog, hheld, hq⟩
    · exact iff_of_true (fun _ => hsame) fun hc => absurd hc (by simp [hnot])
    · rw [← hq.unchanged_iff]
      have hkept : cs = [] → db.table = db₀.table ∧ db.log = db₀.log := by
        rintro rfl
        have hls : ls = [] := List.map_eq_nil_iff.mp (hheld.eq_nil)
        rw [htable, hlog, hls]
        exact ⟨rfl, List.append_nil _⟩
      constructor
      · rintro hsame - ⟨e, rfl⟩
        by_contra hne
        obtain ⟨c, hc⟩ := List.exists_mem_of_ne_nil cs hne
        have hc' : c ∈ db₀.table.record (news cs) := by rwa [← hrec]
        obtain ⟨hold, hnew⟩ := Table.get_of_mem_record hq.nodup hc'
        rw [← htable, (hsame rfl).1] at hnew
        exact hq.moved c hc (hold.symm.trans hnew)
      · intro hnil he
        refine hkept (hnil rfl ?_)
        cases r with
        | error e => exact ⟨e, rfl⟩
        | ok _ => cases he

/-- The task of the sample, with a single attempt, is suspended and signalled: it is pending again,
with its attempt spent. -/
def spentMoves : List Move :=
  claimedMoves singleAttempt ++
    serve 3 (callOf (.suspend ⟨1⟩)) 20 [.all] ++ serve 4 (callOf (.signal ⟨1⟩ none)) 30 [.all]

/-- The next claim. -/
def claimCall : Call := callOf (.claimNext sampleQueue sampleWorker 1000000000 none)

def claimCallMoves : List Move := serve 5 claimCall 40 [.all]

theorem runs_spentMoves :
    Runs (Calls fun _ => True) .empty (System.shown spentMoves) (System.after spentMoves) :=
  Runs.of_moves spentMoves (by decide +kernel) (by decide +kernel)

theorem runs_claimCallMoves :
    CallRuns 5 claimCall ⟨40⟩ (System.after spentMoves)
      ((System.after spentMoves).resume claimCallMoves).2
      ((System.after spentMoves).resume claimCallMoves).1 :=
  Runs.resume claimCallMoves (by decide +kernel) (by decide +kernel)

/-- **A claim that takes the lease and returns an error**: the attempts of the task exceed their
maximum, so its row is not decoded, but the task is running under a lease no worker knows of. -/
theorem claimed_with_error :
    CallRuns 5 claimCall ⟨40⟩ (System.after spentMoves)
      ((System.after spentMoves).resume claimCallMoves).2
      ((System.after spentMoves).resume claimCallMoves).1 ∧
    (∃ o ∈ ((System.after spentMoves).resume claimCallMoves).2, Outcome.isError o = true) ∧
    statusAt ((System.after spentMoves).resume claimCallMoves).1 ⟨1⟩ = some .running ∧
    ((System.after spentMoves).resume claimCallMoves).1.table ≠ (System.after spentMoves).table := by
  have hpending : statusAt (System.after spentMoves) ⟨1⟩ = some .pending := by decide +kernel
  have hrunning : statusAt ((System.after spentMoves).resume claimCallMoves).1 ⟨1⟩ =
      some .running := by decide +kernel
  have herr : ((System.after spentMoves).resume claimCallMoves).2.map Outcome.isError =
      [false, false, true] := by decide +kernel
  refine ⟨runs_claimCallMoves, List.mem_map.mp (herr ▸ by simp), hrunning, fun heq => ?_⟩
  rw [statusAt, heq] at hrunning
  rw [statusAt, hrunning] at hpending
  cases hpending

/-- The completion of a task that is pending. -/
def refusedMoves : List Move := serve 5 (callOf (.complete ⟨1⟩)) 40 [.all]

/-- In the sample, a completion of the pending task is refused and changes nothing. -/
theorem refused_atomic :
    (∃ o ∈ ((System.after spentMoves).resume refusedMoves).2, Outcome.isError o = true) ∧
    ((System.after spentMoves).resume refusedMoves).1.table = (System.after spentMoves).table ∧
    ((System.after spentMoves).resume refusedMoves).1.log = (System.after spentMoves).log := by
  have h : CallRuns 5 (callOf (.complete ⟨1⟩)) ⟨40⟩ (System.after spentMoves) _ _ :=
    Runs.resume refusedMoves (by decide +kernel) (by decide +kernel)
  have hsid : ∀ s ∈ (System.after spentMoves).sessions.rows, s.id ≠ 5 := by decide +kernel
  have herr : ∃ o ∈ ((System.after spentMoves).resume refusedMoves).2, Outcome.isError o = true := by
    have hmap : ((System.after spentMoves).resume refusedMoves).2.map Outcome.isError =
        [false, false, true] := by decide +kernel
    exact List.mem_map.mp (hmap ▸ by simp)
  have hcom : ¬ ∃ o ∈ ((System.after spentMoves).resume refusedMoves).2, o.commits = true := by
    have hmap : ((System.after spentMoves).resume refusedMoves).2.map Output.commits =
        [false, false, false] := by decide +kernel
    intro hex
    simpa [hmap] using List.mem_map.mpr hex
  exact ⟨herr, (error_atomic_iff runs_spentMoves hsid h).mpr (fun hc => absurd hc hcom) herr⟩

end IronDefer
