import IronDefer.Application.Worker
import IronDefer.Infrastructure.Fencing
import IronDefer.Infrastructure.Attempts

/-!
# Checkpoints

A handler writes checkpoints while its task runs; the next execution is given the last one. The
write names the task and the worker: a late write of an execution whose worker has claimed the task
again overwrites the checkpoint of the new execution.

## Main definitions

* `Outcome.checkpoint?`, `lastCheckpoint`: the checkpoints written for a task

## Main results

* `checkpoint_fenced_iff`: **when a checkpoint write finds the claim of its execution**
* `stale_checkpoint`: a late checkpoint overwrites that of a later attempt
* `checkpoint_resumes`: **every execution is given the last checkpoint written before its claim**
-/

namespace IronDefer

open RowStore

/-- A transaction that replies that a checkpoint has been written has written it to a row. -/
theorem Op.Spec.of_written {rely : Table TaskRow.id → (TaskId → Bool) → Env → Prop} {a : Bool}
    {b : Began} {op : Op} {cs : List (Change TaskRow)} {ls : List AuditRow} {fin : Finish Reply}
    (h : Op.Spec rely a b op cs ls fin) (hfin : fin.reply = .ok .written) :
    ∃ id w data c, op = .writeCheckpoint id w data ∧ cs = [c] ∧ fin = .commit (.ok .written) ∧
      c.new.id = id ∧ c.new.checkpoint = some data := by
  cases h with
  | @written id w data c hc =>
    obtain ⟨r, -, hrw⟩ := hc.rewrites c List.mem_cons_self
    generalize hnew : c.new = r' at hrw
    cases hrw with
    | writeCheckpoint => exact ⟨_, w, data, c, rfl, rfl, rfl, by rw [hnew], by rw [hnew]⟩
  | save | transition | found | cancelled | expired | claimed =>
    obtain ⟨_, -, heq⟩ := eq_of_map_eq_ok hfin
    cases heq
  | @saveIdempotent _ _ _ res =>
    cases res with
    | none => cases hfin
    | some r =>
      obtain ⟨_, -, heq⟩ := eq_of_map_eq_ok hfin
      cases heq
  | _ => cases hfin

/-- A checkpoint write writes its row and says so, or does nothing. -/
theorem Op.Spec.of_writeCheckpoint {rely : Table TaskRow.id → (TaskId → Bool) → Env → Prop}
    {a : Bool} {b : Began} {id : TaskId} {w : WorkerId} {data : Json} {cs : List (Change TaskRow)}
    {ls : List AuditRow} {fin : Finish Reply}
    (h : Op.Spec rely a b (.writeCheckpoint id w data) cs ls fin) :
    fin.reply ≠ .ok .written ∧ cs = [] ∧ ls = [] ∨ fin = .commit (.ok .written) := by
  cases h with
  | refused href =>
    have htr := href.transition.1
    cases htr
  | transition htr => cases htr
  | notWritten => exact .inl ⟨by simp [Finish.reply], rfl, rfl⟩
  | written => exact .inr rfl

/-! ## Fencing -/

/-- **When a checkpoint write finds the claim of its execution.** In every such run, a checkpoint
write that succeeds changes the row of its task, and one on behalf of an execution finds the row
running under the claim of the execution, exactly if its worker has not claimed a later attempt of
the task before. -/
theorem checkpoint_fenced_iff {t : Table TaskRow.id} {log : List (ℕ × AuditRow)} {n : ℕ}
    {os : List Outcome} {db : System} (h : Runs OnBehalf (.idle t log n) os db) :
    (∀ o ∈ os, o.reply = some (.ok .written) → ∃ id, ∃ y ∈ history id [o], ∃ w data,
      y.call.op = .writeCheckpoint id w data) ∧
    ∀ id pre y post, history id os = pre ++ y :: post → ∀ x, y.call.onBehalf = some x →
      (∃ data, y.call.op = .writeCheckpoint x.task x.worker data) →
      ((∃ r, y.change.old = some r ∧ r.HeldBy x) ↔
        ∀ z ∈ pre, z.IsClaim → z.change.new.claimedBy = some x.worker →
          z.change.new.attempts.val ≤ x.attempt) := by
  refine ⟨fun o ho hreply => ?_, fun id pre y post hy x hx ⟨data, hop⟩ => ?_⟩
  · obtain ⟨sid, call, b, cs, ls, rfl, hspec⟩ := h.committed_of_response ho (by simp) hreply
    obtain ⟨id, w, data, c, hop, rfl, -, hid, -⟩ := hspec.of_written rfl
    exact ⟨id, ⟨call, b, c⟩, by simp [history, Outcome.entries, hid], w, data, hop⟩
  · have hcause := h.caused id y (by simp [hy])
    -- the row a checkpoint write changes is claimed by the worker it names
    have hworker : ∀ r, y.change.old = some r → ∀ w, r.claimedBy = some w → w = x.worker := by
      intro r hold w hw
      obtain ⟨-, r', hold', -, hby⟩ := (h.claim_before hy hx).1.found hcause
      obtain rfl : r' = r := Option.some.inj (hold'.symm.trans hold)
      exact Option.some.inj (hw.symm.trans (hby ⟨_, _, _, hop⟩))
    rw [h.heldBy_iff hy hx hworker]
    constructor
    · intro hnot z hz hc hw
      by_contra hlt
      exact hnot ⟨z, hz, hc, Int.not_le.mp hlt, _, rfl, hw⟩
    · rintro hall ⟨z, hz, hc, hlt, w, rfl, hw⟩
      exact Int.not_lt.mpr (hall z hz hc hw) hlt

/-- The first attempt writes a checkpoint after its worker has claimed the second. -/
def staleCheckpointMoves : List Move :=
  takenOverMoves sampleWorker ++
  serve 5 (callFor firstAttempt (.writeCheckpoint ⟨1⟩ sampleWorker ⟨"1"⟩)) 2000020 [.all]

/-- **A late checkpoint overwrites that of a later attempt of the same worker.** -/
theorem stale_checkpoint :
    Runs OnBehalf .empty (System.shown staleCheckpointMoves) (System.after staleCheckpointMoves) ∧
    ∃ pre y, history ⟨1⟩ (System.shown staleCheckpointMoves) = pre ++ [y] ∧
      y.call.onBehalf = some firstAttempt ∧
      y.call.op = .writeCheckpoint ⟨1⟩ sampleWorker ⟨"1"⟩ ∧
      y.change.new.checkpoint = some ⟨"1"⟩ ∧
      ∃ r, y.change.old = some r ∧ r.status = .running ∧ r.attempts.val = 2 := by
  refine ⟨Runs.of_moves staleCheckpointMoves (by decide +kernel) (by decide +kernel), ?_⟩
  have hlast : (history ⟨1⟩ (System.shown staleCheckpointMoves)).getLast?.map (fun y =>
      ((y.call.onBehalf, y.call.op, y.change.new.checkpoint), y.change.old.map fun r =>
        (r.status, r.attempts.val))) =
      some ((some firstAttempt, .writeCheckpoint ⟨1⟩ sampleWorker ⟨"1"⟩, some ⟨"1"⟩),
        some (.running, 2)) := by decide +kernel
  obtain ⟨y, hy, hproj⟩ := Option.map_eq_some_iff.mp hlast
  obtain ⟨pre, hpre⟩ := List.getLast?_eq_some_iff.mp hy
  simp only [Prod.mk.injEq, Option.map_eq_some_iff] at hproj
  obtain ⟨⟨hbehalf, hop, hcheckpoint⟩, r, hold, hr⟩ := hproj
  exact ⟨pre, y, hpre, hbehalf, hop, hcheckpoint, r, hold, hr⟩

/-- The first attempt writes a checkpoint in time. -/
def timelyCheckpointMoves : List Move :=
  claimedMoves .default ++
  serve 3 (callFor firstAttempt (.writeCheckpoint ⟨1⟩ sampleWorker ⟨"1"⟩)) 20 [.all]

/-- In the sample the checkpoint is written under the claim of its execution. -/
theorem timely_checkpoint : ∃ pre y,
    history ⟨1⟩ (System.shown timelyCheckpointMoves) = pre ++ [y] ∧
      ∃ r, y.change.old = some r ∧ r.HeldBy firstAttempt := by
  have h : Runs OnBehalf .empty (System.shown timelyCheckpointMoves)
      (System.after timelyCheckpointMoves) :=
    Runs.of_moves timelyCheckpointMoves (by decide +kernel) (by decide +kernel)
  have hmap : (history ⟨1⟩ (System.shown timelyCheckpointMoves)).map (fun y =>
      (y.call.onBehalf, y.call.op, y.change.new.attempts.val)) =
      [(none, .save (sampleTask .default), 0),
        (none, .claimNext sampleQueue sampleWorker 1000000000 none, 1),
        (some firstAttempt, .writeCheckpoint ⟨1⟩ sampleWorker ⟨"1"⟩, 1)] := by decide +kernel
  generalize hxs : history ⟨1⟩ (System.shown timelyCheckpointMoves) = xs at hmap
  obtain ⟨create, xs, rfl, hcreate, hmap⟩ := List.map_eq_cons_iff.mp hmap
  obtain ⟨claim, xs, rfl, hclaim, hmap⟩ := List.map_eq_cons_iff.mp hmap
  obtain ⟨y, xs, rfl, hy, hmap⟩ := List.map_eq_cons_iff.mp hmap
  obtain rfl := List.map_eq_nil_iff.mp hmap
  simp only [Prod.mk.injEq] at hcreate hclaim hy
  refine ⟨[create, claim], y, rfl, ?_⟩
  apply ((checkpoint_fenced_iff h).2 ⟨1⟩ [create, claim] y [] hxs _ hy.1 ⟨_, hy.2.1⟩).mpr
  intro z hz _ _
  rcases List.mem_cons.mp hz with rfl | hz
  · rw [hcreate.2.2]
    decide
  · obtain rfl := List.mem_singleton.mp hz
    rw [hclaim.2.2]
    decide

/-! ## Resuming -/

/-- The checkpoint a step has written for a task: one whose write has succeeded. -/
def Outcome.checkpoint? (id : TaskId) : Outcome → Option Json
  | .committed _ call _ _ _ (.ok .written) =>
    match call.op with
    | .writeCheckpoint taskId _ data => if taskId = id then some data else none
    | _ => none
  | _ => none

/-- The last checkpoint written for a task. -/
def lastCheckpoint (id : TaskId) (os : List Outcome) : Option Json :=
  lastOf (Outcome.checkpoint? id) os

section Resume

variable {ok : List Outcome → System → Move → Prop} {t : Table TaskRow.id}
  {log : List (ℕ × AuditRow)} {n : ℕ} {os : List Outcome} {db : System}

/-- A step that has written a checkpoint is the commit of the write. -/
theorem Runs.checkpoint_written (h : Runs ok (.idle t log n) os db) {o : Outcome} (ho : o ∈ os)
    {id : TaskId} {data : Json} (hc : o.checkpoint? id = some data) :
    ∃ x w, history id [o] = [x] ∧ x.call.op = .writeCheckpoint id w data ∧
      x.change.new.checkpoint = some data := by
  unfold Outcome.checkpoint? at hc
  split at hc
  next sid call b cs ls =>
    split at hc
    next taskId w data' hop =>
      split at hc
      next heq =>
        cases hc
        obtain ⟨id', w', data', c, hop', rfl, -, hid, hdata⟩ := (h.spec_committed ho).of_written rfl
        obtain ⟨rfl, rfl, rfl⟩ : taskId = id' ∧ w = w' ∧ data = data' := by
          simpa using hop.symm.trans hop'
        subst heq
        exact ⟨⟨call, b, c⟩, w, by simp [history, Outcome.entries, hid], hop, hdata⟩
      · cases hc
    · cases hc
  · cases hc

/-- The checkpoint an operation writes where it finds its row. -/
def Op.checkpoint? : Op → Option Json
  | .writeCheckpoint _ _ data => some data
  | _ => none

/-- An entry of a checkpoint write is a checkpoint written. -/
theorem Runs.checkpoint?_of_entry (h : Runs ok (.idle t log n) os db) {o : Outcome} (ho : o ∈ os)
    {id : TaskId} {x : Entry} (hx : history id [o] = [x]) :
    o.checkpoint? id = x.call.op.checkpoint? := by
  have hxm : x ∈ history id [o] := by simp [hx]
  obtain ⟨hxo, hid⟩ := mem_history_singleton.mp hxm
  cases o with
  | committed sid call b cs ls r =>
    obtain ⟨c, hc, rfl⟩ := List.mem_map.mp hxo
    have hspec := h.spec_committed ho
    have hcause : call.op.Causes b c := Runs.causes h _ ho c hc
    cases hop : call.op with
    | writeCheckpoint taskId w data =>
      rw [hop] at hspec hcause
      have htask : taskId = id := by
        change c.new.id = id at hid
        rw [← hid]
        cases hcause with
        | insert ht => cases ht
        | update hu hrw =>
          obtain rfl := List.mem_singleton.mp hu
          cases hrw
          rfl
      -- a write that does not succeed changes nothing, and here it has an entry
      rcases hspec.of_writeCheckpoint with ⟨-, rfl, -⟩ | hfin
      · cases hc
      · obtain rfl : r = .ok .written := by simpa using hfin
        simp [Outcome.checkpoint?, Op.checkpoint?, hop, htask]
    | _ =>
      unfold Outcome.checkpoint?
      split
      · simp_all [Op.checkpoint?]
      · rfl
  | _ => cases hxo

/-- An update of an unfinished row keeps its checkpoint, or is a checkpoint write. -/
theorem Update.Rewrites.checkpoint {op : Op} {b : Began} {u : Update} {r r' : TaskRow}
    (h : Rewrites b u r r') (hu : u ∈ op.updates) (hterm : r'.status.isTerminal = false) :
    r'.checkpoint = (op.checkpoint?.map some).getD r.checkpoint := by
  cases op with
  | writeCheckpoint id w data =>
    obtain rfl := List.mem_singleton.mp hu
    cases h
    rfl
  | complete id =>
    obtain rfl := List.mem_singleton.mp hu
    cases h
    cases hterm
  | recoverZombieTasks =>
    rcases List.mem_cons.mp hu with rfl | hu
    · cases h
      rfl
    · obtain rfl := List.mem_singleton.mp hu
      cases h
      rfl
  | save | saveIdempotent | inTx | findById => cases hu
  | _ =>
    obtain rfl := List.mem_singleton.mp hu
    cases h <;> rfl

/-- A column that the tasks of the scheduler begin with `init`, and that no update of an unfinished
row sets but those of the operations that write it, has the value written last. -/
theorem Runs.column_of_op {β : Type} (h : Runs Enqueuing .empty os db) {id : TaskId} {r : TaskRow}
    (col : TaskRow → β) (written : Op → Option β) {told : Outcome → Option β} {init : β}
    (hquiet : ∀ o ∈ os, history id [o] = [] → told o = none)
    (hentry : ∀ o ∈ os, ∀ x, history id [o] = [x] → told o = written x.call.op)
    (hinsert : ∀ op : Op, ∀ task ∈ op.tasks, Fresh task → written op = none ∧
      ∀ b lastError, col (insertedRow b task lastError) = init)
    (hupdate : ∀ (op : Op) b u r r', Update.Rewrites b u r r' → u ∈ op.updates →
      r'.status.isTerminal = false → col r' = (written op).getD (col r))
    (hr : db.table.get id = some r) (hterm : r.status.isTerminal = false) :
    col r = (lastOf told os).getD init := by
  refine (h.column id col told init hquiet ?_ ?_).2 r hr hterm
  · intro o ho x hx hold
    have hxm := mem_history_of_step ho hx
    obtain ⟨task, ht, lastError, hnew⟩ := (h.caused id x hxm).of_none hold
    have hfresh := h.called (P := fun call => call.op.Enqueues) (fun _ _ _ _ _ hc => hc) id x hxm
    obtain ⟨hnone, hcol⟩ := hinsert _ task ht (hfresh task ht).fresh
    rw [hentry o ho x hx, hnone, hnew]
    exact hcol _ _
  · intro o ho x r hx hold hterm
    obtain ⟨u, hu, hrw⟩ := (h.caused id x (mem_history_of_step ho hx)).of_some hold
    rw [hentry o ho x hx]
    exact ⟨hrw.not_isTerminal hterm, hupdate _ _ _ _ _ hrw hu hterm⟩

/-- **The checkpoint of an unfinished task is the last one written.** -/
theorem Runs.checkpoint_eq (h : Runs Enqueuing .empty os db) {id : TaskId}
    {r : TaskRow} (hr : db.table.get id = some r) (hterm : r.status.isTerminal = false) :
    r.checkpoint = lastCheckpoint id os := by
  have hquiet : ∀ o ∈ os, history id [o] = [] → (o.checkpoint? id).map some = none := by
    intro o ho hnil
    cases hc : o.checkpoint? id with
    | none => rfl
    | some data =>
      obtain ⟨x, -, hx, -⟩ := h.checkpoint_written ho hc
      simp [hnil] at hx
  have hinsert : ∀ op : Op, ∀ task ∈ op.tasks, Fresh task → op.checkpoint?.map some = none ∧
      ∀ b lastError, (insertedRow b task lastError).checkpoint = none := by
    intro op task ht hfresh
    refine ⟨?_, fun _ _ => hfresh.checkpoint⟩
    cases op with
    | writeCheckpoint => cases ht
    | _ => rfl
  have hcol := h.column_of_op TaskRow.checkpoint (fun op => op.checkpoint?.map some) hquiet
    (fun o ho x hx => by rw [h.checkpoint?_of_entry ho hx]) hinsert
    (fun _ _ _ _ _ hrw hu hterm => hrw.checkpoint hu hterm) hr hterm
  rw [hcol, lastOf_map, lastCheckpoint]
  cases lastOf (Outcome.checkpoint? id) os <;> rfl

end Resume

/-- A completed row has no checkpoint. -/
def TaskRow.Cleared (r : TaskRow) : Prop := r.status = .completed → r.checkpoint = none

theorem Update.Rewrites.cleared {b : Began} {u : Update} {r r' : TaskRow} (h : Rewrites b u r r')
    (hr : r.Cleared) : r'.Cleared := by
  intro hs
  cases h with
  | complete => rfl
  | cleanupExpiredIdempotencyKeys => exact hr hs
  | writeCheckpoint hrun => simp [hrun] at hs
  | _ => cases hs

/-- The task a step hands out, with the run before it and the row it has claimed. -/
theorem Runs.handed {ok : List Outcome → System → Move → Prop} {t : Table TaskRow.id}
    {log : List (ℕ × AuditRow)} {n : ℕ} {ps qs : List Outcome} {o : Outcome} {db : System}
    (h : Runs ok (.idle t log n) (ps ++ o :: qs) db) {record : TaskRecord}
    (hreply : o.reply = some (.ok (.claimed (some record)))) :
    ∃ db' x r, Runs ok (.idle t log n) ps db' ∧ history record.id [o] = [x] ∧ x.IsClaim ∧
      x.change.old = some r ∧ db'.table.get record.id = some r ∧
      ∃ hd : x.change.new.Decodes, x.change.new.record hd = record := by
  rw [show ps ++ o :: qs = (ps ++ [o]) ++ qs by simp] at h
  obtain ⟨db₁, hr⟩ := Reaches.of_append h
  obtain ⟨db', ev, hr', hok, hs⟩ := Reaches.last hr
  obtain ⟨sid, call, b, cs, ls, rfl, hspec⟩ :=
    Runs.committed_of_response hr (List.mem_concat_self ..) (by simp) hreply
  obtain ⟨c, rfl, hrec, -, hop⟩ := hspec.of_claimed rfl
  obtain ⟨hd, rfl⟩ := tryFrom_eq_ok_iff.mp hrec
  have hx : ∀ reply, history c.new.id [.committed sid call b [c] ls reply] = [⟨call, b, c⟩] := by
    simp [history, Outcome.entries]
  have hcause : call.op.Causes b c :=
    Runs.causes hr _ (List.mem_concat_self ..) c List.mem_cons_self
  -- a claim updates a row, and this row is the committed one before the step
  obtain ⟨r, hold⟩ : ∃ r, c.old = some r := by
    obtain ⟨queue, w, lease, region, hop⟩ := hop
    rw [hop] at hcause
    cases hcause with
    | insert ht => cases ht
    | update => exact ⟨_, rfl⟩
  rcases Runs.committed_step hr' hok hs c.new.id with ⟨hnil, -⟩ | ⟨x, hx', hget, -⟩
  · cases (hx _).symm.trans hnil
  · obtain rfl : x = ⟨call, b, c⟩ := by simpa using hx'.symm.trans (hx _)
    exact ⟨db', _, r, hr', hx _, hop, hold, hget.symm.trans hold, hd, rfl⟩

/-- The record that a claim hands out has the checkpoint and the signal payload of the unfinished row
it has found. -/
theorem Runs.handed_columns {ps qs : List Outcome} {o : Outcome} {db : System}
    (h : Runs Enqueuing .empty (ps ++ o :: qs) db) {record : TaskRecord}
    (hreply : o.reply = some (.ok (.claimed (some record)))) :
    ∃ db' r, Runs Enqueuing .empty ps db' ∧ db'.table.get record.id = some r ∧
      r.status.isTerminal = false ∧ record.checkpoint = r.checkpoint ∧
      record.signalPayload = r.signalPayload := by
  obtain ⟨db', x, r, hr', hx, hclaim, hold, hget, hd, rfl⟩ := h.handed hreply
  obtain ⟨u, hu, hrw⟩ := (h.caused _ x (mem_history_of_step (by simp) hx)).of_some hold
  obtain ⟨queue, w, lease, region, hop⟩ := hclaim
  rw [hop] at hu
  obtain rfl := List.mem_singleton.mp hu
  have hnew : x.change.new.status = .running ∧ x.change.new.checkpoint = r.checkpoint ∧
      x.change.new.signalPayload = r.signalPayload := by
    generalize x.change.new = r' at hrw
    cases hrw
    exact ⟨rfl, rfl, rfl⟩
  have hterm : r.status.isTerminal = false := hrw.not_isTerminal (by rw [hnew.1]; rfl)
  exact ⟨db', r, hr', hget, hterm, hnew.2⟩

/-- **Every execution is given the last checkpoint written before its claim.** In every run from the
empty store of any operations, the submissions being the scheduler's: the context of an execution
holds the data of the last checkpoint write of its task that has succeeded before its claim, if
there is one; a checkpoint write that does not succeed changes nothing; and a completed task has no
checkpoint. -/
theorem checkpoint_resumes {os : List Outcome} {db : System}
    (h : Runs Enqueuing .empty os db) :
    (∀ ps o qs, os = ps ++ o :: qs → ∀ record,
      o.reply = some (.ok (.claimed (some record))) → ∀ workerId,
        (taskContext workerId true record).lastCheckpoint = lastCheckpoint record.id ps) ∧
    (∀ o ∈ os, ∀ call id w data, o.op = some call → call.op = .writeCheckpoint id w data →
      o.reply ≠ some (.ok .written) → o.changes = [] ∧ o.logs = []) ∧
    ∀ r ∈ db.table.rows, r.status = .completed → r.checkpoint = none := by
  refine ⟨?_, fun o ho call id w data hcall hop hreply => ?_, ?_⟩
  · rintro ps o qs rfl record hreply workerId
    obtain ⟨db', r, hr', hget, hterm, hcheckpoint, -⟩ := h.handed_columns hreply
    rw [← hr'.checkpoint_eq hget hterm]
    exact hcheckpoint
  -- what has not been written is rolled back, or has found no row
  · have hspec := h.spec_idle o ho
    cases o with
    | committed sid call' b cs ls r =>
      obtain rfl : call' = call := by simpa [Output.op] using hcall
      have hspec := h.spec_committed ho
      rw [hop] at hspec
      rcases hspec.of_writeCheckpoint with ⟨-, rfl, hls⟩ | hfin
      · exact ⟨rfl, List.map_eq_nil_iff.mp hls⟩
      · obtain rfl : r = .ok .written := by simpa using hfin
        exact absurd rfl hreply
    | _ => exact ⟨rfl, rfl⟩
  -- the scheduler submits pending tasks, and a completion clears the checkpoint
  · refine (h.allRows (I := TaskRow.Cleared) (fun r hr => by simp at hr) ?_ ?_).1.1
    · intro os db sid call b hok task ht b' lastError hs
      have hst := (hok task ht).fresh.status
      rw [insertedRow, hst] at hs
      cases hs
    · exact fun b u r r' hrw hr => hrw.cleared hr

/-- A checkpoint is written, the lease expires, and the task is claimed again. -/
def resumedMoves : List Move :=
  claimedMoves .default ++
  serve 3 (callOf (.writeCheckpoint ⟨1⟩ sampleWorker ⟨"1"⟩)) 20 [.all] ++
  serve 4 (callOf .recoverZombieTasks) 2000000 [.all, .all] ++
  serve 5 (callOf (.claimNext sampleQueue ⟨8⟩ 1000000000 none)) 2000010 [.all]

/-- In the sample the second execution is given the checkpoint of the first. -/
theorem resumed_checkpoint : ∃ ps o record, System.shown resumedMoves = ps ++ [o] ∧
    o.reply = some (.ok (.claimed (some record))) ∧ record.attempts.get.val = 2 ∧
    (taskContext ⟨8⟩ true record).lastCheckpoint = some ⟨"1"⟩ := by
  have hsaves : Runs (Calls (Call.SavesOnly [sampleTask .default])) .empty (System.shown resumedMoves)
      (System.after resumedMoves) := Runs.of_moves _ (by decide +kernel) (by decide +kernel)
  have h := hsaves.enqueuing (by simpa using enqueued_sampleTask _)
  have hlast : (System.shown resumedMoves).getLast?.bind Outcome.execution? =
      some ⟨⟨1⟩, 2, ⟨8⟩⟩ := by decide +kernel
  have hwritten : lastCheckpoint ⟨1⟩ (System.shown resumedMoves).dropLast = some ⟨"1"⟩ := by
    decide +kernel
  obtain ⟨o, ho, hx⟩ := Option.bind_eq_some_iff.mp hlast
  obtain ⟨ps, hps⟩ := List.getLast?_eq_some_iff.mp ho
  rw [hps, List.dropLast_concat] at hwritten
  obtain ⟨record, hreply, htask, hattempt⟩ := o.reply_of_execution hx
  refine ⟨ps, o, record, hps, hreply, hattempt, ?_⟩
  rw [(checkpoint_resumes h).1 ps o [] hps record hreply ⟨8⟩, htask]
  exact hwritten

end IronDefer
