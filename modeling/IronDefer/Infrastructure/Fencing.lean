import IronDefer.Infrastructure.StateMachine

/-!
# Fencing

A worker reports the outcome of an execution by the task's id: the task is completed, failed,
suspended or released where it is running, whoever runs it. While the claim of the execution is
the last one, that is the execution itself; once the task has been claimed again, a late outcome of
the old execution ends the new one. Writing a checkpoint asks for the worker as well.

## Main definitions

* `executions`: the executions that claims have handed to workers
* `Op.ActsFor`: the operations a worker sends for an execution
* `OnBehalf`: calls on behalf of an execution act for it, after it has been handed out
* `TaskRow.HeldBy`: the claim of an execution is the current one
* `Superseded`: the task of an execution has been claimed again

## Main results

* `fenced_iff`: **when an outcome finds the claim of its execution**
* `late_completion`: a late outcome completes an execution of another worker
-/

namespace IronDefer

open RowStore

/-- The execution a step hands to a worker: the task, the attempt and the worker of a claim. -/
def Outcome.execution? : Outcome → Option Execution
  | .committed _ call _ _ _ (.ok (.claimed (some record))) =>
    match call.op with
    | .claimNext _ workerId _ _ => some ⟨record.id, record.attempts.get.val, workerId⟩
    | _ => none
  | _ => none

theorem Outcome.reply_of_execution {x : Execution} (o : Outcome) (h : o.execution? = some x) :
    ∃ record : TaskRecord, o.reply = some (.ok (.claimed (some record))) ∧ record.id = x.task ∧
      record.attempts.get.val = x.attempt := by
  unfold Outcome.execution? at h
  split at h
  next sid call b cs ls record =>
    split at h
    · cases h
      exact ⟨record, rfl, rfl, rfl⟩
    · cases h
  · cases h

/-- The executions handed to workers. -/
def executions (os : List Outcome) : List Execution := os.filterMap Outcome.execution?

/-- The operations a worker sends for an execution: an outcome names the task only, a checkpoint
write names the worker as well. -/
def Op.ActsFor (x : Execution) : Op → Prop
  | complete taskId | fail taskId _ _ _ | suspend taskId | releaseLeaseForTask taskId =>
    taskId = x.task
  | writeCheckpoint taskId workerId _ => taskId = x.task ∧ workerId = x.worker
  | _ => False

instance (x : Execution) : DecidablePred (Op.ActsFor x)
  | .complete taskId | .fail taskId _ _ _ | .suspend taskId | .releaseLeaseForTask taskId =>
    inferInstanceAs (Decidable (taskId = x.task))
  | .writeCheckpoint taskId workerId _ =>
    inferInstanceAs (Decidable (taskId = x.task ∧ workerId = x.worker))
  | .save _ | .saveIdempotent _ | .inTx .. | .cleanupExpiredIdempotencyKeys _ | .findById _
  | .claimNext .. | .signal .. | .releaseLeasesForWorker _ | .recoverZombieTasks | .cancel _
  | .expireSuspendedTasks _ => .isFalse id

/-- A call on behalf of an execution acts for it, and the execution has been handed out. -/
def Call.Acts (os : List Outcome) (call : Call) : Prop :=
  ∀ x ∈ call.onBehalf, x ∈ executions os ∧ call.op.ActsFor x

instance (os : List Outcome) : DecidablePred (Call.Acts os) := fun call =>
  inferInstanceAs (Decidable (∀ x ∈ call.onBehalf, x ∈ executions os ∧ call.op.ActsFor x))

/-- Calls on behalf of an execution act for it, after it has been handed out. -/
def OnBehalf (os : List Outcome) (_ : System) : Move → Prop
  | .start _ call _ => call.Acts os
  | .exec .. | .fault _ | .finish _ => True

instance (os : List Outcome) (db : System) : (ev : Move) → Decidable (OnBehalf os db ev)
  | .start _ call _ => inferInstanceAs (Decidable (call.Acts os))
  | .exec .. | .fault _ | .finish _ => .isTrue trivial

/-- The row is running under the claim of the execution. -/
structure TaskRow.HeldBy (x : Execution) (r : TaskRow) : Prop where
  status : r.status = .running
  attempts : r.attempts.val = x.attempt
  claimedBy : r.claimedBy = some x.worker

/-- A later attempt of the task has been claimed, by a worker among `workers`. -/
def Superseded (x : Execution) (workers : WorkerId → Prop) (xs : List Entry) : Prop :=
  ∃ z ∈ xs, z.IsClaim ∧ x.attempt < z.change.new.attempts.val ∧
    ∃ w, workers w ∧ z.change.new.claimedBy = some w

theorem exists_last {α : Type} {p : α → Prop} {l : List α} (h : ∃ a ∈ l, p a) :
    ∃ pre a post, l = pre ++ a :: post ∧ p a ∧ ∀ b ∈ post, ¬ p b := by
  induction l with
  | nil => simp at h
  | cons b l ih =>
    by_cases hl : ∃ a ∈ l, p a
    · obtain ⟨pre, a, post, rfl, ha, hpost⟩ := ih hl
      exact ⟨b :: pre, a, post, rfl, ha, hpost⟩
    · obtain ⟨a, ha, hp⟩ := h
      rcases List.mem_cons.mp ha with rfl | ha
      · exact ⟨[], a, l, rfl, hp, fun c hc hpc => hl ⟨c, hc, hpc⟩⟩
      · exact absurd ⟨a, ha, hp⟩ hl

section Runs

variable {ok : List Outcome → System → Move → Prop} {t : Table TaskRow.id}
  {log : List (ℕ × AuditRow)} {n : ℕ} {os : List Outcome} {db : System}

/-- An execution is handed out by the commit of its claim. -/
theorem Runs.execution_claimed (h : Runs ok (.idle t log n) os db) {o : Outcome} (ho : o ∈ os)
    {x : Execution} (hx : o.execution? = some x) :
    ∃ k, history x.task [o] = [k] ∧ k.IsClaim ∧ k.change.new.HeldBy x := by
  unfold Outcome.execution? at hx
  split at hx
  next sid call b cs ls record =>
    split at hx
    next queue w lease region hop =>
      cases hx
      obtain ⟨c, rfl, hrec, -⟩ := (h.spec_committed ho).of_claimed rfl
      obtain ⟨hd, rfl⟩ := tryFrom_eq_ok_iff.mp hrec
      have hcaused : call.op.Causes b c := Runs.causes h _ ho c List.mem_cons_self
      refine ⟨⟨call, b, c⟩, by simp [history, Outcome.entries, TaskRow.record], ⟨_, _, _, _, hop⟩, ?_⟩
      rw [hop] at hcaused
      cases hcaused with
      | insert ht => cases ht
      | update hu hrw =>
        obtain rfl := List.mem_singleton.mp hu
        cases hrw
        exact ⟨rfl, rfl, rfl⟩
    · cases hx
  · cases hx

theorem Runs.claimedBy_of_isClaim (h : Runs ok (.idle t log n) os db) {id : TaskId} {z : Entry}
    (hz : z ∈ history id os) (hc : z.IsClaim) : ∃ w, z.change.new.claimedBy = some w := by
  obtain ⟨queue, w, lease, region, hop⟩ := hc
  have hcause := h.caused id z hz
  rw [hop] at hcause
  generalize z.change = c at hcause
  cases hcause with
  | insert ht => cases ht
  | update hu hrw =>
    obtain rfl := List.mem_singleton.mp hu
    cases hrw
    exact ⟨w, rfl⟩

/-- An entry made for an execution has found its task running; its worker wrote a checkpoint only
where it had claimed the task. -/
theorem Op.ActsFor.found {op : Op} {x : Execution} {b : Began} {c : Change TaskRow}
    (h : op.ActsFor x) (hc : op.Causes b c) :
    c.new.id = x.task ∧ ∃ r, c.old = some r ∧ r.status = .running ∧
      ((∃ taskId w data, op = .writeCheckpoint taskId w data) → r.claimedBy = some x.worker) := by
  cases hc with
  | insert ht =>
    cases op with
    | save | saveIdempotent | inTx => cases h
    | _ => cases ht
  | @update u r r' hu hrw =>
    cases op with
    | complete id | suspend id | releaseLeaseForTask id | fail id _ _ _ =>
      obtain rfl := List.mem_singleton.mp hu
      cases hrw <;> exact ⟨h, _, rfl, by assumption, by simp⟩
    | writeCheckpoint id w data =>
      obtain rfl := List.mem_singleton.mp hu
      obtain ⟨htask, hworker⟩ := h
      cases hrw with
      | writeCheckpoint hs hw => exact ⟨htask, _, rfl, hs, fun _ => hworker ▸ hw⟩
    | _ => cases h

/-- The claim of an execution comes before what is done for it. -/
theorem Runs.claim_before (h : Runs OnBehalf (.idle t log n) os db) {id : TaskId}
    {pre post : List Entry} {y : Entry} (hy : history id os = pre ++ y :: post) {x : Execution}
    (hx : y.call.onBehalf = some x) :
    y.call.op.ActsFor x ∧ x.task = id ∧
      ∃ pre₁ k mid, pre = pre₁ ++ k :: mid ∧ k.IsClaim ∧ k.change.new.HeldBy x := by
  have hmono : ∀ os (o : Outcome) (call : Call), call.Acts os → call.Acts (os ++ [o]) := by
    intro os o call hc x hx
    obtain ⟨hm, hop⟩ := hc x hx
    refine ⟨?_, hop⟩
    rw [executions, List.filterMap_append]
    exact List.mem_append_left _ hm
  obtain ⟨ps, o, qs, rfl, rfl, ho, -⟩ := h.split_history hy
  -- a call on behalf of an execution is admitted only where the execution has been handed out
  have hstart := (Reaches.started_before (P := fun os call => call.Acts os)
    (fun s hs => by simp [Db.idle] at hs) hmono (fun _ _ _ _ _ hok => hok) h).2 ps o qs rfl
  have hym : y ∈ history id [o] := by simp [ho]
  obtain ⟨hyo, hid⟩ := mem_history_singleton.mp hym
  have hacts : y.call.Acts ps := by
    cases o with
    | committed sid call b cs ls r =>
      obtain ⟨c, -, rfl⟩ := List.mem_map.mp hyo
      exact hstart trivial
    | _ => cases hyo
  obtain ⟨hmem, hop⟩ := hacts x hx
  have hcause := h.caused id y (by simp [hy])
  obtain ⟨htask, -⟩ := hop.found hcause
  obtain ⟨p', hp', hx'⟩ := List.mem_filterMap.mp hmem
  obtain ⟨k, hk, hclaim, hheld⟩ := h.execution_claimed (by simp [hp']) hx'
  have hkm : k ∈ history x.task [p'] := by simp [hk]
  refine ⟨hop, htask.symm.trans hid, ?_⟩
  -- the entry of that claim comes before, since its step does
  have hkps : k ∈ history id ps := by
    obtain ⟨hkp, hkid⟩ := mem_history_singleton.mp hkm
    exact mem_history.mpr ⟨⟨p', hp', hkp⟩, hkid.trans (htask.symm.trans hid)⟩
  obtain ⟨pre₁, mid, hsplit⟩ := List.append_of_mem hkps
  exact ⟨pre₁, k, mid, hsplit, hclaim, hheld⟩

/-- A running task is under the last claim before: the given one, or a later one. -/
theorem Runs.last_claim (h : Runs ok (.idle t log n) os db) {id : TaskId}
    {pre mid post : List Entry} {k y : Entry} (hy : history id os = pre ++ k :: mid ++ y :: post)
    {r : TaskRow} (hold : y.change.old = some r) (hr : r.status = .running) :
    r.life = k.change.new.life ∨ ∃ z ∈ mid, z.IsClaim ∧
      k.change.new.attempts.val < z.change.new.attempts.val ∧ r.life = z.change.new.life := by
  by_cases hz : ∃ z ∈ mid, z.IsClaim
  · obtain ⟨a, z, b, rfl, hclaim, hb⟩ := exists_last hz
    have hkz : history id os = pre ++ k :: a ++ z :: (b ++ y :: post) := by simpa using hy
    have hzy : history id os = pre ++ k :: a ++ z :: b ++ y :: post := by simpa using hy
    have hlt := h.attempts_lt_of_isClaim hkz hclaim
    have hlife := h.held hzy hb hold hr
    exact .inr ⟨z, by simp, hclaim, hlt, hlife⟩
  · have hno : ∀ z ∈ mid, ¬ z.IsClaim := fun z hm hc => hz ⟨z, hm, hc⟩
    exact .inl (h.held hy hno hold hr)

/-- A running row has the status, the attempts and the worker of its life. -/
theorem TaskRow.HeldBy.of_life {r r' : TaskRow} {x : Execution} (h : r'.HeldBy x)
    (hr : r.status = .running) (hlife : r.life = r'.life) : r.HeldBy x where
  status := hr
  attempts := (congrArg Life.attempts hlife).trans h.attempts
  claimedBy := by
    have hholder := congrArg Life.holder hlife
    rwa [TaskRow.life, TaskRow.life, if_pos hr, if_pos h.status, h.claimedBy] at hholder

/-- What is done for an execution finds its claim, exactly if no later attempt has been claimed by a
worker whose claim the row may be under. -/
theorem Runs.heldBy_iff (h : Runs OnBehalf (.idle t log n) os db) {id : TaskId}
    {pre post : List Entry} {y : Entry} (hy : history id os = pre ++ y :: post) {x : Execution}
    (hx : y.call.onBehalf = some x) {workers : WorkerId → Prop}
    (hworkers : ∀ r, y.change.old = some r → ∀ w, r.claimedBy = some w → workers w) :
    (∃ r, y.change.old = some r ∧ r.HeldBy x) ↔ ¬ Superseded x workers pre := by
  obtain ⟨hacts, rfl, pre₁, k, mid, rfl, hclaim, hheld⟩ := h.claim_before hy hx
  obtain ⟨-, r, hold, hrun, -⟩ := hacts.found (h.caused x.task y (by simp [hy]))
  constructor
  · rintro ⟨r', hold', hr'⟩ ⟨z, hz, -, hlt, -⟩
    obtain rfl : r' = r := Option.some.inj (hold'.symm.trans hold)
    obtain ⟨a, b, hsplit⟩ := List.append_of_mem hz
    rw [hsplit] at hy
    obtain ⟨r'', hold'', hpath, -⟩ := h.path_between hy
    obtain rfl : r'' = r' := Option.some.inj (hold''.symm.trans hold)
    -- the attempts of a task only grow
    have hle : z.change.new.attempts.val ≤ r''.attempts.val := hpath.attempts_le
    rw [hr'.attempts] at hle
    exact Int.not_lt.mpr hle hlt
  · intro hnot
    refine ⟨r, hold, ?_⟩
    rcases h.last_claim hy hold hrun with hlife | ⟨z, hz, hzc, hlt, hlife⟩
    · exact hheld.of_life hrun hlife
    · -- the row is under a later claim, whose worker is the one the row names
      have hzm : z ∈ history x.task os := by simp [hy, hz]
      obtain ⟨w, hw⟩ := h.claimedBy_of_isClaim hzm hzc
      have hzrun : z.change.new.status = .running := (congrArg Life.status hlife).symm.trans hrun
      have hholder := congrArg Life.holder hlife
      rw [TaskRow.life, TaskRow.life, if_pos hrun, if_pos hzrun, hw] at hholder
      refine absurd ⟨z, by simp [hz], hzc, hheld.attempts ▸ hlt, w, ?_, hw⟩ hnot
      exact hworkers r hold w hholder

end Runs

/-! ## Outcomes -/

/-- **When an outcome finds the claim of its execution.** In every run in which workers report
outcomes of executions handed out to them, among any other calls: an outcome that changes the row
of its task finds it running under the claim of its execution, exactly if no later attempt of the
task has been claimed before. -/
theorem fenced_iff {t : Table TaskRow.id} {log : List (ℕ × AuditRow)} {n : ℕ} {os : List Outcome}
    {db : System} (h : Runs OnBehalf (.idle t log n) os db) {id : TaskId} {pre post : List Entry}
    {y : Entry} (hy : history id os = pre ++ y :: post) {x : Execution}
    (hx : y.call.onBehalf = some x) :
    (∃ r, y.change.old = some r ∧ r.HeldBy x) ↔
      ∀ z ∈ pre, z.IsClaim → z.change.new.attempts.val ≤ x.attempt := by
  have hany : ∀ r, y.change.old = some r → ∀ w, r.claimedBy = some w → True :=
    fun _ _ _ _ => trivial
  rw [h.heldBy_iff hy hx hany]
  constructor
  · intro hnot z hz hc
    by_contra hlt
    have hzm : z ∈ history id os := by simp [hy, hz]
    obtain ⟨w, hw⟩ := h.claimedBy_of_isClaim hzm hc
    exact hnot ⟨z, hz, hc, Int.not_le.mp hlt, w, trivial, hw⟩
  · rintro hall ⟨z, hz, hc, hlt, -⟩
    exact Int.not_lt.mpr (hall z hz hc) hlt

/-- The first attempt of the sample, claimed by `sampleWorker`. -/
def firstAttempt : Execution := ⟨⟨1⟩, 1, sampleWorker⟩

/-- A call on behalf of an execution. -/
def callFor (x : Execution) (op : Op) : Call := ⟨false, op, some x⟩

/-- The lease of the first attempt expires and is recovered, and another worker claims the task. -/
def takenOverMoves (worker : WorkerId) : List Move :=
  claimedMoves .default ++
  serve 3 (callOf .recoverZombieTasks) 2000000 [.all, .all] ++
  serve 4 (callOf (.claimNext sampleQueue worker 1000000000 none)) 2000010 [.all]

/-- The first attempt completes after the second has been claimed. -/
def lateMoves : List Move :=
  takenOverMoves ⟨8⟩ ++ serve 5 (callFor firstAttempt (.complete ⟨1⟩)) 2000020 [.all]

/-- **A late outcome completes an execution of another worker**: when the first attempt completes
the task, it is running as the second attempt, under the claim of worker 8. -/
theorem late_completion :
    Runs OnBehalf .empty (System.shown lateMoves) (System.after lateMoves) ∧
    ∃ pre y, history ⟨1⟩ (System.shown lateMoves) = pre ++ [y] ∧
      y.call.onBehalf = some firstAttempt ∧ y.call.op = .complete ⟨1⟩ ∧
      y.change.new.status = .completed ∧
      ∃ r, y.change.old = some r ∧ r.status = .running ∧ r.attempts.val = 2 ∧
        r.claimedBy = some ⟨8⟩ := by
  refine ⟨Runs.of_moves lateMoves (by decide +kernel) (by decide +kernel), ?_⟩
  have hlast : (history ⟨1⟩ (System.shown lateMoves)).getLast?.map (fun y =>
      ((y.call.onBehalf, y.call.op, y.change.new.status), y.change.old.map fun r =>
        (r.status, r.attempts.val, r.claimedBy))) =
      some ((some firstAttempt, .complete ⟨1⟩, .completed),
        some (.running, 2, some ⟨8⟩)) := by decide +kernel
  obtain ⟨y, hy, hproj⟩ := Option.map_eq_some_iff.mp hlast
  obtain ⟨pre, hpre⟩ := List.getLast?_eq_some_iff.mp hy
  simp only [Prod.mk.injEq, Option.map_eq_some_iff] at hproj
  obtain ⟨⟨hbehalf, hop, hstatus⟩, r, hold, hr⟩ := hproj
  exact ⟨pre, y, hpre, hbehalf, hop, hstatus, r, hold, hr⟩

/-- The first attempt completes in time. -/
def timelyMoves : List Move :=
  claimedMoves .default ++ serve 3 (callFor firstAttempt (.complete ⟨1⟩)) 20 [.all]

/-- In the sample the completion finds the claim of its execution. -/
theorem timely_completion : ∃ pre y, history ⟨1⟩ (System.shown timelyMoves) = pre ++ [y] ∧
    ∃ r, y.change.old = some r ∧ r.HeldBy firstAttempt := by
  have h : Runs OnBehalf .empty (System.shown timelyMoves) (System.after timelyMoves) :=
    Runs.of_moves timelyMoves (by decide +kernel) (by decide +kernel)
  have hmap : (history ⟨1⟩ (System.shown timelyMoves)).map (fun y =>
      (y.call.onBehalf, y.change.new.attempts.val)) =
      [(none, 0), (none, 1), (some firstAttempt, 1)] := by decide +kernel
  generalize hxs : history ⟨1⟩ (System.shown timelyMoves) = xs at hmap
  obtain ⟨create, xs, rfl, hcreate, hmap⟩ := List.map_eq_cons_iff.mp hmap
  obtain ⟨claim, xs, rfl, hclaim, hmap⟩ := List.map_eq_cons_iff.mp hmap
  obtain ⟨y, xs, rfl, hy, hmap⟩ := List.map_eq_cons_iff.mp hmap
  obtain rfl := List.map_eq_nil_iff.mp hmap
  simp only [Prod.mk.injEq] at hcreate hclaim hy
  refine ⟨[create, claim], y, rfl, ?_⟩
  rw [fenced_iff h (show history ⟨1⟩ _ = [create, claim] ++ y :: [] from hxs) hy.1]
  intro z hz _
  rcases List.mem_cons.mp hz with rfl | hz
  · rw [hcreate.2]
    decide
  · obtain rfl := List.mem_singleton.mp hz
    rw [hclaim.2]
    decide

end IronDefer
