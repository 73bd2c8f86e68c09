import IronDefer.Application.Observability
import IronDefer.Infrastructure.KeyRace
import IronDefer.RowStore.Spans

/-!
# The reason a cancellation is refused with

`cancel` is one statement. Its update waits for the row and tests the version that is current then;
what it reports where nothing has been cancelled is the version of its snapshot. The two are
versions of one task at two instants of the call, and where the task could be cancelled at the first
and not at the second, the reason is the status it had when it could still be cancelled.

## Main definitions

* `AppError`, `deleteTaskReply`: the answer of the HTTP handler
* `HadStatus`: the task has had a status at an instant of the call
* `TrueReason`, `TrueCode`: the reason that is reported, and the error code, are true of the task
* `Overtaken`: the task could be cancelled when the statement began, and not when it had the row

## Main results

* `cancel_reason_iff`: **the reason is true exactly where the statement has not been overtaken**
* `claimed_is_terminal`: a claimed task that is reported to be in a terminal state
-/

namespace IronDefer

open RowStore

/-! ## The handler -/

/-- An application-level error, as an HTTP response. -/
structure AppError where
  status : ℕ
  code : String
  message : String
  deriving DecidableEq, Repr

namespace AppError

def alreadyClaimed (message : String) : AppError := ⟨409, "TASK_ALREADY_CLAIMED", message⟩

def terminalState (message : String) : AppError := ⟨409, "TASK_IN_TERMINAL_STATE", message⟩

def taskSuspended (message : String) : AppError := ⟨409, "TASK_SUSPENDED", message⟩

/-- `From<TaskError>`, over the texts of these errors. -/
def ofTaskError (display : RepoError → String) (e : RepoError) : AppError where
  status := e.statusCode.1
  code := e.statusCode.2
  message := match e with
    | .storage _ => "internal server error"
    | _ => display e

end AppError

section Handler

variable (display : RepoError → String) (showId : TaskId → String) (id : TaskId)

/-- The error for a task that is not cancellable. A task that is reported as pending has been
changed by another transaction. -/
def notCancellable : TaskStatus → AppError
  | .pending =>
    .terminalState ("task " ++ showId id ++ " was concurrently modified and is no longer cancellable")
  | .running =>
    .alreadyClaimed ("task " ++ showId id ++ " is currently running and cannot be cancelled")
  | .suspended => .taskSuspended ("task " ++ showId id ++ " is suspended")
  | status =>
    .terminalState ("task " ++ showId id ++ " is in terminal state '" ++ statusToStr status ++ "'")

/-- `DELETE /tasks/{id}`, by what the cancellation returns: the response, and the event. -/
def deleteTaskReply :
    Except RepoError CancelResult → Except AppError (TaskRecord × StateTransitionEvent)
  | .ok (.cancelled record) => .ok (record, cancelledEvent record)
  | .ok .notFound => .error (.ofTaskError display (.notFound id))
  | .ok (.notCancellable currentStatus) => .error (notCancellable showId id currentStatus)
  | .error e => .error (.ofTaskError display e)

end Handler

/-! ## Reasons -/

/-- The statuses the cancel statement looks for. -/
def TaskStatus.isCancellable : TaskStatus → Bool
  | .pending | .suspended => true
  | .running | .completed | .failed | .cancelled => false

/-- The task has the status in a state that the moves of a call pass through. -/
def HadStatus (id : TaskId) (db : System) (evs : List Move) (status : TaskStatus) : Prop :=
  Passes System.step db evs fun d => statusAt d id = some status

/-- The reason for a refusal is a status that cannot be cancelled, and that the task has had. -/
def TrueReason (had : TaskStatus → Prop) (result : CancelResult) : Prop :=
  ∀ s, result = .notCancellable s → s.isCancellable = false ∧ had s

/-- The error code is true of the task. -/
structure TrueCode (had : TaskStatus → Prop) (e : AppError) : Prop where
  terminal : e.code = "TASK_IN_TERMINAL_STATE" → ∃ s, s.isTerminal = true ∧ had s
  claimed : e.code = "TASK_ALREADY_CLAIMED" → had .running
  suspended : e.code ≠ "TASK_SUSPENDED"

/-- The task can be cancelled in a state of the database. -/
def Cancellable (id : TaskId) (db : System) : Prop :=
  ∃ s, statusAt db id = some s ∧ s.isCancellable = true

/-- The first statement of the transaction finds the task cancellable, which is no longer so when
the second one is executed. -/
def Overtaken (id : TaskId) (sid : ℕ) (db : System) (evs : List Move) : Prop :=
  ∃ xs e ys e' zs d os d' os', evs = xs ++ .exec sid e :: (ys ++ .exec sid e' :: zs) ∧
    (∀ ev ∈ xs, ev.sid ≠ sid) ∧ (∀ ev ∈ ys, ev.sid ≠ sid) ∧
    run System.step db xs = some (d, os) ∧
    run System.step db (xs ++ .exec sid e :: ys) = some (d', os') ∧
    Cancellable id d ∧ ¬ Cancellable id d'

theorem TaskStatus.isTerminal_of_not_cancellable {s : TaskStatus} (h : s.isCancellable = false)
    (hs : s ≠ .running) : s.isTerminal = true := by
  cases s with
  | pending => cases h
  | suspended => cases h
  | running => exact absurd rfl hs
  | completed => rfl
  | failed => rfl
  | cancelled => rfl

/-- A true reason has a true code. -/
theorem TrueReason.code {had : TaskStatus → Prop} {result : CancelResult}
    (h : TrueReason had result) {display : RepoError → String} {showId : TaskId → String}
    {id : TaskId} {e : AppError} (he : deleteTaskReply display showId id (.ok result) = .error e) :
    TrueCode had e := by
  cases result with
  | cancelled record => cases he
  | notFound =>
    cases he
    have hcode : (AppError.ofTaskError display (.notFound id)).code = "TASK_NOT_FOUND" := rfl
    exact ⟨fun hc => absurd (hcode.symm.trans hc) (by decide),
      fun hc => absurd (hcode.symm.trans hc) (by decide),
      fun hc => absurd (hcode.symm.trans hc) (by decide)⟩
  | notCancellable s =>
    obtain ⟨hs, hhad⟩ := h s rfl
    cases he
    -- a running task has a code of its own; the other refusals are of finished tasks
    by_cases hrunning : s = .running
    · subst hrunning
      exact ⟨fun hc => absurd hc (by simp [notCancellable, AppError.alreadyClaimed]),
        fun _ => hhad, by simp [notCancellable, AppError.alreadyClaimed]⟩
    · have hterminal := TaskStatus.isTerminal_of_not_cancellable hs hrunning
      have hcode : (notCancellable showId id s).code = "TASK_IN_TERMINAL_STATE" := by
        cases s with
        | pending => cases hs
        | suspended => cases hs
        | running => exact absurd rfl hrunning
        | completed => rfl
        | failed => rfl
        | cancelled => rfl
      exact ⟨fun _ => ⟨s, hterminal, hhad⟩, fun hc => absurd (hcode.symm.trans hc) (by decide),
        fun hc => absurd (hcode.symm.trans hc) (by decide)⟩

/-! ## The two statements -/

/-- The row a statement finds by its id is the row of the table. -/
theorem result_of_selectById {b : Began} {e : Env} {t : Table TaskRow.id} {free : TaskId → Bool}
    {id : TaskId} {eff : Effect TaskRow AuditRow (Option TaskRow)}
    (h : postgres.exec (.selectById id) b e t.rows free = .ok eff) :
    eff.result = t.get id ∧ eff.news = [] := by
  cases h
  exact ⟨rfl, rfl⟩

/-- The update of the cancel statement returns a row exactly where the task can be cancelled. -/
theorem result_of_cancel {b : Began} {e : Env} {t : Table TaskRow.id} {free : TaskId → Bool}
    {id : TaskId} {eff : Effect TaskRow AuditRow (List TaskRow)}
    (h : postgres.exec (.update (.cancel id)) b e t.rows free = .ok eff) :
    eff.result ≠ [] ↔ ∃ r, t.get id = some r ∧ r.status.isCancellable = true := by
  obtain ⟨rs, hrs, h⟩ := exists_of_bind_ok h
  cases h
  have hall := rewrites_of_execUpdate hrs
  have hlen := hall.length_eq
  constructor
  · intro hne
    obtain ⟨v, hv⟩ := List.exists_mem_of_ne_nil _ hne
    obtain ⟨r, hr, hrw, -⟩ := exists_of_mem_right hall hv
    have hmem : r ∈ t.rows := (targets_sublist b e t.rows free _).subset hr
    cases hrw with
    | cancel hs =>
      refine ⟨r, Table.get_key_of_mem hmem, ?_⟩
      rcases hs with hs | hs
      · simp [hs, TaskStatus.isCancellable]
      · simp [hs, TaskStatus.isCancellable]
  -- a row that can be cancelled is a target, so that there is a result
  · rintro ⟨r, hr, hs⟩ rfl
    obtain ⟨hmem, hid⟩ := Table.get_eq_some hr
    have htarget : r ∈ targets b e t.rows free (.cancel id) := by
      refine List.mem_filter.mpr ⟨hmem, ?_⟩
      cases hst : r.status with
      | pending => simp [Update.selects, Update.scans, hid, hst]
      | suspended => simp [Update.selects, Update.scans, hid, hst]
      | running | completed | failed | cancelled => simp [hst, TaskStatus.isCancellable] at hs
    rw [List.length_eq_zero_iff.mp hlen] at htarget
    cases htarget

/-- What the call makes of the rows its statement has cancelled. -/
def cancelEnd (auditLog : Bool) (snapshot : Option TaskRow) (cancelled : List TaskRow) :
    Tx (Finish Reply) :=
  match cancelled.head? with
  | some row => do
    let fromStatus := if row.suspendedAt.isSome then "suspended" else "pending"
    insertAuditRow auditLog row.id (some fromStatus) "cancelled" none row.traceId none row.region
    return .commit ((TaskRecord.tryFrom row).map fun record => .cancel (.cancelled record))
  | none =>
    match snapshot with
    | some row =>
      .pure (.commit ((parseStatus (statusToStr row.status)).map fun status =>
        .cancel (.notCancellable status)))
    | none => .pure (.commit (.ok (.cancel .notFound)))

theorem cancel_eq (auditLog : Bool) (id : TaskId) : IronDefer.cancel auditLog id =
    .stmt (.selectById id) fun snapshot =>
      cancelAttempt id snapshot >>= cancelEnd auditLog snapshot := by
  refine congrArg (Program.stmt (Stmt.selectById id)) (funext fun snapshot => ?_)
  refine congrArg (cancelAttempt id snapshot >>= ·) (funext fun cancelled => ?_)
  cases cancelled with
  | nil => cases snapshot <;> rfl
  | cons row rows => rfl

theorem cancelAttempt_some {id : TaskId} {row : TaskRow} : cancelAttempt id (some row) =
    if row.status.isCancellable then exec (.update (.cancel id)) else .pure [] := by
  cases hs : row.status with
  | _ => simp [cancelAttempt, hs, TaskStatus.isCancellable]

theorem cancelEnd_nil (auditLog : Bool) (row : TaskRow) : cancelEnd auditLog (some row) [] =
    .pure (.commit (.ok (.cancel (.notCancellable row.status)))) := by
  simp [cancelEnd, Except.map]

/-- Where a row has been cancelled, the call does not report that the task is not cancellable. -/
theorem endsIn_cancelEnd (auditLog : Bool) (snapshot : Option TaskRow) {cancelled : List TaskRow}
    (h : cancelled ≠ []) : (cancelEnd auditLog snapshot cancelled).EndsIn (fun _ _ => True)
      fun fin => ∀ s, fin.reply ≠ .ok (.cancel (.notCancellable s)) := by
  obtain ⟨row, rows, rfl⟩ := List.exists_cons_of_ne_nil h
  apply Program.endsIn_bind_of_forall
  intro _ s hreply
  cases hr : TaskRecord.tryFrom row with
  | error e => simp [Finish.reply, hr, Except.map] at hreply
  | ok record => simp [Finish.reply, hr, Except.map] at hreply

section Call

variable {db d₀ d db' : System} {evs : List Move} {o : Outcome} {sid : ℕ} {a : Bool} {id : TaskId}
  {onBehalf : Option Execution} {b : Began}

/-- How a call of `cancel` ends: it has not found the task cancellable and says so; it says
something else; or it has been overtaken, and says that the task is in a status that can be
cancelled. -/
inductive Answered (id : TaskId) (sid : ℕ) (db : System) (evs : List Move) (o : Outcome) : Prop
  | refused {s} : o.reply = some (.ok (.cancel (.notCancellable s))) → s.isCancellable = false →
      HadStatus id db evs s → ¬ Overtaken id sid db evs → Answered id sid db evs o
  | other : (∀ s, o.reply ≠ some (.ok (.cancel (.notCancellable s)))) →
      ¬ Overtaken id sid db evs → Answered id sid db evs o
  | overtaken {s} : o.reply = some (.ok (.cancel (.notCancellable s))) → s.isCancellable = true →
      Overtaken id sid db evs → Answered id sid db evs o

theorem not_overtaken_of_first {xs ys : List Move} {e : Env} {d₁ : System} {os : List Outcome}
    (hxs : ∀ ev ∈ xs, ev.sid ≠ sid) (hrun : run System.step d₀ xs = some (d₁, os))
    (hc : ¬ Cancellable id d₁) : ¬ Overtaken id sid d₀ (xs ++ .exec sid e :: ys) := by
  rintro ⟨xs', e', ys', e'', zs, d', os', _, _, heq, hxs', -, hrun', -, hc', -⟩
  obtain ⟨rfl, -, -⟩ := Db.first_unique heq rfl rfl hxs hxs'
  obtain rfl : d₁ = d' := by
    rw [hrun] at hrun'
    cases hrun'
    rfl
  exact hc hc'

theorem not_overtaken_of_second {xs ys zs : List Move} {e e' : Env} {d₂ : System}
    {os : List Outcome} (hxs : ∀ ev ∈ xs, ev.sid ≠ sid) (hys : ∀ ev ∈ ys, ev.sid ≠ sid)
    (hrun : run System.step d₀ (xs ++ .exec sid e :: ys) = some (d₂, os))
    (hc : Cancellable id d₂) :
    ¬ Overtaken id sid d₀ (xs ++ .exec sid e :: (ys ++ .exec sid e' :: zs)) := by
  rintro ⟨xs', f, ys', f', zs', _, _, d', os', heq, hxs', hys', -, hrun', -, hc'⟩
  obtain ⟨rfl, hf, hrest⟩ := Db.first_unique heq rfl rfl hxs hxs'
  obtain ⟨rfl, -, -⟩ := Db.first_unique hrest rfl rfl hys hys'
  cases hf
  obtain rfl : d₂ = d' := by
    rw [hrun] at hrun'
    cases hrun'
    rfl
  exact hc' hc

theorem cancellable_iff {t : System} : Cancellable id t ↔
    ∃ r, t.table.get id = some r ∧ r.status.isCancellable = true := by
  simp [Cancellable, statusAt]

/-- **How a call of `cancel` ends**, statement by statement. -/
theorem answered
    (hstart : System.step db (.start sid ⟨a, .cancel id, onBehalf⟩ b) = some (d₀, .silent))
    (h : Db.Spans postgres Call.program sid d₀ evs d db' o) : Answered id sid d₀ evs o := by
  have hs := Db.get_of_start hstart
  obtain ⟨xs, e, ys, d₁, os, eff, rfl, hxs, hrun, hrun₁, -, hexec, hs₁, hspan⟩ :=
    h.of_stmt hs (cancel_eq a id)
  -- the first statement reads the snapshot, at the state its moves have led to
  obtain ⟨hresult, hnews⟩ := result_of_selectById hexec
  change eff.result = d₁.table.get id at hresult
  cases hget : d₁.table.get id with
  | none =>
    rw [hresult, hget] at hs₁
    obtain ⟨-, hreply⟩ := hspan.of_pure hs₁ rfl
    refine .other (fun s hs => ?_) (not_overtaken_of_first hxs hrun ?_)
    · rw [hreply] at hs
      cases hs
    · rw [cancellable_iff, hget]
      rintro ⟨r, ⟨⟩, -⟩
  | some row =>
    rw [hresult, hget, cancelAttempt_some] at hs₁
    by_cases hc : row.status.isCancellable = true
    · -- the snapshot shows the task as cancellable, and the update looks at it again
      rw [if_pos hc] at hs₁
      obtain ⟨ys', e', zs, d₂, os', eff', rfl, hys, hrun', -, -, hexec', hs₂, hspan'⟩ :=
        hspan.of_stmt hs₁ rfl
      have hfound : eff'.result ≠ [] ↔ Cancellable id d₂ := by
        have hexec₂ : postgres.exec (.update (.cancel id)) b e' d₂.table.rows (d₂.free sid) =
            .ok eff' := by simpa [Db.view, hnews] using hexec'
        rw [cancellable_iff]
        exact result_of_cancel hexec₂
      have hrun₂ : run System.step d₀ (xs ++ .exec sid e :: ys') =
          some (d₂, os ++ .silent :: os') := by
        have happ : run System.step d₀ (xs ++ [.exec sid e] ++ ys') = _ := run_append hrun₁
        rw [hrun'] at happ
        simpa using happ
      -- at the lock, the row is as it was, or somebody else has taken it
      by_cases hc' : Cancellable id d₂
      · have hends := endsIn_cancelEnd a (some row) (hfound.mpr hc')
        refine .other (fun s hreply => ?_) (not_overtaken_of_second hxs hys hrun₂ hc')
        rcases hspan'.of_endsIn hs₂ rfl hends with hnone | ⟨fin, hfin, hgood⟩
        · rw [hnone] at hreply
          cases hreply
        · rw [hfin] at hreply
          exact hgood s (Option.some.inj hreply)
      · have hnil : eff'.result = [] := by
          by_contra hne
          exact hc' (hfound.mp hne)
        rw [hnil] at hs₂
        obtain ⟨-, hreply⟩ := hspan'.of_pure hs₂ (cancelEnd_nil a row)
        refine .overtaken hreply hc ?_
        exact ⟨xs, e, ys', e', zs, d₁, os, d₂, _, rfl, hxs, hys, hrun, hrun₂,
          cancellable_iff.mpr ⟨row, hget, hc⟩, hc'⟩
    · rw [if_neg hc] at hs₁
      obtain ⟨-, hreply⟩ := hspan.of_pure hs₁ (cancelEnd_nil a row)
      refine .refused hreply (by simpa using hc) ?_ (not_overtaken_of_first hxs hrun ?_)
      · exact Passes.of_run hrun (by simp [statusAt, hget])
      · rw [cancellable_iff, hget]
        rintro ⟨r, ⟨⟩, hr⟩
        exact hc hr

/-- **The reason a cancellation is refused with is true exactly where the statement has not been
overtaken**: by nothing that takes the task out of the statuses that can be cancelled, between its
snapshot and its lock. -/
theorem cancel_reason_iff
    (hstart : System.step db (.start sid ⟨a, .cancel id, onBehalf⟩ b) = some (d₀, .silent))
    (h : Db.Spans postgres Call.program sid d₀ evs d db' o) (display : RepoError → String)
    (showId : TaskId → String) :
    (∀ result, o.reply = some (.ok (.cancel result)) →
      TrueReason (HadStatus id d₀ evs) result ∧
      ∀ e, deleteTaskReply display showId id (.ok result) = .error e →
        TrueCode (HadStatus id d₀ evs) e) ↔ ¬ Overtaken id sid d₀ evs := by
  constructor
  · intro htrue hover
    cases answered hstart h with
    | refused _ _ _ hnot => exact hnot hover
    | other _ hnot => exact hnot hover
    | overtaken hreply hc =>
      -- a true reason could not be cancelled, and the one that is told could
      obtain ⟨hreason, -⟩ := htrue _ hreply
      exact absurd hc (by simp [(hreason _ rfl).1])
  · intro hnot result hreply
    have hreason : TrueReason (HadStatus id d₀ evs) result := by
      rintro s rfl
      cases answered hstart h with
      | refused hreply' hs hhad =>
        rw [hreply'] at hreply
        cases hreply
        exact ⟨hs, hhad⟩
      | other hother => exact absurd hreply (hother s)
      | overtaken _ _ hover => exact absurd hover hnot
    exact ⟨hreason, fun e he => hreason.code he⟩

end Call

/-! ## Two races -/

def cancelCall : Call := callOf (.cancel ⟨1⟩)

/-- The sample task has been submitted, and its cancellation has begun. -/
def cancelBegun : System :=
  System.after (serve 1 (callOf (.save (sampleTask .default))) 0 [.all] ++ [.start 2 cancelCall ⟨10⟩])

def claimBetween : List Move :=
  serve 3 (callOf (.claimNext sampleQueue sampleWorker 1000000000 none)) 20 [.all]

/-- The task is claimed between the two statements of the cancellation. -/
def claimRace : List Move := [.exec 2 .all] ++ claimBetween ++ [.exec 2 .all]

/-- The task is claimed before the first statement of the cancellation, which is the only one. -/
def claimFirst : List Move := claimBetween ++ [.exec 2 .all]

/-- The database when the cancellation ends, and what it shows. -/
def cancelDone (evs : List Move) : Option (System × Outcome) :=
  System.step (cancelBegun.resume evs).1 (.finish 2)

/-- The status a call of `cancel` reports. -/
def refusedWith (o : Outcome) : Option TaskStatus :=
  match o.reply with
  | some (.ok (.cancel (.notCancellable s))) => some s
  | _ => none

theorem reply_of_refusedWith {o : Outcome} {s : TaskStatus} (h : refusedWith o = some s) :
    o.reply = some (.ok (.cancel (.notCancellable s))) := by
  unfold refusedWith at h
  split at h
  next heq => cases h; exact heq
  · cases h

theorem cancelBegun_start : System.step
    (System.after (serve 1 (callOf (.save (sampleTask .default))) 0 [.all]))
      (.start 2 cancelCall ⟨10⟩) = some (cancelBegun, .silent) := rfl

/-- A move of another transaction, or the execution of a statement. -/
def goesOn (sid : ℕ) : Move → Bool
  | .exec .. => true
  | ev => decide (ev.sid ≠ sid)

/-- The cancellation is a transaction that goes on over the moves, and ends. -/
theorem spans_of_run {evs : List Move} {db' : System} {o : Outcome}
    (hown : evs.all (goesOn 2) = true) (hrun : (run System.step cancelBegun evs).isSome)
    (hdone : cancelDone evs = some (db', o)) :
    Db.Spans postgres Call.program 2 cancelBegun evs (cancelBegun.resume evs).1 db' o where
  own ev hev hsid := by
    have hgoes := List.all_eq_true.mp hown ev hev
    cases ev with
    | exec sid e => exact ⟨e, by cases hsid; rfl⟩
    | start => simp [goesOn, hsid] at hgoes
    | fault => simp [goesOn, hsid] at hgoes
    | finish => simp [goesOn, hsid] at hgoes
  ran := by
    obtain ⟨⟨d, os⟩, he⟩ := Option.isSome_iff_exists.mp hrun
    exact ⟨os, by simp [System.resume, he]⟩
  ended := hdone

/-- A transaction that is overtaken has executed two statements. -/
theorem Overtaken.two_le {id : TaskId} {sid : ℕ} {db : System} {evs : List Move}
    (h : Overtaken id sid db evs) : 2 ≤ (evs.filter fun ev => ev.sid = sid).length := by
  obtain ⟨xs, e, ys, e', zs, -, -, -, -, rfl, -, -, -, -, -, -⟩ := h
  simp only [List.filter_append, List.filter_cons, Event.sid, decide_true, if_true,
    List.length_append, List.length_cons]
  omega

/-- The statuses of a call are found among the beginnings of its moves. -/
theorem HadStatus.take {id : TaskId} {db : System} {evs : List Move} {s : TaskStatus}
    (h : HadStatus id db evs s) : ∃ n < evs.length + 1,
      (run System.step db (evs.take n)).bind (fun r => statusAt r.1 id) = some s := by
  obtain ⟨xs, ys, d, os, rfl, hrun, hs⟩ := h
  refine ⟨xs.length, ?_, ?_⟩
  · rw [List.length_append]
    omega
  · simpa [hrun] using hs

/-- A task that is claimed before the statement begins is refused for a true reason. -/
theorem claimed_first_refused : ∃ db' o, cancelDone claimFirst = some (db', o) ∧
    refusedWith o = some .running ∧
    TrueReason (HadStatus ⟨1⟩ cancelBegun claimFirst) (.notCancellable .running) := by
  obtain ⟨⟨db', o⟩, hdone⟩ : ∃ x, cancelDone claimFirst = some x :=
    Option.isSome_iff_exists.mp (by decide +kernel)
  have hrefused : (cancelDone claimFirst).bind (fun x => refusedWith x.2) = some .running := by
    decide +kernel
  rw [hdone] at hrefused
  have hspan := spans_of_run (by decide) (by decide +kernel) hdone
  have hone : (claimFirst.filter fun ev => ev.sid = 2).length = 1 := by decide
  have hnot : ¬ Overtaken ⟨1⟩ 2 cancelBegun claimFirst := fun hover => by
    have htwo := hover.two_le
    omega
  exact ⟨db', o, hdone, hrefused,
    ((cancel_reason_iff cancelBegun_start hspan (fun _ => "") fun _ => "").mpr hnot _
      (reply_of_refusedWith hrefused)).1⟩

/-- A task that is claimed while the statement waits for it is refused as pending, and so with the
code of a terminal state, while it has been pending and running only. -/
theorem claimed_is_terminal : ∃ db' o, cancelDone claimRace = some (db', o) ∧
    Db.Spans postgres Call.program 2 cancelBegun claimRace (cancelBegun.resume claimRace).1 db' o ∧
    o.reply = some (.ok (.cancel (.notCancellable .pending))) ∧
    (∀ display showId, ∃ e, deleteTaskReply display showId ⟨1⟩ (.ok (.notCancellable .pending)) =
      .error e ∧ e.code = "TASK_IN_TERMINAL_STATE") ∧
    (∀ s, HadStatus ⟨1⟩ cancelBegun claimRace s → s = .pending ∨ s = .running) ∧
    ¬ TrueReason (HadStatus ⟨1⟩ cancelBegun claimRace) (.notCancellable .pending) := by
  obtain ⟨⟨db', o⟩, hdone⟩ : ∃ x, cancelDone claimRace = some x :=
    Option.isSome_iff_exists.mp (by decide +kernel)
  have hrefused : (cancelDone claimRace).bind (fun x => refusedWith x.2) = some .pending := by
    decide +kernel
  rw [hdone] at hrefused
  refine ⟨db', o, hdone, spans_of_run (by decide) (by decide +kernel) hdone,
    reply_of_refusedWith hrefused, fun display showId => ⟨_, rfl, rfl⟩, fun s hs => ?_, fun h => ?_⟩
  · have hall : ∀ n < claimRace.length + 1, ∀ s,
        (run System.step cancelBegun (claimRace.take n)).bind (fun r => statusAt r.1 ⟨1⟩) =
          some s → s = .pending ∨ s = .running := by
      have hdec : ∀ n < claimRace.length + 1,
          ((run System.step cancelBegun (claimRace.take n)).bind fun r => statusAt r.1 ⟨1⟩) ∈
            [some TaskStatus.pending, some TaskStatus.running] := by decide +kernel
      intro n hn s hs
      have hmem := hdec n hn
      rw [hs] at hmem
      simpa using hmem
    obtain ⟨n, hn, hs⟩ := hs.take
    exact hall n hn s hs
  · obtain ⟨hc, -⟩ := h .pending rfl
    cases hc

end IronDefer
