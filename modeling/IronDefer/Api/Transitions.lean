import IronDefer.Api.Start
import IronDefer.Application.Dispatch
import IronDefer.Application.PollLoop
import IronDefer.Application.Sweeper
import IronDefer.Infrastructure.Recovery
import IronDefer.RowStore.Reports

/-!
# Transition events and committed transitions

The application reports the transitions of its tasks as events: the dispatch of a task, the poll
loop where it gives back a task claimed too late, the sweeper, an engine that releases its leases,
and the handler that cancels a task. Each of these is a client of the store here, and any number of
them run on one database, among other callers. An event is backed where the transition it tells of
has been committed, and no other event tells of the same commit.

A dispatch tells of a failure before it has written it, by the record it has claimed, and of a
cancelled join without writing anything; a task that is cancelled is said to have been pending.
These events may be wrong, and they are the only ones.

## Main definitions

* `AppEffect`, `AppProgram`: what a client asks of its surroundings
* `pollTick`, `sweepTick`, `releaseLeases`, `deleteTask`: the clients
* `AppSite`: a database and its clients
* `Truthful`: a client has not come to tell of a transition that was not made

## Main results

* `backed_sweepTick`, `backed_releaseLeases`, `told_pollTick`, `told_deleteTask`: what each client
  tells is backed, that of a poll and of a deletion where they are truthful
* `transition_events_sound`: the events of truthful clients tell of committed transitions, each of
  its own
-/

namespace IronDefer

open RowStore

/-! ## Clients of the store -/

/-- The effects of a client of the store that are not its calls. -/
inductive AppEffect (H : Type) where
  | dispatch (e : DispatchEffect H)
  | emit (event : StateTransitionEvent)
  /-- Read the token. -/
  | isCancelled

abbrev AppEffect.Answer {H : Type} : AppEffect H → Type
  | .dispatch e => e.Answer
  | .emit _ => Unit
  | .isCancelled => Bool

/-- The program of a client. The note to an answer is the text of its error. -/
abbrev AppProgram (H α : Type) := ClientProgram Call (AppEffect.Answer (H := H)) String Reply α

/-- A call of the repository. -/
def callStore {H : Type} (c : Call) : AppProgram H Reply :=
  .stmt (.call c) fun x => .pure (x.2.getD (.error TaskServer.queryFailed))

/-- The events that are emitted. -/
def report {H : Type} (events : List StateTransitionEvent) : AppProgram H PUnit :=
  events.forM fun event => .stmt (.own (.emit event)) .pure

/-- The answer to a write of a dispatch. -/
def writeAnswer : String × Option Reply → Except String TaskRecord
  | (_, some (.ok (.task record))) => .ok record
  | (text, _) => .error text

/-- What a dispatch asks of its surroundings, the repository among them. -/
def DispatchEffect.ask {H : Type} (auditLog : Bool) : DispatchEffect H → Ask Call (AppEffect H)
  | .write op => .call ⟨auditLog, op, none⟩
  | .error taskId text source => .own (.dispatch (.error taskId text source))
  | .lifecycle log => .own (.dispatch (.lifecycle log))
  | .addEvent event extra => .own (.dispatch (.addEvent event extra))
  | .metric instrument value labels => .own (.dispatch (.metric instrument value labels))
  | .execute handler payload ctx => .own (.dispatch (.execute handler payload ctx))
  | .elapsed => .own (.dispatch .elapsed)

def DispatchEffect.answer {H : Type} (auditLog : Bool) : (e : DispatchEffect H) →
    Ask.Answer (AppEffect.Answer (H := H)) String Reply (e.ask auditLog) → e.Answer
  | .write _, x => writeAnswer x
  | .error .., r | .lifecycle _, r | .addEvent .., r | .metric .., r | .execute .., r
  | .elapsed, r => r

/-- A dispatch as a client of the store. -/
def DispatchProgram.asClient {H α : Type} (auditLog : Bool) : DispatchProgram H α → AppProgram H α
  | .pure a => .pure a
  | .unwind => .unwind
  | .stmt e k => .stmt (e.ask auditLog) fun r => asClient auditLog (k (e.answer auditLog r))

/-- A worker, as its poll loop sees it. -/
structure Poller (H : Type) where
  workerId : WorkerId
  auditLog : Bool
  queue : QueueName
  config : WorkerConfig
  registry : TaskRegistry H
  logPayload : Bool
  metrics : Bool
  checkpointWriter : Bool

namespace Poller

variable {H : Type} (p : Poller H)

def dispatchContext : DispatchContext H :=
  p.config.dispatchContext p.registry p.workerId p.logPayload p.metrics p.queue p.checkpointWriter

def claimCall : Call :=
  ⟨p.auditLog, .claimNext p.queue p.workerId p.config.leaseDuration p.config.region, none⟩

def releaseCall (task : TaskRecord) : Call := ⟨p.auditLog, .releaseLeaseForTask task.id, none⟩

end Poller

section Clients

variable {H : Type} (fromHex : String → Bool)

/-- The answer to the release of a task claimed too late. -/
def reportReleasedTask (p : Poller H) (task : TaskRecord) : Reply → AppProgram H Unit
  | .ok (.releasedTask (some traceId)) =>
    report ((LoopState.releasedEvent p.workerId task traceId).emit fromHex)
  | _ => return

/-- What becomes of a claimed task: the token is read, and the task given back or dispatched. -/
def handleClaimed (p : Poller H) (task : TaskRecord) : AppProgram H Unit :=
  .stmt (.own .isCancelled) fun (cancelled : Bool) =>
    if cancelled then do
      reportReleasedTask fromHex p task (← callStore (p.releaseCall task))
    else (dispatchTask p.dispatchContext task fromHex).asClient p.auditLog

/-- A tick of a poll loop that claims, and the dispatch it spawns. -/
def pollTick (p : Poller H) : AppProgram H Unit := do
  match ← callStore p.claimCall with
  | .ok (.claimed (some task)) => handleClaimed fromHex p task
  | _ => return

/-- The answer to a recovery. -/
def reportRecovered : Reply → AppProgram H Unit
  | .ok (.recovered results) => report (logRecoveredTasks fromHex results)
  | _ => return

/-- The event for a task that has been suspended too long. -/
def expiredEvent (id : TaskId) (queue : QueueName) : StateTransitionEvent where
  taskId := id
  fromStatus := .suspended
  toStatus := .failed
  queue := some queue
  kind := none
  traceIdHex := none
  workerId := none
  attempt := 0

/-- The answer to an expiry of suspended tasks. -/
def reportExpired : Reply → AppProgram H Unit
  | .ok (.expired tasks) => report (tasks.flatMap fun x => (expiredEvent x.1 x.2).emit fromHex)
  | _ => return

/-- A tick of the sweeper. -/
def sweepTick (auditLog : Bool) (now : DateTime) (suspendTimeout : Duration) :
    AppProgram H Unit := do
  reportRecovered fromHex (← callStore ⟨auditLog, .recoverZombieTasks, none⟩)
  let _ ← callStore ⟨auditLog, .cleanupExpiredIdempotencyKeys now, none⟩
  reportExpired fromHex (← callStore ⟨auditLog, .expireSuspendedTasks suspendTimeout, none⟩)

/-- The event for a lease that has been released at a shutdown. -/
def releasedLeaseEvent (workerId : WorkerId) (x : TaskId × Option String) :
    StateTransitionEvent where
  taskId := x.1
  fromStatus := .running
  toStatus := .pending
  queue := none
  kind := none
  traceIdHex := x.2
  workerId := some workerId
  attempt := 0

/-- The answer to the release of all leases of a worker. -/
def reportReleased (workerId : WorkerId) : Reply → AppProgram H Unit
  | .ok (.released tasks) =>
    report (tasks.flatMap fun x => (releasedLeaseEvent workerId x).emit fromHex)
  | _ => return

/-- An engine whose drain has timed out releases its leases. -/
def releaseLeases (auditLog : Bool) (workerId : WorkerId) : AppProgram H Unit := do
  reportReleased fromHex workerId (← callStore ⟨auditLog, .releaseLeasesForWorker workerId, none⟩)

/-- The answer to a cancellation. -/
def reportCancelled : Reply → AppProgram H Unit
  | .ok (.cancel (.cancelled record)) => report ((cancelledEvent record).emit fromHex)
  | _ => return

/-- `DELETE /tasks/{id}`. -/
def deleteTask (auditLog : Bool) (taskId : TaskId) : AppProgram H Unit := do
  reportCancelled fromHex (← callStore ⟨auditLog, .cancel taskId, none⟩)

/-- The clients that report transitions. -/
inductive AppClient (H : Type) where
  | pollTick (p : Poller H)
  | sweepTick (auditLog : Bool) (now : DateTime) (suspendTimeout : Duration)
  | releaseLeases (auditLog : Bool) (workerId : WorkerId)
  | deleteTask (auditLog : Bool) (taskId : TaskId)

def AppClient.program : AppClient H → AppProgram H Unit
  | .pollTick p => IronDefer.pollTick fromHex p
  | .sweepTick auditLog now suspendTimeout =>
    IronDefer.sweepTick fromHex auditLog now suspendTimeout
  | .releaseLeases auditLog workerId => IronDefer.releaseLeases fromHex auditLog workerId
  | .deleteTask auditLog taskId => IronDefer.deleteTask fromHex auditLog taskId

end Clients

/-- What a client of the store has taken. -/
abbrev AppTaken (H : Type) := Taken Call (AppEffect H) AppEffect.Answer Outcome

/-- The database and the clients that report transitions. -/
abbrev AppSite (H : Type) :=
  Site TaskRow.id AuditRow Stmt Stmt.Res Call Began Reply SqlError (AppClient H)
    (AppEffect.Answer (H := H)) String

abbrev AppSite.Event (H : Type) :=
  Site.Event Call Began Env (AppClient H) (AppEffect.Answer (H := H)) String

/-- One step of a site. -/
abbrev AppSite.step {H : Type} (fromHex : String → Bool) :
    AppSite H → AppSite.Event H → Option (AppSite H) :=
  Site.step postgres Call.program Env.seen SameLife (AppClient.program fromHex)

/-! ## Transitions -/

/-- A task goes from one status to another. -/
structure StatusMove where
  taskId : TaskId
  fromStatus : TaskStatus
  toStatus : TaskStatus
  deriving DecidableEq

def StateTransitionEvent.move (event : StateTransitionEvent) : StatusMove :=
  ⟨event.taskId, event.fromStatus, event.toStatus⟩

/-- The transition an effect reports. -/
def AppEffect.moves {H : Type} : AppEffect H → List StatusMove
  | .emit event | .dispatch (.addEvent event _) => [event.move]
  | .dispatch (.error ..) | .dispatch (.lifecycle _) | .dispatch (.metric ..)
  | .dispatch (.execute ..) | .dispatch .elapsed | .dispatch (.write _) | .isCancelled => []

/-- The transition a committed change makes. -/
def statusMove (c : Change TaskRow) : Option StatusMove :=
  match c.old with
  | some r =>
    if r.status = c.new.status then none else some ⟨c.new.id, r.status, c.new.status⟩
  | none => none

/-- The transitions a step of the database commits. -/
def Outcome.moves (o : Outcome) : List StatusMove := o.changes.filterMap statusMove

/-- What an update makes of the status of a row, where that is the same for every row. -/
def Update.goes : Update → Option (TaskStatus × TaskStatus)
  | .claimNext .. => some (.pending, .running)
  | .complete _ => some (.running, .completed)
  | .recoverRetryable | .releaseLeasesForWorker _ | .releaseLeaseForTask _ =>
    some (.running, .pending)
  | .recoverExhausted => some (.running, .failed)
  | .suspend _ => some (.running, .suspended)
  | .signal .. => some (.suspended, .pending)
  | .expireSuspendedTasks _ => some (.suspended, .failed)
  | .fail .. | .cancel _ | .cleanupExpiredIdempotencyKeys _ | .writeCheckpoint .. => none

theorem Update.Rewrites.goes {b : Began} {u : Update} {r r' : TaskRow} {s t : TaskStatus}
    (h : Rewrites b u r r') (hu : u.goes = some (s, t)) :
    r.status = s ∧ r'.status = t ∧ s ≠ t := by
  cases h with
  | retry | exhaust | cancel | cleanupExpiredIdempotencyKeys | writeCheckpoint => cases hu
  | _ hs =>
    cases hu
    exact ⟨hs, rfl, by decide⟩

section Moves

variable {rely : Table TaskRow.id → (TaskId → Bool) → Env → Prop} {b : Began}
  {cs ds : List (Change TaskRow)} {u : Update} {s t : TaskStatus}

theorem statusMove_of_ne {c : Change TaskRow} {r : TaskRow} (hold : c.old = some r)
    (hne : r.status ≠ c.new.status) :
    statusMove c = some ⟨c.new.id, r.status, c.new.status⟩ := by
  rw [statusMove, hold]
  exact if_neg hne

/-- The transitions of an update. -/
theorem UpdatedBy.moves (h : UpdatedBy rely b u cs ds) (hu : u.goes = some (s, t)) :
    ds.filterMap statusMove = (news ds).map fun r => ⟨r.id, s, t⟩ := by
  have hmoves : ∀ c ∈ ds, statusMove c = some ⟨c.new.id, s, t⟩ := by
    intro c hc
    obtain ⟨r, hold, hrw⟩ := h.rewrites c hc
    obtain ⟨hs, ht, hne⟩ := hrw.goes hu
    rw [statusMove_of_ne hold (by rw [hs, ht]; exact hne), hs, ht]
  clear h
  induction ds with
  | nil => rfl
  | cons c ds ih =>
    rw [List.filterMap_cons_some (hmoves c List.mem_cons_self),
      ih fun d hd => hmoves d (List.mem_cons_of_mem _ hd)]
    rfl

/-- The transition of an update that has rewritten one row. -/
theorem UpdatedBy.move {c : Change TaskRow} (h : UpdatedBy rely b u cs [c])
    (hu : u.goes = some (s, t)) : [c].filterMap statusMove = [⟨c.new.id, s, t⟩] := h.moves hu

end Moves

/-! ## What the answers show -/

section Answers

variable {o : Outcome} {a : Bool} {onBehalf : Option Execution}

/-- A claim shows the transition of the task it returns. -/
theorem Outcome.Meets.claimed (h : o.Meets) {queue : QueueName} {w : WorkerId} {lease : Duration}
    {region : Option String} (hop : o.op = some ⟨a, .claimNext queue w lease region, onBehalf⟩)
    {task : TaskRecord} (hreply : o.reply = some (.ok (.claimed (some task)))) :
    o.moves = [⟨task.id, .pending, .running⟩] := by
  obtain ⟨b, ls, hspec⟩ := h.committed hop (by simp) hreply
  unfold Outcome.moves
  generalize o.changes = cs at hspec ⊢
  generalize hfin : Finish.commit (R := Reply) _ = fin at hspec
  cases hspec with
  | claimed hu =>
    obtain ⟨record, hrec, heq⟩ := eq_of_map_eq_ok (Finish.commit.inj hfin).symm
    obtain ⟨hd, rfl⟩ := tryFrom_eq_ok_iff.mp hrec
    cases heq
    exact hu.move rfl
  | unclaimed => cases hfin
  | refused => cases hfin
  | transition htr => cases htr

/-- A release of one lease shows the transition of its task. -/
theorem Outcome.Meets.releasedTask (h : o.Meets) {id : TaskId}
    (hop : o.op = some ⟨a, .releaseLeaseForTask id, onBehalf⟩) {traceId : Option String}
    (hreply : o.reply = some (.ok (.releasedTask traceId))) :
    o.moves = [⟨id, .running, .pending⟩] := by
  obtain ⟨b, ls, hspec⟩ := h.committed hop (by simp) hreply
  unfold Outcome.moves
  generalize o.changes = cs at hspec ⊢
  generalize hfin : Finish.commit (R := Reply) _ = fin at hspec
  cases hspec with
  | @releasedTask _ c hu =>
    have hid : c.new.id = id := by
      obtain ⟨r, -, hrw⟩ := hu.rewrites c List.mem_cons_self
      obtain ⟨old, new⟩ := c
      cases hrw
      rfl
    rw [hu.move rfl, hid]
  | notReleased => cases hfin
  | refused => cases hfin
  | transition htr => cases htr

/-- A release of the leases of a worker shows the transitions of the tasks it returns. -/
theorem Outcome.Meets.released (h : o.Meets) {w : WorkerId}
    (hop : o.op = some ⟨a, .releaseLeasesForWorker w, onBehalf⟩)
    {tasks : List (TaskId × Option String)} (hreply : o.reply = some (.ok (.released tasks))) :
    o.moves = tasks.map fun x => ⟨x.1, .running, .pending⟩ := by
  obtain ⟨b, ls, hspec⟩ := h.committed hop (by simp) hreply
  unfold Outcome.moves
  generalize o.changes = cs at hspec ⊢
  generalize hfin : Finish.commit (R := Reply) _ = fin at hspec
  cases hspec with
  | released hu =>
    cases hfin
    rw [hu.moves rfl, List.map_map]
    rfl
  | refused => cases hfin
  | transition htr => cases htr

/-- A recovered row is reported under its id. -/
theorem recoveredTask_eq_ok {what : String} {outcome : RecoveryOutcome} {row : TaskRow}
    {x : RecoveredTask} (h : recoveredTask what outcome row = .ok x) :
    x.1 = row.id ∧ x.2.2.2.2 = outcome := by
  obtain ⟨queue, -, h⟩ := exists_of_bind_ok h
  obtain ⟨kind, -, h⟩ := exists_of_bind_ok h
  cases h
  exact ⟨rfl, rfl⟩

theorem moves_of_recovered {what : String} {outcome : RecoveryOutcome} {rows : List TaskRow}
    {xs : List RecoveredTask} (h : rows.mapM (recoveredTask what outcome) = .ok xs)
    {t : TaskStatus} (ht : ∀ x : RecoveredTask, x.2.2.2.2 = outcome →
      (recoveredEvent x).move = ⟨x.1, .running, t⟩) :
    xs.map (fun x => (recoveredEvent x).move) = rows.map fun r => ⟨r.id, .running, t⟩ := by
  have hall := forall₂_of_mapM h
  clear h
  induction hall with
  | nil => rfl
  | cons hx _ ih =>
    obtain ⟨hid, hout⟩ := recoveredTask_eq_ok hx
    rw [List.map_cons, List.map_cons, ih, ht _ hout, hid]

/-- A recovery shows the transitions of the tasks it returns. -/
theorem Outcome.Meets.recovered (h : o.Meets)
    (hop : o.op = some ⟨a, .recoverZombieTasks, onBehalf⟩) {results : List RecoveredTask}
    (hreply : o.reply = some (.ok (.recovered results))) :
    o.moves = results.map fun x => (recoveredEvent x).move := by
  obtain ⟨b, ls, hspec⟩ := h.committed hop (by simp) hreply
  unfold Outcome.moves
  generalize o.changes = cs at hspec ⊢
  generalize hfin : Finish.commit (R := Reply) _ = fin at hspec
  cases hspec with
  | recovered hds hes hresults =>
    cases hfin
    obtain ⟨xs, hxs, hresults⟩ := exists_of_bind_ok hresults
    obtain ⟨ys, hys, hresults⟩ := exists_of_bind_ok hresults
    cases hresults
    rw [List.filterMap_append, List.map_append, hds.moves rfl, hes.moves rfl,
      moves_of_recovered hxs, moves_of_recovered hys]
    · rintro ⟨id, queue, kind, traceId, outcome⟩ rfl
      rfl
    · rintro ⟨id, queue, kind, traceId, outcome⟩ rfl
      rfl
  | notRecovered => cases hfin
  | refused => cases hfin
  | transition htr => cases htr

/-- An outcome that takes every row one way shows the transition of its task. -/
theorem Outcome.Meets.transition (h : o.Meets) {op : Op} {tr : Transition}
    (htr : op.transition = some tr) (hop : o.op = some ⟨a, op, onBehalf⟩) {record : TaskRecord}
    (hreply : o.reply = some (.ok (.task record))) :
    ∃ b c r, o.changes = [c] ∧ c.old = some r ∧ Update.Rewrites b tr.update r c.new ∧
      c.new.id = record.id := by
  obtain ⟨b, ls, hspec⟩ := h.committed hop (by simp) hreply
  generalize o.changes = cs at hspec ⊢
  generalize hfin : Finish.commit (R := Reply) _ = fin at hspec
  cases hspec with
  | transition htr' hu =>
    rw [htr] at htr'
    cases htr'
    obtain ⟨r, hold, hrw⟩ := hu.rewrites _ List.mem_cons_self
    obtain ⟨task, hrec, heq⟩ := eq_of_map_eq_ok (Finish.commit.inj hfin).symm
    obtain ⟨hd, rfl⟩ := tryFrom_eq_ok_iff.mp hrec
    cases heq
    exact ⟨b, _, r, rfl, hold, hrw, rfl⟩
  | _ => first | cases hfin | cases htr

/-- A cancellation shows the transition of the task it returns. -/
theorem Outcome.Meets.cancelled (h : o.Meets) {id : TaskId}
    (hop : o.op = some ⟨a, .cancel id, onBehalf⟩) {record : TaskRecord}
    (hreply : o.reply = some (.ok (.cancel (.cancelled record)))) :
    ∃ b c r, o.changes = [c] ∧ c.old = some r ∧ Update.Rewrites b (.cancel id) r c.new ∧
      TaskRecord.tryFrom c.new = .ok record := by
  obtain ⟨b, ls, hspec⟩ := h.committed hop (by simp) hreply
  generalize o.changes = cs at hspec ⊢
  generalize hfin : Finish.commit (R := Reply) _ = fin at hspec
  cases hspec with
  | @cancelled _ c hu =>
    obtain ⟨task, hrec, heq⟩ := eq_of_map_eq_ok (Finish.commit.inj hfin).symm
    cases heq
    obtain ⟨r, hold, hrw⟩ := hu.rewrites c List.mem_cons_self
    exact ⟨b, c, r, rfl, hold, hrw, hrec⟩
  | notCancellable => cases hfin
  | cancelNotFound => cases hfin
  | refused => cases hfin
  | transition htr => cases htr

/-- A failure shows the transition its row was due, by the attempts left. -/
theorem Outcome.Meets.failed (h : o.Meets) {id : TaskId} {text : String} {base max : ℚ}
    (hop : o.op = some ⟨a, .fail id text base max, onBehalf⟩) {c : Change TaskRow}
    (hc : c ∈ o.changes) :
    ∃ r, c.old = some r ∧ o.moves = [⟨id, .running,
      if r.attempts.val < r.maxAttempts.val then .pending else .failed⟩] := by
  cases o with
  | committed sid call b cs ls reply =>
    cases hop
    have hspec := h trivial
    unfold Outcome.moves
    simp only [Output.changes_committed] at hc ⊢
    generalize ls.map Prod.snd = xs at hspec
    generalize hfin : Finish.commit reply = fin at hspec
    cases hspec with
    | refused => cases hc
    | @transition _ _ c' htr hu =>
      cases htr
      obtain rfl := List.mem_singleton.mp hc
      obtain ⟨r, hold, hrw⟩ := hu.rewrites c List.mem_cons_self
      obtain ⟨old, new⟩ := c
      refine ⟨r, hold, ?_⟩
      cases hrw with
      -- the branch the update has taken is the one of the attempts left
      | retry hr hlt =>
        rw [List.filterMap_cons_some (statusMove_of_ne hold (by simp [hr])), hr, if_pos hlt]
        rfl
      | exhaust hr hle =>
        rw [List.filterMap_cons_some (statusMove_of_ne hold (by simp [hr])), hr,
          if_neg (Int.not_lt.mpr hle)]
        rfl
  | _ => cases hc

end Answers

/-! ## What the clients tell -/

section Told

variable {H α : Type} {fromHex : String → Bool} {shows : Outcome → List StatusMove}
  {spec : Outcome → Prop} {known rest : List StatusMove}

/-- Events that have been heard of are reported. -/
theorem backed_report {events : List StateTransitionEvent} {k : PUnit → AppProgram H α}
    (hk : Backed AppEffect.moves shows spec rest (k ⟨⟩))
    (hknown : known.Perm (events.map StateTransitionEvent.move ++ rest)) :
    Backed AppEffect.moves shows spec known (report events >>= k) := by
  induction events generalizing known with
  | nil => exact hk.mono hknown.symm.subperm
  | cons event events ih => exact .own (fun _ => ih (.refl _)) hknown

/-- What has been heard of the tasks in a list is reported of those with a trace. -/
theorem moves_emit_sublist {δ : Type} (fromHex : String → Bool) (f : δ → StateTransitionEvent)
    (xs : List δ) :
    ((xs.flatMap fun x => (f x).emit fromHex).map StateTransitionEvent.move).Sublist
      (xs.map fun x => (f x).move) := by
  induction xs with
  | nil => exact List.Sublist.refl _
  | cons x xs ih =>
    rw [List.flatMap_cons, List.map_append, List.map_cons]
    have hone : (((f x).emit fromHex).map StateTransitionEvent.move).Sublist [(f x).move] := by
      unfold StateTransitionEvent.emit
      split
      · exact List.nil_sublist _
      · split
        · exact List.Sublist.refl _
        · exact List.nil_sublist _
    exact hone.append ih

/-- What a list of tasks shows, and their events tell of. -/
theorem backed_reports {δ : Type} {f : δ → StateTransitionEvent} {xs : List δ}
    {k : PUnit → AppProgram H α} (hk : Backed AppEffect.moves shows spec [] (k ⟨⟩))
    (hknown : known = xs.map fun x => (f x).move) :
    Backed AppEffect.moves shows spec known
      (report (xs.flatMap fun x => (f x).emit fromHex) >>= k) := by
  obtain ⟨rest, hrest⟩ := (moves_emit_sublist fromHex f xs).exists_perm_append
  exact backed_report (hk.mono List.nil_subperm) (hknown ▸ hrest)

section Dispatch

variable {ctx : DispatchContext H} {task : TaskRecord} {a : Bool}

theorem backed_recordMetric {instrument : Instrument} {value : ℚ}
    {labels : List (String × String)} {k : Unit → DispatchProgram H α}
    (hk : Backed AppEffect.moves shows spec known (DispatchProgram.asClient a (k ()))) :
    Backed AppEffect.moves shows spec known
      (DispatchProgram.asClient a (recordMetric ctx task instrument value labels >>= k)) := by
  unfold recordMetric
  split
  · exact .quiet rfl fun _ => hk
  · exact hk

/-- A dispatch has an event on its span, or its task has no trace. -/
theorem backed_addEvent {fromStatus toStatus : TaskStatus} {extra : Option (String × String)}
    {k : Unit → DispatchProgram H α}
    (hk : Backed AppEffect.moves shows spec rest (DispatchProgram.asClient a (k ())))
    (hknown : known.Perm (⟨task.id, fromStatus, toStatus⟩ :: rest)) :
    Backed AppEffect.moves shows spec known
      (DispatchProgram.asClient a (addEvent ctx task fromHex fromStatus toStatus extra >>= k)) := by
  unfold addEvent
  split
  · exact .own (fun _ => hk) hknown
  · exact hk.mono (((List.sublist_cons_self _ _).subperm).trans hknown.symm.subperm)

/-- A program ends with a metric. -/
theorem backed_recordMetric_last {instrument : Instrument} {value : ℚ}
    {labels : List (String × String)} :
    Backed AppEffect.moves shows spec known
      (DispatchProgram.asClient a (recordMetric ctx task instrument value labels)) := by
  rw [← Program.bind_pure (recordMetric ..)]
  exact backed_recordMetric (.pure ())

theorem writeAnswer_cases (text : String) (reply : Option Reply) :
    writeAnswer (text, reply) = .error text ∨
      ∃ record, reply = some (.ok (.task record)) ∧ writeAnswer (text, reply) = .ok record := by
  unfold writeAnswer
  split
  next record heq =>
    cases heq
    exact .inr ⟨record, rfl, rfl⟩
  next heq =>
    cases heq
    exact .inl rfl

/-- A dispatch writes an outcome, which is answered with the record or with an error. -/
theorem backed_write {op : Op} {k : Except String TaskRecord → DispatchProgram H α}
    (hok : ∀ o record, o.op = some ⟨a, op, none⟩ → spec o → o.reply = some (.ok (.task record)) →
      Backed AppEffect.moves shows spec (known ++ shows o)
        (DispatchProgram.asClient a (k (.ok record))))
    (herr : ∀ text, Backed AppEffect.moves shows spec known
      (DispatchProgram.asClient a (k (.error text)))) :
    Backed AppEffect.moves shows spec known
      (DispatchProgram.asClient a (perform (.write op) >>= k)) := by
  refine .call (fun o text ho hs => ?_) fun text => herr text
  rcases writeAnswer_cases text o.reply with h | ⟨record, hreply, h⟩
  · have hk := (herr text).mono (List.sublist_append_left known (shows o)).subperm
    rw [← h] at hk
    exact hk
  · have hk := hok o record ho hs hreply
    rw [← h] at hk
    exact hk

/-- The handler was not found: nothing is told. -/
theorem backed_dispatchMissing :
    Backed AppEffect.moves shows spec [] (DispatchProgram.asClient a (dispatchMissing ctx task)) := by
  refine .quiet rfl fun _ => .quiet rfl fun _ => backed_write (fun o record _ _ _ => ?_) fun text => ?_
  · exact .quiet rfl fun _ => .pure ()
  · exact .quiet rfl fun _ => .pure ()

/-- The transition a failure is expected to make. -/
def expectedMove (task : TaskRecord) : StatusMove := ⟨task.id, .running, failureStatus task⟩

/-- What follows the event of a failure tells nothing. -/
theorem backed_handleTaskFailure {err : String} {elapsed : Duration} :
    Backed AppEffect.moves shows spec known
      (DispatchProgram.asClient a (handleTaskFailure ctx task err elapsed)) := by
  refine backed_write (fun o record _ _ _ => ?_) fun text => ?_
  · exact .quiet rfl fun _ => backed_recordMetric backed_recordMetric_last
  · exact .quiet rfl fun _ => .quiet rfl fun _ => backed_recordMetric_last

/-- The handler has panicked: the failure is told of before it is written. -/
theorem backed_dispatchPanicked {panicMsg : String} :
    Backed AppEffect.moves shows spec [expectedMove task]
      (DispatchProgram.asClient a (dispatchPanicked ctx task fromHex panicMsg)) := by
  refine backed_addEvent ?_ (.refl _)
  refine .quiet rfl fun _ => backed_write (fun o record _ _ _ => ?_) fun text => ?_
  · exact .quiet rfl fun _ => backed_recordMetric_last
  · exact .quiet rfl fun _ => .pure ()

/-- The handler has returned an error: the failure is told of before it is written. -/
theorem backed_dispatchReturned_error {text : String} :
    Backed AppEffect.moves shows spec [expectedMove task]
      (DispatchProgram.asClient a (dispatchReturned ctx task fromHex (.error (.other text)))) := by
  refine .quiet rfl fun elapsed => backed_addEvent ?_ (.refl _)
  exact backed_handleTaskFailure

/-- A task without a trace has no event on a span. -/
theorem backed_addEvent_untraced {fromStatus toStatus : TaskStatus}
    {extra : Option (String × String)} {k : Unit → DispatchProgram H α}
    (htrace : task.traceId.any fromHex = false)
    (hk : Backed AppEffect.moves shows spec known (DispatchProgram.asClient a (k ()))) :
    Backed AppEffect.moves shows spec known
      (DispatchProgram.asClient a (addEvent ctx task fromHex fromStatus toStatus extra >>= k)) := by
  unfold addEvent
  rw [if_neg (by rw [htrace]; exact Bool.false_ne_true)]
  exact hk

/-- The handler has returned: the completion or suspension is told of once it is written. -/
theorem backed_dispatchReturned {result : Except HandlerError Unit}
    (hresult : ∀ text, result ≠ .error (.other text)) :
    Backed AppEffect.moves Outcome.moves Outcome.Meets []
      (DispatchProgram.asClient a (dispatchReturned ctx task fromHex result)) := by
  -- an operation of the dispatch that replies has made one move, of this task
  have hshown : ∀ {op : Op} {tr : Transition} {t : TaskStatus} {o : Outcome} {record : TaskRecord},
      op.transition = some tr → tr.update.goes = some (.running, t) →
        (∀ b r r', Update.Rewrites b tr.update r r' → r'.id = task.id) →
          o.op = some ⟨a, op, none⟩ → o.Meets → o.reply = some (.ok (.task record)) →
            o.moves = [⟨task.id, .running, t⟩] := by
    intro op tr t o record htr hgoes hid ho hs hreply
    obtain ⟨b, c, r, hcs, hold, hrw, -⟩ := hs.transition htr ho hreply
    obtain ⟨hr, hnew, hne⟩ := hrw.goes hgoes
    rw [Outcome.moves, hcs,
      List.filterMap_cons_some (statusMove_of_ne hold (by rw [hr, hnew]; exact hne)), hr, hnew,
      hid b r _ hrw]
    rfl
  have hcomplete : ∀ b r r', Update.Rewrites b (.complete task.id) r r' → r'.id = task.id := by
    intro b r r' h
    generalize task.id = id at h ⊢
    cases h
    rfl
  have hsuspend : ∀ b r r', Update.Rewrites b (.suspend task.id) r r' → r'.id = task.id := by
    intro b r r' h
    generalize task.id = id at h ⊢
    cases h
    rfl
  refine .quiet rfl fun elapsed => ?_
  cases result with
  | ok u =>
    refine backed_write (fun o record ho hs hreply => ?_) fun text => ?_
    · rw [hshown rfl rfl hcomplete ho hs hreply]
      refine backed_addEvent ?_ (.refl _)
      exact .quiet rfl fun _ => backed_recordMetric_last
    · exact .quiet rfl fun _ => .quiet rfl fun _ => backed_recordMetric_last
  | error e =>
    cases e with
    | suspendRequested =>
      refine backed_write (fun o record ho hs hreply => ?_) fun text => ?_
      · rw [hshown rfl rfl hsuspend ho hs hreply]
        refine backed_addEvent ?_ (.refl _)
        exact .quiet rfl fun _ => backed_recordMetric backed_recordMetric_last
      · exact .quiet rfl fun _ => .quiet rfl fun _ => .pure ()
    | other text => exact absurd rfl (hresult text)

end Dispatch

/-! ### The clients -/

theorem follows_callStore {c : Call} {f : Reply → AppProgram H α} {es : List (AppTaken H)}
    {q : AppProgram H α} (h : (callStore c >>= f).Follows es q) :
    es = [] ∨
      (∃ o es', es = .heard c o :: es' ∧
        (f (o.reply.getD (.error TaskServer.queryFailed))).Follows es' q) ∨
      ∃ sid es', es = .lost c sid :: es' ∧ (f (.error TaskServer.queryFailed)).Follows es' q := by
  cases h with
  | here => exact .inl rfl
  | heard o n _ h => exact .inr (.inl ⟨o, _, rfl, h⟩)
  | lost sid n h => exact .inr (.inr ⟨sid, _, rfl, h⟩)

/-- A call whose answer is not told of. -/
theorem backed_callStore {c : Call} {f : Reply → AppProgram H α}
    (hf : ∀ o, o.op = some c → spec o →
      Backed AppEffect.moves shows spec (known ++ shows o)
        (f (o.reply.getD (.error TaskServer.queryFailed))))
    (herr : Backed AppEffect.moves shows spec known (f (.error TaskServer.queryFailed))) :
    Backed AppEffect.moves shows spec known (callStore c >>= f) :=
  .call (fun o _ ho hs => hf o ho hs) fun _ => herr

/-- What a reported list tells of, and nothing comes after it. -/
theorem backed_reports_last {δ : Type} {f : δ → StateTransitionEvent} {xs : List δ}
    (hknown : known = xs.map fun x => (f x).move) :
    Backed AppEffect.moves shows spec known
      (report (xs.flatMap fun x => (f x).emit fromHex) : AppProgram H PUnit) := by
  rw [← Program.bind_pure (report _)]
  exact backed_reports (.pure _) hknown

/-- An expired task is reported without its trace, so that no event is emitted for it. -/
theorem backed_reportExpired (reply : Reply) :
    Backed AppEffect.moves shows spec known (reportExpired fromHex reply : AppProgram H Unit) := by
  unfold reportExpired
  split
  next tasks =>
    have hnone : (tasks.flatMap fun x => (expiredEvent x.1 x.2).emit fromHex) = [] :=
      List.flatMap_eq_nil_iff.mpr fun x _ => rfl
    rw [hnone]
    exact .pure _
  · exact .pure _

/-- **What the sweeper tells is backed.** -/
theorem backed_sweepTick (auditLog : Bool) (now : DateTime) (suspendTimeout : Duration) :
    Backed AppEffect.moves Outcome.moves Outcome.Meets []
      (sweepTick fromHex auditLog now suspendTimeout : AppProgram H Unit) := by
  have hrest : ∀ known : List StatusMove, Backed AppEffect.moves Outcome.moves Outcome.Meets known
      (callStore ⟨auditLog, .cleanupExpiredIdempotencyKeys now, none⟩ >>= fun _ =>
        callStore ⟨auditLog, .expireSuspendedTasks suspendTimeout, none⟩ >>= reportExpired fromHex :
          AppProgram H Unit) := by
    intro known
    refine backed_callStore (fun o _ _ => ?_) ?_
    · exact backed_callStore (fun _ _ _ => backed_reportExpired _) (backed_reportExpired _)
    · exact backed_callStore (fun _ _ _ => backed_reportExpired _) (backed_reportExpired _)
  refine backed_callStore (fun o ho hs => ?_) (hrest [])
  cases hreply : o.reply with
  | none => exact hrest _
  | some reply =>
    rw [Option.getD_some]
    unfold reportRecovered
    split
    next results =>
      rw [hs.recovered ho hreply]
      exact backed_reports (hrest []) rfl
    · exact hrest _

/-- **What an engine tells that releases its leases is backed.** -/
theorem backed_releaseLeases (auditLog : Bool) (workerId : WorkerId) :
    Backed AppEffect.moves Outcome.moves Outcome.Meets []
      (releaseLeases fromHex auditLog workerId : AppProgram H Unit) := by
  refine backed_callStore (fun o ho hs => ?_) (.pure _)
  cases hreply : o.reply with
  | none => exact .pure _
  | some reply =>
    rw [Option.getD_some]
    unfold reportReleased
    split
    next tasks =>
      rw [hs.released ho hreply]
      exact backed_reports_last rfl
    · exact .pure _

/-- **What a worker tells that gives a task back is backed.** -/
theorem backed_releaseTask (p : Poller H) (task : TaskRecord) :
    Backed AppEffect.moves Outcome.moves Outcome.Meets []
      (callStore (p.releaseCall task) >>= reportReleasedTask fromHex p task) := by
  refine backed_callStore (fun o ho hs => ?_) (.pure _)
  cases hreply : o.reply with
  | none => exact .pure _
  | some reply =>
    rw [Option.getD_some]
    unfold reportReleasedTask
    split
    next traceId =>
      have hone : (LoopState.releasedEvent p.workerId task traceId).emit fromHex =
          [traceId].flatMap fun t => (LoopState.releasedEvent p.workerId task t).emit fromHex :=
        (List.flatMap_singleton _ _).symm
      rw [hs.releasedTask ho hreply, hone]
      exact backed_reports_last rfl
    · exact .pure _

end Told

/-! ## Truthful clients -/

section Truthful

variable {H : Type}

/-- The record a claim has returned. -/
def claimedRecord : Option Reply → Option TaskRecord
  | some (.ok (.claimed record)) => record
  | _ => none

/-- The tasks a client has claimed. -/
def claimedTasks (past : List (AppTaken H)) : List TaskRecord :=
  past.filterMap fun
    | .heard _ o => claimedRecord o.reply
    | .own _ _ | .lost _ _ => none

/-- How the handlers were joined that a client has run. -/
def joins (past : List (AppTaken H)) : List Joined :=
  past.filterMap fun
    | .own (.dispatch (.execute ..)) joined => some joined
    | _ => none

/-- The rows of a task that a client has written a failure of, as they were before. -/
def failedRows (past : List (AppTaken H)) (id : TaskId) : List TaskRow :=
  past.flatMap fun
    | .heard ⟨_, .fail taskId _ _ _, _⟩ o =>
      if taskId = id then o.changes.filterMap Change.old else []
    | _ => []

/-- The rows a client has cancelled, as they were before. -/
def cancelledRows (past : List (AppTaken H)) : List TaskRow :=
  past.flatMap fun
    | .heard ⟨_, .cancel _, _⟩ o => o.changes.filterMap Change.old
    | _ => []

/-- The handler has failed. -/
def Joined.fails : Joined → Bool
  | .ok (.error (.other _)) | .error (.panic _) => true
  | .ok (.ok ()) | .ok (.error .suspendRequested) | .error (.cancelled _) => false

/-- The failure of a claimed task was committed, on a row that had attempts left exactly if the
claimed record has. -/
def FailedAsClaimed (past : List (AppTaken H)) (task : TaskRecord) : Prop :=
  ∃ r ∈ failedRows past task.id,
    (r.attempts.val < r.maxAttempts.val ↔ task.attempts.get.val < task.maxAttempts.get.val)

instance (past : List (AppTaken H)) (task : TaskRecord) : Decidable (FailedAsClaimed past task) :=
  inferInstanceAs (Decidable (∃ r ∈ failedRows past task.id,
    (r.attempts.val < r.maxAttempts.val ↔ task.attempts.get.val < task.maxAttempts.get.val)))

/-- A client has not come to tell of a transition that was not made. Of the tasks with a trace, it
has claimed none whose handler was then cancelled, and none whose handler failed without the failure
being committed as the claimed record lets expect; and it has cancelled none that was suspended. -/
structure Truthful (fromHex : String → Bool) (past : List (AppTaken H)) : Prop where
  joined : ∀ task ∈ claimedTasks past, task.traceId.any fromHex = true →
    ∀ joined ∈ joins past, joined.result ≠ none
  failed : ∀ task ∈ claimedTasks past, task.traceId.any fromHex = true →
    ∀ joined ∈ joins past, joined.fails = true → FailedAsClaimed past task
  cancelled : ∀ r ∈ cancelledRows past, r.traceId.any fromHex = true → r.status = .pending

instance (fromHex : String → Bool) (past : List (AppTaken H)) : Decidable (Truthful fromHex past) :=
  decidable_of_iff
    ((∀ task ∈ claimedTasks past, task.traceId.any fromHex = true →
        ∀ joined ∈ joins past, joined.result ≠ none) ∧
      (∀ task ∈ claimedTasks past, task.traceId.any fromHex = true →
        ∀ joined ∈ joins past, joined.fails = true → FailedAsClaimed past task) ∧
      ∀ r ∈ cancelledRows past, r.traceId.any fromHex = true → r.status = .pending)
    ⟨fun h => ⟨h.1, h.2.1, h.2.2⟩, fun h => ⟨h.joined, h.failed, h.cancelled⟩⟩

theorem mem_failedRows {past : List (AppTaken H)} {id : TaskId} {r : TaskRow}
    (h : r ∈ failedRows past id) : ∃ a text base max x o, ∃ c ∈ o.changes,
      .heard ⟨a, .fail id text base max, x⟩ o ∈ past ∧ c.old = some r := by
  obtain ⟨e, he, hr⟩ := List.mem_flatMap.mp h
  split at hr
  next a taskId text base max x o =>
    split at hr
    next heq =>
      obtain ⟨c, hc, hold⟩ := List.mem_filterMap.mp hr
      exact ⟨a, text, base, max, x, o, c, hc, heq ▸ he, hold⟩
    · cases hr
  · cases hr

variable {fromHex : String → Bool} {a : Bool} {ctx : DispatchContext H} {task : TaskRecord}
  {es : List (AppTaken H)} {q : AppProgram H Unit}

/-- A failure that is told of before it is written, and is written as expected. -/
theorem told_of_failedAsClaimed {p : AppProgram H Unit} (h : p.Follows es q)
    (hes : AllMeet Outcome.Meets es)
    (htold : Backed AppEffect.moves (fun _ : Outcome => []) (fun _ => True) [expectedMove task] p)
    (hfailed : FailedAsClaimed es task) :
    (told AppEffect.moves es).Subperm (heardOf Outcome.moves es) := by
  have htold := htold es q h fun _ _ => trivial
  rw [heardOf_eq_nil _ fun _ => rfl, List.append_nil] at htold
  obtain ⟨r, hr, hiff⟩ := hfailed
  obtain ⟨a, text, base, max, x, o, c, hc, ho, hold⟩ := mem_failedRows hr
  have hmeets : o.Meets := hes o (mem_output? ho)
  obtain ⟨r', hold', hmoves⟩ := hmeets.failed (h.op_of_heard ho) hc
  obtain rfl : r = r' := Option.some.inj (hold.symm.trans hold')
  have hmove : expectedMove task ∈ heardOf Outcome.moves es := by
    apply mem_heardOf _ ho
    rw [hmoves, List.mem_singleton, expectedMove, failureStatus]
    simp only [hiff]
  exact htold.trans (List.singleton_subperm_iff.mpr hmove)

/-- What follows the join tells of what it has heard, in a truthful client. -/
theorem told_dispatchJoined {joined : Joined}
    (h : (DispatchProgram.asClient a (dispatchJoined ctx task fromHex joined)).Follows es q)
    (hes : AllMeet Outcome.Meets es) (hjoin : joined.result ≠ none)
    (hfailed : joined.fails = true → FailedAsClaimed es task) :
    (told AppEffect.moves es).Subperm (heardOf Outcome.moves es) := by
  cases joined with
  | ok result =>
    by_cases hresult : ∃ text, result = .error (.other text)
    · obtain ⟨text, rfl⟩ := hresult
      exact told_of_failedAsClaimed h hes backed_dispatchReturned_error (hfailed rfl)
    · exact backed_dispatchReturned (fun text ht => hresult ⟨text, ht⟩) es q h hes
  | error e =>
    cases e with
    | panic payload => exact told_of_failedAsClaimed h hes backed_dispatchPanicked (hfailed rfl)
    | cancelled text => exact absurd rfl hjoin

/-- What a dispatch tells of a task without a trace, it has heard. -/
theorem backed_dispatchJoined_untraced {joined : Joined}
    (htrace : task.traceId.any fromHex = false) :
    Backed AppEffect.moves Outcome.moves Outcome.Meets []
      (DispatchProgram.asClient a (dispatchJoined ctx task fromHex joined)) := by
  cases joined with
  | ok result =>
    by_cases hresult : ∃ text, result = .error (.other text)
    · obtain ⟨text, rfl⟩ := hresult
      refine .quiet rfl fun elapsed => backed_addEvent_untraced htrace ?_
      exact backed_handleTaskFailure
    · exact backed_dispatchReturned fun text ht => hresult ⟨text, ht⟩
  | error e =>
    cases e with
    | panic payload =>
      refine backed_addEvent_untraced htrace (.quiet rfl fun _ => backed_write ?_ fun text => ?_)
      · exact fun o record _ _ _ => .quiet rfl fun _ => backed_recordMetric_last
      · exact .quiet rfl fun _ => .pure ()
    | cancelled text => exact backed_addEvent_untraced htrace (.quiet rfl fun _ => .pure ())

/-- What a dispatch tells in a truthful client, it has heard, or is the start of its task. -/
theorem told_dispatchTask
    (h : (DispatchProgram.asClient a (dispatchTask ctx task fromHex)).Follows es q)
    (hes : AllMeet Outcome.Meets es)
    (hjoin : task.traceId.any fromHex = true → ∀ joined ∈ joins es, joined.result ≠ none)
    (hfailed : task.traceId.any fromHex = true → ∀ joined ∈ joins es,
      joined.fails = true → FailedAsClaimed es task) :
    (told AppEffect.moves es).Subperm
      ([⟨task.id, .pending, .running⟩] ++ heardOf Outcome.moves es) := by
  unfold dispatchTask at h
  split at h
  · exact (backed_dispatchMissing es q h hes).trans (List.sublist_append_right _ _).subperm
  next handler hget =>
    unfold addEvent at h
    -- the start is told of where the trace id parses, and so is the end then
    by_cases htrace : task.traceId.any fromHex = true
    · rw [if_pos htrace] at h
      cases h with
      | here => exact List.nil_subperm
      | own _ h =>
        cases h with
        | here => exact .refl _
        | own joined h =>
          rename_i es
          refine (List.subperm_append_left [_]).mpr (told_dispatchJoined h hes ?_ ?_)
          · exact hjoin htrace joined List.mem_cons_self
          · exact hfailed htrace joined List.mem_cons_self
    · rw [if_neg htrace] at h
      cases h with
      | here => exact List.nil_subperm
      | own joined h =>
        have htold := backed_dispatchJoined_untraced (by simpa using htrace) _ _ h hes
        exact htold.trans (List.sublist_append_right _ _).subperm

/-- What a truthful client tells of a task it has claimed, it has heard. -/
theorem told_handleClaimed {p : Poller H} {o : Outcome}
    (hreply : o.reply = some (.ok (.claimed (some task))))
    (h : (handleClaimed fromHex p task).Follows es q) (hes : AllMeet Outcome.Meets es)
    (htrue : Truthful fromHex (.heard p.claimCall o :: es)) :
    (told AppEffect.moves es).Subperm
      ([⟨task.id, .pending, .running⟩] ++ heardOf Outcome.moves es) := by
  have hclaimed : ∀ es' : List (AppTaken H), task ∈ claimedTasks (.heard p.claimCall o :: es') :=
    fun es' => List.mem_filterMap.mpr ⟨_, List.mem_cons_self, by simp [hreply, claimedRecord]⟩
  cases h with
  | here => exact List.nil_subperm
  | own cancelled h =>
    cases cancelled with
    | true =>
      have htold := backed_releaseTask p task _ _ h hes
      exact htold.trans (List.sublist_append_right _ _).subperm
    | false =>
      have htold := told_dispatchTask h hes.of_own (fun htrace => htrue.joined task (hclaimed _) htrace)
        fun htrace => htrue.failed task (hclaimed _) htrace
      exact htold

theorem told_pollTick {p : Poller H} (h : (pollTick fromHex p).Follows es q)
    (hes : AllMeet Outcome.Meets es) (htrue : Truthful fromHex es) :
    (told AppEffect.moves es).Subperm (heardOf Outcome.moves es) := by
  rcases follows_callStore h with rfl | ⟨o, es, rfl, hrest⟩ | ⟨sid, es, rfl, hrest⟩
  · exact List.nil_subperm
  · obtain ⟨hmeets, hes⟩ := allMeet_heard.mp hes
    have hop : o.op = some p.claimCall := h.op_of_heard List.mem_cons_self
    -- a tick that claims nothing tells of nothing
    have hquiet : ∀ {es : List (AppTaken H)}, (.pure () : AppProgram H Unit).Follows es q →
        (told AppEffect.moves es).Subperm (heardOf Outcome.moves (.heard p.claimCall o :: es)) := by
      intro es h
      cases h
      exact List.nil_subperm
    cases hreply : o.reply with
    | none =>
      rw [hreply] at hrest
      exact hquiet hrest
    | some reply =>
      rw [hreply, Option.getD_some] at hrest
      split at hrest
      next task =>
        rw [told_heard, heardOf_heard, hmeets.claimed hop hreply]
        exact told_handleClaimed hreply hrest hes htrue
      · exact hquiet hrest
  · cases hrest
    exact List.nil_subperm

/-- What a truthful handler tells of a task it has cancelled, it has heard. -/
theorem told_deleteTask {a : Bool} {id : TaskId} (h : (deleteTask fromHex a id).Follows es q)
    (hes : AllMeet Outcome.Meets es) (htrue : Truthful fromHex es) :
    (told AppEffect.moves es).Subperm (heardOf Outcome.moves es) := by
  rcases follows_callStore h with rfl | ⟨o, es, rfl, hrest⟩ | ⟨sid, es, rfl, hrest⟩
  · exact List.nil_subperm
  · obtain ⟨hmeets, hes⟩ := allMeet_heard.mp hes
    have hop := h.op_of_heard List.mem_cons_self
    have htold : Backed AppEffect.moves Outcome.moves Outcome.Meets o.moves
        (reportCancelled fromHex (o.reply.getD (.error TaskServer.queryFailed)) :
          AppProgram H Unit) := by
      cases hreply : o.reply with
      | none => exact .pure _
      | some reply =>
        rw [Option.getD_some]
        unfold reportCancelled
        split
        next record =>
          obtain ⟨b, c, r, hcs, hold, hrw, hrec⟩ := hmeets.cancelled hop hreply
          obtain ⟨hd, rfl⟩ := tryFrom_eq_ok_iff.mp hrec
          have hnew : c.new.status = .cancelled := by
            obtain ⟨old, new⟩ := c
            cases hrw
            rfl
          -- an event goes out only with a trace id that parses
          by_cases htrace : r.traceId.any fromHex = true
          · have hpending : r.status = .pending :=
              htrue.cancelled r (by simp [cancelledRows, hcs, hold]) htrace
            have hmove : o.moves = [(cancelledEvent (c.new.record hd)).move] := by
              rw [Outcome.moves, hcs, List.filterMap_cons_some
                (statusMove_of_ne hold (by simp [hpending, hnew])), hpending, hnew]
              rfl
            have hone : (cancelledEvent (c.new.record hd)).emit fromHex =
                [c.new.record hd].flatMap fun x => (cancelledEvent x).emit fromHex :=
              (List.flatMap_singleton _ _).symm
            rw [hmove, hone]
            exact backed_reports_last rfl
          · have hnone : (cancelledEvent (c.new.record hd)).emit fromHex = [] := by
              rw [← hrw.sameTask.traceId] at htrace
              unfold StateTransitionEvent.emit
              split
              · rfl
              next traceId heq =>
                have heq : c.new.traceId = some traceId := heq
                rw [heq] at htrace
                exact if_neg htrace
            rw [hnone]
            exact .pure _
        · exact .pure _
    exact htold es q hrest hes
  · cases hrest
    exact List.nil_subperm

/-- What a truthful client tells, it has heard. -/
theorem told_of_truthful {c : AppClient H} (h : (c.program fromHex).Follows es q)
    (hes : AllMeet Outcome.Meets es) (htrue : Truthful fromHex es) :
    (told AppEffect.moves es).Subperm (heardOf Outcome.moves es) := by
  cases c with
  | pollTick p => exact told_pollTick h hes htrue
  | sweepTick auditLog now suspendTimeout =>
    exact backed_sweepTick auditLog now suspendTimeout es q h hes
  | releaseLeases auditLog workerId => exact backed_releaseLeases auditLog workerId es q h hes
  | deleteTask auditLog taskId => exact told_deleteTask h hes htrue

/-- The transitions the events of all clients tell of. -/
def AppSite.told (s : AppSite H) : List StatusMove :=
  s.clients.flatMap fun c => RowStore.told AppEffect.moves c.past

/-- The transitions committed in the store. -/
def AppSite.committed (s : AppSite H) : List StatusMove := s.server.shown.flatMap Outcome.moves

/-- The site on a database that serves nobody yet. -/
def AppSite.idle (t : Table TaskRow.id) (log : List (ℕ × AuditRow)) (n : ℕ) : AppSite H :=
  ⟨.idle (.idle t log n), []⟩

/-- **Transition events are sound** as long as the clients are truthful. In every run, each event
tells of a transition of its task that was committed, and no committed transition is told of by two
events. -/
theorem transition_events_sound {t : Table TaskRow.id} {log : List (ℕ × AuditRow)} {n : ℕ}
    {evs : List (AppSite.Event H)} {s : AppSite H}
    (hrun : evs.foldlM (AppSite.step fromHex) (.idle t log n) = some s)
    (htrue : ∀ c ∈ s.clients, Truthful fromHex c.past) : s.told.Subperm s.committed := by
  have hsound := Site.Sound.of_run rfl hrun
  have hspec : ∀ o ∈ s.server.shown, Outcome.Meets o := Runs.spec_idle hsound.server.served
  apply hsound.told_subperm
  intro c hc
  obtain ⟨⟨q, hq, -⟩, -, hheard⟩ := hsound.clients c hc
  exact told_of_truthful hq (fun o ho => hspec o (hheard o ho).1) (htrue c hc)

end Truthful

/-! ## Runs -/

/-- A task with a trace. -/
def tracedTask : TaskRecord :=
  { sampleTask .default with traceId := some "0af7651916cd43dd8448eb211c80319c" }

/-- A worker with one handler, for the kind of the sample. -/
def samplePoller : Poller Unit where
  workerId := sampleWorker
  auditLog := false
  queue := sampleQueue
  config := .default
  registry := TaskRegistry.new.register "email" ()
  logPayload := false
  metrics := true
  checkpointWriter := false

/-- Surroundings in which the handler ends with `joined`. -/
def surrounding (joined : Joined) : ∀ t : AppEffect Unit, t.Answer
  | .dispatch (.execute ..) => joined
  | .dispatch (.error ..) | .dispatch (.lifecycle _) | .dispatch (.addEvent ..)
  | .dispatch (.metric ..) => ()
  | .dispatch .elapsed => 1000000
  | .dispatch (.write _) => .error "task storage error"
  | .emit _ => ()
  | .isCancelled => false

/-- The database serves a call, which has the number `sid`. -/
def siteServe (sid : ℕ) (es : List Env) : List (AppSite.Event Unit) :=
  (es.map fun e => .database (.exec sid e)) ++ [.database (.finish sid)]

/-- A traced task is claimed, suspended, and cancelled through `DELETE /tasks/{id}`. -/
def cancelSuspended : List (AppSite.Event Unit) :=
  .call (callOf (.save tracedTask)) ⟨10⟩ :: siteServe 0 [.all] ++
  .call samplePoller.claimCall ⟨20⟩ :: siteServe 1 [.all] ++
  .call (callOf (.suspend tracedTask.id)) ⟨30⟩ :: siteServe 2 [.all] ++
  [.enter (.deleteTask false tracedTask.id), .send 0 ⟨40⟩] ++ siteServe 3 [.all, .all] ++
  [.hear 0 "", .act 0 (surrounding (.ok (.ok ())))]

/-- The task is reported to have been pending when it was cancelled. -/
theorem suspended_reported_pending : ¬ ∀ (evs : List (AppSite.Event Unit)) (s : AppSite Unit),
    evs.foldlM (AppSite.step fun _ => true) (.idle ∅ [] 1) = some s → s.told.Subperm s.committed := by
  intro h
  have hrun : (cancelSuspended.foldlM (AppSite.step fun _ => true) (.idle ∅ [] 1)).map
      (fun s => (s.told, s.committed)) = some ([⟨⟨1⟩, .pending, .cancelled⟩],
        [⟨⟨1⟩, .pending, .running⟩, ⟨⟨1⟩, .running, .suspended⟩, ⟨⟨1⟩, .suspended, .cancelled⟩]) := by
    decide +kernel
  obtain ⟨s, hs, heq⟩ := Option.map_eq_some_iff.mp hrun
  obtain ⟨htold, hcommitted⟩ := Prod.mk.inj heq
  have hsub := h cancelSuspended s hs
  rw [htold, hcommitted] at hsub
  exact absurd hsub (by decide)

/-- A traced task is claimed and dispatched, its handler fails, and it is retried. -/
def retryTraced : List (AppSite.Event Unit) :=
  .call (callOf (.save tracedTask)) ⟨10⟩ :: siteServe 0 [.all] ++
  [.enter (.pollTick samplePoller), .send 0 ⟨20⟩] ++ siteServe 1 [.all] ++ [.hear 0 ""] ++
  List.replicate 5 (.act 0 (surrounding (.ok (.error (.other "refused"))))) ++
  .send 0 ⟨30⟩ :: siteServe 2 [.all] ++ [.hear 0 ""]

theorem retry_reported : ∃ s : AppSite Unit,
    retryTraced.foldlM (AppSite.step fun _ => true) (.idle ∅ [] 1) = some s ∧
      s.told = [⟨⟨1⟩, .pending, .running⟩, ⟨⟨1⟩, .running, .pending⟩] ∧
      s.told.Subperm s.committed := by
  have hrun : (retryTraced.foldlM (AppSite.step fun _ => true) (.idle ∅ [] 1)).map (fun s =>
      (s.told, decide (∀ c ∈ s.clients, Truthful (fun _ => true) c.past))) =
        some ([⟨⟨1⟩, .pending, .running⟩, ⟨⟨1⟩, .running, .pending⟩], true) := by
    decide +kernel
  obtain ⟨s, hs, heq⟩ := Option.map_eq_some_iff.mp hrun
  obtain ⟨htold, htrue⟩ := Prod.mk.inj heq
  exact ⟨s, hs, htold, transition_events_sound hs (of_decide_eq_true htrue)⟩

end IronDefer
