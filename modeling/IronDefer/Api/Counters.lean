import IronDefer.Api.Sightings
import IronDefer.Api.Transitions

/-!
# The counters

Workers and sweepers add to counters as they go: an attempt before the dispatch of a task, a failure
once it is written, a recovery for each task that a sweep returns, and so on. No two of them share
anything but the database, and their answers may be lost. A counter tells of what has been committed:
each unit that anybody has added to it, under its labels, stands for a change of its own, of a task
with those labels. A unit is missing where an answer was lost, and nowhere else, as far as a sweep
goes that has come to its end.

## Main definitions

* `CounterName`, `Series`: a counter, and one of its time series
* `MetricProgram`, `claimTick`, `sweepCycle`: the clients that count
* `Op.counted`, `Outcome.counted`: the units that stand for what a commit has changed

## Main results

* `backed_claimTick`, `settled_sweepCycle`: what a client counts, it has heard
* `counters_backed`: **no counter counts what has not been committed, or twice**, and a sweep counts
  all it has heard
-/

namespace IronDefer

open RowStore

/-! ## Counters -/

/-- The counters of what happens to tasks. -/
inductive CounterName where
  | taskAttemptsTotal
  | taskFailuresTotal
  | tasksSuspendedTotal
  | zombieRecoveriesTotal
  | suspendTimeoutTotal
  | idempotencyKeysCleanedTotal
  deriving DecidableEq, Repr

/-- A counter under some labels. -/
structure Series where
  counter : CounterName
  labels : List (String × String)
  deriving DecidableEq, Repr

def Counter.name : Counter → CounterName
  | zombieRecoveriesTotal => .zombieRecoveriesTotal
  | taskFailuresTotal => .taskFailuresTotal

/-- The counter among the instruments of a dispatch; the duration is a histogram. -/
def Instrument.counter? : Instrument → Option CounterName
  | taskDurationSeconds => none
  | taskFailuresTotal => some .taskFailuresTotal
  | tasksSuspendedTotal => some .tasksSuspendedTotal

/-- The effects of a client that counts. -/
inductive MetricEffect (H : Type) where
  | app (e : AppEffect H)
  | add (n : ℕ) (series : Series)

abbrev MetricEffect.Answer {H : Type} : MetricEffect H → Type
  | .app e => e.Answer
  | .add .. => Unit

/-- The units an effect adds. -/
def MetricEffect.units {H : Type} : MetricEffect H → List Series
  | .add n series => List.replicate n series
  | .app (.dispatch (.metric instrument value labels)) =>
    match instrument.counter? with
    | some counter => List.replicate value.num.toNat ⟨counter, labels⟩
    | none => []
  | .app (.dispatch (.error ..)) | .app (.dispatch (.lifecycle _))
  | .app (.dispatch (.addEvent ..)) | .app (.dispatch (.execute ..)) | .app (.dispatch .elapsed)
  | .app (.dispatch (.write _)) | .app (.emit _) | .app .isCancelled => []

/-- The program of a client that counts. -/
abbrev MetricProgram (H α : Type) := ClientProgram Call (MetricEffect.Answer (H := H)) String Reply α

/-- A client that does not count besides what its dispatch records. -/
def AppProgram.metered {H α : Type} : AppProgram H α → MetricProgram H α
  | .pure a => .pure a
  | .unwind => .unwind
  | .stmt (.call c) k => .stmt (.call c) fun r => metered (k r)
  | .stmt (.own e) k => .stmt (.own (.app e)) fun r => metered (k r)

/-- `counter.add(n, labels)`, where there are metrics. -/
def addTo {H : Type} (metrics : Bool) (n : ℕ) (series : Series) : MetricProgram H PUnit :=
  if metrics then .stmt (.own (.add n series)) fun _ => .pure ⟨⟩ else .pure ⟨⟩

/-! ## Clients -/

section Clients

variable {H : Type} (fromHex : String → Bool)

/-- A call of the repository. -/
def callMetered {H : Type} (c : Call) : MetricProgram H Reply := (callStore c).metered

/-- The attempt a worker counts before it dispatches a task. -/
def attemptOf (queue : String) (task : TaskRecord) : Series :=
  ⟨.taskAttemptsTotal,
    [("queue", queue), ("kind", task.kind.asStr), ("region", task.region.getD "global")]⟩

/-- What becomes of a claimed task, counted. -/
def countClaimed (p : Poller H) (task : TaskRecord) : MetricProgram H Unit :=
  .stmt (.own (.app .isCancelled)) fun (cancelled : Bool) =>
    if cancelled then
      (callStore (p.releaseCall task) >>= reportReleasedTask fromHex p task).metered
    else do
      addTo p.metrics 1 (attemptOf p.queue.asStr task)
      ((dispatchTask p.dispatchContext task fromHex).asClient p.auditLog).metered

/-- A tick of a poll loop that claims, and the dispatch it spawns. -/
def claimTick (p : Poller H) : MetricProgram H Unit := do
  match ← callMetered p.claimCall with
  | .ok (.claimed (some task)) => countClaimed fromHex p task
  | _ => return

/-- The answer to a recovery. -/
def countRecovered (metrics : Bool) : Reply → MetricProgram H PUnit
  | .ok (.recovered results) => do
    let (events, adds) := sweepRecovered fromHex metrics results
    (report events).metered
    adds.forM fun x => addTo true x.count ⟨x.counter.name, x.labels⟩
  | _ => return

/-- The answer to a cleanup of idempotency keys. -/
def countCleaned (metrics : Bool) : Reply → MetricProgram H PUnit
  | .ok (.cleaned count) =>
    if 0 < count then addTo metrics count ⟨.idempotencyKeysCleanedTotal, []⟩ else return
  | _ => return

/-- The answer to an expiry of suspended tasks. -/
def countExpired (metrics : Bool) : Reply → MetricProgram H PUnit
  | .ok (.expired tasks) => tasks.forM fun x => do
    (report ((expiredEvent x.1 x.2).emit fromHex)).metered
    addTo metrics 1 ⟨.suspendTimeoutTotal, [("queue", x.2.asStr)]⟩
  | _ => return

/-- A tick of the sweeper: no error keeps it from the calls that follow. -/
def sweepCycle (auditLog metrics : Bool) (now : DateTime) (suspendTimeout : Duration) :
    MetricProgram H PUnit := do
  countRecovered fromHex metrics (← callMetered ⟨auditLog, .recoverZombieTasks, none⟩)
  countCleaned metrics (← callMetered ⟨auditLog, .cleanupExpiredIdempotencyKeys now, none⟩)
  countExpired fromHex metrics (← callMetered ⟨auditLog, .expireSuspendedTasks suspendTimeout, none⟩)

/-- The clients that count. -/
inductive MetricClient (H : Type) where
  | claimTick (p : Poller H)
  | sweepCycle (auditLog metrics : Bool) (now : DateTime) (suspendTimeout : Duration)

def MetricClient.program : MetricClient H → MetricProgram H Unit
  | .claimTick p => IronDefer.claimTick fromHex p
  | .sweepCycle auditLog metrics now suspendTimeout =>
    IronDefer.sweepCycle fromHex auditLog metrics now suspendTimeout

end Clients

/-! ## What a commit counts as -/

/-- The failure of a task. -/
def failureOf (row : TaskRow) : Series :=
  ⟨.taskFailuresTotal, [("queue", row.queue), ("kind", row.kind)]⟩

/-- The units that stand for a change an operation has made. -/
def Op.counted (op : Op) (c : Change TaskRow) : List Series :=
  match op with
  | .claimNext .. =>
    [⟨.taskAttemptsTotal, [("queue", c.new.queue), ("kind", c.new.kind),
      ("region", c.new.region.getD "global")]⟩]
  | .fail .. => [failureOf c.new]
  | .suspend _ => [⟨.tasksSuspendedTotal, [("queue", c.new.queue), ("kind", c.new.kind)]⟩]
  | .recoverZombieTasks =>
    ⟨.zombieRecoveriesTotal, [("queue", c.new.queue)]⟩ ::
      if c.new.status = .failed then [failureOf c.new] else []
  | .expireSuspendedTasks _ => [⟨.suspendTimeoutTotal, [("queue", c.new.queue)]⟩]
  | .cleanupExpiredIdempotencyKeys _ => [⟨.idempotencyKeysCleanedTotal, []⟩]
  | _ => []

/-- The units that stand for what a step of the database commits. -/
def Outcome.counted (o : Outcome) : List Series :=
  match o.op with
  | some call => o.changes.flatMap call.op.counted
  | none => []

/-- The units that stand for what has been committed and answered with a result. -/
def Outcome.answered (o : Outcome) : List Series :=
  match o.reply with
  | some (.ok _) => o.counted
  | some (.error _) | none => []

/-! ## The maps of a cycle -/

section Maps

variable {κ : Type} [DecidableEq κ]

/-- The units a map stands for. -/
def unitsOf (counts : List (κ × ℕ)) : List κ := counts.flatMap fun x => List.replicate x.2 x.1

omit [DecidableEq κ] in
/-- The units of the additions that a map is made of. -/
theorem flatMap_replicate {σ : Type} (f : κ → σ) (counts : List (κ × ℕ)) :
    (counts.flatMap fun x => List.replicate x.2 (f x.1)) = (unitsOf counts).map f := by
  rw [unitsOf, List.map_flatMap]
  simp only [List.map_replicate]

/-- One more at the entry of a map. -/
theorem unitsOf_countEntry (key : κ) (counts : List (κ × ℕ)) :
    (unitsOf (countEntry key counts)).Perm (key :: unitsOf counts) := by
  induction counts with
  | nil => exact .refl _
  | cons x counts ih =>
    obtain ⟨k, n⟩ := x
    unfold countEntry
    split
    next h =>
      subst h
      exact .refl _
    · exact (ih.append_left (List.replicate n k)).trans List.perm_middle

end Maps

/-- The units that stand for a recovered task. -/
def countedRecovery (x : RecoveredTask) : List Series :=
  ⟨.zombieRecoveriesTotal, [("queue", x.2.1.asStr)]⟩ ::
    if x.2.2.2.2 = .failed then
      [⟨.taskFailuresTotal, [("queue", x.2.1.asStr), ("kind", x.2.2.1.asStr)]⟩]
    else []

theorem unitsOf_recoveryCounts (results : List RecoveredTask) (counts : GroupedCounts) :
    (unitsOf (results.foldl GroupedCounts.count counts).recoveryCounts).Perm
      (results.map (fun x => x.2.1.asStr) ++ unitsOf counts.recoveryCounts) := by
  induction results generalizing counts with
  | nil => exact .refl _
  | cons x results ih =>
    refine (ih _).trans (((unitsOf_countEntry x.2.1.asStr _).append_left _).trans ?_)
    exact List.perm_middle

theorem unitsOf_failureCounts (results : List RecoveredTask) (counts : GroupedCounts) :
    (unitsOf (results.foldl GroupedCounts.count counts).failureCounts).Perm
      ((results.flatMap fun x =>
        if x.2.2.2.2 = .failed then [(x.2.1.asStr, x.2.2.1.asStr)] else []) ++
          unitsOf counts.failureCounts) := by
  induction results generalizing counts with
  | nil => exact .refl _
  | cons x results ih =>
    refine (ih _).trans ?_
    obtain ⟨id, queue, kind, traceId, outcome⟩ := x
    cases outcome with
    | recovered => exact .refl _
    | failed => exact ((unitsOf_countEntry (queue.asStr, kind.asStr) _).append_left _).trans List.perm_middle

/-- The units a sweep adds for the tasks a recovery has returned. -/
theorem units_sweepRecovered (fromHex : String → Bool) (results : List RecoveredTask) :
    ((sweepRecovered fromHex true results).2.flatMap fun x =>
      List.replicate x.count (⟨x.counter.name, x.labels⟩ : Series)).Perm
        (results.flatMap countedRecovery) := by
  have hadds : (sweepRecovered fromHex true results).2 = emitPerQueueMetrics results true := by
    unfold sweepRecovered
    split
    next h =>
      rw [List.isEmpty_iff.mp h]
      rfl
    · rfl
  rw [hadds, emitPerQueueMetrics, if_pos rfl, List.flatMap_append, List.flatMap_map,
    List.flatMap_map]
  have hqueue := (unitsOf_recoveryCounts results ⟨[], []⟩).map fun queue : String =>
    (⟨.zombieRecoveriesTotal, [("queue", queue)]⟩ : Series)
  have hkind := (unitsOf_failureCounts results ⟨[], []⟩).map fun x : String × String =>
    (⟨.taskFailuresTotal, [("queue", x.1), ("kind", x.2)]⟩ : Series)
  rw [← flatMap_replicate] at hqueue hkind
  refine (hqueue.append hkind).trans ?_
  have hfailures : ((results.flatMap fun x =>
      if x.2.2.2.2 = .failed then [(x.2.1.asStr, x.2.2.1.asStr)] else []).map fun x =>
        (⟨.taskFailuresTotal, [("queue", x.1), ("kind", x.2)]⟩ : Series)) =
      results.flatMap fun x => if x.2.2.2.2 = .failed then
        [⟨.taskFailuresTotal, [("queue", x.2.1.asStr), ("kind", x.2.2.1.asStr)]⟩] else [] := by
    rw [List.map_flatMap]
    refine congrArg (results.flatMap ·) (funext fun x => ?_)
    split <;> rfl
  rw [List.map_append, List.map_append, hfailures, List.map_map]
  change (results.map _ ++ [] ++ (results.flatMap _ ++ [])).Perm _
  rw [List.append_nil, List.append_nil]
  exact List.map_append_flatMap_perm ..

/-! ## What the answers show -/

/-- Tasks keep their queue and kind, by which they are labelled. -/
structure Labelled (queueOf kindOf : TaskId → String) (o : Outcome) : Prop where
  meets : o.Meets
  queue : ∀ c ∈ o.changes, c.new.queue = queueOf c.new.id
  kind : ∀ c ∈ o.changes, c.new.kind = kindOf c.new.id

section Answers

variable {queueOf kindOf : TaskId → String} {o : Outcome} {a : Bool} {onBehalf : Option Execution}

theorem Outcome.counted_of_op {call : Call} (hop : o.op = some call) :
    o.counted = o.changes.flatMap call.op.counted := by
  rw [counted, hop]

/-- A claim shows the attempt of the task it returns, which is labelled as the task is. -/
theorem Labelled.claimed (h : Labelled queueOf kindOf o) {queue : QueueName} {w : WorkerId}
    {lease : Duration} {region : Option String}
    (hop : o.op = some ⟨a, .claimNext queue w lease region, onBehalf⟩) {task : TaskRecord}
    (hreply : o.reply = some (.ok (.claimed (some task)))) :
    o.counted = [attemptOf queue.asStr task] ∧ queue.asStr = queueOf task.id ∧
      task.kind.asStr = kindOf task.id := by
  obtain ⟨b, ls, hspec⟩ := h.meets.committed hop (by simp) hreply
  have hqueue := h.queue
  have hkind := h.kind
  rw [Outcome.counted_of_op hop]
  generalize o.changes = cs at hspec hqueue hkind ⊢
  generalize hfin : Finish.commit (R := Reply) _ = fin at hspec
  cases hspec with
  | @claimed _ _ _ _ c hu =>
    obtain ⟨record, hrec, heq⟩ := eq_of_map_eq_ok (Finish.commit.inj hfin).symm
    obtain ⟨hd, rfl⟩ := tryFrom_eq_ok_iff.mp hrec
    cases heq
    obtain ⟨r, -, hrw⟩ := hu.rewrites c List.mem_cons_self
    have hq : c.new.queue = queue.asStr := by
      obtain ⟨old, new⟩ := c
      cases hrw with
      | claimNext _ hqueue' => exact hqueue'
    have hq' := hqueue c List.mem_cons_self
    have hk' := hkind c List.mem_cons_self
    refine ⟨?_, hq.symm.trans hq', hk'⟩
    rw [attemptOf, ← hq]
    rfl
  | unclaimed => cases hfin
  | refused => cases hfin
  | transition htr => cases htr

/-- A failure that is answered shows the failure of its task. -/
theorem Labelled.failed (h : Labelled queueOf kindOf o) {id : TaskId} {text : String} {base max : ℚ}
    (hop : o.op = some ⟨a, .fail id text base max, onBehalf⟩) {record : TaskRecord}
    (hreply : o.reply = some (.ok (.task record))) :
    o.counted = [⟨.taskFailuresTotal, [("queue", queueOf id), ("kind", kindOf id)]⟩] := by
  obtain ⟨b, c, r, hcs, -, hrw, -⟩ := h.meets.transition rfl hop hreply
  have hmem : c ∈ o.changes := hcs ▸ List.mem_cons_self
  have hid : c.new.id = id := by
    obtain ⟨old, new⟩ := c
    cases hrw <;> rfl
  rw [Outcome.counted_of_op hop, hcs]
  simp only [List.flatMap_singleton, Op.counted, failureOf, h.queue c hmem, h.kind c hmem, hid]

/-- A suspension that is answered shows the suspension of its task. -/
theorem Labelled.suspended (h : Labelled queueOf kindOf o) {id : TaskId}
    (hop : o.op = some ⟨a, .suspend id, onBehalf⟩) {record : TaskRecord}
    (hreply : o.reply = some (.ok (.task record))) :
    o.counted = [⟨.tasksSuspendedTotal, [("queue", queueOf id), ("kind", kindOf id)]⟩] := by
  obtain ⟨b, c, r, hcs, -, hrw, -⟩ := h.meets.transition rfl hop hreply
  have hmem : c ∈ o.changes := hcs ▸ List.mem_cons_self
  have hid : c.new.id = id := by
    obtain ⟨old, new⟩ := c
    cases hrw
    rfl
  rw [Outcome.counted_of_op hop, hcs]
  simp only [List.flatMap_singleton, Op.counted, h.queue c hmem, h.kind c hmem, hid]

/-- An operation that is not a caller's batch. -/
def Op.isAlone : Op → Bool
  | inTx .. => false
  | _ => true

/-- A call outside of a batch that is answered with a response has been committed. -/
theorem Outcome.Meets.committed_alone (h : o.Meets) {call : Call} (hop : o.op = some call)
    (halone : call.op.isAlone = true) {x : Response} (hreply : o.reply = some (.ok x)) :
    ∃ b ls, Op.Spec (fun _ _ _ => True) call.auditLog b call.op o.changes ls (.commit (.ok x)) := by
  cases o with
  | silent | failed => cases hreply
  | committed sid call' b cs ls reply =>
    cases hop
    cases hreply
    exact ⟨b, _, h trivial⟩
  | returned sid call' b reply =>
    cases hop
    cases hreply
    obtain ⟨cs, ls, hspec⟩ := h trivial
    obtain ⟨a, op, onBehalf⟩ := call
    cases hspec with
    | inTxRollback => cases halone

/-- A cleanup shows as many keys as it returns. -/
theorem Outcome.Meets.cleaned (h : o.Meets) {now : DateTime}
    (hop : o.op = some ⟨a, .cleanupExpiredIdempotencyKeys now, onBehalf⟩) {x : Response}
    (hreply : o.reply = some (.ok x)) : ∃ count, x = .cleaned count ∧
      o.counted = List.replicate count ⟨.idempotencyKeysCleanedTotal, []⟩ := by
  obtain ⟨b, ls, hspec⟩ := h.committed_alone hop rfl hreply
  rw [Outcome.counted_of_op hop]
  generalize o.changes = cs at hspec ⊢
  generalize hfin : Finish.commit (R := Reply) _ = fin at hspec
  cases hspec with
  | cleanup =>
    cases hfin
    exact ⟨_, rfl, List.map_eq_flatMap.symm.trans (List.map_const' ..)⟩
  | refused => cases hfin
  | transition htr => cases htr

/-- An expiry shows the tasks it returns. -/
theorem Outcome.Meets.expired (h : o.Meets) {timeout : Duration}
    (hop : o.op = some ⟨a, .expireSuspendedTasks timeout, onBehalf⟩) {x : Response}
    (hreply : o.reply = some (.ok x)) : ∃ tasks, x = .expired tasks ∧
      o.counted = tasks.map fun x => ⟨.suspendTimeoutTotal, [("queue", x.2.asStr)]⟩ := by
  obtain ⟨b, ls, hspec⟩ := h.committed_alone hop rfl hreply
  rw [Outcome.counted_of_op hop]
  generalize o.changes = cs at hspec ⊢
  generalize hfin : Finish.commit (R := Reply) _ = fin at hspec
  cases hspec with
  | expired =>
    obtain ⟨ts, hts, heq⟩ := eq_of_map_eq_ok (Finish.commit.inj hfin).symm
    cases heq
    have hqueues := congrArg (List.map fun x : TaskId × String =>
      (⟨.suspendTimeoutTotal, [("queue", x.2)]⟩ : Series)) (map_expiredTask hts)
    simp only [List.map_map] at hqueues
    refine ⟨ts, rfl, Eq.trans ?_ hqueues.symm⟩
    rw [news, List.map_map]
    exact List.map_eq_flatMap.symm
  | refused => cases hfin
  | transition htr => cases htr

theorem recoveredTask_labels {what : String} {outcome : RecoveryOutcome} {row : TaskRow}
    {x : RecoveredTask} (h : recoveredTask what outcome row = .ok x) :
    x.2.1.asStr = row.queue ∧ x.2.2.1.asStr = row.kind ∧ x.2.2.2.2 = outcome := by
  obtain ⟨queue, hqueue, h⟩ := exists_of_bind_ok h
  obtain ⟨kind, hkind, h⟩ := exists_of_bind_ok h
  cases h
  refine ⟨asStr_of_tryFrom hqueue, ?_, rfl⟩
  unfold TaskKind.tryFrom at hkind
  split at hkind <;> cases hkind
  rfl

/-- The tasks that one of the updates of a recovery returns count as the rows it has changed. -/
theorem UpdatedBy.countedRecovery {rely : Table TaskRow.id → (TaskId → Bool) → Env → Prop}
    {b : Began} {u : Update} {what : String} {outcome : RecoveryOutcome}
    {cs ds : List (Change TaskRow)} {xs : List RecoveredTask} (hds : UpdatedBy rely b u cs ds)
    (hstatus : ∀ r r', Update.Rewrites b u r r' → (r'.status = .failed ↔ outcome = .failed))
    (hxs : (news ds).mapM (recoveredTask what outcome) = .ok xs) :
    ds.flatMap (Op.counted .recoverZombieTasks) = xs.flatMap IronDefer.countedRecovery := by
  have hrows := hds.rewrites
  have hall := forall₂_of_mapM hxs
  clear hds hxs
  induction ds generalizing xs with
  | nil =>
    cases hall
    rfl
  | cons c ds ih =>
    cases hall with
    | cons hx hxs =>
      obtain ⟨r, -, hrw⟩ := hrows c List.mem_cons_self
      obtain ⟨hqueue, hkind, houtcome⟩ := recoveredTask_labels hx
      rw [List.flatMap_cons, List.flatMap_cons,
        ih (fun d hd => hrows d (List.mem_cons_of_mem _ hd)) hxs, Op.counted,
        IronDefer.countedRecovery, failureOf, hqueue, hkind, houtcome]
      simp only [hstatus r c.new hrw]

/-- A recovery shows the tasks it returns. -/
theorem Outcome.Meets.recoveries (h : o.Meets)
    (hop : o.op = some ⟨a, .recoverZombieTasks, onBehalf⟩) {x : Response}
    (hreply : o.reply = some (.ok x)) :
    ∃ results, x = .recovered results ∧ o.counted = results.flatMap countedRecovery := by
  obtain ⟨b, ls, hspec⟩ := h.committed_alone hop rfl hreply
  rw [Outcome.counted_of_op hop]
  generalize o.changes = cs at hspec ⊢
  generalize hfin : Finish.commit (R := Reply) _ = fin at hspec
  cases hspec with
  | recovered hds hes hresults =>
    cases hfin
    obtain ⟨xs, hxs, hresults⟩ := exists_of_bind_ok hresults
    obtain ⟨ys, hys, hresults⟩ := exists_of_bind_ok hresults
    cases hresults
    rw [List.flatMap_append]
    have hretried := hds.countedRecovery (fun r r' hrw => by
      rw [pending_of_recoverRetryable hrw]
      decide) hxs
    have hfailed := hes.countedRecovery (fun r r' hrw => by
      cases hrw
      exact iff_of_true rfl rfl) hys
    refine ⟨_, rfl, ?_⟩
    rw [hretried, hfailed]
    exact List.flatMap_append.symm
  | notRecovered => cases hfin
  | refused => cases hfin
  | transition htr => cases htr

end Answers

/-! ## What the clients count -/

section Counted

variable {H α : Type} {fromHex : String → Bool} {shows : Outcome → List Series}
  {spec : Outcome → Prop} {known rest : List Series}

/-- A report adds nothing. -/
theorem all_report (events : List StateTransitionEvent) :
    (report events : AppProgram H PUnit).metered.All (Ask.Quiet MetricEffect.units) := by
  induction events with
  | nil => trivial
  | cons event events ih => exact ⟨rfl, fun _ => ih⟩

theorem settled_addTo {metrics : Bool} {n : ℕ} {series : Series} {k : PUnit → MetricProgram H α}
    (hk : Settled MetricEffect.units shows spec rest (k ⟨⟩))
    (hknown : known.Perm ((if metrics then List.replicate n series else []) ++ rest)) :
    Settled MetricEffect.units shows spec known (addTo metrics n series >>= k) := by
  cases metrics with
  | true => exact .own (fun _ => hk) hknown
  | false => exact hk.perm hknown.symm

/-- A list of additions. -/
theorem settled_adds {adds : List CounterAdd} {k : PUnit → MetricProgram H α}
    (hk : Settled MetricEffect.units shows spec rest (k ⟨⟩))
    (hknown : known.Perm ((adds.flatMap fun x =>
      List.replicate x.count (⟨x.counter.name, x.labels⟩ : Series)) ++ rest)) :
    Settled MetricEffect.units shows spec known
      ((adds.forM fun x => addTo true x.count ⟨x.counter.name, x.labels⟩) >>= k) := by
  induction adds generalizing known with
  | nil => exact hk.perm hknown.symm
  | cons x adds ih =>
    rw [List.flatMap_cons, List.append_assoc] at hknown
    exact .own (fun _ => ih (.refl _)) hknown

/-- A list of expired tasks, each reported and counted. -/
theorem settled_expired {metrics : Bool} {tasks : List (TaskId × QueueName)}
    {k : PUnit → MetricProgram H α} (hk : Settled MetricEffect.units shows spec rest (k ⟨⟩))
    (hknown : known.Perm ((if metrics then tasks.map fun x =>
      (⟨.suspendTimeoutTotal, [("queue", x.2.asStr)]⟩ : Series) else []) ++ rest)) :
    Settled MetricEffect.units shows spec known
      (countExpired fromHex metrics (.ok (.expired tasks)) >>= k) := by
  change Settled _ _ _ _ ((tasks.forM fun x => (report ((expiredEvent x.1 x.2).emit
    fromHex)).metered >>= fun _ => addTo metrics 1 ⟨.suspendTimeoutTotal, [("queue", x.2.asStr)]⟩) >>= k)
  induction tasks generalizing known with
  | nil =>
    refine hk.perm (hknown.trans ?_).symm
    cases metrics <;> exact .refl _
  | cons x tasks ih =>
    change Settled _ _ _ _ ((((report _).metered >>= fun _ => addTo metrics 1 _) >>= fun _ =>
      tasks.forM _) >>= k)
    rw [Program.bind_assoc, Program.bind_assoc]
    refine .bind_quiet (all_report _) fun _ => settled_addTo (ih (.refl _)) (hknown.trans ?_)
    cases metrics <;> exact .refl _

/-- What a client with metrics hears of; one without counts nothing. -/
def heardCount (metrics : Bool) (o : Outcome) : List Series := if metrics then o.answered else []

/-- A call of the repository, answered with a response or not. -/
theorem settled_callMetered {metrics : Bool} {c : Call} {f : Reply → MetricProgram H α}
    (hok : ∀ o x, o.op = some c → spec o → o.reply = some (.ok x) →
      Settled MetricEffect.units (heardCount metrics) spec
        (known ++ if metrics then o.counted else []) (f (.ok x)))
    (herr : ∀ e, Settled MetricEffect.units (heardCount metrics) spec known (f (.error e))) :
    Settled MetricEffect.units (heardCount metrics) spec known (callMetered c >>= f) := by
  refine .call (fun (o : Outcome) text ho hs => ?_) fun text => herr _
  have hnone : o.answered = [] → known.Perm (known ++ heardCount metrics o) := by
    intro h
    rw [heardCount, h, ite_self, List.append_nil]
  have hanswered : ∀ {x}, o.reply = some (.ok x) → o.answered = o.counted := fun h => by
    rw [Outcome.answered, h]
  change Settled _ _ _ _ (f (o.reply.getD _))
  cases hreply : o.reply with
  | none => exact (herr _).perm (hnone (by rw [Outcome.answered, hreply]))
  | some reply =>
    cases reply with
    | error e => exact (herr _).perm (hnone (by rw [Outcome.answered, hreply]))
    | ok x =>
      rw [heardCount, hanswered hreply]
      exact hok o x ho hs hreply

/-- What a cleanup has returned is counted. -/
theorem settled_cleaned {metrics : Bool} {count : ℕ} {k : PUnit → MetricProgram H α}
    (hk : Settled MetricEffect.units shows spec rest (k ⟨⟩))
    (hknown : known.Perm ((if metrics then
      List.replicate count ⟨.idempotencyKeysCleanedTotal, []⟩ else []) ++ rest)) :
    Settled MetricEffect.units shows spec known
      (countCleaned metrics (.ok (.cleaned count)) >>= k) := by
  change Settled _ _ _ _ ((if 0 < count then addTo metrics count _ else Pure.pure ⟨⟩) >>= k)
  split
  · exact settled_addTo hk hknown
  next h =>
    obtain rfl : count = 0 := Nat.eq_zero_of_not_pos h
    refine hk.perm (hknown.trans ?_).symm
    cases metrics <;> exact .refl _

/-- The tasks a recovery has returned are counted. -/
theorem settled_recovered {metrics : Bool} {results : List RecoveredTask}
    {k : PUnit → MetricProgram H α} (hk : Settled MetricEffect.units shows spec rest (k ⟨⟩))
    (hknown : known.Perm ((if metrics then results.flatMap countedRecovery else []) ++ rest)) :
    Settled MetricEffect.units shows spec known
      (countRecovered fromHex metrics (.ok (.recovered results)) >>= k) := by
  change Settled _ _ _ _ (((report (sweepRecovered fromHex metrics results).1).metered >>= fun _ =>
    (sweepRecovered fromHex metrics results).2.forM fun x =>
      addTo true x.count ⟨x.counter.name, x.labels⟩) >>= k)
  rw [Program.bind_assoc]
  refine .bind_quiet (all_report _) fun _ => settled_adds hk (hknown.trans (List.Perm.append_right _ ?_))
  cases metrics with
  | true => exact (units_sweepRecovered fromHex results).symm
  | false =>
    have hnone : (sweepRecovered fromHex false results).2 = [] := by
      unfold sweepRecovered
      split <;> rfl
    rw [hnone]
    exact .refl _

/-- **What a sweep counts, it has heard**, and where it has come to its end, all of it. -/
theorem settled_sweepCycle (auditLog metrics : Bool) (now : DateTime) (suspendTimeout : Duration) :
    Settled MetricEffect.units (heardCount metrics) Outcome.Meets []
      (sweepCycle fromHex auditLog metrics now suspendTimeout : MetricProgram H PUnit) := by
  have hexpire : Settled MetricEffect.units (heardCount metrics) Outcome.Meets []
      (callMetered ⟨auditLog, .expireSuspendedTasks suspendTimeout, none⟩ >>=
        countExpired fromHex metrics : MetricProgram H PUnit) := by
    refine settled_callMetered (fun o x ho hs hreply => ?_) fun e => .pure _
    obtain ⟨tasks, rfl, hcounted⟩ := hs.expired ho hreply
    rw [← Program.bind_pure (countExpired ..)]
    refine settled_expired (.pure _) ?_
    rw [hcounted, List.nil_append, List.append_nil]
  have hcleanup : Settled MetricEffect.units (heardCount metrics) Outcome.Meets []
      (callMetered ⟨auditLog, .cleanupExpiredIdempotencyKeys now, none⟩ >>= fun reply =>
        countCleaned metrics reply >>= fun _ =>
          callMetered ⟨auditLog, .expireSuspendedTasks suspendTimeout, none⟩ >>=
            countExpired fromHex metrics : MetricProgram H PUnit) := by
    refine settled_callMetered (fun o x ho hs hreply => ?_) fun e => hexpire
    obtain ⟨count, rfl, hcounted⟩ := hs.cleaned ho hreply
    refine settled_cleaned hexpire ?_
    rw [hcounted, List.nil_append, List.append_nil]
  refine settled_callMetered (fun o x ho hs hreply => ?_) fun e => hcleanup
  obtain ⟨results, rfl, hcounted⟩ := hs.recoveries ho hreply
  refine settled_recovered hcleanup ?_
  rw [hcounted, List.nil_append, List.append_nil]

/-! ### Dispatches -/

section Dispatch

variable {ctx : DispatchContext H} {task : TaskRecord} {a : Bool} {queueOf kindOf : TaskId → String}

/-- A dispatch as a client that counts. -/
abbrev DispatchProgram.metered (a : Bool) (p : DispatchProgram H α) : MetricProgram H α :=
  (p.asClient a).metered

theorem backed_duration {value : ℚ} {labels : List (String × String)}
    {k : Unit → DispatchProgram H α}
    (hk : Backed MetricEffect.units shows spec known (DispatchProgram.metered a (k ()))) :
    Backed MetricEffect.units shows spec known (DispatchProgram.metered a
      (recordMetric ctx task .taskDurationSeconds value labels >>= k)) := by
  unfold recordMetric
  split
  · exact .quiet rfl fun _ => hk
  · exact hk

/-- A program ends with the duration. -/
theorem backed_duration_last {value : ℚ} {labels : List (String × String)} :
    Backed MetricEffect.units shows spec known (DispatchProgram.metered a
      (recordMetric ctx task .taskDurationSeconds value labels)) := by
  rw [← Program.bind_pure (recordMetric ..)]
  exact backed_duration (.pure ())

/-- A dispatch counts one under the queue and the kind of its task. -/
theorem backed_count {instrument : Instrument} {counter : CounterName}
    (hcounter : instrument.counter? = some counter) {k : Unit → DispatchProgram H α}
    (hk : Backed MetricEffect.units shows spec rest (DispatchProgram.metered a (k ()))) :
    Backed MetricEffect.units shows spec
      (⟨counter, [("queue", ctx.queueStr), ("kind", task.kind.asStr)]⟩ :: rest)
      (DispatchProgram.metered a (recordMetric ctx task instrument 1 [] >>= k)) := by
  unfold recordMetric
  split
  · refine .own (fun _ => hk) ?_
    rw [MetricEffect.units, hcounter]
    exact .refl _
  · exact hk.mono (List.sublist_cons_self _ _).subperm

theorem backed_count_last {instrument : Instrument} {counter : CounterName}
    (hcounter : instrument.counter? = some counter) :
    Backed MetricEffect.units shows spec
      (⟨counter, [("queue", ctx.queueStr), ("kind", task.kind.asStr)]⟩ :: rest)
      (DispatchProgram.metered a (recordMetric ctx task instrument 1 [])) := by
  rw [← Program.bind_pure (recordMetric ..)]
  exact backed_count hcounter (.pure ())

/-- An event on the span counts nothing. -/
theorem backed_spanEvent {fromStatus toStatus : TaskStatus} {extra : Option (String × String)}
    {k : Unit → DispatchProgram H α}
    (hk : Backed MetricEffect.units shows spec known (DispatchProgram.metered a (k ()))) :
    Backed MetricEffect.units shows spec known (DispatchProgram.metered a
      (addEvent ctx task fromHex fromStatus toStatus extra >>= k)) := by
  unfold addEvent
  split
  · exact .quiet rfl fun _ => hk
  · exact hk

/-- A dispatch writes an outcome; where it is answered with the record, the database has shown it. -/
theorem backed_outcome {op : Op} {k : Except String TaskRecord → DispatchProgram H α}
    (hop : ∀ o record, o.op = some ⟨a, op, none⟩ → spec o →
      o.reply = some (.ok (.task record)) → shows o = known)
    (hok : ∀ record, Backed MetricEffect.units shows spec known
      (DispatchProgram.metered a (k (.ok record))))
    (herr : ∀ text, Backed MetricEffect.units shows spec []
      (DispatchProgram.metered a (k (.error text)))) :
    Backed MetricEffect.units shows spec []
      (DispatchProgram.metered a (perform (.write op) >>= k)) := by
  refine .call (fun o text ho hs => ?_) fun text => herr text
  rcases writeAnswer_cases text o.reply with h | ⟨record, hreply, h⟩
  · have hk := (herr text).mono (List.nil_subperm (l := [] ++ shows o))
    rw [← h] at hk
    exact hk
  · have hk := hok record
    rw [← h, ← hop o record ho hs hreply] at hk
    exact hk

/-- The labels of a dispatch are those of its task. -/
structure DispatchContext.Labels (ctx : DispatchContext H) (task : TaskRecord)
    (queueOf kindOf : TaskId → String) : Prop where
  queue : ctx.queueStr = queueOf task.id
  kind : task.kind.asStr = kindOf task.id

variable (hlabels : ctx.Labels task queueOf kindOf)

include hlabels

/-- A failure that a dispatch has written counts once. -/
theorem counted_of_fail {err : String} {o : Outcome} {record : TaskRecord}
    (hop : o.op = some ⟨a, .fail task.id err ctx.baseDelaySecs ctx.maxDelaySecs, none⟩)
    (h : Labelled queueOf kindOf o) (hreply : o.reply = some (.ok (.task record))) :
    o.counted = [⟨.taskFailuresTotal, [("queue", ctx.queueStr), ("kind", task.kind.asStr)]⟩] := by
  rw [h.failed hop hreply, hlabels.queue, hlabels.kind]

/-- A suspension that a dispatch has written counts once. -/
theorem counted_of_suspend {o : Outcome} {record : TaskRecord}
    (hop : o.op = some ⟨a, .suspend task.id, none⟩) (h : Labelled queueOf kindOf o)
    (hreply : o.reply = some (.ok (.task record))) :
    o.counted = [⟨.tasksSuspendedTotal, [("queue", ctx.queueStr), ("kind", task.kind.asStr)]⟩] := by
  rw [h.suspended hop hreply, hlabels.queue, hlabels.kind]

theorem counted_handleTaskFailure {err : String} {elapsed : Duration} :
    Backed MetricEffect.units Outcome.counted (Labelled queueOf kindOf) []
      (DispatchProgram.metered a (handleTaskFailure ctx task err elapsed)) := by
  refine backed_outcome (fun o record => counted_of_fail hlabels) (fun record => ?_) fun text => ?_
  · exact .quiet rfl fun _ => backed_count rfl backed_duration_last
  · exact .quiet rfl fun _ => .quiet rfl fun _ => backed_duration_last

/-- A handler that is missing is not counted. -/
theorem counted_dispatchMissing :
    Backed MetricEffect.units Outcome.counted (Labelled queueOf kindOf) []
      (DispatchProgram.metered a (dispatchMissing ctx task)) := by
  refine .quiet rfl fun _ => .quiet rfl fun _ => backed_outcome
    (fun o record => counted_of_fail hlabels) (fun record => ?_) fun text => ?_
  · exact .quiet rfl fun _ => .pure ()
  · exact .quiet rfl fun _ => .pure ()

theorem counted_dispatchPanicked {panicMsg : String} :
    Backed MetricEffect.units Outcome.counted (Labelled queueOf kindOf) []
      (DispatchProgram.metered a (dispatchPanicked ctx task fromHex panicMsg)) := by
  refine backed_spanEvent (.quiet rfl fun _ => backed_outcome
    (fun o record => counted_of_fail hlabels) (fun record => ?_) fun text => ?_)
  · exact .quiet rfl fun _ => backed_count_last rfl
  · exact .quiet rfl fun _ => .pure ()

theorem counted_dispatchReturned {result : Except HandlerError Unit} :
    Backed MetricEffect.units Outcome.counted (Labelled queueOf kindOf) []
      (DispatchProgram.metered a (dispatchReturned ctx task fromHex result)) := by
  refine .quiet rfl fun elapsed => ?_
  cases result with
  | ok u =>
    have hnone : ∀ o : Outcome, o.op = some ⟨a, .complete task.id, none⟩ → o.counted = [] :=
      fun o hop => by
        rw [Outcome.counted_of_op hop]
        exact List.flatMap_eq_nil_iff.mpr fun _ _ => rfl
    refine backed_outcome (fun o record hop _ _ => hnone o hop) (fun record => ?_) fun text => ?_
    · exact backed_spanEvent (.quiet rfl fun _ => backed_duration_last)
    · exact .quiet rfl fun _ => .quiet rfl fun _ => backed_duration_last
  | error e =>
    cases e with
    | suspendRequested =>
      refine backed_outcome (fun o record => counted_of_suspend hlabels) (fun record => ?_)
        fun text => ?_
      · exact backed_spanEvent (.quiet rfl fun _ => backed_count rfl backed_duration_last)
      · exact .quiet rfl fun _ => .quiet rfl fun _ => .pure ()
    | other text =>
      exact backed_spanEvent (counted_handleTaskFailure hlabels)

/-- **What a dispatch counts, it has heard.** -/
theorem counted_dispatchTask :
    Backed MetricEffect.units Outcome.counted (Labelled queueOf kindOf) []
      (DispatchProgram.metered a (dispatchTask ctx task fromHex)) := by
  unfold dispatchTask
  split
  · exact counted_dispatchMissing hlabels
  · refine backed_spanEvent (.quiet rfl fun joined => ?_)
    change Backed _ _ _ _ (DispatchProgram.metered a (dispatchJoined ctx task fromHex joined))
    cases joined with
    | ok result => exact counted_dispatchReturned hlabels
    | error e =>
      cases e with
      | panic payload => exact counted_dispatchPanicked hlabels
      | cancelled text => exact backed_spanEvent (.quiet rfl fun _ => .pure ())

end Dispatch

/-! ### The clients -/

/-- A task that is given back is not counted. -/
theorem counted_releaseTask (p : Poller H) (task : TaskRecord) :
    Backed MetricEffect.units shows spec known
      (callStore (p.releaseCall task) >>= reportReleasedTask fromHex p task).metered := by
  have hreport : ∀ (known : List Series) (reply : Reply),
      Backed MetricEffect.units shows spec known (reportReleasedTask fromHex p task reply).metered := by
    intro known reply
    unfold reportReleasedTask
    split
    · rw [← Program.bind_pure (AppProgram.metered _)]
      exact .bind_quiet (all_report _) fun _ => .pure _
    · exact .pure _
  exact .call (fun o text _ _ => hreport _ _) fun text => hreport _ _

/-- **What a worker counts, it has heard.** -/
theorem backed_claimTick {queueOf kindOf : TaskId → String} (p : Poller H) :
    Backed MetricEffect.units Outcome.counted (Labelled queueOf kindOf) []
      (claimTick fromHex p) := by
  refine .call (fun (o : Outcome) text ho hs => ?_) fun text => .pure ()
  have hquiet : Backed MetricEffect.units Outcome.counted (Labelled queueOf kindOf)
      ([] ++ o.counted) (.pure () : MetricProgram H Unit) := .pure ()
  change Backed _ _ _ _ (match (o.reply.getD (.error TaskServer.queryFailed) : Reply) with
    | .ok (.claimed (some task)) => countClaimed fromHex p task
    | _ => Pure.pure ())
  cases hreply : o.reply with
  | none => exact hquiet
  | some reply =>
    rw [Option.getD_some]
    split
    next task =>
      obtain ⟨hcounted, hqueue, hkind⟩ := hs.claimed ho hreply
      rw [hcounted, List.nil_append]
      refine .quiet rfl fun cancelled => ?_
      cases cancelled with
      | true => exact counted_releaseTask p task
      | false =>
        have hdispatch : Backed MetricEffect.units Outcome.counted (Labelled queueOf kindOf) []
            (DispatchProgram.metered p.auditLog (dispatchTask p.dispatchContext task fromHex)) :=
          counted_dispatchTask ⟨hqueue, hkind⟩
        change Backed _ _ _ _ (addTo p.metrics 1 _ >>= fun _ => DispatchProgram.metered _ _)
        unfold addTo
        split
        · exact .own (fun _ => hdispatch) (.refl _)
        · exact hdispatch.mono List.nil_subperm
    · exact hquiet

end Counted

/-! ## Runs -/

section Runs

variable {H : Type} {fromHex : String → Bool} {ok : List Outcome → System → Move → Prop}
  {t : Table TaskRow.id} {log : List (ℕ × AuditRow)} {n : ℕ} {os : List Outcome} {db : System}

/-- The queue of a stored task. -/
def queueIn (db : System) (id : TaskId) : String := ((db.table.get id).map TaskRow.queue).getD ""

/-- The kind of a stored task. -/
def kindIn (db : System) (id : TaskId) : String := ((db.table.get id).map TaskRow.kind).getD ""

/-- What has been committed about a task has its labels, which it keeps. -/
theorem Runs.labelled (h : Runs ok (.idle t log n) os db) :
    ∀ o ∈ os, Labelled (queueIn db) (kindIn db) o := by
  intro o ho
  have hkept : ∀ c ∈ o.changes, ∃ w, db.table.get c.new.id = some w ∧ SameTask c.new w := by
    intro c hc
    obtain ⟨pre, suf, rfl⟩ := List.append_of_mem ho
    have h' : Runs ok (.idle t log n) ((pre ++ [o]) ++ suf) db := by simpa using h
    obtain ⟨d, hd⟩ := h'.of_append
    obtain ⟨w, hw, hsame, -⟩ := h'.version_later hd (Runs.get_of_last hd hc)
    exact ⟨w, hw, hsame⟩
  refine ⟨Runs.spec_idle h o ho, fun c hc => ?_, fun c hc => ?_⟩
  · obtain ⟨w, hw, hsame⟩ := hkept c hc
    rw [queueIn, hw]
    exact hsame.queue.symm
  · obtain ⟨w, hw, hsame⟩ := hkept c hc
    rw [kindIn, hw]
    exact hsame.kind.symm

/-- The database and the clients that count. -/
abbrev MetricSite (H : Type) :=
  Site TaskRow.id AuditRow Stmt Stmt.Res Call Began Reply SqlError (MetricClient H)
    (MetricEffect.Answer (H := H)) String

namespace MetricSite

abbrev Event (H : Type) :=
  Site.Event Call Began Env (MetricClient H) (MetricEffect.Answer (H := H)) String

abbrev step (fromHex : String → Bool) : MetricSite H → MetricSite.Event H → Option (MetricSite H) :=
  Site.step postgres Call.program Env.seen SameLife (MetricClient.program fromHex)

/-- The site on a database that serves nobody yet. -/
def idle (t : Table TaskRow.id) (log : List (ℕ × AuditRow)) (n : ℕ) : MetricSite H :=
  ⟨.idle (.idle t log n), []⟩

/-- What all clients together have added to a time series. -/
def added (s : MetricSite H) (series : Series) : ℕ :=
  (s.clients.flatMap fun c => told MetricEffect.units c.past).count series

/-- What has been committed that counts under it. -/
def committed (s : MetricSite H) (series : Series) : ℕ :=
  (s.server.shown.flatMap Outcome.counted).count series

end MetricSite

/-- A client of any kind counts what it has heard. -/
theorem told_le_heard {queueOf kindOf : TaskId → String} {c : MetricClient H}
    {es : List (Taken Call (MetricEffect H) MetricEffect.Answer Outcome)} {q : MetricProgram H Unit}
    (h : (c.program fromHex).Follows es q) (hes : AllMeet (Labelled queueOf kindOf) es) :
    (told MetricEffect.units es).Subperm (heardOf Outcome.counted es) := by
  cases c with
  | claimTick p => exact backed_claimTick p es q h hes
  | sweepCycle auditLog metrics now suspendTimeout =>
    have hle : ∀ o, (heardCount metrics o).Sublist o.counted := by
      intro o
      unfold heardCount Outcome.answered
      split
      · split
        · exact List.Sublist.refl _
        · exact List.nil_sublist _
        · exact List.nil_sublist _
      · exact List.nil_sublist _
    have htold := (settled_sweepCycle auditLog metrics now suspendTimeout).backed es q h
      fun o ho => (hes o ho).meets
    exact htold.trans (List.Sublist.flatMap_right _ fun o _ => hle o).subperm

/-- **No counter counts what has not been committed, or twice.** In every run of any number of
workers and sweepers on one database, among any other calls, whatever fails and whatever answers are
lost: what all clients together have added to a time series is at most what has been committed that
counts under it. And a sweep with metrics that has come to its end has added, to every series, what
its calls were answered with. -/
theorem counters_backed {evs : List (MetricSite.Event H)} {s : MetricSite H}
    (hrun : evs.foldlM (MetricSite.step fromHex) (.idle t log n) = some s) :
    (∀ series, s.added series ≤ s.committed series) ∧
      ∀ c ∈ s.clients, ∀ auditLog now suspendTimeout,
        c.origin = .sweepCycle auditLog true now suspendTimeout → c.rest = .pure ⟨⟩ →
          (told MetricEffect.units c.past).Perm (heardOf Outcome.answered c.past) := by
  have hsound := Site.Sound.of_run rfl hrun
  have hlabelled := Runs.labelled hsound.server.served
  refine ⟨fun series => ?_, fun c hc auditLog now suspendTimeout horigin hrest => ?_⟩
  · refine (hsound.told_subperm fun c hc => ?_).count_le series
    obtain ⟨⟨q, hq, -⟩, -, hheard⟩ := hsound.clients c hc
    exact told_le_heard hq fun o ho => hlabelled o (hheard o ho).1
  · have hfollows := (hsound.clients c hc).follows_rest (by simp [hrest])
    rw [horigin, hrest] at hfollows
    obtain ⟨-, -, hheard⟩ := hsound.clients c hc
    exact (settled_sweepCycle auditLog true now suspendTimeout).whole c.past _ hfollows
      fun o ho => (hlabelled o (hheard o ho).1).meets

end Runs

/-- Surroundings in which the token of a worker is not cancelled. -/
def meteredSurrounding : ∀ t : MetricEffect Unit, t.Answer
  | .app e => surrounding (.ok (.ok ())) e
  | .add .. => ()

/-- The database serves a call, which has the number `sid`. -/
def meteredServe (sid : ℕ) (es : List Env) : List (MetricSite.Event Unit) :=
  (es.map fun e => .database (.exec sid e)) ++ [.database (.finish sid)]

/-- The sample task is claimed, its lease expires, and a sweep returns it. -/
def sweptMoves : List (MetricSite.Event Unit) :=
  .call (callOf (.save (sampleTask .default))) ⟨10⟩ :: meteredServe 0 [.all] ++
  .call (callOf (.claimNext sampleQueue sampleWorker 1000000000 none)) ⟨20⟩ :: meteredServe 1 [.all] ++
  [.enter (.sweepCycle false true 0 86400000000000), .send 0 ⟨20000000⟩] ++ meteredServe 2 [.all, .all] ++
  [.hear 0 "", .act 0 meteredSurrounding, .send 0 ⟨20000001⟩] ++ meteredServe 3 [.all] ++
  [.hear 0 "", .send 0 ⟨20000002⟩] ++ meteredServe 4 [.all] ++ [.hear 0 ""]

/-- The sweep has counted the recovery of the sample task, once, as it was committed. -/
theorem sweep_counted : ∃ s : MetricSite Unit,
    sweptMoves.foldlM (MetricSite.step fun _ => true) (.idle ∅ [] 1) = some s ∧
      s.added ⟨.zombieRecoveriesTotal, [("queue", sampleQueue.asStr)]⟩ = 1 ∧
        ∀ series, s.added series ≤ s.committed series := by
  have hrun : (sweptMoves.foldlM (MetricSite.step fun _ => true) (.idle ∅ [] 1)).map (fun s =>
      s.added ⟨.zombieRecoveriesTotal, [("queue", sampleQueue.asStr)]⟩) = some 1 := by
    decide +kernel
  obtain ⟨s, hs, hadded⟩ := Option.map_eq_some_iff.mp hrun
  exact ⟨s, hs, hadded, (counters_backed hs).1⟩

end IronDefer
