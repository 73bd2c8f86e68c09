import IronDefer.Application.Worker
import IronDefer.Infrastructure.Fencing
import IronDefer.RowStore.Server

/-!
# Running engines

An engine that has been started polls for tasks, hands each one it has claimed to a dispatch of its
own, and shuts down when its token is cancelled: it lets the dispatches drain, and where they take
too long, aborts them and releases the leases of its worker. A dispatch runs the handler in a task
of its own and waits for it. Any number of engines run on one database, among the calls of their
clients.

## Main definitions

* `Worker`: an engine that has been started, with its poll loop, its dispatches and its handlers
* `Worker.step`: the steps of `runPollLoop`, `dispatchTask` and `start`
* `Fleet`, `Fleet.step`: the database, the engines and their clients
* `Fleets`: the runs of a fleet

## Main results

* `Worker.step_of_step`: what an engine can do, one case for each way to go
-/

namespace IronDefer

open RowStore

/-! ## Answers -/

/-- The database, as its clients see it. -/
abbrev TaskServer := Server TaskRow.id AuditRow Stmt Stmt.Res Call Began Reply SqlError

/-- Two versions of a row say the same of the life of the task. -/
def SameLife (r r' : TaskRow) : Prop := r.life = r'.life

instance : DecidableRel SameLife := fun r r' => inferInstanceAs (Decidable (r.life = r'.life))

namespace TaskServer

abbrev call (sv : TaskServer) (c : Call) (b : Began) : Option TaskServer :=
  Server.call postgres Call.program sv c b

abbrev proceed (sv : TaskServer) (ev : Move) : Option TaskServer :=
  Server.proceed postgres Call.program Env.seen SameLife sv ev

/-- The error of a call whose transaction has failed, or whose connection has. -/
def queryFailed : RepoError := .storage (.message "database query failed")

/-- The answer a client gets: the reply, or an error where the transaction has failed. Where the
connection is `lost`, it gets an error whatever becomes of its transaction. -/
def hear (sv : TaskServer) (sid : ℕ) (lost : Bool) : Option (Reply × TaskServer) :=
  if lost then some (.error queryFailed, sv.leave [sid])
  else (sv.answer? sid).map fun a => (a.getD (.error queryFailed), sv)

end TaskServer

/-! ## Engines -/

/-- Where the dispatch of a task is: not polled yet, waiting for its handler, back from it, waiting
for the answer to its outcome, or done. -/
inductive DispatchStage where
  | spawned
  | executing
  | returned (result : HandlerResult)
  | writing (sid : ℕ)
  | finished
  deriving DecidableEq

/-- A dispatch in the join set, by the number of its claim. -/
structure Dispatch where
  claim : ℕ
  task : TaskRecord
  stage : DispatchStage

/-- A handler that is executing, in a task of its own. -/
structure Handler where
  claim : ℕ
  task : TaskRecord

/-- Where an engine is. It polls, backs off, waits for a claim, or for the release of a lease
claimed too late; it drains, aborts its dispatches, waits for the release of its leases; it joins
its sweeper, and has returned, having released its leases or not. -/
inductive Stage where
  | polling
  | backingOff
  | claiming (sid : ℕ)
  | releasing (sid : ℕ) (task : TaskRecord)
  | draining
  | aborting
  | releasingAll (sid : ℕ)
  | joining (released : Option Bool)
  | returned (released : Option Bool)
  | crashed
  deriving DecidableEq

/-- An engine that has been started. `kinds` are the kinds of task it has a handler for. -/
structure Worker where
  id : WorkerId
  auditLog : Bool
  queue : QueueName
  config : WorkerConfig
  kinds : List String
  cancelled : Bool
  stage : Stage
  joinSet : Table Dispatch.claim
  handlers : Table Handler.claim

namespace Worker

def start (id : WorkerId) (auditLog : Bool) (queue : QueueName) (config : WorkerConfig)
    (kinds : List String) : Worker where
  id
  auditLog
  queue
  config
  kinds
  cancelled := false
  stage := .polling
  joinSet := ∅
  handlers := ∅

/-- The execution a claimed task is. -/
def execution (wk : Worker) (task : TaskRecord) : Execution :=
  ⟨task.id, task.attempts.get.val, wk.id⟩

def claimCall (wk : Worker) : Call :=
  ⟨wk.auditLog, .claimNext wk.queue wk.id wk.config.leaseDuration wk.config.region, none⟩

/-- A call on behalf of the execution of a task. -/
def callFor (wk : Worker) (task : TaskRecord) (op : Op) : Call :=
  ⟨wk.auditLog, op, some (wk.execution task)⟩

def releaseCall (wk : Worker) (task : TaskRecord) : Call :=
  wk.callFor task (.releaseLeaseForTask task.id)

def releaseAllCall (wk : Worker) : Call := ⟨wk.auditLog, .releaseLeasesForWorker wk.id, none⟩

/-- The dispatches that hold a permit. -/
def inFlight (wk : Worker) : List Dispatch :=
  wk.joinSet.rows.filter fun d => decide (d.stage ≠ .finished)

/-- Reap the dispatches that are done. -/
def reap (wk : Worker) : Worker :=
  { wk with joinSet := wk.joinSet.filter fun d => decide (d.stage ≠ .finished) }

/-- A dispatch goes on to another stage. -/
def advance (wk : Worker) (d : Dispatch) (stage : DispatchStage) : Worker :=
  { wk with joinSet := wk.joinSet.put { d with stage } }

/-- The transactions whose answer a dispatch waits for. -/
def awaited (d : Dispatch) : List ℕ :=
  match d.stage with
  | .writing sid => [sid]
  | .spawned | .executing | .returned _ | .finished => []

/-- The transactions whose answers an engine waits for. -/
def awaitedAll (wk : Worker) : List ℕ :=
  (match wk.stage with
    | .claiming sid | .releasing sid _ | .releasingAll sid => [sid]
    | _ => []) ++ wk.joinSet.rows.flatMap awaited

/-- What happens to an engine. -/
inductive Event where
  /-- The token is cancelled. -/
  | cancel
  /-- The backoff is over, or a dispatch that was done has been reaped. -/
  | resume
  /-- The poll loop sees the cancellation while it waits. -/
  | stop
  /-- The interval ticks. -/
  | tick (b : Began)
  /-- The poll loop sees the cancellation while it waits for a claim. -/
  | dropClaim
  /-- The answer to a claim arrives. -/
  | claimed (lost : Bool) (b : Began)
  /-- The answer to the release of a lease claimed too late arrives. -/
  | released (lost : Bool)
  /-- A dispatch is polled for the first time. -/
  | dispatch (claim : ℕ) (b : Began)
  /-- A handler ends. -/
  | handled (claim : ℕ) (result : HandlerResult)
  /-- A dispatch whose handler has ended reports its outcome. -/
  | report (claim : ℕ) (b : Began)
  /-- The answer to an outcome arrives. -/
  | reported (claim : ℕ) (lost : Bool)
  /-- All dispatches are done. -/
  | drained
  /-- The drain takes too long. -/
  | timedOut
  /-- An aborted dispatch is dropped. -/
  | abort (claim : ℕ)
  /-- All aborted dispatches have been joined. -/
  | releaseAll (b : Began)
  /-- The answer to the release of all leases arrives. -/
  | releasedAll (lost : Bool)
  /-- The sweeper has been joined. -/
  | ret
  /-- The process dies. -/
  | crash
  deriving DecidableEq

end Worker

/-- What a step of a fleet shows: the dispatch of a claimed task; a claim that the poll loop has
given up, or got an error for; an outcome or a release that was answered with an error. -/
inductive FleetOutput where
  | silent
  | dispatched (claim : ℕ) (w : WorkerId) (task : TaskRecord)
  | unanswered (w : WorkerId) (claim : ℕ)
  | unreported (x : Execution)
  deriving DecidableEq

namespace Worker

/-- What becomes of the reply to an outcome, or to a release. -/
def replied (x : Execution) : Reply → FleetOutput
  | .ok _ => .silent
  | .error _ => .unreported x

/-- One step of an engine, where it is enabled, and what it shows. -/
def step (wk : Worker) (sv : TaskServer) : Event → Option (Worker × TaskServer × FleetOutput)
  | .cancel => some ({ wk with cancelled := true }, sv, .silent)
  | .resume =>
    if wk.stage = .backingOff then some ({ wk with stage := .polling }, sv, .silent) else none
  | .stop =>
    if wk.cancelled = true ∧ (wk.stage = .polling ∨ wk.stage = .backingOff) then
      some ({ wk with stage := .draining }, sv, .silent)
    else none
  | .tick b =>
    if wk.stage = .polling then
      let wk := wk.reap
      if wk.config.concurrency ≤ wk.inFlight.length then some (wk, sv, .silent)
      else (sv.call wk.claimCall b).map fun sv' =>
        ({ wk with stage := .claiming sv.next }, sv', .silent)
    else none
  | .dropClaim =>
    match wk.stage with
    | .claiming sid =>
      if wk.cancelled then
        some ({ wk with stage := .draining }, sv.leave [sid], .unanswered wk.id sid)
      else none
    | _ => none
  | .claimed lost b =>
    match wk.stage with
    | .claiming sid =>
      match sv.hear sid lost with
      | some (.error _, sv) =>
        some ({ wk with stage := .backingOff }, sv, .unanswered wk.id sid)
      | some (.ok (.claimed none), sv) => some ({ wk with stage := .polling }, sv, .silent)
      | some (.ok (.claimed (some task)), sv) =>
        -- the token is checked between the claim and the spawn
        if wk.cancelled then
          (sv.call (wk.releaseCall task) b).map fun sv' =>
            ({ wk with stage := .releasing sv.next task }, sv', .silent)
        else
          some ({ wk with
              stage := .polling
              joinSet := wk.joinSet.put ⟨sid, task, .spawned⟩ }, sv, .dispatched sid wk.id task)
      | _ => none
    | _ => none
  | .released lost =>
    match wk.stage with
    | .releasing sid task =>
      (sv.hear sid lost).map fun h =>
        ({ wk with stage := .draining }, h.2, replied (wk.execution task) h.1)
    | _ => none
  | .dispatch claim b =>
    match wk.joinSet.get claim with
    | some d =>
      if d.stage = .spawned then
        if d.task.kind.asStr ∈ wk.kinds then
          -- the handler runs in a task of its own
          some ({ wk.advance d .executing with
            handlers := wk.handlers.put ⟨claim, d.task⟩ }, sv, .silent)
        else (sv.call (wk.callFor d.task (missingHandler wk.config d.task)) b).map fun sv' =>
          (wk.advance d (.writing sv.next), sv', .silent)
      else none
    | none => none
  | .handled claim result =>
    match wk.handlers.get claim with
    | some _ =>
      let wk := { wk with handlers := wk.handlers.erase claim }
      match wk.joinSet.get claim with
      | some d =>
        if d.stage = .executing then some (wk.advance d (.returned result), sv, .silent)
        else some (wk, sv, .silent)
      | none => some (wk, sv, .silent)
    | none => none
  | .report claim b =>
    match wk.joinSet.get claim with
    | some d =>
      match d.stage with
      | .returned result =>
        (sv.call (wk.callFor d.task (outcome wk.config d.task result)) b).map fun sv' =>
          (wk.advance d (.writing sv.next), sv', .silent)
      | _ => none
    | none => none
  | .reported claim lost =>
    match wk.joinSet.get claim with
    | some d =>
      match d.stage with
      | .writing sid =>
        (sv.hear sid lost).map fun h =>
          (wk.advance d .finished, h.2, replied (wk.execution d.task) h.1)
      | _ => none
    | none => none
  | .drained =>
    if wk.stage = .draining ∧ wk.inFlight = [] then
      some ({ wk with stage := .joining none, joinSet := ∅ }, sv, .silent)
    else none
  | .timedOut =>
    if wk.stage = .draining ∧ wk.inFlight ≠ [] then
      some ({ wk with stage := .aborting }, sv, .silent)
    else none
  | .abort claim =>
    if wk.stage = .aborting then
      match wk.joinSet.get claim with
      | some d =>
        some ({ wk with joinSet := wk.joinSet.erase claim }, sv.leave (awaited d), .silent)
      | none => none
    else none
  | .releaseAll b =>
    if wk.stage = .aborting ∧ wk.joinSet.rows = [] then
      (sv.call wk.releaseAllCall b).map fun sv' =>
        ({ wk with stage := .releasingAll sv.next }, sv', .silent)
    else none
  | .releasedAll lost =>
    match wk.stage with
    | .releasingAll sid =>
      (sv.hear sid lost).map fun h =>
        ({ wk with stage := .joining (some h.1.isOk) }, h.2, .silent)
    | _ => none
  | .ret =>
    match wk.stage with
    | .joining released => some ({ wk with stage := .returned released }, sv, .silent)
    | _ => none
  | .crash =>
    some ({ wk with stage := .crashed, joinSet := ∅, handlers := ∅ }, sv.leave wk.awaitedAll, .silent)

/-- The steps of an engine, one case for each way to go. -/
inductive Step (wk : Worker) (sv : TaskServer) :
    Event → Worker → TaskServer → FleetOutput → Prop
  | cancel : Step wk sv .cancel { wk with cancelled := true } sv .silent
  | resume : wk.stage = .backingOff → Step wk sv .resume { wk with stage := .polling } sv .silent
  | stop : wk.cancelled = true → wk.stage = .polling ∨ wk.stage = .backingOff →
      Step wk sv .stop { wk with stage := .draining } sv .silent
  | full {b} : wk.stage = .polling → Step wk sv (.tick b) wk.reap sv .silent
  | tick {b sv'} : wk.stage = .polling → wk.reap.inFlight.length < wk.config.concurrency →
      sv.call wk.claimCall b = some sv' →
      Step wk sv (.tick b) { wk.reap with stage := .claiming sv.next } sv' .silent
  | dropClaim {sid} : wk.stage = .claiming sid → wk.cancelled = true →
      Step wk sv .dropClaim { wk with stage := .draining } (sv.leave [sid]) (.unanswered wk.id sid)
  | claimFailed {lost b sid e sv'} : wk.stage = .claiming sid →
      sv.hear sid lost = some (.error e, sv') →
      Step wk sv (.claimed lost b) { wk with stage := .backingOff } sv' (.unanswered wk.id sid)
  | unclaimed {lost b sid} : wk.stage = .claiming sid →
      sv.answer? sid = some (some (.ok (.claimed none))) →
      Step wk sv (.claimed lost b) { wk with stage := .polling } sv .silent
  | claimedLate {lost b sid task sv'} : wk.stage = .claiming sid → wk.cancelled = true →
      sv.answer? sid = some (some (.ok (.claimed (some task)))) →
      sv.call (wk.releaseCall task) b = some sv' →
      Step wk sv (.claimed lost b) { wk with stage := .releasing sv.next task } sv' .silent
  | spawn {lost b sid task} : wk.stage = .claiming sid → wk.cancelled = false →
      sv.answer? sid = some (some (.ok (.claimed (some task)))) →
      Step wk sv (.claimed lost b)
        { wk with stage := .polling, joinSet := wk.joinSet.put ⟨sid, task, .spawned⟩ } sv
        (.dispatched sid wk.id task)
  | released {lost sid task r sv'} : wk.stage = .releasing sid task →
      sv.hear sid lost = some (r, sv') →
      Step wk sv (.released lost) { wk with stage := .draining } sv'
        (replied (wk.execution task) r)
  | execute {claim b d} : wk.joinSet.get claim = some d → d.stage = .spawned →
      d.task.kind.asStr ∈ wk.kinds →
      Step wk sv (.dispatch claim b)
        { wk.advance d .executing with handlers := wk.handlers.put ⟨claim, d.task⟩ } sv .silent
  | missing {claim b d sv'} : wk.joinSet.get claim = some d → d.stage = .spawned →
      d.task.kind.asStr ∉ wk.kinds →
      sv.call (wk.callFor d.task (missingHandler wk.config d.task)) b = some sv' →
      Step wk sv (.dispatch claim b) (wk.advance d (.writing sv.next)) sv' .silent
  | handled {claim result h d} : wk.handlers.get claim = some h →
      wk.joinSet.get claim = some d → d.stage = .executing →
      Step wk sv (.handled claim result)
        (Worker.advance { wk with handlers := wk.handlers.erase claim } d (.returned result)) sv .silent
  | handledAlone {claim result h} : wk.handlers.get claim = some h →
      Step wk sv (.handled claim result) { wk with handlers := wk.handlers.erase claim } sv .silent
  | report {claim b d result sv'} : wk.joinSet.get claim = some d → d.stage = .returned result →
      sv.call (wk.callFor d.task (outcome wk.config d.task result)) b = some sv' →
      Step wk sv (.report claim b) (wk.advance d (.writing sv.next)) sv' .silent
  | reported {claim lost d sid r sv'} : wk.joinSet.get claim = some d → d.stage = .writing sid →
      sv.hear sid lost = some (r, sv') →
      Step wk sv (.reported claim lost) (wk.advance d .finished) sv'
        (replied (wk.execution d.task) r)
  | drained : wk.stage = .draining → wk.inFlight = [] →
      Step wk sv .drained { wk with stage := .joining none, joinSet := ∅ } sv .silent
  | timedOut : wk.stage = .draining → wk.inFlight ≠ [] →
      Step wk sv .timedOut { wk with stage := .aborting } sv .silent
  | abort {claim d} : wk.stage = .aborting → wk.joinSet.get claim = some d →
      Step wk sv (.abort claim) { wk with joinSet := wk.joinSet.erase claim } (sv.leave (awaited d))
        .silent
  | releaseAll {b sv'} : wk.stage = .aborting → wk.joinSet.rows = [] →
      sv.call wk.releaseAllCall b = some sv' →
      Step wk sv (.releaseAll b) { wk with stage := .releasingAll sv.next } sv' .silent
  | releasedAll {lost sid r sv'} : wk.stage = .releasingAll sid → sv.hear sid lost = some (r, sv') →
      Step wk sv (.releasedAll lost) { wk with stage := .joining (some r.isOk) } sv' .silent
  | ret {released} : wk.stage = .joining released →
      Step wk sv .ret { wk with stage := .returned released } sv .silent
  | crash : Step wk sv .crash { wk with stage := .crashed, joinSet := ∅, handlers := ∅ }
      (sv.leave wk.awaitedAll) .silent

/-- A reply that is not an error is the answer of the transaction. -/
theorem answer?_of_hear {sv sv' : TaskServer} {sid : ℕ} {lost : Bool} {x : Response}
    (h : sv.hear sid lost = some (.ok x, sv')) :
    sv.answer? sid = some (some (.ok x)) ∧ sv' = sv := by
  unfold TaskServer.hear at h
  split at h
  · cases h
  · obtain ⟨a, ha, heq⟩ := Option.map_eq_some_iff.mp h
    obtain ⟨hx, rfl⟩ := Prod.mk.inj heq
    cases a with
    | none => cases hx
    | some r =>
      obtain rfl : r = .ok x := hx
      exact ⟨ha, rfl⟩

/-- **What an engine can do.** -/
theorem step_of_step {wk wk' : Worker} {sv sv' : TaskServer} {e : Event} {o : FleetOutput}
    (h : wk.step sv e = some (wk', sv', o)) : wk.Step sv e wk' sv' o := by
  -- one case for each event, and the guards of the step are the premises of its constructor
  cases e with
  | cancel =>
    cases h
    exact .cancel
  | resume =>
    simp only [step] at h
    split at h
    next hs => cases h; exact .resume hs
    · cases h
  | stop =>
    simp only [step] at h
    split at h
    next hs => cases h; exact .stop hs.1 hs.2
    · cases h
  | tick b =>
    simp only [step] at h
    split at h
    next hs =>
      split at h
      · cases h
        exact .full hs
      next hfree =>
        obtain ⟨sv₁, hc, heq⟩ := Option.map_eq_some_iff.mp h
        cases heq
        exact .tick hs (Nat.not_le.mp hfree) hc
    · cases h
  | dropClaim =>
    simp only [step] at h
    split at h
    next hs =>
      split at h
      next hc => cases h; exact .dropClaim hs hc
      · cases h
    · cases h
  | claimed lost b =>
    simp only [step] at h
    split at h
    next sid hs =>
      split at h
      next hh => cases h; exact .claimFailed hs hh
      next hh =>
        obtain ⟨ha, rfl⟩ := answer?_of_hear hh
        cases h
        exact .unclaimed hs ha
      next task sv₁ hh =>
        obtain ⟨ha, rfl⟩ := answer?_of_hear hh
        split at h
        next hcancelled =>
          obtain ⟨sv₂, hc, heq⟩ := Option.map_eq_some_iff.mp h
          cases heq
          exact .claimedLate hs hcancelled ha hc
        next hcancelled =>
          cases h
          exact .spawn hs (Bool.eq_false_iff.mpr hcancelled) ha
      · cases h
    · cases h
  | released lost =>
    simp only [step] at h
    split at h
    next hs =>
      obtain ⟨⟨r, sv₁⟩, hh, heq⟩ := Option.map_eq_some_iff.mp h
      cases heq
      exact .released hs hh
    · cases h
  | dispatch claim b =>
    simp only [step] at h
    split at h
    next d hd =>
      split at h
      next hs =>
        split at h
        next hk => cases h; exact .execute hd hs hk
        next hk =>
          obtain ⟨sv₁, hc, heq⟩ := Option.map_eq_some_iff.mp h
          cases heq
          exact .missing hd hs hk hc
      · cases h
    · cases h
  | handled claim result =>
    simp only [step] at h
    split at h
    next hh =>
      split at h
      next d hd =>
        split at h
        next hs => cases h; exact .handled hh hd hs
        · cases h
          exact .handledAlone hh
      · cases h
        exact .handledAlone hh
    · cases h
  | report claim b =>
    simp only [step] at h
    split at h
    next d hd =>
      split at h
      next hs =>
        obtain ⟨sv₁, hc, heq⟩ := Option.map_eq_some_iff.mp h
        cases heq
        exact .report hd hs hc
      · cases h
    · cases h
  | reported claim lost =>
    simp only [step] at h
    split at h
    next d hd =>
      split at h
      next hs =>
        obtain ⟨⟨r, sv₁⟩, hh, heq⟩ := Option.map_eq_some_iff.mp h
        cases heq
        exact .reported hd hs hh
      · cases h
    · cases h
  | drained =>
    simp only [step] at h
    split at h
    next hs => cases h; exact .drained hs.1 hs.2
    · cases h
  | timedOut =>
    simp only [step] at h
    split at h
    next hs => cases h; exact .timedOut hs.1 hs.2
    · cases h
  | abort claim =>
    simp only [step] at h
    split at h
    next hs =>
      split at h
      next hd => cases h; exact .abort hs hd
      · cases h
    · cases h
  | releaseAll b =>
    simp only [step] at h
    split at h
    next hs =>
      obtain ⟨sv₁, hc, heq⟩ := Option.map_eq_some_iff.mp h
      cases heq
      exact .releaseAll hs.1 hs.2 hc
    · cases h
  | releasedAll lost =>
    simp only [step] at h
    split at h
    next hs =>
      obtain ⟨⟨r, sv₁⟩, hh, heq⟩ := Option.map_eq_some_iff.mp h
      cases heq
      exact .releasedAll hs hh
    · cases h
  | ret =>
    simp only [step] at h
    split at h
    next hs => cases h; exact .ret hs
    · cases h
  | crash =>
    cases h
    exact .crash

end Worker

/-! ## Fleets -/

/-- The operations the clients of an engine, its sweeper and its handlers send. -/
def Op.OfClient : Op → Prop
  | .claimNext .. | .complete _ | .fail .. | .suspend _ | .releaseLeaseForTask _
  | .releaseLeasesForWorker _ => False
  | _ => True

instance : DecidablePred Op.OfClient
  | .claimNext .. | .complete _ | .fail .. | .suspend _ | .releaseLeaseForTask _
  | .releaseLeasesForWorker _ => .isFalse id
  | .save _ | .saveIdempotent _ | .inTx .. | .cleanupExpiredIdempotencyKeys _ | .findById _
  | .signal .. | .recoverZombieTasks | .cancel _ | .expireSuspendedTasks _
  | .writeCheckpoint .. => .isTrue trivial

/-- A call of a client, a sweeper or a handler. -/
structure Call.OfClient (c : Call) : Prop where
  onBehalf : c.onBehalf = none
  op : c.op.OfClient
  pending : c.SavesPending

instance (c : Call) : Decidable c.OfClient :=
  decidable_of_iff (c.onBehalf = none ∧ c.op.OfClient ∧ c.SavesPending)
    ⟨fun h => ⟨h.1, h.2.1, h.2.2⟩, fun h => ⟨h.1, h.2, h.3⟩⟩

/-- A database and the engines that run on it. -/
structure Fleet where
  server : TaskServer
  workers : Table Worker.id

/-- What happens to a fleet: a client calls, the database makes a step, an engine is started, under
a worker id of its own, or something happens to an engine. -/
inductive Fleet.Event where
  | call (c : Call) (b : Began)
  | database (ev : Move)
  | start (id : WorkerId) (auditLog : Bool) (queue : QueueName) (config : WorkerConfig)
      (kinds : List String)
  | worker (w : WorkerId) (e : Worker.Event)

namespace Fleet

/-- An empty database without engines. -/
def idle : Fleet := ⟨Server.idle System.empty, ∅⟩

/-- One step of a fleet, where it is enabled, and what it shows. -/
def step (f : Fleet) : Event → Option (Fleet × FleetOutput)
  | .call c b =>
    if c.OfClient then (f.server.call c b).map fun sv => ({ f with server := sv }, .silent) else none
  | .database ev => (f.server.proceed ev).map fun sv => ({ f with server := sv }, .silent)
  | .start id auditLog queue config kinds =>
    match f.workers.get id, config.validate with
    | none, .ok () =>
      some ({ f with workers := f.workers.put (.start id auditLog queue config kinds) }, .silent)
    | _, _ => none
  | .worker w e =>
    match f.workers.get w with
    | some wk => (wk.step f.server e).map fun r => (⟨r.2.1, f.workers.put r.1⟩, r.2.2)
    | none => none

/-- The steps of a fleet, one case for each way to go. -/
inductive Step (f : Fleet) : Event → Fleet → FleetOutput → Prop
  | call {c b sv} : c.OfClient → f.server.call c b = some sv →
      Step f (.call c b) { f with server := sv } .silent
  | database {ev sv} : f.server.proceed ev = some sv →
      Step f (.database ev) { f with server := sv } .silent
  | start {id auditLog queue config kinds} : f.workers.get id = none → config.Valid →
      Step f (.start id auditLog queue config kinds)
        { f with workers := f.workers.put (.start id auditLog queue config kinds) } .silent
  | worker {w e wk wk' sv o} : f.workers.get w = some wk → wk.Step f.server e wk' sv o →
      Step f (.worker w e) ⟨sv, f.workers.put wk'⟩ o

theorem step_of_step {f f' : Fleet} {e : Event} {o : FleetOutput} (h : f.step e = some (f', o)) :
    f.Step e f' o := by
  -- a client calls, the database moves, an engine is started, or one of them moves
  cases e with
  | call c b =>
    simp only [step] at h
    split at h
    next hc =>
      obtain ⟨sv, hcall, heq⟩ := Option.map_eq_some_iff.mp h
      cases heq
      exact .call hc hcall
    · cases h
  | database ev =>
    obtain ⟨sv, hp, heq⟩ := Option.map_eq_some_iff.mp h
    cases heq
    exact .database hp
  | start =>
    simp only [step] at h
    split at h
    next hn hv =>
      cases h
      exact .start hn (WorkerConfig.validate_eq_ok_iff.mp hv)
    · cases h
  | worker w e =>
    simp only [step] at h
    split at h
    next hw =>
      obtain ⟨⟨wk', sv, o⟩, hs, heq⟩ := Option.map_eq_some_iff.mp h
      cases heq
      exact .worker hw (Worker.step_of_step hs)
    · cases h

end Fleet

/-- The runs of a fleet, from an empty database without engines. -/
abbrev Fleets : List FleetOutput → Fleet → Prop := Reaches Fleet.step (fun _ _ _ => True) .idle

end IronDefer
